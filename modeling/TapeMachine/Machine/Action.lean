import TapeMachine.Machine

/-!
Everything that can be asked of a machine, as data, with its answer and the
notices that it gives rise to.
-/

namespace TapeMachine

inductive Action
  | load (source input : Text)
  | reset (rewind : Bool)
  | step
  | batch (count : Json)
  | run (limit : Json)
  | start
  | pause
  | cancelPending
  | setDelay (value : Json)
  | setSteps (value : Json)
  | park (handle : Handle)

/-- What is reported about a machine to those who follow its work. -/
inductive Notice
  | loaded (commands bytes : Nat)
  | reset (rewind : Json)
  | halted (steps pc : Nat)

def Notice.message : Notice → Text
  | loaded commands bytes =>
    Text.ofString s!"Loaded {commands} ops, {bytes} input bytes"
  | reset rewind =>
    Text.ofString "Reset (rewind_input=" ++ rewind.display ++ Text.ofString ")"
  | halted steps pc => Text.ofString s!"Halted after {steps} steps at pc={pc}"

inductive Reply
  | done
  | canContinue (b : Bool)
  | executed (steps : Nat)

/-- A batch of as many steps as a value stands for. An already halted machine
does not look at it. -/
def Machine.batchOf (m : Machine) (count : Json) : Machine × Except Refusal Reply :=
  match countOf count with
  | .ok count =>
    let (m, alive) := m.batch count
    (m, .ok (.canContinue alive))
  | .error refusal =>
    if m.core.halted then (m.settle, .ok (.canContinue false)) else (m, .error refusal)

/-- A run to the limit that a value stands for, or without one. -/
def Machine.runOf (m : Machine) (limit : Json) : Option (Machine × Except Refusal Reply) :=
  match limitOf limit with
  | .error refusal => some (m, .error refusal)
  | .ok (some limit) =>
    let (m, count) := m.runFor limit
    some (m, .ok (.executed count))
  | .ok none => m.run.map fun (m, count) => (m, .ok (.executed count))

/-- Carries out an action. A refused value leaves the machine as it was, and
there is no outcome where the machine would run for ever. -/
def Machine.perform (m : Machine) : Action → Option (Machine × Except Refusal Reply)
  | .load source input => some (m.load source input, .ok .done)
  | .reset rewind => some (m.reset rewind, .ok .done)
  | .step =>
    let (m, alive) := m.step
    some (m, .ok (.canContinue alive))
  | .batch count => some (m.batchOf count)
  | .run limit => m.runOf limit
  | .start => some (m.start, .ok .done)
  | .pause => some (m.pause, .ok .done)
  | .cancelPending => some (m.cancelPending, .ok .done)
  | .setDelay value =>
    match m.setDelay value with
    | .ok m => some (m, .ok .done)
    | .error refusal => some (m, .error refusal)
  | .setSteps value =>
    match m.setSteps value with
    | .ok m => some (m, .ok .done)
    | .error refusal => some (m, .error refusal)
  | .park handle => some (m.park handle, .ok .done)

namespace Machine

/-- The notices of a load, in which the reset is a part. -/
def loadNotices (m : Machine) : List Notice :=
  [.loaded m.core.program.length m.core.input.size, .reset (.bool false)]

/-- The notice of a machine that stepping found halted and made idle. -/
def haltNotices (before after : Machine) : List Notice :=
  if before.runState ≠ .idle ∧ after.runState = .idle then
    [.halted after.core.stepCount after.core.pc]
  else []

/-- The notices of an action that led from one machine to another. -/
def notices (before after : Machine) : Action → List Notice
  | .load _ _ => after.loadNotices
  | .reset rewind => [.reset (.bool rewind)]
  | .step | .batch _ | .run _ => haltNotices before after
  | _ => []

end Machine

end TapeMachine
