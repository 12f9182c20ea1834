import TapeMachine.Machine.Core.Lemmas
import TapeMachine.Machine.Loop
import TapeMachine.Machine.Setting
import TapeMachine.Machine.Source

/-!
The machine as its hosts hold it: the core, whether it is idle, running or
paused, how fast a host should drive it, and the continuation that the host
has parked on it. Restarting and pausing cancel that continuation.
-/

namespace TapeMachine

inductive RunState
  | idle
  | running
  | paused
  deriving DecidableEq

def RunState.text : RunState → String
  | idle => "idle"
  | running => "running"
  | paused => "paused"

/-- What can be parked on a machine and cancelled by it: a scheduled tick, or a
bare token, each with its number. -/
inductive Handle
  | tick (id : Nat)
  | token (id : Nat)
  deriving DecidableEq

/-- The list `cancelled` has the handles that the machine has cancelled, latest
first; a scheduler drops these from its queue. -/
structure Machine where
  core : Core
  runState : RunState
  delay : Number
  stepsPerTick : Nat
  pending : Option Handle
  cancelled : List Handle

namespace Machine

def defaultTapeSize : Nat := 30000

def defaultDelay : Number := .int 50

/-- A machine without a program, with the default speed. -/
def blank (size : Nat) : Machine :=
  { core := .load size [] []
    runState := .idle
    delay := defaultDelay
    stepsPerTick := 1
    pending := none
    cancelled := [] }

/-- A machine with a tape of the size that a value stands for. -/
def make (size : Json) (memory : Memory := .usual) : Except Refusal Machine :=
  (sizeOf memory size).map blank

def tapeSize (m : Machine) : Nat :=
  m.core.tape.size

def setDelay (m : Machine) (value : Json) : Except Refusal Machine :=
  (delayOf value).map fun delay => { m with delay }

def setSteps (m : Machine) (value : Json) : Except Refusal Machine :=
  (stepsOf value).map fun stepsPerTick => { m with stepsPerTick }

def park (m : Machine) (handle : Handle) : Machine :=
  { m with pending := some handle }

def cancelPending (m : Machine) : Machine :=
  match m.pending with
  | some handle => { m with pending := none, cancelled := handle :: m.cancelled }
  | none => m

def reset (m : Machine) (rewind : Bool) : Machine :=
  let m := m.cancelPending
  { m with core := m.core.restart rewind, runState := .idle }

/-- Puts a program and its input in place, at their start. -/
def install (m : Machine) (program : Program) (input : Array UInt8) : Machine :=
  { m with core := .install m.tapeSize program input }.reset false

def load (m : Machine) (source input : Text) : Machine :=
  m.install (.ofSource source) (Core.inputBytes input)

/-- A load of what two values stand for. The program is in place before the
input is looked at, and stays there if the input is refused. -/
def loadOf (m : Machine) (source input : Json) : Machine × Except Refusal Unit :=
  match programOf source with
  | .error refusal => (m, .error refusal)
  | .ok program =>
    match inputOf input with
    | .error refusal => ({ m with core := { m.core with program } }, .error refusal)
    | .ok input => (m.install program input, .ok ())

def start (m : Machine) : Machine :=
  { m with runState := .running }

def pause (m : Machine) : Machine :=
  let m := m.cancelPending
  { m with runState := if m.core.halted then .idle else .paused }

/-- A machine found halted while stepping becomes idle. -/
def settle (m : Machine) : Machine :=
  if m.core.halted then { m with runState := .idle } else m

/-- One step, and whether the machine can go on. -/
def step (m : Machine) : Machine × Bool :=
  let m := { m with core := m.core.step }.settle
  (m, !m.core.halted)

/-- Up to `n` steps, none after a halt, and whether the machine can go on. -/
def steps : Nat → Machine → Machine × Bool
  | 0, m => (m, true)
  | n + 1, m =>
    match m.step with
    | (m, true) => steps n m
    | (m, false) => (m, false)

/-- A batch of steps, by default as many as a tick has. An already halted
machine takes part in no batch, not even an empty one. -/
def batch (m : Machine) (count : Option Int) : Machine × Bool :=
  if m.core.halted then (m.settle, false)
  else steps (count.getD m.stepsPerTick).toNat m

/-- A step after which the machine can go on has been counted. -/
theorem stepCount_of_step {m next : Machine} (h : m.step = (next, true)) :
    next.core.stepCount = m.core.stepCount + 1 := by
  obtain ⟨rfl, running⟩ := Prod.mk.inj h
  have core : { m with core := m.core.step }.settle.core = m.core.step := by
    unfold settle
    split <;> rfl
  rw [core] at running ⊢
  cases halted : m.core.halted with
  | true =>
      rw [Core.step_of_halted halted, halted] at running
      cases running
  | false => rw [Core.stepCount_step, halted]; rfl

/-- Steps for as long as fewer than `limit` are counted since the step counter
stood at `start`, none after a halt. -/
def stepWithin (start limit : Nat) (m : Machine) : Machine :=
  if m.core.stepCount - start < limit then
    match _ : m.step with
    | (next, true) => stepWithin start limit next
    | (next, false) => next
  else m
termination_by start + limit - m.core.stepCount
decreasing_by
  have counted := stepCount_of_step ‹m.step = (next, true)›
  omega

/-- Steps until the machine halts or the limit is reached, and how many were
executed. -/
def runFor (m : Machine) (limit : Nat) : Machine × Nat :=
  let start := m.core.stepCount
  let m := stepWithin start limit m
  (m, m.core.stepCount - start)

/-- Steps until the machine halts, and how many were executed; none if it
never does. -/
def run (m : Machine) : Option (Machine × Nat) :=
  let before := m.core.stepCount
  (Loop.search (fun m => m.core.halted) (fun m => m.step.1) m.core.searchRounds m).map fun m =>
    let m := m.settle
    (m, m.core.stepCount - before)

/-- The value of the cell at a position that a value stands for. A text is taken
for a template to write the size of the tape into, and stands for no position in
any case. -/
def cellOf (m : Machine) (index : Json) (memory : Memory := .usual) : Except Refusal UInt8 :=
  match index with
  | .text template =>
    match Template.check memory template m.tapeSize with
    | .ok () => .error (.notPosition index.kind)
    | .error fault => .error (.template fault)
  | _ =>
    match Number.ofJson? index with
    | none => .error (.noOperation "%" index.kind "int")
    | some n =>
      match n.integer? with
      | some i => .ok (m.core.cellAt i)
      | none => .error (.notPosition index.kind)

/-- The cells within the distance that a value stands for. -/
def windowOf (m : Machine) (radius : Json) : Except Refusal (Nat × List UInt8) :=
  (distanceOf radius m.core.ptr m.tapeSize .notBound).map m.core.window

end Machine

end TapeMachine
