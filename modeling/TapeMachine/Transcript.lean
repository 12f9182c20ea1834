import TapeMachine.Machine
import TapeMachine.Text.Layout

/-!
A run from load to halt with a record of it: what was written, piece by piece
as it came, and on demand a line about every step. Either can fail to be
written, and then the run is over.
-/

namespace TapeMachine

/-- How many pieces of output and how many lines of a trace are taken before
writing one fails. None stands for any number. -/
structure Outlets where
  output : Option Nat := none
  trace : Option Nat := none

namespace Outlets

/-- Whether so many are more than are taken. -/
def exceeds (taken : Option Nat) (written : Nat) : Bool :=
  taken.any (· < written)

/-- How many binary digits tell a number of pieces from one more. -/
def digits (taken : Option Nat) : Nat :=
  taken.elim 0 fun n => (n + 1).log2 + 1

theorem exceeds_of_le {taken : Option Nat} {m n : Nat} (h : m ≤ n)
    (room : exceeds taken n = false) : exceeds taken m = false := by
  cases taken with
  | none => rfl
  | some taken =>
      simp only [exceeds, Option.any_some, decide_eq_false_iff_not] at room ⊢
      omega

end Outlets

/-- The number `written` tells how much of the machine's output has been passed
on. -/
structure Transcript where
  machine : Machine
  written : Nat
  chunks : Array Text
  flushes : Nat
  trace : Array String

namespace Transcript

/-- The tape size and the step limit are values of any kind; a null limit is
none. -/
structure Options where
  tapeSize : Json := .nat Machine.defaultTapeSize
  strict : Bool := false
  trace : Bool := false
  maxSteps : Json := .null

/-- Why a run does not begin. The limit is looked at last, on the loaded
machine. -/
inductive Fault
  | unbalanced (u : Program.Unbalanced)
  | refused (r : Refusal)
  | limit (machine : Machine) (r : Refusal)

def ofMachine (machine : Machine) : Transcript :=
  { machine, written := 0, chunks := #[], flushes := 0, trace := #[] }

/-- The line about the step that the machine is about to make. -/
def traceLine (c : Core) : String :=
  let steps := Layout.right 8 (toString c.stepCount)
  let pc := Layout.left 6 (toString c.pc)
  let command := ((c.command?).map fun command => command.toChar.toString).getD ""
  let ptr := Layout.left 6 (toString c.ptr)
  s!"{steps}  pc={pc} {command}  ptr={ptr} cell={c.cell}\n"

def note (tracing : Bool) (t : Transcript) : Transcript :=
  if tracing && !t.machine.core.halted then
    { t with trace := t.trace.push (traceLine t.machine.core) }
  else t

/-- Passes on what the machine has written since the last time. -/
def passOn (t : Transcript) : Transcript :=
  let size := t.machine.core.output.size
  if t.written < size then
    { t with
      chunks := t.chunks.push
        (Text.ofBytes (t.machine.core.output.extract t.written size).toList)
      flushes := t.flushes + 1
      written := size }
  else t

def stepMachine (t : Transcript) : Transcript :=
  { t with machine := t.machine.step.1 }

/-- Whether writing what was recorded last has failed. -/
def isCut (outlets : Outlets) (t : Transcript) : Bool :=
  Outlets.exceeds outlets.trace t.trace.size || Outlets.exceeds outlets.output t.chunks.size

/-- The record without what failed to be written. -/
def delivered (outlets : Outlets) (t : Transcript) : Transcript :=
  { t with
    chunks := outlets.output.elim t.chunks fun taken => t.chunks.take taken
    trace := outlets.trace.elim t.trace fun taken => t.trace.take taken }

/-- A step with its line before and its output after it. Where the line fails to
be written the step is not made. -/
def advance (outlets : Outlets) (tracing : Bool) (t : Transcript) : Transcript :=
  let t := t.note tracing
  if t.isCut outlets then t else t.stepMachine.passOn

def isDone (outlets : Outlets) (t : Transcript) : Bool :=
  t.machine.core.halted || t.isCut outlets

@[simp]
theorem machine_note (tracing : Bool) (t : Transcript) : (t.note tracing).machine = t.machine := by
  unfold note
  split <;> rfl

@[simp]
theorem machine_passOn (t : Transcript) : t.passOn.machine = t.machine := by
  simp only [passOn]
  split <;> rfl

@[simp]
theorem trace_passOn (t : Transcript) : t.passOn.trace = t.trace := by
  simp only [passOn]
  split <;> rfl

/-- A step after which the run goes on has been counted. -/
theorem stepCount_of_advance {outlets : Outlets} {tracing : Bool} {t : Transcript}
    (h : ¬(t.advance outlets tracing).isDone outlets = true) :
    (t.advance outlets tracing).machine.core.stepCount = t.machine.core.stepCount + 1 := by
  rw [isDone, Bool.or_eq_true, not_or, Bool.not_eq_true, Bool.not_eq_true] at h
  obtain ⟨running, uncut⟩ := h
  by_cases cut : (t.note tracing).isCut outlets = true
  · rw [advance, if_pos cut, cut] at uncut
    cases uncut
  · rw [advance, if_neg cut, machine_passOn, stepMachine, machine_note] at running ⊢
    exact Machine.stepCount_of_step (Prod.ext rfl (by simpa [Machine.step] using running))

/-- Goes on for as long as fewer steps than `limit` are counted, up to the halt or
to what cannot be written. -/
def followWithin (outlets : Outlets) (tracing : Bool) (limit : Nat) (t : Transcript) : Transcript :=
  if t.machine.core.stepCount < limit then
    let next := t.advance outlets tracing
    if next.isDone outlets then next else followWithin outlets tracing limit next
  else t
termination_by limit - t.machine.core.stepCount
decreasing_by
  have counted := stepCount_of_advance ‹_›
  omega

/-- How many doubling rounds of a search cover every run that halts, or writes
more than is taken, at all: between two pieces a run has no more time than it has
to a halt. -/
def searchRounds (outlets : Outlets) (c : Core) : Nat :=
  c.searchRounds + Outlets.digits outlets.output + Outlets.digits outlets.trace

/-- Runs a loaded machine to its halt, to the limit or to what cannot be written;
none if it comes to neither. -/
def follow (tracing : Bool) (limit : Option Nat) (machine : Machine) (outlets : Outlets := {}) :
    Option Transcript :=
  let t := ofMachine machine
  match limit with
  | some limit => some (followWithin outlets tracing limit t)
  | none =>
    Loop.search (isDone outlets) (advance outlets tracing) (searchRounds outlets machine.core) t

/-- The check before a strict run. -/
def checkBalance (source : Json) : Except Fault Unit :=
  match programOf source with
  | .error r => .error (.refused r)
  | .ok program => program.requireBalanced.mapError .unbalanced

/-- A machine with a tape of the asked size and a program and input loaded. -/
def loadedMachine (source input tapeSize : Json) (memory : Memory) : Except Refusal Machine := do
  let machine ← Machine.make tapeSize memory
  pure (machine.install (← programOf source) (← inputOf input))

/-- Runs a source to its halt or the limit. -/
def run (source input : Json) (options : Options) (memory : Memory := .usual)
    (outlets : Outlets := {}) : Except Fault (Option Transcript) := do
  if options.strict then checkBalance source
  let machine ← (loadedMachine source input options.tapeSize memory).mapError .refused
  match limitOf options.maxSteps with
  | .error r => .error (.limit machine r)
  | .ok limit => .ok (follow options.trace limit machine outlets)

def outputText (t : Transcript) : Text :=
  t.chunks.toList.flatten

def traceText (t : Transcript) : String :=
  t.trace.foldl (· ++ ·) ""

end Transcript

end TapeMachine
