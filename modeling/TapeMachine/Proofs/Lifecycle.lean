import Mathlib
import TapeMachine.Machine

/-!
What loading, restarting, starting and pausing leave in each part of a machine.
A load and a restart end idle with nothing parked, and a pause ends with nothing
parked and idle exactly on a halted core.
-/

namespace TapeMachine

theorem Core.restart_install (size : Nat) (program : Program) (input : Array UInt8)
    (rewind : Bool) :
    (install size program input).restart rewind = install size program input := by
  cases rewind <;> simp [restart, install, blankTape]

namespace Machine

section CancelPending

variable (m : Machine)

@[simp]
theorem core_cancelPending : m.cancelPending.core = m.core := by
  unfold cancelPending
  split <;> rfl

@[simp]
theorem runState_cancelPending : m.cancelPending.runState = m.runState := by
  unfold cancelPending
  split <;> rfl

@[simp]
theorem delay_cancelPending : m.cancelPending.delay = m.delay := by
  unfold cancelPending
  split <;> rfl

@[simp]
theorem stepsPerTick_cancelPending : m.cancelPending.stepsPerTick = m.stepsPerTick := by
  unfold cancelPending
  split <;> rfl

@[simp]
theorem pending_cancelPending : m.cancelPending.pending = none := by
  unfold cancelPending
  split
  · rfl
  · next h => exact h

theorem cancelled_cancelPending : m.cancelPending.cancelled = m.pending.toList ++ m.cancelled := by
  unfold cancelPending
  split
  · next h => simp [h]
  · next h => simp [h]

end CancelPending

section Install

variable (m : Machine) (program : Program) (input : Array UInt8)

theorem core_install : (m.install program input).core = .install m.tapeSize program input := by
  simp [install, reset, Core.restart_install]

theorem delay_install : (m.install program input).delay = m.delay := by
  simp [install, reset]

theorem stepsPerTick_install : (m.install program input).stepsPerTick = m.stepsPerTick := by
  simp [install, reset]

end Install

section Load

variable (m : Machine) (source input : Text)

@[simp]
theorem core_load : (m.load source input).core = Core.load m.tapeSize source input := by
  simp [load, install, reset, Core.restart_install, Core.load]

@[simp]
theorem runState_load : (m.load source input).runState = .idle := rfl

@[simp]
theorem delay_load : (m.load source input).delay = m.delay := by
  simp [load, install, reset]

@[simp]
theorem stepsPerTick_load : (m.load source input).stepsPerTick = m.stepsPerTick := by
  simp [load, install, reset]

@[simp]
theorem pending_load : (m.load source input).pending = none := by
  simp [load, install, reset]

end Load

section Reset

variable (m : Machine) (rewind : Bool)

@[simp]
theorem core_reset : (m.reset rewind).core = m.core.restart rewind := by
  simp [reset]

@[simp]
theorem runState_reset : (m.reset rewind).runState = .idle := rfl

@[simp]
theorem delay_reset : (m.reset rewind).delay = m.delay := by
  simp [reset]

@[simp]
theorem stepsPerTick_reset : (m.reset rewind).stepsPerTick = m.stepsPerTick := by
  simp [reset]

end Reset

section Pause

variable (m : Machine)

@[simp]
theorem core_pause : m.pause.core = m.core := by
  simp [pause]

theorem runState_pause : m.pause.runState = if m.core.halted then .idle else .paused := by
  simp [pause]

@[simp]
theorem delay_pause : m.pause.delay = m.delay := by
  simp [pause]

@[simp]
theorem stepsPerTick_pause : m.pause.stepsPerTick = m.stepsPerTick := by
  simp [pause]

@[simp]
theorem pending_pause : m.pause.pending = none := by
  simp [pause]

theorem cancelled_pause : m.pause.cancelled = m.pending.toList ++ m.cancelled := by
  simp [pause, cancelled_cancelPending]

end Pause

section Whole

variable (m : Machine)

/-- What is cancelled does not depend on the core. -/
theorem cancelPending_setCore (core : Core) :
    { m with core }.cancelPending = { m.cancelPending with core } := by
  cases m with
  | mk _ _ _ _ pending _ => cases pending <;> rfl

theorem cancelPending_of_none {m : Machine} (h : m.pending = none) : m.cancelPending = m := by
  rw [cancelPending, h]

/-- A restart puts a core in place and leaves the rest to what is cancelled. -/
theorem reset_eq (rewind : Bool) :
    m.reset rewind =
      { m.cancelPending with core := m.core.restart rewind, runState := .idle } := by
  rw [reset, core_cancelPending]

theorem install_eq (program : Program) (input : Array UInt8) :
    m.install program input =
      { m.cancelPending with
        core := .install m.tapeSize program input, runState := .idle } := by
  rw [install, reset, cancelPending_setCore, Core.restart_install]

theorem load_eq (source input : Text) :
    m.load source input =
      { m.cancelPending with core := .load m.tapeSize source input, runState := .idle } :=
  m.install_eq _ _

theorem pause_eq :
    m.pause =
      { m.cancelPending with runState := if m.core.halted then .idle else .paused } := by
  simp only [pause, core_cancelPending]

end Whole

end Machine

end TapeMachine
