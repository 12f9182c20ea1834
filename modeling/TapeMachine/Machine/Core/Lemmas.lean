import TapeMachine.Machine.Core

/-!
What a step keeps and what it counts: the program, the input and the size of
the tape stay, a halted core stays as it is, and every other step is counted
once.
-/

namespace TapeMachine.Core

theorem command?_eq_none_iff (c : Core) : c.command? = none ↔ c.halted = true := by
  rw [command?, Array.getElem?_eq_none_iff]
  exact decide_eq_true_iff.symm

theorem step_of_halted {c : Core} (h : c.halted = true) : c.step = c := by
  simp [step, (command?_eq_none_iff c).2 h]

theorem step_of_command {c : Core} {command : Command} (h : c.command? = some command) :
    c.step = { c with stepCount := c.stepCount + 1 }.execute command := by
  simp [step, h]

section Execute

variable (c : Core) (command : Command)

@[simp]
theorem program_execute : (c.execute command).program = c.program := by
  cases command <;>
    simp only [execute, mapCell, readByte, enterLoop, leaveLoop] <;> (repeat' split) <;> rfl

@[simp]
theorem input_execute : (c.execute command).input = c.input := by
  cases command <;>
    simp only [execute, mapCell, readByte, enterLoop, leaveLoop] <;> (repeat' split) <;> rfl

@[simp]
theorem stepCount_execute : (c.execute command).stepCount = c.stepCount := by
  cases command <;>
    simp only [execute, mapCell, readByte, enterLoop, leaveLoop] <;> (repeat' split) <;> rfl

@[simp]
theorem size_tape_execute : (c.execute command).tape.size = c.tape.size := by
  cases command <;>
    simp only [execute, mapCell, readByte, enterLoop, leaveLoop] <;> (repeat' split) <;>
      simp

end Execute

@[simp]
theorem program_step (c : Core) : c.step.program = c.program := by
  unfold step
  split <;> simp

@[simp]
theorem input_step (c : Core) : c.step.input = c.input := by
  unfold step
  split <;> simp

@[simp]
theorem size_tape_step (c : Core) : c.step.tape.size = c.tape.size := by
  unfold step
  split <;> simp

theorem stepCount_step (c : Core) :
    c.step.stepCount = c.stepCount + if c.halted then 0 else 1 := by
  cases h : c.command? with
  | none => simp [step_of_halted ((command?_eq_none_iff c).1 h), (command?_eq_none_iff c).1 h]
  | some command =>
      have running : c.halted = false := by
        cases halted : c.halted with
        | false => rfl
        | true => simp [(command?_eq_none_iff c).2 halted] at h
      simp [step_of_command h, running]

end TapeMachine.Core
