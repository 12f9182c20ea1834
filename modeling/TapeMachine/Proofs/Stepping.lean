import Mathlib
import TapeMachine.Machine
import TapeMachine.Machine.Core.Lemmas
import TapeMachine.Machine.Loop.Lemmas

/-!
Steps, one and in a row. A bracket only moves the program counter, to a place
that the cell and its partner decide. A halted core stays as it is, so any number
of steps can be asked for, and batches, runs with a limit and runs without one
all come to some number of single steps, on the core as on the whole machine.
-/

namespace TapeMachine

namespace Core

/-- A change of the cell under the pointer writes one value. -/
theorem tape_mapCell (c : Core) (f : UInt8 → UInt8) :
    (c.mapCell f).tape = c.tape.setIfInBounds c.ptr (f c.cell) := by
  rw [mapCell, cell]
  apply Array.ext
  · simp
  · intro j hj _
    have inside : j < c.tape.size := by simpa using hj
    rw [Array.getElem_modify, Array.getElem_setIfInBounds inside]
    by_cases here : c.ptr = j
    · subst here
      simp [inside]
    · simp [here]

/-- Where an opening leads. -/
def openingTarget (c : Core) : Nat :=
  if c.cell = 0 then
    match c.partner? with
    | some (.slot index) => index + 1
    | _ => c.program.length + 1
  else c.pc + 1

/-- Where a closing leads. -/
def closingTarget (c : Core) : Nat :=
  if c.cell = 0 then c.pc + 1
  else
    match c.partner? with
    | some (.slot index) => index + 1
    | _ => c.program.length

theorem enterLoop_eq (c : Core) : c.enterLoop = { c with pc := c.openingTarget } := by
  unfold enterLoop openingTarget
  split
  · rcases c.partner? with _ | (_ | _ | _) <;> rfl
  · rfl

theorem leaveLoop_eq (c : Core) : c.leaveLoop = { c with pc := c.closingTarget } := by
  unfold leaveLoop closingTarget
  split
  · rfl
  · rcases c.partner? with _ | (_ | _ | _) <;> rfl

/-- A bracket moves the program counter and nothing else. -/
theorem step_of_loopStart {c : Core} (h : c.command? = some .loopStart) :
    c.step = { c with stepCount := c.stepCount + 1, pc := c.openingTarget } := by
  rw [step_of_command h, execute, enterLoop_eq]
  rfl

theorem step_of_loopEnd {c : Core} (h : c.command? = some .loopEnd) :
    c.step = { c with stepCount := c.stepCount + 1, pc := c.closingTarget } := by
  rw [step_of_command h, execute, leaveLoop_eq]
  rfl

/-- The core after `n` steps. -/
def after (n : Nat) (c : Core) : Core :=
  step^[n] c

/-- Whether exactly `n` steps are made before the halt. -/
def HaltsAfter (c : Core) (n : Nat) : Prop :=
  (c.after n).halted = true ∧ ∀ k < n, (c.after k).halted = false

@[simp]
theorem after_zero (c : Core) : c.after 0 = c := rfl

theorem after_succ (n : Nat) (c : Core) : c.after (n + 1) = c.step.after n := rfl

theorem after_succ_step (n : Nat) (c : Core) : c.after (n + 1) = (c.after n).step :=
  Function.iterate_succ_apply' step n c

theorem after_add (m n : Nat) (c : Core) : c.after (m + n) = (c.after m).after n := by
  rw [after, Nat.add_comm, Function.iterate_add_apply]
  rfl

theorem after_of_halted {c : Core} (h : c.halted = true) (n : Nat) : c.after n = c := by
  induction n with
  | zero => rfl
  | succ n ih => rw [after_succ_step, ih, step_of_halted h]

/-- No step follows a halt. -/
theorem after_of_halted_le {c : Core} {m n : Nat} (h : (c.after m).halted = true)
    (hle : m ≤ n) : c.after n = c.after m := by
  obtain ⟨k, rfl⟩ := Nat.exists_eq_add_of_le hle
  rw [after_add, after_of_halted h]

/-- A run halts in one state only. -/
theorem after_eq_of_halted {c : Core} {m n : Nat} (hm : (c.after m).halted = true)
    (hn : (c.after n).halted = true) : c.after m = c.after n := by
  rcases Nat.le_total m n with earlier | later
  · exact (after_of_halted_le hm earlier).symm
  · exact after_of_halted_le hn later

theorem halted_after_mono {c : Core} {m n : Nat} (h : (c.after m).halted = true)
    (hle : m ≤ n) : (c.after n).halted = true := by
  rw [after_of_halted_le h hle]
  exact h

/-- What is left of a run halts within the steps that the whole run takes. -/
theorem halted_after_after {c : Core} {n : Nat} (m : Nat) (h : (c.after n).halted = true) :
    ((c.after m).after n).halted = true := by
  rw [← after_add]
  exact halted_after_mono h (Nat.le_add_left n m)

section Kept

variable (n : Nat) (c : Core)

@[simp]
theorem program_after : (c.after n).program = c.program := by
  induction n with
  | zero => rfl
  | succ n ih => rw [after_succ_step, program_step, ih]

@[simp]
theorem input_after : (c.after n).input = c.input := by
  induction n with
  | zero => rfl
  | succ n ih => rw [after_succ_step, input_step, ih]

@[simp]
theorem size_tape_after : (c.after n).tape.size = c.tape.size := by
  induction n with
  | zero => rfl
  | succ n ih => rw [after_succ_step, size_tape_step, ih]

end Kept

theorem stepCount_after_of_running {c : Core} {n : Nat}
    (h : ∀ k < n, (c.after k).halted = false) :
    (c.after n).stepCount = c.stepCount + n := by
  induction n with
  | zero => rfl
  | succ n ih =>
      have running : (c.after n).halted = false := h n (Nat.lt_succ_self n)
      have before := ih fun k hk => h k (Nat.lt_succ_of_lt hk)
      rw [after_succ_step, stepCount_step, running, before]
      simp [Nat.add_assoc]

/-- A run either still goes on or has halted after an exact number of steps. -/
theorem running_or_haltsAfter (c : Core) (n : Nat) :
    (∀ k < n, (c.after k).halted = false) ∨ ∃ k < n, c.HaltsAfter k := by
  induction n with
  | zero => exact Or.inl fun k hk => absurd hk (Nat.not_lt_zero k)
  | succ n ih =>
      rcases ih with running | ⟨k, hk, halts⟩
      · cases h : (c.after n).halted with
        | true => exact Or.inr ⟨n, Nat.lt_succ_self n, h, running⟩
        | false =>
            refine Or.inl fun k hk => ?_
            rcases Nat.lt_succ_iff_lt_or_eq.1 hk with earlier | rfl
            · exact running k earlier
            · exact h
      · exact Or.inr ⟨k, Nat.lt_succ_of_lt hk, halts⟩

theorem HaltsAfter.stepCount {c : Core} {n : Nat} (h : c.HaltsAfter n) :
    (c.after n).stepCount = c.stepCount + n :=
  stepCount_after_of_running h.2

theorem HaltsAfter.halted_iff {c : Core} {n : Nat} (h : c.HaltsAfter n) (k : Nat) :
    (c.after k).halted = true ↔ n ≤ k := by
  constructor
  · intro halted
    by_contra hlt
    simp [h.2 k (Nat.lt_of_not_le hlt)] at halted
  · exact halted_after_mono h.1

/-- The step counter tells which state of the run a core is. -/
theorem after_stepCount {c : Core} (h : c.stepCount = 0) (n : Nat) :
    c.after (c.after n).stepCount = c.after n := by
  rcases running_or_haltsAfter c n with running | ⟨k, hk, halts⟩
  · rw [stepCount_after_of_running running, h, Nat.zero_add]
  · rw [after_of_halted_le halts.1 (Nat.le_of_lt hk), halts.stepCount, h, Nat.zero_add]

theorem stepCount_after_le {c : Core} (h : c.stepCount = 0) (n : Nat) :
    (c.after n).stepCount ≤ n := by
  rcases running_or_haltsAfter c n with running | ⟨k, hk, halts⟩
  · rw [stepCount_after_of_running running, h, Nat.zero_add]
  · rw [after_of_halted_le halts.1 (Nat.le_of_lt hk), halts.stepCount, h, Nat.zero_add]
    exact Nat.le_of_lt hk

/-- What is left of a run. -/
theorem HaltsAfter.after {c : Core} {m n : Nat} (h : c.HaltsAfter n) (hle : m ≤ n) :
    (c.after m).HaltsAfter (n - m) := by
  constructor
  · rw [← after_add, Nat.add_sub_cancel' hle]
    exact h.1
  · intro k hk
    rw [← after_add]
    exact h.2 (m + k) (by omega)

theorem HaltsAfter.stepCount_after_le {c : Core} {n : Nat} (h : c.HaltsAfter n)
    (zero : c.stepCount = 0) (k : Nat) : (c.after k).stepCount ≤ n := by
  rcases Nat.le_total k n with before | past
  · exact Nat.le_trans (Core.stepCount_after_le zero k) before
  · rw [after_of_halted_le h.1 past]
    exact Core.stepCount_after_le zero n

/-- The search for a halt makes some step. -/
theorem searchRounds_steps_pos (c : Core) : 0 < 2 ^ c.searchRounds - 1 := by
  have rounds : 1 ≤ c.searchRounds := Nat.succ_pos _
  have power := Nat.pow_le_pow_right (n := 2) Nat.two_pos rounds
  omega

end Core

namespace Machine

/-- The machine after `n` calls for a step. -/
def after (n : Nat) (m : Machine) : Machine :=
  (fun m => m.step.1)^[n] m

@[simp]
theorem after_zero (m : Machine) : m.after 0 = m := rfl

theorem after_succ (n : Nat) (m : Machine) : m.after (n + 1) = m.step.1.after n := rfl

@[simp]
theorem core_settle (m : Machine) : m.settle.core = m.core := by
  unfold settle
  split <;> rfl

theorem settle_of_halted {m : Machine} (h : m.core.halted = true) :
    m.settle = { m with runState := .idle } := by
  simp [settle, h]

theorem settle_of_running {m : Machine} (h : m.core.halted = false) : m.settle = m := by
  simp [settle, h]

@[simp]
theorem core_step (m : Machine) : m.step.1.core = m.core.step := by
  simp [step]

theorem canContinue_step (m : Machine) : m.step.2 = !m.core.step.halted := by
  simp [step]

@[simp]
theorem core_after (n : Nat) (m : Machine) : (m.after n).core = m.core.after n := by
  induction n generalizing m with
  | zero => rfl
  | succ n ih => rw [after_succ, ih, core_step, Core.after_succ]

/-- Steps change nothing but the core, and make a halted machine idle. -/
theorem after_of_pos {n : Nat} (hn : 0 < n) (m : Machine) :
    m.after n = { m with core := m.core.after n }.settle := by
  induction n generalizing m with
  | zero => omega
  | succ n ih =>
      cases n with
      | zero => rfl
      | succ n =>
          rw [after_succ, ih (Nat.succ_pos n), core_step, ← Core.after_succ]
          cases h : m.core.step.halted with
          | false => simp [step, settle, h]
          | true =>
              have halted : (m.core.after (n + 2)).halted = true := by
                rw [Core.after_succ, Core.after_of_halted h]
                exact h
              simp [step, settle, h, halted]

/-- An idle machine stays idle. -/
theorem after_eq_of_idle {m : Machine} (idle : m.runState = .idle) (n : Nat) :
    m.after n = { m with core := m.core.after n } := by
  cases n with
  | zero => rfl
  | succ n =>
      rw [after_of_pos (Nat.succ_pos n), settle, ← idle]
      split <;> rfl

theorem after_of_halted {m : Machine} (h : m.core.halted = true) {n : Nat} (hn : 0 < n) :
    m.after n = m.settle := by
  rw [after_of_pos hn, Core.after_of_halted h]

theorem steps_succ (n : Nat) (m : Machine) :
    steps (n + 1) m = if m.step.2 then steps n m.step.1 else (m.step.1, false) := by
  rw [steps]
  rcases m.step with ⟨m', alive⟩
  cases alive <;> rfl

/-- A row of steps that ends early ends where the rest would change nothing. -/
theorem steps_fst (n : Nat) (m : Machine) : (steps n m).1 = m.after n := by
  induction n generalizing m with
  | zero => rfl
  | succ n ih =>
      rw [steps_succ, canContinue_step]
      cases h : m.core.step.halted with
      | false => exact ih m.step.1
      | true =>
          have stays : m.core.after (n + 1) = m.core.step := by
            rw [Core.after_succ, Core.after_of_halted h]
          rw [after_of_pos (Nat.succ_pos n), stays]
          rfl

theorem steps_snd {m : Machine} (h : m.core.halted = false) (n : Nat) :
    (steps n m).2 = !(m.core.after n).halted := by
  induction n generalizing m with
  | zero => simp [steps, h]
  | succ n ih =>
      rw [steps_succ, canContinue_step, Core.after_succ]
      cases running : m.core.step.halted with
      | false =>
          have next := ih (m := m.step.1) (by rw [core_step, running])
          rwa [core_step] at next
      | true => simp [Core.after_of_halted running, running]

/-- A batch is some number of steps; on a halted machine it comes to a single
one. -/
theorem batch_fst (m : Machine) (count : Option Int) :
    (m.batch count).1 =
      if m.core.halted then m.after 1 else m.after (count.getD m.stepsPerTick).toNat := by
  rw [batch]
  cases h : m.core.halted with
  | true => exact (after_of_halted h Nat.one_pos).symm
  | false => exact steps_fst _ m

/-- The batch of a tick comes to as many steps as there are in one. -/
theorem batch_none {m : Machine} (h : 1 ≤ m.stepsPerTick) :
    m.batch none = (m.after m.stepsPerTick, !(m.core.after m.stepsPerTick).halted) := by
  apply Prod.ext
  · rw [batch_fst]
    split
    · next halted => rw [after_of_halted halted Nat.one_pos, after_of_halted halted h]
    · rfl
  · rw [batch]
    split
    · next halted => simp [Core.after_of_halted halted, halted]
    · next running => exact steps_snd (by simpa using running) _

/-- Counting the steps comes to the same as watching the step counter, which goes up by
one for each of them. -/
theorem stepWithin_eq {start limit : Nat} {m : Machine} (h : start ≤ m.core.stepCount) :
    stepWithin start limit m = m.after (start + limit - m.core.stepCount) := by
  induction hleft : start + limit - m.core.stepCount generalizing m with
  | zero =>
      have used : ¬m.core.stepCount - start < limit := by omega
      rw [stepWithin, if_neg used, after_zero]
  | succ left ih =>
      have more : m.core.stepCount - start < limit := by omega
      rw [stepWithin, if_pos more, after_succ]
      split
      · next next stepped =>
        have counted := stepCount_of_step stepped
        rw [ih (m := next) (by omega) (by omega), stepped]
      · next next stepped =>
        have halted : m.step.1.core.halted = true := by
          have stops := m.canContinue_step
          rw [stepped] at stops
          rw [core_step]
          simpa using stops.symm
        have idle : m.step.1.runState = .idle := by
          rw [core_step] at halted
          simp [step, settle, halted]
        rw [after_eq_of_idle idle, Core.after_of_halted halted, stepped]

theorem runFor_fst (m : Machine) (limit : Nat) : (m.runFor limit).1 = m.after limit := by
  rw [runFor, stepWithin_eq (Nat.le_refl _), Nat.add_sub_cancel_left]

private theorem settle_after_of_pos {n : Nat} (hn : 0 < n) (m : Machine) :
    (m.after n).settle = m.after n := by
  rw [after_of_pos hn]
  cases h : (m.core.after n).halted with
  | true => simp [settle, h]
  | false => simp [settle, h]

theorem times_step (n : Nat) (m : Machine) :
    Loop.times (fun m => m.core.halted) (fun m => m.step.1) n m =
      if m.core.halted then m else m.after n := by
  induction n generalizing m with
  | zero => simp [Loop.times]
  | succ n ih =>
      rw [Loop.times, ih, core_step, after_succ]
      cases h : m.core.step.halted with
      | false => rfl
      | true =>
          have stays : m.step.1.after n = m.step.1 := by
            cases n with
            | zero => rfl
            | succ n =>
                rw [after_of_halted (by simpa using h) (Nat.succ_pos n)]
                exact settle_after_of_pos Nat.one_pos m
          rw [stays]
          rfl

/-- A run without a limit makes as many steps as the search covers, and has a
result where these lead to a halt. -/
theorem run_eq (m : Machine) :
    m.run =
      let last := m.after (2 ^ m.core.searchRounds - 1)
      if last.core.halted then some (last, last.core.stepCount - m.core.stepCount) else none := by
  have covered := m.core.searchRounds_steps_pos
  rw [run, Loop.search_eq, times_step]
  cases h : m.core.halted with
  | true => simp [h, after_of_halted h covered]
  | false =>
      simp only [Bool.false_eq_true, if_false]
      split
      · simp [settle_after_of_pos covered]
      · rfl

end Machine

end TapeMachine
