import TapeMachine.Proofs.Advancing

/-!
When waiting for a halt is over. A run that has not halted after as many steps as a core
has configurations halts never, so the run with that limit tells whether the run without
one returns, and where.
-/

namespace TapeMachine

namespace Core

/-- The number of configurations of a core: places in the program, places on the tape,
contents of the tape and places in the input. -/
def deadline (c : Core) : Nat :=
  c.program.length * c.tape.size * 256 ^ c.tape.size * (c.input.size + 1)

theorem HaltsAfter.le_deadline {size n : Nat} {c : Core} (hc : c.Valid size)
    (h : c.HaltsAfter n) : n ≤ c.deadline := by
  have few := h.le_card hc
  rwa [← hc.size_tape] at few

theorem halted_deadline_iff {size : Nat} {c : Core} (hc : c.Valid size) :
    (c.after c.deadline).halted = true ↔ ∃ n, (c.after n).halted = true := by
  constructor
  · intro halted
    exact ⟨c.deadline, halted⟩
  · rintro ⟨n, halted⟩
    obtain ⟨k, _, halts⟩ := exists_stopsAfter halted
    exact halted_after_mono halts.1 (HaltsAfter.le_deadline hc halts)

theorem deadline_load (size : Nat) (source input : Text) :
    (load size source input).deadline =
      (Program.ofSource source).length * size * 256 ^ size * (input.length + 1) := by
  simp [deadline, load, install, blankTape, inputBytes]

end Core

namespace Machine

/-- A limit within which an idle machine halts makes no difference. -/
theorem run_eq_runFor {size limit : Nat} {m : Machine} (hm : m.core.Valid size)
    (idle : m.runState = .idle) (h : (m.core.after limit).halted = true) :
    m.run = some (m.runFor limit) := by
  obtain ⟨n, within, halts⟩ := Core.exists_stopsAfter h
  have ends : m.core.after limit = m.core.after n := Core.after_of_halted_le halts.1 within
  have last : m.after limit = { m with core := m.core.after n, runState := .idle } := by
    rw [after_eq_of_idle idle, ends, ← idle]
  have made : m.core.executed limit = n := by
    rw [Core.HaltsAfter.executed halts, Nat.min_eq_right within]
  rw [run_of_haltsAfter hm halts]
  apply congrArg some
  apply Prod.ext
  · rw [runFor_fst, last]
  · rw [runFor_snd, made]

theorem run_eq_none {m : Machine} (h : ∀ n, (m.core.after n).halted = false) : m.run = none := by
  rw [run_eq]
  simp only [core_after, h, Bool.false_eq_true, if_false]

/-- A freshly loaded machine that halts at all makes no more steps than it has
configurations. If it has not halted after that many it never does, so a run without a
limit returns, by whatever number of steps, exactly where the run with this limit has
halted, and with the same result. -/
theorem halts_by_deadline (m : Machine) (hsize : 0 < m.tapeSize) (source input : Text) :
    let loaded := m.load source input
    let deadline :=
      (Program.ofSource source).length * m.tapeSize * 256 ^ m.tapeSize * (input.length + 1)
    (∀ n, loaded.core.HaltsAfter n → n ≤ deadline) ∧
      ((loaded.after deadline).core.halted = false →
        ∀ n, (loaded.after n).core.halted = false) ∧
      ((loaded.runFor deadline).1.core.halted = true ↔
        ∃ n, (loaded.after n).core.halted = true) ∧
      loaded.run =
        if (loaded.runFor deadline).1.core.halted then some (loaded.runFor deadline) else none := by
  intro loaded deadline
  have core : loaded.core = Core.load m.tapeSize source input := m.core_load source input
  have valid : loaded.core.Valid m.tapeSize := by
    rw [core]
    exact Core.valid_load hsize source input
  have limit : loaded.core.deadline = deadline := by
    rw [core]
    exact Core.deadline_load m.tapeSize source input
  have found : (loaded.core.after deadline).halted = true ↔
      ∃ n, (loaded.core.after n).halted = true := by
    rw [← limit]
    exact Core.halted_deadline_iff valid
  have never (running : (loaded.core.after deadline).halted = false) (n : Nat) :
      (loaded.core.after n).halted = false := by
    by_contra halted
    rw [found.2 ⟨n, by simpa using halted⟩] at running
    cases running
  simp only [runFor_fst, core_after]
  refine ⟨?_, never, found, ?_⟩
  · intro n halts
    rw [← limit]
    exact halts.le_deadline valid
  · split
    · next halted => exact run_eq_runFor valid rfl halted
    · next running => exact run_eq_none (never (by simpa using running))

/-- The empty loop on a nonzero cell comes back to its closing bracket for ever. -/
theorem halts_by_deadline_of_empty_loop :
    let loaded := (blank 1).load (Text.ofString "+[]") []
    0 < (blank 1).tapeSize ∧ (loaded.after 768).core.halted = false ∧
      (∀ n, (loaded.after n).core.halted = false) ∧ loaded.run = none := by
  intro loaded
  have again : (loaded.core.after 3).course = (loaded.core.after 2).course := by rfl
  have stays (n : Nat) : (loaded.core.after (n + 2)).course = (loaded.core.after 2).course := by
    induction n with
    | zero => rfl
    | succ n ih =>
        rw [Core.after_succ_step, Core.course_step, ih, ← Core.course_step,
          ← Core.after_succ_step, again]
  have running : (loaded.after 768).core.halted = false := by
    rw [core_after, Core.halted_of_course (stays 766)]
    decide
  have deadline : (Program.ofSource (Text.ofString "+[]")).length * (blank 1).tapeSize *
      256 ^ (blank 1).tapeSize * (([] : Text).length + 1) = 768 := by decide
  obtain ⟨_, never, _, unlimited⟩ :=
    halts_by_deadline (blank 1) (by decide) (Text.ofString "+[]") []
  rw [deadline] at never
  rw [deadline, runFor_fst, running] at unlimited
  exact ⟨by decide, running, never running, unlimited.trans (if_neg Bool.false_ne_true)⟩

end Machine

end TapeMachine
