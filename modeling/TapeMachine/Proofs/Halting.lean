import TapeMachine.Proofs.Reachable

/-!
How long a run can be that halts or comes to another stop. What a core does next
depends on its program, its input and four other parts, which within their bounds
have a known number of combinations; a run that meets one of them twice goes on for
ever. The search behind a run without a limit covers more steps than that, so it finds
every halt.
-/

namespace TapeMachine

namespace Core

/-- A core without what no step looks at. -/
def course (c : Core) : Core :=
  { c with output := #[], stepCount := 0 }

theorem course_step (c : Core) : c.step.course = c.course.step.course := by
  have same : c.course.command? = c.command? := rfl
  cases h : c.command? with
  | none =>
      rw [step_of_halted ((command?_eq_none_iff c).1 h),
        step_of_halted ((command?_eq_none_iff c.course).1 (same.trans h))]
      rfl
  | some command =>
      rw [step_of_command h, step_of_command (same.trans h)]
      cases command with
      | loopStart =>
          rw [execute, execute, enterLoop_eq, enterLoop_eq]
          rfl
      | loopEnd =>
          rw [execute, execute, leaveLoop_eq, leaveLoop_eq]
          rfl
      | read =>
          simp only [execute, readByte, course]
          cases c.input[c.inputPos]? <;> rfl
      | right => rfl
      | left => rfl
      | increment => rfl
      | decrement => rfl
      | write => rfl

theorem course_after {c d : Core} (h : c.course = d.course) (n : Nat) :
    (c.after n).course = (d.after n).course := by
  induction n with
  | zero => exact h
  | succ n ih => rw [after_succ_step, after_succ_step, course_step, ih, ← course_step]

theorem halted_of_course {c d : Core} (h : c.course = d.course) : c.halted = d.halted := by
  have same : c.course.halted = d.course.halted := by rw [h]
  exact same

/-- What can be told of a core without its output and its step counter, and holds of
every halted one. -/
structure IsStop (p : Core → Bool) : Prop where
  course : ∀ {c d : Core}, c.course = d.course → p c = p d
  halted : ∀ {c : Core}, c.halted = true → p c = true

theorem isStop_halted : IsStop halted :=
  ⟨halted_of_course, id⟩

/-- Whether a run comes to a stop after exactly `n` steps. -/
def StopsAfter (p : Core → Bool) (c : Core) (n : Nat) : Prop :=
  p (c.after n) = true ∧ ∀ k < n, p (c.after k) = false

theorem exists_stopsAfter {p : Core → Bool} {c : Core} {n : Nat} (h : p (c.after n) = true) :
    ∃ k ≤ n, c.StopsAfter p k := by
  have stops : ∃ k, p (c.after k) = true := ⟨n, h⟩
  refine ⟨Nat.find stops, Nat.find_le h, Nat.find_spec stops, ?_⟩
  intro k hk
  simpa using Nat.find_min stops hk

/-- Two states of a run that go on alike are no states of a run that comes to a stop. -/
theorem StopsAfter.course_ne {p : Core → Bool} {c : Core} {n i j : Nat} (hp : IsStop p)
    (h : c.StopsAfter p n) (hij : i < j) (hj : j < n) :
    (c.after i).course ≠ (c.after j).course := by
  intro same
  have later : p ((c.after i).after (n - j)) = p ((c.after j).after (n - j)) :=
    hp.course (course_after same (n - j))
  rw [← after_add, ← after_add, Nat.add_sub_cancel' (Nat.le_of_lt hj), h.1] at later
  have before := h.2 (i + (n - j)) (by omega)
  rw [later] at before
  cases before

theorem StopsAfter.running {p : Core → Bool} {c : Core} {n k : Nat} (hp : IsStop p)
    (h : c.StopsAfter p n) (hk : k < n) : (c.after k).halted = false := by
  cases halted : (c.after k).halted with
  | false => rfl
  | true =>
      have stop := hp.halted halted
      rw [h.2 k hk] at stop
      cases stop

/-- The parts that decide how a core goes on, each within its bounds. -/
abbrev Configuration (length size read : Nat) : Type :=
  Fin length × Fin size × (Fin size → Fin 256) × Fin (read + 1)

theorem card_configuration (length size read : Nat) :
    Fintype.card (Configuration length size read) =
      length * size * 256 ^ size * (read + 1) := by
  simp only [Fintype.card_prod, Fintype.card_fin, Fintype.card_fun]
  ring

theorem course_eq_of_parts {size : Nat} {c d : Core} (hc : c.Valid size) (hd : d.Valid size)
    (hprogram : c.program = d.program) (hinput : c.input = d.input) (hpc : c.pc = d.pc)
    (hptr : c.ptr = d.ptr) (htape : ∀ i < size, c.tape.getD i 0 = d.tape.getD i 0)
    (hpos : c.inputPos = d.inputPos) : c.course = d.course := by
  have tape : c.tape = d.tape := by
    apply Array.ext (hc.size_tape.trans hd.size_tape.symm)
    intro i hi hi'
    have same := htape i (hc.size_tape ▸ hi)
    simpa [hi, hi'] using same
  simp [course, hprogram, hinput, hpc, hptr, tape, hpos]

/-- A run that comes to a stop makes no more steps to it than there are
configurations. -/
theorem StopsAfter.le_card {p : Core → Bool} {size n : Nat} {c : Core} (hp : IsStop p)
    (hc : c.Valid size) (h : c.StopsAfter p n) :
    n ≤ c.program.length * size * 256 ^ size * (c.input.size + 1) := by
  by_contra many
  have valid (k : Nat) : (c.after k).Valid size := hc.after k
  let state (k : Fin n) : Configuration c.program.length size c.input.size :=
    (⟨(c.after k).pc, by simpa [halted] using h.running hp k.isLt⟩,
      ⟨(c.after k).ptr, (valid k).ptr_lt⟩, fun i => ((c.after k).tape.getD i 0).toFin,
      ⟨(c.after k).inputPos, by simpa using Nat.lt_succ_of_le (valid k).inputPos_le⟩)
  have crowded : Fintype.card (Configuration c.program.length size c.input.size) <
      Fintype.card (Fin n) := by
    rw [card_configuration, Fintype.card_fin]
    exact Nat.lt_of_not_le many
  obtain ⟨i, j, distinct, same⟩ := Fintype.exists_ne_map_eq_of_card_lt state crowded
  have meet (i j : Fin n) (same : state i = state j) :
      (c.after i).course = (c.after j).course := by
    simp only [state, Prod.mk.injEq, Fin.mk.injEq] at same
    obtain ⟨hpc, hptr, htape, hpos⟩ := same
    apply course_eq_of_parts (valid i) (valid j) (by simp) (by simp) hpc hptr _ hpos
    intro k hk
    exact UInt8.toFin_inj.1 (congrFun htape ⟨k, hk⟩)
  rcases Nat.lt_or_gt_of_ne (Fin.val_ne_of_ne distinct) with hij | hji
  · exact h.course_ne hp hij j.isLt (meet i j same)
  · exact h.course_ne hp hji i.isLt (meet j i same.symm)

theorem HaltsAfter.le_card {size n : Nat} {c : Core} (hc : c.Valid size) (h : c.HaltsAfter n) :
    n ≤ c.program.length * size * 256 ^ size * (c.input.size + 1) :=
  StopsAfter.le_card isStop_halted hc h

/-- The search for a stop covers every configuration. -/
theorem card_lt_searchRounds (c : Core) :
    c.program.length * c.tape.size * 256 ^ c.tape.size * (c.input.size + 1) <
      2 ^ c.searchRounds := by
  let places := c.program.length * c.tape.size * (c.input.size + 1)
  have few : places < 2 ^ (places.log2 + 1) := Nat.lt_log2_self
  have tapes : (256 : Nat) ^ c.tape.size = 2 ^ (8 * c.tape.size) := by
    rw [Nat.pow_mul]
  calc c.program.length * c.tape.size * 256 ^ c.tape.size * (c.input.size + 1)
      = 256 ^ c.tape.size * places := by ring
    _ < 256 ^ c.tape.size * 2 ^ (places.log2 + 1) :=
        Nat.mul_lt_mul_of_pos_left few (Nat.pow_pos (by decide))
    _ = 2 ^ c.searchRounds := by
        rw [tapes, ← Nat.pow_add]
        rfl

/-- The search for a stop makes enough steps to find it. -/
theorem StopsAfter.lt_searchRounds {p : Core → Bool} {size n : Nat} {c : Core} (hp : IsStop p)
    (hc : c.Valid size) (h : c.StopsAfter p n) : n < 2 ^ c.searchRounds := by
  have few := h.le_card hp hc
  rw [← hc.size_tape] at few
  exact Nat.lt_of_le_of_lt few c.card_lt_searchRounds

end Core

/-- A run without a limit ends where single steps do. -/
theorem Machine.run_of_haltsAfter {size n : Nat} {m : Machine} (hm : m.core.Valid size)
    (h : m.core.HaltsAfter n) :
    m.run = some ({ m with core := m.core.after n, runState := .idle }, n) := by
  have covered := Core.StopsAfter.lt_searchRounds Core.isStop_halted hm h
  have enough : n ≤ 2 ^ m.core.searchRounds - 1 := by omega
  have ends : m.core.after (2 ^ m.core.searchRounds - 1) = m.core.after n :=
    Core.after_of_halted_le h.1 enough
  have last : m.after (2 ^ m.core.searchRounds - 1) =
      { m with core := m.core.after n, runState := .idle } := by
    rw [after_of_pos m.core.searchRounds_steps_pos, ends]
    exact settle_of_halted h.1
  rw [run_eq, last]
  simp [h.1, h.stepCount]

end TapeMachine
