import TapeMachine.Proofs.Lifecycle
import TapeMachine.Proofs.Seeker
import TapeMachine.Proofs.Stepping

/-!
One program on tapes of different sizes. A place is a signed distance from the start
of a tape, and every step leads to the next place at most. A tape with more than
twice as many cells as a reach keeps the places within that reach apart, so two such
tapes only differ in where their ends are joined, and no run that stays within the
reach comes to see it.
-/

namespace TapeMachine

namespace Core

/-- A core under whose pointer a place is, on a tape that keeps all places within
`reach` apart. -/
structure IsAt (reach : Nat) (place : Int) (c : Core) : Prop where
  room : 2 * reach < c.tape.size
  ptr : (c.ptr : Int) = place % c.tape.size

section Place

variable {reach : Nat} {place i : Int} {c : Core}

theorem IsAt.wrap (h : c.IsAt reach place) : c.wrap place = c.ptr := by
  rw [Core.wrap, ← h.ptr, Int.toNat_natCast]

theorem IsAt.cell (h : c.IsAt reach place) : c.cell = c.cellAt place := by
  rw [Core.cell, cellAt, h.wrap]

theorem IsAt.size_pos (h : c.IsAt reach place) : (0 : Int) < c.tape.size := by
  have room := h.room
  omega

theorem IsAt.right (h : c.IsAt reach place) :
    ((((c.ptr + 1) % c.tape.size : Nat)) : Int) = (place + 1) % c.tape.size := by
  rw [Int.natCast_mod, Int.natCast_add, h.ptr, Int.emod_add_emod]
  rfl

theorem IsAt.left (h : c.IsAt reach place) :
    ((((c.ptr + (c.tape.size - 1)) % c.tape.size : Nat)) : Int) =
      (place - 1) % c.tape.size := by
  have size := h.size_pos
  have back : ((c.tape.size - 1 : Nat) : Int) = -1 + c.tape.size := by omega
  rw [Int.natCast_mod, Int.natCast_add, h.ptr, Int.emod_add_emod, back, ← Int.add_assoc,
    Int.add_emod_right]
  rfl

/-- Two places within reach are at one cell only if they are one place. -/
theorem IsAt.wrap_eq_iff (h : c.IsAt reach place) (hplace : |place| ≤ reach)
    (hi : |i| ≤ reach) : c.wrap i = c.ptr ↔ i = place := by
  constructor
  · intro same
    have wrapped : (c.wrap i : Int) = i % c.tape.size :=
      Int.toNat_of_nonneg (Int.emod_nonneg i (Int.ne_of_gt h.size_pos))
    have close : i % c.tape.size = place % c.tape.size := by
      rw [← wrapped, same, h.ptr]
    have apart : |i - place| < c.tape.size := by
      have room := h.room
      have distance := abs_sub i place
      omega
    have multiple : (c.tape.size : Int) ∣ i - place :=
      Int.dvd_of_emod_eq_zero (Int.emod_eq_emod_iff_emod_sub_eq_zero.1 close)
    exact Int.sub_eq_zero.1 (Int.eq_zero_of_abs_lt_dvd multiple apart)
  · rintro rfl
    exact h.wrap

/-- A change of the cell under the pointer is a change at the place. -/
theorem IsAt.cellAt_mapCell (h : c.IsAt reach place) (hplace : |place| ≤ reach)
    (hi : |i| ≤ reach) (f : UInt8 → UInt8) :
    (c.mapCell f).cellAt i = if i = place then f (c.cellAt place) else c.cellAt i := by
  have inside : c.ptr < c.tape.size := by
    have bound := Int.emod_lt_of_pos place h.size_pos
    rw [← h.ptr] at bound
    omega
  have wrapped : (c.mapCell f).wrap i = c.wrap i := by
    simp [Core.wrap, mapCell]
  rw [cellAt, wrapped, tape_mapCell, ← h.cell]
  split
  · next here =>
      rw [here, h.wrap]
      simp [inside]
  · next elsewhere =>
      have other : c.ptr ≠ c.wrap i := fun same =>
        elsewhere ((h.wrap_eq_iff hplace hi).1 same.symm)
      simp [cellAt, other]

end Place

/-- Two cores at one place of one run, on tapes that may be of different sizes and
that agree on the cells within reach. -/
structure Matches (reach : Nat) (place : Int) (c c' : Core) : Prop where
  program : c'.program = c.program
  pc : c'.pc = c.pc
  input : c'.input = c.input
  inputPos : c'.inputPos = c.inputPos
  output : c'.output = c.output
  stepCount : c'.stepCount = c.stepCount
  left : c.IsAt reach place
  right : c'.IsAt reach place
  cellAt : ∀ i : Int, |i| ≤ reach → c'.cellAt i = c.cellAt i

section

variable {reach : Nat} {place : Int} {c c' : Core}

theorem Matches.command? (h : c.Matches reach place c') : c'.command? = c.command? := by
  rw [Core.command?, h.program, h.pc, Core.command?]

theorem Matches.halted (h : c.Matches reach place c') : c'.halted = c.halted := by
  rw [Core.halted, h.program, h.pc, Core.halted]

theorem Matches.partner? (h : c.Matches reach place c') : c'.partner? = c.partner? := by
  rw [Core.partner?, h.program, h.pc, Core.partner?]

theorem Matches.cell (h : c.Matches reach place c') (near : |place| ≤ reach) :
    c'.cell = c.cell := by
  rw [h.right.cell, h.left.cell, h.cellAt place near]

theorem Matches.openingTarget (h : c.Matches reach place c') (near : |place| ≤ reach) :
    c'.openingTarget = c.openingTarget := by
  rw [Core.openingTarget, h.cell near, h.partner?, h.program, h.pc, Core.openingTarget]

theorem Matches.closingTarget (h : c.Matches reach place c') (near : |place| ≤ reach) :
    c'.closingTarget = c.closingTarget := by
  rw [Core.closingTarget, h.cell near, h.partner?, h.program, h.pc, Core.closingTarget]

theorem Matches.jump (h : c.Matches reach place c') (pc : Nat) :
    { c with pc }.Matches reach place { c' with pc } :=
  { h with
    pc := rfl
    left := ⟨h.left.room, h.left.ptr⟩
    right := ⟨h.right.room, h.right.ptr⟩ }

theorem Matches.count (h : c.Matches reach place c') :
    { c with stepCount := c.stepCount + 1 }.Matches reach place
      { c' with stepCount := c'.stepCount + 1 } :=
  { h with
    stepCount := congrArg (· + 1) h.stepCount
    left := ⟨h.left.room, h.left.ptr⟩
    right := ⟨h.right.room, h.right.ptr⟩ }

theorem Matches.mapCell (h : c.Matches reach place c') (near : |place| ≤ reach)
    (f : UInt8 → UInt8) : (c.mapCell f).Matches reach place (c'.mapCell f) :=
  { h with
    pc := congrArg (· + 1) h.pc
    left := ⟨by simpa [Core.mapCell] using h.left.room, by simpa [Core.mapCell] using h.left.ptr⟩
    right :=
      ⟨by simpa [Core.mapCell] using h.right.room, by simpa [Core.mapCell] using h.right.ptr⟩
    cellAt := by
      intro i hi
      rw [h.right.cellAt_mapCell near hi, h.left.cellAt_mapCell near hi, h.cellAt place near,
        h.cellAt i hi] }

theorem Matches.readByte (h : c.Matches reach place c') (near : |place| ≤ reach) :
    c.readByte.Matches reach place c'.readByte := by
  rw [Core.readByte, Core.readByte, h.input, h.inputPos]
  cases c.input[c.inputPos]? with
  | none => exact h.mapCell near fun _ => 0
  | some b =>
      have stored := h.mapCell near fun _ => b
      exact
        { stored with
          inputPos := rfl
          left := ⟨stored.left.room, stored.left.ptr⟩
          right := ⟨stored.right.room, stored.right.ptr⟩ }

/-- A command leads matching cores to the same place, one farther at most. -/
theorem Matches.execute (h : c.Matches reach place c') (near : |place| ≤ reach)
    (command : Command) :
    ∃ place', |place'| ≤ |place| + 1 ∧
      (c.execute command).Matches reach place' (c'.execute command) := by
  have stays : |place| ≤ |place| + 1 := Int.le_add_one (Int.le_refl _)
  cases command with
  | right =>
      refine ⟨place + 1, abs_add_le place 1, ?_⟩
      exact
        { h with
          pc := congrArg (· + 1) h.pc
          left := ⟨h.left.room, h.left.right⟩
          right := ⟨h.right.room, h.right.right⟩ }
  | left =>
      refine ⟨place - 1, abs_sub place 1, ?_⟩
      exact
        { h with
          pc := congrArg (· + 1) h.pc
          left := ⟨h.left.room, h.left.left⟩
          right := ⟨h.right.room, h.right.left⟩ }
  | increment => exact ⟨place, stays, h.mapCell near _⟩
  | decrement => exact ⟨place, stays, h.mapCell near _⟩
  | write =>
      refine ⟨place, stays, ?_⟩
      exact
        { h with
          pc := congrArg (· + 1) h.pc
          output := by rw [Core.execute, Core.execute, h.output, h.cell near]
          left := ⟨h.left.room, h.left.ptr⟩
          right := ⟨h.right.room, h.right.ptr⟩ }
  | read => exact ⟨place, stays, h.readByte near⟩
  | loopStart =>
      refine ⟨place, stays, ?_⟩
      rw [Core.execute, Core.execute, enterLoop_eq, enterLoop_eq, h.openingTarget near]
      exact h.jump _
  | loopEnd =>
      refine ⟨place, stays, ?_⟩
      rw [Core.execute, Core.execute, leaveLoop_eq, leaveLoop_eq, h.closingTarget near]
      exact h.jump _

theorem Matches.step (h : c.Matches reach place c') (near : |place| ≤ reach) :
    ∃ place', |place'| ≤ |place| + 1 ∧ c.step.Matches reach place' c'.step := by
  cases hcommand : c.command? with
  | none =>
      rw [step_of_halted ((command?_eq_none_iff c).1 hcommand),
        step_of_halted ((command?_eq_none_iff c').1 (h.command?.trans hcommand))]
      exact ⟨place, Int.le_add_one (Int.le_refl _), h⟩
  | some command =>
      rw [step_of_command hcommand, step_of_command (h.command?.trans hcommand)]
      exact h.count.execute near command

/-- As long as a run cannot have left the reach, the cores match. -/
theorem Matches.after {n : Nat} (h : c.Matches reach place c') (near : |place| + n ≤ reach) :
    ∃ place', |place'| ≤ |place| + n ∧ (c.after n).Matches reach place' (c'.after n) := by
  induction n with
  | zero => exact ⟨place, by omega, h⟩
  | succ n ih =>
      obtain ⟨before, hbefore, matched⟩ := ih (by omega)
      obtain ⟨place', hplace', stepped⟩ := matched.step (by omega)
      rw [after_succ_step, after_succ_step]
      exact ⟨place', by omega, stepped⟩

end

theorem cellAt_load (size : Nat) (source input : Text) (i : Int) :
    (load size source input).cellAt i = 0 := by
  rw [cellAt, load, install, blankTape, Array.getD_eq_getD_getElem?, Array.getElem?_replicate]
  split <;> rfl

theorem matches_load {reach size size' : Nat} (room : 2 * reach < size)
    (room' : 2 * reach < size') (source input : Text) :
    (load size source input).Matches reach 0 (load size' source input) where
  program := rfl
  pc := rfl
  input := rfl
  inputPos := rfl
  output := rfl
  stepCount := rfl
  left := ⟨by simpa [load, install, blankTape] using room, by simp [load, install]⟩
  right := ⟨by simpa [load, install, blankTape] using room', by simp [load, install]⟩
  cellAt := by
    intro i _
    rw [cellAt_load, cellAt_load]

end Core

namespace Machine

/-- A run of `n` steps cannot tell two tapes with more than `2 * n` cells apart: the
answers and all but the pointer are the same, the pointers are at one place, and so
are the cells that the run can have come to. -/
theorem tapeSize_unobservable {m m' : Machine} {n : Nat} (room : 2 * n < m.tapeSize)
    (room' : 2 * n < m'.tapeSize) (source input : Text) :
    let a := m.load source input
    let b := m'.load source input
    (a.calls n).map Prod.snd = (b.calls n).map Prod.snd ∧
      (a.after n).core.pc = (b.after n).core.pc ∧
      (a.after n).core.output = (b.after n).core.output ∧
      (a.after n).core.stepCount = (b.after n).core.stepCount ∧
      (a.after n).core.inputPos = (b.after n).core.inputPos ∧
      (a.after n).core.halted = (b.after n).core.halted ∧
      ∃ d : Int, |d| ≤ n ∧ ((a.after n).core.ptr : Int) = d % m.tapeSize ∧
        ((b.after n).core.ptr : Int) = d % m'.tapeSize ∧
        ∀ i : Int, -n ≤ i → i ≤ n → (a.after n).core.cellAt i = (b.after n).core.cellAt i := by
  intro a b
  have loaded : a.core.Matches n 0 b.core := by
    rw [core_load, core_load]
    exact Core.matches_load room room' source input
  have along (k : Nat) (hk : k ≤ n) :
      ∃ d : Int, |d| ≤ k ∧ (a.core.after k).Matches n d (b.core.after k) := by
    simpa using loaded.after (n := k) (by simpa using hk)
  obtain ⟨d, hd, matched⟩ := along n (Nat.le_refl n)
  have size : a.core.tape.size = m.tapeSize := by
    rw [core_load]
    exact Array.size_replicate
  have size' : b.core.tape.size = m'.tapeSize := by
    rw [core_load]
    exact Array.size_replicate
  simp only [core_after]
  refine ⟨?_, matched.pc.symm, matched.output.symm, matched.stepCount.symm,
    matched.inputPos.symm, matched.halted.symm, d, hd, ?_, ?_, ?_⟩
  · rw [map_snd_calls, map_snd_calls]
    apply List.map_congr_left
    intro k hk
    obtain ⟨_, _, earlier⟩ := along (k + 1) (List.mem_range.1 hk)
    rw [earlier.halted]
  · rw [matched.left.ptr, Core.size_tape_after, size]
  · rw [matched.right.ptr, Core.size_tape_after, size']
  · intro i low high
    exact (matched.cellAt i (abs_le.2 ⟨low, high⟩)).symm

/-- Three steps to the left of the start, through a loop, on tapes of seven and of
twelve cells. -/
theorem tapeSize_unobservable_left_of_start :
    2 * 3 < (blank 7).tapeSize ∧ 2 * 3 < (blank 12).tapeSize ∧
      let a := (blank 7).load (Text.ofString "<+[<+]") []
      let b := (blank 12).load (Text.ofString "<+[<+]") []
      (a.after 3).core.pc = (b.after 3).core.pc ∧
      (a.calls 3).map Prod.snd = (b.calls 3).map Prod.snd ∧
      ∃ d : Int, |d| ≤ 3 ∧ ((a.after 3).core.ptr : Int) = d % (blank 7).tapeSize ∧
        ((b.after 3).core.ptr : Int) = d % (blank 12).tapeSize ∧
        (a.after 3).core.cellAt (-1) = (b.after 3).core.cellAt (-1) := by
  have room : 2 * 3 < (blank 7).tapeSize := by decide
  have room' : 2 * 3 < (blank 12).tapeSize := by decide
  obtain ⟨answers, pc, _, _, _, _, d, hd, ptr, ptr', cells⟩ :=
    tapeSize_unobservable room room' (Text.ofString "<+[<+]") []
  exact ⟨room, room', pc, answers, d, hd, ptr, ptr', cells (-1) (by decide) (by decide)⟩

end Machine

end TapeMachine
