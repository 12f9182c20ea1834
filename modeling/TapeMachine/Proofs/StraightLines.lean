import TapeMachine.Proofs.Halting
import TapeMachine.Proofs.Reading
import TapeMachine.Proofs.Recording
import TapeMachine.Proofs.TapeSizes

/-!
Programs without brackets and reads. Such a program is executed once from start to end,
and what it leaves behind can be counted: the pointer is where the moves lead, each cell
has one more for each increment and one less for each decrement that stands behind moves
to it, and each write hands on what this makes of its own cell. The counts are of
unlimited integers and wrap only once, at the end, though the pointer wraps at both ends
of the tape and a cell at both ends of its range.
-/

namespace TapeMachine

namespace Command

/-- The parts of a program before each place of a command, in order. -/
def partsBefore (command : Command) (commands : List Command) : List (List Command) :=
  ((List.range commands.length).filter fun i => commands[i]? = some command).map commands.take

/-- Where moves lead to, as a signed distance from the start. -/
def displacement (commands : List Command) : Int :=
  commands.count .right - commands.count .left

/-- How many places of a command are behind moves to a cell of a tape. -/
def visits (size : Nat) (command : Command) (commands : List Command) (cell : Nat) : Nat :=
  (command.partsBefore commands).countP fun before => displacement before % size = cell

/-- The increments less the decrements of a cell. -/
def total (size : Nat) (commands : List Command) (cell : Nat) : Int :=
  visits size .increment commands cell - visits size .decrement commands cell

/-- The total of the cell that the moves lead to. -/
def totalHere (size : Nat) (commands : List Command) : Int :=
  total size commands (displacement commands % size).toNat

/-- The commands that neither read nor lead away from the order of the program. -/
def straight : List Command :=
  [right, left, increment, decrement, write]

section Concat

variable (done : List Command) (next : Command)

theorem partsBefore_concat (command : Command) :
    command.partsBefore (done ++ [next]) =
      command.partsBefore done ++ if next = command then [done] else [] := by
  have earlier :
      ((List.range done.length).filter fun i => (done ++ [next])[i]? = some command).map
        (done ++ [next]).take = command.partsBefore done := by
    rw [partsBefore]
    have same : ∀ i ∈ List.range done.length, (done ++ [next])[i]? = done[i]? :=
      fun i hi => List.getElem?_append_left (List.mem_range.1 hi)
    rw [List.filter_congr fun i hi => by rw [same i hi]]
    apply List.map_congr_left
    intro i hi
    have inside := List.mem_range.1 (List.mem_filter.1 hi).1
    exact List.take_append_of_le_length (Nat.le_of_lt inside)
  rw [partsBefore, List.length_append, List.length_singleton, List.range_succ, List.filter_append,
    List.map_append, earlier]
  by_cases h : next = command <;> simp [h]

theorem displacement_concat :
    displacement (done ++ [next]) =
      displacement done + (if next = .right then 1 else 0) - if next = .left then 1 else 0 := by
  simp only [displacement, List.count_append, List.count_singleton, beq_iff_eq]
  split <;> split <;> push_cast <;> ring

theorem visits_concat (size : Nat) (command : Command) (cell : Nat) :
    visits size command (done ++ [next]) cell =
      visits size command done cell +
        if next = command ∧ displacement done % size = cell then 1 else 0 := by
  rw [visits, partsBefore_concat, List.countP_append, visits]
  by_cases h : next = command <;> simp [h, List.countP_singleton]

theorem total_concat (size cell : Nat) :
    total size (done ++ [next]) cell =
      total size done cell +
        (if next = .increment ∧ displacement done % size = cell then 1 else 0) -
        if next = .decrement ∧ displacement done % size = cell then 1 else 0 := by
  simp only [total, visits_concat]
  push_cast
  ring

end Concat

end Command

namespace Core

open Command

/-- What a straight program has made of a core when a part of it is done. -/
structure HasDone (size : Nat) (done : List Command) (c : Core) : Prop where
  size_pos : 0 < size
  size_tape : c.tape.size = size
  pc : c.pc = done.length
  ptr : (c.ptr : Int) = displacement done % size
  cells : ∀ i < size, ((c.tape.getD i 0).toNat : Int) = total size done i % 256
  output : c.output.toList.map (fun b => (b.toNat : Int)) =
    (Command.write.partsBefore done).map fun before => totalHere size before % 256

section

variable {size : Nat} {done : List Command} {c : Core}

theorem HasDone.ptr_lt (h : c.HasDone size done) : c.ptr < size := by
  have positive : (0 : Int) < size := by exact_mod_cast h.size_pos
  have bound := Int.emod_lt_of_pos (displacement done) positive
  rw [← h.ptr] at bound
  exact_mod_cast bound

theorem HasDone.isAt (h : c.HasDone size done) : c.IsAt 0 (displacement done) where
  room := by
    rw [h.size_tape]
    exact h.size_pos
  ptr := by
    rw [h.size_tape]
    exact h.ptr

theorem HasDone.here_iff (h : c.HasDone size done) (i : Nat) :
    displacement done % size = i ↔ c.ptr = i := by
  rw [← h.ptr, Nat.cast_inj]

theorem HasDone.cell (h : c.HasDone size done) :
    (c.cell.toNat : Int) = totalHere size done % 256 := by
  rw [totalHere, ← h.ptr, Int.toNat_natCast]
  exact h.cells c.ptr h.ptr_lt

/-- A change of the cell under the pointer adds to the total of that cell only. -/
theorem HasDone.cells_mapCell (h : c.HasDone size done) {next : Command} {f : UInt8 → UInt8}
    {change : Int} (here : ((f c.cell).toNat : Int) = (totalHere size done + change) % 256)
    (totals : ∀ i, total size (done ++ [next]) i =
      total size done i + if displacement done % size = i then change else 0) :
    ∀ i < size, (((c.mapCell f).tape.getD i 0).toNat : Int) =
      total size (done ++ [next]) i % 256 := by
  intro i hi
  have inside : i < c.tape.size := by rwa [h.size_tape]
  rw [totals, tape_mapCell, Array.getD_eq_getD_getElem?, Array.getElem?_setIfInBounds]
  by_cases same : c.ptr = i
  · rw [if_pos same, if_pos ((h.here_iff i).2 same), if_pos (same ▸ inside), Option.getD_some, here,
      totalHere, ← h.ptr, Int.toNat_natCast, same]
  · rw [if_neg same, if_neg (fun at_i => same ((h.here_iff i).1 at_i)), add_zero,
      ← Array.getD_eq_getD_getElem?]
    exact h.cells i hi

theorem HasDone.ptr_concat (h : c.HasDone size done) {next : Command} (hright : next ≠ .right)
    (hleft : next ≠ .left) : (c.ptr : Int) = displacement (done ++ [next]) % size := by
  rw [displacement_concat, if_neg hright, if_neg hleft, add_zero, sub_zero]
  exact h.ptr

theorem HasDone.cells_concat (h : c.HasDone size done) {next : Command}
    (hincrement : next ≠ .increment) (hdecrement : next ≠ .decrement) :
    ∀ i < size, ((c.tape.getD i 0).toNat : Int) = total size (done ++ [next]) i % 256 := by
  intro i hi
  rw [total_concat, if_neg fun both => hincrement both.1, if_neg fun both => hdecrement both.1,
    add_zero, sub_zero]
  exact h.cells i hi

theorem HasDone.output_concat (h : c.HasDone size done) {next : Command} (hwrite : next ≠ .write) :
    c.output.toList.map (fun b => (b.toNat : Int)) =
      (Command.write.partsBefore (done ++ [next])).map fun before =>
        totalHere size before % 256 := by
  rw [partsBefore_concat, if_neg hwrite, List.append_nil]
  exact h.output

/-- One more straight command is done by its execution. -/
theorem HasDone.execute (h : c.HasDone size done) {next : Command} (hstraight : next ∈ straight) :
    (c.execute next).HasDone size (done ++ [next]) := by
  have pc : c.pc + 1 = (done ++ [next]).length := by
    rw [List.length_append, List.length_singleton, h.pc]
  have resized : ∀ f : UInt8 → UInt8, (c.mapCell f).tape.size = size := by
    intro f
    rw [mapCell, Array.size_modify, h.size_tape]
  cases next with
  | right =>
      exact
        { size_pos := h.size_pos
          size_tape := h.size_tape
          pc := pc
          ptr := by
            have moved := h.isAt.right
            rw [h.size_tape] at moved
            simpa [displacement_concat, Core.execute, h.size_tape] using moved
          cells := h.cells_concat (by decide) (by decide)
          output := h.output_concat (by decide) }
  | left =>
      exact
        { size_pos := h.size_pos
          size_tape := h.size_tape
          pc := pc
          ptr := by
            have moved := h.isAt.left
            rw [h.size_tape] at moved
            simpa [displacement_concat, Core.execute, h.size_tape] using moved
          cells := h.cells_concat (by decide) (by decide)
          output := h.output_concat (by decide) }
  | increment =>
      have here : (((c.cell + 1).toNat : Nat) : Int) = (totalHere size done + 1) % 256 := by
        have cell := h.cell
        rw [UInt8.toNat_add]
        simp only [UInt8.toNat_one]
        omega
      exact
        { size_pos := h.size_pos
          size_tape := resized _
          pc := pc
          ptr := h.ptr_concat (by decide) (by decide)
          cells := h.cells_mapCell here fun i => by simp [total_concat]
          output := h.output_concat (by decide) }
  | decrement =>
      have here : (((c.cell - 1).toNat : Nat) : Int) = (totalHere size done + -1) % 256 := by
        have cell := h.cell
        rw [UInt8.toNat_sub]
        simp only [UInt8.toNat_one]
        omega
      exact
        { size_pos := h.size_pos
          size_tape := resized _
          pc := pc
          ptr := h.ptr_concat (by decide) (by decide)
          cells := h.cells_mapCell here fun i => by simp [total_concat]; split <;> ring
          output := h.output_concat (by decide) }
  | write =>
      exact
        { size_pos := h.size_pos
          size_tape := h.size_tape
          pc := pc
          ptr := h.ptr_concat (by decide) (by decide)
          cells := h.cells_concat (by decide) (by decide)
          output := by
            rw [partsBefore_concat, if_pos rfl, List.map_append, ← h.output, Core.execute,
              Array.toList_push, List.map_append, List.map_singleton, h.cell, List.map_singleton] }
  | read | loopStart | loopEnd => exact absurd hstraight (by decide)

theorem HasDone.step (h : c.HasDone size done) {next : Command} (hnext : c.command? = some next)
    (hstraight : next ∈ straight) : c.step.HasDone size (done ++ [next]) := by
  have counted : { c with stepCount := c.stepCount + 1 }.HasDone size done := { h with }
  rw [step_of_command hnext]
  exact counted.execute hstraight

end

theorem hasDone_load {size : Nat} (hsize : 0 < size) (source input : Text) :
    (load size source input).HasDone size [] where
  size_pos := hsize
  size_tape := Array.size_replicate
  pc := rfl
  ptr := by simp [load, install, displacement]
  cells := by
    intro i hi
    simp [load, install, blankTape, hi, total, visits, partsBefore]
  output := rfl

/-- A core that has done a part of its program comes to the command behind it. -/
theorem HasDone.command?_eq {size k : Nat} {commands : List Command} {c : Core}
    (h : c.HasDone size (commands.take k)) (hprogram : c.program.commands.toList = commands)
    (hk : k ≤ commands.length) : c.command? = commands[k]? := by
  rw [command?, h.pc, List.length_take_of_le hk, ← Array.getElem?_toList, hprogram]

theorem HasDone.after {size k : Nat} {commands : List Command} {c : Core}
    (h : c.HasDone size []) (hprogram : c.program.commands.toList = commands)
    (hstraight : ∀ command ∈ commands, command ∈ straight) (hk : k ≤ commands.length) :
    (c.after k).HasDone size (commands.take k) ∧ c.history k = commands.take k := by
  induction k with
  | zero => exact ⟨h, rfl⟩
  | succ k ih =>
      obtain ⟨done, executed⟩ := ih (Nat.le_of_succ_le hk)
      have hnext : (c.after k).command? = some commands[k] := by
        rw [done.command?_eq (by rw [program_after, hprogram]) (Nat.le_of_succ_le hk)]
        exact List.getElem?_eq_getElem hk
      rw [List.take_succ_eq_append_getElem hk, after_succ_step, history_succ, hnext, executed]
      exact ⟨done.step hnext (hstraight _ (List.getElem_mem hk)), rfl⟩

/-- A straight program is over after as many steps as it has commands. -/
theorem HasDone.haltsAfter {size : Nat} {commands : List Command} {c : Core}
    (h : c.HasDone size []) (hprogram : c.program.commands.toList = commands)
    (hstraight : ∀ command ∈ commands, command ∈ straight) : c.HaltsAfter commands.length := by
  have next (k : Nat) (hk : k ≤ commands.length) : (c.after k).command? = commands[k]? :=
    (h.after hprogram hstraight hk).1.command?_eq (by rw [program_after, hprogram]) hk
  constructor
  · rw [← command?_eq_none_iff, next _ (Nat.le_refl _)]
    exact List.getElem?_eq_none (Nat.le_refl _)
  · intro k hk
    rw [Bool.eq_false_iff, ne_eq, ← command?_eq_none_iff, next k (Nat.le_of_lt hk),
      List.getElem?_eq_getElem hk]
    exact Option.some_ne_none _

end Core

namespace Machine

open Command

/-- A program of moves, changes and writes is executed once, command by command, and what
it leaves is told by unlimited counts: the pointer by the moves, each cell by the
increments and decrements behind moves to it, and each byte of the output by the total of
the cell that the moves before its write lead to. -/
theorem straight_line_counts {m : Machine} (hsize : 0 < m.tapeSize) (source input : Text)
    (hstraight : ∀ command ∈ (Program.ofSource source).commands.toList,
      command ∈ [right, left, increment, decrement, write]) :
    let commands := (Program.ofSource source).commands.toList
    let loaded := m.load source input
    let last := loaded.after commands.length
    loaded.core.history commands.length = commands ∧
    loaded.core.HaltsAfter commands.length ∧
    loaded.run = some (last, commands.length) ∧
    (last.core.ptr : Int) = (commands.count right - commands.count left : Int) % m.tapeSize ∧
    last.tapeSize = m.tapeSize ∧
    (∀ cell < m.tapeSize,
      ((last.core.tape.getD cell 0).toNat : Int) = total m.tapeSize commands cell % 256) ∧
    last.core.output.toList.map (fun b => (b.toNat : Int)) =
      (write.partsBefore commands).map fun before =>
        total m.tapeSize before (displacement before % m.tapeSize).toNat % 256 := by
  intro commands loaded last
  have core : loaded.core = Core.load m.tapeSize source input := m.core_load source input
  have fresh : loaded.core.HasDone m.tapeSize [] := by
    rw [core]
    exact Core.hasDone_load hsize source input
  have valid : loaded.core.Valid m.tapeSize := by
    rw [core]
    exact Core.valid_load hsize source input
  have hprogram : loaded.core.program.commands.toList = commands := by
    rw [core]
    rfl
  have halts : loaded.core.HaltsAfter commands.length := fresh.haltsAfter hprogram hstraight
  obtain ⟨done, executed⟩ := fresh.after hprogram hstraight (Nat.le_refl commands.length)
  rw [List.take_length] at done executed
  have ends : last = { loaded with core := loaded.core.after commands.length } :=
    after_eq_of_idle (m.runState_load source input) _
  have runs : loaded.run = some (last, commands.length) := by
    rw [run_of_haltsAfter valid halts, ends]
    rfl
  rw [ends]
  exact ⟨executed, halts, ends ▸ runs, done.ptr, done.size_tape, done.cells, done.output⟩

/-- On two cells, from the first cell to the left and twice over the end of the tape, with
a cell that goes below zero and back. -/
theorem straight_line_counts_of_wraps :
    let source := Text.ofString "<-.>+ >+."
    let commands := (Program.ofSource source).commands.toList
    let loaded := (blank 2).load source []
    let last := loaded.after commands.length
    0 < (blank 2).tapeSize ∧
    (∀ command ∈ commands, command ∈ [right, left, increment, decrement, write]) ∧
    loaded.run = some (last, commands.length) ∧ commands.length = 8 ∧
    (last.core.ptr : Int) = 1 ∧
    ((last.core.tape.getD 0 0).toNat : Int) = total 2 commands 0 % 256 ∧
    total 2 commands 0 = 1 ∧
    last.core.output.toList.map (fun b => (b.toNat : Int)) = [255, 0] := by
  have hsize : 0 < (blank 2).tapeSize := by decide
  have hstraight : ∀ command ∈ (Program.ofSource (Text.ofString "<-.>+ >+.")).commands.toList,
      command ∈ [right, left, increment, decrement, write] := by
    decide
  obtain ⟨_, _, runs, ptr, _, cells, output⟩ := straight_line_counts hsize _ [] hstraight
  exact ⟨hsize, hstraight, runs, by decide, ptr.trans (by decide +kernel), cells 0 hsize,
    by decide, output.trans (by decide +kernel)⟩

end Machine

end TapeMachine
