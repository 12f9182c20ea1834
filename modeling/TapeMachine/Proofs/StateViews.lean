import TapeMachine.Console
import TapeMachine.Proofs.Offsets

/-!
What is shown of the state of a machine. A window of the tape holds the cells that it says
it holds, and with a distance that is not negative exactly those within that distance of
the pointer. Printed, one cell among them is marked, that under the pointer; the commands
around the next one are listed one after another, with an arrow at the next one unless the
machine has halted; and that it has halted is said exactly then. Marks are counted in the
text itself, wherever they may come from.
-/

namespace TapeMachine

namespace Core

section Window

variable (c : Core)

/-- A window starts at the first cell within the distance, and holds the cells that follow
one after another, as far as there are any. -/
theorem getElem?_window_of_int (radius : Int) {i : Nat} (h : i < (c.window radius).2.length) :
    (c.window radius).1 + i < c.tape.size ∧
      (c.window radius).2[i]? = c.tape[(c.window radius).1 + i]? := by
  simp only [window, slice, Array.length_toList, Array.size_extract] at h
  constructor
  · simp only [window]
    omega
  · simp only [window, slice, Array.getElem?_toList, Array.getElem?_extract]
    rw [if_pos (by omega)]

theorem cellAt_of_lt {i : Nat} (h : i < c.tape.size) : c.tape[i]? = some (c.cellAt i) := by
  have place : c.wrap i = i := by
    rw [wrap, ← Int.natCast_emod, Nat.mod_eq_of_lt h, Int.toNat_natCast]
  simp [cellAt, place, h]

theorem cell_of_lt (h : c.ptr < c.tape.size) : c.tape[c.ptr]? = some c.cell := by
  simp [cell, h]

/-- The cells of a window are those within its distance of the pointer. -/
theorem mem_window_iff (radius j : Nat) :
    (c.window radius).1 ≤ j ∧ j < (c.window radius).1 + (c.window radius).2.length ↔
      j < c.tape.size ∧ |(j : Int) - c.ptr| ≤ radius := by
  rw [window_fst, length_window, abs_le]
  omega

/-- The window around the pointer has the pointer's cell between others. -/
theorem exists_window_around (h : c.ptr < c.tape.size) (radius : Nat) :
    ∃ before after, before ++ c.cell :: after = (c.window radius).2 ∧
      (c.window radius).1 + before.length = c.ptr := by
  obtain ⟨hstart, hstop⟩ := c.ptr_mem_window radius h
  have inside : c.ptr - (c.window radius).1 < (c.window radius).2.length := by omega
  have shown : (c.window radius).2[c.ptr - (c.window radius).1]? = some c.cell := by
    rw [(c.getElem?_window_of_int radius inside).2, Nat.add_sub_cancel' hstart, c.cell_of_lt h]
  obtain ⟨before, after, values, place⟩ := exists_around shown
  exact ⟨before, after, values, by omega⟩

end Window

end Core

/-- How often a piece occurs in a text. -/
def occurrences (piece text : String) : Nat :=
  text.toList.tails.countP piece.toList.isPrefixOf

/-- Whether no occurrence of a piece begins within a text, whatever follows the text. -/
def Avoids (piece text : List Char) : Prop :=
  ∀ s ∈ text.tails, s ≠ [] → ¬piece <+: s ∧ ¬s <+: piece

instance (piece text : List Char) : Decidable (Avoids piece text) :=
  inferInstanceAs (Decidable (∀ s ∈ text.tails, s ≠ [] → ¬piece <+: s ∧ ¬s <+: piece))

section Occurrences

variable {piece s t : List Char}

theorem avoids_nil (piece : List Char) : Avoids piece [] := by
  simp [Avoids]

theorem avoids_cons {c : Char} :
    Avoids piece (c :: s) ↔ (¬piece <+: c :: s ∧ ¬c :: s <+: piece) ∧ Avoids piece s := by
  simp [Avoids]

theorem Avoids.not_prefix_append (h : Avoids piece s) (hs : s ≠ []) : ¬piece <+: s ++ t := by
  intro hprefix
  obtain ⟨hbegins, hends⟩ := h s ((List.mem_tails s s).2 List.suffix_rfl) hs
  rcases List.prefix_or_prefix_of_prefix hprefix (List.prefix_append s t) with within | beyond
  · exact hbegins within
  · exact hends beyond

theorem Avoids.append (h : Avoids piece s) (h' : Avoids piece t) : Avoids piece (s ++ t) := by
  induction s with
  | nil => exact h'
  | cons c s ih =>
      obtain ⟨⟨_, hends⟩, hrest⟩ := avoids_cons.1 h
      refine avoids_cons.2 ⟨⟨h.not_prefix_append (List.cons_ne_nil c s), ?_⟩, ih hrest⟩
      intro hprefix
      exact hends ((List.prefix_append (c :: s) t).trans hprefix)

theorem Avoids.string_append {s t : String} (h : Avoids piece s.toList)
    (h' : Avoids piece t.toList) : Avoids piece (s ++ t).toList := by
  rw [String.toList_append]
  exact h.append h'

theorem Avoids.flatMap {α : Type} {f : α → List Char} {l : List α}
    (h : ∀ a ∈ l, Avoids piece (f a)) : Avoids piece (l.flatMap f) := by
  induction l with
  | nil => exact avoids_nil piece
  | cons a l ih =>
      rw [List.flatMap_cons]
      exact (h a (List.mem_cons_self ..)).append (ih fun b hb => h b (List.mem_cons_of_mem a hb))

/-- A text without the first character of a piece avoids it. -/
theorem avoids_of_notMem {first : Char} {rest : List Char} (h : first ∉ s) :
    Avoids (first :: rest) s := by
  induction s with
  | nil => exact avoids_nil _
  | cons c s ih =>
      rw [List.mem_cons, not_or] at h
      refine avoids_cons.2 ⟨⟨?_, ?_⟩, ih h.2⟩
      · intro hprefix
        exact h.1 (List.cons_prefix_cons.1 hprefix).1
      · intro hprefix
        exact h.1 (List.cons_prefix_cons.1 hprefix).1.symm

theorem countP_tails_append (h : Avoids piece s) :
    (s ++ t).tails.countP piece.isPrefixOf = t.tails.countP piece.isPrefixOf := by
  induction s with
  | nil => rfl
  | cons c s ih =>
      have hnot : piece.isPrefixOf (c :: (s ++ t)) = false := by
        rw [Bool.eq_false_iff, ne_eq, List.isPrefixOf_iff_prefix]
        exact h.not_prefix_append (List.cons_ne_nil c s)
      rw [List.cons_append, List.tails_cons, List.countP_cons, ih (avoids_cons.1 h).2, hnot]
      rfl

theorem occurrences_eq_zero {piece text : String} (hpiece : piece.toList ≠ [])
    (h : Avoids piece.toList text.toList) : occurrences piece text = 0 := by
  have counted := countP_tails_append (t := []) h
  rw [List.append_nil] at counted
  rw [occurrences, counted]
  simpa using hpiece

/-- A piece between texts that avoid it occurs once, if it cannot overlap itself. -/
theorem occurrences_eq_one {piece before after : String} {first : Char} {rest : List Char}
    (hpiece : piece.toList = first :: rest) (hrest : Avoids piece.toList rest)
    (hbefore : Avoids piece.toList before.toList) (hafter : Avoids piece.toList after.toList) :
    occurrences piece (before ++ piece ++ after) = 1 := by
  have ne : piece.toList ≠ [] := by simp [hpiece]
  have later : (rest ++ after.toList).tails.countP piece.toList.isPrefixOf = 0 := by
    rw [countP_tails_append hrest]
    exact occurrences_eq_zero ne hafter
  have here : piece.toList.isPrefixOf (first :: (rest ++ after.toList)) = true := by
    rw [hpiece, List.isPrefixOf_iff_prefix, ← List.cons_append]
    exact List.prefix_append _ _
  rw [occurrences, String.toList_append, String.toList_append, List.append_assoc,
    countP_tails_append hbefore]
  nth_rewrite 2 [hpiece]
  rw [List.cons_append, List.tails_cons, List.countP_cons, later, here]
  rfl

end Occurrences

theorem notMem_toString {c : Char} (h : c.isDigit = false) (n : Nat) :
    c ∉ (toString n).toList := by
  intro hmem
  have digits : (toString n).toList = Nat.toDigits 10 n := by simp
  rw [digits] at hmem
  rw [Nat.isDigit_of_mem_toDigits (by decide) (by decide) hmem] at h
  cases h

theorem notMem_zeroFilled {c : Char} (h : c.isDigit = false) (width n : Nat) :
    c ∉ (Layout.zeroFilled width n).toList := by
  have digits : (Layout.zeroFilled width n).toList =
      List.replicate (width - (Nat.toDigits 10 n).length) '0' ++ Nat.toDigits 10 n := by
    have natural : ¬(n : Int) < 0 := by omega
    simp [Layout.zeroFilled, natural]
  rw [digits, List.mem_append, not_or]
  constructor
  · intro hmem
    rw [List.eq_of_mem_replicate hmem] at h
    cases h
  · intro hmem
    rw [Nat.isDigit_of_mem_toDigits (by decide) (by decide) hmem] at h
    cases h

namespace Console

def plainCell (value : UInt8) : String :=
  s!" {Layout.zeroFilled 3 value.toNat}  "

def bracketed (value : UInt8) : String :=
  "[" ++ Layout.zeroFilled 3 value.toNat ++ "]" ++ plain ++ " "

def markedCell (value : UInt8) : String :=
  reverse ++ bracketed value

/-- A command with its number, the place in the source and the mark of a breakpoint. -/
def label (console : Console) (i : Nat) (command : TapeMachine.Command) (offset : Nat) : String :=
  (if console.breakpoints.contains i then "*" else " ") ++ Layout.zeroFilled 4 i ++
    (": " ++ command.toChar.toString ++ "  (src ") ++ toString offset ++ ")"

theorem showCells_of_apart {ptr start : Nat} {values : List UInt8}
    (h : ptr < start ∨ start + values.length ≤ ptr) :
    ((values.zipIdx start).map fun (value, i) => showCell ptr value i) =
      values.map plainCell := by
  induction values generalizing start with
  | nil => rfl
  | cons value rest ih =>
      rw [List.length_cons] at h
      have here : start ≠ ptr := by omega
      rw [List.zipIdx_cons, List.map_cons, List.map_cons, ih (by omega)]
      simp only [showCell, if_neg here]
      rfl

/-- Of the cells in a window, that under the pointer is marked. -/
theorem showTape_eq {c : Core} {radius : Nat} {before after : List UInt8}
    (hvalues : before ++ c.cell :: after = (c.window radius).2)
    (hplace : (c.window radius).1 + before.length = c.ptr) :
    showTape c radius =
      String.join (before.map plainCell) ++ markedCell c.cell ++
        String.join (after.map plainCell) := by
  have hbefore : c.ptr < (c.window radius).1 ∨ (c.window radius).1 + before.length ≤ c.ptr := by
    omega
  have hafter : c.ptr < c.ptr + 1 ∨ c.ptr + 1 + after.length ≤ c.ptr := by omega
  have hmarked : showCell c.ptr c.cell c.ptr = markedCell c.cell := by
    rw [← String.toList_inj]
    simp [showCell, markedCell, bracketed, toString]
  simp only [showTape, ← hvalues, List.zipIdx_append, List.zipIdx_cons, List.map_append,
    List.map_cons, hplace, hmarked, showCells_of_apart hbefore, showCells_of_apart hafter,
    String.join_append, String.join_cons, String.append_assoc]

theorem showCommand_eq {console : Console} {i offset : Nat} {command : TapeMachine.Command}
    (hcommand : console.machine.core.program.commands[i]? = some command)
    (hoffset : console.machine.core.program.offsets[i]? = some offset) :
    console.showCommand i =
      if i = console.machine.core.pc then
        green ++ "->" ++ (console.label i command offset ++ plain ++ "\n")
      else "  " ++ console.label i command offset ++ "\n" := by
  simp only [showCommand, hcommand, hoffset, label]
  split
  · rw [← String.toList_inj]
    simp [toString]
  · rw [← String.toList_inj]
    simp [toString]

theorem toList_showHead (c : Core) :
    (showHead c).toList =
      ("\n" ++ bold ++ "--- Step ").toList ++ (toString c.stepCount).toList ++
        (" ---" ++ plain ++ "\n" ++ "PC: ").toList ++ (toString c.pc).toList ++ " / ".toList ++
        (toString c.program.length).toList ++ ("\n" ++ "Ptr: ").toList ++
        (toString c.ptr).toList ++ "\n".toList := by
  simp [showHead, toString]

/-- The numbers of the commands within a distance of the program counter. -/
def listed (c : Core) (context : Nat) : List Nat :=
  List.range' (c.pc - context) (min c.program.length (c.pc + context + 1) - (c.pc - context))

theorem mem_listed_iff (c : Core) (context i : Nat) :
    i ∈ listed c context ↔ i < c.program.length ∧ |(i : Int) - c.pc| ≤ context := by
  rw [listed, List.mem_range'_1, abs_le]
  omega

theorem lt_of_mem_listed (c : Core) (context : Nat) :
    ∀ i ∈ listed c context, i < c.program.length :=
  fun i hi => ((mem_listed_iff c context i).1 hi).1

theorem pc_mem_listed_iff (c : Core) (context : Nat) :
    c.pc ∈ listed c context ↔ c.halted = false := by
  simp [mem_listed_iff, Core.halted]

theorem showProgram_eq (console : Console) (context : Nat) :
    console.showProgram context =
      String.join ((listed console.machine.core context).map console.showCommand) := by
  have count : (min (console.machine.core.program.length : Int)
        ((console.machine.core.pc : Int) + context + 1) -
          max 0 ((console.machine.core.pc : Int) - context)).toNat =
      min console.machine.core.program.length (console.machine.core.pc + context + 1) -
        (console.machine.core.pc - context) := by omega
  simp only [showProgram, span, listed, List.map_map, List.range'_eq_map_range, count]
  apply congrArg String.join
  apply List.map_congr_left
  intro i _
  have place : (max 0 ((console.machine.core.pc : Int) - context) + (i : Int)).toNat =
      console.machine.core.pc - context + i := by omega
  simp only [Function.comp_apply, place]

theorem showHalt_eq (c : Core) :
    showHalt c = if c.halted then yellow ++ "(halted)" ++ plain ++ "\n" else "" := by
  rw [← String.toList_inj]
  simp [showHalt, toString]

/-- The texts of a state that do not depend on the state, but for the marks. -/
def fixedTexts : List String :=
  ["\n" ++ bold ++ "--- Step ", " ---" ++ plain ++ "\n" ++ "PC: ", " / ", "\n" ++ "Ptr: ", "\n",
      "Loc: ", "[", "]", " ", "  ", "*", ")", green, yellow, plain] ++
    TapeMachine.Command.all.map fun command => ": " ++ command.toChar.toString ++ "  (src "

/-- Whether a piece cannot be mistaken for anything else in a state: it is no number, does
not overlap itself and cannot begin in a fixed text. -/
structure IsMark (piece : String) : Prop where
  head : ∃ first rest, piece.toList = first :: rest ∧ first.isDigit = false ∧
    Avoids piece.toList rest
  fixed : ∀ s ∈ fixedTexts, Avoids piece.toList s.toList

theorem isMark_reverse : IsMark reverse where
  head := ⟨'\x1b', "[7m".toList, by decide, by decide, by decide⟩
  fixed := by decide

theorem isMark_arrow : IsMark "->" where
  head := ⟨'-', [ '>' ], by decide, by decide, by decide⟩
  fixed := by decide

theorem isMark_halted : IsMark "(halted)" where
  head := ⟨'(', "halted)".toList, by decide, by decide, by decide⟩
  fixed := by decide

section Marks

variable {piece : String}

theorem IsMark.of_digits (h : IsMark piece) {text : List Char}
    (hdigits : ∀ c : Char, c.isDigit = false → c ∉ text) : Avoids piece.toList text := by
  obtain ⟨first, rest, hpiece, hfirst, _⟩ := h.head
  rw [hpiece]
  exact avoids_of_notMem (hdigits first hfirst)

theorem IsMark.number (h : IsMark piece) (n : Nat) :
    Avoids piece.toList (toString n).toList :=
  h.of_digits fun _ hc => notMem_toString hc n

theorem IsMark.zeroFilled (h : IsMark piece) (width n : Nat) :
    Avoids piece.toList (Layout.zeroFilled width n).toList :=
  h.of_digits fun _ hc => notMem_zeroFilled hc width n

theorem IsMark.showHead (h : IsMark piece) (c : Core) :
    Avoids piece.toList (Console.showHead c).toList := by
  have hstep := h.fixed ("\n" ++ bold ++ "--- Step ") (by simp [fixedTexts])
  have hpc := h.fixed (" ---" ++ plain ++ "\n" ++ "PC: ") (by simp [fixedTexts])
  have hof := h.fixed " / " (by simp [fixedTexts])
  have hptr := h.fixed ("\n" ++ "Ptr: ") (by simp [fixedTexts])
  have hend := h.fixed "\n" (by simp [fixedTexts])
  rw [toList_showHead]
  apply Avoids.append _ hend
  apply Avoids.append _ (h.number c.ptr)
  apply Avoids.append _ hptr
  apply Avoids.append _ (h.number c.program.length)
  apply Avoids.append _ hof
  apply Avoids.append _ (h.number c.pc)
  apply Avoids.append _ hpc
  exact hstep.append (h.number c.stepCount)

theorem IsMark.plainCells (h : IsMark piece) (values : List UInt8) :
    Avoids piece.toList (String.join (values.map plainCell)).toList := by
  rw [String.toList_join, List.flatMap_map]
  apply Avoids.flatMap
  intro value _
  have text : (plainCell value).toList =
      " ".toList ++ (Layout.zeroFilled 3 value.toNat).toList ++ "  ".toList := by
    simp [plainCell, toString]
  rw [text]
  apply Avoids.append _ (h.fixed "  " (by simp [fixedTexts]))
  exact (h.fixed " " (by simp [fixedTexts])).append (h.zeroFilled 3 value.toNat)

theorem IsMark.bracketed (h : IsMark piece) (value : UInt8) :
    Avoids piece.toList (Console.bracketed value).toList := by
  apply Avoids.string_append _ (h.fixed " " (by simp [fixedTexts]))
  apply Avoids.string_append _ (h.fixed plain (by simp [fixedTexts]))
  apply Avoids.string_append _ (h.fixed "]" (by simp [fixedTexts]))
  exact (h.fixed "[" (by simp [fixedTexts])).string_append (h.zeroFilled 3 value.toNat)

theorem IsMark.label (h : IsMark piece) (console : Console) (i : Nat)
    (command : TapeMachine.Command) (offset : Nat) :
    Avoids piece.toList (console.label i command offset).toList := by
  have star : Avoids piece.toList (if console.breakpoints.contains i then "*" else " ").toList := by
    split
    · exact h.fixed "*" (by simp [fixedTexts])
    · exact h.fixed " " (by simp [fixedTexts])
  have known : command ∈ TapeMachine.Command.all := by cases command <;> decide
  have symbol : Avoids piece.toList (": " ++ command.toChar.toString ++ "  (src ").toList :=
    h.fixed _ (List.mem_append_right _ (List.mem_map_of_mem known))
  apply Avoids.string_append _ (h.fixed ")" (by simp [fixedTexts]))
  apply Avoids.string_append _ (h.number offset)
  apply Avoids.string_append _ symbol
  exact star.string_append (h.zeroFilled 4 i)

/-- What follows the arrow in the line of the next command. -/
theorem IsMark.rest_of_line (h : IsMark piece) (console : Console) (i : Nat)
    (command : TapeMachine.Command) (offset : Nat) :
    Avoids piece.toList (console.label i command offset ++ plain ++ "\n").toList := by
  apply Avoids.string_append _ (h.fixed "\n" (by simp [fixedTexts]))
  exact (h.label console i command offset).string_append (h.fixed plain (by simp [fixedTexts]))

variable {console : Console}

theorem IsMark.showCommand (h : IsMark piece)
    (hsize : console.machine.core.program.offsets.size = console.machine.core.program.length)
    {i : Nat} (hi : i < console.machine.core.program.length)
    (harrow : i = console.machine.core.pc → Avoids piece.toList "->".toList) :
    Avoids piece.toList (console.showCommand i).toList := by
  rw [showCommand_eq (Array.getElem?_eq_getElem hi) (Array.getElem?_eq_getElem (hsize ▸ hi))]
  split
  · next here =>
    apply Avoids.string_append _ (h.rest_of_line console i _ _)
    exact (h.fixed green (by simp [fixedTexts])).string_append (harrow here)
  · apply Avoids.string_append _ (h.fixed "\n" (by simp [fixedTexts]))
    exact (h.fixed "  " (by simp [fixedTexts])).string_append (h.label console i _ _)

theorem IsMark.showCommands (h : IsMark piece)
    (hsize : console.machine.core.program.offsets.size = console.machine.core.program.length)
    {lines : List Nat} (hlines : ∀ i ∈ lines, i < console.machine.core.program.length)
    (harrow : console.machine.core.pc ∈ lines → Avoids piece.toList "->".toList) :
    Avoids piece.toList (String.join (lines.map console.showCommand)).toList := by
  rw [String.toList_join, List.flatMap_map]
  apply Avoids.flatMap
  intro i hi
  exact h.showCommand hsize (hlines i hi) fun here => harrow (here ▸ hi)

theorem IsMark.showHalt (h : IsMark piece) (c : Core)
    (hhalted : c.halted = true → Avoids piece.toList "(halted)".toList) :
    Avoids piece.toList (Console.showHalt c).toList := by
  rw [showHalt_eq]
  split
  · next halted =>
    apply Avoids.string_append _ (h.fixed "\n" (by simp [fixedTexts]))
    apply Avoids.string_append _ (h.fixed plain (by simp [fixedTexts]))
    exact (h.fixed yellow (by simp [fixedTexts])).string_append (hhalted halted)
  · exact avoids_nil _

theorem IsMark.line_of_tape (h : IsMark piece) (before : List UInt8) (value : UInt8)
    (after : List UInt8) (hreverse : Avoids piece.toList reverse.toList) :
    Avoids piece.toList
      ("Loc: " ++ (String.join (before.map plainCell) ++ markedCell value ++
        String.join (after.map plainCell)) ++ "\n").toList := by
  apply Avoids.string_append _ (h.fixed "\n" (by simp [fixedTexts]))
  apply Avoids.string_append (h.fixed "Loc: " (by simp [fixedTexts]))
  apply Avoids.string_append _ (h.plainCells after)
  exact (h.plainCells before).string_append (hreverse.string_append (h.bracketed value))

end Marks

section State

variable {console : Console} {window context : Nat} {before after : List UInt8}

theorem stateView_eq
    (hvalues : before ++ console.machine.core.cell :: after =
      (console.machine.core.window window).2)
    (hplace : (console.machine.core.window window).1 + before.length = console.machine.core.ptr) :
    console.stateView window context =
      showHead console.machine.core ++
        ("Loc: " ++ (String.join (before.map plainCell) ++
          markedCell console.machine.core.cell ++ String.join (after.map plainCell)) ++ "\n") ++
        String.join ((listed console.machine.core context).map console.showCommand) ++
        showHalt console.machine.core := by
  rw [stateView, showTape_eq hvalues hplace, showProgram_eq]
  rw [← String.toList_inj]
  simp [toString]

/-- The commands before the next one, and those after it. -/
theorem exists_listed_around (c : Core) (context : Nat) (h : c.halted = false) :
    ∃ before after, listed c context = before ++ c.pc :: after ∧
      c.pc ∉ before ∧ c.pc ∉ after := by
  obtain ⟨before, after, split⟩ := List.append_of_mem ((pc_mem_listed_iff c context).2 h)
  have once : (before ++ c.pc :: after).Nodup := by
    rw [← split]
    exact List.nodup_range'
  rw [List.nodup_middle, List.nodup_cons, List.mem_append, not_or] at once
  exact ⟨before, after, split, once.1⟩

variable (hsize : console.machine.core.program.offsets.size = console.machine.core.program.length)
  (hvalues : before ++ console.machine.core.cell :: after =
    (console.machine.core.window window).2)
  (hplace : (console.machine.core.window window).1 + before.length = console.machine.core.ptr)

include hsize hvalues hplace

theorem occurrences_reverse : occurrences reverse (console.stateView window context) = 1 := by
  have split : console.stateView window context =
      showHead console.machine.core ++ ("Loc: " ++ String.join (before.map plainCell)) ++ reverse ++
        (bracketed console.machine.core.cell ++ String.join (after.map plainCell) ++ "\n" ++
          String.join ((listed console.machine.core context).map console.showCommand) ++
          showHalt console.machine.core) := by
    rw [stateView_eq hvalues hplace]
    simp only [markedCell, String.append_assoc]
  rw [split]
  have mark := isMark_reverse
  refine occurrences_eq_one rfl (by decide) ?_ ?_
  · apply Avoids.string_append (mark.showHead _)
    exact (mark.fixed "Loc: " (by simp [fixedTexts])).string_append (mark.plainCells before)
  · apply Avoids.string_append _ (mark.showHalt _ fun _ => by decide)
    apply Avoids.string_append _
      (mark.showCommands hsize (lt_of_mem_listed _ context) fun _ => by decide)
    apply Avoids.string_append _ (mark.fixed "\n" (by simp [fixedTexts]))
    exact (mark.bracketed _).string_append (mark.plainCells after)

theorem occurrences_arrow :
    occurrences "->" (console.stateView window context) =
      if console.machine.core.halted then 0 else 1 := by
  have mark := isMark_arrow
  have hhead := (mark.showHead console.machine.core).string_append
    (mark.line_of_tape before console.machine.core.cell after (by decide))
  have hhalt := mark.showHalt console.machine.core fun _ => by decide
  rw [stateView_eq hvalues hplace]
  split
  · next halted =>
    apply occurrences_eq_zero (by decide)
    apply Avoids.string_append _ hhalt
    apply hhead.string_append
    apply mark.showCommands hsize (lt_of_mem_listed _ context)
    intro here
    rw [pc_mem_listed_iff, halted] at here
    cases here
  · next running =>
    rw [Bool.not_eq_true] at running
    obtain ⟨above, below, split, habove, hbelow⟩ := exists_listed_around _ context running
    have lines : ∀ i ∈ above ++ console.machine.core.pc :: below,
        i < console.machine.core.program.length := split ▸ lt_of_mem_listed _ context
    have hpc := lines _ (List.mem_append_right _ (List.mem_cons_self ..))
    have line := showCommand_eq (i := console.machine.core.pc) (Array.getElem?_eq_getElem hpc)
      (Array.getElem?_eq_getElem (hsize ▸ hpc))
    rw [if_pos rfl] at line
    have regroup (first above label below last : String) :
        first ++ (above ++ (green ++ "->" ++ label ++ below)) ++ last =
          first ++ (above ++ green) ++ "->" ++ (label ++ below ++ last) := by
      simp only [String.append_assoc]
    rw [split, List.map_append, List.map_cons, line, String.join_append, String.join_cons, regroup]
    refine occurrences_eq_one rfl (by decide) (hhead.string_append ?_) ?_
    · apply Avoids.string_append _ (mark.fixed green (by simp [fixedTexts]))
      exact mark.showCommands hsize (fun i hi => lines i (List.mem_append_left _ hi))
        fun here => absurd here habove
    · apply Avoids.string_append _ hhalt
      apply (mark.rest_of_line console _ _ _).string_append
      refine mark.showCommands hsize (fun i hi => lines i ?_) fun here => absurd here hbelow
      exact List.mem_append_right _ (List.mem_cons_of_mem _ hi)

theorem occurrences_halted :
    occurrences "(halted)" (console.stateView window context) =
      if console.machine.core.halted then 1 else 0 := by
  have mark := isMark_halted
  have hbefore := ((mark.showHead console.machine.core).string_append
    (mark.line_of_tape before console.machine.core.cell after (by decide))).string_append
      (mark.showCommands hsize (lt_of_mem_listed _ context) fun _ => by decide)
  rw [stateView_eq hvalues hplace, showHalt_eq]
  split
  · have regroup (first : String) :
        first ++ (yellow ++ "(halted)" ++ plain ++ "\n") =
          first ++ yellow ++ "(halted)" ++ (plain ++ "\n") := by
      simp only [String.append_assoc]
    rw [regroup]
    refine occurrences_eq_one rfl (by decide) ?_ (by decide)
    exact hbefore.string_append (mark.fixed yellow (by simp [fixedTexts]))
  · apply occurrences_eq_zero (by decide)
    exact hbefore.string_append (avoids_nil _)

end State

/-- What is printed of the state of a console's machine, with distances around the pointer and
around the program counter. -/
structure ShowsState (console : Console) (window context : Nat) (printed : String) : Prop where
  /-- The cells of the window in order, that under the pointer marked among the others; then
  the commands around the next one, numbered one after another. -/
  layout : ∃ before after first count,
    before ++ console.machine.core.cell :: after = (console.machine.core.window window).2 ∧
    (console.machine.core.window window).1 + before.length = console.machine.core.ptr ∧
    (∀ i : Nat, first ≤ i ∧ i < first + count ↔
      i < console.machine.core.program.length ∧ |(i : Int) - console.machine.core.pc| ≤ context) ∧
    printed = showHead console.machine.core ++
      ("Loc: " ++ (String.join (before.map plainCell) ++ markedCell console.machine.core.cell ++
        String.join (after.map plainCell)) ++ "\n") ++
      String.join ((List.range' first count).map console.showCommand) ++
      showHalt console.machine.core
  /-- The arrow stands in the line of the next command, and every line has its command's number. -/
  line : ∀ i < console.machine.core.program.length, ∃ command offset,
    console.machine.core.program.commands[i]? = some command ∧
    console.machine.core.program.offsets[i]? = some offset ∧
    console.showCommand i =
      if i = console.machine.core.pc then
        green ++ "->" ++ (console.label i command offset ++ plain ++ "\n")
      else "  " ++ console.label i command offset ++ "\n"
  marked : occurrences reverse printed = 1
  arrows : occurrences "->" printed = if console.machine.core.halted then 0 else 1
  halts : occurrences "(halted)" printed = if console.machine.core.halted then 1 else 0

theorem showsState_stateView {console : Console}
    (hsize : console.machine.core.program.offsets.size = console.machine.core.program.length)
    (hptr : console.machine.core.ptr < console.machine.core.tape.size) (window context : Nat) :
    console.ShowsState window context (console.stateView window context) := by
  obtain ⟨before, after, hvalues, hplace⟩ :=
    console.machine.core.exists_window_around hptr window
  refine ⟨⟨before, after, _, _, hvalues, hplace, ?_, stateView_eq hvalues hplace⟩, ?_,
    occurrences_reverse hsize hvalues hplace, occurrences_arrow hsize hvalues hplace,
    occurrences_halted hsize hvalues hplace⟩
  · intro i
    rw [← mem_listed_iff, listed, List.mem_range'_1]
  · intro i hi
    have hcommand := Array.getElem?_eq_getElem hi
    have hoffset := Array.getElem?_eq_getElem (hsize ▸ hi)
    exact ⟨_, _, hcommand, hoffset, showCommand_eq hcommand hoffset⟩

end Console

namespace Machine

/-- With any distance, a window of a machine's tape holds cells as they are
from its start on, one after another and none past the end of the tape. With a distance that
is not negative they are exactly those within it of the pointer, whose own cell is among them.
A console then marks that cell and no other, lists the commands around the next one, and shows
an arrow at it unless the machine has halted, and that it has halted if it has. -/
theorem state_shown {size : Nat} {texts : Text × Text} {m : Machine} (hsize : 0 < size)
    (reached : m.ReachedWith size texts) :
    (∀ radius : Int, ∃ start values,
      m.windowOf (.int radius) = .ok (start, values) ∧
      (∀ i < values.length, start + i < size ∧
        ∃ value, values[i]? = some value ∧
          ∀ memory, m.cellOf (.nat (start + i)) memory = .ok value) ∧
      (0 ≤ radius →
        (∀ j : Nat, start ≤ j ∧ j < start + values.length ↔
          j < size ∧ |(j : Int) - m.core.ptr| ≤ radius) ∧
        start ≤ m.core.ptr ∧ values[m.core.ptr - start]? = some m.core.cell ∧
        (values.length : Int) =
          min (size : Int) (m.core.ptr + radius + 1) - max 0 (m.core.ptr - radius))) ∧
    ∀ console : Console, console.machine = m → ∀ window context : Nat, ∃ printed,
      console.stateViewOf (.nat window) (.nat context) = (printed, .ok ()) ∧
      console.ShowsState window context printed := by
  have valid := (reached.valid_machine hsize).core
  have hptr : m.core.ptr < m.core.tape.size := valid.size_tape ▸ valid.ptr_lt
  constructor
  · intro radius
    refine ⟨(m.core.window radius).1, (m.core.window radius).2, rfl, ?_, ?_⟩
    · intro i hi
      obtain ⟨inside, shown⟩ := m.core.getElem?_window_of_int radius hi
      rw [valid.size_tape] at inside
      exact ⟨inside, _, shown.trans (m.core.cellAt_of_lt (valid.size_tape ▸ inside)), fun _ => rfl⟩
    · intro positive
      lift radius to Nat using positive
      obtain ⟨before, after, values, place⟩ := m.core.exists_window_around hptr radius
      refine ⟨?_, by omega, ?_, ?_⟩
      · intro j
        rw [← valid.size_tape]
        exact m.core.mem_window_iff radius j
      · rw [← values, ← place, Nat.add_sub_cancel_left]
        simp
      · rw [Core.length_window, ← valid.size_tape]
        omega
  · rintro console rfl window context
    exact ⟨_, rfl, Console.showsState_stateView valid.size_offsets hptr window context⟩

/-- An opening that leads two places past the end of the listing leaves nothing to point at. -/
theorem state_shown_behind_listing :
    let m := ((blank 1).load (Text.ofString "[") []).step.1
    0 < 1 ∧ m.ReachedWith 1 (Text.ofString "[", []) ∧ m.core.pc = m.core.program.length + 1 ∧
      m.windowOf (.int (-2)) = .ok (2, []) ∧ m.windowOf (.int 2) = .ok (0, [0]) ∧
      ∀ console : Console, console.machine = m → ∃ printed,
        console.stateViewOf (.nat 8) (.nat 2) = (printed, .ok ()) ∧
        occurrences "->" printed = 0 ∧ occurrences "(halted)" printed = 1 := by
  intro m
  have unloaded : (blank 1).ReachedWith 1 ([], []) := .blank
  have reached : m.ReachedWith 1 (Text.ofString "[", []) := unloaded
    |>.perform (.load (Text.ofString "[") []) rfl
    |>.perform .step rfl
  have halted : m.core.halted = true := by decide
  refine ⟨by decide, reached, by decide, rfl, rfl, ?_⟩
  rintro console here
  obtain ⟨printed, shown, state⟩ := (state_shown (by decide) reached).2 console here 8 2
  refine ⟨printed, shown, ?_, ?_⟩
  · rw [state.arrows, here, if_pos halted]
  · rw [state.halts, here, if_pos halted]

end Machine

end TapeMachine
