import TapeMachine.Proofs.Restarting

/-!
A program that copies its input up to a zero. It reads a byte, and as long as this is not
zero it writes it and reads the next one, so that each byte that is copied takes one round
of its loop. The end of the input reads as zero, and no byte is read behind one.
-/

namespace TapeMachine

/-- The program that copies. -/
def Text.copying : Text :=
  Text.ofString ",[.,]"

namespace Core

/-- A core that copies: how many steps it has made, where it is in the program, the byte
under the pointer, what is left to read and what is written. -/
structure Copies (steps pc : Nat) (byte : UInt8) (rest written : List UInt8) (c : Core) :
    Prop where
  program : c.program = .ofSource Text.copying
  stepCount : c.stepCount = steps
  pc : c.pc = pc
  ptr_lt : c.ptr < c.tape.size
  cell : c.cell = byte
  unread : c.unread = rest
  output : c.output.toList = written

section

variable {steps pc : Nat} {byte : UInt8} {rest written : List UInt8} {c : Core}

theorem cell_mapCell (h : c.ptr < c.tape.size) (f : UInt8 → UInt8) :
    (c.mapCell f).cell = f c.cell := by
  rw [Core.cell, tape_mapCell]
  simp [mapCell, h]

theorem Copies.command? (h : c.Copies steps pc byte rest written) :
    c.command? = [Command.read, .loopStart, .write, .read, .loopEnd][pc]? := by
  have commands : (Program.ofSource Text.copying).commands.toList =
      [.read, .loopStart, .write, .read, .loopEnd] := by decide
  rw [Core.command?, h.pc, h.program, ← Array.getElem?_toList, commands]

theorem Copies.partner? (h : c.Copies steps pc byte rest written) :
    c.partner? = [none, some (Partner.slot 4), none, none, some (.slot 1)][pc]?.join := by
  have partners : (Program.ofSource Text.copying).partners.toList =
      [none, some (.slot 4), none, none, some (.slot 1)] := by decide
  rw [Core.partner?, h.pc, h.program, ← Array.getElem?_toList, partners]

theorem Copies.read (h : c.Copies steps pc byte rest written) (hread : c.command? = some .read) :
    c.step.Copies (steps + 1) (pc + 1) (rest.headD 0) rest.tail written := by
  let counted : Core := { c with stepCount := c.stepCount + 1 }
  obtain ⟨inputPos, stored, left⟩ := counted.readByte_eq
  rw [step_of_command hread, execute, stored]
  exact
    { program := h.program
      stepCount := congrArg (· + 1) h.stepCount
      pc := congrArg (· + 1) h.pc
      ptr_lt := by simpa [withInput, mapCell] using h.ptr_lt
      cell := (cell_mapCell (c := counted) h.ptr_lt _).trans (congrArg (List.headD · 0) h.unread)
      unread := left.trans (congrArg List.tail h.unread)
      output := h.output }

theorem Copies.write (h : c.Copies steps pc byte rest written) (hwrite : c.command? = some .write) :
    c.step.Copies (steps + 1) (pc + 1) byte rest (written ++ [byte]) := by
  rw [step_of_command hwrite, execute]
  exact
    { h with
      stepCount := congrArg (· + 1) h.stepCount
      pc := congrArg (· + 1) h.pc
      output := by
        rw [Array.toList_push, h.output]
        exact congrArg (written ++ [·]) h.cell }

theorem Copies.jump (h : c.Copies steps pc byte rest written) (target : Nat) :
    { c with stepCount := c.stepCount + 1, pc := target }.Copies (steps + 1) target byte rest
      written :=
  { h with
    stepCount := congrArg (· + 1) h.stepCount
    pc := rfl }

/-- The loop is entered with a byte to write, and left out otherwise. -/
theorem Copies.opening (h : c.Copies steps 1 byte rest written) :
    c.step.Copies (steps + 1) (if byte = 0 then 5 else 2) byte rest written := by
  have target : c.openingTarget = if byte = 0 then 5 else 2 := by
    simp [openingTarget, h.cell, h.partner?, h.pc]
  rw [step_of_loopStart h.command?, target]
  exact h.jump _

/-- The loop goes on with a byte to write, and ends otherwise. -/
theorem Copies.closing (h : c.Copies steps 4 byte rest written) :
    c.step.Copies (steps + 1) (if byte = 0 then 5 else 2) byte rest written := by
  have target : c.closingTarget = if byte = 0 then 5 else 2 := by
    simp [closingTarget, h.cell, h.partner?, h.pc]
  rw [step_of_loopEnd h.command?, target]
  exact h.jump _

/-- A round of the loop writes the byte and reads the next one. -/
theorem Copies.round (h : c.Copies steps 2 byte rest written) :
    (c.after 3).Copies (steps + 3) (if rest.headD 0 = 0 then 5 else 2) (rest.headD 0) rest.tail
      (written ++ [byte]) := by
  have wrote := h.write h.command?
  have next := wrote.read wrote.command?
  exact next.closing

/-- The rounds of the loop copy what is to be written up to a zero. -/
theorem Copies.rounds (h : c.Copies steps 2 byte rest written) :
    let copied := byte :: rest.takeWhile (· ≠ 0)
    ∃ n, (c.after n).Copies (steps + 3 * copied.length) 5 0 (rest.dropWhile (· ≠ 0)).tail
      (written ++ copied) := by
  induction rest generalizing c steps byte written with
  | nil => exact ⟨3, h.round⟩
  | cons next rest ih =>
      have round := h.round
      by_cases zero : next = 0
      · subst zero
        refine ⟨3, ?_⟩
        simpa using round
      · rw [List.headD_cons, if_neg zero] at round
        obtain ⟨n, ends⟩ := ih round
        refine ⟨3 + n, ?_⟩
        have more : steps + 3 + 3 * (next :: rest.takeWhile (· ≠ 0)).length =
            steps + 3 * (byte :: next :: rest.takeWhile (· ≠ 0)).length := by
          simp only [List.length_cons]
          omega
        rw [List.append_assoc, List.singleton_append, more] at ends
        rw [after_add]
        simpa [zero] using ends

/-- From the start, a first byte is read and then copied with all others up to a zero. -/
theorem Copies.whole {bytes : List UInt8} (h : c.Copies 0 0 byte bytes []) :
    let copied := bytes.takeWhile (· ≠ 0)
    ∃ n, (c.after n).Copies (2 + 3 * copied.length) 5 0 (bytes.dropWhile (· ≠ 0)).tail copied := by
  have first := h.read h.command?
  have entered : (c.after 2).Copies 2 (if bytes.headD 0 = 0 then 5 else 2) (bytes.headD 0)
      bytes.tail [] := first.opening
  cases bytes with
  | nil => exact ⟨2, entered⟩
  | cons next rest =>
      by_cases zero : next = 0
      · subst zero
        refine ⟨2, ?_⟩
        simpa using entered
      · rw [List.headD_cons, if_neg zero] at entered
        obtain ⟨n, ends⟩ := entered.rounds
        refine ⟨2 + n, ?_⟩
        rw [after_add]
        simpa [zero] using ends

theorem Copies.halted (h : c.Copies steps 5 byte rest written) : c.halted = true := by
  rw [← command?_eq_none_iff, h.command?]
  rfl

end

theorem copies_load {size : Nat} (hsize : 0 < size) (input : Text) :
    (load size Text.copying input).Copies 0 0 0 (input.map CodePoint.lowByte) [] where
  program := rfl
  stepCount := rfl
  pc := rfl
  ptr_lt := by simpa [load, install, blankTape] using hsize
  cell := by simp [cell, load, install, blankTape, hsize]
  unread := unread_load size Text.copying input
  output := rfl

/-- A halt that is found comes after as many steps as are counted. -/
theorem haltsAfter_stepCount {c : Core} {n : Nat} (zero : c.stepCount = 0)
    (h : (c.after n).halted = true) : c.HaltsAfter (c.after n).stepCount := by
  obtain ⟨k, hk, halts⟩ : ∃ k ≤ n, c.HaltsAfter k := exists_stopsAfter h
  rw [after_of_halted_le halts.1 hk, halts.stepCount, zero, Nat.zero_add]
  exact halts

/-- What is read is the input without what is left. -/
theorem Valid.inputPos_eq {size : Nat} {c : Core} (h : c.Valid size) :
    c.inputPos = c.input.size - c.unread.length := by
  have within := h.inputPos_le
  rw [← inputRemaining_eq, inputRemaining]
  omega

end Core

/-- The part of a list up to a zero, that zero if there is one, and the rest. -/
theorem length_takeWhile_ne_zero (bytes : List UInt8) :
    (bytes.takeWhile (· ≠ 0)).length + (if 0 ∈ bytes then 1 else 0) +
      (bytes.dropWhile (· ≠ 0)).tail.length = bytes.length := by
  induction bytes with
  | nil => rfl
  | cons byte rest ih =>
      by_cases zero : byte = 0
      · simp [zero, Nat.add_comm]
      · have other : (0 : UInt8) ≠ byte := Ne.symm zero
        simp only [List.takeWhile_cons, List.dropWhile_cons, decide_not, zero, decide_false,
          Bool.not_false, if_true, List.length_cons, List.mem_cons, other, false_or] at ih ⊢
        omega

namespace Machine

/-- The program that copies always halts, with the bytes of its input up to the first zero
for its output; it makes three steps for each of them and two more, and reads the zero if
there is one, and nothing behind it. -/
theorem copies_up_to_zero {m : Machine} (hsize : 0 < m.tapeSize) (input : Text) :
    let bytes := input.map CodePoint.lowByte
    let copied := bytes.takeWhile (· ≠ 0)
    let loaded := m.load (Text.ofString ",[.,]") input
    let last := loaded.after (2 + 3 * copied.length)
    loaded.run = some (last, 2 + 3 * copied.length) ∧
      last.core.halted = true ∧
      last.core.output.toList = copied ∧
      last.core.stepCount = 2 + 3 * copied.length ∧
      last.core.inputPos = copied.length + if 0 ∈ bytes then 1 else 0 := by
  intro bytes copied loaded last
  have core : loaded.core = Core.load m.tapeSize Text.copying input := m.core_load _ _
  have valid : loaded.core.Valid m.tapeSize := by
    rw [core]
    exact Core.valid_load hsize _ _
  obtain ⟨n, ends⟩ : ∃ n, (loaded.core.after n).Copies (2 + 3 * copied.length) 5 0
      (bytes.dropWhile (· ≠ 0)).tail copied := by
    rw [core]
    exact (Core.copies_load hsize input).whole
  have zero : loaded.core.stepCount = 0 := by
    rw [core]
    rfl
  have halts : loaded.core.HaltsAfter (2 + 3 * copied.length) := by
    rw [← ends.stepCount]
    exact Core.haltsAfter_stepCount zero ends.halted
  have same : loaded.core.after n = loaded.core.after (2 + 3 * copied.length) :=
    Core.after_eq_of_halted ends.halted halts.1
  have stays : last = { loaded with core := loaded.core.after n } := by
    rw [same]
    exact after_eq_of_idle (m.runState_load _ _) _
  have runs : loaded.run = some (last, 2 + 3 * copied.length) := by
    rw [run_of_haltsAfter valid halts, stays, same]
    rfl
  have read : (loaded.core.after n).inputPos = copied.length + if 0 ∈ bytes then 1 else 0 := by
    have total : copied.length + (if 0 ∈ bytes then 1 else 0) + _ = bytes.length :=
      length_takeWhile_ne_zero bytes
    have size : (loaded.core.after n).input.size = bytes.length := by
      rw [Core.input_after, core]
      simp [bytes, Core.load, Core.install, Core.inputBytes]
    rw [(valid.after n).inputPos_eq, ends.unread, size]
    omega
  rw [stays] at runs ⊢
  exact ⟨runs, ends.halted, ends.output, ends.stepCount, read⟩

/-- An input with a character whose low byte is zero between others. -/
theorem copies_up_to_zero_low_byte :
    let input : Text := [.scalar 'a', .scalar 'b', .scalar (Char.ofNat 0x100), .scalar 'c']
    let bytes := input.map CodePoint.lowByte
    let copied := bytes.takeWhile (· ≠ 0)
    let loaded := (blank 1).load (Text.ofString ",[.,]") input
    let last := loaded.after (2 + 3 * copied.length)
    0 < (blank 1).tapeSize ∧ copied = [97, 98] ∧ 0 ∈ bytes ∧
      loaded.run = some (last, 2 + 3 * copied.length) ∧
      last.core.halted = true ∧
      last.core.output.toList = copied ∧
      last.core.stepCount = 2 + 3 * copied.length ∧
      last.core.inputPos = copied.length + if 0 ∈ bytes then 1 else 0 :=
  ⟨by decide, by decide, by decide, copies_up_to_zero (by decide) _⟩

end Machine

end TapeMachine
