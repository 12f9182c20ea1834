import Mathlib
import TapeMachine.Machine.Core.Lemmas

/-!
Where things stand that a host shows. The commands of a program stand at the places
of all command characters of its source, in order, and the character at each is that
of the command. A window of the tape holds the cells around the pointer that there
are, in order, and the pointer's own is among them.
-/

namespace TapeMachine

theorem Command.eq_of_ofChar? {character : Char} {command : Command}
    (h : ofChar? character = some command) : character = command.toChar := by
  unfold ofChar? at h
  split at h <;> cases h <;> rfl

theorem Command.eq_of_ofCodePoint? {c : CodePoint} {command : Command}
    (h : ofCodePoint? c = some command) : c = .scalar command.toChar := by
  cases c with
  | scalar character => rw [eq_of_ofChar? h]
  | surrogate index => cases h

namespace Program

/-- The commands are the command characters, each with its place. -/
theorem locate_eq_filterMap (start : Nat) (source : Text) :
    locate start source =
      (source.zipIdx start).filterMap fun (c, place) =>
        (Command.ofCodePoint? c).map fun command => (command, place) := by
  induction source generalizing start with
  | nil => rfl
  | cons c rest ih =>
      cases hc : Command.ofCodePoint? c with
      | none => simp [locate, hc, ih]
      | some command => simp [locate, hc, ih]

theorem mem_locate {start place : Nat} {source : Text} {command : Command}
    (h : (command, place) ∈ locate start source) :
    start ≤ place ∧ source[place - start]? = some (.scalar command.toChar) := by
  rw [locate_eq_filterMap, List.mem_filterMap] at h
  obtain ⟨⟨c, place'⟩, hmem, hcommand⟩ := h
  obtain ⟨command', hc, hpair⟩ := Option.map_eq_some_iff.1 hcommand
  cases hpair
  obtain ⟨hstart, hget⟩ := List.mk_mem_zipIdx_iff_le_and_getElem?_sub.1 hmem
  rw [← Command.eq_of_ofCodePoint? hc]
  exact ⟨hstart, hget⟩

theorem pairwise_locate (start : Nat) (source : Text) :
    (locate start source).Pairwise fun a b => a.2 < b.2 := by
  induction source generalizing start with
  | nil => exact List.Pairwise.nil
  | cons c rest ih =>
      rw [locate]
      cases Command.ofCodePoint? c with
      | none => exact ih (start + 1)
      | some command =>
          apply List.Pairwise.cons _ (ih (start + 1))
          intro later hlater
          exact (mem_locate hlater).1

/-- The offsets rise from command to command. -/
theorem pairwise_offsets (source : Text) :
    (ofSource source).offsets.toList.Pairwise (· < ·) :=
  List.pairwise_map.2 (pairwise_locate 0 source)

/-- The source has the character of each command at its offset. -/
theorem getElem?_offsets {source : Text} {i : Nat} {command : Command}
    (h : (ofSource source).commands[i]? = some command) :
    ∃ offset, (ofSource source).offsets[i]? = some offset ∧
      source[offset]? = some (.scalar command.toChar) := by
  simp only [ofSource, List.getElem?_toArray, List.getElem?_map] at h ⊢
  obtain ⟨⟨command', offset⟩, hfound, rfl⟩ := Option.map_eq_some_iff.1 h
  refine ⟨offset, by rw [hfound]; rfl, ?_⟩
  exact (mem_locate (List.mem_of_getElem? hfound)).2

end Program

namespace Core

/-- The next command of a program that is not over stands at its place in the
source. -/
theorem sourceOffset?_of_running {c : Core} {source : Text}
    (hprogram : c.program = .ofSource source) (h : c.halted = false) :
    ∃ offset command, c.sourceOffset? = some offset ∧ c.command? = some command ∧
      source[offset]? = some (.scalar command.toChar) := by
  cases hcommand : c.command? with
  | none =>
      rw [(command?_eq_none_iff c).1 hcommand] at h
      cases h
  | some command =>
      have found := hcommand
      rw [command?, hprogram] at found
      obtain ⟨offset, hoffset, hcharacter⟩ := Program.getElem?_offsets found
      refine ⟨offset, command, ?_, rfl, hcharacter⟩
      simp [sourceOffset?, h, hprogram, hoffset]

section Window

variable (c : Core) (radius : Nat)

theorem window_fst : (c.window radius).1 = c.ptr - radius := by
  simp only [window]
  omega

theorem window_snd :
    (c.window radius).2 =
      (c.tape.extract (c.ptr - radius) (min c.tape.size (c.ptr + radius + 1))).toList := by
  have hstart : ((c.ptr : Int) - radius).toNat = c.ptr - radius := by omega
  have hstop : min (c.tape.size : Int) (c.ptr + radius + 1) =
      (min c.tape.size (c.ptr + radius + 1) : Nat) := by omega
  have hpositive : ¬((min c.tape.size (c.ptr + radius + 1) : Nat) : Int) < 0 := by omega
  simp only [window, slice, hstart, hstop, if_neg hpositive, Int.toNat_natCast]

theorem length_window :
    (c.window radius).2.length = min c.tape.size (c.ptr + radius + 1) - (c.ptr - radius) := by
  rw [window_snd, Array.length_toList, Array.size_extract]
  omega

theorem getElem?_window {i : Nat} (h : i < (c.window radius).2.length) :
    (c.window radius).2[i]? = c.tape[c.ptr - radius + i]? := by
  rw [length_window] at h
  rw [window_snd, Array.getElem?_toList, Array.getElem?_extract, if_pos (by omega)]

/-- The pointer stands in every window. -/
theorem ptr_mem_window (h : c.ptr < c.tape.size) :
    (c.window radius).1 ≤ c.ptr ∧ c.ptr < (c.window radius).1 + (c.window radius).2.length := by
  rw [window_fst, length_window]
  omega

end Window

end Core

end TapeMachine
