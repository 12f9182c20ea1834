import TapeMachine.Proofs.Restarting
import TapeMachine.Proofs.Unbalanced

/-!
The offsets of a program. They are all places of command characters in its source, each
once and in order, and the commands are the characters there; nothing else has both
properties. Texts one after another are read one after another, so as many command
characters stand before a command as there are commands before it. A machine keeps the
program of its last load, and with it this agreement between what it executes next and
the source.
-/

namespace TapeMachine

/-- The characters that stand for commands. -/
def commandCharacters : Text :=
  Text.ofString "><+-.,[]"

/-- Whether `instructions` are the command characters of a source, without omission, and
`offsets` their places. -/
structure Locates (source instructions : Text) (offsets : List Nat) : Prop where
  rises : offsets.Pairwise (· < ·)
  mem_iff : ∀ place, place ∈ offsets ↔ ∃ c ∈ commandCharacters, source[place]? = some c
  found : instructions.map some = offsets.map fun place => source[place]?

theorem mem_commandCharacters_iff (c : CodePoint) :
    c ∈ commandCharacters ↔ ∃ command, Command.ofCodePoint? c = some command := by
  constructor
  · intro h
    have some_of_mem : ∀ c ∈ commandCharacters, (Command.ofCodePoint? c).isSome := by decide
    exact Option.isSome_iff_exists.1 (some_of_mem c h)
  · rintro ⟨command, h⟩
    rw [Command.eq_of_ofCodePoint? h]
    cases command <;> decide

/-- The places of all command characters in order leave no choice, and the characters at
these places neither. -/
theorem Locates.unique {source instructions instructions' : Text} {offsets offsets' : List Nat}
    (h : Locates source instructions offsets) (h' : Locates source instructions' offsets') :
    instructions = instructions' ∧ offsets = offsets' := by
  have places : offsets = offsets' :=
    h.rises.eq_of_mem_iff h'.rises fun place => (h.mem_iff place).trans (h'.mem_iff place).symm
  have characters : instructions.map some = instructions'.map some := by
    rw [h.found, h'.found, places]
  exact ⟨List.map_injective_iff.2 (Option.some_injective _) characters, places⟩

namespace Program

theorem commandText_ofSource (source : Text) :
    (ofSource source).commandText =
      (locate 0 source).map fun found => CodePoint.scalar found.1.toChar := by
  simp [commandText, ofSource]

theorem toList_offsets_ofSource (source : Text) :
    (ofSource source).offsets.toList = (locate 0 source).map Prod.snd := by
  simp [ofSource]

theorem locates_ofSource (source : Text) :
    Locates source (ofSource source).commandText (ofSource source).offsets.toList where
  rises := pairwise_offsets source
  mem_iff := by
    intro place
    rw [toList_offsets_ofSource, List.mem_map]
    constructor
    · rintro ⟨⟨command, place⟩, located, rfl⟩
      refine ⟨.scalar command.toChar, ?_, (mem_locate located).2⟩
      rw [mem_commandCharacters_iff]
      exact ⟨command, Command.ofChar?_toChar command⟩
    · rintro ⟨c, character, at_place⟩
      obtain ⟨command, hcommand⟩ := (mem_commandCharacters_iff c).1 character
      refine ⟨(command, place), ?_, rfl⟩
      rw [locate_eq_filterMap, List.mem_filterMap]
      exact ⟨(c, place), List.mk_mem_zipIdx_iff_getElem?.2 at_place, by simp [hcommand]⟩
  found := by
    rw [commandText_ofSource, toList_offsets_ofSource, List.map_map, List.map_map]
    apply List.map_congr_left
    intro found located
    exact (mem_locate located).2.symm

theorem locate_add (start shift : Nat) (source : Text) :
    locate (start + shift) source =
      (locate start source).map fun found => (found.1, found.2 + shift) := by
  induction source generalizing start with
  | nil => rfl
  | cons c rest ih =>
      have next : start + shift + 1 = start + 1 + shift := by omega
      rw [locate, locate, next, ih]
      cases Command.ofCodePoint? c <;> rfl

/-- Two texts are read one after the other. -/
theorem locate_zero_append (a b : Text) :
    locate 0 (a ++ b) =
      locate 0 a ++ (locate 0 b).map fun found => (found.1, found.2 + a.length) := by
  rw [locate_append, locate_add]

theorem commandText_append (a b : Text) :
    (ofSource (a ++ b)).commandText = (ofSource a).commandText ++ (ofSource b).commandText := by
  simp only [commandText_ofSource, locate_zero_append, List.map_append, List.map_map,
    Function.comp_def]

theorem offsets_append (a b : Text) :
    (ofSource (a ++ b)).offsets.toList =
      (ofSource a).offsets.toList ++ (ofSource b).offsets.toList.map (· + a.length) := by
  simp only [toList_offsets_ofSource, locate_zero_append, List.map_append, List.map_map,
    Function.comp_def]

theorem length_locate (start : Nat) (source : Text) :
    (locate start source).length = source.countP (· ∈ commandCharacters) := by
  have same (c : CodePoint) :
      (Command.ofCodePoint? c).isSome = decide (c ∈ commandCharacters) := by
    rw [Bool.eq_iff_iff, decide_eq_true_iff, mem_commandCharacters_iff, Option.isSome_iff_exists]
  rw [← List.length_map (f := Prod.fst), map_fst_locate, List.length_filterMap_eq_countP]
  exact List.countP_congr fun c _ => by rw [same]

/-- Before the offset of a command stand as many command characters as there are commands
before it. -/
theorem countP_take_offset {source : Text} {i offset : Nat}
    (h : (ofSource source).offsets[i]? = some offset) :
    (source.take offset).countP (· ∈ commandCharacters) = i := by
  obtain ⟨hi, hget⟩ := Array.getElem?_eq_some_iff.1 h
  have member : offset ∈ (ofSource source).offsets.toList := by
    rw [← hget]
    exact Array.getElem_mem_toList hi
  obtain ⟨c, character, at_offset⟩ := ((locates_ofSource source).mem_iff offset).1 member
  obtain ⟨command, hcommand⟩ := (mem_commandCharacters_iff c).1 character
  obtain ⟨before, after, rfl, rfl⟩ := exists_around at_offset
  have place : (ofSource (before ++ c :: after)).offsets[(locate 0 before).length]? =
      some before.length := by
    rw [← Array.getElem?_toList, toList_offsets_ofSource, locate_around hcommand, List.map_append,
      List.getElem?_append_right (by simp)]
    simp
  have distinct : (ofSource (before ++ c :: after)).offsets.toList.Nodup :=
    (pairwise_offsets _).imp Nat.ne_of_lt
  rw [List.take_left, ← length_locate 0]
  apply (List.getElem?_inj _ distinct).1
  · rw [Array.getElem?_toList, Array.getElem?_toList, place, h]
  · obtain ⟨inside, _⟩ := Array.getElem?_eq_some_iff.1 place
    exact inside

end Program

namespace Core

variable {c : Core} {source : Text}

theorem sourceOffset?_eq_none_iff (hprogram : c.program = .ofSource source) :
    c.sourceOffset? = none ↔ c.halted = true := by
  cases h : c.halted with
  | true => simp [sourceOffset?, h]
  | false =>
      obtain ⟨offset, _, shown, _⟩ := sourceOffset?_of_running hprogram h
      simp [shown]

/-- An offset that is shown is that of the next command. -/
theorem exists_command_of_sourceOffset? (hprogram : c.program = .ofSource source) {offset : Nat}
    (h : c.sourceOffset? = some offset) :
    ∃ command, c.command? = some command ∧ source[offset]? = some (.scalar command.toChar) ∧
      (source.take offset).countP (· ∈ commandCharacters) = c.pc := by
  cases halted : c.halted with
  | true =>
      rw [(sourceOffset?_eq_none_iff hprogram).2 halted] at h
      cases h
  | false =>
      obtain ⟨offset', command, shown, hcommand, character⟩ :=
        sourceOffset?_of_running hprogram halted
      obtain rfl : offset = offset' := by simpa [h] using shown
      refine ⟨command, hcommand, character, ?_⟩
      simp only [sourceOffset?, halted, Bool.false_eq_true, if_false, hprogram] at h
      exact Program.countP_take_offset h

end Core

namespace Machine

/-- A program is what locates the commands of its source, and nothing else does; the
programs of two texts make up that of the whole; and in whatever state a machine is, it
shows the place of its next command in the source of its last load, told by the number of
commands before it, and none after a halt. -/
theorem commands_located :
    (∀ source instructions offsets, Locates source instructions offsets ↔
      instructions = (Program.ofSource source).commandText ∧
        offsets = (Program.ofSource source).offsets.toList) ∧
    (∀ a b : Text,
      (Program.ofSource (a ++ b)).commandText =
        (Program.ofSource a).commandText ++ (Program.ofSource b).commandText ∧
      (Program.ofSource (a ++ b)).offsets.toList =
        (Program.ofSource a).offsets.toList ++
          (Program.ofSource b).offsets.toList.map (· + a.length)) ∧
    ∀ (size : Nat) (source input : Text) (m : Machine), m.ReachedWith size (source, input) →
      (m.core.sourceOffset? = none ↔ m.core.halted = true) ∧
      ∀ offset, m.core.sourceOffset? = some offset →
        ∃ command, m.core.command? = some command ∧
          source[offset]? = some (.scalar command.toChar) ∧
          (source.take offset).countP (· ∈ commandCharacters) = m.core.pc := by
  refine ⟨?_, fun a b => ⟨Program.commandText_append a b, Program.offsets_append a b⟩, ?_⟩
  · intro source instructions offsets
    constructor
    · intro located
      exact located.unique (Program.locates_ofSource source)
    · rintro ⟨rfl, rfl⟩
      exact Program.locates_ofSource source
  · intro size source input m reached
    have hprogram : m.core.program = .ofSource source := reached.holds.program
    exact ⟨Core.sourceOffset?_eq_none_iff hprogram,
      fun offset shown => Core.exists_command_of_sourceOffset? hprogram shown⟩

/-- An opening on a zero cell leads from one comment into another, and a second load puts
another source in place, which has nothing to execute. -/
theorem commands_located_behind_loop :
    let source := Text.ofString "a[+]b>"
    let skipped := ((blank 1).load source []).step.1
    let emptied := skipped.load (Text.ofString "a") []
    skipped.ReachedWith 1 (source, []) ∧ skipped.core.sourceOffset? = some 5 ∧
      (∃ command, skipped.core.command? = some command ∧
        source[5]? = some (.scalar command.toChar) ∧
        (source.take 5).countP (· ∈ commandCharacters) = skipped.core.pc) ∧
      emptied.ReachedWith 1 (Text.ofString "a", []) ∧ emptied.core.halted = true ∧
      emptied.core.sourceOffset? = none := by
  intro source skipped emptied
  have unloaded : (blank 1).ReachedWith 1 ([], []) := .blank
  have reached : skipped.ReachedWith 1 (source, []) := unloaded
    |>.perform (.load source []) rfl
    |>.perform .step rfl
  have again : emptied.ReachedWith 1 (Text.ofString "a", []) :=
    reached.perform (.load (Text.ofString "a") []) rfl
  have shown : skipped.core.sourceOffset? = some 5 := by decide
  have halted : emptied.core.halted = true := by decide
  exact ⟨reached, shown, (commands_located.2.2 1 source [] skipped reached).2 5 shown, again,
    halted, (commands_located.2.2 1 _ [] emptied again).1.2 halted⟩

end Machine

end TapeMachine
