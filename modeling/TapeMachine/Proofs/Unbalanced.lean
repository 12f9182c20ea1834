import TapeMachine.Proofs.Balance

/-!
Why a source is refused where brackets must balance. A bracket has a partner or not by
what is in excess before and behind it, to which other characters add nothing. So the
offsets of a refusal are the positions of the brackets without a partner in the source
itself, and a source is refused if and only if it is not balanced.
-/

namespace TapeMachine

theorem exists_around {α : Type} {s : List α} {i : Nat} {x : α} (h : s[i]? = some x) :
    ∃ before after, before ++ x :: after = s ∧ before.length = i := by
  obtain ⟨hlt, rfl⟩ := List.getElem?_eq_some_iff.1 h
  refine ⟨s.take i, s.drop (i + 1), ?_, List.length_take_of_le (Nat.le_of_lt hlt)⟩
  rw [List.getElem_cons_drop, List.take_append_drop]

theorem map_eq_map_some_filterMap {α β : Type} {f : α → Option β} {s : List α}
    (h : ∀ x ∈ s, ∃ y, f x = some y) : s.map f = (s.filterMap f).map some := by
  induction s with
  | nil => rfl
  | cons x rest ih =>
      obtain ⟨y, hy⟩ := h x (List.mem_cons_self ..)
      rw [List.map_cons, List.filterMap_cons, hy, List.map_cons,
        ih fun z hz => h z (List.mem_cons_of_mem x hz)]

namespace Bracket

/-- A forward scan that starts with openings to close comes to the end if no closing is
left for the place to come back to. -/
theorem scanForward_eq_end_iff (rest : List (Option Bracket)) (place depth : Nat) :
    scanForward place (depth + 1) rest = place + rest.length ↔
      (rest.foldl Excess.feed ⟨0, depth⟩).closings = 0 := by
  induction rest generalizing place depth with
  | nil => simp [scanForward]
  | cons bracket rest ih =>
      have further (depth : Nat) :
          scanForward (place + 1) (depth + 1) rest = place + (rest.length + 1) ↔
            (rest.foldl Excess.feed ⟨0, depth⟩).closings = 0 := by
        rw [← ih (place + 1) depth]
        omega
      rcases bracket with _ | bracket
      · exact further depth
      cases bracket with
      | opening => exact further (depth + 1)
      | closing =>
          cases depth with
          | zero =>
              have hstays := Excess.closings_le_foldl ⟨1, 0⟩ rest
              simp only [scanForward, Nat.zero_add, if_true, List.length_cons, List.foldl_cons,
                Excess.feed]
              constructor
              · intro h
                omega
              · intro h
                rw [h] at hstays
                exact absurd hstays (Nat.not_succ_le_zero 0)
          | succ depth => simpa [scanForward, Excess.feed] using further depth

theorem stray_closing_iff (done rest : List (Option Bracket)) :
    done.length ∈ strays (done ++ some .closing :: rest) ↔ (excess done).openings = 0 := by
  have tallies := tallies_ofList done (some .closing :: rest)
  rw [mem_strays (partner_of_next_closing done rest), Partner.isUnpaired_ofBackward,
    tallies.openings, List.head?_eq_none_iff, List.length_eq_zero_iff]

theorem stray_opening_iff (done rest : List (Option Bracket)) :
    done.length ∈ strays (done ++ some .opening :: rest) ↔ (excess rest).closings = 0 := by
  have hopening : (done ++ some .opening :: rest)[done.length]? = some (some .opening) := by simp
  have hrest : (done ++ some .opening :: rest).drop (done.length + 1) = rest := by simp
  have hlength : (done ++ some .opening :: rest).length = done.length + 1 + rest.length := by
    simp
    omega
  rw [mem_strays (partners_of_opening hopening), Partner.isUnpaired_ofForward, hrest, hlength]
  exact scanForward_eq_end_iff rest (done.length + 1) 0

/-- Whether a bracket has a partner depends on what is in excess around it. -/
theorem stray_congr {done done' rest rest' : List (Option Bracket)}
    (hdone : excess done = excess done') (hrest : excess rest = excess rest') (b : Bracket) :
    done.length ∈ strays (done ++ some b :: rest) ↔
      done'.length ∈ strays (done' ++ some b :: rest') := by
  cases b with
  | opening => rw [stray_opening_iff, stray_opening_iff, hrest]
  | closing => rw [stray_closing_iff, stray_closing_iff, hdone]

theorem ofCodePoint?_eq (c : CodePoint) :
    ofCodePoint? c = (Command.ofCodePoint? c).bind Command.bracket? := by
  cases hcommand : Command.ofCodePoint? c with
  | some command =>
      rw [Command.eq_of_ofCodePoint? hcommand]
      cases command <;> rfl
  | none =>
      unfold ofCodePoint? ofChar?
      split
      · split
        · cases hcommand
        · cases hcommand
        · rfl
      · rfl

end Bracket

namespace Program

open TapeMachine.Bracket

theorem excess_brackets_ofSource (source : Text) :
    excess (ofSource source).brackets = excess (ofText source) := by
  rw [brackets, toList_commands_ofSource, ofText, excess, excess]
  generalize Excess.zero = e
  induction source generalizing e with
  | nil => rfl
  | cons c rest ih =>
      rw [List.map_cons, List.foldl_cons, ofCodePoint?_eq, List.filterMap_cons]
      cases Command.ofCodePoint? c with
      | none => exact ih e
      | some command => exact ih (e.feed command.bracket?)

/-- An unpaired command is a bracket and has the offset of one in the source. -/
theorem offset_of_unpaired {source : Text} {i : Nat}
    (h : i ∈ unpaired (ofSource source).partners) :
    ∃ offset, (ofSource source).offsets[i]? = some offset ∧
      ∃ b, (ofText source)[offset]? = some (some b) := by
  rw [isPaired_ofSource] at h
  obtain ⟨b, hb⟩ := exists_bracket_of_unpaired h
  rw [getElem?_brackets] at hb
  obtain ⟨command, hcommand, hbracket⟩ := Option.map_eq_some_iff.1 hb
  obtain ⟨offset, hoffset, hcharacter⟩ := getElem?_offsets hcommand
  refine ⟨offset, hoffset, b, ?_⟩
  rw [ofText, List.getElem?_map, hcharacter, Option.map_some, ofCodePoint?_eq,
    Command.ofCodePoint?, Command.ofChar?_toChar, Option.bind_some, hbracket]

theorem locate_around {before after : Text} {c : CodePoint} {command : Command}
    (h : Command.ofCodePoint? c = some command) :
    locate 0 (before ++ c :: after) =
      locate 0 before ++ (command, before.length) :: locate (before.length + 1) after := by
  simp [locate_append, locate, h]

theorem brackets_around {before after : Text} {c : CodePoint} {command : Command}
    (h : Command.ofCodePoint? c = some command) :
    (ofSource (before ++ c :: after)).brackets =
      (ofSource before).brackets ++ command.bracket? :: (ofSource after).brackets := by
  simp [brackets, toList_commands_ofSource, h]

/-- A bracket of the source is a command, with a partner in both or in neither. -/
theorem exists_command_of_bracket {source : Text} {offset : Nat} {b : Bracket}
    (h : (ofText source)[offset]? = some (some b)) :
    ∃ i, (ofSource source).offsets[i]? = some offset ∧
      (i ∈ strays (ofSource source).brackets ↔ offset ∈ strays (ofText source)) := by
  rw [ofText, List.getElem?_map, Option.map_eq_some_iff] at h
  obtain ⟨c, hc, hbracket⟩ := h
  obtain ⟨before, after, rfl, rfl⟩ := exists_around hc
  rw [ofCodePoint?_eq] at hbracket
  obtain ⟨command, hcommand, hbracket'⟩ := Option.bind_eq_some_iff.1 hbracket
  refine ⟨(ofSource before).brackets.length, ?_, ?_⟩
  · have hlength : ((locate 0 before).map Prod.snd).length = (ofSource before).brackets.length := by
      simp [brackets, ofSource]
    rw [← hlength]
    simp only [ofSource, List.getElem?_toArray]
    rw [locate_around hcommand, List.map_append, List.map_cons,
      List.getElem?_append_right (Nat.le_refl _), Nat.sub_self]
    rfl
  · have htext : ofText (before ++ c :: after) = ofText before ++ some b :: ofText after := by
      simp [ofText, ofCodePoint?_eq, hcommand, hbracket']
    have hplace : before.length = (ofText before).length := by simp [ofText]
    rw [brackets_around hcommand, hbracket', htext, hplace]
    exact stray_congr (excess_brackets_ofSource before) (excess_brackets_ofSource after) b

/-- A refusal names the positions of the brackets that have no partner in the source. -/
theorem mem_unpairedOffsets_iff (source : Text) (offset : Nat) :
    offset ∈ (ofSource source).unpairedOffsets ↔
      offset ∈ unpaired (Bracket.partners (ofText source)) := by
  have unique {i j : Nat} (hi : (ofSource source).offsets[i]? = some offset)
      (hj : (ofSource source).offsets[j]? = some offset) : i = j := by
    obtain ⟨hlt, _⟩ := Array.getElem?_eq_some_iff.1 hi
    have distinct : (ofSource source).offsets.toList.Nodup :=
      (pairwise_offsets source).imp Nat.ne_of_lt
    apply (List.getElem?_inj hlt distinct).1
    rw [Array.getElem?_toList, Array.getElem?_toList, hi, hj]
  rw [unpairedOffsets, List.mem_filterMap, isPaired_ofSource]
  constructor
  · rintro ⟨i, hi, hoffset⟩
    obtain ⟨offset', hoffset', b, hb⟩ := offset_of_unpaired hi
    obtain rfl : offset = offset' := by simpa [hoffset] using hoffset'
    obtain ⟨j, hj, hsame⟩ := exists_command_of_bracket hb
    obtain rfl := unique hoffset hj
    simpa [strays, hi] using hsame
  · intro h
    obtain ⟨b, hb⟩ := exists_bracket_of_unpaired h
    obtain ⟨i, hi, hsame⟩ := exists_command_of_bracket hb
    exact ⟨i, by simpa [strays, h] using hsame, hi⟩

theorem pairwise_unpairedOffsets (source : Text) :
    (ofSource source).unpairedOffsets.Pairwise (· < ·) := by
  rw [unpairedOffsets, List.pairwise_filterMap]
  apply (pairwise_unpaired _).imp
  intro i j hij offset hoffset offset' hoffset'
  have hrise := List.pairwise_iff_getElem.1 (pairwise_offsets source)
  obtain ⟨hi, rfl⟩ := Array.getElem?_eq_some_iff.1 hoffset
  obtain ⟨hj, rfl⟩ := Array.getElem?_eq_some_iff.1 hoffset'
  exact hrise i j hi hj hij

theorem unpairedOffsets_ofSource (source : Text) :
    (ofSource source).unpairedOffsets = unpaired (Bracket.partners (ofText source)) :=
  (pairwise_unpairedOffsets source).eq_of_mem_iff (pairwise_unpaired _)
    (fun offset => mem_unpairedOffsets_iff source offset)

/-- Each command without a partner has its own offset in a refusal. -/
theorem map_offsets_unpaired (source : Text) :
    (unpaired (ofSource source).partners).map (fun i => (ofSource source).offsets[i]?) =
      (ofSource source).unpairedOffsets.map some := by
  apply map_eq_map_some_filterMap
  intro i hi
  obtain ⟨offset, hoffset, _⟩ := offset_of_unpaired hi
  exact ⟨offset, hoffset⟩

theorem requireBalanced_eq (p : Program) :
    p.requireBalanced =
      if p.unpairedOffsets = [] then .ok () else .error ⟨p.unpairedOffsets⟩ := by
  unfold requireBalanced
  split
  · next h => rw [if_pos h]
  · next h => rw [if_neg h]

theorem requireBalanced_of_balanced {text : Text} (h : Balanced (ofText text)) :
    (ofSource text).requireBalanced = .ok () := by
  rw [requireBalanced_eq, unpairedOffsets_ofSource, if_pos ((balanced_iff_unpaired _).1 h)]

theorem requireBalanced_of_not_balanced {text : Text} (h : ¬Balanced (ofText text)) :
    (ofSource text).requireBalanced = .error ⟨unpaired (Bracket.partners (ofText text))⟩ := by
  rw [balanced_iff_unpaired] at h
  rw [requireBalanced_eq, unpairedOffsets_ofSource, if_neg h]

/-- Without the brackets that have no partner a text is balanced, and with fewer
deletions it never is. As a source it is taken if it is balanced itself, and refused
with the places of just these brackets if it is not. -/
theorem unpaired_repair (text : Text) :
    let unmatched := unpaired (Bracket.partners (ofText text))
    let program := ofSource text
    unmatched.Pairwise (· < ·) ∧
    (∀ i ∈ unmatched, ∃ b, (ofText text)[i]? = some (some b)) ∧
    Balanced (ofText (without unmatched.toFinset text)) ∧
    (∀ positions : Finset Nat, Balanced (ofText (without positions text)) →
      unmatched.length ≤ positions.card) ∧
    (program.requireBalanced = .ok () ↔ Balanced (ofText text)) ∧
    (¬Balanced (ofText text) → program.requireBalanced = .error ⟨unmatched⟩ ∧
      (unpaired program.partners).map (fun i => program.offsets[i]?) = unmatched.map some) := by
  intro unmatched program
  have hrefusal : program.requireBalanced =
      if unmatched = [] then .ok () else .error ⟨unmatched⟩ := by
    rw [requireBalanced_eq, unpairedOffsets_ofSource]
  refine ⟨pairwise_unpaired _, fun i => exists_bracket_of_unpaired, ?_, ?_, ?_, ?_⟩
  · rw [ofText, map_without]
    exact balanced_without_strays (ofText text)
  · intro positions h
    rw [ofText, map_without] at h
    have hexcess := excess_le_card h
    rwa [← ofText, ← card_strays_eq_excess, card_strays] at hexcess
  · rw [hrefusal, balanced_iff_unpaired]
    split
    · next h => exact iff_of_true rfl h
    · next h => exact iff_of_false (by simp) h
  · intro h
    rw [balanced_iff_unpaired] at h
    rw [hrefusal, if_neg h, map_offsets_unpaired, unpairedOffsets_ofSource]
    exact ⟨rfl, rfl⟩

end Program

end TapeMachine
