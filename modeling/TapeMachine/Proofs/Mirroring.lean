import TapeMachine.Proofs.Tables

/-!
Brackets read the other way round. The mirror image of a text is the reversed text with
its brackets turned, and the partners in it are the mirror images of the partners in the
text; the two places beyond the ends, where brackets without a partner lead, change sides.
The pass over a text goes one way only and treats the two kinds of unpaired brackets in
different places, so this is shown of the tables that join brackets as they should.
-/

namespace TapeMachine

namespace Bracket

def turned : Bracket → Bracket
  | opening => closing
  | closing => opening

/-- The slots in the opposite order, with every bracket turned. -/
def mirror (brackets : List (Option Bracket)) : List (Option Bracket) :=
  (brackets.map (Option.map turned)).reverse

/-- The entries in the opposite order, with every place counted from the other end. -/
def mirrorTable (entries : List (Option Int)) : List (Option Int) :=
  (entries.map (Option.map fun place => (entries.length : Int) - 1 - place)).reverse

end Bracket

namespace Text

/-- A bracket the other way round, and any other character as it is. -/
def turnBracket (c : CodePoint) : CodePoint :=
  if c = .scalar '[' then .scalar ']'
  else if c = .scalar ']' then .scalar '['
  else c

def mirror (text : Text) : Text :=
  (text.map turnBracket).reverse

end Text

namespace Bracket

theorem turned_turned (b : Bracket) : b.turned.turned = b := by
  cases b <;> rfl

theorem ofCodePoint?_eq_none {c : CodePoint} (hopening : c ≠ .scalar '[')
    (hclosing : c ≠ .scalar ']') : ofCodePoint? c = none := by
  cases c with
  | surrogate index => rfl
  | scalar character =>
      simp only [ofCodePoint?, ofChar?]
      split
      · exact absurd rfl hopening
      · exact absurd rfl hclosing
      · rfl

theorem ofCodePoint?_turnBracket (c : CodePoint) :
    ofCodePoint? (Text.turnBracket c) = (ofCodePoint? c).map turned := by
  unfold Text.turnBracket
  split
  · next hopening =>
      subst hopening
      rfl
  · next hopening =>
      split
      · next hclosing =>
          subst hclosing
          rfl
      · next hclosing => simp [ofCodePoint?_eq_none hopening hclosing]

theorem ofText_mirror (text : Text) : ofText text.mirror = mirror (ofText text) := by
  simp [ofText, Text.mirror, mirror, ofCodePoint?_turnBracket]

section Opposite

variable {brackets : List (Option Bracket)} {entries : List (Option Int)} {i j : Nat}

theorem length_mirror : (mirror brackets).length = brackets.length := by
  simp [mirror]

theorem length_mirrorTable : (mirrorTable entries).length = entries.length := by
  simp [mirrorTable]

theorem getElem?_mirror (hij : i + j + 1 = brackets.length) :
    (mirror brackets)[i]? = brackets[j]?.map (Option.map turned) := by
  rw [mirror, List.getElem?_reverse' (by simpa using hij), List.getElem?_map]

theorem getElem?_mirrorTable (hij : i + j + 1 = entries.length) :
    (mirrorTable entries)[i]? =
      entries[j]?.map (Option.map fun place => (entries.length : Int) - 1 - place) := by
  rw [mirrorTable, List.getElem?_reverse' (by simpa using hij), List.getElem?_map]

theorem getElem?_mirror_eq_none_iff (hij : i + j + 1 = brackets.length) :
    (mirror brackets)[i]? = some none ↔ brackets[j]? = some none := by
  simp [getElem?_mirror hij]

theorem getElem?_mirror_eq_some_iff (hij : i + j + 1 = brackets.length) (b : Bracket) :
    (mirror brackets)[i]? = some (some b) ↔ brackets[j]? = some (some b.turned) := by
  rw [getElem?_mirror hij]
  constructor
  · intro h
    obtain ⟨slot, hslot, hb⟩ := Option.map_eq_some_iff.1 h
    obtain ⟨b', rfl, rfl⟩ := Option.map_eq_some_iff.1 hb
    rw [hslot, turned_turned]
  · intro h
    rw [h]
    simp [turned_turned]

/-- An entry names the place opposite to the one that is named opposite to it. -/
theorem getElem?_mirrorTable_eq_some_iff (hij : i + j + 1 = entries.length) {place place' : Int}
    (hplace : place + place' + 1 = entries.length) :
    (mirrorTable entries)[i]? = some (some place) ↔ entries[j]? = some (some place') := by
  rw [getElem?_mirrorTable hij]
  constructor
  · intro h
    obtain ⟨entry, hentry, hsome⟩ := Option.map_eq_some_iff.1 h
    obtain ⟨other, rfl, hother⟩ := Option.map_eq_some_iff.1 hsome
    have hsame : other = place' := by omega
    rw [hentry, hsame]
  · intro h
    have hother : (entries.length : Int) - 1 - place' = place := by omega
    simp [h, hother]

/-- Every slot of a mirror image lies opposite to one of the sequence. -/
theorem exists_opposite {slot : Option Bracket} (h : (mirror brackets)[i]? = some slot) :
    ∃ j, i + j + 1 = brackets.length := by
  obtain ⟨hlt, _⟩ := List.getElem?_eq_some_iff.1 h
  rw [length_mirror] at hlt
  exact ⟨brackets.length - 1 - i, by omega⟩

/-- A pair is a pair from the other side too. -/
theorem joins_mirror_iff (hlength : entries.length = brackets.length) {i' j' : Nat}
    (hi : i + i' + 1 = brackets.length) (hj : j + j' + 1 = brackets.length) :
    Joins (mirror brackets) (mirrorTable entries) i j ↔ Joins brackets entries j' i' := by
  have hi' : i + i' + 1 = entries.length := by omega
  have hj' : j + j' + 1 = entries.length := by omega
  have hbefore : i < j ↔ j' < i' := by omega
  have hopening := getElem?_mirror_eq_some_iff hi .opening
  have hclosing := getElem?_mirror_eq_some_iff hj .closing
  have hforth : (mirrorTable entries)[i]? = some (some (j : Int)) ↔
      entries[i']? = some (some (j' : Int)) :=
    getElem?_mirrorTable_eq_some_iff hi' (by omega)
  have hback : (mirrorTable entries)[j]? = some (some (i : Int)) ↔
      entries[j']? = some (some (i' : Int)) :=
    getElem?_mirrorTable_eq_some_iff hj' (by omega)
  constructor
  · intro h
    exact ⟨hbefore.1 h.before, hclosing.1 h.closing, hopening.1 h.opening, hback.1 h.back,
      hforth.1 h.forth⟩
  · intro h
    exact ⟨hbefore.2 h.before, hopening.2 h.closing, hclosing.2 h.opening, hforth.2 h.back,
      hback.2 h.forth⟩

/-- The mirror image of a table that joins the brackets of a sequence joins those of its
mirror image. -/
theorem IsTable.mirror (h : IsTable brackets entries) :
    IsTable (mirror brackets) (mirrorTable entries) := by
  have hlength := h.length
  have opposite {i j : Nat} (hij : i + j + 1 = brackets.length) : i + j + 1 = entries.length := by
    omega
  constructor
  case length => rw [length_mirrorTable, length_mirror, hlength]
  case blank =>
    intro i hi
    obtain ⟨j, hij⟩ := exists_opposite hi
    rw [getElem?_mirrorTable (opposite hij),
      h.blank j ((getElem?_mirror_eq_none_iff hij).1 hi)]
    rfl
  case opening =>
    intro i hi
    obtain ⟨j, hij⟩ := exists_opposite hi
    rw [length_mirror]
    rcases h.closing j ((getElem?_mirror_eq_some_iff hij .opening).1 hi) with hbefore | ⟨k, hjoins⟩
    · left
      exact (getElem?_mirrorTable_eq_some_iff (opposite hij) (by omega)).2 hbefore
    · right
      have hk := hjoins.before
      refine ⟨brackets.length - 1 - k, ?_⟩
      exact (joins_mirror_iff hlength hij (by omega)).2 hjoins
  case closing =>
    intro j hj
    obtain ⟨i, hij⟩ := exists_opposite hj
    rcases h.opening i ((getElem?_mirror_eq_some_iff hij .closing).1 hj) with hpast | ⟨k, hjoins⟩
    · left
      exact (getElem?_mirrorTable_eq_some_iff (opposite hij) (by omega)).2 hpast
    · right
      obtain ⟨hk, _⟩ := List.getElem?_eq_some_iff.1 hjoins.closing
      refine ⟨brackets.length - 1 - k, ?_⟩
      exact (joins_mirror_iff hlength (by omega) hij).2 hjoins
  case nested =>
    intro i j hjoins k b hik hkj hb
    obtain ⟨i', hi⟩ := exists_opposite hjoins.opening
    obtain ⟨j', hj⟩ := exists_opposite hjoins.closing
    obtain ⟨k', hk⟩ := exists_opposite hb
    obtain ⟨place, hplace, hafter, hbefore⟩ :=
      h.nested j' i' ((joins_mirror_iff hlength hi hj).1 hjoins) k' b.turned (by omega) (by omega)
        ((getElem?_mirror_eq_some_iff hk b).1 hb)
    refine ⟨brackets.length - 1 - place, ?_, by omega, by omega⟩
    exact (getElem?_mirrorTable_eq_some_iff (opposite hk) (by omega)).2 hplace
  case apart =>
    intro i j hi hpast hj hbefore hij
    obtain ⟨i', hi'⟩ := exists_opposite hi
    obtain ⟨j', hj'⟩ := exists_opposite hj
    rw [length_mirror] at hpast
    -- What led past the end led before the start, and the other way round.
    have hstart : entries[i']? = some (some (-1)) :=
      (getElem?_mirrorTable_eq_some_iff (opposite hi') (by omega)).1 hpast
    have hend : entries[j']? = some (some (brackets.length : Int)) :=
      (getElem?_mirrorTable_eq_some_iff (opposite hj') (by omega)).1 hbefore
    exact h.apart j' i' ((getElem?_mirror_eq_some_iff hj' .closing).1 hj) hend
      ((getElem?_mirror_eq_some_iff hi' .opening).1 hi) hstart (by omega)

end Opposite

theorem table_mirror_eq (text : Text) :
    table (ofText text.mirror) = mirrorTable (table (ofText text)) := by
  rw [ofText_mirror]
  exact (isTable_table (ofText text)).mirror.eq_table.symm

/-- Opposite to a slot without a bracket is one without a bracket, and opposite to a bracket
one that leads to the opposite place. -/
theorem partner_in_mirror (text : Text) {i : Nat} (hi : i < text.length) :
    ∃ entry : Option Int, (table (ofText text))[i]? = some entry ∧
      (table (ofText text.mirror))[text.length - 1 - i]? =
        some (entry.map fun place => (text.length : Int) - 1 - place) := by
  have hlength : (table (ofText text)).length = text.length := by
    rw [(isTable_table (ofText text)).length, ofText, List.length_map]
  have hslot : i < (table (ofText text)).length := by omega
  refine ⟨_, List.getElem?_eq_getElem hslot, ?_⟩
  rw [table_mirror_eq, getElem?_mirrorTable (j := i) (by omega), List.getElem?_eq_getElem hslot,
    hlength]
  rfl

/-- The outer opening has no partner; turned, it leads before the start. -/
theorem partner_in_mirror_of_unpaired :
    let text := Text.ofString "]a[[b]"
    2 < text.length ∧ (table (ofText text))[2]? = some (some 6) ∧
      (table (ofText text.mirror))[3]? = some (some (-1)) := by
  intro text
  have unpaired : (table (ofText text))[2]? = some (some 6) := by decide
  have inside : 2 < text.length := by decide
  obtain ⟨entry, hentry, hmirrored⟩ := partner_in_mirror text inside
  obtain rfl : some 6 = entry := Option.some.inj (unpaired.symm.trans hentry)
  exact ⟨inside, unpaired, hmirrored⟩

end Bracket

end TapeMachine
