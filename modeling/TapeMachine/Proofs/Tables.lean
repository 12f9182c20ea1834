import TapeMachine.Proofs.Pairing

/-!
The table of partners, told without the pass that makes it. Pairs join an opening and
a later closing that name each other, no two pairs cross, no bracket without a partner
stands inside a pair, and no opening without one before such a closing. The pass makes
a table of this kind, and no other table is of this kind.
-/

namespace TapeMachine

namespace Bracket

def ofCodePoint? : CodePoint → Option Bracket
  | .scalar c => ofChar? c
  | .surrogate _ => none

/-- The slots of a text, of which those without a bracket are none. -/
def ofText (text : Text) : List (Option Bracket) :=
  text.map ofCodePoint?

/-- The partners as numbers, with -1 and the length for brackets without one. -/
def table (brackets : List (Option Bracket)) : List (Option Int) :=
  (partners brackets).toList.map (Option.map (Partner.position brackets.length))

/-- Whether a table joins an opening and a later closing. -/
structure Joins (brackets : List (Option Bracket)) (table : List (Option Int))
    (i j : Nat) : Prop where
  before : i < j
  opening : brackets[i]? = some (some .opening)
  closing : brackets[j]? = some (some .closing)
  forth : table[i]? = some (some (j : Int))
  back : table[j]? = some (some (i : Int))

/-- Whether a table has the partner of every bracket. -/
structure IsTable (brackets : List (Option Bracket)) (table : List (Option Int)) : Prop where
  length : table.length = brackets.length
  blank : ∀ i : Nat, brackets[i]? = some none → table[i]? = some none
  opening : ∀ i : Nat, brackets[i]? = some (some .opening) →
    table[i]? = some (some (brackets.length : Int)) ∨ ∃ j, Joins brackets table i j
  closing : ∀ j : Nat, brackets[j]? = some (some .closing) →
    table[j]? = some (some (-1)) ∨ ∃ i, Joins brackets table i j
  nested : ∀ i j, Joins brackets table i j → ∀ k b, i < k → k < j →
    brackets[k]? = some (some b) → ∃ place : Int, table[k]? = some (some place) ∧
      i < place ∧ place < j
  apart : ∀ i j : Nat, brackets[i]? = some (some .opening) →
    table[i]? = some (some (brackets.length : Int)) → brackets[j]? = some (some .closing) →
    table[j]? = some (some (-1)) → ¬i < j

end Bracket

namespace Pairing

/-- Whether every bracket inside a pair has its partner inside it. -/
def Nests (brackets : List (Option Bracket)) (partners : Array (Option Partner)) : Prop :=
  ∀ i j : Nat, partners[i]? = some (some (.slot j)) → ∀ (k : Nat) (b : Bracket), i < k → k < j →
    brackets[k]? = some (some b) → ∃ place, partners[k]? = some (some (.slot place)) ∧
      i < place ∧ place < j

/-- What the pass has paired so far. -/
structure Sound (brackets : List (Option Bracket)) (p : Pairing) : Prop extends Consistent p where
  size : p.partners.size = brackets.length
  blank : ∀ i : Nat, brackets[i]? = some none → p.partners[i]? = some none
  opening : ∀ i : Nat, brackets[i]? = some (some .opening) → i ∈ p.unclosed ∨
    ∃ j : Nat, i < j ∧ brackets[j]? = some (some .closing) ∧
      p.partners[i]? = some (some (.slot j)) ∧ p.partners[j]? = some (some (.slot i))
  closing : ∀ j : Nat, brackets[j]? = some (some .closing) →
    p.partners[j]? = some (some .beforeStart) ∨
    ∃ i : Nat, i < j ∧ brackets[i]? = some (some .opening) ∧
      p.partners[i]? = some (some (.slot j)) ∧ p.partners[j]? = some (some (.slot i))
  nested : Nests brackets p.partners
  apart : ∀ i ∈ p.unclosed, ∀ j : Nat, p.partners[j]? = some (some .beforeStart) → j < i

variable {brackets : List (Option Bracket)} {p : Pairing}

theorem getElem?_concat {α : Type} (s : List α) (x : α) (i : Nat) :
    (s ++ [x])[i]? = if i = s.length then some x else s[i]? := by
  grind

theorem sound_empty : Sound [] empty where
  toConsistent := consistent_empty
  size := rfl
  blank := by simp
  opening := by simp
  closing := by simp
  nested := by simp [Nests, empty]
  apart := by simp [empty]

/-- A slot with an entry stands in the sequence. -/
theorem Sound.exists_of_partner (h : p.Sound brackets) {i : Nat} {partner : Partner}
    (hi : p.partners[i]? = some (some partner)) : ∃ b, brackets[i]? = some (some b) := by
  obtain ⟨hlt, _⟩ := Array.getElem?_eq_some_iff.1 hi
  cases hb : brackets[i]? with
  | none =>
      rw [List.getElem?_eq_none_iff, ← h.size] at hb
      omega
  | some slot =>
      cases slot with
      | none =>
          rw [h.blank i hb] at hi
          cases hi
      | some b => exact ⟨b, rfl⟩

theorem Sound.opening_of_unclosed (h : p.Sound brackets) {i : Nat} (hi : i ∈ p.unclosed) :
    brackets[i]? = some (some .opening) := by
  obtain ⟨b, hb⟩ := h.exists_of_partner (h.waiting i hi)
  cases b with
  | opening => exact hb
  | closing => grind [h.closing i hb, h.waiting i hi]

theorem Sound.slot_lt (h : p.Sound brackets) {i j : Nat}
    (hi : p.partners[i]? = some (some (.slot j))) : j < brackets.length := by
  obtain ⟨b, hb⟩ := h.exists_of_partner hi
  cases b with
  | opening => grind [h.opening i hb, h.waiting i]
  | closing => grind [h.closing i hb]

/-- The brackets behind the latest opening that waits are paired among themselves. -/
theorem Sound.paired_behind (h : p.Sound brackets) {start : Nat} {outer : List Nat}
    (hunclosed : p.unclosed = start :: outer) {k : Nat} {b : Bracket} (hk : start < k)
    (hb : brackets[k]? = some (some b)) :
    ∃ place, p.partners[k]? = some (some (.slot place)) ∧
      start < place ∧ place < brackets.length := by
  have hstart : start ∈ p.unclosed := by simp [hunclosed]
  have hwaits := h.waiting start hstart
  have hdescending := h.descending
  rw [hunclosed, List.pairwise_cons] at hdescending
  cases b with
  | opening =>
      rcases h.opening k hb with hwaiting | ⟨j, hkj, _, hforth, _⟩
      · rw [hunclosed, List.mem_cons] at hwaiting
        grind
      · exact ⟨j, hforth, by omega, h.slot_lt hforth⟩
  | closing =>
      rcases h.closing k hb with hunpaired | ⟨i, hik, hi, hforth, hback⟩
      · have := h.apart start hstart k hunpaired
        omega
      · refine ⟨i, hback, ?_, h.slot_lt hback⟩
        -- A pair around the opening would give it a partner.
        by_contra hle
        have hne : i ≠ start := by
          rintro rfl
          rw [hwaits] at hforth
          cases hforth
        obtain ⟨place, hplace, _⟩ := h.nested i k hforth start .opening (by omega) hk
          (h.opening_of_unclosed hstart)
        rw [hwaits] at hplace
        cases hplace

/-- An entry that names no slot leaves what is inside the pairs as it is. -/
theorem Sound.nests_push (h : p.Sound brackets) (bracket : Option Bracket) {entry : Option Partner}
    (hentry : ∀ j, entry ≠ some (.slot j)) :
    Nests (brackets ++ [bracket]) (p.partners.push entry) := by
  intro i j hi k b hik hkj hb
  rw [Array.getElem?_push] at hi
  split at hi
  · exact absurd (Option.some.inj hi) (hentry j)
  · have hj := h.slot_lt hi
    have hk : k < p.partners.size := by
      rw [h.size]
      omega
    rw [List.getElem?_append_left (by omega)] at hb
    rw [Array.getElem?_push_lt hk, ← Array.getElem?_eq_getElem hk]
    exact h.nested i j hi k b hik hkj hb

theorem Sound.feed_none (h : p.Sound brackets) : (p.feed none).Sound (brackets ++ [none]) := by
  have hsize := h.size
  constructor
  case toConsistent => exact h.feed none
  case size => simp [size_partners_feed, hsize]
  case nested => exact h.nests_push none (by simp)
  all_goals simp only [feed, getElem?_concat, Array.getElem?_push, hsize]
  case blank => grind [h.blank]
  case opening => grind [h.opening]
  case closing => grind [h.closing]
  case apart =>
    intro i hi j hj
    split at hj
    · cases hj
    · exact h.apart i hi j hj

theorem Sound.feed_opening (h : p.Sound brackets) :
    (p.feed (some .opening)).Sound (brackets ++ [some .opening]) := by
  have hsize := h.size
  constructor
  case toConsistent => exact h.feed (some .opening)
  case size => simp [size_partners_feed, hsize]
  case nested => exact h.nests_push (some .opening) (by simp)
  all_goals simp only [feed, getElem?_concat, Array.getElem?_push, hsize, List.mem_cons]
  case blank => grind [h.blank]
  case opening => grind [h.opening]
  case closing => grind [h.closing]
  case apart =>
    intro i hi j hj
    split at hj
    · cases hj
    · obtain ⟨hlt, _⟩ := Array.getElem?_eq_some_iff.1 hj
      rcases hi with rfl | hi
      · omega
      · exact h.apart i hi j hj

theorem Sound.feed_unpaired (h : p.Sound brackets) (hunclosed : p.unclosed = []) :
    (p.feed (some .closing)).Sound (brackets ++ [some .closing]) := by
  have hsize := h.size
  constructor
  case toConsistent => exact h.feed (some .closing)
  case size => simp [size_partners_feed, hsize]
  all_goals rw [feed_closing_of_none hunclosed]
  case nested => exact h.nests_push (some .closing) (by simp)
  all_goals simp only [getElem?_concat, Array.getElem?_push, hsize, hunclosed]
  case blank => grind [h.blank]
  case opening => grind [h.opening]
  case closing => grind [h.closing]
  case apart => simp

theorem Sound.feed_paired (h : p.Sound brackets) {start : Nat} {outer : List Nat}
    (hunclosed : p.unclosed = start :: outer) :
    (p.feed (some .closing)).Sound (brackets ++ [some .closing]) := by
  have hsize := h.size
  have hstart : start ∈ p.unclosed := by simp [hunclosed]
  have hlt : start < brackets.length := hsize ▸ h.lt_size hstart
  have hwaits := h.waiting start hstart
  have hopening := h.opening_of_unclosed hstart
  have entry (i : Nat) : (p.feed (some .closing)).partners[i]? =
      if i = brackets.length then some (some (.slot start))
      else if i = start then some (some (.slot brackets.length)) else p.partners[i]? := by
    rw [feed_closing_of_unclosed hunclosed]
    grind
  have unclosed : (p.feed (some .closing)).unclosed = outer := by
    rw [feed_closing_of_unclosed hunclosed]
  constructor
  case toConsistent => exact h.feed (some .closing)
  case size => simp [size_partners_feed, hsize]
  all_goals simp only [Nests, getElem?_concat, entry, unclosed]
  case blank => grind [h.blank]
  case opening => grind [h.opening]
  case closing => grind [h.closing]
  case nested =>
    intro i j hi k b hik hkj hb
    by_cases hnew : i = start
    · -- The new pair: what stands in it is paired behind its opening.
      subst hnew
      obtain rfl : brackets.length = j := by grind
      have hold : brackets[k]? = some (some b) := by grind
      obtain ⟨place, hplace, hbounds⟩ := h.paired_behind hunclosed hik hold
      grind
    · have hold : p.partners[i]? = some (some (.slot j)) := by grind
      have hj := h.slot_lt hold
      obtain ⟨place, hplace, hbounds⟩ := h.nested i j hold k b hik hkj (by grind)
      grind
  case apart =>
    intro i hi j hj
    split at hj
    · cases hj
    · split at hj
      · cases hj
      · exact h.apart i (by simp [hunclosed, hi]) j hj

theorem Sound.feed (h : p.Sound brackets) (bracket : Option Bracket) :
    (p.feed bracket).Sound (brackets ++ [bracket]) := by
  rcases bracket with _ | bracket
  · exact h.feed_none
  cases bracket with
  | opening => exact h.feed_opening
  | closing =>
      cases hunclosed : p.unclosed with
      | nil => exact h.feed_unpaired hunclosed
      | cons start outer => exact h.feed_paired hunclosed

theorem ofList_concat (brackets : List (Option Bracket)) (bracket : Option Bracket) :
    ofList (brackets ++ [bracket]) = (ofList brackets).feed bracket := by
  simp [ofList]

theorem sound_ofList (brackets : List (Option Bracket)) : (ofList brackets).Sound brackets := by
  induction brackets using List.reverseRecOn with
  | nil => exact sound_empty
  | append_singleton brackets bracket ih =>
      rw [ofList_concat]
      exact ih.feed bracket

end Pairing

namespace Bracket

open TapeMachine.Pairing

variable {brackets : List (Option Bracket)} {entries : List (Option Int)}

theorem getElem?_table (brackets : List (Option Bracket)) (i : Nat) :
    (table brackets)[i]? = (ofList brackets).partners[i]?.map
      (Option.map (Partner.position brackets.length)) := by
  rw [table, partners, List.getElem?_map, Array.getElem?_toList]

/-- A slot holds one place. -/
theorem place_unique {k : Nat} {a b : Int} (ha : entries[k]? = some (some a))
    (hb : entries[k]? = some (some b)) : a = b := by
  rw [ha] at hb
  exact Option.some.inj (Option.some.inj hb)

theorem isTable_table (brackets : List (Option Bracket)) : IsTable brackets (table brackets) := by
  have h := sound_ofList brackets
  have unclosed_or_slot (i : Nat) (hi : brackets[i]? = some (some .opening)) :
      i ∈ (ofList brackets).unclosed ∨
        ∃ j : Nat, Joins brackets (table brackets) i j ∧
          (ofList brackets).partners[i]? = some (some (.slot j)) := by
    rcases h.opening i hi with hwaits | ⟨j, hij, hj, hforth, hback⟩
    · exact Or.inl hwaits
    · refine Or.inr ⟨j, ⟨hij, hi, hj, ?_, ?_⟩, hforth⟩
      · simp [getElem?_table, hforth, Partner.position]
      · simp [getElem?_table, hback, Partner.position]
  constructor
  case length => simp [table, size_partners]
  case blank =>
    intro i hi
    simp [getElem?_table, h.blank i hi]
  case opening =>
    intro i hi
    rcases unclosed_or_slot i hi with hwaits | ⟨j, hjoins, _⟩
    · left
      simp [getElem?_table, h.waiting i hwaits, Partner.position]
    · exact Or.inr ⟨j, hjoins⟩
  case closing =>
    intro j hj
    rcases h.closing j hj with hunpaired | ⟨i, hij, hi, hforth, hback⟩
    · left
      simp [getElem?_table, hunpaired, Partner.position]
    · refine Or.inr ⟨i, hij, hi, hj, ?_, ?_⟩
      · simp [getElem?_table, hforth, Partner.position]
      · simp [getElem?_table, hback, Partner.position]
  case nested =>
    intro i j hjoins k b hik hkj hb
    have hslot : (ofList brackets).partners[i]? = some (some (.slot j)) := by
      obtain ⟨hlt, _⟩ := List.getElem?_eq_some_iff.1 hjoins.closing
      rcases unclosed_or_slot i hjoins.opening with hwaits | ⟨j', hjoins', hslot⟩
      · have hforth := hjoins.forth
        simp [getElem?_table, h.waiting i hwaits, Partner.position] at hforth
        omega
      · have hsame := place_unique hjoins'.forth hjoins.forth
        rwa [← Int.ofNat_inj.1 hsame]
    obtain ⟨place, hplace, hbefore, hafter⟩ := h.nested i j hslot k b hik hkj hb
    refine ⟨place, ?_, by omega, by omega⟩
    simp [getElem?_table, hplace, Partner.position]
  case apart =>
    intro i j hi hpast hj hstart hij
    have hwaits : i ∈ (ofList brackets).unclosed := by
      rcases unclosed_or_slot i hi with hwaits | ⟨k, hjoins, _⟩
      · exact hwaits
      · obtain ⟨hlt, _⟩ := List.getElem?_eq_some_iff.1 hjoins.closing
        have hsame := place_unique hjoins.forth hpast
        omega
    have hunpaired : (ofList brackets).partners[j]? = some (some .beforeStart) := by
      rcases h.closing j hj with hunpaired | ⟨k, _, _, _, hback⟩
      · exact hunpaired
      · simp [getElem?_table, hback, Partner.position] at hstart
    have := h.apart i hwaits j hunpaired
    omega

/-- An opening leads past the end or to a later closing. -/
theorem IsTable.exists_place (h : IsTable brackets entries) {i : Nat}
    (hi : brackets[i]? = some (some .opening)) :
    ∃ place : Int, entries[i]? = some (some place) ∧ i < place ∧
      (place = brackets.length ∨ ∃ j : Nat, place = j ∧ Joins brackets entries i j) := by
  obtain ⟨hlt, _⟩ := List.getElem?_eq_some_iff.1 hi
  rcases h.opening i hi with hpast | ⟨j, hjoins⟩
  · exact ⟨_, hpast, by omega, Or.inl rfl⟩
  · exact ⟨j, hjoins.forth, by exact_mod_cast hjoins.before, Or.inr ⟨j, rfl, hjoins⟩⟩

/-- Whether the opening at `i` is one of the first `k` slots that a table leads behind
these. -/
structure Waits (brackets : List (Option Bracket)) (entries : List (Option Int))
    (k i : Nat) : Prop where
  before : i < k
  opening : brackets[i]? = some (some .opening)
  behind : ∃ place : Int, entries[i]? = some (some place) ∧ k ≤ place

/-- How far the pass agrees with a table once it has read `k` slots. -/
structure Agrees (brackets : List (Option Bracket)) (entries : List (Option Int)) (k : Nat)
    (p : Pairing) : Prop where
  unclosed : ∀ i, i ∈ p.unclosed ↔ Waits brackets entries k i
  settled : ∀ i < k, i ∉ p.unclosed →
    entries[i]? = p.partners[i]?.map (Option.map (Partner.position brackets.length))

/-- The next slot ends the wait of the opening that is joined with it, and of no other. -/
theorem IsTable.waits_succ (h : IsTable brackets entries) {i k : Nat} (hk : k < brackets.length)
    (hne : i ≠ k) (hnot : ¬Joins brackets entries i k) :
    Waits brackets entries (k + 1) i ↔ Waits brackets entries k i := by
  constructor
  · rintro ⟨hbefore, hi, place, hplace, hbehind⟩
    exact ⟨by omega, hi, place, hplace, by omega⟩
  · rintro ⟨hbefore, hi, place, hplace, hbehind⟩
    refine ⟨by omega, hi, place, hplace, ?_⟩
    obtain ⟨place', hplace', _, hpast⟩ := h.exists_place hi
    obtain rfl := place_unique hplace hplace'
    rcases hpast with rfl | ⟨j, rfl, hjoins⟩
    · omega
    · have hjk : j ≠ k := by
        rintro rfl
        exact hnot hjoins
      omega

theorem IsTable.waits_self (h : IsTable brackets entries) {k : Nat} :
    Waits brackets entries (k + 1) k ↔ brackets[k]? = some (some .opening) := by
  constructor
  · exact Waits.opening
  · intro hk
    obtain ⟨place, hplace, hbehind, _⟩ := h.exists_place hk
    exact ⟨by omega, hk, place, hplace, by omega⟩

theorem Joins.not_waits {i k : Nat} (h : Joins brackets entries i k) :
    ¬Waits brackets entries (k + 1) i := by
  rintro ⟨_, _, place, hplace, hbehind⟩
  have hsame := place_unique h.forth hplace
  omega

theorem not_waits_of_le {i k : Nat} (h : k ≤ i) : ¬Waits brackets entries k i := by
  intro waits
  have := waits.before
  omega

/-- A closing is joined with the latest opening that waits. -/
theorem Agrees.unclosed_of_joins {i k : Nat} {p : Pairing} (agrees : Agrees brackets entries k p)
    (h : IsTable brackets entries) (hp : p.Consistent) (hjoins : Joins brackets entries i k) :
    ∃ outer, p.unclosed = i :: outer := by
  have hi : i ∈ p.unclosed :=
    (agrees.unclosed i).2 ⟨hjoins.before, hjoins.opening, k, hjoins.forth, Int.le_refl _⟩
  cases hunclosed : p.unclosed with
  | nil => simp [hunclosed] at hi
  | cons latest outer =>
      have hdescending := hp.descending
      rw [hunclosed] at hi hdescending
      rcases List.mem_cons.1 hi with rfl | hi
      · exact ⟨outer, rfl⟩
      · -- An opening between the two would lead to a place between them.
        have hlater := (List.pairwise_cons.1 hdescending).1 i hi
        obtain ⟨hbefore, hopening, place, hplace, hbehind⟩ :=
          (agrees.unclosed latest).1 (by simp [hunclosed])
        obtain ⟨place', hplace', _, hinside⟩ :=
          h.nested i k hjoins latest .opening hlater hbefore hopening
        have hsame := place_unique hplace hplace'
        omega

/-- Where an unpaired closing comes, no opening waits. -/
theorem Agrees.unclosed_of_unpaired {k : Nat} {p : Pairing} (agrees : Agrees brackets entries k p)
    (h : IsTable brackets entries) (hk : brackets[k]? = some (some .closing))
    (hunpaired : entries[k]? = some (some (-1))) : p.unclosed = [] := by
  rw [List.eq_nil_iff_forall_not_mem]
  intro i hi
  obtain ⟨hbefore, hopening, place, hplace, hbehind⟩ := (agrees.unclosed i).1 hi
  obtain ⟨place', hplace', _, hpast⟩ := h.exists_place hopening
  obtain rfl := place_unique hplace hplace'
  rcases hpast with rfl | ⟨j, rfl, hjoins⟩
  · exact h.apart i k hopening hplace hk hunpaired hbefore
  · rcases Nat.lt_or_eq_of_le (Int.ofNat_le.1 hbehind) with hkj | rfl
    · obtain ⟨inside, hinside, _, _⟩ := h.nested i j hjoins k .closing hbefore hkj hk
      have hsame := place_unique hinside hunpaired
      omega
    · have hsame := place_unique hjoins.back hunpaired
      omega

/-- A slot that is joined with no earlier one adds an entry, and waits itself if it is an
opening. -/
theorem Agrees.pass {k : Nat} {p : Pairing} (agrees : Agrees brackets entries k p)
    (h : IsTable brackets entries) (hsize : p.partners.size = k) (hk : k < brackets.length)
    (hnot : ∀ i, ¬Joins brackets entries i k) {entry : Option Partner} {unclosed : List Nat}
    (hunclosed : ∀ i, i ∈ unclosed ↔
      i ∈ p.unclosed ∨ i = k ∧ brackets[k]? = some (some .opening))
    (hentry : brackets[k]? ≠ some (some .opening) →
      entries[k]? = some (entry.map (Partner.position brackets.length))) :
    Agrees brackets entries (k + 1) ⟨p.partners.push entry, unclosed⟩ := by
  constructor
  · intro i
    rw [hunclosed, agrees.unclosed]
    by_cases hik : i = k
    · subst hik
      simp [not_waits_of_le, h.waits_self]
    · simp [hik, h.waits_succ hk hik (hnot i)]
  · intro i hi hsettled
    rw [hunclosed, not_or, not_and] at hsettled
    rw [Array.getElem?_push, hsize]
    split
    · next hik =>
        subst hik
        exact hentry (hsettled.2 rfl)
    · exact agrees.settled i (by omega) hsettled.1

/-- A closing that is joined with an earlier opening settles both. -/
theorem Agrees.join {i k : Nat} {p : Pairing} (agrees : Agrees brackets entries k p)
    (h : IsTable brackets entries) (hp : p.Consistent) (hsize : p.partners.size = k)
    (hjoins : Joins brackets entries i k) :
    Agrees brackets entries (k + 1) (p.feed (some .closing)) := by
  obtain ⟨hk, _⟩ := List.getElem?_eq_some_iff.1 hjoins.closing
  obtain ⟨outer, hunclosed⟩ := agrees.unclosed_of_joins h hp hjoins
  have hlt : i < p.partners.size := hp.lt_size (by simp [hunclosed])
  have hdescending := hp.descending
  rw [hunclosed, List.pairwise_cons] at hdescending
  have hdistinct : i ∉ outer := fun again => Nat.lt_irrefl i (hdescending.1 i again)
  have waiting (j : Nat) : j = i ∨ j ∈ outer ↔ Waits brackets entries k j := by
    rw [← agrees.unclosed, hunclosed, List.mem_cons]
  rw [feed_closing_of_unclosed hunclosed]
  constructor
  · intro j
    show j ∈ outer ↔ _
    by_cases hjk : j = k
    · subst hjk
      have hself : j ∉ outer := fun again =>
        not_waits_of_le (Nat.le_refl j) ((waiting j).1 (Or.inr again))
      simp [hself, h.waits_self, hjoins.closing]
    · by_cases hji : j = i
      · subst hji
        simp [hdistinct, hjoins.not_waits]
      · have hnot : ¬Joins brackets entries j k := by
          intro hjoins'
          have hsame := place_unique hjoins.back hjoins'.back
          omega
        rw [h.waits_succ hk hjk hnot, ← waiting, or_iff_right hji]
  · intro j hj hsettled
    rw [Array.getElem?_push, Array.size_setIfInBounds, hsize]
    split
    · next hjk =>
        subst hjk
        simp [hjoins.back, Partner.position]
    · by_cases hji : j = i
      · subst hji
        rw [Array.getElem?_setIfInBounds_self_of_lt hlt, hjoins.forth]
        rfl
      · rw [Array.getElem?_setIfInBounds_ne (Ne.symm hji)]
        apply agrees.settled j (by omega)
        rw [hunclosed, List.mem_cons, not_or]
        exact ⟨hji, hsettled⟩

theorem Agrees.advance {k : Nat} {p : Pairing} {bracket : Option Bracket}
    (agrees : Agrees brackets entries k p) (h : IsTable brackets entries) (hp : p.Consistent)
    (hsize : p.partners.size = k) (hk : brackets[k]? = some bracket) :
    Agrees brackets entries (k + 1) (p.feed bracket) := by
  obtain ⟨hlt, _⟩ := List.getElem?_eq_some_iff.1 hk
  rcases bracket with _ | bracket
  · apply agrees.pass h hsize hlt
    · intro i hjoins
      simp [hjoins.closing] at hk
    · simp [hk]
    · intro _
      rw [h.blank k hk]
      rfl
  cases bracket with
  | opening =>
      apply agrees.pass h hsize hlt
      · intro i hjoins
        simp [hjoins.closing] at hk
      · simp [hk, hsize, or_comm]
      · intro hnot
        exact absurd hk hnot
  | closing =>
      rcases h.closing k hk with hunpaired | ⟨i, hjoins⟩
      · rw [feed_closing_of_none (agrees.unclosed_of_unpaired h hk hunpaired)]
        apply agrees.pass h hsize hlt
        · intro i hjoins
          have hsame := place_unique hjoins.back hunpaired
          omega
        · simp [hk]
        · intro _
          rw [hunpaired]
          rfl
      · exact agrees.join h hp hsize hjoins

theorem IsTable.agrees (h : IsTable brackets entries) {k : Nat} (hk : k ≤ brackets.length) :
    Agrees brackets entries k (ofList (brackets.take k)) := by
  induction k with
  | zero =>
      constructor
      · intro i
        simp [ofList, empty, not_waits_of_le]
      · intro i hi
        omega
  | succ k ih =>
      rw [List.take_succ_eq_append_getElem hk, ofList_concat]
      apply (ih (by omega)).advance h (consistent_ofList _)
      · simp
        omega
      · exact List.getElem?_eq_getElem hk

/-- No other table joins the brackets as it should. -/
theorem IsTable.eq_table (h : IsTable brackets entries) : entries = table brackets := by
  have agrees := h.agrees (Nat.le_refl brackets.length)
  rw [List.take_length] at agrees
  apply List.ext_getElem?
  intro i
  rw [getElem?_table]
  by_cases hunclosed : i ∈ (ofList brackets).unclosed
  · -- What waits at the end leads past it.
    obtain ⟨_, hi, place, hplace, hbehind⟩ := (agrees.unclosed i).1 hunclosed
    rw [(consistent_ofList brackets).waiting i hunclosed]
    rcases h.opening i hi with hpast | ⟨j, hjoins⟩
    · rw [hpast]
      rfl
    · obtain ⟨hlt, _⟩ := List.getElem?_eq_some_iff.1 hjoins.closing
      have hsame := place_unique hjoins.forth hplace
      omega
  · by_cases hi : i < brackets.length
    · exact agrees.settled i hi hunclosed
    · rw [List.getElem?_eq_none (by rw [h.length]; omega), Array.getElem?_eq_none (by simp; omega)]
      rfl

/-- The pass makes a table that joins the brackets of a text as it should, and there is
no other. -/
theorem isTable_iff (text : Text) (entries : List (Option Int)) :
    IsTable (ofText text) entries ↔ entries = table (ofText text) := by
  constructor
  · exact IsTable.eq_table
  · rintro rfl
    exact isTable_table _

end Bracket

end TapeMachine
