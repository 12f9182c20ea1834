import TapeMachine.Proofs.Locating
import TapeMachine.Proofs.Tables

/-!
Balanced sequences, and what the brackets without a partner have to do with them.
Without these a sequence is balanced, and fewer deletions never do: a deletion changes
the number of closings and openings in excess by one at most, and in the end there are
as many of them as brackets without a partner.
-/

namespace TapeMachine

/-- A list without the items at some positions. -/
def without {α : Type} (positions : Finset Nat) (s : List α) : List α :=
  (s.zipIdx.filter fun (_, i) => i ∉ positions).map Prod.fst

section Without

variable {α β : Type} (positions : Finset Nat)

theorem without_concat (s : List α) (x : α) :
    without positions (s ++ [x]) =
      without positions s ++ if s.length ∈ positions then [] else [x] := by
  simp only [without, List.zipIdx_append, List.filter_append, List.map_append]
  by_cases h : s.length ∈ positions <;> simp [h]

theorem without_sublist (s : List α) : (without positions s).Sublist s := by
  have h := (List.filter_sublist (p := fun (_, i) => i ∉ positions) (l := s.zipIdx)).map Prod.fst
  rwa [List.zipIdx_map_fst] at h

theorem map_without (f : α → β) (s : List α) :
    (without positions s).map f = without positions (s.map f) := by
  induction s using List.reverseRecOn with
  | nil => rfl
  | append_singleton s x ih =>
      rw [List.map_append, List.map_singleton, without_concat, without_concat, List.map_append, ih,
        List.length_map]
      split <;> rfl

theorem length_without (s : List α) :
    (without positions s).length + (positions.filter (· < s.length)).card = s.length := by
  induction s using List.reverseRecOn with
  | nil => simp [without]
  | append_singleton s x ih =>
      have below : positions.filter (· < s.length + 1) =
          if s.length ∈ positions then insert s.length (positions.filter (· < s.length))
          else positions.filter (· < s.length) := by
        ext i
        split <;> grind
      rw [without_concat, List.length_append, List.length_append, List.length_singleton, below]
      split
      · rw [Finset.card_insert_of_notMem (by simp), List.length_nil]
        omega
      · rw [List.length_singleton]
        omega

end Without

namespace Partner

theorem isUnpaired_ofForward (length place : Nat) :
    (ofForward length place).isUnpaired = true ↔ place = length := by
  unfold ofForward
  split
  · next h => exact iff_of_true rfl h
  · next h => exact iff_of_false Bool.false_ne_true h

theorem isUnpaired_ofBackward (place : Option Nat) :
    (ofBackward place).isUnpaired = true ↔ place = none := by
  cases place with
  | none => exact iff_of_true rfl rfl
  | some place => exact iff_of_false Bool.false_ne_true (Option.some_ne_none place)

end Partner

namespace Bracket

/-- Sequences whose brackets come in pairs, one pair behind or within another, with
other slots anywhere. -/
inductive Balanced : List (Option Bracket) → Prop
  | empty : Balanced []
  | blank {rest : List (Option Bracket)} : Balanced rest → Balanced (none :: rest)
  | pair {inner rest : List (Option Bracket)} : Balanced inner → Balanced rest →
      Balanced (some .opening :: (inner ++ some .closing :: rest))

/-- Closings that close nothing, and openings still to be closed. -/
structure Excess where
  closings : Nat
  openings : Nat

namespace Excess

def zero : Excess := ⟨0, 0⟩

def feed (e : Excess) : Option Bracket → Excess
  | none => e
  | some .opening => { e with openings := e.openings + 1 }
  | some .closing =>
    match e.openings with
    | 0 => { e with closings := e.closings + 1 }
    | n + 1 => { e with openings := n }

def distance (a b : Excess) : Nat :=
  (a.closings - b.closings) + (b.closings - a.closings) +
    ((a.openings - b.openings) + (b.openings - a.openings))

theorem distance_feed_feed (a b : Excess) (bracket : Option Bracket) :
    distance (a.feed bracket) (b.feed bracket) ≤ distance a b := by
  rcases bracket with _ | bracket
  · exact Nat.le_refl _
  cases bracket with
  | opening =>
      simp only [feed, distance]
      omega
  | closing =>
      simp only [feed]
      split <;> split <;> simp only [distance] <;> omega

theorem distance_feed (a b : Excess) (bracket : Option Bracket) :
    distance (a.feed bracket) b ≤ distance a b + 1 := by
  rcases bracket with _ | bracket
  · exact Nat.le_succ _
  cases bracket with
  | opening =>
      simp only [feed, distance]
      omega
  | closing =>
      simp only [feed]
      split <;> simp only [distance] <;> omega

/-- Each bracket left out moves the excess by one at most. -/
theorem distance_foldl_of_sublist {s t : List (Option Bracket)} (h : t.Sublist s) (a b : Excess) :
    distance (s.foldl feed a) (t.foldl feed b) + t.length ≤ distance a b + s.length := by
  induction h generalizing a b with
  | slnil => exact Nat.le_refl _
  | cons bracket _ ih =>
      have hrest := ih (a.feed bracket) b
      have hmove := distance_feed a b bracket
      simp only [List.foldl_cons, List.length_cons]
      omega
  | cons_cons bracket _ ih =>
      have hrest := ih (a.feed bracket) (b.feed bracket)
      have hmove := distance_feed_feed a b bracket
      simp only [List.foldl_cons, List.length_cons]
      omega

theorem closings_le_feed (e : Excess) (bracket : Option Bracket) :
    e.closings ≤ (e.feed bracket).closings := by
  rcases bracket with _ | bracket
  · exact Nat.le_refl _
  cases bracket with
  | opening => exact Nat.le_refl _
  | closing =>
      rw [feed]
      split <;> simp

theorem closings_le_foldl (e : Excess) (brackets : List (Option Bracket)) :
    e.closings ≤ (brackets.foldl feed e).closings := by
  induction brackets generalizing e with
  | nil => exact Nat.le_refl _
  | cons bracket rest ih => exact (e.closings_le_feed bracket).trans (ih (e.feed bracket))

end Excess

def excess (brackets : List (Option Bracket)) : Excess :=
  brackets.foldl Excess.feed .zero

theorem Balanced.foldl_feed {brackets : List (Option Bracket)} (h : Balanced brackets)
    (e : Excess) : brackets.foldl Excess.feed e = e := by
  induction h generalizing e with
  | empty => rfl
  | blank _ ih => exact ih e
  | pair _ _ ihInner ihRest =>
      rw [List.foldl_cons, List.foldl_append, ihInner, List.foldl_cons]
      exact ihRest e

/-- Balanced but for `n` closings. -/
def Closes : Nat → List (Option Bracket) → Prop
  | 0, brackets => Balanced brackets
  | n + 1, brackets => ∃ inner rest, Balanced inner ∧ Closes n rest ∧
      brackets = inner ++ some .closing :: rest

theorem Closes.blank {n : Nat} {rest : List (Option Bracket)} (h : Closes n rest) :
    Closes n (none :: rest) := by
  cases n with
  | zero => exact Balanced.blank h
  | succ n =>
      obtain ⟨inner, after, hinner, hafter, rfl⟩ := h
      exact ⟨none :: inner, after, hinner.blank, hafter, rfl⟩

theorem Closes.pair {n : Nat} {inner rest : List (Option Bracket)} (hinner : Balanced inner)
    (h : Closes n rest) : Closes n (some .opening :: (inner ++ some .closing :: rest)) := by
  cases n with
  | zero => exact Balanced.pair hinner h
  | succ n =>
      obtain ⟨next, after, hnext, hafter, rfl⟩ := h
      exact ⟨some .opening :: (inner ++ some .closing :: next), after, hinner.pair hnext, hafter,
        by simp⟩

theorem closes_of_foldl_feed {brackets : List (Option Bracket)} {n : Nat}
    (h : brackets.foldl Excess.feed ⟨0, n⟩ = .zero) : Closes n brackets := by
  induction brackets generalizing n with
  | nil =>
      cases h
      exact Balanced.empty
  | cons bracket rest ih =>
      rcases bracket with _ | bracket
      · exact (ih h).blank
      cases bracket with
      | opening =>
          obtain ⟨inner, after, hinner, hafter, rfl⟩ := ih h
          exact hafter.pair hinner
      | closing =>
          cases n with
          | zero =>
              -- What closes nothing stays in excess.
              have hzero : rest.foldl Excess.feed ⟨1, 0⟩ = .zero := h
              have hstays := Excess.closings_le_foldl ⟨1, 0⟩ rest
              rw [hzero] at hstays
              exact absurd hstays (Nat.not_succ_le_zero 0)
          | succ n => exact ⟨[], rest, Balanced.empty, ih h, rfl⟩

theorem balanced_iff_excess (brackets : List (Option Bracket)) :
    Balanced brackets ↔ excess brackets = .zero := by
  constructor
  · intro h
    exact h.foldl_feed .zero
  · exact closes_of_foldl_feed

theorem excess_concat (brackets : List (Option Bracket)) (bracket : Option Bracket) :
    excess (brackets ++ [bracket]) = (excess brackets).feed bracket := by
  simp [excess]

theorem mem_unpaired {partners : Array (Option Partner)} {i : Nat} :
    i ∈ unpaired partners ↔
      ∃ partner : Partner, partners[i]? = some (some partner) ∧ partner.isUnpaired = true := by
  simp only [unpaired, List.mem_filter, List.mem_range]
  constructor
  · rintro ⟨_, h⟩
    split at h
    · next partner hpartner => exact ⟨partner, hpartner, h⟩
    · cases h
  · rintro ⟨partner, hpartner, h⟩
    obtain ⟨hlt, _⟩ := Array.getElem?_eq_some_iff.1 hpartner
    refine ⟨hlt, ?_⟩
    rw [hpartner]
    exact h

theorem pairwise_unpaired (partners : Array (Option Partner)) :
    (unpaired partners).Pairwise (· < ·) :=
  List.pairwise_lt_range.filter _

theorem exists_bracket_of_unpaired {brackets : List (Option Bracket)} {i : Nat}
    (h : i ∈ unpaired (partners brackets)) : ∃ b, brackets[i]? = some (some b) := by
  obtain ⟨_, hpartner, _⟩ := mem_unpaired.1 h
  exact (Pairing.sound_ofList brackets).exists_of_partner hpartner

/-- The positions of the brackets without a partner. -/
def strays (brackets : List (Option Bracket)) : Finset Nat :=
  (unpaired (partners brackets)).toFinset

theorem mem_strays {brackets : List (Option Bracket)} {i : Nat} {partner : Partner}
    (h : (partners brackets)[i]? = some (some partner)) :
    i ∈ strays brackets ↔ partner.isUnpaired = true := by
  rw [strays, List.mem_toFinset, mem_unpaired, h]
  simp

theorem card_strays (brackets : List (Option Bracket)) :
    (strays brackets).card = (unpaired (partners brackets)).length :=
  List.toFinset_card_of_nodup ((pairwise_unpaired _).imp Nat.ne_of_lt)

theorem strays_lt {brackets : List (Option Bracket)} {i : Nat} (h : i ∈ strays brackets) :
    i < brackets.length := by
  obtain ⟨b, hb⟩ := exists_bracket_of_unpaired (List.mem_toFinset.1 h)
  exact (List.getElem?_eq_some_iff.1 hb).1

/-- What the pass over the first brackets of a sequence tells of the positions without a
partner in the whole: those before are in excess or wait, and all others balance but
for the openings that wait for a closing still to come. -/
structure Tallies (positions : Finset Nat) (done : List (Option Bracket)) (p : Pairing) :
    Prop where
  openings : (excess done).openings = p.unclosed.length
  kept : excess (without positions done) = ⟨0, p.unclosed.countP (· ∉ positions)⟩
  dropped : (without positions done).length + (excess done).closings +
    p.unclosed.countP (· ∈ positions) = done.length

section Tallies

variable {positions : Finset Nat} {done : List (Option Bracket)} {p : Pairing}

theorem Tallies.feed_none (h : Tallies positions done p) (hnot : done.length ∉ positions) :
    Tallies positions (done ++ [none]) (p.feed none) := by
  have hdropped := h.dropped
  constructor
  · rw [excess_concat]
    exact h.openings
  · rw [without_concat, if_neg hnot, excess_concat]
    exact h.kept
  · rw [without_concat, if_neg hnot, excess_concat]
    simp only [List.length_append, List.length_singleton, Excess.feed, Pairing.feed]
    omega

theorem Tallies.feed_opening (h : Tallies positions done p)
    (hsize : p.partners.size = done.length) :
    Tallies positions (done ++ [some .opening]) (p.feed (some .opening)) := by
  have hdropped := h.dropped
  by_cases hk : done.length ∈ positions
  · constructor
    · simp [excess_concat, Excess.feed, Pairing.feed, h.openings]
    · simp [without_concat, hk, h.kept, Pairing.feed, hsize]
    · simp [without_concat, hk, excess_concat, Excess.feed, Pairing.feed, hsize]
      omega
  · constructor
    · simp [excess_concat, Excess.feed, Pairing.feed, h.openings]
    · simp [without_concat, hk, excess_concat, h.kept, Excess.feed, Pairing.feed, hsize]
    · simp [without_concat, hk, excess_concat, Excess.feed, Pairing.feed, hsize]
      omega

theorem Tallies.feed_unpaired (h : Tallies positions done p) (hunclosed : p.unclosed = [])
    (hk : done.length ∈ positions) :
    Tallies positions (done ++ [some .closing]) (p.feed (some .closing)) := by
  have hopenings : (excess done).openings = 0 := by
    rw [h.openings, hunclosed]
    rfl
  have hkept := h.kept
  have hdropped := h.dropped
  rw [hunclosed] at hkept hdropped
  rw [Pairing.feed_closing_of_none hunclosed]
  constructor
  · simp [excess_concat, Excess.feed, hopenings, hunclosed]
  · simpa [without_concat, hk, hunclosed] using hkept
  · simp [without_concat, hk, excess_concat, Excess.feed, hopenings, hunclosed] at hdropped ⊢
    omega

theorem Tallies.feed_paired (h : Tallies positions done p) {start : Nat} {outer : List Nat}
    (hunclosed : p.unclosed = start :: outer) (hstart : start ∉ positions)
    (hk : done.length ∉ positions) :
    Tallies positions (done ++ [some .closing]) (p.feed (some .closing)) := by
  have hopenings : (excess done).openings = outer.length + 1 := by
    rw [h.openings, hunclosed]
    rfl
  have hkept := h.kept
  have hdropped := h.dropped
  rw [hunclosed] at hkept hdropped
  rw [Pairing.feed_closing_of_unclosed hunclosed]
  constructor
  · simp [excess_concat, Excess.feed, hopenings]
  · simp [without_concat, hk, excess_concat, hkept, Excess.feed, hstart]
  · simp [without_concat, hk, excess_concat, Excess.feed, hopenings, hstart] at hdropped ⊢
    omega

end Tallies

/-- A closing has the latest opening that waits for its partner. -/
theorem partner_of_next_closing (done rest : List (Option Bracket)) :
    (partners (done ++ some .closing :: rest))[done.length]? =
      some (some (.ofBackward (Pairing.ofList done).unclosed.head?)) := by
  have hclosing : (done ++ some .closing :: rest)[done.length]? = some (some .closing) := by simp
  rw [partners_of_closing hclosing, List.take_left, Pairing.scanBackward_reverse,
    List.head?_eq_getElem?]

/-- The tallies hold all along, since a bracket that is paired or is a closing has its
partner for good. -/
theorem tallies_ofList (done rest : List (Option Bracket)) :
    Tallies (strays (done ++ rest)) done (Pairing.ofList done) := by
  induction done using List.reverseRecOn generalizing rest with
  | nil => exact ⟨rfl, rfl, rfl⟩
  | append_singleton done bracket ih =>
      have tallies := ih (bracket :: rest)
      have whole : done ++ [bracket] ++ rest = done ++ bracket :: rest := by simp
      rw [whole, Pairing.ofList_concat]
      rcases bracket with _ | bracket
      · apply tallies.feed_none
        intro hk
        obtain ⟨b, hb⟩ := exists_bracket_of_unpaired (List.mem_toFinset.1 hk)
        simp at hb
      cases bracket with
      | opening =>
          apply tallies.feed_opening
          simp
      | closing =>
          have hpartner := partner_of_next_closing done rest
          cases hunclosed : (Pairing.ofList done).unclosed with
          | nil =>
              apply tallies.feed_unpaired hunclosed
              rw [mem_strays hpartner, Partner.isUnpaired_ofBackward, hunclosed]
              rfl
          | cons start outer =>
              have hstart : (partners (done ++ some .closing :: rest))[start]? =
                  some (some (.slot done.length)) := by
                have found := Pairing.partner_of_closing (Pairing.consistent_ofList done)
                  hunclosed rest
                rw [Pairing.size_partners_ofList] at found
                rw [partners, Pairing.ofList, List.foldl_append, List.foldl_cons]
                exact found
              apply tallies.feed_paired hunclosed
              · simp [mem_strays hstart, Partner.isUnpaired]
              · simp [mem_strays hpartner, Partner.isUnpaired_ofBackward, hunclosed]

/-- The openings that wait at the end are among the brackets without a partner. -/
theorem mem_strays_of_unclosed {brackets : List (Option Bracket)} {i : Nat}
    (h : i ∈ (Pairing.ofList brackets).unclosed) : i ∈ strays brackets := by
  have hpartner := (Pairing.consistent_ofList brackets).waiting i h
  rw [mem_strays hpartner]
  rfl

theorem balanced_without_strays (brackets : List (Option Bracket)) :
    Balanced (without (strays brackets) brackets) := by
  have tallies := tallies_ofList brackets []
  rw [List.append_nil] at tallies
  have none_kept : (Pairing.ofList brackets).unclosed.countP (· ∉ strays brackets) = 0 := by
    rw [List.countP_eq_zero]
    intro i hi
    simpa using mem_strays_of_unclosed hi
  rw [balanced_iff_excess, tallies.kept, none_kept]
  rfl

theorem card_strays_eq_excess (brackets : List (Option Bracket)) :
    (strays brackets).card = (excess brackets).closings + (excess brackets).openings := by
  have tallies := tallies_ofList brackets []
  rw [List.append_nil] at tallies
  have all_dropped : (Pairing.ofList brackets).unclosed.countP (· ∈ strays brackets) =
      (Pairing.ofList brackets).unclosed.length := by
    rw [List.countP_eq_length]
    intro i hi
    simpa using mem_strays_of_unclosed hi
  have within : (strays brackets).filter (· < brackets.length) = strays brackets :=
    Finset.filter_true_of_mem fun i hi => strays_lt hi
  have hlength := length_without (strays brackets) brackets
  have hdropped := tallies.dropped
  rw [within] at hlength
  rw [all_dropped, ← tallies.openings] at hdropped
  omega

/-- Nothing smaller than the excess leaves a balanced sequence. -/
theorem excess_le_card {brackets : List (Option Bracket)} {positions : Finset Nat}
    (h : Balanced (without positions brackets)) :
    (excess brackets).closings + (excess brackets).openings ≤ positions.card := by
  have hmoves : Excess.distance (excess brackets) (excess (without positions brackets)) +
      (without positions brackets).length ≤ Excess.distance .zero .zero + brackets.length :=
    Excess.distance_foldl_of_sublist (without_sublist positions brackets) .zero .zero
  rw [(balanced_iff_excess _).1 h] at hmoves
  have hlength := length_without positions brackets
  have hfewer : (positions.filter (· < brackets.length)).card ≤ positions.card :=
    Finset.card_filter_le _ _
  simp only [Excess.distance, Excess.zero] at hmoves
  omega

theorem balanced_iff_unpaired (brackets : List (Option Bracket)) :
    Balanced brackets ↔ unpaired (partners brackets) = [] := by
  have hcard := card_strays_eq_excess brackets
  rw [card_strays] at hcard
  rw [balanced_iff_excess, ← List.length_eq_zero_iff, hcard]
  constructor
  · intro h
    rw [h]
    rfl
  · intro h
    obtain ⟨hclosings, hopenings⟩ := Nat.add_eq_zero_iff.1 h
    calc excess brackets = ⟨(excess brackets).closings, (excess brackets).openings⟩ := rfl
      _ = .zero := by rw [hclosings, hopenings]; rfl

end Bracket

end TapeMachine
