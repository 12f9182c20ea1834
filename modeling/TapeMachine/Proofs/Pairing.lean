import Mathlib
import TapeMachine.Machine.Core.Lemmas

/-!
What one pass over a sequence pairs. The openings still without a partner are
distinct and wait with the entry for an unpaired one; every other entry is
settled for good. A scan that counts the depth from a bracket on therefore comes
to the partner that the pass has given it, in balanced and unbalanced sequences
alike.
-/

namespace TapeMachine

namespace Bracket

/-- The place at which a depth that starts above zero comes back to it, where
the first bracket stands at `place`; the place past the end if it never does. -/
def scanForward : (place depth : Nat) → List (Option Bracket) → Nat
  | place, _, [] => place
  | place, depth, none :: rest => scanForward (place + 1) depth rest
  | place, depth, some .opening :: rest => scanForward (place + 1) (depth + 1) rest
  | place, depth, some .closing :: rest =>
    if depth = 1 then place else scanForward (place + 1) (depth - 1) rest

/-- The place at which the depth comes back to zero on the way to the start,
over what stands before, the nearest bracket first; none if it never does. -/
def scanBackward : (depth : Nat) → List (Option Bracket) → Option Nat
  | _, [] => none
  | depth, none :: rest => scanBackward depth rest
  | depth, some .closing :: rest => scanBackward (depth + 1) rest
  | depth, some .opening :: rest =>
    if depth = 1 then some rest.length else scanBackward (depth - 1) rest

theorem scanForward_le (brackets : List (Option Bracket)) (place depth : Nat) :
    place ≤ scanForward place depth brackets ∧
      scanForward place depth brackets ≤ place + brackets.length := by
  induction brackets generalizing place depth with
  | nil => simp [scanForward]
  | cons bracket rest ih =>
      have further (depth : Nat) :
          place ≤ scanForward (place + 1) depth rest ∧
            scanForward (place + 1) depth rest ≤ place + (rest.length + 1) := by
        have bounds := ih (place + 1) depth
        omega
      rcases bracket with _ | bracket
      · exact further depth
      cases bracket with
      | opening => exact further (depth + 1)
      | closing =>
          rw [scanForward]
          split
          · simp
          · exact further (depth - 1)

theorem scanBackward_lt {brackets : List (Option Bracket)} {depth place : Nat}
    (h : scanBackward depth brackets = some place) : place < brackets.length := by
  induction brackets generalizing depth with
  | nil => cases h
  | cons bracket rest ih =>
      have further {depth : Nat} (h : scanBackward depth rest = some place) :
          place < rest.length + 1 := Nat.lt_succ_of_lt (ih h)
      rcases bracket with _ | bracket
      · exact further h
      cases bracket with
      | opening =>
          rw [scanBackward] at h
          split at h
          · cases h
            exact Nat.lt_succ_self _
          · exact further h
      | closing => exact further h

end Bracket

namespace Partner

/-- What a forward scan that ends at `place` finds in a sequence of the given
length. -/
def ofForward (length place : Nat) : Partner :=
  if place = length then .pastEnd else .slot place

/-- What a backward scan finds. -/
def ofBackward : Option Nat → Partner
  | some place => .slot place
  | none => .beforeStart

end Partner

namespace Pairing

open TapeMachine.Bracket (scanForward scanBackward)

/-- The openings that wait are listed latest first, and each has the entry of an
unpaired one. -/
structure Consistent (p : Pairing) : Prop where
  descending : p.unclosed.Pairwise (· > ·)
  waiting : ∀ i ∈ p.unclosed, p.partners[i]? = some (some .pastEnd)

theorem Consistent.lt_size {p : Pairing} (h : p.Consistent) {i : Nat} (hi : i ∈ p.unclosed) :
    i < p.partners.size := by
  obtain ⟨hlt, _⟩ := Array.getElem?_eq_some_iff.1 (h.waiting i hi)
  exact hlt

theorem consistent_empty : empty.Consistent where
  descending := List.Pairwise.nil
  waiting := by
    intro i hi
    cases hi

theorem feed_closing_of_unclosed {p : Pairing} {start : Nat} {rest : List Nat}
    (h : p.unclosed = start :: rest) :
    p.feed (some .closing) =
      { partners := (p.partners.setIfInBounds start (some (.slot p.partners.size))).push
          (some (.slot start))
        unclosed := rest } := by
  simp [feed, h]

theorem feed_closing_of_none {p : Pairing} (h : p.unclosed = []) :
    p.feed (some .closing) = { p with partners := p.partners.push (some .beforeStart) } := by
  simp [feed, h]

theorem Consistent.feed {p : Pairing} (h : p.Consistent) (bracket : Option Bracket) :
    (p.feed bracket).Consistent := by
  have kept (x : Option Partner) (i : Nat) (hi : i ∈ p.unclosed) :
      (p.partners.push x)[i]? = some (some .pastEnd) := by
    rw [Array.getElem?_push_lt (h.lt_size hi), ← Array.getElem?_eq_getElem (h.lt_size hi)]
    exact h.waiting i hi
  rcases bracket with _ | bracket
  · exact ⟨h.descending, kept none⟩
  cases bracket with
  | opening =>
      refine ⟨List.pairwise_cons.2 ⟨fun i hi => h.lt_size hi, h.descending⟩, ?_⟩
      intro i hi
      rcases List.mem_cons.1 hi with rfl | older
      · exact Array.getElem?_push_size
      · exact kept _ i older
  | closing =>
      cases hunclosed : p.unclosed with
      | nil =>
          rw [feed_closing_of_none hunclosed]
          exact ⟨h.descending, kept _⟩
      | cons start rest =>
          have ordered := h.descending
          rw [hunclosed, List.pairwise_cons] at ordered
          rw [feed_closing_of_unclosed hunclosed]
          refine ⟨ordered.2, ?_⟩
          intro i hi
          have older : i ∈ p.unclosed := by simp [hunclosed, hi]
          have distinct : start ≠ i := Nat.ne_of_gt (ordered.1 i hi)
          have hlt := h.lt_size older
          rw [Array.getElem?_push_lt (by simpa using hlt), ← Array.getElem?_eq_getElem,
            Array.getElem?_setIfInBounds_ne distinct]
          exact h.waiting i older

theorem Consistent.foldl {p : Pairing} (h : p.Consistent) (brackets : List (Option Bracket)) :
    (brackets.foldl Pairing.feed p).Consistent := by
  induction brackets generalizing p with
  | nil => exact h
  | cons bracket rest ih => exact ih (h.feed bracket)

theorem consistent_ofList (brackets : List (Option Bracket)) : (ofList brackets).Consistent :=
  consistent_empty.foldl brackets

@[simp]
theorem size_partners_ofList (brackets : List (Option Bracket)) :
    (ofList brackets).partners.size = brackets.length := by
  simp [ofList, size_partners_foldl, empty]

/-- An entry that is not waited for stays as it is. -/
theorem settled_feed {p : Pairing} {i : Nat} (hi : i < p.partners.size) (hs : i ∉ p.unclosed)
    (bracket : Option Bracket) :
    (p.feed bracket).partners[i]? = p.partners[i]? ∧ i ∉ (p.feed bracket).unclosed := by
  have kept (x : Option Partner) : (p.partners.push x)[i]? = p.partners[i]? := by
    rw [Array.getElem?_push_lt hi, Array.getElem?_eq_getElem hi]
  rcases bracket with _ | bracket
  · exact ⟨kept none, hs⟩
  cases bracket with
  | opening =>
      refine ⟨kept _, ?_⟩
      simp only [feed, List.mem_cons, not_or]
      exact ⟨Nat.ne_of_lt hi, hs⟩
  | closing =>
      cases hunclosed : p.unclosed with
      | nil =>
          rw [feed_closing_of_none hunclosed]
          exact ⟨kept _, hs⟩
      | cons start rest =>
          rw [hunclosed, List.mem_cons, not_or] at hs
          rw [feed_closing_of_unclosed hunclosed]
          refine ⟨?_, hs.2⟩
          rw [Array.getElem?_push_lt (by simpa using hi), ← Array.getElem?_eq_getElem,
            Array.getElem?_setIfInBounds_ne (Ne.symm hs.1)]

theorem settled_foldl {p : Pairing} {i : Nat} (hi : i < p.partners.size) (hs : i ∉ p.unclosed)
    (brackets : List (Option Bracket)) :
    (brackets.foldl feed p).partners[i]? = p.partners[i]? := by
  induction brackets generalizing p with
  | nil => rfl
  | cons bracket rest ih =>
      obtain ⟨same, settled⟩ := settled_feed hi hs bracket
      have larger : i < (p.feed bracket).partners.size := by
        rw [size_partners_feed]
        omega
      rw [List.foldl_cons, ih larger settled, same]

/-- The closing that the latest opening waits for becomes its partner for good. -/
theorem partner_of_closing {p : Pairing} (h : p.Consistent) {start : Nat} {outer : List Nat}
    (hunclosed : p.unclosed = start :: outer) (rest : List (Option Bracket)) :
    (rest.foldl feed (p.feed (some .closing))).partners[start]? =
      some (some (.slot p.partners.size)) := by
  have hlt : start < p.partners.size := h.lt_size (by simp [hunclosed])
  have ordered := h.descending
  rw [hunclosed, List.pairwise_cons] at ordered
  have settled : start ∉ outer := fun again => Nat.lt_irrefl start (ordered.1 start again)
  rw [settled_foldl (by rw [size_partners_feed]; omega)
    (by rw [feed_closing_of_unclosed hunclosed]; exact settled)]
  rw [feed_closing_of_unclosed hunclosed, Array.getElem?_push_lt (by simpa using hlt)]
  simp

/-- The partner of a waiting opening is found by counting: the openings above it
are the depth to come back from. -/
theorem partner_of_unclosed {p : Pairing} (h : p.Consistent) {start : Nat}
    (inner outer : List Nat) (hunclosed : p.unclosed = inner ++ start :: outer)
    (rest : List (Option Bracket)) :
    (rest.foldl feed p).partners[start]? =
      some (some (.ofForward (p.partners.size + rest.length)
        (scanForward p.partners.size (inner.length + 1) rest))) := by
  induction rest generalizing p inner with
  | nil =>
      have waits := h.waiting start (by simp [hunclosed])
      simpa [scanForward, Partner.ofForward] using waits
  | cons bracket rest ih =>
      have total : p.partners.size + (rest.length + 1) =
          (p.feed bracket).partners.size + rest.length := by
        rw [size_partners_feed]
        omega
      rw [List.foldl_cons, List.length_cons, total]
      rcases bracket with _ | bracket
      · have next := ih (h.feed none) inner hunclosed
        rw [size_partners_feed] at next ⊢
        exact next
      cases bracket with
      | opening =>
          have next := ih (h.feed (some .opening)) (p.partners.size :: inner)
            (by simp [feed, hunclosed])
          rw [size_partners_feed] at next ⊢
          exact next
      | closing =>
          rw [scanForward]
          cases inner with
          | nil =>
              -- The scan ends here, and so does the wait of the opening.
              rw [partner_of_closing h hunclosed, size_partners_feed]
              have before : p.partners.size ≠ p.partners.size + 1 + rest.length := by omega
              simp [Partner.ofForward, before]
          | cons latest inner =>
              have next := ih (h.feed (some .closing)) inner
                (by rw [feed_closing_of_unclosed hunclosed]; rfl)
              rw [size_partners_feed] at next ⊢
              simpa using next

/-- The waiting openings, latest first, are those that backward scans of growing
depth come to. -/
theorem scanBackward_reverse (brackets : List (Option Bracket)) (depth : Nat) :
    scanBackward (depth + 1) brackets.reverse = (ofList brackets).unclosed[depth]? := by
  induction brackets using List.reverseRecOn generalizing depth with
  | nil => rfl
  | append_singleton brackets bracket ih =>
      have last : ofList (brackets ++ [bracket]) = (ofList brackets).feed bracket := by
        simp [ofList]
      rw [List.reverse_append, List.reverse_singleton, List.singleton_append, last]
      rcases bracket with _ | bracket
      · rw [scanBackward, ih, feed]
      cases bracket with
      | opening =>
          cases depth with
          | zero => simp [scanBackward, feed]
          | succ depth => simp [scanBackward, feed, ih]
      | closing =>
          rw [scanBackward, ih]
          cases hunclosed : (ofList brackets).unclosed with
          | nil => rw [feed_closing_of_none hunclosed, hunclosed]; rfl
          | cons start rest => rw [feed_closing_of_unclosed hunclosed]; rfl

end Pairing

namespace Bracket

open TapeMachine.Pairing

private theorem partners_split {brackets : List (Option Bracket)} {i : Nat} {b : Bracket}
    (h : brackets[i]? = some (some b)) :
    partners brackets =
      ((brackets.drop (i + 1)).foldl feed ((ofList (brackets.take i)).feed (some b))).partners := by
  obtain ⟨hlt, hb⟩ := List.getElem?_eq_some_iff.1 h
  have split : brackets = brackets.take i ++ some b :: brackets.drop (i + 1) := by
    rw [← hb, List.getElem_cons_drop, List.take_append_drop]
  conv_lhs => rw [split]
  rw [partners, ofList, List.foldl_append, List.foldl_cons]
  rfl

private theorem length_take_of_getElem? {brackets : List (Option Bracket)} {i : Nat}
    {b : Option Bracket} (h : brackets[i]? = some b) : (brackets.take i).length = i := by
  obtain ⟨hlt, _⟩ := List.getElem?_eq_some_iff.1 h
  exact List.length_take_of_le (Nat.le_of_lt hlt)

/-- The partner of an opening is where the forward scan from it ends. -/
theorem partners_of_opening {brackets : List (Option Bracket)} {i : Nat}
    (h : brackets[i]? = some (some .opening)) :
    (partners brackets)[i]? =
      some (some (.ofForward brackets.length
        (scanForward (i + 1) 1 (brackets.drop (i + 1))))) := by
  have size : (ofList (brackets.take i)).partners.size = i := by
    rw [size_partners_ofList, length_take_of_getElem? h]
  have found := partner_of_unclosed ((consistent_ofList (brackets.take i)).feed (some .opening))
    [] (ofList (brackets.take i)).unclosed (by simp [feed, size]; rfl) (brackets.drop (i + 1))
  obtain ⟨hlt, _⟩ := List.getElem?_eq_some_iff.1 h
  have total : i + 1 + (brackets.drop (i + 1)).length = brackets.length := by
    rw [List.length_drop]
    omega
  rw [size_partners_feed, size, total] at found
  rw [partners_split h]
  exact found

/-- The partner of a closing is where the backward scan from it ends. -/
theorem partners_of_closing {brackets : List (Option Bracket)} {i : Nat}
    (h : brackets[i]? = some (some .closing)) :
    (partners brackets)[i]? =
      some (some (.ofBackward (scanBackward 1 (brackets.take i).reverse))) := by
  have consistent := consistent_ofList (brackets.take i)
  have size : (ofList (brackets.take i)).partners.size = i := by
    rw [size_partners_ofList, length_take_of_getElem? h]
  rw [partners_split h, scanBackward_reverse]
  cases hunclosed : (ofList (brackets.take i)).unclosed with
  | nil =>
      rw [feed_closing_of_none hunclosed, settled_foldl (by simp [size]) (by simp [hunclosed])]
      rw [Array.getElem?_push, if_pos size.symm]
      rfl
  | cons start rest =>
      have settled : i ∉ rest := by
        intro hi
        have hlt := consistent.lt_size (i := i) (by simp [hunclosed, hi])
        omega
      rw [feed_closing_of_unclosed hunclosed, settled_foldl (by simp [size]) settled]
      rw [Array.getElem?_push, if_pos (by simp [size])]
      rfl

end Bracket

namespace Program

def brackets (p : Program) : List (Option Bracket) :=
  p.commands.toList.map Command.bracket?

/-- Whether the entries of a program are those that a pass over it gives. -/
def IsPaired (p : Program) : Prop :=
  p.partners = Bracket.partners p.brackets

theorem isPaired_ofSource (source : Text) : (ofSource source).IsPaired := rfl

theorem length_brackets (p : Program) : p.brackets.length = p.length := by
  simp [brackets, length]

theorem getElem?_brackets (p : Program) (i : Nat) :
    p.brackets[i]? = p.commands[i]?.map Command.bracket? := by
  simp [brackets]

end Program

namespace Core

theorem partner?_of_loopStart {c : Core} (paired : c.program.IsPaired)
    (h : c.command? = some .loopStart) :
    c.partner? = some (.ofForward c.program.length
      (Bracket.scanForward (c.pc + 1) 1 (c.program.brackets.drop (c.pc + 1)))) := by
  have opening : c.program.brackets[c.pc]? = some (some .opening) := by
    rw [Program.getElem?_brackets, ← command?, h]
    rfl
  rw [partner?, paired, Bracket.partners_of_opening opening, Program.length_brackets]
  rfl

theorem partner?_of_loopEnd {c : Core} (paired : c.program.IsPaired)
    (h : c.command? = some .loopEnd) :
    c.partner? = some (.ofBackward
      (Bracket.scanBackward 1 (c.program.brackets.take c.pc).reverse)) := by
  have closing : c.program.brackets[c.pc]? = some (some .closing) := by
    rw [Program.getElem?_brackets, ← command?, h]
    rfl
  rw [partner?, paired, Bracket.partners_of_closing closing]
  rfl

end Core

end TapeMachine
