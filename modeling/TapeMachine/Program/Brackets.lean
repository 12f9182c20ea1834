/-!
Pairing of brackets in any sequence, balanced or not. One pass from left to
right keeps the openings still without a partner; a closing takes the latest
of them.
-/

namespace TapeMachine

inductive Bracket
  | opening
  | closing
  deriving DecidableEq

/-- Where a bracket leads. An unpaired opening leads past the end and an
unpaired closing before the start. -/
inductive Partner
  | slot (index : Nat)
  | beforeStart
  | pastEnd
  deriving DecidableEq

namespace Partner

/-- As a position in a sequence of the given length, one beyond either end for
the unpaired ones. -/
def position (length : Nat) : Partner → Int
  | slot index => index
  | beforeStart => -1
  | pastEnd => length

def isUnpaired : Partner → Bool
  | slot _ => false
  | _ => true

end Partner

/-- The pairing of a sequence read so far: one entry per slot, and the
openings without a partner, latest first. -/
structure Pairing where
  partners : Array (Option Partner)
  unclosed : List Nat

namespace Pairing

def empty : Pairing := ⟨#[], []⟩

def feed (p : Pairing) : Option Bracket → Pairing
  | none => { p with partners := p.partners.push none }
  | some .opening =>
    let start := p.partners.size
    { partners := p.partners.push (some .pastEnd)
      unclosed := start :: p.unclosed }
  | some .closing =>
    match p.unclosed with
    | [] => { p with partners := p.partners.push (some .beforeStart) }
    | start :: rest =>
      let stop := p.partners.size
      { partners :=
          (p.partners.setIfInBounds start (some (.slot stop))).push (some (.slot start))
        unclosed := rest }

def ofList (brackets : List (Option Bracket)) : Pairing :=
  brackets.foldl feed empty

/-- Every slot read adds one entry. -/
theorem size_partners_feed (p : Pairing) (bracket : Option Bracket) :
    (p.feed bracket).partners.size = p.partners.size + 1 := by
  unfold feed
  split
  · simp
  · simp
  · split <;> simp

theorem size_partners_foldl (brackets : List (Option Bracket)) (p : Pairing) :
    (brackets.foldl feed p).partners.size = p.partners.size + brackets.length := by
  induction brackets generalizing p with
  | nil => rfl
  | cons bracket rest ih =>
      rw [List.foldl_cons, ih, size_partners_feed, List.length_cons]
      omega

end Pairing

namespace Bracket

def ofChar? : Char → Option Bracket
  | '[' => some opening
  | ']' => some closing
  | _ => none

/-- The partner of every bracket of a sequence; other slots have none. -/
def partners (brackets : List (Option Bracket)) : Array (Option Partner) :=
  (Pairing.ofList brackets).partners

theorem size_partners (brackets : List (Option Bracket)) :
    (partners brackets).size = brackets.length := by
  rw [partners, Pairing.ofList, Pairing.size_partners_foldl]
  simp [Pairing.empty]

/-- The slots of brackets without a partner, in order. -/
def unpaired (partners : Array (Option Partner)) : List Nat :=
  (List.range partners.size).filter fun i =>
    match partners[i]? with
    | some (some partner) => partner.isUnpaired
    | _ => false

end Bracket

end TapeMachine
