import TapeMachine.Proofs.Structured.Block

/-!
What an arranged program means, without a program counter: a pair of brackets
repeats its body while the cell is nonzero, and an unpaired bracket either ends
the whole program or does nothing. How often a loop may be repeated is bounded by
fuel, and more fuel never changes a result.
-/

namespace TapeMachine

/-- What commands act on. -/
structure World where
  tape : Array UInt8
  ptr : Nat
  unread : List UInt8
  output : Array UInt8

namespace World

def start (size : Nat) (input : Text) : World :=
  { tape := Array.replicate size 0
    ptr := 0
    unread := input.map CodePoint.lowByte
    output := #[] }

def cell (w : World) : UInt8 :=
  w.tape.getD w.ptr 0

def setCell (w : World) (value : UInt8) : World :=
  { w with tape := w.tape.setIfInBounds w.ptr value }

def act (w : World) : Effect → World
  | .right => { w with ptr := (w.ptr + 1) % w.tape.size }
  | .left => { w with ptr := (w.ptr + (w.tape.size - 1)) % w.tape.size }
  | .increment => w.setCell (w.cell + 1)
  | .decrement => w.setCell (w.cell - 1)
  | .write => { w with output := w.output.push w.cell }
  | .read =>
    match w.unread with
    | [] => w.setCell 0
    | b :: unread => { w.setCell b with unread }

end World

/-- A part of a program passes on to what follows it, or stops the program. -/
inductive Outcome
  | passed (w : World)
  | stopped (w : World)

namespace Outcome

def world : Outcome → World
  | passed w => w
  | stopped w => w

/-- Goes on with what follows, unless the program has stopped or the fuel is
used up. -/
def andThen (out : Option Outcome) (next : World → Option Outcome) : Option Outcome :=
  match out with
  | some (passed w) => next w
  | _ => out

/-- Repeats a body while the cell is nonzero, up to `count` times. -/
def repeatWhile (body : World → Option Outcome) : (count : Nat) → World → Option Outcome
  | 0, w => if w.cell = 0 then some (passed w) else none
  | count + 1, w =>
    if w.cell = 0 then some (passed w)
    else andThen (body w) (repeatWhile body count)

end Outcome

/-- The meaning of a block; none if some loop needs more repetitions than the
fuel allows. -/
def Block.run (fuel : Nat) : Block → World → Option Outcome
  | done, w => some (.passed w)
  | act effect next, w => next.run fuel (w.act effect)
  | loop body next, w =>
    Outcome.andThen (Outcome.repeatWhile (body.run fuel) fuel w) (next.run fuel)
  | strayOpening next, w => if w.cell = 0 then some (.stopped w) else next.run fuel w
  | strayClosing next, w => if w.cell = 0 then next.run fuel w else some (.stopped w)

namespace Outcome

theorem andThen_mono {out out' : Option Outcome} {next next' : World → Option Outcome}
    {result : Outcome} (hout : ∀ r, out = some r → out' = some r)
    (hnext : ∀ w r, next w = some r → next' w = some r)
    (h : andThen out next = some result) : andThen out' next' = some result := by
  cases hcase : out with
  | none =>
      rw [hcase] at h
      cases h
  | some first =>
      rw [hout first hcase]
      rw [hcase] at h
      cases first with
      | passed w => exact hnext w result h
      | stopped w => exact h

theorem repeatWhile_mono {body body' : World → Option Outcome} {count count' : Nat}
    {w : World} {result : Outcome} (hbody : ∀ w r, body w = some r → body' w = some r)
    (hcount : count ≤ count') (h : repeatWhile body count w = some result) :
    repeatWhile body' count' w = some result := by
  induction count generalizing count' w result with
  | zero =>
      by_cases hzero : w.cell = 0
      · cases count' <;> simpa [repeatWhile, hzero] using h
      · simp [repeatWhile, hzero] at h
  | succ count ih =>
      obtain ⟨more, rfl⟩ := Nat.exists_eq_add_of_le' (Nat.le_trans (Nat.succ_pos count) hcount)
      rw [repeatWhile] at h ⊢
      split at h
      · next hzero => rwa [if_pos hzero]
      · next hzero =>
          rw [if_neg hzero]
          exact andThen_mono (hbody w) (fun w r hr => ih (by omega) hr) h

end Outcome

/-- A result stays the result with more fuel. -/
theorem Block.run_mono {b : Block} {fuel fuel' : Nat} {w : World} {out : Outcome}
    (hfuel : fuel ≤ fuel') (h : b.run fuel w = some out) : b.run fuel' w = some out := by
  induction b generalizing w out with
  | done => exact h
  | act effect next ih => exact ih h
  | loop body next ihb ihn =>
      rw [run] at h ⊢
      apply Outcome.andThen_mono _ (fun w r hr => ihn hr) h
      intro r hr
      exact Outcome.repeatWhile_mono (fun w r hr => ihb hr) hfuel hr
  | strayOpening next ih =>
      rw [run] at h ⊢
      split at h
      · next hzero => rwa [if_pos hzero]
      · next hzero =>
          rw [if_neg hzero]
          exact ih h
  | strayClosing next ih =>
      rw [run] at h ⊢
      split at h
      · next hzero =>
          rw [if_pos hzero]
          exact ih h
      · next hzero => rwa [if_neg hzero]

end TapeMachine
