/-!
Repetition that stops early, with and without a limit. Without one the search
doubles its stride: each round goes on for twice as many steps as the one
before, so that a bound on the steps needs only as many rounds as the bound
has binary digits.
-/

namespace TapeMachine.Loop

variable {σ : Type}

/-- Up to `n` applications of `f`, none to a state that is done. -/
@[specialize]
def times (done : σ → Bool) (f : σ → σ) : Nat → σ → σ
  | 0, s => s
  | n + 1, s => if done s then s else times done f n (f s)

/-- Up to `2 ^ k` applications of `f`, none to a state that is done. -/
@[specialize]
def stride (done : σ → Bool) (f : σ → σ) : Nat → σ → σ
  | 0, s => if done s then s else f s
  | k + 1, s =>
    let halfway := stride done f k s
    if done halfway then halfway else stride done f k halfway

/-- Rounds of `2 ^ k`, `2 ^ (k + 1)`, … applications until the state is done. -/
@[specialize]
def rounds (done : σ → Bool) (f : σ → σ) : (count k : Nat) → σ → Option σ
  | 0, _, s => if done s then some s else none
  | count + 1, k, s =>
    if done s then some s else rounds done f count (k + 1) (stride done f k s)

/-- The first state that is done, if one comes within `2 ^ count - 1`
applications of `f`. -/
@[specialize]
def search (done : σ → Bool) (f : σ → σ) (count : Nat) (s : σ) : Option σ :=
  rounds done f count 0 s

end TapeMachine.Loop
