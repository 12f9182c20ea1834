import Mathlib
import TapeMachine.Machine.Loop

/-!
What the ways of repeating come to. Repetition with a limit is the measure of
the others: a stride of order `k` is the repetition with limit `2 ^ k`, and a
search finds a state exactly where the repetition over its whole range does.
-/

namespace TapeMachine.Loop

variable {σ : Type}

section Laws

variable (done : σ → Bool) (f : σ → σ)

theorem times_of_done {s : σ} (h : done s = true) (n : Nat) : times done f n s = s := by
  cases n with
  | zero => rfl
  | succ n => simp [times, h]

theorem times_add (m n : Nat) (s : σ) :
    times done f (m + n) s = times done f n (times done f m s) := by
  induction m generalizing s with
  | zero => rw [Nat.zero_add, times]
  | succ m ih =>
      rw [Nat.succ_add]
      cases h : done s with
      | true => simp [times_of_done done f h]
      | false => simp [times, h, ih]

theorem times_of_running {n : Nat} {s : σ} (h : ∀ j < n, done (f^[j] s) = false) :
    times done f n s = f^[n] s := by
  induction n generalizing s with
  | zero => rfl
  | succ n ih =>
      have here : done s = false := h 0 (Nat.succ_pos n)
      rw [times, here, Function.iterate_succ_apply]
      exact ih fun j hj => h (j + 1) (Nat.succ_lt_succ hj)

/-- A repetition stops at the first state that is done. -/
theorem times_of_first {k n : Nat} {s : σ} (hk : k ≤ n) (running : ∀ j < k, done (f^[j] s) = false)
    (ends : done (f^[k] s) = true) : times done f n s = f^[k] s := by
  obtain ⟨m, rfl⟩ := Nat.exists_eq_add_of_le hk
  rw [times_add, times_of_running done f running, times_of_done done f ends]

/-- A view of the states that takes the steps of one repetition to those of another
takes the one to the other. -/
theorem map_times {τ : Type} {done' : τ → Bool} {f' : τ → τ} (view : σ → τ)
    (hdone : ∀ s, done' (view s) = done s) (hf : ∀ s, view (f s) = f' (view s)) (n : Nat) (s : σ) :
    view (times done f n s) = times done' f' n (view s) := by
  induction n generalizing s with
  | zero => rfl
  | succ n ih =>
      rw [times, times, hdone]
      split
      · rfl
      · rw [ih, hf]

/-- A stride is the repetition that it is meant to be. -/
theorem stride_eq_times (k : Nat) (s : σ) : stride done f k s = times done f (2 ^ k) s := by
  induction k generalizing s with
  | zero => simp [stride, times]
  | succ k ih =>
      have twice : 2 ^ (k + 1) = 2 ^ k + 2 ^ k := by omega
      rw [twice, times_add, stride, ih, ih]
      split
      · next h => exact (times_of_done done f h _).symm
      · rfl

/-- Rounds of growing strides add up to one repetition. -/
theorem rounds_eq (count k : Nat) (s : σ) :
    rounds done f count k s =
      let t := times done f (2 ^ k * (2 ^ count - 1)) s
      if done t then some t else none := by
  induction count generalizing k s with
  | zero => simp [rounds, times]
  | succ count ih =>
      have total : 2 ^ k * (2 ^ (count + 1) - 1) = 2 ^ k + 2 ^ (k + 1) * (2 ^ count - 1) := by
        have positive : 1 ≤ 2 ^ count := Nat.one_le_two_pow
        obtain ⟨m, hm⟩ := Nat.exists_eq_add_of_le positive
        rw [Nat.pow_succ, Nat.pow_succ, hm]
        have twice : (1 + m) * 2 - 1 = 1 + 2 * m := by omega
        rw [twice, Nat.add_sub_cancel_left, Nat.mul_add, Nat.mul_one, Nat.mul_assoc]
      rw [rounds, ih, stride_eq_times, total, times_add]
      split
      · next h => simp [times_of_done done f h, h]
      · rfl

theorem search_eq (count : Nat) (s : σ) :
    search done f count s =
      let t := times done f (2 ^ count - 1) s
      if done t then some t else none := by
  rw [search, rounds_eq, Nat.pow_zero, Nat.one_mul]

theorem search_of_first {count k : Nat} {s : σ} (hk : k < 2 ^ count)
    (running : ∀ j < k, done (f^[j] s) = false) (ends : done (f^[k] s) = true) :
    search done f count s = some (f^[k] s) := by
  have within : k ≤ 2 ^ count - 1 := by omega
  rw [search_eq, times_of_first done f within running ends]
  exact if_pos ends

theorem search_of_never {s : σ} (count : Nat) (running : ∀ j, done (f^[j] s) = false) :
    search done f count s = none := by
  rw [search_eq, times_of_running done f fun j _ => running j]
  simp [running]

theorem map_search {τ : Type} {done' : τ → Bool} {f' : τ → τ} (view : σ → τ)
    (hdone : ∀ s, done' (view s) = done s) (hf : ∀ s, view (f s) = f' (view s)) (count : Nat)
    (s : σ) : (search done f count s).map view = search done' f' count (view s) := by
  simp only [search_eq, ← map_times done f view hdone hf, hdone]
  split <;> rfl

end Laws

end TapeMachine.Loop
