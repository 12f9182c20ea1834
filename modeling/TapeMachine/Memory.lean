/-!
The memory of a system, as far as a program that runs on it can tell: which
numbers of bytes can be had in one piece. How much that is differs from system
to system and is no matter of the programs here, which take the memory as they
find it.
-/

namespace TapeMachine

/-- Numbers of bytes from here on are not asked for: they do not fit into the
signed words of 64 bits that count bytes. -/
def byteCountLimit : Nat := 0x8000000000000000

structure Memory where
  holds : Nat → Bool
  lt_byteCountLimit : ∀ n, holds n = true → n < byteCountLimit

namespace Memory

/-- A memory of less than `limit` bytes. -/
def below (limit : Nat) : Memory where
  holds n := n < limit && n < byteCountLimit
  lt_byteCountLimit n h := by
    rw [Bool.and_eq_true, decide_eq_true_eq, decide_eq_true_eq] at h
    exact h.2

/-- The memory of a system on which nothing else is said: less than 16
gibibytes. -/
def usual : Memory := below 0x400000000

end Memory

end TapeMachine
