import Mathlib.Data.Nat.ModEq

/-!
# Computations that do not wrap

A computation over machine words takes its sum and its difference as a parameter. Where it comes to
the same for every choice of these that is right as long as nothing wraps, no step of it has used a
sum that did not fit or a difference below zero.

## Main definitions

* `WordArith`: a sum and a difference.
* `WordArith.word w`: those of words of `w` bits.
* `WordArith.Exact w A`: `A` is right where nothing wraps.
-/

/-- A sum and a difference. -/
structure WordArith where
  add : Nat → Nat → Nat
  sub : Nat → Nat → Nat

namespace WordArith

/-- The arithmetic of words of `w` bits. -/
def word (w : Nat) : WordArith where
  add a b := (a + b) % 2 ^ w
  sub a b := (a + (2 ^ w - b % 2 ^ w)) % 2 ^ w

/-- The arithmetic is right where nothing wraps. -/
structure Exact (w : Nat) (A : WordArith) : Prop where
  add : ∀ {a b}, a + b < 2 ^ w → A.add a b = a + b
  sub : ∀ {a b}, b ≤ a → a < 2 ^ w → A.sub a b = a - b

theorem word_exact (w : Nat) : Exact w (word w) where
  add h := Nat.mod_eq_of_lt h
  sub {a b} hle hlt := by
    have hb : b % 2 ^ w = b := Nat.mod_eq_of_lt (by omega)
    have hsum : a + (2 ^ w - b) = a - b + 2 ^ w := by omega
    change (a + (2 ^ w - b % 2 ^ w)) % 2 ^ w = a - b
    rw [hb, hsum, Nat.add_mod_right, Nat.mod_eq_of_lt (by omega)]

end WordArith
