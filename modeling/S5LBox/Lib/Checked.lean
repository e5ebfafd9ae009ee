import Mathlib.Algebra.Group.Nat.Defs
import Mathlib.Data.Option.Basic

/-!
# Arithmetic that must fit

Machine arithmetic on words of `w` bits, in which a result that does not fit is no result at all.
A computation written with these operations has a result exactly when none of its steps wraps, and
then it is the one of the natural numbers.

## Main definitions

* `Checked.add`, `Checked.sub`, `Checked.mul`: the three operations.
* `Checked.Yields`: a computation has a result that meets a postcondition.

## Main results

* `Checked.Yields.add`, `Checked.Yields.sub`, `Checked.Yields.mul`: where the result fits.
* `Checked.Yields.bind`, `Checked.Yields.imp`: going on with a result.
-/

namespace Checked

variable {w a b : Nat}

/-- The sum, if it fits into `w` bits. -/
def add (w a b : Nat) : Option Nat := if a + b < 2 ^ w then some (a + b) else none

/-- The difference, if it is not negative. -/
def sub (a b : Nat) : Option Nat := if b ≤ a then some (a - b) else none

/-- The product, if it fits into `w` bits. -/
def mul (w a b : Nat) : Option Nat := if a * b < 2 ^ w then some (a * b) else none

/-- The computation has a result that meets the postcondition `P`. -/
def Yields {α : Type} (x : Option α) (P : α → Prop) : Prop := ∃ r, x = some r ∧ P r

namespace Yields

variable {α β : Type} {x : Option α} {P Q : α → Prop}

theorem some {r : α} (h : P r) : Yields (some r) P := ⟨r, rfl, h⟩

theorem imp (h : Yields x P) (hPQ : ∀ r, P r → Q r) : Yields x Q := by
  obtain ⟨r, hr, hP⟩ := h
  exact ⟨r, hr, hPQ r hP⟩

theorem bind {k : α → Option β} {R : β → Prop} (h : Yields x P)
    (hk : ∀ r, P r → Yields (k r) R) : Yields (x >>= k) R := by
  obtain ⟨r, rfl, hP⟩ := h
  exact hk r hP

theorem map {f : α → β} {R : β → Prop} (h : Yields x P) (hf : ∀ r, P r → R (f r)) :
    Yields (x.map f) R := by
  obtain ⟨r, rfl, hP⟩ := h
  exact ⟨f r, rfl, hf r hP⟩

theorem add (h : a + b < 2 ^ w) : Yields (Checked.add w a b) (· = a + b) :=
  ⟨a + b, if_pos h, rfl⟩

theorem sub (h : b ≤ a) : Yields (Checked.sub a b) (· = a - b) :=
  ⟨a - b, if_pos h, rfl⟩

theorem mul (h : a * b < 2 ^ w) : Yields (Checked.mul w a b) (· = a * b) :=
  ⟨a * b, if_pos h, rfl⟩

end Yields

end Checked
