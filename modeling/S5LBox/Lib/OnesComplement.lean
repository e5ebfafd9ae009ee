import Mathlib.Data.Nat.ModEq
import Mathlib.Tactic.Linarith

/-!
# Sums with end-around carry

In a ones-complement sum to the base `b` what is carried out of the lowest digit is added back to
it. Two turns of that leave one digit of every sum of two digits. The digit is the sum modulo `b - 1`,
with `b - 1` itself in place of a zero that is not the empty sum, so that a sum with its complement
is `b - 1`.

## Main definitions

* `turn b s`: the carry, added back once.
* `digit b s`: the digit that is left.

## Main results

* `digit_add_complement`: a sum with its complement.
-/

namespace OnesComplement

variable {b s : Nat}

/-- What is carried out is added back. -/
def turn (b s : Nat) : Nat := s % b + s / b

/-- The digit that two turns leave. -/
def digit (b s : Nat) : Nat := turn b (turn b s)

theorem turn_modEq (hb : 1 ≤ b) (s : Nat) : turn b s ≡ s [MOD b - 1] := by
  have hone : b ≡ 1 [MOD b - 1] := (Nat.modEq_iff_dvd' hb).mpr dvd_rfl |>.symm
  calc turn b s = s % b + 1 * (s / b) := by rw [turn, Nat.one_mul]
    _ ≡ s % b + b * (s / b) [MOD b - 1] := (hone.symm.mul_right _).add_left _
    _ = s := Nat.mod_add_div s b

theorem turn_pos (hs : 0 < s) : 0 < turn b s := by
  by_contra hzero
  have hboth : s % b = 0 ∧ s / b = 0 := Nat.add_eq_zero_iff.mp (Nat.eq_zero_of_not_pos hzero)
  have hsum := Nat.mod_add_div s b
  rw [hboth.1, hboth.2] at hsum
  omega

theorem digit_modEq (hb : 1 ≤ b) (s : Nat) : digit b s ≡ s [MOD b - 1] :=
  (turn_modEq hb _).trans (turn_modEq hb s)

theorem digit_pos (hs : 0 < s) : 0 < digit b s := turn_pos (turn_pos hs)

/-- Two turns leave one digit of a sum of two digits. -/
theorem digit_lt (hb : 1 < b) (hs : s < b * b) : digit b s < b := by
  have hfirst : turn b s ≤ (b - 1) + (b - 1) := by
    have hlow : s % b < b := Nat.mod_lt s (by omega)
    have hhigh : s / b < b := Nat.div_lt_of_lt_mul hs
    rw [turn]
    omega
  rw [digit]
  generalize turn b s = t at hfirst ⊢
  rw [turn]
  by_cases hone : t < b
  · rw [Nat.mod_eq_of_lt hone, Nat.div_eq_of_lt hone]
    omega
  · have hdiv : t / b = 1 := Nat.div_eq_of_lt_le (by omega) (by omega)
    have hsum := Nat.mod_add_div t b
    rw [hdiv] at hsum ⊢
    omega

/-- A sum with the complement of its digit has all digits at their greatest. -/
theorem digit_add_complement (hb : 2 < b) (hs : s + b ≤ b * b) :
    digit b (s + (b - 1 - digit b s)) = b - 1 := by
  have hdigit : digit b s < b := digit_lt (by omega) (by omega)
  have hmod : s + (b - 1 - digit b s) ≡ 0 [MOD b - 1] := by
    have hsame := (digit_modEq (show 1 ≤ b by omega) s).symm.add_right (b - 1 - digit b s)
    refine hsame.trans ?_
    rw [Nat.add_sub_cancel' (by omega)]
    exact (Nat.modEq_zero_iff_dvd).mpr dvd_rfl
  have hpos : 0 < s + (b - 1 - digit b s) := by
    by_contra hzero
    have hnone : s = 0 := by omega
    rw [hnone] at hzero
    have hdigit : digit b 0 = 0 := by simp [digit, turn]
    omega
  have hlt : digit b (s + (b - 1 - digit b s)) < b := digit_lt (by omega) (by omega)
  have hdvd : b - 1 ∣ digit b (s + (b - 1 - digit b s)) :=
    (Nat.modEq_zero_iff_dvd).mp ((digit_modEq (by omega) _).trans hmod)
  have hle := Nat.le_of_dvd (digit_pos hpos) hdvd
  omega

end OnesComplement
