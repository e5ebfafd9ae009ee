import Mathlib.Data.BitVec

/-!
# Serial numbers

A counter of `w` bits that wraps has no order of its own. Two of its values are compared through
the sign of their difference, which is right as long as they are less than half the range apart.
Here the values of interest lie in a window that starts at `o`, and a value is known by its
offset from `o`: within the lower half of the range the comparison is the one of the offsets,
and membership of a half-open window is an inequality between natural numbers.

## Main definitions

* `Before a b`: the difference `a - b` is negative.
* `offset o a`: how far `a` lies past `o`.

## Main results

* `before_iff_offset_lt`: comparison within a window.
* `mem_window_iff`: between the two ends of a window.
-/

namespace SerialNumbers

variable {w : Nat} {o e a b : BitVec w}

/-- The signed comparison of two values of a counter that wraps. -/
def Before (a b : BitVec w) : Prop := (a - b).toInt < 0

instance (a b : BitVec w) : Decidable (Before a b) := Int.decLt _ _

/-- How far a value lies past the start of a window. -/
def offset (o a : BitVec w) : Nat := (a - o).toNat

theorem offset_lt (o a : BitVec w) : offset o a < 2 ^ w := BitVec.isLt _

@[simp]
theorem offset_self (o : BitVec w) : offset o o = 0 := by simp [offset]

theorem offset_eq_zero : offset o a = 0 ↔ a = o := by
  constructor
  · intro h
    have hsub : a - o = 0#w := BitVec.eq_of_toNat_eq h
    rw [← BitVec.sub_add_cancel a o, hsub, BitVec.zero_add]
  · rintro rfl
    exact offset_self a

theorem eq_of_offset_eq (h : offset o a = offset o b) : a = b := by
  have hsub : a - o = b - o := BitVec.eq_of_toNat_eq h
  rw [← BitVec.sub_add_cancel a o, hsub, BitVec.sub_add_cancel]

/-- Going on by `n` moves the offset by `n`, short of a whole turn. -/
theorem offset_add {n : Nat} (h : offset o a + n < 2 ^ w) :
    offset o (a + BitVec.ofNat w n) = offset o a + n := by
  have hcomm : a + BitVec.ofNat w n - o = (a - o) + BitVec.ofNat w n := by
    rw [BitVec.sub_eq_add_neg, BitVec.sub_eq_add_neg, BitVec.add_assoc,
      BitVec.add_comm (BitVec.ofNat w n), BitVec.add_assoc]
  have hn : n < 2 ^ w := by omega
  rw [offset, hcomm, BitVec.toNat_add, BitVec.toNat_ofNat, Nat.mod_eq_of_lt hn]
  exact Nat.mod_eq_of_lt h

theorem offset_start_add {n : Nat} (h : n < 2 ^ w) : offset o (o + BitVec.ofNat w n) = n := by
  have hadd := offset_add (a := o) (o := o) (n := n) (by rw [offset_self]; omega)
  rw [hadd, offset_self, Nat.zero_add]

theorem start_add_offset (o a : BitVec w) : o + BitVec.ofNat w (offset o a) = a := by
  rw [offset, BitVec.ofNat_toNat, BitVec.setWidth_eq, BitVec.add_comm, BitVec.sub_add_cancel]

/-- The difference of two values from their offsets, one way round. -/
theorem offset_between_of_le (h : offset o b ≤ offset o a) :
    offset b a = offset o a - offset o b := by
  have ha := offset_lt o a
  have hsum : a = b + BitVec.ofNat w (offset o a - offset o b) := by
    apply eq_of_offset_eq (o := o)
    rw [offset_add] <;> omega
  conv_lhs => rw [hsum]
  exact offset_start_add (by omega)

/-- The difference of two values from their offsets, the other way round. -/
theorem offset_between_of_lt (h : offset o a < offset o b) :
    offset b a = 2 ^ w - (offset o b - offset o a) := by
  have hba := offset_between_of_le (Nat.le_of_lt h)
  have hneg : b - a = -(a - b) := by
    rw [BitVec.neg_sub, BitVec.sub_eq_add_neg, BitVec.add_comm]
  have hne : a - b ≠ 0#w := by
    intro h0
    rw [offset, hneg, h0] at hba
    simp only [BitVec.neg_zero, BitVec.toNat_zero] at hba
    omega
  have hlt := offset_lt b a
  have hpos : 0 < offset b a := by
    rw [offset]
    rcases Nat.eq_zero_or_pos (a - b).toNat with h0 | h0
    · exact absurd (BitVec.eq_of_toNat_eq h0) hne
    · exact h0
  rw [offset, hneg, BitVec.toNat_neg] at hba
  change (2 ^ w - offset b a) % 2 ^ w = _ at hba
  rw [Nat.mod_eq_of_lt (by omega)] at hba
  omega

theorem before_iff : Before a b ↔ 2 ^ w ≤ 2 * offset b a := by
  have hlt := offset_lt b a
  rw [Before, BitVec.toInt_eq_toNat_cond]
  change (if 2 * offset b a < 2 ^ w then (offset b a : Int) else offset b a - (2 ^ w : Nat)) < 0 ↔ _
  split <;> omega

/-- Within the lower half of the range the comparison is the one of the offsets. -/
theorem before_iff_offset_lt (ha : 2 * offset o a < 2 ^ w) (hb : 2 * offset o b < 2 ^ w) :
    Before a b ↔ offset o a < offset o b := by
  rw [before_iff]
  rcases Nat.lt_or_ge (offset o a) (offset o b) with h | h
  · have hab := offset_between_of_lt h
    omega
  · have hab := offset_between_of_le h
    omega

/-- A value that lies past the start of a short window, and not past its end, lies in it. -/
theorem mem_window_iff (h : 2 * offset o e < 2 ^ w) :
    (Before o a ∧ ¬Before e a) ↔ 0 < offset o a ∧ offset o a ≤ offset o e := by
  have hlt := offset_lt o a
  rw [before_iff, before_iff]
  rcases Nat.lt_or_ge (offset o e) (offset o a) with hord | hord
  · have h₁ := offset_between_of_lt hord
    rcases Nat.eq_zero_or_pos (offset o a) with h0 | h0
    · omega
    · have h₂ : offset a o = 2 ^ w - offset o a := by
        have hb := offset_between_of_lt (o := o) (a := o) (b := a) (by rw [offset_self]; exact h0)
        rw [hb, offset_self, Nat.sub_zero]
      omega
  · have h₁ := offset_between_of_le hord
    rcases Nat.eq_zero_or_pos (offset o a) with h0 | h0
    · have heq := offset_eq_zero.mp h0
      rw [heq, offset_self]
      omega
    · have h₂ : offset a o = 2 ^ w - offset o a := by
        have hb := offset_between_of_lt (o := o) (a := o) (b := a) (by rw [offset_self]; exact h0)
        rw [hb, offset_self, Nat.sub_zero]
      omega

end SerialNumbers
