import Mathlib.Data.BitVec

/-!
# Blocks of an address space

An address of `w` bits splits into the number of its `2 ^ k`-byte block, `va >>> k`, and an offset
below `2 ^ k`. Two addresses of one block agree on every bit from `k` up, so anything computed
from such bits alone is the same for both. An address glued together from a frame and the low
bits of another one, `(x &&& ~~~m) ||| (va &&& m)`, is recovered from any address of the block
and its offset.

## Main definitions

* `SameBlock k va va'`: the two addresses lie in one block.

## Main results

* `SameBlock.splice`: the glued address from the one of another address of the block.
-/

instance lawfulOctet : LawfulBEq (BitVec 8) := inferInstance

namespace Blocks

variable {w k n : Nat}

/-- The mask of the `n` low bits. -/
def lowMask (w n : Nat) : BitVec w := BitVec.ofNat w (2 ^ n - 1)

@[simp]
theorem getLsbD_lowMask (i : Nat) :
    (lowMask w n).getLsbD i = (decide (i < w) && decide (i < n)) := by
  simp [lowMask, BitVec.getLsbD_ofNat]

/-- The low part of a word is its remainder. -/
theorem toNat_and_lowMask (x : BitVec w) (h : n ≤ w) :
    (x &&& lowMask w n).toNat = x.toNat % 2 ^ n := by
  have hlt : 2 ^ n - 1 < 2 ^ w := by
    have hle := Nat.pow_le_pow_right (Nat.zero_lt_two) h
    have hpos := Nat.two_pow_pos n
    omega
  rw [BitVec.toNat_and, lowMask, BitVec.toNat_ofNat, Nat.mod_eq_of_lt hlt,
    Nat.and_two_pow_sub_one_eq_mod]

/-- The two addresses lie in one block of `2 ^ k` bytes. -/
def SameBlock (k : Nat) (va va' : BitVec w) : Prop := va >>> k = va' >>> k

namespace SameBlock

variable {va va' : BitVec w}

theorem symm (h : SameBlock k va va') : SameBlock k va' va := Eq.symm h

theorem shiftRight (h : SameBlock k va va') (hkn : k ≤ n) : va >>> n = va' >>> n := by
  obtain ⟨m, rfl⟩ := Nat.exists_eq_add_of_le hkn
  rw [BitVec.shiftRight_add, BitVec.shiftRight_add, h]

theorem getLsbD (h : SameBlock k va va') {i : Nat} (hi : k ≤ i) :
    va.getLsbD i = va'.getLsbD i := by
  have hbit := congrArg (fun x => BitVec.getLsbD x (i - k)) h
  simpa [BitVec.getLsbD_ushiftRight, Nat.add_sub_cancel' hi] using hbit

/-- A frame glued to the offset of an address: the frame part may be taken from the result for
any other address of the block. -/
theorem splice (h : SameBlock k va va') (hkn : k ≤ n) (x : BitVec w) :
    (((x &&& ~~~lowMask w n) ||| (va' &&& lowMask w n)) &&& ~~~lowMask w k) |||
        (va &&& lowMask w k) =
      (x &&& ~~~lowMask w n) ||| (va &&& lowMask w n) := by
  apply BitVec.eq_of_getLsbD_eq
  intro i hi
  simp only [BitVec.getLsbD_or, BitVec.getLsbD_and, BitVec.getLsbD_not, getLsbD_lowMask, hi,
    decide_true, Bool.true_and]
  by_cases hik : i < k
  · have hin : i < n := by omega
    simp [hik, hin]
  · simp [hik, h.getLsbD (Nat.le_of_not_lt hik)]

end SameBlock

/-! ### Fields selected by a mask -/

section Merge

variable (x y m : BitVec w)

theorem merge_and : ((x &&& ~~~m) ||| (y &&& m)) &&& m = y &&& m := by
  ext i hi
  simp only [BitVec.getElem_or, BitVec.getElem_and, BitVec.getElem_not]
  cases m[i] <;> simp

theorem merge_and_not : ((x &&& ~~~m) ||| (y &&& m)) &&& ~~~m = x &&& ~~~m := by
  ext i hi
  simp only [BitVec.getElem_or, BitVec.getElem_and, BitVec.getElem_not]
  cases m[i] <;> simp

theorem and_or_and_not : (x &&& m) ||| (x &&& ~~~m) = x := by
  ext i hi
  simp only [BitVec.getElem_or, BitVec.getElem_and, BitVec.getElem_not]
  cases m[i] <;> simp

variable {x y m} {k : BitVec w}

theorem or_and_of_disjoint (h : m &&& k = 0#w) : (x ||| m) &&& k = x &&& k := by
  rw [BitVec.and_or_distrib_right, h, BitVec.or_zero]

/-- Bits cleared outside of a field leave it as it is. -/
theorem and_not_and_of_disjoint (h : m &&& k = 0#w) : (x &&& ~~~m) &&& k = x &&& k := by
  ext i hi
  have hbit : (m &&& k)[i] = (0#w)[i] := by rw [h]
  rw [BitVec.getElem_and, BitVec.getElem_zero] at hbit
  simp only [BitVec.getElem_and, BitVec.getElem_not]
  cases hm : m[i] <;> cases hk : k[i] <;> simp_all

theorem merge_and_of_disjoint (h : m &&& k = 0#w) :
    ((x &&& ~~~m) ||| (y &&& m)) &&& k = x &&& k := by
  rw [BitVec.and_or_distrib_right, and_not_and_of_disjoint h, BitVec.and_assoc, h, BitVec.and_zero,
    BitVec.or_zero]

theorem and_part {v : BitVec w} (h : x &&& m = v) (hk : m &&& k = k) : x &&& k = v &&& k := by
  rw [← h, BitVec.and_assoc, hk]

end Merge

end Blocks
