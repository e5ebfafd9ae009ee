import Mathlib.Data.BitVec

/-!
# Check sequences

A cyclic redundancy check as a register of `w` bits that takes its octets low bit first: each bit
shifted out at the bottom that is one adds the polynomial to what is left. Shifting is linear in
exclusive or, and bits above the octet that goes out only move down. Together the two say what a
register does with its own octets: it ends where the all-zero octets would have taken the
difference, so that a register fed with the complement of its own octets ends in one value,
whatever it held before.

## Main definitions

* `shiftBits poly n c`: the register after `n` bits have gone out.
* `register poly c bs`: the register after a list of octets.
* `octets n d`: the `n` low octets of a word, the lowest first.

## Main results

* `register_octets`: a register fed with the octets of a word.
* `register_complement`: fed with the octets of its complement, it ends in the residue.
-/

namespace CheckSequence

variable {w : Nat} (poly : BitVec w)

/-- One bit goes out. -/
def shiftBit (c : BitVec w) : BitVec w :=
  if c.getLsbD 0 then c >>> 1 ^^^ poly else c >>> 1

/-- `n` bits go out, one after the other. -/
def shiftBits : Nat → BitVec w → BitVec w
  | 0, c => c
  | n + 1, c => shiftBits n (shiftBit poly c)

/-- One octet is taken in. -/
def takeOctet (c : BitVec w) (b : BitVec 8) : BitVec w :=
  shiftBits poly 8 (c ^^^ b.setWidth w)

/-- A list of octets is taken in. -/
def register (c : BitVec w) (bs : List (BitVec 8)) : BitVec w :=
  bs.foldl (takeOctet poly) c

@[simp]
theorem register_nil (c : BitVec w) : register poly c [] = c := rfl

@[simp]
theorem register_cons (c : BitVec w) (b : BitVec 8) (bs : List (BitVec 8)) :
    register poly c (b :: bs) = register poly (takeOctet poly c b) bs := rfl

theorem register_append (c : BitVec w) (as bs : List (BitVec 8)) :
    register poly c (as ++ bs) = register poly (register poly c as) bs :=
  List.foldl_append

/-! ### Shifting is linear -/

theorem shiftBit_xor (a b : BitVec w) :
    shiftBit poly (a ^^^ b) = shiftBit poly a ^^^ shiftBit poly b := by
  ext i hi
  by_cases ha : a.getLsbD 0 <;> by_cases hb : b.getLsbD 0 <;>
    simp [shiftBit, BitVec.getLsbD_xor, ha, hb, Bool.xor_comm, Bool.xor_left_comm]

theorem shiftBits_xor (n : Nat) (a b : BitVec w) :
    shiftBits poly n (a ^^^ b) = shiftBits poly n a ^^^ shiftBits poly n b := by
  induction n generalizing a b with
  | zero => rfl
  | succ n ih => simp only [shiftBits, shiftBit_xor, ih]

/-- Bits that have zeros below them only move down. -/
theorem shiftBits_high (n : Nat) (c : BitVec w) (h : ∀ i < n, c.getLsbD i = false) :
    shiftBits poly n c = c >>> n := by
  induction n generalizing c with
  | zero => simp [shiftBits]
  | succ n ih =>
    have hout : shiftBit poly c = c >>> 1 := by simp [shiftBit, h 0 (Nat.succ_pos n)]
    have hrest : ∀ i < n, (c >>> 1).getLsbD i = false := by
      intro i hi
      simpa [BitVec.getLsbD_ushiftRight] using h (1 + i) (by omega)
    rw [shiftBits, hout, ih _ hrest, ← BitVec.shiftRight_add, Nat.add_comm]

/-! ### A register and its own octets -/

/-- The `n` low octets of a word, the lowest first. -/
def octets : Nat → BitVec w → List (BitVec 8)
  | 0, _ => []
  | n + 1, d => d.setWidth 8 :: octets n (d >>> 8)

/-- The low octet of a word is in the register what it is in the word; the rest moves down. -/
theorem takeOctet_low (c d : BitVec w) :
    takeOctet poly (c ^^^ d) 0 = takeOctet poly c (d.setWidth 8) ^^^ d >>> 8 := by
  let low : BitVec w := (d.setWidth 8).setWidth w
  have hhigh : ∀ i < 8, (d ^^^ low).getLsbD i = false := by
    intro i hi
    by_cases hw : i < w
    · simp [low, hi, hw]
    · simp [BitVec.getLsbD_of_ge, Nat.le_of_not_lt hw]
  have hdown : (d ^^^ low) >>> 8 = d >>> 8 := by
    ext i hi
    simp [low, BitVec.getElem_ushiftRight, BitVec.getLsbD_setWidth]
  have hsplit : c ^^^ d = (c ^^^ low) ^^^ (d ^^^ low) := by
    rw [BitVec.xor_assoc, ← BitVec.xor_assoc low, BitVec.xor_comm low, BitVec.xor_assoc,
      BitVec.xor_self, BitVec.xor_zero]
  calc takeOctet poly (c ^^^ d) 0
      = shiftBits poly 8 (c ^^^ d) := by simp [takeOctet]
    _ = shiftBits poly 8 (c ^^^ low) ^^^ shiftBits poly 8 (d ^^^ low) := by
        rw [hsplit, shiftBits_xor]
    _ = takeOctet poly c (d.setWidth 8) ^^^ d >>> 8 := by
        rw [shiftBits_high poly 8 _ hhigh, hdown]; rfl

/-- A register fed with the octets of a word ends where zeros take its difference to the word. -/
theorem register_octets (n : Nat) (c d : BitVec w) (h : d >>> (8 * n) = 0) :
    register poly c (octets n d) = register poly (c ^^^ d) (List.replicate n 0) := by
  induction n generalizing c d with
  | zero =>
    have hd : d = 0 := by simpa using h
    simp [octets, hd]
  | succ n ih =>
    have hrest : (d >>> 8) >>> (8 * n) = 0 := by
      rw [← BitVec.shiftRight_add]
      rwa [Nat.mul_succ, Nat.add_comm] at h
    rw [octets, register_cons, ih _ _ hrest, List.replicate_succ, register_cons, takeOctet_low]

/-- Fed with the octets of its complement, a register ends in the residue, whatever it held. -/
theorem register_complement (n : Nat) (c : BitVec w) (h : w ≤ 8 * n) :
    register poly c (octets n (~~~c)) =
      register poly (BitVec.allOnes w) (List.replicate n 0) := by
  have hdone : (~~~c) >>> (8 * n) = 0 := by
    ext i hi
    rw [BitVec.getElem_ushiftRight, BitVec.getLsbD_of_ge _ _ (by omega)]
    simp
  rw [register_octets poly n c _ hdone, ← BitVec.xor_allOnes, ← BitVec.xor_assoc,
    BitVec.xor_self, BitVec.zero_xor]

end CheckSequence
