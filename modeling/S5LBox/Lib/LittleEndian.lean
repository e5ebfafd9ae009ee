import Mathlib.Data.List.Basic
import Mathlib.Tactic.Ring

/-!
# Numbers in little-endian order

A number is written as a fixed count of octets, the lowest first, and read back.

## Main results

* `decode_encode`: a number that fits is read back.
-/

namespace LittleEndian

/-- The lowest `k` octets of a number. -/
def encode : (k n : Nat) → List (BitVec 8)
  | 0, _ => []
  | k + 1, n => BitVec.ofNat 8 n :: encode k (n / 256)

/-- The number that a list of octets stands for. -/
def decode : List (BitVec 8) → Nat
  | [] => 0
  | b :: bs => b.toNat + 256 * decode bs

@[simp]
theorem length_encode (k n : Nat) : (encode k n).length = k := by
  induction k generalizing n with
  | zero => rfl
  | succ k ih => rw [encode, List.length_cons, ih]

theorem decode_lt (bs : List (BitVec 8)) : decode bs < 256 ^ bs.length := by
  induction bs with
  | nil => exact Nat.one_pos
  | cons b bs ih =>
    have hb := b.isLt
    rw [decode, List.length_cons, pow_succ]
    omega

theorem decode_encode_mod (k n : Nat) : decode (encode k n) = n % 256 ^ k := by
  induction k generalizing n with
  | zero => simp [encode, decode, Nat.mod_one]
  | succ k ih =>
    rw [encode, decode, ih, pow_succ', Nat.mod_mul, BitVec.toNat_ofNat]

theorem decode_encode {k n : Nat} (h : n < 256 ^ k) : decode (encode k n) = n := by
  rw [decode_encode_mod, Nat.mod_eq_of_lt h]

/-- Octets are those of the number that they stand for. -/
theorem encode_decode (bs : List (BitVec 8)) : encode bs.length (decode bs) = bs := by
  induction bs with
  | nil => rfl
  | cons b bs ih =>
    have hlow : BitVec.ofNat 8 (b.toNat + 256 * decode bs) = b := by
      refine BitVec.eq_of_toNat_eq ?_
      have hb := b.isLt
      rw [BitVec.toNat_ofNat]
      omega
    have hhigh : (b.toNat + 256 * decode bs) / 256 = decode bs := by
      have hb := b.isLt
      omega
    rw [List.length_cons, encode, decode, hlow, hhigh, ih]

/-- A number in front of a list. -/
theorem encode_decode_take {k : Nat} {l : List (BitVec 8)} (h : k ≤ l.length) :
    encode k (decode (l.take k)) ++ l.drop k = l := by
  have hlen : (l.take k).length = k := List.length_take_of_le h
  have hfront := encode_decode (l.take k)
  rw [hlen] at hfront
  rw [hfront, List.take_append_drop]

theorem decode_take_lt (k : Nat) (l : List (BitVec 8)) : decode (l.take k) < 256 ^ k := by
  have hlen : (l.take k).length ≤ k := List.length_take_le ..
  exact lt_of_lt_of_le (decode_lt _) (Nat.pow_le_pow_right (by decide) hlen)

theorem decode_take_encode {k n : Nat} (h : n < 256 ^ k) (rest : List (BitVec 8)) :
    decode ((encode k n ++ rest).take k) = n := by
  rw [List.take_left' (length_encode k n), decode_encode h]

/-- The octets of a number in two pieces. -/
theorem encode_add (a b n : Nat) : encode (a + b) n = encode a n ++ encode b (n / 256 ^ a) := by
  induction a generalizing n with
  | zero => rw [Nat.zero_add, Nat.pow_zero, Nat.div_one, encode, List.nil_append]
  | succ a ih =>
    rw [Nat.succ_add, encode, encode, ih, List.cons_append, Nat.div_div_eq_div_mul, Nat.pow_succ',
      Nat.mul_comm]

/-- The octets of a number are those of its remainder. -/
theorem encode_mod (k n : Nat) : encode k (n % 256 ^ k) = encode k n := by
  induction k generalizing n with
  | zero => rfl
  | succ k ih =>
    have hhigh : n % 256 ^ (k + 1) / 256 = n / 256 % 256 ^ k := by
      rw [Nat.pow_succ', Nat.mod_mul_right_div_self]
    have hlow : n % 256 ^ (k + 1) % 256 = n % 256 := by
      rw [Nat.pow_succ', Nat.mod_mul_right_mod]
    rw [encode, encode, hhigh, ih]
    congr 1
    apply BitVec.eq_of_toNat_eq
    rw [BitVec.toNat_ofNat, BitVec.toNat_ofNat]
    exact hlow

theorem encode_append {a x : Nat} (b y : Nat) (h : x < 256 ^ a) :
    encode (a + b) (x + 256 ^ a * y) = encode a x ++ encode b y := by
  rw [encode_add, ← encode_mod a (x + _), Nat.add_mul_mod_self_left, Nat.mod_eq_of_lt h,
    Nat.add_mul_div_left _ _ (Nat.pow_pos (by decide)), Nat.div_eq_of_lt h, Nat.zero_add]

end LittleEndian
