import Mathlib.Data.List.GetD
import Mathlib.Tactic.Ring

/-!
# Octets at offsets

Numbers in big-endian order at an offset of a buffer, and what a write leaves of them.

## Main definitions

* `get16`, `get32`: the numbers at an offset.
* `put`: octets written over a buffer.

## Main results

* `slice_put_before`, `slice_put_self`: what is read before a write, and where it was.
-/

namespace Octets

/-- Buffers of octets. -/
abbrev Buffer := List (BitVec 8)

/-- The octet at an offset. -/
def at8 (b : Buffer) (o : Nat) : Nat := (b.getD o 0).toNat

/-- The number of two octets at an offset. -/
def get16 (b : Buffer) (o : Nat) : Nat := at8 b o * 256 + at8 b (o + 1)

/-- The number of four octets at an offset. -/
def get32 (b : Buffer) (o : Nat) : Nat := get16 b o * 65536 + get16 b (o + 2)

/-- Octets written over a buffer from an offset on. -/
def put (b : Buffer) (o : Nat) (bytes : Buffer) : Buffer :=
  b.take o ++ bytes ++ b.drop (o + bytes.length)

/-- A number as two octets. -/
def bytes16 (n : Nat) : Buffer := [BitVec.ofNat 8 (n / 256), BitVec.ofNat 8 n]

/-- A number as four octets. -/
def bytes32 (n : Nat) : Buffer := bytes16 (n / 65536) ++ bytes16 n

variable {b b' bytes : Buffer} {n o p : Nat}

theorem at8_lt (b : Buffer) (o : Nat) : at8 b o < 256 := (b.getD o 0).isLt

theorem get16_lt (b : Buffer) (o : Nat) : get16 b o < 65536 := by
  have h₁ := at8_lt b o
  have h₂ := at8_lt b (o + 1)
  rw [get16]
  omega

theorem get32_lt (b : Buffer) (o : Nat) : get32 b o < 4294967296 := by
  have h₁ := get16_lt b o
  have h₂ := get16_lt b (o + 2)
  rw [get32]
  omega

theorem length_bytes32 (n : Nat) : (bytes32 n).length = 4 := rfl

/-! ### Writing -/

theorem length_put (h : o + bytes.length ≤ b.length) : (put b o bytes).length = b.length := by
  rw [put, List.length_append, List.length_append, List.length_take, List.length_drop]
  omega

theorem slice_put_before {n : Nat} (h : o + bytes.length ≤ b.length) (hp : p + n ≤ o) :
    ((put b o bytes).drop p).take n = (b.drop p).take n := by
  have htake : (b.take o).length = o := List.length_take_of_le (by omega)
  rw [put, List.append_assoc, List.drop_append_of_le_length (by omega),
    List.take_append_of_le_length (by rw [List.length_drop]; omega), List.drop_take, List.take_take,
    Nat.min_eq_left (by omega)]

theorem slice_put_self (h : o + bytes.length ≤ b.length) :
    ((put b o bytes).drop o).take bytes.length = bytes := by
  rw [put, List.append_assoc, List.drop_left' (List.length_take_of_le (by omega)),
    List.take_left]

/-! ### Buffers that agree in part -/

theorem get16_congr (h : at8 b o = at8 b' o) (h' : at8 b (o + 1) = at8 b' (o + 1)) :
    get16 b o = get16 b' o := by
  rw [get16, get16, h, h']

theorem get32_congr (h : ∀ i, o ≤ i → i < o + 4 → at8 b i = at8 b' i) :
    get32 b o = get32 b' o := by
  rw [get32, get32, get16_congr (h o (by omega) (by omega)) (h (o + 1) (by omega) (by omega)),
    get16_congr (h (o + 2) (by omega) (by omega)) (h (o + 2 + 1) (by omega) (by omega))]

end Octets
