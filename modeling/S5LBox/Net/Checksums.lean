import S5LBox.Lib.OnesComplement
import S5LBox.Net.Wire

/-!
# Checksums that verify

A field of sixteen bits in a buffer, and what it does to the sum of the words of the buffer. A
checksum that is computed with its field at zero and then written there verifies.

## Main definitions

* `netPut16`: a field is written into a buffer.
* `SameOff`: two buffers that differ at most at some places.

## Main results

* `netChecksum_verifies`, `netL4Checksum_verifies`.
-/

namespace S5LBox.Net

/-! ### Fields in a buffer -/

/-- `net_wr16`, into a buffer. -/
def netPut16 (p : List Byte) (k : Nat) (v : BitVec 16) : List Byte :=
  p.take k ++ netWr16 v ++ p.drop (k + 2)

section Put

variable {p : List Byte} {k : Nat} (v : BitVec 16)

theorem length_netPut16 (h : k + 2 ≤ p.length) : (netPut16 p k v).length = p.length := by
  rw [netPut16, List.length_append, List.length_append, List.length_take_of_le (by omega),
    length_netWr16, List.length_drop]
  omega

theorem getD_netPut16_of_lt {i : Nat} (h : k + 2 ≤ p.length) (hi : i < k) :
    (netPut16 p k v).getD i 0 = p.getD i 0 := by
  have hlen : (p.take k).length = k := List.length_take_of_le (by omega)
  simp only [netPut16, List.getD_eq_getElem?_getD, List.append_assoc]
  rw [List.getElem?_append_left (by omega), List.getElem?_take_of_lt hi]

theorem getD_netPut16_of_le {i : Nat} (h : k + 2 ≤ p.length) (hi : k + 2 ≤ i) :
    (netPut16 p k v).getD i 0 = p.getD i 0 := by
  have hlen : (p.take k ++ netWr16 v).length = k + 2 := by
    rw [List.length_append, List.length_take_of_le (by omega), length_netWr16]
  simp only [netPut16, List.getD_eq_getElem?_getD]
  rw [List.getElem?_append_right (by omega), hlen, List.getElem?_drop]
  congr 2
  omega

/-- The field is read back as it was written. -/
theorem netRd16_netPut16 (h : k + 2 ≤ p.length) : netRd16 (netPut16 p k v) k = v := by
  have hlen : (p.take k).length = k := List.length_take_of_le (by omega)
  have hget (i : Nat) (hi : i < 2) : (netPut16 p k v).getD (k + i) 0 = (netWr16 v).getD i 0 := by
    simp only [netPut16, List.getD_eq_getElem?_getD, List.append_assoc]
    rw [List.getElem?_append_right (by omega), hlen, Nat.add_sub_cancel_left,
      List.getElem?_append_left hi]
  have hfirst := hget 0 (by decide)
  rw [Nat.add_zero] at hfirst
  rw [netRd16, hget 1 (by decide), hfirst]
  change v.extractLsb' 8 8 ++ v.extractLsb' 0 8 = v
  ext i hi
  simp only [BitVec.getElem_append, BitVec.getElem_extractLsb']
  split_ifs <;> grind

/-- A field elsewhere is left as it was. -/
theorem netRd32_netPut16_of_ne {i : Nat} (h : k + 2 ≤ p.length) (hi : i + 4 ≤ k ∨ k + 2 ≤ i) :
    netRd32 (netPut16 p k v) i = netRd32 p i := by
  obtain hi | hi := hi
  · rw [netRd32, netRd32, getD_netPut16_of_lt v h (by omega), getD_netPut16_of_lt v h (by omega),
      getD_netPut16_of_lt v h (by omega), getD_netPut16_of_lt v h (by omega)]
  · rw [netRd32, netRd32, getD_netPut16_of_le v h hi, getD_netPut16_of_le v h (by omega),
      getD_netPut16_of_le v h (by omega), getD_netPut16_of_le v h (by omega)]

theorem take_netPut16 {n : Nat} (h : k + 2 ≤ n) (hn : n ≤ p.length) :
    (netPut16 p k v).take n = netPut16 (p.take n) k v := by
  have hlen : (p.take k ++ netWr16 v).length = k + 2 := by
    rw [List.length_append, List.length_take_of_le (by omega), length_netWr16]
  rw [netPut16, netPut16, List.take_append, hlen, List.take_of_length_le (by omega),
    List.take_take, min_eq_left (by omega), List.drop_take]

theorem take_netPut16_of_le {n : Nat} (hn : n ≤ k) (h : k ≤ p.length) :
    (netPut16 p k v).take n = p.take n := by
  rw [netPut16, List.append_assoc, List.take_append_of_le_length, List.take_take, min_eq_left hn]
  rw [List.length_take_of_le h]
  exact hn

theorem drop_netPut16 {n : Nat} (hn : n ≤ k) (h : k ≤ p.length) :
    (netPut16 p k v).drop n = netPut16 (p.drop n) (k - n) v := by
  rw [netPut16, netPut16, List.append_assoc, List.append_assoc, List.drop_append_of_le_length,
    List.drop_take, List.drop_drop]
  · congr 3
    omega
  · rw [List.length_take_of_le h]
    exact hn

theorem drop_netPut16_of_le {n : Nat} (hn : k + 2 ≤ n) (h : k + 2 ≤ p.length) :
    (netPut16 p k v).drop n = p.drop n := by
  have hlen : (p.take k ++ netWr16 v).length = k + 2 := by
    rw [List.length_append, List.length_take_of_le (by omega), length_netWr16]
  rw [netPut16, List.drop_append, hlen, List.drop_of_length_le (by omega), List.drop_drop,
    List.nil_append]
  congr 1
  omega

theorem netPut16_netPut16 (u : BitVec 16) (h : k + 2 ≤ p.length) :
    netPut16 (netPut16 p k u) k v = netPut16 p k v := by
  rw [netPut16, take_netPut16_of_le u le_rfl (by omega), drop_netPut16_of_le u le_rfl h, netPut16]

end Put

/-- Two buffers of one length that differ at most at the places of a list. -/
structure SameOff (ks : List Nat) (p q : List Byte) : Prop where
  length : q.length = p.length
  getD : ∀ i ∉ ks, q.getD i 0 = p.getD i 0

namespace SameOff

variable {ks ls : List Nat} {p q r : List Byte} {i : Nat}

theorem trans (h : SameOff ks p q) (h' : SameOff ls q r) : SameOff (ks ++ ls) p r where
  length := h'.length.trans h.length
  getD i hi := by
    rw [List.mem_append, not_or] at hi
    exact (h'.getD i hi.2).trans (h.getD i hi.1)

theorem netRd16 (h : SameOff ks p q) (hi : i ∉ ks) (hi' : i + 1 ∉ ks) :
    netRd16 q i = netRd16 p i := by
  rw [Net.netRd16, h.getD i hi, h.getD (i + 1) hi', Net.netRd16]

/-- Past the last of the places nothing differs. -/
theorem drop {n : Nat} (h : SameOff ks p q) (hn : ∀ k ∈ ks, k < n) : q.drop n = p.drop n := by
  apply List.ext_getElem?
  intro i
  have hi := h.getD (n + i) fun hmem => absurd (hn _ hmem) (by omega)
  have hlen := h.length
  rw [List.getElem?_drop, List.getElem?_drop]
  by_cases hlt : n + i < p.length
  · have hlt' : n + i < q.length := by omega
    rw [List.getD_eq_getElem?_getD, List.getD_eq_getElem?_getD, List.getElem?_eq_getElem hlt,
      List.getElem?_eq_getElem hlt', Option.getD_some, Option.getD_some] at hi
    rw [List.getElem?_eq_getElem hlt, List.getElem?_eq_getElem hlt', hi]
  · rw [List.getElem?_eq_none (by omega), List.getElem?_eq_none (by omega)]

end SameOff

theorem sameOff_netPut16 {p : List Byte} {k : Nat} (v : BitVec 16) (h : k + 2 ≤ p.length) :
    SameOff [k, k + 1] p (netPut16 p k v) where
  length := length_netPut16 v h
  getD i hi := by
    rw [List.mem_cons, List.mem_singleton, not_or] at hi
    by_cases hlt : i < k
    · exact getD_netPut16_of_lt v h hlt
    · exact getD_netPut16_of_le v h (by omega)

theorem sameOff_set (p : List Byte) (k : Nat) (b : Byte) : SameOff [k] p (p.set k b) where
  length := List.length_set
  getD i hi := by
    have hne : k ≠ i := fun heq => hi (List.mem_singleton.mpr heq.symm)
    rw [List.getD_eq_getElem?_getD, List.getElem?_set_ne hne, List.getD_eq_getElem?_getD]

/-! ### Sums -/

theorem wordSum_append {a : List Byte} (h : a.length % 2 = 0) (rest : List Byte) :
    wordSum (a ++ rest) = wordSum a + wordSum rest := by
  induction a using wordSum.induct with
  | case1 => exact (Nat.zero_add _).symm
  | case2 x => cases h
  | case3 x y a ih =>
    rw [List.length_cons, List.length_cons] at h
    rw [List.cons_append, List.cons_append, wordSum, ih (by omega), wordSum]
    exact (Nat.add_assoc _ _ _).symm

theorem wordSum_le (l : List Byte) : wordSum l ≤ 0xffff * ((l.length + 1) / 2) := by
  induction l using wordSum.induct with
  | case1 => exact Nat.zero_le _
  | case2 x =>
    have hx := x.isLt
    rw [wordSum, Nat.shiftLeft_eq, List.length_singleton]
    omega
  | case3 x y l ih =>
    have hx := x.isLt
    have hy := y.isLt
    rw [wordSum, Nat.shiftLeft_eq, List.length_cons, List.length_cons]
    omega

theorem wordSum_netWr16 (v : BitVec 16) : wordSum (netWr16 v) = v.toNat := by
  have hv := v.isLt
  change ((v.extractLsb' 8 8).toNat <<< 8 + (v.extractLsb' 0 8).toNat) + 0 = v.toNat
  rw [BitVec.extractLsb'_toNat, BitVec.extractLsb'_toNat, Nat.shiftLeft_eq,
    Nat.shiftRight_eq_div_pow, Nat.shiftRight_eq_div_pow]
  omega

theorem wordSum_netPut16 {p : List Byte} {k : Nat} (v : BitVec 16) (heven : k % 2 = 0)
    (h : k ≤ p.length) :
    wordSum (netPut16 p k v) = wordSum (p.take k) + v.toNat + wordSum (p.drop (k + 2)) := by
  have hlen : (p.take k).length = k := List.length_take_of_le h
  rw [netPut16, wordSum_append, wordSum_append, wordSum_netWr16]
  · rw [hlen]
    exact heven
  · rw [List.length_append, hlen, length_netWr16]
    omega

theorem foldCarry_eq (s : Nat) : foldCarry s = OnesComplement.turn 0x10000 s := by
  rw [foldCarry, OnesComplement.turn, Nat.shiftRight_eq_div_pow]
  congr 1
  exact Nat.and_two_pow_sub_one_eq_mod s 16

theorem foldSum_eq {s : Nat} (hs : s < 0x10000 * 0x10000) :
    (foldSum s).toNat = 0xffff - OnesComplement.digit 0x10000 s := by
  have hlt := OnesComplement.digit_lt (b := 0x10000) (by decide) hs
  rw [foldSum, foldCarry_eq, foldCarry_eq]
  change (~~~BitVec.ofNat 16 (OnesComplement.digit 0x10000 s)).toNat = _
  rw [BitVec.toNat_not, BitVec.toNat_ofNat, Nat.mod_eq_of_lt hlt]

/-- A sum with its checksum has a checksum of zero. -/
theorem foldSum_add {s : Nat} (hs : s < 0xffff0000) : foldSum (s + (foldSum s).toNat) = 0 := by
  have hsum := OnesComplement.digit_add_complement (b := 0x10000) (s := s) (by decide) (by omega)
  have hlt := (foldSum s).isLt
  apply BitVec.eq_of_toNat_eq
  rw [foldSum_eq (by omega), foldSum_eq (by omega)]
  change 0xffff -
    OnesComplement.digit 0x10000 (s + (0x10000 - 1 - OnesComplement.digit 0x10000 s)) = 0
  rw [hsum]

/-- The sum that a checksum is of, with the field apart. -/
theorem foldSum_verifies {p : List Byte} {k t : Nat} (heven : k % 2 = 0) (h : k + 2 ≤ p.length)
    (hbound : t + 0xffff * ((p.length + 1) / 2) < 0xffff0000) :
    foldSum (t + wordSum (netPut16 p k (foldSum (t + wordSum (netPut16 p k 0))))) = 0 := by
  have hzero : wordSum (netPut16 p k 0) = wordSum (p.take k) + wordSum (p.drop (k + 2)) :=
    wordSum_netPut16 0 heven (by omega)
  have hle := wordSum_le (netPut16 p k 0)
  rw [length_netPut16 0 h, hzero] at hle
  have hput := wordSum_netPut16 (p := p) (k := k)
    (foldSum (t + (wordSum (p.take k) + wordSum (p.drop (k + 2))))) heven (by omega)
  have hadd := foldSum_add (s := t + (wordSum (p.take k) + wordSum (p.drop (k + 2)))) (by omega)
  rw [hzero, hput, ← hadd]
  congr 1
  omega

/-- A checksum in its field verifies. -/
theorem netChecksum_verifies {p : List Byte} {k : Nat} (heven : k % 2 = 0) (h : k + 2 ≤ p.length)
    (hlen : p.length ≤ 0xffff) :
    netChecksum (netPut16 p k (netChecksum (netPut16 p k 0))) = 0 := by
  have hverify := foldSum_verifies (t := 0) heven h (by omega)
  rw [Nat.zero_add, Nat.zero_add] at hverify
  exact hverify

/-- So does one that covers a pseudo-header. -/
theorem netL4Checksum_verifies (src dst : Word) (proto : Nat) {p : List Byte} {k : Nat}
    (heven : k % 2 = 0) (h : k + 2 ≤ p.length) (hlen : p.length ≤ 0xffff) :
    netL4Checksum src dst proto
      (netPut16 p k (netL4Checksum src dst proto (netPut16 p k 0))) = 0 := by
  have htwelve : (pseudoHeader src dst proto p.length).length = 12 := rfl
  have hpseudo := wordSum_le (pseudoHeader src dst proto p.length)
  rw [htwelve] at hpseudo
  rw [netL4Checksum, netL4Checksum, length_netPut16 _ h, length_netPut16 _ h]
  exact foldSum_verifies heven h (by omega)

end S5LBox.Net
