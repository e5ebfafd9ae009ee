import Mathlib.Data.List.GetD
import S5LBox.Lib.Bits

/-!
# Base64

The encoding of octets in letters of an alphabet of 64. Three octets make a quantum of four letters,
and a last quantum of one or two octets is filled up with a padding letter; the bits of its last
letter that stand for no octet are zero.

## Main definitions

* `encode`, `decode`: the encoding, and its partial inverse.

## Main results

* `decode_eq_some_iff`: what decodes is an encoding, and decodes to what it encodes.
* `take_encode`: a prefix of whole quanta encodes a prefix.
-/

namespace Base64

/-! ### Letters -/

/-- The letters, in order: the capitals, the small letters, the figures, `+` and `/`. -/
def alphabet : List (BitVec 8) :=
  (List.range 26).map (fun i => BitVec.ofNat 8 (65 + i)) ++
  (List.range 26).map (fun i => BitVec.ofNat 8 (97 + i)) ++
  (List.range 10).map (fun i => BitVec.ofNat 8 (48 + i)) ++ [43, 47]

/-- The padding letter. -/
def pad : BitVec 8 := 61

/-- The letter for six bits. -/
def letter (d : Nat) : BitVec 8 := alphabet.getD d 0

/-- The six bits that a letter stands for. -/
def value (c : BitVec 8) : Option Nat :=
  if c ∈ alphabet then some (alphabet.idxOf c) else none

theorem value_letter {d : Nat} (h : d < 64) : value (letter d) = some d := by
  have hall : ∀ d : Fin 64, value (letter d) = some d.val := by decide +kernel
  exact hall ⟨d, h⟩

theorem letter_of_value {c : BitVec 8} {d : Nat} (h : value c = some d) : d < 64 ∧ letter d = c := by
  have hlength : alphabet.length = 64 := by decide
  unfold value at h
  split at h
  case isFalse => cases h
  case isTrue hmem =>
    obtain rfl := Option.some.inj h
    have hlt := List.idxOf_lt_length_iff.mpr hmem
    refine ⟨by rwa [hlength] at hlt, ?_⟩
    rw [letter, List.getD_eq_getElem _ _ hlt]
    exact List.getElem_idxOf hlt

theorem value_pad : value pad = none := by decide

/-! ### Quanta -/

/-- The letters of 24 bits. -/
def letters (v : Nat) : List (BitVec 8) :=
  [letter (v / 2 ^ 18 % 64), letter (v / 2 ^ 12 % 64), letter (v / 2 ^ 6 % 64), letter (v % 64)]

/-- The 24 bits of four letters' values. -/
def bits (d₀ d₁ d₂ d₃ : Nat) : Nat := d₀ * 2 ^ 18 + d₁ * 2 ^ 12 + d₂ * 2 ^ 6 + d₃

/-- The octets of 24 bits. -/
def octets (v : Nat) : List (BitVec 8) :=
  [BitVec.ofNat 8 (v / 2 ^ 16), BitVec.ofNat 8 (v / 2 ^ 8), BitVec.ofNat 8 v]

/-- The 24 bits of three octets. -/
def join (a b c : BitVec 8) : Nat := a.toNat * 2 ^ 16 + b.toNat * 2 ^ 8 + c.toNat

theorem octets_join (a b c : BitVec 8) : octets (join a b c) = [a, b, c] := by
  have ha := a.isLt
  have hb := b.isLt
  have hc := c.isLt
  have hhigh : (join a b c) / 2 ^ 16 = a.toNat := by
    unfold join
    omega
  have hmid : (join a b c) / 2 ^ 8 % 2 ^ 8 = b.toNat := by
    unfold join
    omega
  have hlow : join a b c % 2 ^ 8 = c.toNat := by
    unfold join
    omega
  refine congr (congrArg _ ?_) (congr (congrArg _ ?_) (congr (congrArg _ ?_) rfl))
  · rw [hhigh, BitVec.ofNat_toNat, BitVec.setWidth_eq]
  · refine BitVec.eq_of_toNat_eq ?_
    rw [BitVec.toNat_ofNat, hmid]
  · refine BitVec.eq_of_toNat_eq ?_
    rw [BitVec.toNat_ofNat, hlow]

theorem letters_bits {d₀ d₁ d₂ d₃ : Nat} (h₀ : d₀ < 64) (h₁ : d₁ < 64) (h₂ : d₂ < 64)
    (h₃ : d₃ < 64) :
    letters (bits d₀ d₁ d₂ d₃) = [letter d₀, letter d₁, letter d₂, letter d₃] := by
  have e₀ : bits d₀ d₁ d₂ d₃ / 2 ^ 18 % 64 = d₀ := by
    unfold bits
    omega
  have e₁ : bits d₀ d₁ d₂ d₃ / 2 ^ 12 % 64 = d₁ := by
    unfold bits
    omega
  have e₂ : bits d₀ d₁ d₂ d₃ / 2 ^ 6 % 64 = d₂ := by
    unfold bits
    omega
  have e₃ : bits d₀ d₁ d₂ d₃ % 64 = d₃ := by
    unfold bits
    omega
  rw [letters, e₀, e₁, e₂, e₃]

theorem bits_letters {v : Nat} (h : v < 2 ^ 24) :
    bits (v / 2 ^ 18 % 64) (v / 2 ^ 12 % 64) (v / 2 ^ 6 % 64) (v % 64) = v := by
  unfold bits
  omega

theorem bits_lt {d₀ d₁ d₂ d₃ : Nat} (h₀ : d₀ < 64) (h₁ : d₁ < 64) (h₂ : d₂ < 64)
    (h₃ : d₃ < 64) : bits d₀ d₁ d₂ d₃ < 2 ^ 24 := by
  unfold bits
  omega

theorem join_lt (a b c : BitVec 8) : join a b c < 2 ^ 24 := by
  have ha := a.isLt
  have hb := b.isLt
  have hc := c.isLt
  unfold join
  omega

theorem join_octets {v : Nat} (h : v < 2 ^ 24) :
    join (BitVec.ofNat 8 (v / 2 ^ 16)) (BitVec.ofNat 8 (v / 2 ^ 8)) (BitVec.ofNat 8 v) = v := by
  rw [join, BitVec.toNat_ofNat, BitVec.toNat_ofNat, BitVec.toNat_ofNat]
  omega

/-! ### The encoding -/

/-- The encoding of octets. -/
def encode : List (BitVec 8) → List (BitVec 8)
  | [] => []
  | [a] => (letters (join a 0 0)).take 2 ++ [pad, pad]
  | [a, b] => (letters (join a b 0)).take 3 ++ [pad]
  | a :: b :: c :: s => letters (join a b c) ++ encode s

/-- The octets that letters encode. -/
def decode : List (BitVec 8) → Option (List (BitVec 8))
  | [] => some []
  | c₀ :: c₁ :: c₂ :: c₃ :: rest =>
    match value c₀, value c₁, value c₂, value c₃ with
    | some d₀, some d₁, some d₂, some d₃ => (octets (bits d₀ d₁ d₂ d₃) ++ ·) <$> decode rest
    | some d₀, some d₁, some d₂, none =>
      if c₃ = pad ∧ rest = [] ∧ d₂ % 4 = 0 then some ((octets (bits d₀ d₁ d₂ 0)).take 2) else none
    | some d₀, some d₁, none, none =>
      if c₂ = pad ∧ c₃ = pad ∧ rest = [] ∧ d₁ % 16 = 0 then
        some ((octets (bits d₀ d₁ 0 0)).take 1)
      else none
    | _, _, _, _ => none
  | _ => none

theorem decode_encode (s : List (BitVec 8)) : decode (encode s) = some s := by
  have hlt (n : Nat) : n % 64 < 64 := Nat.mod_lt _ (by decide)
  have hzero : (0 : BitVec 8).toNat = 0 := rfl
  fun_induction encode s with
  | case1 => rfl
  | case2 a =>
    have hlow : join a 0 0 / 2 ^ 12 % 64 % 16 = 0 := by
      rw [join, hzero]
      omega
    have hbits : bits (join a 0 0 / 2 ^ 18 % 64) (join a 0 0 / 2 ^ 12 % 64) 0 0 = join a 0 0 := by
      rw [join, hzero, bits]
      have ha := a.isLt
      omega
    simp only [letters, List.take_succ_cons, List.take_zero, List.cons_append, List.nil_append,
      decode, value_letter (hlt _), value_pad, hlow, and_self, if_true, hbits, octets_join]
  | case3 a b =>
    have hlow : join a b 0 / 2 ^ 6 % 64 % 4 = 0 := by
      rw [join, hzero]
      omega
    have hbits : bits (join a b 0 / 2 ^ 18 % 64) (join a b 0 / 2 ^ 12 % 64)
        (join a b 0 / 2 ^ 6 % 64) 0 = join a b 0 := by
      rw [join, hzero, bits]
      have ha := a.isLt
      have hb := b.isLt
      omega
    simp only [letters, List.take_succ_cons, List.take_zero, List.cons_append, List.nil_append,
      decode, value_letter (hlt _), value_pad, hlow, and_self, if_true, hbits, octets_join]
  | case4 a b c s ih =>
    simp only [letters, List.cons_append, List.nil_append, decode, value_letter (hlt _), ih,
      bits_letters (join_lt a b c), octets_join]
    rfl

/-- What decodes is an encoding. -/
theorem encode_of_decode {cs s : List (BitVec 8)} (h : decode cs = some s) : encode s = cs := by
  have hzero {n : Nat} (h : n % 2 ^ 8 = 0) : BitVec.ofNat 8 n = 0 :=
    BitVec.eq_of_toNat_eq (by rw [BitVec.toNat_ofNat, h]; rfl)
  fun_induction decode cs generalizing s with
  | case1 =>
    obtain rfl := Option.some.inj h
    rfl
  | case2 c₀ c₁ c₂ c₃ rest d₀ d₁ d₂ d₃ h₃ h₂ h₁ h₀ ih =>
    obtain ⟨t, ht, rfl⟩ := Option.map_eq_some_iff.mp h
    obtain ⟨hlt₀, rfl⟩ := letter_of_value h₀
    obtain ⟨hlt₁, rfl⟩ := letter_of_value h₁
    obtain ⟨hlt₂, rfl⟩ := letter_of_value h₂
    obtain ⟨hlt₃, rfl⟩ := letter_of_value h₃
    have hjoin := join_octets (bits_lt hlt₀ hlt₁ hlt₂ hlt₃)
    rw [octets, List.cons_append, List.cons_append, List.cons_append, List.nil_append, encode, hjoin,
      letters_bits hlt₀ hlt₁ hlt₂ hlt₃, ih ht]
    rfl
  | case3 c₀ c₁ c₂ c₃ rest d₀ d₁ d₂ h₃ h₂ h₁ h₀ htail =>
    obtain ⟨rfl, rfl, hlow⟩ := htail
    obtain rfl := Option.some.inj h
    obtain ⟨hlt₀, rfl⟩ := letter_of_value h₀
    obtain ⟨hlt₁, rfl⟩ := letter_of_value h₁
    obtain ⟨hlt₂, rfl⟩ := letter_of_value h₂
    have hjoin := join_octets (bits_lt hlt₀ hlt₁ hlt₂ (Nat.zero_lt_succ 63))
    have hlast : BitVec.ofNat 8 (bits d₀ d₁ d₂ 0) = 0 := by
      refine hzero ?_
      unfold bits
      omega
    rw [hlast] at hjoin
    change (letters (join _ _ 0)).take 3 ++ [pad] = _
    rw [hjoin, letters_bits hlt₀ hlt₁ hlt₂ (Nat.zero_lt_succ 63)]
    rfl
  | case5 c₀ c₁ c₂ c₃ rest d₀ d₁ h₃ h₂ h₁ h₀ htail =>
    obtain ⟨rfl, rfl, rfl, hlow⟩ := htail
    obtain rfl := Option.some.inj h
    obtain ⟨hlt₀, rfl⟩ := letter_of_value h₀
    obtain ⟨hlt₁, rfl⟩ := letter_of_value h₁
    have hjoin := join_octets
      (bits_lt hlt₀ hlt₁ (Nat.zero_lt_succ 63) (Nat.zero_lt_succ 63))
    have hmid : BitVec.ofNat 8 (bits d₀ d₁ 0 0 / 2 ^ 8) = 0 := by
      refine hzero ?_
      unfold bits
      omega
    have hlast : BitVec.ofNat 8 (bits d₀ d₁ 0 0) = 0 := by
      refine hzero ?_
      unfold bits
      omega
    rw [hmid, hlast] at hjoin
    change (letters (join _ 0 0)).take 2 ++ [pad, pad] = _
    rw [hjoin, letters_bits hlt₀ hlt₁ (Nat.zero_lt_succ 63) (Nat.zero_lt_succ 63)]
    rfl
  | case4 => cases h
  | case6 => cases h
  | case7 => cases h
  | case8 => cases h

/-- Letters decode exactly to what they encode. -/
theorem decode_eq_some_iff {cs s : List (BitVec 8)} : decode cs = some s ↔ cs = encode s := by
  constructor
  · exact fun h => (encode_of_decode h).symm
  · rintro rfl
    exact decode_encode s

/-! ### Prefixes -/

theorem length_encode (s : List (BitVec 8)) : (encode s).length = 4 * ((s.length + 2) / 3) := by
  fun_induction encode s with
  | case1 => rfl
  | case2 a => simp [letters]
  | case3 a b => simp [letters]
  | case4 a b c s ih =>
    rw [List.length_append, ih, letters]
    simp only [List.length_cons, List.length_nil]
    omega

/-- The letters of the first quanta encode the octets of these. -/
theorem take_encode (k : Nat) (s : List (BitVec 8)) :
    (encode s).take (4 * k) = encode (s.take (3 * k)) := by
  induction k generalizing s with
  | zero => rfl
  | succ k ih =>
    have hfour : 4 * (k + 1) = 4 * k + 4 := rfl
    have hthree : 3 * (k + 1) = 3 * k + 3 := rfl
    have hshort (s : List (BitVec 8)) (h : s.length ≤ 3) :
        (encode s).take (4 * k + 4) = encode (s.take (3 * k + 3)) := by
      rw [List.take_of_length_le (show s.length ≤ 3 * k + 3 by omega)]
      refine List.take_of_length_le ?_
      rw [length_encode]
      omega
    rw [hfour, hthree]
    cases s with
    | nil => rfl
    | cons a s =>
      cases s with
      | nil => exact hshort [a] (show 1 ≤ 3 by decide)
      | cons b s =>
        cases s with
        | nil => exact hshort [a, b] (show 2 ≤ 3 by decide)
        | cons c s =>
          simp only [List.take_succ_cons, encode, letters, List.cons_append, List.nil_append]
          rw [ih]

end Base64
