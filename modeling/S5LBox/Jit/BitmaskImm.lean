import S5LBox.Lib.BitRuns
import S5LBox.Lib.SingleBit

/-!
# Logical immediates

`a64_emit.c` encodes the constants that the logical instructions of the target take. A constant is
looked at in elements, each half of the one before, as long as it repeats; what is left is to be one
run of ones, which may go round the end of the element. The encoding packs the size of the element
and the length of the run into one field, and the rotation into another.

## Main definitions

* `a64BitmaskImm`: the encoder.
* `decodeBitMasks`, `decodeLogicalImm`: what the target makes of an encoding.
* `LogicalImmediate`: the constants that there is an encoding for.

## Main results

* `isSome_a64BitmaskImm`: the encoder finds one for exactly these.
* `decode_a64BitmaskImm`: and the target reads the constant from it.
-/

namespace S5LBox.Jit

open BitRuns SingleBit

/-! ### The encoder -/

/-- `is_mask`. -/
def isMask (v : BitVec 64) : Bool := v ≠ 0#64 && (v + 1#64) &&& v == 0#64

/-- `is_shifted_mask`. -/
def isShiftedMask (v : BitVec 64) : Bool := v ≠ 0#64 && isMask ((v - 1#64) ||| v)

theorem and_one_eq_zero (v : BitVec 64) : v &&& 1#64 = 0#64 ↔ v.getLsbD 0 = false :=
  and_twoPow_eq_zero v (by decide : 0 < 64)

theorem toNat_shiftRight (v : BitVec 64) : (v >>> 1).toNat = v.toNat / 2 := by
  rw [BitVec.toNat_ushiftRight, Nat.shiftRight_eq_div_pow, Nat.pow_one]

theorem toNat_pos {v : BitVec 64} (hv : v ≠ 0#64) : 0 < v.toNat :=
  Nat.pos_of_ne_zero fun h => hv (BitVec.eq_of_toNat_eq h)

theorem shiftRight_ne_zero {v : BitVec 64} (hv : v ≠ 0#64) (hlow : v &&& 1#64 = 0#64) :
    v >>> 1 ≠ 0#64 := by
  intro h
  have hpos := toNat_pos hv
  have hhalf := congrArg BitVec.toNat h
  rw [toNat_shiftRight, BitVec.toNat_ofNat] at hhalf
  rw [and_one_eq_zero, ← BitVec.testBit_toNat, Nat.testBit_zero, decide_eq_false_iff_not] at hlow
  omega

theorem toNat_shiftRight_lt {v : BitVec 64} (hv : v ≠ 0#64) : (v >>> 1).toNat < v.toNat := by
  rw [toNat_shiftRight]
  exact Nat.div_lt_self (toNat_pos hv) (by decide)

theorem toNat_shiftLeft_lt {v : BitVec 64} (hv : v >>> 63 ≠ 0#64) :
    (v <<< 1).toNat < v.toNat := by
  have hhigh : v.toNat / 2 ^ 63 ≠ 0 := fun h => hv <| BitVec.eq_of_toNat_eq <| by
    rw [BitVec.toNat_ushiftRight, Nat.shiftRight_eq_div_pow, h, BitVec.toNat_ofNat]
  have hlt := v.isLt
  rw [BitVec.toNat_shiftLeft, Nat.shiftLeft_eq]
  omega

/-- `ctz64`, whose loop ends at a one. -/
def ctz64 (v : BitVec 64) (hv : v ≠ 0#64) : Nat :=
  if h : v &&& 1#64 = 0#64 then ctz64 (v >>> 1) (shiftRight_ne_zero hv h) + 1 else 0
termination_by v.toNat
decreasing_by exact toNat_shiftRight_lt hv

/-- `cto64`. -/
def cto64 (v : BitVec 64) : Nat :=
  if h : v &&& 1#64 ≠ 0#64 then cto64 (v >>> 1) + 1 else 0
termination_by v.toNat
decreasing_by
  refine toNat_shiftRight_lt fun hv => h ?_
  rw [hv, BitVec.zero_and]

/-- `clo64`. -/
def clo64 (v : BitVec 64) : Nat :=
  if h : v >>> 63 ≠ 0#64 then clo64 (v <<< 1) + 1 else 0
termination_by v.toNat
decreasing_by exact toNat_shiftLeft_lt h

/-- The lowest bits of a word, as many as an element has. -/
def elementMask (size : Nat) : BitVec 64 :=
  if size = 64 then ~~~0#64 else (1#64 <<< size) - 1#64

/-- The size of the smallest element that the constant repeats. -/
def elementSize (imm : BitVec 64) (size : Nat) : Nat :=
  let half := size / 2
  if imm &&& elementMask half ≠ (imm >>> half) &&& elementMask half then half * 2
  else if half > 2 then elementSize imm half else half
termination_by size
decreasing_by omega

/-- Where the run of an element ends its low part, and the length of the run. -/
def findRun (size : Nat) (imm : BitVec 64) : Option (Nat × Nat) :=
  if h : isShiftedMask imm then
    let i := ctz64 imm (by rintro rfl; exact Bool.noConfusion h)
    some (i, cto64 (imm >>> i))
  else
    let imm := imm ||| ~~~elementMask size
    if isShiftedMask (~~~imm) then
      let clo := clo64 imm
      some (64 - clo, clo + cto64 imm - (64 - size))
    else none

/-- The fields of an encoding, put together. A register of 32 bits has no element of 64. -/
def packImm (sf : Bool) (size i cto : Nat) : Option Nat :=
  let immr := (size - i) % size
  let nimms := (~~~BitVec.ofNat 64 (size - 1)) <<< 1 ||| BitVec.ofNat 64 (cto - 1)
  let n := (nimms >>> 6 &&& 1#64).toNat ^^^ 1
  if sf = false ∧ n ≠ 0 then none
  else some (n <<< 12 ||| immr <<< 6 ||| (nimms &&& 0x3f#64).toNat)

/-- The width of a register, `regsize`. -/
def regsize (sf : Bool) : Nat := if sf then 64 else 32

/-- The encoding of a constant that is neither only zeros nor only ones. -/
def encodeImm (sf : Bool) (imm : BitVec 64) : Option Nat :=
  let size := elementSize imm (regsize sf)
  match findRun size (imm &&& elementMask size) with
  | none => none
  | some (i, cto) => packImm sf size i cto

/-- `a64_bitmask_imm`: the encoding. -/
def a64BitmaskImm (sf : Bool) (value : BitVec 64) : Option Nat :=
  let imm := if regsize sf ≠ 64 then value &&& 0xffffffff#64 else value
  if regsize sf ≠ 64 ∧ value >>> 32 ≠ 0#64 then none
  else if imm = 0#64 then none
  else if (if regsize sf = 64 then imm = ~~~0#64 else imm = 0xffffffff#64) then none
  else encodeImm sf imm

/-! ### What the target makes of it -/

/-- `DecodeBitMasks`, for an immediate and a register of `m` bits. -/
def decodeBitMasks (immN imms immr m : Nat) : Option Nat :=
  let combined := immN <<< 6 ||| (63 - imms)
  let len := Nat.log2 combined
  if combined = 0 ∨ len < 1 then none
  else
    let levels := 2 ^ len - 1
    if imms &&& levels = levels then none
    else
      let s := imms &&& levels
      let r := immr &&& levels
      some (repeated (2 ^ len) (rotate (2 ^ len) (2 ^ (s + 1) - 1) r) (m / 2 ^ len))

/-- The immediate of a logical instruction, of 64 bits where `sf`. -/
def decodeLogicalImm (sf : Bool) (enc : Nat) : Option Nat :=
  if sf = false ∧ enc >>> 12 &&& 1 ≠ 0 then none
  else decodeBitMasks (enc >>> 12 &&& 1) (enc &&& 63) (enc >>> 6 &&& 63) (regsize sf)

/-- A run of ones, rotated in its element, and the element repeated: neither only zeros nor only
ones. -/
def LogicalImmediate (m v : Nat) : Prop :=
  ∃ n ∈ [2, 4, 8, 16, 32, 64], n ≤ m ∧ ∃ k ≤ n, ∃ r < n,
    v = repeated n (rotate n (2 ^ k - 1) r) (m / n) ∧ v ≠ 0 ∧ v ≠ 2 ^ m - 1

/-! ### Counting -/

variable {v imm : BitVec 64} {a c size i : Nat}

theorem ctz64_eq (hv : v ≠ 0#64) (hset : v.getLsbD a = true)
    (hbelow : ∀ i < a, v.getLsbD i = false) : ctz64 v hv = a := by
  induction a generalizing v with
  | zero =>
    have hlow : ¬v &&& 1#64 = 0#64 := by
      rw [and_one_eq_zero, hset]
      exact nofun
    rw [ctz64, dif_neg hlow]
  | succ a ih =>
    have hlow : v &&& 1#64 = 0#64 := (and_one_eq_zero v).mpr (hbelow 0 (Nat.succ_pos a))
    rw [ctz64, dif_pos hlow, ih]
    · rwa [BitVec.getLsbD_ushiftRight, Nat.add_comm]
    · intro i hi
      rw [BitVec.getLsbD_ushiftRight, Nat.add_comm]
      exact hbelow (i + 1) (Nat.succ_lt_succ hi)

theorem cto64_eq (hclear : v.getLsbD c = false) (hbelow : ∀ i < c, v.getLsbD i = true) :
    cto64 v = c := by
  induction c generalizing v with
  | zero =>
    have hlow : ¬v &&& 1#64 ≠ 0#64 := not_not.mpr ((and_one_eq_zero v).mpr hclear)
    rw [cto64, dif_neg hlow]
  | succ c ih =>
    have hlow : v &&& 1#64 ≠ 0#64 := by
      rw [ne_eq, and_one_eq_zero, hbelow 0 (Nat.succ_pos c)]
      exact nofun
    rw [cto64, dif_pos hlow, ih]
    · rwa [BitVec.getLsbD_ushiftRight, Nat.add_comm]
    · intro i hi
      rw [BitVec.getLsbD_ushiftRight, Nat.add_comm]
      exact hbelow (i + 1) (Nat.succ_lt_succ hi)

theorem shiftRight_top_eq_zero (v : BitVec 64) : v >>> 63 = 0#64 ↔ v.getMsbD 0 = false := by
  constructor
  · intro h
    have hbit := congrArg (BitVec.getLsbD · 0) h
    simpa [BitVec.getMsbD] using hbit
  · intro h
    refine BitVec.eq_of_getLsbD_eq fun i hi => ?_
    rw [BitVec.getLsbD_ushiftRight, BitVec.getLsbD_zero]
    by_cases hzero : i = 0
    · rw [hzero]
      simpa [BitVec.getMsbD] using h
    · exact BitVec.getLsbD_of_ge v _ (by omega)

theorem clo64_eq (hclear : v.getMsbD c = false) (habove : ∀ i < c, v.getMsbD i = true) :
    clo64 v = c := by
  induction c generalizing v with
  | zero =>
    have htop : ¬v >>> 63 ≠ 0#64 := not_not.mpr ((shiftRight_top_eq_zero v).mpr hclear)
    rw [clo64, dif_neg htop]
  | succ c ih =>
    have htop : v >>> 63 ≠ 0#64 := by
      rw [ne_eq, shiftRight_top_eq_zero, habove 0 (Nat.succ_pos c)]
      exact nofun
    rw [clo64, dif_pos htop, ih]
    · rw [BitVec.getMsbD_shiftLeft]
      exact hclear
    · intro i hi
      rw [BitVec.getMsbD_shiftLeft]
      exact habove (i + 1) (Nat.succ_lt_succ hi)

theorem isShiftedMask_iff (v : BitVec 64) :
    isShiftedMask v = true ↔ ∃ a c, a < c ∧ c ≤ 64 ∧ Between v a c := by
  rw [exists_between_iff]
  simp only [isShiftedMask, isMask, Bool.and_eq_true, decide_eq_true_eq, beq_iff_eq]

/-! ### The element -/

theorem getLsbD_elementMask (hsize : size ≤ 64) (hi : i < 64) :
    (elementMask size).getLsbD i = decide (i < size) := by
  rw [elementMask]
  split_ifs with hall
  · rw [hall, BitVec.getLsbD_not, BitVec.getLsbD_zero, decide_eq_true hi]
    rfl
  · have hlt : size < 64 := Nat.lt_of_le_of_ne hsize hall
    have hone : (1#64 <<< size).toNat = 2 ^ size := by
      rw [BitVec.toNat_shiftLeft, BitVec.toNat_ofNat, Nat.shiftLeft_eq, Nat.one_mul]
      exact Nat.mod_eq_of_lt (Nat.pow_lt_pow_right (by decide) hlt)
    have hne : 1#64 <<< size ≠ 0#64 := fun h => by
      rw [h] at hone
      exact absurd hone.symm (Nat.two_pow_pos size).ne'
    rw [← BitVec.testBit_toNat, toNat_sub_one hne, hone, Nat.testBit_two_pow_sub_one]

/-- The run of an element of which it is known where it is. -/
structure IsRun (size : Nat) (imm : BitVec 64) (i cto : Nat) : Prop where
  pos : 0 < cto
  lt : cto < size
  le : i ≤ size
  bits : ∀ j < size, imm.getLsbD j = decide ((j + (size - i) % size) % size < cto)

/-- Where a bit of an element comes from. -/
theorem turn_eq {j : Nat} (hi : i ≤ size) (hj : j < size) :
    (j + (size - i) % size) % size = if j < i then j + size - i else j - i := by
  rw [Nat.add_mod_mod]
  split_ifs with hji
  · rw [Nat.mod_eq_of_lt (by omega)]
    omega
  · rw [show j + (size - i) = j - i + size by omega, Nat.add_mod_right,
      Nat.mod_eq_of_lt (by omega)]

/-- The run of an element that is one run of ones. -/
theorem isRun_of_between (hsize : size ≤ 64) (h : Between imm a c) (hac : a < c) (hc : c ≤ size)
    (hsome : a ≠ 0 ∨ c ≠ size) (hne : imm ≠ 0#64) :
    IsRun size imm (ctz64 imm hne) (cto64 (imm >>> ctz64 imm hne)) := by
  have hctz : ctz64 imm hne = a := by
    refine ctz64_eq hne ?_ fun i hi => ?_
    · rw [h a (by omega)]
      exact decide_eq_true ⟨le_rfl, hac⟩
    · rw [h i (by omega)]
      exact decide_eq_false (by omega)
  have hcto : cto64 (imm >>> a) = c - a := by
    refine cto64_eq ?_ fun i hi => ?_
    · rw [BitVec.getLsbD_ushiftRight]
      by_cases hlt : a + (c - a) < 64
      · rw [h _ hlt]
        exact decide_eq_false (by omega)
      · exact BitVec.getLsbD_of_ge imm _ (Nat.not_lt.mp hlt)
    · rw [BitVec.getLsbD_ushiftRight, h _ (by omega)]
      exact decide_eq_true (by omega)
  rw [hctz, hcto]
  refine ⟨by omega, by omega, by omega, fun j hj => ?_⟩
  rw [h j (by omega), decide_eq_decide, turn_eq (by omega) hj]
  split_ifs <;> omega

/-- The run of an element whose zeros are one run. -/
theorem isRun_of_not_between (hsize : size ≤ 64) (hpos : 0 < a)
    (h : Between (~~~(imm ||| ~~~elementMask size)) a c) (hac : a < c) (hc : c ≤ size) :
    IsRun size imm (64 - clo64 (imm ||| ~~~elementMask size))
      (clo64 (imm ||| ~~~elementMask size) + cto64 (imm ||| ~~~elementMask size) -
        (64 - size)) := by
  have hbits : ∀ i < 64, (imm ||| ~~~elementMask size).getLsbD i = !decide (a ≤ i ∧ i < c) := by
    intro i hi
    have hat := h i hi
    rw [BitVec.getLsbD_not, decide_eq_true hi, Bool.true_and] at hat
    rw [← hat, Bool.not_not]
  have hclo : clo64 (imm ||| ~~~elementMask size) = 64 - c := by
    refine clo64_eq ?_ fun i hi => ?_
    · rw [BitVec.getMsbD, decide_eq_true (by omega), hbits _ (by omega)]
      simp
      omega
    · rw [BitVec.getMsbD, decide_eq_true (by omega), hbits _ (by omega)]
      simp
      omega
  have hcto : cto64 (imm ||| ~~~elementMask size) = a := by
    refine cto64_eq ?_ fun i hi => ?_
    · rw [hbits a (by omega), decide_eq_true ⟨le_rfl, hac⟩, Bool.not_true]
    · rw [hbits i (by omega), decide_eq_false (by omega), Bool.not_false]
  rw [hclo, hcto]
  refine ⟨by omega, by omega, by omega, fun j hj => ?_⟩
  have hbit := hbits j (by omega)
  rw [BitVec.getLsbD_or, BitVec.getLsbD_not, getLsbD_elementMask hsize (by omega),
    decide_eq_true hj, Bool.not_true, Bool.and_false, Bool.or_false, ← decide_not] at hbit
  rw [hbit, decide_eq_decide, turn_eq (by omega) hj]
  split_ifs <;> omega

theorem getLsbD_complement (hsize : size ≤ 64) (hi : i < 64) :
    (~~~(imm ||| ~~~elementMask size)).getLsbD i = (decide (i < size) && !imm.getLsbD i) := by
  rw [BitVec.getLsbD_not, BitVec.getLsbD_or, BitVec.getLsbD_not, getLsbD_elementMask hsize hi,
    decide_eq_true hi]
  cases imm.getLsbD i <;> cases decide (i < size) <;> rfl

/-- A run that is found is one. -/
theorem findRun_spec {cto : Nat} (hsize : size ≤ 64)
    (hin : ∀ j < 64, size ≤ j → imm.getLsbD j = false) (hne : imm ≠ 0#64)
    (hall : ∃ j < size, imm.getLsbD j = false) (h : findRun size imm = some (i, cto)) :
    IsRun size imm i cto := by
  rw [findRun] at h
  by_cases hone : isShiftedMask imm = true
  · rw [dif_pos hone] at h
    obtain ⟨rfl, rfl⟩ := Prod.mk.inj (Option.some.inj h)
    obtain ⟨a, c, hac, hc, hbetween⟩ := (isShiftedMask_iff imm).mp hone
    have hcs : c ≤ size := by
      by_contra hmore
      have hlast := hbetween (c - 1) (by omega)
      rw [hin (c - 1) (by omega) (by omega)] at hlast
      exact absurd hlast (by simp; omega)
    refine isRun_of_between hsize hbetween hac hcs ?_ hne
    by_contra hboth
    obtain ⟨j, hj, hclear⟩ := hall
    rw [hbetween j (by omega)] at hclear
    have hout := of_decide_eq_false hclear
    omega
  · rw [dif_neg hone] at h
    dsimp only at h
    split_ifs at h with htwo
    obtain ⟨rfl, rfl⟩ := Prod.mk.inj (Option.some.inj h)
    obtain ⟨a, c, hac, hc, hbetween⟩ := (isShiftedMask_iff _).mp htwo
    have hzeros (j : Nat) (hj : j < 64) := (getLsbD_complement hsize hj).symm.trans (hbetween j hj)
    have hcs : c ≤ size := by
      by_contra hmore
      have hlast := hzeros (c - 1) (by omega)
      rw [decide_eq_false (by omega), Bool.false_and] at hlast
      exact absurd hlast (by simp; omega)
    refine isRun_of_not_between hsize (Nat.pos_of_ne_zero fun hzero => ?_) hbetween hac hcs
    subst hzero
    have hclear (j : Nat) (hj : j < size) : imm.getLsbD j = decide (c ≤ j) := by
      have hat := hzeros j (by omega)
      rw [decide_eq_true hj, Bool.true_and, Bool.not_eq_eq_eq_not] at hat
      rw [hat, ← decide_not, decide_eq_decide]
      omega
    refine hone ((isShiftedMask_iff imm).mpr ⟨c, size, ?_, hsize, fun j hj => ?_⟩)
    · by_contra hless
      refine hne (BitVec.eq_of_getLsbD_eq fun j hj => ?_)
      rw [BitVec.getLsbD_zero]
      by_cases hjs : j < size
      · rw [hclear j hjs]
        exact decide_eq_false (by omega)
      · exact hin j hj (Nat.not_lt.mp hjs)
    · by_cases hjs : j < size
      · rw [hclear j hjs, decide_eq_decide]
        omega
      · rw [hin j hj (Nat.not_lt.mp hjs), decide_eq_false (by omega)]

/-- A rotated run is found. -/
theorem findRun_isSome {r k : Nat} (hsize : size ≤ 64)
    (hin : ∀ j < 64, size ≤ j → imm.getLsbD j = false) (hk : 0 < k) (hks : k < size) (hr : r < size)
    (h : ∀ j < size, imm.getLsbD j = decide ((j + r) % size < k)) :
    (findRun size imm).isSome := by
  obtain ⟨i, hi, hir⟩ : ∃ i ≤ size, (size - i) % size = r := by
    by_cases hzero : r = 0
    · exact ⟨0, Nat.zero_le _, by rw [Nat.sub_zero, Nat.mod_self, hzero]⟩
    · exact ⟨size - r, Nat.sub_le _ _, by
        rw [Nat.sub_sub_self hr.le, Nat.mod_eq_of_lt hr]⟩
  have hbits : ∀ j < size, imm.getLsbD j =
      decide ((if j < i then j + size - i else j - i) < k) := by
    intro j hj
    rw [h j hj, ← hir, turn_eq hi hj]
  rw [findRun]
  by_cases hone : isShiftedMask imm = true
  · rw [dif_pos hone]
    rfl
  · rw [dif_neg hone]
    dsimp only
    rw [if_pos]
    · rfl
    · have hround : size < i + k := by
        by_contra hfits
        refine hone ((isShiftedMask_iff imm).mpr ⟨i, i + k, by omega, by omega, fun j hj => ?_⟩)
        by_cases hjs : j < size
        · rw [hbits j hjs, decide_eq_decide]
          split_ifs <;> omega
        · rw [hin j hj (Nat.not_lt.mp hjs), decide_eq_false (by omega)]
      refine (isShiftedMask_iff _).mpr ⟨i + k - size, i, by omega, by omega, fun j hj => ?_⟩
      rw [getLsbD_complement hsize hj]
      by_cases hjs : j < size
      · rw [hbits j hjs, decide_eq_true hjs, Bool.true_and, ← decide_not, decide_eq_decide]
        split_ifs <;> omega
      · rw [decide_eq_false hjs, Bool.false_and, decide_eq_false (by omega)]

/-! ### The size of the element -/

/-- The bits of a register of `m` bits are those of one element. -/
def Periodic (m size : Nat) (imm : BitVec 64) : Prop :=
  ∀ j < m, imm.getLsbD j = imm.getLsbD (j % size)

theorem halves_ne_iff {half : Nat} (hhalf : half ≤ 64) (imm : BitVec 64) :
    imm &&& elementMask half ≠ (imm >>> half) &&& elementMask half ↔
      ∃ j < half, imm.getLsbD j ≠ imm.getLsbD (j + half) := by
  constructor
  · intro h
    by_contra hsame
    refine h (BitVec.eq_of_getLsbD_eq fun j hj => ?_)
    rw [BitVec.getLsbD_and, BitVec.getLsbD_and, BitVec.getLsbD_ushiftRight,
      getLsbD_elementMask hhalf hj, Nat.add_comm half]
    by_cases hjh : j < half
    · rw [not_not.mp fun hne => hsame ⟨j, hjh, hne⟩]
    · rw [decide_eq_false hjh, Bool.and_false, Bool.and_false]
  · rintro ⟨j, hj, hne⟩ h
    have hbit := congrArg (BitVec.getLsbD · j) h
    simp only [BitVec.getLsbD_and, BitVec.getLsbD_ushiftRight,
      getLsbD_elementMask hhalf (hj.trans_le hhalf), decide_eq_true hj, Bool.and_true] at hbit
    exact hne (hbit.trans (by rw [Nat.add_comm]))

theorem Periodic.halve {m half : Nat} (h : Periodic m (2 * half) imm) (hpos : 0 < half)
    (hsame : ∀ j < half, imm.getLsbD j = imm.getLsbD (j + half)) : Periodic m half imm := by
  intro j hj
  rw [h j hj]
  have hmod : j % (2 * half) % half = j % half := Nat.mod_mul_left_mod _ _ _
  have hlt := Nat.mod_lt j (Nat.mul_pos Nat.two_pos hpos)
  by_cases hfirst : j % (2 * half) < half
  · rw [← hmod, Nat.mod_eq_of_lt hfirst]
  · have hback := hsame (j % (2 * half) - half) (by omega)
    rw [Nat.mod_eq_sub_mod (Nat.not_lt.mp hfirst), Nat.mod_eq_of_lt (by omega)] at hmod
    rw [Nat.sub_add_cancel (Nat.not_lt.mp hfirst)] at hback
    rw [← hback, hmod]

theorem Periodic.same {m half : Nat} (h : Periodic m half imm) (hm : 2 * half ≤ m) {j : Nat}
    (hj : j < half) : imm.getLsbD j = imm.getLsbD (j + half) := by
  rw [h (j + half) (by omega), Nat.add_mod_right, Nat.mod_eq_of_lt hj]

/-- A turn of the search. -/
theorem elementSize_turn {m half : Nat} (hpos : 0 < half) (hhalf : half ≤ 64)
    (h : Periodic m (2 * half) imm) :
    elementSize imm (2 * half) = 2 * half ∧
        (∃ j < half, imm.getLsbD j ≠ imm.getLsbD (j + half)) ∨
      elementSize imm (2 * half) = (if half > 2 then elementSize imm half else half) ∧
        Periodic m half imm := by
  rw [elementSize, Nat.mul_div_cancel_left half Nat.two_pos, Nat.mul_comm half]
  by_cases hne : imm &&& elementMask half ≠ (imm >>> half) &&& elementMask half
  · exact .inl ⟨if_pos hne, (halves_ne_iff hhalf imm).mp hne⟩
  · refine .inr ⟨if_neg hne, h.halve hpos fun j hj => not_not.mp fun hdiff => hne ?_⟩
    exact (halves_ne_iff hhalf imm).mpr ⟨j, hj, hdiff⟩

/-- The search ends at an element that the register repeats and that does not repeat its half. -/
theorem elementSize_spec {m l : Nat} (hl : 2 ^ (l + 2) ≤ 64) (h : Periodic m (2 ^ (l + 2)) imm) :
    ∃ n ≤ l + 1, elementSize imm (2 ^ (l + 2)) = 2 ^ (n + 1) ∧ Periodic m (2 ^ (n + 1)) imm ∧
      (n = 0 ∨ ∃ j < 2 ^ n, imm.getLsbD j ≠ imm.getLsbD (j + 2 ^ n)) := by
  induction l with
  | zero =>
    obtain ⟨hend, hne⟩ | ⟨hend, hperiodic⟩ := elementSize_turn Nat.two_pos (by decide) h
    · exact ⟨1, le_rfl, hend, h, .inr hne⟩
    · exact ⟨0, Nat.zero_le _, hend, hperiodic, .inl rfl⟩
  | succ l ih =>
    have hle : 2 ^ (l + 2) ≤ 64 := (Nat.pow_le_pow_right (by decide) (Nat.le_succ _)).trans hl
    have hmore : 2 ^ (l + 2) > 2 :=
      lt_of_eq_of_lt (Nat.pow_one 2).symm (Nat.pow_lt_pow_right (by decide) (by omega))
    rw [Nat.pow_succ' (n := l + 2)] at h ⊢
    obtain ⟨hend, hne⟩ | ⟨hend, hperiodic⟩ := elementSize_turn (Nat.two_pow_pos _) hle h
    · exact ⟨l + 2, le_rfl, hend.trans Nat.pow_succ'.symm, Nat.pow_succ' ▸ h, .inr hne⟩
    · rw [if_pos hmore] at hend
      obtain ⟨n, hn, hspec⟩ := ih hle hperiodic
      exact ⟨n, by omega, hend ▸ hspec⟩

/-! ### The fields -/

/-- The field of the size and the length is read as it was made. -/
theorem fields_read : ∀ len ∈ [1, 2, 3, 4, 5, 6], ∀ t < 2 ^ len - 1,
    let nimms := (~~~BitVec.ofNat 64 (2 ^ len - 1)) <<< 1 ||| BitVec.ofNat 64 t
    let n := (nimms >>> 6 &&& 1#64).toNat ^^^ 1
    let imms := (nimms &&& 0x3f#64).toNat
    (n = if len = 6 then 1 else 0) ∧ imms < 64 ∧ n <<< 6 ||| (63 - imms) ≠ 0 ∧
      Nat.log2 (n <<< 6 ||| (63 - imms)) = len ∧ imms &&& (2 ^ len - 1) = t := by
  decide +kernel

/-- The fields of an encoding that has been put together. -/
theorem unpack {n immr imms : Nat} (hn : n < 2) (hr : immr < 64) (hs : imms < 64) :
    let enc := n <<< 12 ||| immr <<< 6 ||| imms
    enc < 2 ^ 13 ∧ enc >>> 12 &&& 1 = n ∧ enc >>> 6 &&& 63 = immr ∧ enc &&& 63 = imms := by
  have hsum : n <<< 12 ||| immr <<< 6 ||| imms = n * 2 ^ 12 + immr * 2 ^ 6 + imms := by
    rw [Nat.shiftLeft_eq, Nat.shiftLeft_eq,
      or_eq_add (k := 12) (y := immr * 2 ^ 6) (by omega) (by omega),
      or_eq_add (k := 6) (y := imms) (by omega) hs]
  intro enc
  have hfield (x : Nat) : x &&& 63 = x % 64 := Nat.and_two_pow_sub_one_eq_mod x 6
  rw [show enc = _ from hsum, Nat.and_one_is_mod, hfield, hfield, Nat.shiftRight_eq_div_pow,
    Nat.shiftRight_eq_div_pow]
  refine ⟨?_, ?_, ?_, ?_⟩ <;> omega

/-- The target reads the run from its encoding. -/
theorem packImm_spec {sf : Bool} {len cto : Nat} (hlen : len ∈ [1, 2, 3, 4, 5, 6])
    (hle : 2 ^ len ≤ regsize sf) (hpos : 0 < cto) (hlt : cto < 2 ^ len) (i : Nat) :
    ∃ enc, packImm sf (2 ^ len) i cto = some enc ∧ enc < 2 ^ 13 ∧
      decodeLogicalImm sf enc = some (repeated (2 ^ len)
        (rotate (2 ^ len) (2 ^ cto - 1) ((2 ^ len - i) % 2 ^ len)) (regsize sf / 2 ^ len)) := by
  obtain ⟨hn, himms, hne, hlog, hlevels⟩ := fields_read len hlen (cto - 1) (by omega)
  have hsize : 2 ^ len ≤ 64 := hle.trans (by cases sf <;> decide)
  have himmr : (2 ^ len - i) % 2 ^ len < 2 ^ len := Nat.mod_lt _ (Nat.two_pow_pos len)
  rw [packImm]
  generalize (~~~BitVec.ofNat 64 (2 ^ len - 1)) <<< 1 ||| BitVec.ofNat 64 (cto - 1) = nimms at *
  generalize (nimms >>> 6 &&& 1#64).toNat ^^^ 1 = n at *
  generalize (nimms &&& 0x3f#64).toNat = imms at *
  have hnarrow : ¬(sf = false ∧ n ≠ 0) := by
    rintro ⟨rfl, hn0⟩
    obtain rfl : len = 6 := by
      by_contra h6
      exact hn0 (by rw [hn, if_neg h6])
    exact absurd hle (by decide)
  have hn2 : n < 2 := by
    rw [hn]
    split_ifs <;> decide
  obtain ⟨hbound, hN, hR, hS⟩ := unpack hn2 (himmr.trans_le hsize) himms
  refine ⟨_, if_neg hnarrow, hbound, ?_⟩
  have hlen1 : ¬len < 1 := by
    rintro hzero
    obtain rfl : len = 0 := by omega
    exact absurd hlen (by decide)
  have hreserved : ¬cto - 1 = 2 ^ len - 1 := by omega
  have himmr' : (2 ^ len - i) % 2 ^ len &&& (2 ^ len - 1) = (2 ^ len - i) % 2 ^ len := by
    rw [Nat.and_two_pow_sub_one_eq_mod, Nat.mod_eq_of_lt himmr]
  rw [decodeLogicalImm, hN, if_neg hnarrow, decodeBitMasks, hR, hS, hlog, if_neg (by
    rw [not_or]
    exact ⟨hne, hlen1⟩)]
  dsimp only
  rw [hlevels, if_neg hreserved, himmr', Nat.sub_add_cancel hpos]

/-! ### The encoding of a constant -/

variable {sf : Bool} {value : BitVec 64} {n k r : Nat}

/-- A constant that fits into the register has the bits of a repeated rotated run. -/
theorem toNat_eq_repeated (hn : n ∣ regsize sf) (hk : k ≤ n) (hr : r < n)
    (hnarrow : ∀ j, regsize sf ≤ j → value.getLsbD j = false) :
    value.toNat = repeated n (rotate n (2 ^ k - 1) r) (regsize sf / n) ↔
      ∀ j < regsize sf, value.getLsbD j = decide ((j + r) % n < k) := by
  have hmul := Nat.mul_div_cancel' hn
  constructor
  · intro h j hj
    rw [← BitVec.testBit_toNat, h, testBit_repeated_rotate hk hr, hmul, decide_eq_decide]
    exact and_iff_right hj
  · intro h
    refine Nat.eq_of_testBit_eq fun j => ?_
    rw [BitVec.testBit_toNat, testBit_repeated_rotate hk hr, hmul]
    by_cases hj : j < regsize sf
    · rw [h j hj, decide_eq_decide]
      exact (and_iff_right hj).symm
    · rw [hnarrow j (Nat.not_lt.mp hj), decide_eq_false fun hand => hj hand.1]

/-- What the checks before the search leave. -/
structure Proper (sf : Bool) (value : BitVec 64) : Prop where
  narrow : ∀ j, regsize sf ≤ j → value.getLsbD j = false
  one : ∃ j < regsize sf, value.getLsbD j = true
  zero : ∃ j < regsize sf, value.getLsbD j = false

theorem regsize_le (sf : Bool) : regsize sf ≤ 64 := by
  cases sf <;> decide

theorem regsize_pos (sf : Bool) : 0 < regsize sf := by
  cases sf <;> decide

theorem proper_iff : Proper sf value ↔ ¬(sf = false ∧ value >>> 32 ≠ 0#64) ∧ value ≠ 0#64 ∧
    value ≠ elementMask (regsize sf) := by
  have hreg := regsize_le sf
  constructor
  · rintro ⟨hnarrow, ⟨j, _, hone⟩, l, hl, hzero⟩
    refine ⟨?_, ?_, ?_⟩
    · rintro ⟨rfl, hne⟩
      refine hne (BitVec.eq_of_getLsbD_eq fun i hi => ?_)
      rw [BitVec.getLsbD_ushiftRight, BitVec.getLsbD_zero]
      exact hnarrow (32 + i) (Nat.le_add_right 32 i)
    · rintro rfl
      rw [BitVec.getLsbD_zero] at hone
      cases hone
    · rintro rfl
      rw [getLsbD_elementMask hreg (hl.trans_le hreg), decide_eq_true hl] at hzero
      cases hzero
  · rintro ⟨hnarrow, hzero, hones⟩
    have hbeyond : ∀ j, regsize sf ≤ j → value.getLsbD j = false := by
      intro j hj
      cases sf with
      | true => exact BitVec.getLsbD_of_ge value j hj
      | false =>
        have hshift := not_not.mp fun hne => hnarrow ⟨rfl, hne⟩
        have hbit := congrArg (BitVec.getLsbD · (j - 32)) hshift
        simp only [BitVec.getLsbD_ushiftRight, BitVec.getLsbD_zero] at hbit
        rwa [Nat.add_sub_cancel' (show 32 ≤ j from hj)] at hbit
    refine ⟨hbeyond, ?_, ?_⟩
    · by_contra hnone
      refine hzero (BitVec.eq_of_getLsbD_eq fun j _ => ?_)
      rw [BitVec.getLsbD_zero]
      by_cases hj : j < regsize sf
      · exact eq_false_of_ne_true fun hset => hnone ⟨j, hj, hset⟩
      · exact hbeyond j (Nat.not_lt.mp hj)
    · by_contra hnone
      refine hones (BitVec.eq_of_getLsbD_eq fun j hj => ?_)
      rw [getLsbD_elementMask hreg hj]
      by_cases hjr : j < regsize sf
      · rw [decide_eq_true hjr]
        exact eq_true_of_ne_false fun hclear => hnone ⟨j, hjr, hclear⟩
      · rw [decide_eq_false hjr]
        exact hbeyond j (Nat.not_lt.mp hjr)

theorem and_low_eq (h : value >>> 32 = 0#64) : value &&& 0xffffffff#64 = value := by
  have hhigh := congrArg BitVec.toNat h
  rw [BitVec.toNat_ushiftRight, Nat.shiftRight_eq_div_pow, BitVec.toNat_ofNat] at hhigh
  have hlow : value.toNat < 2 ^ 32 := (Nat.div_eq_zero_iff_lt (Nat.two_pow_pos 32)).mp hhigh
  refine BitVec.eq_of_toNat_eq ?_
  rw [BitVec.toNat_and]
  exact (Nat.and_two_pow_sub_one_eq_mod value.toNat 32).trans (Nat.mod_eq_of_lt hlow)

/-- The encoder looks for an element in what passes the checks. -/
theorem a64BitmaskImm_eq_some_iff {enc : Nat} :
    a64BitmaskImm sf value = some enc ↔ Proper sf value ∧ encodeImm sf value = some enc := by
  rw [proper_iff, a64BitmaskImm]
  cases sf with
  | true =>
    have hreg : regsize true = 64 := rfl
    have hmask : elementMask 64 = ~~~0#64 := rfl
    simp only [hreg, hmask, ne_eq, not_true_eq_false, false_and, if_false, if_true]
    by_cases hzero : value = 0#64
    · simp [hzero]
    · simp [hzero]
  | false =>
    have hreg : regsize false = 32 := rfl
    have hmask : elementMask 32 = 0xffffffff#64 := rfl
    by_cases hshift : value >>> 32 = 0#64
    · have hlow := and_low_eq hshift
      by_cases hzero : value = 0#64
      · simp [hreg, hzero]
      · by_cases hones : value = 0xffffffff#64
        · simp [hreg, hmask, hones]
        · simp [hreg, hmask, hshift, hlow, hzero, hones]
    · simp [hreg, hshift]

/-- The element that the search leaves of a register. -/
theorem elementSize_regsize (sf : Bool) (value : BitVec 64) : ∃ len ∈ [1, 2, 3, 4, 5, 6],
    elementSize value (regsize sf) = 2 ^ len ∧ 2 ^ len ∣ regsize sf ∧
    Periodic (regsize sf) (2 ^ len) value ∧
    (len = 1 ∨ ∃ j < 2 ^ (len - 1), value.getLsbD j ≠ value.getLsbD (j + 2 ^ (len - 1))) := by
  obtain ⟨l, hl, hreg⟩ : ∃ l ≤ 4, regsize sf = 2 ^ (l + 2) := by
    cases sf with
    | true => exact ⟨4, le_rfl, rfl⟩
    | false => exact ⟨3, by decide, rfl⟩
  have hle : 2 ^ (l + 2) ≤ 64 := by
    rw [← hreg]
    exact regsize_le sf
  have hwhole : Periodic (regsize sf) (2 ^ (l + 2)) value := by
    intro j hj
    rw [← hreg, Nat.mod_eq_of_lt hj]
  obtain ⟨n, hn, hsize, hperiodic, hhalf⟩ := elementSize_spec hle hwhole
  refine ⟨n + 1, ?_, hreg ▸ hsize, ?_, hperiodic, ?_⟩
  · simp only [List.mem_cons, List.not_mem_nil, or_false]
    omega
  · rw [hreg]
    exact Nat.pow_dvd_pow 2 (by omega)
  · exact hhalf.imp_left (congrArg (· + 1))

theorem dvd_regsize {b : Nat} (h : 2 ^ b ≤ regsize sf) : 2 ^ b ∣ regsize sf := by
  obtain ⟨l, hl⟩ : ∃ l, regsize sf = 2 ^ l := by
    cases sf with
    | true => exact ⟨6, rfl⟩
    | false => exact ⟨5, rfl⟩
  rw [hl] at h ⊢
  exact Nat.pow_dvd_pow 2 ((Nat.pow_le_pow_iff_right (by decide)).mp h)

theorem size_bounds (hsize : size ∣ regsize sf) : 0 < size ∧ size ≤ 64 :=
  ⟨Nat.pos_of_dvd_of_pos hsize (regsize_pos sf),
    (Nat.le_of_dvd (regsize_pos sf) hsize).trans (regsize_le sf)⟩

theorem getLsbD_element (hle : size ≤ 64) {j : Nat} (hj : j < size) :
    (value &&& elementMask size).getLsbD j = value.getLsbD j := by
  rw [BitVec.getLsbD_and, getLsbD_elementMask hle (hj.trans_le hle), decide_eq_true hj,
    Bool.and_true]

theorem getLsbD_element_beyond (hle : size ≤ 64) {j : Nat} (hj : j < 64) (hbeyond : size ≤ j) :
    (value &&& elementMask size).getLsbD j = false := by
  rw [BitVec.getLsbD_and, getLsbD_elementMask hle hj, decide_eq_false (Nat.not_lt.mpr hbeyond),
    Bool.and_false]

/-- A run that is found in an element is one of the constant. -/
theorem Proper.run {cto : Nat} (h : Proper sf value) (hsize : size ∣ regsize sf)
    (hperiodic : Periodic (regsize sf) size value)
    (hrun : findRun size (value &&& elementMask size) = some (i, cto)) :
    0 < cto ∧ cto < size ∧
      ∀ j < regsize sf, value.getLsbD j = decide ((j + (size - i) % size) % size < cto) := by
  obtain ⟨hpos, hle⟩ := size_bounds hsize
  have hne : value &&& elementMask size ≠ 0#64 := by
    intro hzero
    obtain ⟨j, hj, hone⟩ := h.one
    have hbit : (value &&& elementMask size).getLsbD (j % size) = value.getLsbD (j % size) :=
      getLsbD_element hle (Nat.mod_lt j hpos)
    rw [hzero, BitVec.getLsbD_zero, ← hperiodic j hj, hone] at hbit
    cases hbit
  have hall : ∃ j < size, (value &&& elementMask size).getLsbD j = false := by
    obtain ⟨j, hj, hzero⟩ := h.zero
    refine ⟨j % size, Nat.mod_lt j hpos, ?_⟩
    rw [getLsbD_element hle (Nat.mod_lt j hpos), ← hperiodic j hj, hzero]
  obtain ⟨hcto, hlt, _, hbits⟩ :=
    findRun_spec hle (fun _ => getLsbD_element_beyond hle) hne hall hrun
  refine ⟨hcto, hlt, fun j hj => ?_⟩
  have hbit := hbits (j % size) (Nat.mod_lt j hpos)
  rw [getLsbD_element hle (Nat.mod_lt j hpos), ← hperiodic j hj, Nat.mod_add_mod] at hbit
  exact hbit

theorem size_mem {len : Nat} (hlen : len ∈ [1, 2, 3, 4, 5, 6]) :
    2 ^ len ∈ [2, 4, 8, 16, 32, 64] := by
  exact List.mem_map_of_mem (f := (2 ^ ·)) hlen

theorem toNat_ones (sf : Bool) : (elementMask (regsize sf)).toNat = 2 ^ regsize sf - 1 := by
  cases sf <;> rfl

/-- What is encoded is a logical immediate, and the target reads it. -/
theorem decode_a64BitmaskImm {enc : Nat} (h : a64BitmaskImm sf value = some enc) :
    LogicalImmediate (regsize sf) value.toNat ∧ enc < 2 ^ 13 ∧
      decodeLogicalImm sf enc = some value.toNat := by
  obtain ⟨hproper, henc⟩ := a64BitmaskImm_eq_some_iff.mp h
  obtain ⟨len, hlen, hsize, hdvd, hperiodic, _⟩ := elementSize_regsize sf value
  rw [encodeImm, hsize] at henc
  cases hrun : findRun (2 ^ len) (value &&& elementMask (2 ^ len)) with
  | none =>
    rw [hrun] at henc
    cases henc
  | some run =>
    obtain ⟨i, cto⟩ := run
    rw [hrun] at henc
    obtain ⟨hpos, hlt, hbits⟩ := hproper.run hdvd hperiodic hrun
    have hr : (2 ^ len - i) % 2 ^ len < 2 ^ len := Nat.mod_lt _ (Nat.two_pow_pos len)
    have hvalue := (toNat_eq_repeated hdvd hlt.le hr hproper.narrow).mpr hbits
    have hle := Nat.le_of_dvd (regsize_pos sf) hdvd
    obtain ⟨enc', henc', hbound, hdecode⟩ := packImm_spec hlen hle hpos hlt i
    obtain rfl := Option.some.inj (henc'.symm.trans henc)
    obtain ⟨_, hzero, hones⟩ := proper_iff.mp hproper
    refine ⟨⟨2 ^ len, size_mem hlen, hle, cto, hlt.le, _, hr, hvalue, ?_, ?_⟩, hbound,
      hvalue ▸ hdecode⟩
    · exact fun hz => hzero (BitVec.eq_of_toNat_eq hz)
    · exact fun ho => hones (BitVec.eq_of_toNat_eq (ho.trans (toNat_ones sf).symm))

section Complete

variable (hbits : ∀ j < regsize sf, value.getLsbD j = decide ((j + r) % n < k))

include hbits in
/-- A rotated run does not repeat in half of its element. -/
theorem not_periodic_half {half : Nat} (hk : 0 < k) (hkn : k < n) (hn : n ≤ regsize sf)
    (hhalf : n = 2 * half) : ¬Periodic (regsize sf) half value := by
  intro hperiodic
  obtain ⟨j, hj, hne⟩ := exists_half_ne hk (hhalf ▸ hkn) r
  have hsame := hperiodic.same (hhalf ▸ hn) hj
  rw [hbits j (by omega), hbits (j + half) (by omega), decide_eq_decide, hhalf] at hsame
  exact hne hsame

include hbits in
theorem repeats_of_dvd (hsize : n ∣ size) {j : Nat} (hj : j + size < regsize sf) :
    value.getLsbD j = value.getLsbD (j + size) := by
  obtain ⟨c, rfl⟩ := hsize
  rw [hbits j (by omega), hbits _ hj, Nat.add_right_comm, Nat.add_mul_mod_self_left]

end Complete

theorem Periodic.of_dvd {m small large : Nat} (h : Periodic m small value) (hdvd : small ∣ large) :
    Periodic m large value := by
  intro j hj
  rw [h j hj, h (j % large) ((Nat.mod_le j large).trans_lt hj), Nat.mod_mod_of_dvd j hdvd]

/-- A constant that is a logical immediate passes the checks. -/
theorem LogicalImmediate.proper (h : LogicalImmediate (regsize sf) value.toNat) :
    Proper sf value := by
  obtain ⟨n, hmem, hle, k, hk, r, hr, hvalue, hzero, hones⟩ := h
  rw [proper_iff]
  refine ⟨?_, fun heq => hzero (congrArg BitVec.toNat heq), fun heq => hones ?_⟩
  · rintro ⟨rfl, hne⟩
    refine hne (BitVec.eq_of_getLsbD_eq fun j hj => ?_)
    rw [BitVec.getLsbD_ushiftRight, BitVec.getLsbD_zero, ← BitVec.testBit_toNat, hvalue,
      testBit_repeated_rotate hk hr]
    refine decide_eq_false fun hand => ?_
    have hmul : n * (regsize false / n) ≤ 32 := Nat.mul_div_le 32 n
    omega
  · rw [heq, toNat_ones]

/-- What is a logical immediate is encoded. -/
theorem isSome_a64BitmaskImm (h : LogicalImmediate (regsize sf) value.toNat) :
    (a64BitmaskImm sf value).isSome := by
  have hproper := h.proper
  obtain ⟨n, hmem, hle, k, hk, r, hr, hvalue, _, _⟩ := h
  obtain ⟨a, ha, rfl⟩ := List.mem_map.mp (show n ∈ [1, 2, 3, 4, 5, 6].map (2 ^ ·) from hmem)
  obtain ⟨len, hlen, hsize, hdvd, hperiodic, hhalf⟩ := elementSize_regsize sf value
  have hn : 2 ^ a ∣ regsize sf := dvd_regsize hle
  have hdouble {b : Nat} (hb : b ∈ [1, 2, 3, 4, 5, 6]) : 2 ^ b = 2 * 2 ^ (b - 1) := by
    have hone : ∀ b ∈ [1, 2, 3, 4, 5, 6], 1 ≤ b := by decide
    rw [← Nat.pow_succ', Nat.succ_eq_add_one, Nat.sub_add_cancel (hone b hb)]
  have hbits := (toNat_eq_repeated hn hk hr hproper.narrow).mp hvalue
  have hpos : 0 < k := by
    obtain ⟨j, hj, hone⟩ := hproper.one
    rw [hbits j hj] at hone
    exact Nat.zero_lt_of_lt (of_decide_eq_true hone)
  have hlt : k < 2 ^ a := by
    obtain ⟨j, hj, hzero⟩ := hproper.zero
    rw [hbits j hj] at hzero
    exact (Nat.not_lt.mp (of_decide_eq_false hzero)).trans_lt (Nat.mod_lt _ (Nat.two_pow_pos a))
  obtain rfl : len = a := by
    rcases lt_trichotomy len a with hless | heq | hmore
    · exact absurd (hperiodic.of_dvd (Nat.pow_dvd_pow 2 (Nat.le_sub_one_of_lt hless)))
        (not_periodic_half hbits hpos hlt hle (hdouble ha))
    · exact heq
    · obtain rfl | ⟨j, hj, hne⟩ := hhalf
      · obtain rfl : a = 0 := by omega
        exact absurd ha (by decide)
      · have hwhole := Nat.le_of_dvd (regsize_pos sf) hdvd
        rw [hdouble hlen] at hwhole
        exact absurd (repeats_of_dvd hbits (Nat.pow_dvd_pow 2 (Nat.le_sub_one_of_lt hmore))
          (by omega)) hne
  have hsmall := (size_bounds hdvd).2
  have hfound : (findRun (2 ^ len) (value &&& elementMask (2 ^ len))).isSome := by
    refine findRun_isSome hsmall (fun _ => getLsbD_element_beyond hsmall) hpos hlt hr ?_
    intro j hj
    rw [getLsbD_element hsmall hj, hbits j (hj.trans_le hle)]
  obtain ⟨⟨i, cto⟩, hrun⟩ := Option.isSome_iff_exists.mp hfound
  obtain ⟨hcto, hctolt, _⟩ := hproper.run hdvd hperiodic hrun
  obtain ⟨enc, henc, _⟩ := packImm_spec hlen hle hcto hctolt i
  refine Option.isSome_iff_exists.mpr ⟨enc, a64BitmaskImm_eq_some_iff.mpr ⟨hproper, ?_⟩⟩
  rw [encodeImm, hsize, hrun]
  exact henc

end S5LBox.Jit
