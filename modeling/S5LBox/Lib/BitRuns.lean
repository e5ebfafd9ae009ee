import Mathlib.Data.BitVec
import Mathlib.Data.Nat.Bitwise
import Mathlib.Data.Nat.Factorization.Basic

/-!
# Runs of ones

The ones of a word may be the bits between two positions. Such words are told from others by
adding one and subtracting one. A run of ones in an element of `n` bits may also go round its end,
and the element may be repeated to fill a word: the bit at `i` is then one where `(i + r) % n` is
below the length of the run.

## Main definitions

* `Between v a c`: the ones of `v` are the bits from `a` on, below `c`.
* `rotate`, `repeated`: an element rotated to the right, and copies of an element.

## Main results

* `add_one_and_eq_zero_iff`, `exists_between_iff`: how a run is told.
* `testBit_repeated_rotate`: the bits of a repeated rotated run.
* `exists_half_ne`: such a run does not repeat within half of its element.
-/

namespace BitRuns

variable {w a c : Nat} {v : BitVec w}

/-- The ones are the bits from `a` on, below `c`. -/
def Between (v : BitVec w) (a c : Nat) : Prop :=
  ∀ i < w, v.getLsbD i = decide (a ≤ i ∧ i < c)

theorem or_eq_add {k x y : Nat} (hx : 2 ^ k ∣ x) (hy : y < 2 ^ k) : x ||| y = x + y := by
  obtain ⟨z, rfl⟩ := hx
  exact (Nat.two_pow_add_eq_or_of_lt hy z).symm

/-! ### Numbers one apart -/

/-- The bits of a number and of the one before it, above and below its lowest one. -/
theorem testBit_lowest (a m i : Nat) :
    (2 ^ a * (2 * m + 1)).testBit i = (decide (i = a) || decide (a < i) && m.testBit (i - a - 1)) ∧
      (2 ^ a * (2 * m + 1) - 1).testBit i =
        (decide (i < a) || decide (a < i) && m.testBit (i - a - 1)) := by
  have hone : 2 ^ a * (2 * m + 1) = 2 ^ (a + 1) * m + 2 ^ a := by
    rw [Nat.pow_succ, Nat.mul_add, Nat.mul_one, Nat.mul_assoc]
  have hpos : 0 < 2 ^ a := Nat.two_pow_pos a
  have hless : 2 ^ (a + 1) * m + 2 ^ a - 1 = 2 ^ (a + 1) * m + (2 ^ a - 1) :=
    Nat.add_sub_assoc hpos _
  have hlt : 2 ^ a < 2 ^ (a + 1) := Nat.pow_lt_pow_succ (by decide)
  rw [hone, hless, Nat.testBit_two_pow_mul_add _ hlt,
    Nat.testBit_two_pow_mul_add _ ((Nat.sub_le _ _).trans_lt hlt), Nat.testBit_two_pow,
    Nat.testBit_two_pow_sub_one, Nat.sub_sub]
  rcases lt_trichotomy i a with hi | rfl | hi
  · simp [hi, hi.ne, hi.ne', hi.not_gt, Nat.lt_succ_of_lt hi]
  · simp
  · simp [hi, hi.ne', hi.not_gt, Nat.not_lt.mpr (Nat.succ_le_of_lt hi)]

theorem getLsbD_add_one (v : BitVec w) {i : Nat} (hi : i < w) :
    (v + 1#w).getLsbD i = (v.toNat + 1).testBit i := by
  rw [← BitVec.testBit_toNat, BitVec.toNat_add, BitVec.toNat_ofNat, Nat.add_mod_mod,
    Nat.testBit_mod_two_pow, decide_eq_true hi, Bool.true_and]

theorem Between.toNat (h : Between v 0 c) (hc : c ≤ w) : v.toNat = 2 ^ c - 1 := by
  refine Nat.eq_of_testBit_eq fun i => ?_
  rw [Nat.testBit_two_pow_sub_one, BitVec.testBit_toNat]
  by_cases hi : i < w
  · simp [h i hi]
  · rw [BitVec.getLsbD_of_ge v i (Nat.not_lt.mp hi), decide_eq_false (by omega)]

/-- A word and its successor share no bit where its ones are the lowest bits. -/
theorem add_one_and_eq_zero_iff (v : BitVec w) :
    (v + 1#w) &&& v = 0#w ↔ ∃ c ≤ w, Between v 0 c := by
  constructor
  · intro h
    obtain ⟨c, m, ⟨k, rfl⟩, hv⟩ := Nat.exists_eq_two_pow_mul_odd (Nat.succ_ne_zero v.toNat)
    rw [Nat.succ_eq_add_one] at hv
    have hcw : c ≤ w := by
      have hmul : 2 ^ c ≤ 2 ^ c * (2 * k + 1) := Nat.le_mul_of_pos_right _ (Nat.succ_pos _)
      rw [← hv] at hmul
      have hle : 2 ^ c ≤ 2 ^ w := hmul.trans v.isLt
      exact (Nat.pow_le_pow_iff_right (by decide)).mp hle
    refine ⟨c, hcw, fun i hi => ?_⟩
    have hboth : ((v + 1#w) &&& v).getLsbD i = false := by
      rw [h, BitVec.getLsbD_zero]
    obtain ⟨hnext, hbit⟩ := testBit_lowest c k i
    rw [← hv, Nat.add_sub_cancel] at hbit
    rw [BitVec.getLsbD_and, getLsbD_add_one v hi, hv, hnext, ← BitVec.testBit_toNat, hbit] at hboth
    rw [← BitVec.testBit_toNat, hbit]
    rcases lt_trichotomy i c with hlt | rfl | hgt
    · simp [hlt]
    · simp
    · simpa [hgt, hgt.not_gt, hgt.ne'] using hboth
  · rintro ⟨c, hc, h⟩
    have hv := h.toNat hc
    have hpos : 0 < 2 ^ c := Nat.two_pow_pos c
    refine BitVec.eq_of_getLsbD_eq fun i hi => ?_
    rw [BitVec.getLsbD_and, getLsbD_add_one v hi, hv, Nat.sub_add_cancel hpos, Nat.testBit_two_pow,
      h i hi, BitVec.getLsbD_zero]
    by_cases hci : c = i
    · simp [hci]
    · simp [hci]

theorem toNat_sub_one (hv : v ≠ 0#w) : (v - 1#w).toNat = v.toNat - 1 := by
  have hpos : 0 < v.toNat := Nat.pos_of_ne_zero fun h => hv (BitVec.eq_of_toNat_eq h)
  have hlt := v.isLt
  have hone : 1 % 2 ^ w = 1 := Nat.mod_eq_of_lt (lt_of_le_of_lt hpos hlt)
  rw [BitVec.toNat_sub, BitVec.toNat_ofNat, hone,
    show 2 ^ w - 1 + v.toNat = v.toNat - 1 + 2 ^ w by omega, Nat.add_mod_right,
    Nat.mod_eq_of_lt (by omega)]

/-- The bits of a word and of the one before it, put together. -/
theorem sub_one_or (hv : v ≠ 0#w) : ∃ a < w, v.getLsbD a = true ∧
    (∀ i < a, v.getLsbD i = false) ∧
    ∀ i < w, ((v - 1#w) ||| v).getLsbD i = (decide (i < a) || v.getLsbD i) := by
  have hne : v.toNat ≠ 0 := fun h => hv (BitVec.eq_of_toNat_eq h)
  obtain ⟨a, m, ⟨k, rfl⟩, ha⟩ := Nat.exists_eq_two_pow_mul_odd hne
  have hbits (i : Nat) := testBit_lowest a k i
  simp only [← ha, BitVec.testBit_toNat] at hbits
  have hset : v.getLsbD a = true := by
    rw [(hbits a).1, decide_eq_true rfl, Bool.true_or]
  have haw : a < w := BitVec.lt_of_getLsbD hset
  refine ⟨a, haw, hset, fun i hi => ?_, fun i hi => ?_⟩
  · simp [(hbits i).1, hi.ne, hi.not_gt]
  · rw [BitVec.getLsbD_or, ← BitVec.testBit_toNat, toNat_sub_one hv, (hbits i).2, (hbits i).1]
    cases decide (i < a) <;> cases decide (i = a) <;>
      cases decide (a < i) && k.testBit (i - a - 1) <;> rfl

/-- How a run of ones is told. -/
theorem exists_between_iff (v : BitVec w) : (∃ a c, a < c ∧ c ≤ w ∧ Between v a c) ↔
    v ≠ 0#w ∧ (v - 1#w) ||| v ≠ 0#w ∧ ((v - 1#w ||| v) + 1#w) &&& (v - 1#w ||| v) = 0#w := by
  rw [add_one_and_eq_zero_iff]
  constructor
  · rintro ⟨a, c, hac, hc, h⟩
    have hset : v.getLsbD a = true := by
      rw [h a (hac.trans_le hc)]
      exact decide_eq_true ⟨le_rfl, hac⟩
    have hne : v ≠ 0#w := by
      rintro rfl
      rw [BitVec.getLsbD_zero] at hset
      cases hset
    obtain ⟨b, hb, hbit, hbelow, hor⟩ := sub_one_or hne
    have hab : a ≤ b := by
      rw [h b hb] at hbit
      exact (of_decide_eq_true hbit).1
    obtain rfl : b = a := by
      refine hab.antisymm' (Nat.not_lt.mp fun hlt => ?_)
      cases hset.symm.trans (hbelow a hlt)
    refine ⟨hne, fun hzero => ?_, c, hc, fun i hi => ?_⟩
    · have hat := hor b hb
      rw [hzero, hset, Bool.or_true, BitVec.getLsbD_zero] at hat
      cases hat
    · rw [hor i hi, h i hi, ← Bool.decide_or, decide_eq_decide]
      omega
  · rintro ⟨hne, _, c, hc, h⟩
    obtain ⟨a, ha, hset, hbelow, hor⟩ := sub_one_or hne
    have hac : a < c := by
      have hat := h a ha
      rw [hor a ha, hset, Bool.or_true] at hat
      exact (of_decide_eq_true hat.symm).2
    refine ⟨a, c, hac, hc, fun i hi => ?_⟩
    have hat := h i hi
    rw [hor i hi] at hat
    by_cases hia : i < a
    · rw [hbelow i hia, decide_eq_false (by omega)]
    · rw [decide_eq_false hia, Bool.false_or] at hat
      rw [hat, decide_eq_decide]
      omega

/-! ### Elements -/

/-- An element of `n` bits rotated to the right by `r` bits. -/
def rotate (n x r : Nat) : Nat := x >>> r ||| x <<< (n - r) % 2 ^ n

/-- Copies of an element of `n` bits. -/
def repeated (n x : Nat) : Nat → Nat
  | 0 => 0
  | count + 1 => 2 ^ n * repeated n x count + x

variable {n x r k i : Nat}

theorem rotate_lt (hx : x < 2 ^ n) : rotate n x r < 2 ^ n := by
  refine Nat.or_lt_two_pow ?_ (Nat.mod_lt _ (Nat.two_pow_pos n))
  rw [Nat.shiftRight_eq_div_pow]
  exact (Nat.div_le_self _ _).trans_lt hx

theorem testBit_repeated (hx : x < 2 ^ n) (count i : Nat) :
    (repeated n x count).testBit i = (decide (i < n * count) && x.testBit (i % n)) := by
  induction count generalizing i with
  | zero => simp [repeated]
  | succ count ih =>
    rw [repeated, Nat.testBit_two_pow_mul_add _ hx, ih]
    by_cases hi : i < n
    · have hin : i < n * (count + 1) := hi.trans_le (Nat.le_mul_of_pos_right n (Nat.succ_pos _))
      simp [hi, hin, Nat.mod_eq_of_lt hi]
    · have hmod : (i - n) % n = i % n := (Nat.mod_eq_sub_mod (Nat.not_lt.mp hi)).symm
      have hlt : i - n < n * count ↔ i < n * (count + 1) := by
        rw [Nat.mul_succ]
        omega
      simp [hi, hmod, hlt]

/-- A rotated run of ones. -/
theorem testBit_rotate (hk : k ≤ n) (hr : r < n) (hi : i < n) :
    (rotate n (2 ^ k - 1) r).testBit i = decide ((i + r) % n < k) := by
  rw [rotate, Nat.testBit_or, Nat.testBit_shiftRight, Nat.testBit_mod_two_pow,
    Nat.testBit_shiftLeft, Nat.testBit_two_pow_sub_one, Nat.testBit_two_pow_sub_one,
    ← Bool.decide_and, ← Bool.decide_and, ← Bool.decide_or, decide_eq_decide]
  by_cases hwrap : i + r < n
  · rw [Nat.mod_eq_of_lt hwrap]
    omega
  · rw [Nat.mod_eq_sub_mod (Nat.not_lt.mp hwrap), Nat.mod_eq_of_lt (by omega)]
    omega

/-- The bits of a repeated rotated run. -/
theorem testBit_repeated_rotate (hk : k ≤ n) (hr : r < n) (count i : Nat) :
    (repeated n (rotate n (2 ^ k - 1) r) count).testBit i =
      decide (i < n * count ∧ (i + r) % n < k) := by
  have hn : 0 < n := Nat.zero_lt_of_lt hr
  have hones : 2 ^ k - 1 < 2 ^ n :=
    (Nat.sub_lt (Nat.two_pow_pos k) Nat.one_pos).trans_le (Nat.pow_le_pow_right (by decide) hk)
  rw [testBit_repeated (rotate_lt hones), testBit_rotate hk hr (Nat.mod_lt i hn),
    Nat.mod_add_mod, Bool.decide_and]

/-- Every remainder is met among as many consecutive numbers. -/
theorem exists_add_mod {half t : Nat} (ht : t < half) (r : Nat) :
    ∃ i < half, (i + r) % half = t := by
  have hpos : 0 < half := Nat.zero_lt_of_lt ht
  refine ⟨(t + (half - r % half)) % half, Nat.mod_lt _ hpos, ?_⟩
  have hsplit : t + (half - r % half) + r = t + half * (r / half + 1) := by
    have hr := Nat.mod_add_div r half
    have hlt := Nat.mod_lt r hpos
    rw [Nat.mul_succ]
    omega
  rw [Nat.mod_add_mod, hsplit, Nat.add_mul_mod_self_left, Nat.mod_eq_of_lt ht]

/-- Somewhere a rotated run and what is half of the element further on are not the same. -/
theorem exists_half_ne {half : Nat} (hk : 0 < k) (hkn : k < 2 * half) (r : Nat) :
    ∃ i < half, ¬((i + r) % (2 * half) < k ↔ (i + half + r) % (2 * half) < k) := by
  have hpos : 0 < half := by omega
  obtain ⟨i, hi, hit⟩ := exists_add_mod (t := if k ≤ half then 0 else k - half)
    (by split_ifs <;> omega) r
  refine ⟨i, hi, ?_⟩
  have hmod : (i + r) % (2 * half) % half = (i + r) % half := Nat.mod_mul_left_mod _ _ _
  have hlt := Nat.mod_lt (i + r) (Nat.mul_pos Nat.two_pos hpos)
  have hnext : (i + half + r) % (2 * half) = ((i + r) % (2 * half) + half) % (2 * half) := by
    rw [Nat.mod_add_mod, Nat.add_right_comm]
  rw [hit] at hmod
  obtain ⟨u, hu⟩ : ∃ u, u = (i + r) % (2 * half) := ⟨_, rfl⟩
  rw [hnext, ← hu]
  rw [← hu] at hmod hlt
  by_cases hfirst : u < half
  · rw [Nat.mod_eq_of_lt hfirst] at hmod
    rw [Nat.mod_eq_of_lt (by omega)]
    split_ifs at hmod <;> omega
  · rw [Nat.mod_eq_sub_mod (Nat.not_lt.mp hfirst), Nat.mod_eq_of_lt (by omega)] at hmod
    rw [Nat.mod_eq_sub_mod (by omega), Nat.mod_eq_of_lt (by omega)]
    split_ifs at hmod <;> omega

end BitRuns
