import Mathlib.Data.BitVec

/-!
# Single bits of a word

A register holds one bit for each of many lines. A line's bit is tested, set, cleared and flipped
with a power of two, and no other line's bit takes part.

## Main results

* `and_twoPow_eq_zero`: the test of a bit.
* `getLsbD_or_twoPow`, `getLsbD_and_not_twoPow`, `getLsbD_xor_twoPow`: a bit after another one has
  been set, cleared or flipped.
-/

namespace SingleBit

variable {w i j : Nat} (x : BitVec w)

theorem and_twoPow_eq_zero (h : i < w) : x &&& BitVec.twoPow w i = 0 ↔ x.getLsbD i = false := by
  rw [BitVec.and_twoPow]
  split_ifs with hbit
  · refine iff_of_false (fun hzero => ?_) (ne_false_of_eq_true hbit)
    have hone := congrArg (BitVec.getLsbD · i) hzero
    simp [h] at hone
  · exact iff_of_true rfl (Bool.eq_false_iff.mpr hbit)

theorem and_twoPow_ne_zero (h : i < w) : x &&& BitVec.twoPow w i ≠ 0 ↔ x.getLsbD i = true := by
  rw [ne_eq, and_twoPow_eq_zero x h, Bool.not_eq_false]

theorem getLsbD_or_twoPow (h : i < w) :
    (x ||| BitVec.twoPow w i).getLsbD j = (x.getLsbD j || decide (i = j)) := by
  rw [BitVec.getLsbD_or, BitVec.getLsbD_twoPow, decide_eq_true h, Bool.true_and]

theorem getLsbD_and_not_twoPow (h : i < w) :
    (x &&& ~~~BitVec.twoPow w i).getLsbD j = (x.getLsbD j && !decide (i = j)) := by
  rw [BitVec.getLsbD_and, BitVec.getLsbD_not, BitVec.getLsbD_twoPow, decide_eq_true h,
    Bool.true_and]
  by_cases hj : j < w
  · rw [decide_eq_true hj, Bool.true_and]
  · rw [BitVec.getLsbD_of_ge x j (not_lt.mp hj), Bool.false_and, Bool.false_and]

theorem getLsbD_xor_twoPow (h : i < w) :
    (x ^^^ BitVec.twoPow w i).getLsbD j = (x.getLsbD j ^^ decide (i = j)) := by
  rw [BitVec.getLsbD_xor, BitVec.getLsbD_twoPow, decide_eq_true h, Bool.true_and]

end SingleBit
