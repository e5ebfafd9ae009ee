import Mathlib.Data.List.Basic

/-!
# Streams taken in by blocks

A function takes blocks of `n` elements into a state, one after the other. A stream that comes in
parts is taken in as far as whole blocks go, and the rest waits. Where the parts lie does not
matter: the state and what waits are those of the stream as a whole.

## Main definitions

* `absorb n f s l`: the state after the whole blocks of `l`, and what is left of `l`.

## Main results

* `absorb_append`: a stream in two parts.
* `length_absorb`: how much is left.
-/

namespace BlockHash

variable {σ α : Type} (n : Nat) (f : σ → List α → σ)

/-- The state after the whole blocks of a list, and what is left of the list. -/
def absorb (s : σ) (l : List α) : σ × List α :=
  if _h : 0 < n ∧ n ≤ l.length then absorb (f s (l.take n)) (l.drop n) else (s, l)
termination_by l.length
decreasing_by
  rw [List.length_drop]
  omega

variable {n f}

theorem absorb_of_lt {s : σ} {l : List α} (h : l.length < n) : absorb n f s l = (s, l) := by
  rw [absorb, dif_neg (by omega)]

theorem absorb_of_le {s : σ} {l : List α} (hn : 0 < n) (h : n ≤ l.length) :
    absorb n f s l = absorb n f (f s (l.take n)) (l.drop n) := by
  rw [absorb, dif_pos ⟨hn, h⟩]

theorem absorb_block {s : σ} {b l : List α} (hn : 0 < n) (h : b.length = n) :
    absorb n f s (b ++ l) = absorb n f (f s b) l := by
  rw [absorb_of_le hn (by rw [List.length_append]; omega), List.take_left' h, List.drop_left' h]

theorem length_absorb (hn : 0 < n) (s : σ) (l : List α) :
    (absorb n f s l).2.length = l.length % n := by
  induction s, l using absorb.induct (n := n) (f := f) with
  | case1 s l h ih =>
    rw [absorb_of_le hn h.2, ih, List.length_drop, ← Nat.mod_eq_sub_mod h.2]
  | case2 s l h =>
    have hlt : l.length < n := Nat.not_le.1 fun hle => h ⟨hn, hle⟩
    rw [absorb_of_lt hlt, Nat.mod_eq_of_lt hlt]

/-- A stream in two parts. -/
theorem absorb_append (hn : 0 < n) (s : σ) (a b : List α) :
    absorb n f s (a ++ b) = absorb n f (absorb n f s a).1 ((absorb n f s a).2 ++ b) := by
  induction s, a using absorb.induct (n := n) (f := f) with
  | case1 s a h ih =>
    rw [absorb_of_le hn h.2, ← ih, absorb_of_le hn (by rw [List.length_append]; omega),
      List.take_append_of_le_length h.2, List.drop_append_of_le_length h.2]
  | case2 s a h =>
    rw [absorb_of_lt (Nat.not_le.1 fun hle => h ⟨hn, hle⟩)]

end BlockHash
