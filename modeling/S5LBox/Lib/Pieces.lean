import Mathlib.Algebra.Order.Group.Nat
import Mathlib.Data.List.Basic

/-!
# Lists in pieces of one length

A list is looked at in pieces of `n` elements, as a disk is in blocks and a log in records. Elements
are written over some of it, and it is known where its pieces are when it is made of lists of that
length.

## Main definitions

* `piece n l i`: the `i`-th piece.
* `overwrite l o xs`: the list with `xs` written from `o` on.

## Main results

* `ext_piece`: a list is known from its pieces.
* `piece_overwrite`: what is written elsewhere leaves a piece alone.
* `piece_flatten`, `prefix_flatten`: the pieces of lists put together, and of a part of them.
-/

namespace Pieces

variable {α : Type} {n : Nat} {l : List α}

/-- The `i`-th piece of a list. -/
def piece (n : Nat) (l : List α) (i : Nat) : List α := (l.drop (n * i)).take n

/-- Elements written over a list from the position `o` on. -/
def overwrite (l : List α) (o : Nat) (xs : List α) : List α :=
  l.take o ++ xs ++ l.drop (o + xs.length)

theorem getElem?_piece (l : List α) (i j : Nat) :
    (piece n l i)[j]? = if j < n then l[n * i + j]? else none := by
  rw [piece, List.getElem?_take, List.getElem?_drop]

theorem length_piece {i : Nat} (h : n * i + n ≤ l.length) : (piece n l i).length = n := by
  rw [piece, List.length_take, List.length_drop]
  omega

/-- A list is known from its pieces. -/
theorem ext_piece {l' : List α} {count : Nat} (hn : 0 < n) (hl : l.length = n * count)
    (hl' : l'.length = n * count) (h : ∀ i < count, piece n l i = piece n l' i) : l = l' := by
  refine List.ext_getElem? fun k => ?_
  by_cases hk : k < n * count
  · have hpiece := congrArg (fun p => p[k % n]?) (h (k / n) (Nat.div_lt_of_lt_mul hk))
    simp only [getElem?_piece, Nat.mod_lt k hn, if_true, Nat.div_add_mod] at hpiece
    exact hpiece
  · rw [List.getElem?_eq_none (by omega), List.getElem?_eq_none (by omega)]

/-! ### Writing over a list -/

theorem overwrite_nil (l : List α) (o : Nat) : overwrite l o [] = l := by
  rw [overwrite, List.append_nil, List.length_nil, Nat.add_zero, List.take_append_drop]

theorem length_overwrite {o : Nat} {xs : List α} (h : o + xs.length ≤ l.length) :
    (overwrite l o xs).length = l.length := by
  rw [overwrite, List.length_append, List.length_append, List.length_take, List.length_drop]
  omega

theorem getElem?_overwrite {o : Nat} {xs : List α} (h : o + xs.length ≤ l.length) (k : Nat) :
    (overwrite l o xs)[k]? =
      if o ≤ k ∧ k < o + xs.length then xs[k - o]? else l[k]? := by
  have htake : (l.take o).length = o := by
    rw [List.length_take]
    omega
  rw [overwrite, List.append_assoc]
  by_cases hbefore : k < o
  · rw [List.getElem?_append_left (by omega), List.getElem?_take_of_lt hbefore,
      if_neg (by omega)]
  · rw [List.getElem?_append_right (by omega), htake]
    by_cases hin : k < o + xs.length
    · rw [List.getElem?_append_left (by omega), if_pos ⟨by omega, hin⟩]
    · rw [List.getElem?_append_right (by omega), List.getElem?_drop, if_neg (by omega)]
      congr 1
      omega

/-- What is written in two parts. -/
theorem overwrite_append {o : Nat} {xs ys : List α} (h : o + xs.length + ys.length ≤ l.length) :
    overwrite (overwrite l o xs) (o + xs.length) ys = overwrite l o (xs ++ ys) := by
  have hlen : (l.take o ++ xs).length = o + xs.length := by
    rw [List.length_append, List.length_take_of_le (by omega)]
  have htake : (overwrite l o xs).take (o + xs.length) = l.take o ++ xs :=
    List.take_left' hlen
  have hdrop : (overwrite l o xs).drop (o + xs.length + ys.length) =
      l.drop (o + (xs ++ ys).length) := by
    rw [overwrite, ← List.drop_drop, List.drop_left' hlen, List.drop_drop, List.length_append,
      Nat.add_assoc]
  rw [overwrite, htake, hdrop, overwrite, List.append_assoc (l.take o)]

/-- What is written elsewhere leaves a piece alone. -/
theorem piece_overwrite {o i : Nat} {xs : List α} (h : o + xs.length ≤ l.length)
    (hout : o + xs.length ≤ n * i ∨ n * i + n ≤ o) :
    piece n (overwrite l o xs) i = piece n l i := by
  refine List.ext_getElem? fun j => ?_
  rw [getElem?_piece, getElem?_piece, getElem?_overwrite h]
  split_ifs with hj hin
  · omega
  · rfl
  · rfl

/-- A piece that has been written as a whole. -/
theorem piece_overwrite_self {i : Nat} {xs : List α} (hxs : xs.length = n)
    (h : n * i + n ≤ l.length) : piece n (overwrite l (n * i) xs) i = xs := by
  refine List.ext_getElem? fun j => ?_
  rw [getElem?_piece, getElem?_overwrite (by omega)]
  by_cases hj : j < n
  · rw [if_pos hj, if_pos (by omega), Nat.add_sub_cancel_left]
  · rw [if_neg hj, List.getElem?_eq_none (by omega)]

/-! ### Lists put together -/

variable {L : List (List α)}

theorem length_flatten_of_forall (hL : ∀ x ∈ L, x.length = n) :
    L.flatten.length = n * L.length := by
  induction L with
  | nil => rfl
  | cons x L ih =>
    obtain ⟨hx, hL⟩ := List.forall_mem_cons.mp hL
    rw [List.flatten_cons, List.length_append, hx, ih hL, List.length_cons, Nat.mul_succ,
      Nat.add_comm]

/-- A piece of lists of its length put together is one of them. -/
theorem piece_flatten (hL : ∀ x ∈ L, x.length = n) {i : Nat} (hi : i < L.length) :
    piece n L.flatten i = L[i] := by
  induction L generalizing i with
  | nil => exact absurd hi (Nat.not_lt_zero i)
  | cons x L ih =>
    obtain ⟨hx, hL⟩ := List.forall_mem_cons.mp hL
    cases i with
    | zero =>
      rw [piece, Nat.mul_zero, List.drop_zero, List.flatten_cons, List.take_left' hx]
      rfl
    | succ i =>
      have hrest := ih hL (Nat.lt_of_succ_lt_succ hi)
      rw [piece] at hrest
      rw [piece, Nat.mul_succ, Nat.add_comm, ← List.drop_drop, List.flatten_cons,
        List.drop_left' hx, hrest]
      rfl

/-- A part of lists of one length put together that ends where one of them does. -/
theorem prefix_flatten (hn : 0 < n) (hL : ∀ x ∈ L, x.length = n) {f tail : List α}
    (hpre : f <+: L.flatten ++ tail) (htail : tail.length < n) (hdvd : n ∣ f.length) :
    f = (L.take (f.length / n)).flatten ∧ f.length / n ≤ L.length := by
  obtain ⟨m, hm⟩ := hdvd
  have hlen := hpre.length_le
  rw [List.length_append, length_flatten_of_forall hL, hm] at hlen
  have hmL : m ≤ L.length := by
    by_contra hmore
    have hover : n * (L.length + 1) ≤ n * m := Nat.mul_le_mul_left n (Nat.not_le.mp hmore)
    rw [Nat.mul_succ] at hover
    omega
  rw [hm, Nat.mul_div_cancel_left m hn]
  refine ⟨?_, hmL⟩
  have hsplit : L.flatten = (L.take m).flatten ++ (L.drop m).flatten := by
    rw [← List.flatten_append, List.take_append_drop]
  have htake : (L.take m).flatten.length = f.length := by
    rw [length_flatten_of_forall fun x hx => hL x (List.mem_of_mem_take hx), List.length_take,
      Nat.min_eq_left hmL, hm]
  rw [hsplit, List.append_assoc] at hpre
  have heq := List.prefix_iff_eq_take.mp hpre
  rwa [List.take_left' htake] at heq

end Pieces
