import Mathlib.Data.List.Basic

/-!
# Chained blocks

A list is taken by blocks of `n` elements. Every block is combined with the block before it in the
encrypted list, the first one with a given block, and put through a permutation of blocks. What is
left at the end, shorter than a block, stays as it is.

## Main definitions

* `encryptChain`, `decryptChain`.

## Main results

* `decryptChain_encryptChain`: an encrypted list is decrypted to the list.
-/

namespace BlockChaining

variable {α : Type} (n : Nat) (c : α → α → α) (E D : List α → List α)

/-- The list with its blocks put through `E`, chained behind the block `prev`. -/
def encryptChain (prev : List α) (l : List α) : List α :=
  if _h : 0 < n ∧ n ≤ l.length then
    let block := E (List.zipWith c (l.take n) prev)
    block ++ encryptChain block (l.drop n)
  else l
termination_by l.length
decreasing_by
  rw [List.length_drop]
  omega

/-- The list with its blocks put through `D` and unchained, behind the block `prev`. -/
def decryptChain (prev : List α) (l : List α) : List α :=
  if _h : 0 < n ∧ n ≤ l.length then
    List.zipWith c (D (l.take n)) prev ++ decryptChain (l.take n) (l.drop n)
  else l
termination_by l.length
decreasing_by
  rw [List.length_drop]
  omega

variable {n c E D}

theorem decryptChain_of_lt {prev l : List α} (h : l.length < n) :
    decryptChain n c D prev l = l := by
  rw [decryptChain, dif_neg (by omega)]

theorem decryptChain_block {prev b l : List α} (hn : 0 < n) (h : b.length = n) :
    decryptChain n c D prev (b ++ l) =
      List.zipWith c (D b) prev ++ decryptChain n c D b l := by
  rw [decryptChain, dif_pos ⟨hn, by rw [List.length_append]; omega⟩, List.take_left' h,
    List.drop_left' h]

theorem length_decryptChain (hD : ∀ b : List α, b.length = n → (D b).length = n)
    {prev l : List α} (hprev : prev.length = n) :
    (decryptChain n c D prev l).length = l.length := by
  induction prev, l using decryptChain.induct (n := n) with
  | case1 prev l h ih =>
    have htake : (l.take n).length = n := List.length_take_of_le h.2
    rw [decryptChain, dif_pos h, List.length_append, ih htake, List.length_zipWith,
      hD _ htake, hprev, List.length_drop, Nat.min_self]
    omega
  | case2 prev l h => rw [decryptChain, dif_neg h]

/-- What is left over behind whole blocks stays as it is. -/
theorem decryptChain_append (hn : 0 < n) {prev a b : List α} {k : Nat} (ha : a.length = n * k)
    (hb : b.length < n) :
    decryptChain n c D prev (a ++ b) = decryptChain n c D prev a ++ b := by
  induction k generalizing prev a with
  | zero =>
    obtain rfl := List.length_eq_zero_iff.1 ha
    rw [List.nil_append, decryptChain_of_lt hb, decryptChain_of_lt hn, List.nil_append]
  | succ k ih =>
    rw [Nat.mul_succ] at ha
    have htake : (a.take n).length = n := List.length_take_of_le (by omega)
    have hdrop : (a.drop n).length = n * k := by
      rw [List.length_drop]
      omega
    rw [← List.take_append_drop n a, List.append_assoc, decryptChain_block hn htake, ih hdrop,
      decryptChain_block hn htake, List.append_assoc]

/-- An encrypted list is decrypted to the list. -/
theorem decryptChain_encryptChain (hD : ∀ b : List α, b.length = n → D (E b) = b)
    (hE : ∀ b : List α, b.length = n → (E b).length = n)
    (hc : ∀ a b, c (c a b) b = a) {prev : List α} (hprev : prev.length = n)
    (l : List α) :
    decryptChain n c D prev (encryptChain n c E prev l) = l := by
  induction prev, l using encryptChain.induct (n := n) (c := c) (E := E) with
  | case1 prev l h block ih =>
    have htake : (l.take n).length = n := List.length_take_of_le h.2
    have hzip : (List.zipWith c (l.take n) prev).length = n := by
      rw [List.length_zipWith, htake, hprev, Nat.min_self]
    have hundo : List.zipWith c (List.zipWith c (l.take n) prev) prev = l.take n := by
      refine List.ext_getElem (by rw [List.length_zipWith, hzip, hprev, htake, Nat.min_self])
        fun i hi hi' => ?_
      rw [List.getElem_zipWith, List.getElem_zipWith, hc]
    rw [encryptChain, dif_pos h, decryptChain_block h.1 (hE _ hzip), hD _ hzip, hundo,
      ih (hE _ hzip), List.take_append_drop]
  | case2 prev l h =>
    rw [encryptChain, dif_neg h, decryptChain, dif_neg h]

end BlockChaining
