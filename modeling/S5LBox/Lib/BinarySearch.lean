import Mathlib.Data.List.GetD

/-!
# Binary search

## Main results

* `search_spec`: what is in front of the result is low, and nothing behind it.
* `search_last`: in an ordered list, the element in front of the result is the greatest that is low.
-/

namespace S5LBox.BinarySearch

/-- The loop of a binary search: it finds how many of the places from `lo` to `hi` are low. -/
def search (low : Nat → Bool) (lo hi : Nat) : Nat :=
  if lo < hi then
    let mid := (lo + hi) / 2
    if low mid then search low (mid + 1) hi else search low lo mid
  else lo
termination_by hi - lo

variable {low : Nat → Bool} {lo hi n : Nat}

/-- The low places come first. -/
def Initial (low : Nat → Bool) (n : Nat) : Prop := ∀ i j, i ≤ j → j < n → low j → low i

theorem search_spec (hlow : Initial low hi) (hle : lo ≤ hi) :
    lo ≤ search low lo hi ∧ search low lo hi ≤ hi ∧
      ∀ i, lo ≤ i → i < hi → (low i ↔ i < search low lo hi) := by
  fun_induction search low lo hi with
  | case1 lo hi hlt mid hmid ih =>
    obtain ⟨hge, hhi, hiff⟩ := ih hlow (by omega)
    refine ⟨by omega, hhi, fun i hi₁ hi₂ => ?_⟩
    by_cases hi : mid + 1 ≤ i
    · exact hiff i hi hi₂
    · have himid : low i := hlow i mid (by omega) (by omega) hmid
      exact iff_of_true himid (by omega)
  | case2 lo hi hlt mid hmid ih =>
    have hinit : Initial low mid := fun i j hij hj => hlow i j hij (by omega)
    obtain ⟨hge, hhi, hiff⟩ := ih hinit (by omega)
    refine ⟨hge, by omega, fun i hi₁ hi₂ => ?_⟩
    by_cases hi : i < mid
    · exact hiff i hi₁ hi
    · have himid : ¬ low i := fun h => hmid (hlow mid i (by omega) hi₂ h)
      exact iff_of_false himid (by omega)
  | case3 lo hi hlt => exact ⟨Nat.le_refl _, hle, fun i hi₁ hi₂ => by omega⟩

variable {α : Type*} {f : α → Nat} {l : List α} {a : Nat} {d : α}

/-- The element in front of the place that is found. -/
theorem search_last (hn : n ≤ l.length) (hl : (l.take n).Pairwise fun x y => f x ≤ f y) :
    match search (fun i => f (l.getD i d) ≤ a) 0 n with
    | 0 => ∀ x ∈ l.take n, a < f x
    | i + 1 => l.getD i d ∈ l.take n ∧ f (l.getD i d) ≤ a ∧
        ∀ x ∈ l.take n, f x ≤ a → f x ≤ f (l.getD i d) := by
  have hget : ∀ i (hi : i < (l.take n).length), (l.take n).get ⟨i, hi⟩ = l.getD i d := by
    intro i hi
    have hi' := hi
    rw [List.length_take] at hi'
    rw [List.get_eq_getElem, List.getElem_take, List.getD_eq_getElem _ _ (by omega)]
  have hlen : (l.take n).length = n := List.length_take_of_le hn
  have hmono : ∀ i j, i ≤ j → j < n → f (l.getD i d) ≤ f (l.getD j d) := by
    intro i j hij hj
    rw [← hget i (by omega), ← hget j (by omega)]
    obtain rfl | hlt := Nat.eq_or_lt_of_le hij
    · exact Nat.le_refl _
    · exact List.pairwise_iff_getElem.1 hl i j _ _ hlt
  have hinit : Initial (fun i => decide (f (l.getD i d) ≤ a)) n := by
    intro i j hij hj hlow
    have hle := hmono i j hij hj
    simp only [decide_eq_true_eq] at hlow ⊢
    omega
  obtain ⟨-, hle, hiff⟩ := search_spec hinit (Nat.zero_le n)
  simp only [decide_eq_true_eq] at hiff
  have hmem : ∀ x ∈ l.take n, ∃ i, i < n ∧ l.getD i d = x := by
    intro x hx
    obtain ⟨⟨i, hi⟩, rfl⟩ := List.get_of_mem hx
    exact ⟨i, by omega, (hget i hi).symm⟩
  split
  · rename_i hzero
    intro x hx
    obtain ⟨i, hi, rfl⟩ := hmem x hx
    have hnot := (hiff i (Nat.zero_le i) hi).not.2 (by omega)
    omega
  · rename_i r hr
    rw [hr] at hle hiff
    refine ⟨?_, (hiff r (Nat.zero_le r) (by omega)).2 (by omega), fun x hx hxa => ?_⟩
    · rw [← hget r (by omega)]
      exact List.get_mem _ _
    · obtain ⟨i, hi, rfl⟩ := hmem x hx
      have hlt := (hiff i (Nat.zero_le i) hi).1 hxa
      exact hmono i r (by omega) (by omega)

end S5LBox.BinarySearch
