import Mathlib.Data.List.GetD
import Mathlib.Data.List.Induction
import Mathlib.Data.List.Sort

/-!
# Searching by borders

The search of a word for a pattern that goes over the word once. At each place it knows the longest
beginning of the pattern that ends there. One more symbol makes it longer, or it falls back to its
own longest border, which a table gives; the table is made by the same search, in the pattern itself.

## Main definitions

* `occurrences P w`: where the pattern `P` occurs in the word `w`, in order.
* `Longest P w bound k`: of the beginnings of `P` shorter than `bound`, the longest that ends `w` has
  the length `k`.
* `fallback`, `advance`, `prefixTable`: the search, and its table.

## Main results

* `Longest.advance`: the search goes on to the next symbol.
* `prefixTable_table`: the table is right.
* `occurrences_concat`: one more symbol adds the occurrence that it ends.
-/

namespace Borders

variable {α : Type} {P w : List α} {x : α}

/-! ### Beginnings of the pattern -/

/-- Of the beginnings of the pattern shorter than `bound`, the longest that ends the word has the
length `k`. -/
structure Longest (P w : List α) (bound k : Nat) : Prop where
  lt : k < bound
  ends : P.take k <:+ w
  most : ∀ j < bound, P.take j <:+ w → j ≤ k

theorem Longest.nil (hP : P ≠ []) : Longest P ([] : List α) P.length 0 := by
  refine ⟨List.length_pos_iff.mpr hP, List.nil_suffix, fun j hj h => ?_⟩
  have hlen := congrArg List.length (List.suffix_nil.mp h)
  rw [List.length_take, List.length_nil] at hlen
  omega

/-- The whole pattern has been met where the search is at its end. -/
theorem Longest.eq_length_iff {k : Nat} (h : Longest P w (P.length + 1) k) :
    k = P.length ↔ P <:+ w := by
  constructor
  · rintro rfl
    have hends := h.ends
    rwa [List.take_length] at hends
  · intro hsuffix
    refine (Nat.lt_succ_iff.mp h.lt).antisymm (h.most _ (Nat.lt_succ_self _) ?_)
    rwa [List.take_length]

theorem Longest.of_ne {k : Nat} (h : Longest P w (P.length + 1) k) (hne : k ≠ P.length) :
    Longest P w P.length k :=
  ⟨Nat.lt_of_le_of_ne (Nat.lt_succ_iff.mp h.lt) hne, h.ends,
    fun j hj hsuffix => h.most j (hj.trans (Nat.lt_succ_self _)) hsuffix⟩

theorem take_succ_of_getElem? {k : Nat} (h : P[k]? = some x) : P.take (k + 1) = P.take k ++ [x] := by
  rw [List.take_add_one, h]
  rfl

/-- What ends a word with one more symbol is empty, or ends the word before it. -/
theorem take_suffix_concat {j : Nat} (hj : j < P.length) (h : P.take (j + 1) <:+ w ++ [x]) :
    P.take j <:+ w ∧ P[j]? = some x := by
  have hget : P[j]? = some P[j] := List.getElem?_eq_getElem hj
  rw [take_succ_of_getElem? hget, List.suffix_concat_iff] at h
  rcases h with hnil | ⟨v, hv, hsuffix⟩
  · exact absurd hnil (List.append_ne_nil_of_right_ne_nil _ (List.cons_ne_nil _ _))
  · obtain ⟨rfl, hx⟩ := List.append_inj' hv rfl
    exact ⟨hsuffix, hget.trans (congrArg some (List.singleton_inj.mp hx))⟩

/-- Every entry of the table is the length of the longest border of a beginning of the pattern. -/
structure Table (P : List α) (t : List Nat) : Prop where
  le : t.length ≤ P.length
  entry : ∀ i < t.length, Longest P (P.take (i + 1)) (i + 1) (t.getD i 0)

variable [DecidableEq α]

/-! ### Occurrences -/

/-- The positions at which the pattern occurs in the word. -/
def occurrences (P w : List α) : List Nat :=
  (List.range (w.length + 1)).filter fun i => decide (P <+: w.drop i)

theorem mem_occurrences {i : Nat} : i ∈ occurrences P w ↔ i ≤ w.length ∧ P <+: w.drop i := by
  rw [occurrences, List.mem_filter, List.mem_range, Nat.lt_succ_iff, decide_eq_true_iff]

theorem occurrences_pairwise (P w : List α) : (occurrences P w).Pairwise (· < ·) :=
  List.pairwise_lt_range.filter _

theorem add_length_le {i : Nat} (hi : i ∈ occurrences P w) : i + P.length ≤ w.length := by
  obtain ⟨hle, hpre⟩ := mem_occurrences.mp hi
  have hlen := hpre.length_le
  rw [List.length_drop] at hlen
  omega

theorem occurrences_nil (hP : P ≠ []) : occurrences P ([] : List α) = [] := by
  rw [List.eq_nil_iff_forall_not_mem]
  intro i hi
  have hle := add_length_le hi
  have hpos := List.length_pos_iff.mpr hP
  exact absurd (hpos.trans_le (Nat.le_add_left _ i)) (Nat.not_lt.mpr hle)

/-- One more symbol adds the occurrence that it ends. -/
theorem occurrences_concat (hP : P ≠ []) (w : List α) (x : α) :
    occurrences P (w ++ [x]) =
      occurrences P w ++
        if P <:+ w ++ [x] then [w.length + 1 - P.length] else [] := by
  have hpos := List.length_pos_iff.mpr hP
  have hsorted : (occurrences P w ++
      if P <:+ w ++ [x] then [w.length + 1 - P.length] else []).Pairwise (· < ·) := by
    refine List.pairwise_append.mpr ⟨occurrences_pairwise P w, ?_, fun i hi j hj => ?_⟩
    · split_ifs
      · exact List.pairwise_singleton _ _
      · exact List.Pairwise.nil
    · have hle := add_length_le hi
      split_ifs at hj with h
      · obtain rfl := List.mem_singleton.mp hj
        omega
      · cases hj
  refine (occurrences_pairwise P _).eq_of_mem_iff hsorted fun i => ?_
  rw [List.mem_append]
  constructor
  · intro hi
    have hle := add_length_le hi
    obtain ⟨_, hpre⟩ := mem_occurrences.mp hi
    rw [List.length_append, List.length_singleton] at hle
    rw [List.drop_append_of_le_length (by omega), List.prefix_concat_iff] at hpre
    rcases hpre with hend | hpre
    · have hlen : P.length = w.length - i + 1 := by
        rw [hend, List.length_append, List.length_drop, List.length_singleton]
      have hsuffix : P <:+ w ++ [x] := by
        rw [hend, ← List.drop_append_of_le_length (by omega)]
        exact List.drop_suffix _ _
      rw [if_pos hsuffix, List.mem_singleton]
      exact .inr (by omega)
    · exact .inl (mem_occurrences.mpr ⟨by omega, hpre⟩)
  · rintro (hi | hi)
    · obtain ⟨hle, hpre⟩ := mem_occurrences.mp hi
      refine mem_occurrences.mpr ⟨by rw [List.length_append]; omega, ?_⟩
      rw [List.drop_append_of_le_length hle]
      exact hpre.trans (List.prefix_append _ _)
    · split_ifs at hi with h
      · obtain rfl := List.mem_singleton.mp hi
        have hdrop := List.suffix_iff_eq_drop.mp h
        rw [List.length_append, List.length_singleton] at hdrop
        refine mem_occurrences.mpr ⟨by rw [List.length_append]; omega, ?_⟩
        exact hdrop ▸ List.prefix_rfl
      · cases hi

/-- A longer word adds occurrences at the end. -/
theorem occurrences_append (hP : P ≠ []) (w v : List α) :
    occurrences P w <+: occurrences P (w ++ v) := by
  induction v using List.reverseRecOn with
  | nil => exact (List.append_nil w).symm ▸ List.prefix_rfl
  | append_singleton v x ih =>
    rw [← List.append_assoc, occurrences_concat hP]
    exact ih.trans (List.prefix_append _ _)

/-! ### The search -/

/-- Falls back to shorter borders until one is followed by the symbol. Each of them is shorter than
the one before, so that `k` turns are enough. -/
def fallback (P : List α) (t : List Nat) (x : α) : (turns k : Nat) → Nat
  | 0, k => k
  | turns + 1, k =>
    if k ≠ 0 ∧ P[k]? ≠ some x then fallback P t x turns (t.getD (k - 1) 0) else k

/-- The length of the longest beginning of the pattern that ends after one more symbol. -/
def advance (P : List α) (t : List Nat) (x : α) (k : Nat) : Nat :=
  let k' := fallback P t x k k
  if P[k']? = some x then k' + 1 else k'

/-- The table of the borders. -/
def prefixTable (P : List α) : List Nat :=
  (P.drop 1).foldl (fun t x => t ++ [advance P t x (t.getD (t.length - 1) 0)]) [0]

variable {t : List Nat} {bound : Nat}

/-- Falling back loses no beginning that the symbol could make longer. -/
theorem fallback_spec (ht : Table P t) {turns k : Nat} (hturns : k ≤ turns) (hk : k ≤ t.length)
    (hends : P.take k <:+ w)
    (hmost : ∀ j < bound, P.take j <:+ w → P[j]? = some x → j ≤ k) :
    fallback P t x turns k ≤ k ∧ P.take (fallback P t x turns k) <:+ w ∧
      (∀ j < bound, P.take j <:+ w → P[j]? = some x → j ≤ fallback P t x turns k) ∧
      (fallback P t x turns k = 0 ∨ P[fallback P t x turns k]? = some x) := by
  induction turns generalizing k with
  | zero =>
    obtain rfl := Nat.le_zero.mp hturns
    exact ⟨le_rfl, hends, hmost, .inl rfl⟩
  | succ turns ih =>
    rw [fallback]
    split_ifs with hback
    · obtain ⟨hne, hx⟩ := hback
      obtain ⟨hlt, hborder, hlongest⟩ := ht.entry (k - 1) (by omega)
      rw [Nat.sub_add_cancel (Nat.pos_of_ne_zero hne)] at hlt hborder hlongest
      have hshorter : ∀ j < bound, P.take j <:+ w → P[j]? = some x → j ≤ t.getD (k - 1) 0 := by
        intro j hj hjw hjx
        have hjk : j < k := by
          refine Nat.lt_of_le_of_ne (hmost j hj hjw hjx) ?_
          rintro rfl
          exact hx hjx
        refine hlongest j hjk (List.suffix_of_suffix_length_le hjw hends ?_)
        rw [List.length_take, List.length_take]
        omega
      obtain ⟨hle, hrest⟩ := ih (by omega) (by omega) (hborder.trans hends) hshorter
      exact ⟨by omega, hrest⟩
    · refine ⟨le_rfl, hends, hmost, ?_⟩
      by_cases hzero : k = 0
      · exact .inl hzero
      · exact .inr (not_not.mp fun hx => hback ⟨hzero, hx⟩)

/-- The search goes on to the next symbol. -/
theorem Longest.advance {k : Nat} (h : Longest P w bound k) (ht : Table P t)
    (hbound : bound ≤ P.length) (hk : k ≤ t.length) :
    Longest P (w ++ [x]) (bound + 1) (advance P t x k) := by
  obtain ⟨hle, hends, hmost, hstop⟩ :=
    fallback_spec ht le_rfl hk h.ends fun j hj hjw (_ : P[j]? = some x) => h.most j hj hjw
  have hlt := h.lt
  rw [Borders.advance]
  generalize fallback P t x k k = k' at hle hends hmost hstop
  have hbelow : ∀ j < bound + 1, P.take j <:+ w ++ [x] → j = 0 ∨
      ∃ i, j = i + 1 ∧ i ≤ k' ∧ P[i]? = some x := by
    intro j hj hsuffix
    cases j with
    | zero => exact .inl rfl
    | succ i =>
      obtain ⟨hi, hx⟩ := take_suffix_concat (by omega) hsuffix
      exact .inr ⟨i, rfl, hmost i (by omega) hi hx, hx⟩
  split_ifs with hx
  · refine ⟨by omega, ?_, fun j hj hsuffix => ?_⟩
    · rw [take_succ_of_getElem? hx]
      exact List.suffix_concat_iff.mpr (.inr ⟨_, rfl, hends⟩)
    · obtain rfl | ⟨i, rfl, hi, _⟩ := hbelow j hj hsuffix
      · exact Nat.zero_le _
      · exact Nat.succ_le_succ hi
  · obtain rfl := hstop.resolve_right hx
    refine ⟨by omega, List.nil_suffix, fun j hj hsuffix => ?_⟩
    obtain rfl | ⟨i, rfl, hi, hix⟩ := hbelow j hj hsuffix
    · exact le_rfl
    · obtain rfl := Nat.le_zero.mp hi
      exact absurd hix hx

/-! ### The table -/

/-- One more entry of the table. -/
theorem Table.snoc (ht : Table P t) (hpos : 0 < t.length) (hx : P[t.length]? = some x) :
    Table P (t ++ [Borders.advance P t x (t.getD (t.length - 1) 0)]) := by
  obtain ⟨hlt, _⟩ := List.getElem?_eq_some_iff.mp hx
  have hlast := ht.entry (t.length - 1) (by omega)
  rw [Nat.sub_add_cancel hpos] at hlast
  have hnext := hlast.advance (x := x) ht (by omega) hlast.lt.le
  rw [← take_succ_of_getElem? hx] at hnext
  refine ⟨by rw [List.length_append, List.length_singleton]; omega, fun i hi => ?_⟩
  rw [List.length_append, List.length_singleton] at hi
  obtain hi | rfl := Nat.lt_succ_iff_lt_or_eq.mp hi
  · rw [List.getD_append _ _ _ _ hi]
    exact ht.entry i hi
  · rw [List.getD_append_right _ _ _ _ le_rfl, Nat.sub_self]
    exact hnext

/-- The table that has been made so far goes on over the rest of the pattern. -/
theorem foldl_table {rest : List α} (ht : Table P t) (hpos : 0 < t.length)
    (hrest : P.drop t.length = rest) :
    Table P (rest.foldl (fun t x => t ++ [advance P t x (t.getD (t.length - 1) 0)]) t) ∧
      (rest.foldl (fun t x => t ++ [advance P t x (t.getD (t.length - 1) 0)]) t).length =
        P.length := by
  induction rest generalizing t with
  | nil => exact ⟨ht, ht.le.antisymm (List.drop_eq_nil_iff.mp hrest)⟩
  | cons x rest ih =>
    have hx : P[t.length]? = some x := by
      rw [← List.head?_drop, hrest, List.head?_cons]
    refine ih (ht.snoc hpos hx) (by simp) ?_
    rw [List.length_append, List.length_singleton, ← List.drop_drop, hrest, List.drop_one,
      List.tail_cons]

/-- The table is right, and there is an entry for each symbol of the pattern. -/
theorem prefixTable_table (hP : P ≠ []) :
    Table P (prefixTable P) ∧ (prefixTable P).length = P.length := by
  have hpos := List.length_pos_iff.mpr hP
  refine foldl_table ⟨hpos, fun i hi => ?_⟩ Nat.one_pos rfl
  obtain rfl := Nat.lt_one_iff.mp hi
  exact ⟨Nat.one_pos, List.nil_suffix, fun j hj _ => Nat.lt_succ_iff.mp hj⟩

/-! ### The search of a word -/

/-- After the whole pattern the search goes on from its longest border. -/
theorem Longest.restart (hP : P ≠ []) (h : P <:+ w) :
    Longest P w P.length ((prefixTable P).getD (P.length - 1) 0) := by
  have hpos := List.length_pos_iff.mpr hP
  obtain ⟨htable, hlen⟩ := prefixTable_table hP
  have hlast := htable.entry (P.length - 1) (by omega)
  rw [Nat.sub_add_cancel hpos, List.take_length] at hlast
  refine ⟨hlast.lt, hlast.ends.trans h, fun j hj hsuffix => hlast.most j hj ?_⟩
  refine List.suffix_of_suffix_length_le hsuffix h ?_
  rw [List.length_take]
  omega

end Borders
