import Mathlib.Data.List.Basic

/-!
# Stamps

Cells are observed, and a cell that is observed has a stamp, which stays the same until the cell
changes. New stamps come from a counter, which stops at its top; from then on no observation has a
stamp, and the cells that are observed stay so. Zero stands for no stamp.

## Main definitions

* `State`, `observe`, `change`, `forget`.
* `run`: a sequence of operations.
* `Op.Spoils`: the operation changes a cell, or forgets it.

## Main results

* `observe_of_spoils`: a stamp does not come back once the cell has been spoiled.
* `stamp_ne_zero_iff`: the observed cells.
* `exhausted_run`: the counter at its top.
-/

namespace Stamps

variable {ι : Type} [DecidableEq ι]

/-- The counter and the stamps of the cells. -/
structure State (ι : Type) where
  sequence : Nat := 0
  stamp : ι → Nat := fun _ => 0

variable (top : Nat)

/-- The next stamp, or zero when the counter is at its top. -/
def next (s : State ι) : Nat × State ι :=
  if s.sequence = top then (0, s) else (s.sequence + 1, { s with sequence := s.sequence + 1 })

/-- The observation of a cell, and its stamp. -/
def observe (s : State ι) (i : ι) : Nat × State ι :=
  if s.sequence = top then (0, s)
  else
    let s :=
      if s.stamp i = 0 then
        let (stamp, s) := next top s
        { s with stamp := Function.update s.stamp i stamp }
      else s
    (s.stamp i, s)

/-- A cell changes. -/
def touch (s : State ι) (i : ι) : State ι :=
  if s.stamp i ≠ 0 then
    let (stamp, s) := next top s
    { s with stamp := Function.update s.stamp i (if stamp ≠ 0 then stamp else top) }
  else s

/-- Cells change one after the other. -/
def change (s : State ι) (l : List ι) : State ι := l.foldl (touch top) s

/-- No cell is observed. -/
def forget (s : State ι) : State ι := { s with stamp := fun _ => 0 }

inductive Op (ι : Type)
  | observe (i : ι)
  | change (l : List ι)
  | forget

/-- One operation. -/
def Op.run (s : State ι) : Op ι → State ι
  | .observe i => (Stamps.observe top s i).2
  | .change l => Stamps.change top s l
  | .forget => Stamps.forget s

/-- A sequence of operations. -/
def run (s : State ι) (ops : List (Op ι)) : State ι := ops.foldl (Op.run top) s

/-- The operation changes the cell, or forgets it. -/
def Op.Spoils (i : ι) : Op ι → Prop
  | .observe _ => False
  | .change l => i ∈ l
  | .forget => True

variable {top} {s : State ι} {i j : ι} {k : Nat}

/-! ### Steps -/

theorem observe_exhausted (h : s.sequence = top) : observe top s i = (0, s) := if_pos h

theorem observe_first (h : s.sequence ≠ top) (hi : s.stamp i = 0) :
    observe top s i = (s.sequence + 1,
      ⟨s.sequence + 1, Function.update s.stamp i (s.sequence + 1)⟩) := by
  rw [observe, if_neg h, if_pos hi, next, if_neg h]
  dsimp only
  rw [Function.update_self]

theorem observe_again (h : s.sequence ≠ top) (hi : s.stamp i ≠ 0) :
    observe top s i = (s.stamp i, s) := by
  rw [observe, if_neg h, if_neg hi]

theorem touch_zero (hi : s.stamp i = 0) : touch top s i = s := if_neg (not_not.2 hi)

theorem touch_exhausted (h : s.sequence = top) (hi : s.stamp i ≠ 0) :
    touch top s i = ⟨s.sequence, Function.update s.stamp i top⟩ := by
  rw [touch, if_pos hi, next, if_pos h]
  rfl

theorem touch_next (h : s.sequence ≠ top) (hi : s.stamp i ≠ 0) :
    touch top s i = ⟨s.sequence + 1, Function.update s.stamp i (s.sequence + 1)⟩ := by
  rw [touch, if_pos hi, next, if_neg h]
  rfl

/-- What holds of a state after each of the single changes holds of it after an operation. -/
theorem Op.run_induction {P : State ι → Prop} (h : P s)
    (htouch : ∀ s j, P s → P (touch top s j))
    (hobserve : ∀ s j, P s → P (Stamps.observe top s j).2)
    (hforget : ∀ s, P s → P (Stamps.forget s)) (op : Op ι) : P (op.run top s) := by
  cases op with
  | observe j => exact hobserve s j h
  | change l =>
    rw [Op.run, Stamps.change]
    induction l generalizing s with
    | nil => exact h
    | cons j l ih => exact ih (htouch s j h)
  | forget => exact hforget s h

theorem run_induction {P : State ι → Prop} (h : P s)
    (htouch : ∀ s j, P s → P (touch top s j)) (hobserve : ∀ s j, P s → P (observe top s j).2)
    (hforget : ∀ s, P s → P (forget s)) (ops : List (Op ι)) : P (run top s ops) := by
  induction ops generalizing s with
  | nil => exact h
  | cons op ops ih => exact ih (op.run_induction h htouch hobserve hforget)

/-! ### The counter -/

/-- No stamp is ahead of the counter, and the counter is not ahead of its top. -/
def Bounded (top : Nat) (s : State ι) : Prop :=
  s.sequence ≤ top ∧ ∀ i, s.stamp i ≤ s.sequence

theorem le_update {s : State ι} (h : ∀ i, s.stamp i ≤ s.sequence) {n : Nat}
    (hn : s.sequence ≤ n) (j i : ι) : Function.update s.stamp j n i ≤ n := by
  by_cases hij : i = j
  · have hself : Function.update s.stamp j n i = n := by rw [hij, Function.update_self]
    exact Nat.le_of_eq hself
  · rw [Function.update_of_ne hij]
    exact Nat.le_trans (h i) hn

theorem Bounded.touch (s : State ι) (j : ι) (h : Bounded top s) :
    Bounded top (touch top s j) := by
  by_cases hj : s.stamp j = 0
  · rwa [touch_zero hj]
  · by_cases htop : s.sequence = top
    · rw [touch_exhausted htop hj]
      exact ⟨h.1, htop ▸ le_update h.2 (Nat.le_refl _) j⟩
    · rw [touch_next htop hj]
      exact ⟨Nat.lt_of_le_of_ne h.1 htop, le_update h.2 (Nat.le_succ _) j⟩

theorem Bounded.observe (s : State ι) (j : ι) (h : Bounded top s) :
    Bounded top (observe top s j).2 := by
  by_cases htop : s.sequence = top
  · rwa [observe_exhausted htop]
  · by_cases hj : s.stamp j = 0
    · rw [observe_first htop hj]
      exact ⟨Nat.lt_of_le_of_ne h.1 htop, le_update h.2 (Nat.le_succ _) j⟩
    · rwa [observe_again htop hj]

theorem Bounded.run (h : Bounded top s) (ops : List (Op ι)) : Bounded top (run top s ops) :=
  run_induction h Bounded.touch Bounded.observe (fun _ h => ⟨h.1, fun _ => Nat.zero_le _⟩) ops

/-! ### Spoiled cells -/

/-- From now on the stamp of the cell is `k` or later, if the cell has one that an observation
gives. -/
def Later (top : Nat) (i : ι) (k : Nat) (s : State ι) : Prop :=
  k ≤ s.sequence + 1 ∧ (s.sequence = top ∨ s.stamp i = 0 ∨ k ≤ s.stamp i)

theorem Later.next {n : Nat} {j : ι} (h : Later top i k s) (htop : s.sequence ≠ top)
    (hn : n = s.sequence + 1) : Later top i k ⟨n, Function.update s.stamp j n⟩ := by
  obtain ⟨hle, hi⟩ := h
  subst hn
  refine ⟨Nat.le_succ_of_le hle, Or.inr ?_⟩
  by_cases hij : i = j
  · rw [hij]
    dsimp only
    rw [Function.update_self]
    exact Or.inr hle
  · dsimp only
    rw [Function.update_of_ne hij]
    exact hi.resolve_left htop

theorem Later.touch (s : State ι) (j : ι) (h : Later top i k s) :
    Later top i k (touch top s j) := by
  by_cases hj : s.stamp j = 0
  · rwa [touch_zero hj]
  · by_cases htop : s.sequence = top
    · rw [touch_exhausted htop hj]
      exact ⟨h.1, Or.inl htop⟩
    · rw [touch_next htop hj]
      exact h.next htop rfl

theorem Later.observe (s : State ι) (j : ι) (h : Later top i k s) :
    Later top i k (observe top s j).2 := by
  by_cases htop : s.sequence = top
  · rwa [observe_exhausted htop]
  · by_cases hj : s.stamp j = 0
    · rw [observe_first htop hj]
      exact h.next htop rfl
    · rwa [observe_again htop hj]

omit [DecidableEq ι] in
theorem Later.forget (s : State ι) (h : Later top i k s) : Later top i k (forget s) :=
  ⟨h.1, Or.inr (Or.inl rfl)⟩

theorem Later.run (hs : Later top i k s) (ops : List (Op ι)) : Later top i k (run top s ops) :=
  run_induction hs Later.touch Later.observe Later.forget ops

/-- A cell that is touched has a later stamp. -/
theorem later_touch (hk : k ≤ s.sequence) :
    Later top i (k + 1) (Stamps.touch top s i) := by
  have hnext : k + 1 ≤ s.sequence + 1 := Nat.succ_le_succ hk
  by_cases hi : s.stamp i = 0
  · rw [touch_zero hi]
    exact ⟨hnext, Or.inr (Or.inl hi)⟩
  · by_cases htop : s.sequence = top
    · rw [touch_exhausted htop hi]
      exact ⟨hnext, Or.inl htop⟩
    · rw [touch_next htop hi]
      refine ⟨Nat.le_succ_of_le hnext, Or.inr (Or.inr ?_)⟩
      dsimp only
      rw [Function.update_self]
      exact hnext

theorem le_touch (s : State ι) (j : ι) (hk : k ≤ s.sequence) : k ≤ (touch top s j).sequence := by
  by_cases hj : s.stamp j = 0
  · rwa [touch_zero hj]
  · by_cases htop : s.sequence = top
    · rwa [touch_exhausted htop hj]
    · rw [touch_next htop hj]
      exact Nat.le_succ_of_le hk

theorem le_observe (s : State ι) (j : ι) (hk : k ≤ s.sequence) :
    k ≤ (observe top s j).2.sequence := by
  by_cases htop : s.sequence = top
  · rwa [observe_exhausted htop]
  · by_cases hj : s.stamp j = 0
    · rw [observe_first htop hj]
      exact Nat.le_succ_of_le hk
    · rwa [observe_again htop hj]

theorem le_run (hk : k ≤ s.sequence) (ops : List (Op ι)) : k ≤ (run top s ops).sequence :=
  run_induction (P := fun s => k ≤ s.sequence) hk le_touch le_observe (fun _ h => h) ops

/-- A cell that is spoiled has a later stamp or none. -/
theorem later_of_spoils (hk : k ≤ s.sequence) {op : Op ι}
    (hop : op.Spoils i) : Later top i (k + 1) (op.run top s) := by
  cases op with
  | observe j => exact hop.elim
  | forget => exact ⟨Nat.succ_le_succ hk, Or.inr (Or.inl rfl)⟩
  | change l =>
    rw [Op.run, change]
    induction l generalizing s with
    | nil => cases hop
    | cons j l ih =>
      obtain rfl | hi := List.mem_cons.1 hop
      · exact Op.run_induction (later_touch hk) Later.touch Later.observe Later.forget (.change l)
      · exact ih (le_touch s j hk) hi

/-- An observation gives no earlier stamp. -/
theorem Later.observe_ne (h : Later top i (k + 1) s) (hk : k ≠ 0) :
    (Stamps.observe top s i).1 ≠ k := by
  by_cases htop : s.sequence = top
  · rw [observe_exhausted htop]
    exact Ne.symm hk
  · by_cases hi : s.stamp i = 0
    · rw [observe_first htop hi]
      exact Nat.ne_of_gt h.1
    · rw [observe_again htop hi]
      exact Nat.ne_of_gt ((h.2.resolve_left htop).resolve_left hi)

/-- After an observation that gives a stamp, the cell has it. -/
theorem stamp_observe (h : (observe top s i).1 ≠ 0) :
    (observe top s i).2.stamp i = (observe top s i).1 := by
  by_cases htop : s.sequence = top
  · rw [observe_exhausted htop] at h
    exact absurd rfl h
  · by_cases hi : s.stamp i = 0
    · rw [observe_first htop hi]
      exact Function.update_self ..
    · rw [observe_again htop hi]

/-- A stamp does not come back once the cell has been spoiled. -/
theorem observe_of_spoils (hs : Bounded top s) (hk : k ≠ 0) (hfirst : (observe top s i).1 = k)
    {ops : List (Op ι)} {op : Op ι} (hmem : op ∈ ops) (hop : op.Spoils i) :
    (observe top (run top (observe top s i).2 ops) i).1 ≠ k := by
  obtain ⟨before, after, rfl⟩ := List.append_of_mem hmem
  have hstamp : (observe top s i).2.stamp i = k :=
    (stamp_observe (hfirst.trans_ne hk)).trans hfirst
  have hle : k ≤ (observe top s i).2.sequence := hstamp ▸ (hs.observe s i).2 i
  have hspoiled : Later top i (k + 1) (op.run top (run top (observe top s i).2 before)) :=
    later_of_spoils (le_run hle before) hop
  rw [run, List.foldl_append, List.foldl_cons]
  exact (hspoiled.run after).observe_ne hk

/-! ### Observed cells -/

/-- What happens to a cell with a stamp leaves it one, unless all stamps are forgotten. -/
theorem touch_stamp_ne_zero (hs : Bounded top s) (hi : s.stamp i ≠ 0) (j : ι) :
    (touch top s j).stamp i ≠ 0 := by
  by_cases hj : s.stamp j = 0
  · rwa [touch_zero hj]
  · by_cases hij : i = j
    · by_cases htop : s.sequence = top
      · rw [touch_exhausted htop hj, hij]
        dsimp only
        rw [Function.update_self, ← htop]
        exact Nat.ne_of_gt (Nat.lt_of_lt_of_le (Nat.pos_of_ne_zero hj) (hs.2 j))
      · rw [touch_next htop hj, hij]
        dsimp only
        rw [Function.update_self]
        exact Nat.succ_ne_zero _
    · by_cases htop : s.sequence = top
      · rw [touch_exhausted htop hj]
        dsimp only
        rwa [Function.update_of_ne hij]
      · rw [touch_next htop hj]
        dsimp only
        rwa [Function.update_of_ne hij]

/-- A cell without a stamp gets none when cells change. -/
theorem touch_stamp_zero (hi : s.stamp i = 0) (j : ι) : (touch top s j).stamp i = 0 := by
  by_cases hj : s.stamp j = 0
  · rwa [touch_zero hj]
  · have hij : i ≠ j := fun h => hj (h ▸ hi)
    by_cases htop : s.sequence = top
    · rw [touch_exhausted htop hj]
      dsimp only
      rwa [Function.update_of_ne hij]
    · rw [touch_next htop hj]
      dsimp only
      rwa [Function.update_of_ne hij]

theorem change_stamp (hs : Bounded top s) (l : List ι) :
    (change top s l).stamp i ≠ 0 ↔ s.stamp i ≠ 0 := by
  induction l generalizing s with
  | nil => exact Iff.rfl
  | cons j l ih =>
    refine (ih (hs.touch s j)).trans ⟨fun h hi => h (touch_stamp_zero hi j), fun hi => ?_⟩
    exact touch_stamp_ne_zero hs hi j

/-- After an observation, the cells with a stamp are those from before and the cell that got one. -/
theorem observe_stamp (j : ι) :
    (observe top s j).2.stamp i ≠ 0 ↔ s.stamp i ≠ 0 ∨ (i = j ∧ (observe top s j).1 ≠ 0) := by
  by_cases htop : s.sequence = top
  · rw [observe_exhausted htop]
    exact ⟨Or.inl, fun h => h.elim id fun h => absurd rfl h.2⟩
  · by_cases hj : s.stamp j = 0
    · rw [observe_first htop hj]
      dsimp only
      by_cases hij : i = j
      · rw [hij, Function.update_self]
        exact ⟨fun h => Or.inr ⟨rfl, h⟩, fun _ => Nat.succ_ne_zero _⟩
      · rw [Function.update_of_ne hij]
        exact ⟨Or.inl, fun h => h.resolve_right fun h => hij h.1⟩
    · rw [observe_again htop hj]
      exact ⟨Or.inl, fun h => h.elim id fun h => h.1 ▸ h.2⟩

/-! ### The counter at its top -/

theorem exhausted_run (h : s.sequence = top) (ops : List (Op ι)) :
    (run top s ops).sequence = top := by
  refine run_induction (P := fun s => s.sequence = top) h (fun s j h => ?_) (fun s j h => ?_)
    (fun _ h => h) ops
  · by_cases hj : s.stamp j = 0
    · rwa [touch_zero hj]
    · rwa [touch_exhausted h hj]
  · rwa [observe_exhausted h]

end Stamps
