import Mathlib.Data.Nat.Basic

/-!
# Scanning for a run

A scan from a position on, which counts the free positions that it has just passed and starts over
at one that is not free, finds a run of a given length wherever it has room for one.

## Main definitions

* `FreeRun free s n`: the `n` positions from `s` on are free.
* `firstRun`: the scan.

## Main results

* `firstRun_sound`: what it finds is such a run.
* `firstRun_isSome_iff`: it finds one when there is one.
-/

namespace RunScan

variable {free : Nat → Bool} {count : Nat}

/-- The `n` positions from `s` on are free. -/
def FreeRun (free : Nat → Bool) (s n : Nat) : Prop := ∀ i < n, free (s + i) = true

instance (s n : Nat) : Decidable (FreeRun free s n) :=
  inferInstanceAs (Decidable (∀ i < n, free (s + i) = true))

theorem FreeRun.snoc {s n : Nat} (h : FreeRun free s n) (hnext : free (s + n) = true) :
    FreeRun free s (n + 1) := by
  intro i hi
  obtain hlt | rfl := Nat.lt_succ_iff_lt_or_eq.mp hi
  · exact h i hlt
  · exact hnext

/-- The scan of `left` positions from `pos` on, with `run` free ones just before: the start of the
first run of `count` free positions. -/
def firstRun (free : Nat → Bool) (count : Nat) : (left pos run : Nat) → Option Nat
  | 0, _, _ => none
  | left + 1, pos, run =>
    if free pos then
      if run + 1 = count then some (pos - run) else firstRun free count left (pos + 1) (run + 1)
    else firstRun free count left (pos + 1) 0

/-- The positions just before are free, and fewer than a run. -/
structure Counted (free : Nat → Bool) (count pos run : Nat) : Prop where
  le : run ≤ pos
  lt : run < count
  free : FreeRun free (pos - run) run

theorem Counted.zero (hcount : 0 < count) (pos : Nat) : Counted free count pos 0 :=
  ⟨Nat.zero_le _, hcount, nofun⟩

theorem Counted.longer {pos run : Nat} (h : Counted free count pos run) (hfree : free pos = true) :
    FreeRun free (pos - run) (run + 1) :=
  h.free.snoc (by rwa [Nat.sub_add_cancel h.le])

theorem Counted.succ {pos run : Nat} (h : Counted free count pos run) (hfree : free pos = true)
    (hne : run + 1 ≠ count) : Counted free count (pos + 1) (run + 1) where
  le := Nat.succ_le_succ h.le
  lt := Nat.lt_of_le_of_ne h.lt hne
  free := by
    rw [Nat.add_sub_add_right]
    exact h.longer hfree

theorem firstRun_sound {left pos run s : Nat} (h : Counted free count pos run)
    (hs : firstRun free count left pos run = some s) :
    FreeRun free s count ∧ pos - run ≤ s ∧ s + count ≤ pos + left := by
  induction left generalizing pos run with
  | zero => cases hs
  | succ left ih =>
    rw [firstRun] at hs
    have hle := h.le
    split_ifs at hs with hfree hfull
    · cases hs
      rw [← hfull]
      exact ⟨h.longer hfree, le_rfl, by omega⟩
    · obtain ⟨hrun, hlow, hhigh⟩ := ih (h.succ hfree hfull) hs
      exact ⟨hrun, by omega, by omega⟩
    · have hcount : 0 < count := Nat.zero_lt_of_lt h.lt
      obtain ⟨hrun, hlow, hhigh⟩ := ih (Counted.zero hcount _) hs
      exact ⟨hrun, by omega, by omega⟩

theorem firstRun_complete {left pos run s : Nat} (h : Counted free count pos run)
    (hrun : FreeRun free s count) (hlow : pos - run ≤ s) (hhigh : s + count ≤ pos + left) :
    (firstRun free count left pos run).isSome := by
  have hle := h.le
  have hlt := h.lt
  induction left generalizing pos run with
  | zero => omega
  | succ left ih =>
    rw [firstRun]
    split_ifs with hfree hfull
    · rfl
    · have hnext := h.succ hfree hfull
      exact ih hnext (by omega) (by omega) hnext.le hnext.lt
    · have hpast : pos + 1 ≤ s := by
        by_contra hcross
        have hin : pos - s < count := by omega
        have hat := hrun (pos - s) hin
        rw [Nat.add_sub_cancel' (by omega)] at hat
        exact hfree hat
      have hzero : Counted free count (pos + 1) 0 := Counted.zero (Nat.zero_lt_of_lt hlt) _
      exact ih hzero hpast (by omega) hzero.le hzero.lt

/-- A scan that starts afresh finds a run exactly when there is one. -/
theorem firstRun_isSome_iff (hcount : 0 < count) (left pos : Nat) :
    (firstRun free count left pos 0).isSome ↔
      ∃ s, FreeRun free s count ∧ pos ≤ s ∧ s + count ≤ pos + left := by
  constructor
  · intro hsome
    obtain ⟨s, hs⟩ := Option.isSome_iff_exists.mp hsome
    exact ⟨s, firstRun_sound (Counted.zero hcount pos) hs⟩
  · rintro ⟨s, hrun, hlow, hhigh⟩
    exact firstRun_complete (Counted.zero hcount pos) hrun hlow hhigh

end RunScan
