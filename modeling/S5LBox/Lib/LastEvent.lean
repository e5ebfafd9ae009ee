import Mathlib.Data.Nat.Basic

/-!
# The last event of a run

A state may hold a tag. Some steps set it, and a step that is an event without setting the tag does
not leave it. So the tag that a run ends with has been set by the last event of the run, or it is
the tag that the run started with and there has been no event.

## Main definitions

* `LastEvent s sets event a i n`: step `i` set the tag `a` and is the last event before step `n`.

## Main results

* `exists_lastEvent`: the tag of a state comes from the last event.
-/

namespace Events

variable {σ τ : Type} {s : ℕ → σ} {sets : σ → τ → Prop} {event : σ → Prop}

/-- Step `i` set the tag `a`, and no event has come between it and step `n`. -/
structure LastEvent (s : ℕ → σ) (sets : σ → τ → Prop) (event : σ → Prop) (a : τ) (i n : ℕ) :
    Prop where
  before : i < n
  sets : sets (s i) a
  last : ∀ j, i < j → j < n → ¬event (s j)

/-- A step that is not an event goes on from the last one. -/
theorem LastEvent.next {a : τ} {i n : ℕ} (h : LastEvent s sets event a i n) (hn : ¬event (s n)) :
    LastEvent s sets event a i (n + 1) where
  before := Nat.lt_succ_of_lt h.before
  sets := h.sets
  last := fun j hij hj => by
    obtain hj | rfl := Nat.lt_succ_iff_lt_or_eq.mp hj
    · exact h.last j hij hj
    · exact hn

/-- The tag of a state in a run that started without one comes from the last event. -/
theorem exists_lastEvent (tag : σ → Option τ)
    (hstep : ∀ n a, tag (s (n + 1)) = some a → sets (s n) a ∨ tag (s n) = some a ∧ ¬event (s n))
    (hstart : tag (s 0) = none) {n : ℕ} {a : τ} (h : tag (s n) = some a) :
    ∃ i, LastEvent s sets event a i n := by
  induction n with
  | zero =>
    rw [hstart] at h
    cases h
  | succ n ih =>
    obtain hset | ⟨hkept, hquiet⟩ := hstep n a h
    · refine ⟨n, n.lt_succ_self, hset, fun j hnj hj => ?_⟩
      exact absurd hnj (Nat.le_of_lt_succ hj).not_gt
    · obtain ⟨i, hi⟩ := ih hkept
      exact ⟨i, hi.next hquiet⟩

end Events
