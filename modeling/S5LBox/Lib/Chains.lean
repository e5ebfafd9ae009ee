import Mathlib.Logic.Relation

/-!
# Following a chain

Every element has a successor or is an end. A chain is followed for a number of steps at most, so
that one that comes round again is given up.

## Main definitions

* `chase`: the end of a chain, if it is reached in so many steps.
* `Ends`: the end of a chain.

## Main results

* `Ends.unique`: a chain has one end.
* `ends_of_chase`, `chase_mono`: what is reached is the end, and more steps change nothing.
* `chase_shortcut`: successors may be replaced by ends.
-/

namespace Chains

variable {ι : Type} {next next' : ι → Option ι} {i j k : ι} {m n : Nat}

/-- The end of the chain from an element, if it is no more than `n` steps away. -/
def chase (next : ι → Option ι) : Nat → ι → Option ι
  | 0, i =>
    match next i with
    | none => some i
    | some _ => none
  | n + 1, i =>
    match next i with
    | none => some i
    | some j => chase next n j

/-- A chain ends. -/
def Ends (next : ι → Option ι) (i j : ι) : Prop :=
  Relation.ReflTransGen (fun a b => next a = some b) i j ∧ next j = none

theorem chase_of_end (h : next i = none) : chase next n i = some i := by
  cases n with
  | zero => rw [chase, h]
  | succ n => rw [chase, h]

theorem ends_of_chase (h : chase next n i = some j) : Ends next i j := by
  induction n generalizing i with
  | zero =>
    rw [chase] at h
    split at h
    · obtain rfl := Option.some.inj h
      exact ⟨.refl, ‹_›⟩
    · exact absurd h nofun
  | succ n ih =>
    rw [chase] at h
    split at h
    · obtain rfl := Option.some.inj h
      exact ⟨.refl, ‹_›⟩
    · obtain ⟨hchain, hend⟩ := ih h
      exact ⟨.head ‹_› hchain, hend⟩

theorem chase_mono (hmn : m ≤ n) (h : chase next m i = some j) : chase next n i = some j := by
  induction m generalizing n i with
  | zero =>
    rw [chase] at h
    split at h
    · obtain rfl := Option.some.inj h
      exact chase_of_end ‹_›
    · exact absurd h nofun
  | succ m ih =>
    rw [chase] at h
    split at h
    · obtain rfl := Option.some.inj h
      exact chase_of_end ‹_›
    · rename_i hnext
      cases n with
      | zero => exact absurd hmn (Nat.not_succ_le_zero m)
      | succ n =>
        rw [chase, hnext]
        exact ih (Nat.le_of_succ_le_succ hmn) h

theorem Ends.unique (hj : Ends next i j) (hk : Ends next i k) : j = k := by
  obtain ⟨hchain, hend⟩ := hj
  induction hchain using Relation.ReflTransGen.head_induction_on with
  | refl =>
    obtain rfl | ⟨_, hstep, _⟩ := hk.1.cases_head
    · rfl
    · exact absurd (hend.symm.trans hstep) nofun
  | head hstep _ ih =>
    obtain rfl | ⟨_, hstep', hrest⟩ := hk.1.cases_head
    · exact absurd (hk.2.symm.trans hstep) nofun
    · obtain rfl := Option.some.inj (hstep.symm.trans hstep')
      exact ih ⟨hrest, hk.2⟩

/-- A successor may be replaced by the end of its chain. -/
theorem chase_shortcut
    (hnext : ∀ i, next' i = next i ∨ next i ≠ none ∧ ∃ j, next' i = some j ∧ Ends next i j)
    (h : chase next n i = some k) : chase next' n i = some k := by
  have hend {k : ι} (hk : next k = none) : next' k = none :=
    ((hnext k).resolve_right fun hne => hne.1 hk).trans hk
  induction n generalizing i with
  | zero =>
    rw [chase] at h
    split at h
    · obtain rfl := Option.some.inj h
      exact chase_of_end (hend ‹_›)
    · exact absurd h nofun
  | succ n ih =>
    have hends := ends_of_chase h
    rw [chase] at h
    split at h
    · obtain rfl := Option.some.inj h
      exact chase_of_end (hend ‹_›)
    · rename_i j hj
      obtain hsame | ⟨-, j', hj', hends'⟩ := hnext i
      · rw [chase, hsame, hj]
        exact ih h
      · obtain rfl := hends'.unique hends
        rw [chase, hj']
        exact chase_of_end (hend hends.2)

end Chains
