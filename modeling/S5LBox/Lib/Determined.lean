import Mathlib.Logic.Relation
import Mathlib.Data.List.Basic

/-!
# Runs of a machine with one way to go

A machine that takes one step from a state, or none, has one run. Whatever has been stopped on the
way is on that run, and goes on to the same end; what the machine has written down by then is the
beginning of what it will have written.

## Main results

* `Runs.extend`: a run that has stopped early goes on to the end of any other.
* `Runs.written`: what has been written down stays.
* `Runs.simulate`: a run seen through another machine.
-/

namespace Determined

variable {α β : Type} {step : α → Option α} {a b c : α}

/-- The machine comes from one state to another. -/
def Runs (step : α → Option α) : α → α → Prop := Relation.ReflTransGen fun a b => step a = some b

theorem Runs.refl (a : α) : Runs step a a := Relation.ReflTransGen.refl

theorem Runs.one (h : step a = some b) : Runs step a b := .single h

theorem Runs.trans (h : Runs step a b) (h' : Runs step b c) : Runs step a c :=
  Relation.ReflTransGen.trans h h'

/-- A run is part of every run to an end. -/
theorem Runs.extend (h : Runs step a b) (h' : Runs step a c) (hend : step c = none) :
    Runs step b c := by
  induction h with
  | refl => exact h'
  | tail _ hstep ih =>
    obtain rfl | ⟨d, hfirst, hrest⟩ := Relation.ReflTransGen.cases_head ih
    · exact absurd (hstep.symm.trans hend) (Option.some_ne_none _)
    · rwa [Option.some.inj (hstep.symm.trans hfirst)]

theorem Runs.end_unique (h : Runs step a b) (h' : Runs step a c) (hb : step b = none)
    (hc : step c = none) : b = c := by
  obtain rfl | ⟨d, hfirst, -⟩ := Relation.ReflTransGen.cases_head (h.extend h' hc)
  · rfl
  · exact absurd (hfirst.symm.trans hb) (Option.some_ne_none _)

theorem Runs.invariant {I : α → Prop} (hstep : ∀ a b, step a = some b → I a → I b)
    (h : Runs step a b) (ha : I a) : I b := by
  induction h with
  | refl => exact ha
  | tail _ hlast ih => exact hstep _ _ hlast ih

theorem Runs.written {l : α → List β} (hstep : ∀ a b, step a = some b → l a <+: l b)
    (h : Runs step a b) : l a <+: l b := by
  induction h with
  | refl => exact List.prefix_refl _
  | tail _ hlast ih => exact ih.trans (hstep _ _ hlast)

/-- A run seen through another machine, which takes the same steps as long as nothing bad has been
met; what has once been met stays. -/
theorem Runs.simulate {t : β → Option β} {R : α → β → Prop} {G : α → Prop}
    (hgood : ∀ a b, step a = some b → G b → G a)
    (hstep : ∀ a b a', step a = some b → G b → R a a' → ∃ b', t a' = some b' ∧ R b b')
    (h : Runs step a b) (hb : G b) {a' : β} (ha : R a a') :
    ∃ b', Runs t a' b' ∧ R b b' := by
  induction h with
  | refl => exact ⟨a', .refl a', ha⟩
  | tail _ hlast ih =>
    obtain ⟨c', hruns, hc⟩ := ih (hgood _ _ hlast hb)
    obtain ⟨b', hb', hb⟩ := hstep _ _ c' hlast hb hc
    exact ⟨b', hruns.trans (.one hb'), hb⟩

/-- A run that nothing bad has been met on keeps what each such step keeps. -/
theorem Runs.invariant_of {I G : α → Prop} (hgood : ∀ a b, step a = some b → G b → G a)
    (hstep : ∀ a b, step a = some b → G b → I a → I b) (h : Runs step a b) (hb : G b)
    (ha : I a) : I b := by
  induction h with
  | refl => exact ha
  | tail _ hlast ih => exact hstep _ _ hlast hb (ih (hgood _ _ hlast hb))

end Determined
