import Mathlib.Order.Defs.Unbundled

/-!
# Runs of a system

A system moves from state to state, one action at a time. A run is a sequence of actions, each of
which meets a condition on itself and on the state it is taken in. What holds at the start of a
run and survives every such action holds in every state the run reaches.

## Main definitions

* `Run step ok s s'`: actions that meet `ok` lead from `s` to `s'`.

## Main results

* `Run.keeps`: the induction along a run, with the step lemma as its premise.
-/

namespace Runs

variable {σ ι : Type} {step : ι → σ → σ} {ok : σ → ι → Prop}

/-- The states reached from `s` by actions that meet the condition `ok`. -/
inductive Run (step : ι → σ → σ) (ok : σ → ι → Prop) (s : σ) : σ → Prop
  | start : Run step ok s s
  | next {s' : σ} (a : ι) (run : Run step ok s s') (h : ok s' a) : Run step ok s (step a s')

/-- What holds at the start and survives every action of the run holds at its end. -/
theorem Run.keeps {I : σ → Prop} (hstep : ∀ s a, ok s a → I s → I (step a s)) {s s' : σ}
    (run : Run step ok s s') (h : I s) : I s' := by
  induction run with
  | start => exact h
  | next a _ hok ih => exact hstep _ a hok ih

theorem Run.mono {ok' : σ → ι → Prop} (h : ∀ s a, ok s a → ok' s a) {s s' : σ}
    (run : Run step ok s s') : Run step ok' s s' := by
  induction run with
  | start => exact .start
  | next a _ hok ih => exact .next a ih (h _ a hok)

/-- A run of actions that keep a property is one of actions taken where the property holds. -/
theorem Run.within {I : σ → Prop} (hstep : ∀ s a, ok s a → I s → I (step a s)) {s s' : σ}
    (run : Run step ok s s') (h : I s) : Run step (fun s a => ok s a ∧ I s) s s' := by
  induction run with
  | start => exact .start
  | next a run hok ih => exact .next a ih ⟨hok, run.keeps hstep h⟩

/-- A list of actions, taken in turn. -/
def follow (step : ι → σ → σ) (s : σ) (as : List ι) : σ := as.foldl (fun s a => step a s) s

/-- Actions that need meet nothing make a run. -/
theorem run_follow (s : σ) (as : List ι) : Run step (fun _ _ => True) s (follow step s as) := by
  suffices h : ∀ s', Run step (fun _ _ => True) s s' →
      Run step (fun _ _ => True) s (follow step s' as) from h s .start
  induction as with
  | nil => exact fun _ run => run
  | cons a as ih => exact fun _ run => ih _ (.next a run trivial)

/-- Actions each of which meets the condition where it is taken. -/
def Admitted (step : ι → σ → σ) (ok : σ → ι → Prop) : σ → List ι → Prop
  | _, [] => True
  | s, a :: as => ok s a ∧ Admitted step ok (step a s) as

instance Admitted.decidable [∀ s a, Decidable (ok s a)] :
    (s : σ) → (as : List ι) → Decidable (Admitted step ok s as)
  | _, [] => instDecidableTrue
  | s, a :: as =>
    have := Admitted.decidable (step a s) as
    inferInstanceAs (Decidable (ok s a ∧ Admitted step ok (step a s) as))

/-- Such actions make a run. -/
theorem run_of_admitted {s : σ} {as : List ι} (h : Admitted step ok s as) :
    Run step ok s (follow step s as) := by
  suffices hfrom : ∀ s', Run step ok s s' → Admitted step ok s' as →
      Run step ok s (follow step s' as) from hfrom s .start h
  clear h
  induction as with
  | nil => exact fun _ run _ => run
  | cons a as ih => exact fun s' run h => ih _ (.next a run h.1) h.2

end Runs
