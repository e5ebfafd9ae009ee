import Mathlib.Order.Defs.Unbundled

/-!
# Plans

A plan works on a state and may fail; where it fails, it leaves no state behind.

## Main definitions

* `Plan ε σ α`: plans over the state `σ` that fail with `ε`.
* `Moves R m`: where `m` succeeds, it takes a state to one that `R` relates to it.

## Main results

* `bind_eq_ok`: a sequence succeeds when both parts do.
* `Moves.bind`, `Moves.ite`: the rules of composition.
-/

namespace Planning

variable {ε σ α β : Type}

/-- A program over a state that may fail. -/
def Plan (ε σ α : Type) : Type := σ → Except ε (α × σ)

namespace Plan

/-- Going on with a result. -/
protected def bind (m : Plan ε σ α) (k : α → Plan ε σ β) : Plan ε σ β := fun s =>
  match m s with
  | .ok (a, s') => k a s'
  | .error e => .error e

instance : Monad (Plan ε σ) where
  pure a := fun s => .ok (a, s)
  bind := Plan.bind

/-- A failure. -/
def fail (e : ε) : Plan ε σ α := fun _ => .error e

/-- A result that does not depend on the state, or a failure. -/
def lift (x : Except ε α) : Plan ε σ α := fun s => x.map (·, s)

/-- A plan that runs only under a condition. -/
def provided (p : Prop) [Decidable p] (m : Plan ε σ Unit) : Plan ε σ Unit :=
  if p then m else pure ()

/-- Changing the state. -/
def update (f : σ → σ) : Plan ε σ Unit := fun s => .ok ((), f s)

end Plan

open Plan

variable {m : Plan ε σ α} {k : α → Plan ε σ β} {s : σ}

@[simp]
theorem pure_apply (a : α) : (pure a : Plan ε σ α) s = .ok (a, s) := rfl

@[simp]
theorem fail_apply (e : ε) : (Plan.fail e : Plan ε σ α) s = .error e := rfl

@[simp]
theorem update_apply (f : σ → σ) : (Plan.update f : Plan ε σ Unit) s = .ok ((), f s) := rfl

@[simp]
theorem lift_ok (a : α) : (Plan.lift (.ok a) : Plan ε σ α) s = .ok (a, s) := rfl

theorem lift_eq_ok {x : Except ε α} {r : α × σ} :
    (Plan.lift x : Plan ε σ α) s = .ok r ↔ x = .ok r.1 ∧ r.2 = s := by
  cases x with
  | ok a =>
    rw [lift_ok]
    constructor
    · rintro ⟨⟩
      exact ⟨rfl, rfl⟩
    · rintro ⟨⟨⟩, rfl⟩
      rfl
  | error e =>
    constructor
    · rintro ⟨⟩
    · rintro ⟨⟨⟩, _⟩

theorem bind_of_ok {a : α} {s' : σ} (h : m s = .ok (a, s')) : (m >>= k) s = k a s' := by
  change Plan.bind m k s = k a s'
  rw [Plan.bind, h]

/-- A sequence succeeds when both of its parts do. -/
theorem bind_eq_ok {r : β × σ} :
    (m >>= k) s = .ok r ↔ ∃ a s', m s = .ok (a, s') ∧ k a s' = .ok r := by
  change Plan.bind m k s = .ok r ↔ _
  rw [Plan.bind]
  match m s with
  | .ok (a, s') =>
    constructor
    · exact fun h => ⟨a, s', rfl, h⟩
    · rintro ⟨_, _, ⟨⟩, h⟩
      exact h
  | .error e =>
    constructor
    · rintro ⟨⟩
    · rintro ⟨_, _, ⟨⟩, _⟩

/-- A sequence that begins with a result that does not depend on the state. -/
theorem lift_bind_eq_ok {x : Except ε α} {r : β × σ} :
    (Plan.lift x >>= k) s = .ok r ↔ ∃ a, x = .ok a ∧ k a s = .ok r := by
  rw [bind_eq_ok]
  constructor
  · rintro ⟨a, s', hx, h⟩
    have hs : s' = s := (lift_eq_ok.mp hx).2
    subst hs
    exact ⟨a, (lift_eq_ok.mp hx).1, h⟩
  · rintro ⟨a, rfl, h⟩
    exact ⟨a, s, lift_ok a, h⟩

/-- A sequence of results. -/
theorem result_bind_eq_ok {x : Except ε α} {k : α → Except ε β} {r : β} :
    (x >>= k) = .ok r ↔ ∃ a, x = .ok a ∧ k a = .ok r := by
  cases x with
  | ok a =>
    constructor
    · exact fun h => ⟨a, rfl, h⟩
    · rintro ⟨_, ⟨⟩, h⟩
      exact h
  | error e =>
    constructor
    · rintro ⟨⟩
    · rintro ⟨_, ⟨⟩, _⟩

/-! ### Moving along a preorder -/

/-- Where the plan succeeds, it relates its initial state to its final one. -/
def Moves (R : σ → σ → Prop) (m : Plan ε σ α) : Prop := ∀ s r, m s = .ok r → R s r.2

namespace Moves

variable {R : σ → σ → Prop}

theorem pure [Std.Refl R] (a : α) : Moves R (pure a : Plan ε σ α) := by
  rintro s _ ⟨⟩
  exact Std.Refl.refl s

theorem fail (e : ε) : Moves R (Plan.fail e : Plan ε σ α) := by
  rintro s _ ⟨⟩

theorem lift [Std.Refl R] (x : Except ε α) : Moves R (Plan.lift x : Plan ε σ α) := by
  intro s r hr
  rw [(lift_eq_ok.mp hr).2]
  exact Std.Refl.refl s

theorem update {f : σ → σ} (h : ∀ s, R s (f s)) : Moves R (Plan.update f : Plan ε σ Unit) := by
  rintro s _ ⟨⟩
  exact h s

theorem bind [IsTrans σ R] (hm : Moves R m) (hk : ∀ a, Moves R (k a)) : Moves R (m >>= k) := by
  intro s r hr
  obtain ⟨a, s', ha, hr⟩ := bind_eq_ok.mp hr
  exact IsTrans.trans _ _ _ (hm s _ ha) (hk a s' r hr)

theorem ite {p : Prop} [Decidable p] {m n : Plan ε σ α} (hm : p → Moves R m)
    (hn : ¬p → Moves R n) : Moves R (if p then m else n) :=
  iteInduction hm hn

theorem either {p : Prop} [Decidable p] {m n : Plan ε σ α} (hm : Moves R m)
    (hn : Moves R n) : Moves R (if p then m else n) :=
  .ite (fun _ => hm) fun _ => hn

theorem provided [Std.Refl R] {p : Prop} [Decidable p] {m : Plan ε σ Unit} (hm : p → Moves R m) :
    Moves R (Plan.provided p m) :=
  ite hm fun _ => pure _

end Moves

end Planning
