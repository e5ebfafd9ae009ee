import Mathlib.Order.Defs.Unbundled

/-!
# Programs that may be interrupted

A program asks its host for one thing after the other, and the host answers as it likes, within what
is allowed. It may be interrupted between any two of these, so that an invariant is to hold after
each of them and not only at the end.

## Main definitions

* `Prog ι ρ α`: programs that make requests `ι`, are answered by `ρ`, and end with a result.
* `Holds`: whatever the host answers, the invariant holds all the way, and the postcondition at the
  end.
* `May`: some answers lead to the postcondition.

## Main results

* `Holds.bind`, `Holds.weaken`, `Holds.ite`, `May.bind`: the rules of composition.
* `May.and_holds`: an end that may come about is one of those of which the rest is known.
-/

namespace Interruptible

variable {σ ι ρ α β : Type}

/-- A program that makes requests. -/
inductive Prog (ι ρ α : Type)
  | done (a : α)
  | call (i : ι) (k : ρ → Prog ι ρ α)

namespace Prog

/-- Going on with a result. -/
protected def bind : Prog ι ρ α → (α → Prog ι ρ β) → Prog ι ρ β
  | done a, f => f a
  | call i k, f => call i fun r => (k r).bind f

instance : Monad (Prog ι ρ) where
  pure := done
  bind := Prog.bind

end Prog

variable {allowed : σ → ι → ρ → Prop} {after : ι → ρ → σ → σ} {I : σ → Prop}
  {Q R : α → σ → Prop} {s : σ}

/-- Whatever is answered, the invariant holds all the way and the postcondition at the end. -/
def Holds (allowed : σ → ι → ρ → Prop) (after : ι → ρ → σ → σ) (I : σ → Prop) :
    Prog ι ρ α → (α → σ → Prop) → σ → Prop
  | .done a, Q, s => I s ∧ Q a s
  | .call i k, Q, s => I s ∧ ∀ r, allowed s i r → Holds allowed after I (k r) Q (after i r s)

variable {p : Prog ι ρ α}

namespace Holds

theorem now (h : Holds allowed after I p Q s) : I s := by
  cases p with
  | done _ => exact h.1
  | call _ _ => exact h.1

theorem pure {a : α} (hI : I s) (hQ : Q a s) :
    Holds allowed after I (Pure.pure a : Prog ι ρ α) Q s := ⟨hI, hQ⟩

theorem weaken (h : Holds allowed after I p Q s) (hQ : ∀ a s, Q a s → R a s) :
    Holds allowed after I p R s := by
  induction p generalizing s with
  | done a => exact ⟨h.1, hQ a s h.2⟩
  | call i k ih => exact ⟨h.1, fun r hr => ih r (h.2 r hr)⟩

theorem bind {f : α → Prog ι ρ β} {R : β → σ → Prop} (h : Holds allowed after I p Q s)
    (hf : ∀ a s, Q a s → Holds allowed after I (f a) R s) :
    Holds allowed after I (p >>= f) R s := by
  induction p generalizing s with
  | done a => exact hf a s h.2
  | call i k ih => exact ⟨h.1, fun r hr => ih r (h.2 r hr)⟩

theorem ite {c : Prop} [Decidable c] {p q : Prog ι ρ α} (hp : c → Holds allowed after I p Q s)
    (hq : ¬c → Holds allowed after I q Q s) : Holds allowed after I (if c then p else q) Q s :=
  iteInduction (motive := fun p => Holds allowed after I p Q s) hp hq

theorem either {c : Prop} [Decidable c] {p q : Prog ι ρ α} (hp : Holds allowed after I p Q s)
    (hq : Holds allowed after I q Q s) : Holds allowed after I (if c then p else q) Q s :=
  .ite (fun _ => hp) fun _ => hq

end Holds

/-- Some answers lead to an end as wanted. -/
def May (allowed : σ → ι → ρ → Prop) (after : ι → ρ → σ → σ) :
    Prog ι ρ α → (α → σ → Prop) → σ → Prop
  | .done a, Q, s => Q a s
  | .call i k, Q, s => ∃ r, allowed s i r ∧ May allowed after (k r) Q (after i r s)

namespace May

theorem bind {f : α → Prog ι ρ β} {R : β → σ → Prop} (h : May allowed after p Q s)
    (hf : ∀ a s, Q a s → May allowed after (f a) R s) :
    May allowed after (p >>= f) R s := by
  induction p generalizing s with
  | done a => exact hf a s h
  | call i k ih =>
    obtain ⟨r, hr, hend⟩ := h
    exact ⟨r, hr, ih r hend⟩

/-- What holds of every end holds of that one. -/
theorem and_holds (h : May allowed after p Q s) (hall : Holds allowed after I p R s) :
    May allowed after p (fun a s => Q a s ∧ R a s) s := by
  induction p generalizing s with
  | done a => exact ⟨h, hall.2⟩
  | call i k ih =>
    obtain ⟨r, hr, hend⟩ := h
    exact ⟨r, hr, ih r hend (hall.2 r hr)⟩

end May

end Interruptible
