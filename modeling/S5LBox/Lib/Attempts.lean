import Mathlib.Order.Defs.Unbundled

/-!
# Programs that may give up

A program over a state that ends with a result or gives up. What it did to the state before it
gave up stays done, so that a postcondition has one part for either end.

## Main definitions

* `Attempt σ α`: programs over the state `σ`.
* `Moves R m`: whichever way it ends, `m` takes a state to one that `R` relates to it.
* `Meets P m Q E`: from a state with `P`, a result of `m` meets `Q`, and where `m` gives up the
  state meets `E`.

## Main results

* `Moves.bind`, `Meets.bind`, `Meets.ite`, `Meets.weaken`: the rules of composition.
* `Moves.meets`: what a relation leaves alone is kept.
-/

namespace Attempts

variable {σ α β : Type}

/-- A program over a state that may give up. -/
def Attempt (σ α : Type) : Type := σ → Option α × σ

namespace Attempt

/-- Going on with a result. -/
protected def bind (m : Attempt σ α) (k : α → Attempt σ β) : Attempt σ β := fun s =>
  match m s with
  | (some a, s') => k a s'
  | (none, s') => (none, s')

instance : Monad (Attempt σ) where
  pure a := fun s => (some a, s)
  bind := Attempt.bind

/-- Giving up. -/
def giveUp : Attempt σ α := fun s => (none, s)

/-- Changing the state. -/
def update (f : σ → σ) : Attempt σ Unit := fun s => (some (), f s)

/-- Asking for a part of the state. -/
def ask (f : σ → α) : Attempt σ α := fun s => (some (f s), s)

/-- A program that runs only under a condition. -/
def provided (p : Prop) [Decidable p] (m : Attempt σ Unit) : Attempt σ Unit :=
  if p then m else pure ()

/-- What a program leaves behind, whichever way it ends. -/
def after (m : Attempt σ α) (s : σ) : σ := (m s).2

@[simp]
theorem pure_apply (a : α) (s : σ) : (pure a : Attempt σ α) s = (some a, s) := rfl

@[simp]
theorem giveUp_apply (s : σ) : (giveUp : Attempt σ α) s = (none, s) := rfl

@[simp]
theorem update_apply (f : σ → σ) (s : σ) : update f s = (some (), f s) := rfl

@[simp]
theorem ask_apply (f : σ → α) (s : σ) : ask f s = (some (f s), s) := rfl

end Attempt

open Attempt

/-! ### Moving along a preorder -/

/-- Every run of the program relates its initial state to its final one. -/
def Moves (R : σ → σ → Prop) (m : Attempt σ α) : Prop := ∀ s, R s (m.after s)

variable {p : Prop} {m : Attempt σ α}

namespace Moves

variable {R : σ → σ → Prop} {R' : σ → σ → Prop}

theorem pure [Std.Refl R] (a : α) : Moves R (pure a : Attempt σ α) := fun s => Std.Refl.refl s

theorem ask [Std.Refl R] (f : σ → α) : Moves R (Attempt.ask f) := fun s => Std.Refl.refl s

theorem update {f : σ → σ} (h : ∀ s, R s (f s)) : Moves R (Attempt.update f) := h

theorem bind [IsTrans σ R] {k : α → Attempt σ β} (hm : Moves R m) (hk : ∀ a, Moves R (k a)) :
    Moves R (m >>= k) := by
  intro s
  have hm := hm s
  change R s (Attempt.bind m k s).2
  rw [Attempt.after] at hm
  rw [Attempt.bind]
  match h : m s with
  | (some a, s') =>
    rw [h] at hm
    exact IsTrans.trans _ _ _ hm (hk a s')
  | (none, s') =>
    rw [h] at hm
    exact hm

theorem ite [Decidable p] {m n : Attempt σ α} (hm : p → Moves R m) (hn : ¬p → Moves R n) :
    Moves R (if p then m else n) :=
  iteInduction hm hn

theorem either [Decidable p] {m n : Attempt σ α} (hm : Moves R m) (hn : Moves R n) :
    Moves R (if p then m else n) :=
  .ite (fun _ => hm) fun _ => hn

theorem provided [Std.Refl R] [Decidable p] {m : Attempt σ Unit} (hm : Moves R m) :
    Moves R (Attempt.provided p m) :=
  ite (fun _ => hm) fun _ => pure _

theorem mono (hm : Moves R m) (h : ∀ s s', R s s' → R' s s') : Moves R' m :=
  fun s => h _ _ (hm s)

end Moves

/-! ### Triples -/

/-- From a state with the precondition a result and its state meet `Q`, and a state in which the
program gives up meets `E`. -/
def Meets (P : σ → Prop) (m : Attempt σ α) (Q : α → σ → Prop) (E : σ → Prop) : Prop :=
  ∀ s, P s → match m s with
    | (some a, s') => Q a s'
    | (none, s') => E s'

namespace Meets

variable {P P' : σ → Prop} {Q Q' : α → σ → Prop} {R : β → σ → Prop} {E E' : σ → Prop}

theorem pure {a : α} (h : ∀ s, P s → Q a s) : Meets P (pure a : Attempt σ α) Q E := h

theorem update {f : σ → σ} {Q : Unit → σ → Prop} (h : ∀ s, P s → Q () (f s)) :
    Meets P (Attempt.update f) Q E := h

theorem ask {f : σ → α} (h : ∀ s, P s → Q (f s) s) : Meets P (Attempt.ask f) Q E := h

theorem bind {k : α → Attempt σ β} (hm : Meets P m Q E) (hk : ∀ a, Meets (Q a) (k a) R E) :
    Meets P (m >>= k) R E := by
  intro s hs
  have hm := hm s hs
  change match Attempt.bind m k s with
    | (some b, s') => R b s'
    | (none, s') => E s'
  rw [Attempt.bind]
  match h : m s with
  | (some a, s') =>
    rw [h] at hm
    exact hk a s' hm
  | (none, s') =>
    rw [h] at hm
    exact hm

theorem ite [Decidable p] {m n : Attempt σ α} (hm : p → Meets P m Q E) (hn : ¬p → Meets P n Q E) :
    Meets P (if p then m else n) Q E :=
  iteInduction (motive := fun m => Meets P m Q E) hm hn

theorem either [Decidable p] {m n : Attempt σ α} (hm : Meets P m Q E) (hn : Meets P n Q E) :
    Meets P (if p then m else n) Q E :=
  .ite (fun _ => hm) fun _ => hn

theorem weaken (hm : Meets P m Q E) (hP : ∀ s, P' s → P s) (hQ : ∀ a s, Q a s → Q' a s)
    (hE : ∀ s, E s → E' s) : Meets P' m Q' E' := by
  intro s hs
  have hm := hm s (hP s hs)
  match h : m s with
  | (some a, s') =>
    rw [h] at hm
    exact hQ a s' hm
  | (none, s') =>
    rw [h] at hm
    exact hE s' hm

theorem dite [Decidable p] {m : p → Attempt σ α} {n : ¬p → Attempt σ α}
    (hm : ∀ h, Meets P (m h) Q E) (hn : ∀ h, Meets P (n h) Q E) :
    Meets P (if h : p then m h else n h) Q E := by
  by_cases h : p
  · rw [dif_pos h]
    exact hm h
  · rw [dif_neg h]
    exact hn h

theorem provided [Decidable p] {m : Attempt σ Unit} {Q : Unit → σ → Prop} (hm : p → Meets P m Q E)
    (hn : ¬p → ∀ s, P s → Q () s) :
    Meets P (Attempt.provided p m) Q E :=
  ite hm fun h => pure (hn h)

theorem given (h : p → Meets P m Q E) :
    Meets (fun s => p ∧ P s) m Q E :=
  fun s hs => h hs.1 s hs.2

/-- What holds of a result and what holds of the final state hold together. -/
theorem and (hm : Meets P m Q E) (hm' : Meets P' m Q' E') :
    Meets (fun s => P s ∧ P' s) m (fun a s => Q a s ∧ Q' a s) fun s => E s ∧ E' s := by
  intro s hs
  have hm := hm s hs.1
  have hm' := hm' s hs.2
  match h : m s with
  | (some a, s') =>
    rw [h] at hm hm'
    exact ⟨hm, hm'⟩
  | (none, s') =>
    rw [h] at hm hm'
    exact ⟨hm, hm'⟩

end Meets

/-- What a relation leaves alone is kept. -/
theorem Moves.meets {R : σ → σ → Prop} {P : σ → Prop} (hm : Moves R m)
    (hP : ∀ s s', R s s' → P s → P s') : Meets P m (fun _ => P) P := by
  intro s hs
  have hm := hP _ _ (hm s) hs
  rw [Attempt.after] at hm
  match h : m s with
  | (some a, s') =>
    rw [h] at hm
    exact hm
  | (none, s') =>
    rw [h] at hm
    exact hm

end Attempts
