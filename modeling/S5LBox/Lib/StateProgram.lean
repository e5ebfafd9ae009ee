import Mathlib.Order.Defs.Unbundled

/-!
# Programs over a state

Rules for programs in `StateM σ`. A program moves along a relation when every run of it relates
the initial state to the final one; for a preorder the rules are compositional, so that a
statement about a long program is a statement about its primitives. Keeping an invariant is the
special case of the preorder `fun s s' => I s → I s'`, and `Ensures` is the usual triple.

## Main definitions

* `Moves R m`: every run of `m` is a step of `R`.
* `Keeps I m`: `m` keeps the invariant `I`.
* `Ensures P m Q`: from a state with `P`, the result and the final state satisfy `Q`.
-/

namespace StateProgram

variable {σ α β : Type}

/-- Every run of the program relates its initial state to its final one. -/
def Moves (R : σ → σ → Prop) (m : StateM σ α) : Prop := ∀ s, R s (m s).2

/-- The program keeps an invariant. -/
def Keeps (I : σ → Prop) (m : StateM σ α) : Prop := ∀ s, I s → I (m s).2

/-- From a state with the precondition, the result and the final state satisfy the
postcondition. -/
def Ensures (P : σ → Prop) (m : StateM σ α) (Q : α → σ → Prop) : Prop :=
  ∀ s, P s → Q (m s).1 (m s).2

/-! ### Running a program -/

section Run

variable (m : StateM σ α) (f : α → StateM σ β) (s : σ)

@[simp]
theorem run_pure (a : α) : (pure a : StateM σ α) s = (a, s) := rfl

@[simp]
theorem run_bind : (m >>= f) s = f (m s).1 (m s).2 := rfl

@[simp]
theorem run_map (g : α → β) : (g <$> m) s = (g (m s).1, (m s).2) := rfl

@[simp]
theorem run_ite (p : Prop) [Decidable p] (m n : StateM σ α) :
    (if p then m else n) s = if p then m s else n s := by
  split <;> rfl

end Run

/-! ### Moving along a preorder -/

section Moves

variable {R : σ → σ → Prop}

@[simp]
theorem Moves.pure [Std.Refl R] (a : α) : Moves R (pure a : StateM σ α) :=
  fun s => Std.Refl.refl s

theorem Moves.bind [IsTrans σ R] {m : StateM σ α} {f : α → StateM σ β} (hm : Moves R m)
    (hf : ∀ a, Moves R (f a)) : Moves R (m >>= f) :=
  fun s => IsTrans.trans _ _ _ (hm s) (hf (m s).1 (m s).2)

theorem Moves.ite {p : Prop} [Decidable p] {m n : StateM σ α} (hm : p → Moves R m)
    (hn : ¬p → Moves R n) : Moves R (if p then m else n) :=
  iteInduction hm hn

theorem Moves.either {p : Prop} [Decidable p] {m n : StateM σ α} (hm : Moves R m)
    (hn : Moves R n) : Moves R (if p then m else n) :=
  .ite (fun _ => hm) fun _ => hn

end Moves

/-! ### Keeping an invariant -/

section Keeps

variable {I : σ → Prop}

@[simp]
theorem Keeps.pure (a : α) : Keeps I (pure a : StateM σ α) := fun _ h => h

theorem Keeps.bind {m : StateM σ α} {f : α → StateM σ β} (hm : Keeps I m)
    (hf : ∀ a, Keeps I (f a)) : Keeps I (m >>= f) :=
  fun s h => hf (m s).1 (m s).2 (hm s h)

theorem Keeps.ite {p : Prop} [Decidable p] {m n : StateM σ α} (hm : p → Keeps I m)
    (hn : ¬p → Keeps I n) : Keeps I (if p then m else n) :=
  iteInduction hm hn

theorem Keeps.either {p : Prop} [Decidable p] {m n : StateM σ α} (hm : Keeps I m)
    (hn : Keeps I n) : Keeps I (if p then m else n) :=
  .ite (fun _ => hm) fun _ => hn

end Keeps

/-! ### Triples -/

section Ensures

variable {P P' : σ → Prop} {Q Q' : α → σ → Prop}

theorem Ensures.pure {a : α} (h : ∀ s, P s → Q a s) : Ensures P (pure a : StateM σ α) Q := h

theorem Ensures.bind {m : StateM σ α} {f : α → StateM σ β} {T : β → σ → Prop}
    (hm : Ensures P m Q) (hf : ∀ a, Ensures (Q a) (f a) T) : Ensures P (m >>= f) T :=
  fun s h => hf (m s).1 (m s).2 (hm s h)

theorem Ensures.ite {p : Prop} [Decidable p] {m n : StateM σ α} (hm : p → Ensures P m Q)
    (hn : ¬p → Ensures P n Q) : Ensures P (if p then m else n) Q :=
  iteInduction (motive := fun m => Ensures P m Q) hm hn

end Ensures

end StateProgram
