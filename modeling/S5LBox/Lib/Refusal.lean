import S5LBox.Lib.StateProgram

/-!
# Programs that refuse before they write

A program may end with a result by which it refuses its work. Such a run must come to nothing: it is
a step of a preorder `R`, the steps that count as no change. What comes before the refusal may read,
and a read that meets a failure sets a flag of the state. Behind the test of that flag, what has
been read comes to nothing.

## Main definitions

* `Reads R failed m`: every run is a step of `R`, or ends with the flag set.
* `Refuses R no m`: every run with a result of the kind `no` is a step of `R`.
* `Never no m`: no run has a result of that kind.

## Main results

* `Refuses.checked`: reads, the test of the flag, and a program that refuses.
* `Refuses.bind_of`: a program whose result says that it came to nothing, in front of the rest.
-/

namespace Refusal

open StateProgram

variable {σ α β : Type}

/-- The steps of the relation keep the flag. -/
class Flagged (R : σ → σ → Prop) (failed : σ → Bool) : Prop where
  flag : ∀ {s s' : σ}, R s s' → failed s' = failed s

variable (R : σ → σ → Prop) (failed : σ → Bool)

/-- A step of the relation, or one that ends with the flag set. -/
def Reading (s s' : σ) : Prop := R s s' ∨ failed s' = true

/-- Every run is a step of the relation, or ends with the flag set. -/
abbrev Reads (m : StateM σ α) : Prop := Moves (Reading R failed) m

/-- Every run with a result of the kind `no` is a step of the relation. -/
def Refuses (no : α → Prop) (m : StateM σ α) : Prop := ∀ s, no (m s).1 → R s (m s).2

/-- No run has a result of the kind `no`. -/
def Never (no : α → Prop) (m : StateM σ α) : Prop := ∀ s, ¬no (m s).1

instance [Std.Refl R] : Std.Refl (Reading R failed) := ⟨fun s => .inl (Std.Refl.refl s)⟩

instance [IsTrans σ R] [Flagged R failed] : IsTrans σ (Reading R failed) := by
  refine ⟨fun s s' s'' h h' => ?_⟩
  obtain h' | h' := h'
  · obtain h | h := h
    · exact .inl (IsTrans.trans _ _ _ h h')
    · exact .inr ((Flagged.flag h').trans h)
  · exact .inr h'

variable {R failed} {no : β → Prop} {m : StateM σ α} {f : α → StateM σ β}

theorem Reads.of_moves (h : Moves R m) : Reads R failed m := fun s => .inl (h s)

/-! ### Programs that never refuse -/

theorem Never.pure {b : β} (h : ¬no b) : Never no (pure b : StateM σ β) := fun _ => h

theorem Never.bind (hf : ∀ a, Never no (f a)) : Never no (m >>= f) := fun s => hf _ (m s).2

theorem Never.ite {p : Prop} [Decidable p] {m n : StateM σ β} (hm : p → Never no m)
    (hn : ¬p → Never no n) : Never no (if p then m else n) :=
  iteInduction hm hn

theorem Never.either {p : Prop} [Decidable p] {m n : StateM σ β} (hm : Never no m)
    (hn : Never no n) : Never no (if p then m else n) :=
  .ite (fun _ => hm) fun _ => hn

theorem Never.refuses {m : StateM σ β} (h : Never no m) : Refuses R no m :=
  fun s hs => absurd hs (h s)

/-! ### Programs that refuse -/

theorem Refuses.pure [Std.Refl R] (b : β) : Refuses R no (pure b : StateM σ β) :=
  fun s _ => Std.Refl.refl s

theorem Refuses.bind [IsTrans σ R] (hm : Moves R m) (hf : ∀ a, Refuses R no (f a)) :
    Refuses R no (m >>= f) :=
  fun s hs => IsTrans.trans _ _ _ (hm s) (hf (m s).1 (m s).2 hs)

theorem Refuses.ite {p : Prop} [Decidable p] {m n : StateM σ β} (hm : p → Refuses R no m)
    (hn : ¬p → Refuses R no n) : Refuses R no (if p then m else n) :=
  iteInduction hm hn

theorem Refuses.either {p : Prop} [Decidable p] {m n : StateM σ β} (hm : Refuses R no m)
    (hn : Refuses R no n) : Refuses R no (if p then m else n) :=
  .ite (fun _ => hm) fun _ => hn

/-- A program whose result says that it came to nothing, in front of a refusal; where the result
says otherwise nothing is refused. -/
theorem Refuses.bind_of [IsTrans σ R] {ok : α → Prop} (hm : Refuses R ok m)
    (hf : ∀ a, ok a → Refuses R no (f a)) (hr : ∀ a, ¬ok a → Never no (f a)) :
    Refuses R no (m >>= f) := by
  intro s hs
  by_cases h : ok (m s).1
  · exact IsTrans.trans _ _ _ (hm s h) (hf _ h _ hs)
  · exact absurd hs (hr _ h _)

/-- A program that hands a value on only where it came to nothing. -/
theorem Refuses.bind_some [IsTrans σ R] {m : StateM σ (Option α)} {f : Option α → StateM σ β}
    (hm : Refuses R (· ≠ none) m) (hn : Never no (f none)) (hf : ∀ a, Refuses R no (f (some a))) :
    Refuses R no (m >>= f) := by
  refine .bind_of hm (fun r hr => ?_) fun r hr => ?_
  · cases r with
    | none => exact absurd rfl hr
    | some a => exact hf a
  · cases r with
    | none => exact hn
    | some a => exact absurd nofun hr

/-- Reads, and a program behind the test of the flag. -/
theorem Refuses.checked [IsTrans σ R] {test : StateM σ Bool} (htest : ∀ s, test s = (failed s, s))
    (hm : Reads R failed m) {give go : α → StateM σ β} (hgive : ∀ a, Never no (give a))
    (hgo : ∀ a, Refuses R no (go a)) :
    Refuses R no (m >>= fun a => test >>= fun b => if b = true then give a else go a) := by
  intro s hs
  rw [run_bind, run_bind, htest] at hs ⊢
  cases hfailed : failed (m s).2 with
  | true =>
    rw [hfailed] at hs
    exact absurd hs (hgive _ _)
  | false =>
    rw [hfailed] at hs
    obtain hread | hread := hm s
    · exact IsTrans.trans _ _ _ hread (hgo _ _ hs)
    · rw [hfailed] at hread
      cases hread

/-- A program behind the test of the flag, with nothing before it. -/
theorem Refuses.tested {test : StateM σ Bool} (htest : ∀ s, test s = (failed s, s))
    {give go : StateM σ β} (hgive : Never no give) (hgo : Refuses R no go) :
    Refuses R no (test >>= fun b => if b = true then give else go) := by
  intro s hs
  rw [run_bind, htest] at hs ⊢
  cases hfailed : failed s with
  | true =>
    rw [hfailed] at hs
    exact absurd hs (hgive _)
  | false =>
    rw [hfailed] at hs
    exact hgo s hs

end Refusal
