import S5LBox.Lib.StateProgram

/-!
# Programs that fail before they write

A program may set a failure flag and go on to its end. What it must not do is leave a part of its
work behind: when the flag is set at the end, the view `view` of the state is the one the program
started from. Such a program may be abandoned and started again.

Programs are built from quiet ones, which keep the view whether they fail or not, by the pattern
"quiet program, test of the flag, commit": the commit cannot fail, so a failure comes before it.
A second view `mark` is kept by every program, failed or not.

## Main definitions

* `Quiet`: keeps both views.
* `Commits`: does not fail.
* `Restores`: keeps the view whenever the flag is set at the end.
* `AtomicAt`, `Atomic`: the same, from a state in which nothing has failed.
* `Reports`, `Tells`: the result says that nothing has failed.

## Main results

* `Restores.checked`: the test of the flag in front of a commit.
* `Restores.bind`, `Atomic.bind_of`: quiet programs in front of the rest.
-/

namespace Rollback

open StateProgram

variable {σ α β γ δ : Type} (failed : σ → Bool) (view : σ → γ) (mark : σ → δ)

/-- The program keeps both views. -/
def Quiet (m : StateM σ α) : Prop :=
  Moves (fun s s' => view s' = view s ∧ mark s' = mark s) m

/-- From a state in which nothing has failed the program does not fail. -/
def Commits (m : StateM σ α) : Prop :=
  Moves (fun s s' => (failed s = false → failed s' = false) ∧ mark s' = mark s) m

/-- When the flag is set at the end of the run, the view is the one the run started from. -/
def Restores (m : StateM σ α) : Prop :=
  Moves (fun s s' => (failed s' = true → view s' = view s) ∧ mark s' = mark s) m

/-- The run from a state, when nothing has failed in it, fails before it writes. -/
def AtomicAt (m : StateM σ α) (s : σ) : Prop :=
  failed s = false → (failed (m s).2 = true → view (m s).2 = view s) ∧ mark (m s).2 = mark s

/-- Every run from a state in which nothing has failed fails before it writes. -/
def Atomic (m : StateM σ α) : Prop := ∀ s, AtomicAt failed view mark m s

/-- A result of the right kind says that nothing has failed. -/
def Reports (ok : α → Prop) (m : StateM σ α) : Prop := ∀ s, ok (m s).1 → failed (m s).2 = false

/-- A result of the right kind says that nothing has failed, in a run from a state in which
nothing has. -/
def Tells (ok : α → Prop) (m : StateM σ α) : Prop :=
  ∀ s, failed s = false → ok (m s).1 → failed (m s).2 = false

instance reflView : Std.Refl fun s s' => view s' = view s ∧ mark s' = mark s := ⟨fun _ => ⟨rfl, rfl⟩⟩

instance transView : IsTrans σ fun s s' => view s' = view s ∧ mark s' = mark s :=
  ⟨fun _ _ _ h h' => ⟨h'.1.trans h.1, h'.2.trans h.2⟩⟩

instance reflFailed : Std.Refl fun s s' => (failed s = false → failed s' = false) ∧ mark s' = mark s :=
  ⟨fun _ => ⟨id, rfl⟩⟩

instance transFailed : IsTrans σ fun s s' => (failed s = false → failed s' = false) ∧ mark s' = mark s :=
  ⟨fun _ _ _ h h' => ⟨h'.1 ∘ h.1, h'.2.trans h.2⟩⟩

variable {failed view mark} {m : StateM σ α} {f : α → StateM σ β}

/-! ### Quiet programs and commits -/

@[simp]
theorem Quiet.pure (a : α) : Quiet view mark (pure a : StateM σ α) := Moves.pure a

theorem Quiet.bind (hm : Quiet view mark m) (hf : ∀ a, Quiet view mark (f a)) :
    Quiet view mark (m >>= f) := Moves.bind hm hf

variable {p : Prop}

theorem Quiet.ite [Decidable p] {m n : StateM σ α} (hm : p → Quiet view mark m)
    (hn : ¬p → Quiet view mark n) : Quiet view mark (if p then m else n) := Moves.ite hm hn

theorem Quiet.either [Decidable p] {m n : StateM σ α} (hm : Quiet view mark m)
    (hn : Quiet view mark n) : Quiet view mark (if p then m else n) :=
  .ite (fun _ => hm) fun _ => hn

@[simp]
theorem Commits.pure (a : α) : Commits failed mark (pure a : StateM σ α) := Moves.pure a

theorem Commits.bind (hm : Commits failed mark m) (hf : ∀ a, Commits failed mark (f a)) :
    Commits failed mark (m >>= f) := Moves.bind hm hf

theorem Commits.ite [Decidable p] {m n : StateM σ α} (hm : p → Commits failed mark m)
    (hn : ¬p → Commits failed mark n) : Commits failed mark (if p then m else n) :=
  Moves.ite hm hn

theorem Commits.either [Decidable p] {m n : StateM σ α} (hm : Commits failed mark m)
    (hn : Commits failed mark n) : Commits failed mark (if p then m else n) :=
  .ite (fun _ => hm) fun _ => hn

/-! ### Restoring from any state -/

theorem Restores.pure (a : α) : Restores failed view mark (pure a : StateM σ α) :=
  fun _ => ⟨fun _ => rfl, rfl⟩

theorem Restores.ite [Decidable p] {m n : StateM σ α} (hm : p → Restores failed view mark m)
    (hn : ¬p → Restores failed view mark n) :
    Restores failed view mark (if p then m else n) := Moves.ite hm hn

theorem Restores.either [Decidable p] {m n : StateM σ α} (hm : Restores failed view mark m)
    (hn : Restores failed view mark n) :
    Restores failed view mark (if p then m else n) :=
  .ite (fun _ => hm) fun _ => hn

theorem Quiet.restores (h : Quiet view mark m) : Restores failed view mark m :=
  fun s => ⟨fun _ => (h s).1, (h s).2⟩

theorem Restores.bind (hm : Quiet view mark m) (hf : ∀ a, Restores failed view mark (f a)) :
    Restores failed view mark (m >>= f) := by
  intro s
  obtain ⟨hview, hmark⟩ := hm s
  obtain ⟨hfview, hfmark⟩ := hf (m s).1 (m s).2
  exact ⟨fun h => (hfview h).trans hview, hfmark.trans hmark⟩

/-! ### Atomic programs -/

theorem Restores.atomic (h : Restores failed view mark m) : Atomic failed view mark m :=
  fun s _ => h s

theorem Quiet.atomic (h : Quiet view mark m) : Atomic failed view mark m := h.restores.atomic

theorem Commits.atomic (h : Commits failed mark m) : Atomic failed view mark m := by
  intro s hs
  obtain ⟨hfailed, hmark⟩ := h s
  refine ⟨fun h => ?_, hmark⟩
  rw [hfailed hs] at h
  cases h

theorem Atomic.pure (a : α) : Atomic failed view mark (pure a : StateM σ α) :=
  fun _ _ => ⟨fun _ => rfl, rfl⟩

theorem Atomic.ite [Decidable p] {m n : StateM σ α} (hm : p → Atomic failed view mark m)
    (hn : ¬p → Atomic failed view mark n) :
    Atomic failed view mark (if p then m else n) :=
  iteInduction hm hn

theorem Atomic.either [Decidable p] {m n : StateM σ α} (hm : Atomic failed view mark m)
    (hn : Atomic failed view mark n) :
    Atomic failed view mark (if p then m else n) :=
  .ite (fun _ => hm) fun _ => hn

theorem AtomicAt.ite [Decidable p] {m n : StateM σ α} {s : σ}
    (hm : p → AtomicAt failed view mark m s) (hn : ¬p → AtomicAt failed view mark n s) :
    AtomicAt failed view mark (if p then m else n) s :=
  iteInduction (motive := fun m => AtomicAt failed view mark m s) hm hn

theorem AtomicAt.either [Decidable p] {m n : StateM σ α} {s : σ}
    (hm : AtomicAt failed view mark m s) (hn : AtomicAt failed view mark n s) :
    AtomicAt failed view mark (if p then m else n) s :=
  .ite (fun _ => hm) fun _ => hn

theorem Atomic.bind (hm : Quiet view mark m) (hf : ∀ a, Restores failed view mark (f a)) :
    Atomic failed view mark (m >>= f) :=
  (Restores.bind hm hf).atomic

theorem Atomic.read (hm : ∀ s, (m s).2 = s) (hf : ∀ a, Atomic failed view mark (f a)) :
    Atomic failed view mark (m >>= f) := by
  intro s hs
  have hrest := hf (m s).1 s hs
  rwa [← congrArg (fun s' => (f (m s).1 s').2) (hm s)] at hrest

/-- A quiet program whose result tells whether it failed, in front of one that restores from any
state where it did, and is atomic where it did not. -/
theorem Atomic.bind_of {ok : α → Prop} (hm : Quiet view mark m) (hok : Tells failed ok m)
    (hf : ∀ a, ok a → Atomic failed view mark (f a))
    (hr : ∀ a, ¬ ok a → Restores failed view mark (f a)) :
    Atomic failed view mark (m >>= f) := by
  intro s hs
  obtain ⟨hview, hmark⟩ := hm s
  have htail : (failed ((m >>= f) s).2 = true → view ((m >>= f) s).2 = view (m s).2) ∧
      mark ((m >>= f) s).2 = mark (m s).2 := by
    by_cases h : ok (m s).1
    · exact hf _ h _ (hok s hs h)
    · exact hr _ h _
  exact ⟨fun h => (htail.1 h).trans hview, htail.2.trans hmark⟩

theorem Atomic.map (g : α → β) (hm : Atomic failed view mark m) :
    Atomic failed view mark (m >>= fun a => Pure.pure (g a)) := hm

/-- A quiet program that does not fail in front of an atomic one. -/
theorem Atomic.after (hm : Quiet view mark m) (hc : Commits failed mark m)
    (hf : ∀ a, Atomic failed view mark (f a)) : Atomic failed view mark (m >>= f) := by
  intro s hs
  obtain ⟨hview, hmark⟩ := hm s
  obtain ⟨hfview, hfmark⟩ := hf (m s).1 (m s).2 ((hc s).1 hs)
  exact ⟨fun h => (hfview h).trans hview, hfmark.trans hmark⟩

/-- An atomic program whose result tells whether it failed, in front of a commit where it did
not, and of nothing where it did. -/
theorem Atomic.seq {ok : α → Prop} (hm : Atomic failed view mark m) (hok : Tells failed ok m)
    (hf : ∀ a, ok a → Commits failed mark (f a)) (hr : ∀ a, ¬ ok a → ∀ s, (f a s).2 = s) :
    Atomic failed view mark (m >>= f) := by
  intro s hs
  by_cases h : ok (m s).1
  · obtain ⟨hfailed, hmark⟩ := hf _ h (m s).2
    refine ⟨fun hend => ?_, hmark.trans (hm s hs).2⟩
    rw [run_bind, hfailed (hok s hs h)] at hend
    cases hend
  · rw [run_bind, hr _ h]
    exact hm s hs

/-! ### The test of the flag -/

section Test

variable {test : StateM σ Bool} (htest : ∀ s, test s = (failed s, s))

include htest

/-- The commit behind the test runs only when nothing has failed. -/
theorem Restores.checked {give go : StateM σ α} (hgive : Restores failed view mark give)
    (hgo : Atomic failed view mark go) :
    Restores failed view mark (test >>= fun b => if b = true then give else go) := by
  intro s
  simp only [run_bind, htest]
  cases hs : failed s with
  | true => exact hgive s
  | false => exact hgo s hs

theorem Reports.checked {ok : α → Prop} {give go : StateM σ α} (hgive : Reports failed ok give)
    (hgo : Tells failed ok go) :
    Reports failed ok (test >>= fun b => if b = true then give else go) := by
  intro s
  simp only [run_bind, htest]
  cases hs : failed s with
  | true => exact hgive s
  | false => exact hgo s hs

theorem Reports.of_test : Reports failed (· = true) (test >>= fun b => Pure.pure (!b)) := by
  intro s h
  simp only [run_bind, run_pure, htest, Bool.not_eq_true'] at h ⊢
  exact h

end Test

/-! ### Results that tell of failure -/

section Tell

variable {ok : β → Prop}

theorem Reports.tells {ok : α → Prop} (h : Reports failed ok m) : Tells failed ok m :=
  fun s _ => h s

theorem Reports.pure {b : β} (h : ¬ ok b) : Reports failed ok (Pure.pure b : StateM σ β) :=
  fun _ hb => absurd hb h

theorem Reports.bind (hf : ∀ a, Reports failed ok (f a)) : Reports failed ok (m >>= f) :=
  fun s => hf (m s).1 (m s).2

theorem Reports.ite [Decidable p] {m n : StateM σ β} (hm : p → Reports failed ok m)
    (hn : ¬p → Reports failed ok n) : Reports failed ok (if p then m else n) :=
  iteInduction hm hn

theorem Reports.either [Decidable p] {m n : StateM σ β} (hm : Reports failed ok m)
    (hn : Reports failed ok n) : Reports failed ok (if p then m else n) :=
  .ite (fun _ => hm) fun _ => hn

theorem Tells.bind_of {ok' : α → Prop} (hm : Tells failed ok' m)
    (hf : ∀ a, ok' a → Tells failed ok (f a)) (hr : ∀ a, ¬ ok' a → Reports failed ok (f a)) :
    Tells failed ok (m >>= f) := by
  intro s hs
  by_cases h : ok' (m s).1
  · exact hf _ h _ (hm s hs h)
  · exact hr _ h _

end Tell

end Rollback
