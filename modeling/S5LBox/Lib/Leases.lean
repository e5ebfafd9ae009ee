import Mathlib.Data.List.Count

/-!
# Leases

Handles are acquired from someone who hands them out, used, and released again. A log lists what
has been done, the newest first. A table holds a handle in each of its slots, or none, and what
happens to a slot adds to the log. When no handle is handed out that is held, the handles that are
held by the log are those in the table.

## Main definitions

* `Held`, `Disciplined`, `Fresh`: what a log says of its handles.
* `Change`: what may happen to a slot, with what it adds to the log.
* `Tracks`: a table and a log that agree.

## Main results

* `Tracks.change`: they agree after every change.
* `Disciplined.count_acquire`: every handle is released once for each time it has been acquired,
  but for the handles that are held.
-/

namespace Leases

variable {η ι : Type}

inductive Event (η : Type)
  | acquire (h : η)
  | use (h : η)
  | release (h : η)
  deriving DecidableEq

/-! ### Logs -/

/-- The handle has been acquired and not been released since. -/
def Held (h : η) : List (Event η) → Prop
  | [] => False
  | .acquire k :: log => k = h ∨ Held h log
  | .use _ :: log => Held h log
  | .release k :: log => k ≠ h ∧ Held h log

/-- What is used or released is held. -/
def Disciplined : List (Event η) → Prop
  | [] => True
  | .acquire _ :: log => Disciplined log
  | .use h :: log => Held h log ∧ Disciplined log
  | .release h :: log => Held h log ∧ Disciplined log

/-- What is acquired is not held. -/
def Fresh : List (Event η) → Prop
  | [] => True
  | .acquire h :: log => ¬Held h log ∧ Fresh log
  | .use _ :: log => Fresh log
  | .release _ :: log => Fresh log

section Decidable

variable [DecidableEq η]

instance decidableHeld (h : η) : (log : List (Event η)) → Decidable (Held h log)
  | [] => inferInstanceAs (Decidable False)
  | .acquire k :: log =>
    have := decidableHeld h log
    inferInstanceAs (Decidable (k = h ∨ Held h log))
  | .use _ :: log => decidableHeld h log
  | .release k :: log =>
    have := decidableHeld h log
    inferInstanceAs (Decidable (k ≠ h ∧ Held h log))

instance decidableFresh : (log : List (Event η)) → Decidable (Fresh log)
  | [] => inferInstanceAs (Decidable True)
  | .acquire h :: log =>
    have := decidableFresh log
    inferInstanceAs (Decidable (¬Held h log ∧ Fresh log))
  | .use _ :: log => decidableFresh log
  | .release _ :: log => decidableFresh log

end Decidable

theorem Fresh.of_append {es log : List (Event η)} (h : Fresh (es ++ log)) : Fresh log := by
  induction es with
  | nil => exact h
  | cons e es ih =>
    cases e with
    | acquire k => exact ih h.2
    | use k => exact ih h
    | release k => exact ih h

/-- Every handle has been released as often as it has been acquired, or once less when it is
held. -/
theorem Disciplined.count_acquire [DecidableEq η] {log : List (Event η)} (h : Disciplined log)
    (hfresh : Fresh log) (k : η) :
    log.count (.acquire k) = log.count (.release k) + if Held k log then 1 else 0 := by
  induction log with
  | nil => rfl
  | cons e log ih =>
    cases e with
    | acquire j =>
      have hkeep := ih h hfresh.2
      simp only [List.count_cons, beq_iff_eq, Event.acquire.injEq, reduceCtorEq, if_false,
        Nat.add_zero]
      by_cases hjk : j = k
      · have hnow : Held k (.acquire j :: log) := .inl hjk
        have hnot : ¬Held k log := hjk ▸ hfresh.1
        rw [if_neg hnot] at hkeep
        rw [if_pos hjk, if_pos hnow, hkeep]
      · have hsame : Held k (.acquire j :: log) ↔ Held k log := or_iff_right hjk
        rw [if_neg hjk, if_congr hsame rfl rfl]
        exact hkeep
    | use j =>
      have hsame : Held k (.use j :: log) ↔ Held k log := Iff.rfl
      simp only [List.count_cons, beq_iff_eq, reduceCtorEq, if_false]
      rw [if_congr hsame rfl rfl]
      exact ih h.2 hfresh
    | release j =>
      have hkeep := ih h.2 hfresh
      simp only [List.count_cons, beq_iff_eq, Event.release.injEq, reduceCtorEq, if_false,
        Nat.add_zero]
      by_cases hjk : j = k
      · have hgone : ¬Held k (.release j :: log) := fun hheld => hheld.1 hjk
        have hwas : Held k log := hjk ▸ h.1
        rw [if_pos hwas] at hkeep
        rw [if_pos hjk, if_neg hgone, hkeep]
      · have hsame : Held k (.release j :: log) ↔ Held k log := and_iff_right hjk
        rw [if_neg hjk, if_congr hsame rfl rfl]
        exact hkeep

/-! ### Tables -/

/-- A log that only uses a handle. -/
def OnlyUses (h : η) (es : List (Event η)) : Prop := ∀ e ∈ es, e = .use h

/-- What may happen to a slot. -/
inductive Change : Option η → Option η → List (Event η) → Prop
  /-- Nothing. -/
  | idle (o : Option η) : Change o o []
  /-- Its handle is used. -/
  | uses (h : η) (es : List (Event η)) (hes : OnlyUses h es) : Change (some h) (some h) es
  /-- Its handle is released in the end. -/
  | ends (h : η) (es : List (Event η)) (hes : OnlyUses h es) :
    Change (some h) none (.release h :: es)
  /-- A handle is acquired for it. -/
  | opens (h : η) (es : List (Event η)) (hes : OnlyUses h es) :
    Change none (some h) (es ++ [.acquire h])
  /-- A handle is acquired for it and released again. -/
  | passes (h : η) (es : List (Event η)) (hes : OnlyUses h es) :
    Change none none (.release h :: (es ++ [.acquire h]))

variable {es : List (Event η)}

/-- What happens to a slot behind the acquisition of its handle. -/
theorem Change.opened {h : η} {o : Option η} (hchange : Change (some h) o es) :
    Change none o (es ++ [.acquire h]) := by
  cases hchange with
  | idle => exact .opens h [] fun _ he => absurd he List.not_mem_nil
  | uses h es hes => exact .opens h es hes
  | ends h es hes => exact .passes h es hes

/-- The handles that are held are those in the table, each in one slot. -/
structure Tracks (table : ι → Option η) (log : List (Event η)) : Prop where
  disciplined : Disciplined log
  held : ∀ h, Held h log ↔ ∃ i, table i = some h
  single : ∀ i j h, table i = some h → table j = some h → i = j

theorem OnlyUses.held_append {h : η} (hes : OnlyUses h es) (k : η) (log : List (Event η)) :
    Held k (es ++ log) ↔ Held k log := by
  induction es with
  | nil => rfl
  | cons e es ih =>
    rw [hes e List.mem_cons_self]
    exact ih fun e' he' => hes e' (List.mem_cons_of_mem _ he')

theorem OnlyUses.disciplined_append {h : η} {es log : List (Event η)} (hes : OnlyUses h es)
    (hheld : Held h log) (hlog : Disciplined log) : Disciplined (es ++ log) := by
  induction es with
  | nil => exact hlog
  | cons e es ih =>
    have hmore : OnlyUses h es := fun e' he' => hes e' (List.mem_cons_of_mem _ he')
    rw [hes e List.mem_cons_self]
    exact ⟨(hmore.held_append h log).mpr hheld, ih hmore⟩

namespace Tracks

variable {table : ι → Option η} {log : List (Event η)} {i : ι} {h : η}

theorem init : Tracks (fun _ : ι => (none : Option η)) [] where
  disciplined := trivial
  held _ := ⟨False.elim, fun ⟨_, hsome⟩ => nomatch hsome⟩
  single _ _ _ hi := nomatch hi

theorem uses (t : Tracks table log) (hi : table i = some h) (hes : OnlyUses h es) :
    Tracks table (es ++ log) where
  disciplined := hes.disciplined_append ((t.held h).mpr ⟨i, hi⟩) t.disciplined
  held k := (hes.held_append k log).trans (t.held k)
  single := t.single

variable [DecidableEq ι]

theorem acquire (t : Tracks table log) (hi : table i = none) (hfresh : ¬Held h log) :
    Tracks (Function.update table i (some h)) (.acquire h :: log) where
  disciplined := t.disciplined
  held k := by
    constructor
    · rintro (rfl | hheld)
      · exact ⟨i, Function.update_self i _ table⟩
      · obtain ⟨j, hj⟩ := (t.held k).mp hheld
        have hne : j ≠ i := by
          rintro rfl
          exact nomatch hi.symm.trans hj
        exact ⟨j, by rw [Function.update_of_ne hne, hj]⟩
    · rintro ⟨j, hj⟩
      by_cases hji : j = i
      · subst hji
        rw [Function.update_self] at hj
        exact .inl (Option.some.inj hj)
      · rw [Function.update_of_ne hji] at hj
        exact .inr ((t.held k).mpr ⟨j, hj⟩)
  single j j' k hj hj' := by
    -- A slot that holds the new handle beside `i` would have held it before.
    have hold (l : ι) (hl : table l = some h) : False := hfresh ((t.held h).mpr ⟨l, hl⟩)
    by_cases hji : j = i <;> by_cases hji' : j' = i
    · rw [hji, hji']
    · subst hji
      rw [Function.update_self] at hj
      rw [Function.update_of_ne hji', ← hj] at hj'
      exact (hold j' hj').elim
    · subst hji'
      rw [Function.update_self] at hj'
      rw [Function.update_of_ne hji, ← hj'] at hj
      exact (hold j hj).elim
    · rw [Function.update_of_ne hji] at hj
      rw [Function.update_of_ne hji'] at hj'
      exact t.single j j' k hj hj'

theorem release (t : Tracks table log) (hi : table i = some h) :
    Tracks (Function.update table i none) (.release h :: log) where
  disciplined := ⟨(t.held h).mpr ⟨i, hi⟩, t.disciplined⟩
  held k := by
    constructor
    · rintro ⟨hne, hheld⟩
      obtain ⟨j, hj⟩ := (t.held k).mp hheld
      have hji : j ≠ i := by
        rintro rfl
        exact hne (Option.some.inj (hi.symm.trans hj))
      exact ⟨j, by rw [Function.update_of_ne hji, hj]⟩
    · rintro ⟨j, hj⟩
      have hji : j ≠ i := by
        rintro rfl
        rw [Function.update_self] at hj
        cases hj
      rw [Function.update_of_ne hji] at hj
      refine ⟨?_, (t.held k).mpr ⟨j, hj⟩⟩
      rintro rfl
      exact hji (t.single j i h hj hi)
  single j j' k hj hj' := by
    have hji (l : ι) (hl : Function.update table i none l = some k) : table l = some k := by
      by_cases heq : l = i
      · subst heq
        rw [Function.update_self] at hl
        cases hl
      · rwa [Function.update_of_ne heq] at hl
    exact t.single j j' k (hji j hj) (hji j' hj')

/-- A table and its log agree after every change. -/
theorem change (t : Tracks table log) {o : Option η} (hchange : Change (table i) o es)
    (hfresh : Fresh (es ++ log)) :
    Tracks (Function.update table i o) (es ++ log) := by
  generalize hi : table i = before at hchange
  cases hchange with
  | idle =>
    rw [← hi, Function.update_eq_self]
    exact t
  | uses h es hes =>
    rw [← hi, Function.update_eq_self]
    exact t.uses hi hes
  | ends h es hes => exact (t.uses hi hes).release hi
  | opens h es hes =>
    rw [List.append_assoc] at hfresh ⊢
    have hopen := t.acquire hi (hfresh.of_append).1
    exact hopen.uses (Function.update_self i _ table) hes
  | passes h es hes =>
    have hfresh' : Fresh (es ++ [.acquire h] ++ log) := hfresh
    rw [List.append_assoc] at hfresh'
    have hopen := t.acquire hi (hfresh'.of_append).1
    have hused := hopen.uses (Function.update_self i _ table) hes
    have hend := hused.release (Function.update_self i _ table)
    rw [Function.update_idem] at hend
    rw [List.cons_append, List.append_assoc]
    exact hend

end Tracks

end Leases
