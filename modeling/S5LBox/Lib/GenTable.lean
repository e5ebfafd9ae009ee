import Mathlib.Data.BitVec

/-!
# Tables validated by a generation

A direct-mapped table is emptied in constant time by moving to a new generation: an entry counts
only while its own generation is the current one. Two facts make that sound. No entry is ahead
of the current generation, so moving on leaves no live entry; and the counter has finitely many
values, so on a wrap the entries themselves are cleared.

The entries are of any type `ε`, with `genOf` reading the generation of one. `Sound P` says that
every live entry satisfies `P`, which is where a client states what its entries mean.

## Main definitions

* `Bounded`, `Sound`.

## Main results

* `Sound.update`, `Bounded.update`: filling an entry.
* `Bounded.sound_next`: after a move to a later generation nothing is live.
* `Sound.wiped`, `Bounded.wiped`: clearing the table.
-/

namespace GenTable

variable {ι ε : Type} {w : Nat} (genOf : ε → BitVec w)

/-- No entry is ahead of the current generation. -/
def Bounded (table : ι → ε) (now : BitVec w) : Prop := ∀ i, genOf (table i) ≤ now

/-- Every live entry satisfies the predicate. -/
def Sound (table : ι → ε) (now : BitVec w) (P : ε → Prop) : Prop :=
  ∀ i, genOf (table i) = now → P (table i)

variable {genOf} {table : ι → ε} {now : BitVec w} {P Q : ε → Prop}

theorem Sound.mono (h : Sound genOf table now P) (hPQ : ∀ e, P e → Q e) :
    Sound genOf table now Q := fun i hi => hPQ _ (h i hi)

section Update

variable [DecidableEq ι] {i : ι} {e : ε}

/-- Filling an entry with one that satisfies the predicate. -/
theorem Sound.update (h : Sound genOf table now P) (he : genOf e = now → P e) :
    Sound genOf (Function.update table i e) now P := by
  intro j hj
  by_cases hji : j = i
  · subst hji
    rw [Function.update_self] at hj ⊢
    exact he hj
  · rw [Function.update_of_ne hji] at hj ⊢
    exact h j hj

/-- Filling an entry in the current generation. -/
theorem Bounded.update (h : Bounded genOf table now) (he : genOf e ≤ now) :
    Bounded genOf (Function.update table i e) now := by
  intro j
  by_cases hji : j = i
  · subst hji
    rwa [Function.update_self]
  · rw [Function.update_of_ne hji]
    exact h j

end Update

theorem Bounded.mono (h : Bounded genOf table now) {later : BitVec w} (hle : now ≤ later) :
    Bounded genOf table later := fun i => BitVec.le_trans (h i) hle

/-- A later generation leaves no entry live. -/
theorem Bounded.sound_next (h : Bounded genOf table now) {later : BitVec w} (hlt : now < later) :
    Sound genOf table later P := by
  intro i hi
  have hle : later ≤ now := hi ▸ h i
  exact absurd hlt (BitVec.not_lt.mpr hle)

/-- A counter that does not wrap moves to a later generation. -/
theorem lt_next (h : now + 1 ≠ 0) : now < now + 1 := by
  rcases Nat.eq_zero_or_pos w with rfl | hw
  · exact absurd (Subsingleton.elim _ _) h
  · have hone : (1 : BitVec w).toNat = 1 := BitVec.toNat_one hw
    have hne : (now.toNat + 1) % 2 ^ w ≠ 0 := fun h0 =>
      h (BitVec.eq_of_toNat_eq (by rw [BitVec.toNat_add, hone, h0]; rfl))
    have hnow := now.isLt
    rw [BitVec.lt_def, BitVec.toNat_add, hone]
    rcases Nat.lt_or_ge (now.toNat + 1) (2 ^ w) with hlt | hge
    · rw [Nat.mod_eq_of_lt hlt]
      omega
    · rw [show now.toNat + 1 = 2 ^ w by omega, Nat.mod_self] at hne
      exact absurd rfl hne

theorem Sound.wiped {blank : ε} (hblank : genOf blank ≠ now) :
    Sound genOf (fun _ : ι => blank) now P := fun _ hi => absurd hi hblank

theorem Bounded.wiped {blank : ε} (hblank : genOf blank = 0) :
    Bounded genOf (fun _ : ι => blank) now := by
  intro i
  rw [hblank, BitVec.le_def]
  exact Nat.zero_le _

end GenTable
