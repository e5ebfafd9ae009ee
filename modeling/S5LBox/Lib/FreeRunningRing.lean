import Mathlib.Data.BitVec

/-!
# Rings with free-running counters

A ring of `R` cells whose writer and reader each count what they have moved, in counters of `w`
bits that are reduced modulo `R` only to find a cell. As long as `R` divides `2 ^ w` a counter and
its cell wrap together. Otherwise the cells of a window of counter values that crosses the wrap are
`2 ^ w % R` values apart from where they would go on, and two values of the window share a cell
as soon as it is longer than that.

## Main definitions

* `slot`, `held`, `put`: the cell of a counter value, the contents of a window, and a list written
  from a counter value on.
* `Fits`: a window in which no two values share a cell.

## Main results

* `Fits.slot_ne`, `exists_slot_eq`: that is what `Fits` says.
* `held_put`: a list written behind a window extends what the window holds.
* `put_slot`: what a cell holds once a list has been written.
* `overwrites_iff`: when a list behind a window falls on a cell of the window.
-/

namespace FreeRunningRing

variable {w R : Nat} {α : Type} {c : BitVec w} {i j m n : Nat}

/-- The cell of the counter value `i` past `c`. -/
def slot (R : Nat) (c : BitVec w) (i : Nat) : Nat := (c + BitVec.ofNat w i).toNat % R

/-- The contents of the `n` cells from a counter value on. -/
def held (R : Nat) (cells : Nat → α) (c : BitVec w) (n : Nat) : List α :=
  (List.range n).map fun i => cells (slot R c i)

/-- A list written into the cells from a counter value on. -/
def put (R : Nat) (cells : Nat → α) (c : BitVec w) : List α → Nat → α
  | [] => cells
  | b :: bs => put R (Function.update cells (c.toNat % R) b) (c + 1) bs

/-- A window of `n` counter values that is no longer than the ring and, where the ring does not
divide the range of the counter, does not cross the wrap or is short enough to cross it. -/
def Fits (R : Nat) (c : BitVec w) (n : Nat) : Prop :=
  n ≤ R ∧ (R ∣ 2 ^ w ∨ c.toNat + n ≤ 2 ^ w ∨ n ≤ 2 ^ w % R)

/-! ### Cells of counter values -/

theorem slot_eq (R : Nat) (c : BitVec w) (i : Nat) : slot R c i = (c.toNat + i) % 2 ^ w % R := by
  simp [slot, BitVec.toNat_add]

@[simp]
theorem slot_zero (R : Nat) (c : BitVec w) : slot R c 0 = c.toNat % R := by simp [slot]

theorem slot_add (R : Nat) (c : BitVec w) (i j : Nat) :
    slot R (c + BitVec.ofNat w i) j = slot R c (i + j) := by
  simp [slot_eq, BitVec.toNat_add, Nat.add_assoc]

theorem slot_succ (R : Nat) (c : BitVec w) (i : Nat) : slot R (c + 1) i = slot R c (i + 1) := by
  rw [Nat.add_comm]
  exact slot_add R c 1 i

theorem slot_of_lt (h : c.toNat + i < 2 ^ w) : slot R c i = (c.toNat + i) % R := by
  rw [slot_eq, Nat.mod_eq_of_lt h]

/-- Values less than the modulus apart are congruent only when they are the same. -/
theorem add_mod_ne {x d : Nat} (hd : 0 < d) (hR : d < R) : (x + d) % R ≠ x % R := by
  intro h
  have hdvd : R ∣ d := by simpa using (Nat.modEq_iff_dvd' (by omega)).1 (show x ≡ x + d [MOD R]
    from h.symm)
  exact absurd (Nat.le_of_dvd hd hdvd) (by omega)

/-- Past the wrap of the counter, a value falls on the cell of one `2 ^ w % R` further on. -/
theorem slot_wrap (hi : c.toNat + i < 2 ^ w) (hj : 2 ^ w ≤ c.toNat + j) (hjR : j < 2 ^ w) :
    slot R c i = slot R c j ↔ (c.toNat + i) % R = (c.toNat + j - 2 ^ w) % R := by
  have hc : c.toNat < 2 ^ w := c.isLt
  have hback : (c.toNat + j) % 2 ^ w = c.toNat + j - 2 ^ w := by
    rw [Nat.mod_eq_sub_mod hj, Nat.mod_eq_of_lt (by omega)]
  rw [slot_of_lt hi, slot_eq, hback]

/-- In a window that fits, no two values share a cell. -/
theorem Fits.slot_ne (h : Fits R c n) (hR : R ≤ 2 ^ w) (hij : i < j) (hj : j < n) :
    slot R c i ≠ slot R c j := by
  obtain ⟨hn, hwin⟩ := h
  have hc : c.toNat < 2 ^ w := c.isLt
  obtain ⟨d, rfl⟩ : ∃ d, j = i + d := ⟨j - i, by omega⟩
  have hne : (c.toNat + i + d) % R ≠ (c.toNat + i) % R := add_mod_ne (by omega) (by omega)
  rw [Nat.add_assoc] at hne
  rcases hwin with hdvd | hin | hshort
  · rw [slot_eq, slot_eq, Nat.mod_mod_of_dvd _ hdvd, Nat.mod_mod_of_dvd _ hdvd]
    exact hne.symm
  · rw [slot_of_lt (by omega), slot_of_lt (by omega)]
    exact hne.symm
  · -- the part of the window before the wrap ends `2 ^ w % R` cells into the ring
    by_cases hj' : c.toNat + (i + d) < 2 ^ w
    · rw [slot_of_lt (by omega), slot_of_lt hj']
      exact hne.symm
    by_cases hi' : 2 ^ w ≤ c.toNat + i
    · have hback : ∀ k, 2 ^ w ≤ c.toNat + k → k < R →
          (c.toNat + k) % 2 ^ w = c.toNat + k - 2 ^ w := by
        intro k hk hkR
        rw [Nat.mod_eq_sub_mod hk, Nat.mod_eq_of_lt (by omega)]
      rw [slot_eq, slot_eq, hback i hi' (by omega), hback (i + d) (by omega) (by omega)]
      have hgap : c.toNat + (i + d) - 2 ^ w = c.toNat + i - 2 ^ w + d := by omega
      rw [hgap]
      exact (add_mod_ne (by omega) (by omega)).symm
    · rw [Ne, slot_wrap (by omega) (by omega) (by omega)]
      have hr : 2 ^ w % R < R := Nat.mod_lt _ (by omega)
      have hsplit : c.toNat + i =
          R * (2 ^ w / R) + (2 ^ w % R - (2 ^ w - (c.toNat + i))) := by
        have := Nat.div_add_mod (2 ^ w) R
        omega
      have hbefore : (c.toNat + i) % R = 2 ^ w % R - (2 ^ w - (c.toNat + i)) := by
        rw [hsplit, Nat.mul_add_mod, Nat.mod_eq_of_lt (by omega)]
        omega
      have hafter : (c.toNat + (i + d) - 2 ^ w) % R = c.toNat + (i + d) - 2 ^ w :=
        Nat.mod_eq_of_lt (by omega)
      rw [hbefore, hafter]
      omega

/-- In a window that does not fit, two values share a cell. -/
theorem exists_slot_eq (h : ¬ Fits R c n) (hn : n ≤ R) (hR : R ≤ 2 ^ w) :
    ∃ i j, i < j ∧ j < n ∧ slot R c i = slot R c j := by
  have hc : c.toNat < 2 ^ w := c.isLt
  simp only [Fits, not_and_or, not_or, Nat.not_le] at h
  obtain ⟨hdvd, hcross, hlong⟩ := h.resolve_left (by omega)
  have hr : 0 < 2 ^ w % R := Nat.pos_of_ne_zero fun h0 => hdvd (Nat.dvd_of_mod_eq_zero h0)
  have hdiv := Nat.div_add_mod (2 ^ w) R
  have hrR : 2 ^ w % R < R := Nat.mod_lt _ (by omega)
  -- the first value of the window that has another `2 ^ w % R` further on, past the wrap
  obtain ⟨first, hfirst⟩ : ∃ k, k = 2 ^ w - c.toNat - 2 ^ w % R := ⟨_, rfl⟩
  refine ⟨first, first + 2 ^ w % R, by omega, by omega, ?_⟩
  rw [slot_wrap (by omega) (by omega) (by omega)]
  have hsame : c.toNat + first = c.toNat + (first + 2 ^ w % R) - 2 ^ w + R * (2 ^ w / R) := by
    omega
  rw [hsame, Nat.add_mul_mod_self_left]

/-! ### Windows that fit -/

/-- A window goes on fitting when its first value is taken off. -/
theorem Fits.tail (h : Fits R c (n + 1)) : Fits R (c + 1) n := by
  obtain ⟨hn, hwin⟩ := h
  have hc : c.toNat < 2 ^ w := c.isLt
  refine ⟨by omega, ?_⟩
  rcases hwin with hdvd | hin | hshort
  · exact .inl hdvd
  · have hone : (1 : BitVec w).toNat ≤ 1 := by
      rw [show (1 : BitVec w) = BitVec.ofNat w 1 from rfl, BitVec.toNat_ofNat]
      exact Nat.mod_le _ _
    have hadd : (c + 1).toNat ≤ c.toNat + 1 := by
      rw [BitVec.toNat_add]
      exact (Nat.mod_le _ _).trans (by omega)
    exact .inr (.inl (by omega))
  · exact .inr (.inr (by omega))

theorem fits_of_le_offset (h : n ≤ 2 ^ w % R) (hn : n ≤ R) : Fits R c n := ⟨hn, .inr (.inr h)⟩

/-! ### What a window holds -/

@[simp]
theorem held_zero (cells : Nat → α) (c : BitVec w) : held R cells c 0 = [] := rfl

theorem held_succ (cells : Nat → α) (c : BitVec w) :
    held R cells c (n + 1) = held R cells c n ++ [cells (slot R c n)] := by
  simp [held, List.range_succ]

theorem held_cons (cells : Nat → α) (c : BitVec w) :
    held R cells c (n + 1) = cells (c.toNat % R) :: held R cells (c + 1) n := by
  simp only [held, List.range_succ_eq_map, List.map_cons, slot_zero, List.map_map]
  congr 1
  apply List.map_congr_left
  intro i _
  rw [Function.comp_apply, slot_succ]

theorem held_update (cells : Nat → α) (b : α) (k : Nat) (h : ∀ i < n, slot R c i ≠ k) :
    held R (Function.update cells k b) c n = held R cells c n := by
  apply List.map_congr_left
  intro i hi
  exact Function.update_of_ne (h i (List.mem_range.1 hi)) _ _

/-- A list written behind a window extends what the window holds. -/
theorem held_put (cells : Nat → α) (bs : List α) (h : Fits R c (m + bs.length))
    (hR : R ≤ 2 ^ w) :
    held R (put R cells (c + BitVec.ofNat w m) bs) c (m + bs.length) =
      held R cells c m ++ bs := by
  induction bs generalizing cells m with
  | nil => simp [put]
  | cons b bs ih =>
    have hlen : m + (b :: bs).length = m + 1 + bs.length := by simp only [List.length_cons]; omega
    rw [hlen] at h ⊢
    have hnext : c + BitVec.ofNat w m + 1 = c + BitVec.ofNat w (m + 1) := by
      rw [BitVec.ofNat_add, ← BitVec.add_assoc]
      rfl
    have hother : ∀ i < m, slot R c i ≠ slot R c m := fun i hi =>
      h.slot_ne hR hi (by omega)
    rw [put, hnext, ih _ h, held_succ]
    have hcell : (c + BitVec.ofNat w m).toNat % R = slot R c m := rfl
    rw [hcell, held_update _ _ _ hother, Function.update_self, List.append_assoc]
    rfl

/-! ### The cells of a list that was written -/

theorem put_append (cells : Nat → α) (as bs : List α) :
    put R cells c (as ++ bs) = put R (put R cells c as) (c + BitVec.ofNat w as.length) bs := by
  induction as generalizing cells c with
  | nil => simp [put]
  | cons a as ih =>
    have hnext : c + 1 + BitVec.ofNat w as.length = c + BitVec.ofNat w (as.length + 1) := by
      rw [Nat.add_comm, BitVec.ofNat_add, ← BitVec.add_assoc]
      rfl
    rw [List.cons_append, put, put, ih, hnext, List.length_cons]

/-- A cell that no value of the list falls on keeps its contents. -/
theorem put_of_slot_ne {k : Nat} (cells : Nat → α) (bs : List α)
    (h : ∀ j < bs.length, slot R c j ≠ k) : put R cells c bs k = cells k := by
  induction bs generalizing cells c with
  | nil => rfl
  | cons b bs ih =>
    have hfirst : slot R c 0 ≠ k := h 0 (by simp)
    rw [slot_zero] at hfirst
    rw [put, ih, Function.update_of_ne hfirst.symm]
    intro j hj
    rw [slot_succ]
    exact h (j + 1) (by simpa using hj)

/-- A cell holds what the last value that falls on it was written with. -/
theorem put_slot (cells : Nat → α) (bs : List α) (hi : i < bs.length)
    (hlast : ∀ j, i < j → j < bs.length → slot R c j ≠ slot R c i) :
    put R cells c bs (slot R c i) = bs[i] := by
  have hsplit : bs = bs.take i ++ bs[i] :: bs.drop (i + 1) := by
    rw [List.cons_getElem_drop_succ, List.take_append_drop]
  conv_lhs => rw [hsplit]
  have hlen : (bs.take i).length = i := by simp; omega
  rw [put_append, hlen, put, put_of_slot_ne]
  · exact Function.update_self ..
  · intro j hj
    rw [slot_succ, slot_add]
    have hj' : i + (j + 1) < bs.length := by
      rw [List.length_drop] at hj
      omega
    exact hlast _ (by omega) hj'

/-! ### Lists that fall on a window -/

/-- A list behind a window falls on a cell of the window exactly when the two together do not
fit. -/
theorem overwrites_iff (hm : Fits R c m) (hn : Fits R (c + BitVec.ofNat w m) n)
    (hmn : m + n ≤ R) (hR : R ≤ 2 ^ w) :
    (∃ i < m, ∃ j < n, slot R c i = slot R (c + BitVec.ofNat w m) j) ↔ ¬ Fits R c (m + n) := by
  constructor
  · rintro ⟨i, hi, j, hj, heq⟩ hfits
    rw [slot_add] at heq
    exact hfits.slot_ne hR (by omega) (by omega) heq
  · intro hnot
    obtain ⟨i, j, hij, hj, heq⟩ := exists_slot_eq hnot hmn hR
    have hjm : m ≤ j := by
      by_contra hlt
      exact hm.slot_ne hR hij (by omega) heq
    have him : i < m := by
      by_contra hge
      refine hn.slot_ne hR (i := i - m) (j := j - m) (by omega) (by omega) ?_
      rwa [slot_add, slot_add, Nat.add_sub_cancel' (by omega), Nat.add_sub_cancel' hjm]
    exact ⟨i, him, j - m, by omega, by rwa [slot_add, Nat.add_sub_cancel' hjm]⟩

end FreeRunningRing
