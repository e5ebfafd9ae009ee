import Mathlib.Data.List.TakeWhile

/-!
# Texts that end with a zero

A text in a list of octets goes to the first zero, or to the end of the list, as if a zero stood
behind it. A path is a text whose components stand between separators.

## Main definitions

* `text`: the text at the front of a list.
* `sameUpTo`: the comparison of two texts, with a bound on the count of octets.
* `components`: the components of a path, without the empty ones.

## Main results

* `sameUpTo_iff`: the comparison is that of the texts.
* `components_cons`: the first component of a path and those behind it.
-/

namespace TerminatedText

/-- The text at the front of a list. -/
def text (l : List (BitVec 8)) : List (BitVec 8) := l.takeWhile (· ≠ 0)

/-- Two texts agree in their first `n` octets, the zero at the end included. -/
def sameUpTo : List (BitVec 8) → List (BitVec 8) → Nat → Bool
  | _, _, 0 => true
  | a, b, n + 1 =>
    a.headD 0 == b.headD 0 && (a.headD 0 == 0 || sameUpTo a.tail b.tail n)

@[simp]
theorem text_nil : text [] = [] := rfl

theorem text_zero_cons (l : List (BitVec 8)) : text (0 :: l) = [] := rfl

theorem text_cons {x : BitVec 8} (h : x ≠ 0) (l : List (BitVec 8)) :
    text (x :: l) = x :: text l :=
  List.takeWhile_cons_of_pos (decide_eq_true h)

variable {l : List (BitVec 8)}

theorem text_append_of_forall (h : ∀ x ∈ l, x ≠ 0) (r : List (BitVec 8)) :
    text (l ++ r) = l ++ text r :=
  List.takeWhile_append_of_pos fun x hx => decide_eq_true (h x hx)

theorem ne_zero_of_mem_text {x : BitVec 8} (h : x ∈ text l) : x ≠ 0 :=
  of_decide_eq_true (List.mem_takeWhile_imp (p := fun x => decide (x ≠ 0)) h)

theorem text_of_forall (h : ∀ x ∈ l, x ≠ 0) : text l = l :=
  List.takeWhile_eq_self_iff.2 fun x hx => decide_eq_true (h x hx)

@[simp]
theorem text_text (l : List (BitVec 8)) : text (text l) = text l :=
  text_of_forall fun _ => ne_zero_of_mem_text

/-- The comparison is that of the texts. -/
theorem sameUpTo_iff {a b : List (BitVec 8)} {n : Nat} :
    sameUpTo a b n = true ↔ (text a).take n = (text b).take n := by
  induction n generalizing a b with
  | zero => exact ⟨fun _ => rfl, fun _ => rfl⟩
  | succ n ih =>
    have hhead : ∀ l : List (BitVec 8), (l.headD 0 = 0 ∧ text l = []) ∨
        l.headD 0 ≠ 0 ∧ text l = l.headD 0 :: text l.tail := by
      intro l
      cases l with
      | nil => exact Or.inl ⟨rfl, rfl⟩
      | cons x l =>
        by_cases hx : x = 0
        · exact Or.inl ⟨hx, hx ▸ text_zero_cons l⟩
        · exact Or.inr ⟨hx, text_cons hx l⟩
    rw [sameUpTo, Bool.and_eq_true, beq_iff_eq, Bool.or_eq_true, beq_iff_eq, ih]
    obtain ⟨ha, hta⟩ | ⟨ha, hta⟩ := hhead a <;> obtain ⟨hb, htb⟩ | ⟨hb, htb⟩ := hhead b
    · rw [hta, htb, ha, hb]
      exact ⟨fun _ => rfl, fun _ => ⟨rfl, Or.inl rfl⟩⟩
    · rw [hta, htb, ha]
      exact ⟨fun h => absurd h.1.symm hb, fun h => by cases h⟩
    · rw [hta, htb, hb]
      exact ⟨fun h => absurd h.1 ha, fun h => by cases h⟩
    · rw [hta, htb, List.take_succ_cons, List.take_succ_cons, List.cons.injEq]
      exact and_congr_right fun _ => or_iff_right ha

theorem text_take (l : List (BitVec 8)) (n : Nat) : text (l.take n) = (text l).take n :=
  List.take_takeWhile.symm

theorem text_front (l : List (BitVec 8)) : text l <+: l := List.takeWhile_prefix _

/-- A text ends where the list ends, or at a zero. -/
theorem text_eq_of_append {t r : List (BitVec 8)} (ht : ∀ x ∈ t, x ≠ 0)
    (hr : ∀ x ∈ r.head?, x = 0) : text (t ++ r) = t := by
  rw [text_append_of_forall ht]
  cases r with
  | nil => exact List.append_nil t
  | cons x r =>
    obtain rfl := hr x rfl
    rw [text_zero_cons, List.append_nil]

/-- What is left where the front of a list ends. -/
theorem drop_takeWhile (sep : BitVec 8) (l : List (BitVec 8)) :
    l.drop (l.takeWhile (· ≠ sep)).length = l.dropWhile (· ≠ sep) :=
  calc l.drop (l.takeWhile (· ≠ sep)).length
    _ = (l.takeWhile (· ≠ sep) ++ l.dropWhile (· ≠ sep)).drop (l.takeWhile (· ≠ sep)).length :=
      congrArg _ List.takeWhile_append_dropWhile.symm
    _ = l.dropWhile (· ≠ sep) := List.drop_left

theorem head?_drop_text (l : List (BitVec 8)) :
    ∀ x ∈ (l.drop (text l).length).head?, x = 0 := by
  intro x hx
  have hhead := List.head?_dropWhile_not (fun x => decide (x ≠ 0)) l
  rw [text, drop_takeWhile] at hx
  rw [Option.mem_def.1 hx] at hhead
  simpa using hhead

/-- A value that is followed by more has a given text if it begins with it, and then is at its end
or goes on with a zero. -/
theorem text_eq_iff {v tail name : List (BitVec 8)} :
    ((text name).length ≤ v.length ∧ sameUpTo (v ++ tail) name (text name).length = true ∧
      (v.length = (text name).length ∨ (v ++ tail).getD (text name).length 0 = 0)) ↔
      text v = text name := by
  generalize ht : text name = t
  have htake : (text name).take t.length = t := by rw [ht, List.take_length]
  rw [sameUpTo_iff, htake, ← text_take]
  constructor
  · rintro ⟨hle, hsame, hend⟩
    have hfront : v.take t.length = t := by
      rw [List.take_append_of_le_length hle] at hsame
      have hlen : (v.take t.length).length = t.length := List.length_take_of_le hle
      have hwhole : (text (v.take t.length)).length = (v.take t.length).length := by
        rw [hsame, hlen]
      exact ((text_front _).eq_of_length hwhole).symm.trans hsame
    rw [← List.take_append_drop t.length v, hfront]
    refine text_eq_of_append (fun x hx => ne_zero_of_mem_text (ht ▸ hx)) fun x hx => ?_
    rw [List.head?_drop] at hx
    obtain ⟨hlt, rfl⟩ := List.getElem?_eq_some_iff.1 hx
    rw [List.getD_eq_getElem?_getD, List.getElem?_append_left hlt,
      List.getElem?_eq_getElem hlt] at hend
    exact hend.resolve_left (Nat.ne_of_gt hlt)
  · rintro rfl
    have hle := (text_front v).length_le
    refine ⟨hle, ?_, ?_⟩
    · rw [List.take_append_of_le_length hle, text_take, List.take_length]
    · by_cases hlt : (text v).length < v.length
      · refine Or.inr ?_
        rw [List.getD_eq_getElem?_getD, List.getElem?_append_left hlt]
        rw [List.getElem?_eq_getElem hlt]
        refine head?_drop_text v _ ?_
        rw [List.head?_drop, List.getElem?_eq_getElem hlt]
        rfl
      · exact Or.inl (Nat.le_antisymm (Nat.not_lt.1 hlt) hle)

/-! ### Paths -/

/-- The components of a path, without the empty ones. -/
def components (sep : BitVec 8) (l : List (BitVec 8)) : List (List (BitVec 8)) :=
  (l.splitOn sep).filter (· ≠ [])

variable {sep : BitVec 8}

@[simp]
theorem components_nil : components sep [] = [] := rfl

theorem components_sep_cons (l : List (BitVec 8)) :
    components sep (sep :: l) = components sep l := by
  rw [components, List.splitOn, List.splitOnP_cons_eq_if_modifyHead, if_pos (beq_self_eq_true sep)]
  exact List.filter_cons_of_neg (by simp)

/-- Separators in front do not count. -/
theorem components_dropWhile (l : List (BitVec 8)) :
    components sep (l.dropWhile (· == sep)) = components sep l := by
  induction l with
  | nil => rfl
  | cons x l ih =>
    by_cases hx : x = sep
    · rw [List.dropWhile_cons_of_pos (by rw [hx, beq_self_eq_true]), ih, hx, components_sep_cons]
    · rw [List.dropWhile_cons_of_neg (by rw [beq_iff_eq]; exact hx)]

theorem head?_dropWhile_sep (l : List (BitVec 8)) :
    ∀ x ∈ (l.dropWhile (· == sep)).head?, x ≠ sep := by
  intro x hx
  have hhead := List.head?_dropWhile_not (· == sep) l
  rw [Option.mem_def.1 hx] at hhead
  simpa using hhead

/-- A path that does not begin with a separator begins with a component. -/
theorem takeWhile_ne_nil (hl : l ≠ []) (h : ∀ x ∈ l.head?, x ≠ sep) :
    l.takeWhile (· ≠ sep) ≠ [] := by
  cases l with
  | nil => exact absurd rfl hl
  | cons x l =>
    rw [List.takeWhile_cons, if_pos (decide_eq_true (h x rfl))]
    exact List.cons_ne_nil _ _

/-- The first component of a path and those behind it. -/
theorem components_cons {c rest : List (BitVec 8)} (hne : c ≠ []) (hc : ∀ x ∈ c, x ≠ sep)
    (hrest : ∀ x ∈ rest.head?, x = sep) :
    components sep (c ++ rest) = c :: components sep rest := by
  have hnone : ∀ x ∈ c, (x == sep) = false := fun x hx => beq_false_of_ne (hc x hx)
  cases rest with
  | nil =>
    rw [List.append_nil, components, List.splitOn, List.splitOnP_eq_singleton hnone]
    exact List.filter_cons_of_pos (decide_eq_true hne)
  | cons x rest =>
    obtain rfl := hrest x rfl
    rw [components_sep_cons, components, List.splitOn,
      List.splitOnP_append_cons_of_forall_mem hnone x (beq_self_eq_true x)]
    exact List.filter_cons_of_pos (decide_eq_true hne)

/-- A path is its first component and the rest, which begins with a separator if there is one. -/
theorem components_eq (h : l.takeWhile (· ≠ sep) ≠ []) :
    components sep l = l.takeWhile (· ≠ sep) :: components sep (l.dropWhile (· ≠ sep)) := by
  refine (congrArg _ List.takeWhile_append_dropWhile.symm).trans (components_cons h ?_ ?_)
  · exact fun x hx => of_decide_eq_true (List.mem_takeWhile_imp (p := fun x => decide (x ≠ sep)) hx)
  · intro x hx
    have hhead := List.head?_dropWhile_not (fun x => decide (x ≠ sep)) l
    rw [Option.mem_def.1 hx] at hhead
    simpa using hhead

end TerminatedText
