import Mathlib.Data.List.Basic

/-!
# Byte stuffing

Frames on a line of symbols are told apart by a flag that no frame contains. The symbols that may
not stand for themselves are sent as two, an escape and the symbol transformed, and the receiver
undoes the transformation of whatever follows an escape. The sender decides what to escape beyond
the two symbols it must; the receiver does not know its choice.

## Main definitions

* `Stuffing`: a flag, an escape and the transformation of what follows one.
* `Stuffing.Clean needs`: a choice of what to escape that the receiver can undo.
* `stuff`, `take`: what is sent for a frame, and what one symbol does to a receiver.

## Main results

* `flag_notMem_stuff`: a stuffed frame has no flag in it.
* `foldl_take_stuff`: the receiver ends with the frame as it was.
-/

namespace ByteStuffing

variable {α : Type}

/-- A flag, an escape and the transformation of a symbol that follows an escape. -/
structure Stuffing (α : Type) where
  flag : α
  esc : α
  trans : α → α

variable (S : Stuffing α)

/-- The flag and the escape are escaped, and no escaped symbol is sent as one of the two. -/
structure Stuffing.Clean (needs : α → Bool) : Prop where
  flag_ne_esc : S.flag ≠ S.esc
  flag : needs S.flag
  esc : needs S.esc
  trans_trans : ∀ c, S.trans (S.trans c) = c
  trans_ne_flag : ∀ c, needs c → S.trans c ≠ S.flag
  trans_ne_esc : ∀ c, needs c → S.trans c ≠ S.esc

/-- The symbols sent for one symbol. -/
def stuffOne (needs : α → Bool) (c : α) : List α :=
  if needs c then [S.esc, S.trans c] else [c]

/-- The symbols sent for a list of symbols. -/
def stuff (needs : α → Bool) (cs : List α) : List α := cs.flatMap (stuffOne S needs)

/-- What a symbol other than the flag does to a receiver: whether it comes after an escape, and
the symbols received so far. -/
def take [DecidableEq α] (r : Bool × List α) (c : α) : Bool × List α :=
  if c = S.esc then (true, r.2)
  else (false, r.2 ++ [if r.1 then S.trans c else c])

@[simp]
theorem stuff_nil (needs : α → Bool) : stuff S needs [] = [] := rfl

@[simp]
theorem stuff_cons (needs : α → Bool) (c : α) (cs : List α) :
    stuff S needs (c :: cs) = stuffOne S needs c ++ stuff S needs cs := List.flatMap_cons

theorem length_stuff_le (needs : α → Bool) (cs : List α) :
    (stuff S needs cs).length ≤ 2 * cs.length := by
  induction cs with
  | nil => simp
  | cons c cs ih =>
    have hone : (stuffOne S needs c).length ≤ 2 := by unfold stuffOne; split <;> simp
    simp only [stuff_cons, List.length_append, List.length_cons]
    omega

/-- A receiver never gives up what it has received. -/
theorem length_le_foldl_take [DecidableEq α] (r : Bool × List α) (cs : List α) :
    r.2.length ≤ (cs.foldl (take S) r).2.length := by
  induction cs generalizing r with
  | nil => exact Nat.le_refl _
  | cons c cs ih =>
    have hone : r.2.length ≤ (take S r c).2.length := by unfold take; split <;> simp
    exact Nat.le_trans hone (ih _)

variable {S} {needs : α → Bool}

/-- A stuffed frame has no flag in it. -/
theorem flag_notMem_stuff (h : S.Clean needs) (cs : List α) : S.flag ∉ stuff S needs cs := by
  intro hmem
  obtain ⟨c, -, hc⟩ := List.mem_flatMap.1 hmem
  unfold stuffOne at hc
  split at hc
  case isTrue hneeds =>
    rcases List.mem_cons.1 hc with heq | htail
    · exact h.flag_ne_esc heq
    · exact h.trans_ne_flag c hneeds (List.mem_singleton.1 htail).symm
  case isFalse hneeds =>
    rw [← List.mem_singleton.1 hc] at hneeds
    exact hneeds h.flag

/-- The receiver takes a stuffed symbol for the symbol. -/
theorem foldl_take_stuffOne [DecidableEq α] (h : S.Clean needs) (got : List α) (c : α) :
    (stuffOne S needs c).foldl (take S) (false, got) = (false, got ++ [c]) := by
  unfold stuffOne
  split
  case isTrue hneeds => simp [take, h.trans_ne_esc c hneeds, h.trans_trans]
  case isFalse hneeds =>
    have hc : c ≠ S.esc := by
      rintro rfl
      exact hneeds h.esc
    simp [take, hc]

/-- The receiver ends with the frame as it was. -/
theorem foldl_take_stuff [DecidableEq α] (h : S.Clean needs) (got cs : List α) :
    (stuff S needs cs).foldl (take S) (false, got) = (false, got ++ cs) := by
  induction cs generalizing got with
  | nil => simp
  | cons c cs ih =>
    rw [stuff_cons, List.foldl_append, foldl_take_stuffOne h, ih, List.append_assoc,
      List.singleton_append]

end ByteStuffing
