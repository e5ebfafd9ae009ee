import Mathlib.Data.List.Basic

/-!
# Copies through a ring

A stream is written to a ring of `n` cells as it comes out, and its next element is given, or it is
what a cell of the ring holds. Cells of the ring may never have been written: they stand for
themselves, so that it can be seen which elements of the stream depend on them.

## Main definitions

* `Move`: an element that is given, or the place of the cell that holds it.
* `Window.run`: the stream of a list of moves.
* `Cell`: an element, or a cell that has not been written.
* `Written n k ms`: no move reads a cell that has not been written, if there are `k` at first.

## Main results

* `map_run`: the stream is what the moves say, whatever the elements are.
* `stored_run_iff`, `Cell.determined_iff`: the streams that do not depend on cells never written.
-/

namespace RingCopies

variable {α β : Type}

/-- A ring of cells and the place of the next write. -/
structure Window (α : Type) where
  cells : Nat → α
  next : Nat

/-- The next element of a stream: given, or held by a cell of the ring. -/
inductive Move (α : Type)
  | put (c : α)
  | again (p : Nat)

/-- A move in terms of other elements. -/
def Move.map (f : α → β) : Move α → Move β
  | put c => .put (f c)
  | again p => .again p

namespace Window

variable (n : Nat)

/-- The ring after a write. -/
def write (w : Window α) (c : α) : Window α := ⟨Function.update w.cells w.next c, (w.next + 1) % n⟩

/-- The element of a move. -/
def element (w : Window α) : Move α → α
  | .put c => c
  | .again p => w.cells (p % n)

/-- The stream of a list of moves. -/
def run (w : Window α) : List (Move α) → List α
  | [] => []
  | m :: ms => w.element n m :: run (w.write n (w.element n m)) ms

/-- The ring after a list of moves. -/
def after (w : Window α) : List (Move α) → Window α
  | [] => w
  | m :: ms => (w.write n (w.element n m)).after ms

/-- A ring in terms of other elements. -/
def map (f : α → β) (w : Window α) : Window β := ⟨f ∘ w.cells, w.next⟩

variable {n}

theorem cells_write_self (w : Window α) (c : α) : (w.write n c).cells w.next = c :=
  Function.update_self ..

theorem cells_write_of_ne {p : Nat} (w : Window α) (c : α) (h : p ≠ w.next) :
    (w.write n c).cells p = w.cells p :=
  Function.update_of_ne h ..

theorem length_run (w : Window α) (ms : List (Move α)) : (w.run n ms).length = ms.length := by
  induction ms generalizing w with
  | nil => rfl
  | cons m ms ih => exact congrArg (· + 1) (ih _)

theorem take_run (w : Window α) (ms : List (Move α)) (k : Nat) :
    (w.run n ms).take k = w.run n (ms.take k) := by
  induction ms generalizing w k with
  | nil => rw [List.take_nil, run, List.take_nil]
  | cons m ms ih =>
    cases k with
    | zero => rfl
    | succ k => exact congrArg (_ :: ·) (ih _ k)

theorem run_append (w : Window α) (ms ms' : List (Move α)) :
    w.run n (ms ++ ms') = w.run n ms ++ (w.after n ms).run n ms' := by
  induction ms generalizing w with
  | nil => rfl
  | cons m ms ih => exact congrArg (_ :: ·) (ih _)

/-- The front of a stream that is longer than its first moves. -/
theorem take_run_append (w : Window α) {ms : List (Move α)} (ms' : List (Move α)) {k : Nat}
    (h : ms.length ≤ k) : (w.run n (ms ++ ms')).take k =
      w.run n ms ++ ((w.after n ms).run n ms').take (k - ms.length) := by
  have hlength : (w.run n ms).length ≤ k := by
    rw [length_run]
    exact h
  rw [run_append, List.take_append, length_run, List.take_of_length_le hlength]

theorem element_map (f : α → β) (w : Window α) (m : Move α) :
    (w.map f).element n (m.map f) = f (w.element n m) := by
  cases m <;> rfl

theorem write_map (f : α → β) (w : Window α) (c : α) :
    (w.map f).write n (f c) = (w.write n c).map f := by
  rw [write, map, write, map]
  exact congrArg (Window.mk · _) (Function.comp_update f w.cells w.next c).symm

/-- The stream is what the moves say, whatever the elements are. -/
theorem map_run (f : α → β) (w : Window α) (ms : List (Move α)) :
    (w.run n ms).map f = (w.map f).run n (ms.map (Move.map f)) := by
  induction ms generalizing w with
  | nil => rfl
  | cons m ms ih =>
    rw [run, List.map_cons, ih, List.map_cons, run, element_map, write_map]

end Window

/-! ### Cells that have not been written -/

/-- An element, or the cell at a place that has not been written. -/
inductive Cell (α : Type)
  | stored (c : α)
  | unset (p : Nat)

namespace Cell

/-- What a cell holds if those that have not been written hold the given elements. -/
def fill (junk : Nat → α) : Cell α → α
  | stored c => c
  | unset p => junk p

/-- The cell has been written. -/
def IsStored (c : Cell α) : Prop := ∃ a, c = stored a

theorem fill_comp_stored (junk : Nat → α) : fill junk ∘ stored = id := rfl

/-- A list of cells depends on none that has not been written exactly if they all are elements. -/
theorem determined_iff [Nontrivial α] (l : List (Cell α)) :
    (∀ junk junk' : Nat → α, l.map (fill junk) = l.map (fill junk')) ↔ ∀ c ∈ l, c.IsStored := by
  constructor
  · intro h c hc
    cases c with
    | stored a => exact ⟨a, rfl⟩
    | unset p =>
      obtain ⟨x, y, hne⟩ := exists_pair_ne α
      exact absurd (List.map_inj_left.1 (h (fun _ => x) fun _ => y) _ hc) hne
  · intro h junk junk'
    refine List.map_congr_left fun c hc => ?_
    obtain ⟨a, rfl⟩ := h c hc
    rfl

end Cell

/-- The first `k` cells have been written, and no other; the next write is to the first of these. -/
structure Filled (n k : Nat) (w : Window (Cell α)) : Prop where
  stored : ∀ p < n, p < k → (w.cells p).IsStored
  unset : ∀ p < n, k ≤ p → w.cells p = .unset p
  next : k < n → w.next = k

theorem Filled.write {n k : Nat} {w : Window (Cell α)} (h : Filled n k w) (a : α) :
    Filled n (k + 1) (w.write n (.stored a)) where
  stored p hp hk := by
    by_cases hnext : p = w.next
    · exact ⟨a, by rw [hnext, Window.cells_write_self]⟩
    · rw [Window.cells_write_of_ne _ _ hnext]
      refine h.stored p hp (Nat.lt_of_le_of_ne (Nat.le_of_lt_succ hk) fun heq => hnext ?_)
      rw [h.next (by omega), heq]
  unset p hp hk := by
    have hnext : p ≠ w.next := by
      rw [h.next (by omega)]
      omega
    rw [Window.cells_write_of_ne _ _ hnext]
    exact h.unset p hp (by omega)
  next hk := by
    change (w.next + 1) % n = k + 1
    rw [h.next (by omega), Nat.mod_eq_of_lt hk]

/-- No move reads a cell that has not been written, where the first `k` are. -/
def Written (n : Nat) : Nat → List (Move α) → Prop
  | _, [] => True
  | k, .put _ :: ms => Written n (k + 1) ms
  | k, .again p :: ms => p % n < k ∧ Written n (k + 1) ms

instance decidableWritten (n : Nat) : ∀ (k : Nat) (ms : List (Move α)), Decidable (Written n k ms)
  | _, [] => .isTrue trivial
  | k, .put _ :: ms => decidableWritten n (k + 1) ms
  | k, .again p :: ms =>
    have := decidableWritten n (k + 1) ms
    inferInstanceAs (Decidable (p % n < k ∧ Written n (k + 1) ms))

/-- The streams that do not depend on cells never written. -/
theorem stored_run_iff {n k : Nat} (hn : 0 < n) {w : Window (Cell α)} (h : Filled n k w)
    (ms : List (Move α)) :
    (∀ c ∈ w.run n (ms.map (Move.map .stored)), c.IsStored) ↔ Written n k ms := by
  induction ms generalizing k w with
  | nil => exact iff_of_true (fun c hc => absurd hc List.not_mem_nil) trivial
  | cons m ms ih =>
    rw [List.map_cons, Window.run, List.forall_mem_cons]
    cases m with
    | put a => exact (and_iff_right ⟨a, rfl⟩).trans (ih (h.write a))
    | again p =>
      by_cases hp : p % n < k
      · obtain ⟨a, ha⟩ := h.stored (p % n) (Nat.mod_lt _ hn) hp
        have helement : w.element n (Move.map Cell.stored (.again p)) = .stored a := ha
        rw [helement]
        exact (and_iff_right ⟨a, rfl⟩).trans ((ih (h.write a)).trans (and_iff_right hp).symm)
      · have helement : w.element n (Move.map Cell.stored (.again p)) = .unset (p % n) :=
          h.unset _ (Nat.mod_lt _ hn) (Nat.not_lt.1 hp)
        rw [helement]
        exact iff_of_false (fun ⟨⟨a, ha⟩, _⟩ => by cases ha) fun hw => hp hw.1

end RingCopies
