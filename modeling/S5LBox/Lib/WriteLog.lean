import Mathlib.Logic.Function.Basic

/-!
# A map and the log of its writes

A map that is written key by key holds, under each key, the last value written there, or its
initial value where nothing was written.

## Main definitions

* `writeAll`: the map after a log of writes, the earliest first.
* `lastWritten`: the last value that a log writes under a key.

## Main results

* `writeAll_apply`: the map after a log is its last writes over the initial map.
-/

namespace WriteLog

variable {κ ν : Type} [DecidableEq κ]

/-- The map after a log of writes, the earliest first. -/
def writeAll (m : κ → ν) : List (κ × ν) → κ → ν
  | [] => m
  | w :: ws => writeAll (Function.update m w.1 w.2) ws

/-- The last value that a log writes under a key. -/
def lastWritten (k : κ) : List (κ × ν) → Option ν
  | [] => none
  | w :: ws =>
    match lastWritten k ws with
    | some v => some v
    | none => if w.1 = k then some w.2 else none

theorem writeAll_append (m : κ → ν) (ws ws' : List (κ × ν)) :
    writeAll m (ws ++ ws') = writeAll (writeAll m ws) ws' := by
  induction ws generalizing m with
  | nil => rfl
  | cons w ws ih => exact ih _

/-- The map after a log holds the last value written under each key. -/
theorem writeAll_apply (m : κ → ν) (ws : List (κ × ν)) (k : κ) :
    writeAll m ws k = (lastWritten k ws).getD (m k) := by
  induction ws generalizing m with
  | nil => rfl
  | cons w ws ih =>
    rw [writeAll, ih, lastWritten]
    cases lastWritten k ws with
    | some v => rfl
    | none =>
      by_cases h : w.1 = k
      · subst h
        simp
      · simp [h, Function.update_of_ne (Ne.symm h)]

/-- A log that writes under a key only what the map holds there does not change it there. -/
theorem writeAll_of_forall {m : κ → ν} {k : κ} {ws : List (κ × ν)}
    (h : ∀ w ∈ ws, w.1 = k → w.2 = m k) : writeAll m ws k = m k := by
  induction ws generalizing m with
  | nil => rfl
  | cons w ws ih =>
    have hw : Function.update m w.1 w.2 k = m k := by
      by_cases hk : w.1 = k
      · rw [← h w List.mem_cons_self hk, hk, Function.update_self]
      · rw [Function.update_of_ne (Ne.symm hk)]
    rw [writeAll, ih, hw]
    intro w' hw' hk
    rw [hw]
    exact h w' (List.mem_cons_of_mem _ hw') hk

end WriteLog
