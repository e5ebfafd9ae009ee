import Mathlib.Data.List.Basic
import Mathlib.Data.Nat.Basic
import Mathlib.Order.Basic
import S5LBox.Lib.Runs

/-!
# The buffer between a finger and the touch controller

`VMTouchMap.c` follows a gesture over the panel, and `VMTouchQueue.c` holds its reports until the
emulated controller takes them: a ring of eight, in which a newer move may take the place of an
older one and an edge may push the newest move out. A press is refused unless it leaves room for
its release.

The arithmetic that fits the panel into the view is a parameter of `vmTouchMap`, which gives the
pixel that it comes to.

## Main definitions

* `vmTouchTrack`, `vmTouchContactFromUi`, `VmTouchQueue.push`: the code.
* `Session`, `TouchAction`: a finger, the controller, and what has become of every report.

## Main results

* `VmTouchQueue.push_cases`: what a push does to the reports that are held.
* `VmTouchQueue.push_make_iff`, `VmTouchQueue.push_break_iff`: which edges are accepted.
* `finger_comes_up`: what holds in every session.
-/

namespace S5LBox.App

open Runs

/-! ### The gesture -/

/-- `vm_touch_phase_t`. -/
inductive VmTouchPhase
  | began | moved | ended | cancelled
  deriving DecidableEq

/-- `vm_touch_point_t`. -/
structure VmTouchPoint where
  x : Int
  y : Int
  inside : Bool

/-- `vm_touch_map` from the pixel that the fit comes to, if it gets that far. -/
def vmTouchMap (guestW guestH : Nat) (fitted : Option (Int × Int)) : VmTouchPoint :=
  match fitted with
  | none => ⟨0, 0, false⟩
  | some (x, y) =>
    if x < 0 ∨ y < 0 ∨ x ≥ guestW ∨ y ≥ guestH then ⟨0, 0, false⟩ else ⟨x, y, true⟩

/-- `vm_touch_tracker_t`. -/
structure VmTouchTracker where
  active : Bool
  x : Int
  y : Int

/-- `vm_touch_tracker_reset`. -/
def VmTouchTracker.reset : VmTouchTracker := ⟨false, 0, 0⟩

/-- `vm_touch_track`: the coordinate to report, if the event is reported. -/
def vmTouchTrack (tracker : VmTouchTracker) (phase : VmTouchPhase) (mapped : VmTouchPoint) :
    Option (Int × Int) × VmTouchTracker :=
  if phase = .began then
    if mapped.inside then (some (mapped.x, mapped.y), ⟨true, mapped.x, mapped.y⟩)
    else (none, { tracker with active := false })
  else if ¬tracker.active then (none, tracker)
  else if ¬mapped.inside ∧ phase = .moved then (none, tracker)
  else
    let tracker' := if mapped.inside then { tracker with x := mapped.x, y := mapped.y } else tracker
    (some (tracker'.x, tracker'.y),
      if phase = .ended ∨ phase = .cancelled then { tracker' with active := false } else tracker')

/-! ### Contacts -/

/-- `MTZ2_PHASE_*`. -/
inductive Mtz2Phase
  | notTracking | start | hover | makeTouch | touching | breakTouch | linger | outOfRange
  deriving DecidableEq

/-- `S5L_MT_PANEL_W`. -/
def panelW : Nat := 320

/-- `S5L_MT_PANEL_H`. -/
def panelH : Nat := 480

/-- `s5l_mt_contact_t`. -/
structure Contact where
  id : Nat
  phase : Mtz2Phase
  x : Nat
  y : Nat
  pressure : Nat
  major : Nat
  minor : Nat
  deriving DecidableEq

/-- A contact, and the event it was made of, by which a history tells it from others. -/
structure Report extends Contact where
  event : Nat
  deriving DecidableEq

/-- `VM_TOUCH_CONTACT_ID`. -/
def contactId : Nat := 1

/-- `VM_TOUCH_PRESSURE`. -/
def touchPressure : Nat := 160

/-- `VM_TOUCH_MAJOR`. -/
def touchMajor : Nat := 58

/-- `VM_TOUCH_MINOR`. -/
def touchMinor : Nat := 45

/-- The phase and the pressure of the device for a phase. -/
def devPhase : VmTouchPhase → Mtz2Phase × Nat
  | .began => (.makeTouch, touchPressure)
  | .moved => (.touching, touchPressure)
  | .ended | .cancelled => (.breakTouch, 0)

/-- `vm_touch_contact_from_ui`. -/
def vmTouchContactFromUi (phase : VmTouchPhase) (x y : Int) : Option Contact :=
  if x < 0 ∨ y < 0 ∨ x.toNat ≥ panelW ∨ y.toNat ≥ panelH then none
  else some ⟨contactId, (devPhase phase).1, x.toNat, y.toNat, (devPhase phase).2, touchMajor,
    touchMinor⟩

/-! ### The queue -/

/-- `VM_TOUCH_QUEUE_CAP`. -/
abbrev queueCap : Nat := 8

/-- `vm_touch_queue_t`. -/
structure VmTouchQueue where
  slot : Nat → Report
  head : Nat
  count : Nat
  queued : Nat
  coalesced : Nat
  dropped : Nat

namespace VmTouchQueue

/-- A slot that has been cleared. -/
def cleared : Report := ⟨⟨0, .notTracking, 0, 0, 0, 0, 0⟩, 0⟩

/-- `vm_touch_queue_reset`. -/
def reset : VmTouchQueue := ⟨fun _ => cleared, 0, 0, 0, 0, 0⟩

/-- `vm_touch_queue_cancel_pending`. -/
def cancelPending (q : VmTouchQueue) : Nat × VmTouchQueue :=
  (q.count, { q with head := 0, count := 0, slot := fun _ => cleared })

variable (q : VmTouchQueue)

/-- The report at a place counted from the oldest. -/
def get (i : Nat) : Report := q.slot ((q.head + i) % queueCap)

/-- The free slots and the moves, which a release could take. -/
def releaseSpace : Nat :=
  queueCap - q.count + (List.range q.count).countP fun i => (q.get i).phase = .touching

/-- The search for the newest move, among the oldest `offset` reports. -/
def newestTouching : (offset : Nat) → Option Nat
  | 0 => none
  | offset + 1 =>
    if (q.get offset).phase = .touching then some offset else newestTouching offset

/-- The loop that shifts later reports toward the front, from the place `move` on. -/
def shift (head : Nat) : (left move : Nat) → (Nat → Report) → Nat → Report
  | 0, _, slot => slot
  | left + 1, move, slot =>
    shift head left (move + 1)
      (Function.update slot ((head + move) % queueCap) (slot ((head + move + 1) % queueCap)))

/-- `vm_touch_queue_push`. -/
def push (c : Report) : Bool × VmTouchQueue :=
  if c.phase = .makeTouch ∧ q.count ≥ queueCap - 1 ∧ q.releaseSpace ≤ 1 then
    (false, { q with dropped := q.dropped + 1 })
  else if q.count < queueCap then
    (true, { q with
      slot := Function.update q.slot ((q.head + q.count) % queueCap) c
      count := q.count + 1
      queued := q.queued + 1 })
  else if c.phase = .touching ∧ (q.get (q.count - 1)).phase = .touching then
    (true, { q with
      slot := Function.update q.slot ((q.head + (q.count - 1)) % queueCap) c
      coalesced := q.coalesced + 1 })
  else if c.phase = .makeTouch ∨ c.phase = .breakTouch then
    match q.newestTouching q.count with
    | some logical =>
      (true, { q with
        slot := Function.update (shift q.head (q.count - 1 - logical) logical q.slot)
          ((q.head + (q.count - 1)) % queueCap) c
        queued := q.queued + 1
        coalesced := q.coalesced + 1 })
    | none => (false, { q with dropped := q.dropped + 1 })
  else (false, { q with dropped := q.dropped + 1 })

/-- `vm_touch_queue_peek`. -/
def peek : Option Report := if q.count = 0 then none else some (q.slot q.head)

/-- `vm_touch_queue_pop`. -/
def pop : VmTouchQueue :=
  if q.count = 0 then q
  else { q with head := (q.head + 1) % queueCap, count := q.count - 1 }

end VmTouchQueue

/-! ### A session -/

/-- What happens at the queue: an event of the finger, a report taken by the controller, and the
cancellation of what is pending. -/
inductive TouchAction
  | touch (phase : VmTouchPhase) (fitted : Option (Int × Int))
  | pop
  | cancel
  deriving DecidableEq

/-- The gesture and the queue, and what has become of every report. -/
structure Session where
  tracker : VmTouchTracker
  queue : VmTouchQueue
  events : List VmTouchPoint
  pushed : List Report
  accepted : List Report
  popped : List Report
  cancelled : List Report

namespace VmTouchQueue

/-- The reports that are held, the oldest first. -/
def reports (q : VmTouchQueue) : List Report := (List.range q.count).map q.get

end VmTouchQueue

namespace Session

/-- Nothing has happened yet. -/
def start : Session := ⟨.reset, .reset, [], [], [], [], []⟩

/-- A report is pushed. -/
def send (s : Session) (c : Report) : Session :=
  { s with
    queue := (s.queue.push c).2
    pushed := s.pushed ++ [c]
    accepted := if (s.queue.push c).1 then s.accepted ++ [c] else s.accepted }

/-- An event of the finger: what is to be reported of it is pushed. -/
def touch (s : Session) (phase : VmTouchPhase) (fitted : Option (Int × Int)) : Session :=
  let mapped := vmTouchMap panelW panelH fitted
  let (reported, tracker) := vmTouchTrack s.tracker phase mapped
  let s' := { s with tracker := tracker, events := s.events ++ [mapped] }
  match reported with
  | none => s'
  | some (x, y) =>
    match vmTouchContactFromUi phase x y with
    | none => s'
    | some c => s'.send ⟨c, s.events.length⟩

/-- One thing that happens. -/
def step (a : TouchAction) (s : Session) : Session :=
  match a with
  | .touch phase fitted => s.touch phase fitted
  | .pop => { s with queue := s.queue.pop, popped := s.popped ++ s.queue.peek.toList }
  | .cancel =>
    { s with queue := s.queue.cancelPending.2, cancelled := s.cancelled ++ s.queue.reports }

end Session

/-! ### The ring -/

namespace VmTouchQueue

variable {q : VmTouchQueue}

theorem length_reports (q : VmTouchQueue) : q.reports.length = q.count := by
  rw [reports, List.length_map, List.length_range]

theorem getElem_reports (q : VmTouchQueue) {i : Nat} (hi : i < q.reports.length) :
    q.reports[i] = q.get i := by
  simp only [reports, List.getElem_map, List.getElem_range]

/-- Places less than a turn apart have slots of their own. -/
theorem slot_inj {head i j : Nat} (hi : i < queueCap) (hj : j < queueCap)
    (h : (head + i) % queueCap = (head + j) % queueCap) : i = j := by
  change i < 8 at hi
  change j < 8 at hj
  change (head + i) % 8 = (head + j) % 8 at h
  omega

theorem update_slot (slot : Nat → Report) (c : Report) {head i j : Nat} (hi : i < queueCap)
    (hj : j < queueCap) :
    Function.update slot ((head + i) % queueCap) c ((head + j) % queueCap) =
      if j = i then c else slot ((head + j) % queueCap) := by
  by_cases h : j = i
  · rw [if_pos h, h, Function.update_self]
  · rw [if_neg h, Function.update_of_ne fun hsame => h (slot_inj hj hi hsame)]

/-- What the shift leaves at a place. -/
theorem shift_slot (slot : Nat → Report) (head : Nat) {left move i : Nat}
    (hroom : move + left < queueCap) (hi : i < queueCap) :
    shift head left move slot ((head + i) % queueCap) =
      if move ≤ i ∧ i < move + left then slot ((head + i + 1) % queueCap)
      else slot ((head + i) % queueCap) := by
  induction left generalizing move slot with
  | zero => rw [shift, if_neg (by omega)]
  | succ left ih =>
    rw [shift, ih _ (by omega), update_slot _ _ (by omega) hi]
    by_cases hin : move + 1 ≤ i ∧ i < move + 1 + left
    · rw [if_pos hin, if_pos (by omega), Nat.add_assoc, Nat.add_assoc,
        update_slot _ _ (by omega) (by omega), if_neg (by omega)]
    · rw [if_neg hin]
      by_cases hat : i = move
      · rw [if_pos hat, if_pos (by omega), hat]
      · rw [if_neg hat, if_neg (by omega)]

/-- The search finds the newest move, if there is one. -/
theorem newestTouching_spec (q : VmTouchQueue) (offset : Nat) :
    match q.newestTouching offset with
    | some i => i < offset ∧ (q.get i).phase = .touching ∧
        ∀ j, i < j → j < offset → (q.get j).phase ≠ .touching
    | none => ∀ j < offset, (q.get j).phase ≠ .touching := by
  induction offset with
  | zero => exact fun j hj => absurd hj (Nat.not_lt_zero j)
  | succ offset ih =>
    rw [newestTouching]
    by_cases hnow : (q.get offset).phase = .touching
    · rw [if_pos hnow]
      exact ⟨Nat.lt_succ_self _, hnow, fun j hj hj' => by omega⟩
    · rw [if_neg hnow]
      match hrest : q.newestTouching offset with
      | some i =>
        rw [hrest] at ih
        obtain ⟨hi, hphase, hlater⟩ := ih
        refine ⟨hi.trans (Nat.lt_succ_self _), hphase, fun j hj hj' => ?_⟩
        obtain hj' | rfl := Nat.lt_succ_iff_lt_or_eq.mp hj'
        · exact hlater j hj hj'
        · exact hnow
      | none =>
        rw [hrest] at ih
        intro j hj
        obtain hj | rfl := Nat.lt_succ_iff_lt_or_eq.mp hj
        · exact ih j hj
        · exact hnow

/-! ### The reports that are held -/

/-- A move, which may be given up for newer information. -/
def isMove (r : Report) : Bool := r.phase = .touching

/-- The room that is left for edges: free slots, and moves to push out. -/
def room (l : List Report) : Nat := queueCap - l.length + l.countP isMove

theorem releaseSpace_eq (q : VmTouchQueue) : q.releaseSpace = room q.reports := by
  rw [releaseSpace, room, length_reports, reports, List.countP_map]
  rfl

/-- A report that has found a free slot. -/
theorem reports_append (q : VmTouchQueue) (hfree : q.count < queueCap) (c : Report)
    (queued : Nat) :
    reports { q with
      slot := Function.update q.slot ((q.head + q.count) % queueCap) c
      count := q.count + 1
      queued := queued } = q.reports ++ [c] := by
  rw [reports, List.range_succ, List.map_append]
  refine congrArg₂ (· ++ ·) (List.map_congr_left fun i hi => ?_) ?_
  · have hi := List.mem_range.mp hi
    exact (update_slot _ _ hfree (hi.trans hfree)).trans (if_neg hi.ne)
  · exact congrArg (fun r => [r]) ((update_slot _ _ hfree hfree).trans (if_pos rfl))

/-- A report that has taken the place of the newest one. -/
theorem reports_replace (q : VmTouchQueue) (hfull : q.count = queueCap) (c : Report)
    (coalesced : Nat) :
    reports { q with
      slot := Function.update q.slot ((q.head + (q.count - 1)) % queueCap) c
      coalesced := coalesced } = (List.range 7).map q.get ++ [c] := by
  have hlast : q.count - 1 = 7 := hfull ▸ rfl
  rw [reports, hlast]
  dsimp only
  rw [hfull, List.range_succ, List.map_append]
  refine congrArg₂ (· ++ ·) (List.map_congr_left fun i hi => ?_) ?_
  · have hi : i < 7 := List.mem_range.mp hi
    exact (update_slot _ _ (by omega) (by omega)).trans (if_neg (by omega))
  · exact congrArg (fun r => [r]) ((update_slot _ _ (by omega) (by omega)).trans (if_pos rfl))

/-- A report that has pushed another one out. -/
theorem reports_displace (q : VmTouchQueue) (hfull : q.count = queueCap) {k : Nat}
    (hk : k < q.count) (c : Report) (queued coalesced : Nat) :
    reports { q with
      slot := Function.update (shift q.head (q.count - 1 - k) k q.slot)
        ((q.head + (q.count - 1)) % queueCap) c
      queued := queued
      coalesced := coalesced } = q.reports.take k ++ q.reports.drop (k + 1) ++ [c] := by
  have hlen : (q.reports.eraseIdx k).length = q.count - 1 := by
    rw [List.length_eraseIdx_of_lt (by rwa [length_reports]), length_reports]
  rw [← List.eraseIdx_eq_take_drop_succ]
  refine List.ext_getElem ?_ fun i hi hi' => ?_
  · rw [length_reports, List.length_append, hlen, List.length_singleton]
    dsimp only
    omega
  · rw [length_reports] at hi
    dsimp only at hi
    rw [getElem_reports, get]
    dsimp only
    rw [update_slot _ _ (by omega) (by omega)]
    by_cases hlast : i = q.count - 1
    · rw [if_pos hlast, List.getElem_append_right (by omega), List.getElem_singleton]
    · rw [if_neg hlast, shift_slot _ _ (by omega) (by omega), List.getElem_append_left (by omega),
        List.getElem_eraseIdx]
      split_ifs with hmoved hbefore hbefore
      · omega
      · rw [getElem_reports]
        rfl
      · rw [getElem_reports]
        rfl
      · omega

/-- What a push may do to the reports: the report goes to the end, it goes there and the newest move
is gone, or nothing changes. A move takes the place of another one only at the end. -/
inductive Pushed (l : List Report) (c : Report) : Bool → List Report → Prop
  | append (hfree : l.length < queueCap) : Pushed l c true (l ++ [c])
  | displace (pre post : List Report) (t : Report) (hfull : l.length = queueCap)
      (hl : l = pre ++ t :: post) (ht : isMove t) (hpost : ∀ r ∈ post, isMove r = false) :
      Pushed l c true (pre ++ post ++ [c])
  | refuse : Pushed l c false l

theorem push_displaces {l : List Report} (c : Report) (hfull : l.length = queueCap) {k : Nat}
    (hk : k < l.length) (ht : isMove l[k]) (hlater : ∀ r ∈ l.drop (k + 1), isMove r = false) :
    Pushed l c true (l.take k ++ l.drop (k + 1) ++ [c]) := by
  refine .displace _ _ l[k] hfull ?_ ht hlater
  rw [List.getElem_cons_drop, List.take_append_drop]

/-- The reports that are held are pushed to as `Pushed` says. -/
theorem push_cases (hcount : q.count ≤ queueCap) (c : Report) :
    Pushed q.reports c (q.push c).1 (q.push c).2.reports := by
  rw [push]
  split_ifs with hroom hfree hmove hedge
  · exact .refuse
  · have hheld := reports_append q hfree c (q.queued + 1)
    rw [hheld]
    exact .append (by rwa [length_reports])
  · have hfull : q.count = queueCap := by omega
    have hlen : q.reports.length = queueCap := by rw [length_reports, hfull]
    have hreplace := reports_replace q hfull c (q.coalesced + 1)
    have hlast : q.count - 1 = 7 := hfull ▸ rfl
    have hat : 7 < q.reports.length := hlen ▸ Nat.lt_succ_self 7
    have hheld : (List.range 7).map q.get = q.reports.take 7 ++ q.reports.drop 8 := by
      rw [List.drop_of_length_le hlen.le, List.append_nil, reports, hfull, ← List.map_take,
        List.take_range]
      rfl
    rw [hreplace, hheld]
    refine push_displaces c hlen hat ?_ ?_
    · rw [getElem_reports, isMove, decide_eq_true_iff, ← hlast]
      exact hmove.2
    · rw [List.drop_of_length_le hlen.le]
      exact nofun
  · have hfull : q.count = queueCap := by omega
    have hlen : q.reports.length = queueCap := by rw [length_reports, hfull]
    have hsearch := newestTouching_spec q q.count
    match hfound : q.newestTouching q.count with
    | none => exact .refuse
    | some k =>
      rw [hfound] at hsearch
      obtain ⟨hk, hphase, hlater⟩ := hsearch
      have hat : k < q.reports.length := by rwa [length_reports]
      have hheld := reports_displace q hfull hk c (q.queued + 1) (q.coalesced + 1)
      dsimp only
      rw [hheld]
      refine push_displaces c hlen hat ?_ fun r hr => ?_
      · rw [getElem_reports, isMove, decide_eq_true_iff]
        exact hphase
      · obtain ⟨j, hj, rfl⟩ := List.getElem_of_mem hr
        rw [List.length_drop, length_reports] at hj
        rw [List.getElem_drop, getElem_reports, isMove, decide_eq_false_iff_not]
        exact hlater _ (by omega) (by omega)
  · exact .refuse

/-- The indices are within the ring. -/
structure Valid (q : VmTouchQueue) : Prop where
  head : q.head < queueCap
  count : q.count ≤ queueCap

theorem Valid.push (hq : q.Valid) (c : Report) : (q.push c).2.Valid := by
  rw [VmTouchQueue.push]
  split_ifs with hroom hfree hmove hedge
  · exact ⟨hq.head, hq.count⟩
  · exact ⟨hq.head, hfree⟩
  · exact ⟨hq.head, hq.count⟩
  · split
    · exact ⟨hq.head, hq.count⟩
    · exact ⟨hq.head, hq.count⟩
  · exact ⟨hq.head, hq.count⟩

/-! ### The room for edges -/

theorem room_append (l : List Report) (c : Report) (hfree : l.length < queueCap) :
    room (l ++ [c]) + 1 = room l + if isMove c then 1 else 0 := by
  rw [room, room, List.length_append, List.countP_append, List.length_singleton,
    List.countP_singleton]
  omega

theorem room_displace (pre post : List Report) (t c : Report) (ht : isMove t) :
    room (pre ++ post ++ [c]) + 1 = room (pre ++ t :: post) + if isMove c then 1 else 0 := by
  simp only [room, List.length_append, List.length_cons, List.length_nil, List.countP_append,
    List.countP_cons, List.countP_nil, ht, if_true]
  omega

/-- A report that is accepted takes a place of the room, unless it is a move. -/
theorem Pushed.room {l l' : List Report} {c : Report} (h : Pushed l c true l') :
    room l' + 1 = room l + if isMove c then 1 else 0 := by
  cases h with
  | append hfree => exact room_append l c hfree
  | displace pre post t hfull hl ht hpost =>
    rw [hl]
    exact room_displace pre post t c ht

/-- The search finds nothing exactly if no move is held. -/
theorem newestTouching_eq_none_iff (q : VmTouchQueue) :
    q.newestTouching q.count = none ↔ q.reports.countP isMove = 0 := by
  have hsearch := newestTouching_spec q q.count
  have hcount : q.reports.countP isMove = 0 ↔ ∀ i < q.count, (q.get i).phase ≠ .touching := by
    rw [reports, List.countP_map, List.countP_eq_zero]
    refine forall_congr' fun i => ?_
    rw [List.mem_range, Function.comp_apply, isMove, decide_eq_true_iff]
  rw [hcount]
  match hfound : q.newestTouching q.count with
  | none =>
    rw [hfound] at hsearch
    exact ⟨fun _ => hsearch, fun _ => rfl⟩
  | some i =>
    rw [hfound] at hsearch
    exact ⟨nofun, fun hnone => absurd hsearch.2.1 (hnone i hsearch.1)⟩

/-- An edge that is not refused for the sake of a release is accepted exactly if there is room. -/
theorem push_edge_iff {c : Report} (hc : c.phase = .makeTouch ∨ c.phase = .breakTouch)
    (hroom : ¬(c.phase = .makeTouch ∧ q.count ≥ queueCap - 1 ∧ q.releaseSpace ≤ 1)) :
    (q.push c).1 = true ↔ 1 ≤ room q.reports := by
  have hnone := newestTouching_eq_none_iff q
  have hmove : ¬(c.phase = .touching ∧ (q.get (q.count - 1)).phase = .touching) := by
    rintro ⟨ht, _⟩
    rcases hc with hc | hc
    · exact nomatch hc.symm.trans ht
    · exact nomatch hc.symm.trans ht
  rw [push, if_neg hroom, room, length_reports]
  split_ifs with hfree
  · exact iff_of_true rfl (by omega)
  · match hfound : q.newestTouching q.count with
    | some k =>
      have hsome : q.reports.countP isMove ≠ 0 := fun h => by
        rw [hnone.mpr h] at hfound
        cases hfound
      exact iff_of_true rfl (by omega)
    | none =>
      have hzero := hnone.mp hfound
      exact iff_of_false nofun (by omega)

/-- A press is accepted exactly if it leaves room for its release. -/
theorem push_make_iff {c : Report} (hc : c.phase = .makeTouch) :
    (q.push c).1 = true ↔ 2 ≤ room q.reports := by
  by_cases hroom : c.phase = .makeTouch ∧ q.count ≥ queueCap - 1 ∧ q.releaseSpace ≤ 1
  · have hlow := releaseSpace_eq q ▸ hroom.2.2
    rw [push, if_pos hroom]
    exact iff_of_false nofun (by omega)
  · rw [push_edge_iff (.inl hc) hroom, ← releaseSpace_eq]
    have hspace : q.releaseSpace ≥ queueCap - q.count := Nat.le_add_right _ _
    by_cases hmany : q.count ≥ queueCap - 1
    · have hwide : ¬q.releaseSpace ≤ 1 := fun h => hroom ⟨hc, hmany, h⟩
      omega
    · have hcap : queueCap = 8 := rfl
      omega

/-- A release is accepted exactly if there is room for it. -/
theorem push_break_iff {c : Report} (hc : c.phase = .breakTouch) :
    (q.push c).1 = true ↔ 1 ≤ room q.reports := by
  refine push_edge_iff (.inr hc) ?_
  rintro ⟨hmake, -⟩
  exact nomatch hc.symm.trans hmake

/-- The controller takes the oldest report. -/
theorem pop_reports (hq : q.Valid) : q.reports = q.peek.toList ++ q.pop.reports := by
  by_cases hempty : q.count = 0
  · rw [peek, pop, if_pos hempty, if_pos hempty]
    rfl
  · obtain ⟨n, hn⟩ := Nat.exists_eq_succ_of_ne_zero hempty
    have hhead := hq.head
    rw [peek, pop, if_neg hempty, if_neg hempty, reports, reports, hn, List.range_succ_eq_map,
      List.map_cons, List.map_map]
    refine congrArg₂ List.cons ?_ (List.map_congr_left fun i _ => ?_)
    · exact congrArg q.slot (Nat.mod_eq_of_lt hhead)
    · refine congrArg q.slot ?_
      change (q.head + (i + 1)) % queueCap = ((q.head + 1) % queueCap + i) % queueCap
      rw [Nat.mod_add_mod, Nat.add_assoc, Nat.add_comm 1]

theorem Valid.pop (hq : q.Valid) : q.pop.Valid := by
  rw [VmTouchQueue.pop]
  split_ifs
  · exact hq
  · exact ⟨Nat.mod_lt _ (Nat.zero_lt_succ 7), (Nat.sub_le _ _).trans hq.count⟩

end VmTouchQueue

/-! ### The position of a report -/

/-- The event at `k` carries the position of the last event on the panel so far. -/
def Carries (events : List VmTouchPoint) (k : Nat) (x y : Int) : Prop :=
  ∃ i ≤ k, events[i]? = some ⟨x, y, true⟩ ∧
    ∀ j p, i < j → j ≤ k → events[j]? = some p → p.inside = false

variable {events : List VmTouchPoint}

theorem Carries.append {k : Nat} {x y : Int} (h : Carries events k x y) (hk : k < events.length)
    (more : List VmTouchPoint) :
    Carries (events ++ more) k x y := by
  obtain ⟨i, hi, hat, hlast⟩ := h
  refine ⟨i, hi, ?_, fun j p hij hjk hj => hlast j p hij hjk ?_⟩
  · rwa [List.getElem?_append_left (by omega)]
  · rwa [List.getElem?_append_left (by omega)] at hj

theorem carries_inside (events : List VmTouchPoint) (x y : Int) :
    Carries (events ++ [⟨x, y, true⟩]) events.length x y := by
  refine ⟨events.length, le_rfl, List.getElem?_concat_length, fun j p hij hjk => ?_⟩
  omega

/-- An event off the panel carries the position before it. -/
theorem Carries.outside {x y : Int} {p : VmTouchPoint} (h : Carries events (events.length - 1) x y)
    (hp : p.inside = false) :
    Carries (events ++ [p]) events.length x y := by
  obtain ⟨i, hi, hat, hlast⟩ := h
  have hlt : i < events.length := (List.getElem?_eq_some_iff.mp hat).1
  refine ⟨i, hlt.le, ?_, fun j p' hij hjk hj => ?_⟩
  · rwa [List.getElem?_append_left hlt]
  · obtain hjk | rfl := Nat.lt_or_eq_of_le hjk
    · rw [List.getElem?_append_left hjk] at hj
      exact hlast j p' hij (by omega) hj
    · rw [List.getElem?_concat_length] at hj
      exact Option.some.inj hj ▸ hp

/-- A position on the panel. -/
def OnPanel (x y : Int) : Prop := 0 ≤ x ∧ 0 ≤ y ∧ x < panelW ∧ y < panelH

theorem vmTouchMap_onPanel {fitted : Option (Int × Int)} {x y : Int}
    (h : vmTouchMap panelW panelH fitted = ⟨x, y, true⟩) : OnPanel x y := by
  match fitted with
  | none => cases h
  | some (a, b) =>
    rw [vmTouchMap] at h
    split_ifs at h with hout
    · cases h
    · cases h
      rw [OnPanel]
      omega

theorem contactFromUi_phase {phase : VmTouchPhase} {x y : Int} {c : Contact}
    (h : vmTouchContactFromUi phase x y = some c) :
    c.phase = (devPhase phase).1 ∧ (c.x : Int) = x ∧ (c.y : Int) = y := by
  rw [vmTouchContactFromUi] at h
  split_ifs at h with hout
  obtain rfl := Option.some.inj h
  exact ⟨rfl, Int.toNat_of_nonneg (by omega), Int.toNat_of_nonneg (by omega)⟩

theorem contactFromUi_onPanel (phase : VmTouchPhase) {x y : Int} (h : OnPanel x y) :
    (vmTouchContactFromUi phase x y).isSome := by
  obtain ⟨hx, hy, hw, hh⟩ := h
  rw [vmTouchContactFromUi, if_neg (by omega)]
  rfl

/-- The tracker of a gesture knows the position of the last event on the panel. -/
structure Tracks (events : List VmTouchPoint) (t : VmTouchTracker) : Prop where
  carries : t.active → Carries events (events.length - 1) t.x t.y
  onPanel : t.active → OnPanel t.x t.y

/-- The tracker after an event, and what it reports. -/
theorem Tracks.track {t : VmTouchTracker} (h : Tracks events t) (phase : VmTouchPhase)
    (fitted : Option (Int × Int)) :
    Tracks (events ++ [vmTouchMap panelW panelH fitted])
        (vmTouchTrack t phase (vmTouchMap panelW panelH fitted)).2 ∧
      ∀ x y, (vmTouchTrack t phase (vmTouchMap panelW panelH fitted)).1 = some (x, y) →
        Carries (events ++ [vmTouchMap panelW panelH fitted]) events.length x y ∧ OnPanel x y ∧
          (phase = .moved → (vmTouchMap panelW panelH fitted).inside) := by
  have hpanel := @vmTouchMap_onPanel fitted
  generalize vmTouchMap panelW panelH fitted = p at hpanel
  obtain ⟨px, py, inside⟩ := p
  have hlen (p : VmTouchPoint) : (events ++ [p]).length - 1 = events.length := by
    rw [List.length_append]
    rfl
  rw [vmTouchTrack]
  by_cases hbegan : phase = .began
  · rw [if_pos hbegan]
    cases inside with
    | false => exact ⟨⟨nofun, nofun⟩, nofun⟩
    | true =>
      refine ⟨⟨fun _ => ?_, fun _ => hpanel rfl⟩, ?_⟩
      · rw [hlen]
        exact carries_inside events px py
      · rintro x y ⟨⟩
        exact ⟨carries_inside events px py, hpanel rfl, fun _ => rfl⟩
  · rw [if_neg hbegan]
    cases hactive : t.active with
    | false =>
      refine ⟨⟨fun h => ?_, fun h => ?_⟩, nofun⟩
      · exact nomatch hactive.symm.trans h
      · exact nomatch hactive.symm.trans h
    | true =>
      rw [if_neg (not_not.mpr rfl)]
      cases inside with
      | false =>
        have hcarries := (h.carries hactive).outside (p := ⟨px, py, false⟩) rfl
        by_cases hmoved : phase = .moved
        · rw [if_pos ⟨nofun, hmoved⟩]
          exact ⟨⟨fun _ => hlen _ ▸ hcarries, fun _ => h.onPanel hactive⟩, nofun⟩
        · rw [if_neg fun hout => hmoved hout.2]
          change Tracks _ (if phase = .ended ∨ phase = .cancelled then { t with active := false }
            else t) ∧ ∀ x y, some (t.x, t.y) = some (x, y) → _
          refine ⟨⟨fun _ => ?_, fun _ => ?_⟩, ?_⟩
          · rw [hlen]
            split_ifs <;> exact hcarries
          · split_ifs <;> exact h.onPanel hactive
          · rintro x y ⟨⟩
            exact ⟨hcarries, h.onPanel hactive, fun h => absurd h hmoved⟩
      | true =>
        have hcarries := carries_inside events px py
        rw [if_neg fun hout => hout.1 rfl]
        change Tracks _ (if phase = .ended ∨ phase = .cancelled then ⟨false, px, py⟩
          else ⟨true, px, py⟩) ∧ ∀ x y, some (px, py) = some (x, y) → _
        refine ⟨⟨fun _ => ?_, fun _ => ?_⟩, ?_⟩
        · rw [hlen]
          split_ifs <;> exact hcarries
        · split_ifs <;> exact hpanel rfl
        · rintro x y ⟨⟩
          exact ⟨hcarries, hpanel rfl, fun _ => rfl⟩

/-! ### What becomes of a report -/

namespace VmTouchQueue

variable {l l' : List Report} {c : Report} {ok : Bool}

/-- The reports that are held stay in order, before the new one. -/
theorem Pushed.sublist (h : Pushed l c ok l') : l'.Sublist (l ++ [c]) := by
  cases h with
  | append hfree => exact List.Sublist.refl _
  | displace pre post t hfull hl ht hpost =>
    rw [hl, List.append_assoc, List.append_assoc]
    exact (List.Sublist.refl pre).append ((List.sublist_cons_self t _).trans (List.Sublist.refl _))
  | refuse => exact List.sublist_append_left _ _

/-- A report that is accepted is held, and only a move makes way for it. -/
theorem Pushed.mem (h : Pushed l c ok l') :
    (ok = true → c ∈ l') ∧ ∀ r ∈ l, r ∈ l' ∨ isMove r ∧ c ∈ l' := by
  cases h with
  | append hfree =>
    exact ⟨fun _ => List.mem_concat_self, fun r hr => .inl (List.mem_append_left _ hr)⟩
  | displace pre post t hfull hl ht hpost =>
    refine ⟨fun _ => List.mem_concat_self, fun r hr => ?_⟩
    rw [hl, List.mem_append, List.mem_cons] at hr
    rcases hr with hr | rfl | hr
    · exact .inl (List.mem_append_left _ (List.mem_append_left _ hr))
    · exact .inr ⟨ht, List.mem_concat_self⟩
    · exact .inl (List.mem_append_left _ (List.mem_append_right _ hr))
  | refuse => exact ⟨nofun, fun r hr => .inl hr⟩

/-- A move leaves the room for edges as it was. -/
theorem Pushed.room_move (h : Pushed l c ok l') (hc : isMove c) :
    VmTouchQueue.room l' = VmTouchQueue.room l := by
  cases ok with
  | false =>
    cases h
    rfl
  | true =>
    have hroom := h.room
    rw [if_pos hc] at hroom
    omega

end VmTouchQueue

namespace Session

open VmTouchQueue

variable {s : Session} {c : Report}

/-- A report that has not been lost: the controller has taken it, it is held, or it has been
cancelled. -/
def Placed (s : Session) (r : Report) : Prop :=
  r ∈ s.popped ∨ r ∈ s.queue.reports ∨ r ∈ s.cancelled

/-- A gesture is open whose press has been accepted: no edge has been pushed since. -/
def Open (s : Session) : Prop :=
  ∃ pre m post, s.pushed = pre ++ m :: post ∧ m.phase = .makeTouch ∧ m ∈ s.accepted ∧
    ∀ r ∈ post, isMove r

/-- What holds in every session. -/
structure Kept (s : Session) : Prop where
  valid : s.queue.Valid
  tracks : Tracks s.events s.tracker
  numbered : s.pushed.Pairwise fun r r' => r.event < r'.event
  past : ∀ r ∈ s.pushed, r.event < s.events.length
  order : (s.popped ++ s.queue.reports).Sublist s.pushed
  taken : ∀ r ∈ s.accepted, r ∈ s.pushed
  carries : ∀ r ∈ s.pushed, Carries s.events r.event r.x r.y
  moves : ∀ r ∈ s.pushed, isMove r → ∃ p, s.events[r.event]? = some p ∧ p.inside
  placed : ∀ r ∈ s.accepted, s.Placed r ∨ isMove r ∧ ∃ c, s.Placed c ∧ r.event < c.event
  room : s.Open → 1 ≤ room s.queue.reports
  breaks : ∀ pre m mid b post, s.pushed = pre ++ m :: (mid ++ b :: post) → m.phase = .makeTouch →
    (∀ r ∈ mid, isMove r) → b.phase = .breakTouch → m ∈ s.accepted → b ∈ s.accepted

theorem Kept.start : Kept start where
  valid := ⟨Nat.zero_lt_succ 7, Nat.zero_le _⟩
  tracks := ⟨nofun, nofun⟩
  numbered := .nil
  past := nofun
  order := .slnil
  taken := nofun
  carries := nofun
  moves := nofun
  placed := nofun
  room := fun ⟨_, _, _, h, _⟩ => absurd h.symm (List.append_ne_nil_of_right_ne_nil _ nofun)
  breaks := fun _ _ _ _ _ h => absurd h.symm (List.append_ne_nil_of_right_ne_nil _ nofun)

theorem Kept.not_mem (h : s.Kept) (hnew : ∀ r ∈ s.pushed, r.event < c.event) :
    c ∉ s.pushed ∧ c ∉ s.accepted :=
  ⟨fun hc => (hnew c hc).ne rfl, fun hc => (hnew c (h.taken c hc)).ne rfl⟩

theorem mem_accepted_send {r : Report} :
    r ∈ (s.send c).accepted ↔ r ∈ s.accepted ∨ r = c ∧ (s.queue.push c).1 = true := by
  rw [send]
  dsimp only
  split_ifs with hok
  · rw [List.mem_append, List.mem_singleton, hok, and_iff_left rfl]
  · rw [or_iff_left fun h => hok h.2]

/-- A list that ends in `c` and has `m` before its end. -/
theorem concat_eq_append_cons {α : Type} {l pre post : List α} {c m : α}
    (h : l ++ [c] = pre ++ m :: post) :
    (post = [] ∧ l = pre ∧ c = m) ∨ ∃ post', post = post' ++ [c] ∧ l = pre ++ m :: post' := by
  obtain rfl | ⟨post', x, rfl⟩ := List.eq_nil_or_concat post
  · obtain ⟨hl, hc⟩ := List.append_inj' h rfl
    exact .inl ⟨rfl, hl, (List.singleton_inj.mp hc)⟩
  · rw [List.concat_eq_append, ← List.cons_append, ← List.append_assoc] at h
    rw [List.concat_eq_append]
    obtain ⟨hl, hc⟩ := List.append_inj' h rfl
    exact .inr ⟨post', by rw [List.singleton_inj.mp hc], hl⟩

/-- A report is pushed that is newer than those before. -/
theorem Kept.send (h : s.Kept) (hnew : ∀ r ∈ s.pushed, r.event < c.event)
    (hpast : c.event < s.events.length) (hcarries : Carries s.events c.event c.x c.y)
    (hmove : isMove c → ∃ p, s.events[c.event]? = some p ∧ p.inside) : (s.send c).Kept := by
  have hpush := push_cases h.valid.count c
  obtain ⟨hheld, hmem⟩ := hpush.mem
  obtain ⟨hfresh, hfresh'⟩ := h.not_mem hnew
  have hopen : (s.send c).Open → isMove c ∧ s.Open ∨
      c.phase = .makeTouch ∧ (s.queue.push c).1 = true := by
    rintro ⟨pre, m, post, heq, hm, hacc, hpost⟩
    rw [mem_accepted_send] at hacc
    obtain ⟨rfl, rfl, rfl⟩ | ⟨post', rfl, hl⟩ := concat_eq_append_cons heq
    · exact .inr ⟨hm, (hacc.resolve_left hfresh').2⟩
    · have hmpushed : m ∈ s.pushed := hl ▸ List.mem_append_right _ List.mem_cons_self
      refine .inl ⟨hpost c List.mem_concat_self, pre, m, post', hl, hm, ?_, fun r hr =>
        hpost r (List.mem_append_left _ hr)⟩
      exact hacc.resolve_right fun hc => hfresh (hc.1 ▸ hmpushed)
  refine ⟨h.valid.push c, h.tracks, ?_, ?_, ?_, ?_, ?_, ?_, ?_, ?_, ?_⟩
  · exact List.pairwise_append.mpr ⟨h.numbered, List.pairwise_singleton _ _, fun r hr r' hr' =>
      List.mem_singleton.mp hr' ▸ hnew r hr⟩
  · exact fun r hr => (List.mem_append.mp hr).elim (h.past r) fun hr =>
      List.mem_singleton.mp hr ▸ hpast
  · refine ((List.Sublist.refl s.popped).append hpush.sublist).trans ?_
    rw [← List.append_assoc]
    exact h.order.append (List.Sublist.refl _)
  · intro r hr
    rcases mem_accepted_send.mp hr with hr | ⟨rfl, -⟩
    · exact List.mem_append_left _ (h.taken r hr)
    · exact List.mem_concat_self
  · exact fun r hr => (List.mem_append.mp hr).elim (h.carries r) fun hr =>
      List.mem_singleton.mp hr ▸ hcarries
  · exact fun r hr => (List.mem_append.mp hr).elim (h.moves r) fun hr =>
      List.mem_singleton.mp hr ▸ hmove
  · -- whatever makes way makes way for `c`, which is newer
    have hstill (r : Report) (hr : s.Placed r) :
        (s.send c).Placed r ∨ isMove r ∧ (s.send c).Placed c := by
      rcases hr with hr | hr | hr
      · exact .inl (.inl hr)
      · exact (hmem r hr).imp (fun hr => .inr (.inl hr)) fun hr => ⟨hr.1, .inr (.inl hr.2)⟩
      · exact .inl (.inr (.inr hr))
    intro r hr
    rcases mem_accepted_send.mp hr with hr | ⟨rfl, hok⟩
    · have hlt := hnew r (h.taken r hr)
      rcases h.placed r hr with hplaced | ⟨hmove, c', hc', hlt'⟩
      · exact (hstill r hplaced).imp_right fun hgone => ⟨hgone.1, c, hgone.2, hlt⟩
      · rcases hstill c' hc' with hplaced | ⟨-, hc⟩
        · exact .inr ⟨hmove, c', hplaced, hlt'⟩
        · exact .inr ⟨hmove, c, hc, hlt⟩
    · exact .inl (.inr (.inl (hheld hok)))
  · intro ho
    rcases hopen ho with ⟨hc, ho⟩ | ⟨hc, hok⟩
    · exact (hpush.room_move hc).symm ▸ h.room ho
    · have hroom := (push_make_iff hc).mp hok
      rw [hok] at hpush
      have hleft := hpush.room
      change 1 ≤ VmTouchQueue.room (s.queue.push c).2.reports
      omega
  · intro pre m mid b post heq hm hmid hb hacc
    rw [mem_accepted_send] at hacc ⊢
    have hsplit : s.pushed ++ [c] = (pre ++ m :: mid) ++ b :: post := by
      rw [List.append_assoc]
      exact heq
    have hold (hm : m ∈ s.pushed) : m ∈ s.accepted :=
      hacc.resolve_right fun hc => hfresh (hc.1 ▸ hm)
    obtain ⟨rfl, hl, rfl⟩ | ⟨post', rfl, hl⟩ := concat_eq_append_cons hsplit
    · have hmpushed : m ∈ s.pushed := hl ▸ List.mem_append_right _ List.mem_cons_self
      exact .inr ⟨rfl, (push_break_iff hb).mpr (h.room ⟨pre, m, mid, hl, hm, hold hmpushed, hmid⟩)⟩
    · rw [List.append_assoc] at hl
      have hmpushed : m ∈ s.pushed := hl ▸ List.mem_append_right _ List.mem_cons_self
      exact .inl (h.breaks pre m mid b post' hl hm hmid hb (hold hmpushed))

/-- An event of the finger is seen. -/
theorem Kept.seen (h : s.Kept) {t : VmTouchTracker} {p : VmTouchPoint}
    (htracks : Tracks (s.events ++ [p]) t) :
    Kept { s with tracker := t, events := s.events ++ [p] } where
  valid := h.valid
  tracks := htracks
  numbered := h.numbered
  past := fun r hr => by
    rw [List.length_append]
    exact (h.past r hr).trans_le (Nat.le_add_right _ _)
  order := h.order
  taken := h.taken
  carries := fun r hr => (h.carries r hr).append (h.past r hr) _
  moves := fun r hr hm => by
    rw [List.getElem?_append_left (h.past r hr)]
    exact h.moves r hr hm
  placed := h.placed
  room := h.room
  breaks := h.breaks

/-- What an event does: nothing is reported of it, or a report of it is pushed. -/
theorem touch_cases (s : Session) (phase : VmTouchPhase) (fitted : Option (Int × Int)) :
    let p := vmTouchMap panelW panelH fitted
    let s' := { s with tracker := (vmTouchTrack s.tracker phase p).2, events := s.events ++ [p] }
    (vmTouchTrack s.tracker phase p).1 = none ∧ s.touch phase fitted = s' ∨
      ∃ x y, (vmTouchTrack s.tracker phase p).1 = some (x, y) ∧
        (vmTouchContactFromUi phase x y = none ∧ s.touch phase fitted = s' ∨
          ∃ c, vmTouchContactFromUi phase x y = some c ∧
            s.touch phase fitted = s'.send ⟨c, s.events.length⟩) := by
  dsimp only
  rw [touch]
  dsimp only
  generalize vmTouchTrack s.tracker phase (vmTouchMap panelW panelH fitted) = tracked
  obtain ⟨reported, t⟩ := tracked
  cases reported with
  | none => exact .inl ⟨rfl, rfl⟩
  | some position =>
    obtain ⟨x, y⟩ := position
    refine .inr ⟨x, y, rfl, ?_⟩
    dsimp only
    cases vmTouchContactFromUi phase x y with
    | none => exact .inl ⟨rfl, rfl⟩
    | some c => exact .inr ⟨c, rfl, rfl⟩

/-- What holds in a session holds after whatever happens next. -/
theorem Kept.step (a : TouchAction) (h : s.Kept) : (s.step a).Kept := by
  cases a with
  | touch phase fitted =>
    obtain ⟨htracks, hreport⟩ := h.tracks.track phase fitted
    have hseen := h.seen htracks
    change (s.touch phase fitted).Kept
    obtain ⟨_, heq⟩ | ⟨x, y, hat, ⟨_, heq⟩ | ⟨c, hc, heq⟩⟩ := touch_cases s phase fitted
    · exact heq ▸ hseen
    · exact heq ▸ hseen
    · rw [heq]
      obtain ⟨hcarries, -, hinside⟩ := hreport x y hat
      obtain ⟨hphase, hx, hy⟩ := contactFromUi_phase hc
      refine hseen.send h.past ?_ ?_ fun hmove => ⟨_, List.getElem?_concat_length, hinside ?_⟩
      · dsimp only
        rw [List.length_append]
        exact Nat.lt_succ_self _
      · dsimp only
        rw [hx, hy]
        exact hcarries
      · rw [isMove, decide_eq_true_iff] at hmove
        have hdev : (devPhase phase).1 = .touching := hphase.symm.trans hmove
        cases phase with
        | moved => rfl
        | began | ended | cancelled => cases hdev
  | pop =>
    have hpop := pop_reports h.valid
    have hplaced (r : Report) (hr : s.Placed r) : (s.step .pop).Placed r := by
      rcases hr with hr | hr | hr
      · exact .inl (List.mem_append_left _ hr)
      · rw [hpop, List.mem_append] at hr
        exact hr.elim (fun hr => .inl (List.mem_append_right _ hr)) fun hr => .inr (.inl hr)
      · exact .inr (.inr hr)
    refine ⟨h.valid.pop, h.tracks, h.numbered, h.past, ?_, h.taken, h.carries, h.moves, ?_,
      fun ho => ?_, h.breaks⟩
    · change ((s.popped ++ s.queue.peek.toList) ++ s.queue.pop.reports).Sublist s.pushed
      rw [List.append_assoc, ← hpop]
      exact h.order
    · exact fun r hr => (h.placed r hr).imp (hplaced r) fun ⟨hm, c, hc, hlt⟩ =>
        ⟨hm, c, hplaced c hc, hlt⟩
    · have hroom := h.room ho
      have hlen := length_reports s.queue
      have hcount := h.valid.count
      change 1 ≤ VmTouchQueue.room s.queue.pop.reports
      rw [VmTouchQueue.room] at hroom ⊢
      rw [hpop, List.length_append, List.countP_append] at hroom
      rw [hpop, List.length_append] at hlen
      have htaken := List.countP_le_length (p := isMove) (l := s.queue.peek.toList)
      omega
  | cancel =>
    have hplaced (r : Report) (hr : s.Placed r) : (s.step .cancel).Placed r := by
      rcases hr with hr | hr | hr
      · exact .inl hr
      · exact .inr (.inr (List.mem_append_right _ hr))
      · exact .inr (.inr (List.mem_append_left _ hr))
    refine ⟨⟨Nat.zero_lt_succ 7, Nat.zero_le _⟩, h.tracks, h.numbered, h.past, ?_, h.taken,
      h.carries, h.moves, ?_, fun _ => Nat.one_le_two_pow (n := 3), h.breaks⟩
    · exact ((List.Sublist.refl s.popped).append (List.nil_sublist _)).trans h.order
    · exact fun r hr => (h.placed r hr).imp (hplaced r) fun ⟨hm, c, hc, hlt⟩ =>
        ⟨hm, c, hplaced c hc, hlt⟩

theorem kept_follow (as : List TouchAction) : (follow step start as).Kept :=
  (run_follow start as).keeps (fun _ a _ h => h.step a) .start

/-! ### Taking an edge -/

/-- The edge `e` is `n` places behind the oldest report. -/
def Behind (l : List Report) (e : Report) (n : Nat) : Prop :=
  ∃ pre post, l = pre ++ e :: post ∧ pre.length ≤ n

/-- A push leaves an edge its place, or brings it nearer. -/
theorem Behind.pushed {l l' : List Report} {c e : Report} {ok : Bool} {n : Nat}
    (h : Behind l e n) (he : isMove e = false) (hpush : Pushed l c ok l') : Behind l' e n := by
  obtain ⟨pre, post, rfl, hn⟩ := h
  cases hpush with
  | append hfree => exact ⟨pre, post ++ [c], by rw [List.append_assoc, List.cons_append], hn⟩
  | displace pre' post' t hfull hl ht hpost =>
    rw [List.append_eq_append_iff] at hl
    rcases hl with ⟨between, rfl, hl⟩ | ⟨between, rfl, hl⟩
    · cases between with
      | nil =>
        obtain ⟨rfl, rfl⟩ := List.cons.inj hl
        exact absurd ht (by rw [he]; nofun)
      | cons x between =>
        obtain ⟨rfl, rfl⟩ := List.cons.inj hl
        exact ⟨pre, between ++ post' ++ [c], by simp, hn⟩
    · cases between with
      | nil =>
        obtain ⟨rfl, rfl⟩ := List.cons.inj hl
        exact absurd ht (by rw [he]; nofun)
      | cons x between =>
        obtain ⟨rfl, rfl⟩ := List.cons.inj hl
        refine ⟨pre' ++ between, post ++ [c], by simp, ?_⟩
        rw [List.length_append, List.length_cons] at hn
        rw [List.length_append]
        omega
  | refuse => exact ⟨pre, post, rfl, hn⟩

/-- A report that the controller has taken stays taken. -/
theorem popped_step (s : Session) (a : TouchAction) {e : Report} (he : e ∈ s.popped) :
    e ∈ (s.step a).popped := by
  cases a with
  | touch phase fitted =>
    change e ∈ (s.touch phase fitted).popped
    obtain ⟨_, heq⟩ | ⟨x, y, _, ⟨_, heq⟩ | ⟨c, _, heq⟩⟩ := touch_cases s phase fitted
    · exact heq ▸ he
    · exact heq ▸ he
    · exact heq ▸ he
  | pop => exact List.mem_append_left _ he
  | cancel => exact he

/-- An edge comes nearer with every report that the controller takes, until it is taken itself. -/
theorem taken_follow {e : Report} (he : isMove e = false) {n : Nat} (as : List TouchAction)
    (h : s.Kept) (hcancel : TouchAction.cancel ∉ as)
    (hwait : e ∈ s.popped ∨ Behind s.queue.reports e n ∧ n < as.count .pop) :
    e ∈ (follow step s as).popped := by
  induction as generalizing s n with
  | nil => exact hwait.resolve_right fun hwait => absurd hwait.2 (Nat.not_lt_zero n)
  | cons a as ih =>
    rw [List.mem_cons, not_or] at hcancel
    change e ∈ (follow step (s.step a) as).popped
    rcases hwait with hdone | ⟨hbehind, hpops⟩
    · exact ih (n := n) (h.step a) hcancel.2 (.inl (popped_step s a hdone))
    · cases a with
      | touch phase fitted =>
        have hstays : Behind (s.step (.touch phase fitted)).queue.reports e n := by
          change Behind (s.touch phase fitted).queue.reports e n
          obtain ⟨_, heq⟩ | ⟨x, y, _, ⟨_, heq⟩ | ⟨c, _, heq⟩⟩ := touch_cases s phase fitted
          · exact heq ▸ hbehind
          · exact heq ▸ hbehind
          · exact heq ▸ hbehind.pushed he (push_cases h.valid.count _)
        have hother : TouchAction.touch phase fitted ≠ .pop := nofun
        rw [List.count_cons_of_ne hother] at hpops
        exact ih (h.step _) hcancel.2 (.inr ⟨hstays, hpops⟩)
      | pop =>
        rw [List.count_cons_self] at hpops
        refine ih (n := n - 1) (h.step _) hcancel.2 ?_
        obtain ⟨pre, post, hsplit, hn⟩ := hbehind
        have hpop := pop_reports h.valid
        rw [hsplit] at hpop
        change e ∈ s.popped ++ s.queue.peek.toList ∨ Behind s.queue.pop.reports e (n - 1) ∧ _
        cases hpeek : s.queue.peek with
        | none =>
          have hempty : s.queue.count = 0 := by
            rw [peek] at hpeek
            split_ifs at hpeek with hempty
            exact hempty
          have hlen := length_reports s.queue
          rw [hsplit, hempty, List.length_append, List.length_cons] at hlen
          omega
        | some r =>
          rw [hpeek] at hpop
          cases pre with
          | nil =>
            obtain ⟨rfl, -⟩ := List.cons.inj hpop
            exact .inl List.mem_concat_self
          | cons x pre =>
            obtain ⟨-, hrest⟩ := List.cons.inj hpop
            rw [List.length_cons] at hn
            exact .inr ⟨⟨pre, post, hrest.symm, by omega⟩, by omega⟩
      | cancel => exact absurd rfl hcancel.1

/-- In a gesture the end is reported, wherever it is. -/
theorem Kept.ended_pushes (h : s.Kept) (hactive : s.tracker.active) (fitted : Option (Int × Int)) :
    ∃ b, (s.step (.touch .ended fitted)).pushed = s.pushed ++ [b] ∧ b.phase = .breakTouch := by
  obtain ⟨_, hreport⟩ := h.tracks.track .ended fitted
  change ∃ b, (s.touch .ended fitted).pushed = s.pushed ++ [b] ∧ b.phase = .breakTouch
  obtain ⟨hnone, _⟩ | ⟨x, y, hat, ⟨hnone, _⟩ | ⟨c, hc, heq⟩⟩ := touch_cases s .ended fitted
  · rw [vmTouchTrack, if_neg nofun, hactive, if_neg (not_not.mpr rfl), if_neg fun h => nomatch h.2]
      at hnone
    cases hnone
  · have hsome := contactFromUi_onPanel .ended (hreport x y hat).2.1
    rw [hnone] at hsome
    cases hsome
  · rw [heq]
    exact ⟨_, rfl, (contactFromUi_phase hc).1⟩

/-- A finger that has been accepted down comes up, in every session of gestures, reports taken and
cancellations. The controller takes reports in the order in which they were pushed. A release whose
press was accepted is accepted; an edge is held until it is taken, and it is taken when eight
reports have been, unless it is cancelled. A move that makes way makes way for something newer, and
the position of an edge is no older than that of a move before it. While a gesture is open whose
press was accepted, there is a free slot or a move that can make way. The end of a gesture is
pushed, wherever it is. -/
theorem finger_comes_up (as : List TouchAction) :
    let s := follow step start as
    s.popped.Sublist s.pushed ∧ s.pushed.Pairwise (fun r r' => r.event < r'.event) ∧
    (∀ pre m mid b post, s.pushed = pre ++ m :: (mid ++ b :: post) → m.phase = .makeTouch →
      (∀ r ∈ mid, isMove r) → b.phase = .breakTouch → m ∈ s.accepted → b ∈ s.accepted) ∧
    (∀ e ∈ s.accepted, isMove e = false → s.Placed e ∧
      ∀ more, TouchAction.cancel ∉ more → 8 ≤ more.count .pop → e ∈ s.queue.reports →
        e ∈ (follow step s more).popped) ∧
    (∀ t ∈ s.pushed, isMove t →
      (t ∈ s.accepted → s.Placed t ∨ ∃ c, s.Placed c ∧ t.event < c.event) ∧
      ∀ e ∈ s.pushed, t.event < e.event → ∃ i, t.event ≤ i ∧ i ≤ e.event ∧
        s.events[i]? = some ⟨e.x, e.y, true⟩) ∧
    (s.Open → s.queue.count < queueCap ∨ ∃ t ∈ s.queue.reports, isMove t) ∧
    (s.tracker.active → ∀ fitted, ∃ b,
      (s.step (.touch .ended fitted)).pushed = s.pushed ++ [b] ∧ b.phase = .breakTouch) := by
  intro s
  have h : s.Kept := kept_follow as
  refine ⟨(List.sublist_append_left _ _).trans h.order, h.numbered, h.breaks, ?_, ?_, fun ho => ?_,
    h.ended_pushes⟩
  · intro e hacc he
    refine ⟨(h.placed e hacc).resolve_right fun hm => ?_, fun more hcancel hpops hheld => ?_⟩
    · exact nomatch he.symm.trans hm.1
    · obtain ⟨pre, post, hsplit⟩ := List.append_of_mem hheld
      have hlen := length_reports s.queue
      have hcount := h.valid.count
      rw [hsplit, List.length_append, List.length_cons] at hlen
      change s.queue.count ≤ 8 at hcount
      exact taken_follow he more h hcancel (.inr ⟨⟨pre, post, hsplit, le_rfl⟩, by omega⟩)
  · intro t ht hm
    refine ⟨fun hacc => (h.placed t hacc).imp_right And.right, fun e he hlt => ?_⟩
    obtain ⟨i, hi, hat, hlast⟩ := h.carries e he
    obtain ⟨p, hp, hinside⟩ := h.moves t ht hm
    refine ⟨i, ?_, hi, hat⟩
    by_contra hearlier
    exact nomatch hinside.symm.trans (hlast t.event p (Nat.not_le.mp hearlier) hlt.le hp)
  · have hroom := h.room ho
    rw [VmTouchQueue.room, length_reports] at hroom
    by_cases hfree : s.queue.count < queueCap
    · exact .inl hfree
    · have hsome : 0 < s.queue.reports.countP isMove := by omega
      exact .inr (List.countP_pos_iff.mp hsome)

end Session

end S5LBox.App
