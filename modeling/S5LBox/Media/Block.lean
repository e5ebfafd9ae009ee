import Mathlib.Tactic.Linarith
import S5LBox.Arm.Cpu

/-!
# Exact transfers of a block backend

`vm_block_read_exact` and `vm_block_write_exact` (`vm_block.c`) carry a whole range between a
buffer and a backend whose callbacks may do less than they are asked: short counts, retries and
errors. Both run one loop. A buffer is its octets from its start on, and what the callbacks share
is a host state `η`. The loop returns, beside what the source returns, the calls that it made.

## Main definitions

* `VmBlock`, `vmBlockReadExact`, `vmBlockWriteExact`.
* `Exactly`: what a transfer reports and which calls it makes, whatever the callbacks answer.
* `Backs`: the callback contract, over the media that a host state holds.

## Main results

* `vmBlockReadExact_exactly`, `vmBlockWriteExact_exactly`.
* `vmBlockReadExact_media`, `vmBlockWriteExact_media`: the octets of a transfer.
-/

namespace S5LBox.Media

/-- `VM_BLOCK_NO_PROGRESS_LIMIT`. -/
def vmBlockNoProgressLimit : Nat := 64

/-- `VM_BLOCK_MAX_CALLBACK_BYTES`. -/
def vmBlockMaxCallbackBytes : Nat := 1048576

/-- `vm_block_io_status_t`; `other` is any value the enumeration does not name. -/
inductive VmBlockIoStatus
  | ok
  | retry
  | error
  | other
  deriving DecidableEq, Repr

/-- `vm_block_status_t`. -/
inductive VmBlockStatus
  | ok
  | invalidArgument
  | overflow
  | bounds
  | backend
  | cancelled
  | stalled
  | protocol
  deriving DecidableEq, Repr

/-- The octets of a buffer. -/
abbrev Octets := Nat → Byte

/-- `memcpy` of `n` octets to the offset `o`. -/
def memcpy (dst : Octets) (o : Nat) (src : Octets) (n : Nat) : Octets := fun i =>
  if o ≤ i ∧ i < o + n then src (i - o) else dst i

/-- The block (`vm_block_t`) over a host state. A callback is given an offset, the buffer from the
octet on that it is to start with, and the octets requested; it answers with its status and its
count. -/
structure VmBlock (η : Type) where
  size : BitVec 64
  readAt : Option (η → BitVec 64 → Octets → Nat → (VmBlockIoStatus × Nat) × Octets × η)
  writeAt : Option (η → BitVec 64 → Octets → Nat → (VmBlockIoStatus × Nat) × η)

variable {η γ : Type}

/-- `vm_block_check_range`. -/
def vmBlockCheckRange (b : VmBlock η) (offset length : BitVec 64) : VmBlockStatus :=
  if length > BitVec.allOnes 64 - offset then .overflow
  else if offset > b.size ∨ length > b.size - offset then .bounds
  else .ok

/-- The poll of an optional cancellation callback. -/
def polled (cancelled : Option (η → Bool × η)) (h : η) : Bool × η :=
  match cancelled with
  | some f => f h
  | none => (false, h)

/-! ### The loop -/

/-- What the answer of a callback comes to. -/
inductive Answer
  | moved (n : Nat)
  | idle
  | stop (status : VmBlockStatus)
  deriving DecidableEq, Repr

/-- The answer of a callback that was asked for `requested` octets. -/
def answer (requested : Nat) (io : VmBlockIoStatus) (actual : Nat) : Answer :=
  if requested < actual then .stop .protocol
  else
    match io with
    | .ok => if actual ≠ 0 then .moved actual else .idle
    | .retry => if actual ≠ 0 then .stop .protocol else .idle
    | .error => if actual ≠ 0 then .stop .protocol else .stop .backend
    | .other => .stop .protocol

/-- The octets that an answer moves. -/
def Answer.count : Answer → Nat
  | .moved n => n
  | _ => 0

/-- A call of a callback, with its answer. -/
structure IoCall where
  offset : BitVec 64
  requested : Nat
  io : VmBlockIoStatus
  actual : Nat
  deriving DecidableEq, Repr

/-- The octets that a call moves. -/
def IoCall.count (c : IoCall) : Nat := (answer c.requested c.io c.actual).count

/-- How a transfer ends: its status, `*out_transferred`, what it leaves, and its calls. -/
structure Outcome (γ : Type) where
  status : VmBlockStatus
  transferred : Nat
  state : γ
  calls : List IoCall := []

/-- An outcome with a call before it. -/
def Outcome.after (c : IoCall) (r : Outcome γ) : Outcome γ := { r with calls := c :: r.calls }

theorem answer_moved {requested actual n : Nat} {io : VmBlockIoStatus}
    (h : answer requested io actual = .moved n) :
    io = .ok ∧ actual = n ∧ 0 < n ∧ n ≤ requested := by
  unfold answer at h
  split_ifs at h with hmany hzero
  · cases io with
    | ok =>
      cases h
      exact ⟨rfl, rfl, Nat.pos_of_ne_zero hzero, Nat.le_of_not_lt hmany⟩
    | retry => cases h
    | error => cases h
    | other => cases h
  · cases io <;> cases h

theorem answer_stop {requested actual : Nat} {io : VmBlockIoStatus} {status : VmBlockStatus}
    (h : answer requested io actual = .stop status) : status ≠ .ok := by
  unfold answer at h
  split_ifs at h with hmany hzero
  · cases h
    exact nofun
  · cases io <;> cases h <;> exact nofun
  · cases io <;> cases h <;> exact nofun

/-- The loop of `vm_block_read_exact` and of `vm_block_write_exact`, which differ in the callback:
`io` is its call at a count of octets done. -/
def exactLoop (offset : BitVec 64) (length : Nat) (poll : γ → Bool × γ)
    (io : γ → Nat → Nat → (VmBlockIoStatus × Nat) × γ) (completed noProgress : Nat) (s : γ) :
    Outcome γ :=
  if completed < length then
    let requested := min (length - completed) vmBlockMaxCallbackBytes
    let stop := poll s
    if stop.1 then ⟨.cancelled, completed, stop.2, []⟩
    else
      let r := io stop.2 completed requested
      let call : IoCall := ⟨offset + BitVec.ofNat 64 completed, requested, r.1.1, r.1.2⟩
      match _ : answer requested r.1.1 r.1.2 with
      | .stop status => ⟨status, completed, r.2, [call]⟩
      -- The limit is checked here too, and not reached.
      | .moved n => (exactLoop offset length poll io (completed + n) 0 r.2).after call
      | .idle =>
        if vmBlockNoProgressLimit ≤ noProgress + 1 then ⟨.stalled, completed, r.2, [call]⟩
        else (exactLoop offset length poll io completed (noProgress + 1) r.2).after call
  else ⟨.ok, completed, s, []⟩
termination_by (length - completed, vmBlockNoProgressLimit - noProgress)
decreasing_by
  · rename_i hmoved
    obtain ⟨-, -, hpos, -⟩ := answer_moved hmoved
    exact Prod.Lex.left _ _ (by omega)
  · exact Prod.Lex.right _ (by omega)

/-- The poll of a read, which has a buffer beside the host state. -/
def stagedPoll (cancelled : Option (η → Bool × η)) (s : Octets × η) : Bool × Octets × η :=
  ((polled cancelled s.2).1, s.1, (polled cancelled s.2).2)

/-- The call of `read_at` at a count of octets done. -/
def readCall (readAt : η → BitVec 64 → Octets → Nat → (VmBlockIoStatus × Nat) × Octets × η)
    (offset : BitVec 64) (s : Octets × η) (completed requested : Nat) :
    (VmBlockIoStatus × Nat) × Octets × η :=
  let r := readAt s.2 (offset + BitVec.ofNat 64 completed) (fun i => s.1 (completed + i)) requested
  (r.1, memcpy s.1 completed r.2.1 requested, r.2.2)

/-- The call of `write_at` at a count of octets done. -/
def writeCall (writeAt : η → BitVec 64 → Octets → Nat → (VmBlockIoStatus × Nat) × η)
    (offset : BitVec 64) (source : Octets) (h : η) (completed requested : Nat) :
    (VmBlockIoStatus × Nat) × η :=
  writeAt h (offset + BitVec.ofNat 64 completed) (fun i => source (completed + i)) requested

/-- `vm_block_read_exact`. -/
def vmBlockReadExact (b : VmBlock η) (offset : BitVec 64) (destination : Octets)
    (length : BitVec 64) (cancelled : Option (η → Bool × η)) (h : η) : Outcome (Octets × η) :=
  let range := vmBlockCheckRange b offset length
  if range ≠ .ok then ⟨range, 0, (destination, h), []⟩
  else if length = 0 then ⟨.ok, 0, (destination, h), []⟩
  else
    match b.readAt with
    | none => ⟨.invalidArgument, 0, (destination, h), []⟩
    | some readAt =>
      exactLoop offset length.toNat (stagedPoll cancelled)
        (readCall readAt offset) 0 0 (destination, h)

/-- `vm_block_write_exact`. -/
def vmBlockWriteExact (b : VmBlock η) (offset : BitVec 64) (source : Octets)
    (length : BitVec 64) (cancelled : Option (η → Bool × η)) (h : η) : Outcome η :=
  let range := vmBlockCheckRange b offset length
  if range ≠ .ok then ⟨range, 0, h, []⟩
  else if length = 0 then ⟨.ok, 0, h, []⟩
  else
    match b.writeAt with
    | none => ⟨.invalidArgument, 0, h, []⟩
    | some writeAt =>
      exactLoop offset length.toNat (polled cancelled) (writeCall writeAt offset source) 0 0 h

/-! ### Whatever the callbacks answer -/

/-- Calls that follow one another through a range, from the octet `completed` of it on. -/
def Placed (offset : BitVec 64) (length : Nat) : Nat → List IoCall → Prop
  | _, [] => True
  | completed, c :: cs =>
    completed < length ∧ c.offset = offset + BitVec.ofNat 64 completed ∧
      c.requested = min (length - completed) vmBlockMaxCallbackBytes ∧
      Placed offset length (completed + c.count) cs

/-- Calls of which no more in a row than the limit move nothing, with `noProgress` before them. -/
def Paced : Nat → List IoCall → Prop
  | _, [] => True
  | noProgress, c :: cs =>
    noProgress < vmBlockNoProgressLimit ∧ Paced (if c.count = 0 then noProgress + 1 else 0) cs

/-- A transfer of a range is exact: it succeeds when it has moved the whole range and only then, it
reports what its calls have moved, each call goes on where those before it have got to and stays
in the range, and few calls in a row move nothing. -/
structure Exactly (offset : BitVec 64) (length : Nat) (r : Outcome γ) : Prop where
  ok : r.status = .ok → r.transferred = length
  whole : 0 < length → r.transferred = length → r.status = .ok
  within : r.transferred ≤ length
  reported : r.transferred = (r.calls.map IoCall.count).sum
  contiguous : ∀ pre c post, r.calls = pre ++ c :: post →
    c.offset.toNat = offset.toNat + (pre.map IoCall.count).sum ∧ 0 < c.requested ∧
      c.requested ≤ vmBlockMaxCallbackBytes ∧
      c.offset.toNat + c.requested ≤ offset.toNat + length
  bounded : ∀ pre idle post, r.calls = pre ++ idle ++ post → (∀ c ∈ idle, c.count = 0) →
    idle.length ≤ vmBlockNoProgressLimit
  finite : r.calls.length ≤ vmBlockNoProgressLimit * (r.transferred + 1)

/-- A transfer that makes no call. -/
theorem Exactly.refused {status : VmBlockStatus} {offset : BitVec 64} {length : Nat} {s : γ}
    (h : status = .ok → length = 0) :
    Exactly offset length (⟨status, 0, s, []⟩ : Outcome γ) where
  ok hok := (h hok).symm
  whole hpos hzero := absurd hzero (Nat.ne_of_lt hpos)
  within := Nat.zero_le _
  reported := rfl
  contiguous _ _ _ hcalls := absurd hcalls.symm (List.append_ne_nil_of_right_ne_nil _ (by simp))
  bounded pre idle post hcalls _ := by
    have hnil := List.append_eq_nil_iff.mp (List.append_eq_nil_iff.mp hcalls.symm).1
    rw [hnil.2]
    exact Nat.zero_le _
  finite := Nat.zero_le _

section Loop

variable {offset : BitVec 64} {length completed noProgress : Nat} {poll : γ → Bool × γ}
  {io : γ → Nat → Nat → (VmBlockIoStatus × Nat) × γ} {s : γ}

theorem IoCall.count_of_moved {c : IoCall} {n : Nat}
    (h : answer c.requested c.io c.actual = .moved n) : c.count = n := by
  rw [IoCall.count, h]
  rfl

theorem IoCall.count_of_idle {c : IoCall} (h : answer c.requested c.io c.actual = .idle) :
    c.count = 0 := by
  rw [IoCall.count, h]
  rfl

theorem IoCall.count_of_stop {c : IoCall} {status : VmBlockStatus}
    (h : answer c.requested c.io c.actual = .stop status) : c.count = 0 := by
  rw [IoCall.count, h]
  rfl

/-- What a whole transfer keeps, when a poll and an answer keep it. -/
theorem exactLoop_keeps {P : Nat → γ → Prop} (hpoll : ∀ k s, P k s → P k (poll s).2)
    (hio : ∀ k s n, k < length → n = min (length - k) vmBlockMaxCallbackBytes → P k s →
      P (k + (answer n (io s k n).1.1 (io s k n).1.2).count) (io s k n).2)
    (h : P completed s) :
    P (exactLoop offset length poll io completed noProgress s).transferred
      (exactLoop offset length poll io completed noProgress s).state := by
  fun_induction exactLoop offset length poll io completed noProgress s with
  | case1 completed noProgress s hlt stop hstop => exact hpoll _ _ h
  | case2 completed noProgress s hlt requested stop hstop r call status hanswer =>
    have hkept := hio _ _ requested hlt rfl (hpoll _ _ h)
    rw [hanswer] at hkept
    exact hkept
  | case3 completed noProgress s hlt requested stop hstop r call n hanswer ih =>
    have hkept := hio _ _ requested hlt rfl (hpoll _ _ h)
    rw [hanswer] at hkept
    exact ih hkept
  | case4 completed noProgress s hlt requested stop hstop r call hanswer hlimit =>
    have hkept := hio _ _ requested hlt rfl (hpoll _ _ h)
    rw [hanswer] at hkept
    exact hkept
  | case5 completed noProgress s hlt requested stop hstop r call hanswer hlimit ih =>
    have hkept := hio _ _ requested hlt rfl (hpoll _ _ h)
    rw [hanswer] at hkept
    exact ih hkept
  | case6 completed noProgress s hlt => exact h

theorem exactLoop_status (h : completed ≤ length) :
    let r := exactLoop offset length poll io completed noProgress s
    r.transferred ≤ length ∧ (r.status = .ok ↔ r.transferred = length) := by
  dsimp only
  fun_induction exactLoop offset length poll io completed noProgress s with
  | case1 completed noProgress s hlt stop hstop =>
    exact ⟨h, iff_of_false nofun (Nat.ne_of_lt hlt)⟩
  | case2 completed noProgress s hlt requested stop hstop r call status hanswer =>
    exact ⟨h, iff_of_false (answer_stop hanswer) (Nat.ne_of_lt hlt)⟩
  | case3 completed noProgress s hlt requested stop hstop r call n hanswer ih =>
    obtain ⟨-, -, -, hle⟩ := answer_moved hanswer
    have hroom : n ≤ length - completed := hle.trans (Nat.min_le_left _ _)
    exact ih (by omega)
  | case4 completed noProgress s hlt requested stop hstop r call hanswer hlimit =>
    exact ⟨h, iff_of_false nofun (Nat.ne_of_lt hlt)⟩
  | case5 completed noProgress s hlt requested stop hstop r call hanswer hlimit ih => exact ih h
  | case6 completed noProgress s hlt =>
    exact ⟨h, iff_of_true rfl (Nat.le_antisymm h (Nat.le_of_not_lt hlt))⟩

theorem exactLoop_reported :
    (exactLoop offset length poll io completed noProgress s).transferred =
      completed +
        ((exactLoop offset length poll io completed noProgress s).calls.map IoCall.count).sum := by
  fun_induction exactLoop offset length poll io completed noProgress s with
  | case1 completed noProgress s hlt stop hstop => rfl
  | case2 completed noProgress s hlt requested stop hstop r call status hanswer =>
    have hcount : call.count = 0 := IoCall.count_of_stop hanswer
    simp [hcount]
  | case3 completed noProgress s hlt requested stop hstop r call n hanswer ih =>
    have hcount : call.count = n := IoCall.count_of_moved hanswer
    rw [Outcome.after, ih, List.map_cons, List.sum_cons, hcount]
    exact Nat.add_assoc _ _ _
  | case4 completed noProgress s hlt requested stop hstop r call hanswer hlimit =>
    have hcount : call.count = 0 := IoCall.count_of_idle hanswer
    simp [hcount]
  | case5 completed noProgress s hlt requested stop hstop r call hanswer hlimit ih =>
    have hcount : call.count = 0 := IoCall.count_of_idle hanswer
    rw [Outcome.after, ih, List.map_cons, List.sum_cons, hcount, Nat.zero_add]
  | case6 completed noProgress s hlt => rfl

theorem exactLoop_placed :
    Placed offset length completed (exactLoop offset length poll io completed noProgress s).calls := by
  fun_induction exactLoop offset length poll io completed noProgress s with
  | case1 completed noProgress s hlt stop hstop => trivial
  | case2 completed noProgress s hlt requested stop hstop r call status hanswer =>
    exact ⟨hlt, rfl, rfl, trivial⟩
  | case3 completed noProgress s hlt requested stop hstop r call n hanswer ih =>
    have hcount : call.count = n := IoCall.count_of_moved hanswer
    refine ⟨hlt, rfl, rfl, ?_⟩
    rw [hcount]
    exact ih
  | case4 completed noProgress s hlt requested stop hstop r call hanswer hlimit =>
    exact ⟨hlt, rfl, rfl, trivial⟩
  | case5 completed noProgress s hlt requested stop hstop r call hanswer hlimit ih =>
    have hcount : call.count = 0 := IoCall.count_of_idle hanswer
    refine ⟨hlt, rfl, rfl, ?_⟩
    rw [hcount]
    exact ih
  | case6 completed noProgress s hlt => trivial

theorem exactLoop_paced (h : noProgress < vmBlockNoProgressLimit) :
    Paced noProgress (exactLoop offset length poll io completed noProgress s).calls := by
  fun_induction exactLoop offset length poll io completed noProgress s with
  | case1 completed noProgress s hlt stop hstop => trivial
  | case2 completed noProgress s hlt requested stop hstop r call status hanswer =>
    exact ⟨h, trivial⟩
  | case3 completed noProgress s hlt requested stop hstop r call n hanswer ih =>
    have hcount : call.count = n := IoCall.count_of_moved hanswer
    obtain ⟨-, -, hpos, -⟩ := answer_moved hanswer
    refine ⟨h, ?_⟩
    rw [if_neg (by rw [hcount]; exact Nat.ne_of_gt hpos)]
    exact ih (by decide)
  | case4 completed noProgress s hlt requested stop hstop r call hanswer hlimit =>
    exact ⟨h, trivial⟩
  | case5 completed noProgress s hlt requested stop hstop r call hanswer hlimit ih =>
    have hcount : call.count = 0 := IoCall.count_of_idle hanswer
    refine ⟨h, ?_⟩
    rw [if_pos hcount]
    exact ih (Nat.lt_of_not_le hlimit)
  | case6 completed noProgress s hlt => trivial

end Loop

/-- A call of a placed list is where those before it have got to. -/
theorem Placed.at {offset : BitVec 64} {length completed : Nat} {pre post : List IoCall}
    {c : IoCall} (h : Placed offset length completed (pre ++ c :: post)) :
    completed + (pre.map IoCall.count).sum < length ∧
      c.offset = offset + BitVec.ofNat 64 (completed + (pre.map IoCall.count).sum) ∧
      c.requested =
        min (length - (completed + (pre.map IoCall.count).sum)) vmBlockMaxCallbackBytes := by
  induction pre generalizing completed with
  | nil => exact ⟨h.1, h.2.1, h.2.2.1⟩
  | cons d pre ih =>
    have hrest := ih h.2.2.2
    rw [List.map_cons, List.sum_cons, ← Nat.add_assoc]
    exact hrest

theorem Paced.idle {noProgress : Nat} {idle post : List IoCall}
    (h : Paced noProgress (idle ++ post)) (hidle : ∀ c ∈ idle, c.count = 0)
    (hle : noProgress ≤ vmBlockNoProgressLimit) :
    noProgress + idle.length ≤ vmBlockNoProgressLimit := by
  induction idle generalizing noProgress with
  | nil => exact hle
  | cons c idle ih =>
    obtain ⟨hlt, hrest⟩ := h
    rw [if_pos (hidle c List.mem_cons_self)] at hrest
    have hih := ih hrest (fun d hd => hidle d (List.mem_cons_of_mem c hd)) hlt
    rw [List.length_cons]
    omega

theorem Paced.of_append {noProgress : Nat} {pre rest : List IoCall}
    (h : Paced noProgress (pre ++ rest)) (hle : noProgress ≤ vmBlockNoProgressLimit) :
    ∃ later ≤ vmBlockNoProgressLimit, Paced later rest := by
  induction pre generalizing noProgress with
  | nil => exact ⟨noProgress, hle, h⟩
  | cons c pre ih =>
    obtain ⟨hlt, hrest⟩ := h
    refine ih hrest ?_
    split_ifs
    · exact hlt
    · exact Nat.zero_le _

theorem Paced.length_le {noProgress : Nat} {calls : List IoCall} (h : Paced noProgress calls)
    (hle : noProgress ≤ vmBlockNoProgressLimit) :
    noProgress + calls.length ≤ vmBlockNoProgressLimit * ((calls.map IoCall.count).sum + 1) := by
  induction calls generalizing noProgress with
  | nil => simpa using hle
  | cons c calls ih =>
    obtain ⟨hlt, hrest⟩ := h
    rw [List.length_cons, List.map_cons, List.sum_cons]
    by_cases hc : c.count = 0
    · rw [if_pos hc] at hrest
      have hih := ih hrest hlt
      rw [hc, Nat.zero_add]
      omega
    · rw [if_neg hc] at hrest
      have hih := ih hrest (Nat.zero_le _)
      have hmove : vmBlockNoProgressLimit * ((calls.map IoCall.count).sum + 1) +
          vmBlockNoProgressLimit ≤
            vmBlockNoProgressLimit * (c.count + (calls.map IoCall.count).sum + 1) := by
        rw [← Nat.mul_succ]
        exact Nat.mul_le_mul_left _ (by omega)
      omega

/-- The range test keeps the sums of a transfer in 64 bits. -/
theorem vmBlockCheckRange_ok {b : VmBlock η} {offset length : BitVec 64}
    (h : vmBlockCheckRange b offset length = .ok) :
    offset.toNat + length.toNat ≤ b.size.toNat := by
  unfold vmBlockCheckRange at h
  split_ifs at h with hover hbounds
  rw [not_or] at hbounds
  obtain ⟨hoffset, hlength⟩ := hbounds
  bv_omega

/-- A loop over a range of a block is exact. -/
theorem exactLoop_exactly {b : VmBlock η} {offset length : BitVec 64} {poll : γ → Bool × γ}
    {io : γ → Nat → Nat → (VmBlockIoStatus × Nat) × γ} {s : γ}
    (h : vmBlockCheckRange b offset length = .ok) :
    Exactly offset length.toNat (exactLoop offset length.toNat poll io 0 0 s) where
  ok := (exactLoop_status (Nat.zero_le _)).2.mp
  whole _ := (exactLoop_status (Nat.zero_le _)).2.mpr
  within := (exactLoop_status (Nat.zero_le _)).1
  reported := by rw [exactLoop_reported, Nat.zero_add]
  contiguous pre c post hcalls := by
    have hplaced : Placed offset length.toNat 0
        (exactLoop offset length.toNat poll io 0 0 s).calls := exactLoop_placed
    rw [hcalls] at hplaced
    obtain ⟨hlt, hoffset, hrequested⟩ := hplaced.at
    have hrange := vmBlockCheckRange_ok h
    have hsize := b.size.isLt
    rw [Nat.zero_add] at hlt hoffset hrequested
    have hplace : c.offset.toNat = offset.toNat + (pre.map IoCall.count).sum := by
      rw [hoffset, BitVec.toNat_add, BitVec.toNat_ofNat, Nat.add_mod_mod]
      exact Nat.mod_eq_of_lt (by omega)
    have hcap : 0 < vmBlockMaxCallbackBytes := Nat.zero_lt_succ _
    omega
  bounded pre idle post hcalls hidle := by
    have hpaced : Paced 0 (exactLoop offset length.toNat poll io 0 0 s).calls :=
      exactLoop_paced (by decide)
    rw [hcalls, List.append_assoc] at hpaced
    obtain ⟨later, hle, hrest⟩ := hpaced.of_append (Nat.zero_le _)
    exact (Nat.le_add_left _ _).trans (hrest.idle hidle hle)
  finite := by
    have hpaced : Paced 0 (exactLoop offset length.toNat poll io 0 0 s).calls :=
      exactLoop_paced (by decide)
    have hlen := hpaced.length_le (Nat.zero_le _)
    rw [Nat.zero_add] at hlen
    rw [exactLoop_reported, Nat.zero_add]
    exact hlen

theorem vmBlockReadExact_exactly (b : VmBlock η) (offset : BitVec 64) (destination : Octets)
    (length : BitVec 64) (cancelled : Option (η → Bool × η)) (h : η) :
    Exactly offset length.toNat
      (vmBlockReadExact b offset destination length cancelled h) := by
  unfold vmBlockReadExact
  dsimp only
  split_ifs with hrange hzero
  · exact .refused fun hok => absurd hok hrange
  · exact .refused fun _ => by rw [hzero]; rfl
  · cases b.readAt with
    | none => exact .refused nofun
    | some readAt => exact exactLoop_exactly (not_not.mp hrange)

theorem vmBlockWriteExact_exactly (b : VmBlock η) (offset : BitVec 64) (source : Octets)
    (length : BitVec 64) (cancelled : Option (η → Bool × η)) (h : η) :
    Exactly offset length.toNat (vmBlockWriteExact b offset source length cancelled h) := by
  unfold vmBlockWriteExact
  dsimp only
  split_ifs with hrange hzero
  · exact .refused fun hok => absurd hok hrange
  · exact .refused fun _ => by rw [hzero]; rfl
  · cases b.writeAt with
    | none => exact .refused nofun
    | some writeAt => exact exactLoop_exactly (not_not.mp hrange)

/-! ### The octets of a transfer -/

theorem memcpy_of_lt {dst src : Octets} {o n i : Nat} (h : i < o) : memcpy dst o src n i = dst i :=
  if_neg fun hin => absurd hin.1 (Nat.not_le_of_lt h)

theorem memcpy_of_ge {dst src : Octets} {o n i : Nat} (h : o + n ≤ i) :
    memcpy dst o src n i = dst i :=
  if_neg fun hin => absurd hin.2 (Nat.not_lt_of_le h)

theorem memcpy_inside {dst src : Octets} {o n i : Nat} (h : i < n) :
    memcpy dst o src n (o + i) = src i := by
  rw [memcpy, if_pos ⟨Nat.le_add_right o i, Nat.add_lt_add_left h o⟩, Nat.add_sub_cancel_left]

theorem memcpy_zero (dst src : Octets) (o : Nat) : memcpy dst o src 0 = dst := by
  funext i
  rcases Nat.lt_or_ge i o with hi | hi
  · exact memcpy_of_lt hi
  · exact memcpy_of_ge hi

/-- Two copies, the second of which goes on where the first has ended. -/
theorem memcpy_memcpy (dst src : Octets) (o k n : Nat) :
    memcpy (memcpy dst o src k) (o + k) (fun i => src (k + i)) n = memcpy dst o src (k + n) := by
  funext i
  rcases Nat.lt_or_ge i (o + k) with hfirst | hrest
  · rw [memcpy_of_lt hfirst]
    rcases Nat.lt_or_ge i o with hbefore | hin
    · rw [memcpy_of_lt hbefore, memcpy_of_lt hbefore]
    · rw [memcpy, memcpy, if_pos ⟨hin, hfirst⟩, if_pos ⟨hin, by omega⟩]
  · rcases Nat.lt_or_ge i (o + k + n) with hin | hafter
    · obtain ⟨j, rfl⟩ := Nat.exists_eq_add_of_le hrest
      have hj : j < n := Nat.lt_of_add_lt_add_left hin
      rw [memcpy_inside hj, Nat.add_assoc o k j, memcpy_inside (Nat.add_lt_add_left hj k)]
    · rw [memcpy_of_ge hafter, memcpy_of_ge (by omega), memcpy_of_ge (by omega)]

/-- What the contract says of the answer to a request of `n` octets. -/
structure Allowed (n : Nat) (io : VmBlockIoStatus) (actual : Nat) : Prop where
  named : io ≠ .other
  count : actual ≤ n
  idle : io ≠ .ok → actual = 0

/-- The callback contract of a block whose media are `media` of the host state: what is counted is
carried over, and nothing else is done. -/
structure Backs (b : VmBlock η) (media : η → Octets) : Prop where
  read : ∀ readAt, b.readAt = some readAt → ∀ h (offset : BitVec 64) (destination : Octets) (n : Nat),
    0 < n → n ≤ vmBlockMaxCallbackBytes → offset.toNat + n ≤ b.size.toNat →
    let r := readAt h offset destination n
    Allowed n r.1.1 r.1.2 ∧ (∀ i < r.1.2, r.2.1 i = media h (offset.toNat + i)) ∧
      media r.2.2 = media h
  write : ∀ writeAt, b.writeAt = some writeAt → ∀ h (offset : BitVec 64) (source : Octets) (n : Nat),
    0 < n → n ≤ vmBlockMaxCallbackBytes → offset.toNat + n ≤ b.size.toNat →
    let r := writeAt h offset source n
    Allowed n r.1.1 r.1.2 ∧ media r.2 = memcpy (media h) offset.toNat source r.1.2

/-- With the contract kept, an answer moves what it counts. -/
theorem Allowed.count_answer {n actual : Nat} {io : VmBlockIoStatus} (h : Allowed n io actual) :
    (answer n io actual).count = actual := by
  unfold answer
  rw [if_neg (Nat.not_lt_of_le h.count)]
  cases io with
  | ok =>
    by_cases hzero : actual = 0
    · rw [hzero]
      rfl
    · dsimp only
      rw [if_pos hzero]
      rfl
  | retry =>
    rw [h.idle nofun]
    rfl
  | error =>
    rw [h.idle nofun]
    rfl
  | other => exact absurd rfl h.named

/-- A cancellation callback that leaves the media alone. -/
def PollsOnly (cancelled : Option (η → Bool × η)) (media : η → Octets) : Prop :=
  ∀ f, cancelled = some f → ∀ h, media (f h).2 = media h

section Contract

variable {b : VmBlock η} {media : η → Octets} {cancelled : Option (η → Bool × η)}
  {offset length : BitVec 64} {h : η}

theorem PollsOnly.polled (hpoll : PollsOnly cancelled media) (h : η) :
    media (polled cancelled h).2 = media h := by
  cases cancelled with
  | none => rfl
  | some f => exact hpoll f rfl h

/-- A request of a transfer is one that the contract speaks about. -/
theorem request_inRange (hrange : vmBlockCheckRange b offset length = .ok) {k n : Nat}
    (hk : k < length.toNat) (hn : n = min (length.toNat - k) vmBlockMaxCallbackBytes) :
    (offset + BitVec.ofNat 64 k).toNat = offset.toNat + k ∧ 0 < n ∧ n ≤ vmBlockMaxCallbackBytes ∧
      (offset + BitVec.ofNat 64 k).toNat + n ≤ b.size.toNat := by
  have hsum := vmBlockCheckRange_ok hrange
  have hsize := b.size.isLt
  have hplace : (offset + BitVec.ofNat 64 k).toNat = offset.toNat + k := by
    rw [BitVec.toNat_add, BitVec.toNat_ofNat, Nat.add_mod_mod]
    exact Nat.mod_eq_of_lt (by omega)
  have hcap : 0 < vmBlockMaxCallbackBytes := Nat.zero_lt_succ _
  omega

/-- What a read keeps, when a poll and an answer keep it. -/
theorem vmBlockReadExact_keeps {P : Nat → Octets × η → Prop} {destination : Octets}
    (h0 : P 0 (destination, h)) (hpoll : ∀ k s, P k s → P k (stagedPoll cancelled s).2)
    (hcall : ∀ readAt, b.readAt = some readAt → vmBlockCheckRange b offset length = .ok →
      ∀ k s n, k < length.toNat → n = min (length.toNat - k) vmBlockMaxCallbackBytes → P k s →
        P (k + (answer n (readCall readAt offset s k n).1.1 (readCall readAt offset s k n).1.2).count)
          (readCall readAt offset s k n).2) :
    P (vmBlockReadExact b offset destination length cancelled h).transferred
      (vmBlockReadExact b offset destination length cancelled h).state := by
  rw [vmBlockReadExact]
  split_ifs with hrange hzero
  · exact h0
  · exact h0
  · cases hread : b.readAt with
    | none => exact h0
    | some readAt => exact exactLoop_keeps hpoll (hcall readAt hread (not_not.mp hrange)) h0

/-- What a write keeps, when a poll and an answer keep it. -/
theorem vmBlockWriteExact_keeps {P : Nat → η → Prop} {source : Octets}
    (h0 : P 0 h) (hpoll : ∀ k s, P k s → P k (polled cancelled s).2)
    (hcall : ∀ writeAt, b.writeAt = some writeAt → vmBlockCheckRange b offset length = .ok →
      ∀ k s n, k < length.toNat → n = min (length.toNat - k) vmBlockMaxCallbackBytes → P k s →
        P (k + (answer n (writeCall writeAt offset source s k n).1.1
            (writeCall writeAt offset source s k n).1.2).count)
          (writeCall writeAt offset source s k n).2) :
    P (vmBlockWriteExact b offset source length cancelled h).transferred
      (vmBlockWriteExact b offset source length cancelled h).state := by
  rw [vmBlockWriteExact]
  split_ifs with hrange hzero
  · exact h0
  · exact h0
  · cases hwrite : b.writeAt with
    | none => exact h0
    | some writeAt => exact exactLoop_keeps hpoll (hcall writeAt hwrite (not_not.mp hrange)) h0

/-- A read touches no octet of its buffer past the range. -/
theorem vmBlockReadExact_outside (destination : Octets) {i : Nat} (hi : length.toNat ≤ i) :
    (vmBlockReadExact b offset destination length cancelled h).state.1 i = destination i := by
  refine vmBlockReadExact_keeps (P := fun _ s => s.1 i = destination i) rfl (fun _ _ hs => hs) ?_
  intro readAt _ _ k s n hk hn hs
  have hend : k + n ≤ i := by omega
  exact (memcpy_of_ge hend).trans hs

/-- A read puts the media into its buffer, as far as it reports, and leaves the media alone. -/
theorem vmBlockReadExact_media (hb : Backs b media) (hpoll : PollsOnly cancelled media)
    {destination : Octets} {r : Outcome (Octets × η)}
    (hr : vmBlockReadExact b offset destination length cancelled h = r) :
    media r.state.2 = media h ∧ ∀ i < r.transferred, r.state.1 i = media h (offset.toNat + i) := by
  rw [← hr]
  refine vmBlockReadExact_keeps (P := fun k s => media s.2 = media h ∧
    ∀ i < k, s.1 i = media h (offset.toNat + i)) ⟨rfl, nofun⟩ ?_ ?_
  · rintro k s ⟨hmedia, hoctets⟩
    exact ⟨(hpoll.polled s.2).trans hmedia, hoctets⟩
  · rintro readAt hread hrange k s n hk hn ⟨hmedia, hoctets⟩
    obtain ⟨hplace, hpos, hcap, hin⟩ := request_inRange hrange hk hn
    obtain ⟨hallowed, hmoved, hkept⟩ :=
      hb.read readAt hread s.2 _ (fun i => s.1 (k + i)) n hpos hcap hin
    dsimp only [readCall]
    rw [hallowed.count_answer]
    refine ⟨hkept.trans hmedia, ?_⟩
    intro i hi
    rcases Nat.lt_or_ge i k with hbefore | hafter
    · exact (memcpy_of_lt hbefore).trans (hoctets i hbefore)
    · obtain ⟨j, rfl⟩ := Nat.exists_eq_add_of_le hafter
      have hj : j < n := Nat.lt_of_lt_of_le (Nat.lt_of_add_lt_add_left hi) hallowed.count
      rw [memcpy_inside hj, hmoved j (Nat.lt_of_add_lt_add_left hi), hplace, hmedia,
        Nat.add_assoc]

/-- A write leaves its octets in the media, as far as it reports, and nothing else. -/
theorem vmBlockWriteExact_media (hb : Backs b media) (hpoll : PollsOnly cancelled media)
    {source : Octets} {r : Outcome η}
    (hr : vmBlockWriteExact b offset source length cancelled h = r) :
    media r.state = memcpy (media h) offset.toNat source r.transferred := by
  rw [← hr]
  refine vmBlockWriteExact_keeps (P := fun k s =>
    media s = memcpy (media h) offset.toNat source k) (memcpy_zero _ _ _).symm ?_ ?_
  · intro k s hs
    exact (hpoll.polled s).trans hs
  · intro writeAt hwrite hrange k s n hk hn hs
    obtain ⟨hplace, hpos, hcap, hin⟩ := request_inRange hrange hk hn
    obtain ⟨hallowed, hmoved⟩ :=
      hb.write writeAt hwrite s _ (fun i => source (k + i)) n hpos hcap hin
    dsimp only [writeCall]
    rw [hallowed.count_answer, hmoved, hs, hplace]
    exact memcpy_memcpy _ _ _ _ _

end Contract

end S5LBox.Media
