import S5LBox.Lib.Checked
import S5LBox.Arm.Cpu

/-!
# The host clock of a running machine

The part of `machine.c` that keeps the time of the guest behind the time of the host: the
synchronisation with the host clock, the paced wait for an interrupt, and the loop of `s5l8900_run`
that calls them. The sums, differences and products of 64-bit words are checked: where one does not
fit there is no result.

The CPU and the devices are a type of their own, with the functions through which this part of the
source reaches them. The signed engine, which is not compiled in by default, and the service that
rebuilds the machine are left out.
-/

namespace S5LBox.Soc

open Checked

/-! ### Constants -/

def billion : Nat := 1000000000
def uint32Max : Nat := 2 ^ 32 - 1
def uint64Max : Nat := 2 ^ 64 - 1
def wfiPaceSliceNs : Nat := 8000000
def activeClockMaxStepNs : Nat := 8000000
def activeClockDefaultWorkTicks : Nat := 16
def activeClockMaxWorkTicks : Nat := 64
def activeClockInputShieldNs : Nat := 15000000000
def activeClockQuiescentWfiSeconds : Nat := 1
def activeClockBatchInsns : Nat := 256
def activeClockSampleInsns : Nat := 4096

/-! ### The machine -/

/-- The `active_clock_*` fields of `s5l8900_t`. -/
structure ActiveClock where
  lastHostNs : Nat := 0
  guestTicksSinceSync : Nat := 0
  fraction : Nat := 0
  idleOversleepNs : Nat := 0
  idleCreditTicks : Nat := 0
  idleRepaidTicks : Nat := 0
  updates : Nat := 0
  addedTicks : Nat := 0
  clamps : Nat := 0
  failures : Nat := 0
  inputGuardHostNs : Nat := 0
  inputGuards : Nat := 0
  inputGuardQuiesces : Nat := 0
  deadlineShields : Nat := 0
  anchorValid : Bool := false
  inputGuard : Bool := false
  inputGuardHostValid : Bool := false
  deadlineShield : Bool := false
  maxTicksPerRetirement : Nat := activeClockDefaultWorkTicks
  deriving DecidableEq

/-- The `wfi_*` fields of `s5l8900_t`. -/
structure WfiPacing where
  pacedWaits : Nat := 0
  pacedWaitNs : Nat := 0
  pacedPartialAdvances : Nat := 0
  pacedFailures : Nat := 0
  paceYield : Bool := false
  deriving DecidableEq

/-- What a synchronisation has led to: the ticks applied and the credit outstanding since the first
anchor, and the host time of both. -/
structure SyncRecord where
  applied : Nat
  credit : Nat
  firstNs : Nat
  nowNs : Nat
  deriving DecidableEq

/-- What has happened since the first anchor. The source keeps no such account, and no function
reads it. -/
structure Account where
  /-- The host time of the first anchor. -/
  first : Option Nat := none
  /-- All CPU ticks applied to the devices since then. -/
  applied : Nat := 0
  /-- The synchronisations, the latest first. -/
  syncs : List SyncRecord := []
  deriving DecidableEq

/-- `s5l8900_t`, on a CPU with devices `δ` and a host `η`. -/
structure Machine (δ η : Type) where
  cpuHz : Nat
  tbHz : Nat
  tbAccum : Nat := 0
  clock : ActiveClock := {}
  wfi : WfiPacing := {}
  powerWaitFraction : Nat := 0
  dev : δ
  host : η
  account : Account := {}

/-- What `arm_step` does: an instruction comes to its end, or it waits for an interrupt and comes
to its end normally behind that. -/
inductive Stepped (δ : Type)
  | done (st : ArmStatus) (dev : δ)
  | waits (dev : δ) (resume : δ → δ)

/-- The CPU, the devices and the host, as this part of the source sees them. -/
structure Platform (δ η : Type) where
  /-- `active_host_now`. -/
  hostNow : Option (η → Option Nat × η)
  /-- `wfi_host_sleep`. -/
  hostSleep : Option (Nat → η → Bool × η)
  /-- `g_tick_eager`. -/
  tickEager : Bool
  /-- `ext_inputs`. -/
  extInputs : δ → Word
  /-- `ext_seen`. -/
  extSeen : δ → Word
  /-- `level_dirty`. -/
  levelDirty : δ → Bool
  /-- `s5l8900_refresh`. -/
  refresh : Nat → δ → δ
  /-- `irq_line` or `fiq_line` of the CPU. -/
  line : δ → Bool
  /-- `s5l8900_next_wake`, where it names an edge. -/
  nextWake : δ → Option Nat
  /-- The CPU is in User mode. -/
  userMode : δ → Bool
  /-- `arm_step`. -/
  armStep : δ → Stepped δ
  /-- `pre_step_hook`, and whether there is one. -/
  preStepHook : Option (δ → Bool × δ)
  /-- `pre_step_target_matches`, at the present instruction. -/
  preStepMatches : δ → Bool
  /-- `restart_requested`, and its clearing. -/
  restartRequested : δ → Bool
  clearRestart : δ → δ
  /-- `powered_down_self_branch`. -/
  poweredDown : δ → Bool
  /-- The rate of the PMU, and `s5l_pcf50635_tick`. -/
  pmuHz : δ → Nat
  pmuTick : Nat → δ → δ
  /-- `uart4_host_service`, told how many instructions have been retired. -/
  uart4Service : Nat → δ → δ
  /-- Edges lie ahead, and within 32 bits. -/
  edge_bounds : ∀ d, ∀ edge ∈ nextWake d, 0 < edge ∧ edge < 2 ^ 32
  /-- Waiting for an interrupt is privileged. -/
  user_waits_not : ∀ d, userMode d = true → ∀ d' k, armStep d ≠ .waits d' k
  pmuHz_lt : ∀ d, pmuHz d < 2 ^ 32

variable {δ η : Type} (p : Platform δ η)

/-! ### Counters and guards -/

/-- `active_clock_counter_add`. -/
def activeClockCounterAdd (counter value : Nat) : Nat :=
  if uint64Max - counter < value then uint64Max else counter + value

/-- `active_clock_reset_anchor`. -/
def ActiveClock.resetAnchor (c : ActiveClock) : ActiveClock :=
  { c with
    lastHostNs := 0, guestTicksSinceSync := 0, fraction := 0, idleOversleepNs := 0
    idleCreditTicks := 0, idleRepaidTicks := 0, anchorValid := false }

/-- `active_clock_begin_input_guard`. -/
def ActiveClock.beginInputGuard (c : ActiveClock) : ActiveClock :=
  { c with
    inputGuards := activeClockCounterAdd c.inputGuards 1, inputGuardHostNs := 0
    inputGuard := true, inputGuardHostValid := false, deadlineShield := false }.resetAnchor

/-- `active_clock_quiesce_input_guard`. -/
def ActiveClock.quiesceInputGuard (c : ActiveClock) : ActiveClock :=
  if c.inputGuard then
    { c with
      inputGuardQuiesces := activeClockCounterAdd c.inputGuardQuiesces 1, inputGuardHostNs := 0
      inputGuard := false, inputGuardHostValid := false, deadlineShield := false }.resetAnchor
  else c

/-- `active_clock_elapsed_ticks`: the whole ticks and the next fraction. -/
def activeClockElapsedTicks (elapsedNs cpuHz fraction : Nat) : Option (Option (Nat × Nat)) := do
  let seconds := elapsedNs / billion
  let subNs := elapsedNs % billion
  if cpuHz = 0 ∨ billion ≤ fraction ∨ uint64Max / cpuHz < seconds then return none
  let whole ← mul 64 seconds cpuHz
  let scaledSub ← add 64 (← mul 64 subNs cpuHz) fraction
  let carry := scaledSub / billion
  if uint64Max - carry < whole then return none
  return some (← add 64 whole carry, scaledSub % billion)

/-! ### The tick -/

/-- The bit of `ext_inputs` that the touch controller drives. -/
def touchAtn : Word := 1 <<< 16

/-- The touch controller asks for attention, and has not been seen to. -/
def touchRises (d : δ) : Bool :=
  p.extInputs d &&& touchAtn != 0 && p.extSeen d &&& touchAtn == 0

/-- What `s5l8900_tick` does to the clock. -/
def ActiveClock.tick (ticks : Nat) (d : δ) (c : ActiveClock) : ActiveClock :=
  if p.hostNow.isNone then c
  else
    let c := if touchRises p d then c.beginInputGuard else c
    if ticks = 0 then c
    else { c with guestTicksSinceSync := activeClockCounterAdd c.guestTicksSinceSync ticks }

/-- Ticks that the devices have been given. -/
def Account.apply (a : Account) (ticks : Nat) : Account :=
  if a.first.isSome then { a with applied := a.applied + ticks } else a

/-- `s5l8900_tick`. -/
def s5l8900Tick (ticks : Nat) (m : Machine δ η) : Option (Machine δ η) := do
  let m' := { m with clock := m.clock.tick p ticks m.dev, account := m.account.apply ticks }
  if m.cpuHz ≠ 0 ∧ m.tbHz ≠ 0 then
    let accum ← add 64 m.tbAccum (← mul 64 ticks m.tbHz)
    if ticks ≠ 0 ∧ !p.levelDirty m.dev ∧ !p.tickEager ∧ accum < m.cpuHz ∧
        p.extInputs m.dev = p.extSeen m.dev then
      return { m' with tbAccum := accum }
    return { m' with
      tbAccum := accum % m.cpuHz, dev := p.refresh (accum / m.cpuHz % 2 ^ 32) m.dev }
  return { m' with dev := p.refresh ticks m.dev }

/-! ### Waiting for an interrupt -/

/-- A sample of the host clock. -/
def hostSample (m : Machine δ η) : Option Nat × Machine δ η :=
  match p.hostNow with
  | some now => ((now m.host).1, { m with host := (now m.host).2 })
  | none => (none, m)

/-- The CPU ticks to an edge of the timebase, unless the rates are unusual. -/
def edgeTicks (edge : Nat) (m : Machine δ η) : Option (Option Nat) := do
  if m.cpuHz ≠ 0 ∧ m.tbHz ≠ 0 then
    if m.cpuHz < m.tbHz ∨ m.cpuHz ≤ m.tbAccum then return none
    let need ← sub (← mul 64 edge m.cpuHz) m.tbAccum
    return some (need / m.tbHz + if need % m.tbHz ≠ 0 then 1 else 0)
  return some edge

/-- The loop at the end of `machine_wait_for_interrupt`, which splits a long wait. -/
def advanceTo : Nat → Nat → Machine δ η → Option (Bool × Machine δ η)
  | n + 1, cpuTicks, m =>
    if uint32Max < cpuTicks then do
      let m ← s5l8900Tick p uint32Max m
      if p.line m.dev then return (true, m)
      advanceTo n (cpuTicks - uint32Max) m
    else do
      let m ← (if cpuTicks ≠ 0 then s5l8900Tick p cpuTicks m else some m)
      return (p.line m.dev, m)
  | 0, cpuTicks, m => do
    let m ← (if cpuTicks ≠ 0 then s5l8900Tick p (cpuTicks % 2 ^ 32) m else some m)
    return (p.line m.dev, m)

/-- The host time at which a paced wait begins, if the wait can be measured. -/
def idleStart (m : Machine δ η) : Option Nat × Machine δ η :=
  if p.hostNow.isSome ∧ m.clock.anchorValid ∧ !m.clock.deadlineShield then
    let r := hostSample p m
    (r.1.filter fun start => decide (m.clock.lastHostNs ≤ start), r.2)
  else (none, m)

/-- How long the host is to sleep for a wait. -/
def pacedWaitNs (pacedTicks waitTicks cpuHz : Nat) : Option Nat := do
  if pacedTicks = 0 then return wfiPaceSliceNs
  let scaled ← mul 64 waitTicks billion
  return scaled / cpuHz + if scaled % cpuHz ≠ 0 then 1 else 0

/-- The sleep of the host, which it may refuse. -/
def sleepFor (sleep : Nat → η → Bool × η) (waitNs : Nat) (m : Machine δ η) :
    Bool × Machine δ η :=
  if waitNs = 0 then (true, m)
  else ((sleep waitNs m.host).1, { m with host := (sleep waitNs m.host).2 })

/-- A wait is entered into the counters, and makes the run yield. -/
def notePacing (waitNs : Nat) (m : Machine δ η) : Machine δ η :=
  { m with wfi := { m.wfi with
    paceYield := true
    pacedWaits := if waitNs = 0 then m.wfi.pacedWaits else (m.wfi.pacedWaits + 1) % 2 ^ 64
    pacedWaitNs := activeClockCounterAdd m.wfi.pacedWaitNs waitNs } }

/-- The time that the host has slept too long, which counts for the wait and not for the CPU. -/
def noteOversleep (start : Option Nat) (waitNs : Nat) (m : Machine δ η) :
    Option (Machine δ η) :=
  match start with
  | none => some m
  | some startNs =>
    if waitNs = 0 then some m
    else
      let r := hostSample p m
      match r.1 with
      | none => some r.2
      | some endNs =>
        if startNs ≤ endNs ∧ waitNs < endNs - startNs then do
          let oversleep ← sub (← sub endNs startNs) waitNs
          let room ← sub activeClockMaxStepNs r.2.clock.idleOversleepNs
          let oversleepNs ← add 64 r.2.clock.idleOversleepNs
            (if oversleep < room then oversleep else room)
          return { r.2 with clock := { r.2.clock with idleOversleepNs := oversleepNs } }
        else some r.2

/-- The part of a paced wait behind the sleep of the host, which pays for the wait. -/
def payWait (credit : Nat) (m : Machine δ η) : Option (Machine δ η) := do
  let creditTicks ← sub m.clock.idleCreditTicks credit
  let repaidTicks ← add 64 m.clock.idleRepaidTicks credit
  return { m with clock := { m.clock with
    idleCreditTicks := creditTicks, idleRepaidTicks := repaidTicks } }

/-- The part of a paced wait behind a sleep of the host that has succeeded. -/
def pacedAdvance (start : Option Nat) (sliceTicks cpuTicks pacedTicks credit waitNs : Nat)
    (m : Machine δ η) : Option (Bool × Machine δ η) := do
  let m ← noteOversleep p start waitNs m
  let m ← payWait credit m
  if sliceTicks < cpuTicks then
    let m ← s5l8900Tick p (pacedTicks % 2 ^ 32) { m with wfi := { m.wfi with
      pacedPartialAdvances := (m.wfi.pacedPartialAdvances + 1) % 2 ^ 64 } }
    return (p.line m.dev, m)
  advanceTo p (cpuTicks / uint32Max) cpuTicks m

/-- A paced wait of at most one slice. -/
def pacedSlice (sleep : Nat → η → Bool × η) (cpuTicks : Nat) (m : Machine δ η) :
    Option (Bool × Machine δ η) := do
  let sliceNs ← mul 64 wfiPaceSliceNs m.cpuHz
  let sliceTicks := sliceNs / billion
  let pacedTicks := if sliceTicks < cpuTicks then sliceTicks else cpuTicks
  let start := (idleStart p m).1
  let m := (idleStart p m).2
  let m := if start.isNone then { m with clock := { m.clock with idleCreditTicks := 0 } } else m
  let credit := if m.clock.idleCreditTicks < pacedTicks then m.clock.idleCreditTicks
    else pacedTicks
  let waitTicks ← sub pacedTicks credit
  let waitNs ← pacedWaitNs pacedTicks waitTicks m.cpuHz
  let m := notePacing waitNs m
  let slept := (sleepFor sleep waitNs m).1
  let m := (sleepFor sleep waitNs m).2
  if !slept then
    let m ← s5l8900Tick p 0 { m with
      wfi := { m.wfi with pacedFailures := (m.wfi.pacedFailures + 1) % 2 ^ 64 }
      clock := { m.clock with idleCreditTicks := 0 } }
    return (p.line m.dev, m)
  pacedAdvance p start sliceTicks cpuTicks pacedTicks credit waitNs m

/-- The part of `machine_wait_for_interrupt` that takes as much host time as guest time. -/
def pacedWait (sleep : Nat → η → Bool × η) (cpuTicks : Nat) (m : Machine δ η) :
    Option (Bool × Machine δ η) := do
  if m.cpuHz = 0 ∨ m.tbHz = 0 ∨ m.cpuHz < m.tbHz then
    return (false, { m with wfi := { m.wfi with
      paceYield := true, pacedFailures := (m.wfi.pacedFailures + 1) % 2 ^ 64 } })
  let quiescentTicks ← mul 64 m.cpuHz activeClockQuiescentWfiSeconds
  let m := if m.clock.inputGuard ∧ (m.clock.deadlineShield ∨ quiescentTicks ≤ cpuTicks) then
      { m with clock := m.clock.quiesceInputGuard }
    else m
  pacedSlice p sleep cpuTicks m

/-- `machine_wait_for_interrupt`. -/
def machineWaitForInterrupt (m : Machine δ η) : Option (Bool × Machine δ η) := do
  if p.line m.dev then return (true, m)
  let m ← s5l8900Tick p 0 m
  if p.line m.dev then return (true, m)
  match p.nextWake m.dev with
  | none => return (false, m)
  | some edge =>
    match ← edgeTicks edge m with
    | none => return (false, m)
    | some cpuTicks =>
      match p.hostSleep with
      | some sleep => pacedWait p sleep cpuTicks m
      | none => advanceTo p (cpuTicks / uint32Max) cpuTicks m

/-! ### Synchronisation -/

/-- A synchronisation without a sample that can be trusted. -/
def syncFailed (fallbackTicks : Nat) (m : Machine δ η) : Option (Bool × Machine δ η) := do
  let m ← s5l8900Tick p fallbackTicks { m with clock := { m.clock with
    failures := activeClockCounterAdd m.clock.failures 1, inputGuardHostNs := 0
    inputGuardHostValid := false }.resetAnchor }
  return (false, m)

/-- The deadline shield is engaged. -/
def syncShielded (fallbackTicks : Nat) (m : Machine δ η) : Option (Bool × Machine δ η) := do
  let m ← s5l8900Tick p fallbackTicks { m with clock := { m.clock with
    deadlineShields := activeClockCounterAdd m.clock.deadlineShields 1
    deadlineShield := true }.resetAnchor }
  return (false, m)

/-- The first synchronisation of all, or since the anchor was lost, sets the anchor. -/
def syncAnchor (nowNs : Nat) (m : Machine δ η) : Option (Bool × Machine δ η) := do
  let m ← s5l8900Tick p 0 { m with
    clock := { m.clock.resetAnchor with lastHostNs := nowNs, anchorValid := true }
    account := { m.account with first := m.account.first.or (some nowNs) } }
  return (true, m)

/-- The ticks that host time calls for beyond those observed, the next fraction, and whether they
have been clamped. -/
def residualTicks (due max : Option (Nat × Nat)) (observed : Nat) : Nat × Nat × Bool :=
  match due, max with
  | some due, some max =>
    let added := if observed < due.1 then due.1 - observed else 0
    if observed < due.1 ∧ (max.1 < added ∨ added = max.1 ∧ max.2 < due.2) then
      (max.1, max.2, true)
    else (added, due.2, false)
  | _, max => (max.getD (0, 0) |>.1, max.getD (0, 0) |>.2, true)

/-- The bound that the retired instructions put on the ticks of a synchronisation. -/
def retirementCap (fallbackTicks : Nat) (m : Machine δ η) : Option Nat := do
  let cap ← mul 64 fallbackTicks m.clock.maxTicksPerRetirement
  if m.clock.idleOversleepNs = 0 then return cap
  match ← activeClockElapsedTicks m.clock.idleOversleepNs m.cpuHz 0 with
  | some idle => add 64 cap idle.1
  | none => return cap

/-- The credit behind a synchronisation that withholds ticks. -/
def withhold (added cap maxAdded credit : Nat) : Option Nat := do
  let room := if credit < maxAdded then maxAdded - credit else 0
  let withheld ← sub added cap
  add 64 credit (if withheld < room then withheld else room)

/-- A synchronisation with an anchor. -/
def syncResidual (fallbackTicks nowNs : Nat) (m : Machine δ η) :
    Option (Bool × Machine δ η) := do
  let elapsedNs ← sub nowNs m.clock.lastHostNs
  let observed := if m.clock.idleRepaidTicks ≤ m.clock.guestTicksSinceSync then
      m.clock.guestTicksSinceSync - m.clock.idleRepaidTicks
    else m.clock.guestTicksSinceSync
  let due ← activeClockElapsedTicks elapsedNs m.cpuHz m.clock.fraction
  let max ← activeClockElapsedTicks activeClockMaxStepNs m.cpuHz m.clock.fraction
  let (added, fraction, clamp) := residualTicks due max observed
  let credit := if clamp then 0 else m.clock.idleCreditTicks
  let cap ← retirementCap fallbackTicks m
  let credit ← (if cap < added ∧ !clamp ∧ p.hostSleep.isSome then
      withhold added cap (max.getD (0, 0)).1 credit
    else some credit)
  let clamp := clamp || decide (cap < added)
  let added := if cap < added then cap else added
  let m ← s5l8900Tick p (added % 2 ^ 32) { m with clock := { m.clock with
    lastHostNs := nowNs, fraction := fraction, idleOversleepNs := 0, idleRepaidTicks := 0
    idleCreditTicks := credit
    clamps := if clamp then activeClockCounterAdd m.clock.clamps 1 else m.clock.clamps
    updates := activeClockCounterAdd m.clock.updates 1
    addedTicks := activeClockCounterAdd m.clock.addedTicks added } }
  return (true, { m with clock := { m.clock with guestTicksSinceSync := 0 } })

/-- A synchronisation that has led to something is entered into the account. -/
def recordSync (nowNs : Nat) (r : Bool × Machine δ η) : Bool × Machine δ η :=
  (r.1, { r.2 with account := { r.2.account with
    syncs := ⟨r.2.account.applied, r.2.clock.idleCreditTicks, r.2.account.first.getD nowNs, nowNs⟩ ::
      r.2.account.syncs } })

/-- The input guard takes note of its first sample. -/
def noteGuard (nowNs : Nat) (m : Machine δ η) : Machine δ η :=
  if m.clock.inputGuard ∧ !m.clock.inputGuardHostValid then
    { m with clock := { m.clock with inputGuardHostNs := nowNs, inputGuardHostValid := true } }
  else m

/-- A synchronisation with a sample that can be trusted. -/
def syncTrusted (fallbackTicks nowNs : Nat) (m : Machine δ η) : Option (Bool × Machine δ η) :=
  if m.clock.inputGuard ∧ !m.clock.deadlineShield ∧
      activeClockInputShieldNs ≤ nowNs - m.clock.inputGuardHostNs then
    syncShielded p fallbackTicks m
  else if !m.clock.anchorValid then (syncAnchor p nowNs m).map (recordSync nowNs)
  else (syncResidual p fallbackTicks nowNs m).map (recordSync nowNs)

/-- `active_host_clock_sync`. -/
def activeHostClockSync (fallbackTicks : Nat) (m : Machine δ η) :
    Option (Bool × Machine δ η) :=
  if p.hostNow.isNone ∨ m.cpuHz = 0 then syncFailed p fallbackTicks m
  else
    let m' := (hostSample p m).2
    match (hostSample p m).1 with
    | none => syncFailed p fallbackTicks m'
    | some nowNs =>
      if m'.clock.anchorValid ∧ nowNs < m'.clock.lastHostNs ∨
          m'.clock.inputGuardHostValid ∧ nowNs < m'.clock.inputGuardHostNs then
        syncFailed p fallbackTicks m'
      else syncTrusted p fallbackTicks nowNs (noteGuard nowNs m')

end S5LBox.Soc
