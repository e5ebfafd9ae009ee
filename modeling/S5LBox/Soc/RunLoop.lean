import S5LBox.Soc.ActiveClock

/-!
# The loop of a run

`s5l8900_run`: batches of instructions in User mode, single instructions elsewhere, and the
retired instructions handed to the clock. The wait of a powered-down machine, which takes the place
of a run, and what the host does to the clock between runs come with it.
-/

namespace S5LBox.Soc

open Checked

variable {δ η : Type} (p : Platform δ η)

/-! ### Retired instructions -/

/-- The variables of a run. -/
structure RunState (δ η : Type) where
  n : Nat := 0
  handledSteps : Nat := 0
  activePendingRetired : Nat := 0
  activeClock : Bool := false
  st : ArmStatus := .ok
  machine : Machine δ η

/-- A device has been touched, or the host has changed an input. -/
def inputsChanged (d : δ) : Bool :=
  p.levelDirty d || p.extInputs d != p.extSeen d

/-- `run_clock_retired`. -/
def runClockRetired (retired : Nat) (forceClockSync forceDeviceRefresh : Bool)
    (r : RunState δ η) : Option (RunState δ η) := do
  if !r.activeClock then
    let m ← s5l8900Tick p retired r.machine
    return { r with machine := m }
  let pending ← add 32 r.activePendingRetired retired
  if !forceClockSync ∧ pending < activeClockSampleInsns then
    let m ← (if forceDeviceRefresh then s5l8900Tick p 0 r.machine else some r.machine)
    return { r with activePendingRetired := pending, machine := m }
  let s ← activeHostClockSync p pending r.machine
  return { r with activePendingRetired := 0, activeClock := s.1, machine := s.2 }

/-- `retirement_batch_limit`. -/
def retirementBatchLimit (remaining : Nat) (m : Machine δ η) : Option Nat := do
  if remaining = 0 ∨ p.tickEager ∨ inputsChanged p m.dev ∨ m.cpuHz = 0 ∨ m.tbHz = 0 ∨
      m.cpuHz < m.tbHz ∨ m.cpuHz ≤ m.tbAccum then
    return 0
  let toEdge ← sub (← add 64 (← sub m.cpuHz m.tbAccum) m.tbHz) 1
  let untilEdge := toEdge / m.tbHz
  return if untilEdge < remaining then untilEdge else remaining

/-- `run_retirement_batch_limit`. -/
def runRetirementBatchLimit (remaining : Nat) (activeClock : Bool) (m : Machine δ η) :
    Option Nat :=
  if !activeClock then retirementBatchLimit p remaining m
  else if remaining = 0 ∨ inputsChanged p m.dev then some 0
  else some (if activeClockBatchInsns < remaining then activeClockBatchInsns else remaining)

/-- `interpreter_tick_batch_limit`. -/
def interpreterTickBatchLimit (remaining : Nat) (activeClock : Bool) (m : Machine δ η) :
    Option Nat :=
  if !p.userMode m.dev ∨ p.preStepHook.isSome then some 0
  else runRetirementBatchLimit p remaining activeClock m

/-! ### Instructions -/

/-- `arm_step`, which may wait for an interrupt. -/
def machineStep (m : Machine δ η) : Option (ArmStatus × Machine δ η) :=
  match p.armStep m.dev with
  | .done st dev => some (st, { m with dev := dev })
  | .waits dev resume => do
    let w ← machineWaitForInterrupt p { m with dev := dev }
    return (.ok, { w.2 with dev := resume w.2.dev })

/-- The instructions of a batch, with how many of them have been retired. -/
def batchSteps : Nat → Nat → Machine δ η → Option (ArmStatus × Nat × Machine δ η)
  | 0, retired, m => some (.ok, retired, m)
  | limit + 1, retired, m => do
    let s ← machineStep p m
    if s.1 ≠ .ok then return (s.1, retired, s.2)
    if inputsChanged p s.2.dev ∨ !p.userMode s.2.dev then return (.ok, retired + 1, s.2)
    batchSteps limit (retired + 1) s.2

/-- A batch of a run, and whether the run goes on. -/
def runBatch (limit : Nat) (r : RunState δ η) : Option (Bool × RunState δ η) := do
  let b ← batchSteps p limit 0 r.machine
  let r := { r with st := b.1, n := r.n + b.2.1, machine := b.2.2 }
  let r ← (if b.2.1 ≠ 0 then
      runClockRetired p b.2.1 (r.st != .ok)
        (inputsChanged p r.machine.dev || !p.userMode r.machine.dev) r
    else some r)
  return (r.st == .ok, r)

/-- A single instruction of a run. -/
def runSingle (r : RunState δ η) : Option (Bool × RunState δ η) := do
  let s ← machineStep p r.machine
  let r := { r with st := s.1, machine := s.2 }
  if r.st ≠ .ok then return (false, r)
  let r ← runClockRetired p 1 r.machine.wfi.paceYield (inputsChanged p r.machine.dev)
    { r with n := r.n + 1 }
  if r.machine.wfi.paceYield then
    return (false, { r with machine :=
      { r.machine with wfi := { r.machine.wfi with paceYield := false } } })
  return (true, r)

/-- The instructions at the present program counter. -/
def runInstructions (maxSteps : Nat) (r : RunState δ η) : Option (Bool × RunState δ η) := do
  let limit ← interpreterTickBatchLimit p (maxSteps - r.n) r.activeClock r.machine
  if 1 < limit then runBatch p limit r else runSingle p r

/-- One turn of the loop of `s5l8900_run`, and whether the run goes on. -/
def runTurn (maxSteps : Nat) (r : RunState δ η) : Option (Bool × RunState δ η) := do
  if p.restartRequested r.machine.dev then return (false, { r with st := .restart })
  match p.preStepHook with
  | none => runInstructions p maxSteps r
  | some hook =>
    if !p.preStepMatches r.machine.dev then runInstructions p maxSteps r
    else if r.handledSteps = maxSteps then return (false, r)
    else
      let h := hook r.machine.dev
      let r := { r with machine := { r.machine with dev := h.2 } }
      if h.1 then
        let r ← runClockRetired p 1 false (inputsChanged p r.machine.dev)
          { r with handledSteps := r.handledSteps + 1 }
        return (true, r)
      else runInstructions p maxSteps r

/-- The loop of `s5l8900_run`. Every turn but the last retires an instruction or handles a step,
and there are at most `maxSteps` of each. -/
def runLoop (maxSteps : Nat) : Nat → RunState δ η → Option (RunState δ η)
  | 0, _ => none
  | fuel + 1, r =>
    if maxSteps ≤ r.n then some r
    else do
      let t ← runTurn p maxSteps r
      if t.1 then runLoop maxSteps fuel t.2 else return t.2

/-! ### Runs -/

/-- The host time that a wait of a powered-down machine counts for. -/
def powerWaitElapsed (startNs endNs : Nat) : Nat :=
  if startNs ≤ endNs ∧ wfiPaceSliceNs < endNs - startNs then
    if wfiPaceSliceNs + activeClockMaxStepNs < endNs - startNs then
      wfiPaceSliceNs + activeClockMaxStepNs
    else endNs - startNs
  else wfiPaceSliceNs

/-- The host time behind the sleep of a powered-down machine, where it was measured. -/
def measureWait (startNs : Option Nat) (m : Machine δ η) : Nat × Machine δ η :=
  match startNs with
  | none => (wfiPaceSliceNs, m)
  | some startNs =>
    ((hostSample p m).1.elim wfiPaceSliceNs (powerWaitElapsed startNs), (hostSample p m).2)

/-- `powered_down_host_wait`. -/
def poweredDownHostWait (m : Machine δ η) : Option (Bool × Machine δ η) := do
  match p.hostSleep with
  | none => return (false, { m with powerWaitFraction := 0 })
  | some sleep =>
    if !p.poweredDown m.dev then return (false, { m with powerWaitFraction := 0 })
    let m := { m with clock := m.clock.quiesceInputGuard.resetAnchor }
    let startNs := (hostSample p m).1
    let m := (hostSample p m).2
    let slept := (sleepFor sleep wfiPaceSliceNs m).1
    let m := (sleepFor sleep wfiPaceSliceNs m).2
    if !slept then return (true, m)
    let elapsedNs := (measureWait p startNs m).1
    let m := (measureWait p startNs m).2
    match ← activeClockElapsedTicks elapsedNs (p.pmuHz m.dev) m.powerWaitFraction with
    | none => return (true, m)
    | some due => return (true, { m with
        dev := p.pmuTick (due.1 % 2 ^ 32) m.dev, powerWaitFraction := due.2 })

/-- The start of a run, which tells whether host time is kept. -/
def startClock (maxSteps : Nat) (m : Machine δ η) : Option (Bool × Machine δ η) := do
  if maxSteps ≠ 0 ∧ p.hostNow.isSome ∧ !m.clock.deadlineShield then
    if !m.clock.anchorValid then activeHostClockSync p 0 m
    else
      let m ← s5l8900Tick p 0 m
      return (true, m)
  else return (false, m)

/-- The end of a run: a last synchronisation, and the services of the host. The service that
rebuilds the machine is left out. -/
def finishRun (r : RunState δ η) : Option (ArmStatus × Nat × Machine δ η) := do
  let st := if r.st = .ok ∧ p.restartRequested r.machine.dev then .restart else r.st
  let m ← (if r.activeClock ∧ r.activePendingRetired ≠ 0 then
      (activeHostClockSync p r.activePendingRetired r.machine).map Prod.snd
    else some r.machine)
  let m := { m with dev := p.uart4Service r.n m.dev }
  let m := if st = .restart then { m with dev := p.clearRestart m.dev } else m
  return (st, r.n, m)

/-- `s5l8900_run`. -/
def s5l8900Run (maxSteps : Nat) (m : Machine δ η) : Option (ArmStatus × Nat × Machine δ η) := do
  let w ← (if maxSteps ≠ 0 ∧ !p.restartRequested m.dev then poweredDownHostWait p m
    else some (false, m))
  let maxSteps := if w.1 then 0 else maxSteps
  let s ← startClock p maxSteps { w.2 with wfi := { w.2.wfi with paceYield := false } }
  let r ← runLoop p maxSteps (2 * maxSteps + 1) { activeClock := s.1, machine := s.2 }
  finishRun p r

/-! ### The host between runs -/

/-- `s5l8900_set_active_clock_work_budget`. -/
def s5l8900SetActiveClockWorkBudget (ticksPerRetirement : Nat) (m : Machine δ η) :
    Bool × Machine δ η :=
  if ticksPerRetirement = 0 ∨ activeClockMaxWorkTicks < ticksPerRetirement then (false, m)
  else (true, { m with clock :=
    { m.clock with maxTicksPerRetirement := ticksPerRetirement }.resetAnchor })

/-- `s5l8900_resume_active_host_clock`. -/
def s5l8900ResumeActiveHostClock (pausedAtNs resumedAtNs : Nat) (m : Machine δ η) :
    Bool × Machine δ η :=
  if p.hostNow.isNone then (true, m)
  else if pausedAtNs ≠ 0 ∧ pausedAtNs ≤ resumedAtNs ∧
      (!m.clock.anchorValid ∨ m.clock.lastHostNs ≤ pausedAtNs) ∧
      (!m.clock.inputGuardHostValid ∨ m.clock.inputGuardHostNs ≤ pausedAtNs) then
    (true, { m with clock := { m.clock with
      inputGuardHostNs := if m.clock.inputGuardHostValid then
          resumedAtNs - (pausedAtNs - m.clock.inputGuardHostNs)
        else m.clock.inputGuardHostNs }.resetAnchor })
  else
    (false, { m with clock := { m.clock with
      failures := activeClockCounterAdd m.clock.failures 1, inputGuardHostNs := 0
      inputGuardHostValid := false }.resetAnchor })

/-- `s5l8900_set_wfi_host_pacing`, with a callback again. -/
def s5l8900SetWfiHostPacing (m : Machine δ η) : Machine δ η :=
  { m with
    wfi := {}, powerWaitFraction := 0
    clock := { m.clock with idleOversleepNs := 0, idleCreditTicks := 0, idleRepaidTicks := 0 } }

/-- The part of `wake_from_pmu_power_state` that concerns the clock. -/
def wakeFromPmuPowerState (m : Machine δ η) : Machine δ η :=
  { m with
    wfi := { m.wfi with paceYield := false }, powerWaitFraction := 0
    clock := { m.clock with
      inputGuardHostNs := 0, inputGuard := false, inputGuardHostValid := false
      deadlineShield := false }.resetAnchor }

/-- What happens to a machine: a run, or between runs a change of the devices and a refresh by the
host, the passing of host time, and the calls above. -/
inductive Act (δ η : Type)
  | run (maxSteps : Nat)
  | device (dev : δ)
  | refresh
  | pass (host : η)
  | input
  | wake
  | budget (ticksPerRetirement : Nat)
  | resume (pausedAtNs resumedAtNs : Nat)
  | pacing

/-- One of the happenings. -/
def Act.apply (a : Act δ η) (m : Machine δ η) : Option (Machine δ η) :=
  match a with
  | .run maxSteps => (s5l8900Run p maxSteps m).map fun r => r.2.2
  | .device dev => some { m with dev := dev }
  | .refresh => s5l8900Tick p 0 m
  | .pass host => some { m with host := host }
  | .input => some { m with clock := if p.hostNow.isNone then m.clock
      else m.clock.beginInputGuard }
  | .wake => some (wakeFromPmuPowerState m)
  | .budget ticks => some (s5l8900SetActiveClockWorkBudget ticks m).2
  | .resume paused resumed => some (s5l8900ResumeActiveHostClock p paused resumed m).2
  | .pacing => some (s5l8900SetWfiHostPacing m)

end S5LBox.Soc
