import S5LBox.Soc.IdleWaits

/-!
# Guest time never outruns host time

The loop of a run keeps the clock paid for: while host time is kept, ticks reach the devices only
through synchronisations and paced waits, and every such wait is followed by a synchronisation
before the next instruction. So does everything that the host does between runs.

The main result is `syncs_behind_host`.
-/

namespace S5LBox.Soc

open Checked Runs

variable {δ η : Type} {p : Platform δ η} {hz : Nat} {m : Machine δ η} {r : RunState δ η}

/-! ### The loop -/

/-- A run in order: it keeps host time unless there has been a fault, and then there is no anchor. -/
structure Running (H : HostClock p) (hz : Nat) (r : RunState δ η) : Prop where
  kept : Kept hz (H.read r.machine.host) 0 r.machine
  anchored : r.activeClock = false → r.machine.clock.anchorValid = false
  unshielded : r.activeClock = true → r.machine.clock.deadlineShield = false
  active : r.machine.clock.Faultless → r.activeClock = true
  pending : r.activePendingRetired < activeClockSampleInsns

theorem ActiveClock.Sound.settled {c : ActiveClock} (h : c.Sound) (hv : c.anchorValid = false) :
    c.Settled :=
  ⟨(h.loose hv).2, fun hv' => absurd (hv.symm.trans hv') Bool.false_ne_true⟩

/-- What the retirement of instructions leaves alone. -/
structure Counts (r r' : RunState δ η) : Prop where
  n : r'.n = r.n
  handledSteps : r'.handledSteps = r.handledSteps
  st : r'.st = r.st
  wfi : r'.machine.wfi = r.machine.wfi

/-- Retired instructions leave a run in order, and settle what a wait has given to the devices. -/
theorem runClockRetired_yields (H : HostClock p) {retired : Nat} {force refresh : Bool}
    (h : Running H hz r) (hs : force = true ∨ r.machine.clock.Settled)
    (hlt : retired < 2 ^ 32) (hfew : r.activeClock = true → retired ≤ activeClockBatchInsns) :
    Yields (runClockRetired p retired force refresh r) fun r' =>
      Running H hz r' ∧ r'.machine.clock.Settled ∧ Counts r r' := by
  unfold runClockRetired
  split
  · rename_i hidle
    -- Without host time every retired instruction is a tick. There has been a fault then.
    have hidle : r.activeClock = false := by simpa using hidle
    have hfault : ¬r.machine.clock.Faultless := fun hf =>
      Bool.false_ne_true (hidle.symm.trans (h.active hf))
    have hloose := h.anchored hidle
    refine (s5l8900Tick_yields H (h.kept.faulty hfault) hlt).bind fun m ⟨ht, hk⟩ => .some ?_
    have hloose' : m.clock.anchorValid = false := by
      rw [ht.clock]
      exact ActiveClock.tick_loose p hloose retired r.machine.dev
    rw [← ht.host] at hk
    refine ⟨⟨hk, fun _ => hloose', fun ha => absurd (hidle.symm.trans ha) Bool.false_ne_true,
      fun hf => absurd (ht.calm.faultless hf) hfault, h.pending⟩, hk.clock.settled hloose',
      rfl, rfl, rfl, ht.wfi⟩
  · rename_i hactive
    have hactive : r.activeClock = true := by simpa using hactive
    have hretired := hfew hactive
    have hpending := h.pending
    have hunshielded := h.unshielded hactive
    simp only [activeClockBatchInsns] at hretired
    simp only [activeClockSampleInsns] at hpending
    refine (Yields.add (by omega)).bind fun pending hp => ?_
    split
    · rename_i hkeep
      have hs : r.machine.clock.Settled := hs.resolve_left (by simpa using hkeep.1)
      have hdone : ∀ m, Kept hz (H.read m.host) 0 m → Calm r.machine m →
          Running H hz { r with activePendingRetired := pending, machine := m } :=
        fun m hk hcalm => ⟨hk, fun ha => hcalm.loose (h.anchored ha),
          fun ha => hcalm.unshielded (h.unshielded ha), fun hf => h.active (hcalm.faultless hf),
          hkeep.2⟩
      split_ifs
      · refine (s5l8900Tick_yields H h.kept (Nat.two_pow_pos 32)).bind fun m ⟨ht, hk⟩ => .some ?_
        rw [← ht.host] at hk
        have hs' : m.clock.Settled := by
          rw [ht.clock]
          exact hs.tick p (.inl rfl) r.machine.dev
        exact ⟨hdone m hk ht.calm, hs', rfl, rfl, rfl, ht.wfi⟩
      · exact .some ⟨hdone r.machine h.kept (.of_clock rfl), hs, rfl, rfl, rfl, rfl⟩
    · refine (activeHostClockSync_yields H h.kept (by omega) hunshielded).bind
        fun s hsync => .some ?_
      refine ⟨⟨hsync.kept, hsync.lost, hsync.shield, fun hf => (hsync.faultless hf).2, ?_⟩,
        hsync.settled, rfl, rfl, rfl, hsync.wfi⟩
      exact Nat.zero_lt_of_lt hpending

/-! ### Instructions -/

theorem retirementBatchLimit_yields {remaining : Nat} (hcpu : m.cpuHz < 2 ^ 32)
    (htb : m.tbHz < 2 ^ 32) : Yields (retirementBatchLimit p remaining m) (· ≤ remaining) := by
  unfold retirementBatchLimit
  split_ifs with hno
  · exact .some (Nat.zero_le _)
  · push Not at hno
    obtain ⟨-, -, -, -, htbpos, -, haccum⟩ := hno
    refine (Yields.sub haccum.le).bind fun left hleft => ?_
    refine (Yields.add (by omega)).bind fun sum hsum => ?_
    refine (Yields.sub (by omega)).bind fun toEdge _ => .some ?_
    split_ifs <;> omega

/-- A batch runs in User mode, and is bounded. -/
theorem interpreterTickBatchLimit_yields {remaining : Nat} {active : Bool}
    (hcpu : m.cpuHz < 2 ^ 32) (htb : m.tbHz < 2 ^ 32) :
    Yields (interpreterTickBatchLimit p remaining active m) fun limit =>
      limit ≤ remaining ∧ (active = true → limit ≤ activeClockBatchInsns) ∧
        (1 < limit → p.userMode m.dev = true) := by
  unfold interpreterTickBatchLimit runRetirementBatchLimit
  split_ifs with hmode hactive hchanged hlong
  · exact .some ⟨Nat.zero_le _, fun _ => Nat.zero_le _, fun h => absurd h (by omega)⟩
  all_goals have huser : p.userMode m.dev = true := by simpa using (not_or.mp hmode).1
  · refine (retirementBatchLimit_yields hcpu htb).imp fun limit hle =>
      ⟨hle, fun ha => ?_, fun _ => huser⟩
    simp [ha] at hactive
  · exact .some ⟨Nat.zero_le _, fun _ => Nat.zero_le _, fun _ => huser⟩
  · exact .some ⟨hlong.le, fun _ => le_rfl, fun _ => huser⟩
  · exact .some ⟨le_rfl, fun _ => Nat.le_of_not_lt hlong, fun _ => huser⟩

/-- An instruction leaves a machine in order. In User mode, and where it does not come to its end, it
gives nothing to the devices. -/
theorem machineStep_yields (H : HostClock p) (h : Kept hz (H.read m.host) 0 m)
    (hs : m.clock.Settled) :
    Yields (machineStep p m) fun s =>
      Waited H hz m s.2 ∧ (p.userMode m.dev = true ∨ s.1 ≠ .ok → s.2.clock.Settled) := by
  unfold machineStep
  cases hstep : p.armStep m.dev with
  | done st dev => exact .some ⟨⟨h.congr rfl rfl rfl, .of_clock rfl, .inr hs⟩, fun _ => hs⟩
  | waits dev resume =>
    have hk : Kept hz (H.read m.host) 0 { m with dev := dev } := h.congr rfl rfl rfl
    have hwaits : Yields (machineWaitForInterrupt p { m with dev := dev })
        fun w => Waited H hz { m with dev := dev } w.2 :=
      machineWaitForInterrupt_yields H hk hs
    refine hwaits.bind fun w hw => .some ⟨?_, fun hor => ?_⟩
    · exact ⟨hw.kept.congr rfl rfl rfl, ⟨hw.calm.faultless, hw.calm.loose, hw.calm.unshielded⟩,
        hw.settled⟩
    · rcases hor with huser | hst
      · exact absurd hstep (p.user_waits_not m.dev huser dev resume)
      · exact absurd rfl hst

/-- What a batch leads to. -/
structure Batched (H : HostClock p) (hz limit retired : Nat) (m : Machine δ η)
    (b : ArmStatus × Nat × Machine δ η) : Prop where
  kept : Kept hz (H.read b.2.2.host) 0 b.2.2
  settled : b.2.2.clock.Settled
  calm : Calm m b.2.2
  le : b.2.1 ≤ retired + limit
  lt : b.1 = .ok → 0 < limit → retired < b.2.1
  ge : retired ≤ b.2.1

theorem batchSteps_yields (H : HostClock p) (limit retired : Nat) (m : Machine δ η)
    (h : Kept hz (H.read m.host) 0 m) (hs : m.clock.Settled) (hu : p.userMode m.dev = true) :
    Yields (batchSteps p limit retired m) (Batched H hz limit retired m) := by
  induction limit generalizing retired m with
  | zero => exact .some ⟨h, hs, .of_clock rfl, le_rfl, fun _ h0 => absurd h0 (Nat.lt_irrefl 0), le_rfl⟩
  | succ limit ih =>
    unfold batchSteps
    refine (machineStep_yields H h hs).bind fun s ⟨hw, hs'⟩ => ?_
    split_ifs with hst hend
    · exact .some ⟨hw.kept, hs' (.inl hu), hw.calm, Nat.le_add_right _ _, fun hok => absurd hok hst, le_rfl⟩
    · exact .some ⟨hw.kept, hs' (.inl hu), hw.calm, by dsimp only; omega, fun _ _ => Nat.lt_succ_self _,
        Nat.le_succ _⟩
    · have hu' : p.userMode s.2.dev = true := by simpa using (not_or.mp hend).2
      refine (ih (retired + 1) s.2 hw.kept (hs' (.inl hu)) hu').imp fun b hb => ?_
      have hge := hb.ge
      have hle := hb.le
      exact ⟨hb.kept, hb.settled, hw.calm.trans hb.calm, by omega, fun _ _ => by omega, by omega⟩

/-! ### Turns of the loop -/

/-- A turn of the loop leaves the run in order and within its bounds, and where the run goes on it
has retired an instruction or handled a step. -/
structure Turned (H : HostClock p) (hz maxSteps : Nat) (r : RunState δ η)
    (t : Bool × RunState δ η) : Prop where
  running : Running H hz t.2
  settled : t.2.machine.clock.Settled
  n_le : t.2.n ≤ maxSteps
  handled_le : t.2.handledSteps ≤ maxSteps
  lt : t.1 = true → r.n + r.handledSteps < t.2.n + t.2.handledSteps

/-- An instruction or a batch leaves a run in order, but for what a wait has given. -/
theorem Running.calm {r' : RunState δ η} (h : Running H hz r)
    (hk : Kept hz (H.read r'.machine.host) 0 r'.machine) (hc : Calm r.machine r'.machine)
    (ha : r'.activeClock = r.activeClock)
    (hp : r'.activePendingRetired = r.activePendingRetired) : Running H hz r' where
  kept := hk
  anchored hi := hc.loose (h.anchored (ha ▸ hi))
  unshielded hi := hc.unshielded (h.unshielded (ha ▸ hi))
  active hf := ha ▸ h.active (hc.faultless hf)
  pending := hp ▸ h.pending

theorem runBatch_yields (H : HostClock p) {limit maxSteps : Nat} (h : Running H hz r)
    (hs : r.machine.clock.Settled) (hu : p.userMode r.machine.dev = true) (hpos : 0 < limit)
    (hlimit : r.n + limit ≤ maxSteps) (hmax : maxSteps < 2 ^ 32)
    (hhandled : r.handledSteps ≤ maxSteps)
    (hfew : r.activeClock = true → limit ≤ activeClockBatchInsns) :
    Yields (runBatch p limit r) (Turned H hz maxSteps r) := by
  unfold runBatch
  refine (batchSteps_yields H limit 0 r.machine h.kept hs hu).bind fun b hb => ?_
  have hle := hb.le
  have hrun : Running H hz { r with st := b.1, n := r.n + b.2.1, machine := b.2.2 } :=
    h.calm hb.kept hb.calm rfl rfl
  dsimp only
  split_ifs with hzero
  · refine (runClockRetired_yields H hrun (.inr hb.settled) (by omega)
      fun ha => (by have := hfew ha; omega)).bind fun r' ⟨hr', hs', hcount⟩ => .some ?_
    have hn : r'.n = r.n + b.2.1 := hcount.n
    have hh : r'.handledSteps = r.handledSteps := hcount.handledSteps
    exact ⟨hr', hs', by dsimp only; omega, by dsimp only; omega, fun _ => by dsimp only; omega⟩
  · refine .some ⟨hrun, hb.settled, by dsimp only; omega, hhandled, fun hok => ?_⟩
    have hlt := hb.lt (by simpa using hok) hpos
    omega

variable {maxSteps : Nat}

theorem runSingle_yields (H : HostClock p) (h : Running H hz r) (hs : r.machine.clock.Settled)
    (hn : r.n < maxSteps) (hhandled : r.handledSteps ≤ maxSteps) :
    Yields (runSingle p r) (Turned H hz maxSteps r) := by
  unfold runSingle
  refine (machineStep_yields H h.kept hs).bind fun s ⟨hw, hs'⟩ => ?_
  have hrun : ∀ n, Running H hz { r with st := s.1, n := n, machine := s.2 } :=
    fun n => h.calm hw.kept hw.calm rfl rfl
  dsimp only
  split_ifs with hst
  · exact .some ⟨hrun r.n, hs' (.inr hst), hn.le, hhandled, fun hgo => absurd hgo Bool.false_ne_true⟩
  refine (runClockRetired_yields H (hrun (r.n + 1)) hw.settled (by omega)
    fun _ => (by decide)).bind fun r' ⟨hr', hs₂, hcount⟩ => ?_
  have hn' : r'.n = r.n + 1 := hcount.n
  have hh : r'.handledSteps = r.handledSteps := hcount.handledSteps
  split_ifs with hyield
  · refine .some ⟨?_, hs₂, by dsimp only; omega, by dsimp only; omega,
      fun hgo => absurd hgo Bool.false_ne_true⟩
    exact ⟨hr'.kept.congr rfl rfl rfl, hr'.anchored, hr'.unshielded, hr'.active, hr'.pending⟩
  · exact .some ⟨hr', hs₂, by dsimp only; omega, by dsimp only; omega, fun _ => by dsimp only; omega⟩

theorem runInstructions_yields (H : HostClock p) (h : Running H hz r) (hs : r.machine.clock.Settled)
    (hn : r.n < maxSteps) (hmax : maxSteps < 2 ^ 32) (hhandled : r.handledSteps ≤ maxSteps) :
    Yields (runInstructions p maxSteps r) (Turned H hz maxSteps r) := by
  unfold runInstructions
  refine (interpreterTickBatchLimit_yields h.kept.cpuHz_lt h.kept.tbHz).bind
    fun limit ⟨hle, hfew, huser⟩ => ?_
  split_ifs with hone
  · exact runBatch_yields H h hs (huser hone) (by omega) (by omega) hmax hhandled hfew
  · exact runSingle_yields H h hs hn hhandled

theorem runTurn_yields (H : HostClock p) (h : Running H hz r) (hs : r.machine.clock.Settled)
    (hn : r.n < maxSteps) (hmax : maxSteps < 2 ^ 32) (hhandled : r.handledSteps ≤ maxSteps) :
    Yields (runTurn p maxSteps r) (Turned H hz maxSteps r) := by
  have hstay : ∀ r' : RunState δ η, r'.machine = r.machine → Running H hz r' → r'.n = r.n →
      r'.handledSteps = r.handledSteps → Turned H hz maxSteps r (false, r') :=
    fun r' hm hr' hn' hh => ⟨hr', hm ▸ hs, hn' ▸ hn.le, hh ▸ hhandled,
      fun hgo => absurd hgo Bool.false_ne_true⟩
  unfold runTurn
  split
  · exact .some (hstay _ rfl (h.calm h.kept (.of_clock rfl) rfl rfl) rfl rfl)
  cases p.preStepHook with
  | none => exact runInstructions_yields H h hs hn hmax hhandled
  | some hook =>
    dsimp only
    have hhooked : ∀ handled, Running H hz { r with
        handledSteps := handled, machine := { r.machine with dev := (hook r.machine.dev).2 } } :=
      fun handled => h.calm (h.kept.congr rfl rfl rfl) (.of_clock rfl) rfl rfl
    split_ifs with hmatch hall hhandles
    · exact runInstructions_yields H h hs hn hmax hhandled
    · exact .some (hstay r rfl h rfl rfl)
    · refine (runClockRetired_yields H (hhooked (r.handledSteps + 1)) (.inr hs) (by omega)
        fun _ => (by decide)).bind fun r' ⟨hr', hs', hcount⟩ => .some ?_
      have hn' : r'.n = r.n := hcount.n
      have hh : r'.handledSteps = r.handledSteps + 1 := hcount.handledSteps
      exact ⟨hr', hs', by dsimp only; omega, by dsimp only; omega, fun _ => by dsimp only; omega⟩
    · have hturned : Yields (runInstructions p maxSteps { r with
          machine := { r.machine with dev := (hook r.machine.dev).2 } }) _ :=
        runInstructions_yields H (hhooked r.handledSteps) hs hn hmax hhandled
      exact hturned.imp fun t ht => ⟨ht.running, ht.settled, ht.n_le, ht.handled_le, ht.lt⟩

/-- The loop comes to its end, and leaves the run in order. -/
theorem runLoop_yields (H : HostClock p) (hmax : maxSteps < 2 ^ 32) (fuel : Nat) (r : RunState δ η)
    (h : Running H hz r) (hs : r.machine.clock.Settled) (hn : r.n ≤ maxSteps)
    (hhandled : r.handledSteps ≤ maxSteps) (hfuel : 2 * maxSteps < fuel + (r.n + r.handledSteps)) :
    Yields (runLoop p maxSteps fuel r) fun r' =>
      Running H hz r' ∧ r'.machine.clock.Settled := by
  induction fuel generalizing r with
  | zero => omega
  | succ fuel ih =>
    unfold runLoop
    split_ifs with hend
    · exact .some ⟨h, hs⟩
    refine (runTurn_yields H h hs (by omega) hmax hhandled).bind fun t ht => ?_
    split_ifs with hgo
    · have hlt := ht.lt hgo
      exact ih t.2 ht.running ht.settled ht.n_le ht.handled_le (by omega)
    · exact .some ⟨ht.running, ht.settled⟩

/-! ### Runs -/

/-- A machine in order between two runs. -/
structure Resting (H : HostClock p) (hz : Nat) (m : Machine δ η) : Prop where
  kept : Kept hz (H.read m.host) 0 m
  settled : m.clock.Settled

theorem measureWait_cases (H : HostClock p) (startNs : Option Nat) (m : Machine δ η) :
    ∃ host, (measureWait p startNs m).2 = { m with host := host } ∧
      H.read m.host ≤ H.read host := by
  cases startNs with
  | none => exact ⟨m.host, rfl, le_rfl⟩
  | some startNs =>
    dsimp only [measureWait]
    rw [hostSample_eq H m]
    exact ⟨_, rfl, H.now_le m.host⟩

/-- A powered-down machine loses its anchor, and only its power management is given time. -/
theorem poweredDownHostWait_yields (H : HostClock p) (h : Resting H hz m) :
    Yields (poweredDownHostWait p m) fun w => Resting H hz w.2 := by
  unfold poweredDownHostWait
  rw [H.hostSleep]
  dsimp only
  split
  · exact .some ⟨h.kept.congr rfl rfl rfl, h.settled⟩
  have hlost : Resting H hz { m with clock := m.clock.quiesceInputGuard.resetAnchor } := by
    refine ⟨h.kept.withClock (.resetAnchor h.kept.clock.quiesceInputGuard.maxTicks) fun hf => ?_,
      rfl, fun _ => rfl⟩
    exact (h.kept.paid ((quiesceInputGuard_calm m).faultless hf)).quiesceInputGuard.resetAnchor
  obtain ⟨m₁, hm₁⟩ : ∃ m₁, m₁ = { m with clock := m.clock.quiesceInputGuard.resetAnchor } :=
    ⟨_, rfl⟩
  rw [← hm₁] at hlost ⊢
  rw [hostSample_eq H m₁]
  obtain ⟨host₂, hm₂, hread₂, -⟩ :=
    sleepFor_cases H wfiPaceSliceNs { m₁ with host := (H.now m₁.host).2 }
  dsimp only
  rw [hm₂]
  have hrest₂ : Resting H hz { m₁ with host := host₂ } :=
    ⟨hlost.kept.pass host₂ ((H.now_le m₁.host).trans hread₂), hlost.settled⟩
  split
  · exact .some hrest₂
  obtain ⟨host₃, hm₃, hread₃⟩ := measureWait_cases H (H.now m₁.host).1 { m₁ with host := host₂ }
  have hrest₃ : Resting H hz { m₁ with host := host₃ } :=
    ⟨hrest₂.kept.pass host₃ hread₃, hlost.settled⟩
  rw [hm₃]
  refine (activeClockElapsedTicks_yields (p.pmuHz_lt m₁.dev)).bind fun d _ => ?_
  cases d with
  | none => exact .some hrest₃
  | some due => exact .some ⟨hrest₃.kept.congr rfl rfl rfl, hlost.settled⟩

theorem sampleInsns_pos : 0 < activeClockSampleInsns := by decide

/-- The start of a run keeps host time, unless the deadline shield is engaged. -/
theorem startClock_yields (H : HostClock p) (h : Resting H hz m) (hmax : maxSteps ≠ 0) :
    Yields (startClock p maxSteps m) fun s =>
      Running H hz { activeClock := s.1, machine := s.2 } ∧ s.2.clock.Settled := by
  unfold startClock
  rw [H.hostNow]
  split_ifs with hstart hanchor
  · have hshield : m.clock.deadlineShield = false := by simpa using hstart.2.2
    refine (activeHostClockSync_yields H h.kept (Nat.two_pow_pos 32) hshield).imp fun s hs => ?_
    exact ⟨⟨hs.kept, hs.lost, hs.shield, fun hf => (hs.faultless hf).2, sampleInsns_pos⟩,
      hs.settled⟩
  · have hshield : m.clock.deadlineShield = false := by simpa using hstart.2.2
    refine (s5l8900Tick_yields H h.kept (Nat.two_pow_pos 32)).bind fun m' ⟨ht, hk⟩ => .some ?_
    rw [← ht.host] at hk
    refine ⟨⟨hk, fun ha => absurd ha.symm Bool.false_ne_true, fun _ => ht.calm.unshielded hshield,
      fun _ => rfl, sampleInsns_pos⟩, ?_⟩
    dsimp only
    rw [ht.clock]
    exact h.settled.tick p (.inl rfl) m.dev
  · have hshield : m.clock.deadlineShield = true := by
      by_contra hs
      exact hstart ⟨hmax, rfl, by simpa using hs⟩
    refine .some ⟨⟨h.kept, fun _ => h.kept.clock.shielded hshield,
      fun ha => absurd ha Bool.false_ne_true, fun hf => ?_, sampleInsns_pos⟩, h.settled⟩
    exact absurd ((h.kept.paid hf).shield.symm.trans hshield) Bool.false_ne_true

theorem finishRun_yields (H : HostClock p) (h : Resting H hz r.machine)
    (hu : r.activeClock = true → r.machine.clock.deadlineShield = false)
    (hp : r.activePendingRetired < activeClockSampleInsns) :
    Yields (finishRun p r) fun f => Resting H hz f.2.2 := by
  have hfinal : Yields (if r.activeClock ∧ r.activePendingRetired ≠ 0 then
      (activeHostClockSync p r.activePendingRetired r.machine).map Prod.snd
    else some r.machine) (Resting H hz) := by
    simp only [activeClockSampleInsns] at hp
    split_ifs with hsync
    · exact (activeHostClockSync_yields H h.kept (by omega) (hu hsync.1)).map
        fun s hs => ⟨hs.kept, hs.settled⟩
    · exact .some h
  unfold finishRun
  refine hfinal.bind fun m hm => .some ?_
  have hserved : ∀ dev, Resting H hz { m with dev := dev } :=
    fun dev => ⟨hm.kept.congr rfl rfl rfl, hm.settled⟩
  dsimp only
  generalize (if r.st = .ok ∧ p.restartRequested r.machine.dev then ArmStatus.restart else r.st) = st
  split_ifs
  · exact hserved _
  · exact hserved _

/-- A run comes to its end, and leaves a machine in order. -/
theorem s5l8900Run_yields (H : HostClock p) (h : Resting H hz m) (hmax : maxSteps < 2 ^ 32) :
    Yields (s5l8900Run p maxSteps m) fun f => Resting H hz f.2.2 := by
  have hwait : Yields (if maxSteps ≠ 0 ∧ !p.restartRequested m.dev then poweredDownHostWait p m
      else some (false, m)) fun w => Resting H hz w.2 := by
    split_ifs
    · exact poweredDownHostWait_yields H h
    · exact .some h
  unfold s5l8900Run
  refine hwait.bind fun w hw => ?_
  have hrest : Resting H hz { w.2 with wfi := { w.2.wfi with paceYield := false } } :=
    ⟨hw.kept.congr rfl rfl rfl, hw.settled⟩
  have hsteps : (if w.1 then 0 else maxSteps) < 2 ^ 32 := by
    split_ifs <;> omega
  dsimp only
  generalize (if w.1 then 0 else maxSteps) = steps at hsteps ⊢
  rcases Nat.eq_zero_or_pos steps with rfl | hpos
  · -- Nothing is run, and no host time kept.
    exact finishRun_yields H (r := { machine := _ }) hrest
      (fun ha => absurd ha Bool.false_ne_true) sampleInsns_pos
  · refine (startClock_yields H hrest hpos.ne').bind fun s ⟨hrun, hs⟩ => ?_
    refine (runLoop_yields H hsteps (2 * steps + 1) _ hrun hs (Nat.zero_le _) (Nat.zero_le _)
      (by dsimp only; omega)).bind fun r ⟨hr, hs'⟩ => ?_
    exact finishRun_yields H ⟨hr.kept, hs'⟩ hr.unshielded hr.pending

/-! ### The host between runs -/

theorem setActiveClockWorkBudget_resting (H : HostClock p) (ticks : Nat) (h : Resting H hz m) :
    Resting H hz (s5l8900SetActiveClockWorkBudget ticks m).2 := by
  unfold s5l8900SetActiveClockWorkBudget
  split_ifs with hticks
  · exact h
  · simp only [activeClockMaxWorkTicks] at hticks
    have hmax : ticks < 2 ^ 32 := by omega
    exact ⟨h.kept.withClock (.resetAnchor hmax) fun hf => (h.kept.paid hf).lost (h.kept.paid hf).shield
      rfl rfl, rfl, fun _ => rfl⟩

theorem resumeActiveHostClock_resting (H : HostClock p) (paused resumed : Nat)
    (h : Resting H hz m) :
    Resting H hz (s5l8900ResumeActiveHostClock p paused resumed m).2 := by
  unfold s5l8900ResumeActiveHostClock
  split_ifs with hno hvalid hguard
  · exact h
  all_goals refine ⟨h.kept.withClock (.resetAnchor h.kept.clock.maxTicks) fun hf => ?_, rfl, fun _ => rfl⟩
  · exact (h.kept.paid hf).lost (h.kept.paid hf).shield rfl rfl
  · exact (h.kept.paid hf).lost (h.kept.paid hf).shield rfl rfl
  · exact absurd hf.1 (activeClockCounterAdd_one_ne _)

theorem setWfiHostPacing_resting (H : HostClock p) (h : Resting H hz m) :
    Resting H hz (s5l8900SetWfiHostPacing m) := by
  have hc := h.kept.clock
  have hrepaid := h.settled.1
  refine ⟨⟨h.kept.cpuHz, h.kept.cpuHz_lt, h.kept.tbHz, h.kept.tbAccum, ?_, fun hf => ?_⟩, rfl,
    h.settled.2⟩
  · exact ⟨hc.fraction, Nat.zero_le _, Nat.two_pow_pos 26, Nat.two_pow_pos 26, hc.maxTicks,
      fun _ => ⟨rfl, rfl⟩, hc.shielded⟩
  · refine (h.kept.paid hf).forgo.congr ?_
    simp only [s5l8900SetWfiHostPacing, ActiveClock.books, hrepaid]

/-- What the host may do: the steps of a run are counted by 32 bits, and host time only passes. -/
def Act.Allowed (H : HostClock p) : Act δ η → Machine δ η → Prop
  | .run maxSteps, _ => maxSteps < 2 ^ 32
  | .pass host, m => H.read m.host ≤ H.read host
  | _, _ => True

/-- Everything that happens to a machine in order has a result, and leaves it in order. -/
theorem Act.apply_yields (H : HostClock p) (a : Act δ η) (ha : a.Allowed H m)
    (h : Resting H hz m) : Yields (a.apply p m) (Resting H hz) := by
  cases a with
  | run maxSteps => exact (s5l8900Run_yields H h ha).map fun f hf => hf
  | device dev => exact .some ⟨h.kept.congr rfl rfl rfl, h.settled⟩
  | refresh =>
    refine (s5l8900Tick_yields H h.kept (Nat.two_pow_pos 32)).imp fun m' ⟨ht, hk⟩ => ?_
    rw [← ht.host] at hk
    refine ⟨hk, ?_⟩
    rw [ht.clock]
    exact h.settled.tick p (.inl rfl) m.dev
  | pass host => exact .some ⟨h.kept.pass host ha, h.settled⟩
  | input =>
    have hguarded : Resting H hz { m with clock := m.clock.beginInputGuard } :=
      ⟨h.kept.withClock (.resetAnchor h.kept.clock.maxTicks)
        fun hf => (h.kept.paid hf).beginInputGuard, rfl, fun _ => rfl⟩
    refine .some ?_
    rw [H.hostNow]
    exact hguarded
  | wake =>
    refine .some ⟨?_, rfl, fun _ => rfl⟩
    exact ⟨h.kept.cpuHz, h.kept.cpuHz_lt, h.kept.tbHz, h.kept.tbAccum,
      .resetAnchor h.kept.clock.maxTicks, fun hf => (h.kept.paid hf).lost rfl rfl rfl⟩
  | budget ticks => exact .some (setActiveClockWorkBudget_resting H ticks h)
  | resume paused resumed => exact .some (resumeActiveHostClock_resting H paused resumed h)
  | pacing => exact .some (setWfiHostPacing_resting H h)

/-! ### The whole history -/

/-- A machine whose host clock has just been installed. -/
structure Installed (m : Machine δ η) : Prop where
  cpuHz : m.cpuHz < 2 ^ 32
  tbHz : m.tbHz < 2 ^ 32
  tbAccum : m.tbAccum < 2 ^ 32
  budget : m.clock.maxTicksPerRetirement < 2 ^ 32
  clock : m.clock = { maxTicksPerRetirement := m.clock.maxTicksPerRetirement }
  account : m.account = {}

theorem Installed.resting (H : HostClock p) (h : Installed m) : Resting H m.cpuHz m := by
  have hbudget := h.budget
  refine ⟨⟨rfl, h.cpuHz, h.tbHz, h.tbAccum, ?_, fun _ => ?_⟩, ?_⟩
  · rw [h.clock]
    exact ⟨billion_pos, Nat.zero_le _, Nat.two_pow_pos 26, Nat.two_pow_pos 26, hbudget,
      fun _ => ⟨rfl, rfl⟩, fun _ => rfl⟩
  · rw [h.clock, h.account]
    exact ⟨rfl, fun _ => ⟨rfl, rfl⟩, fun t ht => absurd ht (Option.not_mem_none t),
      fun hv => absurd hv Bool.false_ne_true, fun r hr => absurd hr List.not_mem_nil⟩
  · rw [h.clock]
    exact ⟨rfl, fun _ => rfl⟩

/-- The machine behind one of the happenings, where the arithmetic has not failed before. -/
def happen (p : Platform δ η) (a : Act δ η) (s : Option (Machine δ η)) : Option (Machine δ η) :=
  s.bind (a.apply p)

/-- What happens is allowed. -/
def Happens (H : HostClock p) (s : Option (Machine δ η)) (a : Act δ η) : Prop :=
  ∀ m ∈ s, a.Allowed H m

/-- Along every history, from the installation of the host clock on, no checked sum, difference or
product fails; and unless a synchronisation has failed or the deadline shield has been engaged, at
every synchronisation the ticks applied since the first anchor and the idle credit are worth no more
than the host time since then. -/
theorem syncs_behind_host (H : HostClock p) (h : Installed m) {s : Option (Machine δ η)}
    (run : Run (happen p) (Happens H) (some m) s) :
    ∃ m', s = some m' ∧ m'.cpuHz = m.cpuHz ∧ (m'.clock.Faultless →
      ∀ r ∈ m'.account.syncs, r.firstNs ≤ r.nowNs ∧
        (r.applied + r.credit) * billion ≤ (r.nowNs - r.firstNs) * m.cpuHz) := by
  have hkeeps : Yields s (Resting H m.cpuHz) := by
    refine run.keeps (I := fun s => Yields s (Resting H m.cpuHz)) ?_ (.some (h.resting H))
    rintro _ a hok ⟨m', rfl, hm'⟩
    exact a.apply_yields H (hok m' rfl) hm'
  obtain ⟨m', hs, hm'⟩ := hkeeps
  exact ⟨m', hs, hm'.kept.cpuHz, fun hf r hr => (hm'.kept.paid hf).syncs r hr⟩

/-- A machine that waits for an interrupt with every eighth instruction, on a host whose calls take a
microsecond and whose sleeps are half a millisecond too long. The devices are a count of the
instructions. -/
def drowsy : Platform Nat Nat where
  hostNow := some fun h => (some (h + 1000), h + 1000)
  hostSleep := some fun ns h => (true, h + ns + 500000)
  tickEager := false
  extInputs _ := 0
  extSeen _ := 0
  levelDirty _ := false
  refresh _ d := d
  line _ := false
  nextWake _ := some 6000
  userMode _ := false
  armStep d := if d % 8 = 7 then .waits (d + 1) id else .done .ok (d + 1)
  preStepHook := none
  preStepMatches _ := false
  restartRequested _ := false
  clearRestart := id
  poweredDown _ := false
  pmuHz _ := 0
  pmuTick _ d := d
  uart4Service _ d := d
  edge_bounds _ edge h := by
    obtain rfl : 6000 = edge := Option.some.inj h
    exact ⟨by decide, by decide⟩
  user_waits_not _ h := absurd h Bool.false_ne_true
  pmuHz_lt _ := Nat.two_pow_pos 32

/-- The clock of its host. -/
def drowsyHost : HostClock drowsy where
  now h := (some (h + 1000), h + 1000)
  sleep ns h := (true, h + ns + 500000)
  read h := h
  hostNow := rfl
  hostSleep := rfl
  now_le h := Nat.le_add_right h 1000
  sample h t ht := by
    obtain rfl : h + 1000 = t := Option.some.inj ht
    exact ⟨Nat.le_add_right h 1000, le_rfl⟩
  sleep_le ns h := by omega
  slept ns h _ := Nat.le_add_right (h + ns) 500000

/-- The machine as its host clock is installed. -/
def drowsyMachine : Machine Nat Nat :=
  { cpuHz := 412000000, tbHz := 6000000, dev := 0, host := 1000 }

/-- Three runs of the machine. -/
def drowsyRuns : Option (Machine Nat Nat) :=
  follow (happen drowsy) (some drowsyMachine) [.run 20, .run 20, .run 20]

theorem syncs_behind_host_drowsy :
    (drowsyRuns.map fun m => (m.clock.failures, m.clock.deadlineShields,
      m.account.syncs.length)) = some (0, 0, 4) ∧
    ∃ m', drowsyRuns = some m' ∧ m'.cpuHz = 412000000 ∧ (m'.clock.Faultless →
      ∀ r ∈ m'.account.syncs, r.firstNs ≤ r.nowNs ∧
        (r.applied + r.credit) * billion ≤ (r.nowNs - r.firstNs) * 412000000) := by
  refine ⟨by decide +kernel, ?_⟩
  have hinstalled : Installed drowsyMachine :=
    ⟨by decide, by decide, by decide, by decide, rfl, rfl⟩
  have hok : ∀ s : Option (Machine Nat Nat), Happens drowsyHost s (Act.run 20) :=
    fun _ _ _ => (by decide : 20 < 2 ^ 32)
  exact syncs_behind_host drowsyHost hinstalled
    (.next _ (.next _ (.next _ .start (hok _)) (hok _)) (hok _))

end S5LBox.Soc
