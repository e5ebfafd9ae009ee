import S5LBox.Soc.Pacing

/-!
# Waits for an interrupt

A wait for an interrupt sleeps on the host for the time that it lets pass for the guest, but for the
part that idle credit pays for. What it advances the devices by is paid for at its end.
-/

namespace S5LBox.Soc

open Checked

variable {δ η : Type} {p : Platform δ η} {hz now due : Nat} {m m' : Machine δ η}

/-! ### What a wait leaves alone -/

/-- No fault is forgotten, no anchor set and no deadline shield engaged. -/
structure Calm (m m' : Machine δ η) : Prop where
  faultless : m'.clock.Faultless → m.clock.Faultless
  loose : m.clock.anchorValid = false → m'.clock.anchorValid = false
  unshielded : m.clock.deadlineShield = false → m'.clock.deadlineShield = false

theorem Calm.of_clock (h : m'.clock = m.clock) : Calm m m' := by
  constructor <;> rw [h] <;> exact id

theorem Calm.trans {m'' : Machine δ η} (h : Calm m m') (h' : Calm m' m'') : Calm m m'' :=
  ⟨h.faultless ∘ h'.faultless, h'.loose ∘ h.loose, h'.unshielded ∘ h.unshielded⟩

theorem Ticked.calm {ticks : Nat} (h : Ticked p ticks m m') : Calm m m' := by
  constructor <;> rw [h.clock]
  · exact ActiveClock.Faultless.of_tick p
  · exact fun hv => ActiveClock.tick_loose p hv ticks m.dev
  · exact fun hs => ActiveClock.tick_unshielded p hs ticks m.dev

theorem quiesceInputGuard_calm (m : Machine δ η) :
    Calm m { m with clock := m.clock.quiesceInputGuard } := by
  unfold ActiveClock.quiesceInputGuard
  split_ifs
  · exact ⟨id, fun _ => rfl, fun _ => rfl⟩
  · exact .of_clock rfl

theorem ActiveClock.Settled.quiesceInputGuard {c : ActiveClock} (h : c.Settled) :
    c.quiesceInputGuard.Settled := by
  unfold ActiveClock.quiesceInputGuard
  split_ifs
  · exact ⟨rfl, fun _ => rfl⟩
  · exact h

/-! ### The parts of a wait -/

/-- The host sleeps long enough for the ticks to be waited for. -/
theorem pacedWaitNs_yields {pacedTicks waitTicks : Nat} (hhz : hz ≠ 0)
    (hle : waitTicks ≤ pacedTicks) (hlt : waitTicks < 2 ^ 26) :
    Yields (pacedWaitNs pacedTicks waitTicks hz) fun ns => waitTicks * billion ≤ ns * hz := by
  unfold pacedWaitNs
  split_ifs with h0
  · obtain rfl : waitTicks = 0 := by omega
    exact .some (by rw [Nat.zero_mul]; exact Nat.zero_le _)
  · have hscaled : waitTicks * billion < 2 ^ 64 := by
      simp only [billion]
      omega
    refine (Yields.mul hscaled).bind fun scaled hs => .some ?_
    subst hs
    have hdiv := Nat.div_add_mod' (waitTicks * billion) hz
    have hmod : waitTicks * billion % hz < hz := Nat.mod_lt _ (Nat.pos_of_ne_zero hhz)
    split_ifs with hrest
    · rw [Nat.add_mul]
      omega
    · rw [Nat.add_zero]
      omega

theorem idleStart_cases (H : HostClock p) (m : Machine δ η) :
    ∃ host, (idleStart p m).2 = { m with host := host } ∧ H.read m.host ≤ H.read host := by
  unfold idleStart
  split_ifs
  · dsimp only
    rw [hostSample_eq H m]
    exact ⟨_, rfl, H.now_le m.host⟩
  · exact ⟨m.host, rfl, le_rfl⟩

theorem sleepFor_cases (H : HostClock p) (ns : Nat) (m : Machine δ η) :
    ∃ host, (sleepFor H.sleep ns m).2 = { m with host := host } ∧
      H.read m.host ≤ H.read host ∧
      ((sleepFor H.sleep ns m).1 = true → H.read m.host + ns ≤ H.read host) := by
  unfold sleepFor
  split_ifs with h0
  · exact ⟨m.host, rfl, le_rfl, fun _ => h0 ▸ le_rfl⟩
  · exact ⟨_, rfl, H.sleep_le ns m.host, H.slept ns m.host⟩

theorem noteOversleep_yields (H : HostClock p) (start : Option Nat) (waitNs : Nat)
    (hc : m.clock.Sound) :
    Yields (noteOversleep p start waitNs m) fun m' => ∃ host ns,
      m' = { m with host := host, clock := { m.clock with idleOversleepNs := ns } } ∧
        H.read m.host ≤ H.read host ∧ ns ≤ activeClockMaxStepNs := by
  unfold noteOversleep
  cases start with
  | none => exact .some ⟨m.host, _, rfl, le_rfl, hc.oversleep⟩
  | some startNs =>
    dsimp only
    split_ifs with h0
    · exact .some ⟨m.host, _, rfl, le_rfl, hc.oversleep⟩
    rw [hostSample_eq H m]
    dsimp only
    cases (H.now m.host).1 with
    | none => exact .some ⟨_, _, rfl, H.now_le m.host, hc.oversleep⟩
    | some endNs =>
      dsimp only
      split_ifs with hlong
      · have hover := hc.oversleep
        simp only [activeClockMaxStepNs] at hover
        refine (Yields.sub hlong.1).bind fun slept hslept => ?_
        refine (Yields.sub (by omega)).bind fun oversleep _ => ?_
        refine (Yields.sub hover).bind fun room hroom => ?_
        refine (Yields.add (by split_ifs <;> omega)).bind fun ns hns => ?_
        refine .some ⟨_, ns, rfl, H.now_le m.host, ?_⟩
        simp only [activeClockMaxStepNs]
        split_ifs at hns <;> omega
      · exact .some ⟨_, _, rfl, H.now_le m.host, hc.oversleep⟩

/-- Credit pays for the part of a wait that the host has not slept. -/
theorem payWait_yields {waitTicks credit : Nat} (h : Kept hz now waitTicks m)
    (hs : m.clock.Settled) (hle : credit ≤ m.clock.idleCreditTicks)
    (hlt : waitTicks + credit < 2 ^ 26) :
    Yields (payWait credit m) fun m' => Kept hz now (waitTicks + credit) m' ∧ Calm m m' ∧
      m'.wfi = m.wfi ∧ m'.host = m.host := by
  have hcredit := h.clock.credit
  have hrepaid := hs.1
  unfold payWait
  refine (Yields.sub hle).bind fun creditTicks hcr => ?_
  refine (Yields.add (by omega)).bind fun repaidTicks hr => ?_
  subst hcr hr
  refine .some ⟨h.withClock ?_ fun hf => (h.paid hf).pay hs hle hlt, ⟨id, id, id⟩, rfl, rfl⟩
  refine ⟨h.clock.fraction, h.clock.oversleep, ?_, ?_, h.clock.maxTicks, fun hv => ?_,
    h.clock.shielded⟩
  · dsimp only
    omega
  · dsimp only
    omega
  · have hloose := h.clock.loose hv
    dsimp only
    omega

/-! ### The whole wait -/

/-- What a wait leads to. -/
structure Waited (H : HostClock p) (hz : Nat) (m m' : Machine δ η) : Prop where
  kept : Kept hz (H.read m'.host) 0 m'
  calm : Calm m m'
  settled : m'.wfi.paceYield = true ∨ m'.clock.Settled

/-- What a machine has waited for, and what credit pays for, may be given to the devices. -/
theorem pacedAdvance_yields (H : HostClock p) {start : Option Nat}
    {sliceTicks cpuTicks pacedTicks waitTicks credit waitNs : Nat}
    (h : Kept hz (H.read m.host) waitTicks m) (hs : m.clock.Settled)
    (hy : m.wfi.paceYield = true) (hcredit : credit ≤ m.clock.idleCreditTicks)
    (hpaced : pacedTicks = if sliceTicks < cpuTicks then sliceTicks else cpuTicks)
    (hsum : waitTicks + credit = pacedTicks) (hlt : pacedTicks < 2 ^ 26) :
    Yields (pacedAdvance p start sliceTicks cpuTicks pacedTicks credit waitNs m)
      fun r => Waited H hz m r.2 := by
  unfold pacedAdvance
  refine (noteOversleep_yields H start waitNs h.clock).bind
    fun m₁ ⟨host, ns, hm₁, hread, hns⟩ => ?_
  have hk₁ : Kept hz (H.read m₁.host) waitTicks m₁ := by
    subst hm₁
    refine ⟨h.cpuHz, h.cpuHz_lt, h.tbHz, h.tbAccum, ?_, fun hf => ?_⟩
    · exact ⟨h.clock.fraction, hns, h.clock.credit, h.clock.repaid, h.clock.maxTicks,
        h.clock.loose, h.clock.shielded⟩
    · exact ((h.paid hf).mono hread).congr rfl
  have hs₁ : m₁.clock.Settled := by
    subst hm₁
    exact hs
  have hc₁ : credit ≤ m₁.clock.idleCreditTicks := by
    subst hm₁
    exact hcredit
  have hcalm₁ : Calm m m₁ := by
    subst hm₁
    exact ⟨id, id, id⟩
  have hy₁ : m₁.wfi.paceYield = true := by
    subst hm₁
    exact hy
  refine (payWait_yields hk₁ hs₁ hc₁ (hsum ▸ hlt)).bind fun m₂ ⟨hk₂, hcalm₂, hwfi₂, hhost₂⟩ => ?_
  rw [hsum, ← hhost₂] at hk₂
  have hgive : ∀ m₃ : Machine δ η, Kept hz (H.read m₃.host) pacedTicks m₃ → Calm m m₃ →
      m₃.wfi.paceYield = true → Yields (s5l8900Tick p (pacedTicks % 2 ^ 32) m₃)
        (Waited H hz m) := by
    intro m₃ hk₃ hcalm₃ hy₃
    rw [Nat.mod_eq_of_lt (hlt.trans (by decide))]
    refine (s5l8900Tick_yields H hk₃ (hlt.trans (by decide))).imp fun m₄ ⟨ht, hk₄⟩ => ?_
    rw [← ht.host] at hk₄
    exact ⟨hk₄, hcalm₃.trans ht.calm, .inl (ht.wfi ▸ hy₃)⟩
  have hcalm := hcalm₁.trans hcalm₂
  have hy₂ : m₂.wfi.paceYield = true := hwfi₂ ▸ hy₁
  split_ifs with hpartial
  · refine (hgive _ ?_ ?_ ?_).bind fun m₄ hm₄ => .some hm₄
    · exact hk₂.congr rfl rfl rfl
    · exact hcalm.trans (.of_clock rfl)
    · exact hy₂
  · obtain rfl : pacedTicks = cpuTicks := by
      rw [hpaced, if_neg hpartial]
    have hone : pacedTicks / uint32Max = 0 := Nat.div_eq_of_lt (hlt.trans (by decide))
    rw [hone]
    unfold advanceTo
    split_ifs with h0
    · exact (hgive m₂ hk₂ hcalm hy₂).bind fun m₄ hm₄ => .some hm₄
    · obtain rfl : pacedTicks = 0 := not_not.mp h0
      exact .some ⟨hk₂, hcalm, .inl hy₂⟩

theorem Kept.forgo (h : Kept hz now due m) :
    Kept hz now due { m with clock := { m.clock with idleCreditTicks := 0 } } :=
  h.withClock ⟨h.clock.fraction, h.clock.oversleep, Nat.two_pow_pos 26, h.clock.repaid,
    h.clock.maxTicks, fun hv => ⟨rfl, (h.clock.loose hv).2⟩, h.clock.shielded⟩
    fun hf => (h.paid hf).forgo

/-- The host sleeps for a slice, and the devices are advanced by what it has slept. -/
theorem pacedSlice_yields (H : HostClock p) {cpuTicks : Nat}
    (h : Kept hz (H.read m.host) 0 m) (hs : m.clock.Settled) (hhz : m.cpuHz ≠ 0) :
    Yields (pacedSlice p H.sleep cpuTicks m) fun r => Waited H hz m r.2 := by
  have hlt := h.cpuHz_lt
  unfold pacedSlice
  refine (Yields.mul (by simp only [wfiPaceSliceNs]; omega)).bind fun sliceNs hslice => ?_
  obtain ⟨host, hm₁, hread⟩ := idleStart_cases H m
  dsimp only
  rw [hm₁]
  obtain ⟨m₂, hm₂, hk₂, hs₂, hcalm₂, hhz₂⟩ : ∃ m₂, m₂ = (if (idleStart p m).1.isNone then
      { m with host := host, clock := { m.clock with idleCreditTicks := 0 } }
    else { m with host := host }) ∧ Kept hz (H.read m₂.host) 0 m₂ ∧ m₂.clock.Settled ∧
      Calm m m₂ ∧ m₂.cpuHz = m.cpuHz := by
    refine ⟨_, rfl, ?_⟩
    split_ifs
    · exact ⟨(h.pass host hread).forgo, hs, ⟨id, id, id⟩, rfl⟩
    · exact ⟨h.pass host hread, hs, ⟨id, id, id⟩, rfl⟩
  rw [← hm₂]
  have hslice : sliceNs / billion < 2 ^ 26 := by
    simp only [wfiPaceSliceNs] at hslice
    simp only [billion]
    omega
  have hpaced : ∃ pacedTicks, pacedTicks = (if sliceNs / billion < cpuTicks then
      sliceNs / billion else cpuTicks) ∧ pacedTicks < 2 ^ 26 := by
    refine ⟨_, rfl, ?_⟩
    split_ifs <;> omega
  obtain ⟨pacedTicks, hpacedeq, hpacedlt⟩ := hpaced
  rw [← hpacedeq]
  have hcredit : ∃ credit, credit = (if m₂.clock.idleCreditTicks < pacedTicks then
      m₂.clock.idleCreditTicks else pacedTicks) ∧ credit ≤ m₂.clock.idleCreditTicks ∧
      credit ≤ pacedTicks := by
    refine ⟨_, rfl, ?_⟩
    split_ifs <;> omega
  obtain ⟨credit, hcrediteq, hcreditle, hcreditpaced⟩ := hcredit
  rw [← hcrediteq]
  refine (Yields.sub hcreditpaced).bind fun waitTicks hwait => ?_
  refine (pacedWaitNs_yields (hhz₂.symm ▸ hhz) (by omega) (by omega)).bind fun waitNs hns => ?_
  obtain ⟨host', hm₃, hread', hslept⟩ := sleepFor_cases H waitNs (notePacing waitNs m₂)
  have hnoted : Kept hz (H.read m₂.host) 0 (notePacing waitNs m₂) := hk₂.congr rfl rfl rfl
  have hcalm₃ : Calm m { notePacing waitNs m₂ with host := host' } :=
    hcalm₂.trans (.of_clock rfl)
  rw [hm₃]
  split_ifs with hawake
  · have hforgo := (hnoted.pass host' hread').forgo
    have hstill : Kept hz (H.read host') 0 { notePacing waitNs m₂ with
        host := host', clock := { m₂.clock with idleCreditTicks := 0 }
        wfi := { (notePacing waitNs m₂).wfi with
          pacedFailures := ((notePacing waitNs m₂).wfi.pacedFailures + 1) % 2 ^ 64 } } :=
      hforgo.congr rfl rfl rfl
    refine (s5l8900Tick_yields H hstill (Nat.two_pow_pos 32)).bind fun m₄ hm₄ => .some ?_
    obtain ⟨ht, hk₄⟩ := hm₄
    have hhost₄ : m₄.host = host' := ht.host
    have hwfi₄ : m₄.wfi.paceYield = true := by rw [ht.wfi]; rfl
    refine ⟨hhost₄ ▸ hk₄, hcalm₃.trans (Calm.trans ?_ ht.calm), .inl hwfi₄⟩
    exact ⟨id, id, id⟩
  · have hawake : (sleepFor H.sleep waitNs (notePacing waitNs m₂)).1 = true := by
      simpa using hawake
    rw [hk₂.cpuHz] at hns
    have hearned : Kept hz (H.read host') waitTicks { notePacing waitNs m₂ with host := host' } :=
      ⟨hk₂.cpuHz, hk₂.cpuHz_lt, hk₂.tbHz, hk₂.tbAccum, hk₂.clock,
        fun hf => (hk₂.paid hf).earn hs₂ (hslept hawake) hns (by omega)⟩
    have hsum : waitTicks + credit = pacedTicks := by omega
    refine (pacedAdvance_yields H (m := { notePacing waitNs m₂ with host := host' }) hearned hs₂
      rfl hcreditle hpacedeq hsum hpacedlt).imp fun r hr => ?_
    exact ⟨hr.kept, hcalm₃.trans hr.calm, hr.settled⟩

/-- A wait of a machine in order leaves it in order. -/
theorem pacedWait_yields (H : HostClock p) {cpuTicks : Nat}
    (h : Kept hz (H.read m.host) 0 m) (hs : m.clock.Settled) :
    Yields (pacedWait p H.sleep cpuTicks m) fun r => Waited H hz m r.2 := by
  have hlt := h.cpuHz_lt
  unfold pacedWait
  split_ifs with hrates
  · exact .some ⟨h.congr rfl rfl rfl, .of_clock rfl, .inl rfl⟩
  push Not at hrates
  refine (Yields.mul (by simp only [activeClockQuiescentWfiSeconds]; omega)).bind
    fun quiescentTicks _ => ?_
  split_ifs with hquiet
  · have hk : Kept hz (H.read m.host) 0 { m with clock := m.clock.quiesceInputGuard } :=
      h.withClock h.clock.quiesceInputGuard fun hf =>
        (h.paid ((quiesceInputGuard_calm m).faultless hf)).quiesceInputGuard
    refine (pacedSlice_yields H (m := { m with clock := m.clock.quiesceInputGuard }) hk
      hs.quiesceInputGuard hrates.1).imp fun r hr => ?_
    exact ⟨hr.kept, (quiesceInputGuard_calm m).trans hr.calm, hr.settled⟩
  · exact pacedSlice_yields H h hs hrates.1

theorem edgeTicks_yields {edge : Nat} (hcpu : m.cpuHz < 2 ^ 32) (hpos : 0 < edge)
    (hlt : edge < 2 ^ 32) : Yields (edgeTicks edge m) fun _ => True := by
  unfold edgeTicks
  split_ifs with hrates hratio
  · exact .some trivial
  · push Not at hratio
    have hprod : edge * m.cpuHz ≤ (2 ^ 32 - 1) * (2 ^ 32 - 1) :=
      Nat.mul_le_mul (Nat.le_sub_one_of_lt hlt) (Nat.le_sub_one_of_lt hcpu)
    have hone : m.cpuHz ≤ edge * m.cpuHz := Nat.le_mul_of_pos_left _ hpos
    refine (Yields.mul (by omega)).bind fun scaled hscaled => ?_
    exact (Yields.sub (by omega)).bind fun need _ => .some trivial
  · exact .some trivial

/-- A wait for an interrupt leaves a machine in order, whatever ends it. -/
theorem machineWaitForInterrupt_yields (H : HostClock p) (h : Kept hz (H.read m.host) 0 m)
    (hs : m.clock.Settled) :
    Yields (machineWaitForInterrupt p m) fun r => Waited H hz m r.2 := by
  have hrefl : Waited H hz m m := ⟨h, .of_clock rfl, .inr hs⟩
  unfold machineWaitForInterrupt
  split_ifs with hline
  · exact .some hrefl
  refine (s5l8900Tick_yields H h (Nat.two_pow_pos 32)).bind fun m₁ ⟨ht, hk₁⟩ => ?_
  rw [← ht.host] at hk₁
  have hs₁ : m₁.clock.Settled := by
    rw [ht.clock]
    exact hs.tick p (.inl rfl) m.dev
  have hrefreshed : Waited H hz m m₁ := ⟨hk₁, ht.calm, .inr hs₁⟩
  split_ifs with hline
  · exact .some hrefreshed
  cases hwake : p.nextWake m₁.dev with
  | none => exact .some hrefreshed
  | some edge =>
    obtain ⟨hpos, hedge⟩ := p.edge_bounds m₁.dev edge hwake
    refine (edgeTicks_yields hk₁.cpuHz_lt hpos hedge).bind fun ticks _ => ?_
    cases ticks with
    | none => exact .some hrefreshed
    | some cpuTicks =>
      rw [H.hostSleep]
      refine (pacedWait_yields H hk₁ hs₁).imp fun r hr => ?_
      exact ⟨hr.kept, ht.calm.trans hr.calm, hr.settled⟩

end S5LBox.Soc
