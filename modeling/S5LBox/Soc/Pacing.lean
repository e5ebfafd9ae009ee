import S5LBox.Soc.Budget
import S5LBox.Lib.Runs

/-!
# The guest does not overtake the host

A machine keeps its clock paid for through ticks, synchronisations, waits for interrupts and whole
runs, and none of the checked sums and products fails. At every synchronisation, then, the ticks
applied since the first anchor and the idle credit are worth no more than the host time since.
-/

namespace S5LBox.Soc

open Checked Runs

variable {δ η : Type} {p : Platform δ η}

/-! ### Hosts -/

/-- A host with a clock that never goes back, and with sleeps that, where they succeed, last as
long as they have been asked to. A sample is a reading taken while the call runs. -/
structure HostClock (p : Platform δ η) where
  now : η → Option Nat × η
  sleep : Nat → η → Bool × η
  read : η → Nat
  hostNow : p.hostNow = some now
  hostSleep : p.hostSleep = some sleep
  now_le : ∀ h, read h ≤ read (now h).2
  sample : ∀ h, ∀ t ∈ (now h).1, read h ≤ t ∧ t ≤ read (now h).2
  sleep_le : ∀ ns h, read h ≤ read (sleep ns h).2
  slept : ∀ ns h, (sleep ns h).1 = true → read h + ns ≤ read (sleep ns h).2

/-! ### Machines in order -/

/-- The machine is within its bounds, and unless there has been a fault its clock is paid for up to
the host time `now`, with `due` ticks about to be given. -/
structure Kept (hz now due : Nat) (m : Machine δ η) : Prop where
  cpuHz : m.cpuHz = hz
  cpuHz_lt : m.cpuHz < 2 ^ 32
  tbHz : m.tbHz < 2 ^ 32
  tbAccum : m.tbAccum < 2 ^ 32
  clock : m.clock.Sound
  paid : m.clock.Faultless → PaidFor hz now due m.clock m.account

variable {hz now due : Nat} {m : Machine δ η}

theorem Kept.mono {now' : Nat} (h : Kept hz now due m) (hn : now ≤ now') : Kept hz now' due m :=
  ⟨h.cpuHz, h.cpuHz_lt, h.tbHz, h.tbAccum, h.clock, fun hf => (h.paid hf).mono hn⟩

theorem Kept.faulty {due' : Nat} (h : Kept hz now due m) (hf : ¬m.clock.Faultless) :
    Kept hz now due' m :=
  ⟨h.cpuHz, h.cpuHz_lt, h.tbHz, h.tbAccum, h.clock, fun hf' => absurd hf' hf⟩

variable {c : ActiveClock}

theorem Kept.withClock {due' : Nat} (h : Kept hz now due m) (hs : c.Sound)
    (hpaid : c.Faultless → PaidFor hz now due' c m.account) :
    Kept hz now due' { m with clock := c } :=
  ⟨h.cpuHz, h.cpuHz_lt, h.tbHz, h.tbAccum, hs, hpaid⟩

/-- Devices, the host and the rest are no part of it. -/
theorem Kept.congr {m' : Machine δ η} (h : Kept hz now due m)
    (hrates : (m'.cpuHz, m'.tbHz, m'.tbAccum) = (m.cpuHz, m.tbHz, m.tbAccum))
    (hclock : m'.clock = m.clock) (haccount : m'.account = m.account) : Kept hz now due m' := by
  simp only [Prod.mk.injEq] at hrates
  obtain ⟨hcpu, htb, haccum⟩ := hrates
  exact ⟨hcpu ▸ h.cpuHz, hcpu ▸ h.cpuHz_lt, htb ▸ h.tbHz, haccum ▸ h.tbAccum, hclock ▸ h.clock,
    hclock ▸ haccount ▸ h.paid⟩

theorem Kept.pass {now' : Nat} (h : Kept hz now due m) (host : η) (hn : now ≤ now') :
    Kept hz now' due { m with host := host } :=
  (h.mono hn).congr rfl rfl rfl

/-! ### The tick -/

/-- What a tick leads to, as far as the clock is concerned. -/
structure Ticked (p : Platform δ η) (ticks : Nat) (m m' : Machine δ η) : Prop where
  clock : m'.clock = m.clock.tick p ticks m.dev
  account : m'.account = m.account.apply ticks
  host : m'.host = m.host
  wfi : m'.wfi = m.wfi
  cpuHz : m'.cpuHz = m.cpuHz
  tbHz : m'.tbHz = m.tbHz
  tbAccum : m'.tbAccum < 2 ^ 32

theorem s5l8900Tick_ticked {ticks : Nat} (hcpu : m.cpuHz < 2 ^ 32) (htb : m.tbHz < 2 ^ 32)
    (haccum : m.tbAccum < 2 ^ 32) (ht : ticks < 2 ^ 32) :
    Yields (s5l8900Tick p ticks m) (Ticked p ticks m) := by
  have hprod : ticks * m.tbHz ≤ (2 ^ 32 - 1) * (2 ^ 32 - 1) :=
    Nat.mul_le_mul (Nat.le_sub_one_of_lt ht) (Nat.le_sub_one_of_lt htb)
  unfold s5l8900Tick
  dsimp only
  split_ifs with hrates
  · refine (Yields.mul (by omega)).bind fun prod hp => ?_
    refine (Yields.add (by omega)).bind fun accum ha => ?_
    split_ifs with hearly
    · exact .some ⟨rfl, rfl, rfl, rfl, rfl, rfl, hearly.2.2.2.1.trans hcpu⟩
    · exact .some ⟨rfl, rfl, rfl, rfl, rfl, rfl,
        (Nat.mod_lt _ (Nat.pos_of_ne_zero hrates.1)).trans hcpu⟩
  · exact .some ⟨rfl, rfl, rfl, rfl, rfl, rfl, haccum⟩

/-- Ticks that are paid for may be given. -/
theorem s5l8900Tick_yields (H : HostClock p) (h : Kept hz now due m) (hdue : due < 2 ^ 32) :
    Yields (s5l8900Tick p due m) fun m' => Ticked p due m m' ∧ Kept hz now 0 m' := by
  refine (s5l8900Tick_ticked h.cpuHz_lt h.tbHz h.tbAccum hdue).imp fun m' ht => ⟨ht, ?_⟩
  constructor
  · exact ht.cpuHz.trans h.cpuHz
  · rw [ht.cpuHz]
    exact h.cpuHz_lt
  · rw [ht.tbHz]
    exact h.tbHz
  · exact ht.tbAccum
  · rw [ht.clock]
    exact h.clock.tick p due m.dev
  · rw [ht.clock, ht.account]
    intro hf
    exact (h.paid hf.of_tick).tick p (by rw [H.hostNow]; rfl) m.dev

/-! ### Synchronisation -/

/-- What a synchronisation leads to. -/
structure Synced (hz now : Nat) (m : Machine δ η) (r : Bool × Machine δ η) : Prop where
  kept : Kept hz now 0 r.2
  settled : r.2.clock.Settled
  faultless : r.2.clock.Faultless → m.clock.Faultless ∧ r.1 = true
  lost : r.1 = false → r.2.clock.anchorValid = false
  shield : r.1 = true → r.2.clock.deadlineShield = false
  first : m.account.first ≠ none → r.2.account.first ≠ none
  wfi : r.2.wfi = m.wfi

theorem activeClockCounterAdd_one_ne (n : Nat) : activeClockCounterAdd n 1 ≠ 0 := by
  unfold activeClockCounterAdd uint64Max
  split <;> omega

/-- A fault is followed by the ticks of the retired instructions. -/
theorem fault_yields (H : HostClock p) {fallback : Nat} (h : Kept hz now 0 m)
    (hfall : fallback < 2 ^ 32) (hc : ¬c.resetAnchor.Faultless)
    (hmax : c.maxTicksPerRetirement = m.clock.maxTicksPerRetirement) :
    Yields (s5l8900Tick p fallback { m with clock := c.resetAnchor } >>= fun m => some (false, m))
      fun r => Synced hz now m r ∧ r.2.host = m.host := by
  have hsound : c.resetAnchor.Sound := .resetAnchor (hmax ▸ h.clock.maxTicks)
  have hkept : Kept hz now fallback { m with clock := c.resetAnchor } :=
    h.withClock hsound fun hf => absurd hf hc
  refine (s5l8900Tick_yields H hkept hfall).bind fun m' ⟨ht, hm'⟩ => .some ⟨?_, ht.host⟩
  constructor
  · exact hm'
  · rw [ht.clock]
    exact ActiveClock.Settled.tick p ⟨rfl, fun _ => rfl⟩ (.inr rfl) m.dev
  · rw [ht.clock]
    exact fun hf => absurd (hf.of_tick p) hc
  · rw [ht.clock]
    exact fun _ => ActiveClock.tick_loose p rfl fallback m.dev
  · exact fun hr => absurd hr Bool.false_ne_true
  · rw [ht.account, Account.apply_first]
    exact id
  · exact ht.wfi

theorem syncFailed_yields (H : HostClock p) {fallback : Nat} (h : Kept hz now 0 m)
    (hfall : fallback < 2 ^ 32) :
    Yields (syncFailed p fallback m) fun r => Synced hz now m r ∧ r.2.host = m.host :=
  fault_yields H h hfall (fun hf => activeClockCounterAdd_one_ne _ hf.1) rfl

theorem syncShielded_yields (H : HostClock p) {fallback : Nat} (h : Kept hz now 0 m)
    (hfall : fallback < 2 ^ 32) :
    Yields (syncShielded p fallback m) fun r => Synced hz now m r ∧ r.2.host = m.host :=
  fault_yields H h hfall (fun hf => activeClockCounterAdd_one_ne _ hf.2) rfl

/-- The first anchor, or a new one, starts an empty record. -/
theorem PaidFor.anchor {a : Account} {read nowNs : Nat} (h : PaidFor hz read 0 c a)
    (hnow : read ≤ nowNs) :
    PaidFor hz nowNs 0 { c.resetAnchor with lastHostNs := nowNs, anchorValid := true }
      { a with first := a.first.or (some nowNs) } := by
  have hpaid : ∀ t ∈ a.first.or (some nowNs),
      t ≤ nowNs ∧ a.applied * billion + t * hz ≤ nowNs * hz := by
    intro t ht
    cases hfirst : a.first with
    | none =>
      rw [hfirst] at ht
      obtain rfl : nowNs = t := Option.some.inj ht
      rw [(h.unstarted hfirst).1, Nat.zero_mul, Nat.zero_add]
      exact ⟨le_rfl, le_rfl⟩
    | some t' =>
      rw [hfirst] at ht
      obtain rfl : t' = t := Option.some.inj ht
      obtain ⟨hle, hstart⟩ := (h.mono hnow).started t' hfirst
      have hnn : 0 ≤ c.idleCreditTicks * billion := Nat.zero_le _
      exact ⟨hle, by linarith⟩
  constructor
  · exact h.shield
  · intro hf
    dsimp only at hf
    cases hfirst : a.first <;> simp [hfirst] at hf
  · exact fun t ht => hpaid t ht
  · intro _ t ht
    have hpt := (hpaid t ht).2
    exact ⟨le_rfl, le_rfl, Nat.two_pow_pos 26, by
      simpa only [ActiveClock.resetAnchor, Nat.add_zero, Nat.zero_mul] using hpt, by
      simp only [ActiveClock.resetAnchor, Nat.add_zero, Nat.zero_mul, Nat.zero_add, le_refl]⟩
  · exact h.syncs

theorem syncAnchor_yields (H : HostClock p) {read nowNs : Nat} (h : Kept hz read 0 m)
    (hshield : m.clock.deadlineShield = false) (hnow : read ≤ nowNs) :
    Yields (syncAnchor p nowNs m) fun r =>
      (Synced hz nowNs m r ∧ r.2.host = m.host) ∧ r.2.account.first ≠ none := by
  unfold syncAnchor
  have hsound : ActiveClock.Sound
      { m.clock.resetAnchor with lastHostNs := nowNs, anchorValid := true } :=
    ⟨billion_pos, Nat.zero_le _, Nat.two_pow_pos 26, Nat.two_pow_pos 26, h.clock.maxTicks,
      fun _ => ⟨rfl, rfl⟩, fun hs => absurd (hshield.symm.trans hs) Bool.false_ne_true⟩
  have hkept : Kept hz nowNs 0 { m with
      clock := { m.clock.resetAnchor with lastHostNs := nowNs, anchorValid := true }
      account := { m.account with first := m.account.first.or (some nowNs) } } :=
    ⟨h.cpuHz, h.cpuHz_lt, h.tbHz, h.tbAccum, hsound, fun hf => (h.paid hf).anchor hnow⟩
  refine (s5l8900Tick_yields H hkept (Nat.two_pow_pos 32)).bind fun m' ⟨ht, hm'⟩ =>
    .some ⟨⟨?_, ht.host⟩, ?_⟩
  · constructor
    · exact hm'
    · rw [ht.clock]
      exact ActiveClock.Settled.tick p ⟨rfl, fun _ => rfl⟩ (.inl rfl) m.dev
    · rw [ht.clock]
      exact fun hf => ⟨hf.of_tick p, rfl⟩
    · exact fun hr => absurd hr (Bool.false_ne_true ∘ Eq.symm)
    · rw [ht.clock]
      intro _
      apply ActiveClock.tick_unshielded
      exact hshield
    · rw [ht.account, Account.apply_first]
      exact fun _ => by cases m.account.first <;> simp
    · exact ht.wfi
  · rw [ht.account, Account.apply_first]
    cases m.account.first <;> simp

/-- The end of a synchronisation with an anchor. -/
theorem spend_yields {c : ActiveClock} {read nowNs added : Nat}
    (h : Kept hz read 0 m) (hc : c.Sound) (hdue : due < 2 ^ 32)
    (hanchor : m.clock.anchorValid = true) (hnow : read ≤ nowNs)
    (hworth : m.clock.idleRepaidTicks ≤ m.clock.guestTicksSinceSync →
      m.clock.guestTicksSinceSync - m.clock.idleRepaidTicks < 2 ^ 26 →
      (m.clock.guestTicksSinceSync - m.clock.idleRepaidTicks) * billion ≤
        (nowNs - m.clock.lastHostNs) * hz →
      (m.clock.guestTicksSinceSync - m.clock.idleRepaidTicks + added) * billion + c.fraction ≤
        (nowNs - m.clock.lastHostNs) * hz + m.clock.fraction)
    (hspent : due + c.idleCreditTicks ≤ added + m.clock.idleCreditTicks)
    (hlast : c.lastHostNs = nowNs) (hrepaid : c.idleRepaidTicks = 0)
    (hshield : c.deadlineShield = false) (hfault : c.Faultless → m.clock.Faultless) :
    Yields (s5l8900Tick p due { m with clock := c } >>= fun m =>
      some (true, { m with clock := { m.clock with guestTicksSinceSync := 0 } }))
      fun r => Synced hz nowNs m r ∧ r.2.host = m.host := by
  have hticked : Yields (s5l8900Tick p due { m with clock := c })
      (Ticked p due { m with clock := c }) :=
    s5l8900Tick_ticked h.cpuHz_lt h.tbHz h.tbAccum hdue
  refine hticked.bind fun m' ht => .some ⟨?_, ht.host⟩
  have hs := hc.tick p due m.dev
  constructor
  · constructor
    · exact ht.cpuHz.trans h.cpuHz
    · exact ht.cpuHz.trans_lt h.cpuHz_lt
    · exact ht.tbHz.trans_lt h.tbHz
    · exact ht.tbAccum
    · dsimp only
      rw [ht.clock]
      exact ⟨hs.fraction, hs.oversleep, hs.credit, hs.repaid, hs.maxTicks, hs.loose, hs.shielded⟩
    · dsimp only
      rw [ht.clock, ht.account]
      intro hf
      exact (h.paid (hfault (ActiveClock.Faultless.of_tick p hf))).sync p hanchor hnow hworth hspent
        hlast hrepaid hshield m.dev
  · dsimp only
    rw [ht.clock]
    obtain ⟨G, -, htick⟩ | ⟨G, htick⟩ := ActiveClock.tick_cases p (c := c) due m.dev
    · rw [htick]
      exact ⟨hrepaid, fun _ => rfl⟩
    · rw [htick]
      exact ⟨rfl, fun _ => rfl⟩
  · dsimp only
    rw [ht.clock]
    exact fun hf => ⟨hfault (ActiveClock.Faultless.of_tick p hf), rfl⟩
  · exact fun hr => absurd hr.symm Bool.false_ne_true
  · dsimp only
    rw [ht.clock]
    exact fun _ => ActiveClock.tick_unshielded p hshield due m.dev
  · dsimp only
    rw [ht.account, Account.apply_first]
    exact id
  · exact ht.wfi

/-- A synchronisation with an anchor spends what host time has earned since. -/
theorem syncResidual_yields {read nowNs fallback : Nat}
    (h : Kept hz read 0 m) (hhz : m.cpuHz ≠ 0) (hfall : fallback < 2 ^ 32)
    (hshield : m.clock.deadlineShield = false) (hanchor : m.clock.anchorValid = true)
    (hnow : read ≤ nowNs) (hlast : m.clock.lastHostNs ≤ nowNs) :
    Yields (syncResidual p fallback nowNs m) fun r =>
      Synced hz nowNs m r ∧ r.2.host = m.host := by
  obtain rfl := h.cpuHz
  unfold syncResidual
  refine (Yields.sub hlast).bind fun ns hns => ?_
  refine (activeClockElapsedTicks_yields h.cpuHz_lt).bind fun d hd => ?_
  refine (activeClockElapsedTicks_yields h.cpuHz_lt).bind fun w hw => ?_
  subst hns
  have hlt := h.cpuHz_lt
  have hfrac := h.clock.fraction
  cases w with
  | none =>
    have := hw.2 rfl hhz hfrac
    simp only [billion, activeClockMaxStepNs] at this hfrac
    omega
  | some w =>
    obtain ⟨hweq, hwf⟩ := hw.1 w rfl
    have hwlt : w.1 < 2 ^ 26 := maxStepTicks_lt hlt hfrac hweq
    dsimp only
    have hres := residualTicks_spec (if m.clock.idleRepaidTicks ≤
        m.clock.guestTicksSinceSync then m.clock.guestTicksSinceSync - m.clock.idleRepaidTicks
      else m.clock.guestTicksSinceSync) hd.1 (fun hn => hd.2 hn hhz hfrac) hwlt hwf
    revert hres
    rcases residualTicks d (some w) _ with ⟨added, fraction, clamp⟩
    rintro ⟨hadded, hfraction, hworth⟩
    refine (retirementCap_yields h.clock hfall hlt).bind fun cap _ => ?_
    have hcredit : (if clamp then 0 else m.clock.idleCreditTicks) ≤ m.clock.idleCreditTicks := by
      split_ifs
      · exact Nat.zero_le _
      · exact le_rfl
    refine (credit_yields And.left hwlt hcredit h.clock.credit).bind
      fun credit hbound => ?_
    obtain ⟨hspent, hclt⟩ := hbound
    have hdue : (if cap < added then cap else added) < 2 ^ 32 := by
      split_ifs <;> omega
    rw [Nat.mod_eq_of_lt hdue]
    refine spend_yields h ?_ hdue hanchor hnow ?_ hspent rfl rfl hshield id
    · exact ⟨hfraction, Nat.zero_le _, hclt, Nat.two_pow_pos 26, h.clock.maxTicks,
        fun hv => absurd (hanchor.symm.trans hv).symm Bool.false_ne_true,
        fun hs => absurd (hshield.symm.trans hs) Bool.false_ne_true⟩
    · intro hrep
      rw [if_pos hrep] at hworth
      exact hworth

/-! ### The whole synchronisation -/

theorem PaidFor.record {a : Account} (h : PaidFor hz now 0 c a) (hfirst : a.first ≠ none) :
    PaidFor hz now 0 c { a with
      syncs := ⟨a.applied, c.idleCreditTicks, a.first.getD now, now⟩ :: a.syncs } where
  shield := h.shield
  unstarted := h.unstarted
  started := h.started
  anchored hv t ht := h.anchored hv t ht
  syncs := by
    obtain ⟨t, ht⟩ := Option.ne_none_iff_exists'.mp hfirst
    obtain ⟨hle, hpaid⟩ := h.started t ht
    intro r hr
    rcases List.mem_cons.mp hr with rfl | hr
    · dsimp only [SyncRecord.Behind]
      rw [ht]
      refine ⟨hle, ?_⟩
      dsimp only [Option.getD]
      rw [Nat.sub_mul]
      exact Nat.le_sub_of_add_le hpaid
    · exact h.syncs r hr

/-- A synchronisation that has led to something may be entered into the account. -/
theorem Synced.record {r : Bool × Machine δ η} (h : Synced hz now m r)
    (hfirst : r.2.clock.Faultless → r.2.account.first ≠ none) :
    Synced hz now m (recordSync now r) where
  kept := ⟨h.kept.cpuHz, h.kept.cpuHz_lt, h.kept.tbHz, h.kept.tbAccum, h.kept.clock,
    fun hf => (h.kept.paid hf).record (hfirst hf)⟩
  settled := h.settled
  faultless := h.faultless
  lost := h.lost
  shield := h.shield
  first := h.first
  wfi := h.wfi

/-- A synchronisation of a machine that has only read the clock is one of the machine before. -/
theorem Synced.since {now' : Nat} {m' : Machine δ η} {r : Bool × Machine δ η}
    (h : Synced hz now m r) (hn : now ≤ now') (hf : m.clock.Faultless → m'.clock.Faultless)
    (ha : m.account = m'.account) (hw : m.wfi = m'.wfi) : Synced hz now' m' r where
  kept := h.kept.mono hn
  settled := h.settled
  faultless hr := ⟨hf (h.faultless hr).1, (h.faultless hr).2⟩
  lost := h.lost
  shield := h.shield
  first := ha ▸ h.first
  wfi := hw ▸ h.wfi

theorem hostSample_eq (H : HostClock p) (m : Machine δ η) :
    hostSample p m = ((H.now m.host).1, { m with host := (H.now m.host).2 }) := by
  unfold hostSample
  rw [H.hostNow]

theorem noteGuard_cases (nowNs : Nat) (m : Machine δ η) :
    ∃ ns valid, noteGuard nowNs m = { m with clock := { m.clock with
      inputGuardHostNs := ns, inputGuardHostValid := valid } } := by
  unfold noteGuard
  split
  · exact ⟨_, _, rfl⟩
  · exact ⟨_, _, rfl⟩

theorem syncTrusted_yields (H : HostClock p) {read nowNs fallback : Nat}
    (h : Kept hz read 0 m) (hhz : m.cpuHz ≠ 0) (hfall : fallback < 2 ^ 32)
    (hshield : m.clock.deadlineShield = false) (hnow : read ≤ nowNs)
    (hlast : m.clock.anchorValid = true → m.clock.lastHostNs ≤ nowNs) :
    Yields (syncTrusted p fallback nowNs m) fun r =>
      Synced hz nowNs m r ∧ r.2.host = m.host := by
  unfold syncTrusted
  split_ifs with hguard hanchor
  · exact syncShielded_yields H (h.mono hnow) hfall
  · exact (syncAnchor_yields H h hshield hnow).map fun r ⟨⟨hr, hhost⟩, hfirst⟩ =>
      ⟨hr.record fun _ => hfirst, hhost⟩
  · have hanchor : m.clock.anchorValid = true := by simpa using hanchor
    refine (syncResidual_yields h hhz hfall hshield hanchor hnow (hlast hanchor)).map
      fun r ⟨hr, hhost⟩ => ⟨hr.record fun hf => hr.first fun hfirst => ?_, hhost⟩
    have hloose := ((h.paid (hr.faultless hf).1).unstarted hfirst).2
    exact Bool.false_ne_true (hloose.symm.trans hanchor)

theorem activeHostClockSync_yields (H : HostClock p) {fallback : Nat}
    (h : Kept hz (H.read m.host) 0 m) (hfall : fallback < 2 ^ 32)
    (hshield : m.clock.deadlineShield = false) :
    Yields (activeHostClockSync p fallback m) fun r => Synced hz (H.read r.2.host) m r := by
  unfold activeHostClockSync
  split_ifs with hno
  · refine (syncFailed_yields H h hfall).imp fun r ⟨hr, hhost⟩ => ?_
    rw [hhost]
    exact hr
  rw [hostSample_eq H m]
  dsimp only
  have hsampled : Kept hz (H.read m.host) 0 { m with host := (H.now m.host).2 } :=
    h.congr rfl rfl rfl
  have hfailed : Yields (syncFailed p fallback { m with host := (H.now m.host).2 })
      fun r => Synced hz (H.read r.2.host) m r := by
    refine (syncFailed_yields H (hsampled.mono (H.now_le m.host)) hfall).imp
      fun r ⟨hr, hhost⟩ => ?_
    rw [hhost]
    exact hr.since le_rfl id rfl rfl
  cases hs : (H.now m.host).1 with
  | none => exact hfailed
  | some nowNs =>
    obtain ⟨hlo, hhi⟩ := H.sample m.host nowNs hs
    dsimp only
    split_ifs with hback
    · exact hfailed
    push Not at hno hback
    obtain ⟨ns, valid, hnote⟩ :=
      noteGuard_cases nowNs { m with host := (H.now m.host).2 }
    rw [hnote]
    have hnoted := hsampled.withClock (c := { m.clock with
        inputGuardHostNs := ns, inputGuardHostValid := valid })
      ⟨h.clock.fraction, h.clock.oversleep, h.clock.credit, h.clock.repaid, h.clock.maxTicks,
        h.clock.loose, h.clock.shielded⟩ fun hf => (h.paid hf).congr rfl
    refine (syncTrusted_yields H hnoted hno.2 hfall hshield hlo hback.1).imp
      fun r ⟨hr, hhost⟩ => ?_
    rw [hhost]
    exact hr.since hhi id rfl rfl

end S5LBox.Soc
