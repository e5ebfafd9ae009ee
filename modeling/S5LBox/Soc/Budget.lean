import S5LBox.Soc.RunLoop
import Mathlib.Tactic.Linarith
import Mathlib.Tactic.Ring

/-!
# What the clock may spend

Since the first anchor, host time has earned the guest a number of CPU ticks, and the devices have
been given some of them. What the clock keeps between two synchronisations, namely the last sample,
the fraction, the ticks observed, the ticks repaid and the credit, is a record of what is left.
`PaidFor` says that this record is backed by host time, and the lemmas here say so for each way in
which the clock is changed.
-/

namespace S5LBox.Soc

open Checked

variable {δ η : Type} (p : Platform δ η) {hz now due : Nat} {c : ActiveClock} {a : Account}

/-! ### The books -/

/-- No synchronisation has failed, and the deadline shield has never been engaged. -/
def ActiveClock.Faultless (c : ActiveClock) : Prop := c.failures = 0 ∧ c.deadlineShields = 0

/-- At a synchronisation, what has been applied and what is outstanding is at most what the host
time since the first anchor is worth. -/
def SyncRecord.Behind (hz : Nat) (r : SyncRecord) : Prop :=
  r.firstNs ≤ r.nowNs ∧ (r.applied + r.credit) * billion ≤ (r.nowNs - r.firstNs) * hz

/-- The record since an anchor, with the first anchor at `t` and `due` ticks about to be given:
`balance` says that everything but the ticks observed was earned up to the last sample, and
`waited` that the ticks observed, but for the repaid ones, have been waited for since. -/
structure Anchored (hz now due t applied : Nat) (c : ActiveClock) : Prop where
  last_le : c.lastHostNs ≤ now
  repaid_le : c.idleRepaidTicks ≤ c.guestTicksSinceSync + due
  observed_lt : c.guestTicksSinceSync + due < 2 ^ 26
  balance : (applied + due + c.idleCreditTicks + c.idleRepaidTicks) * billion + c.fraction + t * hz ≤
    c.lastHostNs * hz + (c.guestTicksSinceSync + due) * billion
  waited : (c.guestTicksSinceSync + due) * billion + c.lastHostNs * hz ≤
    now * hz + c.idleRepaidTicks * billion

/-- Up to the host time `now`, everything applied to the devices, the credit, and `due` ticks that
are about to be given have been paid for with host time since the first anchor. -/
structure PaidFor (hz now due : Nat) (c : ActiveClock) (a : Account) : Prop where
  shield : c.deadlineShield = false
  unstarted : a.first = none → a.applied = 0 ∧ c.anchorValid = false
  started : ∀ t ∈ a.first, t ≤ now ∧
    (a.applied + due + c.idleCreditTicks) * billion + t * hz ≤ now * hz
  anchored : c.anchorValid = true → ∀ t ∈ a.first, Anchored hz now due t a.applied c
  syncs : ∀ r ∈ a.syncs, r.Behind hz

/-- The quantities of the clock are within bounds, whatever the host does. -/
structure ActiveClock.Sound (c : ActiveClock) : Prop where
  fraction : c.fraction < billion
  oversleep : c.idleOversleepNs ≤ activeClockMaxStepNs
  credit : c.idleCreditTicks < 2 ^ 26
  repaid : c.idleRepaidTicks < 2 ^ 26
  maxTicks : c.maxTicksPerRetirement < 2 ^ 32
  loose : c.anchorValid = false → c.idleCreditTicks = 0 ∧ c.idleRepaidTicks = 0
  shielded : c.deadlineShield = true → c.anchorValid = false

/-- No tick has been given behind the last synchronisation. -/
def ActiveClock.Settled (c : ActiveClock) : Prop :=
  c.idleRepaidTicks = 0 ∧ (c.anchorValid = true → c.guestTicksSinceSync = 0)

/-- The quantities that the record consists of. -/
def ActiveClock.books (c : ActiveClock) : (Nat × Nat × Nat) × (Nat × Nat) × Bool × Bool :=
  ((c.lastHostNs, c.guestTicksSinceSync, c.fraction), (c.idleCreditTicks, c.idleRepaidTicks),
    c.anchorValid, c.deadlineShield)

theorem PaidFor.congr {c' : ActiveClock} (h : PaidFor hz now due c a)
    (hb : c'.books = c.books) : PaidFor hz now due c' a := by
  simp only [ActiveClock.books, Prod.mk.injEq] at hb
  obtain ⟨⟨hlast, hG, hfrac⟩, ⟨hcredit, hrepaid⟩, hvalid, hshield⟩ := hb
  constructor
  · exact hshield.trans h.shield
  · rw [hvalid]
    exact h.unstarted
  · rw [hcredit]
    exact h.started
  · intro hv t ht
    obtain ⟨hle, hrep, hlt, hbal, hwait⟩ := h.anchored (hvalid ▸ hv) t ht
    rw [← hlast, ← hG, ← hrepaid] at *
    rw [← hcredit, ← hfrac] at hbal
    exact ⟨hle, hrep, hlt, hbal, hwait⟩
  · exact h.syncs

/-! ### Host time passes -/

theorem Anchored.mono {t applied now' : Nat} (h : Anchored hz now due t applied c)
    (hn : now ≤ now') : Anchored hz now' due t applied c where
  last_le := h.last_le.trans hn
  repaid_le := h.repaid_le
  observed_lt := h.observed_lt
  balance := h.balance
  waited := h.waited.trans (Nat.add_le_add_right (Nat.mul_le_mul_right hz hn) _)

theorem PaidFor.mono {now' : Nat} (h : PaidFor hz now due c a) (hn : now ≤ now') :
    PaidFor hz now' due c a where
  shield := h.shield
  unstarted := h.unstarted
  started t ht := ⟨(h.started t ht).1.trans hn,
    (h.started t ht).2.trans (Nat.mul_le_mul_right hz hn)⟩
  anchored hv t ht := (h.anchored hv t ht).mono hn
  syncs := h.syncs

/-- A wait of the host earns the ticks that it takes the time of. -/
theorem PaidFor.earn {now' wait waitNs : Nat} (h : PaidFor hz now 0 c a) (hs : c.Settled)
    (hn : now + waitNs ≤ now') (hw : wait * billion ≤ waitNs * hz) (hlt : wait < 2 ^ 26) :
    PaidFor hz now' wait c a where
  shield := h.shield
  unstarted := h.unstarted
  started t ht := by
    obtain ⟨hle, hpaid⟩ := h.started t ht
    have hnow : (now + waitNs) * hz ≤ now' * hz := Nat.mul_le_mul_right hz hn
    rw [Nat.add_mul] at hnow
    exact ⟨by omega, by linarith⟩
  anchored hv t ht := by
    obtain ⟨hlast, hrep, -, hbal, hwait⟩ := h.anchored hv t ht
    have hnow : (now + waitNs) * hz ≤ now' * hz := Nat.mul_le_mul_right hz hn
    have hG : c.guestTicksSinceSync = 0 := hs.2 hv
    rw [Nat.add_mul] at hnow
    exact ⟨by omega, by omega, by omega, by linarith, by linarith⟩
  syncs := h.syncs

/-- Credit pays for ticks. -/
theorem PaidFor.pay {wait credit : Nat} (h : PaidFor hz now wait c a) (hs : c.Settled)
    (hc : credit ≤ c.idleCreditTicks) (hlt : wait + credit < 2 ^ 26) :
    PaidFor hz now (wait + credit) { c with
      idleCreditTicks := c.idleCreditTicks - credit
      idleRepaidTicks := c.idleRepaidTicks + credit } a where
  shield := h.shield
  unstarted := h.unstarted
  started t ht := by
    obtain ⟨hle, hpaid⟩ := h.started t ht
    rw [Nat.add_assoc, Nat.add_assoc, Nat.add_sub_cancel' hc, ← Nat.add_assoc]
    exact ⟨hle, hpaid⟩
  anchored hv t ht := by
    obtain ⟨hlast, hrep, -, hbal, hwait⟩ := h.anchored hv t ht
    have hG : c.guestTicksSinceSync = 0 := hs.2 hv
    obtain ⟨rest, hrest⟩ := Nat.exists_eq_add_of_le hc
    rw [hrest] at hbal
    exact ⟨hlast, by dsimp only; omega, by dsimp only; omega,
      by rw [hrest, Nat.add_sub_cancel_left]; linarith, by dsimp only; linarith⟩
  syncs := h.syncs

/-! ### The clock is changed -/

/-- Without an anchor and without credit the record is empty. -/
theorem PaidFor.lost {c' : ActiveClock} (h : PaidFor hz now due c a)
    (hshield : c'.deadlineShield = false) (hanchor : c'.anchorValid = false)
    (hcredit : c'.idleCreditTicks = 0) : PaidFor hz now due c' a where
  shield := hshield
  unstarted hf := ⟨(h.unstarted hf).1, hanchor⟩
  started t ht := by
    obtain ⟨hle, hpaid⟩ := h.started t ht
    rw [hcredit]
    have hnn : 0 ≤ c.idleCreditTicks * billion := Nat.zero_le _
    exact ⟨hle, by linarith⟩
  anchored hv := absurd hv (by simp [hanchor])
  syncs := h.syncs

theorem PaidFor.resetAnchor (h : PaidFor hz now due c a) : PaidFor hz now due c.resetAnchor a :=
  h.lost h.shield rfl rfl

theorem PaidFor.beginInputGuard (h : PaidFor hz now due c a) :
    PaidFor hz now due c.beginInputGuard a :=
  h.lost rfl rfl rfl

theorem PaidFor.quiesceInputGuard (h : PaidFor hz now due c a) :
    PaidFor hz now due c.quiesceInputGuard a := by
  unfold ActiveClock.quiesceInputGuard
  split_ifs
  · exact h.lost rfl rfl rfl
  · exact h

/-- Credit may be given up. -/
theorem PaidFor.forgo (h : PaidFor hz now due c a) :
    PaidFor hz now due { c with idleCreditTicks := 0 } a where
  shield := h.shield
  unstarted := h.unstarted
  started t ht := by
    obtain ⟨hle, hpaid⟩ := h.started t ht
    have hnn : 0 ≤ c.idleCreditTicks * billion := Nat.zero_le _
    exact ⟨hle, by dsimp only; linarith⟩
  anchored hv t ht := by
    obtain ⟨hlast, hrep, hlt, hbal, hwait⟩ := h.anchored hv t ht
    have hnn : 0 ≤ c.idleCreditTicks * billion := Nat.zero_le _
    exact ⟨hlast, hrep, hlt, by dsimp only; linarith, hwait⟩
  syncs := h.syncs

/-! ### The tick -/

theorem Account.apply_first (ticks : Nat) : (a.apply ticks).first = a.first := by
  unfold Account.apply
  split <;> rfl

theorem Account.apply_syncs (ticks : Nat) : (a.apply ticks).syncs = a.syncs := by
  unfold Account.apply
  split <;> rfl

theorem Account.apply_applied {t : Nat} (ht : t ∈ a.first) (ticks : Nat) :
    (a.apply ticks).applied = a.applied + ticks := by
  unfold Account.apply
  rw [if_pos (Option.isSome_of_mem ht)]

theorem Account.apply_unstarted (ha : a.first = none) (ticks : Nat) : a.apply ticks = a := by
  unfold Account.apply
  rw [ha]
  rfl

/-- Ticks that have been paid for may be given. -/
theorem PaidFor.count {G : Nat} (h : PaidFor hz now due c a)
    (hG : c.anchorValid = true → c.guestTicksSinceSync + due < 2 ^ 26 →
      G = c.guestTicksSinceSync + due) :
    PaidFor hz now 0 { c with guestTicksSinceSync := G } (a.apply due) where
  shield := h.shield
  unstarted hf := by
    rw [Account.apply_first] at hf
    rw [Account.apply_unstarted hf]
    exact h.unstarted hf
  started t ht := by
    rw [Account.apply_first] at ht
    rw [Account.apply_applied ht]
    exact h.started t ht
  anchored hv t ht := by
    rw [Account.apply_first] at ht
    obtain ⟨hlast, hrep, hlt, hbal, hwait⟩ := h.anchored hv t ht
    obtain rfl := hG hv hlt
    rw [Account.apply_applied ht]
    exact ⟨hlast, hrep, hlt, hbal, hwait⟩
  syncs := by
    rw [Account.apply_syncs]
    exact h.syncs

theorem activeClockCounterAdd_of_lt {x y : Nat} (h : x + y < 2 ^ 64) :
    activeClockCounterAdd x y = x + y := by
  unfold activeClockCounterAdd uint64Max
  rw [if_neg (by omega)]

theorem PaidFor.tick (h : PaidFor hz now due c a) (hp : p.hostNow.isNone = false) (d : δ) :
    PaidFor hz now 0 (c.tick p due d) (a.apply due) := by
  unfold ActiveClock.tick
  rw [hp, if_neg Bool.false_ne_true]
  have hc : PaidFor hz now due (if touchRises p d then c.beginInputGuard else c) a := by
    split_ifs
    · exact h.beginInputGuard
    · exact h
  rcases Nat.eq_zero_or_pos due with rfl | hdue
  · rw [if_pos rfl]
    exact hc.count fun _ _ => rfl
  · rw [if_neg hdue.ne']
    exact hc.count fun _ hlt => activeClockCounterAdd_of_lt (hlt.trans (by decide))

/-- A tick changes nothing about the clock but the ticks observed, unless a touch takes its anchor
away. -/
theorem ActiveClock.tick_cases (ticks : Nat) (d : δ) :
    (∃ G, (ticks = 0 → G = c.guestTicksSinceSync) ∧
      c.tick p ticks d = { c with guestTicksSinceSync := G }) ∨
    ∃ G, c.tick p ticks d = { c.beginInputGuard with guestTicksSinceSync := G } := by
  unfold ActiveClock.tick
  split_ifs with hp hrise hz hz
  · exact .inl ⟨_, fun _ => rfl, rfl⟩
  · exact .inr ⟨_, rfl⟩
  · exact .inr ⟨_, rfl⟩
  · exact .inl ⟨_, fun _ => rfl, rfl⟩
  · exact .inl ⟨_, fun h0 => absurd h0 hz, rfl⟩

theorem billion_pos : 0 < billion := by decide

theorem ActiveClock.Sound.resetAnchor (h : c.maxTicksPerRetirement < 2 ^ 32) :
    c.resetAnchor.Sound :=
  ⟨billion_pos, Nat.zero_le _, Nat.two_pow_pos 26, Nat.two_pow_pos 26, h, fun _ => ⟨rfl, rfl⟩,
    fun _ => rfl⟩

theorem ActiveClock.Sound.quiesceInputGuard (h : c.Sound) : c.quiesceInputGuard.Sound := by
  unfold ActiveClock.quiesceInputGuard
  split_ifs
  · exact .resetAnchor h.maxTicks
  · exact h

theorem ActiveClock.Sound.tick (h : c.Sound) (ticks : Nat) (d : δ) :
    (c.tick p ticks d).Sound := by
  obtain ⟨G, -, htick⟩ | ⟨G, htick⟩ := ActiveClock.tick_cases p (c := c) ticks d
  · rw [htick]
    exact ⟨h.fraction, h.oversleep, h.credit, h.repaid, h.maxTicks, h.loose, h.shielded⟩
  · rw [htick]
    exact ⟨billion_pos, Nat.zero_le _, Nat.two_pow_pos 26, Nat.two_pow_pos 26, h.maxTicks,
      fun _ => ⟨rfl, rfl⟩, fun _ => rfl⟩

theorem ActiveClock.Settled.tick (h : c.Settled) {ticks : Nat}
    (ht : ticks = 0 ∨ c.anchorValid = false) (d : δ) : (c.tick p ticks d).Settled := by
  obtain ⟨G, hG, htick⟩ | ⟨G, htick⟩ := ActiveClock.tick_cases p (c := c) ticks d
  · rw [htick]
    rcases ht with rfl | ht
    · exact ⟨h.1, fun hv => (hG rfl).trans (h.2 hv)⟩
    · exact ⟨h.1, fun hv => absurd (ht.symm.trans hv) Bool.false_ne_true⟩
  · rw [htick]
    exact ⟨rfl, fun hv => absurd hv Bool.false_ne_true⟩

/-- A tick brings about no fault. -/
theorem ActiveClock.Faultless.of_tick {ticks : Nat} {d : δ} (h : (c.tick p ticks d).Faultless) :
    c.Faultless := by
  obtain ⟨G, -, htick⟩ | ⟨G, htick⟩ := ActiveClock.tick_cases p (c := c) ticks d
  · rw [htick] at h
    exact h
  · rw [htick] at h
    exact h

/-- A tick sets no anchor. -/
theorem ActiveClock.tick_loose (h : c.anchorValid = false) (ticks : Nat) (d : δ) :
    (c.tick p ticks d).anchorValid = false := by
  obtain ⟨G, -, htick⟩ | ⟨G, htick⟩ := ActiveClock.tick_cases p (c := c) ticks d
  · rw [htick]
    exact h
  · rw [htick]
    rfl

/-- A tick does not engage the deadline shield. -/
theorem ActiveClock.tick_unshielded (h : c.deadlineShield = false) (ticks : Nat) (d : δ) :
    (c.tick p ticks d).deadlineShield = false := by
  obtain ⟨G, -, htick⟩ | ⟨G, htick⟩ := ActiveClock.tick_cases p (c := c) ticks d
  · rw [htick]
    exact h
  · rw [htick]
    rfl

/-! ### The conversion of host time -/

/-- The conversion is exact, the fraction included, and where there is none the ticks do not fit. -/
theorem activeClockElapsedTicks_yields {ns fraction : Nat} (hhz : hz < 2 ^ 32) :
    Yields (activeClockElapsedTicks ns hz fraction) fun r =>
      (∀ w ∈ r, w.1 * billion + w.2 = ns * hz + fraction ∧ w.2 < billion) ∧
      (r = none → hz ≠ 0 → fraction < billion → 2 ^ 64 * billion ≤ ns * hz + fraction) := by
  have hns : ns * hz = ns / billion * hz * billion + ns % billion * hz := by
    conv_lhs => rw [← Nat.div_add_mod ns billion]
    ring
  unfold activeClockElapsedTicks
  dsimp only
  split_ifs with hno
  · refine .some ⟨by simp, fun _ h0 hf => ?_⟩
    have hover : uint64Max / hz < ns / billion := by
      rcases hno with h | h | h
      · exact absurd h h0
      · exact absurd h hf.not_ge
      · exact h
    have hsec : 2 ^ 64 ≤ ns / billion * hz := by
      have := (Nat.div_lt_iff_lt_mul (Nat.pos_of_ne_zero h0)).mp hover
      simp only [uint64Max] at this
      omega
    calc 2 ^ 64 * billion ≤ ns / billion * hz * billion := Nat.mul_le_mul_right _ hsec
      _ ≤ ns * hz + fraction := by omega
  · push Not at hno
    obtain ⟨h0, hf, hsec⟩ := hno
    have hwhole : ns / billion * hz < 2 ^ 64 := by
      have := (Nat.le_div_iff_mul_le (Nat.pos_of_ne_zero h0)).mp hsec
      simp only [uint64Max] at this
      omega
    have hsub : ns % billion * hz + fraction < 2 ^ 64 := by
      have hmod : ns % billion < billion := Nat.mod_lt _ (by decide)
      have : ns % billion * hz ≤ billion * 2 ^ 32 :=
        Nat.mul_le_mul hmod.le hhz.le
      simp only [billion] at *
      omega
    refine (Yields.mul hwhole).bind fun whole hw => ?_
    refine (Yields.mul (by omega)).bind fun scaled hs => ?_
    subst hw hs
    refine (Yields.add hsub).bind fun scaledSub hs => ?_
    have hsplit := Nat.div_add_mod' scaledSub billion
    have hle := Nat.div_le_self scaledSub billion
    have hfrac : scaledSub % billion < billion := Nat.mod_lt _ (by decide)
    split_ifs with hcarry
    · refine .some ⟨by simp, fun _ _ _ => ?_⟩
      have hfull : 2 ^ 64 ≤ ns / billion * hz + scaledSub / billion := by
        simp only [uint64Max] at hcarry
        omega
      have := Nat.mul_le_mul_right billion hfull
      rw [Nat.add_mul] at this
      rw [hns, Nat.add_assoc, ← hs]
      omega
    · refine (Yields.add (by simp only [uint64Max] at hcarry; omega)).bind fun total ht => ?_
      refine .some ⟨fun w hw => ?_, by simp⟩
      obtain rfl : (total, scaledSub % billion) = w := Option.some.inj hw
      refine ⟨?_, hfrac⟩
      rw [ht, hns, Nat.add_assoc, ← hs, Nat.add_mul]
      omega

theorem maxStepTicks_lt {w : Nat × Nat} {fraction : Nat} (hhz : hz < 2 ^ 32)
    (hf : fraction < billion)
    (h : w.1 * billion + w.2 = activeClockMaxStepNs * hz + fraction) : w.1 < 2 ^ 26 := by
  simp only [billion, activeClockMaxStepNs] at h hf
  omega

/-- The ticks that a synchronisation adds to those observed are no more than the longest interval
is worth, and no more than the host time since the last sample is worth. -/
theorem residualTicks_spec {d : Option (Nat × Nat)} {w : Nat × Nat} {ns fraction : Nat}
    (observed : Nat)
    (hd : ∀ w ∈ d, w.1 * billion + w.2 = ns * hz + fraction ∧ w.2 < billion)
    (hnone : d = none → 2 ^ 64 * billion ≤ ns * hz + fraction)
    (hw : w.1 < 2 ^ 26) (hwf : w.2 < billion) :
    (residualTicks d (some w) observed).1 ≤ w.1 ∧
      (residualTicks d (some w) observed).2.1 < billion ∧
      (observed < 2 ^ 26 → observed * billion ≤ ns * hz →
        (observed + (residualTicks d (some w) observed).1) * billion +
          (residualTicks d (some w) observed).2.1 ≤ ns * hz + fraction) := by
  cases d with
  | none =>
    refine ⟨le_rfl, hwf, fun ho _ => ?_⟩
    have hfew : observed + w.1 + 1 ≤ 2 ^ 64 := by omega
    calc (observed + w.1) * billion + w.2 ≤ (observed + w.1 + 1) * billion := by linarith
      _ ≤ 2 ^ 64 * billion := Nat.mul_le_mul_right _ hfew
      _ ≤ ns * hz + fraction := hnone rfl
  | some v =>
    obtain ⟨hv, hvf⟩ := hd v rfl
    simp only [residualTicks]
    split_ifs with hlt hclamp hclamp
    · refine ⟨le_rfl, hwf, fun _ _ => ?_⟩
      dsimp only
      rcases hclamp.2 with h | ⟨h, hfrac⟩
      · have : observed + w.1 + 1 ≤ v.1 := by omega
        have := Nat.mul_le_mul_right billion this
        linarith
      · rw [← h, Nat.add_sub_cancel' hlt.le, ← hv]
        omega
    · refine ⟨by dsimp only; omega, hvf, fun _ _ => ?_⟩
      dsimp only
      rw [Nat.add_sub_cancel' hlt.le, hv]
    · exact absurd hclamp.1 hlt
    · -- What has been observed has been waited for, so it is exactly what is due.
      refine ⟨Nat.zero_le _, hvf, fun _ ho => ?_⟩
      have hle : observed ≤ v.1 := by
        by_contra hc
        have := Nat.mul_le_mul_right billion (Nat.succ_le_of_lt (Nat.lt_of_not_le hc))
        linarith
      obtain rfl : v.1 = observed := by omega
      exact hv.le

theorem retirementCap_yields {m : Machine δ η} {fallback : Nat} (hc : m.clock.Sound)
    (hf : fallback < 2 ^ 32) (hhz : m.cpuHz < 2 ^ 32) :
    Yields (retirementCap fallback m) fun _ => True := by
  have hcap : fallback * m.clock.maxTicksPerRetirement ≤ (2 ^ 32 - 1) * (2 ^ 32 - 1) :=
    Nat.mul_le_mul (Nat.le_sub_one_of_lt hf) (Nat.le_sub_one_of_lt hc.maxTicks)
  unfold retirementCap
  refine (Yields.mul (by omega)).bind fun cap hcapeq => ?_
  split_ifs
  · exact .some trivial
  · refine (activeClockElapsedTicks_yields hhz).bind fun idle hidle => ?_
    cases idle with
    | none => exact .some trivial
    | some idle =>
      have hlt : idle.1 < 2 ^ 26 := by
        have h := (hidle.1 idle rfl).1
        have := Nat.mul_le_mul_right m.cpuHz hc.oversleep
        simp only [billion, activeClockMaxStepNs] at h this
        omega
      exact (Yields.add (by omega)).imp fun _ _ => trivial

/-- Ticks that are withheld become credit, as far as there is room. -/
theorem withhold_yields {added cap maxAdded credit : Nat} (hcap : cap ≤ added)
    (hmax : maxAdded < 2 ^ 26) (hcredit : credit < 2 ^ 26) :
    Yields (withhold added cap maxAdded credit) fun c =>
      cap + c ≤ added + credit ∧ c < 2 ^ 26 := by
  unfold withhold
  dsimp only
  refine (Yields.sub hcap).bind fun withheld hw => ?_
  split_ifs
  all_goals exact (Yields.add (by omega)).imp fun c hc => by omega

/-- The ticks added and the credit come to no more than what there was to add and the credit
before. -/
theorem credit_yields {added cap maxAdded kept credit : Nat} {P : Prop} [Decidable P]
    (hP : P → cap < added) (hmax : maxAdded < 2 ^ 26) (hkept : kept ≤ credit)
    (hcredit : credit < 2 ^ 26) :
    Yields (if P then withhold added cap maxAdded kept else some kept) fun c =>
      (if cap < added then cap else added) + c ≤ added + credit ∧ c < 2 ^ 26 := by
  by_cases h : P
  · rw [if_pos h, if_pos (hP h)]
    refine (withhold_yields (hP h).le hmax (hkept.trans_lt hcredit)).imp fun c hc => ?_
    omega
  · rw [if_neg h]
    refine .some ⟨?_, hkept.trans_lt hcredit⟩
    split_ifs <;> omega

/-- A synchronisation that adds ticks, or keeps them as credit, spends no more than the host time
since the last sample is worth. -/
theorem PaidFor.sync {c' : ActiveClock} {read added : Nat}
    (h : PaidFor hz read 0 c a) (hanchor : c.anchorValid = true) (hnow : read ≤ now)
    (hworth : c.idleRepaidTicks ≤ c.guestTicksSinceSync →
      c.guestTicksSinceSync - c.idleRepaidTicks < 2 ^ 26 →
      (c.guestTicksSinceSync - c.idleRepaidTicks) * billion ≤ (now - c.lastHostNs) * hz →
      (c.guestTicksSinceSync - c.idleRepaidTicks + added) * billion + c'.fraction ≤
        (now - c.lastHostNs) * hz + c.fraction)
    (hdue : due + c'.idleCreditTicks ≤ added + c.idleCreditTicks)
    (hlast : c'.lastHostNs = now) (hrepaid : c'.idleRepaidTicks = 0)
    (hshield : c'.deadlineShield = false) (d : δ) :
    PaidFor hz now 0 { c'.tick p due d with guestTicksSinceSync := 0 } (a.apply due) := by
  have hpaid : ∀ t ∈ a.first, t ≤ now ∧
      (a.applied + due + c'.idleCreditTicks) * billion + c'.fraction + t * hz ≤ now * hz := by
    intro t ht
    obtain ⟨hlastle, hrep, hlt, hbal, hwait⟩ := h.anchored hanchor t ht
    obtain ⟨observed, hobs⟩ := Nat.exists_eq_add_of_le hrep
    obtain ⟨ns, hns⟩ := Nat.exists_eq_add_of_le (hlastle.trans hnow)
    have hread : read * hz ≤ now * hz := Nat.mul_le_mul_right hz hnow
    rw [Nat.add_zero] at hrep hobs hbal hwait hlt
    have hworth := hworth hrep
    rw [hobs, Nat.add_sub_cancel_left, hns, Nat.add_sub_cancel_left] at hworth
    rw [hobs] at hbal hwait
    rw [hns, Nat.add_mul] at hread ⊢
    have hspent := hworth (by omega) (by linarith)
    have hsum := Nat.mul_le_mul_right billion (Nat.add_le_add_left hdue a.applied)
    exact ⟨hns ▸ (h.started t ht).1.trans hnow, by linarith⟩
  have hunstarted : a.first ≠ none := fun hf => by
    rw [(h.unstarted hf).2] at hanchor
    exact Bool.false_ne_true hanchor
  have hbase : PaidFor hz now 0 { c' with guestTicksSinceSync := 0 } (a.apply due) := by
    constructor
    · exact hshield
    · rw [Account.apply_first]
      exact fun hf => absurd hf hunstarted
    · intro t ht
      rw [Account.apply_first] at ht
      rw [Account.apply_applied ht]
      have hfraction : 0 ≤ c'.fraction := Nat.zero_le _
      exact ⟨(hpaid t ht).1, by dsimp only; linarith [(hpaid t ht).2]⟩
    · intro _ t ht
      rw [Account.apply_first] at ht
      rw [Account.apply_applied ht]
      constructor <;> simp only [hlast, hrepaid, Nat.add_zero, Nat.zero_add, Nat.zero_mul]
      · exact le_rfl
      · exact le_rfl
      · decide
      · exact (hpaid t ht).2
      · exact le_rfl
    · rw [Account.apply_syncs]
      exact h.syncs
  obtain ⟨G, -, htick⟩ | ⟨G, htick⟩ := ActiveClock.tick_cases p (c := c') due d
  · rw [htick]
    exact hbase
  · rw [htick]
    exact hbase.lost rfl rfl rfl

end S5LBox.Soc
