import S5LBox.Lib.SingleBit
import S5LBox.Soc.Timer

/-!
# Ticks taken together, and the predicted tick

Many ticks of the timer at once are the same as the ticks one after the other, in both modes and
from any state. The predicted number of ticks is the first after which an enabled match is latched.

The counter of the PWM mode is a number below `2 ^ 32`. It wraps there, and it starts again where it
meets the period: a match lies at its distance ahead, or not before the next start.

## Main definitions

* `distance`, `phaseAfter`, `Match0`: the counter of the PWM mode.
* `remainingAfter`: the counter of the interval mode.
* `enabledMatches`: the matches that drive the line.

## Main results

* `phaseAfter_add`, `match0_add`, `remainingAfter_add`: ticks can be taken together.
* `timer_batching`: the timer as a whole.
-/

namespace S5LBox.Soc

/-! ### The counter of the PWM mode -/

section Counter

variable {p q c a b n : Nat}

/-- The ticks until a counter at `p` comes to `q`; where it is there, until it comes there again. -/
def distance (p q : Nat) : Nat := if p < q then q - p else 2 ^ 32 + q - p

/-- The counter `n` ticks later, with the period `q`. -/
def phaseAfter (p q n : Nat) : Nat :=
  if distance p q ≤ n then (n - distance p q) % q else (p + n) % 2 ^ 32

/-- The first compare register `c` has been met after `n` ticks. -/
def Match0 (p q c n : Nat) : Prop :=
  distance p c ≤ n ∧ distance p c ≤ distance p q ∨
    distance p q ≤ n ∧ c ≤ q ∧ c ≤ n - distance p q

instance : Decidable (Match0 p q c n) := inferInstanceAs (Decidable (_ ∨ _))

theorem distance_pos (hp : p < 2 ^ 32) : 0 < distance p q := by
  rw [distance]
  split_ifs <;> omega

theorem distance_add (hp : p < 2 ^ 32) (hq : q < 2 ^ 32) (ha : a < distance p q) :
    distance ((p + a) % 2 ^ 32) q = distance p q - a := by
  rw [distance] at ha
  rw [distance, distance]
  split_ifs at ha ⊢ <;> omega

theorem distance_of_lt (h : p < q) : distance p q = q - p := if_pos h

theorem phaseAfter_lt (hq : 0 < q) (hq' : q < 2 ^ 32) : phaseAfter p q n < 2 ^ 32 := by
  rw [phaseAfter]
  split_ifs
  · exact lt_trans (Nat.mod_lt _ hq) hq'
  · exact Nat.mod_lt _ (by omega)

/-- A counter that has started again goes on within the period. -/
theorem phaseAfter_within (h : p < q) (hq : q < 2 ^ 32) : phaseAfter p q n = (p + n) % q := by
  rw [phaseAfter, distance_of_lt h]
  split_ifs with hn
  · obtain ⟨k, rfl⟩ := Nat.exists_eq_add_of_le hn
    rw [Nat.add_sub_cancel_left, ← Nat.add_assoc, Nat.add_sub_cancel' h.le, Nat.add_mod_left]
  · rw [Nat.mod_eq_of_lt (by omega), Nat.mod_eq_of_lt (by omega)]

theorem phaseAfter_add (hp : p < 2 ^ 32) (hq : 0 < q) (hq' : q < 2 ^ 32) :
    phaseAfter (phaseAfter p q a) q b = phaseAfter p q (a + b) := by
  by_cases ha : distance p q ≤ a
  · -- The counter has started again, and goes on from the rest.
    have hfirst : phaseAfter p q a = (a - distance p q) % q := if_pos ha
    have hboth : phaseAfter p q (a + b) = (a + b - distance p q) % q := if_pos (by omega)
    rw [hfirst, hboth, phaseAfter_within (Nat.mod_lt _ hq) hq', Nat.mod_add_mod]
    congr 1
    omega
  · have hfirst : phaseAfter p q a = (p + a) % 2 ^ 32 := if_neg ha
    rw [hfirst, phaseAfter, phaseAfter, distance_add hp hq' (by omega)]
    by_cases hb : distance p q ≤ a + b
    · rw [if_pos (by omega), if_pos hb]
      congr 1
      omega
    · rw [if_neg (by omega), if_neg hb, Nat.mod_add_mod, Nat.add_assoc]

theorem distance_le_add (hp : p < 2 ^ 32) (hq' : q < 2 ^ 32) (ha : ¬distance p q ≤ a) :
    distance p q ≤ a + b ↔ distance (phaseAfter p q a) q ≤ b := by
  have hfirst : phaseAfter p q a = (p + a) % 2 ^ 32 := if_neg ha
  rw [hfirst, distance_add hp hq' (by omega)]
  omega

/-- The compare register is met in one of two pieces of time. -/
theorem match0_add (hp : p < 2 ^ 32) (hq : 0 < q) (hq' : q < 2 ^ 32) (hc : c < 2 ^ 32) :
    Match0 p q c (a + b) ↔ Match0 p q c a ∨ Match0 (phaseAfter p q a) q c b := by
  by_cases ha : distance p q ≤ a
  · have hfirst : phaseAfter p q a = (a - distance p q) % q := if_pos ha
    have hrest : (a - distance p q) % q < q := Nat.mod_lt _ hq
    have hsame : a - distance p q < q → (a - distance p q) % q = a - distance p q :=
      Nat.mod_eq_of_lt
    rw [hfirst]
    generalize (a - distance p q) % q = r at hrest hsame
    rw [Match0, Match0, Match0, distance_of_lt hrest, distance.eq_def r c]
    split_ifs <;> omega
  · have hfirst : phaseAfter p q a = (p + a) % 2 ^ 32 := if_neg ha
    have hstop := distance_add hp hq' (not_le.mp ha)
    rw [Match0, Match0, Match0, hfirst, hstop]
    by_cases hm : distance p c ≤ a
    · have hle : distance p c ≤ distance p q := by omega
      exact iff_of_true (.inl ⟨by omega, hle⟩) (.inl (.inl ⟨hm, hle⟩))
    · rw [distance_add hp hc (not_le.mp hm)]
      omega

end Counter

/-! ### The counter of the interval mode -/

section Interval

variable {v q a b n : Nat}

/-- The ticks that the interval mode counts down, from a loaded value. -/
def remainingAfter (v q n : Nat) : Nat :=
  if n < v then v - n
  else if q = 0 then 0
  else if (n - v) % q ≠ 0 then q - (n - v) % q else q

/-- Before the counter expires the rest is a loaded value. -/
theorem remainingAfter_add_of_lt (ha : a < v) :
    remainingAfter (remainingAfter v q a) q b = remainingAfter v q (a + b) := by
  have hfirst : remainingAfter v q a = v - a := if_pos ha
  rw [hfirst, remainingAfter, remainingAfter]
  by_cases hb : a + b < v
  · rw [if_pos (by omega), if_pos hb]
    omega
  · rw [if_neg (by omega), if_neg hb, show b - (v - a) = a + b - v by omega]

theorem remainingAfter_add (hq : 0 < q) :
    remainingAfter (remainingAfter v q a) q b = remainingAfter v q (a + b) := by
  have hq' : q ≠ 0 := by omega
  by_cases ha : a < v
  · exact remainingAfter_add_of_lt ha
  · have hrest : (a - v) % q < q := Nat.mod_lt _ hq
    have hboth : remainingAfter v q (a + b) =
        if ((a - v) % q + b) % q ≠ 0 then q - ((a - v) % q + b) % q else q := by
      rw [remainingAfter, if_neg (by omega), if_neg hq', Nat.mod_add_mod,
        show a + b - v = a - v + b by omega]
    have hfirst : remainingAfter v q a = if (a - v) % q ≠ 0 then q - (a - v) % q else q := by
      rw [remainingAfter, if_neg ha, if_neg hq']
    rw [hboth, hfirst]
    generalize (a - v) % q = r at hrest
    -- The value that has been left is `q - r`, within one period.
    have hleft : (if r ≠ 0 then q - r else q) = q - r := by
      split_ifs <;> omega
    rw [hleft, remainingAfter, if_neg hq']
    by_cases hb : b < q - r
    · rw [if_pos hb, Nat.mod_eq_of_lt (by omega)]
      split_ifs <;> omega
    · have hmod : (r + b) % q = (b - (q - r)) % q := by
        rw [show r + b = b - (q - r) + q by omega, Nat.add_mod_right]
      rw [if_neg hb, hmod]

end Interval

/-! ### The timer -/

variable {t : S5lTimer} {a b n : Word}

theorem timer4Distance_eq (phase target : Word) :
    timer4Distance phase target = distance phase.toNat target.toNat := by
  have hp := phase.isLt
  have ht := target.isLt
  have hsub : (target - phase).toNat = (2 ^ 32 - phase.toNat + target.toNat) % 2 ^ 32 :=
    BitVec.toNat_sub _ _
  rw [timer4Distance, distance]
  by_cases h : target - phase = 0
  · rw [h] at hsub
    rw [if_neg (not_not.mpr h)]
    have hzero : (0 : Word).toNat = 0 := rfl
    split_ifs <;> omega
  · have hne : (target - phase).toNat ≠ 0 := fun hz => h (BitVec.eq_of_toNat_eq hz)
    rw [if_pos h, hsub]
    split_ifs <;> omega

theorem timer4Period_pos (t : S5lTimer) : 0 < (timer4Period t).toNat := by
  rw [timer4Period]
  split_ifs with h
  · exact Nat.pos_of_ne_zero fun hz => h (BitVec.eq_of_toNat_eq hz)
  · exact Nat.one_pos

/-- The compare register has been met after `n` ticks. -/
def Matches0 (t : S5lTimer) (n : Nat) : Prop :=
  Match0 (timer4Elapsed t).toNat (timer4Period t).toNat t.t4Count.toNat n

/-- The period has been met after `n` ticks. -/
def Matches1 (t : S5lTimer) (n : Nat) : Prop :=
  distance (timer4Elapsed t).toNat (timer4Period t).toNat ≤ n

instance (n : Nat) : Decidable (Matches0 t n) := inferInstanceAs (Decidable (Match0 _ _ _ n))

instance (n : Nat) : Decidable (Matches1 t n) := inferInstanceAs (Decidable (_ ≤ n))

section Latch

variable {p q : Prop} [Decidable p] [Decidable q] (m k latch : Word)

theorem latched_congr (h : p ↔ q) : latched p m latch = latched q m latch := if_congr h rfl rfl

theorem latched_true (h : p) : latched p m latch = latch ||| m := if_pos h

theorem latched_false (h : ¬p) : latched p m latch = latch := if_neg h

theorem latched_latched : latched p m (latched q m latch) = latched (q ∨ p) m latch := by
  rw [latched, latched, latched]
  by_cases hp : p <;> by_cases hq : q <;> simp [hp, hq, BitVec.or_assoc]

theorem latched_or : latched p m (latch ||| k) = latched p m latch ||| k := by
  rw [latched, latched]
  split_ifs
  · rw [BitVec.or_assoc, BitVec.or_comm k, BitVec.or_assoc]
  · rfl

theorem latched_and : latched p m latch &&& k = latched p (m &&& k) (latch &&& k) := by
  rw [latched, latched]
  split_ifs
  · rw [BitVec.and_or_distrib_right]
  · rfl

theorem latched_eq_zero : latched p m latch = 0 ↔ (p → m = 0) ∧ latch = 0 := by
  rw [latched]
  split_ifs with h
  · rw [forall_prop_of_true h, and_comm]
    exact BitVec.or_eq_zero_iff
  · exact (and_iff_right fun hp => absurd hp h).symm

theorem latched_idle (h : p → m = 0) : latched p m latch = latch := by
  by_cases hp : p
  · rw [latched_true _ _ hp, h hp]
    exact BitVec.or_zero
  · exact latched_false _ _ hp

theorem latched_comm : latched p m (latched q k latch) = latched q k (latched p m latch) := by
  by_cases hq : q
  · rw [latched_true _ _ hq, latched_true _ _ hq, latched_or]
  · rw [latched_false _ _ hq, latched_false _ _ hq]

end Latch

/-- The block with another latch and another value. -/
def S5lTimer.withMatch (t : S5lTimer) (latch value : Word) : S5lTimer :=
  { t with irqlatch := latch, t4Value := value }

@[simp]
theorem S5lTimer.withMatch_withMatch (t : S5lTimer) (latch latch' value value' : Word) :
    (t.withMatch latch value).withMatch latch' value' = t.withMatch latch' value' := rfl

/-- What the ticks of the PWM mode do: the matches, and the counter. -/
theorem timer4TickPwm_eq (t : S5lTimer) (n : Nat) :
    timer4TickPwm t n = t.withMatch
      (latched (Matches1 t n) timer4Int1 (latched (Matches0 t n) timer4Int0 t.irqlatch))
      (t.t4Count - BitVec.ofNat 32
        (phaseAfter (timer4Elapsed t).toNat (timer4Period t).toNat n)) := by
  have hcount : t.t4Count ≤ timer4Period t ↔ t.t4Count.toNat ≤ (timer4Period t).toNat := Iff.rfl
  rw [timer4TickPwm]
  simp only [timer4Distance_eq, hcount, ge_iff_le]
  by_cases h : distance (timer4Elapsed t).toNat (timer4Period t).toNat ≤ n
  · have hmatch : Matches0 t n ↔ _ ∨ _ := or_congr_right (and_iff_right h)
    have hstop : Matches1 t n := h
    rw [S5lTimer.withMatch, if_pos h, phaseAfter, if_pos h, latched_true _ _ hstop, latched_or, latched_latched,
      latched_congr _ _ hmatch]
  · have hmatch : Matches0 t n ↔ distance (timer4Elapsed t).toNat t.t4Count.toNat ≤ n ∧
        distance (timer4Elapsed t).toNat t.t4Count.toNat ≤
          distance (timer4Elapsed t).toNat (timer4Period t).toNat :=
      or_iff_left fun hm => h hm.1
    have hphase : BitVec.ofNat 32 (((timer4Elapsed t).toNat + n) % 2 ^ 32) =
        timer4Elapsed t + BitVec.ofNat 32 n := by
      apply BitVec.eq_of_toNat_eq
      rw [BitVec.toNat_ofNat, BitVec.toNat_add, BitVec.toNat_ofNat, Nat.mod_mod, Nat.add_mod_mod]
    have hstop : ¬Matches1 t n := h
    rw [S5lTimer.withMatch, if_neg h, phaseAfter, if_neg h, latched_false _ _ hstop, latched_congr _ _ hmatch, hphase]

theorem elapsed_timer4TickPwm (t : S5lTimer) (n : Nat) :
    (timer4Elapsed (timer4TickPwm t n)).toNat =
      phaseAfter (timer4Elapsed t).toNat (timer4Period t).toNat n := by
  have hlt : phaseAfter (timer4Elapsed t).toNat (timer4Period t).toNat n < 2 ^ 32 :=
    phaseAfter_lt (timer4Period_pos t) (timer4Period t).isLt
  rw [timer4TickPwm_eq]
  change (t.t4Count - (t.t4Count - BitVec.ofNat 32 _)).toNat = _
  rw [sub_sub_cancel, BitVec.toNat_ofNat, Nat.mod_eq_of_lt hlt]

/-- Ticks of the PWM mode can be taken together. -/
theorem timer4TickPwm_add (t : S5lTimer) (a b : Nat) :
    timer4TickPwm (timer4TickPwm t a) b = timer4TickPwm t (a + b) := by
  have hp := (timer4Elapsed t).isLt
  have hq := timer4Period_pos t
  have hq' := (timer4Period t).isLt
  have helapsed := elapsed_timer4TickPwm t a
  have hperiod : timer4Period (timer4TickPwm t a) = timer4Period t := by
    rw [timer4TickPwm_eq]
    rfl
  have hcount : (timer4TickPwm t a).t4Count = t.t4Count := by
    rw [timer4TickPwm_eq]
    rfl
  have hlatch : (timer4TickPwm t a).irqlatch =
      latched (Matches1 t a) timer4Int1 (latched (Matches0 t a) timer4Int0 t.irqlatch) := by
    rw [timer4TickPwm_eq]
    rfl
  have hwith (latch value : Word) :
      (timer4TickPwm t a).withMatch latch value = t.withMatch latch value := by
    rw [timer4TickPwm_eq, S5lTimer.withMatch_withMatch]
  have hzero : Matches0 t (a + b) ↔ Matches0 t a ∨ Matches0 (timer4TickPwm t a) b := by
    rw [Matches0, Matches0, Matches0, helapsed, hperiod, hcount]
    exact match0_add hp hq hq' t.t4Count.isLt
  have hone : Matches1 t (a + b) ↔ Matches1 t a ∨ Matches1 (timer4TickPwm t a) b := by
    rw [Matches1, Matches1, Matches1, helapsed, hperiod]
    by_cases ha : distance (timer4Elapsed t).toNat (timer4Period t).toNat ≤ a
    · exact iff_of_true (by omega) (.inl ha)
    · rw [distance_le_add hp hq' ha]
      exact (or_iff_right ha).symm
  rw [timer4TickPwm_eq (timer4TickPwm t a), timer4TickPwm_eq t (a + b), hwith, hlatch, helapsed,
    hperiod, hcount, phaseAfter_add hp hq hq', latched_congr _ _ hzero, latched_congr _ _ hone,
    ← latched_latched, ← latched_latched, latched_comm timer4Int0 timer4Int1]

/-- The value that the interval mode counts down. -/
def loaded (t : S5lTimer) : Nat := if t.t4Value = 0 then t.t4Count.toNat else t.t4Value.toNat

/-- What the ticks of the interval mode do: the match, and the counter. -/
theorem timer4TickInterval_eq (h : loaded t ≠ 0) (n : Nat) :
    timer4TickInterval t n = t.withMatch (latched (loaded t ≤ n) timer4IrqBits t.irqlatch)
      (BitVec.ofNat 32 (remainingAfter (loaded t) t.t4Count.toNat n)) := by
  change (if loaded t = 0 then t else if n < loaded t then _ else _) = _
  rw [S5lTimer.withMatch, if_neg h, remainingAfter]
  by_cases hn : n < loaded t
  · rw [if_pos hn, if_pos hn, latched_false _ _ (by omega)]
    rfl
  · rw [if_neg hn, if_neg hn, latched_true _ _ (by omega)]
    rfl

theorem timer4TickInterval_stopped (h : loaded t = 0) (n : Nat) : timer4TickInterval t n = t :=
  if_pos h

theorem toNat_eq_zero {w : Word} : w.toNat = 0 ↔ w = 0 :=
  ⟨fun h => BitVec.eq_of_toNat_eq h, fun h => h ▸ rfl⟩

theorem loaded_lt (t : S5lTimer) : loaded t < 2 ^ 32 := by
  rw [loaded]
  split_ifs
  · exact t.t4Count.isLt
  · exact t.t4Value.isLt

theorem remainingAfter_lt {v q n : Nat} (hv : v < 2 ^ 32) (hq : q < 2 ^ 32) :
    remainingAfter v q n < 2 ^ 32 := by
  rw [remainingAfter]
  split_ifs <;> omega

theorem remainingAfter_pos {v q n : Nat} (hq : 0 < q) : 0 < remainingAfter v q n := by
  have hmod : (n - v) % q < q := Nat.mod_lt _ hq
  rw [remainingAfter]
  split_ifs <;> omega

/-- Ticks of the interval mode can be taken together. -/
theorem timer4TickInterval_add (t : S5lTimer) (a b : Nat) :
    timer4TickInterval (timer4TickInterval t a) b = timer4TickInterval t (a + b) := by
  by_cases h : loaded t = 0
  · rw [timer4TickInterval_stopped h, timer4TickInterval_stopped h, timer4TickInterval_stopped h]
  have hlt : remainingAfter (loaded t) t.t4Count.toNat a < 2 ^ 32 :=
    remainingAfter_lt (loaded_lt t) t.t4Count.isLt
  have hfirst := timer4TickInterval_eq h a
  have hvalue : (timer4TickInterval t a).t4Value.toNat =
      remainingAfter (loaded t) t.t4Count.toNat a := by
    rw [hfirst]
    exact (BitVec.toNat_ofNat ..).trans (Nat.mod_eq_of_lt hlt)
  have hcount : (timer4TickInterval t a).t4Count = t.t4Count := by
    rw [hfirst]
    rfl
  have hlatch : (timer4TickInterval t a).irqlatch =
      latched (loaded t ≤ a) timer4IrqBits t.irqlatch := by
    rw [hfirst]
    rfl
  have hwith (latch value : Word) :
      (timer4TickInterval t a).withMatch latch value = t.withMatch latch value := by
    rw [hfirst, S5lTimer.withMatch_withMatch]
  have hloaded : loaded (timer4TickInterval t a) =
      remainingAfter (loaded t) t.t4Count.toNat a := by
    rw [loaded, hcount, hvalue]
    split_ifs with hz
    · -- The value is zero only where there is nothing to load.
      rw [← toNat_eq_zero, hvalue] at hz
      rw [hz]
      by_contra hne
      have hpos : 0 < remainingAfter (loaded t) t.t4Count.toNat a :=
        remainingAfter_pos (Nat.pos_of_ne_zero hne)
      omega
    · rfl
  by_cases hstop : remainingAfter (loaded t) t.t4Count.toNat a = 0
  · -- It has expired and stays stopped.
    have hempty : t.t4Count.toNat = 0 := by
      by_contra hne
      have hpos : 0 < remainingAfter (loaded t) t.t4Count.toNat a :=
        remainingAfter_pos (Nat.pos_of_ne_zero hne)
      omega
    have hexpired : loaded t ≤ a := by
      rw [remainingAfter] at hstop
      split_ifs at hstop <;> omega
    have hafter : remainingAfter (loaded t) t.t4Count.toNat (a + b) = 0 := by
      rw [remainingAfter, if_neg (by omega), if_pos hempty]
    rw [timer4TickInterval_stopped (hloaded.trans hstop), hfirst, timer4TickInterval_eq h (a + b),
      latched_true _ _ hexpired, latched_true _ _ (by omega), hstop, hafter]
  · have hsecond := timer4TickInterval_eq (hloaded.trans_ne hstop) b
    rw [hwith, hlatch, hcount, hloaded, latched_latched] at hsecond
    rw [hsecond, timer4TickInterval_eq h (a + b)]
    by_cases hexpired : loaded t ≤ a
    · have hq : 0 < t.t4Count.toNat := by
        by_contra hz
        rw [remainingAfter, if_neg (by omega), if_pos (by omega)] at hstop
        exact hstop rfl
      rw [latched_true _ _ (.inl hexpired), latched_true _ _ (by omega), remainingAfter_add hq]
    · -- It has not yet expired, and what remains is the rest of the loaded value.
      have hrest : remainingAfter (loaded t) t.t4Count.toNat a = loaded t - a :=
        if_pos (by omega)
      have hmatch : loaded t ≤ a ∨ remainingAfter (loaded t) t.t4Count.toNat a ≤ b ↔
          loaded t ≤ a + b := by omega
      rw [latched_congr _ _ hmatch, remainingAfter_add_of_lt (by omega)]

/-! ### Ticks of the block -/

/-- Timer 4 some ticks later. -/
def timer4Tick (t : S5lTimer) (n : Nat) : S5lTimer :=
  if t.t4State &&& timer4StateStart ≠ 0 then
    if timer4Pwm t then timer4TickPwm t n else timer4TickInterval t n
  else t

/-- Ticks change the latch and the value only. -/
theorem timer4Tick_withMatch (t : S5lTimer) (n : Nat) :
    ∃ latch value, timer4Tick t n = t.withMatch latch value := by
  rw [timer4Tick]
  split_ifs
  · exact ⟨_, _, timer4TickPwm_eq t n⟩
  · by_cases h : loaded t = 0
    · exact ⟨t.irqlatch, t.t4Value, timer4TickInterval_stopped h n⟩
    · exact ⟨_, _, timer4TickInterval_eq h n⟩
  · exact ⟨t.irqlatch, t.t4Value, rfl⟩

theorem timer4Tick_add (t : S5lTimer) (a b : Nat) :
    timer4Tick (timer4Tick t a) b = timer4Tick t (a + b) := by
  obtain ⟨latch, value, hkept⟩ := timer4Tick_withMatch t a
  have hstate : (timer4Tick t a).t4State = t.t4State := by
    rw [hkept]
    rfl
  have hmode : timer4Pwm (timer4Tick t a) = timer4Pwm t := by
    rw [hkept]
    rfl
  rw [timer4Tick.eq_def (timer4Tick t a), timer4Tick.eq_def t (a + b), hstate, hmode]
  by_cases hstart : t.t4State &&& timer4StateStart ≠ 0
  · rw [if_pos hstart, if_pos hstart]
    by_cases hpwm : timer4Pwm t
    · have hfirst : timer4Tick t a = timer4TickPwm t a := by
        rw [timer4Tick, if_pos hstart, if_pos hpwm]
      rw [if_pos hpwm, if_pos hpwm, hfirst, timer4TickPwm_add]
    · have hfirst : timer4Tick t a = timer4TickInterval t a := by
        rw [timer4Tick, if_pos hstart, if_neg hpwm]
      rw [if_neg hpwm, if_neg hpwm, hfirst, timer4TickInterval_add]
  · have hfirst : timer4Tick t a = t := if_neg hstart
    rw [if_neg hstart, if_neg hstart, hfirst]

/-- The block at another time. -/
def S5lTimer.at (t : S5lTimer) (ticks : BitVec 64) : S5lTimer := { t with ticks }

/-- Timer 4 does not read the counter that runs free. -/
theorem timer4Tick_at (t : S5lTimer) (ticks : BitVec 64) (n : Nat) :
    timer4Tick (t.at ticks) n = (timer4Tick t n).at ticks := by
  have hpwm : timer4Pwm (t.at ticks) = timer4Pwm t := rfl
  have hloaded : loaded (t.at ticks) = loaded t := rfl
  rw [timer4Tick, timer4Tick, hpwm]
  change (if t.t4State &&& timer4StateStart ≠ 0 then _ else _) = _
  split_ifs with _ _
  · rw [timer4TickPwm_eq, timer4TickPwm_eq]
    rfl
  · by_cases h : loaded t = 0
    · rw [timer4TickInterval_stopped h, timer4TickInterval_stopped (hloaded.trans h)]
    · rw [timer4TickInterval_eq h, timer4TickInterval_eq (hloaded.trans_ne h)]
      rfl
  · rfl

theorem s5lTimerTick_fst (t : S5lTimer) (n : Word) :
    (s5lTimerTick t n).1 = s5lTimerLine (s5lTimerTick t n).2 := rfl

theorem s5lTimerTick_zero (t : S5lTimer) : (s5lTimerTick t 0).2 = t := by
  have hguard : ¬(t.t4State &&& timer4StateStart ≠ 0 ∧ (0 : Word) ≠ 0) := fun h => h.2 rfl
  refine (if_neg hguard).trans ?_
  change t.at (t.ticks + 0#64) = t
  rw [BitVec.add_zero]
  rfl

theorem s5lTimerTick_snd (t : S5lTimer) {n : Word} (h : n ≠ 0) :
    (s5lTimerTick t n).2 = (timer4Tick t n.toNat).at (t.ticks + n.setWidth 64) := by
  rw [← timer4Tick_at]
  change (if t.t4State &&& timer4StateStart ≠ 0 ∧ n ≠ 0 then _ else _) =
    if t.t4State &&& timer4StateStart ≠ 0 then _ else _
  exact if_congr (and_iff_left h) rfl rfl

/-- The ticks of the block can be taken together. -/
theorem s5lTimerTick_add (t : S5lTimer) (h : a.toNat + b.toNat < 2 ^ 32) :
    s5lTimerTick (s5lTimerTick t a).2 b = s5lTimerTick t (a + b) := by
  have hsum : (a + b).toNat = a.toNat + b.toNat := by
    rw [BitVec.toNat_add, Nat.mod_eq_of_lt h]
  have hblock : (s5lTimerTick (s5lTimerTick t a).2 b).2 = (s5lTimerTick t (a + b)).2 := by
    by_cases ha : a = 0
    · rw [ha, s5lTimerTick_zero, zero_add]
    by_cases hb : b = 0
    · rw [hb, s5lTimerTick_zero, add_zero]
    have hne : a + b ≠ 0 := by
      rw [← toNat_eq_zero] at ha
      rw [ne_eq, ← toNat_eq_zero]
      omega
    have htime : t.ticks + a.setWidth 64 + b.setWidth 64 = t.ticks + (a + b).setWidth 64 := by
      rw [BitVec.add_assoc]
      congr 1
      apply BitVec.eq_of_toNat_eq
      rw [BitVec.toNat_add, BitVec.toNat_setWidth, BitVec.toNat_setWidth, BitVec.toNat_setWidth]
      omega
    rw [s5lTimerTick_snd _ hb, s5lTimerTick_snd _ ha, s5lTimerTick_snd _ hne, timer4Tick_at,
      timer4Tick_add, hsum, ← htime]
    rfl
  have hline := s5lTimerTick_fst (s5lTimerTick t a).2 b
  rw [hblock, ← s5lTimerTick_fst] at hline
  exact Prod.ext hline hblock

/-! ### The predicted tick -/

/-- The matches that drive the line. -/
def enabledMatches (t : S5lTimer) : Word :=
  if timer4Pwm t then t.t4Config <<< 4 &&& timer4IrqBits else timer4IrqBits

/-- An enabled match of the PWM mode within `n` ticks. -/
def MatchWithin (t : S5lTimer) (n : Nat) : Prop :=
  t.t4Config &&& timer4Int0En ≠ 0 ∧ Matches0 t n ∨ t.t4Config &&& timer4Int1En ≠ 0 ∧ Matches1 t n

theorem only_le (p : Prop) [Decidable p] (candidate n : Nat) :
    (∃ m, (if p then some candidate else none) = some m ∧ m ≤ n) ↔ p ∧ candidate ≤ n := by
  by_cases hp : p <;> simp [hp]

/-- A candidate is taken where it comes before the others. -/
theorem earlier_le (p : Prop) [Decidable p] (next : Option Nat) (candidate n : Nat) :
    (∃ m, (if p ∧ next.all (candidate < ·) then some candidate else next) = some m ∧ m ≤ n) ↔
      (∃ m, next = some m ∧ m ≤ n) ∨ p ∧ candidate ≤ n := by
  cases next with
  | none => by_cases hp : p <;> simp [hp]
  | some next =>
    by_cases hp : p
    · by_cases hlt : candidate < next
      · simp only [Option.all_some, hp, hlt, decide_true, and_true, if_true, Option.some.injEq,
          exists_eq_left', true_and]
        omega
      · simp only [Option.all_some, hp, hlt, decide_false, Bool.false_eq_true, and_false, if_false,
          Option.some.injEq, exists_eq_left', true_and]
        omega
    · simp [hp]

/-- The prediction of the PWM mode is the first tick with an enabled match. -/
theorem timer4Next_le (t : S5lTimer) (n : Nat) :
    (∃ next, timer4Next t = some next ∧ next ≤ n) ↔ MatchWithin t n := by
  have hcount : t.t4Count ≤ timer4Period t ↔ t.t4Count.toNat ≤ (timer4Period t).toNat := Iff.rfl
  rw [timer4Next, MatchWithin, Matches0, Matches1, Match0]
  simp only [timer4Distance_eq, hcount, ← ite_and]
  generalize distance (timer4Elapsed t).toNat (timer4Period t).toNat = stop
  generalize distance (timer4Elapsed t).toNat t.t4Count.toNat = first
  generalize (timer4Period t).toNat = q
  generalize t.t4Count.toNat = c at hcount ⊢
  by_cases h₀ : t.t4Config &&& timer4Int0En ≠ 0
  · have hafter : c ≤ q ∧ stop + c ≤ n ↔ stop ≤ n ∧ c ≤ q ∧ c ≤ n - stop := by omega
    rw [if_pos h₀, earlier_le, earlier_le, only_le, hafter, and_iff_right h₀, or_assoc, or_comm,
      and_comm (a := first ≤ stop)]
  · rw [if_neg h₀, only_le, or_iff_right fun h => h₀ h.1]

/-- A match drives the line where its enable bit is set. -/
theorem int_enabled (config : Word) {i : Nat} (h : i + 4 < 32)
    (hirq : timer4IrqBits.getLsbD (i + 4) = true) :
    BitVec.twoPow 32 (i + 4) &&& (config <<< 4 &&& timer4IrqBits) = 0 ↔
      config &&& BitVec.twoPow 32 i = 0 := by
  rw [BitVec.and_comm, SingleBit.and_twoPow_eq_zero _ h, SingleBit.and_twoPow_eq_zero _ (by omega),
    BitVec.getLsbD_and, hirq, Bool.and_true, BitVec.getLsbD_shiftLeft]
  simp [h]

theorem int0_enabled (config : Word) :
    timer4Int0 &&& (config <<< 4 &&& timer4IrqBits) = 0 ↔ config &&& timer4Int0En = 0 :=
  int_enabled (i := 12) config (by decide) rfl

theorem int1_enabled (config : Word) :
    timer4Int1 &&& (config <<< 4 &&& timer4IrqBits) = 0 ↔ config &&& timer4Int1En = 0 :=
  int_enabled (i := 13) config (by decide) rfl

/-- An enabled match within `n` ticks, in either mode. -/
def LatchWithin (t : S5lTimer) (n : Nat) : Prop :=
  t.t4State &&& timer4StateStart ≠ 0 ∧
    if timer4Pwm t then MatchWithin t n else loaded t ≠ 0 ∧ loaded t ≤ n

/-- The latch of the PWM mode, for the enabled matches. -/
theorem irqlatch_timer4TickPwm (t : S5lTimer) (n : Nat) :
    (timer4TickPwm t n).irqlatch &&& enabledMatches t =
      latched (Matches1 t n) (timer4Int1 &&& enabledMatches t)
        (latched (Matches0 t n) (timer4Int0 &&& enabledMatches t)
          (t.irqlatch &&& enabledMatches t)) := by
  rw [timer4TickPwm_eq, ← latched_and, ← latched_and]
  rfl

theorem irqlatch_unmatched {n : Nat} (h : ¬LatchWithin t n) :
    (timer4Tick t n).irqlatch &&& enabledMatches t = t.irqlatch &&& enabledMatches t := by
  rw [timer4Tick]
  split_ifs with hstart hpwm
  · rw [LatchWithin, and_iff_right hstart, if_pos hpwm, MatchWithin, not_or] at h
    have henabled : enabledMatches t = t.t4Config <<< 4 &&& timer4IrqBits := if_pos hpwm
    have hzero : Matches0 t n → timer4Int0 &&& enabledMatches t = 0 := fun hm => by
      rw [henabled, int0_enabled]
      exact not_not.mp fun hen => h.1 ⟨hen, hm⟩
    have hone : Matches1 t n → timer4Int1 &&& enabledMatches t = 0 := fun hm => by
      rw [henabled, int1_enabled]
      exact not_not.mp fun hen => h.2 ⟨hen, hm⟩
    rw [irqlatch_timer4TickPwm, latched_idle _ _ hone, latched_idle _ _ hzero]
  · rw [LatchWithin, and_iff_right hstart, if_neg hpwm] at h
    by_cases hloaded : loaded t = 0
    · rw [timer4TickInterval_stopped hloaded]
    · rw [timer4TickInterval_eq hloaded, latched_false _ _ fun hle => h ⟨hloaded, hle⟩]
      rfl
  · rfl

theorem irqlatch_matched {n : Nat} (h : LatchWithin t n) :
    (timer4Tick t n).irqlatch &&& enabledMatches t ≠ 0 := by
  obtain ⟨hstart, h⟩ := h
  rw [timer4Tick, if_pos hstart]
  split_ifs at h ⊢ with hpwm
  · have henabled : enabledMatches t = t.t4Config <<< 4 &&& timer4IrqBits := if_pos hpwm
    rw [irqlatch_timer4TickPwm, henabled, ne_eq, latched_eq_zero, latched_eq_zero,
      int0_enabled, int1_enabled]
    rintro ⟨hone, hzero, -⟩
    exact h.elim (fun hm => hm.1 (hzero hm.2)) fun hm => hm.1 (hone hm.2)
  · have henabled : enabledMatches t = timer4IrqBits := if_neg hpwm
    rw [timer4TickInterval_eq h.1, latched_true _ _ h.2, henabled]
    change (t.irqlatch ||| timer4IrqBits) &&& timer4IrqBits ≠ 0
    rw [BitVec.and_or_distrib_right]
    exact fun hzero => absurd (BitVec.or_eq_zero_iff.mp hzero).2 (by decide)

/-! ### The prediction -/

theorem next_pos {next : Nat} (h : timer4Next t = some next) : 0 < next := by
  have hstop : 0 < distance (timer4Elapsed t).toNat (timer4Period t).toNat :=
    distance_pos (timer4Elapsed t).isLt
  have hfirst : 0 < distance (timer4Elapsed t).toNat t.t4Count.toNat :=
    distance_pos (timer4Elapsed t).isLt
  by_contra hzero
  have hmatch : MatchWithin t 0 := (timer4Next_le t 0).mp ⟨next, h, by omega⟩
  rw [MatchWithin, Matches0, Matches1, Match0] at hmatch
  omega

section Prediction

variable (hstart : t.t4State &&& timer4StateStart ≠ 0)
include hstart

theorem ticksToIrq_interval (hpwm : ¬timer4Pwm t) : (s5lTimerTicksToIrq t).toNat = loaded t := by
  rw [s5lTimerTicksToIrq, if_neg hstart, if_pos hpwm, loaded]
  by_cases hvalue : t.t4Value = 0
  · rw [if_neg (not_not.mpr hvalue), if_pos hvalue]
  · rw [if_pos hvalue, if_neg hvalue]

theorem ticksToIrq_none (hpwm : timer4Pwm t) (h : timer4Next t = none) :
    s5lTimerTicksToIrq t = 0 := by
  rw [s5lTimerTicksToIrq, if_neg hstart, if_neg (not_not.mpr hpwm), h]

theorem ticksToIrq_some {next : Nat} (hpwm : timer4Pwm t) (h : timer4Next t = some next) :
    s5lTimerTicksToIrq t = -1 ∨ (s5lTimerTicksToIrq t).toNat = next := by
  rw [s5lTimerTicksToIrq, if_neg hstart, if_neg (not_not.mpr hpwm), h]
  by_cases hmax : next > 2 ^ 32 - 1
  · exact .inl (if_pos hmax)
  · refine .inr ((congrArg BitVec.toNat (if_neg hmax)).trans ?_)
    rw [BitVec.toNat_ofNat, Nat.mod_eq_of_lt (by omega)]

end Prediction

/-- Without a prediction there is no enabled match. -/
theorem latchWithin_of_zero (h : s5lTimerTicksToIrq t = 0) (n : Nat) : ¬LatchWithin t n := by
  rintro ⟨hstart, hmatch⟩
  split_ifs at hmatch with hpwm
  · obtain ⟨next, hnext, -⟩ := (timer4Next_le t n).mpr hmatch
    obtain hmax | hvalue := ticksToIrq_some hstart hpwm hnext
    · exact absurd (hmax.symm.trans h) (by decide)
    · have hpos := next_pos hnext
      have hzero := toNat_eq_zero.mpr h
      omega
  · have hvalue := ticksToIrq_interval hstart hpwm
    rw [toNat_eq_zero.mpr h] at hvalue
    exact hmatch.1 hvalue.symm

/-- The prediction is the first tick with an enabled match. -/
theorem latchWithin_iff (h : s5lTimerTicksToIrq t ≠ 0) (hmax : s5lTimerTicksToIrq t ≠ -1)
    (n : Nat) : LatchWithin t n ↔ (s5lTimerTicksToIrq t).toNat ≤ n := by
  have hstart : t.t4State &&& timer4StateStart ≠ 0 := fun hstop => h (if_pos hstop)
  rw [LatchWithin, and_iff_right hstart]
  split_ifs with hpwm
  · rw [← timer4Next_le]
    cases hnext : timer4Next t with
    | none => exact absurd (ticksToIrq_none hstart hpwm hnext) h
    | some next =>
      have hvalue := (ticksToIrq_some hstart hpwm hnext).resolve_left hmax
      rw [hvalue]
      exact ⟨fun ⟨m, hm, hle⟩ => Option.some.inj hm ▸ hle, fun hle => ⟨next, rfl, hle⟩⟩
  · have hvalue := ticksToIrq_interval hstart hpwm
    have hloaded : loaded t ≠ 0 := fun hzero => h (toNat_eq_zero.mp (hvalue.trans hzero))
    rw [hvalue, and_iff_right hloaded]

/-! ### Runs of ticks -/

/-- The block after some calls. -/
def tickAll (t : S5lTimer) (calls : List Word) : S5lTimer :=
  calls.foldl (fun t n => (s5lTimerTick t n).2) t

/-- No ticks of timer 4 latch an enabled match. -/
def Quiet (t : S5lTimer) : Prop :=
  ∀ n, (timer4Tick t n).irqlatch &&& enabledMatches t = t.irqlatch &&& enabledMatches t

theorem enabledMatches_tick (t : S5lTimer) (n : Word) :
    enabledMatches (s5lTimerTick t n).2 = enabledMatches t := by
  by_cases hn : n = 0
  · rw [hn, s5lTimerTick_zero]
  · obtain ⟨latch, value, hkept⟩ := timer4Tick_withMatch t n.toNat
    rw [s5lTimerTick_snd t hn, hkept]
    rfl

/-- A call on a quiet block leaves its enabled matches, and leaves it quiet. -/
theorem Quiet.tick (h : Quiet t) (n : Word) :
    Quiet (s5lTimerTick t n).2 ∧
      (s5lTimerTick t n).2.irqlatch &&& enabledMatches t = t.irqlatch &&& enabledMatches t := by
  by_cases hn : n = 0
  · rw [hn, s5lTimerTick_zero]
    exact ⟨h, rfl⟩
  have henabled := enabledMatches_tick t n
  rw [s5lTimerTick_snd t hn] at henabled ⊢
  refine ⟨fun m => ?_, h n.toNat⟩
  rw [henabled, timer4Tick_at, timer4Tick_add]
  exact (h (n.toNat + m)).trans (h n.toNat).symm

theorem Quiet.tickAll (h : Quiet t) (calls : List Word) :
    (tickAll t calls).irqlatch &&& enabledMatches t = t.irqlatch &&& enabledMatches t := by
  induction calls generalizing t with
  | nil => rfl
  | cons n calls ih =>
    obtain ⟨hquiet, hlatch⟩ := h.tick n
    have hrest := ih hquiet
    rw [enabledMatches_tick] at hrest
    exact hrest.trans hlatch

/-- Ticks can be taken together, and the predicted tick is exact. Without a prediction no calls
latch an enabled match. A prediction below the greatest is the number of ticks after which the
first enabled match is latched, whatever the latch has held; fewer ticks latch none. -/
theorem timer_batching (t : S5lTimer) :
    (∀ a b : Word, a.toNat + b.toNat < 2 ^ 32 →
      s5lTimerTick (s5lTimerTick t a).2 b = s5lTimerTick t (a + b)) ∧
    (s5lTimerTicksToIrq t = 0 → ∀ calls : List Word,
      (tickAll t calls).irqlatch &&& enabledMatches t = t.irqlatch &&& enabledMatches t) ∧
    (s5lTimerTicksToIrq t ≠ 0 → s5lTimerTicksToIrq t ≠ -1 →
      (∀ m < s5lTimerTicksToIrq t,
        (s5lTimerTick t m).2.irqlatch &&& enabledMatches t = t.irqlatch &&& enabledMatches t) ∧
      ∀ latch : Word,
        (s5lTimerTick { t with irqlatch := latch } (s5lTimerTicksToIrq t)).2.irqlatch &&&
          enabledMatches t ≠ 0) := by
  refine ⟨fun a b h => s5lTimerTick_add t h, fun hzero calls => ?_, fun hpos hmax => ⟨?_, ?_⟩⟩
  · have hquiet : Quiet t := fun n => irqlatch_unmatched (latchWithin_of_zero hzero n)
    exact hquiet.tickAll calls
  · intro m hm
    by_cases hzero : m = 0
    · rw [hzero, s5lTimerTick_zero]
    · rw [s5lTimerTick_snd t hzero]
      refine irqlatch_unmatched fun h => ?_
      rw [latchWithin_iff hpos hmax] at h
      exact absurd hm (Nat.not_lt.mpr h)
  · intro latch
    have hmatch : LatchWithin { t with irqlatch := latch } (s5lTimerTicksToIrq t).toNat :=
      (latchWithin_iff (t := { t with irqlatch := latch }) hpos hmax _).mpr le_rfl
    rw [s5lTimerTick_snd _ hpos]
    exact irqlatch_matched hmatch

/-- A timer whose counter has come past both compare registers, and meets the first one again after
its wrap. -/
def wrapTimer : S5lTimer :=
  { t4Config := 0x1010
    t4State := timer4StateStart
    t4Count := 5
    t4Count2 := 9
    t4Value := 8 }

theorem timer_batching_wrap :
    (s5lTimerTick (s5lTimerTick wrapTimer 7).2 1 = s5lTimerTick wrapTimer 8) ∧
    (s5lTimerTick wrapTimer 7).2.irqlatch &&& enabledMatches wrapTimer = 0 ∧
    (s5lTimerTick wrapTimer 8).2.irqlatch &&& enabledMatches wrapTimer ≠ 0 := by
  obtain ⟨hadd, -, hnext⟩ := timer_batching wrapTimer
  obtain ⟨hbefore, hafter⟩ := hnext (by decide) (by decide)
  exact ⟨hadd 7 1 (by decide), hbefore 7 (by decide), hafter 0⟩

end S5LBox.Soc
