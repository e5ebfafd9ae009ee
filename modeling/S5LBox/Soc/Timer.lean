import S5LBox.Arm.Cpu

/-!
# The timer block

`timer.c`: the counter that runs free, and timer 4, which the kernel uses as its decrementer. In
the PWM mode timer 4 counts up, matches at two compare registers and starts again at the second; in
the interval mode it counts down. Both are advanced by many ticks at once.

## Main definitions

* `S5lTimer`: the block.
* `s5lTimerTick`: the block some ticks later.
* `s5lTimerTicksToIrq`: the ticks to the next match that drives the line.
-/

namespace S5LBox.Soc

/-! ### The registers -/

def timer4StateStart : Word := 0x1

def timer4IrqBits : Word := 0x00030000
def timer4ModeMask : Word := 0x30
def timer4ModePwm : Word := 0x10
def timer4Int0En : Word := 0x1000
def timer4Int1En : Word := 0x2000
def timer4Int0 : Word := 0x00010000
def timer4Int1 : Word := 0x00020000

/-- `s5l_timer_t`. -/
structure S5lTimer where
  ticks : BitVec 64 := 0
  config : Word := 0
  t4Config : Word := 0
  t4State : Word := 0
  t4Count : Word := 0
  t4Count2 : Word := 0
  /-- The compare register less the elapsed count. -/
  t4Value : Word := 0
  irqlatch : Word := 0
  deriving DecidableEq

/-- `timer4_pwm`. -/
def timer4Pwm (t : S5lTimer) : Bool := t.t4Config &&& timer4ModeMask == timer4ModePwm

/-- `timer4_elapsed`. -/
def timer4Elapsed (t : S5lTimer) : Word := t.t4Count - t.t4Value

/-- `timer4_distance`. -/
def timer4Distance (phase target : Word) : Nat :=
  let distance := target - phase
  if distance ≠ 0 then distance.toNat else 2 ^ 32

/-- The count at which the PWM mode starts again. -/
def timer4Period (t : S5lTimer) : Word := if t.t4Count2 ≠ 0 then t.t4Count2 else 1

/-! ### Time -/

/-- The latch with a match, under a condition. -/
def latched (p : Prop) [Decidable p] (m latch : Word) : Word := if p then latch ||| m else latch

/-- `timer4_tick_pwm`. -/
def timer4TickPwm (t : S5lTimer) (ticks : Nat) : S5lTimer :=
  let phase := timer4Elapsed t
  let period := timer4Period t
  let stop := timer4Distance phase period
  let first := timer4Distance phase t.t4Count
  let latch := latched (first ≤ ticks ∧ first ≤ stop) timer4Int0 t.irqlatch
  if ticks ≥ stop then
    let rest := ticks - stop
    let latch := latched (t.t4Count ≤ period ∧ rest ≥ t.t4Count.toNat) timer4Int0
      (latch ||| timer4Int1)
    { t with
      irqlatch := latch
      t4Value := t.t4Count - BitVec.ofNat 32 (rest % period.toNat) }
  else { t with irqlatch := latch, t4Value := t.t4Count - (phase + BitVec.ofNat 32 ticks) }

/-- The interval mode of `s5l_timer_tick`. -/
def timer4TickInterval (t : S5lTimer) (ticks : Nat) : S5lTimer :=
  let period := t.t4Count.toNat
  let value := if t.t4Value = 0 then period else t.t4Value.toNat
  if value = 0 then t
  else if ticks < value then { t with t4Value := BitVec.ofNat 32 (value - ticks) }
  else
    let phase := (ticks - value) % period
    { t with
      irqlatch := t.irqlatch ||| timer4IrqBits
      t4Value := BitVec.ofNat 32 (if period = 0 then 0 else if phase ≠ 0 then period - phase
        else period) }

/-- The line that the timer drives. -/
def s5lTimerLine (t : S5lTimer) : Bool :=
  if timer4Pwm t then t.irqlatch &&& (t.t4Config <<< 4) &&& timer4IrqBits != 0
  else t.irqlatch != 0

/-- `s5l_timer_tick`: the line, and the block. -/
def s5lTimerTick (t : S5lTimer) (ticks : Word) : Bool × S5lTimer :=
  let t := { t with ticks := t.ticks + ticks.setWidth 64 }
  let t :=
    if t.t4State &&& timer4StateStart ≠ 0 ∧ ticks ≠ 0 then
      if timer4Pwm t then timer4TickPwm t ticks.toNat else timer4TickInterval t ticks.toNat
    else t
  (s5lTimerLine t, t)

/-- The ticks to the next enabled match of the PWM mode, if there is one. -/
def timer4Next (t : S5lTimer) : Option Nat :=
  let phase := timer4Elapsed t
  let period := timer4Period t
  let stop := timer4Distance phase period
  let next := if t.t4Config &&& timer4Int1En ≠ 0 then some stop else none
  if t.t4Config &&& timer4Int0En ≠ 0 then
    let first := timer4Distance phase t.t4Count
    let next := if first ≤ stop ∧ next.all (first < ·) then some first else next
    if t.t4Count ≤ period then
      let afterReset := stop + t.t4Count.toNat
      if next.all (afterReset < ·) then some afterReset else next
    else next
  else next

/-- `s5l_timer_ticks_to_irq`. -/
def s5lTimerTicksToIrq (t : S5lTimer) : Word :=
  if t.t4State &&& timer4StateStart = 0 then 0
  else if ¬timer4Pwm t then if t.t4Value ≠ 0 then t.t4Value else t.t4Count
  else
    match timer4Next t with
    | none => 0
    | some next => if next > 2 ^ 32 - 1 then -1 else BitVec.ofNat 32 next

end S5LBox.Soc
