import S5LBox.Soc.Gpioic

/-!
# The five buttons

`buttons.c` and the pin block of `gpioic.c`. Each of five switches is wired to a pin, which the
guest reads, and to a line of the GPIO interrupt controller. The host moves a switch only where the
guest can see the transition: its line is enabled, and the one before has been acknowledged.

## Main definitions

* `S5lGpio`, `s5lGpioDrive`: the pins.
* `S5lButtons`, `s5lButtonsSet`: the switches.
* `handlerFlip`, `handlerAck`: the guest's handler of an auto-flip line.
-/

namespace S5LBox.Soc

/-! ### The pins -/

def gpioPorts : Nat := 25
def gpioWords : Nat := 0x1000 / 4
def gpioWatchers : Nat := 4

/-- `s5l_gpio_watch_t`, less the context of its callback. -/
structure S5lGpioWatch where
  pin : BitVec 16 := 0
  armed : Bool := false
  /-- There is a callback. -/
  changed : Bool := false

/-- `s5l_gpio_t`. -/
structure S5lGpio where
  regs : Fin gpioWords → Word := fun _ => 0
  watch : Fin gpioWatchers → S5lGpioWatch := fun _ => {}

/-- `S5L_GPIO_PIN_REG`, as the index of a word. -/
def gpioPinReg (group : Fin gpioPorts) : Fin gpioWords :=
  ⟨(group.val * 32 + 4) / 4, by
    have hgroup : group.val < 25 := group.isLt
    change (group.val * 32 + 4) / 4 < 1024
    omega⟩

/-- `notify`: the watchers whose pin has moved, with its level now. -/
def notify (g : S5lGpio) (before : Fin gpioPorts → Word) : List (Fin gpioWatchers × Bool) :=
  (List.finRange gpioWatchers).filterMap fun w =>
    let watch := g.watch w
    if watch.armed && watch.changed then
      if h : watch.pin.toNat / 256 < gpioPorts then
        let group : Fin gpioPorts := ⟨_, h⟩
        let mask := lineBit watch.pin.toNat
        let now := g.regs (gpioPinReg group)
        if (before group ^^^ now) &&& mask ≠ 0 then some (w, now &&& mask != 0) else none
      else none
    else none

/-- `s5l_gpio_drive`: the watchers told, and the pins. -/
def s5lGpioDrive (g : S5lGpio) (pin : BitVec 16) (level : Bool) :
    List (Fin gpioWatchers × Bool) × S5lGpio :=
  let bitNo := pin.toNat % 256
  if h : pin.toNat / 256 < gpioPorts then
    if bitNo > 31 then ([], g)
    else
      let reg := gpioPinReg ⟨_, h⟩
      if bit (g.regs reg) bitNo = level then ([], g)
      else
        let before := fun group => g.regs (gpioPinReg group)
        let mask := BitVec.twoPow 32 bitNo
        let g := { g with
          regs := Function.update g.regs reg
            (if level then g.regs reg ||| mask else g.regs reg &&& ~~~mask) }
        (notify g before, g)
  else ([], g)

/-! ### The switches -/

abbrev buttonCount : Nat := 5

/-- A row of `WIRING`. -/
structure ButtonWiring where
  pin : BitVec 16
  line : Nat
  activeHigh : Bool
  inverts : Bool

/-- `WIRING`. -/
def wiring : Fin buttonCount → ButtonWiring
  | 0 => { pin := 0x1605, line := 45, activeHigh := true, inverts := false }
  | 1 => { pin := 0x1600, line := 40, activeHigh := true, inverts := false }
  | 2 => { pin := 0x1601, line := 41, activeHigh := false, inverts := false }
  | 3 => { pin := 0x1602, line := 42, activeHigh := false, inverts := false }
  | 4 => { pin := 0x1603, line := 43, activeHigh := false, inverts := true }

/-- `s5l_button_level`, of a button that exists. -/
def s5lButtonLevel (which : Fin buttonCount) (pressed : Bool) : Bool :=
  pressed == ((wiring which).activeHigh != (wiring which).inverts)

/-- `s5l_buttons_t`. -/
structure S5lButtons where
  pressed : Byte := 0
  sets : BitVec 64 := 0
  refused : BitVec 64 := 0
  edges : BitVec 64 := 0

/-- `s5l_buttons_held`, of a button that exists. -/
def s5lButtonsHeld (b : S5lButtons) (which : Fin buttonCount) : Bool :=
  b.pressed &&& BitVec.twoPow 8 which != 0

/-- The switches with the blocks at their two ends, and what the watchers have been told. -/
structure Board where
  buttons : S5lButtons := {}
  gpio : S5lGpio := {}
  gpioic : S5lGpioic := {}
  told : List (Fin gpioWatchers × Bool) := []

/-- The two ends of one switch. -/
def driveSwitch (s : Board) (which : Fin buttonCount) (level : Bool) : Board :=
  let (told, gpio) := s5lGpioDrive s.gpio (wiring which).pin level
  { s with
    gpio := gpio
    told := s.told ++ told
    gpioic := s5lGpioicSetLine s.gpioic (wiring which).line level }

/-- `s5l_buttons_set`. -/
def s5lButtonsSet (s : Board) (which : Nat) (pressed : Bool) : Bool × Board :=
  let refuse : Board :=
    { s with buttons := { s.buttons with refused := s.buttons.refused + 1 } }
  if h : which < buttonCount then
    let which : Fin buttonCount := ⟨which, h⟩
    let line := (wiring which).line
    let mask := BitVec.twoPow 8 which
    if s5lButtonsHeld s.buttons which = pressed then
      (true, { s with buttons := { s.buttons with sets := s.buttons.sets + 1 } })
    else if !bankBit s.gpioic.en line then (false, refuse)
    else if s5lGpioicPending s.gpioic line then (false, refuse)
    else
      let buttons := { s.buttons with
        pressed := if pressed then s.buttons.pressed ||| mask else s.buttons.pressed &&& ~~~mask
        sets := s.buttons.sets + 1
        edges := s.buttons.edges + 1 }
      (true, driveSwitch { s with buttons } which (s5lButtonLevel which pressed))
  else (false, refuse)

/-! ### The handler of the guest -/

/-- The handler inverts the polarity of the line that it serves. -/
def handlerFlip (g : S5lGpioic) (line : Nat) : S5lGpioic :=
  let off := gpioicIntlevel + BitVec.ofNat 32 (4 * (line / 32))
  s5lGpioicWrite g off ((s5lGpioicRead g off).1 ^^^ lineBit line)

/-- The handler acknowledges the line that it serves. -/
def handlerAck (g : S5lGpioic) (line : Nat) : S5lGpioic :=
  s5lGpioicWrite g (gpioicIntstat + BitVec.ofNat 32 (4 * (line / 32))) (lineBit line)

end S5LBox.Soc
