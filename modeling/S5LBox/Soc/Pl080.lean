import S5LBox.Arm.Cpu

/-!
# The DMA controller

`pl080.c`: eight channels that each follow a linked list of transfers. A channel stops where a
request line does not answer, with its registers describing how far it got, and goes on from them
in the next run. The bytes between a source and a destination of different widths are staged in a
local variable, so it only stops where nothing is staged.

## Main definitions

* `DmaBus`: the bus that the controller is given.
* `S5lPl080`: the controller; `Engine`: one of its channels while it runs.
* `runItem`, `runChannel`, `s5lPl080Run`: one item, one channel, and one run of the controller.
-/

namespace S5LBox.Soc

/-! ### The bus and the request lines -/

variable {σ ρ : Type}

/-- The callbacks of `arm_bus_t` that the controller uses, over the state behind them. One that is
missing answers zero and does nothing. -/
structure DmaBus (σ : Type) where
  read8 : σ → Word → Byte × σ
  read16 : σ → Word → BitVec 16 × σ
  read32 : σ → Word → Word × σ
  write8 : σ → Word → Byte → σ
  write16 : σ → Word → BitVec 16 → σ
  write32 : σ → Word → Word → σ

/-- `bus_load`. -/
def busLoad (bus : DmaBus σ) (s : σ) (addr : Word) (width : Nat) : Word × σ :=
  match width with
  | 1 => ((bus.read8 s addr).1.setWidth 32, (bus.read8 s addr).2)
  | 2 => ((bus.read16 s addr).1.setWidth 32, (bus.read16 s addr).2)
  | _ => bus.read32 s addr

/-- `bus_store`. -/
def busStore (bus : DmaBus σ) (s : σ) (addr v : Word) (width : Nat) : σ :=
  match width with
  | 1 => bus.write8 s addr (v.setWidth 8)
  | 2 => bus.write16 s addr (v.setWidth 16)
  | _ => bus.write32 s addr v

/-- `s5l_pl080_ready_fn`, over the state behind the request lines: the address, the width, and
whether the source is asked. -/
abbrev ReadyFn (ρ : Type) : Type := ρ → Word → Nat → Bool → Bool × ρ

/-- What a channel does to the bus: a transfer's load and store, and a word of the next item. -/
inductive Access where
  | load (addr : Word) (width : Nat) (v : Word)
  | store (addr : Word) (width : Nat) (v : Word)
  | fetch (addr v : Word)
  deriving DecidableEq

/-! ### The controller -/

abbrev pl080Channels : Nat := 8
def pl080MaxItems : Nat := 1024

def pl080ConfigEn : Word := 0x1
def pl080CfgEn : Word := 0x1
def pl080CfgFlowMask : Word := 0x3800
def pl080CfgIe : Word := 0x4000
def pl080CfgItc : Word := 0x8000
def pl080CfgHalt : Word := 0x40000

def pl080CtrlSizeMask : Word := 0xfff
def pl080CtrlWidthMask : Word := 7
def pl080CtrlSi : Word := 0x04000000
def pl080CtrlDi : Word := 0x08000000
def pl080CtrlI : Word := 0x80000000

/-- `s5l_pl080_chan_t`. -/
structure Pl080Chan where
  src : Word := 0
  dst : Word := 0
  lli : Word := 0
  ctrl : Word := 0
  cfg : Word := 0
  runs : BitVec 64 := 0
  bytes : BitVec 64 := 0
  deriving DecidableEq

/-- `s5l_pl080_t`, less what only its register window counts. -/
structure S5lPl080 where
  ch : Fin pl080Channels → Pl080Chan := fun _ => {}
  config : Word := 0
  rawTc : Word := 0
  rawErr : Word := 0
  transfers : BitVec 64 := 0
  bytesMoved : BitVec 64 := 0
  items : BitVec 64 := 0
  completions : BitVec 64 := 0
  refusedFlow : BitVec 64 := 0
  refusedWidth : BitVec 64 := 0
  refusedChain : BitVec 64 := 0

/-- The channels of a status whose mask bit is set in their configuration. -/
def maskedStatus (d : S5lPl080) (raw mask : Word) : Word :=
  (List.finRange pl080Channels).foldl
    (fun (v : Word) (i : Fin pl080Channels) =>
      if raw &&& BitVec.twoPow 32 i.val ≠ 0 ∧ (d.ch i).cfg &&& mask ≠ 0 then
        v ||| BitVec.twoPow 32 i.val
      else v) 0

/-- `s5l_pl080_irq`, over `masked_tc` and `masked_err`. -/
def s5lPl080Irq (d : S5lPl080) : Bool :=
  maskedStatus d d.rawTc pl080CfgItc ||| maskedStatus d d.rawErr pl080CfgIe != 0

/-! ### One item -/

/-- A channel while it runs: the controller, the registers of the channel, the bus, and what the
channel has done to it. -/
structure Engine (σ : Type) where
  d : S5lPl080
  ch : Pl080Chan
  bus : σ
  log : List Access

/-- What the registers say about an item. -/
structure Item where
  swidth : Nat
  dwidth : Nat
  flow : Nat
  si : Bool
  di : Bool

def ctrlSwidth (ctrl : Word) : Nat := (ctrl >>> 18 &&& pl080CtrlWidthMask).toNat
def ctrlDwidth (ctrl : Word) : Nat := (ctrl >>> 21 &&& pl080CtrlWidthMask).toNat
def ctrlSize (ctrl : Word) : Nat := (ctrl &&& pl080CtrlSizeMask).toNat
def cfgFlow (cfg : Word) : Nat := ((cfg &&& pl080CfgFlowMask) >>> 11).toNat

def itemOf (ch : Pl080Chan) : Item :=
  { swidth := 2 ^ ctrlSwidth ch.ctrl
    dwidth := 2 ^ ctrlDwidth ch.ctrl
    flow := cfgFlow ch.cfg
    si := ch.ctrl &&& pl080CtrlSi != 0
    di := ch.ctrl &&& pl080CtrlDi != 0 }

/-- The control register with the count of transfers that are left. -/
def ctrlWithSize (ctrl : Word) (n : Nat) : Word :=
  (ctrl &&& ~~~pl080CtrlSizeMask) ||| BitVec.ofNat 32 n

/-- The channel with its enable bit cleared. -/
def Pl080Chan.disable (ch : Pl080Chan) : Pl080Chan := { ch with cfg := ch.cfg &&& ~~~pl080CfgEn }

/-- One transfer from the source, with `n` left after it; the value joins the staged bytes. -/
def takeSource (bus : DmaBus σ) (it : Item) (n pend pendBytes : Nat) (e : Engine σ) :
    Nat × Engine σ :=
  let (v, s) := busLoad bus e.bus e.ch.src it.swidth
  (pend ||| v.toNat <<< (8 * pendBytes),
    { d := { e.d with transfers := e.d.transfers + 1 }
      ch := { e.ch with
        src := if it.si then e.ch.src + BitVec.ofNat 32 it.swidth else e.ch.src
        ctrl := ctrlWithSize e.ch.ctrl n }
      bus := s
      log := e.log ++ [.load e.ch.src it.swidth v] })

/-- One transfer to the destination, of the lowest staged bytes. -/
def putDestination (bus : DmaBus σ) (it : Item) (pend : Nat) (e : Engine σ) : Engine σ :=
  let v := BitVec.ofNat 32 (pend &&& (1 <<< (8 * it.dwidth) - 1))
  { d := { e.d with bytesMoved := e.d.bytesMoved + BitVec.ofNat 64 it.dwidth }
    ch := { e.ch with
      dst := if it.di then e.ch.dst + BitVec.ofNat 32 it.dwidth else e.ch.dst
      bytes := e.ch.bytes + BitVec.ofNat 64 it.dwidth }
    bus := busStore bus e.bus e.ch.dst v it.dwidth
    log := e.log ++ [.store e.ch.dst it.dwidth v] }

/-- The inner loop of `run_item`, for the number of times that the staged bytes fill a transfer. -/
def drain (bus : DmaBus σ) (it : Item) : Nat → Nat → Engine σ → Nat × Engine σ
  | 0, pend, e => (pend, e)
  | k + 1, pend, e => drain bus it k (pend >>> (8 * it.dwidth)) (putDestination bus it pend e)

/-- The request lines of an item are asked; without a function they always answer. -/
def requested (ready : Option (ReadyFn ρ)) (it : Item) (ch : Pl080Chan) (r : ρ) : Bool × ρ :=
  match ready with
  | none => (true, r)
  | some ready =>
    let (source, r) := if it.flow < 2 then (true, r) else ready r ch.src it.swidth true
    let (destination, r) := if it.flow % 2 = 0 then (true, r) else ready r ch.dst it.dwidth false
    (source && destination, r)

/-- The loop of `run_item`, with `n` source transfers left: whether it has stalled. -/
def transfers (bus : DmaBus σ) (ready : Option (ReadyFn ρ)) (it : Item) :
    Nat → Nat → Nat → ρ → Engine σ → Bool × ρ × Engine σ
  | 0, _, _, r, e => (false, r, e)
  | n + 1, pend, pendBytes, r, e =>
    -- Only where nothing is staged: a stop would lose what is.
    let (granted, r) := if pendBytes = 0 then requested ready it e.ch r else (true, r)
    if granted then
      let (pend, e) := takeSource bus it n pend pendBytes e
      let pendBytes := pendBytes + it.swidth
      let (pend, e) := drain bus it (pendBytes / it.dwidth) pend e
      transfers bus ready it n pend (pendBytes % it.dwidth) r e
    else (true, r, e)

/-- One word of the next item. -/
def fetchWord (bus : DmaBus σ) (addr : Word) (e : Engine σ) : Word × Engine σ :=
  let (v, s) := bus.read32 e.bus addr
  (v, { e with bus := s, log := e.log ++ [.fetch addr v] })

/-- The end of `run_item`: the item has been moved. The first part says whether there is another
one. -/
def finishItem (bus : DmaBus σ) (c : Fin pl080Channels) (e : Engine σ) : Bool × Engine σ :=
  let terminal : Bool := e.ch.ctrl &&& pl080CtrlI != 0
  let e := { e with
    d := { e.d with
      items := e.d.items + 1
      rawTc := if terminal then e.d.rawTc ||| BitVec.twoPow 32 c else e.d.rawTc
      completions := if terminal then e.d.completions + 1 else e.d.completions }
    ch := { e.ch with runs := e.ch.runs + 1 } }
  if e.ch.lli = 0 then (false, { e with ch := e.ch.disable })
  else
    let at' := e.ch.lli &&& ~~~(3 : Word)
    let (src, e) := fetchWord bus at' e
    let (dst, e) := fetchWord bus (at' + 4) e
    let (lli, e) := fetchWord bus (at' + 8) e
    let (ctrl, e) := fetchWord bus (at' + 12) e
    (true, { e with ch := { e.ch with src, dst, lli, ctrl } })

/-- An item that the controller does not move. -/
def refuseItem (ch : Pl080Chan) (d : S5lPl080) : Option S5lPl080 :=
  let it := itemOf ch
  if ctrlSwidth ch.ctrl > 2 ∨ ctrlDwidth ch.ctrl > 2 then
    some { d with refusedWidth := d.refusedWidth + 1 }
  else if it.flow > 3 then some { d with refusedFlow := d.refusedFlow + 1 }
  else if ctrlSize ch.ctrl * it.swidth % it.dwidth ≠ 0 then
    -- The rest would be left in a queue that the model does not have.
    some { d with refusedWidth := d.refusedWidth + 1 }
  else none

/-- `run_item`: whether there is another item. -/
def runItem (bus : DmaBus σ) (ready : Option (ReadyFn ρ)) (c : Fin pl080Channels) (r : ρ)
    (e : Engine σ) : Bool × ρ × Engine σ :=
  match refuseItem e.ch e.d with
  | some d => (false, r, { e with d, ch := e.ch.disable })
  | none =>
    match transfers bus ready (itemOf e.ch) (ctrlSize e.ch.ctrl) 0 0 r e with
    | (true, r, e) => (false, r, e)
    | (false, r, e) =>
      let (again, e) := finishItem bus c e
      (again, r, e)

/-! ### The channels -/

/-- The loop of `s5l_pl080_run` over the items of one channel, with what is left of
`S5L_PL080_MAX_ITEMS`. -/
def runItems (bus : DmaBus σ) (ready : Option (ReadyFn ρ)) (c : Fin pl080Channels) :
    Nat → ρ → Engine σ → ρ × Engine σ
  | 0, r, e => (r, e)
  | left + 1, r, e =>
    match runItem bus ready c r e with
    | (false, r, e) => (r, e)
    | (true, r, e) =>
      if left = 0 then
        (r, { e with
          d := { e.d with refusedChain := e.d.refusedChain + 1 }
          ch := e.ch.disable })
      else runItems bus ready c left r e

/-- The controller with the bus and the request lines, and what each channel has done. -/
structure DmaWorld (σ ρ : Type) where
  d : S5lPl080
  bus : σ
  requests : ρ
  log : Fin pl080Channels → List Access := fun _ => []

/-- The channel is enabled and not halted. -/
def runnable (ch : Pl080Chan) : Bool := ch.cfg &&& (pl080CfgEn ||| pl080CfgHalt) == pl080CfgEn

/-- One channel of `s5l_pl080_run`. -/
def runChannel (bus : DmaBus σ) (ready : Option (ReadyFn ρ)) (w : DmaWorld σ ρ)
    (c : Fin pl080Channels) : DmaWorld σ ρ :=
  if runnable (w.d.ch c) then
    let (r, e) := runItems bus ready c pl080MaxItems w.requests
      { d := w.d, ch := w.d.ch c, bus := w.bus, log := w.log c }
    { d := { e.d with ch := Function.update e.d.ch c e.ch }
      bus := e.bus
      requests := r
      log := Function.update w.log c e.log }
  else w

/-- `s5l_pl080_run`. -/
def s5lPl080Run (bus : DmaBus σ) (ready : Option (ReadyFn ρ)) (w : DmaWorld σ ρ) :
    Bool × DmaWorld σ ρ :=
  let w :=
    if w.d.config &&& pl080ConfigEn ≠ 0 then
      (List.finRange pl080Channels).foldl (runChannel bus ready) w
    else w
  (s5lPl080Irq w.d, w)

end S5LBox.Soc
