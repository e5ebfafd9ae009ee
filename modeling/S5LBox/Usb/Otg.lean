import S5LBox.Arm.Cpu
import S5LBox.Lib.Octets

/-!
# The USB device controller

`usbotg.c`: the registers of the controller, and the packets that the virtual host submits. An endpoint is programmed with an address in guest memory, a count of octets
and one of packets, and every packet that is acknowledged moves the octets at the address.

## Main definitions

* `S5lUsbotg`: the controller; `UsbMachine`: the machine around it.
* `s5l8900UsbPacket`: a packet.
-/

namespace S5LBox.Usb

open Octets

/-! ### The controller -/

abbrev usbEndpoints : Nat := 6

def epComplete : Word := 1

def epAhbError : Word := 4
def epSetup : Word := 8

def sizeBytes : Word := 0x7ffff
def sizePackets : Word := 0x1ff80000
def softDisconnect : Word := 2
def globalInNak : Word := 4
def globalOutNak : Word := 8

def usbotgEpEnable : Word := 0x80000000

def usbotgEpStall : Word := 0x00200000
def usbotgEpNak : Word := 0x00020000
def usbotgEpPid : Word := 0x00010000

/-- `s5l_usb_ep_t`. -/
structure UsbEp where
  ctl : Word := 0
  interrupt : Word := 0
  size : Word := 0
  dma : Word := 0
  deriving DecidableEq

/-- `s5l_usbotg_t`, as far as packets go. The endpoints are those to the host, `true`, and those from it. -/
structure S5lUsbotg where
  enabled : Bool := false
  connected : Bool := false
  gahbcfg : Word := 0
  dcfg : Word := 0
  dctl : Word := 0
  ep : Bool → Fin usbEndpoints → UsbEp := fun _ _ => {}

/-- The controller with one endpoint changed. -/
def S5lUsbotg.setEp (u : S5lUsbotg) (d : Bool) (n : Fin usbEndpoints) (e : UsbEp) : S5lUsbotg :=
  { u with ep := Function.update u.ep d (Function.update (u.ep d) n e) }

/-! ### Memory -/

/-- The machine around the controller, as far as a packet reaches. -/
structure UsbMachine where
  usbotg : S5lUsbotg
  ram : Buffer
  ramBase : Word
  ramSize : Word
  levelDirty : Bool
  length_ram : ram.length = ramSize.toNat

/-- `in_ram`. -/
def inRam (m : UsbMachine) (a : Word) (len : Nat) : Prop :=
  ¬a < m.ramBase ∧ (a - m.ramBase).toNat + len ≤ m.ramSize.toNat

instance (m : UsbMachine) (a : Word) (len : Nat) : Decidable (inRam m a len) :=
  inferInstanceAs (Decidable (_ ∧ _))

/-- `s5l8900_load`. -/
def s5l8900Load (m : UsbMachine) (addr : Word) (data : List Byte) : UsbMachine :=
  if data = [] ∨ data.length > 0xffffffff then m
  else if h : inRam m addr data.length then
    { m with
      ram := put m.ram (addr - m.ramBase).toNat data
      length_ram := by
        have hend := h.2
        rw [← m.length_ram] at hend ⊢
        exact length_put hend }
  else m

/-! ### Packets -/

/-- `s5l_usb_token_t`. -/
inductive UsbToken where
  | out | input | setup
  deriving DecidableEq

/-- `s5l_usb_result_t`. -/
inductive UsbResult where
  | ack | nak | stall | disconnected | invalid | dmaError
  deriving DecidableEq

/-- The arguments of a packet; the buffer, if there is one, holds as many octets as it says. -/
structure UsbCall where
  token : UsbToken
  ep : Nat
  data : Option (List Byte)
  length : Nat
  fits : ∀ bytes, data = some bytes → bytes.length = length

/-- What a packet comes to: the answer, the octets moved, the part of guest memory that has been
copied from or to, and the machine. -/
structure UsbOutcome where
  result : UsbResult
  data : List Byte
  access : Option (Nat × Nat)
  machine : UsbMachine

/-- A packet that is answered before anything is done. -/
def refuse (m : UsbMachine) (r : UsbResult) : UsbOutcome := ⟨r, [], none, m⟩

def usbMps (n : Fin usbEndpoints) (ctl : Word) : Nat :=
  if n = 0 then 64 >>> (ctl &&& 3).toNat else (ctl &&& 0x7ff).toNat

def usbRemaining (n : Fin usbEndpoints) (size : Word) : Nat :=
  (size &&& if n = 0 then 0x7f else sizeBytes).toNat

def usbPackets (size : Word) : Nat := ((size &&& sizePackets) >>> 19).toNat

/-- The guards of `s5l8900_usb_packet` once there is an endpoint: the answer, or the count of octets
to move. -/
def usbGuards (u : S5lUsbotg) (c : UsbCall) (n : Fin usbEndpoints) : Except UsbResult Nat :=
  let d : Bool := c.token = .input
  let setup : Bool := c.token = .setup
  let e := u.ep d n
  let mps := usbMps n e.ctl
  let remaining := usbRemaining n e.size
  if !setup && e.ctl &&& usbotgEpStall != 0 then .error .stall
  else if u.gahbcfg &&& 0x20 = 0 ∨ u.dcfg &&& 0x800000 ≠ 0 then .error .invalid
  else if e.ctl &&& usbotgEpEnable = 0 then .error .nak
  else if !setup && (e.ctl &&& usbotgEpNak != 0 ||
      u.dctl &&& (if d then globalInNak else globalOutNak) != 0) then .error .nak
  else if mps = 0 ∨ mps > 1024 ∨ (¬setup ∧ usbPackets e.size = 0) then .error .invalid
  else
    let count := if d then min remaining mps else c.length
    if d ∧ c.length < count then .error .invalid
    else if ¬d ∧ ¬setup ∧ (count > mps ∨ count > remaining) then .error .invalid
    else if setup ∧ (e.size >>> 29 = 0 ∨ remaining < 8) then .error .nak
    else .ok count

/-- The registers of the endpoint after a packet. -/
def ackEp (setup : Bool) (n : Fin usbEndpoints) (count : Nat) (e : UsbEp) : UsbEp :=
  let remaining := usbRemaining n e.size - count
  let packets := usbPackets e.size - 1
  let size := (e.size &&& ~~~(sizeBytes ||| sizePackets)) ||| BitVec.ofNat 32 remaining |||
    BitVec.ofNat 32 packets <<< 19
  let e' : UsbEp := { e with dma := e.dma + BitVec.ofNat 32 count, size }
  let e' : UsbEp :=
    if setup then
      { e' with
        size := size - 0x20000000
        ctl := e.ctl &&& ~~~usbotgEpStall &&& ~~~usbotgEpEnable
        interrupt := e.interrupt ||| epSetup }
    else if remaining = 0 ∨ packets = 0 ∨ count < usbMps n e.ctl then
      { e' with ctl := e.ctl &&& ~~~usbotgEpEnable, interrupt := e.interrupt ||| epComplete }
    else e'
  if n ≠ 0 then { e' with ctl := e'.ctl ^^^ usbotgEpPid } else e'

/-- What a SETUP packet does to the other direction. -/
def clearIn (e : UsbEp) : UsbEp :=
  { e with ctl := e.ctl &&& ~~~(usbotgEpStall ||| usbotgEpEnable), interrupt := 0 }

/-- The endpoints after a packet. -/
def ackUsb (u : S5lUsbotg) (token : UsbToken) (n : Fin usbEndpoints) (count : Nat) : S5lUsbotg :=
  let d : Bool := token = .input
  let u := u.setEp d n (ackEp (token = .setup) n count (u.ep d n))
  if token = .setup then u.setEp true 0 (clearIn (u.ep true 0)) else u

/-- `s5l8900_usb_packet`, up to the refresh that it ends with. -/
def usbPacket (m : UsbMachine) (c : UsbCall) : UsbOutcome :=
  if h : c.ep < usbEndpoints then
    if (c.length ≠ 0 ∧ c.data = none) ∨ (c.token = .setup ∧ (c.ep ≠ 0 ∨ c.length ≠ 8)) then
      refuse m .invalid
    else if ¬m.usbotg.enabled ∨ ¬m.usbotg.connected ∨ m.usbotg.dctl &&& softDisconnect ≠ 0 then
      refuse m .disconnected
    else
      let d : Bool := c.token = .input
      let n : Fin usbEndpoints := ⟨c.ep, h⟩
      let e := m.usbotg.ep d n
      match usbGuards m.usbotg c n with
      | .error r => refuse m r
      | .ok count =>
        let offset := (e.dma - m.ramBase).toNat
        if count ≠ 0 ∧ (e.dma < m.ramBase ∨ count > m.ramSize.toNat ∨
            offset + count > m.ramSize.toNat) then
          { result := .dmaError
            data := []
            access := none
            machine := { m with
              usbotg := m.usbotg.setEp d n { e with
                interrupt := e.interrupt ||| epAhbError
                ctl := e.ctl &&& ~~~usbotgEpEnable }
              levelDirty := true } }
        else
          let data := if d then (m.ram.drop offset).take count else c.data.getD []
          let m' := if count ≠ 0 ∧ ¬d then s5l8900Load m e.dma data else m
          { result := .ack
            data
            access := if count ≠ 0 then some (offset, count) else none
            machine := { m' with usbotg := ackUsb m.usbotg c.token n count, levelDirty := true } }
  else refuse m .invalid

/-- `s5l8900_usb_packet`: a packet that has done something ends with `s5l8900_tick`, which lets the
other devices of the machine see it. -/
def s5l8900UsbPacket (tick : UsbMachine → UsbMachine) (m : UsbMachine) (c : UsbCall) : UsbOutcome :=
  let o := usbPacket m c
  if o.result = .ack ∨ o.result = .dmaError then { o with machine := tick o.machine } else o

end S5LBox.Usb
