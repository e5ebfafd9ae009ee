import S5LBox.Arm.Transparency
import S5LBox.Media.Block

/-!
# The memory-disk bridge

The patched guest calls the original `bcopy_phys` ABI at two Thumb SVC sites (`md_bridge.c`): the
source in `r1:r0`, the destination in `r3:r2` and the length in the word at `sp`. One operand of
them is in the aperture that stands for the media, the other in guest RAM. The handler is written
as its checks, its translation of the stack, its operands and its transfer. The core and its bus
are there, and the trace of the completed writes, which nothing of the machine reads, is left out.

## Main definitions

* `MdBridgeConfig`, `mdBridgeConfigValid`.
* `mdBridgeRequest`: what an SVC asks for.
* `mdBridgeHandleSvc`: the handler.
-/

namespace S5LBox.Media

/-- `MD_BRIDGE_PAGE_SIZE`, which is also `MD_BRIDGE_MAX_TRANSFER`. -/
def mdBridgePageSize : BitVec 64 := 4096

/-- `MD_BRIDGE_ADDRESS_SPACE_SIZE`. -/
def mdBridgeAddressSpaceSize : BitVec 64 := 0x100000000

/-- What lies behind the bus, as the bridge sees it: the guest RAM, and everything else that the
platform and the host keep. -/
structure Board (η : Type) where
  ram : Octets
  host : η

inductive MdBridgeDirection
  | none
  | read
  | write
  deriving DecidableEq, Repr

/-- A site: the address of an SVC, and its halfword. -/
structure MdBridgeSite where
  pc : Word
  encoding : Word
  deriving DecidableEq, Repr

/-- `md_bridge_config_t`. -/
structure MdBridgeConfig (η : Type) where
  readSite : MdBridgeSite
  writeSite : MdBridgeSite
  tokenBase : BitVec 64
  mediaSize : BitVec 64
  ramBase : BitVec 64
  ramSize : BitVec 64
  block : VmBlock η
  cancelled : Option (η → Bool × η) := none
  ramChanged : Option (η → Word → Word → η) := none

structure MdBridgeStats where
  successfulReads : BitVec 64 := 0
  successfulWrites : BitVec 64 := 0
  bytesRead : BitVec 64 := 0
  bytesWritten : BitVec 64 := 0
  failures : BitVec 64 := 0
  deriving DecidableEq, Repr

/-- `md_bridge_error_code_t`, less the codes of a missing core and of a missing bus. -/
inductive MdBridgeErrorCode
  | none
  | invalidMode
  | invalidConfig
  | stackAlignment
  | stackPage
  | stackTranslation
  | stackRange
  | addressHigh
  | length
  | tokenRange
  | guestRange
  | tokenPage
  | guestPage
  | blockIo
  deriving DecidableEq, Repr

/-- `md_bridge_error_t`: what a service has come to know of its request. -/
structure MdBridgeError where
  code : MdBridgeErrorCode := .none
  direction : MdBridgeDirection := .none
  pc : Word := 0
  encoding : Word := 0
  stackVa : Word := 0
  stackPa : Word := 0
  mmuStatus : Word := 0
  length : Word := 0
  source : BitVec 64 := 0
  destination : BitVec 64 := 0
  mediaOffset : BitVec 64 := 0
  transferred : Nat := 0
  blockStatus : VmBlockStatus := .ok
  deriving DecidableEq, Repr

/-- `md_bridge_t`. -/
structure MdBridge (η : Type) where
  config : MdBridgeConfig η
  stats : MdBridgeStats := {}
  lastError : MdBridgeError := {}
  scratch : Octets := fun _ => 0

variable {η : Type}

/-! ### Ranges -/

/-- `add_saturating_u64`. -/
def addSaturatingU64 (a b : BitVec 64) : BitVec 64 :=
  if BitVec.allOnes 64 - a < b then BitVec.allOnes 64 else a + b

/-- `range_end_32`. -/
def rangeEnd32 (base size : BitVec 64) : Option (BitVec 64) :=
  if size = 0 ∨ base ≥ mdBridgeAddressSpaceSize ∨ size > mdBridgeAddressSpaceSize - base then none
  else some (base + size)

/-- `token_range_end`. -/
def tokenRangeEnd (base size : BitVec 64) : Option (BitVec 64) :=
  if size = 0 ∨ base ≥ mdBridgeAddressSpaceSize ∨ size > BitVec.allOnes 64 - base then none
  else some (base + size)

/-- `range_contains`. -/
def rangeContains (base size address length : BitVec 64) : Bool :=
  if address < base ∨ length > size then false else decide (address - base ≤ size - length)

/-- `range_fits_page`. -/
def rangeFitsPage (address : BitVec 64) (length : Word) : Bool :=
  decide (length.setWidth 64 ≤ mdBridgePageSize - (address &&& (mdBridgePageSize - 1)))

/-- `md_bridge_config_valid`. -/
def mdBridgeConfigValid (c : MdBridgeConfig η) : Bool :=
  let low : BitVec 64 := mdBridgePageSize - 1
  if c.block.readAt.isNone ∨ c.block.writeAt.isNone then false
  else if c.readSite.pc > 0xffffffff - 2 ∨ c.writeSite.pc > 0xffffffff - 2 ∨
      (c.readSite.pc.setWidth 64 < c.writeSite.pc.setWidth 64 + (4 : BitVec 64) ∧
        c.writeSite.pc.setWidth 64 < c.readSite.pc.setWidth 64 + (4 : BitVec 64)) then false
  else if c.readSite.pc &&& 1 ≠ 0 ∨ c.writeSite.pc &&& 1 ≠ 0 then false
  else if c.readSite.encoding > 0xffff ∨ c.writeSite.encoding > 0xffff ∨
      c.readSite.encoding &&& 0xff00 ≠ 0xdf00 ∨ c.writeSite.encoding &&& 0xff00 ≠ 0xdf00 ∨
      c.readSite.encoding = c.writeSite.encoding then false
  else if c.tokenBase &&& low ≠ 0 ∨ c.mediaSize &&& low ≠ 0 ∨ c.ramBase &&& low ≠ 0 ∨
      c.ramSize &&& low ≠ 0 then false
  else
    match tokenRangeEnd c.tokenBase c.mediaSize, rangeEnd32 c.ramBase c.ramSize with
    | some tokenEnd, some ramEnd =>
      if c.tokenBase < ramEnd ∧ c.ramBase < tokenEnd then false
      else c.block.size == c.mediaSize
    | _, _ => false

/-! ### The request -/

/-- `identify_site`. -/
def identifySite (c : MdBridgeConfig η) (pc encoding : Word) : MdBridgeDirection :=
  if pc = c.readSite.pc ∧ encoding = c.readSite.encoding then .read
  else if pc = c.writeSite.pc ∧ encoding = c.writeSite.encoding then .write
  else .none

/-- What an SVC is found to ask for: nothing of the bridge, something that is refused, or a
transfer. -/
inductive MdRequest
  | unhandled
  | refused (error : MdBridgeError)
  | ready (error : MdBridgeError)
  deriving DecidableEq, Repr

/-- The guest's operand of a transfer. -/
def MdBridgeError.guest (e : MdBridgeError) : BitVec 64 :=
  if e.direction = .read then e.destination else e.source

/-- The operand in the aperture of the media. -/
def MdBridgeError.token (e : MdBridgeError) : BitVec 64 :=
  if e.direction = .read then e.source else e.destination

/-- A refusal with a code. -/
def MdBridgeError.refuse (e : MdBridgeError) (code : MdBridgeErrorCode) : MdRequest :=
  .refused { e with code := code }

/-- The checks before the stack is translated. -/
def mdBridgeChecks (c : MdBridgeConfig η) (cpu : ArmCpu) (pc encoding : Word) : MdRequest :=
  let direction := identifySite c pc encoding
  let error : MdBridgeError := { direction, pc, encoding }
  if direction = .none then .unhandled
  else if cpu.cpsr &&& armCpsrT = 0 then .unhandled
  else if cpu.mode = armModeUsr then .unhandled
  else if !armModeIsValid cpu.mode then error.refuse .invalidMode
  else if !mdBridgeConfigValid c then error.refuse .invalidConfig
  else
    let error := { error with stackVa := cpu.r 13 }
    if !rangeFitsPage (error.stackVa.setWidth 64) 4 then error.refuse .stackPage
    else if error.stackVa &&& 3 ≠ 0 then error.refuse .stackAlignment
    else .ready error

/-- The word at an offset. -/
def ld32 (ram : Octets) (o : Nat) : Word := ram (o + 3) ++ ram (o + 2) ++ ram (o + 1) ++ ram o

/-- The operands of the service, once its stack has been translated. -/
def mdBridgeOperands (c : MdBridgeConfig η) (cpu : ArmCpu) (ram : Octets)
    (error : MdBridgeError) : MdRequest :=
  let stackPa : BitVec 64 := error.stackPa.setWidth 64
  if !rangeContains c.ramBase c.ramSize stackPa 4 then error.refuse .stackRange
  else
    let error := { error with
      length := ld32 ram (stackPa - c.ramBase).toNat
      source := cpu.r 1 ++ cpu.r 0
      destination := cpu.r 3 ++ cpu.r 2 }
    let length : BitVec 64 := error.length.setWidth 64
    if error.length = 0 ∨ length > mdBridgePageSize then error.refuse .length
    -- A token may cross 4 GiB; what is real RAM may not.
    else if error.guest.ushiftRight 32 ≠ 0 then error.refuse .addressHigh
    else if !rangeContains c.tokenBase c.mediaSize error.token length then
      error.refuse .tokenRange
    else if !rangeContains c.ramBase c.ramSize error.guest length then error.refuse .guestRange
    else if !rangeFitsPage error.token error.length then error.refuse .tokenPage
    else if !rangeFitsPage error.guest error.length then error.refuse .guestPage
    else .ready { error with mediaOffset := error.token - c.tokenBase }

/-- What an SVC asks for. Its stack is translated on the way. -/
def mdBridgeRequest (B : ArmBus (Board η)) (c : MdBridgeConfig η) (pc encoding : Word)
    (s : Sys (Board η)) : MdRequest × Sys (Board η) :=
  match mdBridgeChecks c s.cpu pc encoding with
  | .ready error =>
    let t := Exec.armMmuTranslate B error.stackVa .read true 0 s
    let error := { error with stackPa := t.1.2, mmuStatus := t.1.1 }
    if t.1.1 ≠ 0 then (error.refuse .stackTranslation, t.2)
    else (mdBridgeOperands c t.2.cpu t.2.bus.ram error, t.2)
  | request => (request, s)

/-! ### The service -/

/-- `fail`. -/
def MdBridge.fail (b : MdBridge η) (error : MdBridgeError) : MdBridge η :=
  { b with
    lastError := error
    stats := { b.stats with failures := addSaturatingU64 b.stats.failures 1 } }

/-- The count of a read. -/
def MdBridge.countRead (b : MdBridge η) (length : BitVec 64) : MdBridge η :=
  { b with
    stats := { b.stats with
      successfulReads := addSaturatingU64 b.stats.successfulReads 1
      bytesRead := addSaturatingU64 b.stats.bytesRead length } }

/-- The count of a write. -/
def MdBridge.countWrite (b : MdBridge η) (length : BitVec 64) : MdBridge η :=
  { b with
    stats := { b.stats with
      successfulWrites := addSaturatingU64 b.stats.successfulWrites 1
      bytesWritten := addSaturatingU64 b.stats.bytesWritten length } }

theorem MdBridge.fail_config (b : MdBridge η) (e : MdBridgeError) :
    (b.fail e).config = b.config := by
  obtain ⟨config, _, _, _⟩ := b
  exact Eq.refl config

theorem MdBridge.countRead_config (b : MdBridge η) (length : BitVec 64) :
    (b.countRead length).config = b.config := by
  obtain ⟨config, _, _, _⟩ := b
  exact Eq.refl config

theorem MdBridge.countWrite_config (b : MdBridge η) (length : BitVec 64) :
    (b.countWrite length).config = b.config := by
  obtain ⟨config, _, _, _⟩ := b
  exact Eq.refl config

/-- The offset in RAM of the guest's operand. -/
def MdBridgeConfig.ramOffset (c : MdBridgeConfig η) (e : MdBridgeError) : Nat :=
  (e.guest - c.ramBase).toNat

/-- The notice of a change of RAM (`ram_changed`). -/
def MdBridgeConfig.notice (c : MdBridgeConfig η) (e : MdBridgeError) (h : η) : η :=
  match c.ramChanged with
  | some f => f h (e.guest.setWidth 32) e.length
  | none => h

/-- A read: the block is staged, and published only when it is complete. -/
def mdBridgeRead (b : MdBridge η) (e : MdBridgeError) (m : Board η) :
    ArmSvcResult × MdBridge η × Board η :=
  let c := b.config
  let length : BitVec 64 := e.length.setWidth 64
  if c.block.readAt.isNone then (.error, b.fail { e with code := .invalidConfig }, m)
  else
    let r := vmBlockReadExact c.block e.mediaOffset b.scratch length c.cancelled m.host
    let e := { e with blockStatus := r.status, transferred := r.transferred }
    let b := { b with scratch := r.state.1 }
    if r.status ≠ .ok then
      (.error, b.fail { e with code := .blockIo }, { m with host := r.state.2 })
    else
      (.handled,
        b.countRead length,
        { ram := memcpy m.ram (c.ramOffset e) b.scratch e.length.toNat
          host := c.notice e r.state.2 })

/-- The staging buffer with the guest's octets in it. -/
def MdBridge.staged (b : MdBridge η) (e : MdBridgeError) (m : Board η) : Octets :=
  memcpy b.scratch 0 (fun i => m.ram (b.config.ramOffset e + i)) e.length.toNat

/-- A write: RAM is staged, and the staged octets are written. -/
def mdBridgeWrite (b : MdBridge η) (e : MdBridgeError) (m : Board η) :
    ArmSvcResult × MdBridge η × Board η :=
  let c := b.config
  let length : BitVec 64 := e.length.setWidth 64
  if c.block.writeAt.isNone then (.error, b.fail { e with code := .invalidConfig }, m)
  else
    let r := vmBlockWriteExact c.block e.mediaOffset (b.staged e m) length c.cancelled m.host
    let e := { e with blockStatus := r.status, transferred := r.transferred }
    let b := { b with scratch := b.staged e m }
    let m := { m with host := r.state }
    if r.status ≠ .ok then (.error, b.fail { e with code := .blockIo }, m)
    else
      (.handled, b.countWrite length, m)

/-- The transfer of a request. -/
def mdBridgeTransfer (b : MdBridge η) (e : MdBridgeError) (m : Board η) :
    ArmSvcResult × MdBridge η × Board η :=
  if e.direction = .read then mdBridgeRead b e m else mdBridgeWrite b e m

/-- What a transfer leaves of the machine. -/
def transferred (s : Sys (Board η)) (r : ArmSvcResult × MdBridge η × Board η) :
    ArmSvcResult × MdBridge η × Sys (Board η) :=
  (r.1, r.2.1, { s with bus := r.2.2, era := r.2.2 :: s.era })

/-- `md_bridge_handle_svc`. -/
def mdBridgeHandleSvc (B : ArmBus (Board η)) (b : MdBridge η) (pc encoding : Word)
    (s : Sys (Board η)) : ArmSvcResult × MdBridge η × Sys (Board η) :=
  match mdBridgeRequest B b.config pc encoding s with
  | (.unhandled, s) => (.unhandled, b, s)
  | (.refused e, s) => (.error, b.fail e, s)
  | (.ready e, s) => transferred s (mdBridgeTransfer b e s.bus)

end S5LBox.Media
