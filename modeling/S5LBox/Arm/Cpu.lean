import S5LBox.Lib.Bits

/-!
# The ARM1176 core: state, modes and register banks

The core keeps one window of sixteen live registers and parks the banked ones beside it
(`arm.h`). A mode change swaps `r13` and `r14` with the banks, and `r8`–`r12` as well when it
enters or leaves FIQ (`arm_set_mode`). This file has the state record, the mode and bank
functions and exception entry, all of which touch the core alone and never the bus.

The software translation caches are one field of the record, so that what a translation may
change is visible in the types.

## Main definitions

* `ArmCpu`: the state of the core (`arm_cpu_t`), without its bus.
* `armModeIsValid`, `armBankOfMode`, `armSetMode`: modes and banking.
* `regReadUser`, `regWriteUser`: the user view of the registers.
* `takeException`, `takePendingDataAbort`: exception entry.
-/

namespace S5LBox

/-- A 32-bit machine word. -/
abbrev Word := BitVec 32

/-- An octet. -/
abbrev Byte := BitVec 8

/-- The number of a general register. -/
abbrev RegNo := BitVec 4

/-- Bit `n` of a word. -/
abbrev bit (w : Word) (n : Nat) : Bool := w.getLsbD n

/-- The four-bit field of a word starting at bit `lo`. -/
abbrev field (w : Word) (lo : Nat) : RegNo := w.extractLsb' lo 4

/-! ### Status and control bits -/

def armCpsrN : Word := 0x80000000
def armCpsrZ : Word := 0x40000000
def armCpsrC : Word := 0x20000000
def armCpsrV : Word := 0x10000000
def armCpsrQ : Word := 0x08000000
def armCpsrE : Word := 0x00000200
def armCpsrA : Word := 0x00000100
def armCpsrI : Word := 0x00000080
def armCpsrF : Word := 0x00000040
def armCpsrT : Word := 0x00000020
def armCpsrModeMask : Word := 0x0000001f

def armSctlrM : Word := 0x00000001
def armSctlrA : Word := 0x00000002
def armSctlrS : Word := 0x00000100
def armSctlrR : Word := 0x00000200
def armSctlrV : Word := 0x00002000
def armSctlrU : Word := 0x00400000
def armSctlrXP : Word := 0x00800000
def armSctlrEE : Word := 0x02000000
def armSctlrFA : Word := 0x20000000

def armVecUndefined : Word := 0x04
def armVecSwi : Word := 0x08
def armVecPrefetch : Word := 0x0c
def armVecDataAbort : Word := 0x10
def armVecIrq : Word := 0x18
def armVecFiq : Word := 0x1c

def armModeUsr : Word := 0x10
def armModeFiq : Word := 0x11
def armModeIrq : Word := 0x12
def armModeSvc : Word := 0x13
def armModeAbt : Word := 0x17
def armModeUnd : Word := 0x1b
def armModeSys : Word := 0x1f

/-- The result of stepping the core (`arm_status_t`). -/
inductive ArmStatus
  | ok
  | undefined
  | halt
  | guestUndefined
  | restart
  deriving DecidableEq, Repr

/-- The register banks (`arm_bank_t`); User and System share one. -/
inductive ArmBank
  | usr
  | fiq
  | irq
  | svc
  | abt
  | und
  deriving DecidableEq, Repr

/-- The architecture variant of the core (`arm_arch_t`). -/
inductive ArmArch
  | v6Arm1176
  | v7Swift
  deriving DecidableEq, Repr

/-- What an access is for (`arm_access_t`). -/
inductive ArmAccess
  | read
  | write
  | fetch
  deriving DecidableEq, Repr

/-- The number the source gives an access kind. -/
def ArmAccess.code : ArmAccess → Word
  | .read => 0
  | .write => 1
  | .fetch => 2

/-! ### The state of the core -/

/-- The system control coprocessor (`arm_cp15_t`). -/
structure Cp15 where
  sctlr : Word := 0
  actlr : Word := 0
  cpacr : Word := 0
  ttbr0 : Word := 0
  ttbr1 : Word := 0
  ttbcr : Word := 0
  dacr : Word := 0
  dfsr : Word := 0
  ifsr : Word := 0
  dfar : Word := 0
  ifar : Word := 0
  fcsePid : Word := 0
  contextId : Word := 0
  tpidrurw : Word := 0
  tpidruro : Word := 0
  tpidrprw : Word := 0
  deriving DecidableEq

/-- An entry of the translation cache: the verdict of one walk, faults included. -/
structure TlbEntry where
  gen : Word := 0
  tag : Word := 0
  pa : Word := 0
  fsr : Word := 0
  deriving DecidableEq

/-- An entry of a data block cache; `host` is a host address, `none` the null pointer. -/
structure BlockEntry where
  host : Option Nat := none
  tag : Word := 0
  gen : Word := 0
  deriving DecidableEq

/-- The registers a cached translation was walked under. -/
structure TlbStamp where
  sctlr : Word := 0
  ttbr0 : Word := 0
  ttbr1 : Word := 0
  ttbcr : Word := 0
  dacr : Word := 0
  contextId : Word := 0
  deriving DecidableEq

/-- The derived, host-only part of `arm_cpu_t`: the translation cache, the fetch block and the
two data block caches, with their counters. -/
structure TransCache where
  tlb : BitVec 12 → TlbEntry := fun _ => {}
  tlbGen : Word := 0
  tlbStamp : TlbStamp := {}
  fetchHost : Option Nat := none
  fetchBlk : Word := 0
  fetchGen : Word := 0
  fetchPriv : Bool := false
  dread : BitVec 12 → BlockEntry := fun _ => {}
  dwrite : BitVec 12 → BlockEntry := fun _ => {}
  tlbHits : BitVec 64 := 0
  tlbMisses : BitVec 64 := 0
  tlbFlushes : BitVec 64 := 0
  dreadHits : BitVec 64 := 0
  dreadMisses : BitVec 64 := 0
  dwriteHits : BitVec 64 := 0
  dwriteMisses : BitVec 64 := 0

/-- The core (`arm_cpu_t`), every field zero by default. -/
structure ArmCpu where
  r : RegNo → Word := fun _ => 0
  arch : ArmArch := .v6Arm1176
  cpsr : Word := 0
  cp15 : Cp15 := {}
  spsr : ArmBank → Word := fun _ => 0
  bankR13 : ArmBank → Word := fun _ => 0
  bankR14 : ArmBank → Word := fun _ => 0
  fiqR8_12 : Fin 5 → Word := fun _ => 0
  usrR8_12 : Fin 5 → Word := fun _ => 0
  cycles : BitVec 64 := 0
  abortPending : Bool := false
  abortFsr : Word := 0
  abortFar : Word := 0
  irqLine : Bool := false
  fiqLine : Bool := false
  exclValid : Bool := false
  exclAddr : Word := 0
  vfpFpexc : Word := 0
  vfpFpscr : Word := 0
  vfpS : BitVec 5 → Word := fun _ => 0
  cache : TransCache := {}

namespace ArmCpu

/-- The core with register `n` set. -/
def setR (c : ArmCpu) (n : RegNo) (v : Word) : ArmCpu := { c with r := Function.update c.r n v }

/-- The core with another program status register. -/
def setCpsr (c : ArmCpu) (v : Word) : ArmCpu := { c with cpsr := v }

/-- `get_flag`: some bit of the mask is set in the status register. -/
def getFlag (c : ArmCpu) (m : Word) : Bool := c.cpsr &&& m != 0

/-- `set_flag`: set or clear the bits of the mask. -/
def setFlag (c : ArmCpu) (m : Word) (on : Bool) : ArmCpu :=
  c.setCpsr (if on then c.cpsr ||| m else c.cpsr &&& ~~~m)

/-- The mode field of the status register. -/
abbrev mode (c : ArmCpu) : Word := c.cpsr &&& armCpsrModeMask

end ArmCpu

/-- `cpu_is_priv`: the core is not in User mode. -/
def cpuIsPriv (c : ArmCpu) : Bool := c.mode != armModeUsr

/-! ### Modes and banks -/

/-- `arm_mode_is_valid`: the mode field names a mode of this core. -/
def armModeIsValid (mode : Word) : Bool :=
  let m := mode &&& armCpsrModeMask
  m == armModeUsr || m == armModeFiq || m == armModeIrq || m == armModeSvc ||
    m == armModeAbt || m == armModeUnd || m == armModeSys

/-- `arm_bank_of_mode`: the bank a mode value selects. -/
def armBankOfMode (mode : Word) : ArmBank :=
  let m := mode &&& armCpsrModeMask
  if m = armModeFiq then .fiq
  else if m = armModeIrq then .irq
  else if m = armModeSvc then .svc
  else if m = armModeAbt then .abt
  else if m = armModeUnd then .und
  else .usr

/-- The place of `r8`–`r12` in the FIQ windows. -/
def fiqWindow (n : RegNo) : Option (Fin 5) :=
  if h : 8 ≤ n.toNat ∧ n.toNat ≤ 12 then some ⟨n.toNat - 8, by omega⟩ else none

/-- The live registers with `r8`–`r12` taken from a window. -/
def loadWindow (r : RegNo → Word) (w : Fin 5 → Word) (n : RegNo) : Word :=
  match fiqWindow n with
  | some i => w i
  | none => r n

/-- The window of `r8`–`r12` in the live registers. -/
def saveWindow (r : RegNo → Word) (i : Fin 5) : Word := r (BitVec.ofNat 4 (8 + i.val))

/-- Park the outgoing bank and load the incoming one, for two different banks. -/
def armSwapBank (c : ArmCpu) (ob nb : ArmBank) : ArmCpu :=
  let c := { c with
    bankR13 := Function.update c.bankR13 ob (c.r 13)
    bankR14 := Function.update c.bankR14 ob (c.r 14) }
  let c :=
    if ob = .fiq then
      { c with fiqR8_12 := saveWindow c.r, r := loadWindow c.r c.usrR8_12 }
    else if nb = .fiq then
      { c with usrR8_12 := saveWindow c.r, r := loadWindow c.r c.fiqR8_12 }
    else c
  (c.setR 13 (c.bankR13 nb)).setR 14 (c.bankR14 nb)

/-- `arm_set_mode`: switch mode, swapping the banked registers; an invalid mode is ignored. -/
def armSetMode (c : ArmCpu) (mode : Word) : ArmCpu :=
  let mode := mode &&& armCpsrModeMask
  if armModeIsValid mode then
    let ob := armBankOfMode c.mode
    let nb := armBankOfMode mode
    let c := if ob = nb then c else armSwapBank c ob nb
    c.setCpsr ((c.cpsr &&& ~~~armCpsrModeMask) ||| mode)
  else c

/-- `reg_read`: register fifteen reads as the address of the instruction plus eight. -/
def regRead (c : ArmCpu) (pc : Word) (n : RegNo) : Word := if n = 15 then pc + 8 else c.r n

/-- `reg_read_user`: a register as the user bank sees it, whatever the mode. -/
def regReadUser (c : ArmCpu) (pc : Word) (i : RegNo) : Word :=
  if i = 15 then pc + 8
  else if armBankOfMode c.cpsr = .usr then c.r i
  else if i = 13 then c.bankR13 .usr
  else if i = 14 then c.bankR14 .usr
  else match fiqWindow i with
    | some k => if armBankOfMode c.cpsr = .fiq then c.usrR8_12 k else c.r i
    | none => c.r i

/-- `reg_write_user`: write a register of the user bank, whatever the mode. -/
def regWriteUser (c : ArmCpu) (i : RegNo) (v : Word) : ArmCpu :=
  if armBankOfMode c.cpsr = .usr then c.setR i v
  else if i = 13 then { c with bankR13 := Function.update c.bankR13 .usr v }
  else if i = 14 then { c with bankR14 := Function.update c.bankR14 .usr v }
  else match fiqWindow i with
    | some k =>
      if armBankOfMode c.cpsr = .fiq then { c with usrR8_12 := Function.update c.usrR8_12 k v }
      else c.setR i v
    | none => c.setR i v

/-- The status register after a restore from a saved one: the mode that the bank switch left,
and every other bit from the saved word. -/
def restoreCpsr (c : ArmCpu) (s : Word) : ArmCpu :=
  let c := armSetMode c s
  c.setCpsr ((c.cpsr &&& armCpsrModeMask) ||| (s &&& ~~~armCpsrModeMask))

/-! ### Exception entry -/

/-- `take_exception`: bank in the handler's mode, stash the return address and the old status
register, mask interrupts and select the vector. The result is the core and the vector. -/
def takeException (c : ArmCpu) (vector mode retAddr : Word) (maskFiq : Bool) : ArmCpu × Word :=
  let saved := c.cpsr
  let c := armSetMode c mode
  let c := { c with spsr := Function.update c.spsr (armBankOfMode mode) saved }
  let c := c.setR 14 retAddr
  let c := c.setCpsr (c.cpsr ||| armCpsrI)
  let c := if maskFiq then c.setCpsr (c.cpsr ||| armCpsrF) else c
  let c :=
    if vector = armVecPrefetch ∨ vector = armVecDataAbort ∨ vector = armVecIrq ∨
        vector = armVecFiq then c.setCpsr (c.cpsr ||| armCpsrA)
    else c
  let c := c.setCpsr (c.cpsr &&& ~~~armCpsrT)
  let c := c.setFlag armCpsrE (c.cp15.sctlr &&& armSctlrEE != 0)
  let c := { c with exclValid := false }
  (c, (if c.cp15.sctlr &&& armSctlrV != 0 then 0xffff0000 else 0) + vector)

/-- `take_exception` followed by the jump to the vector. -/
def enterException (c : ArmCpu) (vector mode retAddr : Word) (maskFiq : Bool) : ArmCpu :=
  let (c, vec) := takeException c vector mode retAddr maskFiq
  c.setR 15 vec

/-- `take_pending_data_abort`: turn the latched fault into the Data Abort exception. -/
def takePendingDataAbort (c : ArmCpu) (pc : Word) : ArmCpu :=
  let c := { c with
    abortPending := false
    cp15 := { c.cp15 with dfsr := c.abortFsr, dfar := c.abortFar } }
  enterException c armVecDataAbort armModeAbt (pc + 8) false

/-- `take_undefined_instruction`: the architected Undefined exception from ARM state. -/
def takeUndefinedInstruction (c : ArmCpu) (pc : Word) : ArmCpu :=
  enterException c armVecUndefined armModeUnd (pc + 4) false

/-- `note_abort`: latch a translation fault; the first one is kept. -/
def noteAbort (c : ArmCpu) (fsr va : Word) : ArmCpu :=
  if c.abortPending then c
  else { c with abortPending := true, abortFsr := fsr, abortFar := va }

end S5LBox
