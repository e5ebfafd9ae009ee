import S5LBox.Arm.Media

/-!
# Loads and stores

Single, extra and block transfers of ARM state (`exec_single_transfer`, `exec_extra_transfer`,
`exec_block_transfer`), the return-state pair SRS and RFE, and the exclusive and swap family of
`arm_step`. Loaded values are held back until every access of the instruction has succeeded.

## Main definitions

* `Exec.execSingleTransfer`, `Exec.execExtraTransfer`, `Exec.execBlockTransfer`.
* `Exec.execSrs`, `Exec.execRfe`.
* `Exec.execLdrex`, `Exec.execStrex` and the byte, halfword and doubleword forms, `Exec.execSwp`.
-/

namespace S5LBox

/-- A loaded value written to the program counter selects the instruction set by its bit 0. -/
def interwork (c : ArmCpu) (val : Word) : Word × ArmCpu :=
  if bit val 0 then (val &&& ~~~1, c.setCpsr (c.cpsr ||| armCpsrT))
  else (val &&& ~~~3, c.setCpsr (c.cpsr &&& ~~~armCpsrT))

/-- The registers of a sixteen-bit list, in increasing order. -/
def listRegs (list : Word) : List RegNo :=
  (List.range 16).filterMap fun i => if bit list i then some (BitVec.ofNat 4 i) else none

namespace Exec

variable {σ : Type} (B : ArmBus σ)

/-- `exec_single_transfer`. -/
def execSingleTransfer (pc insn next : Word) : Exec σ (ArmStatus × Word) := do
  let I := bit insn 25
  let P := bit insn 24
  let U := bit insn 23
  let byte := bit insn 22
  let W := bit insn 21
  let L := bit insn 20
  let rn := field insn 16
  let rd := field insn 12
  let writeback := !P || W
  let loadSameBaseZeroPost :=
    L && !I && !P && !W && rn == rd && rd != 15 && insn &&& 0xfff == 0
  if writeback ∧ (rn = 15 ∨ (rn = rd ∧ ¬ loadSameBaseZeroPost)) then return (.undefined, next)
  if I ∧ field insn 0 = 15 then return (.undefined, next)
  if byte ∧ rd = 15 then return (.undefined, next)
  if L ∧ ¬ P ∧ W ∧ rd = 15 then return (.undefined, next)
  let c ← getCpu
  let offset :=
    if I then
      (barrelShift (regRead c pc (field insn 0)) ((insn >>> 5) &&& 3).toNat
        ((insn >>> 7) &&& 0x1f).toNat false (c.getFlag armCpsrC)).1
    else insn &&& 0xfff
  let base := regRead c pc rn
  let indexed := if U then base + offset else base - offset
  let addr := if P then indexed else base
  -- P clear and W set is the translation form, made as if unprivileged.
  let priv := if !P && W then false else cpuIsPriv c
  if L then
    if rd = 15 ∧ addr &&& 3 ≠ 0 then
      if c.cp15.sctlr &&& armSctlrA ≠ 0 then
        modifyCpu (noteAlignmentAbort · addr false)
        return (.ok, next)
      return (.undefined, next)
    let val ← memRAs B (if byte then .w8 else .w32) addr priv
    if ← abortLatched then return (.ok, next)
    if rd = 15 ∧ val &&& 3 = 2 then return (.undefined, next)
    modifyCpu (·.setR rd val)
    let next ← if rd = 15 then onCpu (interwork · val) else pure next
    guarded (¬ P ∧ ¬ loadSameBaseZeroPost) (modifyCpu (·.setR rn indexed))
    guarded (P ∧ W) (modifyCpu (·.setR rn indexed))
    return (.ok, next)
  let val := if rd = 15 then pc + 12 else c.r rd
  memWAs B (if byte then .w8 else .w32) addr val priv
  if ← abortLatched then return (.ok, next)
  guarded (¬ P ∨ W) (modifyCpu (·.setR rn indexed))
  return (.ok, next)

/-- The load of LDRH, LDRSB and LDRSH, by the SH field, which is one, two or three. -/
def extraLoad (sh : Nat) (addr : Word) : Exec σ Word := do
  if sh = 1 then return ← memR16 B addr
  if sh = 2 then return signExtend8 (← memR8 B addr)
  return signExtend16 (← memR16 B addr)

/-- The doubleword transfer of LDRD and STRD; both words of a load are held back until both
accesses have succeeded. The result says whether the instruction goes on to its writeback. -/
def doublewordTransfer (pc addr : Word) (rd : RegNo) (store : Bool) : Exec σ Bool := do
  match ← onCpu (prepareMultiwordAddress addr 4 store) with
  | none => return false
  | some xfer =>
    if store then
      let c ← getCpu
      memW32 B xfer (regRead c pc rd)
      if ← abortLatched then return false
      let c ← getCpu
      memW32 B (xfer + 4) (regRead c pc (rd + 1))
      return !(← abortLatched)
    let lo ← memR32 B xfer
    if ← abortLatched then return false
    let hi ← memR32 B (xfer + 4)
    if ← abortLatched then return false
    modifyCpu fun c => (c.setR rd lo).setR (rd + 1) hi
    return true

/-- The access of an extra transfer and the commit of its destination. -/
def extraAccess (pc addr : Word) (rd : RegNo) (sh : Nat) (L : Bool) : Exec σ Bool := do
  if !L && sh != 1 then return ← doublewordTransfer B pc addr rd (sh == 3)
  if L then
    let val ← extraLoad B sh addr
    if ← abortLatched then return false
    modifyCpu (·.setR rd val)
    return true
  let c ← getCpu
  memW16 B addr (regRead c pc rd)
  return !(← abortLatched)

/-- `exec_extra_transfer`. -/
def execExtraTransfer (pc insn next : Word) : Exec σ (ArmStatus × Word) := do
  let P := bit insn 24
  let U := bit insn 23
  let I := bit insn 22
  let W := bit insn 21
  let L := bit insn 20
  let rn := field insn 16
  let rd := field insn 12
  let sh := ((insn >>> 5) &&& 3).toNat
  let writeback := !P || W
  let doubleword := !L && sh != 1
  if rd = 15 then return (.undefined, next)
  if ¬ P ∧ W then return (.undefined, next)
  if writeback ∧ (rn = 15 ∨ rn = rd) then return (.undefined, next)
  if ¬ I ∧ (field insn 8 ≠ 0 ∨ field insn 0 = 15) then return (.undefined, next)
  if doubleword ∧ (bit insn 12 ∨ rd = 14) then return (.undefined, next)
  if doubleword ∧ writeback ∧ rn = rd + 1 then return (.undefined, next)
  let c ← getCpu
  let offset :=
    if I then ((field insn 8).setWidth 32 <<< 4) ||| (field insn 0).setWidth 32
    else regRead c pc (field insn 0)
  let base := regRead c pc rn
  let indexed := if U then base + offset else base - offset
  let addr := if P then indexed else base
  if (sh = 1 ∨ (L ∧ sh = 3)) ∧ legacyHalfwordUnpredictable c addr then return (.undefined, next)
  if L ∧ sh = 0 then return (.undefined, next)
  if ← extraAccess B pc addr rd sh L then
    guarded (¬ P ∨ W) (modifyCpu (·.setR rn indexed))
  return (.ok, next)

/-! ### Block transfers -/

/-- The accesses of an LDM: the values loaded for the registers of the list, or `none` when an
access has faulted. -/
def loadList (addr : Word) : List RegNo → Exec σ (Option (List (RegNo × Word)))
  | [] => pure (some [])
  | i :: is => do
    let v ← memR32 B addr
    if ← abortLatched then return none
    match ← loadList (addr + 4) is with
    | some vs => return some ((i, v) :: vs)
    | none => return none

/-- The accesses of an STM; the result says whether all of them succeeded. -/
def storeList (value : ArmCpu → RegNo → Word) (addr : Word) : List RegNo → Exec σ Bool
  | [] => pure true
  | i :: is => do
    let c ← getCpu
    memW32 B addr (value c i)
    if ← abortLatched then return false
    storeList value (addr + 4) is

/-- The commit of loaded values to the register file. -/
def commitList (write : ArmCpu → RegNo → Word → ArmCpu) (vs : List (RegNo × Word))
    (c : ArmCpu) : ArmCpu :=
  vs.foldl (fun c v => write c v.1 v.2) c

/-- The value loaded for the program counter. -/
def loadedPc (vs : List (RegNo × Word)) : Option Word :=
  (vs.find? fun v => v.1 == 15).map (·.2)

/-- The commit of a plain or user-bank LDM, with interworking through the program counter. -/
def commitLoad (userBank : Bool) (vs : List (RegNo × Word)) (next : Word) (c : ArmCpu) :
    Word × ArmCpu :=
  if userBank then (next, commitList regWriteUser vs c)
  else
    let c := commitList ArmCpu.setR vs c
    match loadedPc vs with
    | some v => interwork c v
    | none => (next, c)

/-- The exception return of an LDM, once the registers and the base are committed. -/
def commitReturn (vs : List (RegNo × Word)) (next : Word) (c : ArmCpu) : Word × ArmCpu :=
  let c := restoreCpsr c (c.spsr (armBankOfMode c.cpsr))
  match loadedPc vs with
  | some v => (v &&& pcMask c.cpsr, c)
  | none => (next, c)

/-- What an LDM or STM is asked to do, as decoded. -/
structure BlockTransfer where
  rn : RegNo
  list : Word
  writeback : Bool
  userBank : Bool
  restoreCpsr : Bool
  wb : Word

/-- The base writeback of a load, which a loaded base overrides. -/
def BlockTransfer.writeBase (t : BlockTransfer) (c : ArmCpu) : ArmCpu :=
  if t.writeback ∧ ¬ bit t.list t.rn.toNat then c.setR t.rn t.wb else c

/-- The load half of a block transfer. -/
def blockLoad (t : BlockTransfer) (addr next : Word) : Exec σ (ArmStatus × Word) := do
  match ← loadList B addr (listRegs t.list) with
  | none => return (.ok, next)
  | some vs =>
    let c ← getCpu
    let pcv := (loadedPc vs).getD 0
    if ¬ t.restoreCpsr ∧ bit t.list 15 ∧ pcv &&& 3 = 2 then return (.undefined, next)
    if t.restoreCpsr ∧ bit t.list 15 ∧ c.spsr (armBankOfMode c.cpsr) &&& armCpsrT = 0 ∧
        pcv &&& 2 ≠ 0 then return (.undefined, next)
    if t.restoreCpsr then
      let next ← onCpu fun c => commitReturn vs next (t.writeBase (commitList ArmCpu.setR vs c))
      return (.ok, next)
    let next ← onCpu (commitLoad t.userBank vs next)
    modifyCpu t.writeBase
    return (.ok, next)

/-- The store half of a block transfer. -/
def blockStore (t : BlockTransfer) (pc addr next : Word) : Exec σ (ArmStatus × Word) := do
  let value (c : ArmCpu) (i : RegNo) : Word :=
    if i = 15 then pc + 12 else if t.userBank then regReadUser c pc i else c.r i
  if ← storeList B value addr (listRegs t.list) then
    guarded t.writeback (modifyCpu (·.setR t.rn t.wb))
  return (.ok, next)

/-- `exec_block_transfer`. -/
def execBlockTransfer (pc insn next : Word) : Exec σ (ArmStatus × Word) := do
  let P := bit insn 24
  let U := bit insn 23
  let S := bit insn 22
  let W := bit insn 21
  let L := bit insn 20
  let rn := field insn 16
  let list := insn &&& 0xffff
  if list = 0 then return (.undefined, next)
  if rn = 15 then return (.undefined, next)
  let restoreCpsr := S && L && bit list 15
  let userBank := S && !restoreCpsr
  let c ← getCpu
  let bank := armBankOfMode c.cpsr
  if restoreCpsr ∧ (bank = .usr ∨ ¬ armModeIsValid (c.spsr bank)) then return (.undefined, next)
  if userBank ∧ (c.mode = armModeUsr ∨ c.mode = armModeSys) then return (.undefined, next)
  if userBank ∧ W then return (.undefined, next)
  if W ∧ bit list rn.toNat ∧ (L ∨ list &&& (((1 : Word) <<< rn.toNat) - 1) ≠ 0) then
    return (.undefined, next)
  let n : Word := BitVec.ofNat 32 (listRegs list).length
  let base := regRead c pc rn
  let addr := if U then if P then base + 4 else base
    else if P then base - 4 * n else base - 4 * n + 4
  let wb := if U then base + 4 * n else base - 4 * n
  match ← onCpu (prepareMultiwordAddress addr 4 (!L)) with
  | none => return (.ok, next)
  | some addr =>
    let t : BlockTransfer := { rn, list, writeback := W, userBank, restoreCpsr, wb }
    if L then blockLoad B t addr next else blockStore B t pc addr next

/-! ### Store and load of the return state -/

/-- The base address of SRS and RFE, and the value written back. -/
def returnStateBase (insn sp : Word) : Word × Word :=
  let P := bit insn 24
  let U := bit insn 23
  (if U then if P then sp + 4 else sp else if P then sp - 8 else sp - 4,
    if U then sp + 8 else sp - 8)

/-- Write the stack pointer of a bank, live or parked. -/
def writeStackOf (tb : ArmBank) (v : Word) (c : ArmCpu) : ArmCpu :=
  if tb = armBankOfMode c.cpsr then c.setR 13 v
  else { c with bankR13 := Function.update c.bankR13 tb v }

/-- SRS: push the link register and the saved status register on the stack of a mode. A fault
is taken here, as the source does. -/
def execSrs (pc insn next : Word) : Exec σ ArmStatus := do
  let mode := insn &&& armCpsrModeMask
  let c ← getCpu
  if c.mode = armModeUsr ∨ c.mode = armModeSys then return .undefined
  if ¬ armModeIsValid mode then return .undefined
  let tb := armBankOfMode mode
  let cur := armBankOfMode c.cpsr
  let sp := if tb = cur then c.r 13 else c.bankR13 tb
  let (base, wb) := returnStateBase insn sp
  match ← onCpu (prepareMultiwordAddress base 4 true) with
  | none =>
    takeDataAbort pc
    return .ok
  | some base =>
    memW32 B base (c.r 14)
    takeLatchedAbort pc do
      memW32 B (base + 4) (c.spsr cur)
      takeLatchedAbort pc do
        guarded (bit insn 21) (modifyCpu (writeStackOf tb wb))
        modifyCpu (·.setR 15 next)
        return .ok

/-- The commit of RFE: the base writeback in the current bank, then the loaded state. -/
def commitRfe (insn wb newPc newCpsr : Word) (c : ArmCpu) : ArmCpu :=
  let c := if bit insn 21 then c.setR (field insn 16) wb else c
  let c := restoreCpsr c newCpsr
  c.setR 15 (newPc &&& pcMask c.cpsr)

/-- RFE: load the program counter and the status register. -/
def execRfe (pc insn : Word) : Exec σ ArmStatus := do
  let rn := field insn 16
  let c ← getCpu
  if ¬ cpuIsPriv c then return .undefined
  if rn = 15 then return .undefined
  let (base, wb) := returnStateBase insn (c.r rn)
  match ← onCpu (prepareMultiwordAddress base 4 false) with
  | none =>
    takeDataAbort pc
    return .ok
  | some base =>
    let newPc ← memR32 B base
    takeLatchedAbort pc do
      let newCpsr ← memR32 B (base + 4)
      takeLatchedAbort pc do
        if ¬ armModeIsValid newCpsr then return .undefined
        if newCpsr &&& armCpsrT = 0 ∧ newPc &&& 2 ≠ 0 then return .undefined
        modifyCpu (commitRfe insn wb newPc newCpsr)
        return .ok

/-! ### Exclusive and swap transfers -/

/-- Tag an address as exclusive. -/
def tagExclusive (addr : Word) (c : ArmCpu) : ArmCpu :=
  { c with exclValid := true, exclAddr := addr }

/-- Clear the exclusive monitor. -/
def clearExclusive (c : ArmCpu) : ArmCpu := { c with exclValid := false }

/-- LDREX, LDREXB and LDREXH: an aligned load that tags its address. -/
def loadExclusive (w : MemWidth) (insn : Word) : Exec σ ArmStatus := do
  let rn := field insn 16
  let rd := field insn 12
  if rn = 15 ∨ rd = 15 then return .undefined
  let c ← getCpu
  let addr := c.r rn
  match ← onCpu (prepareSyncAddress addr (BitVec.ofNat 32 w.bytes) false) with
  | some st => return st
  | none =>
    let v ← memR B w addr
    if ← abortLatched then return .ok
    modifyCpu fun c => tagExclusive addr (c.setR rd v)
    return .ok

/-- LDREX. -/
def execLdrex (insn : Word) : Exec σ ArmStatus := loadExclusive B .w32 insn

/-- LDREXB. -/
def execLdrexb (insn : Word) : Exec σ ArmStatus := loadExclusive B .w8 insn

/-- LDREXH. -/
def execLdrexh (insn : Word) : Exec σ ArmStatus := loadExclusive B .w16 insn

/-- The store of a store-exclusive: made when the monitor holds the address, refused with a one
otherwise; the monitor is consumed either way. -/
def storeIfExclusive (addr : Word) (rd : RegNo) (store : Exec σ Unit) : Exec σ ArmStatus := do
  let c ← getCpu
  if c.exclValid ∧ c.exclAddr = addr then
    store
    let aborted ← abortLatched
    guarded (¬ aborted) (modifyCpu (·.setR rd 0))
    modifyCpu clearExclusive
    return .ok
  modifyCpu fun c => clearExclusive (c.setR rd 1)
  return .ok

/-- STREX, which translates for a write before it consults the monitor. -/
def execStrex (insn : Word) : Exec σ ArmStatus := do
  let rn := field insn 16
  let rd := field insn 12
  let rm := field insn 0
  if rn = 15 ∨ rd = 15 ∨ rm = 15 ∨ rd = rn ∨ rd = rm then return .undefined
  let c ← getCpu
  let addr := c.r rn
  match ← onCpu (prepareSyncAddress addr 4 true) with
  | some st => return st
  | none =>
    let (fsr, _) ← armMmuTranslate B addr .write (cpuIsPriv c) 0
    if fsr ≠ 0 then
      modifyCpu fun c => clearExclusive (noteAbort c fsr addr)
      return .ok
    storeIfExclusive addr rd (memW32 B addr (c.r rm))

/-- STREXB and STREXH. -/
def storeExclusive (w : MemWidth) (insn : Word) : Exec σ ArmStatus := do
  let rn := field insn 16
  let rd := field insn 12
  let rm := field insn 0
  if rn = 15 ∨ rd = 15 ∨ rm = 15 ∨ rd = rn ∨ rd = rm then return .undefined
  let c ← getCpu
  let addr := c.r rn
  match ← onCpu (prepareSyncAddress addr (BitVec.ofNat 32 w.bytes) true) with
  | some st => return st
  | none => storeIfExclusive addr rd (memW B w addr (c.r rm))

/-- STREXB. -/
def execStrexb (insn : Word) : Exec σ ArmStatus := storeExclusive B .w8 insn

/-- STREXH. -/
def execStrexh (insn : Word) : Exec σ ArmStatus := storeExclusive B .w16 insn

/-- LDREXD. -/
def execLdrexd (insn : Word) : Exec σ ArmStatus := do
  let rn := field insn 16
  let rd := field insn 12
  if rn = 15 ∨ bit insn 12 ∨ rd = 14 then return .undefined
  let c ← getCpu
  let addr := c.r rn
  match ← onCpu (prepareSyncAddress addr 8 false) with
  | some st => return st
  | none =>
    let lo ← memR32 B addr
    if ← abortLatched then return .ok
    let hi ← memR32 B (addr + 4)
    if ← abortLatched then return .ok
    modifyCpu fun c => tagExclusive addr ((c.setR rd lo).setR (rd + 1) hi)
    return .ok

/-- STREXD. -/
def execStrexd (insn : Word) : Exec σ ArmStatus := do
  let rn := field insn 16
  let rd := field insn 12
  let rm := field insn 0
  if rn = 15 ∨ rd = 15 ∨ bit insn 0 ∨ rm = 14 ∨ rd = rn ∨ rd = rm ∨ rd = rm + 1 then
    return .undefined
  let c ← getCpu
  let addr := c.r rn
  match ← onCpu (prepareSyncAddress addr 8 true) with
  | some st => return st
  | none => storeIfExclusive addr rd do
      memW32 B addr (c.r rm)
      let aborted ← abortLatched
      guarded (¬ aborted) (memW32 B (addr + 4) (c.r (rm + 1)))

/-- SWP and SWPB. -/
def execSwp (insn : Word) : Exec σ ArmStatus := do
  let rn := field insn 16
  let rd := field insn 12
  let rm := field insn 0
  let byte := bit insn 22
  if rn = 15 ∨ rd = 15 ∨ rm = 15 ∨ rn = rm ∨ rn = rd then return .undefined
  let c ← getCpu
  let addr := c.r rn
  let w : MemWidth := if byte then .w8 else .w32
  if ¬ byte ∧ addr &&& 3 ≠ 0 ∧ c.cp15.sctlr &&& (armSctlrU ||| armSctlrA) ≠ 0 then
    modifyCpu (noteAlignmentAbort · addr true)
    return .ok
  let old ← memR B w addr
  if ← abortLatched then return .ok
  memW B w addr (c.r rm)
  if ← abortLatched then return .ok
  modifyCpu (·.setR rd old)
  return .ok

end Exec

end S5LBox
