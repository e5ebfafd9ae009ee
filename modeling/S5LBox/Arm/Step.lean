import S5LBox.Arm.Thumb

/-!
# One step of the core

`arm_step`: sample the interrupt lines, fetch through the fetch block or the translator, decode
and execute one instruction, and turn a latched fault into a data abort. The ARM decoder is split
into the unconditional space and the conditional chain, in the order of the source.

## Main definitions

* `Exec.fetchInsn`: the fetch.
* `Exec.armUnconditional`, `Exec.armConditional`: the two ARM decoders.
* `Exec.armStep`: the step; `Exec.armRun`: a number of them.
-/

namespace S5LBox

/-- `insn_is_vfp_space`: the encodings that the lazy-enable trap covers. -/
def insnIsVfpSpace (insn : Word) : Bool :=
  insn &&& 0xfe000000 == 0xf2000000 || insn &&& 0x0f000e10 == 0x0e000a00 ||
    insn &&& 0x0e000e00 == 0x0c000a00 || insn &&& 0xff100000 == 0xf4000000 ||
    insn &&& 0x0f000e10 == 0x0e000a10 || insn &&& 0x0fe00e00 == 0x0c400a00

/-- `vfp_lazy_enable_trap`. -/
def vfpLazyEnableTrap (c : ArmCpu) (insn : Word) : Bool :=
  insnIsVfpSpace insn && (!vfpCpacrPermits c || !vfpEnabled c)

/-- `undefined_instruction`: the guest's Undefined exception for the lazy-enable case, and a
stop for everything else. -/
def undefinedInstruction (pc insn : Word) (c : ArmCpu) : ArmStatus × ArmCpu :=
  if vfpLazyEnableTrap c insn then (.ok, takeUndefinedInstruction c pc) else (.undefined, c)

/-- Count an instruction. -/
def countCycle (c : ArmCpu) : ArmCpu := { c with cycles := c.cycles + 1 }

/-- The ARM CPS, a no-op in User mode. The result is `undefined` for a mode the core lacks. -/
def armCps (insn next : Word) (c : ArmCpu) : ArmStatus × ArmCpu :=
  if ¬ cpuIsPriv c then (.ok, c.setR 15 next)
  else
    let chgMode := bit insn 17
    if chgMode ∧ ¬ armModeIsValid insn then (.undefined, c)
    else
      let c :=
        if bit insn 19 then
          cpsMasks (insn &&& armCpsrA != 0) (insn &&& armCpsrI != 0) (insn &&& armCpsrF != 0)
            (bit insn 18) c
        else c
      let c := if chgMode then armSetMode c (insn &&& armCpsrModeMask) else c
      (.ok, c.setR 15 next)

/-- BLX to an immediate, which always enters Thumb state. -/
def armBlxImmediate (pc insn : Word) (c : ArmCpu) : ArmCpu :=
  let off := (insn <<< 8).sshiftRight 6
  let h : Word := if bit insn 24 then 1 else 0
  let c := c.setR 14 (pc + 4)
  let c := c.setCpsr (c.cpsr ||| armCpsrT)
  c.setR 15 ((pc + (8 : Word) + off + (h <<< 1)) &&& ~~~1)

namespace Exec

variable {σ : Type} (B : ArmBus σ) (fpu : HostFpu)

/-! ### Decoding -/

/-- The unconditional instruction space. Every instruction here writes the program counter
itself. -/
def armUnconditional (pc insn next : Word) : Exec σ ArmStatus := do
  if insn = 0xf57ff01f then
    modifyCpu fun c => (clearExclusive c).setR 15 next
    return .ok
  if insn &&& 0x0c00f000 = 0x0400f000 then
    modifyCpu (·.setR 15 next)
    return .ok
  if insn &&& 0xfff1fe20 = 0xf1000000 then return ← onCpu (armCps insn next)
  if insn &&& 0xfe000000 = 0xfa000000 then
    modifyCpu (armBlxImmediate pc insn)
    return .ok
  if insn &&& 0xfe5fffe0 = 0xf84d0500 then return ← execSrs B pc insn next
  if insn &&& 0xfe50ffff = 0xf8100a00 then return ← execRfe B pc insn
  if insn &&& 0xfffffdff = 0xf1010000 then
    if bit insn 9 then return .undefined
    modifyCpu (·.setR 15 next)
    return .ok
  onCpu (undefinedInstruction pc insn)

/-- A status with the sequential program counter. -/
def sequential (next : Word) (m : Exec σ ArmStatus) : Exec σ (ArmStatus × Word) := do
  return (← m, next)

/-- The multiply, extra-transfer and synchronisation space, bits 27:25 clear with bits 7 and 4
set. -/
def armSynchronisation (insn : Word) : Exec σ ArmStatus :=
  if insn &&& 0x0ff00ff0 = 0x01900f90 then execLdrex B insn
  else if insn &&& 0x0ff00ff0 = 0x01800f90 then execStrex B insn
  else if insn &&& 0x0ff00ff0 = 0x01b00f90 then execLdrexd B insn
  else if insn &&& 0x0ff00ff0 = 0x01a00f90 then execStrexd B insn
  else if insn &&& 0x0ff00ff0 = 0x01d00f90 then execLdrexb B insn
  else if insn &&& 0x0ff00ff0 = 0x01c00f90 then execStrexb B insn
  else if insn &&& 0x0ff00ff0 = 0x01f00f90 then execLdrexh B insn
  else if insn &&& 0x0ff00ff0 = 0x01e00f90 then execStrexh B insn
  else if insn &&& 0x0fb00ff0 = 0x01000090 then execSwp B insn
  else pure .undefined

/-- The data-processing space, without the miscellaneous space and without multiplies and extra
transfers. -/
def isHoistedDataProcessing (insn : Word) : Bool :=
  insn &&& 0x0c000000 == 0 && insn &&& 0x01900000 != 0x01000000 &&
    !(insn &&& 0x0e000000 == 0 && insn &&& 0x00000090 == 0x00000090)

/-- The chain of the conditional decoder. -/
def armConditional (pc insn next : Word) : Exec σ (ArmStatus × Word) :=
  if isHoistedDataProcessing insn then onCpu (execDataProcessing pc insn next)
  else if insn &&& 0x0f000000 = 0x0a000000 ∨ insn &&& 0x0f000000 = 0x0b000000 then
    onCpu (execBranch pc insn)
  else if insn &&& 0x0fc000f0 = 0x00000090 then sequential next (onCpu (execMultiply pc insn))
  else if insn &&& 0x0f8000f0 = 0x00800090 then sequential next (onCpu (execMultiplyLong pc insn))
  else if insn &&& 0x0f900090 = 0x01000080 then sequential next (onCpu (execDspMultiply insn))
  else if insn &&& 0x0e000000 = 0x06000000 ∧ insn &&& 0x10 ≠ 0 then
    sequential next (onCpu (execMedia pc insn))
  else if insn &&& 0x0c000000 = 0x04000000 then execSingleTransfer B pc insn next
  else if insn &&& 0x0e000000 = 0x08000000 then execBlockTransfer B pc insn next
  else if insn &&& 0x0e000000 = 0 ∧ insn &&& 0x90 = 0x90 ∧ insn &&& 0x60 ≠ 0 then
    execExtraTransfer B pc insn next
  else if insn &&& 0x0e000000 = 0 ∧ insn &&& 0x90 = 0x90 then
    sequential next (armSynchronisation B insn)
  else if insn &&& 0x0f000010 = 0x0e000010 then sequential next (execCoprocessor B fpu pc insn)
  else if insn &&& 0x0f000e10 = 0x0e000a00 ∨ insn &&& 0x0e000e00 = 0x0c000a00 then
    sequential next (vfpExecute B fpu pc insn)
  else if insn &&& 0x0f000000 = 0x0f000000 then execSvc B pc insn (pc + 4) next
  else if insn &&& 0x0c000000 = 0 then onCpu (execDataProcessing pc insn next)
  else pure (.undefined, next)

/-! ### The fetch -/

/-- The fetch block answers for the address and privilege. -/
def fetchBlockHit (t : TransCache) (pc : Word) (priv : Bool) : Bool :=
  t.fetchHost.isSome && t.fetchBlk == pc &&& ~~~0x3ff && t.fetchGen == t.tlbGen &&
    t.fetchPriv == priv

/-- Install the fetch block. -/
def installFetch (pc : Word) (priv : Bool) (blk : Nat) (c : ArmCpu) : ArmCpu :=
  { c with cache := { c.cache with
      fetchHost := some blk
      fetchBlk := pc &&& ~~~0x3ff
      fetchGen := c.cache.tlbGen
      fetchPriv := priv } }

/-- Where the instruction is read from: a host address or a physical one. -/
inductive FetchSource
  | host (a : Nat)
  | phys (pa : Word)

/-- Resolve the fetch address; `none` when a prefetch abort has been taken. -/
def resolveFetch (pc : Word) : Exec σ (Option FetchSource) := do
  let c ← getCpu
  let priv := cpuIsPriv c
  logAccess .fetch pc priv
  if fetchBlockHit c.cache pc priv then
    return c.cache.fetchHost.map fun h => .host (h + (pc &&& 0x3ff).toNat)
  let (fsr, pa) ← armMmuTranslate B pc .fetch priv 0
  if fsr ≠ 0 then
    modifyCpu fun c =>
      let c := countCycle c
      let c := { c with cp15 := { c.cp15 with ifsr := fsr, ifar := pc } }
      enterException c armVecPrefetch armModeAbt (pc + 4) false
    return none
  fun s =>
    match grantOf B.hostRam pa s.bus with
    | some blk =>
      (some (.host (blk + (pc &&& 0x3ff).toNat)), { s with cpu := installFetch pc priv blk s.cpu })
    | none => (some (.phys pa), s)

/-- Read the instruction, of two or four bytes. -/
def readInsn (thumb : Bool) (src : FetchSource) : Exec σ Word :=
  match src with
  | .host a => fun s => (B.peekN s.bus a (if thumb then 2 else 4), s)
  | .phys pa => busCall (B.readN (if thumb then .w16 else .w32) · pa)

/-- Fetch the instruction at `pc`; `none` when a prefetch abort has been taken. -/
def fetchInsn (pc : Word) : Exec σ (Option Word) := do
  match ← resolveFetch B pc with
  | none => return none
  | some src =>
    let c ← getCpu
    return some (← readInsn B (c.getFlag armCpsrT) src)

/-! ### The step -/

/-- The end of a Thumb instruction: a latched fault becomes a data abort. -/
def thumbRetire (pc : Word) (r : ArmStatus × Word) : Exec σ ArmStatus := do
  if r.1 = .halt then return .halt
  takeLatchedAbort pc do
    guarded (r.1 = .ok) (modifyCpu (·.setR 15 r.2))
    return r.1

/-- One Thumb instruction. -/
def thumbInsn (pc insn : Word) : Exec σ ArmStatus := do
  modifyCpu countCycle
  thumbRetire pc (← thumbStep B pc insn (pc + 2))

/-- The end of a conditional ARM instruction: a latched fault becomes a data abort, and a refusal
an Undefined exception or a stop. -/
def armRetire (pc insn : Word) (r : ArmStatus × Word) : Exec σ ArmStatus := do
  if r.1 = .halt then return .halt
  takeLatchedAbort pc do
    if r.1 = .guestUndefined then
      modifyCpu (takeUndefinedInstruction · pc)
      return .ok
    if r.1 = .undefined then return ← onCpu (undefinedInstruction pc insn)
    guarded (r.1 = .ok) (modifyCpu (·.setR 15 r.2))
    return r.1

/-- One ARM instruction. -/
def armInsn (pc insn : Word) : Exec σ ArmStatus := do
  modifyCpu countCycle
  let cond := field insn 28
  let next := pc + 4
  if cond = 15 then return ← armUnconditional B pc insn next
  let c ← getCpu
  if cond ≠ 14 ∧ ¬ armCondPassed c cond then
    modifyCpu (·.setR 15 next)
    return .ok
  armRetire pc insn (← armConditional B fpu pc insn next)

/-- Fetch and execute the instruction at `pc`. -/
def fetchAndExecute (pc : Word) : Exec σ ArmStatus := do
  match ← fetchInsn B pc with
  | none => return .ok
  | some insn =>
    let c ← getCpu
    if c.getFlag armCpsrT then thumbInsn B pc insn else armInsn B fpu pc insn

/-- `arm_step`. -/
def armStep : Exec σ ArmStatus := do
  let c ← getCpu
  let pc := c.r 15
  if ¬ armModeIsValid c.cpsr then return .undefined
  if c.fiqLine ∧ c.cpsr &&& armCpsrF = 0 then
    modifyCpu fun c => enterException (countCycle c) armVecFiq armModeFiq (pc + 4) true
    return .ok
  if c.irqLine ∧ c.cpsr &&& armCpsrI = 0 then
    modifyCpu fun c => enterException (countCycle c) armVecIrq armModeIrq (pc + 4) false
    return .ok
  fetchAndExecute B fpu pc

/-- A number of steps, with the status of each, the last one first. -/
def armRun : Nat → Sys σ → List ArmStatus × Sys σ
  | 0, s => ([], s)
  | n + 1, s =>
    let (sts, s) := armRun n s
    let (st, s) := armStep B fpu s
    (st :: sts, s)

end Exec

/-! ### Reset -/

end S5LBox
