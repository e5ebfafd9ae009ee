import S5LBox.Arm.Vfp

/-!
# CP15 and the coprocessor space

MCR and MRC (`exec_coprocessor`). CP14 answers zero to privileged code, CP10 and CP11 are the
VFP unit, and CP15 is the system control coprocessor. A write that could change what a
translation walk returns flushes the translation cache.

## Main definitions

* `cp15Read`, `Exec.cp15Write`, `Exec.execCoprocessor`.
-/

namespace S5LBox

/-- The feature registers of CRm one. -/
def idCrm1 (opc2 : Nat) : Word :=
  match opc2 with
  | 0 => 0x00000111
  | 1 => 0x00000001
  | 2 => 0x00000000
  | 3 => 0x00000000
  | 4 => 0x01130003
  | 5 => 0x10030302
  | 6 => 0x01222100
  | _ => 0x00000000

/-- The instruction set attributes of CRm two. -/
def idCrm2 (opc2 : Nat) : Word :=
  match opc2 with
  | 0 => 0x00140011
  | 1 => 0x12002111
  | 2 => 0x11231121
  | 3 => 0x01102131
  | 4 => 0x00000141
  | _ => 0x00000000

/-- The CP15 register that an MRC reads; what is not modelled reads as zero. -/
def cp15Read (p : Cp15) (crn crm : RegNo) (opc2 : Nat) : Word :=
  match crn.toNat with
  | 0 =>
    if crm = 0 then if opc2 = 0 then 0x410fb767 else if opc2 = 1 then 0x1d152152 else 0
    else if crm = 1 then idCrm1 opc2
    else if crm = 2 then idCrm2 opc2
    else 0
  | 1 =>
    if crm = 0 then
      if opc2 = 0 then p.sctlr else if opc2 = 1 then p.actlr else if opc2 = 2 then p.cpacr else 0
    else 0
  | 2 =>
    if crm = 0 then
      if opc2 = 0 then p.ttbr0 else if opc2 = 1 then p.ttbr1 else if opc2 = 2 then p.ttbcr else 0
    else 0
  | 3 => p.dacr
  | 5 => if opc2 = 1 then p.ifsr else p.dfsr
  | 6 => if opc2 = 2 then p.ifar else p.dfar
  | 13 =>
    if opc2 = 1 then p.contextId
    else if opc2 = 2 then p.tpidrurw
    else if opc2 = 3 then p.tpidruro
    else if opc2 = 4 then p.tpidrprw
    else p.fcsePid
  | _ => 0

/-- The CP15 registers after an MCR, and whether the write flushes the translation cache. -/
def cp15Updated (p : Cp15) (crn crm : RegNo) (opc2 : Nat) (v : Word) : Cp15 × Bool :=
  match crn.toNat with
  | 1 =>
    if crm = 0 then
      if opc2 = 0 then ({ p with sctlr := v }, true)
      else if opc2 = 1 then ({ p with actlr := v }, false)
      else if opc2 = 2 then ({ p with cpacr := v }, false)
      else (p, false)
    else (p, false)
  | 2 =>
    if crm = 0 then
      if opc2 = 0 then ({ p with ttbr0 := v }, true)
      else if opc2 = 1 then ({ p with ttbr1 := v }, true)
      else if opc2 = 2 then ({ p with ttbcr := v &&& 0x37 }, true)
      else (p, true)
    else (p, false)
  | 3 => ({ p with dacr := v }, true)
  | 5 => if opc2 = 1 then ({ p with ifsr := v }, false) else ({ p with dfsr := v }, false)
  | 6 => if opc2 = 2 then ({ p with ifar := v }, false) else ({ p with dfar := v }, false)
  | 8 => (p, true)
  | 13 =>
    if opc2 = 1 then ({ p with contextId := v }, true)
    else if opc2 = 2 then ({ p with tpidrurw := v }, false)
    else if opc2 = 3 then ({ p with tpidruro := v }, false)
    else if opc2 = 4 then ({ p with tpidrprw := v }, false)
    else ({ p with fcsePid := v }, false)
  | _ => (p, false)

/-- The CP15 accesses that User mode is granted. -/
def cp15UserAllowed (crn crm : RegNo) (opc2 : Nat) (load : Bool) : Bool :=
  crn == 7 || (crn == 13 && crm == 0 && opc2 == 2) || (crn == 13 && crm == 0 && opc2 == 3 && load)

namespace Exec

variable {σ : Type} (B : ArmBus σ)

/-- The Wait For Interrupt operation of the platform; without one it is a no-op. -/
def waitForInterrupt : Exec σ Unit := fun s =>
  match B.waitForInterrupt with
  | some f =>
    let (irq, fiq, b) := f s.bus
    ((), { s with
      cpu := { s.cpu with irqLine := irq, fiqLine := fiq }, bus := b, era := b :: s.era })
  | none => ((), s)

/-- An MCR to CP15. -/
def cp15Write (crn crm : RegNo) (opc2 : Nat) (v : Word) : Exec σ Unit := do
  let c ← getCpu
  let (p, flush) := cp15Updated c.cp15 crn crm opc2 v
  modifyCpu fun c => { c with cp15 := p }
  guarded flush armMmuTlbFlush

/-- `exec_coprocessor`. -/
def execCoprocessor (fpu : HostFpu) (pc insn : Word) : Exec σ ArmStatus := do
  let cp := field insn 8
  let load := bit insn 20
  let opc1 := ((insn >>> 21) &&& 7).toNat
  let crn := field insn 16
  let rd := field insn 12
  let opc2 := ((insn >>> 5) &&& 7).toNat
  let crm := field insn 0
  let c ← getCpu
  if cp = 14 then
    if ¬ cpuIsPriv c then return .undefined
    guarded load (modifyCpu (·.setR rd 0))
    return .ok
  if cp = 10 ∨ cp = 11 then return ← vfpExecute B fpu pc insn
  if cp ≠ 15 then return .undefined
  if ¬ load ∧ opc1 = 0 ∧ crn = 7 ∧ opc2 = 4 ∧ crm = 0 then
    if ¬ cpuIsPriv c then return .undefined
    if regRead c pc rd ≠ 0 then return .undefined
    waitForInterrupt B
    return .ok
  if ¬ cpuIsPriv c ∧ ¬ cp15UserAllowed crn crm opc2 load then return .undefined
  if load then
    modifyCpu (·.setR rd (cp15Read c.cp15 crn crm opc2))
    return .ok
  cp15Write crn crm opc2 (regRead c pc rd)
  return .ok

/-! ### The privileged-SVC seam -/

/-- `privileged_svc_result`: give the platform one chance to consume a privileged SVC; every
result other than handled and redirected discards the changes to the core. -/
def privilegedSvcResult (pc encoding : Word) : Exec σ ArmSvcResult := fun s =>
  match B.privilegedSvcHandler with
  | none => (.unhandled, s)
  | some handler =>
    if ¬ cpuIsPriv s.cpu then (.unhandled, s)
    else
      let (result, c, b) := handler s.bus s.cpu pc encoding
      let s' := { s with bus := b, era := b :: s.era }
      if result = .handled ∨ result = .redirected then
        (result, { s' with cpu := c, era := B.svcEra s.bus s.cpu pc encoding s.era })
      else if result = .error then
        (.error, { s' with cpu := { s.cpu with cycles := s.cpu.cycles - 1 } })
      else (.unhandled, s')

/-- The SVC of both instruction sets, with the return address of an ordinary guest SVC. -/
def execSvc (pc encoding retAddr next : Word) : Exec σ (ArmStatus × Word) := do
  match ← privilegedSvcResult B pc encoding with
  | .error => return (.halt, next)
  | .redirected =>
    let c ← getCpu
    return (.ok, c.r 15)
  | .handled => return (.ok, next)
  | _ =>
    let vec ← onCpu fun c => (takeException c armVecSwi armModeSvc retAddr false).swap
    return (.ok, vec)

end Exec

end S5LBox
