import S5LBox.Arm.Coprocessor

/-!
# The Thumb instruction set

`thumb_step`, one definition for each group of its top-level switch. A Thumb instruction reads
register fifteen as its address plus four.

## Main definitions

* `Exec.thumbStep`.
-/

namespace S5LBox

/-- A three-bit register field of a Thumb instruction. -/
def thumbReg (insn : Word) (lo : Nat) : RegNo := (insn.extractLsb' lo 3).setWidth 4

/-- The logical operations of the Thumb ALU group write their result and its flags. -/
def thumbLogic (rd : RegNo) (res : Word) (carry : Bool) (c : ArmCpu) : ArmCpu :=
  aluLogicFlags (c.setR rd res) res carry true

/-- An arithmetic result with its flags, written to a register. -/
def writeResult (rd : RegNo) (r : Word × ArmCpu) : ArmCpu := r.2.setR rd r.1

/-- Groups zero and one: shifts by an immediate, and ADD and SUB. -/
def thumbShiftAdd (insn : Word) (c : ArmCpu) : ArmCpu :=
  let rd := thumbReg insn 0
  let rs := thumbReg insn 3
  if insn &&& 0xf800 = 0x1800 then
    let op2 := if bit insn 10 then (thumbReg insn 6).setWidth 32 else c.r (thumbReg insn 6)
    writeResult rd (if bit insn 9 then aluSub c (c.r rs) op2 1 true
      else aluAdd c (c.r rs) op2 0 true)
  else
    let amount := ((insn >>> 6) &&& 0x1f).toNat
    let type := ((insn >>> 11) &&& 3).toNat
    let (res, carry) := barrelShift (c.r rs) type amount false (c.getFlag armCpsrC)
    thumbLogic rd res carry c

/-- Groups two and three: MOV, CMP, ADD and SUB with an eight-bit immediate. -/
def thumbImmediate (insn : Word) (c : ArmCpu) : ArmCpu :=
  let rd := thumbReg insn 8
  let imm := insn &&& 0xff
  match ((insn >>> 11) &&& 3).toNat with
  | 0 => thumbLogic rd imm (c.getFlag armCpsrC) c
  | 1 => (aluSub c (c.r rd) imm 1 true).2
  | 2 => writeResult rd (aluAdd c (c.r rd) imm 0 true)
  | _ => writeResult rd (aluSub c (c.r rd) imm 1 true)

/-- The register ALU operations of group four. -/
def thumbAlu (insn : Word) (c : ArmCpu) : ArmCpu :=
  let rd := thumbReg insn 0
  let a := c.r rd
  let b := c.r (thumbReg insn 3)
  let carry := c.getFlag armCpsrC
  let cin : Word := if carry then 1 else 0
  let shift (type : Nat) : ArmCpu :=
    let (res, carry) := barrelShift a type (b &&& 0xff).toNat true carry
    thumbLogic rd res carry c
  match (field insn 6).toNat with
  | 0x0 => thumbLogic rd (a &&& b) carry c
  | 0x1 => thumbLogic rd (a ^^^ b) carry c
  | 0x2 => shift 0
  | 0x3 => shift 1
  | 0x4 => shift 2
  | 0x5 => writeResult rd (aluAdd c a b cin true)
  | 0x6 => writeResult rd (aluSub c a b cin true)
  | 0x7 => shift 3
  | 0x8 => aluLogicFlags c (a &&& b) carry true
  | 0x9 => writeResult rd (aluSub c 0 b 1 true)
  | 0xa => (aluSub c a b 1 true).2
  | 0xb => (aluAdd c a b 0 true).2
  | 0xc => thumbLogic rd (a ||| b) carry c
  | 0xd =>
    let res := a * b
    ((c.setR rd res).setFlag armCpsrN (bit res 31)).setFlag armCpsrZ (res == 0)
  | 0xe => thumbLogic rd (a &&& ~~~b) carry c
  | _ => thumbLogic rd (~~~b) carry c

/-- The high-register operations and BX and BLX of group four. -/
def thumbHiReg (pc insn next : Word) (c : ArmCpu) : Retired :=
  let pc4 := pc + 4
  let rd : RegNo := thumbReg insn 0 ||| (if bit insn 7 then 8 else 0)
  let rs : RegNo := thumbReg insn 3 ||| (if bit insn 6 then 8 else 0)
  let sv := if rs = 15 then pc4 else c.r rs
  match ((insn >>> 8) &&& 3).toNat with
  | 0 =>
    if rd = 15 then ((.ok, (pc4 + sv) &&& ~~~1), c) else ((.ok, next), c.setR rd (c.r rd + sv))
  | 1 => ((.ok, next), (aluSub c (if rd = 15 then pc4 else c.r rd) sv 1 true).2)
  | 2 => if rd = 15 then ((.ok, sv &&& ~~~1), c) else ((.ok, next), c.setR rd sv)
  | _ =>
    if bit insn 7 ∧ rs = 15 then ((.undefined, next), c)
    else if sv &&& 3 = 2 then ((.undefined, next), c)
    else
      let c := if bit insn 7 then c.setR 14 ((pc + 2) ||| 1) else c
      ((.ok, sv &&& ~~~1), if bit sv 0 then c else c.setCpsr (c.cpsr &&& ~~~armCpsrT))

/-- Group ten: ADD to the program counter or the stack pointer. -/
def thumbAddress (pc insn : Word) (c : ArmCpu) : ArmCpu :=
  let imm := (insn &&& 0xff) <<< 2
  c.setR (thumbReg insn 8) (if bit insn 11 then c.r 13 + imm else ((pc + 4) &&& ~~~3) + imm)

/-- SXTH, SXTB, UXTH and UXTB. -/
def thumbExtend (insn : Word) (c : ArmCpu) : ArmCpu :=
  let v := c.r (thumbReg insn 3)
  c.setR (thumbReg insn 0) <|
    match ((insn >>> 6) &&& 3).toNat with
    | 0 => signExtend16 v
    | 1 => signExtend8 v
    | 2 => v &&& 0xffff
    | _ => v &&& 0xff

/-- REV, REV16 and REVSH. -/
def thumbReverse (insn : Word) (c : ArmCpu) : ArmStatus × ArmCpu :=
  let v := c.r (thumbReg insn 3)
  let rd := thumbReg insn 0
  match ((insn >>> 6) &&& 3).toNat with
  | 0 => (.ok, c.setR rd (revWord v))
  | 1 => (.ok, c.setR rd (rev16Word v))
  | 3 => (.ok, c.setR rd (revshWord v))
  | _ => (.undefined, c)

/-- The mask bits of CPS in both instruction sets: A, I and F, each where its bit is set. -/
def cpsMasks (a i f disable : Bool) (c : ArmCpu) : ArmCpu :=
  let c := if a then c.setFlag armCpsrA disable else c
  let c := if i then c.setFlag armCpsrI disable else c
  if f then c.setFlag armCpsrF disable else c

/-- The Thumb CPS, a no-op in User mode. -/
def thumbCps (insn : Word) (c : ArmCpu) : ArmCpu :=
  if cpuIsPriv c then cpsMasks (bit insn 2) (bit insn 1) (bit insn 0) (bit insn 4) c else c

/-- The target of the first half of a BL pair, kept in the link register. -/
def thumbBlPrefix (pc insn : Word) (c : ArmCpu) : ArmCpu :=
  c.setR 14 (pc + (4 : Word) + ((insn &&& 0x7ff) <<< 21).sshiftRight 9)

namespace Exec

variable {σ : Type} (B : ArmBus σ)

/-- A load that commits its destination unless it has faulted. -/
def thumbLoad (rd : RegNo) (load : Exec σ Word) : Exec σ ArmStatus := do
  let v ← load
  if ← abortLatched then return .ok
  modifyCpu (·.setR rd v)
  return .ok

/-- The word and byte transfers that the L and B bits of an encoding select. -/
def thumbWordByte (load byte : Bool) (rd : RegNo) (addr : Word) : Exec σ ArmStatus := do
  let w : MemWidth := if byte then .w8 else .w32
  if load then return ← thumbLoad rd (memR B w addr)
  let c ← getCpu
  memW B w addr (c.r rd)
  return .ok

/-- The halfword and sign-extending transfers of group five. -/
def thumbSigned (op : Nat) (rd : RegNo) (addr : Word) : Exec σ ArmStatus := do
  let c ← getCpu
  if op ≠ 1 ∧ legacyHalfwordUnpredictable c addr then return .undefined
  if op = 0 then
    memW16 B addr (c.r rd)
    return .ok
  thumbLoad rd (extraLoad B (if op = 2 then 1 else if op = 1 then 2 else 3) addr)

/-- Group five: register-offset transfers. -/
def thumbRegisterOffset (insn : Word) : Exec σ ArmStatus := do
  let c ← getCpu
  let rd := thumbReg insn 0
  let addr := c.r (thumbReg insn 3) + c.r (thumbReg insn 6)
  if bit insn 9 then return ← thumbSigned B ((insn >>> 10) &&& 3).toNat rd addr
  thumbWordByte B (bit insn 11) (bit insn 10) rd addr

/-- Groups six and seven: word and byte transfers with a five-bit offset. -/
def thumbImmediateOffset (insn : Word) : Exec σ ArmStatus := do
  let c ← getCpu
  let off := (insn >>> 6) &&& 0x1f
  let byte := bit insn 12
  let addr := c.r (thumbReg insn 3) + (if byte then off else off <<< 2)
  thumbWordByte B (bit insn 11) byte (thumbReg insn 0) addr

/-- Group eight: halfword transfers. -/
def thumbHalfword (insn : Word) : Exec σ ArmStatus := do
  let c ← getCpu
  let rd := thumbReg insn 0
  let addr := c.r (thumbReg insn 3) + (((insn >>> 6) &&& 0x1f) <<< 1)
  if legacyHalfwordUnpredictable c addr then return .undefined
  if bit insn 11 then return ← thumbLoad rd (memR16 B addr)
  memW16 B addr (c.r rd)
  return .ok

/-- POP; a popped program counter may switch to ARM state. -/
def thumbPop (list : Word) (extra : Bool) (next : Word) : Exec σ (ArmStatus × Word) := do
  let c ← getCpu
  let oldSp := c.r 13
  let regs := listRegs list ++ (if extra then [15] else [])
  match ← onCpu (prepareMultiwordAddress oldSp 4 false) with
  | none => return (.ok, next)
  | some addr =>
    match ← loadList B addr regs with
    | none => return (.ok, next)
    | some vs =>
      let pcv := (loadedPc vs).getD 0
      if extra ∧ pcv &&& 3 = 2 then return (.undefined, next)
      modifyCpu fun c =>
        let c := commitList ArmCpu.setR (vs.filter fun v => v.1 != 15) c
        c.setR 13 (oldSp + 4 * BitVec.ofNat 32 regs.length)
      if extra then
        guarded (¬ bit pcv 0) (modifyCpu fun c => c.setCpsr (c.cpsr &&& ~~~armCpsrT))
        return (.ok, pcv &&& ~~~1)
      return (.ok, next)

/-- PUSH: descending, the link register last. -/
def thumbPush (list : Word) (extra : Bool) : Exec σ ArmStatus := do
  let c ← getCpu
  let regs := listRegs list ++ (if extra then [14] else [])
  let newSp := c.r 13 - 4 * BitVec.ofNat 32 regs.length
  match ← onCpu (prepareMultiwordAddress newSp 4 true) with
  | none => return .ok
  | some addr =>
    if ← storeList B ArmCpu.r addr regs then modifyCpu (·.setR 13 newSp)
    return .ok

/-- Group eleven: the miscellaneous instructions. -/
def thumbMiscellaneous (insn next : Word) : Exec σ (ArmStatus × Word) := do
  if insn &&& 0xff00 = 0xb000 then
    let imm := (insn &&& 0x7f) <<< 2
    modifyCpu fun c => c.setR 13 (if bit insn 7 then c.r 13 - imm else c.r 13 + imm)
    return (.ok, next)
  if insn &&& 0xf600 = 0xb400 then
    let list := insn &&& 0xff
    let extra := bit insn 8
    if list = 0 ∧ ¬ extra then return (.undefined, next)
    if bit insn 11 then return ← thumbPop B list extra next
    return (← thumbPush B list extra, next)
  if insn &&& 0xff00 = 0xb200 then
    modifyCpu (thumbExtend insn)
    return (.ok, next)
  if insn &&& 0xff00 = 0xba00 then return (← onCpu (thumbReverse insn), next)
  if insn &&& 0xffe0 = 0xb660 then
    modifyCpu (thumbCps insn)
    return (.ok, next)
  if insn &&& 0xfff7 = 0xb650 then return (if bit insn 3 then .undefined else .ok, next)
  return (.undefined, next)

/-- Group twelve: LDMIA and STMIA. -/
def thumbMultiple (insn : Word) : Exec σ ArmStatus := do
  let c ← getCpu
  let rb := thumbReg insn 8
  let list := insn &&& 0xff
  let base := c.r rb
  let load := bit insn 11
  let inList := bit list rb.toNat
  if list = 0 then return .undefined
  if ¬ load ∧ inList ∧ list &&& (((1 : Word) <<< rb.toNat) - 1) ≠ 0 then return .undefined
  let wb := base + 4 * BitVec.ofNat 32 (listRegs list).length
  match ← onCpu (prepareMultiwordAddress base 4 (!load)) with
  | none => return .ok
  | some addr =>
    if load then
      match ← loadList B addr (listRegs list) with
      | none => return .ok
      | some vs =>
        modifyCpu fun c =>
          let c := commitList ArmCpu.setR vs c
          if inList then c else c.setR rb wb
        return .ok
    if ← storeList B ArmCpu.r addr (listRegs list) then modifyCpu (·.setR rb wb)
    return .ok

/-- Group thirteen: conditional branches and SWI. -/
def thumbConditional (pc insn next : Word) : Exec σ (ArmStatus × Word) := do
  let cond := field insn 8
  if cond = 15 then return ← execSvc B pc insn (pc + 2) next
  if cond = 14 then return (.undefined, next)
  let c ← getCpu
  return (.ok,
    if armCondPassed c cond then pc + (4 : Word) + (signExtend8 (insn &&& 0xff) <<< 1) else next)

/-- Group fourteen: the unconditional branch, and the suffix of BLX. -/
def thumbBranch (pc insn : Word) (c : ArmCpu) : Word × ArmCpu :=
  if bit insn 11 then
    let target := (c.r 14 + ((insn &&& 0x7ff) <<< 1)) &&& ~~~3
    let c := c.setR 14 ((pc + 2) ||| 1)
    (target, c.setCpsr (c.cpsr &&& ~~~armCpsrT))
  else (pc + (4 : Word) + ((insn &&& 0x7ff) <<< 21).sshiftRight 20, c)

/-- Group fifteen: the two halves of BL. -/
def thumbBl (pc insn next : Word) (c : ArmCpu) : Word × ArmCpu :=
  if bit insn 11 then
    let target := c.r 14 + ((insn &&& 0x7ff) <<< 1)
    (target &&& ~~~1, c.setR 14 ((pc + 2) ||| 1))
  else (next, thumbBlPrefix pc insn c)

/-- Group four: register operations, high registers and the literal load. -/
def thumbRegister (pc insn next : Word) : Exec σ (ArmStatus × Word) := do
  if insn &&& 0xfc00 = 0x4000 then
    modifyCpu (thumbAlu insn)
    return (.ok, next)
  if insn &&& 0xfc00 = 0x4400 then return ← onCpu (thumbHiReg pc insn next)
  let addr := ((pc + (4 : Word)) &&& ~~~(3 : Word)) + ((insn &&& (0xff : Word)) <<< 2)
  return (← thumbLoad (thumbReg insn 8) (memR32 B addr), next)

/-- `thumb_step`. The encoding is zero-extended. -/
def thumbStep (pc insn next : Word) : Exec σ (ArmStatus × Word) :=
  match (field insn 12).toNat with
  | 0x0 | 0x1 => do
    modifyCpu (thumbShiftAdd insn)
    return (.ok, next)
  | 0x2 | 0x3 => do
    modifyCpu (thumbImmediate insn)
    return (.ok, next)
  | 0x4 => thumbRegister B pc insn next
  | 0x5 => do return (← thumbRegisterOffset B insn, next)
  | 0x6 | 0x7 => do return (← thumbImmediateOffset B insn, next)
  | 0x8 => do return (← thumbHalfword B insn, next)
  | 0x9 => do
    let c ← getCpu
    let addr := c.r 13 + ((insn &&& 0xff) <<< 2)
    return (← thumbWordByte B (bit insn 11) false (thumbReg insn 8) addr, next)
  | 0xa => do
    modifyCpu (thumbAddress pc insn)
    return (.ok, next)
  | 0xb => thumbMiscellaneous B insn next
  | 0xc => do return (← thumbMultiple B insn, next)
  | 0xd => thumbConditional B pc insn next
  | 0xe => do
    let next ← onCpu (thumbBranch pc insn)
    return (.ok, next)
  | _ => do
    let next ← onCpu (thumbBl pc insn next)
    return (.ok, next)

end Exec

end S5LBox
