import S5LBox.Arm.Memory

/-!
# Data processing, program status transfers and multiplies

The ARM-state instructions that read and write the core alone (`arm_interp.c`). Each takes the
address of the instruction and its encoding, and returns the status, the next program counter
where it can change it, and the core.

## Main definitions

* `barrelShift`, `aluAdd`, `aluLogicFlags`: the shifter and the flags.
* `execDataProcessing`: the data-processing space, with the miscellaneous space inside it
  (`execMiscellaneous`) and exception returns through the program counter (`writePc`).
* `execMultiply`, `execMultiplyLong`, `execDspMultiply`, `execBranch`.
-/

namespace S5LBox

/-- The status of an instruction, the next program counter, and the core. -/
abbrev Retired := (ArmStatus × Word) × ArmCpu

/-- `arm_cond_passed`. -/
def armCondPassed (c : ArmCpu) (cond : RegNo) : Bool :=
  let n := c.getFlag armCpsrN
  let z := c.getFlag armCpsrZ
  let cf := c.getFlag armCpsrC
  let v := c.getFlag armCpsrV
  match cond.toNat with
  | 0x0 => z
  | 0x1 => !z
  | 0x2 => cf
  | 0x3 => !cf
  | 0x4 => n
  | 0x5 => !n
  | 0x6 => v
  | 0x7 => !v
  | 0x8 => cf && !z
  | 0x9 => !cf || z
  | 0xa => n == v
  | 0xb => n != v
  | 0xc => !z && n == v
  | 0xd => z || n != v
  | _ => true

/-! ### The shifter and the flags -/

/-- The mask of all ones or all zeros that a sign bit extends to. -/
def signMask (v : Word) : Word := if v &&& 0x80000000 ≠ 0 then 0xffffffff else 0

/-- `barrel_shift`: the shifted value and the carry out. -/
def barrelShift (val : Word) (type amount : Nat) (regAmount carry : Bool) : Word × Bool :=
  match type % 4 with
  | 0 =>
    if amount = 0 then (val, carry)
    else if amount < 32 then (val <<< amount, bit val (32 - amount))
    else if amount = 32 then (0, bit val 0)
    else (0, false)
  | 1 =>
    if amount = 0 then if regAmount then (val, carry) else (0, bit val 31)
    else if amount < 32 then (val >>> amount, bit val (amount - 1))
    else if amount = 32 then (0, bit val 31)
    else (0, false)
  | 2 =>
    if amount = 0 then if regAmount then (val, carry) else (signMask val, bit val 31)
    else if amount < 32 then (val.sshiftRight amount, bit val (amount - 1))
    else (signMask val, bit val 31)
  | _ =>
    if amount = 0 then
      if regAmount then (val, carry)
      else ((val >>> 1) ||| ((if carry then (1 : Word) else 0) <<< 31), bit val 0)
    else
      let amount := amount % 32
      if amount = 0 then (val, bit val 31)
      else (ror32 val amount, bit val (amount - 1))

/-- `dp_operand2`: the shifter operand of a data-processing instruction. -/
def dpOperand2 (c : ArmCpu) (pc insn : Word) (carry : Bool) : Word × Bool :=
  if bit insn 25 then
    let imm := insn &&& 0xff
    let rot := (field insn 8).toNat * 2
    let val := ror32 imm rot
    (val, if rot ≠ 0 then bit val 31 else carry)
  else
    let rmv := regRead c pc (field insn 0)
    let type := ((insn >>> 5) &&& 3).toNat
    if bit insn 4 then
      let amt := (regRead c pc (field insn 8) &&& 0xff).toNat
      barrelShift rmv type amt true carry
    else
      let amt := ((insn >>> 7) &&& 0x1f).toNat
      barrelShift rmv type amt false carry

/-- `alu_add`: the sum, with the four flags when they are asked for. -/
def aluAdd (c : ArmCpu) (a b cin : Word) (set : Bool) : Word × ArmCpu :=
  let u : BitVec 64 := a.setWidth 64 + b.setWidth 64 + cin.setWidth 64
  let r : Word := u.setWidth 32
  if set then
    let c := c.setFlag armCpsrN (bit r 31)
    let c := c.setFlag armCpsrZ (r == 0)
    let c := c.setFlag armCpsrC (u.getLsbD 32)
    let c := c.setFlag armCpsrV (bit (~~~(a ^^^ b) &&& (a ^^^ r)) 31)
    (r, c)
  else (r, c)

/-- `alu_sub`: the sum with the one's complement. -/
def aluSub (c : ArmCpu) (a b cin : Word) (set : Bool) : Word × ArmCpu :=
  aluAdd c a (~~~b) cin set

/-- `alu_logic_flags`. -/
def aluLogicFlags (c : ArmCpu) (r : Word) (carry set : Bool) : ArmCpu :=
  if set then
    ((c.setFlag armCpsrN (bit r 31)).setFlag armCpsrZ (r == 0)).setFlag armCpsrC carry
  else c

/-! ### The data-processing space -/

/-- The byte lanes that the field mask of an MSR selects. -/
def msrMask (insn : Word) : Word :=
  (if bit insn 16 then 0x000000ff else 0) ||| (if bit insn 17 then 0x0000ff00 else 0) |||
    (if bit insn 18 then 0x00ff0000 else 0) ||| (if bit insn 19 then 0xff000000 else 0)

/-- MSR to the current status register: in User mode only the flags byte may change, and a new
mode rebanks before the rest is applied. -/
def msrCpsr (c : ArmCpu) (mask val : Word) : ArmStatus × ArmCpu :=
  let mask :=
    if armBankOfMode c.cpsr = .usr ∧ c.mode = armModeUsr then mask &&& 0xff000000 else mask
  let newcpsr := (c.cpsr &&& ~~~mask) ||| (val &&& mask)
  if mask &&& armCpsrModeMask ≠ 0 ∧ ¬ armModeIsValid newcpsr then (.undefined, c)
  else if mask &&& 0x1f ≠ 0 ∧ newcpsr &&& armCpsrModeMask ≠ c.cpsr &&& armCpsrModeMask then
    let c := armSetMode c newcpsr
    (.ok, c.setCpsr ((c.cpsr &&& armCpsrModeMask) ||| (newcpsr &&& ~~~armCpsrModeMask)))
  else (.ok, c.setCpsr newcpsr)

/-- Signed saturation of a 64-bit intermediate to 32 bits, with the saturation noted. -/
def saturate32 (acc : Int) (sat : Bool) : Int × Bool :=
  if acc > 2147483647 then (2147483647, true)
  else if acc < -2147483648 then (-2147483648, true)
  else (acc, sat)

/-- QADD, QSUB, QDADD and QDSUB on the operands `m` and `n`. -/
def saturatingArith (op : Nat) (m n : Int) : Int × Bool :=
  let (n, sat) := if op = 2 ∨ op = 3 then saturate32 (n * 2) false else (n, false)
  saturate32 (if op = 0 ∨ op = 2 then m + n else m - n) sat

/-- The miscellaneous and control space inside the data-processing space: BX, BLX, CLZ, the
saturating arithmetic, MRS and MSR. -/
def execMiscellaneous (pc insn next : Word) (c : ArmCpu) : Retired :=
  let rd := field insn 12
  if insn &&& 0x0ffffff0 = 0x012fff10 then
    let t := regRead c pc (field insn 0)
    if t &&& 3 = 2 then ((.undefined, next), c)
    else ((.ok, t &&& ~~~1), if bit t 0 then c.setCpsr (c.cpsr ||| armCpsrT) else c)
  else if insn &&& 0x0ffffff0 = 0x012fff30 then
    let t := regRead c pc (field insn 0)
    if field insn 0 = 15 then ((.undefined, next), c)
    else if t &&& 3 = 2 then ((.undefined, next), c)
    else
      let c := c.setR 14 (pc + 4)
      ((.ok, t &&& ~~~1), if bit t 0 then c.setCpsr (c.cpsr ||| armCpsrT) else c)
  else if insn &&& 0x0fff0ff0 = 0x016f0f10 then
    let v := regRead c pc (field insn 0)
    ((.ok, next), c.setR rd (if v = 0 then 32 else v.clz))
  else if insn &&& 0x0f900ff0 = 0x01000050 then
    let (acc, sat) := saturatingArith ((insn >>> 21) &&& 3).toNat
      (regRead c pc (field insn 0)).toInt (regRead c pc (field insn 16)).toInt
    let c := c.setR rd (BitVec.ofInt 32 acc)
    ((.ok, next), if sat then c.setCpsr (c.cpsr ||| armCpsrQ) else c)
  else
    let spsr := bit insn 22
    let bank := armBankOfMode c.cpsr
    if insn &&& 0x0fbf0fff = 0x010f0000 then
      if spsr ∧ bank = .usr then ((.undefined, next), c)
      else ((.ok, next), c.setR rd (if spsr then c.spsr bank else c.cpsr))
    else if insn &&& 0x0fb0fff0 = 0x0120f000 ∨ insn &&& 0x0fb0f000 = 0x0320f000 then
      let val :=
        if bit insn 25 then ror32 (insn &&& 0xff) ((field insn 8).toNat * 2)
        else regRead c pc (field insn 0)
      let mask := msrMask insn
      if spsr then
        if bank = .usr then ((.undefined, next), c)
        else
          ((.ok, next), { c with
            spsr := Function.update c.spsr bank ((c.spsr bank &&& ~~~mask) ||| (val &&& mask)) })
      else
        let (st, c) := msrCpsr c mask val
        ((st, next), c)
    else ((.undefined, next), c)

/-- The sixteen data-processing operations: the result and the core with its flags. The
comparisons, which write no register, return their result too. -/
def aluOp (c : ArmCpu) (opcode : Nat) (a op2 : Word) (shifterCarry S : Bool) : Word × ArmCpu :=
  let cin : Word := if c.getFlag armCpsrC then 1 else 0
  let logic (r : Word) (set : Bool) : Word × ArmCpu := (r, aluLogicFlags c r shifterCarry set)
  match opcode with
  | 0x0 => logic (a &&& op2) S
  | 0x1 => logic (a ^^^ op2) S
  | 0x2 => aluSub c a op2 1 S
  | 0x3 => aluSub c op2 a 1 S
  | 0x4 => aluAdd c a op2 0 S
  | 0x5 => aluAdd c a op2 cin S
  | 0x6 => aluSub c a op2 cin S
  | 0x7 => aluSub c op2 a cin S
  | 0x8 => logic (a &&& op2) true
  | 0x9 => logic (a ^^^ op2) true
  | 0xa => aluSub c a op2 1 true
  | 0xb => aluAdd c a op2 0 true
  | 0xc => logic (a ||| op2) S
  | 0xd => logic op2 S
  | 0xe => logic (a &&& ~~~op2) S
  | _ => logic (~~~op2) S

/-- The mask that aligns a branch target to the instruction set of the status register. -/
def pcMask (cpsr : Word) : Word := if cpsr &&& armCpsrT ≠ 0 then ~~~1 else ~~~3

/-- A data-processing result written to the program counter: with S set it is an exception
return, and the restored state decides the alignment. -/
def writePc (c : ArmCpu) (res : Word) (S : Bool) : Word × ArmCpu :=
  let c :=
    if S ∧ armBankOfMode c.cpsr ≠ .usr then restoreCpsr c (c.spsr (armBankOfMode c.cpsr)) else c
  (res &&& pcMask c.cpsr, c)

/-- `exec_data_processing`. -/
def execDataProcessing (pc insn next : Word) (c : ArmCpu) : Retired :=
  let opcode := (field insn 21).toNat
  let S := bit insn 20
  let rn := field insn 16
  let rd := field insn 12
  if c.arch = .v7Swift ∧ insn &&& 0x0fb00000 = 0x03000000 then
    let imm16 := ((insn >>> 4) &&& 0xf000) ||| (insn &&& 0x0fff)
    if rd = 15 then ((.undefined, next), c)
    else
      let v := if bit insn 22 then (c.r rd &&& (0x0000ffff : Word)) ||| (imm16 <<< 16) else imm16
      ((.ok, next), c.setR rd v)
  else if 8 ≤ opcode ∧ opcode ≤ 0xb ∧ ¬ S then execMiscellaneous pc insn next c
  else if insn &&& ((1 : Word) <<< 25) = 0 ∧ insn &&& ((1 : Word) <<< 4) ≠ 0 ∧
      (rd = 15 ∨ rn = 15 ∨ field insn 0 = 15 ∨ field insn 8 = 15) then ((.undefined, next), c)
  else
    let writesResult := opcode < 8 ∨ 12 ≤ opcode
    if writesResult ∧ rd = 15 ∧ S ∧ (armBankOfMode c.cpsr = .usr ∨
        ¬ armModeIsValid (c.spsr (armBankOfMode c.cpsr))) then ((.undefined, next), c)
    else
      let (op2, shifterCarry) := dpOperand2 c pc insn (c.getFlag armCpsrC)
      let (res, c) := aluOp c opcode (regRead c pc rn) op2 shifterCarry S
      if writesResult then
        let c := c.setR rd res
        if rd = 15 then
          let (next, c) := writePc c res S
          ((.ok, next), c)
        else ((.ok, next), c)
      else ((.ok, next), c)

/-- `exec_branch`. -/
def execBranch (pc insn : Word) (c : ArmCpu) : Retired :=
  let off := (insn <<< 8).sshiftRight 6
  let c := if bit insn 24 then c.setR 14 (pc + 4) else c
  ((.ok, (pc + 8 + off) &&& ~~~3), c)

/-! ### Multiplies -/

/-- `exec_multiply`: MUL and MLA. -/
def execMultiply (pc insn : Word) (c : ArmCpu) : ArmStatus × ArmCpu :=
  let res := regRead c pc (field insn 0) * regRead c pc (field insn 8)
  let res := if bit insn 21 then res + regRead c pc (field insn 12) else res
  let c := c.setR (field insn 16) res
  (.ok, if bit insn 20 then (c.setFlag armCpsrN (bit res 31)).setFlag armCpsrZ (res == 0) else c)

/-- `exec_multiply_long`: UMULL, UMLAL, SMULL and SMLAL. -/
def execMultiplyLong (pc insn : Word) (c : ArmCpu) : ArmStatus × ArmCpu :=
  let rdhi := field insn 16
  let rdlo := field insn 12
  let rs := field insn 8
  let rm := field insn 0
  if rdhi = 15 ∨ rdlo = 15 ∨ rs = 15 ∨ rm = 15 ∨ rdhi = rdlo then (.undefined, c)
  else
    let a := regRead c pc rm
    let b := regRead c pc rs
    let res : BitVec 64 :=
      if bit insn 22 then a.signExtend 64 * b.signExtend 64 else a.setWidth 64 * b.setWidth 64
    let res := if bit insn 21 then res + (c.r rdhi ++ c.r rdlo) else res
    let c := (c.setR rdlo (res.setWidth 32)).setR rdhi ((res >>> 32).setWidth 32)
    (.ok, if bit insn 20 then
      (c.setFlag armCpsrN (res.getLsbD 63)).setFlag armCpsrZ (res == 0) else c)

/-- `dsp_signed_half`: the top or bottom halfword, sign-extended. -/
def dspSignedHalf (v : Word) (top : Bool) : Int :=
  ((if top then v >>> 16 else v).setWidth 16).toInt

/-- `dsp_accumulate_word`: the sum modulo `2 ^ 32`, with Q set when it does not fit. -/
def dspAccumulateWord (c : ArmCpu) (product : Int) (accumulator : Word) : Word × ArmCpu :=
  let sum := product + accumulator.toInt
  (BitVec.ofInt 32 sum,
    if sum > 2147483647 ∨ sum < -2147483648 then c.setCpsr (c.cpsr ||| armCpsrQ) else c)

/-- `exec_dsp_multiply`: the ARMv5TE signed halfword multiplies. -/
def execDspMultiply (insn : Word) (c : ArmCpu) : ArmStatus × ArmCpu :=
  let rd := field insn 16
  let rn := field insn 12
  let rs := field insn 8
  let rm := field insn 0
  let x := bit insn 5
  let y := bit insn 6
  let halves := dspSignedHalf (c.r rm) x * dspSignedHalf (c.r rs) y
  let wordHalf := (c.r rm).toInt * dspSignedHalf (c.r rs) y
  let upper : Word := (BitVec.ofInt 64 wordHalf >>> 16).setWidth 32
  if insn &&& 0x0ff00090 = 0x01000080 then
    if rd = 15 ∨ rn = 15 ∨ rs = 15 ∨ rm = 15 then (.undefined, c)
    else
      let (v, c) := dspAccumulateWord c halves (c.r rn)
      (.ok, c.setR rd v)
  else if insn &&& 0x0ff000b0 = 0x01200080 then
    if rd = 15 ∨ rn = 15 ∨ rs = 15 ∨ rm = 15 then (.undefined, c)
    else
      let (v, c) := dspAccumulateWord c upper.toInt (c.r rn)
      (.ok, c.setR rd v)
  else if insn &&& 0x0ff0f0b0 = 0x012000a0 then
    if rd = 15 ∨ rs = 15 ∨ rm = 15 then (.undefined, c)
    else (.ok, c.setR rd upper)
  else if insn &&& 0x0ff00090 = 0x01400080 then
    if rd = 15 ∨ rn = 15 ∨ rs = 15 ∨ rm = 15 ∨ rd = rn then (.undefined, c)
    else
      let result := (c.r rd ++ c.r rn) + BitVec.ofInt 64 halves
      (.ok, (c.setR rn (result.setWidth 32)).setR rd ((result >>> 32).setWidth 32))
  else if insn &&& 0x0ff0f090 = 0x01600080 then
    if rd = 15 ∨ rs = 15 ∨ rm = 15 then (.undefined, c)
    else (.ok, c.setR rd (BitVec.ofInt 32 halves))
  else (.undefined, c)

end S5LBox
