import Mathlib.Data.Int.Bitwise
import S5LBox.Arm.DataProcessing

/-!
# The ARMv6 media space

The extend, byte-reverse, parallel arithmetic, pack, select, dual-multiply and saturation
families (`exec_media`), and the ARMv7 divides that the ARM1176 refuses. Each family is a
function of its own, tried in the order of the source; `execMedia` is the chain.

## Main definitions

* `execMedia`.
-/

namespace S5LBox

/-- `sign_extend8`. -/
def signExtend8 (v : Word) : Word := (v.setWidth 8).signExtend 32

/-- `sign_extend16`. -/
def signExtend16 (v : Word) : Word := (v.setWidth 16).signExtend 32

/-- `signed_saturate` to `bits` bits, which are one to thirty-two. -/
def signedSaturate (value : Int) (bits : Nat) : Word × Bool :=
  let limit : Int := 2 ^ (bits - 1)
  if value < -limit then (BitVec.ofInt 32 (-limit), true)
  else if value > limit - 1 then (BitVec.ofInt 32 (limit - 1), true)
  else (BitVec.ofInt 32 value, false)

/-- `unsigned_saturate` to `bits` bits, which are zero to thirty-one. -/
def unsignedSaturate (value : Int) (bits : Nat) : Word × Bool :=
  let hi : Int := 2 ^ bits - 1
  if value < 0 then (0, true)
  else if value > hi then (BitVec.ofInt 32 hi, true)
  else (BitVec.ofInt 32 value, false)

/-- Two halfwords side by side. -/
def packHalves (hi lo : BitVec 16) : Word := hi ++ lo

/-- SXT(A)B16, UXT(A)B16, SXT(A)B, SXT(A)H, UXT(A)B and UXT(A)H. -/
def mediaExtend (pc insn : Word) (c : ArmCpu) : ArmStatus × ArmCpu :=
  let op := (field insn 20).toNat
  let rn := field insn 16
  let rd := field insn 12
  let rm := field insn 0
  let rot := ((insn >>> 10) &&& 3).toNat
  if rd = 15 ∨ rm = 15 then (.undefined, c)
  else
    let v := ror32 (regRead c pc rm) (rot * 8)
    if op = 0x8 ∨ op = 0xc then
      let ext (w : Word) : BitVec 16 :=
        if op = 0x8 then (signExtend8 w).setWidth 16 else (w.setWidth 8).setWidth 16
      let base : Word := if rn ≠ 15 then regRead c pc rn else 0
      let lo := base.setWidth 16 + ext v
      let hi := (base >>> 16).setWidth 16 + ext (v >>> 16)
      (.ok, c.setR rd (packHalves hi lo))
    else
      let res : Option Word :=
        if op = 0xa then some (signExtend8 v)
        else if op = 0xb then some (signExtend16 v)
        else if op = 0xe then some (v &&& 0xff)
        else if op = 0xf then some (v &&& 0xffff)
        else none
      match res with
      | none => (.undefined, c)
      | some res => (.ok, c.setR rd (if rn ≠ 15 then res + regRead c pc rn else res))

/-- The bytes of a word in reverse order. -/
def revWord (v : Word) : Word :=
  ((v &&& (0xff : Word)) <<< 24) ||| ((v &&& (0xff00 : Word)) <<< 8) |||
    ((v >>> 8) &&& (0xff00 : Word)) ||| ((v >>> 24) &&& (0xff : Word))

/-- The bytes of each halfword in reverse order. -/
def rev16Word (v : Word) : Word :=
  ((v &&& 0x00ff) <<< 8) ||| ((v &&& 0xff00) >>> 8) ||| ((v &&& 0x00ff0000) <<< 8) |||
    ((v &&& 0xff000000) >>> 8)

/-- The low halfword byte-reversed and sign-extended. -/
def revshWord (v : Word) : Word := signExtend16 (((v &&& 0xff) <<< 8) ||| ((v >>> 8) &&& 0xff))

/-- REV, REV16 and REVSH, which differ in the operation alone. -/
def mediaReverse (op : Word → Word) (pc insn : Word) (c : ArmCpu) : ArmStatus × ArmCpu :=
  let rd := field insn 12
  let rm := field insn 0
  if rd = 15 ∨ rm = 15 then (.undefined, c) else (.ok, c.setR rd (op (regRead c pc rm)))

/-- The class and operation of a parallel addition or subtraction. -/
structure ParallelOp where
  byte : Bool
  sgn : Bool
  sat : Bool
  halve : Bool
  writesGe : Bool
  isSub : Bool
  exchAs : Bool
  exchSa : Bool

/-- One lane of a parallel addition or subtraction: the reduced lane, and its GE bit. -/
def parallelLane (p : ParallelOp) (a b : Word) (i : Nat) : Word × Bool :=
  let width := if p.byte then 8 else 16
  let mask : Word := if p.byte then 0xff else 0xffff
  let am := (a >>> (i * width)) &&& mask
  let bi := if !p.byte && (p.exchAs || p.exchSa) then 1 - i else i
  let bm := (b >>> (bi * width)) &&& mask
  let sub := if p.exchSa then i == 1 else if p.exchAs then i == 0 else p.isSub
  let signed (w : Word) : Int := if p.byte then (w.setWidth 8).toInt else (w.setWidth 16).toInt
  let unsignedValue : Int := if sub then (am.toNat : Int) - bm.toNat else am.toNat + bm.toNat
  let sv : Int :=
    if p.sgn then if sub then signed am - signed bm else signed am + signed bm else unsignedValue
  let lane : Int :=
    if p.halve then (if p.sgn then sv else unsignedValue) >>> 1
    else if p.sat then
      if p.sgn then
        let lo := if p.byte then -128 else -32768
        let hi := if p.byte then 127 else 32767
        min (max sv lo) hi
      else
        let hi := if p.byte then 255 else 65535
        min (max unsignedValue 0) hi
    else if p.sgn then sv else unsignedValue
  let set :=
    if p.sgn then decide (0 ≤ sv)
    else if sub then decide (bm.toNat ≤ am.toNat)
    else decide (unsignedValue > mask.toNat)
  (BitVec.ofInt 32 lane &&& mask, set)

/-- The lanes of a parallel operation put together: the result and the GE bits. -/
def parallelResult (p : ParallelOp) (a b : Word) : Word × Word :=
  let width := if p.byte then 8 else 16
  let lanes := if p.byte then 4 else 2
  (List.range lanes).foldl (fun acc i =>
    let (lane, set) := parallelLane p a b i
    let ge : Word :=
      if !(p.writesGe && set) then 0
      else if p.byte then (1 : Word) <<< i else (3 : Word) <<< (i * 2)
    (acc.1 ||| (lane <<< (i * width)), acc.2 ||| ge)) (0, 0)

/-- The parallel additions and subtractions. -/
def mediaParallel (pc insn : Word) (c : ArmCpu) : ArmStatus × ArmCpu :=
  let cls := ((insn >>> 20) &&& 7).toNat
  let op := ((insn >>> 5) &&& 7).toNat
  let rn := field insn 16
  let rd := field insn 12
  let rm := field insn 0
  if cls = 0 ∨ cls = 4 then (.undefined, c)
  else if op = 5 ∨ op = 6 then (.undefined, c)
  else if rd = 15 ∨ rn = 15 ∨ rm = 15 then (.undefined, c)
  else
    let p : ParallelOp := {
      byte := op == 4 || op == 7
      isSub := op == 3 || op == 7
      exchAs := op == 1
      exchSa := op == 2
      sgn := cls == 1 || cls == 2 || cls == 3
      sat := cls == 2 || cls == 6
      halve := cls == 3 || cls == 7
      writesGe := cls == 1 || cls == 5 }
    let (result, ge) := parallelResult p (regRead c pc rn) (regRead c pc rm)
    let c := c.setR rd result
    (.ok, if p.writesGe then
      c.setCpsr ((c.cpsr &&& ~~~(0x000f0000 : Word)) ||| ((ge &&& 0xf) <<< 16)) else c)

/-- SDIV and UDIV, on the ARMv7 variant alone. -/
def mediaDivide (insn : Word) (c : ArmCpu) : ArmStatus × ArmCpu :=
  let rd := field insn 16
  let rm := field insn 8
  let rn := field insn 0
  if c.arch = .v6Arm1176 then (.undefined, c)
  else if rd = 15 ∨ rn = 15 ∨ rm = 15 then (.undefined, c)
  else
    let n := c.r rn
    let m := c.r rm
    let q : Word :=
      if m = 0 then 0
      else if bit insn 21 then n / m
      else if n = 0x80000000 ∧ m = 0xffffffff then 0x80000000
      else n.sdiv m
    (.ok, c.setR rd q)

/-- PKHBT and PKHTB. -/
def mediaPack (pc insn : Word) (c : ArmCpu) : ArmStatus × ArmCpu :=
  let rn := field insn 16
  let rd := field insn 12
  let rm := field insn 0
  let imm5 := ((insn >>> 7) &&& 0x1f).toNat
  if rd = 15 ∨ rn = 15 ∨ rm = 15 then (.undefined, c)
  else
    let n := regRead c pc rn
    let m := regRead c pc rm
    if bit insn 6 then
      let shifted := m.sshiftRight (if imm5 ≠ 0 then imm5 else 31)
      (.ok, c.setR rd ((n &&& 0xffff0000) ||| (shifted &&& 0x0000ffff)))
    else
      let shifted := if imm5 ≠ 0 then m <<< imm5 else m
      (.ok, c.setR rd ((n &&& 0x0000ffff) ||| (shifted &&& 0xffff0000)))

/-- SEL: each GE bit picks a byte lane. -/
def mediaSelect (pc insn : Word) (c : ArmCpu) : ArmStatus × ArmCpu :=
  let rn := field insn 16
  let rd := field insn 12
  let rm := field insn 0
  if rd = 15 ∨ rn = 15 ∨ rm = 15 then (.undefined, c)
  else
    let n := regRead c pc rn
    let m := regRead c pc rm
    let out := (List.range 4).foldl (fun (acc : Word) lane =>
      let mask := (0xff : Word) <<< (lane * 8)
      acc ||| (if bit c.cpsr (16 + lane) then n &&& mask else m &&& mask)) 0
    (.ok, c.setR rd out)

/-- The two halfword products of a dual multiply, added or subtracted. -/
def dualProduct (n m : Word) (sub swap : Bool) : Int :=
  let m := if swap then (m >>> 16) ||| (m <<< 16) else m
  let p1 := (n.setWidth 16).toInt * (m.setWidth 16).toInt
  let p2 := ((n >>> 16).setWidth 16).toInt * ((m >>> 16).setWidth 16).toInt
  if sub then p1 - p2 else p1 + p2

/-- SMLAD, SMUAD, SMLSD and SMUSD. -/
def mediaDual (pc insn : Word) (c : ArmCpu) : ArmStatus × ArmCpu :=
  let rd := field insn 16
  let ra := field insn 12
  let rm := field insn 8
  let rn := field insn 0
  if rd = 15 ∨ rm = 15 ∨ rn = 15 then (.undefined, c)
  else
    let acc := dualProduct (regRead c pc rn) (regRead c pc rm) (bit insn 6) (bit insn 5)
    let acc := if ra ≠ 15 then acc + (regRead c pc ra).toInt else acc
    let v := BitVec.ofInt 32 acc
    let c := if acc ≠ v.toInt then c.setCpsr (c.cpsr ||| armCpsrQ) else c
    (.ok, c.setR rd v)

/-- SMLALD and SMLSLD. -/
def mediaDualLong (pc insn : Word) (c : ArmCpu) : ArmStatus × ArmCpu :=
  let rdhi := field insn 16
  let rdlo := field insn 12
  let rm := field insn 8
  let rn := field insn 0
  if rdhi = 15 ∨ rdlo = 15 ∨ rm = 15 ∨ rn = 15 ∨ rdhi = rdlo then (.undefined, c)
  else
    let dual := dualProduct (regRead c pc rn) (regRead c pc rm) (bit insn 6) (bit insn 5)
    let acc := (regRead c pc rdhi ++ regRead c pc rdlo) + BitVec.ofInt 64 dual
    (.ok, (c.setR rdlo (acc.setWidth 32)).setR rdhi ((acc >>> 32).setWidth 32))

/-- SMMUL, SMMLA and SMMLS. -/
def mediaTopMultiply (pc insn : Word) (c : ArmCpu) : ArmStatus × ArmCpu :=
  let sel := ((insn >>> 6) &&& 3).toNat
  let rd := field insn 16
  let ra := field insn 12
  let rm := field insn 8
  let rn := field insn 0
  if sel ≠ 0 ∧ sel ≠ 3 then (.undefined, c)
  else if rd = 15 ∨ rm = 15 ∨ rn = 15 then (.undefined, c)
  else if sel = 3 ∧ ra = 15 then (.undefined, c)
  else
    let prod := (regRead c pc rn).signExtend 64 * (regRead c pc rm).signExtend 64
    let acc : BitVec 64 := if ra = 15 then 0 else (regRead c pc ra).signExtend 64 <<< 32
    let res := if sel = 3 then acc - prod else acc + prod
    let res := if bit insn 5 then res + 0x80000000 else res
    (.ok, c.setR rd ((res >>> 32).setWidth 32))

/-- USAD8 and USADA8. -/
def mediaAbsDiff (pc insn : Word) (c : ArmCpu) : ArmStatus × ArmCpu :=
  let rd := field insn 16
  let ra := field insn 12
  let rm := field insn 8
  let rn := field insn 0
  if rd = 15 ∨ rm = 15 ∨ rn = 15 then (.undefined, c)
  else
    let n := regRead c pc rn
    let m := regRead c pc rm
    let sum := (List.range 4).foldl (fun (sum : Word) lane =>
      let a := (n >>> (lane * 8)) &&& 0xff
      let b := (m >>> (lane * 8)) &&& 0xff
      sum + (if b < a then a - b else b - a)) (if ra = 15 then 0 else regRead c pc ra)
    (.ok, c.setR rd sum)

/-- The clamp of SSAT and USAT, by the bit that selects unsigned. -/
def saturateField (uns : Bool) (value : Int) (satField : Nat) : Word × Bool :=
  if uns then unsignedSaturate value satField else signedSaturate value (satField + 1)

/-- SSAT and USAT. -/
def mediaSaturate (pc insn : Word) (c : ArmCpu) : ArmStatus × ArmCpu :=
  let rd := field insn 12
  let rn := field insn 0
  if rd = 15 ∨ rn = 15 then (.undefined, c)
  else
    let shifted := (barrelShift (regRead c pc rn) (if bit insn 6 then 2 else 0)
      ((insn >>> 7) &&& 0x1f).toNat false false).1
    let (v, saturated) :=
      saturateField (bit insn 22) shifted.toInt ((insn >>> 16) &&& 0x1f).toNat
    let c := c.setR rd v
    (.ok, if saturated then c.setCpsr (c.cpsr ||| armCpsrQ) else c)

/-- SSAT16 and USAT16. -/
def mediaSaturate16 (pc insn : Word) (c : ArmCpu) : ArmStatus × ArmCpu :=
  let rd := field insn 12
  let rn := field insn 0
  if rd = 15 ∨ rn = 15 then (.undefined, c)
  else
    let source := regRead c pc rn
    let lane (i : Nat) : Word × Bool :=
      saturateField (bit insn 22) ((source >>> (i * 16)).setWidth 16).toInt (field insn 16).toNat
    let c := c.setR rd (packHalves ((lane 1).1.setWidth 16) ((lane 0).1.setWidth 16))
    (.ok, if (lane 0).2 || (lane 1).2 then c.setCpsr (c.cpsr ||| armCpsrQ) else c)

/-- `exec_media`. -/
def execMedia (pc insn : Word) (c : ArmCpu) : ArmStatus × ArmCpu :=
  if insn &&& 0x0f8003f0 = 0x06800070 then mediaExtend pc insn c
  else if insn &&& 0x0fff0ff0 = 0x06bf0f30 then mediaReverse revWord pc insn c
  else if insn &&& 0x0fff0ff0 = 0x06bf0fb0 then mediaReverse rev16Word pc insn c
  else if insn &&& 0x0fff0ff0 = 0x06ff0fb0 then mediaReverse revshWord pc insn c
  else if insn &&& 0x0f800f10 = 0x06000f10 then mediaParallel pc insn c
  else if insn &&& 0x0fd0f0f0 = 0x0710f010 then mediaDivide insn c
  else if insn &&& 0x0ff00030 = 0x06800010 then mediaPack pc insn c
  else if insn &&& 0x0ff00ff0 = 0x06800fb0 then mediaSelect pc insn c
  else if insn &&& 0x0ff00090 = 0x07000010 then mediaDual pc insn c
  else if insn &&& 0x0ff00090 = 0x07400010 then mediaDualLong pc insn c
  else if insn &&& 0x0ff00010 = 0x07500010 then mediaTopMultiply pc insn c
  else if insn &&& 0x0ff000f0 = 0x07800010 then mediaAbsDiff pc insn c
  else if insn &&& 0x0fa00030 = 0x06a00010 then mediaSaturate pc insn c
  else if insn &&& 0x0fb00ff0 = 0x06a00f30 then mediaSaturate16 pc insn c
  else (.undefined, c)

end S5LBox
