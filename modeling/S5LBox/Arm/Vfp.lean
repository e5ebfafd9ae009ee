import S5LBox.Arm.Transfer

/-!
# The VFP11 unit

Register transfers, loads and stores, and data processing of the VFPv2 unit (`vfp.c`). The
arithmetic itself is the host's, so it is a parameter, `HostFpu`, on bit patterns; everything
the unit decides around it (availability, FPSCR modes, short vectors, flush-to-zero, exception
flags, refusals) is here. A refusal leaves the core as it was.

## Main definitions

* `HostFpu`: the arithmetic of the host.
* `Exec.vfpLdst`, `vfpXfer32`, `vfpXfer64`, `vfpDp`, `Exec.vfpExecute`.
-/

namespace S5LBox

/-! ### FPSCR -/

def armFpscrN : Word := 0x80000000
def armFpscrZ : Word := 0x40000000
def armFpscrC : Word := 0x20000000
def armFpscrV : Word := 0x10000000
def armFpscrNzcv : Word := 0xf0000000
def armFpscrDN : Word := 0x02000000
def armFpscrFZ : Word := 0x01000000
def armFpscrRmode : Word := 0x00c00000
def armFpscrStride : Word := 0x00300000
def armFpscrLen : Word := 0x00070000
def armFpscrEnables : Word := 0x00009f00
def armFpscrIDC : Word := 0x00000080
def armFpscrIXC : Word := 0x00000010
def armFpscrUFC : Word := 0x00000008
def armFpscrIOC : Word := 0x00000001
def armFpscrWmask : Word := 0xf3f79f9f

def armFpexcEN : Word := 0x40000000
def arm1176Fpsid : Word := 0x410120b4

/-- The private marker for a flush-to-zero that the rounded result cannot decide. -/
def vfpFzAmbiguous : Word := 0x00000040

/-- The five host operations. -/
inductive Fop
  | add
  | sub
  | mul
  | div
  | sqrt
  deriving DecidableEq

/-- The host's arithmetic on bit patterns. An operation takes the rounding mode the host has
been put in and returns the result with the cumulative exception bits it raised. -/
structure HostFpu where
  f32 : Fop → (rmode : Word) → Word → Word → Word × Word
  f64 : Fop → (rmode : Word) → BitVec 64 → BitVec 64 → BitVec 64 × Word
  /-- Narrowing of a double, rounded. -/
  narrow : (rmode : Word) → BitVec 64 → Word × Word
  /-- Widening of a single. -/
  widen : Word → BitVec 64 × Word
  /-- The double of a signed or unsigned 32-bit integer. -/
  ofInt : Int → BitVec 64
  /-- Rounding to an integral double: to nearest, up, down or toward zero. -/
  roundIntegral : (rmode : Word) → BitVec 64 → BitVec 64
  /-- The integer value of an integral double. -/
  toInt : BitVec 64 → Int
  lt32 : Word → Word → Bool
  eq32 : Word → Word → Bool
  lt64 : BitVec 64 → BitVec 64 → Bool
  eq64 : BitVec 64 → BitVec 64 → Bool
  /-- The host accepts a rounding mode. -/
  setRound : (rmode : Word) → Bool

/-! ### Availability -/

/-- `vfp_cpacr_permits`: CPACR grants the current mode access to both halves of the unit. -/
def vfpCpacrPermits (c : ArmCpu) : Bool :=
  let cp10 := ((c.cp15.cpacr >>> 20) &&& 3).toNat
  let cp11 := ((c.cp15.cpacr >>> 22) &&& 3).toNat
  let acc := min cp10 cp11
  if acc = 3 then true
  else if acc = 1 then c.mode != armModeUsr
  else false

/-- `vfp_enabled`: FPEXC.EN is set. -/
def vfpEnabled (c : ArmCpu) : Bool := c.vfpFpexc &&& armFpexcEN != 0

/-! ### The register file -/

/-- `vfp_get_s`. -/
def vfpGetS (c : ArmCpu) (n : Nat) : Word := c.vfpS (BitVec.ofNat 5 n)

/-- `vfp_set_s`. -/
def vfpSetS (c : ArmCpu) (n : Nat) (v : Word) : ArmCpu :=
  { c with vfpS := Function.update c.vfpS (BitVec.ofNat 5 n) v }

/-- `vfp_get_d`: the pair of singles, low word first. -/
def vfpGetD (c : ArmCpu) (n : Nat) : BitVec 64 :=
  vfpGetS c (n % 16 * 2 + 1) ++ vfpGetS c (n % 16 * 2)

/-- `vfp_set_d`. -/
def vfpSetD (c : ArmCpu) (n : Nat) (v : BitVec 64) : ArmCpu :=
  vfpSetS (vfpSetS c (n % 16 * 2) (v.setWidth 32)) (n % 16 * 2 + 1) ((v >>> 32).setWidth 32)

/-- `SREG`: a single register number, with its low bit apart. -/
def sreg (f4 : RegNo) (lo : Bool) : Nat := f4.toNat * 2 + lo.toNat

/-! ### Short vectors -/

/-- The shape of a data-processing instruction (`vfp_short_vector_t`). -/
structure VfpShortVector where
  count : Nat
  stride : Nat
  bankSize : Nat
  vector : Bool

/-- `vfp_short_vector_shape`: `none` for a reserved stride or a shape that reuses a register. -/
def vfpShortVectorShape (fpscr : Word) (dbl : Bool) (rd : Nat) : Option VfpShortVector :=
  let len := ((fpscr &&& armFpscrLen) >>> 16).toNat
  let encodedStride := ((fpscr &&& armFpscrStride) >>> 20).toNat
  let bankSize := if dbl then 4 else 8
  if len = 0 then
    if encodedStride ≠ 0 then none
    else some { count := 1, stride := 1, bankSize, vector := false }
  else if encodedStride ≠ 0 ∧ encodedStride ≠ 3 then none
  else
    let stride := if encodedStride = 0 then 1 else 2
    if rd < bankSize then some { count := 1, stride, bankSize, vector := false }
    else if len + 1 > bankSize / stride then none
    else some { count := len + 1, stride, bankSize, vector := true }

/-- `vfp_short_vector_reg`: the register of a lane, circular in its bank. -/
def vfpShortVectorReg (shape : VfpShortVector) (reg lane : Nat) (bankZeroIsScalar : Bool) : Nat :=
  if !shape.vector || (bankZeroIsScalar && decide (reg < shape.bankSize)) then reg
  else reg / shape.bankSize * shape.bankSize + (reg + lane * shape.stride) % shape.bankSize

/-! ### Flush-to-zero and default NaN -/

/-- `fz_in32`: a denormal operand becomes a zero of the same sign. -/
def fzIn32 (u exc : Word) : Word × Word :=
  if u &&& 0x7f800000 = 0 ∧ u &&& 0x007fffff ≠ 0 then (u &&& 0x80000000, exc ||| armFpscrIDC)
  else (u, exc)

/-- `fz_in64`. -/
def fzIn64 (u : BitVec 64) (exc : Word) : BitVec 64 × Word :=
  if u &&& 0x7ff0000000000000 = 0 ∧ u &&& 0x000fffffffffffff ≠ 0 then
    (u &&& 0x8000000000000000, exc ||| armFpscrIDC)
  else (u, exc)

/-- `fz_out32`: a result below the smallest normal becomes a zero of its sign. -/
def fzOut32 (u exc : Word) : Word × Word :=
  let mag := u &&& 0x7fffffff
  if mag ≠ 0 ∧ mag < 0x00800000 then
    (u &&& 0x80000000, (exc &&& ~~~armFpscrIXC) ||| armFpscrUFC)
  else if mag = 0x00800000 ∧ exc &&& armFpscrIXC ≠ 0 then (u, exc ||| vfpFzAmbiguous)
  else (u, exc)

/-- `fz_out64`. -/
def fzOut64 (u : BitVec 64) (exc : Word) : BitVec 64 × Word :=
  let mag := u &&& 0x7fffffffffffffff
  if mag ≠ 0 ∧ mag < 0x0010000000000000 then
    (u &&& 0x8000000000000000, (exc &&& ~~~armFpscrIXC) ||| armFpscrUFC)
  else if mag = 0x0010000000000000 ∧ exc &&& armFpscrIXC ≠ 0 then (u, exc ||| vfpFzAmbiguous)
  else (u, exc)

/-- `dn_out32`: in default-NaN mode every NaN is the default one. -/
def dnOut32 (u fpscr : Word) : Word :=
  if fpscr &&& armFpscrDN ≠ 0 ∧ u &&& 0x7fffffff > 0x7f800000 then 0x7fc00000 else u

/-- `dn_out64`. -/
def dnOut64 (u : BitVec 64) (fpscr : Word) : BitVec 64 :=
  if fpscr &&& armFpscrDN ≠ 0 ∧ u &&& 0x7fffffffffffffff > 0x7ff0000000000000 then
    0x7ff8000000000000
  else u

/-- A single is a NaN. -/
def isNan32 (u : Word) : Bool := decide (u &&& 0x7fffffff > 0x7f800000)

/-- A double is a NaN. -/
def isNan64 (u : BitVec 64) : Bool := decide (u &&& 0x7fffffffffffffff > 0x7ff0000000000000)

/-- `snan32`. -/
def snan32 (u : Word) : Bool := isNan32 u && u &&& 0x00400000 == 0

/-- `snan64`. -/
def snan64 (u : BitVec 64) : Bool := isNan64 u && u &&& 0x0008000000000000 == 0

section Arithmetic

variable (fpu : HostFpu)

/-- `f32_do`: one rounding step, with its exception flags. -/
def f32Do (op : Fop) (a b fpscr exc : Word) : Word × Word :=
  let fz := fpscr &&& armFpscrFZ != 0
  let (a, e) := if fz then fzIn32 a 0 else (a, 0)
  let (b, e) := if fz then fzIn32 b e else (b, e)
  let e := if op = .sqrt ∧ fpu.lt32 a 0 then e ||| armFpscrIOC else e
  let (r, raised) := fpu.f32 op (fpscr &&& armFpscrRmode) a b
  let e := e ||| raised
  let (r, e) := if fz then fzOut32 r e else (r, e)
  (dnOut32 r fpscr, exc ||| e)

/-- `f64_do`. -/
def f64Do (op : Fop) (a b : BitVec 64) (fpscr exc : Word) : BitVec 64 × Word :=
  let fz := fpscr &&& armFpscrFZ != 0
  let (a, e) := if fz then fzIn64 a 0 else (a, 0)
  let (b, e) := if fz then fzIn64 b e else (b, e)
  let e := if op = .sqrt ∧ fpu.lt64 a 0 then e ||| armFpscrIOC else e
  let (r, raised) := fpu.f64 op (fpscr &&& armFpscrRmode) a b
  let e := e ||| raised
  let (r, e) := if fz then fzOut64 r e else (r, e)
  (dnOut64 r fpscr, exc ||| e)

/-- `fp_to_int`: NaN converts to zero, an out-of-range value saturates. -/
def fpToInt (v : BitVec 64) (isSigned roundToZero : Bool) (fpscr exc : Word) : Word × Word :=
  if isNan64 v then (0, exc ||| armFpscrIOC)
  else
    let r := fpu.roundIntegral (if roundToZero then 0x00c00000 else fpscr &&& armFpscrRmode) v
    let inexact := if fpu.eq64 r v then exc else exc ||| armFpscrIXC
    if isSigned then
      if !fpu.lt64 r (fpu.ofInt 2147483648) then (0x7fffffff, exc ||| armFpscrIOC)
      else if fpu.lt64 r (fpu.ofInt (-2147483648)) then (0x80000000, exc ||| armFpscrIOC)
      else (BitVec.ofInt 32 (fpu.toInt r), inexact)
    else
      if !fpu.lt64 r (fpu.ofInt 4294967296) then (0xffffffff, exc ||| armFpscrIOC)
      else if fpu.lt64 r 0 then (0, exc ||| armFpscrIOC)
      else (BitVec.ofInt 32 (fpu.toInt r), inexact)

/-- `cmp_flags_ordered`, for equal, less, greater and unordered. -/
def cmpFlags (nan eq lt : Bool) : Word :=
  if nan then armFpscrC ||| armFpscrV
  else if eq then armFpscrZ ||| armFpscrC
  else if lt then armFpscrN
  else armFpscrC

/-- The three-operand arithmetic operations. -/
inductive ArithKind
  | vmla
  | vmls
  | vnmls
  | vnmla
  | vmul
  | vnmul
  | vadd
  | vsub
  | vdiv
  deriving DecidableEq

/-- The operation that `vfp_dp_arith` decodes, or `none` for an encoding it refuses. -/
def arithKind (op : Nat) (alt : Bool) : Option ArithKind :=
  match op with
  | 0 => some (if alt then .vmls else .vmla)
  | 1 => some (if alt then .vnmla else .vnmls)
  | 2 => some (if alt then .vnmul else .vmul)
  | 3 => some (if alt then .vsub else .vadd)
  | 4 => if alt then none else some .vdiv
  | _ => none

/-- One lane of a single-precision operation on `d`, `n` and `m`; the multiply-accumulates round
twice. -/
def arith32 (kind : ArithKind) (d n m fs exc : Word) : Word × Word :=
  match kind with
  | .vadd => f32Do fpu .add n m fs exc
  | .vsub => f32Do fpu .sub n m fs exc
  | .vmul => f32Do fpu .mul n m fs exc
  | .vnmul =>
    let (r, exc) := f32Do fpu .mul n m fs exc
    (r ^^^ 0x80000000, exc)
  | .vdiv => f32Do fpu .div n m fs exc
  | kind =>
    let (p, exc) := f32Do fpu .mul n m fs exc
    let p := if kind = .vmls ∨ kind = .vnmla then p ^^^ 0x80000000 else p
    let d := if kind = .vnmla ∨ kind = .vnmls then d ^^^ 0x80000000 else d
    f32Do fpu .add d p fs exc

/-- One lane of a double-precision operation. -/
def arith64 (kind : ArithKind) (d n m : BitVec 64) (fs exc : Word) : BitVec 64 × Word :=
  match kind with
  | .vadd => f64Do fpu .add n m fs exc
  | .vsub => f64Do fpu .sub n m fs exc
  | .vmul => f64Do fpu .mul n m fs exc
  | .vnmul =>
    let (r, exc) := f64Do fpu .mul n m fs exc
    (r ^^^ 0x8000000000000000, exc)
  | .vdiv => f64Do fpu .div n m fs exc
  | kind =>
    let (p, exc) := f64Do fpu .mul n m fs exc
    let p := if kind = .vmls ∨ kind = .vnmla then p ^^^ 0x8000000000000000 else p
    let d := if kind = .vnmla ∨ kind = .vnmls then d ^^^ 0x8000000000000000 else d
    f64Do fpu .add d p fs exc

/-! ### Lanes -/

/-- Compute the lanes of an instruction, threading the exception bits. -/
def laneResults {α : Type} (f : Nat → Word → α × Word) : List Nat → Word → List (Nat × α) × Word
  | [], exc => ([], exc)
  | i :: is, exc =>
    let (r, exc) := f i exc
    let (rs, exc) := laneResults f is exc
    ((i, r) :: rs, exc)

/-- Write the lanes of an instruction, unless flush-to-zero could not be decided. -/
def commitLanes {α : Type} (c : ArmCpu) (set : ArmCpu → Nat → α → ArmCpu) (shape : VfpShortVector)
    (rd : Nat) (f : Nat → Word → α × Word) : ArmStatus × ArmCpu :=
  let (rs, exc) := laneResults f (List.range shape.count) 0
  if exc &&& vfpFzAmbiguous ≠ 0 then (.undefined, c)
  else
    let c := rs.foldl (fun c r => set c (vfpShortVectorReg shape rd r.1 false) r.2) c
    (.ok, { c with vfpFpscr := c.vfpFpscr ||| exc })

/-- `vfp_dp_arith`. -/
def vfpDpArith (insn : Word) (op : Nat) (c : ArmCpu) : ArmStatus × ArmCpu :=
  let dbl := bit insn 8
  let fs := c.vfpFpscr
  match arithKind op (bit insn 6) with
  | none => (.undefined, c)
  | some kind =>
    if fs &&& armFpscrEnables ≠ 0 then (.undefined, c)
    else if dbl then
      if bit insn 22 ∨ bit insn 7 ∨ bit insn 5 then (.undefined, c)
      else
        let rd := (field insn 12).toNat
        match vfpShortVectorShape fs true rd with
        | none => (.undefined, c)
        | some shape => commitLanes c vfpSetD shape rd fun lane exc =>
            arith64 fpu kind (vfpGetD c (vfpShortVectorReg shape rd lane false))
              (vfpGetD c (vfpShortVectorReg shape (field insn 16).toNat lane false))
              (vfpGetD c (vfpShortVectorReg shape (field insn 0).toNat lane true)) fs exc
    else
      let rd := sreg (field insn 12) (bit insn 22)
      match vfpShortVectorShape fs false rd with
      | none => (.undefined, c)
      | some shape => commitLanes c vfpSetS shape rd fun lane exc =>
          arith32 fpu kind (vfpGetS c (vfpShortVectorReg shape rd lane false))
            (vfpGetS c (vfpShortVectorReg shape (sreg (field insn 16) (bit insn 7)) lane false))
            (vfpGetS c (vfpShortVectorReg shape (sreg (field insn 0) (bit insn 5)) lane true))
            fs exc

/-- VMOV, VABS, VNEG and VSQRT. -/
def vfpDpUnary (insn : Word) (c : ArmCpu) : ArmStatus × ArmCpu :=
  let opc2 := (field insn 16).toNat
  let top := bit insn 7
  let fs := c.vfpFpscr
  if opc2 = 1 ∧ top ∧ fs &&& armFpscrEnables ≠ 0 then (.undefined, c)
  else if bit insn 8 then
    if bit insn 22 ∨ bit insn 5 then (.undefined, c)
    else
      let rd := (field insn 12).toNat
      match vfpShortVectorShape fs true rd with
      | none => (.undefined, c)
      | some shape => commitLanes c vfpSetD shape rd fun lane exc =>
          let s := vfpGetD c (vfpShortVectorReg shape (field insn 0).toNat lane true)
          if opc2 = 0 then (if top then s &&& 0x7fffffffffffffff else s, exc)
          else if top then f64Do fpu .sqrt s 0 fs exc
          else (s ^^^ 0x8000000000000000, exc)
  else
    let rd := sreg (field insn 12) (bit insn 22)
    match vfpShortVectorShape fs false rd with
    | none => (.undefined, c)
    | some shape => commitLanes c vfpSetS shape rd fun lane exc =>
        let s := vfpGetS c (vfpShortVectorReg shape (sreg (field insn 0) (bit insn 5)) lane true)
        if opc2 = 0 then (if top then s &&& 0x7fffffff else s, exc)
        else if top then f32Do fpu .sqrt s 0 fs exc
        else (s ^^^ 0x80000000, exc)

/-- VCMP and VCMPE, against a register or zero; the result goes to FPSCR. -/
def vfpDpCompare (insn : Word) (c : ArmCpu) : ArmStatus × ArmCpu :=
  let zero := (field insn 16).toNat == 5
  let top := bit insn 7
  let fs := c.vfpFpscr
  let fz := fs &&& armFpscrFZ != 0
  let finish (nan snan eq lt : Bool) (exc : Word) : ArmStatus × ArmCpu :=
    let exc := if snan ∨ (top ∧ nan) then exc ||| armFpscrIOC else exc
    (.ok, { c with vfpFpscr := (fs &&& ~~~armFpscrNzcv) ||| cmpFlags nan eq lt ||| exc })
  if fs &&& armFpscrEnables ≠ 0 then (.undefined, c)
  else if zero ∧ (field insn 0 ≠ 0 ∨ bit insn 5) then (.undefined, c)
  else if bit insn 8 then
    if bit insn 22 ∨ bit insn 5 then (.undefined, c)
    else
      let ua := vfpGetD c (field insn 12).toNat
      let ub : BitVec 64 := if zero then 0 else vfpGetD c (field insn 0).toNat
      let (a, exc) := if fz then fzIn64 ua 0 else (ua, 0)
      let (b, exc) := if fz then fzIn64 ub exc else (ub, exc)
      finish (isNan64 a || isNan64 b) (snan64 ua || (!zero && snan64 ub)) (fpu.eq64 a b)
        (fpu.lt64 a b) exc
  else
    let ua := vfpGetS c (sreg (field insn 12) (bit insn 22))
    let ub : Word := if zero then 0 else vfpGetS c (sreg (field insn 0) (bit insn 5))
    let (a, exc) := if fz then fzIn32 ua 0 else (ua, 0)
    let (b, exc) := if fz then fzIn32 ub exc else (ub, exc)
    finish (isNan32 a || isNan32 b) (snan32 ua || (!zero && snan32 ub)) (fpu.eq32 a b)
      (fpu.lt32 a b) exc

/-- VCVT between double and single. -/
def vfpDpPrecision (insn : Word) (c : ArmCpu) : ArmStatus × ArmCpu :=
  let fs := c.vfpFpscr
  let fz := fs &&& armFpscrFZ != 0
  if ¬ bit insn 7 then (.undefined, c)
  else if fs &&& armFpscrEnables ≠ 0 then (.undefined, c)
  else if bit insn 8 then
    if bit insn 5 then (.undefined, c)
    else
      let s := vfpGetD c (field insn 0).toNat
      let (s, exc) := if fz then fzIn64 s 0 else (s, 0)
      let (r, raised) := fpu.narrow (fs &&& armFpscrRmode) s
      let (r, exc) := if fz then fzOut32 r (exc ||| raised) else (r, exc ||| raised)
      if exc &&& vfpFzAmbiguous ≠ 0 then (.undefined, c)
      else
        let c := vfpSetS c (sreg (field insn 12) (bit insn 22)) (dnOut32 r fs)
        (.ok, { c with vfpFpscr := fs ||| exc })
  else if bit insn 22 then (.undefined, c)
  else
    let s := vfpGetS c (sreg (field insn 0) (bit insn 5))
    let (s, exc) := if fz then fzIn32 s 0 else (s, 0)
    let (r, raised) := fpu.widen s
    let c := vfpSetD c (field insn 12).toNat (dnOut64 r fs)
    (.ok, { c with vfpFpscr := fs ||| (exc ||| raised) })

/-- VCVT from an integer. -/
def vfpDpFromInt (insn : Word) (c : ArmCpu) : ArmStatus × ArmCpu :=
  let fs := c.vfpFpscr
  let raw := vfpGetS c (sreg (field insn 0) (bit insn 5))
  let exact := fpu.ofInt (if bit insn 7 then raw.toInt else raw.toNat)
  if bit insn 8 then
    if bit insn 22 then (.undefined, c)
    else (.ok, vfpSetD c (field insn 12).toNat exact)
  else if fs &&& armFpscrEnables ≠ 0 then (.undefined, c)
  else
    let (r, raised) := fpu.narrow (fs &&& armFpscrRmode) exact
    let c := vfpSetS c (sreg (field insn 12) (bit insn 22)) r
    (.ok, { c with vfpFpscr := fs ||| raised })

/-- VCVT and VCVTR to an integer. -/
def vfpDpToInt (insn : Word) (c : ArmCpu) : ArmStatus × ArmCpu :=
  let fs := c.vfpFpscr
  let fz := fs &&& armFpscrFZ != 0
  let finish (v : BitVec 64) (exc : Word) : ArmStatus × ArmCpu :=
    let (r, exc) := fpToInt fpu v (bit insn 16) (bit insn 7) fs exc
    let c := vfpSetS c (sreg (field insn 12) (bit insn 22)) r
    (.ok, { c with vfpFpscr := fs ||| exc })
  if fs &&& armFpscrEnables ≠ 0 then (.undefined, c)
  else if bit insn 8 then
    if bit insn 5 then (.undefined, c)
    else
      let v := vfpGetD c (field insn 0).toNat
      let (v, exc) := if fz then fzIn64 v 0 else (v, 0)
      finish v exc
  else
    let s := vfpGetS c (sreg (field insn 0) (bit insn 5))
    let (s, exc) := if fz then fzIn32 s 0 else (s, 0)
    finish (fpu.widen s).1 exc

/-- `vfp_dp_other`: the unary operations, the comparisons and the conversions. -/
def vfpDpOther (insn : Word) (c : ArmCpu) : ArmStatus × ArmCpu :=
  match (field insn 16).toNat with
  | 0 | 1 => vfpDpUnary fpu insn c
  | 4 | 5 => vfpDpCompare fpu insn c
  | 7 => vfpDpPrecision fpu insn c
  | 8 => vfpDpFromInt fpu insn c
  | 12 | 13 => vfpDpToInt fpu insn c
  | _ => (.undefined, c)

/-- `vfp_dp`. -/
def vfpDp (insn : Word) (c : ArmCpu) : ArmStatus × ArmCpu :=
  let op := (bit insn 23).toNat * 4 + (bit insn 21).toNat * 2 + (bit insn 20).toNat
  if op = 7 then if bit insn 6 then vfpDpOther fpu insn c else (.undefined, c)
  else vfpDpArith fpu insn op c

end Arithmetic

/-! ### Register transfers -/

/-- VMRS: a system register to a core register, or the comparison flags to CPSR. -/
def vfpVmrs (vn rt : RegNo) (c : ArmCpu) : ArmStatus × ArmCpu :=
  if rt = 15 ∧ vn ≠ 1 then (.undefined, c)
  else
    let v : Option Word :=
      if vn = 0 then some arm1176Fpsid
      else if vn = 1 then some c.vfpFpscr
      else if vn = 8 then some c.vfpFpexc
      else none
    match v with
    | none => (.undefined, c)
    | some v =>
      if rt = 15 then (.ok, c.setCpsr ((c.cpsr &&& 0x0fffffff) ||| (v &&& 0xf0000000)))
      else (.ok, c.setR rt v)

/-- VMSR: a core register to FPSCR or FPEXC. -/
def vfpVmsr (vn rt : RegNo) (c : ArmCpu) : ArmStatus × ArmCpu :=
  if rt = 15 then (.undefined, c)
  else if vn = 1 then (.ok, { c with vfpFpscr := c.r rt &&& armFpscrWmask })
  else if vn = 8 then (.ok, { c with vfpFpexc := c.r rt })
  else (.undefined, c)

/-- VMOV between a core register and a single, in the direction of the L bit. -/
def vfpMoveSingle (L : Bool) (rt : RegNo) (sn : Nat) (c : ArmCpu) : ArmStatus × ArmCpu :=
  if rt = 15 then (.undefined, c)
  else if L then (.ok, c.setR rt (vfpGetS c sn))
  else (.ok, vfpSetS c sn (c.r rt))

/-- `vfp_xfer32`. -/
def vfpXfer32 (insn : Word) (c : ArmCpu) : ArmStatus × ArmCpu :=
  let opc1 := ((insn >>> 21) &&& 7).toNat
  let L := bit insn 20
  let cp11 := bit insn 8
  let vn := field insn 16
  let rt := field insn 12
  if ¬ cp11 ∧ opc1 = 0 then
    if insn &&& 0x6f ≠ 0 then (.undefined, c)
    else vfpMoveSingle L rt (sreg vn (bit insn 7)) c
  else if cp11 ∧ opc1 ≤ 1 then
    if bit insn 7 then (.undefined, c)
    else if insn &&& 0x6f ≠ 0 then (.undefined, c)
    else vfpMoveSingle L rt (sreg vn (opc1 == 1)) c
  else if cp11 then (.undefined, c)
  else if opc1 ≠ 7 then (.undefined, c)
  else if insn &&& 0xef ≠ 0 then (.undefined, c)
  else if vn = 8 ∧ c.mode = armModeUsr then (.guestUndefined, c)
  else if vn = 0 ∧ ¬ vfpEnabled c ∧ c.mode = armModeUsr then (.guestUndefined, c)
  else if L then vfpVmrs vn rt c
  else vfpVmsr vn rt c

/-- `vfp_xfer64`. -/
def vfpXfer64 (insn : Word) (c : ArmCpu) : ArmStatus × ArmCpu :=
  let L := bit insn 20
  let rt2 := field insn 16
  let rt := field insn 12
  let vm := field insn 0
  if insn &&& 0xc0 ≠ 0 then (.undefined, c)
  else if rt = 15 ∨ rt2 = 15 then (.undefined, c)
  else if bit insn 8 then
    if bit insn 5 then (.undefined, c)
    else if L then
      let v := vfpGetD c vm.toNat
      (.ok, (c.setR rt (v.setWidth 32)).setR rt2 ((v >>> 32).setWidth 32))
    else (.ok, vfpSetD c vm.toNat (c.r rt2 ++ c.r rt))
  else
    let sm := sreg vm (bit insn 5)
    if sm = 31 then (.undefined, c)
    else if L then
      (.ok, (c.setR rt (vfpGetS c sm)).setR rt2 (vfpGetS c (sm + 1)))
    else (.ok, vfpSetS (vfpSetS c sm (c.r rt)) (sm + 1) (c.r rt2))

namespace Exec

variable {σ : Type} (B : ArmBus σ)

/-! ### Loads and stores -/

/-- `vfp_mem_r32`: the coprocessor alignment rules, then an ordinary load. -/
def vfpMemR32 (va : Word) : Exec σ Word := do
  match ← onCpu (prepareMultiwordAddress va 4 false) with
  | none => return 0
  | some va => memR32 B va

/-- `vfp_mem_w32`. -/
def vfpMemW32 (va v : Word) : Exec σ Unit := do
  match ← onCpu (prepareMultiwordAddress va 4 true) with
  | none => return ()
  | some va => memW32 B va v

/-- The transfer of one double register; the result says whether it succeeded. -/
def vfpTransferD (L : Bool) (addr : Word) (n : Nat) : Exec σ Bool := do
  if L then
    let lo ← vfpMemR32 B addr
    if ← abortLatched then return false
    let hi ← vfpMemR32 B (addr + 4)
    if ← abortLatched then return false
    modifyCpu (vfpSetD · n (hi ++ lo))
    return true
  let c ← getCpu
  let v := vfpGetD c n
  vfpMemW32 B addr (v.setWidth 32)
  if ← abortLatched then return false
  vfpMemW32 B (addr + 4) ((v >>> 32).setWidth 32)
  return !(← abortLatched)

/-- The transfer of one single register. -/
def vfpTransferS (L : Bool) (addr : Word) (n : Nat) : Exec σ Bool := do
  if L then
    let v ← vfpMemR32 B addr
    if ← abortLatched then return false
    modifyCpu (vfpSetS · n v)
    return true
  let c ← getCpu
  vfpMemW32 B addr (vfpGetS c n)
  return !(← abortLatched)

/-- The registers of a VLDM or VSTM, one after the other. -/
def vfpTransferList (dbl L : Bool) (addr : Word) (first : Nat) : List Nat → Exec σ Bool
  | [] => pure true
  | i :: is => do
    let step := BitVec.ofNat 32 (i * (if dbl then 8 else 4))
    let done ←
      if dbl then vfpTransferD B L (addr + step) (first + i)
      else vfpTransferS B L (addr + step) (first + i)
    if ¬ done then return false
    vfpTransferList dbl L addr first is

/-- The reserved last word of FLDMX and FSTMX. -/
def vfpReservedWord (L : Bool) (addr : Word) : Exec σ Bool := do
  if L then
    let _ ← vfpMemR32 B addr
    return !(← abortLatched)
  vfpMemW32 B addr 0
  return !(← abortLatched)

/-- VLDM and VSTM, with the writeback of the base. -/
def vfpLdstMultiple (insn base : Word) : Exec σ ArmStatus := do
  let U := bit insn 23
  let L := bit insn 20
  let dbl := bit insn 8
  let imm8 := insn &&& 0xff
  let first := if dbl then (field insn 12).toNat else sreg (field insn 12) (bit insn 22)
  let count := if dbl then imm8.toNat / 2 else imm8.toNat
  if imm8 = 0 then return .undefined
  if dbl ∧ bit insn 22 then return .undefined
  if first + count > (if dbl then 16 else 32) then return .undefined
  let indexed := if U then base + imm8 * 4 else base - imm8 * 4
  let addr := if U then base else indexed
  if ¬ (← vfpTransferList B dbl L addr first (List.range count)) then return .ok
  let odd := dbl && bit insn 0
  if ¬ (← if odd then vfpReservedWord B L (addr + BitVec.ofNat 32 (count * 8)) else pure true) then
    return .ok
  guarded (bit insn 21) (modifyCpu (·.setR (field insn 16) indexed))
  return .ok

/-- `vfp_ldst`. -/
def vfpLdst (pc insn : Word) : Exec σ ArmStatus := do
  let P := bit insn 24
  let U := bit insn 23
  let W := bit insn 21
  let L := bit insn 20
  let rn := field insn 16
  let imm8 := insn &&& 0xff
  if ¬ P ∧ ¬ U ∧ ¬ W then return .undefined
  if P ∧ U ∧ W then return .undefined
  if rn = 15 ∧ (W ∨ ¬ P) then return .undefined
  let c ← getCpu
  let base := regRead c pc rn
  if ¬ (P ∧ ¬ W) then return ← vfpLdstMultiple B insn base
  let addr := if U then base + imm8 * 4 else base - imm8 * 4
  if bit insn 8 then
    if bit insn 22 then return .undefined
    let _ ← vfpTransferD B L addr (field insn 12).toNat
    return .ok
  let _ ← vfpTransferS B L addr (sreg (field insn 12) (bit insn 22))
  return .ok

/-! ### Entry -/

/-- `vfp_execute_inner`: the availability gate and the four groups. -/
def vfpExecuteInner (fpu : HostFpu) (pc insn : Word) : Exec σ ArmStatus := do
  let c ← getCpu
  let crn := field insn 16
  if ¬ vfpCpacrPermits c then return .undefined
  if ¬ vfpEnabled c ∧ (insn &&& 0x0fe00f10 ≠ 0x0ee00a10 ∨ (crn ≠ 0 ∧ crn ≠ 8)) then
    return .undefined
  if insn &&& 0x0f000e10 = 0x0e000a10 then return ← onCpu (vfpXfer32 insn)
  if insn &&& 0x0f000e10 = 0x0e000a00 then return ← onCpu (vfpDp fpu insn)
  if insn &&& 0x0fe00e00 = 0x0c400a00 then return ← onCpu (vfpXfer64 insn)
  if insn &&& 0x0e000e00 = 0x0c000a00 then return ← vfpLdst B pc insn
  return .undefined

/-- `vfp_execute`: a directed rounding mode is adopted for the instruction, or refused. -/
def vfpExecute (fpu : HostFpu) (pc insn : Word) : Exec σ ArmStatus := do
  let c ← getCpu
  let rmode := c.vfpFpscr &&& armFpscrRmode
  if rmode ≠ 0 ∧ ¬ fpu.setRound rmode then return .undefined
  vfpExecuteInner B fpu pc insn

end Exec

end S5LBox
