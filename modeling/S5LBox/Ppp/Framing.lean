import S5LBox.Arm.Cpu
import S5LBox.Lib.ByteStuffing
import S5LBox.Lib.CheckSequence

/-!
# Frames of the PPP line

`ppp_fcs16` and `ppp_frame` of `ppp.c`: the frame check sequence, and the octets that are sent for
a protocol and its information. Both are instances of the general notions, the frame check
sequence of a check sequence and the escaping of byte stuffing.

## Main results

* `pppFrame_eq`: what is sent is the stuffed frame between two flags, if it fits.
* `pppFcs16_frameBody`: the octets of a frame leave `PPP_FCS_GOOD` in the register.
-/

namespace S5LBox.Ppp

open ByteStuffing

/-! ### Constants -/

def pppProtoIp : BitVec 16 := 0x0021
def pppProtoIpcp : BitVec 16 := 0x8021
def pppProtoLcp : BitVec 16 := 0xc021

def pppFlag : Byte := 0x7e
def pppEscape : Byte := 0x7d
def pppTrans : Byte := 0x20
def pppAllstations : Byte := 0xff
def pppUi : Byte := 0x03

def pppFcsInit : BitVec 16 := 0xffff
def pppFcsGood : BitVec 16 := 0xf0b8

def pppMruDefault : Nat := 1500
def pppMaxFrame : Nat := pppMruDefault + 6

/-! ### The frame check sequence -/

/-- `ppp_fcs16`. -/
def pppFcs16 (fcs : BitVec 16) (data : List Byte) : BitVec 16 :=
  CheckSequence.register 0x8408 fcs data

/-! ### Framing -/

/-- The line's flag, its escape, and what becomes of an octet behind one. -/
def stuffing : Stuffing Byte where
  flag := pppFlag
  esc := pppEscape
  trans c := c ^^^ pppTrans

/-- `needs_escape`. -/
def needsEscape (accm : Word) (c : Byte) : Bool :=
  c = pppFlag || c = pppEscape || c < 0x20 && accm.getLsbD c.toNat

/-- `emit`, on the octets written so far. -/
def emit (accm : Word) (cap : Nat) (out : List Byte) (c : Byte) : Option (List Byte) :=
  if needsEscape accm c then
    if out.length + 2 > cap then none
    else some (out ++ [pppEscape, c ^^^ pppTrans])
  else
    if out.length + 1 > cap then none
    else some (out ++ [c])

/-- The address, the control and the protocol of a frame. -/
def frameHeader (proto : BitVec 16) : List Byte :=
  [pppAllstations, pppUi, proto.extractLsb' 8 8, proto.extractLsb' 0 8]

/-- `ppp_frame`: the octets written, or `none` where it returns 0. -/
def pppFrame (proto : BitVec 16) (info : List Byte) (accm : Word) (cap : Nat) :
    Option (List Byte) := do
  if info.length > pppMruDefault then none
  else
    let fcs := ~~~pppFcs16 (pppFcs16 pppFcsInit (frameHeader proto)) info
    if 1 > cap then none
    else
      let out ← (frameHeader proto).foldlM (emit accm cap) [pppFlag]
      let out ← info.foldlM (emit accm cap) out
      let out ← emit accm cap out (fcs.extractLsb' 0 8)
      let out ← emit accm cap out (fcs.extractLsb' 8 8)
      if out.length + 1 > cap then none else some (out ++ [pppFlag])

/-! ### What a frame is -/

/-- The octets between the flags before escaping: header, information and check sequence. -/
def frameBody (proto : BitVec 16) (info : List Byte) : List Byte :=
  frameHeader proto ++ info ++
    CheckSequence.octets 2 (~~~pppFcs16 pppFcsInit (frameHeader proto ++ info))

/-- The octets of a frame on the line. -/
def frameOctets (proto : BitVec 16) (info : List Byte) (accm : Word) : List Byte :=
  pppFlag :: stuff stuffing (needsEscape accm) (frameBody proto info) ++ [pppFlag]

@[simp]
theorem length_frameBody (proto : BitVec 16) (info : List Byte) :
    (frameBody proto info).length = info.length + 6 := by
  simp [frameBody, frameHeader, CheckSequence.octets]

/-- A frame is two flags and at most two octets for each of its own. -/
theorem length_frameOctets_le (proto : BitVec 16) (info : List Byte) (accm : Word) :
    (frameOctets proto info accm).length ≤ 2 * (info.length + 6) + 2 := by
  have hstuff := length_stuff_le stuffing (needsEscape accm) (frameBody proto info)
  simp only [frameOctets, List.length_append, List.length_cons, List.length_nil,
    length_frameBody] at hstuff ⊢
  omega

/-- `emit` writes what is sent for an octet, if it fits. -/
theorem emit_eq (accm : Word) (cap : Nat) (out : List Byte) (c : Byte) :
    emit accm cap out c =
      if (out ++ stuffOne stuffing (needsEscape accm) c).length ≤ cap then
        some (out ++ stuffOne stuffing (needsEscape accm) c)
      else none := by
  unfold emit stuffOne
  by_cases hneeds : needsEscape accm c
  · by_cases hfit : out.length + 2 ≤ cap
    · simp [hneeds, hfit, Nat.not_lt.2 hfit, stuffing]
    · simp [hneeds, hfit, Nat.lt_of_not_le hfit]
  · by_cases hfit : out.length + 1 ≤ cap
    · simp [hneeds, hfit, Nat.not_lt.2 hfit]
    · simp [hneeds, hfit, Nat.lt_of_not_le hfit]

/-- So it does for a list of octets. -/
theorem foldlM_emit (accm : Word) (cap : Nat) (out cs : List Byte) (h : out.length ≤ cap) :
    cs.foldlM (emit accm cap) out =
      if (out ++ stuff stuffing (needsEscape accm) cs).length ≤ cap then
        some (out ++ stuff stuffing (needsEscape accm) cs)
      else none := by
  induction cs generalizing out with
  | nil => simp [h]
  | cons c cs ih =>
    rw [List.foldlM_cons, emit_eq, stuff_cons, ← List.append_assoc]
    by_cases hfit : (out ++ stuffOne stuffing (needsEscape accm) c).length ≤ cap
    · rw [if_pos hfit]
      exact ih _ hfit
    · have hlong : ¬ (out ++ stuffOne stuffing (needsEscape accm) c ++
          stuff stuffing (needsEscape accm) cs).length ≤ cap := by
        rw [List.length_append]
        omega
      rw [if_neg hfit, if_neg hlong]
      rfl

theorem foldlM_emit_append (accm : Word) (cap : Nat) (out as bs : List Byte) :
    (as ++ bs).foldlM (emit accm cap) out =
      (as.foldlM (emit accm cap) out).bind (fun out => bs.foldlM (emit accm cap) out) := by
  rw [List.foldlM_append]
  rfl

/-- What is sent is the frame between two flags, if it fits. -/
theorem pppFrame_eq (proto : BitVec 16) (info : List Byte) (accm : Word) (cap : Nat) :
    pppFrame proto info accm cap =
      if info.length ≤ pppMruDefault ∧ (frameOctets proto info accm).length ≤ cap then
        some (frameOctets proto info accm)
      else none := by
  by_cases hmru : info.length ≤ pppMruDefault
  case neg => simp [pppFrame, hmru, Nat.lt_of_not_le hmru]
  by_cases hcap : 1 ≤ cap
  case neg =>
    have hlong : ¬ (frameOctets proto info accm).length ≤ cap := by
      simp only [frameOctets, List.length_cons, List.length_append]
      omega
    simp [pppFrame, Nat.lt_of_not_le hcap, hlong]
  let fcs := ~~~pppFcs16 pppFcsInit (frameHeader proto ++ info)
  have hparts : pppFrame proto info accm cap =
      ((frameBody proto info).foldlM (emit accm cap) [pppFlag]).bind fun out =>
        if out.length + 1 > cap then none else some (out ++ [pppFlag]) := by
    have hfcs : pppFcs16 (pppFcs16 pppFcsInit (frameHeader proto)) info =
        pppFcs16 pppFcsInit (frameHeader proto ++ info) :=
      (CheckSequence.register_append _ _ _ _).symm
    have hoctets : CheckSequence.octets 2 fcs = [fcs.extractLsb' 0 8, fcs.extractLsb' 8 8] := by
      simp only [CheckSequence.octets]
      congr 2
    rw [pppFrame, if_neg (by omega), if_neg (by omega), hfcs, frameBody, foldlM_emit_append,
      foldlM_emit_append, hoctets]
    simp only [List.foldlM_cons, List.foldlM_nil, Option.bind_eq_bind, Option.bind_assoc,
      Option.pure_def, Option.bind_some]
    rfl
  rw [hparts, foldlM_emit _ _ _ _ (by simpa using hcap)]
  by_cases hfit : (frameOctets proto info accm).length ≤ cap
  · have hbody : ([pppFlag] ++ stuff stuffing (needsEscape accm) (frameBody proto info)).length + 1
        ≤ cap := by
      simpa [frameOctets] using hfit
    rw [if_pos (by omega), if_pos ⟨hmru, hfit⟩, Option.bind_some, if_neg (by omega)]
    rfl
  · have hbody : ¬ ([pppFlag] ++ stuff stuffing (needsEscape accm)
        (frameBody proto info)).length + 1 ≤ cap := by
      simpa [frameOctets] using hfit
    have hno : ¬ (info.length ≤ pppMruDefault ∧ (frameOctets proto info accm).length ≤ cap) :=
      fun h => hfit h.2
    rw [if_neg hno]
    split
    · rw [Option.bind_some, if_pos (by omega)]
    · rfl

/-- An octet is sent transformed only if the map, the flag or the escape asks for it. -/
theorem trans_ne_of_needsEscape {accm : Word} {c d : Byte} (hc : needsEscape accm c)
    (hd : needsEscape accm (d ^^^ pppTrans) = false) : c ^^^ pppTrans ≠ d := by
  rintro rfl
  rw [BitVec.xor_assoc, BitVec.xor_self, BitVec.xor_zero, hc] at hd
  contradiction

/-- The escapes of every map can be undone. -/
theorem clean_needsEscape (accm : Word) : stuffing.Clean (needsEscape accm) where
  flag_ne_esc := by decide
  flag := by simp [needsEscape, stuffing]
  esc := by simp [needsEscape, stuffing]
  trans_trans c := by
    change c ^^^ pppTrans ^^^ pppTrans = c
    rw [BitVec.xor_assoc, BitVec.xor_self, BitVec.xor_zero]
  trans_ne_flag c hc := trans_ne_of_needsEscape hc (by simp [needsEscape, pppFlag, pppEscape,
    pppTrans, stuffing])
  trans_ne_esc c hc := trans_ne_of_needsEscape hc (by simp [needsEscape, pppFlag, pppEscape,
    pppTrans, stuffing])

/-- The octets of a frame leave the good value in the register. -/
theorem pppFcs16_frameBody (proto : BitVec 16) (info : List Byte) :
    pppFcs16 pppFcsInit (frameBody proto info) = pppFcsGood := by
  have hresidue : CheckSequence.register (0x8408 : BitVec 16) (BitVec.allOnes 16)
      (List.replicate 2 0) = pppFcsGood := by
    decide +kernel
  rw [frameBody, pppFcs16, CheckSequence.register_append, ← hresidue]
  exact CheckSequence.register_complement _ 2 _ (by decide)

end S5LBox.Ppp
