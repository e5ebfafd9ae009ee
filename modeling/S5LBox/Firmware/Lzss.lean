import S5LBox.Arm.Cpu
import S5LBox.Lib.Octets
import S5LBox.Lib.RingCopies

/-!
# LZSS decompression

`lzss_decompress` of `lzss.c`. What the ring holds at first where it is not
set is a parameter. A read of the source or a write to the destination that is out of bounds would
end the run without a result.

## Main definitions

* `State`: the locals of the function, and the bytes written so far.
* `loadFlags`, `item`: the two parts of the loop's body.
* `lzssDecompress`.
-/

namespace S5LBox.Firmware.Lzss

/-- `LZSS_N`. -/
abbrev lzssN : Nat := 4096

/-- `LZSS_F`. -/
abbrev lzssF : Nat := 18

/-- `LZSS_THRESHOLD`. -/
abbrev lzssThreshold : Nat := 2

/-- The locals: `src` as an offset, `dst[0..out)`, `ring`, `r` and `flags`. -/
structure State where
  pos : Nat
  out : List Byte
  ring : Nat → Byte
  r : Nat
  flags : BitVec 32

/-- How a part of the loop ends. -/
inductive Control
  | leave
  | proceed
  deriving DecidableEq

/-- `dst[out++] = c; ring[r++] = c; r &= LZSS_N - 1`, where `dst` has `dstcap` bytes. -/
def State.emit (s : State) (dstcap : Nat) (c : Byte) : Option State :=
  if s.out.length < dstcap then
    some { s with
      out := s.out ++ [c]
      ring := Function.update s.ring s.r c
      r := (s.r + 1) &&& (lzssN - 1) }
  else none

/-- The first part of the loop's body: a flag byte is read when the last is used up. -/
def loadFlags (src : List Byte) (s : State) : Option (Control × State) :=
  let flags := s.flags >>> 1
  if flags &&& 0x100 = 0 then
    if src.length ≤ s.pos then some (.leave, { s with flags })
    else do
      let byte ← src[s.pos]?
      some (.proceed, { s with pos := s.pos + 1, flags := byte.setWidth 32 ||| 0xff00 })
  else some (.proceed, { s with flags })

/-- A literal byte. -/
def literal (src : List Byte) (dstcap : Nat) (s : State) : Option (Control × State) :=
  if src.length ≤ s.pos then some (.leave, s)
  else do
    let c ← src[s.pos]?
    let s := { s with pos := s.pos + 1 }
    if dstcap ≤ s.out.length then some (.leave, s)
    else do
      let s ← s.emit dstcap c
      some (.proceed, s)

/-- The loop of a back-reference, with `count` rounds left from the `k`-th on. -/
def copy (dstcap i : Nat) : Nat → Nat → State → Option (Control × State)
  | 0, _, s => some (.proceed, s)
  | count + 1, k, s =>
    let c := s.ring ((i + k) &&& (lzssN - 1))
    if dstcap ≤ s.out.length then some (.leave, s)
    else do
      let s ← s.emit dstcap c
      copy dstcap i count (k + 1) s

/-- A back-reference. -/
def reference (src : List Byte) (dstcap : Nat) (s : State) : Option (Control × State) :=
  if src.length ≤ s.pos + 1 then some (.leave, s)
  else do
    let i ← src[s.pos]?
    let j ← src[s.pos + 1]?
    let s := { s with pos := s.pos + 2 }
    copy dstcap (i.toNat ||| (j.toNat &&& 0xf0) <<< 4) ((j.toNat &&& 0x0f) + lzssThreshold + 1) 0 s

/-- The second part of the loop's body. -/
def item (src : List Byte) (dstcap : Nat) (s : State) : Option (Control × State) :=
  if s.flags &&& 1 ≠ 0 then literal src dstcap s else reference src dstcap s

/-- The loop. -/
def loop (src : List Byte) (dstcap : Nat) : Nat → State → Option (List Byte)
  | 0, _ => none
  | fuel + 1, s => do
    let (control, s) ← loadFlags src s
    if control = .leave then some s.out
    else do
      let (control, s) ← item src dstcap s
      if control = .leave then some s.out else loop src dstcap fuel s

/-- The locals at first. The part of the ring that `memset` leaves out holds anything. -/
def start (junk : Nat → Byte) : State where
  pos := 0
  out := []
  ring p := if p < lzssN - lzssF then 0x20 else junk p
  r := lzssN - lzssF
  flags := 0

/-- `lzss_decompress`: the bytes written, of which the number is returned. -/
def lzssDecompress (junk : Nat → Byte) (hasDst : Bool) (dstcap : Nat) (src : Option (List Byte)) :
    Option (List Byte) :=
  match src with
  | none => some []
  | some src => if hasDst = false then some [] else loop src dstcap (src.length + 1) (start junk)

end S5LBox.Firmware.Lzss
