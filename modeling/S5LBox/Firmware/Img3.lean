import S5LBox.Arm.Cpu
import S5LBox.Lib.LittleEndian
import S5LBox.Lib.Pieces

/-!
# IMG3 containers

`img3_parse` of `img3.c`. A pointer into the buffer is an offset. The place for the result is given.

## Main definitions

* `parseKbag`: the reading of a key bag.
* `takeTag`: what a tag changes in the result.
* `tagLoop`, `img3Parse`.
-/

namespace S5LBox.Firmware.Img3

/-- `img3_status_t`, without `IMG3_ERR_INVALID_ARGUMENT`, which is for no place for the result. -/
inductive Status
  | ok
  | errTooSmall
  | errBadMagic
  | errBadSize
  | errBadTag
  deriving DecidableEq, Repr

/-- `IMG3_MAGIC`. -/
abbrev img3Magic : Nat := 0x496d6733

/-- `IMG3_TAG_DATA`. -/
abbrev img3TagData : Nat := 0x44415441

/-- `IMG3_TAG_KBAG`. -/
abbrev img3TagKbag : Nat := 0x4b424147

/-- `IMG3_TAG_SHSH`. -/
abbrev img3TagShsh : Nat := 0x53485348

/-- `IMG3_TAG_VERS`. -/
abbrev img3TagVers : Nat := 0x56455253

/-- `IMG3_HEADER_SIZE`. -/
abbrev img3HeaderSize : Nat := 20

/-- `IMG3_TAG_HEADER`. -/
abbrev img3TagHeader : Nat := 12

/-- `img3_kbag_t`. -/
structure Kbag where
  cryptState : Nat := 0
  keyBits : Nat := 0
  iv : List Byte := List.replicate 16 0
  key : List Byte := List.replicate 32 0
  present : Bool := false
  malformed : Bool := false

/-- `img3_t`. -/
structure Image where
  ident : Nat := 0
  fullSize : Nat := 0
  dataSize : Nat := 0
  signedSize : Nat := 0
  data : Option Nat := none
  dataLen : Nat := 0
  kbag : Kbag := {}
  hasShsh : Bool := false
  vers : List Byte := List.replicate 64 0

/-- `rd32`. -/
def rd32 (p : List Byte) : Nat := LittleEndian.decode (p.take 4)

/-- `parse_kbag`. -/
def parseKbag (d : List Byte) (len : Nat) (k : Kbag) : Kbag :=
  let k := { k with malformed := true }
  if len < 24 then k
  else
    let k := { k with
      cryptState := rd32 d, keyBits := rd32 (d.drop 4), iv := (d.drop 8).take 16 }
    if k.keyBits ≠ 128 ∧ k.keyBits ≠ 192 ∧ k.keyBits ≠ 256 then k
    else
      let keyLen := k.keyBits / 8
      if len < 24 + keyLen then k
      else { k with
        key := Pieces.overwrite k.key 0 ((d.drop 24).take keyLen)
        present := true
        malformed := false }

/-- The case of a `VERS` tag. -/
def takeVers (d : List Byte) (dataLen : Nat) (out : Image) : Image :=
  if 4 ≤ dataLen then
    let slen := rd32 d
    if slen + 4 ≤ dataLen then
      let n := if slen < 63 then slen else 63
      { out with vers := Pieces.overwrite out.vers 0 ((d.drop 4).take n ++ [0]) }
    else out
  else out

/-- The `switch` of `img3_parse`, for a payload at `d`. -/
def takeTag (buf : List Byte) (magic d dataLen : Nat) (out : Image) : Image :=
  if magic = img3TagData then { out with data := some d, dataLen }
  else if magic = img3TagKbag then
    if out.kbag.present = false then { out with kbag := parseKbag (buf.drop d) dataLen out.kbag }
    else out
  else if magic = img3TagShsh then { out with hasShsh := decide (0 < dataLen) }
  else if magic = img3TagVers then takeVers (buf.drop d) dataLen out
  else out

/-- The loop of `img3_parse`, up to `finish`, and its end. -/
def tagLoop (buf : List Byte) (finish off : Nat) (out : Image) : Status × Image :=
  if _h : off + img3TagHeader ≤ finish then
    let t := buf.drop off
    let magic := rd32 t
    let totalLen := rd32 (t.drop 4)
    let dataLen := rd32 (t.drop 8)
    if _hlen : totalLen < img3TagHeader then (.errBadTag, out)
    else if finish < off + totalLen then (.errBadTag, out)
    else if totalLen < dataLen + img3TagHeader then (.errBadTag, out)
    else tagLoop buf finish (off + totalLen)
      (takeTag buf magic (off + img3TagHeader) dataLen out)
  else if off ≠ finish then (.errBadTag, out)
  else (.ok, out)
termination_by finish - off
decreasing_by
  have hheader : img3TagHeader = 12 := rfl
  have htotal : totalLen = rd32 ((buf.drop off).drop 4) := rfl
  omega

/-- `img3_parse`. -/
def img3Parse (buf : Option (List Byte)) : Status × Image :=
  match buf with
  | none => (.errTooSmall, {})
  | some buf =>
    if buf.length < img3HeaderSize then (.errTooSmall, {})
    else if rd32 buf ≠ img3Magic then (.errBadMagic, {})
    else
      let out : Image :=
        { fullSize := rd32 (buf.drop 4), dataSize := rd32 (buf.drop 8)
          signedSize := rd32 (buf.drop 12), ident := rd32 (buf.drop 16) }
      if out.fullSize < img3HeaderSize ∨ buf.length < out.fullSize then (.errBadSize, out)
      else if out.fullSize < out.dataSize + img3HeaderSize then (.errBadSize, out)
      else tagLoop buf out.fullSize img3HeaderSize out

end S5LBox.Firmware.Img3
