import S5LBox.Arm.Cpu
import S5LBox.Lib.Reader
import S5LBox.Lib.LittleEndian

/-!
# The ZIP reader

Opening an archive and walking its central directory, as `VMFirmwareZip.c` does it. An archive is
read in pieces: a function that reads is a program of `Reading.Reader`, and a read that comes back
short is `ZipStatus.read`.

Offsets are numbers below `2 ^ 64` and wrap there. The walk takes its addition as a parameter, so
that it can be compared with one that does not wrap.

## Main definitions

* `vmfwZipOpen`: finds the end of the central directory and reads where the directory is.
* `applyZip64Extra`, `entryAt`: one entry of the directory.
* `vmfwZipIterate`: the walk over the entries.
-/

namespace S5LBox.Firmware

open Reading

/-! ### Numbers -/

/-- The octet at an index of a buffer. -/
def octet (p : List Byte) (i : Nat) : Nat := (p.getD i 0).toNat

/-- `rd16`. -/
def rd16 (p : List Byte) : Nat := octet p 0 + octet p 1 * 2 ^ 8

/-- `rd32`. -/
def rd32 (p : List Byte) : Nat :=
  octet p 0 + octet p 1 * 2 ^ 8 + octet p 2 * 2 ^ 16 + octet p 3 * 2 ^ 24

/-- `rd64`. -/
def rd64 (p : List Byte) : Nat := rd32 p + rd32 (p.drop 4) * 2 ^ 32

/-- The sum of two `uint64_t`. -/
def add64 (a b : Nat) : Nat := (a + b) % 2 ^ 64

/-! ### Constants -/

/-- `SIG_CENTRAL`. -/
def sigCentral : Nat := 0x02014b50

/-- `SIG_EOCD`. -/
def sigEocd : Nat := 0x06054b50

/-- `SIG_EOCD64`. -/
def sigEocd64 : Nat := 0x06064b50

/-- `SIG_EOCD64_LOC`. -/
def sigEocd64Loc : Nat := 0x07064b50

/-- `EOCD_SIZE`. -/
abbrev eocdSize : Nat := 22

/-- `EOCD64_LOC_SIZE`. -/
abbrev eocd64LocSize : Nat := 20

/-- `EOCD64_MIN_SIZE`. -/
abbrev eocd64MinSize : Nat := 56

/-- `CENTRAL_MIN_SIZE`. -/
abbrev centralMinSize : Nat := 46

/-- `EOCD_MAX_SCAN`. -/
abbrev eocdMaxScan : Nat := eocdSize + 0xffff

/-- `ZIP64_SENTINEL32`. -/
abbrev zip64Sentinel32 : Nat := 0xffffffff

/-- `ZIP64_SENTINEL16`. -/
abbrev zip64Sentinel16 : Nat := 0xffff

/-- `VMFW_ZIP_MAX_NAME`. -/
abbrev vmfwZipMaxName : Nat := 256

/-- `WINDOW` of `vmfw_zip_open`. -/
abbrev window : Nat := 4096

/-- `OVERLAP` of `vmfw_zip_open`. -/
abbrev overlap : Nat := 3

/-! ### Data -/

/-- The failures of `vmfw_zip_status_t` that opening and walking have. -/
inductive ZipStatus
  | read | notZip | multiDisk | zip64 | badDirectory | tooMany | nameTooLong | encrypted
  deriving DecidableEq

/-- `vmfw_zip_strerror`. -/
def ZipStatus.strerror : ZipStatus → String
  | .read => "the archive could not be read"
  | .notZip => "not a zip archive: no end-of-central-directory record"
  | .multiDisk => "split archives are not supported"
  | .zip64 => "malformed or unaddressable zip64 record"
  | .badDirectory => "a central directory entry is impossible"
  | .tooMany => "the archive declares more members than its directory can hold"
  | .nameTooLong => "a member name is longer than this reader accepts"
  | .encrypted => "the archive uses zip encryption"

/-- Where the central directory is, and how many entries it has. -/
structure Directory where
  entryCount : Nat
  cdSize : Nat
  cdOffset : Nat
  deriving DecidableEq

/-- `vmfw_zip_t`. -/
structure Zip extends Directory where
  size : Nat
  deriving DecidableEq

/-- `vmfw_zip_entry_t`. -/
structure Entry where
  name : List Byte
  compressedSize : Nat
  uncompressedSize : Nat
  localHeaderOffset : Nat
  crc32 : Nat
  method : Nat
  isDirectory : Bool
  unixMode : Nat
  deriving DecidableEq

/-- What the reader does with an archive. -/
abbrev ZipReader (α : Type) := Reader ZipStatus Byte α

/-- Gives up with a status when something is wrong. -/
def refuse (wrong : Prop) [Decidable wrong] (st : ZipStatus) : ZipReader Unit :=
  if wrong then .fail st else pure ()

/-- `read_exact`. -/
def readExact (size off len : Nat) : ZipReader (List Byte) :=
  if len = 0 then pure []
  else if off > size ∨ len > size - off then .fail .read
  else .read off len fun got => if got.length = len then pure got else .fail .read

/-! ### Opening -/

/-- The inner loop of the scan: the last signature in a window that leaves room for a record. -/
def lastEocd (size start : Nat) (win : List Byte) : Nat → Option Nat
  | 0 => none
  | i + 1 =>
    if add64 (add64 start i) eocdSize > size then lastEocd size start win i
    else if rd32 (win.drop i) = sigEocd then some (add64 start i)
    else lastEocd size start win i

/-- The backward scan of `vmfw_zip_open` over overlapping windows. -/
def scan (size scanStart winEnd : Nat) : ZipReader Nat :=
  if _h : min (winEnd - scanStart) window < 4 then .fail .notZip
  else
    readExact size (winEnd - min (winEnd - scanStart) window)
      (min (winEnd - scanStart) window) >>= fun win =>
    match lastEocd size (winEnd - min (winEnd - scanStart) window) win
      (min (winEnd - scanStart) window - 3) with
    | some off => pure off
    | none =>
      if winEnd - min (winEnd - scanStart) window = scanStart then .fail .notZip
      else scan size scanStart (winEnd - min (winEnd - scanStart) window + overlap)
termination_by winEnd
decreasing_by
  simp only [window, overlap] at _h ⊢
  omega

/-- `read_zip64`, which gives the directory of the classic record back when there is no locator. -/
def readZip64 (size eocdOff : Nat) (classic : Directory) : ZipReader Directory :=
  if eocdOff < eocd64LocSize then pure classic
  else do
    let loc ← readExact size (eocdOff - eocd64LocSize) eocd64LocSize
    if rd32 loc ≠ sigEocd64Loc then pure classic
    else do
      refuse (rd32 (loc.drop 4) ≠ 0) .multiDisk
      refuse (rd32 (loc.drop 16) > 1) .multiDisk
      refuse (rd64 (loc.drop 8) > size ∨ size - rd64 (loc.drop 8) < eocd64MinSize) .zip64
      let record ← readExact size (rd64 (loc.drop 8)) eocd64MinSize
      refuse (rd32 record ≠ sigEocd64) .zip64
      refuse (rd32 (record.drop 16) ≠ 0 ∨ rd32 (record.drop 20) ≠ 0) .multiDisk
      refuse (rd64 (record.drop 32) > 0xffffffff) .tooMany
      pure ⟨rd64 (record.drop 32), rd64 (record.drop 40), rd64 (record.drop 48)⟩

/-- One of the fields carries the sentinel that stands for a value in the ZIP64 record. -/
def Directory.sentinel (d : Directory) : Prop :=
  d.entryCount = zip64Sentinel16 ∨ d.cdSize = zip64Sentinel32 ∨ d.cdOffset = zip64Sentinel32

instance (d : Directory) : Decidable d.sentinel := inferInstanceAs (Decidable (_ ∨ _ ∨ _))

/-- The part of `vmfw_zip_open` after the scan. -/
def readEocd (size eocdOff : Nat) : ZipReader Zip := do
  let eocd ← readExact size eocdOff eocdSize
  refuse (rd16 (eocd.drop 4) ≠ 0 ∨ rd16 (eocd.drop 6) ≠ 0) .multiDisk
  refuse (rd16 (eocd.drop 8) ≠ rd16 (eocd.drop 10)) .multiDisk
  let classic : Directory := ⟨rd16 (eocd.drop 10), rd32 (eocd.drop 12), rd32 (eocd.drop 16)⟩
  let d ← readZip64 size eocdOff classic
  -- The values of the ZIP64 record are compared with the sentinels as well.
  refuse (classic.sentinel ∧ d.sentinel) .zip64
  refuse (d.cdOffset > size ∨ d.cdSize > size - d.cdOffset) .badDirectory
  refuse (d.entryCount * centralMinSize > d.cdSize) .tooMany
  pure { d with size := size }

/-- `vmfw_zip_open`. -/
def vmfwZipOpen (size : Nat) : ZipReader Zip :=
  if size < eocdSize then .fail .notZip
  else scan size (size - min size eocdMaxScan) size >>= readEocd size

/-! ### Walking -/

section Walk

variable (add : Nat → Nat → Nat)

/-- The values that a ZIP64 extra field gives, for the fields that need one. -/
def Entry.widen (e : Entry) (needUsize needCsize needOffset : Bool) (body : List Byte) : Entry :=
  let p := if needUsize then body.drop 8 else body
  let q := if needCsize then p.drop 8 else p
  { e with
    uncompressedSize := if needUsize then rd64 body else e.uncompressedSize
    compressedSize := if needCsize then rd64 p else e.compressedSize
    localHeaderOffset := if needOffset then rd64 q else e.localHeaderOffset }

/-- The octets that a ZIP64 extra field has to have. -/
def want (needUsize needCsize needOffset : Bool) : Nat :=
  (if needUsize then 8 else 0) + (if needCsize then 8 else 0) + (if needOffset then 8 else 0)

/-- `apply_zip64_extra`, from an offset in the extra area on. -/
def applyZip64Extra (size extraOff extraLen : Nat) (e : Entry)
    (needUsize needCsize needOffset : Bool) (off : Nat) : ZipReader Entry :=
  if h : off + 4 ≤ extraLen then
    readExact size (add extraOff off) 4 >>= fun hdr =>
    if off + 4 + rd16 (hdr.drop 2) > extraLen then .fail .badDirectory
    else if rd16 hdr = 1 then do
      refuse (rd16 (hdr.drop 2) < want needUsize needCsize needOffset ∨
        want needUsize needCsize needOffset > 24) .zip64
      let body ← readExact size (add (add extraOff off) 4) (want needUsize needCsize needOffset)
      pure (e.widen needUsize needCsize needOffset body)
    else applyZip64Extra size extraOff extraLen e needUsize needCsize needOffset
      (off + (4 + rd16 (hdr.drop 2)))
  else .fail .zip64
termination_by extraLen - off

/-- `strlen` of a name in a buffer that ends with a zero. -/
def strlen (name : List Byte) : Nat := (name.takeWhile (· ≠ 0)).length

/-- The entry that a header of the directory and a name describe before the extra field is read. -/
def entryOf (hdr name : List Byte) : Entry where
  name := name
  compressedSize := rd32 (hdr.drop 20)
  uncompressedSize := rd32 (hdr.drop 24)
  localHeaderOffset := rd32 (hdr.drop 42)
  crc32 := rd32 (hdr.drop 16)
  method := rd16 (hdr.drop 10)
  isDirectory := name.getLast? = some 0x2f
  unixMode := if rd16 (hdr.drop 4) / 2 ^ 8 = 3 then rd32 (hdr.drop 38) / 2 ^ 16 else 0

/-- A sentinel in one of the fields has `vmfw_zip_iterate` call `apply_zip64_extra`. -/
def explain (size extraOff extraLen : Nat) (e : Entry) : ZipReader Entry :=
  let needUsize : Bool := e.uncompressedSize = zip64Sentinel32
  let needCsize : Bool := e.compressedSize = zip64Sentinel32
  let needOffset : Bool := e.localHeaderOffset = zip64Sentinel32
  if needUsize || needCsize || needOffset then
    applyZip64Extra add size extraOff extraLen e needUsize needCsize needOffset 0
  else pure e

/-- The body of the loop of `vmfw_zip_iterate` up to the visit: an entry, and how long it is. -/
def entryAt (z : Zip) (finish off : Nat) : ZipReader (Entry × Nat) := do
  refuse (add off centralMinSize > finish) .badDirectory
  let hdr ← readExact z.size off centralMinSize
  refuse (rd32 hdr ≠ sigCentral) .badDirectory
  let nameLen := rd16 (hdr.drop 28)
  let xtraLen := rd16 (hdr.drop 30)
  let cmntLen := rd16 (hdr.drop 32)
  let entryLen := centralMinSize + nameLen + xtraLen + cmntLen
  refuse (add off entryLen > finish) .badDirectory
  refuse ((rd16 (hdr.drop 8)).testBit 0 ∨ (rd16 (hdr.drop 8)).testBit 6) .encrypted
  refuse (nameLen ≥ vmfwZipMaxName) .nameTooLong
  let name ← readExact z.size (add off centralMinSize) nameLen
  refuse (strlen name ≠ nameLen) .badDirectory
  let e ← explain add z.size (add (add off centralMinSize) nameLen) xtraLen (entryOf hdr name)
  refuse (e.localHeaderOffset > z.size) .badDirectory
  pure (e, entryLen)

/-- The loop of `vmfw_zip_iterate`. The visitor has a state, and says whether to go on. -/
def walk {γ : Type} (z : Zip) (visit : γ → Entry → Nat → γ × Bool) (finish : Nat) :
    (left i off : Nat) → γ → Reader Empty Byte (γ × Except ZipStatus Unit)
  | 0, _, _, s => pure (s, .ok ())
  | left + 1, i, off, s =>
    (entryAt add z finish off).attempt >>= fun
    | .error st => pure (s, .error st)
    | .ok (e, len) =>
      if (visit s e i).2 then walk z visit finish left (i + 1) (add off len) (visit s e i).1
      else pure ((visit s e i).1, .ok ())

/-- `vmfw_zip_iterate`, with an addition of its own. -/
def iterateWith {γ : Type} (z : Zip) (visit : γ → Entry → Nat → γ × Bool) (s : γ) :
    Reader Empty Byte (γ × Except ZipStatus Unit) :=
  walk add z visit (add z.cdOffset z.cdSize) z.entryCount 0 z.cdOffset s

end Walk

/-- `vmfw_zip_iterate`. -/
def vmfwZipIterate {γ : Type} (z : Zip) (visit : γ → Entry → Nat → γ × Bool) (s : γ) :
    Reader Empty Byte (γ × Except ZipStatus Unit) :=
  iterateWith add64 z visit s

end S5LBox.Firmware
