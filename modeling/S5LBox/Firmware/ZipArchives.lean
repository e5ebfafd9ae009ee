import S5LBox.Firmware.ZipMembers
import Mathlib.Tactic.IntervalCases

/-!
# Archives on one disk

The format of a whole archive: whatever precedes the central directory, the directory, the ZIP64
record with its locator where there is one, the record at the end and the comment. A value of the
record at the end that is given by the ZIP64 record may be replaced by a sentinel.

An archive is opened and walked as it was written unless the ZIP64 record repeats a value that is
a sentinel before the comment, which the reader takes for a missing record.

## Main definitions

* `Archive`, `Archive.bytes`: an archive, and how it is written.
* `Archive.Served`: it is opened and walked as it was written.

## Main results

* `Archive.served_iff`: when an archive is.
* `zip_walks_iff`: the reader on archives and on any other file.
-/

namespace S5LBox.Firmware

open Reading LittleEndian

/-- The ZIP64 record and its locator. -/
structure Zip64 where
  madeBy : BitVec 16
  needed : BitVec 16
  /-- The extensible data of the record. -/
  extension : List Byte
  /-- The total number of disks that the locator gives. -/
  disks : Nat
  /-- The fields of the record at the end that carry a sentinel. -/
  markCount : Bool
  markSize : Bool
  markOffset : Bool

/-- An archive on one disk. -/
structure Archive where
  /-- What precedes the central directory. -/
  body : List Byte
  members : List Member
  /-- The digital signature that may end the central directory. -/
  signature : List Byte
  zip64 : Option Zip64
  comment : List Byte

namespace Archive

/-- The central directory. -/
def directoryBytes (a : Archive) : List Byte := a.members.flatMap Member.bytes ++ a.signature

/-- Where the central directory is. -/
def directory (a : Archive) : Directory :=
  ⟨a.members.length, a.directoryBytes.length, a.body.length⟩

/-- A field of the record at the end carries a sentinel. -/
def marked (a : Archive) (field : Zip64 → Bool) : Bool := a.zip64.any field

/-- The directory as the record at the end has it. -/
def classic (a : Archive) : Directory where
  entryCount := if a.marked Zip64.markCount then zip64Sentinel16 else a.members.length
  cdSize := if a.marked Zip64.markSize then zip64Sentinel32 else a.directoryBytes.length
  cdOffset := if a.marked Zip64.markOffset then zip64Sentinel32 else a.body.length

/-- Where the ZIP64 record begins. -/
def recordOffset (a : Archive) : Nat := a.body.length + a.directoryBytes.length

/-- The ZIP64 record. -/
def record (a : Archive) (x : Zip64) : List Byte :=
  encode 4 sigEocd64 ++ (encode 8 (44 + x.extension.length) ++ (encode 2 x.madeBy.toNat ++
  (encode 2 x.needed.toNat ++ (encode 4 0 ++ (encode 4 0 ++ (encode 8 a.directory.entryCount ++
  (encode 8 a.directory.entryCount ++ (encode 8 a.directory.cdSize ++
  (encode 8 a.directory.cdOffset ++ x.extension)))))))))

/-- The locator of the ZIP64 record. -/
def locator (a : Archive) (x : Zip64) : List Byte :=
  encode 4 sigEocd64Loc ++ (encode 4 0 ++ (encode 8 a.recordOffset ++ encode 4 x.disks))

/-- What stands between the central directory and the record at the end. -/
def ending (a : Archive) : List Byte :=
  match a.zip64 with
  | none => []
  | some x => a.record x ++ a.locator x

/-- The record at the end. -/
def eocd (a : Archive) : List Byte :=
  encode 4 sigEocd ++ (encode 2 0 ++ (encode 2 0 ++ (encode 2 a.classic.entryCount ++
  (encode 2 a.classic.entryCount ++ (encode 4 a.classic.cdSize ++
  (encode 4 a.classic.cdOffset ++ encode 2 a.comment.length))))))

/-- How an archive is written. -/
def bytes (a : Archive) : List Byte :=
  a.body ++ (a.directoryBytes ++ (a.ending ++ (a.eocd ++ a.comment)))

/-- Where the record at the end begins. -/
def eocdOffset (a : Archive) : Nat := a.recordOffset + a.ending.length

/-- What the reader calls the archive. -/
def zip (a : Archive) : Zip := { a.directory with size := a.bytes.length }

/-- An archive as the format has it. -/
structure WellFormed (a : Archive) : Prop where
  length : a.bytes.length < 2 ^ 63
  members : ∀ m ∈ a.members, m.WellFormed a.bytes.length
  count : a.members.length ≤ 0xffffffff
  unmarkedCount : a.marked Zip64.markCount = false → a.members.length < zip64Sentinel16
  unmarkedSize : a.marked Zip64.markSize = false → a.directoryBytes.length < zip64Sentinel32
  unmarkedOffset : a.marked Zip64.markOffset = false → a.body.length < zip64Sentinel32
  disks : ∀ x ∈ a.zip64, x.disks ≤ 1
  comment_length : a.comment.length < 2 ^ 16
  comment : ∀ i, i + 4 ≤ a.comment.length → rd32 (a.comment.drop i) ≠ sigEocd

/-- Nothing in the last octets can be taken for something else: no signature begins inside the
record at the end, and no locator signature stands before it by chance. -/
structure Plain (a : Archive) : Prop where
  inside : ∀ i, 0 < i → i < eocdSize → ¬IsEocd a.bytes (a.eocdOffset + i)
  locator : a.zip64 = none → ¬HasLocator a.bytes a.eocdOffset

/-- The archive is opened and walked as it was written. -/
def Served (a : Archive) : Prop :=
  (vmfwZipOpen a.bytes.length).run (serve a.bytes) = .ok a.zip ∧
    ∀ (γ : Type) (visit : γ → Entry → Nat → γ × Bool) (s : γ),
      (vmfwZipIterate a.zip visit s).run (serve a.bytes) =
        .ok (visitAll visit 0 (a.members.map Member.entry) s, .ok ())

/-! ### Where the parts are -/

variable (a : Archive)

theorem length_bytes :
    a.bytes.length = a.eocdOffset + eocdSize + a.comment.length := by
  simp only [bytes, eocdOffset, recordOffset, eocd, List.length_append, length_encode, eocdSize]
  omega

theorem drop_body : a.bytes.drop a.body.length =
    a.members.flatMap Member.bytes ++ (a.signature ++ (a.ending ++ (a.eocd ++ a.comment))) := by
  rw [bytes, List.drop_left' rfl, directoryBytes, List.append_assoc]

theorem drop_record : a.bytes.drop a.recordOffset = a.ending ++ (a.eocd ++ a.comment) := by
  have hlen : (a.body ++ a.directoryBytes).length = a.recordOffset := List.length_append
  rw [bytes, ← List.append_assoc, List.drop_left' hlen]

theorem drop_eocd : a.bytes.drop a.eocdOffset = a.eocd ++ a.comment :=
  drop_of_drop a.drop_record rfl

theorem isEocd_eocd : IsEocd a.bytes a.eocdOffset := by
  constructor
  · rw [length_bytes]
    exact Nat.le_add_right _ _
  · rw [drop_eocd, eocd, List.append_assoc]
    exact rd32_encode (by decide) _

theorem members_le : a.members.length * centralMinSize ≤ a.directoryBytes.length := by
  rw [directoryBytes, List.length_append]
  refine Nat.le_add_right_of_le ?_
  induction a.members with
  | nil => exact Nat.zero_le _
  | cons m ms ih =>
    have hm := m.length_bytes
    rw [List.flatMap_cons, List.length_append, List.length_cons, Nat.succ_mul]
    omega

theorem directory_fits : a.directory.Fits a.bytes := by
  refine ⟨?_, a.members_le⟩
  rw [length_bytes, eocdOffset, recordOffset, directory]
  dsimp only
  omega

/-- The walk over an open archive. -/
theorem iterate_members {a : Archive} (ha : a.WellFormed)
    (h : (vmfwZipOpen a.bytes.length).run (serve a.bytes) = .ok a.zip) {γ : Type}
    (visit : γ → Entry → Nat → γ × Bool) (s : γ) :
    (vmfwZipIterate a.zip visit s).run (serve a.bytes) =
      .ok (visitAll visit 0 (a.members.map Member.entry) s, .ok ()) := by
  rw [vmfwZipIterate_eq ha.length h]
  refine walk_members rfl visit ha.members 0 s a.drop_body (Nat.add_le_add_left ?_ _)
  change _ ≤ (a.members.flatMap Member.bytes ++ a.signature).length
  rw [List.length_append]
  exact Nat.le_add_right _ _

/-- So an archive is served when its directory is what is opened. -/
theorem served_iff {a : Archive} (ha : a.WellFormed) :
    a.Served ↔ ∃ p, IsLastEocd a.bytes p ∧ Names a.bytes p a.directory ∧
      ¬RepeatsSentinel a.bytes p a.directory := by
  have hopen : a.Served ↔ (vmfwZipOpen a.bytes.length).run (serve a.bytes) = .ok a.zip :=
    ⟨fun h => h.1, fun h => ⟨h, fun _ visit s => iterate_members ha h visit s⟩⟩
  rw [hopen, vmfwZipOpen_eq_ok_iff ha.length]
  constructor
  · rintro ⟨p, d, hp, hd, hs, -, hz⟩
    have hd' : a.directory = d := congrArg Zip.toDirectory hz
    rw [hd']
    exact ⟨p, hp, hd, hs⟩
  · rintro ⟨p, hp, hd, hs⟩
    exact ⟨p, a.directory, hp, hd, hs, a.directory_fits, rfl⟩

/-! ### The record that the reader should find -/

section Own

variable {a : Archive} (ha : a.WellFormed)

include ha

theorem classic_lt : a.classic.entryCount < 2 ^ 16 ∧ a.classic.cdSize < 2 ^ 32 ∧
    a.classic.cdOffset < 2 ^ 32 := by
  have h1 := ha.unmarkedCount
  have h2 := ha.unmarkedSize
  have h3 := ha.unmarkedOffset
  simp only [zip64Sentinel16, zip64Sentinel32] at h1 h2 h3
  simp only [classic, zip64Sentinel16, zip64Sentinel32]
  refine ⟨?_, ?_, ?_⟩
  · cases hm : a.marked Zip64.markCount with
    | true => exact (if_pos rfl).trans_lt (by decide)
    | false => exact (if_neg Bool.false_ne_true).trans_lt ((h1 hm).trans (by decide))
  · cases hm : a.marked Zip64.markSize with
    | true => exact (if_pos rfl).trans_lt (by decide)
    | false => exact (if_neg Bool.false_ne_true).trans_lt ((h2 hm).trans (by decide))
  · cases hm : a.marked Zip64.markOffset with
    | true => exact (if_pos rfl).trans_lt (by decide)
    | false => exact (if_neg Bool.false_ne_true).trans_lt ((h3 hm).trans (by decide))

theorem classicAt_eocd : classicAt a.bytes a.eocdOffset = a.classic := by
  obtain ⟨hc, hs, ho⟩ := classic_lt ha
  rw [classicAt, rd16_at (r := (a.eocd ++ a.comment).drop 12) a.drop_eocd rfl hc,
    rd32_at (r := (a.eocd ++ a.comment).drop 16) a.drop_eocd rfl hs,
    rd32_at (r := (a.eocd ++ a.comment).drop 20) a.drop_eocd rfl ho]

theorem oneDisk_eocd : OneDisk a.bytes a.eocdOffset := by
  obtain ⟨hc, -, -⟩ := classic_lt ha
  rw [OneDisk, rd16_at (r := (a.eocd ++ a.comment).drop 6) a.drop_eocd rfl (Nat.two_pow_pos 16),
    rd16_at (r := (a.eocd ++ a.comment).drop 8) a.drop_eocd rfl (Nat.two_pow_pos 16),
    rd16_at (r := (a.eocd ++ a.comment).drop 10) a.drop_eocd rfl hc,
    rd16_at (r := (a.eocd ++ a.comment).drop 12) a.drop_eocd rfl hc]
  exact ⟨⟨rfl, rfl⟩, rfl⟩

/-- The comment has no signature, so the last one is that of the record at the end or begins
inside it. -/
theorem isLastEocd_eocd (hi : ∀ i, 0 < i → i < eocdSize → ¬IsEocd a.bytes (a.eocdOffset + i)) :
    IsLastEocd a.bytes a.eocdOffset := by
  have hlen := a.length_bytes
  have hcomment := ha.comment_length
  refine ⟨a.isEocd_eocd, by simp only [eocdMaxScan]; omega, fun q hq hs => ?_⟩
  obtain ⟨i, rfl⟩ := Nat.exists_eq_add_of_lt hq
  rcases Nat.lt_or_ge (i + 1) eocdSize with h | h
  · exact hi (i + 1) (Nat.succ_pos i) h hs
  · obtain ⟨j, hj⟩ := Nat.exists_eq_add_of_le h
    have hroom := hs.1
    refine ha.comment j (by simp only [eocdSize] at *; omega) ?_
    have hdrop : a.bytes.drop (a.eocdOffset + i + 1) = a.comment.drop j := by
      rw [show a.eocdOffset + i + 1 = a.eocdOffset + eocdSize + j by omega, ← List.drop_drop,
        drop_of_drop a.drop_eocd (by simp only [eocd, List.length_append, length_encode])]
    rw [← hdrop]
    exact hs.2

omit ha

variable {x : Zip64} (hx : a.zip64 = some x)

include hx

theorem ending_eq : a.ending = a.record x ++ a.locator x := by
  simp only [ending, hx]

theorem drop_locator :
    a.bytes.drop (a.eocdOffset - eocd64LocSize) = a.locator x ++ (a.eocd ++ a.comment) := by
  have hrecord := a.drop_record
  rw [ending_eq hx, List.append_assoc] at hrecord
  have hoff : a.eocdOffset - eocd64LocSize = a.recordOffset + (a.record x).length := by
    rw [eocdOffset, ending_eq hx]
    simp only [locator, List.length_append, length_encode, eocd64LocSize]
    omega
  rw [hoff, drop_of_drop hrecord rfl]

theorem hasLocator_eocd : HasLocator a.bytes a.eocdOffset := by
  constructor
  · rw [eocdOffset, ending_eq hx]
    simp only [locator, List.length_append, length_encode, eocd64LocSize]
    omega
  · rw [drop_locator hx, locator, List.append_assoc]
    exact rd32_encode (by decide) _

include ha

theorem zip64Offset_eocd : zip64Offset a.bytes a.eocdOffset = a.recordOffset := by
  have hlen := a.length_bytes
  have hlt := ha.length
  rw [eocdOffset] at hlen
  exact rd64_at (r := (a.locator x ++ (a.eocd ++ a.comment)).drop 16) (drop_locator hx) rfl
    (by omega)

theorem zip64At_record : zip64At a.bytes a.recordOffset = a.directory := by
  have hfits := a.directory_fits.1
  have hcount := ha.count
  have hlt := ha.length
  have hrecord : a.bytes.drop a.recordOffset =
      a.record x ++ (a.locator x ++ (a.eocd ++ a.comment)) := by
    rw [a.drop_record, ending_eq hx, List.append_assoc]
  have hn : rd64 (a.bytes.drop (a.recordOffset + 32)) = a.directory.entryCount :=
    rd64_at (r := (a.record x ++ (a.locator x ++ (a.eocd ++ a.comment))).drop 40) hrecord rfl
      (by change a.members.length < _; omega)
  have hs : rd64 (a.bytes.drop (a.recordOffset + 40)) = a.directory.cdSize :=
    rd64_at (r := (a.record x ++ (a.locator x ++ (a.eocd ++ a.comment))).drop 48) hrecord rfl
      (by omega)
  have ho : rd64 (a.bytes.drop (a.recordOffset + 48)) = a.directory.cdOffset :=
    rd64_at (r := (a.record x ++ (a.locator x ++ (a.eocd ++ a.comment))).drop 56) hrecord rfl
      (by omega)
  rw [zip64At, hn, hs, ho]

theorem leadsTo_record : LeadsTo a.bytes a.eocdOffset a.recordOffset := by
  have hloc := drop_locator hx
  have hdisks := ha.disks x hx
  have hrecord : a.bytes.drop a.recordOffset =
      a.record x ++ (a.locator x ++ (a.eocd ++ a.comment)) := by
    rw [a.drop_record, ending_eq hx, List.append_assoc]
  refine ⟨?_, ?_, ?_, ?_, ⟨?_, ?_⟩, ?_⟩
  · exact rd32_at (r := (a.locator x ++ (a.eocd ++ a.comment)).drop 8) hloc rfl (by decide)
  · have hd : rd32 (a.bytes.drop (a.eocdOffset - eocd64LocSize + 16)) = x.disks :=
      rd32_at (r := (a.locator x ++ (a.eocd ++ a.comment)).drop 20) hloc rfl (by omega)
    rwa [hd]
  · rw [length_bytes, eocdOffset, ending_eq hx]
    simp only [record, List.length_append, length_encode, eocd64MinSize]
    omega
  · rw [hrecord, record, List.append_assoc]
    exact rd32_encode (by decide) _
  · exact rd32_at (r := (a.record x ++ (a.locator x ++ (a.eocd ++ a.comment))).drop 20)
      hrecord rfl (by decide)
  · exact rd32_at (r := (a.record x ++ (a.locator x ++ (a.eocd ++ a.comment))).drop 24)
      hrecord rfl (by decide)
  · rw [zip64At_record ha hx]
    exact ha.count

end Own

/-- The record at the end names the directory of the archive. -/
theorem names_eocd {a : Archive} (ha : a.WellFormed)
    (h : a.zip64 = none → ¬HasLocator a.bytes a.eocdOffset) :
    Names a.bytes a.eocdOffset a.directory := by
  cases hx : a.zip64 with
  | none =>
    have hclassic : a.classic = a.directory := by
      simp only [classic, marked, hx, Option.any_none, Bool.false_eq_true, if_false]
      rfl
    have hs : ¬a.classic.sentinel := by
      have hmark (field : Zip64 → Bool) : a.marked field = false := by
        rw [marked, hx]
        rfl
      rw [hclassic]
      rintro (h | h | h)
      · exact (ha.unmarkedCount (hmark _)).ne h
      · exact (ha.unmarkedSize (hmark _)).ne h
      · exact (ha.unmarkedOffset (hmark _)).ne h
    have hnames := Names.classic (oneDisk_eocd ha) (h hx) (by rwa [classicAt_eocd ha])
    rwa [classicAt_eocd ha, hclassic] at hnames
  | some x =>
    have hoff := zip64Offset_eocd ha hx
    have hnames := Names.zip64 (oneDisk_eocd ha) (hasLocator_eocd hx)
      (by rw [hoff]; exact leadsTo_record ha hx)
    rwa [hoff, zip64At_record ha hx] at hnames

/-- A value that is a sentinel is one before the comment, marked or not. -/
theorem sentinel_classic {a : Archive} (h : a.directory.sentinel) : a.classic.sentinel := by
  rcases h with h | h | h
  · refine Or.inl ?_
    rw [classic]
    dsimp only
    split_ifs
    · rfl
    · exact h
  · refine Or.inr (Or.inl ?_)
    rw [classic]
    dsimp only
    split_ifs
    · rfl
    · exact h
  · refine Or.inr (Or.inr ?_)
    rw [classic]
    dsimp only
    split_ifs
    · rfl
    · exact h

theorem repeatsSentinel_iff {a : Archive} (ha : a.WellFormed) (hp : a.Plain) :
    RepeatsSentinel a.bytes a.eocdOffset a.directory ↔
      a.zip64.isSome ∧ a.directory.sentinel := by
  rw [RepeatsSentinel, classicAt_eocd ha]
  constructor
  · rintro ⟨hl, -, hs⟩
    refine ⟨?_, hs⟩
    cases hx : a.zip64 with
    | none => exact absurd hl (hp.locator hx)
    | some x => rfl
  · rintro ⟨hsome, hs⟩
    obtain ⟨x, hx⟩ := Option.isSome_iff_exists.mp hsome
    exact ⟨hasLocator_eocd hx, sentinel_classic hs, hs⟩

/-- With nothing that can be taken for something else, the values alone decide. -/
theorem served_iff_of_plain {a : Archive} (ha : a.WellFormed) (hp : a.Plain) :
    a.Served ↔ ¬(a.zip64.isSome ∧ a.directory.sentinel) := by
  have hlast := isLastEocd_eocd ha hp.inside
  rw [served_iff ha, ← repeatsSentinel_iff ha hp]
  constructor
  · rintro ⟨p, hl, -, hs⟩
    rwa [hl.unique hlast] at hs
  · intro hs
    exact ⟨a.eocdOffset, hlast, names_eocd ha hp.locator, hs⟩

/-- An archive with a repeated sentinel is refused. -/
theorem open_of_repeats {a : Archive} (ha : a.WellFormed) (hp : a.Plain)
    (hs : a.zip64.isSome ∧ a.directory.sentinel) :
    (vmfwZipOpen a.bytes.length).run (serve a.bytes) = .error .zip64 := by
  have hlast := isLastEocd_eocd ha hp.inside
  rcases vmfwZipOpen_last ha.length with ⟨p, hl, hopen⟩ | ⟨hno, -⟩
  · rw [hopen, hl.unique hlast]
    exact readEocd_repeats hlast.isEocd.1 (names_eocd ha hp.locator)
      ((repeatsSentinel_iff ha hp).2 hs)
  · exact absurd hlast.isEocd (hno _ hlast.near)

end Archive

/-- The reader on archives and on any other file. An archive is opened and walked as it was
written if and only if its last signature heads a record of its directory with no sentinel that the
ZIP64 record repeats. Of any file, what is read is the record at the last signature, and the walk
over an open directory asks for pieces of that directory and has no sum that wraps. -/
theorem zip_walks_iff (a : Archive) (ha : a.WellFormed) (f : List Byte) (hf : f.length < 2 ^ 63) :
    ((a.Served ↔ ∃ p, IsLastEocd a.bytes p ∧ Names a.bytes p a.directory ∧
        ¬RepeatsSentinel a.bytes p a.directory) ∧
      (a.Plain → (a.Served ↔ ¬(a.zip64.isSome ∧ a.directory.sentinel)))) ∧
    ((∃ p, IsLastEocd f p ∧
        (vmfwZipOpen f.length).run (serve f) = (readEocd f.length p).run (serve f)) ∨
      ((∀ p, f.length ≤ p + eocdMaxScan → ¬IsEocd f p) ∧
        (vmfwZipOpen f.length).run (serve f) = .error .notZip)) ∧
    ∀ z, (vmfwZipOpen f.length).run (serve f) = .ok z →
      ∀ (γ : Type) (visit : γ → Entry → Nat → γ × Bool) (s : γ),
        vmfwZipIterate z visit s = iterateWith (· + ·) z visit s ∧
        Reader.Reads (Inside z.cdOffset (z.cdOffset + z.cdSize)) (fun _ => True)
          (vmfwZipIterate z visit s) := by
  refine ⟨⟨Archive.served_iff ha, Archive.served_iff_of_plain ha⟩, vmfwZipOpen_last hf, ?_⟩
  intro z hz γ visit s
  constructor
  · exact vmfwZipIterate_eq hf hz visit s
  · exact vmfwZipIterate_reads hf hz visit s

/-- A member of three octets whose compressed size is in the ZIP64 extra field. -/
def letterMember : Member where
  madeBy := 0x0314
  needed := 45
  flags := 8
  method := 0
  time := 0
  date := 0
  crc32 := 0x352441c2
  disk := 0
  internal := 0
  external := 0x81a40000
  usize := ⟨3, false⟩
  csize := ⟨3, true⟩
  offset := ⟨0, false⟩
  name := [0x61]
  comment := []
  before := [⟨0x5455, [1, 2, 3, 4, 5]⟩]
  more := []
  after := []

/-- An archive with this member alone. -/
def letterArchive : Archive where
  body := List.replicate 40 0
  members := [letterMember]
  signature := []
  zip64 := none
  comment := [0x68, 0x69]

theorem letterMember_wellFormed : letterMember.WellFormed letterArchive.bytes.length where
  plaintext := by decide
  usize := ⟨by decide, fun _ => by decide⟩
  csize := ⟨by decide, fun h => nomatch h⟩
  offset := ⟨by decide, fun _ => by decide⟩
  inFile := Nat.zero_le _
  name_length := by decide
  name := by decide
  comment := by decide
  before := by
    rintro b hb
    rw [List.mem_singleton.mp hb]
    exact ⟨by decide, by decide⟩
  extra := by decide

theorem letterArchive_wellFormed : letterArchive.WellFormed where
  length := by
    have hlen : letterArchive.bytes.length = 40 + 68 + 22 + 2 := by
      rw [Archive.length_bytes, Archive.eocdOffset, Archive.recordOffset]
      rfl
    omega
  members := by
    rintro m hm
    rw [List.mem_singleton.mp hm]
    exact letterMember_wellFormed
  count := by decide
  unmarkedCount := fun _ => by decide
  unmarkedSize := fun _ => by decide
  unmarkedOffset := fun _ => by decide
  disks := fun _ hx => nomatch hx
  comment_length := by decide
  comment := by
    intro i hi
    have hlen : letterArchive.comment.length = 2 := rfl
    omega

theorem letterArchive_plain : letterArchive.Plain where
  inside := by
    intro i hi hlt h
    have hroom := h.1
    rw [Archive.length_bytes] at hroom
    have hcomment : letterArchive.comment.length = 2 := rfl
    interval_cases i
    · exact absurd h.2 (by decide)
    · exact absurd h.2 (by decide)
    all_goals omega
  locator := fun _ => by decide

/-- The reader serves the archive with the one member. -/
theorem zip_walks_letter : letterArchive.Served :=
  ((zip_walks_iff letterArchive letterArchive_wellFormed [] (Nat.two_pow_pos 63)).1.2
    letterArchive_plain).2 fun h => nomatch h.1

/-- A ZIP64 archive without members, whose directory has its offset in the ZIP64 record. -/
def farArchive (body : List Byte) : Archive where
  body := body
  members := []
  signature := []
  zip64 := some ⟨45, 45, [], 1, false, false, true⟩
  comment := []

section Far

variable {body : List Byte} (hb : body.length = 0xffffffff)

include hb

theorem farArchive_wellFormed : (farArchive body).WellFormed where
  length := by
    simp only [Archive.length_bytes, Archive.eocdOffset, Archive.recordOffset, Archive.ending,
      Archive.record, Archive.locator, Archive.directoryBytes, farArchive, List.length_append,
      length_encode, hb, List.flatMap_nil, List.length_nil, eocdSize]
    omega
  members := fun _ hm => absurd hm List.not_mem_nil
  count := Nat.zero_le _
  unmarkedCount := fun _ => Nat.zero_lt_succ _
  unmarkedSize := fun _ => Nat.zero_lt_succ _
  unmarkedOffset := fun h => Bool.noConfusion (show true = false from h)
  disks := by
    rintro x hx
    rw [← Option.some.inj hx]
  comment_length := Nat.zero_lt_succ _
  comment := by
    intro i hi
    have hlen : (farArchive body).comment.length = 0 := rfl
    omega

omit hb in
theorem farArchive_plain : (farArchive body).Plain where
  inside := by
    intro i hi _ h
    have hroom := h.1
    rw [Archive.length_bytes] at hroom
    have hcomment : (farArchive body).comment.length = 0 := rfl
    omega
  locator := fun h => absurd h (Option.some_ne_none _)

/-- The reader takes the offset that the ZIP64 record repeats for a missing record. -/
theorem farArchive_refused :
    (vmfwZipOpen (farArchive body).bytes.length).run (serve (farArchive body).bytes) =
      .error .zip64 ∧ ¬(farArchive body).Served := by
  have hs : (farArchive body).zip64.isSome ∧ (farArchive body).directory.sentinel :=
    ⟨rfl, Or.inr (Or.inr hb)⟩
  refine ⟨?_, fun h => ?_⟩
  · exact Archive.open_of_repeats (farArchive_wellFormed hb) farArchive_plain hs
  · exact (Archive.served_iff_of_plain (farArchive_wellFormed hb) farArchive_plain).1 h hs

end Far

/-- An archive that the reader refuses though it is as the format has it. -/
theorem zip_far_refused :
    (farArchive (List.replicate 0xffffffff 0)).WellFormed ∧
    (vmfwZipOpen (farArchive (List.replicate 0xffffffff 0)).bytes.length).run
      (serve (farArchive (List.replicate 0xffffffff 0)).bytes) = .error .zip64 ∧
    ¬(farArchive (List.replicate 0xffffffff 0)).Served := by
  have hb : (List.replicate 0xffffffff (0 : Byte)).length = 0xffffffff := List.length_replicate
  generalize List.replicate 0xffffffff (0 : Byte) = body at hb ⊢
  exact ⟨farArchive_wellFormed hb, farArchive_refused hb⟩

end S5LBox.Firmware
