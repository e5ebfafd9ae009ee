import S5LBox.Arm.Cpu
import S5LBox.Lib.LittleEndian
import S5LBox.Lib.Pieces
import S5LBox.Lib.Reader
import S5LBox.Lib.Runs

/-!
# Copy-on-write overlays

`VMSnapshotCow.c` wraps the disk of a machine: before a block is written for the first time since a
snapshot, its old contents go to the end of the overlay of the snapshot, from which a restore takes
them back. The overlay is written through the standard I/O library. What it is given stays in a
buffer, which the library writes to the file when it likes, and at the latest at a flush; what is in
the buffer when the process dies is lost. The disk below is written at once.

A run goes through a call of the facade step by step, so that the process may die anywhere in it.

## Main definitions

* `vmCowOpen`, `vmCowReplay`: what is read of an overlay.
* `World`, `CowAction`, `World.step`: the disk, the overlay and the process, and what happens.
* `WriteAhead`: the order in which the two layers are written.

## Main results

* `World.Sound`: what the overlay holds at any time.
* `save_before_write`: in that order, the past survives.
* `half_recorded`: without it, a restore may take a disk for its past.
-/

namespace S5LBox.App

open LittleEndian Pieces Reading Runs

/-! ### The overlay -/

/-- `VM_COW_BLOCK_BYTES`. -/
abbrev blockBytes : Nat := 4096

/-- `VM_COW_HEADER_BYTES`. -/
abbrev headerBytes : Nat := 32

/-- `VM_COW_INDEX_BYTES`. -/
abbrev indexBytes : Nat := 8

/-- `VM_COW_RECORD_BYTES`. -/
abbrev recordBytes : Nat := indexBytes + blockBytes

/-- The statuses of `vm_cow_status_t` that reading an overlay ends with. -/
inductive VmCowStatus
  | badFormat | sizeMismatch | truncated
  deriving DecidableEq

/-- `VM_COW_MAGIC`. -/
def cowMagic : List Byte := [0x53, 0x35, 0x4c, 0x42, 0x6f, 0x78, 0x43, 0x4f, 0x57]

/-- `VM_COW_VERSION`. -/
def cowVersion : Nat := 1

/-- The header that a fresh overlay gets. -/
def cowHeader (imageSize : Nat) : List Byte :=
  cowMagic ++ List.replicate 3 0 ++ encode 4 cowVersion ++ encode 4 blockBytes ++
    encode 8 imageSize ++ List.replicate 4 0

/-- The checks of the header that opening and replaying share. -/
def checkHeader (file : List Byte) (imageSize : Nat) : Except VmCowStatus Unit :=
  let header := serve file 0 headerBytes
  if header.length ≠ headerBytes ∨ header.take 9 ≠ cowMagic ∨
      decode (serve header 12 4) ≠ cowVersion ∨ decode (serve header 16 4) ≠ blockBytes then
    .error .badFormat
  else if decode (serve header 20 8) ≠ imageSize then .error .sizeMismatch
  else .ok ()

/-- The octets behind the header. -/
def cowBody (file : List Byte) : Nat := file.length - headerBytes

/-- The records that are complete: the number of a block, and its contents. -/
def cowRecords (file : List Byte) : List (Nat × List Byte) :=
  (List.range (cowBody file / recordBytes)).map fun i =>
    (decode (serve file (headerBytes + i * recordBytes) indexBytes),
      serve file (headerBytes + i * recordBytes + indexBytes) blockBytes)

/-- A record of an overlay that is opened. -/
def indexRecord (blockCount : Nat) (saved : Nat → Bool) (r : Nat × List Byte) :
    Except VmCowStatus (Nat → Bool) :=
  if r.1 ≥ blockCount then .error .sizeMismatch else .ok (Function.update saved r.1 true)

/-- `index_existing`: the blocks that are recorded already. -/
def indexExisting (file : List Byte) (blockCount : Nat) : Except VmCowStatus (Nat → Bool) :=
  if cowBody file % recordBytes ≠ 0 then .error .truncated
  else (cowRecords file).foldlM (indexRecord blockCount) fun _ => false

/-- `vm_cow_open` of an overlay that exists. -/
def vmCowOpen (file : List Byte) (imageSize : Nat) : Except VmCowStatus (Nat → Bool) := do
  checkHeader file imageSize
  indexExisting file (imageSize / blockBytes)

/-- A record of an overlay that is replayed. -/
def replayRecord (image : List Byte) (r : Nat × List Byte) : Except VmCowStatus (List Byte) :=
  if (r.1 * blockBytes % 2 ^ 64 + blockBytes) % 2 ^ 64 > image.length then .error .sizeMismatch
  else .ok (overwrite image (r.1 * blockBytes % 2 ^ 64) r.2)

/-- `vm_cow_replay`, where the disk takes what is written: the disk after it. -/
def vmCowReplay (file onto : List Byte) : Except VmCowStatus (List Byte) := do
  checkHeader file onto.length
  if cowBody file % recordBytes ≠ 0 then .error .truncated
  else (cowRecords file).foldlM replayRecord onto

/-! ### The process -/

/-- A call of `cow_write_at`, at the block `next` of its first loop, with `done` octets written. -/
structure CowCall where
  offset : Nat
  source : List Byte
  next : Nat
  done : Nat

namespace CowCall

/-- The first block of the call. -/
def first (c : CowCall) : Nat := c.offset / blockBytes

/-- The last block of the call. -/
def last (c : CowCall) : Nat := (c.offset + c.source.length - 1) % 2 ^ 64 / blockBytes

end CowCall

/-- `vm_cow_t`, with the octets that are still in the buffer of the library, and the call in which
the process is. -/
structure VmCow where
  saved : Nat → Bool
  buffer : List Byte
  poisoned : Bool
  call : Option CowCall

/-- The disk, the overlay and the process, and the blocks that have been written to the disk since
the snapshot. -/
structure World where
  image : List Byte
  overlay : Option (List Byte)
  cow : Option VmCow
  touched : Nat → Prop

/-- What becomes of the saving of a block. -/
inductive Saving
  | readFails
  /-- The library takes only `n` octets of the record. -/
  | short (n : Nat)
  | taken

/-- What happens. `launch` opens the overlay; `save` is a turn of the first loop of the call, and
`disk` a write of `write_exact` that moves `n` octets; `drain` writes `n` octets of the buffer to
the file. -/
inductive CowAction
  | launch
  | write (offset : Nat) (source : List Byte)
  | save (outcome : Saving)
  | disk (n : Nat)
  | diskFails
  | drain (n : Nat)
  | flush
  | close
  | die

namespace World

/-- The number of blocks of the disk. -/
def blockCount (s : World) : Nat := s.image.length / blockBytes

/-- The octets of a block. -/
def block (image : List Byte) (b : Nat) : List Byte := piece blockBytes image b

/-- The record of a block. -/
def record (image : List Byte) (b : Nat) : List Byte := encode indexBytes b ++ block image b

/-- The state of the process changes, and nothing else. -/
def attach (s : World) (cow : VmCow) : World := { s with cow := some cow }

/-- The process dies, or has closed the overlay. -/
def gone (s : World) : World := { s with cow := none }

/-- The library writes octets of its buffer to the file. -/
def drain (s : World) (cow : VmCow) (file : List Byte) (n : Nat) : World :=
  { s with
    overlay := some (file ++ cow.buffer.take n)
    cow := some { cow with buffer := cow.buffer.drop n } }

/-- The block cannot be saved, and nothing is written from now on. -/
def refuse (s : World) (cow : VmCow) : World :=
  s.attach { cow with poisoned := true, call := none }

/-- A turn of the loop that saves the blocks of a call. -/
def save (s : World) (cow : VmCow) (call : CowCall) (outcome : Saving) : World :=
  if cow.saved call.next then
    s.attach { cow with call := some { call with next := call.next + 1 } }
  else
    match outcome with
    | .readFails => s.refuse cow
    | .short n =>
      s.refuse { cow with
        buffer := cow.buffer ++ (record s.image call.next).take (min n (recordBytes - 1)) }
    | .taken =>
      s.attach { cow with
        buffer := cow.buffer ++ record s.image call.next
        saved := Function.update cow.saved call.next true
        call := some { call with next := call.next + 1 } }

/-- The octets that a write to the disk moves. -/
def chunk (call : CowCall) (n : Nat) : List Byte := (call.source.drop call.done).take n

/-- The write to the disk touches the block. -/
def touches (call : CowCall) (n b : Nat) : Prop :=
  ∃ k, call.offset + call.done ≤ k ∧ k < call.offset + call.done + (chunk call n).length ∧
    k / blockBytes = b

/-- A write of a call to the disk. A disk takes no write beyond its end. -/
def disk (s : World) (cow : VmCow) (call : CowCall) (n : Nat) : World :=
  if call.offset + call.source.length > s.image.length then
    s.attach { cow with call := none }
  else
    let done := call.done + (chunk call n).length
    { s with
      image := overwrite s.image (call.offset + call.done) (chunk call n)
      cow := some { cow with
        call := if done < call.source.length then some { call with done := done } else none }
      touched := fun b => s.touched b ∨ touches call n b }

/-- `vm_cow_open`, of a disk that can be wrapped. -/
def launch (s : World) : World :=
  if s.image.length = 0 ∨ s.image.length % blockBytes ≠ 0 then s
  else
    match s.overlay with
    | none =>
      { s with
        overlay := some []
        cow := some ⟨fun _ => false, cowHeader s.image.length, false, none⟩ }
    | some file =>
      match vmCowOpen file s.image.length with
      | .ok saved => s.attach ⟨saved, [], false, none⟩
      | .error _ => s

/-- A call of `cow_write_at` begins. -/
def write (s : World) (cow : VmCow) (offset : Nat) (source : List Byte) : World :=
  if cow.poisoned ∨ source.length = 0 ∨
      (offset + source.length - 1) % 2 ^ 64 / blockBytes ≥ s.blockCount then s
  else s.attach { cow with call := some ⟨offset, source, offset / blockBytes, 0⟩ }

/-- What a call does next. -/
def proceed (s : World) (cow : VmCow) (call : CowCall) (a : CowAction) : World :=
  if call.next ≤ call.last then
    match a with
    | .save outcome => s.save cow call outcome
    | _ => s
  else
    match a with
    | .disk n => s.disk cow call n
    | .diskFails => s.attach { cow with call := none }
    | _ => s

/-- One thing that happens, where it can. -/
def step (a : CowAction) (s : World) : World :=
  match s.cow, s.overlay with
  | none, _ => if a matches .launch then s.launch else s
  | some _, none => s
  | some cow, some file =>
    match a, cow.call with
    | .die, _ => s.gone
    | .drain n, _ => s.drain cow file n
    | .write offset source, none => s.write cow offset source
    | .flush, none => s.drain cow file cow.buffer.length
    | .close, none => (s.drain cow file cow.buffer.length).gone
    | _, none => s
    | a, some call => s.proceed cow call a

/-- No overlay has been made of the disk yet. -/
def start (image : List Byte) : World := ⟨image, none, none, fun _ => False⟩

/-! ### The order of the writes -/

/-- The overlay ends with its header or with a record. -/
def OnBoundary (file : List Byte) : Prop :=
  headerBytes ≤ file.length ∧ cowBody file % recordBytes = 0

/-- The overlay holds a whole record of the block. -/
def Recorded (file : List Byte) (b : Nat) : Prop := b ∈ (cowRecords file).map Prod.fst

/-- Where the overlay ends with a record, it holds one of every block that has been written. -/
def InOrder (touched : Nat → Prop) (file : List Byte) : Prop :=
  OnBoundary file → ∀ b, touched b → Recorded file b

/-- Neither a write to the disk nor one of the library to the overlay leaves the overlay at the end
of a record while the record of a block that has been written is still in the buffer. -/
def WriteAhead (s : World) (a : CowAction) : Prop :=
  match s.cow, s.overlay with
  | some cow, some file =>
    match a, cow.call with
    | .drain n, _ => InOrder s.touched (file ++ cow.buffer.take n)
    | .disk n, some call => InOrder (fun b => s.touched b ∨ touches call n b) file
    | _, _ => True
  | _, _ => True

/-- Every block of the disk that is not as it was has its old contents in the overlay, or the
overlay is refused. -/
def Restorable (old : List Byte) (s : World) : Prop :=
  match s.overlay with
  | none => s.image = old
  | some file =>
    (∀ b, block s.image b ≠ block old b → (b, block old b) ∈ cowRecords file) ∨
      (∃ e, vmCowOpen file s.image.length = .error e) ∧ ∃ e, vmCowReplay file s.image = .error e

/-! ### What an overlay holds -/

variable {old : List Byte} {order : List Nat} {tail file : List Byte} {s : World}

theorem length_cowHeader (imageSize : Nat) : (cowHeader imageSize).length = headerBytes := by
  simp only [cowHeader, List.length_append, List.length_replicate, length_encode]
  rfl

theorem block_fits {b : Nat} (hb : b < old.length / blockBytes) :
    blockBytes * b + blockBytes ≤ old.length := by
  change b < old.length / 4096 at hb
  change 4096 * b + 4096 ≤ old.length
  omega

theorem length_record {b : Nat} (hb : b < old.length / blockBytes) :
    (record old b).length = recordBytes := by
  rw [record, List.length_append, length_encode, block, length_piece (block_fits hb)]

/-- The octets are a header, the records of blocks, and a part of another record. -/
structure Log (old bytes : List Byte) (order : List Nat) (tail : List Byte) : Prop where
  bytes : bytes = cowHeader old.length ++ ((order.map (record old)).flatten ++ tail)
  tail : tail.length < recordBytes
  inside : ∀ b ∈ order, b < old.length / blockBytes

theorem Log.length_records {bytes : List Byte} (h : Log old bytes order tail) :
    ∀ r ∈ order.map (record old), r.length = recordBytes := by
  intro r hr
  obtain ⟨b, hb, rfl⟩ := List.mem_map.mp hr
  exact length_record (h.inside b hb)

/-- What is read of an overlay that ends with a record. -/
theorem Log.records (h : Log old file order []) (hsize : old.length < 2 ^ 64) :
    cowRecords file = order.map fun b => (b, block old b) := by
  have hlen := length_flatten_of_forall h.length_records
  rw [List.length_map] at hlen
  have hbody : cowBody file = recordBytes * order.length := by
    rw [cowBody, h.bytes, List.append_nil, List.length_append, length_cowHeader, hlen,
      Nat.add_sub_cancel_left]
  have hserve (k n : Nat) : serve file (headerBytes + k) n =
      serve (order.map (record old)).flatten k n := by
    rw [serve, serve, h.bytes, List.append_nil, ← List.drop_drop,
      List.drop_left' (length_cowHeader _)]
  rw [cowRecords, hbody, Nat.mul_div_cancel_left _ (by decide)]
  refine List.ext_getElem (by simp) fun i hi hi' => ?_
  rw [List.length_map] at hi'
  have hpiece := piece_flatten h.length_records (i := i) (by simpa using hi')
  have hb := h.inside order[i] (List.getElem_mem hi')
  rw [List.getElem_map] at hpiece
  rw [List.getElem_map, List.getElem_range, List.getElem_map]
  have hindex : serve file (headerBytes + i * recordBytes) indexBytes =
      encode indexBytes order[i] := by
    have hfront := congrArg (List.take indexBytes) hpiece
    rw [piece, List.take_take, record, List.take_left' (length_encode _ _)] at hfront
    rw [hserve, serve, Nat.mul_comm i]
    exact hfront
  have hcontents : serve file (headerBytes + i * recordBytes + indexBytes) blockBytes =
      block old order[i] := by
    have hback := congrArg (List.drop indexBytes) hpiece
    rw [piece, List.drop_take, List.drop_drop, record, List.drop_left' (length_encode _ _)] at hback
    rw [Nat.add_assoc, hserve, serve, Nat.mul_comm i]
    exact hback
  rw [hindex, hcontents, decode_encode]
  exact (hb.trans_le (Nat.div_le_self _ _)).trans hsize

/-- A part of a log that ends with a record is a log. -/
theorem Log.prefix {bytes : List Byte} (h : Log old bytes order tail) (hpre : file <+: bytes)
    (hend : OnBoundary file) : ∃ n, Log old file (order.take n) [] := by
  obtain ⟨hheader, hbody⟩ := hend
  rw [h.bytes] at hpre
  have hfile : file = cowHeader old.length ++ file.drop headerBytes := by
    have hfront := List.prefix_iff_eq_take.mp hpre
    have htake : file.take headerBytes = cowHeader old.length := by
      rw [hfront, List.take_take, Nat.min_eq_left hheader, List.take_left' (length_cowHeader _)]
    rw [← htake, List.take_append_drop]
  rw [hfile, List.prefix_append_right_inj] at hpre
  obtain ⟨hpart, hle⟩ := prefix_flatten (by decide) h.length_records hpre h.tail
    (Nat.dvd_of_mod_eq_zero (by rwa [List.length_drop]))
  refine ⟨(file.drop headerBytes).length / recordBytes, ?_, by decide, fun b hb =>
    h.inside b (List.mem_of_mem_take hb)⟩
  rw [List.append_nil, List.map_take, ← hpart]
  exact hfile

/-- The octets of a log that ends with a record. -/
theorem Log.of_onBoundary {bytes : List Byte} (h : Log old bytes order tail)
    (hend : OnBoundary bytes) : tail = [] := by
  have hlen := length_flatten_of_forall h.length_records
  obtain ⟨_, hbody⟩ := hend
  rw [cowBody, h.bytes, List.length_append, length_cowHeader, Nat.add_sub_cancel_left,
    List.length_append, hlen, Nat.mul_add_mod, Nat.mod_eq_of_lt h.tail] at hbody
  exact List.length_eq_zero_iff.mp hbody

/-! ### What holds at any time -/

/-- The process knows what the overlay and the buffer hold together, and has recorded what has been
written. -/
structure Live (old : List Byte) (touched : Nat → Prop) (file : List Byte) (cow : VmCow) :
    Prop where
  log : ∃ order tail, Log old (file ++ cow.buffer) order tail ∧ (cow.poisoned = false → tail = []) ∧
    ∀ b, cow.saved b = true → b ∈ order
  saved : ∀ b, touched b → cow.saved b = true
  call : ∀ c, cow.call = some c → cow.poisoned = false ∧ c.last < old.length / blockBytes ∧
    c.done ≤ c.source.length ∧ ∀ b, c.first ≤ b → b < c.next → cow.saved b = true

/-- The disk and the overlay. -/
structure Sound (old : List Byte) (s : World) : Prop where
  length : s.image.length = old.length
  untouched : ∀ b, ¬s.touched b → block s.image b = block old b
  absent : s.overlay = none → s.cow = none ∧ s.image = old ∧ ∀ b, ¬s.touched b
  whole : s.overlay ≠ none → old.length % blockBytes = 0
  inOrder : ∀ file, s.overlay = some file → InOrder s.touched file
  shape : ∀ file, s.overlay = some file → OnBoundary file → ∃ order, Log old file order []
  live : ∀ file cow, s.overlay = some file → s.cow = some cow → Live old s.touched file cow

theorem Sound.start (old : List Byte) : Sound old (start old) where
  length := rfl
  untouched := fun _ _ => rfl
  absent := fun _ => ⟨rfl, rfl, fun _ => id⟩
  whole := fun h => absurd rfl h
  inOrder := nofun
  shape := nofun
  live := nofun

variable {cow cow' : VmCow}

/-- Only the process changes. -/
theorem Sound.process (h : Sound old s) (hfile : s.overlay = some file)
    (hlive : Live old s.touched file cow') : Sound old (s.attach cow') :=
  ⟨h.length, h.untouched, fun hnone => absurd (hfile.symm.trans hnone) nofun, h.whole, h.inOrder,
    h.shape, fun file' cow'' hfile' hcow => by
      obtain rfl := Option.some.inj (hfile.symm.trans hfile')
      obtain rfl := Option.some.inj hcow
      exact hlive⟩

theorem Sound.gone (h : Sound old s) : Sound old s.gone :=
  ⟨h.length, h.untouched, fun hnone => ⟨rfl, (h.absent hnone).2⟩, h.whole, h.inOrder, h.shape,
    nofun⟩

theorem Live.over {touched : Nat → Prop} (h : Live old touched file cow) :
    Live old touched file { cow with call := none } :=
  ⟨h.log, h.saved, nofun⟩

/-- The library writes a part of its buffer. -/
theorem Sound.drain (h : Sound old s) (hfile : s.overlay = some file) (hcow : s.cow = some cow)
    (n : Nat) (hok : InOrder s.touched (file ++ cow.buffer.take n)) :
    Sound old (s.drain cow file n) := by
  obtain ⟨⟨order, tail, hlog, htail, hsaved⟩, htouched, hcall⟩ := h.live file cow hfile hcow
  have hsplit : file ++ cow.buffer.take n ++ cow.buffer.drop n = file ++ cow.buffer := by
    rw [List.append_assoc, List.take_append_drop]
  refine ⟨h.length, h.untouched, nofun, fun _ => h.whole (hfile ▸ nofun), ?_, ?_, ?_⟩
  · rintro _ ⟨⟩
    exact hok
  · rintro _ ⟨⟩ hend
    obtain ⟨k, hk⟩ := hlog.prefix (hsplit ▸ List.prefix_append _ _) hend
    exact ⟨_, hk⟩
  · rintro _ _ ⟨⟩ ⟨⟩
    refine ⟨⟨order, tail, ?_, htail, hsaved⟩, htouched, hcall⟩
    rw [hsplit]
    exact hlog

/-- When the whole buffer has been written, every block that has been written is recorded. -/
theorem Sound.flushed (h : Sound old s) (hsize : old.length < 2 ^ 64)
    (hfile : s.overlay = some file) (hcow : s.cow = some cow) :
    InOrder s.touched (file ++ cow.buffer.take cow.buffer.length) := by
  obtain ⟨⟨order, tail, hlog, _, hsaved⟩, htouched, _⟩ := h.live file cow hfile hcow
  rw [List.take_length]
  intro hend b hb
  obtain rfl := hlog.of_onBoundary hend
  rw [Recorded, hlog.records hsize, List.map_map]
  exact List.mem_map.mpr ⟨b, hsaved b (htouched b hb), rfl⟩

variable {call : CowCall}

/-- A block is saved. -/
theorem Sound.save (h : Sound old s) (hfile : s.overlay = some file) (hcow : s.cow = some cow)
    (hcall : cow.call = some call) (hnext : call.next ≤ call.last) (outcome : Saving) :
    Sound old (s.save cow call outcome) := by
  obtain ⟨⟨order, tail, hlog, htail, hsaved⟩, htouched, hprogress⟩ := h.live file cow hfile hcow
  obtain ⟨hclean, hlast, hdone, hbefore⟩ := hprogress call hcall
  obtain rfl := htail hclean
  rw [World.save.eq_def]
  by_cases hat : cow.saved call.next = true
  · rw [if_pos hat]
    refine h.process hfile ⟨⟨order, [], hlog, fun _ => rfl, hsaved⟩, htouched, ?_⟩
    rintro _ ⟨⟩
    refine ⟨hclean, hlast, hdone, fun b hfirst hb => ?_⟩
    obtain hb | rfl := Nat.lt_succ_iff_lt_or_eq.mp hb
    · exact hbefore b hfirst hb
    · exact hat
  · rw [if_neg hat]
    have huntouched : block s.image call.next = block old call.next :=
      h.untouched _ fun ht => hat (htouched _ ht)
    have hrecord : record s.image call.next = record old call.next := by
      rw [record, record, huntouched]
    have hlen : (record old call.next).length = recordBytes :=
      length_record (hnext.trans_lt hlast)
    have hgrown (b : Nat) : Function.update cow.saved call.next true b = true ↔
        b = call.next ∨ cow.saved b = true := by
      by_cases heq : b = call.next
      · simp [heq]
      · simp [heq]
    cases outcome with
    | readFails =>
      exact h.process hfile ⟨⟨order, [], hlog, nofun, hsaved⟩, htouched, nofun⟩
    | short n =>
      obtain ⟨part, hpart⟩ : ∃ part, part =
          (record s.image call.next).take (min n (recordBytes - 1)) := ⟨_, rfl⟩
      have hshort : part.length < recordBytes := by
        rw [hpart, List.length_take]
        exact (Nat.min_le_left _ _).trans_lt ((Nat.min_le_right _ _).trans_lt (by decide))
      have hlog' : Log old (file ++ (cow.buffer ++ part)) order part := by
        refine ⟨?_, hshort, hlog.inside⟩
        rw [← List.append_assoc, hlog.bytes, List.append_nil, List.append_assoc]
      rw [hpart] at hlog' hshort
      exact h.process hfile ⟨⟨order, _, hlog', nofun, hsaved⟩, htouched, nofun⟩
    | taken =>
      refine h.process hfile
        ⟨⟨order ++ [call.next], [], ⟨?_, by decide, ?_⟩, fun _ => rfl, ?_⟩, ?_, ?_⟩
      · dsimp only
        rw [← List.append_assoc, hlog.bytes, hrecord, List.append_nil, List.append_nil,
          List.map_append, List.flatten_append, List.append_assoc, List.map_singleton,
          List.flatten_singleton]
      · intro b hb
        rcases List.mem_append.mp hb with hb | hb
        · exact hlog.inside b hb
        · exact List.mem_singleton.mp hb ▸ hnext.trans_lt hlast
      · intro b hb
        rcases (hgrown b).mp hb with rfl | hb
        · exact List.mem_concat_self
        · exact List.mem_append_left _ (hsaved b hb)
      · exact fun b hb => (hgrown b).mpr (.inr (htouched b hb))
      · rintro _ ⟨⟩
        refine ⟨hclean, hlast, hdone, fun b hfirst hb => (hgrown b).mpr ?_⟩
        obtain hb | rfl := Nat.lt_succ_iff_lt_or_eq.mp hb
        · exact .inr (hbefore b hfirst hb)
        · exact .inl rfl

/-- A block that a write leaves alone is as it was. -/
theorem block_of_not_touches {n b : Nat}
    (hfits : call.offset + call.done + (chunk call n).length ≤ s.image.length)
    (hb : ¬touches call n b) :
    block (overwrite s.image (call.offset + call.done) (chunk call n)) b = block s.image b := by
  by_cases hempty : chunk call n = []
  · rw [hempty, overwrite_nil]
  · have hsome : 0 < (chunk call n).length := List.length_pos_iff.mpr hempty
    refine piece_overwrite hfits ?_
    by_contra hmeet
    rw [not_or] at hmeet
    refine hb ⟨max (call.offset + call.done) (4096 * b), le_max_left _ _, ?_, ?_⟩
    · change ¬_ ≤ 4096 * b ∧ _ at hmeet
      omega
    · change ¬_ ≤ 4096 * b ∧ ¬4096 * b + 4096 ≤ _ at hmeet
      change _ / 4096 = b
      omega

/-- The blocks that a write of a call touches are between its first block and its last. -/
theorem touches_between {n b : Nat} (hfits : call.offset + call.source.length < 2 ^ 64)
    (hb : touches call n b) :
    call.first ≤ b ∧ b ≤ call.last := by
  obtain ⟨k, hlow, hhigh, rfl⟩ := hb
  rw [chunk, List.length_take, List.length_drop] at hhigh
  refine ⟨Nat.div_le_div_right (by omega), Nat.div_le_div_right ?_⟩
  rw [Nat.mod_eq_of_lt (by omega)]
  omega

/-- A write to the disk. -/
theorem Sound.disk (h : Sound old s) (hsize : old.length < 2 ^ 64) (hfile : s.overlay = some file)
    (hcow : s.cow = some cow) (hcall : cow.call = some call) (hnext : ¬call.next ≤ call.last)
    {n : Nat} (hok : InOrder (fun b => s.touched b ∨ touches call n b) file) :
    Sound old (s.disk cow call n) := by
  have hlive := h.live file cow hfile hcow
  rw [World.disk]
  by_cases hbeyond : call.offset + call.source.length > s.image.length
  · rw [if_pos hbeyond]
    exact h.process hfile hlive.over
  · rw [if_neg hbeyond]
    obtain ⟨hclean, hlast, hdone, hbefore⟩ := hlive.call call hcall
    have hlen := h.length
    have hchunk : call.done + (chunk call n).length ≤ call.source.length := by
      rw [chunk, List.length_take, List.length_drop]
      omega
    have hfits : call.offset + call.done + (chunk call n).length ≤ s.image.length := by omega
    refine ⟨(length_overwrite hfits).trans hlen, fun b hb => ?_,
      fun hnone => absurd (hfile.symm.trans hnone) nofun, h.whole, ?_, h.shape, ?_⟩
    · rw [not_or] at hb
      exact (block_of_not_touches hfits hb.2).trans (h.untouched b hb.1)
    · intro file' hfile'
      obtain rfl := Option.some.inj (hfile.symm.trans hfile')
      exact hok
    · intro file' cow'' hfile' hcow'
      obtain rfl := Option.some.inj (hfile.symm.trans hfile')
      obtain rfl := Option.some.inj hcow'
      refine ⟨hlive.log, ?_, ?_⟩
      · rintro b (hb | hb)
        · exact hlive.saved b hb
        · obtain ⟨hfirst, hb⟩ := touches_between (by omega) hb
          exact hbefore b hfirst (hb.trans_lt (Nat.not_le.mp hnext))
      · intro c hc
        dsimp only at hc
        split_ifs at hc with hmore
        obtain rfl := Option.some.inj hc
        exact ⟨hclean, hlast, hchunk, hbefore⟩

/-! ### Opening an overlay -/

/-- Where the records name only blocks of the disk, they are the blocks that are recorded. -/
theorem foldlM_saved {count : Nat} {records : List (Nat × List Byte)} {before saved : Nat → Bool}
    (h : records.foldlM (indexRecord count) before = .ok saved) (b : Nat) :
    saved b = true ↔ before b = true ∨ b ∈ records.map Prod.fst := by
  induction records generalizing before with
  | nil =>
    obtain rfl := Except.ok.inj h
    simp
  | cons r records ih =>
    rw [List.foldlM_cons, indexRecord] at h
    by_cases hr : r.1 ≥ count
    · rw [if_pos hr] at h
      cases h
    · rw [if_neg hr] at h
      rw [ih h, List.map_cons, List.mem_cons]
      by_cases heq : b = r.1
      · simp [heq]
      · simp [heq]

theorem onBoundary_of_check {imageSize : Nat} (h : checkHeader file imageSize = .ok ())
    (hbody : ¬cowBody file % recordBytes ≠ 0) : OnBoundary file := by
  refine ⟨?_, not_not.mp hbody⟩
  by_contra hshort
  have hserve : (serve file 0 headerBytes).length ≠ headerBytes := by
    rw [serve, List.drop_zero, List.length_take]
    omega
  rw [checkHeader, if_pos (.inl hserve)] at h
  cases h

/-- An overlay that is opened ends with a record, and its blocks are the recorded ones. -/
theorem vmCowOpen_ok {imageSize : Nat} {saved : Nat → Bool}
    (h : vmCowOpen file imageSize = .ok saved) :
    OnBoundary file ∧ ∀ b, saved b = true ↔ Recorded file b := by
  rw [vmCowOpen] at h
  cases hcheck : checkHeader file imageSize with
  | error e =>
    rw [hcheck] at h
    cases h
  | ok _ =>
    rw [hcheck] at h
    change indexExisting file _ = _ at h
    rw [indexExisting] at h
    by_cases hbody : cowBody file % recordBytes ≠ 0
    · rw [if_pos hbody] at h
      cases h
    · rw [if_neg hbody] at h
      refine ⟨onBoundary_of_check hcheck hbody, fun b => ?_⟩
      rw [foldlM_saved h b, Recorded]
      simp

/-- An overlay that does not end with a record is refused. -/
theorem refused_of_not_onBoundary (h : ¬OnBoundary file) (imageSize : Nat) (image : List Byte) :
    (∃ e, vmCowOpen file imageSize = .error e) ∧ ∃ e, vmCowReplay file image = .error e := by
  constructor
  · cases hopen : vmCowOpen file imageSize with
    | error e => exact ⟨e, rfl⟩
    | ok saved => exact absurd (vmCowOpen_ok hopen).1 h
  · rw [vmCowReplay]
    cases hcheck : checkHeader file image.length with
    | error e => exact ⟨e, rfl⟩
    | ok _ =>
      have hbody : cowBody file % recordBytes ≠ 0 :=
        Classical.byContradiction fun hbody => h (onBoundary_of_check hcheck hbody)
      change ∃ e, (if cowBody file % recordBytes ≠ 0 then _ else _) = _
      rw [if_pos hbody]
      exact ⟨_, rfl⟩

/-- A fresh overlay. -/
theorem Sound.fresh (h : Sound old s) (hwhole : old.length % blockBytes = 0)
    (hnone : s.overlay = none) :
    Sound old { s with
      overlay := some []
      cow := some ⟨fun _ => false, cowHeader s.image.length, false, none⟩ } := by
  obtain ⟨_, _, huntouched⟩ := h.absent hnone
  have hempty : ¬OnBoundary ([] : List Byte) := by
    rintro ⟨hheader, _⟩
    exact absurd hheader (by decide)
  refine ⟨h.length, h.untouched, nofun, fun _ => hwhole, ?_, ?_, ?_⟩
  · rintro _ ⟨⟩ hend
    exact absurd hend hempty
  · rintro _ ⟨⟩ hend
    exact absurd hend hempty
  · rintro _ _ ⟨⟩ ⟨⟩
    refine ⟨⟨[], [], ⟨?_, by decide, nofun⟩, fun _ => rfl, nofun⟩, fun b hb => ?_, nofun⟩
    · rw [h.length]
      exact (List.append_nil _).symm
    · exact absurd hb (huntouched b)

/-- The process opens the overlay. -/
theorem Sound.launch (h : Sound old s) (hsize : old.length < 2 ^ 64) : Sound old s.launch := by
  rw [World.launch.eq_def]
  by_cases hbad : s.image.length = 0 ∨ s.image.length % blockBytes ≠ 0
  · rw [if_pos hbad]
    exact h
  · rw [if_neg hbad]
    obtain ⟨_, hwhole⟩ := not_or.mp hbad
    rw [not_not, h.length] at hwhole
    cases hfile : s.overlay with
    | none => exact h.fresh hwhole hfile
    | some file =>
      dsimp only
      cases hopen : vmCowOpen file s.image.length with
      | error e => exact h
      | ok saved =>
        obtain ⟨hend, hsaved⟩ := vmCowOpen_ok hopen
        obtain ⟨order, hlog⟩ := h.shape file hfile hend
        refine h.process hfile
          ⟨⟨order, [], ?_, fun _ => rfl, fun b hb => ?_⟩, fun b hb => ?_, nofun⟩
        · rw [List.append_nil]
          exact hlog
        · have hb := (hsaved b).mp hb
          rw [Recorded, hlog.records hsize, List.map_map] at hb
          obtain ⟨_, hmem, rfl⟩ := List.mem_map.mp hb
          exact hmem
        · exact (hsaved b).mpr (h.inOrder file hfile hend b hb)

/-- A call of the facade begins. -/
theorem Sound.write (h : Sound old s) (hfile : s.overlay = some file) (hcow : s.cow = some cow)
    (offset : Nat) (source : List Byte) : Sound old (s.write cow offset source) := by
  have hlive := h.live file cow hfile hcow
  rw [World.write]
  split_ifs with hbad
  · exact h
  · rw [not_or, not_or, Nat.not_le] at hbad
    obtain ⟨hclean, _, hlast⟩ := hbad
    refine h.process hfile ⟨hlive.log, hlive.saved, ?_⟩
    rintro _ ⟨⟩
    refine ⟨eq_false_of_ne_true hclean, ?_, Nat.zero_le _, fun b hfirst hb => ?_⟩
    · rw [blockCount, h.length] at hlast
      exact hlast
    · exact absurd hb (Nat.not_lt.mpr hfirst)

/-- A call goes on. -/
theorem Sound.proceed (h : Sound old s) (hsize : old.length < 2 ^ 64)
    (hfile : s.overlay = some file) (hcow : s.cow = some cow) (hcall : cow.call = some call)
    {a : CowAction}
    (hok : ∀ n, a = .disk n → InOrder (fun b => s.touched b ∨ touches call n b) file) :
    Sound old (s.proceed cow call a) := by
  rw [World.proceed.eq_def]
  by_cases hnext : call.next ≤ call.last
  · rw [if_pos hnext]
    cases a with
    | save outcome => exact h.save hfile hcow hcall hnext outcome
    | _ => exact h
  · rw [if_neg hnext]
    cases a with
    | disk n => exact h.disk hsize hfile hcow hcall hnext (hok n rfl)
    | diskFails => exact h.process hfile (h.live file cow hfile hcow).over
    | _ => exact h

/-- What a step keeps, in the order of the writes. -/
theorem Sound.step (hsize : old.length < 2 ^ 64) (s : World) (a : CowAction) (hok : WriteAhead s a)
    (h : Sound old s) : Sound old (s.step a) := by
  rw [World.step.eq_def]
  rw [WriteAhead.eq_def] at hok
  cases hcow : s.cow with
  | none =>
    dsimp only
    split_ifs
    · exact h.launch hsize
    · exact h
  | some cow =>
    cases hfile : s.overlay with
    | none => exact absurd ((h.absent hfile).1.symm.trans hcow) nofun
    | some file =>
      rw [hcow, hfile] at hok
      dsimp only at hok ⊢
      have hflush := h.drain hfile hcow _ (h.flushed hsize hfile hcow)
      cases hcall : cow.call with
      | none =>
        cases a with
        | die => exact h.gone
        | drain n => exact h.drain hfile hcow n hok
        | write offset source => exact h.write hfile hcow offset source
        | flush => exact hflush
        | close => exact hflush.gone
        | _ => exact h
      | some call =>
        rw [hcall] at hok
        cases a with
        | die => exact h.gone
        | drain n => exact h.drain hfile hcow n hok
        | disk n =>
          refine h.proceed hsize hfile hcow hcall ?_
          rintro _ ⟨⟩
          exact hok
        | _ => exact h.proceed hsize hfile hcow hcall nofun

/-! ### A restore -/

/-- The record of a block is put back. -/
theorem replayRecord_block (hsize : old.length < 2 ^ 64) {image : List Byte} {c : Nat}
    (hc : c < old.length / blockBytes) (hlen : image.length = old.length) :
    replayRecord image (c, block old c) = .ok (overwrite image (blockBytes * c) (block old c)) := by
  have hfits := block_fits hc
  have hposition : c * blockBytes % 2 ^ 64 = blockBytes * c := by
    rw [Nat.mul_comm]
    exact Nat.mod_eq_of_lt (by omega)
  rw [replayRecord, hposition, Nat.mod_eq_of_lt (hfits.trans_lt hsize), if_neg (by omega)]

/-- What is put back of a disk. -/
theorem foldlM_replay (hsize : old.length < 2 ^ 64) {order : List Nat} {image : List Byte}
    (horder : ∀ b ∈ order, b < old.length / blockBytes) (hlen : image.length = old.length) :
    ∃ r, (order.map fun b => (b, block old b)).foldlM replayRecord image = .ok r ∧
      r.length = old.length ∧
      ∀ b, block r b = block old b ∨ b ∉ order ∧ block r b = block image b := by
  induction order generalizing image with
  | nil => exact ⟨image, rfl, hlen, fun b => .inr ⟨List.not_mem_nil, rfl⟩⟩
  | cons c order ih =>
    obtain ⟨hc, horder⟩ := List.forall_mem_cons.mp horder
    have hfits := block_fits hc
    have hblock : (block old c).length = blockBytes := length_piece hfits
    have hlen' : (overwrite image (blockBytes * c) (block old c)).length = old.length :=
      (length_overwrite (by omega)).trans hlen
    obtain ⟨r, hr, hrlen, hblocks⟩ := ih horder hlen'
    rw [List.map_cons, List.foldlM_cons, replayRecord_block hsize hc hlen]
    refine ⟨r, hr, hrlen, fun b => ?_⟩
    obtain hb | ⟨hb, hsame⟩ := hblocks b
    · exact .inl hb
    · by_cases heq : b = c
      · refine .inl (hsame.trans ?_)
        rw [heq]
        exact piece_overwrite_self hblock (by omega)
      · refine .inr ⟨fun hmem => (List.mem_cons.mp hmem).elim heq hb, hsame.trans ?_⟩
        refine piece_overwrite (by omega) ?_
        rw [hblock]
        change 4096 * c + 4096 ≤ 4096 * b ∨ 4096 * b + 4096 ≤ 4096 * c
        omega

/-- Of an overlay that ends with a record, every block that is not as it was has its record. -/
theorem Sound.records (h : Sound old s) (hsize : old.length < 2 ^ 64)
    (hfile : s.overlay = some file) (hend : OnBoundary file) : ∃ order, Log old file order [] ∧
      cowRecords file = order.map (fun b => (b, block old b)) ∧
      ∀ b, block s.image b ≠ block old b → b ∈ order := by
  obtain ⟨order, hlog⟩ := h.shape file hfile hend
  have hrecords := hlog.records hsize
  refine ⟨order, hlog, hrecords, fun b hb => ?_⟩
  have hin := h.inOrder file hfile hend b (not_not.mp fun ht => hb (h.untouched b ht))
  rw [Recorded, hrecords, List.map_map] at hin
  obtain ⟨_, hmem, rfl⟩ := List.mem_map.mp hin
  exact hmem

/-- What the overlay is good for. -/
theorem Sound.restorable (h : Sound old s) (hsize : old.length < 2 ^ 64) : Restorable old s := by
  rw [Restorable.eq_def]
  cases hfile : s.overlay with
  | none => exact (h.absent hfile).2.1
  | some file =>
    by_cases hend : OnBoundary file
    · obtain ⟨order, _, hrecords, horder⟩ := h.records hsize hfile hend
      refine .inl fun b hb => ?_
      rw [hrecords]
      exact List.mem_map_of_mem (horder b hb)
    · exact .inr (refused_of_not_onBoundary hend _ _)

/-- The records take the disk back to what it was. -/
theorem Sound.records_replay (h : Sound old s) (hsize : old.length < 2 ^ 64)
    (hfile : s.overlay = some file) (hend : OnBoundary file) :
    (cowRecords file).foldlM replayRecord s.image = .ok old := by
  obtain ⟨order, hlog, hrecords, horder⟩ := h.records hsize hfile hend
  obtain ⟨r, hr, hlen, hblocks⟩ := foldlM_replay hsize hlog.inside h.length
  have hwhole := Nat.mul_div_cancel' (Nat.dvd_of_mod_eq_zero (h.whole (hfile ▸ nofun)))
  have hrold : r = old := by
    refine ext_piece (n := blockBytes) (by decide) (hlen.trans hwhole.symm) hwhole.symm ?_
    intro b _
    obtain hb | ⟨hb, hsame⟩ := hblocks b
    · exact hb
    · exact hsame.trans (not_not.mp fun hne => hb (horder b hne))
  rw [hrecords, hr, hrold]

/-- A restore gives the disk as it was. -/
theorem Sound.replay (h : Sound old s) (hsize : old.length < 2 ^ 64) (hfile : s.overlay = some file)
    {r : List Byte} (hr : vmCowReplay file s.image = .ok r) : r = old := by
  have hend : OnBoundary file := by
    by_contra hend
    obtain ⟨e, he⟩ := (refused_of_not_onBoundary hend 0 s.image).2
    cases he.symm.trans hr
  rw [vmCowReplay] at hr
  cases hcheck : checkHeader file s.image.length with
  | error e =>
    rw [hcheck] at hr
    cases hr
  | ok _ =>
    rw [hcheck] at hr
    change (if cowBody file % recordBytes ≠ 0 then _ else _) = _ at hr
    rw [if_neg (not_not.mpr hend.2), h.records_replay hsize hfile hend] at hr
    exact (Except.ok.inj hr).symm

/-- Where neither the disk nor the library is ahead of a record, every block that is not as it was
has its old contents in the overlay, or the overlay is refused; and a restore gives the disk as it
was. -/
theorem save_before_write (hsize : old.length < 2 ^ 64)
    (run : Run step WriteAhead (start old) s) :
    Restorable old s ∧
      ∀ file, s.overlay = some file → ∀ r, vmCowReplay file s.image = .ok r → r = old := by
  have h : Sound old s := run.keeps (Sound.step hsize) (Sound.start old)
  exact ⟨h.restorable hsize, fun file hfile r hr => h.replay hsize hfile hr⟩

/-- A disk of one block. -/
abbrev oneBlock : List Byte := List.replicate blockBytes 0

theorem block_unsaved : block (overwrite oneBlock 0 [1]) 0 ≠ block oneBlock 0 := by
  intro h
  have hfirst := congrArg (fun l => l[0]?) h
  rw [block, block, getElem?_piece, getElem?_overwrite (by simp), getElem?_piece] at hfirst
  simp at hfirst

/-- The library has written a part of the record when the disk is written, and the overlay is
flushed before the process dies. -/
theorem save_before_write_flushed : ∃ s, s.image ≠ oneBlock ∧ Restorable oneBlock s ∧
    ∀ file, s.overlay = some file → ∀ r, vmCowReplay file s.image = .ok r → r = oneBlock := by
  have hheader := length_cowHeader 4096
  have hrecord : (record oneBlock 0).length = recordBytes :=
    length_record (by rw [List.length_replicate]; decide)
  have hadmitted : Admitted step WriteAhead (start oneBlock)
      [.launch, .write 0 [1], .save .taken, .drain 40, .disk 1, .flush, .die] := by
    simp [Admitted, WriteAhead, InOrder, OnBoundary, cowBody, step, start, launch, attach, drain,
      write, proceed, save, disk, chunk, blockCount, CowCall.last, hheader, hrecord,
      -List.reduceReplicate]
    exact fun _ hmod => absurd hmod (by decide)
  have himage : (follow step (start oneBlock)
      [.launch, .write 0 [1], .save .taken, .drain 40, .disk 1, .flush, .die]).image =
      overwrite oneBlock 0 [1] := by
    simp [follow, step, start, launch, attach, drain, write, proceed, save, disk, gone, chunk,
      blockCount, CowCall.last, -List.reduceReplicate]
  obtain ⟨s, hs, run⟩ : ∃ s, s.image = overwrite oneBlock 0 [1] ∧
      Run step WriteAhead (start oneBlock) s := ⟨_, himage, run_of_admitted hadmitted⟩
  have hsize : oneBlock.length < 2 ^ 64 := by
    rw [List.length_replicate]
    decide
  refine ⟨s, fun heq => block_unsaved ?_, save_before_write hsize run⟩
  rw [← hs, heq]

/-- The process dies after a write of one octet, with the record of the block in the buffer. -/
private theorem unsaved : ∃ s, Run step (fun _ _ => True) (start oneBlock) s ∧
    s.overlay = some (cowHeader 4096) ∧ s.image = overwrite oneBlock 0 [1] := by
  refine ⟨_, run_follow _ [.launch, .drain 32, .write 0 [1], .save .taken, .disk 1, .die], ?_, ?_⟩
  · have hheader := length_cowHeader 4096
    simp [follow, step, start, launch, attach, drain, write, proceed, save, disk, gone, chunk,
      blockCount, CowCall.last, hheader, List.take_of_length_le]
  · simp [follow, step, start, launch, attach, drain, write, proceed, save, disk, gone, chunk,
      blockCount, CowCall.last, -List.reduceReplicate]

/-- The header of the overlay is in the file and the record of the block in the buffer when the disk
is written and the process dies. The overlay holds nothing of the block and is not refused, and a
restore leaves the disk as it is. -/
theorem half_recorded : ∃ s file, Run step (fun _ _ => True) (start oneBlock) s ∧
    s.overlay = some file ∧ ¬Restorable oneBlock s ∧
    vmCowReplay file s.image = .ok s.image ∧ s.image ≠ oneBlock := by
  obtain ⟨s, run, hoverlay, himage⟩ := unsaved
  have hempty : cowRecords (cowHeader 4096) = [] := by decide +kernel
  have hblock : block s.image 0 ≠ block oneBlock 0 := himage ▸ block_unsaved
  have hlen : s.image.length = 4096 := by
    rw [himage, length_overwrite (by simp), List.length_replicate]
  have hcheck : checkHeader (cowHeader 4096) s.image.length = .ok () := by
    rw [hlen]
    decide +kernel
  have hreplay : vmCowReplay (cowHeader 4096) s.image = .ok s.image := by
    rw [vmCowReplay, hcheck, hempty]
    rfl
  refine ⟨s, _, run, hoverlay, fun h => ?_, hreplay, fun h => hblock (congrArg (block · 0) h)⟩
  rw [Restorable.eq_def, hoverlay] at h
  obtain h | ⟨_, e, he⟩ := h
  · have hin := h 0 hblock
    rw [hempty] at hin
    cases hin
  · cases hreplay.symm.trans he

end World

end S5LBox.App
