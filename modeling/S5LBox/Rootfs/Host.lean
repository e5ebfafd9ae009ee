import S5LBox.Arm.Cpu
import S5LBox.Lib.Attempts
import S5LBox.Lib.Reader

/-!
# The host of the work-image tool

The part of the host that `rootfs_work_create` works on: the source image, the directory of the
destination, and the file that the call itself creates. A call of the host may fail, and other
processes may create entries of the directory between two calls. What goes wrong, and when, is a
list of faults, one for each call.

The host is the POSIX one.

## Main definitions

* `Host`, `Fault`: the host, and what may go wrong.
* `Job`: the host together with what the call of `rootfs_work_create` holds.
* `checkedRead`, `checkedWrite`, `hostFileResize`: access to the files.
-/

namespace S5LBox.Rootfs

open Attempts Reading

/-! ### Results -/

/-- The members of `rootfs_work_status_t` that the creation of a work image and the catalog report,
and `step` for those of the other steps. -/
inductive Status
  | ok | invalidArgument | noMemory | pathUnsafe | sourceOpenFailed | sourceNotRegular
  | sourceAlias | sourceBusy | destinationExists | destinationOpenFailed | tempCreateFailed
  | readFailed | writeFailed | syncFailed | sourceChanged | sourceIdentityMismatch | hfsInvalid
  | rangeError | publishFailed | publishDurabilityFailed | cancelled | provisionCatalogCorrupt
  | provisionUnsupported | provisionLimit | step (code : Nat)
  deriving DecidableEq

/-- The members of `rootfs_work_stage_t`. -/
inductive Stage
  | none | arguments | sourcePath | destinationPath | sourceOpen | sourceValidate
  | sourceIdentity | tempCreate | copy | copyVerify | fstabScan | fstabWrite | caPlistScan
  | caPlistWrite | pppPlistScan | pppPlistWrite | growPlan | growWrite | provisionPlan
  | provisionWrite | finalValidate | flush | publish | directorySync | cleanup
  deriving DecidableEq

/-- What `result_fail` records. -/
structure Failure where
  status : Status
  stage : Stage
  systemError : Nat
  detail : String

/-- `rootfs_work_result_t`, without the counters of the provisioning steps. -/
structure Result where
  status : Status
  stage : Stage
  systemError : Nat
  cleanupSystemError : Nat
  sourceSize : Nat
  finalSize : Nat
  bytesCopied : Nat
  allocationBitsRepaired : Nat
  allocationFreeCountRepaired : Nat
  sourceSha256 : List Byte
  ioBufferBytes : Nat
  sourceSha256Valid : Bool
  sourceIdentityVerified : Bool
  published : Bool
  temporaryLeft : Bool
  detail : String

/-- `result_reset`. -/
def resultReset : Result :=
  ⟨.ok, .none, 0, 0, 0, 0, 0, 0, 0, [], 0, false, false, false, false, ""⟩

/-- `result_fail`. -/
def resultFail (r : Result) (why : Failure) : Result :=
  { r with
    status := why.status
    stage := why.stage
    systemError := why.systemError
    detail := why.detail }

/-! ### Files and names -/

/-- `file_stamp_t`. -/
structure Stamp where
  size : Nat
  identityA : Nat
  identityB : Nat
  modifiedA : Nat
  modifiedB : Nat
  changedA : Nat
  changedB : Nat
  links : Nat
  deriving DecidableEq

/-- The source image. -/
structure Source where
  data : List Byte
  symlink : Bool
  regular : Bool
  identity : Nat × Nat
  modified : Nat × Nat
  changed : Nat × Nat
  links : Nat

/-- What `fstat` says of the source. -/
def Source.stamp (s : Source) : Stamp :=
  ⟨s.data.length, s.identity.1, s.identity.2, s.modified.1, s.modified.2, s.changed.1,
    s.changed.2, min s.links (2 ^ 32 - 1)⟩

/-- An entry of the destination directory: the file that this call creates, or another one. -/
inductive Entry
  | work
  | other (id : Nat) (symlink : Bool)
  deriving DecidableEq

/-- What happens at a call of the host. -/
structure Fault where
  /-- The error of the call, and zero when it succeeds. -/
  errno : Nat
  /-- How much of a failing write got through. -/
  through : Nat
  /-- An entry that another process has created by then. -/
  intruder : Option (String × Nat)

/-- The host. -/
structure Host where
  source : Source
  names : String → Option Entry
  /-- The content of the file that this call creates. -/
  image : List Byte
  faults : List Fault
  /-- The answers of the caller's `cancel`. -/
  cancels : List Bool
  /-- The entries that other processes have created since the call began. -/
  arrived : List (String × Nat)

/-- `EIO`. -/
def eio : Nat := 5

/-- `ENOMEM`. -/
def enomem : Nat := 12

/-- `EEXIST`. -/
def eexist : Nat := 17

/-- `EOVERFLOW`. -/
def eoverflow : Nat := 75

/-- What one call of `rootfs_work_create` works on. -/
structure Job where
  host : Host
  result : Result
  sourceOpen : Bool
  temporaryOpen : Bool
  directoryOpen : Bool
  leaf : String
  temporaryLeaf : String
  temporaryCreated : Bool
  /-- The content of the temporary file when the copy has been validated. -/
  copied : Option (List Byte)

/-- A part of the call: it goes on, or it has recorded a failure and goes to `done`. -/
abbrev Work (α : Type) := Attempt Job α

/-- Another process has created an entry. -/
def Host.intrude (h : Host) : Option (String × Nat) → Host
  | none => h
  | some (name, id) =>
    if (h.names name).isSome then h
    else { h with
      names := Function.update h.names name (some (.other id false))
      arrived := (name, id) :: h.arrived }

/-- A call of the host, with what goes wrong at it. -/
def hostCall : Work Fault := fun j =>
  match j.host.faults with
  | [] => (some ⟨0, 0, none⟩, j)
  | f :: fs => (some f, { j with host := { (j.host.intrude f.intruder) with faults := fs } })

/-- Records a failure and goes to `done`. -/
def failWith {α : Type} (status : Status) (stage : Stage) (systemError : Nat) (detail : String) :
    Work α := do
  Attempt.update fun j => { j with result := resultFail j.result ⟨status, stage, systemError, detail⟩ }
  Attempt.giveUp

/-- A call of the host that has no effect beyond its success. -/
def hostTry (status : Status) (stage : Stage) (detail : String) : Work Unit := do
  let f ← hostCall
  if f.errno ≠ 0 then failWith status stage f.errno detail else pure ()

/-- Changes the result. -/
def note (f : Result → Result) : Work Unit := Attempt.update fun j => { j with result := f j.result }

/-! ### Access to the files -/

/-- The two files. -/
inductive Handle
  | source | temporary

/-- What a file holds. -/
def Host.content (h : Host) : Handle → List Byte
  | .source => h.source.data
  | .temporary => h.image

/-- `INT64_MAX`. -/
def int64Max : Nat := 2 ^ 63 - 1

/-- A number in hexadecimal. -/
def hex (n : Nat) : String := String.ofList (Nat.toDigits 16 n)

/-- `range_valid`. -/
def rangeValid (offset length size : Nat) : Prop := offset ≤ size ∧ length ≤ size - offset

instance (offset length size : Nat) : Decidable (rangeValid offset length size) :=
  inferInstanceAs (Decidable (_ ∧ _))

/-- `host_file_read`: the octets, or the error. -/
def hostFileRead (h : Handle) (offset length : Nat) : Work (Except Nat (List Byte)) := do
  if offset > int64Max then pure (.error eoverflow)
  else do
    let f ← hostCall
    let got ← Attempt.ask fun j => serve (j.host.content h) offset length
    if f.errno ≠ 0 then pure (.error f.errno)
    else if got.length ≠ length then pure (.error eio)
    else pure (.ok got)

/-- `checked_read`. -/
def checkedRead (h : Handle) (fileSize offset length : Nat) (stage : Stage) :
    Work (List Byte) := do
  if ¬rangeValid offset length fileSize then
    failWith .rangeError stage 0
      s!"read [0x{hex offset},+{length}) exceeds 0x{hex fileSize} bytes"
  else do
    let got ← hostFileRead h offset length
    match got with
    | .ok got => pure got
    | .error e =>
      failWith .readFailed stage e
        s!"positioned read failed at 0x{hex offset} for {length} bytes"

/-- Octets written over a file from an offset on. -/
def splice (f : List Byte) (offset : Nat) (bytes : List Byte) : List Byte :=
  f.takeD offset 0 ++ bytes ++ f.drop (offset + bytes.length)

/-- `host_file_write`, to the temporary file. -/
def hostFileWrite (offset : Nat) (bytes : List Byte) : Work (Except Nat Unit) := do
  if offset > int64Max then pure (.error eoverflow)
  else do
    let f ← hostCall
    if f.errno ≠ 0 then do
      Attempt.update fun j =>
        { j with host := { j.host with image := splice j.host.image offset (bytes.take f.through) } }
      pure (.error f.errno)
    else do
      Attempt.update fun j =>
        { j with host := { j.host with image := splice j.host.image offset bytes } }
      pure (.ok ())

/-- `checked_write`. -/
def checkedWrite (fileSize offset : Nat) (bytes : List Byte) (stage : Stage) : Work Unit := do
  if ¬rangeValid offset bytes.length fileSize then
    failWith .rangeError stage 0
      s!"write [0x{hex offset},+{bytes.length}) exceeds 0x{hex fileSize} bytes"
  else do
    let done ← hostFileWrite offset bytes
    match done with
    | .ok () => pure ()
    | .error e =>
      failWith .writeFailed stage e
        s!"positioned write failed at 0x{hex offset} for {bytes.length} bytes"

/-- `host_file_resize`, of the temporary file. -/
def hostFileResize (size : Nat) (stage : Stage) (detail : String) : Work Unit := do
  if size > int64Max then failWith .writeFailed stage eoverflow detail
  else do
    let f ← hostCall
    if f.errno ≠ 0 then failWith .writeFailed stage f.errno detail
    else Attempt.update fun j =>
      { j with host := { j.host with image := j.host.image.takeD size 0 } }

/-- `host_file_close`, of a file that may be open. -/
def hostFileClose (isOpen : Job → Bool) (shut : Job → Job) : Work (Except Nat Unit) := do
  let opened ← Attempt.ask isOpen
  if ¬opened then pure (.ok ())
  else do
    Attempt.update shut
    let f ← hostCall
    if f.errno ≠ 0 then pure (.error f.errno) else pure (.ok ())

/-- `host_file_close` of the source. -/
def hostFileCloseSource : Work (Except Nat Unit) :=
  hostFileClose Job.sourceOpen fun j => { j with sourceOpen := false }

/-- `host_file_close` of the temporary file. -/
def hostFileCloseTemporary : Work (Except Nat Unit) :=
  hostFileClose Job.temporaryOpen fun j => { j with temporaryOpen := false }

/-! ### Steps that work on an open file -/

/-- `hfs_volume_t`. What only the steps read of it is `details`. -/
structure HfsVolume where
  totalBlocks : Nat
  details : List Nat
  deriving DecidableEq

/-- A step that reads and writes the temporary file within its size. -/
inductive Patch (α : Type) : Type
  | done (a : α)
  | fail (why : Failure)
  | read (offset length : Nat) (stage : Stage) (k : List Byte → Patch α)
  | write (offset : Nat) (bytes : List Byte) (stage : Stage) (k : Patch α)

/-- Runs a step on the temporary file. -/
def Patch.run {α : Type} (fileSize : Nat) : Patch α → Work α
  | done a => pure a
  | fail why => failWith why.status why.stage why.systemError why.detail
  | read offset length stage k =>
    checkedRead .temporary fileSize offset length stage >>= fun got => (k got).run fileSize
  | write offset bytes stage k =>
    checkedWrite fileSize offset bytes stage >>= fun _ => k.run fileSize

/-- Runs a step that only reads. -/
def validate {α : Type} (h : Handle) (fileSize : Nat) (stage : Stage) :
    Reader Failure Byte α → Work α
  | .done a => pure a
  | .fail why => failWith why.status why.stage why.systemError why.detail
  | .read offset length k =>
    checkedRead h fileSize offset length stage >>= fun got => validate h fileSize stage (k got)

end S5LBox.Rootfs
