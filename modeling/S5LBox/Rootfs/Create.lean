import S5LBox.Rootfs.Host

/-!
# Creating a work image

`rootfs_work_create`: the source is copied to a new temporary file, the copy is changed step by
step, and at last it is linked to the name of the destination, which replaces nothing. The steps
that change the open temporary file (`hfs_validate`, the three rewrites, `grow_volume` and
`provision_volume`) are parameters: each of them is a program that reads and writes that file
within its size.

## Main definitions

* `Steps`: the steps that are parameters.
* `copySource`, `publish`, `cleanupUnpublished`: the parts of the call.
* `rootfsWorkCreate`: the call.
-/

namespace S5LBox.Rootfs

open Attempts Reading

/-! ### Options -/

/-- `ROOTFS_WORK_MAX_IO_BUFFER`. -/
abbrev maxIoBuffer : Nat := 1024 * 1024

/-- `ROOTFS_WORK_DEFAULT_FSTAB`. -/
def defaultFstab : String := "/dev/md0 / hfs rw,update 0 0"

/-- `ROOTFS_TEMP_ATTEMPTS`. -/
def tempAttempts : Nat := 128

/-- `IOS3_SHA256_MAX_INPUT_BYTES`. -/
def sha256MaxInput : Nat := (2 ^ 64 - 1) / 8

/-- `rootfs_work_source_identity_t`. -/
structure SourceIdentity where
  required : Bool
  expectedSize : Nat
  expectedSha256 : List Byte

/-- `rootfs_work_options_t`, with the lists of the provisioning steps by their lengths. -/
structure Options where
  preserveFstab : Bool
  fstabLine : Option String
  caSoftwareRender : Bool
  pppLaunchdJob : Bool
  growthBytes : Nat
  minimumVolumeBytes : Nat
  allowUncleanSource : Bool
  reconcileNextCatalogId : Bool
  reconcileCatalogCounts : Bool
  protectReferencedAllocations : Bool
  repairCatalogBacklinks : Bool
  repairCatalogTopology : Bool
  ioBufferBytes : Nat
  entryCount : Nat
  fileRepairCount : Nat
  fileRewriteCount : Nat
  sourceIdentity : SourceIdentity
  /-- The caller has passed a `cancel`. -/
  cancel : Bool

/-- The options of the protection that runs before a growth. -/
def protectionOptions : Options :=
  ⟨true, none, false, false, 0, 0, true, false, false, true, false, false, 0, 0, 0, 0,
    ⟨false, 0, []⟩, false⟩

/-- The size of the I/O buffer. -/
abbrev IoBuffer := {n : Nat // 0 < n ∧ n ≤ maxIoBuffer}

/-- A path, and the component at which the walk to its directory meets a link or `..`. -/
structure Path where
  text : String
  culprit : Option String

/-- The steps that work on an open file. -/
structure Steps where
  /-- `hfs_validate`. -/
  hfsValidate : (fileSize : Nat) → (allowUnclean : Bool) → Stage → Reader Failure Byte HfsVolume
  /-- `fstab_rewrite`. -/
  fstabRewrite : (fileSize : Nat) → (line : String) → Patch Unit
  /-- `ca_plist_rewrite`. -/
  caPlistRewrite : (fileSize : Nat) → Patch Unit
  /-- `ppp_plist_rewrite`. -/
  pppPlistRewrite : (fileSize : Nat) → Patch Unit
  /-- `grow_volume` up to the resizing: the new size, if there is one. -/
  growPlan : (fileSize growth minimum : Nat) → HfsVolume → Patch (Option Nat)
  /-- `grow_volume` from the resizing on. -/
  growWrite : (fileSize : Nat) → HfsVolume → Patch Unit
  /-- `provision_volume`: the repaired bits and free counts of the allocation bitmap. -/
  provisionVolume : (fileSize : Nat) → HfsVolume → Options → Patch (Nat × Nat)
  /-- `ios3_sha256`. -/
  sha256 : List Byte → List Byte

/-! ### Opening the files -/

/-- `split_path`: the leaf of a path that has a safe one. -/
def splitPath (path : String) : Option String :=
  let leaf := (path.toList.reverse.takeWhile (· ≠ '/')).reverse
  if leaf = [] ∨ leaf = ['.'] ∨ leaf = ['.', '.'] then none else some (String.ofList leaf)

/-- `open_directory_no_links` for the directory of the source. -/
def openSourceDirectory (path : Path) : Work Unit := do
  match path.culprit with
  | some "" =>
    failWith .pathUnsafe .sourcePath 0 "source path traverses a symbolic link or '..'"
  | some c =>
    failWith .pathUnsafe .sourcePath 0
      s!"source path traverses a symbolic link or '..' at component \"{c}\""
  | none => do
    let f ← hostCall
    if f.errno ≠ 0 then
      failWith (if f.errno = enomem then .noMemory else .sourceOpenFailed) .sourcePath f.errno
        s!"cannot open source directory (errno {f.errno})"
    else pure ()

/-- `posix_open_source`. -/
def posixOpenSource (path : Path) : Work Stamp := do
  if splitPath path.text = none then
    failWith .pathUnsafe .sourcePath 0 "source has no safe file name"
  else do
    openSourceDirectory path
    hostTry .sourceOpenFailed .sourcePath "cannot inspect source path"
    let s ← Attempt.ask fun j => j.host.source
    if s.symlink then failWith .pathUnsafe .sourcePath 0 "source is a symbolic link"
    else do
      hostTry .sourceOpenFailed .sourceOpen "cannot open source read-only"
      Attempt.update fun j => { j with sourceOpen := true }
      hostTry .sourceOpenFailed .sourceOpen "cannot inspect opened source"
      if ¬s.regular then
        failWith .sourceNotRegular .sourceOpen 0 "source is not a regular disk image file"
      else if s.links ≠ 1 then
        failWith .sourceAlias .sourceOpen 0
          s!"source has {s.links} hard links; immutable identity is ambiguous"
      else do
        hostTry .sourceBusy .sourceOpen "cannot lock source against cooperative writers"
        hostTry .sourceOpenFailed .sourceOpen "cannot capture source identity"
        pure s.stamp

/-- `posix_open_destination`. -/
def posixOpenDestination (path : Path) : Work Unit := do
  match splitPath path.text with
  | none => failWith .pathUnsafe .destinationPath 0 "destination has no safe file name"
  | some leaf => do
    Attempt.update fun j => { j with leaf := leaf }
    let f ← hostCall
    match path.culprit with
    | some "" =>
      failWith .pathUnsafe .destinationPath 0 "destination path traverses a symbolic link or '..'"
    | some _ =>
      failWith .pathUnsafe .destinationPath 0
        "destination path traverses a symbolic link or '..' -- see the component named in the log"
    | none =>
      if f.errno ≠ 0 then
        failWith (if f.errno = enomem then .noMemory else .destinationOpenFailed) .destinationPath
          f.errno "cannot open destination directory"
      else do
        Attempt.update fun j => { j with directoryOpen := true }
        let f ← hostCall
        let entry ← Attempt.ask fun j => j.host.names leaf
        if f.errno ≠ 0 then
          failWith .destinationOpenFailed .destinationPath f.errno
            "cannot establish that destination is absent"
        else match entry with
          | none => pure ()
          | some (.other _ true) =>
            failWith .pathUnsafe .destinationPath 0 "destination already exists"
          | some _ => failWith .destinationExists .destinationPath 0 "destination already exists"

/-- The name of a temporary file. -/
def temporaryName (pid attempt : Nat) : String := s!".rootfs-work-{pid}-{attempt}.tmp"

/-- The loop of `destination_temp_create`, with the attempts that are left. -/
def tempCreateLoop (pid : Nat) : (left attempt : Nat) → Work Unit
  | 0, _ =>
    failWith .tempCreateFailed .tempCreate eexist "all unique temporary names are occupied"
  | left + 1, attempt => do
    let leaf ← Attempt.ask Job.leaf
    Attempt.update fun j => { j with temporaryLeaf := temporaryName pid attempt }
    if temporaryName pid attempt = leaf then tempCreateLoop pid left (attempt + 1)
    else do
      let f ← hostCall
      let taken ← Attempt.ask fun j => j.host.names (temporaryName pid attempt)
      if taken.isSome then tempCreateLoop pid left (attempt + 1)
      else if f.errno ≠ 0 then
        if f.errno = eexist then tempCreateLoop pid left (attempt + 1)
        else
          failWith .tempCreateFailed .tempCreate f.errno
            "cannot exclusively create temporary work image"
      else Attempt.update fun j =>
        { j with
          host := { j.host with
            names := Function.update j.host.names (temporaryName pid attempt) (some .work)
            image := [] }
          temporaryOpen := true
          temporaryCreated := true }

/-- `destination_temp_create`. -/
def destinationTempCreate (pid : Nat) : Work Unit := tempCreateLoop pid tempAttempts 0

/-! ### The copy -/

/-- The answer of the caller's `cancel`, if there is one. -/
def askCancel (o : Options) : Work Bool := do
  if o.cancel then fun j =>
    match j.host.cancels with
    | [] => (some false, j)
    | b :: bs => (some b, { j with host := { j.host with cancels := bs } })
  else pure false

/-- The loop of `copy_source`: the octets that have been hashed, up to the end of the source. -/
def copyLoop (o : Options) (buffer : IoBuffer) (sourceSize offset : Nat) (hashed : List Byte) :
    Work (List Byte) :=
  if _h : offset < sourceSize then do
    let stop ← askCancel o
    if stop then failWith .cancelled .copy 0 "disk preparation cancelled"
    else do
      let bytes ← checkedRead .source sourceSize offset (min (sourceSize - offset) buffer) .copy
      if hashed.length + bytes.length > sha256MaxInput then
        failWith .rangeError .sourceIdentity 0 "source exceeds the SHA-256 cumulative length bound"
      else do
        -- A chunk of zeros stays a hole of the file, which has its size already.
        Attempt.provided (¬bytes.all (· = 0)) (checkedWrite sourceSize offset bytes .copy)
        note fun r => { r with bytesCopied := offset + min (sourceSize - offset) buffer }
        copyLoop o buffer sourceSize (offset + min (sourceSize - offset) buffer) (hashed ++ bytes)
  else pure hashed
termination_by sourceSize - offset
decreasing_by
  have _ := buffer.2.1
  omega

/-- `copy_source`. -/
def copySource (o : Options) (buffer : IoBuffer) (sourceSize : Nat) : Work (List Byte) := do
  hostFileResize sourceSize .copy "cannot size the temporary work image"
  copyLoop o buffer sourceSize 0 []

/-! ### Publication -/

/-- `linkat` of the temporary file to the destination. -/
def linkDestination : Work (Except Nat Unit) := do
  let f ← hostCall
  let taken ← Attempt.ask fun j => (j.host.names j.leaf).isSome
  if taken then pure (.error eexist)
  else if f.errno ≠ 0 then pure (.error f.errno)
  else do
    Attempt.update fun j =>
      { j with host := { j.host with
          names := Function.update j.host.names j.leaf (j.host.names j.temporaryLeaf) } }
    pure (.ok ())

/-- `unlinkat` of the temporary name. -/
def unlinkTemporary : Work (Except Nat Unit) := do
  let f ← hostCall
  if f.errno ≠ 0 then pure (.error f.errno)
  else do
    Attempt.update fun j =>
      { j with host := { j.host with
          names := Function.update j.host.names j.temporaryLeaf none } }
    pure (.ok ())

/-- `publish`. -/
def publish : Work Unit := do
  let linked ← linkDestination
  match linked with
  | .error e =>
    failWith (if e = eexist then .destinationExists else .publishFailed) .publish e
      "atomic no-replace publication failed"
  | .ok () => do
    note fun r => { r with published := true }
    let f ← hostCall
    if f.errno ≠ 0 then do
      note fun r => { r with temporaryLeft := true }
      failWith .publishDurabilityFailed .directorySync f.errno
        "destination was published but directory sync failed"
    else do
      let unlinked ← unlinkTemporary
      match unlinked with
      | .error e => do
        note fun r => { r with temporaryLeft := true }
        failWith .publishFailed .cleanup e
          "destination was published but temporary link removal failed"
      | .ok () =>
        hostTry .publishDurabilityFailed .directorySync
          "destination is durable but temporary-link removal sync failed"

/-- `cleanup_unpublished`. -/
def cleanupUnpublished : Work Unit := do
  let j ← Attempt.ask fun j => j
  if ¬j.temporaryCreated ∨ j.result.published then pure ()
  else if j.directoryOpen ∧ j.temporaryLeaf ≠ "" then do
    let unlinked ← unlinkTemporary
    match unlinked with
    | .ok () => pure ()
    | .error e => note fun r =>
      { r with
        cleanupSystemError := if r.cleanupSystemError = 0 then e else r.cleanupSystemError
        temporaryLeft := true }
  else pure ()

/-! ### The call -/

/-- The options with their defaults. -/
def Options.withDefaults (o : Options) : Options :=
  { o with
    fstabLine := if ¬o.preserveFstab ∧ o.fstabLine = none then some defaultFstab else o.fstabLine
    ioBufferBytes := if o.ioBufferBytes = 0 then maxIoBuffer else o.ioBufferBytes }

/-- The checks of the options, and the options with their defaults. -/
def selectOptions (source destination : Path) (o : Options) : Work (Options × IoBuffer) := do
  if o.preserveFstab ∧ o.fstabLine.isSome then
    failWith .invalidArgument .arguments 0
      "preserve_fstab and fstab_line are mutually exclusive"
  else if (o.repairCatalogBacklinks ∨ o.repairCatalogTopology ∨ o.reconcileNextCatalogId ∨
      o.reconcileCatalogCounts ∨ o.protectReferencedAllocations) ∧ ¬o.allowUncleanSource then
    failWith .invalidArgument .arguments 0 "catalog repair requires an authorized unclean source"
  else if (o.repairCatalogBacklinks ∨ o.reconcileCatalogCounts) ∧ o.repairCatalogTopology then
    failWith .invalidArgument .arguments 0
      "catalog counter/backlink and topology repair modes are mutually exclusive"
  else if source.text = "" ∨ destination.text = "" then
    failWith .invalidArgument .arguments 0
      s!"paths and a 1..{maxIoBuffer}-byte I/O buffer are required"
  else if h : 0 < o.withDefaults.ioBufferBytes ∧ o.withDefaults.ioBufferBytes ≤ maxIoBuffer then
    pure (o.withDefaults, ⟨o.withDefaults.ioBufferBytes, h⟩)
  else
    failWith .invalidArgument .arguments 0
      s!"paths and a 1..{maxIoBuffer}-byte I/O buffer are required"

variable (steps : Steps)

/-- From the arguments to the validated source. -/
def openAndValidate (source destination : Path) (o : Options) (buffer : IoBuffer) :
    Work (Stamp × HfsVolume) := do
  note fun r => { r with ioBufferBytes := buffer }
  hostTry .noMemory .arguments s!"cannot allocate {buffer.1}-byte bounded I/O buffer"
  let before ← posixOpenSource source
  posixOpenDestination destination
  note fun r => { r with sourceSize := before.size }
  if before.size > sha256MaxInput then
    failWith .rangeError .sourceIdentity 0 "source is too large for a bounded SHA-256 bit count"
  else if o.sourceIdentity.required ∧ o.sourceIdentity.expectedSize ≠ before.size then
    failWith .sourceIdentityMismatch .sourceIdentity 0
      "source size does not match the required identity"
  else do
    let volume ← validate .source before.size .sourceValidate
      (steps.hfsValidate before.size o.allowUncleanSource .sourceValidate)
    pure (before, volume)

/-- The check of the digest of the source. -/
def checkIdentity (o : Options) (hashed : List Byte) : Work Unit := do
  note fun r => { r with sourceSha256 := steps.sha256 hashed, sourceSha256Valid := true }
  if o.sourceIdentity.required then
    if steps.sha256 hashed ≠ o.sourceIdentity.expectedSha256 then
      failWith .sourceIdentityMismatch .sourceIdentity 0
        "source SHA-256 does not match the required identity"
    else note fun r => { r with sourceIdentityVerified := true }
  else pure ()

/-- From the creation of the temporary file to the validated copy. -/
def makeCopy (pid : Nat) (o : Options) (buffer : IoBuffer) (before : Stamp) (volume : HfsVolume) :
    Work HfsVolume := do
  destinationTempCreate pid
  hostFileResize before.size .copy "cannot size temporary image for source copy"
  let hashed ← copySource o buffer before.size
  hostTry .sourceChanged .copyVerify "cannot revalidate source identity after copy"
  let after ← Attempt.ask fun j => j.host.source.stamp
  if before ≠ after then
    failWith .sourceChanged .copyVerify 0
      "source identity, size, links, or timestamps changed during copy"
  else do
    checkIdentity steps o hashed
    hostTry .sourceChanged .copyVerify "temporary copy size does not match the immutable source"
    let size ← Attempt.ask fun j => j.host.image.length
    if size ≠ before.size then
      failWith .sourceChanged .copyVerify 0
        "temporary copy size does not match the immutable source"
    else do
      let copied ← validate .temporary before.size .copyVerify
        (steps.hfsValidate before.size o.allowUncleanSource .copyVerify)
      if volume ≠ copied then
        failWith .sourceChanged .copyVerify 0
          "copied HFS metadata does not match source metadata"
      else do
        let closed ← hostFileCloseSource
        match closed with
        | .error e =>
          failWith .sourceChanged .copyVerify e "source close failed after immutable copy"
        | .ok () => do
          Attempt.update fun j => { j with copied := some j.host.image }
          pure copied

/-- The protection of the allocations before a growth. -/
def protectAllocations (o : Options) (workSize : Nat) (volume : HfsVolume) :
    Work (HfsVolume × Nat × Nat) := do
  if o.protectReferencedAllocations ∧ (o.growthBytes ≠ 0 ∨ o.minimumVolumeBytes > workSize) then do
    let repaired ← (steps.provisionVolume workSize volume protectionOptions).run workSize
    note fun r =>
      { r with allocationBitsRepaired := repaired.1, allocationFreeCountRepaired := repaired.2 }
    let volume ← validate .temporary workSize .provisionWrite
      (steps.hfsValidate workSize true .provisionWrite)
    pure (volume, repaired)
  else pure (volume, 0, 0)

/-- The rewrites of files within their size. -/
def rewriteFiles (o : Options) (workSize : Nat) : Work Unit := do
  Attempt.provided (¬o.preserveFstab)
    ((steps.fstabRewrite workSize (o.fstabLine.getD "")).run workSize)
  Attempt.provided o.caSoftwareRender ((steps.caPlistRewrite workSize).run workSize)
  Attempt.provided o.pppLaunchdJob ((steps.pppPlistRewrite workSize).run workSize)

/-- `grow_volume`: the new size. -/
def growVolume (o : Options) (workSize : Nat) (volume : HfsVolume) : Work Nat := do
  let plan ← (steps.growPlan workSize o.growthBytes o.minimumVolumeBytes volume).run workSize
  match plan with
  | none => pure workSize
  | some size => do
    hostFileResize size .growWrite s!"cannot extend temporary work image to {size} bytes"
    (steps.growWrite size volume).run size
    pure size

/-- The provisioning of the catalog, where it has been asked for. -/
def provision (o : Options) (workSize : Nat) : Work Unit := do
  if o.entryCount ≠ 0 ∨ o.fileRepairCount ≠ 0 ∨ o.fileRewriteCount ≠ 0 ∨
      o.repairCatalogBacklinks ∨ o.repairCatalogTopology ∨ o.reconcileNextCatalogId ∨
      o.reconcileCatalogCounts ∨ o.protectReferencedAllocations then do
    let grown ← validate .temporary workSize .provisionPlan
      (steps.hfsValidate workSize o.allowUncleanSource .provisionPlan)
    let repaired ← (steps.provisionVolume workSize grown o).run workSize
    note fun r =>
      { r with allocationBitsRepaired := repaired.1, allocationFreeCountRepaired := repaired.2 }
  else pure ()

/-- The last validation. -/
def finalValidate (o : Options) (before : Stamp) (volume : HfsVolume) (workSize : Nat) :
    Work Unit := do
  let final ← validate .temporary workSize .finalValidate
    (steps.hfsValidate workSize o.allowUncleanSource .finalValidate)
  if (o.growthBytes ≠ 0 ∨ o.minimumVolumeBytes > before.size) ∧
      final.totalBlocks ≤ volume.totalBlocks then
    failWith .hfsInvalid .finalValidate 0 "final validation did not observe planned volume growth"
  else if o.minimumVolumeBytes ≠ 0 ∧ workSize < o.minimumVolumeBytes then
    failWith .hfsInvalid .finalValidate 0 "final volume is smaller than the requested minimum"
  else pure ()

/-- From the finished image to its publication. -/
def flushAndPublish (o : Options) (workSize : Nat) : Work Unit := do
  hostTry .syncFailed .flush "cannot flush completed temporary work image"
  let closed ← hostFileCloseTemporary
  match closed with
  | .error e => failWith .syncFailed .flush e "cannot close flushed temporary work image"
  | .ok () => do
    let stop ← askCancel o
    if stop then
      failWith .cancelled .publish 0 "disk preparation cancelled before publication"
    else do
      publish
      note fun r =>
        { r with
          status := .ok
          stage := .none
          systemError := 0
          detail := s!"published {workSize}-byte validated rootfs work image" }

/-- From the validated copy to the validated image: its size, and what the protection repaired. -/
def changeImage (o : Options) (before : Stamp) (copied : HfsVolume) : Work (Nat × Nat × Nat) := do
  let protection ← protectAllocations steps o before.size copied
  rewriteFiles steps o before.size
  let workSize ← growVolume steps o before.size protection.1
  provision steps o workSize
  finalValidate steps o before protection.1 workSize
  pure (workSize, protection.2)

/-- `rootfs_work_create` up to `done`. -/
def createBody (pid : Nat) (source destination : Path) (o : Options) : Work Unit := do
  let (o, buffer) ← selectOptions source destination o
  let (before, volume) ← openAndValidate steps source destination o buffer
  let copied ← makeCopy steps pid o buffer before volume
  let (workSize, bits, counts) ← changeImage steps o before copied
  note fun r =>
    { r with
      finalSize := workSize
      allocationBitsRepaired := r.allocationBitsRepaired + bits
      allocationFreeCountRepaired := r.allocationFreeCountRepaired + counts }
  flushAndPublish o workSize

/-- Closes the source, where it is still open. -/
def closeSource : Work Unit := do
  let closed ← hostFileCloseSource
  match closed with
  | .ok () => pure ()
  | .error e => note fun r =>
    { r with
      cleanupSystemError := if r.cleanupSystemError = 0 then e else r.cleanupSystemError }

/-- Closes the temporary file, where it is still open. -/
def closeTemporary : Work Unit := do
  let closed ← hostFileCloseTemporary
  match closed with
  | .ok () => pure ()
  | .error e => Attempt.update fun j =>
    { j with result := { j.result with
        cleanupSystemError :=
          if j.result.cleanupSystemError = 0 then e else j.result.cleanupSystemError
        temporaryLeft := j.result.temporaryLeft || j.temporaryCreated } }

/-- `rootfs_work_create` from `done` on. -/
def createDone (success : Bool) : Work Unit := do
  closeSource
  closeTemporary
  Attempt.provided (¬success) cleanupUnpublished

/-- What the call begins with. -/
def Job.start (host : Host) : Job :=
  ⟨host, resultReset, false, false, false, "", "", false, none⟩

/-- A host whose directory has entries of others only: their identities, and which of them are
symbolic links. -/
def Host.start (source : Source) (others : String → Option (Nat × Bool)) (faults : List Fault)
    (cancels : List Bool) : Host :=
  ⟨source, fun n => (others n).map fun e => .other e.1 e.2, [], faults, cancels, []⟩

/-- `rootfs_work_create`. -/
def rootfsWorkCreate (pid : Nat) (source destination : Path) (o : Options) (host : Host) : Job :=
  let (r, j) := createBody steps pid source destination o (Job.start host)
  (createDone r.isSome).after j

end S5LBox.Rootfs
