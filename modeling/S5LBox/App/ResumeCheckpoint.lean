import S5LBox.Arm.Cpu
import S5LBox.Lib.Interruptible
import S5LBox.Lib.LittleEndian
import S5LBox.Lib.Reader
import S5LBox.Lib.Runs

/-!
# The automatic resume checkpoint

`VMResumeCheckpoint.c` installs the state of a machine and that of its disk bridge, and publishes a
marker last, without which the two are not looked at. A call goes through its file operations one
by one. Each of them may fail, the caller may cancel, and the process may die between any two.

## Main definitions

* `Disk`, `FileOp`, `Disk.after`: the files of the work directory, and what is done with them.
* `saveCancellable`, `disarm`, `probeState`: the calls.
* `World`, `World.step`: calls in any order, their failures and their deaths.

## Main results

* `save_holds`: what a call leaves behind, wherever it is interrupted.
* `World.armed_as_a_pair`: a marker stands for a pair of one call, and a call that fails leaves none
  where it is let clear the one before.
* `World.armed_after_failure`: otherwise it may leave it.
* `World.save_arms`: a call that nothing hinders arms its pair.
-/

namespace S5LBox.App.Resume

open Interruptible LittleEndian Reading Runs

/-! ### Files -/

/-- The files of the work directory. `stateTemp` is the name under which `snapshot_save` writes. -/
inductive FileName
  | state | statePartial | stateTemp | bridge | bridgePartial | marker | markerPartial
  deriving DecidableEq

/-- What a call of `vm_resume_checkpoint_save_cancellable` is to save, and which call it is. -/
structure Save where
  number : Nat
  snapshot : List Byte
  sidecar : List Byte

/-- A file, and the call that has written it. -/
structure File where
  bytes : List Byte
  writer : Save

/-- What has come about in the directory. -/
inductive Event
  | installed (f : FileName) (writer : Save)
  | removed (f : FileName)

/-- The work directory. -/
structure Disk where
  file : FileName → Option File
  log : List Event

/-- The requests of a call to its host. `allocate` is for memory, `cancelled` asks the caller. -/
inductive FileOp
  | remove (f : FileName)
  | create (f : FileName) (writer : Save)
  | write (f : FileName) (bytes : List Byte)
  | sync (f : FileName)
  | close (f : FileName)
  | openExisting (f : FileName)
  | rename (source destination : FileName)
  | allocate
  | cancelled

/-- The answers. A file that is not there counts as removed. -/
inductive OpResult
  | succeeds | fails | interrupted
  | moves (n : Nat)
  deriving DecidableEq

namespace Disk

/-- The answers that are possible. -/
def possible (d : Disk) : FileOp → OpResult → Bool
  | .write _ bytes, .moves n => n ≤ bytes.length
  | .write _ _, .succeeds => false
  | .write _ _, _ => true
  | .rename source _, .succeeds => (d.file source).isSome
  | .openExisting f, .succeeds => (d.file f).isSome
  | _, .succeeds => true
  | _, .fails => true
  | _, _ => false

/-- The directory after a request has been answered. -/
def after : FileOp → OpResult → Disk → Disk
  | .remove f, .succeeds, d => ⟨Function.update d.file f none, d.log ++ [.removed f]⟩
  | .create f writer, .succeeds, d => { d with
      file := Function.update d.file f (some ⟨[], writer⟩) }
  | .write f bytes, .moves n, d => { d with
      file := Function.update d.file f
        ((d.file f).map fun e => { e with bytes := e.bytes ++ bytes.take n }) }
  | .rename source destination, .succeeds, d =>
    match d.file source with
    | none => d
    | some e => ⟨Function.update (Function.update d.file destination (some e)) source none,
        d.log ++ [.installed destination e.writer]⟩
  | _, _, d => d

end Disk

/-- Programs that work on the directory. -/
abbrev Work (α : Type) := Prog FileOp OpResult α

/-- A request that is answered by success or failure. -/
def attempt (op : FileOp) : Work Bool := .call op fun r => .done (r == .succeeds)

/-- The operator `&&`. -/
def andAlso (ok : Bool) (p : Work Bool) : Work Bool := if ok then p else pure false

/-- `resume_remove_if_present`. -/
def resumeRemoveIfPresent (f : FileName) : Work Bool := attempt (.remove f)

/-- `resume_replace`. -/
def resumeReplace (source destination : FileName) : Work Bool :=
  attempt (.rename source destination)

/-- `VM_RESUME_WRITE_RETRIES`. -/
def writeRetries : Nat := 64

/-- The loop of `resume_write_all`. -/
def resumeWriteAll (f : FileName) (bytes : List Byte) (done noProgress : Nat) : Work Bool :=
  if done < bytes.length ∧ noProgress < writeRetries then
    .call (.write f (bytes.drop done)) fun
      | .moves n => if 0 < n then resumeWriteAll f bytes (done + n) 0 else .done false
      | .interrupted => resumeWriteAll f bytes done (noProgress + 1)
      | _ => .done false
  else .done (done == bytes.length)
termination_by (bytes.length - done, writeRetries - noProgress)

/-- `resume_write_durable`. -/
def resumeWriteDurable (f : FileName) (bytes : List Byte) (writer : Save) : Work Bool :=
  if bytes.length = 0 then pure false
  else do
    let opened ← attempt (.create f writer)
    if opened then do
      let written ← resumeWriteAll f bytes 0 0
      let synced ← andAlso written (attempt (.sync f))
      let closed ← attempt (.close f)
      if synced && closed then pure true
      else do
        let _ ← attempt (.remove f)
        pure false
    else pure false

/-- `resume_sync_existing`. -/
def resumeSyncExisting (f : FileName) : Work Bool := do
  let opened ← attempt (.openExisting f)
  if opened then do
    let synced ← attempt (.sync f)
    let closed ← attempt (.close f)
    pure (synced && closed)
  else pure false

/-! ### The snapshot -/

/-- `snapshot_status_t`, without `SNAP_OK`. -/
inductive SnapshotError
  | io | magic | version | truncated | checksum | corrupt | geometry | noMemory | cancelled
  deriving DecidableEq

/-- `snapshot_strerror`. -/
def snapshotStrerror : SnapshotError → String
  | .io => "I/O error"
  | .magic => "not an S5LBox snapshot (bad magic)"
  | .version => "snapshot format version mismatch"
  | .truncated => "snapshot file is truncated"
  | .checksum => "snapshot payload failed its checksum"
  | .corrupt => "snapshot is structurally corrupt"
  | .geometry => "snapshot machine layout does not match this machine (RAM size/base, NOR size, " ++
      "or the stub windows differ)"
  | .noMemory => "out of memory"
  | .cancelled => "cancelled"

/-- A machine, as far as it is saved. -/
structure Machine where
  valid : Bool
  snapshot : List Byte

/-- `snap_write`, piece by piece. -/
def snapWrite (bytes : List Byte) (done : Nat) : Work (Except SnapshotError Unit) :=
  if done < bytes.length then
    .call .cancelled fun
      | .succeeds => .done (.error .cancelled)
      | _ => .call (.write .stateTemp (bytes.drop done)) fun
        | .moves n => if 0 < n then snapWrite bytes (done + n) else .done (.error .io)
        | _ => .done (.error .io)
  else .done (.ok ())
termination_by bytes.length - done

/-- The end of `snapshot_save_cancellable`. -/
def snapshotFinish (written : Except SnapshotError Unit) : Work (Except SnapshotError Unit) := do
  let closed ← attempt (.close .stateTemp)
  let replaced ← andAlso (written.isOk && closed) (resumeReplace .stateTemp .statePartial)
  if replaced then pure (.ok ())
  else do
    let _ ← attempt (.remove .stateTemp)
    match written with
    | .error e => pure (.error e)
    | .ok () => pure (.error .io)

/-- `snapshot_save_cancellable`, to the partial state file. -/
def snapshotSave (machine : Machine) (save : Save) : Work (Except SnapshotError Unit) :=
  if machine.valid then do
    let named ← attempt .allocate
    if named then do
      let opened ← attempt (.create .stateTemp save)
      if opened then do
        let written ← snapWrite save.snapshot 0
        snapshotFinish written
      else pure (.error .io)
    else pure (.error .noMemory)
  else pure (.error .corrupt)

/-! ### The calls -/

/-- The octets of a text. -/
def octetsOf (text : String) : List Byte := text.toList.map fun c => BitVec.ofNat 8 c.toNat

/-- The names of the files, as far as the calls make paths of them. -/
def fileText : FileName → String
  | .state => "state.snap"
  | .statePartial => "state.snap.partial"
  | .stateTemp => ""
  | .bridge => "state.snap.mdstate"
  | .bridgePartial => "state.snap.mdstate.partial"
  | .marker => "state.snap.restore-once"
  | .markerPartial => "state.snap.restore-once.partial"

/-- `VM_FW_BOOT_PATH_CAPACITY + VM_RESUME_PATH_EXTRA`. -/
def pathCapacity : Nat := 1024 + 64

/-- `resume_path`. -/
def resumePath (directory : List Byte) (f : FileName) : Option (List Byte) :=
  let separator := if directory.getLast? = some 0x2f ∨ directory.getLast? = some 0x5c then [] else
    [0x2f]
  let path := directory ++ separator ++ octetsOf (fileText f)
  if directory ≠ [] ∧ path.length < pathCapacity then some path else none

/-- `sizeof(external_md_sidecar_t)`. -/
def sidecarBytes : Nat := 131248

/-- `external_md_sidecar_t`, as it is in memory. -/
structure Sidecar where
  bytes : List Byte
  length : bytes.length = sidecarBytes

/-- `EXTERNAL_MD_SIDECAR_MAGIC`. -/
def sidecarMagic : Nat := 0x3144534d

/-- `EXTERNAL_MD_SIDECAR_VERSION`. -/
def sidecarVersion : Nat := 1

/-- The fields `magic`, `version`, `media_size` and `image_bytes`. -/
def sidecarFields (bytes : List Byte) : Nat × Nat × Nat × Nat :=
  (decode (serve bytes 0 4), decode (serve bytes 4 4), decode (serve bytes 8 8),
    decode (serve bytes 16 8))

/-- What a call is given. -/
structure SaveCall where
  machine : Option Machine
  sidecar : Option Sidecar
  workDirectory : Option (List Byte)

/-- The marker. -/
def request : List Byte := octetsOf "S5LBox automatic resume 1\n"

/-- The end of a call: its text, or nothing. -/
abbrev Ending := Except String Unit

/-- The files that a call writes. -/
def pathNames : List FileName :=
  [.state, .statePartial, .bridge, .bridgePartial, .marker, .markerPartial]

/-- The refusals of `vm_resume_checkpoint_save_cancellable` before it touches a file. -/
def refusal (c : SaveCall) : Except String (Machine × Sidecar) :=
  match c.machine, c.sidecar, c.workDirectory with
  | some machine, some sidecar, some (b :: directory) =>
    let (magic, version, mediaSize, imageBytes) := sidecarFields sidecar.bytes
    if magic ≠ sidecarMagic ∨ version ≠ sidecarVersion ∨ mediaSize = 0 ∨ imageBytes ≠ mediaSize then
      .error "The running disk bridge provided invalid checkpoint state."
    else if pathNames.any fun f => (resumePath (b :: directory) f).isNone then
      .error "The machine checkpoint path is too long to use."
    else .ok (machine, sidecar)
  | _, _, _ => .error "The running machine did not provide a complete checkpoint."

/-- Both partial payloads are removed, whether that succeeds or not. -/
def discard (text : String) : Work Ending := do
  let _ ← resumeRemoveIfPresent .statePartial
  let _ ← resumeRemoveIfPresent .bridgePartial
  pure (.error text)

/-- The marker is published. -/
def publish (save : Save) : Work Ending := do
  let cancelled ← attempt .cancelled
  if cancelled then pure (.error "The checkpoint was cancelled.")
  else do
    let written ← resumeWriteDurable .markerPartial request save
    let replaced ← andAlso written (resumeReplace .markerPartial .marker)
    if replaced then pure (.ok ())
    else do
      let _ ← resumeRemoveIfPresent .markerPartial
      pure (.error "The checkpoint was written, but automatic resume could not be armed.")

/-- Both payloads are installed. -/
def install (save : Save) : Work Ending := do
  let bridge ← resumeReplace .bridgePartial .bridge
  let state ← andAlso bridge (resumeReplace .statePartial .state)
  if state then publish save
  else discard "The completed checkpoint files could not be installed."

/-- Both payloads are written. -/
def writePayloads (machine : Machine) (save : Save) : Work Ending := do
  let bridge ← resumeWriteDurable .bridgePartial save.sidecar save
  if bridge then do
    let saved ← snapshotSave machine save
    match saved with
    | .error e =>
      discard ("The machine checkpoint could not be written: " ++ snapshotStrerror e ++ ".")
    | .ok () => do
      let cancelled ← attempt .cancelled
      let durable ← andAlso (!cancelled) (resumeSyncExisting .statePartial)
      if durable then install save
      else discard "The machine checkpoint could not be made durable."
  else pure (.error "The disk-bridge checkpoint could not be written.")

/-- `vm_resume_checkpoint_save_cancellable`, as the call of that number. -/
def saveCancellable (c : SaveCall) (number : Nat) : Work Ending :=
  match refusal c with
  | .error text => pure (.error text)
  | .ok (machine, sidecar) => do
    let marker ← resumeRemoveIfPresent .marker
    let cleared ← andAlso marker (resumeRemoveIfPresent .markerPartial)
    if cleared then writePayloads machine ⟨number, machine.snapshot, sidecar.bytes⟩
    else pure (.error "The previous resume request could not be cleared safely.")

/-- `vm_resume_checkpoint_disarm`. -/
def disarm (workDirectory : List Byte) : Work Ending :=
  match resumePath workDirectory .marker with
  | none => pure (.error "The machine stopped, but its resume-marker path is invalid.")
  | some _ => do
    let unlinked ← attempt (.remove .marker)
    if unlinked then pure (.ok ())
    else pure (.error ("The machine stopped, but its resume marker could not be cleared. " ++
      "Retry before reopening it."))

/-- `vm_resume_checkpoint_state_t`. -/
inductive CheckpointState
  | absent | running | poweredOff | invalid
  deriving DecidableEq

/-- What a probe is given, and what it comes upon: the files that cannot be inspected, those that
cannot be read, and what `snapshot_load` makes of a state file. -/
structure Probe where
  workDirectory : List Byte
  mediaSize : Nat
  ramSize : Nat
  uninspected : FileName → Bool
  unread : FileName → Bool
  memory : Bool
  load : List Byte → Except SnapshotError Bool

/-- `vm_resume_checkpoint_probe_state`. -/
def probeState (p : Probe) (d : Disk) : CheckpointState × String :=
  let regular (f : FileName) := if p.uninspected f then none else d.file f
  if p.mediaSize = 0 ∨ p.ramSize = 0 ∨
      ([.state, .bridge, .marker].any fun f => (resumePath p.workDirectory f).isNone) = true then
    (.invalid, "The automatic checkpoint probe is incomplete.")
  else
    match regular .marker with
    | none =>
      if p.uninspected .marker then
        (.invalid, "The automatic checkpoint marker could not be inspected.")
      else (.absent, "No automatic checkpoint is armed.")
    | some marker =>
      if marker.bytes.length = 0 then (.absent, "No automatic checkpoint is armed.")
      else if marker.bytes.length ≠ request.length ∨ p.unread .marker ∨ marker.bytes ≠ request then
        (.invalid, "The automatic checkpoint marker is not exact.")
      else
        match regular .state, regular .bridge with
        | some state, some bridge =>
          if state.bytes.length = 0 ∨ bridge.bytes.length ≠ sidecarBytes ∨ p.unread .bridge then
            (.invalid, "The automatic checkpoint payload pair is incomplete.")
          else
            let (magic, version, mediaSize, imageBytes) := sidecarFields bridge.bytes
            if magic ≠ sidecarMagic ∨ version ≠ sidecarVersion ∨ mediaSize ≠ p.mediaSize ∨
                imageBytes ≠ p.mediaSize then
              (.invalid, "The automatic checkpoint belongs to a different guest disk.")
            else if p.memory = false then
              (.invalid, "Memory for checkpoint verification is unavailable.")
            else
              match p.load state.bytes with
              | .error e =>
                (.invalid, "The automatic checkpoint was refused: " ++ snapshotStrerror e ++ ".")
              | .ok true =>
                (.poweredOff, "The automatic checkpoint proves full guest power-off.")
              | .ok false =>
                (.running, "The automatic checkpoint is a resumable running state.")
        | _, _ => (.invalid, "The automatic checkpoint payload pair is incomplete.")

/-! ### Calls in any order -/

/-- The directory, the call under way, the calls that have been made, and how the last one that
came to its end did. -/
structure World where
  disk : Disk
  running : Option (Work Ending)
  calls : List SaveCall
  returned : Option Ending

/-- What happens: a call begins, a request is answered, the process dies, or the marker is
unlinked. -/
inductive WorldAction
  | save (c : SaveCall)
  | answer (r : OpResult)
  | die
  | disarm (workDirectory : List Byte) (r : OpResult)

namespace World

/-- A call goes on, or has come to its end. -/
def settle (s : World) : Work Ending → World
  | .done e => { s with running := none, returned := some e }
  | p => { s with running := some p }

/-- A step. -/
def step (a : WorldAction) (s : World) : World :=
  match a, s.running with
  | .save c, none =>
    { s with calls := s.calls ++ [c], returned := none }.settle (saveCancellable c s.calls.length)
  | .answer r, some (.call op k) =>
    if s.disk.possible op r then { s with disk := s.disk.after op r }.settle (k r) else s
  | .die, _ => { s with running := none }
  | .disarm workDirectory r, none =>
    match disarm workDirectory with
    | .call op _ => if s.disk.possible op r then { s with disk := s.disk.after op r } else s
    | .done _ => s
  | _, _ => s

/-- An empty directory. -/
def start : World := ⟨⟨fun _ => none, []⟩, none, [], none⟩

end World

/-! ### What a marker stands for -/

/-- The marker and the pair of one call, the marker published after both and last of all. -/
structure Published (d : Disk) (save : Save) : Prop where
  marker : d.file .marker = some ⟨request, save⟩
  state : d.file .state = some ⟨save.snapshot, save⟩
  bridge : d.file .bridge = some ⟨save.sidecar, save⟩
  log : ∃ before, d.log = before ++ [.installed .marker save] ∧
    .installed .state save ∈ before ∧ .installed .bridge save ∈ before

/-- No marker, or one that stands for the pair of a known call. -/
def Armed (known : Save → Prop) (d : Disk) : Prop :=
  d.file .marker = none ∨ ∃ save, known save ∧ Published d save

/-- The answers that are possible. Where `strict`, a marker that stands can be removed. -/
def Allowed (strict : Prop) (d : Disk) (op : FileOp) (r : OpResult) : Prop :=
  d.possible op r = true ∧
    (strict → op = .remove .marker → r = .fails → d.file .marker = none)

/-- Work on some files, where no marker stands. -/
structure Beside (fs : List FileName) (d d' : Disk) : Prop where
  clear : d'.file .marker = none
  others : ∀ g ∉ fs, d'.file g = d.file g
  log : d.log <+: d'.log

/-- Such work that, where it succeeds, leaves a file as wanted. -/
def Wrote (fs : List FileName) (f : FileName) (e : File) (ok : Prop) (d d' : Disk) : Prop :=
  Beside fs d d' ∧ (ok → d'.file f = some e)

/-- Both payloads of a call are installed, and no marker stands. -/
structure Installed (d : Disk) (save : Save) : Prop where
  clear : d.file .marker = none
  state : d.file .state = some ⟨save.snapshot, save⟩
  bridge : d.file .bridge = some ⟨save.sidecar, save⟩
  state_log : .installed .state save ∈ d.log
  bridge_log : .installed .bridge save ∈ d.log

/-- A call that fails leaves no marker. -/
def Cleared (r : Ending) (d : Disk) : Prop := ∀ text, r = .error text → d.file .marker = none

/-- A call that succeeds has published its pair, and one that fails leaves no marker. -/
structure Saved (save : Save) (r : Ending) (d : Disk) : Prop where
  cleared : Cleared r d
  published : r = .ok () → Published d save

/-- How a call ends, whatever the directory was before. -/
structure Ended (strict : Prop) (known : Save → Prop) (r : Ending) (d : Disk) : Prop where
  cleared : strict → Cleared r d
  published : r = .ok () → ∃ save, known save ∧ Published d save

variable {c : SaveCall} {op : FileOp} {machine : Machine}

section Programs

variable {strict : Prop} {known : Save → Prop} {d d' : Disk} {save : Save} {f : FileName}
  {fs : List FileName} {bytes : List Byte}

/-- What holds of a program, whatever is answered. -/
abbrev Meets {α : Type} (strict : Prop) (known : Save → Prop) (p : Work α) (Q : α → Disk → Prop)
    (d : Disk) : Prop :=
  Holds (Allowed strict) Disk.after (Armed known) p Q d

theorem Beside.refl (h : d.file .marker = none) : Beside fs d d :=
  ⟨h, fun _ _ => rfl, List.prefix_refl _⟩

theorem Beside.trans {d'' : Disk} (h : Beside fs d d') (h' : Beside fs d' d'') : Beside fs d d'' :=
  ⟨h'.clear, fun g hg => (h'.others g hg).trans (h.others g hg), h.log.trans h'.log⟩

theorem update_other {file : FileName → Option File} {e : Option File} {g : FileName} (hf : f ∈ fs)
    (hg : g ∉ fs) : Function.update file f e g = file g :=
  Function.update_of_ne (ne_of_mem_of_not_mem hf hg).symm _ _

theorem armed_of_clear (h : d.file .marker = none) : Armed known d := .inl h

theorem after_fails (op : FileOp) : d.after op .fails = d := by
  cases op <;> rfl

theorem after_interrupted (op : FileOp) : d.after op .interrupted = d := by
  cases op <;> rfl

/-- A request, but for a write, is answered by success or failure. -/
theorem attempt_meets {op : FileOp} {Q : Bool → Disk → Prop} (hop : ∀ f bytes, op ≠ .write f bytes)
    (harmed : Armed known d)
    (hno : (strict → op = .remove .marker → d.file .marker = none) → Q false d)
    (hyes : d.possible op .succeeds = true → Armed known (d.after op .succeeds) ∧
      Q true (d.after op .succeeds)) : Meets strict known (attempt op) Q d := by
  refine ⟨harmed, fun r hr => ?_⟩
  have hfail : r = .fails → Holds (Allowed strict) Disk.after (Armed known)
      (.done (r == .succeeds)) Q (d.after op r) := by
    rintro rfl
    rw [after_fails]
    exact ⟨harmed, hno fun hs hremove => hr.2 hs hremove rfl⟩
  cases r with
  | succeeds => exact hyes hr.1
  | fails => exact hfail rfl
  | interrupted =>
    cases op with
    | write f bytes => exact absurd rfl (hop f bytes)
    | _ => exact absurd hr.1 Bool.false_ne_true
  | moves n =>
    cases op with
    | write f bytes => exact absurd rfl (hop f bytes)
    | _ => exact absurd hr.1 Bool.false_ne_true

/-- A request that leaves the directory as it is. -/
theorem attempt_idle (hop : ∀ f bytes, op ≠ .write f bytes) (hclear : d.file .marker = none)
    (hidle : d.after op .succeeds = d) :
    Meets strict known (attempt op) (fun _ d' => d = d') d :=
  attempt_meets hop (armed_of_clear hclear) (fun _ => rfl) fun _ => by
    rw [hidle]
    exact ⟨armed_of_clear hclear, rfl⟩

theorem idle_bind {β : Type} {k : Bool → Work β} {Q : β → Disk → Prop}
    (hop : ∀ f bytes, op ≠ .write f bytes) (hclear : d.file .marker = none)
    (hidle : d.after op .succeeds = d) (hk : ∀ ok, Meets strict known (k ok) Q d) :
    Meets strict known (attempt op >>= k) Q d :=
  (attempt_idle hop hclear hidle).bind fun ok _ h => h ▸ hk ok

theorem andAlso_meets {ok : Bool} {p : Work Bool} {Q : Bool → Disk → Prop}
    (hp : ok = true → Meets strict known p Q d) (harmed : Armed known d)
    (hno : ok ≠ true → Q false d) : Meets strict known (andAlso ok p) Q d := by
  rw [andAlso]
  exact .ite hp fun hnot => .pure harmed (hno hnot)

theorem andAlso_idle {ok : Bool} (hop : ∀ f bytes, op ≠ .write f bytes)
    (hclear : d.file .marker = none) (hidle : d.after op .succeeds = d) :
    Meets strict known (andAlso ok (attempt op)) (fun r d' => d = d' ∧ (r = true → ok = true)) d :=
  andAlso_meets (fun hok => (attempt_idle hop hclear hidle).weaken fun _ _ h => ⟨h, fun _ => hok⟩)
    (armed_of_clear hclear) fun _ => ⟨rfl, nofun⟩

/-- A file is removed where no marker stands. -/
theorem remove_meets (hf : f ∈ fs) (hfs : .marker ∉ fs) (hclear : d.file .marker = none) :
    Meets strict known (resumeRemoveIfPresent f) (fun _ d' => Beside fs d d') d := by
  have hafter : Beside fs d (d.after (.remove f) .succeeds) :=
    ⟨(update_other hf hfs).trans hclear, fun _ => update_other hf,
      List.prefix_append _ _⟩
  exact attempt_meets nofun (armed_of_clear hclear) (fun _ => .refl hclear) fun _ =>
    ⟨armed_of_clear hafter.clear, hafter⟩

theorem beside_write (hf : f ∈ fs) (hfs : .marker ∉ fs) (hclear : d.file .marker = none)
    (bytes : List Byte) (n : Nat) : Beside fs d (d.after (.write f bytes) (.moves n)) :=
  ⟨(update_other hf hfs).trans hclear, fun _ => update_other hf,
    List.prefix_refl _⟩

theorem file_write {done : Nat} (hfile : d.file f = some ⟨bytes.take done, save⟩) (n : Nat) :
    (d.after (.write f (bytes.drop done)) (.moves n)).file f =
      some ⟨bytes.take (done + n), save⟩ := by
  have hnew : (d.after (.write f (bytes.drop done)) (.moves n)).file f =
      (d.file f).map fun e => { e with bytes := e.bytes ++ (bytes.drop done).take n } :=
    Function.update_self _ _ _
  rw [hnew, hfile, Option.map_some, List.take_add]

/-- What `resume_write_all` has written. -/
theorem resumeWriteAll_meets (hf : f ∈ fs) (hfs : .marker ∉ fs) (done noProgress : Nat)
    (hdone : done ≤ bytes.length) (hclear : d.file .marker = none)
    (hfile : d.file f = some ⟨bytes.take done, save⟩) :
    Meets strict known (resumeWriteAll f bytes done noProgress)
      (fun ok => Wrote fs f ⟨bytes, save⟩ (ok = true) d) d := by
  fun_induction resumeWriteAll f bytes done noProgress generalizing d with
  | case1 done noProgress hmore ih₁ ih₂ =>
    have hrefused : Meets strict known (.done false)
        (fun ok => Wrote fs f ⟨bytes, save⟩ (ok = true) d) d :=
      .pure (armed_of_clear hclear) ⟨.refl hclear, nofun⟩
    refine ⟨armed_of_clear hclear, fun r hr => ?_⟩
    cases r with
    | moves n =>
      have hn : n ≤ bytes.length - done := by
        have hle := of_decide_eq_true hr.1
        rwa [List.length_drop] at hle
      have hwritten := beside_write hf hfs hclear (bytes.drop done) n
      refine .ite (fun hpos => ?_) fun _ =>
        .pure (armed_of_clear hwritten.clear) ⟨hwritten, nofun⟩
      exact (ih₁ n hpos (by omega) hwritten.clear (file_write hfile n)).weaken
        fun _ _ hend => ⟨hwritten.trans hend.1, hend.2⟩
    | interrupted =>
      rw [after_interrupted]
      exact ih₂ hdone hclear hfile
    | fails =>
      rw [after_fails]
      exact hrefused
    | succeeds => exact absurd hr.1 Bool.false_ne_true
  | case2 done noProgress hend =>
    refine .pure (armed_of_clear hclear) ⟨.refl hclear, fun hall => ?_⟩
    rw [hfile, eq_of_beq hall, List.take_length]

/-- A file is created, or emptied, where no marker stands. -/
theorem create_meets (hf : f ∈ fs) (hfs : .marker ∉ fs) (hclear : d.file .marker = none) :
    Meets strict known (attempt (.create f save)) (fun ok =>
      Wrote fs f ⟨[], save⟩ (ok = true) d) d := by
  have hafter : Beside fs d (d.after (.create f save) .succeeds) :=
    ⟨(update_other hf hfs).trans hclear, fun _ => update_other hf,
      List.prefix_refl _⟩
  exact attempt_meets nofun (armed_of_clear hclear) (fun _ => ⟨.refl hclear, nofun⟩) fun _ =>
    ⟨armed_of_clear hafter.clear, hafter, fun _ => Function.update_self _ _ _⟩

/-- What `resume_write_durable` leaves: the file alone has changed, and is whole on success. -/
theorem resumeWriteDurable_meets (hf : f ∈ fs) (hfs : .marker ∉ fs)
    (hclear : d.file .marker = none) : Meets strict known (resumeWriteDurable f bytes save)
      (fun ok => Wrote fs f ⟨bytes, save⟩ (ok = true) d) d := by
  rw [resumeWriteDurable]
  refine .either (.pure (armed_of_clear hclear) ⟨.refl hclear, nofun⟩) ?_
  refine (create_meets hf hfs hclear).bind fun opened d₁ ⟨h₁, hcreated⟩ => ?_
  refine .ite (fun hopened => ?_) fun _ => .pure (armed_of_clear h₁.clear) ⟨h₁, nofun⟩
  refine (resumeWriteAll_meets hf hfs 0 0 (Nat.zero_le _) h₁.clear (hcreated hopened)).bind
    fun written d₂ ⟨h₂, hwritten⟩ => ?_
  have hsync : Meets strict known (andAlso written (attempt (.sync f)))
      (fun synced d' => d₂ = d' ∧ (synced = true → written = true)) d₂ :=
    andAlso_idle nofun h₂.clear rfl
  refine hsync.bind ?_
  rintro synced _ ⟨rfl, hsynced⟩
  refine idle_bind nofun h₂.clear rfl fun closed => ?_
  have h := h₁.trans h₂
  refine .ite (fun hok => ?_) fun _ => ?_
  · exact .pure (armed_of_clear h.clear)
      ⟨h, fun _ => hwritten (hsynced (Bool.and_eq_true_iff.1 hok).1)⟩
  · exact (remove_meets hf hfs h.clear).bind fun _ _ h₃ =>
      .pure (armed_of_clear h₃.clear) ⟨h.trans h₃, nofun⟩

theorem resumeSyncExisting_meets (hclear : d.file .marker = none) :
    Meets strict known (resumeSyncExisting f) (fun _ d' => d = d') d := by
  rw [resumeSyncExisting]
  refine idle_bind nofun hclear rfl fun opened => ?_
  refine .either ?_ <| .pure (armed_of_clear hclear) rfl
  refine idle_bind nofun hclear rfl fun synced => ?_
  refine idle_bind nofun hclear rfl fun closed => ?_
  exact .pure (armed_of_clear hclear) rfl

/-- A file takes the name of another where no marker stands. -/
theorem resumeReplace_meets {g : FileName} (hf : f ∈ fs) (hg : g ∈ fs) (hfs : .marker ∉ fs)
    (hne : g ≠ f) (hclear : d.file .marker = none) (hfile : d.file f = some ⟨bytes, save⟩) :
    Meets strict known (resumeReplace f g) (fun ok d' => Beside fs d d' ∧ (ok = true →
      d'.file g = some ⟨bytes, save⟩ ∧ .installed g save ∈ d'.log)) d := by
  have hafter : d.after (.rename f g) .succeeds =
      ⟨Function.update (Function.update d.file g (some ⟨bytes, save⟩)) f none,
        d.log ++ [.installed g save]⟩ := by
    rw [Disk.after, hfile]
  have hothers (k : FileName) (hk : k ∉ fs) :
      (d.after (.rename f g) .succeeds).file k = d.file k := by
    rw [hafter]
    exact (update_other hf hk).trans (update_other hg hk)
  have hbeside : Beside fs d (d.after (.rename f g) .succeeds) :=
    ⟨(hothers _ hfs).trans hclear, hothers, by
      rw [hafter]
      exact List.prefix_append _ _⟩
  refine attempt_meets nofun (armed_of_clear hclear) (fun _ => ⟨.refl hclear, nofun⟩) fun _ =>
    ⟨armed_of_clear hbeside.clear, hbeside, fun _ => ?_⟩
  rw [hafter]
  exact ⟨(Function.update_of_ne hne _ _).trans (Function.update_self _ _ _),
    List.mem_append_right _ (List.mem_singleton_self _)⟩

theorem error_meets {e : SnapshotError} {content : File} (h : Beside fs d d') :
    Meets strict known (.done (.error e))
      (fun r : Except SnapshotError Unit => Wrote fs f content (r = .ok ()) d) d' :=
  .pure (armed_of_clear h.clear) ⟨h, nofun⟩

/-- What `snap_write` has written, piece by piece. -/
theorem snapWrite_meets (hf : .stateTemp ∈ fs) (hfs : .marker ∉ fs) (done : Nat)
    (hclear : d.file .marker = none)
    (hfile : d.file .stateTemp = some ⟨bytes.take done, save⟩) :
    Meets strict known (snapWrite bytes done)
      (fun r => Wrote fs .stateTemp ⟨bytes, save⟩ (r = .ok ()) d) d := by
  fun_induction snapWrite bytes done generalizing d with
  | case1 done hmore ih =>
    refine ⟨armed_of_clear hclear, fun r hr => ?_⟩
    have hpiece : Meets strict known (.call (.write .stateTemp (bytes.drop done)) fun
        | .moves n => if 0 < n then snapWrite bytes (done + n) else .done (.error .io)
        | _ => .done (.error .io))
        (fun r => Wrote fs .stateTemp ⟨bytes, save⟩ (r = .ok ()) d) d := by
      refine ⟨armed_of_clear hclear, fun r hr => ?_⟩
      cases r with
      | moves n =>
        have hwritten := beside_write hf hfs hclear (bytes.drop done) n
        refine .ite (fun hpos => ?_) fun _ =>
          .pure (armed_of_clear hwritten.clear) ⟨hwritten, nofun⟩
        exact (ih n hpos hwritten.clear (file_write hfile n)).weaken
          fun _ _ hend => ⟨hwritten.trans hend.1, hend.2⟩
      | interrupted =>
        rw [after_interrupted]
        exact error_meets (.refl hclear)
      | fails =>
        rw [after_fails]
        exact error_meets (.refl hclear)
      | succeeds => exact absurd hr.1 Bool.false_ne_true
    cases r with
    | succeeds => exact error_meets (.refl hclear)
    | fails => exact hpiece
    | interrupted => exact absurd hr.1 Bool.false_ne_true
    | moves n => exact absurd hr.1 Bool.false_ne_true
  | case2 done hend =>
    refine .pure (armed_of_clear hclear) ⟨.refl hclear, fun _ => ?_⟩
    rw [hfile, List.take_of_length_le (Nat.le_of_not_lt hend)]

/-- The end of `snapshot_save_cancellable`. -/
theorem snapshotFinish_meets {written : Except SnapshotError Unit} (hf : .stateTemp ∈ fs)
    (hg : .statePartial ∈ fs) (hfs : .marker ∉ fs) (hclear : d.file .marker = none)
    (hfile : written = .ok () → d.file .stateTemp = some ⟨bytes, save⟩) :
    Meets strict known (snapshotFinish written)
      (fun r => Wrote fs .statePartial ⟨bytes, save⟩ (r = .ok ()) d) d := by
  rw [snapshotFinish.eq_def]
  refine idle_bind nofun hclear rfl fun closed => ?_
  have hreplace : Meets strict known
      (andAlso (written.isOk && closed) (resumeReplace .stateTemp .statePartial))
      (fun ok => Wrote fs .statePartial ⟨bytes, save⟩ (ok = true) d) d := by
    refine andAlso_meets (fun hok => ?_) (armed_of_clear hclear) fun _ => ⟨.refl hclear, nofun⟩
    cases written with
    | error e => exact absurd hok Bool.false_ne_true
    | ok _ =>
      exact (resumeReplace_meets hf hg hfs nofun hclear (hfile rfl)).weaken
        fun _ _ h => ⟨h.1, fun hok => (h.2 hok).1⟩
  refine hreplace.bind fun replaced d₁ ⟨h₁, hwhole⟩ => ?_
  refine .ite (fun hok => .pure (armed_of_clear h₁.clear) ⟨h₁, fun _ => hwhole hok⟩) fun _ => ?_
  refine (remove_meets hf hfs h₁.clear).bind fun _ d₂ h₂ => ?_
  cases written with
  | error e => exact error_meets (h₁.trans h₂)
  | ok _ => exact error_meets (h₁.trans h₂)

/-- What `snapshot_save_cancellable` leaves: the partial state file is whole on success. -/
theorem snapshotSave_meets (hf : .stateTemp ∈ fs) (hg : .statePartial ∈ fs) (hfs : .marker ∉ fs)
    (hclear : d.file .marker = none) :
    Meets strict known (snapshotSave machine save)
      (fun r => Wrote fs .statePartial ⟨save.snapshot, save⟩ (r = .ok ()) d) d := by
  rw [snapshotSave]
  refine .either ?_ <| error_meets (.refl hclear)
  refine idle_bind nofun hclear rfl fun named => ?_
  refine .either ?_ <| error_meets (.refl hclear)
  refine (create_meets hf hfs hclear).bind fun opened d₁ ⟨h₁, hcreated⟩ => ?_
  refine .ite (fun hopened => ?_) fun _ => error_meets h₁
  refine (snapWrite_meets hf hfs 0 h₁.clear (hcreated hopened)).bind
    fun written d₂ ⟨h₂, hwritten⟩ => ?_
  exact (snapshotFinish_meets hf hg hfs h₂.clear hwritten).weaken
    fun _ _ hend => ⟨(h₁.trans h₂).trans hend.1, hend.2⟩

theorem Installed.beside (h : Installed d save) (hd : Beside fs d d') (hs : .state ∉ fs)
    (hb : .bridge ∉ fs) : Installed d' save :=
  ⟨hd.clear, (hd.others _ hs).trans h.state, (hd.others _ hb).trans h.bridge,
    hd.log.subset h.state_log, hd.log.subset h.bridge_log⟩

theorem ending_meets {text : String} (hclear : d.file .marker = none) :
    Meets strict known (pure (.error text)) (Saved save) d :=
  .pure (armed_of_clear hclear) ⟨fun _ _ => hclear, nofun⟩

theorem discard_meets {text : String} (hclear : d.file .marker = none) :
    Meets strict known (discard text) (Saved save) d := by
  rw [discard]
  have hs : FileName.statePartial ∈ [FileName.statePartial, .bridgePartial] := by decide
  have hb : FileName.bridgePartial ∈ [FileName.statePartial, .bridgePartial] := by decide
  refine (remove_meets hs (by decide) hclear).bind fun _ _ h₁ => ?_
  exact (remove_meets hb (by decide) h₁.clear).bind fun _ _ h₂ => ending_meets h₂.clear

/-- The marker takes its name, after both payloads have taken theirs. -/
theorem publishMarker_meets (hi : Installed d save) (hknown : known save)
    (hfile : d.file .markerPartial = some ⟨request, save⟩) :
    Meets strict known (resumeReplace .markerPartial .marker)
      (fun ok d' => (ok = true → Published d' save) ∧ (ok ≠ true → Installed d' save)) d := by
  have hafter : d.after (.rename .markerPartial .marker) .succeeds =
      ⟨Function.update (Function.update d.file .marker (some ⟨request, save⟩)) .markerPartial none,
        d.log ++ [.installed .marker save]⟩ := by
    rw [Disk.after, hfile]
  have hpublished : Published (d.after (.rename .markerPartial .marker) .succeeds) save := by
    rw [hafter]
    exact ⟨rfl, hi.state, hi.bridge, d.log, rfl, hi.state_log, hi.bridge_log⟩
  exact attempt_meets nofun (armed_of_clear hi.clear) (fun _ => ⟨nofun, fun _ => hi⟩) fun _ =>
    ⟨.inr ⟨save, hknown, hpublished⟩, fun _ => hpublished, absurd rfl⟩

theorem publish_meets (hi : Installed d save) (hknown : known save) :
    Meets strict known (publish save) (Saved save) d := by
  rw [publish]
  refine idle_bind nofun hi.clear rfl fun cancelled => ?_
  refine .either (ending_meets hi.clear) ?_
  have hmem : FileName.markerPartial ∈ [FileName.markerPartial] := by decide
  refine (resumeWriteDurable_meets hmem (by decide) hi.clear).bind fun written d₁ ⟨h₁, hw⟩ => ?_
  have hi₁ := hi.beside h₁ (by decide) (by decide)
  have hreplace : Meets strict known (andAlso written (resumeReplace .markerPartial .marker))
      (fun ok d' => (ok = true → Published d' save) ∧ (ok ≠ true → Installed d' save)) d₁ :=
    andAlso_meets (fun hok => publishMarker_meets hi₁ hknown (hw hok)) (armed_of_clear h₁.clear)
      fun _ => ⟨nofun, fun _ => hi₁⟩
  refine hreplace.bind fun replaced d₂ ⟨hdone, hleft⟩ => ?_
  refine .ite (fun hok => ?_) fun hno => ?_
  · exact .pure (.inr ⟨save, hknown, hdone hok⟩) ⟨nofun, fun _ => hdone hok⟩
  · exact (remove_meets hmem (by decide) (hleft hno).clear).bind
      fun _ _ h₃ => ending_meets h₃.clear

/-- Both payloads take their names, and the marker after them. -/
theorem install_meets (hclear : d.file .marker = none) (hknown : known save)
    (hs : d.file .statePartial = some ⟨save.snapshot, save⟩)
    (hb : d.file .bridgePartial = some ⟨save.sidecar, save⟩) :
    Meets strict known (install save) (Saved save) d := by
  rw [install]
  have hbridge : Meets strict known (resumeReplace .bridgePartial .bridge) (fun ok d' =>
      Beside [.bridgePartial, .bridge] d d' ∧ (ok = true →
        d'.file .bridge = some ⟨save.sidecar, save⟩ ∧ .installed .bridge save ∈ d'.log)) d :=
    resumeReplace_meets (by decide) (by decide) (by decide) nofun hclear hb
  refine hbridge.bind fun bridge d₁ ⟨h₁, hb₁⟩ => ?_
  have hs₁ : d₁.file .statePartial = some ⟨save.snapshot, save⟩ :=
    (h₁.others _ (by decide)).trans hs
  have hstate : Meets strict known (andAlso bridge (resumeReplace .statePartial .state))
      (fun ok d' => d'.file .marker = none ∧ (ok = true → Installed d' save)) d₁ := by
    refine andAlso_meets (fun hok => ?_) (armed_of_clear h₁.clear) fun _ => ⟨h₁.clear, nofun⟩
    have hfs : FileName.state ∈ [FileName.statePartial, .state] := by decide
    have hreplace : Meets strict known (resumeReplace .statePartial .state) (fun ok d' =>
        Beside [.statePartial, .state] d₁ d' ∧ (ok = true →
          d'.file .state = some ⟨save.snapshot, save⟩ ∧ .installed .state save ∈ d'.log)) d₁ :=
      resumeReplace_meets (by decide) hfs (by decide) nofun h₁.clear hs₁
    exact hreplace.weaken fun _ _ ⟨h₂, hs₂⟩ => ⟨h₂.clear, fun ok => ⟨h₂.clear, (hs₂ ok).1,
      (h₂.others _ (by decide)).trans (hb₁ hok).1, (hs₂ ok).2, h₂.log.subset (hb₁ hok).2⟩⟩
  refine hstate.bind fun state d₂ ⟨hclear₂, hi⟩ => ?_
  exact .ite (fun hok => publish_meets (hi hok) hknown) fun _ => discard_meets hclear₂

theorem writePayloads_meets (hclear : d.file .marker = none) (hknown : known save) :
    Meets strict known (writePayloads machine save) (Saved save) d := by
  rw [writePayloads.eq_def]
  have hb : FileName.bridgePartial ∈ [FileName.bridgePartial] := by decide
  refine (resumeWriteDurable_meets hb (by decide) hclear).bind fun bridge d₁ ⟨h₁, hb₁⟩ => ?_
  refine .ite (fun hok => ?_) fun _ => ending_meets h₁.clear
  have hsave : Meets strict known (snapshotSave machine save)
      (fun r => Wrote [.stateTemp, .statePartial] .statePartial ⟨save.snapshot, save⟩
        (r = .ok ()) d₁) d₁ :=
    snapshotSave_meets (by decide) (by decide) (by decide) h₁.clear
  refine hsave.bind fun saved d₂ ⟨h₂, hs₂⟩ => ?_
  cases saved with
  | error e => exact discard_meets h₂.clear
  | ok _ =>
    refine idle_bind nofun h₂.clear rfl fun cancelled => ?_
    have hsync : Meets strict known (andAlso (!cancelled) (resumeSyncExisting .statePartial))
        (fun _ d' => d₂ = d') d₂ :=
      andAlso_meets (fun _ => resumeSyncExisting_meets h₂.clear) (armed_of_clear h₂.clear)
        fun _ => rfl
    refine hsync.bind ?_
    rintro durable _ rfl
    refine .either ?_ <| discard_meets h₂.clear
    exact install_meets h₂.clear hknown (hs₂ rfl) ((h₂.others _ (by decide)).trans (hb₁ hok))

theorem removeMarker_meets (harmed : Armed known d) :
    Meets strict known (resumeRemoveIfPresent .marker) (fun ok d' => Armed known d' ∧
      (ok = true → d'.file .marker = none) ∧ (strict → d'.file .marker = none)) d :=
  attempt_meets nofun harmed (fun hkept => ⟨harmed, nofun, fun hs => hkept hs rfl⟩) fun _ =>
    ⟨.inl rfl, .inl rfl, fun _ => rfl, fun _ => rfl⟩

/-- Wherever a call is interrupted, a marker stands for a pair of one call. -/
theorem save_holds {c : SaveCall} {number : Nat} (harmed : Armed known d)
    (hknown : ∀ machine sidecar, refusal c = .ok (machine, sidecar) →
      known ⟨number, machine.snapshot, sidecar.bytes⟩)
    (hrefused : strict → ∀ text, refusal c = .error text → d.file .marker = none) :
    Meets strict known (saveCancellable c number) (Ended strict known) d := by
  rw [saveCancellable.eq_def]
  cases hc : refusal c with
  | error text => exact .pure harmed ⟨fun hs _ _ => hrefused hs text hc, nofun⟩
  | ok given =>
    refine (removeMarker_meets harmed).bind fun marker d₁ ⟨harmed₁, hclear, hstrict⟩ => ?_
    have hpartial : Meets strict known (andAlso marker (resumeRemoveIfPresent .markerPartial))
        (fun ok d' => Armed known d' ∧ (ok = true → d'.file .marker = none) ∧
          (strict → d'.file .marker = none)) d₁ := by
      refine andAlso_meets (fun hok => ?_) harmed₁ fun _ => ⟨harmed₁, nofun, hstrict⟩
      have hmem : FileName.markerPartial ∈ [FileName.markerPartial] := by decide
      exact (remove_meets hmem (by decide) (hclear hok)).weaken fun _ _ h₂ =>
        ⟨armed_of_clear h₂.clear, fun _ => h₂.clear, fun _ => h₂.clear⟩
    refine hpartial.bind fun cleared d₂ ⟨harmed₂, hclear₂, hstrict₂⟩ => ?_
    refine .ite (fun hok => ?_) fun _ => .pure harmed₂ ⟨fun hs _ _ => hstrict₂ hs, nofun⟩
    exact (writePayloads_meets (hclear₂ hok) (hknown _ _ hc)).weaken
      fun _ _ h => ⟨fun _ => h.cleared, fun hr => ⟨_, hknown _ _ hc, h.published hr⟩⟩

/-! ### A call that nothing hinders -/

/-- What may come about. -/
abbrev Can {α : Type} (strict : Prop) (p : Work α) (Q : α → Disk → Prop) (d : Disk) : Prop :=
  May (Allowed strict) Disk.after p Q d

theorem attempt_can (h : d.possible op .succeeds = true) :
    Can strict (attempt op) (fun ok _ => ok = true) d :=
  ⟨.succeeds, ⟨h, fun _ _ => nofun⟩, rfl⟩

theorem uncancelled_can : Can strict (attempt .cancelled) (fun cancelled d' => cancelled = false ∧
    d = d') d :=
  ⟨.fails, ⟨rfl, fun _ => nofun⟩, rfl, rfl⟩

/-- All is written in one piece. -/
theorem resumeWriteAll_can : Can strict (resumeWriteAll f bytes 0 0) (fun ok _ => ok = true) d := by
  rw [resumeWriteAll]
  split
  · rename_i hmore
    refine ⟨.moves bytes.length, ⟨decide_eq_true (Nat.le_refl _), fun _ => nofun⟩, ?_⟩
    dsimp only
    rw [if_pos hmore.1, Nat.zero_add, resumeWriteAll, if_neg fun h => Nat.lt_irrefl _ h.1]
    exact BEq.rfl
  · rename_i hend
    have hnil : 0 = bytes.length := by
      have hretries : 0 < writeRetries := by decide
      omega
    exact beq_iff_eq.2 hnil

theorem resumeWriteDurable_can (hbytes : bytes ≠ []) :
    Can strict (resumeWriteDurable f bytes save) (fun ok _ => ok = true) d := by
  rw [resumeWriteDurable, if_neg fun h => hbytes (List.eq_nil_of_length_eq_zero h)]
  refine (attempt_can rfl).bind ?_
  rintro _ d₁ rfl
  refine resumeWriteAll_can.bind ?_
  rintro _ d₂ rfl
  refine (attempt_can rfl).bind ?_
  rintro _ d₃ rfl
  refine (attempt_can rfl).bind ?_
  rintro _ d₄ rfl
  exact rfl

theorem snapWrite_can : Can strict (snapWrite bytes 0) (fun r _ => r = .ok ()) d := by
  rw [snapWrite]
  split
  · rename_i hmore
    refine ⟨.fails, ⟨rfl, fun _ => nofun⟩, ?_⟩
    refine ⟨.moves bytes.length, ⟨decide_eq_true (Nat.le_refl _), fun _ => nofun⟩, ?_⟩
    dsimp only
    rw [if_pos hmore, Nat.zero_add, snapWrite, if_neg (Nat.lt_irrefl _)]
    exact rfl
  · exact rfl

theorem resumeReplace_can {g : FileName} {e : File} (hfile : d.file f = some e) :
    Can strict (resumeReplace f g) (fun ok _ => ok = true) d :=
  attempt_can (Option.isSome_of_eq_some hfile)

theorem openExisting_can {e : File} (hfile : d.file f = some e) :
    Can strict (attempt (.openExisting f)) (fun ok _ => ok = true) d :=
  attempt_can (Option.isSome_of_eq_some hfile)

theorem snapshotSave_can (hvalid : machine.valid = true) (hclear : d.file .marker = none) :
    Can strict (snapshotSave machine save) (fun r _ => r = .ok ()) d := by
  rw [snapshotSave, if_pos hvalid]
  have hname : Meets strict (fun _ => True) (attempt .allocate) (fun _ d' => d = d') d :=
    attempt_idle nofun hclear rfl
  refine ((attempt_can rfl).and_holds hname).bind ?_
  rintro _ _ ⟨rfl, rfl⟩
  have hcreate : Meets strict (fun _ => True) (attempt (.create .stateTemp save))
      (fun ok => Wrote [.stateTemp] .stateTemp ⟨[], save⟩ (ok = true) d) d :=
    create_meets (by decide) (by decide) hclear
  refine ((attempt_can rfl).and_holds hcreate).bind ?_
  rintro _ d₁ ⟨rfl, h₁, hcreated⟩
  have hwrite : Meets strict (fun _ => True) (snapWrite save.snapshot 0)
      (fun r => Wrote [.stateTemp] .stateTemp ⟨save.snapshot, save⟩ (r = .ok ()) d₁) d₁ :=
    snapWrite_meets (by decide) (by decide) 0 h₁.clear (hcreated rfl)
  refine (snapWrite_can.and_holds hwrite).bind ?_
  rintro _ d₂ ⟨rfl, h₂, hwritten⟩
  have hclose : Meets strict (fun _ => True) (attempt (.close .stateTemp)) (fun _ d' => d₂ = d')
      d₂ := attempt_idle nofun h₂.clear rfl
  refine ((attempt_can rfl).and_holds hclose).bind ?_
  rintro _ _ ⟨rfl, rfl⟩
  refine (resumeReplace_can (hwritten rfl)).bind ?_
  rintro _ d₃ rfl
  exact rfl

theorem resumeSyncExisting_can (hfile : d.file f = some ⟨bytes, save⟩) :
    Can strict (resumeSyncExisting f) (fun ok _ => ok = true) d := by
  rw [resumeSyncExisting]
  refine (openExisting_can hfile).bind ?_
  rintro _ d₁ rfl
  refine (attempt_can rfl).bind ?_
  rintro _ d₂ rfl
  refine (attempt_can rfl).bind ?_
  rintro _ d₃ rfl
  exact rfl

theorem publish_can (hi : Installed d save) :
    Can strict (publish save) (fun r _ => r = .ok ()) d := by
  rw [publish]
  refine uncancelled_can.bind ?_
  rintro _ _ ⟨rfl, rfl⟩
  have hmem : FileName.markerPartial ∈ [FileName.markerPartial] := by decide
  have hmeets : Meets strict (fun _ => True) (resumeWriteDurable .markerPartial request save)
      (fun ok => Wrote [.markerPartial] .markerPartial ⟨request, save⟩ (ok = true) d) d :=
    resumeWriteDurable_meets hmem (by decide) hi.clear
  refine ((resumeWriteDurable_can (by decide)).and_holds hmeets).bind ?_
  rintro _ d₁ ⟨rfl, _, hfile⟩
  refine (resumeReplace_can (hfile rfl)).bind ?_
  rintro _ d₂ rfl
  exact rfl

theorem install_can (hclear : d.file .marker = none)
    (hs : d.file .statePartial = some ⟨save.snapshot, save⟩)
    (hb : d.file .bridgePartial = some ⟨save.sidecar, save⟩) :
    Can strict (install save) (fun r _ => r = .ok ()) d := by
  rw [install]
  have hbridge : Meets strict (fun _ => True) (resumeReplace .bridgePartial .bridge) (fun ok d' =>
      Beside [.bridgePartial, .bridge] d d' ∧ (ok = true →
        d'.file .bridge = some ⟨save.sidecar, save⟩ ∧ .installed .bridge save ∈ d'.log)) d :=
    resumeReplace_meets (by decide) (by decide) (by decide) nofun hclear hb
  refine ((resumeReplace_can hb).and_holds hbridge).bind ?_
  rintro _ d₁ ⟨rfl, h₁, hb₁⟩
  have hs₁ : d₁.file .statePartial = some ⟨save.snapshot, save⟩ :=
    (h₁.others _ (by decide)).trans hs
  have hstate : Meets strict (fun _ => True) (resumeReplace .statePartial .state) (fun ok d' =>
      Beside [.statePartial, .state] d₁ d' ∧ (ok = true →
        d'.file .state = some ⟨save.snapshot, save⟩ ∧ .installed .state save ∈ d'.log)) d₁ :=
    resumeReplace_meets (by decide) (by decide) (by decide) nofun h₁.clear hs₁
  refine ((resumeReplace_can hs₁).and_holds hstate).bind ?_
  rintro _ d₂ ⟨rfl, h₂, hs₂⟩
  exact publish_can ⟨h₂.clear, (hs₂ rfl).1, (h₂.others _ (by decide)).trans (hb₁ rfl).1,
    (hs₂ rfl).2, h₂.log.subset (hb₁ rfl).2⟩

theorem writePayloads_can (hvalid : machine.valid = true) (hsidecar : save.sidecar ≠ [])
    (hclear : d.file .marker = none) :
    Can strict (writePayloads machine save) (fun r _ => r = .ok ()) d := by
  rw [writePayloads.eq_def]
  have hbridge : Meets strict (fun _ => True) (resumeWriteDurable .bridgePartial save.sidecar save)
      (fun ok => Wrote [.bridgePartial] .bridgePartial ⟨save.sidecar, save⟩ (ok = true) d) d :=
    resumeWriteDurable_meets (by decide) (by decide) hclear
  refine ((resumeWriteDurable_can hsidecar).and_holds hbridge).bind ?_
  rintro _ d₁ ⟨rfl, h₁, hb₁⟩
  have hstate : Meets strict (fun _ => True) (snapshotSave machine save)
      (fun r => Wrote [.stateTemp, .statePartial] .statePartial ⟨save.snapshot, save⟩
        (r = .ok ()) d₁) d₁ :=
    snapshotSave_meets (by decide) (by decide) (by decide) h₁.clear
  refine ((snapshotSave_can hvalid h₁.clear).and_holds hstate).bind ?_
  rintro _ d₂ ⟨rfl, h₂, hs₂⟩
  refine uncancelled_can.bind ?_
  rintro _ _ ⟨rfl, rfl⟩
  have hsync : Meets strict (fun _ => True) (resumeSyncExisting .statePartial)
      (fun _ d' => d₂ = d') d₂ := resumeSyncExisting_meets h₂.clear
  refine ((resumeSyncExisting_can (hs₂ rfl)).and_holds hsync).bind ?_
  rintro _ _ ⟨rfl, rfl⟩
  exact install_can h₂.clear (hs₂ rfl) ((h₂.others _ (by decide)).trans (hb₁ rfl))

/-- Whatever is in the directory, a call with a machine and a sidecar may arm its pair. -/
theorem save_can {number : Nat} {sidecar : Sidecar} (hc : refusal c = .ok (machine, sidecar))
    (hvalid : machine.valid = true) :
    Can strict (saveCancellable c number) (fun r _ => r = .ok ()) d := by
  rw [saveCancellable.eq_def, hc]
  refine ⟨.succeeds, ⟨rfl, fun _ _ => nofun⟩, .succeeds, ⟨rfl, fun _ _ => nofun⟩, ?_⟩
  refine writePayloads_can hvalid (fun hnil => ?_) rfl
  exact absurd ((congrArg List.length hnil).symm.trans sidecar.length) (by decide)

end Programs

namespace World

/-- What a call was given, and what it was to save. -/
def MadeBy (calls : List SaveCall) (save : Save) : Prop :=
  ∃ c machine sidecar, calls[save.number]? = some c ∧ refusal c = .ok (machine, sidecar) ∧
    save.snapshot = machine.snapshot ∧ save.sidecar = sidecar.bytes

/-- A marker that stands is let be cleared: no call is refused while it stands, and its removal
does not fail. -/
def Unforced (s : World) (a : WorldAction) : Prop :=
  match a, s.running with
  | .save c, none => ∀ text, refusal c = .error text → s.disk.file .marker = none
  | .answer .fails, some (.call (.remove .marker) _) => s.disk.file .marker = none
  | _, _ => True

/-- The invariant of runs. -/
structure Inv (strict : Prop) (s : World) : Prop where
  armed : Armed (MadeBy s.calls) s.disk
  going : ∀ p, s.running = some p →
    Meets strict (MadeBy s.calls) p (Ended strict (MadeBy s.calls)) s.disk
  busy : s.running ≠ none → s.returned = none
  ended : strict → ∀ r, s.returned = some r → Cleared r s.disk

variable {strict : Prop} {s : World}

/-- A call that goes on, or comes to its end. -/
theorem Inv.settle {p : Work Ending} (hreturned : s.returned = none)
    (hp : Meets strict (MadeBy s.calls) p (Ended strict (MadeBy s.calls)) s.disk) :
    Inv strict (s.settle p) := by
  cases p with
  | done e =>
    exact ⟨hp.now, nofun, absurd rfl, fun hs _ hr => Option.some.inj hr ▸ hp.2.cleared hs⟩
  | call op k =>
    refine ⟨hp.now, fun _ hr => Option.some.inj hr ▸ hp, fun _ => hreturned, fun _ r hr => ?_⟩
    exact absurd (hreturned.symm.trans hr) nofun

theorem armed_mono {known known' : Save → Prop} {d : Disk} (h : Armed known d)
    (hmono : ∀ save, known save → known' save) : Armed known' d :=
  h.imp_right fun ⟨save, hknown, hp⟩ => ⟨save, hmono save hknown, hp⟩

theorem madeBy_append {calls : List SaveCall} {save : Save} (h : MadeBy calls save) :
    MadeBy (calls ++ [c]) save := by
  obtain ⟨c', machine, sidecar, hc, hrest⟩ := h
  have hlt := (List.getElem?_eq_some_iff.1 hc).1
  exact ⟨c', machine, sidecar, (List.getElem?_append_left hlt).trans hc, hrest⟩

theorem Inv.save (h : Inv strict s)
    (hok : strict → ∀ text, refusal c = .error text → s.disk.file .marker = none) :
    Inv strict ({ s with calls := s.calls ++ [c], returned := none }.settle
      (saveCancellable c s.calls.length)) :=
  .settle rfl (save_holds (armed_mono h.armed fun _ => madeBy_append)
    (fun machine sidecar hc => ⟨c, machine, sidecar, List.getElem?_concat_length, hc, rfl, rfl⟩)
    hok)

theorem Inv.answer {k : OpResult → Work Ending} {r : OpResult} (h : Inv strict s)
    (hrun : s.running = some (.call op k)) (hr : Allowed strict s.disk op r) :
    Inv strict ({ s with disk := s.disk.after op r }.settle (k r)) :=
  .settle (h.busy (hrun ▸ nofun)) ((h.going _ hrun).2 r hr)

theorem Inv.disarm {r : OpResult} (h : Inv strict s) (hrun : s.running = none)
    (hr : s.disk.possible (.remove .marker) r = true) :
    Inv strict { s with disk := s.disk.after (.remove .marker) r } := by
  have hkept (hsame : s.disk.after (.remove .marker) r = s.disk) :
      Inv strict { s with disk := s.disk.after (.remove .marker) r } := by
    rw [hsame]
    exact h
  cases r with
  | succeeds =>
    exact ⟨.inl rfl, fun p hp => absurd (hrun.symm.trans hp) nofun, fun hbusy => absurd hrun hbusy,
      fun _ _ _ _ _ => rfl⟩
  | fails => exact hkept rfl
  | interrupted => exact hkept rfl
  | moves n => exact hkept rfl

theorem Inv.die (h : Inv strict s) : Inv strict { s with running := none } :=
  ⟨h.armed, nofun, absurd rfl, h.ended⟩

theorem step_answer {disk : Disk} {k : OpResult → Work Ending} {calls : List SaveCall}
    {returned : Option Ending} {r : OpResult} :
    step (.answer r) ⟨disk, some (.call op k), calls, returned⟩ =
      if disk.possible op r then
        settle ⟨disk.after op r, some (.call op k), calls, returned⟩ (k r)
      else ⟨disk, some (.call op k), calls, returned⟩ := rfl

/-- `vm_resume_checkpoint_disarm` does nothing, or unlinks the marker. -/
theorem step_disarm {disk : Disk} {calls : List SaveCall} {returned : Option Ending}
    (workDirectory : List Byte) (r : OpResult) :
    step (.disarm workDirectory r) ⟨disk, none, calls, returned⟩ = ⟨disk, none, calls, returned⟩ ∨
      disk.possible (.remove .marker) r = true ∧
        step (.disarm workDirectory r) ⟨disk, none, calls, returned⟩ =
          ⟨disk.after (.remove .marker) r, none, calls, returned⟩ := by
  cases hpath : resumePath workDirectory .marker with
  | none =>
    left
    simp only [step, Resume.disarm, hpath]
    rfl
  | some path =>
    by_cases hr : disk.possible (.remove .marker) r = true
    · refine .inr ⟨hr, ?_⟩
      simp only [step, Resume.disarm, hpath]
      exact if_pos hr
    · left
      simp only [step, Resume.disarm, hpath]
      exact if_neg hr

/-- A step keeps the invariant. -/
theorem Inv.step {a : WorldAction} (h : Inv strict s) (hok : strict → Unforced s a) :
    Inv strict (s.step a) := by
  obtain ⟨disk, running, calls, returned⟩ := s
  cases a with
  | save c =>
    cases running with
    | none => exact h.save hok
    | some p => exact h
  | answer r =>
    cases running with
    | none => exact h
    | some p =>
      cases p with
      | done e => exact h
      | call op k =>
        rw [step_answer]
        split
        · refine h.answer rfl ⟨‹_›, fun hs hop hfails => ?_⟩
          subst hop hfails
          exact hok hs
        · exact h
  | die => exact h.die
  | disarm workDirectory r =>
    cases running with
    | some p => exact h
    | none =>
      obtain hsame | ⟨hr, hnext⟩ := step_disarm workDirectory r
      · rw [hsame]
        exact h
      · rw [hnext]
        exact h.disarm rfl hr

theorem inv_start : Inv strict start :=
  ⟨.inl rfl, nofun, absurd rfl, nofun⟩

/-- What a call may come to, a run may. -/
theorem run_can {p : Work Ending} {Q : Ending → Disk → Prop} (hp : Can True p Q s.disk)
    (run : Run step Unforced start (s.settle p)) :
    ∃ s', Run step Unforced start s' ∧ s'.running = none ∧ s'.calls = s.calls ∧
      ∃ r, s'.returned = some r ∧ Q r s'.disk := by
  induction p generalizing s with
  | done e => exact ⟨_, run, rfl, rfl, e, rfl, hp⟩
  | call op k ih =>
    obtain ⟨r, ⟨hpossible, hkept⟩, hend⟩ := hp
    have hok : Unforced (s.settle (.call op k)) (.answer r) := by
      rw [Unforced.eq_def]
      split
      · rename_i hanswer _
        cases hanswer
      · rename_i hanswer hrunning
        cases hanswer
        cases hrunning
        exact hkept trivial rfl rfl
      · trivial
    have hnext := run.next (.answer r) hok
    have hstep : step (.answer r) (s.settle (.call op k)) =
        settle ⟨s.disk.after op r, some (.call op k), s.calls, s.returned⟩ (k r) :=
      step_answer.trans (if_pos hpossible)
    rw [hstep] at hnext
    exact ih r (s := ⟨s.disk.after op r, some (.call op k), s.calls, s.returned⟩) hend hnext

theorem step_save (hidle : s.running = none) :
    step (.save c) s = { s with calls := s.calls ++ [c], returned := none }.settle
      (saveCancellable c s.calls.length) := by
  obtain ⟨disk, running, calls, returned⟩ := s
  subst hidle
  rfl

/-- Whatever a run has left, a call with a machine and a sidecar may arm its pair. -/
theorem save_arms {sidecar : Sidecar} (run : Run step Unforced start s) (hidle : s.running = none)
    (hc : refusal c = .ok (machine, sidecar)) (hvalid : machine.valid = true) :
    ∃ s', Run step Unforced start s' ∧ s'.running = none ∧ s'.calls = s.calls ++ [c] ∧
      s'.returned = some (.ok ()) ∧ ∃ save, MadeBy s'.calls save ∧ Published s'.disk save := by
  have hinv := run.keeps (I := Inv True) (fun _ _ hok h => h.step fun _ => hok) inv_start
  have hrefused : True → ∀ text, refusal c = .error text → s.disk.file .marker = none :=
    fun _ _ herror => absurd (hc.symm.trans herror) nofun
  have hholds : Meets True (MadeBy (s.calls ++ [c])) (saveCancellable c s.calls.length)
      (Ended True (MadeBy (s.calls ++ [c]))) s.disk :=
    save_holds (armed_mono hinv.armed fun _ => madeBy_append)
      (fun machine sidecar hc => ⟨c, machine, sidecar, List.getElem?_concat_length, hc, rfl, rfl⟩)
      hrefused
  have hok : Unforced s (.save c) := by
    rw [Unforced]
    · exact hrefused trivial
    · exact hidle
  have hnext := run.next (.save c) hok
  rw [step_save hidle] at hnext
  obtain ⟨s', run', hidle', hcalls, r, hr, rfl, hended⟩ :=
    run_can (s := { s with calls := s.calls ++ [c], returned := none })
      ((save_can hc hvalid).and_holds hholds) hnext
  exact ⟨s', run', hidle', hcalls, hr, hcalls ▸ hended.published rfl⟩

/-- A probe that comes upon a state has found a marker. -/
theorem marker_of_probe {p : Probe} {d : Disk}
    (h : (probeState p d).1 = .running ∨ (probeState p d).1 = .poweredOff) :
    d.file .marker ≠ none := by
  intro hnone
  have hmarker : (if p.uninspected .marker then none else d.file .marker) = none := by
    rw [hnone, ite_self]
  rw [probeState] at h
  dsimp only at h
  rw [hmarker] at h
  split at h
  · exact h.elim nofun nofun
  · dsimp only at h
    split at h
    · exact h.elim nofun nofun
    · exact h.elim nofun nofun

/-- A resume checkpoint is armed only as a matching pair, in every state of every run of calls, with
any answers of the file system and wherever the process dies: when a probe says that there is a
checkpoint, the snapshot and the sidecar on the disk are the two that one call was given, and its
marker was installed after both. And in a run in which a marker that stands is let be cleared, by
calls that get past the checks of their arguments and removals that do not fail, a call that returns
an error leaves no marker behind. -/
theorem armed_as_a_pair (run : Run step (fun _ _ => True) start s) :
    (∀ p, (probeState p s.disk).1 = .running ∨ (probeState p s.disk).1 = .poweredOff →
      ∃ save, MadeBy s.calls save ∧ Published s.disk save) ∧
    (Run step Unforced start s →
      ∀ text, s.returned = some (.error text) → s.disk.file .marker = none) := by
  constructor
  · intro p hp
    have hinv := run.keeps (I := Inv False) (fun _ _ _ h => h.step False.elim) inv_start
    exact hinv.armed.resolve_left (marker_of_probe hp)
  · intro run' text hreturned
    have hinv := run'.keeps (I := Inv True) (fun _ _ hok h => h.step fun _ => hok) inv_start
    exact hinv.ended trivial _ hreturned text rfl

/-- The sidecar of a disk of that size. -/
def sidecarFor (mediaSize : Nat) : Sidecar where
  bytes := encode 4 sidecarMagic ++ (encode 4 sidecarVersion ++ (encode 8 mediaSize ++
    (encode 8 mediaSize ++ List.replicate (sidecarBytes - 24) 0)))
  length := by
    simp only [List.length_append, length_encode, List.length_replicate, sidecarBytes]

theorem sidecarFields_header {mediaSize : Nat} (h : mediaSize < 256 ^ 8) (tail : List Byte) :
    sidecarFields (encode 4 sidecarMagic ++ (encode 4 sidecarVersion ++ (encode 8 mediaSize ++
      (encode 8 mediaSize ++ tail)))) = (sidecarMagic, sidecarVersion, mediaSize, mediaSize) := by
  have hmagic : decode (encode 4 sidecarMagic) = sidecarMagic := decode_encode (by decide)
  have hversion : decode (encode 4 sidecarVersion) = sidecarVersion := decode_encode (by decide)
  have hsize : decode (encode 8 mediaSize) = mediaSize := decode_encode h
  exact Prod.ext hmagic (Prod.ext hversion (Prod.ext hsize hsize))

theorem sidecarFields_sidecarFor (mediaSize : Nat) (h : mediaSize < 256 ^ 8) :
    sidecarFields (sidecarFor mediaSize).bytes =
      (sidecarMagic, sidecarVersion, mediaSize, mediaSize) := sidecarFields_header h _

/-- A call for a disk of that size. -/
def callFor (mediaSize : Nat) : SaveCall :=
  ⟨some ⟨true, [1]⟩, some (sidecarFor mediaSize), some [0x2f, 0x77]⟩

theorem refusal_callFor (mediaSize : Nat) (h : mediaSize < 256 ^ 8) (hpos : 0 < mediaSize) :
    refusal (callFor mediaSize) = .ok (⟨true, [1]⟩, sidecarFor mediaSize) := by
  have hpaths : (pathNames.any fun f => (resumePath [0x2f, 0x77] f).isNone) = false := by decide
  rw [callFor, refusal]
  dsimp only
  rw [sidecarFields_sidecarFor _ h]
  dsimp only
  rw [if_neg (by simp only [ne_eq, not_true, false_or, or_false]; omega), hpaths]
  rfl

theorem refusal_callFor_zero : refusal (callFor 0) =
    .error "The running disk bridge provided invalid checkpoint state." := by
  rw [callFor, refusal]
  dsimp only
  rw [sidecarFields_sidecarFor 0 (by decide)]
  exact if_pos (.inr (.inr (.inl rfl)))

/-- A save that returns false leaves the marker of the one before armed. -/
theorem armed_after_failure : ∃ s, Run step (fun _ _ => True) start s ∧
    s.calls = [callFor 4096, callFor 0] ∧
    s.returned = some (.error "The running disk bridge provided invalid checkpoint state.") ∧
    s.disk.file .marker ≠ none := by
  obtain ⟨s, run, hidle, hcalls, _, save, _, hp⟩ :=
    save_arms .start rfl (refusal_callFor 4096 (by decide) (by decide)) rfl
  refine ⟨_, (run.mono fun _ _ _ => trivial).next (.save (callFor 0)) trivial, ?_⟩
  have hstep : step (.save (callFor 0)) s = { s with
      running := none, calls := s.calls ++ [callFor 0],
      returned := some (.error "The running disk bridge provided invalid checkpoint state.") } := by
    rw [step_save hidle, saveCancellable.eq_def, refusal_callFor_zero]
    rfl
  rw [hstep, hcalls]
  refine ⟨rfl, rfl, ?_⟩
  rw [hp.marker]
  exact nofun

/-- The probe of a directory in which the pair of that disk is armed. -/
def probeFor (mediaSize : Nat) : Probe :=
  ⟨[0x2f, 0x77], mediaSize, 0x10000000, fun _ => false, fun _ => false, true, fun _ => .ok false⟩

theorem probe_published {d : Disk} {save : Save} (hp : Published d save)
    (hsnapshot : save.snapshot = [1]) (hsidecar : save.sidecar = (sidecarFor 4096).bytes) :
    (probeState (probeFor 4096) d).1 = .running := by
  have hlength := (sidecarFor 4096).length
  have hfields := sidecarFields_sidecarFor 4096 (by decide)
  obtain ⟨hmarker, hstate, hbridge, _⟩ := hp
  rw [hsnapshot] at hstate
  rw [hsidecar] at hbridge
  generalize (sidecarFor 4096).bytes = bytes at *
  have hpaths : ([FileName.state, .bridge, .marker].any
      fun f => (resumePath (probeFor 4096).workDirectory f).isNone) = false := by decide
  have hopen : ¬((probeFor 4096).mediaSize = 0 ∨ (probeFor 4096).ramSize = 0 ∨
      ([FileName.state, .bridge, .marker].any
        fun f => (resumePath (probeFor 4096).workDirectory f).isNone) = true) := by
    rw [hpaths]
    decide
  have hregular (f : FileName) :
      (if (probeFor 4096).uninspected f then none else d.file f) = d.file f := if_neg nofun
  have hrequest : ¬(request.length ≠ request.length ∨ (probeFor 4096).unread .marker = true ∨
      request ≠ request) := by decide
  rw [probeState, if_neg hopen]
  dsimp only
  rw [hregular, hregular, hregular, hmarker, hstate, hbridge]
  dsimp only
  rw [if_neg (by decide), if_neg hrequest, if_neg, hfields]
  · rfl
  · exact fun h => h.elim (absurd · (by decide)) (·.elim (absurd hlength) nofun)

theorem armed_as_a_pair_saved : ∃ s, Run step (fun _ _ => True) start s ∧
    (probeState (probeFor 4096) s.disk).1 = .running ∧
    ∃ save, MadeBy s.calls save ∧ Published s.disk save := by
  obtain ⟨s, run, _, hcalls, _, save, hmade, hp⟩ :=
    save_arms .start rfl (refusal_callFor 4096 (by decide) (by decide)) rfl
  obtain ⟨c, machine, sidecar, hc, hrefusal, hsnapshot, hsidecar⟩ := hmade
  have run' : Run step (fun _ _ => True) start s := run.mono fun _ _ _ => trivial
  have hprobe : (probeState (probeFor 4096) s.disk).1 = .running := by
    have hnumber : c = callFor 4096 := by
      rw [hcalls] at hc
      exact List.mem_singleton.1 (List.mem_of_getElem? hc)
    rw [hnumber, refusal_callFor 4096 (by decide) (by decide)] at hrefusal
    cases hrefusal
    exact probe_published hp hsnapshot hsidecar
  exact ⟨s, run', hprobe, (armed_as_a_pair run').1 _ (.inl hprobe)⟩

end World

end S5LBox.App.Resume
