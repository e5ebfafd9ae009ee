import S5LBox.Arm.SvcSeam

/-!
# What leaves the exclusive monitor alone

The monitor holds one address. A load-exclusive is the one instruction that has the core write an
address to it, and a privileged supervisor call may have the platform do so. Every other instruction
keeps the address or drops it, and every exception drops it.

## Main definitions

* `ArmCpu.monitor`: the address that is held.
* `Untags`: a step that writes no address to the monitor.

## Main results

* one lemma for each group of instructions, such as `untags_execBlockTransfer`.
* `untags_armConditional`, `untags_thumbStep`: the instructions of both sets.
-/

namespace S5LBox

open StateProgram

/-- The address that the exclusive monitor holds. -/
def ArmCpu.monitor (c : ArmCpu) : Option Word := if c.exclValid then some c.exclAddr else none

section Monitor

variable {c c' : ArmCpu}

theorem monitor_of_uncommitted (h : c'.uncommitted = c.uncommitted) : c'.monitor = c.monitor := by
  have hmonitor := congrArg ArmCpu.monitor h
  exact hmonitor

theorem monitor_of_unaccessed (h : c'.unaccessed = c.unaccessed) : c'.monitor = c.monitor := by
  have hmonitor := congrArg ArmCpu.monitor h
  exact hmonitor

theorem monitor_of_uncached (h : c'.uncached = c.uncached) : c'.monitor = c.monitor := by
  have hmonitor := congrArg ArmCpu.monitor h
  exact hmonitor

theorem monitor_clearExclusive (c : ArmCpu) : (Exec.clearExclusive c).monitor = none := rfl

end Monitor

namespace Exec

variable {σ α β : Type}

/-- A step that writes no address to the monitor. -/
def Untags (s s' : Sys σ) : Prop := ∀ a, s'.cpu.monitor = some a → s.cpu.monitor = some a

instance : Std.Refl (Untags : Sys σ → Sys σ → Prop) := ⟨fun _ _ h => h⟩

instance : IsTrans (Sys σ) Untags := ⟨fun _ _ _ h h' a ha => h a (h' a ha)⟩

/-! ### Rules -/

theorem Untags.of_eq {s s' : Sys σ} (h : s'.cpu.monitor = s.cpu.monitor) : Untags s s' :=
  fun _ ha => h.symm.trans ha

theorem Untags.of_none {s s' : Sys σ} (h : s'.cpu.monitor = none) : Untags s s' :=
  fun _ ha => absurd (h.symm.trans ha) nofun

theorem untags_accesses {m : Exec σ α} (h : Accesses m) : Moves Untags m :=
  fun s => Untags.of_eq (monitor_of_unaccessed (h s).1)

theorem untags_modifyCpu {f : ArmCpu → ArmCpu} (h : ∀ c, (f c).uncommitted = c.uncommitted) :
    Moves Untags (modifyCpu f : Exec σ Unit) :=
  fun s => Untags.of_eq (monitor_of_uncommitted (h s.cpu))

theorem untags_onCpu {f : ArmCpu → α × ArmCpu} (h : ∀ c, (f c).2.uncommitted = c.uncommitted) :
    Moves Untags (onCpu f : Exec σ α) :=
  fun s => Untags.of_eq (monitor_of_uncommitted (h s.cpu))

theorem untags_setR (n : RegNo) (v : Word) : Moves Untags (modifyCpu (·.setR n v) : Exec σ Unit) :=
  untags_modifyCpu fun _ => rfl

theorem untags_dropping {f : ArmCpu → ArmCpu} (h : ∀ c, (f c).monitor = none) :
    Moves Untags (modifyCpu f : Exec σ Unit) := fun s => Untags.of_none (h s.cpu)

theorem untags_ordinary {f : ArmCpu → ArmStatus × ArmCpu} (h : ∀ c, Ordinary c (f c).1 (f c).2) :
    Moves Untags (onCpu f : Exec σ ArmStatus) := untags_onCpu fun c => uncommitted_of_plain (h c).plain

theorem untags_getCpu : Moves Untags (getCpu : Exec σ ArmCpu) := untags_accesses accesses_getCpu

theorem untags_abortLatched : Moves Untags (abortLatched : Exec σ Bool) :=
  untags_accesses accesses_abortLatched

theorem untags_guarded {p : Prop} [Decidable p] {m : Exec σ Unit} (h : Moves Untags m) :
    Moves Untags (guarded p m) := .either h <| .pure ()

theorem untags_checked {a : α} {go : Exec σ α} (hgo : Moves Untags go) :
    Moves Untags (abortLatched >>= fun b => if b = true then pure a else go) :=
  .bind untags_abortLatched fun _ => .either (.pure a) hgo

theorem untags_takeLatchedAbort (pc : Word) {k : Exec σ ArmStatus} (hk : Moves Untags k) :
    Moves Untags (takeLatchedAbort pc k) := by
  refine .bind untags_abortLatched fun _ => .either ?_ hk
  exact .bind (fun s => Untags.of_none rfl) fun _ => .pure _

/-! ### ARM transfers -/

section Transfers

variable (B : ArmBus σ)

theorem untags_memR (w : MemWidth) (va : Word) : Moves Untags (memR B w va) :=
  untags_accesses (accesses_memR B w va)

theorem untags_memW (w : MemWidth) (va v : Word) : Moves Untags (memW B w va v) :=
  untags_accesses (accesses_memW B w va v)

theorem untags_prepareMultiwordAddress (va alignment : Word) (write : Bool) :
    Moves Untags (onCpu (prepareMultiwordAddress va alignment write) : Exec σ (Option Word)) :=
  untags_accesses (accesses_prepareMultiwordAddress va alignment write)

theorem untags_execSingleTransfer (pc insn next : Word) :
    Moves Untags (execSingleTransfer B pc insn next) := by
  rw [execSingleTransfer]
  refine .either (.pure _) ?_
  refine .either (.pure _) ?_
  refine .either (.pure _) ?_
  refine .either (.pure _) ?_
  refine .bind untags_getCpu fun c => .either ?load ?store
  case load =>
    refine .either (.either ?_ (.pure _)) ?_
    · refine .bind (untags_accesses (accesses_modifyCpu fun c => ?_)) fun _ => .pure _
      exact unaccessed_noteAlignmentAbort c _ false
    refine .bind (untags_accesses (accesses_memRAs B _ _ _)) fun val => untags_checked ?_
    refine .either (.pure _) ?_
    have hbase {p : Prop} [Decidable p] (v : Word) :
        Moves Untags (guarded p (modifyCpu (·.setR (field insn 16) v)) : Exec σ Unit) :=
      untags_guarded (untags_setR _ v)
    refine .bind (untags_setR _ val) fun _ => .either ?_ ?_
    · refine .bind (untags_onCpu fun c => uncommitted_of_plain (plain_interwork c val))
        fun next => ?_
      exact .bind (hbase _) fun _ => .bind (hbase _) fun _ => .pure _
    · refine .bind (.pure _) fun next => ?_
      exact .bind (hbase _) fun _ => .bind (hbase _) fun _ => .pure _
  case store =>
    refine .bind (untags_accesses (accesses_memWAs B _ _ _ _)) fun _ => untags_checked ?_
    exact .bind (untags_guarded (untags_setR _ _)) fun _ => .pure _

theorem untags_doublewordTransfer (pc addr : Word) (rd : RegNo) (store : Bool) :
    Moves Untags (doublewordTransfer B pc addr rd store) := by
  refine .bind (untags_prepareMultiwordAddress addr 4 store) fun xfer => ?_
  cases xfer with
  | none => exact .pure _
  | some xfer =>
    refine .either ?_ ?_
    · refine .bind untags_getCpu fun c => ?_
      refine .bind (untags_memW B .w32 _ _) fun _ => untags_checked ?_
      refine .bind untags_getCpu fun c => ?_
      refine .bind (untags_memW B .w32 _ _) fun _ => ?_
      exact .bind untags_abortLatched fun _ => .pure _
    · refine .bind (untags_memR B .w32 _) fun lo => untags_checked ?_
      refine .bind (untags_memR B .w32 _) fun hi => untags_checked ?_
      exact .bind (untags_modifyCpu fun _ => rfl) fun _ => .pure _

theorem untags_extraLoad (sh : Nat) (addr : Word) : Moves Untags (extraLoad B sh addr) := by
  refine .either (untags_memR B .w16 addr) ?_
  refine .either ?_ ?_
  · exact .bind (untags_memR B .w8 addr) fun _ => .pure _
  · exact .bind (untags_memR B .w16 addr) fun _ => .pure _

theorem untags_extraAccess (pc addr : Word) (rd : RegNo) (sh : Nat) (L : Bool) :
    Moves Untags (extraAccess B pc addr rd sh L) := by
  refine .either (untags_doublewordTransfer B pc addr rd _) ?_
  refine .either ?_ ?_
  · refine .bind (untags_extraLoad B sh addr) fun val => untags_checked ?_
    exact .bind (untags_setR rd val) fun _ => .pure _
  · refine .bind untags_getCpu fun c => ?_
    refine .bind (untags_memW B .w16 _ _) fun _ => ?_
    exact .bind untags_abortLatched fun _ => .pure _

theorem untags_execExtraTransfer (pc insn next : Word) :
    Moves Untags (execExtraTransfer B pc insn next) := by
  rw [execExtraTransfer]
  refine .either (.pure _) ?_
  refine .either (.pure _) ?_
  refine .either (.pure _) ?_
  refine .either (.pure _) ?_
  refine .either (.pure _) ?_
  refine .either (.pure _) ?_
  refine .bind untags_getCpu fun c => ?_
  refine .either (.pure _) ?_
  refine .either (.pure _) ?_
  refine .bind (untags_extraAccess B _ _ _ _ _) fun done => ?_
  refine .either ?_ <| .pure _
  exact .bind (untags_guarded (untags_setR _ _)) fun _ => .pure _

theorem uncommitted_writeBase (t : BlockTransfer) (c : ArmCpu) :
    (t.writeBase c).uncommitted = c.uncommitted := uncommitted_of_plain (plain_writeBase c t)

theorem untags_blockLoad (t : BlockTransfer) (addr next : Word) :
    Moves Untags (blockLoad B t addr next) := by
  refine .bind (untags_accesses (accesses_loadList B _ _)) fun r => ?_
  cases r with
  | none => exact .pure _
  | some vs =>
    refine .bind untags_getCpu fun c => ?_
    refine .either (.pure _) ?_
    refine .either (.pure _) <| .either ?_ ?_
    · refine .bind (untags_onCpu fun c => ?_) fun next => .pure _
      refine (uncommitted_commitReturn _ vs next).trans ((uncommitted_writeBase t _).trans ?_)
      exact uncommitted_of_plain (plain_commitList c vs)
    · refine .bind (untags_onCpu fun c => uncommitted_commitLoad c _ vs next) fun next => ?_
      exact .bind (untags_modifyCpu (uncommitted_writeBase t)) fun _ => .pure _

theorem untags_blockStore (t : BlockTransfer) (pc addr next : Word) :
    Moves Untags (blockStore B t pc addr next) := by
  refine .bind (untags_accesses (accesses_storeList B _ _ _)) fun done => ?_
  refine .either ?_ <| .pure _
  exact .bind (untags_guarded (untags_setR _ _)) fun _ => .pure _

theorem untags_execBlockTransfer (pc insn next : Word) :
    Moves Untags (execBlockTransfer B pc insn next) := by
  rw [execBlockTransfer]
  refine .either (.pure _) ?_
  refine .either (.pure _) ?_
  refine .bind untags_getCpu fun c => ?_
  refine .either (.pure _) ?_
  refine .either (.pure _) ?_
  refine .either (.pure _) ?_
  refine .either (.pure _) ?_
  refine .bind (untags_prepareMultiwordAddress _ 4 _) fun addr => ?_
  cases addr with
  | none => exact .pure _
  | some addr =>
    exact .ite (fun _ => untags_blockLoad B _ addr next) fun _ =>
      untags_blockStore B _ pc addr next

theorem untags_execSrs (pc insn next : Word) : Moves Untags (execSrs B pc insn next) := by
  rw [execSrs]
  refine .bind untags_getCpu fun c => ?_
  refine .either (.pure _) ?_
  refine .either (.pure _) ?_
  refine .bind (untags_prepareMultiwordAddress _ 4 true) fun base => ?_
  cases base with
  | none => exact .bind (fun s => Untags.of_none rfl) fun _ => .pure _
  | some base =>
    refine .bind (untags_memW B .w32 _ _) fun _ => untags_takeLatchedAbort pc ?_
    refine .bind (untags_memW B .w32 _ _) fun _ => untags_takeLatchedAbort pc ?_
    refine .bind (untags_guarded (untags_modifyCpu fun c => ?_)) fun _ =>
      .bind (untags_setR 15 next) fun _ => .pure _
    exact uncommitted_writeStackOf c _ _

theorem untags_execRfe (pc insn : Word) : Moves Untags (execRfe B pc insn) := by
  rw [execRfe]
  refine .bind untags_getCpu fun c => ?_
  refine .either (.pure _) ?_
  refine .either (.pure _) ?_
  refine .bind (untags_prepareMultiwordAddress _ 4 false) fun base => ?_
  cases base with
  | none => exact .bind (fun s => Untags.of_none rfl) fun _ => .pure _
  | some base =>
    refine .bind (untags_memR B .w32 _) fun newPc => untags_takeLatchedAbort pc ?_
    refine .bind (untags_memR B .w32 _) fun newCpsr => untags_takeLatchedAbort pc ?_
    refine .either (.pure _) <| .either (.pure _) ?_
    exact .bind (untags_modifyCpu fun c => uncommitted_commitRfe c insn _ newPc newCpsr)
      fun _ => .pure _

/-! ### Store-exclusives and swaps -/

/-- The alignment check of an exclusive transfer in front of the transfer. -/
theorem untags_syncAddress (addr alignment : Word) (write : Bool) {k : Exec σ ArmStatus}
    (hk : Moves Untags k) :
    Moves Untags (onCpu (prepareSyncAddress addr alignment write) >>= fun st =>
      match st with
      | some st => pure st
      | none => k) := by
  refine .bind (untags_accesses (accesses_prepareSyncAddress addr alignment write)) fun st => ?_
  cases st with
  | some st => exact .pure st
  | none => exact hk

/-- A store-exclusive uses the address up. -/
theorem untags_storeIfExclusive (addr : Word) (rd : RegNo) {store : Exec σ Unit}
    (hstore : Moves Untags store) : Moves Untags (storeIfExclusive addr rd store) := by
  refine .bind untags_getCpu fun c => .either ?_ ?_
  · refine .bind hstore fun _ => .bind untags_abortLatched fun aborted => ?_
    refine .bind (untags_guarded (untags_setR rd 0)) fun _ => ?_
    exact .bind (untags_dropping monitor_clearExclusive) fun _ => .pure _
  · exact .bind (untags_dropping fun c => rfl) fun _ => .pure _

theorem untags_execStrex (insn : Word) : Moves Untags (execStrex B insn) := by
  refine .either (.pure _) ?_
  refine .bind untags_getCpu fun c => untags_syncAddress _ _ true ?_
  refine .bind (untags_accesses (accesses_armMmuTranslate B _ _ _ _)) fun r => ?_
  refine .either ?_ <| untags_storeIfExclusive _ _ (untags_memW B .w32 _ _)
  exact .bind (untags_dropping fun c => rfl) fun _ => .pure _

theorem untags_storeExclusive (w : MemWidth) (insn : Word) :
    Moves Untags (storeExclusive B w insn) := by
  refine .either (.pure _) ?_
  refine .bind untags_getCpu fun c => untags_syncAddress _ _ true ?_
  exact untags_storeIfExclusive _ _ (untags_memW B w _ _)

theorem untags_execStrexd (insn : Word) : Moves Untags (execStrexd B insn) := by
  refine .either (.pure _) ?_
  refine .bind untags_getCpu fun c => untags_syncAddress _ _ true ?_
  refine untags_storeIfExclusive _ _ (.bind (untags_memW B .w32 _ _) fun _ => ?_)
  exact .bind untags_abortLatched fun aborted => untags_guarded (untags_memW B .w32 _ _)

theorem untags_execSwp (insn : Word) : Moves Untags (execSwp B insn) := by
  refine .either (.pure _) ?_
  refine .bind untags_getCpu fun c => .either ?_ ?_
  · refine .bind (untags_accesses (accesses_modifyCpu fun c => ?_)) fun _ => .pure _
    exact unaccessed_noteAlignmentAbort c _ true
  refine .bind (untags_memR B _ _) fun old => untags_checked ?_
  refine .bind (untags_memW B _ _ _) fun _ => untags_checked ?_
  exact .bind (untags_setR _ old) fun _ => .pure _

end Transfers

/-! ### The coprocessors -/

section Coprocessors

variable (B : ArmBus σ) (fpu : HostFpu)

theorem untags_vfpMemR32 (va : Word) : Moves Untags (vfpMemR32 B va) := by
  refine .bind (untags_prepareMultiwordAddress va 4 false) fun va => ?_
  cases va with
  | none => exact .pure _
  | some va => exact untags_memR B .w32 va

theorem untags_vfpMemW32 (va v : Word) : Moves Untags (vfpMemW32 B va v) := by
  refine .bind (untags_prepareMultiwordAddress va 4 true) fun va => ?_
  cases va with
  | none => exact .pure _
  | some va => exact untags_memW B .w32 va v

theorem untags_vfpTransferD (L : Bool) (addr : Word) (n : Nat) :
    Moves Untags (vfpTransferD B L addr n) := by
  refine .either ?_ ?_
  · refine .bind (untags_vfpMemR32 B addr) fun lo => untags_checked ?_
    refine .bind (untags_vfpMemR32 B _) fun hi => untags_checked ?_
    exact .bind (untags_modifyCpu fun _ => rfl) fun _ => .pure _
  · refine .bind untags_getCpu fun c => ?_
    refine .bind (untags_vfpMemW32 B addr _) fun _ => untags_checked ?_
    refine .bind (untags_vfpMemW32 B _ _) fun _ => ?_
    exact .bind untags_abortLatched fun _ => .pure _

theorem untags_vfpTransferS (L : Bool) (addr : Word) (n : Nat) :
    Moves Untags (vfpTransferS B L addr n) := by
  refine .either ?_ ?_
  · refine .bind (untags_vfpMemR32 B addr) fun v => untags_checked ?_
    exact .bind (untags_modifyCpu fun _ => rfl) fun _ => .pure _
  · refine .bind untags_getCpu fun c => ?_
    refine .bind (untags_vfpMemW32 B addr _) fun _ => ?_
    exact .bind untags_abortLatched fun _ => .pure _

theorem untags_vfpTransferList (dbl L : Bool) (addr : Word) (first : Nat) (is : List Nat) :
    Moves Untags (vfpTransferList B dbl L addr first is) := by
  induction is with
  | nil => exact .pure _
  | cons i is ih =>
    refine .either ?_ ?_
    · refine .bind (untags_vfpTransferD B L _ _) fun done => ?_
      exact .either (.pure _) ih
    · refine .bind (untags_vfpTransferS B L _ _) fun done => ?_
      exact .either (.pure _) ih

theorem untags_vfpReservedWord (L : Bool) (addr : Word) :
    Moves Untags (vfpReservedWord B L addr) := by
  refine .either ?_ ?_
  · refine .bind (untags_vfpMemR32 B addr) fun _ => ?_
    exact .bind untags_abortLatched fun _ => .pure _
  · refine .bind (untags_vfpMemW32 B addr 0) fun _ => ?_
    exact .bind untags_abortLatched fun _ => .pure _

theorem untags_vfpLdstMultiple (insn base : Word) :
    Moves Untags (vfpLdstMultiple B insn base) := by
  rw [vfpLdstMultiple]
  refine .either (.pure _) ?_
  refine .either (.pure _) ?_
  refine .either (.pure _) ?_
  refine .bind (untags_vfpTransferList B _ _ _ _ _) fun done => ?_
  refine .either (.pure _) <| .either ?_ ?_
  · refine .bind (untags_vfpReservedWord B _ _) fun done => ?_
    refine .either (.pure _) ?_
    exact .bind (untags_guarded (untags_setR _ _)) fun _ => .pure _
  · refine .bind (.pure _) fun done => .either (.pure _) ?_
    exact .bind (untags_guarded (untags_setR _ _)) fun _ => .pure _

theorem untags_vfpLdst (pc insn : Word) : Moves Untags (vfpLdst B pc insn) := by
  rw [vfpLdst]
  refine .either (.pure _) ?_
  refine .either (.pure _) ?_
  refine .either (.pure _) ?_
  refine .bind untags_getCpu fun c => ?_
  refine .either (untags_vfpLdstMultiple B _ _) <| .either ?_ ?_
  · refine .either (.pure _) ?_
    exact .bind (untags_vfpTransferD B _ _ _) fun _ => .pure _
  · exact .bind (untags_vfpTransferS B _ _ _) fun _ => .pure _

theorem untags_vfpExecute (pc insn : Word) : Moves Untags (vfpExecute B fpu pc insn) := by
  rw [vfpExecute]
  refine .bind untags_getCpu fun c => .either (.pure _) ?_
  rw [vfpExecuteInner]
  refine .bind untags_getCpu fun c => ?_
  refine .either (.pure _) <| .either (.pure _) ?_
  refine .either (untags_onCpu fun c => uncommitted_vfpXfer32 c insn) ?_
  refine .either (untags_ordinary fun c => ordinary_vfpDp fpu c insn) ?_
  refine .either (untags_ordinary fun c => ordinary_vfpXfer64 c insn) ?_
  exact .either (untags_vfpLdst B pc insn) <| .pure _

theorem untags_cp15Write (crn crm : RegNo) (opc2 : Nat) (v : Word) :
    Moves Untags (cp15Write crn crm opc2 v : Exec σ Unit) := by
  refine .bind untags_getCpu fun c => ?_
  refine .bind (fun s => Untags.of_eq rfl) fun _ => ?_
  exact untags_guarded fun s => Untags.of_eq rfl

theorem untags_waitForInterrupt : Moves Untags (waitForInterrupt B) := by
  intro s
  rw [waitForInterrupt]
  cases B.waitForInterrupt <;> exact Untags.of_eq rfl

theorem untags_execCoprocessor (pc insn : Word) : Moves Untags (execCoprocessor B fpu pc insn) := by
  rw [execCoprocessor]
  refine .bind untags_getCpu fun c => .either ?_ ?_
  · refine .either (.pure _) ?_
    exact .bind (untags_guarded (untags_setR _ _)) fun _ => .pure _
  refine .either (untags_vfpExecute B fpu pc insn) ?_
  refine .either (.pure _) <| .either ?_ ?_
  · refine .either (.pure _) <| .either (.pure _) ?_
    exact .bind (untags_waitForInterrupt B) fun _ => .pure _
  refine .either (.pure _) <| .either ?_ ?_
  · exact .bind (untags_setR _ _) fun _ => .pure _
  · exact .bind (untags_cp15Write _ _ _ _) fun _ => .pure _

end Coprocessors

/-! ### Thumb -/

section Thumb

variable (B : ArmBus σ)

theorem untags_plain {f : ArmCpu → ArmCpu} (h : ∀ c, (f c).plain = c.plain) (a : α) :
    Moves Untags (do modifyCpu f; pure a : Exec σ α) :=
  .bind (untags_modifyCpu fun c => uncommitted_of_plain (h c)) fun _ => .pure a

theorem untags_thumbLoad (rd : RegNo) {load : Exec σ Word} (hload : Moves Untags load) :
    Moves Untags (thumbLoad rd load) :=
  .bind hload fun v => untags_checked (.bind (untags_setR rd v) fun _ => .pure _)

theorem untags_thumbWordByte (load byte : Bool) (rd : RegNo) (addr : Word) :
    Moves Untags (thumbWordByte B load byte rd addr) := by
  refine .either (untags_thumbLoad rd (untags_memR B _ _)) ?_
  exact .bind untags_getCpu fun c => .bind (untags_memW B _ _ _) fun _ => .pure _

theorem untags_thumbRegisterOffset (insn : Word) : Moves Untags (thumbRegisterOffset B insn) := by
  refine .bind untags_getCpu fun c => ?_
  refine .either ?_ <| untags_thumbWordByte B _ _ _ _
  refine .bind untags_getCpu fun c => .either (.pure _) ?_
  refine .either ?_ <| untags_thumbLoad _ (untags_extraLoad B _ _)
  exact .bind (untags_memW B .w16 _ _) fun _ => .pure _

theorem untags_thumbHalfword (insn : Word) : Moves Untags (thumbHalfword B insn) := by
  refine .bind untags_getCpu fun c => .either (.pure _) ?_
  refine .either (untags_thumbLoad _ (untags_memR B .w16 _)) ?_
  exact .bind (untags_memW B .w16 _ _) fun _ => .pure _

theorem untags_thumbPop (list : Word) (extra : Bool) (next : Word) :
    Moves Untags (thumbPop B list extra next) := by
  refine .bind untags_getCpu fun c => ?_
  refine .bind (untags_prepareMultiwordAddress _ 4 false) fun addr => ?_
  cases addr with
  | none => exact .pure _
  | some addr =>
    refine .bind (untags_accesses (accesses_loadList B _ _)) fun r => ?_
    cases r with
    | none => exact .pure _
    | some vs =>
      refine .either (.pure _) ?_
      refine .bind (untags_modifyCpu fun c => ?_) fun _ => .ite (fun _ => ?_) fun _ => .pure _
      · exact uncommitted_of_plain (plain_commitList c _)
      · refine .bind (untags_guarded (untags_modifyCpu fun c => ?_)) fun _ => .pure _
        exact uncommitted_of_plain (plain_clearT c)

theorem untags_thumbPush (list : Word) (extra : Bool) : Moves Untags (thumbPush B list extra) := by
  refine .bind untags_getCpu fun c => ?_
  refine .bind (untags_prepareMultiwordAddress _ 4 true) fun addr => ?_
  cases addr with
  | none => exact .pure _
  | some addr =>
    refine .bind (untags_accesses (accesses_storeList B _ _ _)) fun done => ?_
    refine .either ?_ <| .pure _
    exact .bind (untags_setR 13 _) fun _ => .pure _

theorem untags_thumbMiscellaneous (insn next : Word) :
    Moves Untags (thumbMiscellaneous B insn next) := by
  rw [thumbMiscellaneous]
  refine .either ?_ ?_
  · exact .bind (untags_modifyCpu fun _ => rfl) fun _ => .pure _
  refine .either ?_ ?_
  · refine .either (.pure _) ?_
    refine .either (untags_thumbPop B _ _ next) ?_
    exact .bind (untags_thumbPush B _ _) fun _ => .pure _
  refine .either (untags_plain (fun c => plain_thumbExtend c insn) _) ?_
  refine .either ?_ <| .either ?_ ?_
  · exact .bind (untags_ordinary fun c => ordinary_thumbReverse c insn) fun _ => .pure _
  · refine .bind (untags_modifyCpu fun c => ?_) fun _ => .pure _
    rw [thumbCps]
    split
    · exact uncommitted_cpsMasks c _ _ _ _
    · rfl
  · exact .either (.pure _) <| .pure _

theorem untags_thumbMultiple (insn : Word) : Moves Untags (thumbMultiple B insn) := by
  refine .bind untags_getCpu fun c => ?_
  refine .either (.pure _) <| .either (.pure _) ?_
  refine .bind (untags_prepareMultiwordAddress _ 4 _) fun addr => ?_
  cases addr with
  | none => exact .pure _
  | some addr =>
    refine .either ?_ ?_
    · refine .bind (untags_accesses (accesses_loadList B _ _)) fun r => ?_
      cases r with
      | none => exact .pure _
      | some vs =>
        refine .bind (untags_modifyCpu fun c => ?_) fun _ => .pure _
        have hlist := uncommitted_of_plain (plain_commitList c vs)
        split
        · exact hlist
        · exact hlist
    · refine .bind (untags_accesses (accesses_storeList B _ _ _)) fun done => ?_
      refine .either ?_ <| .pure _
      exact .bind (untags_setR _ _) fun _ => .pure _

theorem untags_thumbRegister (pc insn next : Word) :
    Moves Untags (thumbRegister B pc insn next) := by
  rw [thumbRegister]
  refine .either (untags_plain (fun c => plain_thumbAlu c insn) _) ?_
  refine .either (untags_onCpu fun c => ?_) ?_
  · exact uncommitted_of_plain (ordinary_thumbHiReg c pc insn next).plain
  · exact .bind (untags_thumbLoad _ (untags_memR B .w32 _)) fun _ => .pure _

/-- A Thumb instruction that is no supervisor call. -/
theorem untags_thumbStep (pc insn next : Word) (hsvc : ¬isSvc true insn) :
    Moves Untags (thumbStep B pc insn next) := by
  rw [thumbStep]
  split
  · exact untags_plain (fun c => plain_thumbShiftAdd c insn) _
  · exact untags_plain (fun c => plain_thumbShiftAdd c insn) _
  · exact untags_plain (fun c => plain_thumbImmediate c insn) _
  · exact untags_plain (fun c => plain_thumbImmediate c insn) _
  · exact untags_thumbRegister B pc insn next
  · exact .bind (untags_thumbRegisterOffset B insn) fun _ => .pure _
  · exact .bind (.bind untags_getCpu fun c => untags_thumbWordByte B _ _ _ _) fun _ => .pure _
  · exact .bind (.bind untags_getCpu fun c => untags_thumbWordByte B _ _ _ _) fun _ => .pure _
  · exact .bind (untags_thumbHalfword B insn) fun _ => .pure _
  · exact .bind untags_getCpu fun c => .bind (untags_thumbWordByte B _ _ _ _) fun _ => .pure _
  · exact untags_plain (fun c => plain_thumbAddress c pc insn) _
  · exact untags_thumbMiscellaneous B insn next
  · exact .bind (untags_thumbMultiple B insn) fun _ => .pure _
  case h_14 hgroup =>
    refine .ite (fun hcond => ?_) fun _ => .either (.pure _) ?_
    · refine absurd (Bool.and_eq_true_iff.mpr ⟨beq_iff_eq.mpr ?_, beq_iff_eq.mpr hcond⟩) hsvc
      exact BitVec.eq_of_toNat_eq hgroup
    · exact .bind untags_getCpu fun c => .pure _
  · refine .bind (untags_onCpu fun c => ?_) fun _ => .pure _
    exact uncommitted_of_plain (plain_thumbBranch c pc insn)
  · refine .bind (untags_onCpu fun c => ?_) fun _ => .pure _
    exact uncommitted_of_plain (plain_thumbBl c pc insn next)

end Thumb

/-! ### The decoders -/

/-- The sizes of the exclusive transfers. -/
inductive ExclusiveSize
  | byte
  | half
  | word
  | dual
  deriving DecidableEq, Repr

/-- The encoding of a load-exclusive under the mask `exclusiveMask`. -/
def ExclusiveSize.loadCode : ExclusiveSize → Word
  | .byte => 0x01d00f90
  | .half => 0x01f00f90
  | .word => 0x01900f90
  | .dual => 0x01b00f90

/-- The encoding of a store-exclusive. -/
def ExclusiveSize.storeCode : ExclusiveSize → Word
  | .byte => 0x01c00f90
  | .half => 0x01e00f90
  | .word => 0x01800f90
  | .dual => 0x01a00f90

def exclusiveMask : Word := 0x0ff00ff0

section Decoders

variable (B : ArmBus σ) (fpu : HostFpu)

/-- A refusal becomes the guest's exception, which drops the address, or stops. -/
theorem untags_undefinedInstruction (pc insn : Word) :
    Moves Untags (onCpu (undefinedInstruction pc insn) : Exec σ ArmStatus) := by
  intro s
  by_cases htrap : vfpLazyEnableTrap s.cpu insn
  · refine Untags.of_none ?_
    change (undefinedInstruction pc insn s.cpu).2.monitor = none
    rw [undefinedInstruction, if_pos htrap]
    rfl
  · refine Untags.of_eq ?_
    change (undefinedInstruction pc insn s.cpu).2.monitor = s.cpu.monitor
    rw [undefinedInstruction, if_neg htrap]

theorem untags_armUnconditional (pc insn next : Word) :
    Moves Untags (armUnconditional B pc insn next) := by
  rw [armUnconditional]
  refine .either ?_ ?_
  · exact .bind (untags_dropping fun c => rfl) fun _ => .pure _
  refine .either (.bind (untags_setR 15 next) fun _ => .pure _) ?_
  refine .either (untags_onCpu fun c => uncommitted_armCps c insn next) ?_
  refine .either ?_ ?_
  · exact .bind (untags_modifyCpu fun _ => rfl) fun _ => .pure _
  refine .either (untags_execSrs B pc insn next) ?_
  refine .either (untags_execRfe B pc insn) ?_
  refine .either ?_ <| untags_undefinedInstruction pc insn
  refine .either (.pure _) ?_
  exact .bind (untags_setR 15 next) fun _ => .pure _

theorem untags_armSynchronisation (insn : Word)
    (hload : ∀ z : ExclusiveSize, insn &&& exclusiveMask ≠ z.loadCode) :
    Moves Untags (armSynchronisation B insn) := by
  rw [armSynchronisation]
  refine .ite (fun h => absurd h (hload .word)) fun _ => ?_
  refine .either (untags_execStrex B insn) ?_
  refine .ite (fun h => absurd h (hload .dual)) fun _ => ?_
  refine .either (untags_execStrexd B insn) ?_
  refine .ite (fun h => absurd h (hload .byte)) fun _ => ?_
  refine .either (untags_storeExclusive B _ insn) ?_
  refine .ite (fun h => absurd h (hload .half)) fun _ => ?_
  refine .either (untags_storeExclusive B _ insn) ?_
  exact .either (untags_execSwp B insn) <| .pure _

/-- A conditional ARM instruction that is neither a load-exclusive nor a supervisor call. -/
theorem untags_armConditional (pc insn next : Word)
    (hload : ∀ z : ExclusiveSize, insn &&& exclusiveMask ≠ z.loadCode) (hsvc : ¬isSvc false insn) :
    Moves Untags (armConditional B fpu pc insn next) := by
  have hdp : Moves Untags (onCpu (execDataProcessing pc insn next) : Exec σ (ArmStatus × Word)) :=
    untags_onCpu fun c => uncommitted_execDataProcessing c pc insn next
  have hseq {m : Exec σ ArmStatus} (hm : Moves Untags m) : Moves Untags (sequential next m) :=
    .bind hm fun _ => .pure _
  rw [armConditional]
  refine .either hdp <| .either (untags_onCpu fun c => ?_) ?_
  · exact uncommitted_of_plain (plain_execBranch c pc insn)
  refine .either ?_ <| .either ?_ ?_
  · exact hseq (untags_ordinary fun c => ordinary_execMultiply c pc insn)
  · exact hseq (untags_ordinary fun c => ordinary_execMultiplyLong c pc insn)
  refine .either ?_ <| .either ?_ ?_
  · exact hseq (untags_ordinary fun c => ordinary_execDspMultiply c insn)
  · exact hseq (untags_ordinary fun c => ordinary_execMedia c pc insn)
  refine .either (untags_execSingleTransfer B pc insn next) ?_
  refine .either (untags_execBlockTransfer B pc insn next) ?_
  refine .either (untags_execExtraTransfer B pc insn next) ?_
  refine .either (hseq (untags_armSynchronisation B insn hload)) ?_
  refine .either (hseq (untags_execCoprocessor B fpu pc insn)) ?_
  refine .either (hseq (untags_vfpExecute B fpu pc insn)) ?_
  refine .ite (fun h => absurd (beq_iff_eq.mpr h) hsvc) fun _ => ?_
  exact .either hdp <| .pure _

theorem untags_goOn (r : ArmStatus × Word) :
    Moves Untags (do guarded (r.1 = .ok) (modifyCpu (·.setR 15 r.2)); pure r.1 : Exec σ ArmStatus) :=
  .bind (untags_guarded (untags_setR 15 r.2)) fun _ => .pure _

theorem untags_thumbRetire (pc : Word) (r : ArmStatus × Word) :
    Moves Untags (thumbRetire pc r : Exec σ ArmStatus) :=
  .either (.pure _) <| untags_takeLatchedAbort pc (untags_goOn r)

theorem untags_armRetire (pc insn : Word) (r : ArmStatus × Word) :
    Moves Untags (armRetire pc insn r : Exec σ ArmStatus) := by
  refine .either (.pure _) <| untags_takeLatchedAbort pc ?_
  refine .either ?_ <| .either ?_ <| untags_goOn r
  · exact .bind (untags_dropping fun c => rfl) fun _ => .pure _
  · exact untags_undefinedInstruction pc insn

end Decoders

end Exec

end S5LBox
