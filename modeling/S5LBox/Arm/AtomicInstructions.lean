import S5LBox.Arm.Accesses
import S5LBox.Arm.ExceptionReturn
import S5LBox.Arm.Frames

/-!
# Instructions are atomic

The core follows the base-restored abort model: an instruction whose access faults leaves no part
of its work behind but the memory it has stored to. Every instruction is built from accesses,
tests of the latched fault and commits, in this order, so it is atomic in the sense of
`Rollback.Atomic`. VFP loads are the exception, which write their registers one by one.

## Main definitions

* `isVfpTransfer`, `isSvc`: the encodings that are treated apart.

## Main results

* one lemma for each group of instructions, such as `atomic_execBlockTransfer`.
* `armConditional_atomic`, `thumbStep_atomic`: the instructions of both instruction sets.
-/

namespace S5LBox

open Blocks StateProgram WriteLog

/-! ### What commits leave alone -/

/-- The part of the core that the commit of an instruction does not write: CP15, the latch, the
monitor, the lines, the caches and the counter. -/
def ArmCpu.uncommitted (c : ArmCpu) : ArmCpu where
  arch := c.arch
  cp15 := c.cp15
  cycles := c.cycles
  abortPending := c.abortPending
  abortFsr := c.abortFsr
  abortFar := c.abortFar
  irqLine := c.irqLine
  fiqLine := c.fiqLine
  exclValid := c.exclValid
  exclAddr := c.exclAddr
  cache := c.cache

section Commits

variable (c : ArmCpu)

theorem uncommitted_of_plain {c c' : ArmCpu} (h : c'.plain = c.plain) :
    c'.uncommitted = c.uncommitted := by
  have hrest := congrArg ArmCpu.uncommitted h
  exact hrest

theorem uncommitted_armSetMode (mode : Word) : (armSetMode c mode).uncommitted = c.uncommitted := by
  simp only [armSetMode, armSwapBank]
  split_ifs <;> rfl

theorem uncommitted_restoreCpsr (s : Word) : (restoreCpsr c s).uncommitted = c.uncommitted :=
  uncommitted_armSetMode c s

/-- An exception clears the monitor besides. -/
theorem uncommitted_takeException (vector mode ret : Word) (maskFiq : Bool) :
    (takeException c vector mode ret maskFiq).1.uncommitted =
      { c.uncommitted with exclValid := false } := by
  rw [← uncommitted_armSetMode c mode, takeException_eq]
  simp only [maskException]
  split_ifs <;> rfl

theorem uncommitted_regWriteUser (n : RegNo) (v : Word) :
    (regWriteUser c n v).uncommitted = c.uncommitted := by
  simp only [regWriteUser]
  split_ifs
  all_goals first
    | rfl
    | (cases fiqWindow n <;> rfl)

theorem uncommitted_commitList {write : ArmCpu → RegNo → Word → ArmCpu}
    (hwrite : ∀ c n v, (write c n v).uncommitted = c.uncommitted) (vs : List (RegNo × Word)) :
    (Exec.commitList write vs c).uncommitted = c.uncommitted := by
  induction vs generalizing c with
  | nil => rfl
  | cons v vs ih => exact (ih (write c v.1 v.2)).trans (hwrite c v.1 v.2)

theorem uncommitted_commitReturn (vs : List (RegNo × Word)) (next : Word) :
    (Exec.commitReturn vs next c).2.uncommitted = c.uncommitted := by
  simp only [Exec.commitReturn]
  cases Exec.loadedPc vs <;> exact uncommitted_restoreCpsr c _

theorem uncommitted_commitLoad (userBank : Bool) (vs : List (RegNo × Word)) (next : Word) :
    (Exec.commitLoad userBank vs next c).2.uncommitted = c.uncommitted := by
  simp only [Exec.commitLoad]
  split_ifs
  · exact uncommitted_commitList c uncommitted_regWriteUser vs
  · have hlist := uncommitted_of_plain (plain_commitList c vs)
    cases Exec.loadedPc vs with
    | none => exact hlist
    | some v => exact (uncommitted_of_plain (plain_interwork _ v)).trans hlist

theorem uncommitted_msrCpsr (mask val : Word) :
    (msrCpsr c mask val).2.uncommitted = c.uncommitted := by
  simp only [msrCpsr]
  generalize (if armBankOfMode c.cpsr = .usr ∧ c.mode = armModeUsr then mask &&& 0xff000000
    else mask) = mask
  split_ifs
  · rfl
  · exact uncommitted_armSetMode c _
  · rfl

theorem uncommitted_execMiscellaneous (pc insn next : Word) :
    (execMiscellaneous pc insn next c).2.uncommitted = c.uncommitted := by
  simp only [execMiscellaneous]
  split_ifs
  all_goals first
    | rfl
    | exact uncommitted_msrCpsr c _ _

theorem uncommitted_writePc (res : Word) (S : Bool) :
    (writePc c res S).2.uncommitted = c.uncommitted := by
  simp only [writePc]
  split_ifs
  · exact uncommitted_restoreCpsr c _
  · rfl

theorem uncommitted_execDataProcessing (pc insn next : Word) :
    (execDataProcessing pc insn next c).2.uncommitted = c.uncommitted := by
  have halu : ∀ op a b carry S, (aluOp c op a b carry S).2.uncommitted = c.uncommitted :=
    fun op a b carry S => uncommitted_of_plain (plain_aluOp c op a b carry S)
  have hwrite : ∀ (d : ArmCpu) res S, d.uncommitted = c.uncommitted →
      (writePc d res S).2.uncommitted = c.uncommitted :=
    fun d res S hd => (uncommitted_writePc d res S).trans hd
  simp only [execDataProcessing]
  split_ifs
  · rfl
  · rfl
  · rfl
  · exact uncommitted_execMiscellaneous c pc insn next
  · rfl
  · rfl
  · dsimp only
    exact hwrite _ _ _ (halu _ _ _ _ _)
  · exact halu _ _ _ _ _
  · exact halu _ _ _ _ _

theorem uncommitted_cpsMasks (a i f disable : Bool) :
    (cpsMasks a i f disable c).uncommitted = c.uncommitted := by
  simp only [cpsMasks]
  split_ifs <;> rfl

theorem uncommitted_armCps (insn next : Word) :
    (armCps insn next c).2.uncommitted = c.uncommitted := by
  have hmasks := uncommitted_cpsMasks c (insn &&& armCpsrA != 0) (insn &&& armCpsrI != 0)
    (insn &&& armCpsrF != 0) (bit insn 18)
  simp only [armCps]
  split
  · rfl
  split
  · rfl
  split
  · refine (uncommitted_armSetMode _ _).trans ?_
    split
    · exact hmasks
    · rfl
  · split
    · exact hmasks
    · rfl

theorem uncommitted_vfpXfer32 (insn : Word) :
    (vfpXfer32 insn c).2.uncommitted = c.uncommitted := by
  rcases vfpXfer32_cases c insn with h | h | ⟨-, v, h⟩
  · exact uncommitted_of_plain h.plain
  · rw [h]
  · rw [h]
    rfl

theorem uncommitted_writeStackOf (tb : ArmBank) (v : Word) :
    (Exec.writeStackOf tb v c).uncommitted = c.uncommitted := by
  rw [Exec.writeStackOf]
  split <;> rfl

theorem uncommitted_commitRfe (insn wb newPc newCpsr : Word) :
    (Exec.commitRfe insn wb newPc newCpsr c).uncommitted = c.uncommitted := by
  refine (uncommitted_restoreCpsr _ newCpsr).trans ?_
  split <;> rfl

end Commits

/-! ### Commits keep the latch -/

section Latch

variable (c : ArmCpu)

theorem abortPending_of_uncommitted {c c' : ArmCpu} (h : c'.uncommitted = c.uncommitted) :
    c'.abortPending = c.abortPending := by
  have hlatch := congrArg ArmCpu.abortPending h
  exact hlatch

theorem abortPending_of_plain {c c' : ArmCpu} (h : c'.plain = c.plain) :
    c'.abortPending = c.abortPending := abortPending_of_uncommitted (uncommitted_of_plain h)

theorem abortPending_takeException (vector mode ret : Word) (maskFiq : Bool) :
    (takeException c vector mode ret maskFiq).1.abortPending = c.abortPending := by
  have hlatch := congrArg ArmCpu.abortPending (uncommitted_takeException c vector mode ret maskFiq)
  exact hlatch

end Latch

namespace Exec

variable {σ : Type} (B : ArmBus σ) (fpu : HostFpu) {vfp : Bool}

theorem commits_setR (n : RegNo) (v : Word) : Commits (modifyCpu (·.setR n v) : Exec σ Unit) :=
  commits_modifyCpu fun _ => rfl

/-! ### ARM transfers -/

theorem quiet_extraLoad (sh : Nat) (addr : Word) : Quiet vfp (extraLoad B sh addr) := by
  refine .either (quiet_memR16 B addr) ?_
  refine .either ?_ ?_
  · exact .bind (quiet_memR8 B addr) fun _ => .pure _
  · exact .bind (quiet_memR16 B addr) fun _ => .pure _

/-- The alignment fault of a load of the program counter. -/
theorem restores_misalignedPc {p : Prop} [Decidable p] (addr next : Word) :
    Restores vfp (if p then (do modifyCpu (noteAlignmentAbort · addr false); pure (.ok, next))
      else pure (.undefined, next) : Exec σ (ArmStatus × Word)) :=
  .ite
    (fun _ => .bind
      (quiet_modifyCpu fun c => kept_noteAlignmentAbort c addr false) fun _ =>
        .pure _)
    fun _ => .pure _

/-- The commit of a single load: destination, interworking, base. -/
theorem commits_singleLoad (rd rn : RegNo) (val indexed next : Word) (p q : Prop) [Decidable p]
    [Decidable q] :
    Commits (do
      modifyCpu (·.setR rd val)
      let next ← if rd = 15 then onCpu (interwork · val) else pure next
      guarded p (modifyCpu (·.setR rn indexed))
      guarded q (modifyCpu (·.setR rn indexed))
      return (ArmStatus.ok, next) : Exec σ (ArmStatus × Word)) := by
  have htail : ∀ next : Word, Commits (do
      guarded p (modifyCpu (·.setR rn indexed))
      guarded q (modifyCpu (·.setR rn indexed))
      return (ArmStatus.ok, next) : Exec σ (ArmStatus × Word)) := fun next =>
    .bind (commits_guarded (commits_setR rn indexed)) fun _ =>
      .bind (commits_guarded (commits_setR rn indexed)) fun _ =>
        .pure _
  refine .bind (commits_setR rd val) fun _ => ?_
  refine .either ?_ ?_
  · exact .bind (commits_onCpu fun c => abortPending_of_plain (plain_interwork c val)) htail
  · exact .bind (.pure _) htail

theorem restores_execSingleTransfer (pc insn next : Word) :
    Restores vfp (execSingleTransfer B pc insn next) := by
  rw [execSingleTransfer]
  refine .either (.pure _) ?_
  refine .either (.pure _) ?_
  refine .either (.pure _) ?_
  refine .either (.pure _) ?_
  refine .bind quiet_getCpu fun c => ?_
  refine .either ?load ?store
  case load =>
    refine .either (restores_misalignedPc _ next) ?_
    refine .bind (quiet_memRAs B _ _ _) fun val => ?_
    refine restores_checked (.pure _) ?_
    refine .either (.pure _) ?_
    exact Rollback.Commits.atomic (commits_singleLoad _ _ _ _ _ _ _)
  case store =>
    refine .bind (quiet_memWAs B _ _ _ _) fun _ => ?_
    refine restores_checked (.pure _) ?_
    exact (Rollback.Commits.bind (commits_guarded (commits_setR _ _)) fun _ => .pure _).atomic

/-- A load of a register list in front of its commit. -/
theorem atomic_loadThen (addr : Word) (regs : List RegNo) {α : Type}
    {k : List (RegNo × Word) → Exec σ α} {a : α} (hk : ∀ vs, Atomic vfp (k vs)) :
    Atomic vfp (loadList B addr regs >>= fun r =>
      match r with
      | none => pure a
      | some vs => k vs) := by
  refine .bind_of (quiet_loadList B _ _) (tells_loadList B _ _) (fun r _ => ?_) fun r hr => ?_
  · cases r with
    | none => exact .pure _
    | some vs => exact hk vs
  · cases r with
    | none => exact .pure _
    | some vs => exact absurd rfl hr

/-- The alignment check of a multiple transfer in front of the transfer. -/
theorem atomic_multiword (va alignment : Word) (write : Bool) {α : Type} {k : Word → Exec σ α}
    {a : α} (hk : ∀ addr, Atomic vfp (k addr)) :
    Atomic vfp (onCpu (prepareMultiwordAddress va alignment write) >>= fun r =>
      match r with
      | none => pure a
      | some addr => k addr) := by
  refine .bind_of (quiet_prepareMultiwordAddress _ _ _)
    (tells_prepareMultiwordAddress _ _ _) (fun r _ => ?_) fun r hr => ?_
  · cases r with
    | none => exact .pure _
    | some addr => exact hk addr
  · cases r with
    | none => exact .pure _
    | some addr => exact absurd rfl hr

/-- The result of a doubleword transfer says that it has not faulted. -/
theorem tells_doublewordTransfer (pc addr : Word) (rd : RegNo) (store : Bool) :
    Rollback.Tells pending (· = true) (doublewordTransfer B pc addr rd store) := by
  refine .bind_of (tells_prepareMultiwordAddress addr 4 store)
    (fun xfer _ => Rollback.Reports.tells ?_) fun xfer hx => ?_
  · cases xfer with
    | none => exact .pure nofun
    | some xfer =>
      refine .either ?_ ?_
      · refine .bind fun c => .bind fun _ => ?_
        refine .checked (fun _ => rfl) (.pure nofun) ?_
        refine Rollback.Reports.tells <| .bind fun c => .bind fun _ => ?_
        exact .of_test fun _ => rfl
      · refine .bind fun lo => ?_
        refine .checked (fun _ => rfl) (.pure nofun) ?_
        refine Rollback.Reports.tells <| Rollback.Reports.bind fun hi => ?_
        refine .checked (fun _ => rfl) (.pure nofun) ?_
        exact fun s hs _ => hs
  · cases xfer with
    | none => exact .pure nofun
    | some xfer => exact absurd rfl hx

theorem atomic_doublewordTransfer (pc addr : Word) (rd : RegNo) (store : Bool) :
    Atomic vfp (doublewordTransfer B pc addr rd store) := by
  refine atomic_multiword _ _ _ fun xfer => .either ?_ ?_
  · refine Rollback.Quiet.atomic <| .bind quiet_getCpu fun c => ?_
    refine .bind (quiet_memW32 B _ _) fun _ => ?_
    refine .bind quiet_abortLatched fun _ => ?_
    refine .either (.pure _) ?_
    refine .bind quiet_getCpu fun c => ?_
    refine .bind (quiet_memW32 B _ _) fun _ => ?_
    exact .bind quiet_abortLatched fun _ => .pure _
  · refine .bind (quiet_memR32 B _) fun lo => ?_
    refine restores_checked (.pure _) ?_
    refine .bind (quiet_memR32 B _) fun hi => ?_
    refine restores_checked (.pure _) ?_
    exact Rollback.Commits.atomic <| .bind (commits_modifyCpu fun _ => rfl) fun _ => .pure _

theorem tells_extraAccess (pc addr : Word) (rd : RegNo) (sh : Nat) (L : Bool) :
    Rollback.Tells pending (· = true) (extraAccess B pc addr rd sh L) := by
  rw [extraAccess]
  by_cases hdouble : (!L && sh != 1) = true
  · rw [if_pos hdouble]
    exact tells_doublewordTransfer B pc addr rd _
  rw [if_neg hdouble]
  refine Rollback.Reports.tells <| .either ?_ ?_
  · refine .bind fun val => ?_
    refine .checked (fun _ => rfl) (.pure nofun) ?_
    exact fun s hs _ => hs
  · refine .bind fun c => .bind fun _ => ?_
    exact .of_test fun _ => rfl

theorem atomic_extraAccess (pc addr : Word) (rd : RegNo) (sh : Nat) (L : Bool) :
    Atomic vfp (extraAccess B pc addr rd sh L) := by
  refine .either (atomic_doublewordTransfer B pc addr rd _) ?_
  refine .either ?_ ?_
  · refine .bind (quiet_extraLoad B sh addr) fun val => ?_
    refine restores_checked (.pure _) ?_
    exact Rollback.Commits.atomic <| .bind (commits_setR rd val) fun _ => .pure _
  · refine Rollback.Quiet.atomic <| .bind quiet_getCpu fun c => ?_
    refine .bind (quiet_memW16 B _ _) fun _ => ?_
    exact .bind quiet_abortLatched fun _ => .pure _

theorem atomic_execExtraTransfer (pc insn next : Word) :
    Atomic vfp (execExtraTransfer B pc insn next) := by
  rw [execExtraTransfer]
  refine .either (.pure _) ?_
  refine .either (.pure _) ?_
  refine .either (.pure _) ?_
  refine .either (.pure _) ?_
  refine .either (.pure _) ?_
  refine .either (.pure _) ?_
  refine .read (fun _ => rfl) fun c => ?_
  refine .either (.pure _) ?_
  refine .either (.pure _) ?_
  refine .seq (atomic_extraAccess B _ _ _ _ _) (tells_extraAccess B _ _ _ _ _)
    (fun done hdone => ?_) fun done hdone => ?_
  · exact .ite
      (fun _ => .bind (commits_guarded (commits_setR _ _)) fun _ =>
        .pure _)
      fun _ => .pure _
  · intro s
    simp only [if_neg hdone, run_pure]

/-! ### Block transfers -/

theorem abortPending_writeBase (t : BlockTransfer) (c : ArmCpu) :
    (t.writeBase c).abortPending = c.abortPending := abortPending_of_plain (plain_writeBase c t)

theorem atomic_blockLoad (t : BlockTransfer) (addr next : Word) :
    Atomic vfp (blockLoad B t addr next) := by
  refine atomic_loadThen B _ _ fun vs => .read (fun _ => rfl) fun c => ?_
  refine .either (.pure _) ?_
  refine .either (.pure _) ?_
  refine .either ?_ ?_
  · refine Rollback.Commits.atomic <| .bind (commits_onCpu fun c => ?_) fun _ => .pure _
    refine (abortPending_of_uncommitted (uncommitted_commitReturn _ vs next)).trans ?_
    exact (abortPending_writeBase t _).trans (abortPending_of_plain (plain_commitList c vs))
  · refine Rollback.Commits.atomic <| .bind (commits_onCpu fun c => ?_) fun _ => ?_
    · exact abortPending_of_uncommitted (uncommitted_commitLoad c t.userBank vs next)
    · exact .bind (commits_modifyCpu (abortPending_writeBase t)) fun _ => .pure _

/-- A store of a register list with the writeback of its base. -/
theorem atomic_storeThen (value : ArmCpu → RegNo → Word) (addr : Word) (regs : List RegNo)
    {α : Type} {k : Exec σ α} {a : α} (hk : Commits k) :
    Atomic vfp (storeList B value addr regs >>= fun b => if b = true then k else pure a) := by
  refine .bind_of (quiet_storeList B _ _ _) (tells_storeList B _ _ _)
    (fun done hdone => ?_) fun done hdone => ?_
  · rw [if_pos hdone]
    exact hk.atomic
  · rw [if_neg hdone]
    exact .pure _

theorem atomic_blockStore (t : BlockTransfer) (pc addr next : Word) :
    Atomic vfp (blockStore B t pc addr next) :=
  atomic_storeThen B _ _ _ <| .bind (commits_guarded (commits_setR t.rn t.wb))
    fun _ => .pure _

theorem atomic_execBlockTransfer (pc insn next : Word) :
    Atomic vfp (execBlockTransfer B pc insn next) := by
  rw [execBlockTransfer]
  refine .either (.pure _) ?_
  refine .either (.pure _) ?_
  refine .read (fun _ => rfl) fun c => ?_
  refine .either (.pure _) ?_
  refine .either (.pure _) ?_
  refine .either (.pure _) ?_
  refine .either (.pure _) ?_
  refine atomic_multiword _ _ _ fun addr => ?_
  exact .either (atomic_blockLoad B _ _ _) (atomic_blockStore B _ _ _ _)

/-! ### Exclusive and swap transfers -/

/-- The alignment check of an exclusive transfer in front of the transfer. -/
theorem atomic_aligned (addr alignment : Word) (write : Bool) {k : Exec σ ArmStatus}
    (hk : Atomic vfp k) :
    Atomic vfp (onCpu (prepareSyncAddress addr alignment write) >>= fun st =>
      match st with
      | some st => pure st
      | none => k) := by
  refine .bind_of (quiet_prepareSyncAddress _ _ _) (tells_prepareSyncAddress _ _ _)
    (fun st hst => ?_) fun st hst => ?_
  · subst hst
    exact hk
  · cases st with
    | some st => exact .pure _
    | none => exact absurd rfl hst

theorem atomic_loadExclusive (w : MemWidth) (insn : Word) :
    Atomic vfp (loadExclusive B w insn) := by
  rw [loadExclusive]
  refine .either (.pure _) ?_
  refine .read (fun _ => rfl) fun c => ?_
  refine atomic_aligned _ _ _ ?_
  refine .bind (quiet_memR B w _) fun v => ?_
  refine restores_checked (.pure _) ?_
  exact Rollback.Commits.atomic <| .bind (commits_modifyCpu fun _ => rfl) fun _ => .pure _

/-- The end of a store-exclusive: the result register of a store that has not faulted, and the
monitor. -/
theorem restores_storeExclusiveEnd (rd : RegNo) :
    Restores vfp (do
      let aborted ← abortLatched
      guarded (¬ aborted) (modifyCpu (·.setR rd 0))
      modifyCpu clearExclusive
      return .ok : Exec σ ArmStatus) := by
  intro s
  have hlatch : (abortLatched : Exec σ Bool) s = (s.cpu.abortPending, s) := rfl
  by_cases hs : s.cpu.abortPending = true
  · refine ⟨fun _ => ?_, ?_⟩
    all_goals
      simp only [run_bind, hlatch, run_guarded, hs, not_true_eq_false, if_false]
      rfl
  · rw [Bool.not_eq_true] at hs
    refine ⟨fun hend => ?_, ?_⟩
    · simp only [run_bind, hlatch, run_guarded, hs] at hend
      exact absurd (hs.symm.trans hend) nofun
    · simp only [run_bind, hlatch, run_guarded, hs]
      rfl

theorem atomic_storeIfExclusive (addr : Word) (rd : RegNo) {store : Exec σ Unit}
    (hstore : Quiet vfp store) : Atomic vfp (storeIfExclusive addr rd store) := by
  refine .read (fun _ => rfl) fun c => ?_
  refine .either ?_ ?_
  · exact .bind hstore fun _ => restores_storeExclusiveEnd rd
  · exact Rollback.Commits.atomic <| .bind (commits_modifyCpu fun _ => rfl) fun _ => .pure _

theorem atomic_execStrex (insn : Word) : Atomic vfp (execStrex B insn) := by
  rw [execStrex]
  refine .either (.pure _) ?_
  refine .read (fun _ => rfl) fun c => ?_
  refine atomic_aligned _ _ _ ?_
  have htranslate := cacheOnly_armMmuTranslate B (c.r (field insn 16)) .write (cpuIsPriv c) 0
  refine .after htranslate.quiet htranslate.commits fun r => ?_
  refine .either ?_ ?_
  · refine Rollback.Quiet.atomic <| .bind (quiet_modifyCpu fun c => ?_) fun _ => .pure _
    exact kept_noteAbort c r.1 _
  · exact atomic_storeIfExclusive _ _ (quiet_memW32 B _ _)

theorem atomic_storeExclusive (w : MemWidth) (insn : Word) :
    Atomic vfp (storeExclusive B w insn) := by
  rw [storeExclusive]
  refine .either (.pure _) ?_
  refine .read (fun _ => rfl) fun c => ?_
  exact atomic_aligned _ _ _ (atomic_storeIfExclusive _ _ (quiet_memW B w _ _))

theorem atomic_execLdrexd (insn : Word) : Atomic vfp (execLdrexd B insn) := by
  rw [execLdrexd]
  refine .either (.pure _) ?_
  refine .read (fun _ => rfl) fun c => ?_
  refine atomic_aligned _ _ _ ?_
  refine .bind (quiet_memR32 B _) fun lo => ?_
  refine restores_checked (.pure _) ?_
  refine .bind (quiet_memR32 B _) fun hi => ?_
  refine restores_checked (.pure _) ?_
  exact Rollback.Commits.atomic <| .bind (commits_modifyCpu fun _ => rfl) fun _ => .pure _

theorem atomic_execStrexd (insn : Word) : Atomic vfp (execStrexd B insn) := by
  rw [execStrexd]
  refine .either (.pure _) ?_
  refine .read (fun _ => rfl) fun c => ?_
  refine atomic_aligned _ _ _ (atomic_storeIfExclusive _ _ ?_)
  refine .bind (quiet_memW32 B _ _) fun _ => ?_
  exact .bind quiet_abortLatched fun _ => quiet_guarded (quiet_memW32 B _ _)

theorem atomic_execSwp (insn : Word) : Atomic vfp (execSwp B insn) := by
  rw [execSwp]
  refine .either (.pure _) ?_
  refine .read (fun _ => rfl) fun c => ?_
  refine .either ?_ ?_
  · exact Rollback.Quiet.atomic <| .bind
      (quiet_modifyCpu fun c => kept_noteAlignmentAbort c _ true) fun _ => .pure _
  refine .bind (quiet_memR B _ _) fun old => ?_
  refine restores_checked (.pure _) ?_
  refine .bind (quiet_memW B _ _ _) fun _ => ?_
  refine restores_checked (.pure _) ?_
  exact Rollback.Commits.atomic <| .bind (commits_setR _ old) fun _ => .pure _

theorem atomic_armSynchronisation (insn : Word) : Atomic vfp (armSynchronisation B insn) := by
  rw [armSynchronisation]
  refine .either (atomic_loadExclusive B .w32 insn) ?_
  refine .either (atomic_execStrex B insn) ?_
  refine .either (atomic_execLdrexd B insn) ?_
  refine .either (atomic_execStrexd B insn) ?_
  refine .either (atomic_loadExclusive B .w8 insn) ?_
  refine .either (atomic_storeExclusive B .w8 insn) ?_
  refine .either (atomic_loadExclusive B .w16 insn) ?_
  refine .either (atomic_storeExclusive B .w16 insn) ?_
  exact .either (atomic_execSwp B insn) <| .pure _

/-! ### VFP transfers -/

theorem quiet_vfpMemR32 (va : Word) : Quiet vfp (vfpMemR32 B va) := by
  refine .bind (quiet_prepareMultiwordAddress va 4 false) fun r => ?_
  cases r with
  | none => exact .pure _
  | some va => exact quiet_memR32 B va

theorem quiet_vfpMemW32 (va v : Word) : Quiet vfp (vfpMemW32 B va v) := by
  refine .bind (quiet_prepareMultiwordAddress va 4 true) fun r => ?_
  cases r with
  | none => exact .pure _
  | some va => exact quiet_memW32 B va v

/-- With the VFP registers left out, the transfer of one is quiet. -/
theorem quiet_vfpTransferD (L : Bool) (addr : Word) (n : Nat) :
    Quiet true (vfpTransferD B L addr n) := by
  refine .either ?_ ?_
  · refine .bind (quiet_vfpMemR32 B _) fun lo => ?_
    refine .bind quiet_abortLatched fun _ => ?_
    refine .either (.pure _) ?_
    refine .bind (quiet_vfpMemR32 B _) fun hi => ?_
    refine .bind quiet_abortLatched fun _ => ?_
    refine .either (.pure _) ?_
    exact .bind (quiet_modifyCpu fun _ => rfl) fun _ => .pure _
  · refine .bind quiet_getCpu fun c => ?_
    refine .bind (quiet_vfpMemW32 B _ _) fun _ => ?_
    refine .bind quiet_abortLatched fun _ => ?_
    refine .either (.pure _) ?_
    refine .bind (quiet_vfpMemW32 B _ _) fun _ => ?_
    exact .bind quiet_abortLatched fun _ => .pure _

theorem quiet_vfpTransferS (L : Bool) (addr : Word) (n : Nat) :
    Quiet true (vfpTransferS B L addr n) := by
  refine .either ?_ ?_
  · refine .bind (quiet_vfpMemR32 B _) fun v => ?_
    refine .bind quiet_abortLatched fun _ => ?_
    refine .either (.pure _) ?_
    exact .bind (quiet_modifyCpu fun _ => rfl) fun _ => .pure _
  · refine .bind quiet_getCpu fun c => ?_
    refine .bind (quiet_vfpMemW32 B _ _) fun _ => ?_
    exact .bind quiet_abortLatched fun _ => .pure _

theorem quiet_vfpReservedWord (L : Bool) (addr : Word) : Quiet vfp (vfpReservedWord B L addr) := by
  refine .either ?_ ?_
  · refine .bind (quiet_vfpMemR32 B _) fun _ => ?_
    exact .bind quiet_abortLatched fun _ => .pure _
  · refine .bind (quiet_vfpMemW32 B _ _) fun _ => ?_
    exact .bind quiet_abortLatched fun _ => .pure _

theorem reports_vfpTransferD (L : Bool) (addr : Word) (n : Nat) :
    Rollback.Reports pending (· = true) (vfpTransferD B L addr n) := by
  refine .either ?_ ?_
  · refine .bind fun lo => ?_
    refine .checked (fun _ => rfl) (.pure nofun) ?_
    refine Rollback.Reports.tells <| .bind fun hi => ?_
    refine .checked (fun _ => rfl) (.pure nofun) ?_
    exact fun s hs _ => hs
  · refine .bind fun c => .bind fun _ => ?_
    refine .checked (fun _ => rfl) (.pure nofun) ?_
    refine Rollback.Reports.tells <| .bind fun _ => ?_
    exact .of_test fun _ => rfl

theorem reports_vfpTransferS (L : Bool) (addr : Word) (n : Nat) :
    Rollback.Reports pending (· = true) (vfpTransferS B L addr n) := by
  refine .either ?_ ?_
  · refine .bind fun v => ?_
    refine .checked (fun _ => rfl) (.pure nofun) ?_
    exact fun s hs _ => hs
  · refine .bind fun c => .bind fun _ => ?_
    exact .of_test fun _ => rfl

theorem reports_vfpReservedWord (L : Bool) (addr : Word) :
    Rollback.Reports pending (· = true) (vfpReservedWord B L addr) := by
  refine .either ?_ ?_
  · exact .bind fun _ => .of_test fun _ => rfl
  · exact .bind fun _ => .of_test fun _ => rfl

theorem quiet_vfpTransferList (dbl L : Bool) (addr : Word) (first : Nat) (is : List Nat) :
    Quiet true (vfpTransferList B dbl L addr first is) := by
  induction is with
  | nil => exact .pure _
  | cons i is ih =>
    have hrest : ∀ done : Bool, Quiet true (if ¬ done = true then pure false
        else vfpTransferList B dbl L addr first is : Exec σ Bool) := fun done =>
      .either (.pure _) ih
    rw [vfpTransferList]
    refine .either ?_ ?_
    · exact .bind (quiet_vfpTransferD B _ _ _) hrest
    · exact .bind (quiet_vfpTransferS B _ _ _) hrest

theorem tells_vfpTransferList (dbl L : Bool) (addr : Word) (first : Nat) (is : List Nat) :
    Rollback.Tells pending (· = true) (vfpTransferList B dbl L addr first is) := by
  induction is with
  | nil => exact fun s hs _ => hs
  | cons i is ih =>
    have hrest : ∀ done : Bool, done = true → Rollback.Tells pending (· = true)
        (if ¬ done = true then pure false
          else vfpTransferList B dbl L addr first is : Exec σ Bool) := by
      intro done hdone
      rw [if_neg (not_not_intro hdone)]
      exact ih
    have hstop : ∀ done : Bool, ¬ done = true → Rollback.Reports pending (· = true)
        (if ¬ done = true then pure false
          else vfpTransferList B dbl L addr first is : Exec σ Bool) := by
      intro done hdone
      rw [if_pos hdone]
      exact .pure nofun
    rw [vfpTransferList]
    cases dbl with
    | true => exact .bind_of (reports_vfpTransferD B _ _ _).tells hrest hstop
    | false => exact .bind_of (reports_vfpTransferS B _ _ _).tells hrest hstop

/-- A quiet transfer that reports its success, in front of the rest of the instruction. -/
theorem atomic_unlessFailed {m : Exec σ Bool} (hm : Quiet vfp m)
    (ht : Rollback.Tells pending (· = true) m) {k : Exec σ ArmStatus} (hk : Atomic vfp k) :
    Atomic vfp (m >>= fun done => if ¬ done = true then pure .ok else k) := by
  refine .bind_of hm ht (fun done hdone => ?_) fun done hdone => ?_
  · rw [if_neg (not_not_intro hdone)]
    exact hk
  · rw [if_pos hdone]
    exact .pure _

theorem atomic_vfpLdstMultiple (insn base : Word) : Atomic true (vfpLdstMultiple B insn base) := by
  rw [vfpLdstMultiple]
  refine .either (.pure _) ?_
  refine .either (.pure _) ?_
  refine .either (.pure _) ?_
  have hbase : ∀ v, Atomic true (do
      guarded (bit insn 21) (modifyCpu (·.setR (field insn 16) v))
      return .ok : Exec σ ArmStatus) := fun v =>
    Rollback.Commits.atomic <| .bind (commits_guarded (commits_setR _ v)) fun _ =>
      .pure _
  refine atomic_unlessFailed (quiet_vfpTransferList B _ _ _ _ _) (tells_vfpTransferList B _ _ _ _ _)
    (.either ?_ ?_)
  · exact atomic_unlessFailed (quiet_vfpReservedWord B _ _) (reports_vfpReservedWord B _ _).tells
      (hbase _)
  · exact atomic_unlessFailed (.pure _) (fun s hs _ => hs) (hbase _)

theorem atomic_vfpLdst (pc insn : Word) : Atomic true (vfpLdst B pc insn) := by
  rw [vfpLdst]
  refine .either (.pure _) ?_
  refine .either (.pure _) ?_
  refine .either (.pure _) ?_
  refine .read (fun _ => rfl) fun c => ?_
  refine .either (atomic_vfpLdstMultiple B _ _) ?_
  refine Rollback.Quiet.atomic <| .either ?_ ?_
  · refine .either (.pure _) ?_
    exact .bind (quiet_vfpTransferD B _ _ _) fun _ => .pure _
  · exact .bind (quiet_vfpTransferS B _ _ _) fun _ => .pure _

/-- The encodings of the VFP loads and stores. -/
def isVfpTransfer (insn : Word) : Bool := insn &&& 0x0e000e00 == 0x0c000a00

/-- A VFP instruction; the VFP registers are left out when it may be a load or a store. -/
theorem atomic_vfpExecute (pc insn : Word) (hvfp : isVfpTransfer insn → vfp = true) :
    Atomic vfp (vfpExecute B fpu pc insn) := by
  rw [vfpExecute]
  refine .read (fun _ => rfl) fun c => ?_
  refine .either (.pure _) ?_
  rw [vfpExecuteInner]
  refine .read (fun _ => rfl) fun c => ?_
  refine .either (.pure _) ?_
  refine .either (.pure _) ?_
  refine .either ?_ ?_
  · exact Rollback.Commits.atomic <| commits_onCpu fun c => abortPending_of_uncommitted (uncommitted_vfpXfer32 c insn)
  refine .either ?_ ?_
  · exact Rollback.Commits.atomic <| commits_onCpu fun c =>
      abortPending_of_plain (ordinary_vfpDp fpu c insn).plain
  refine .either ?_ ?_
  · exact Rollback.Commits.atomic <| commits_onCpu fun c =>
      abortPending_of_plain (ordinary_vfpXfer64 c insn).plain
  refine .ite (fun hldst => ?_) fun _ => .pure _
  rw [hvfp (beq_iff_eq.mpr hldst)]
  exact atomic_vfpLdst B pc insn

/-! ### The coprocessors -/

theorem commits_armMmuTlbFlush : Commits (armMmuTlbFlush : Exec σ Unit) := fun _ => ⟨id, rfl⟩

theorem commits_waitForInterrupt : Commits (waitForInterrupt B) := by
  intro s
  rw [waitForInterrupt]
  cases B.waitForInterrupt <;> exact ⟨id, rfl⟩

theorem atomic_execCoprocessor (pc insn : Word) (hvfp : isVfpTransfer insn → vfp = true) :
    Atomic vfp (execCoprocessor B fpu pc insn) := by
  rw [execCoprocessor]
  refine .read (fun _ => rfl) fun c => ?_
  refine .either ?_ ?_
  · refine .either (.pure _) ?_
    exact Rollback.Commits.atomic <| .bind (commits_guarded (commits_setR _ _)) fun _ => .pure _
  refine .either (atomic_vfpExecute B fpu pc insn hvfp) ?_
  refine .either (.pure _) ?_
  refine .either ?_ ?_
  · refine .either (.pure _) ?_
    refine .either (.pure _) ?_
    exact Rollback.Commits.atomic <| .bind (commits_waitForInterrupt B) fun _ => .pure _
  refine .either (.pure _) ?_
  refine .either ?_ ?_
  · exact Rollback.Commits.atomic <| Rollback.Commits.bind (commits_setR _ _) fun _ => .pure _
  refine Rollback.Commits.atomic <| Rollback.Commits.bind ?_ fun _ => Rollback.Commits.pure _
  refine .bind (fun _ => ⟨id, rfl⟩) fun c => ?_
  refine .bind (commits_modifyCpu fun _ => rfl) fun _ => ?_
  exact commits_guarded commits_armMmuTlbFlush

/-! ### Thumb -/

theorem restores_thumbLoad (rd : RegNo) {load : Exec σ Word} (hload : Quiet vfp load) :
    Restores vfp (thumbLoad rd load) := by
  refine .bind hload fun v => ?_
  refine restores_checked (.pure _) ?_
  exact Rollback.Commits.atomic <| .bind (commits_setR rd v) fun _ => .pure _

theorem restores_thumbWordByte (load byte : Bool) (rd : RegNo) (addr : Word) :
    Restores vfp (thumbWordByte B load byte rd addr) := by
  refine .either (restores_thumbLoad rd (quiet_memR B _ _)) ?_
  refine Rollback.Quiet.restores <| .bind quiet_getCpu fun c => ?_
  exact .bind (quiet_memW B _ _ _) fun _ => .pure _

theorem restores_thumbSigned (op : Nat) (rd : RegNo) (addr : Word) :
    Restores vfp (thumbSigned B op rd addr) := by
  refine .bind quiet_getCpu fun c => ?_
  refine .either (.pure _) ?_
  refine .either ?_ ?_
  · exact Rollback.Quiet.restores <| .bind (quiet_memW16 B _ _) fun _ => .pure _
  · exact restores_thumbLoad rd (quiet_extraLoad B _ _)

theorem restores_thumbRegisterOffset (insn : Word) :
    Restores vfp (thumbRegisterOffset B insn) := by
  refine .bind quiet_getCpu fun c => ?_
  exact .ite (fun _ => restores_thumbSigned B _ _ _) fun _ => restores_thumbWordByte B _ _ _ _

theorem restores_thumbImmediateOffset (insn : Word) :
    Restores vfp (thumbImmediateOffset B insn) :=
  .bind quiet_getCpu fun _ => restores_thumbWordByte B _ _ _ _

theorem restores_thumbHalfword (insn : Word) : Restores vfp (thumbHalfword B insn) := by
  refine .bind quiet_getCpu fun c => ?_
  refine .either (.pure _) ?_
  refine .either (restores_thumbLoad _ (quiet_memR16 B _)) ?_
  exact Rollback.Quiet.restores <| .bind (quiet_memW16 B _ _) fun _ => .pure _

theorem atomic_thumbPop (list : Word) (extra : Bool) (next : Word) :
    Atomic vfp (thumbPop B list extra next) := by
  refine .read (fun _ => rfl) fun c => ?_
  refine atomic_multiword _ _ _ fun addr => ?_
  refine atomic_loadThen B _ _ fun vs => ?_
  refine .either (.pure _) ?_
  refine Rollback.Commits.atomic <| .bind (commits_modifyCpu fun c => ?_) fun _ => ?_
  · exact abortPending_of_plain (plain_commitList c _)
  refine .either ?_ <| .pure _
  exact .bind (commits_guarded (commits_modifyCpu fun _ => rfl)) fun _ => .pure _

theorem atomic_thumbPush (list : Word) (extra : Bool) : Atomic vfp (thumbPush B list extra) := by
  refine .read (fun _ => rfl) fun c => ?_
  refine atomic_multiword _ _ _ fun addr => ?_
  refine atomic_storeThen B _ _ _ ?_
  exact .bind (commits_setR _ _) fun _ => .pure _

theorem atomic_thumbMultiple (insn : Word) : Atomic vfp (thumbMultiple B insn) := by
  refine .read (fun _ => rfl) fun c => ?_
  refine .either (.pure _) ?_
  refine .either (.pure _) ?_
  refine atomic_multiword _ _ _ fun addr => ?_
  refine .either ?_ ?_
  · refine atomic_loadThen B _ _ fun vs => ?_
    refine Rollback.Commits.atomic <| .bind (commits_modifyCpu fun c => ?_) fun _ => .pure _
    have hlist := abortPending_of_plain (plain_commitList c vs)
    split
    · exact hlist
    · exact hlist
  · refine atomic_storeThen B _ _ _ ?_
    exact .bind (commits_setR _ _) fun _ => .pure _

theorem commits_onPlain {α : Type} {f : ArmCpu → α × ArmCpu} (h : ∀ c, (f c).2.plain = c.plain) :
    Commits (onCpu f : Exec σ α) := commits_onCpu fun c => abortPending_of_plain (h c)

theorem atomic_modifyThen {α : Type} {f : ArmCpu → ArmCpu} {a : α}
    (h : ∀ c, (f c).abortPending = c.abortPending) :
    Atomic vfp (do modifyCpu f; pure a : Exec σ α) :=
  Rollback.Commits.atomic <| .bind (commits_modifyCpu h) fun _ =>
    .pure a

theorem atomic_thumbMiscellaneous (insn next : Word) :
    Atomic vfp (thumbMiscellaneous B insn next) := by
  rw [thumbMiscellaneous]
  refine .either (atomic_modifyThen fun _ => rfl) ?_
  refine .either ?_ ?_
  · refine .either (.pure _) ?_
    refine .either (atomic_thumbPop B _ _ _) ?_
    exact .map _ (atomic_thumbPush B _ _)
  refine .either (atomic_modifyThen fun _ => rfl) ?_
  refine .either ?_ ?_
  · exact Rollback.Commits.atomic <| .bind (commits_onPlain fun c =>
      (ordinary_thumbReverse c insn).plain) fun _ => .pure _
  refine .either (atomic_modifyThen fun c => ?_) ?_
  · rw [thumbCps]
    split
    · exact abortPending_of_uncommitted (uncommitted_cpsMasks c _ _ _ _)
    · rfl
  exact .either (.pure _) <| .pure _

theorem atomic_thumbRegister (pc insn next : Word) :
    Atomic vfp (thumbRegister B pc insn next) := by
  rw [thumbRegister]
  refine .either (atomic_modifyThen fun c => ?_) ?_
  · exact abortPending_of_plain (plain_thumbAlu c insn)
  refine .either ?_ ?_
  · exact Rollback.Commits.atomic <| commits_onPlain fun c => (ordinary_thumbHiReg c pc insn next).plain
  · exact .map _ (restores_thumbLoad _ (quiet_memR32 B _)).atomic

/-! ### The supervisor call -/

/-- The platform's hook is not asked about a supervisor call in this state. -/
def svcUnhooked (s : Sys σ) : Prop := B.privilegedSvcHandler = none ∨ ¬ cpuIsPriv s.cpu

theorem privilegedSvcResult_unhooked {s : Sys σ} (h : svcUnhooked B s) (pc encoding : Word) :
    privilegedSvcResult B pc encoding s = (.unhandled, s) := by
  rw [privilegedSvcResult]
  rcases h with h | h
  · rw [h]
  · cases B.privilegedSvcHandler with
    | none => rfl
    | some handler => simp only [if_pos h]

theorem execSvc_unhooked {s : Sys σ} (h : svcUnhooked B s) (pc encoding retAddr next : Word) :
    execSvc B pc encoding retAddr next s =
      ((.ok, (takeException s.cpu armVecSwi armModeSvc retAddr false).2),
        { s with cpu := (takeException s.cpu armVecSwi armModeSvc retAddr false).1 }) := by
  simp only [execSvc, run_bind, privilegedSvcResult_unhooked B h]
  rfl

theorem atomicAt_execSvc {s : Sys σ} (h : svcUnhooked B s) (pc encoding retAddr next : Word) :
    Rollback.AtomicAt pending (keptBy vfp) Sys.aborts (execSvc B pc encoding retAddr next) s := by
  intro hs
  rw [execSvc_unhooked B h]
  refine ⟨fun hend => ?_, rfl⟩
  have hlatch := abortPending_takeException s.cpu armVecSwi armModeSvc retAddr false
  rw [pending, hlatch] at hend
  exact absurd (hs.symm.trans hend) nofun

/-! ### The decoders -/

/-- The supervisor calls of both instruction sets. -/
def isSvc (thumb : Bool) (insn : Word) : Bool :=
  if thumb then field insn 12 == 13 && field insn 8 == 15 else insn &&& 0x0f000000 == 0x0f000000

/-- A conditional ARM instruction is atomic. -/
theorem armConditional_atomic (pc insn next : Word) (hvfp : isVfpTransfer insn → vfp = true)
    {s : Sys σ} (hsvc : isSvc false insn → svcUnhooked B s) :
    Rollback.AtomicAt pending (keptBy vfp) Sys.aborts (armConditional B fpu pc insn next) s := by
  rw [armConditional]
  have hdp : Atomic vfp (onCpu (execDataProcessing pc insn next) : Exec σ (ArmStatus × Word)) :=
    Rollback.Commits.atomic <| commits_onCpu fun c => abortPending_of_uncommitted (uncommitted_execDataProcessing c pc insn next)
  refine Rollback.AtomicAt.either (hdp s) ?_
  refine Rollback.AtomicAt.either ?_ ?_
  · exact Rollback.Commits.atomic (commits_onPlain fun c => plain_execBranch c pc insn) s
  refine Rollback.AtomicAt.either ?_ ?_
  · exact Rollback.Atomic.map _
      (Rollback.Commits.atomic (commits_onPlain fun c => (ordinary_execMultiply c pc insn).plain)) s
  refine Rollback.AtomicAt.either ?_ ?_
  · exact Rollback.Atomic.map _
      (Rollback.Commits.atomic (commits_onPlain fun c => (ordinary_execMultiplyLong c pc insn).plain)) s
  refine Rollback.AtomicAt.either ?_ ?_
  · exact Rollback.Atomic.map _
      (Rollback.Commits.atomic (commits_onPlain fun c => (ordinary_execDspMultiply c insn).plain)) s
  refine Rollback.AtomicAt.either ?_ ?_
  · exact Rollback.Atomic.map _
      (Rollback.Commits.atomic (commits_onPlain fun c => (ordinary_execMedia c pc insn).plain)) s
  refine Rollback.AtomicAt.either ?_ ?_
  · exact (restores_execSingleTransfer B pc insn next).atomic s
  refine Rollback.AtomicAt.either (atomic_execBlockTransfer B pc insn next s) ?_
  refine Rollback.AtomicAt.either (atomic_execExtraTransfer B pc insn next s) ?_
  refine Rollback.AtomicAt.either ?_ ?_
  · exact Rollback.Atomic.map _ (atomic_armSynchronisation B insn) s
  refine Rollback.AtomicAt.either ?_ ?_
  · exact Rollback.Atomic.map _ (atomic_execCoprocessor B fpu pc insn hvfp) s
  refine Rollback.AtomicAt.either ?_ ?_
  · exact Rollback.Atomic.map _ (atomic_vfpExecute B fpu pc insn hvfp) s
  refine Rollback.AtomicAt.ite (fun h => ?_) fun _ => ?_
  · exact atomicAt_execSvc B (hsvc (beq_iff_eq.mpr h)) pc insn (pc + 4) next
  exact Rollback.AtomicAt.either (hdp s) <| Rollback.Atomic.pure _ s

/-- A Thumb instruction is atomic. -/
theorem thumbStep_atomic (pc insn next : Word) {s : Sys σ}
    (hsvc : isSvc true insn → svcUnhooked B s) :
    Rollback.AtomicAt pending (keptBy vfp) Sys.aborts (thumbStep B pc insn next) s := by
  rw [thumbStep]
  have hshift : Atomic vfp (do modifyCpu (thumbShiftAdd insn); pure (.ok, next) :
      Exec σ (ArmStatus × Word)) :=
    atomic_modifyThen fun c => abortPending_of_plain (plain_thumbShiftAdd c insn)
  have himm : Atomic vfp (do modifyCpu (thumbImmediate insn); pure (.ok, next) :
      Exec σ (ArmStatus × Word)) :=
    atomic_modifyThen fun c => abortPending_of_plain (plain_thumbImmediate c insn)
  have hoffset : Atomic vfp (do return (← thumbImmediateOffset B insn, next) :
      Exec σ (ArmStatus × Word)) :=
    Rollback.Atomic.map _ (restores_thumbImmediateOffset B insn).atomic
  split
  case h_1 | h_2 => exact hshift s
  case h_3 | h_4 => exact himm s
  case h_5 => exact atomic_thumbRegister B pc insn next s
  case h_6 => exact Rollback.Atomic.map _ (restores_thumbRegisterOffset B insn).atomic s
  case h_7 | h_8 => exact hoffset s
  case h_9 => exact Rollback.Atomic.map _ (restores_thumbHalfword B insn).atomic s
  case h_10 =>
    exact Rollback.Atomic.read (fun _ => rfl)
      (fun c => Rollback.Atomic.map _ (restores_thumbWordByte B _ _ _ _).atomic) s
  case h_11 =>
    exact atomic_modifyThen (fun c => abortPending_of_plain (plain_thumbAddress c pc insn)) s
  case h_12 => exact atomic_thumbMiscellaneous B insn next s
  case h_13 => exact Rollback.Atomic.map _ (atomic_thumbMultiple B insn) s
  case h_14 h =>
    rw [thumbConditional]
    refine Rollback.AtomicAt.ite (fun hcond => ?_) fun _ => ?_
    · refine atomicAt_execSvc B (hsvc ?_) pc insn (pc + 2) next
      have h13 : field insn 12 = 13 := BitVec.eq_of_toNat_eq h
      rw [isSvc, if_pos rfl, h13, hcond]
      rfl
    refine Rollback.AtomicAt.either (Rollback.Atomic.pure _ s) ?_
    exact Rollback.Atomic.read (fun _ => rfl) (fun c => Rollback.Atomic.pure _) s
  case h_15 =>
    refine Rollback.Commits.atomic (Rollback.Commits.bind (commits_onPlain fun c => ?_) fun _ =>
      Rollback.Commits.pure _) s
    exact plain_thumbBranch c pc insn
  case h_16 =>
    refine Rollback.Commits.atomic (Rollback.Commits.bind (commits_onPlain fun c => ?_) fun _ =>
      Rollback.Commits.pure _) s
    exact plain_thumbBl c pc insn next

end Exec

end S5LBox
