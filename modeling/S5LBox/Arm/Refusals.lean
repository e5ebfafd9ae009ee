import S5LBox.Arm.Confinement
import S5LBox.Arm.ReadOnly
import S5LBox.Arm.SvcSeam

/-!
# Undefined instructions

An instruction that is not defined is refused, often after some decoding and sometimes for a value
it has just loaded. Nothing is written before that: each refusal in the decoders comes before every
commit, and behind the test of the latch where a load precedes it.

## Main definitions

* `RefusesInsn`, `RefusesPair`: a run that ends undefined has only read.

## Main results

* one lemma for each group of instructions, such as `refuses_execBlockTransfer`.
* `undefined_untouched`: a step that ends undefined has only read.
-/

namespace S5LBox

open StateProgram Refusal

namespace Exec

variable {σ α β : Type} (B : ArmBus σ)

/-- A run that ends undefined has only read. -/
abbrev RefusesInsn (m : Exec σ ArmStatus) : Prop := Refuses (Untouched B) (· = .undefined) m

/-- The same with the next program counter. -/
abbrev RefusesPair (m : Exec σ (ArmStatus × Word)) : Prop :=
  Refuses (Untouched B) (·.1 = .undefined) m

variable {B}

theorem ok_ne_undefined : ¬ArmStatus.ok = .undefined := nofun

theorem neverPair_ok {m : Exec σ α} {f : α → Word} :
    Never (fun r : ArmStatus × Word => r.1 = .undefined)
      (m >>= fun a => pure (.ok, f a) : Exec σ (ArmStatus × Word)) :=
  .bind fun _ => .pure ok_ne_undefined

theorem never_ok {m : Exec σ α} :
    Never (· = .undefined) (m >>= fun _ => pure .ok : Exec σ ArmStatus) :=
  .bind fun _ => .pure ok_ne_undefined

theorem RefusesInsn.onCpu {f : ArmCpu → ArmStatus × ArmCpu}
    (h : ∀ c, (f c).1 = .undefined → (f c).2 = c) :
    RefusesInsn B (Exec.onCpu f : Exec σ ArmStatus) :=
  fun s hs => ⟨congrArg ArmCpu.uncounted (h s.cpu hs), .refl⟩

theorem RefusesPair.onCpu {f : ArmCpu → (ArmStatus × Word) × ArmCpu}
    (h : ∀ c, (f c).1.1 = .undefined → (f c).2 = c) :
    RefusesPair B (Exec.onCpu f : Exec σ (ArmStatus × Word)) :=
  fun s hs => ⟨congrArg ArmCpu.uncounted (h s.cpu hs), .refl⟩

theorem Ordinary.eq_of_undefined {c c' : ArmCpu} {st : ArmStatus} (h : Ordinary c st c')
    (hst : st = .undefined) : c' = c := by
  cases h with
  | ok h => cases hst
  | refused => rfl

theorem RefusesInsn.ordinary {f : ArmCpu → ArmStatus × ArmCpu}
    (h : ∀ c, Ordinary c (f c).1 (f c).2) : RefusesInsn B (Exec.onCpu f : Exec σ ArmStatus) :=
  RefusesInsn.onCpu fun c => Ordinary.eq_of_undefined (h c)

theorem RefusesInsn.sequential {m : Exec σ ArmStatus} (h : RefusesInsn B m) (next : Word) :
    RefusesPair B (Exec.sequential next m) := h

/-! ### Data processing -/

section DataProcessing

variable {c : ArmCpu}

/-- An outcome that is a refusal only with the core as it was. -/
def RefusesCore (c : ArmCpu) (r : Retired) : Prop := r.1.1 = .undefined → r.2 = c

theorem RefusesCore.refused {st : ArmStatus × Word} : RefusesCore c (st, c) := fun _ => rfl

theorem RefusesCore.ok {next : Word} {c' : ArmCpu} : RefusesCore c ((.ok, next), c') := nofun

theorem RefusesCore.ite {p : Prop} [Decidable p] {x y : Retired} (hx : RefusesCore c x)
    (hy : RefusesCore c y) : RefusesCore c (if p then x else y) := by
  split
  · exact hx
  · exact hy

theorem msrCpsr_undefined {mask val : Word} (h : (msrCpsr c mask val).1 = .undefined) :
    (msrCpsr c mask val).2 = c := by
  simp only [msrCpsr] at h ⊢
  split_ifs at h ⊢
  all_goals rfl

theorem execMiscellaneous_undefined (pc insn next : Word) :
    RefusesCore c (execMiscellaneous pc insn next c) := by
  rw [execMiscellaneous]
  refine .ite (.ite .refused .ok) ?_
  refine .ite (.ite .refused (.ite .refused .ok)) ?_
  refine .ite .ok (.ite .ok ?_)
  refine .ite (.ite .refused .ok) (.ite (.ite (.ite .refused .ok) ?_) .refused)
  exact fun h => msrCpsr_undefined h

theorem execDataProcessing_undefined (pc insn next : Word) :
    RefusesCore c (execDataProcessing pc insn next c) := by
  rw [execDataProcessing]
  refine .ite (.ite .refused .ok) ?_
  refine .ite (execMiscellaneous_undefined pc insn next) ?_
  refine .ite .refused (.ite .refused ?_)
  exact .ite (.ite .ok .ok) .ok

theorem execBranch_ok (c : ArmCpu) (pc insn : Word) :
    ¬(execBranch pc insn c).1.1 = .undefined := ok_ne_undefined

theorem armCps_undefined {insn next : Word} (h : (armCps insn next c).1 = .undefined) :
    (armCps insn next c).2 = c := by
  simp only [armCps] at h ⊢
  split_ifs at h ⊢
  rfl

theorem undefinedInstruction_undefined {pc insn : Word}
    (h : (undefinedInstruction pc insn c).1 = .undefined) :
    (undefinedInstruction pc insn c).2 = c := by
  rw [undefinedInstruction] at h ⊢
  split_ifs at h ⊢
  rfl

theorem vfpXfer32_undefined {insn : Word} (h : (vfpXfer32 insn c).1 = .undefined) :
    (vfpXfer32 insn c).2 = c := by
  obtain hord | hrefused | ⟨-, v, hok⟩ := vfpXfer32_cases c insn
  · exact Ordinary.eq_of_undefined hord h
  · rw [hrefused]
  · rw [hok] at h
    cases h

end DataProcessing

/-! ### ARM transfers -/

section Transfers

variable (B)

theorem refuses_execSingleTransfer (pc insn next : Word) :
    RefusesPair B (execSingleTransfer B pc insn next) := by
  rw [execSingleTransfer]
  refine .either (.pure _) ?_
  refine .either (.pure _) ?_
  refine .either (.pure _) ?_
  refine .either (.pure _) ?_
  refine .bind untouched_getCpu fun c => ?_
  refine .either ?load ?store
  case load =>
    refine .either ?_ ?_
    · exact .either neverPair_ok.refuses <| .pure _
    refine .checked (fun _ => rfl) (readsOnly_memRAs B _ _ _)
      (fun _ => .pure ok_ne_undefined) fun val => ?_
    -- the value itself may be refused, as a target of the program counter
    refine Refuses.either (Refuses.pure _) <| Never.refuses ?_
    refine .bind fun _ => .either ?_ ?_
    · exact .bind fun next => .bind fun _ => neverPair_ok
    · exact .bind fun next => .bind fun _ => neverPair_ok
  case store =>
    refine Never.refuses (Never.bind fun _ => Never.bind fun aborted => ?_)
    exact .either (.pure ok_ne_undefined) neverPair_ok

theorem refuses_execExtraTransfer (pc insn next : Word) :
    RefusesPair B (execExtraTransfer B pc insn next) := by
  rw [execExtraTransfer]
  refine .either (.pure _) ?_
  refine .either (.pure _) ?_
  refine .either (.pure _) ?_
  refine .either (.pure _) ?_
  refine .either (.pure _) ?_
  refine .either (.pure _) ?_
  refine .bind untouched_getCpu fun c => ?_
  refine .either (.pure _) ?_
  refine .either (.pure _) ?_
  refine Never.refuses (.bind fun done => ?_)
  exact .either neverPair_ok <| .pure ok_ne_undefined

theorem refuses_blockLoad (t : BlockTransfer) (addr next : Word) :
    RefusesPair B (blockLoad B t addr next) := by
  refine .bind_some (refuses_loadList B _ _) (.pure ok_ne_undefined) fun vs => ?_
  refine .bind untouched_getCpu fun c => ?_
  refine .either (.pure _) ?_
  refine Refuses.either (Refuses.pure _) <| Never.refuses ?_
  exact .either neverPair_ok <| .bind fun next => neverPair_ok

theorem never_blockStore (t : BlockTransfer) (pc addr next : Word) :
    Never (·.1 = .undefined) (blockStore B t pc addr next) :=
  .bind fun _ => .either neverPair_ok <| .pure ok_ne_undefined

theorem refuses_execBlockTransfer (pc insn next : Word) :
    RefusesPair B (execBlockTransfer B pc insn next) := by
  rw [execBlockTransfer]
  refine .either (.pure _) ?_
  refine .either (.pure _) ?_
  refine .bind untouched_getCpu fun c => ?_
  refine .either (.pure _) ?_
  refine .either (.pure _) ?_
  refine .either (.pure _) ?_
  refine .either (.pure _) ?_
  refine .bind_some (refuses_prepareMultiwordAddress B _ 4 _)
    (.pure ok_ne_undefined) fun addr => ?_
  exact .ite (fun _ => refuses_blockLoad B _ addr next) fun _ =>
    (never_blockStore B _ pc addr next).refuses

/-- SRS is refused for the mode that it names or is in. -/
theorem refuses_execSrs (pc insn next : Word) : RefusesInsn B (execSrs B pc insn next) := by
  rw [execSrs]
  refine .bind untouched_getCpu fun c => ?_
  refine .either (.pure _) ?_
  refine Refuses.either (Refuses.pure _) <| Never.refuses ?_
  refine .bind fun base => ?_
  have hlatched : ∀ {k : Exec σ ArmStatus}, Never (· = .undefined) k →
      Never (· = .undefined) (takeLatchedAbort pc k) := fun hk =>
    .bind fun _ => .either never_ok hk
  cases base with
  | none => exact never_ok
  | some base =>
    refine .bind fun _ => hlatched (.bind fun _ => hlatched ?_)
    exact .bind fun _ => never_ok

/-- RFE is refused for the state that it has loaded. -/
theorem refuses_execRfe (pc insn : Word) : RefusesInsn B (execRfe B pc insn) := by
  rw [execRfe]
  refine .bind untouched_getCpu fun c => ?_
  refine .either (.pure _) ?_
  refine .either (.pure _) ?_
  refine .bind_some (refuses_prepareMultiwordAddress B _ 4 false) never_ok fun base => ?_
  refine .checked (fun _ => rfl) (readsOnly_memR32 B base) (fun _ => never_ok) fun newPc => ?_
  refine .checked (fun _ => rfl) (readsOnly_memR32 B _) (fun _ => never_ok) fun newCpsr => ?_
  refine .either (.pure _) ?_
  exact .either (.pure _) never_ok.refuses

/-! ### Exclusive and swap transfers -/

/-- The alignment check of an exclusive transfer, in front of one that is not refused. -/
theorem refuses_syncAddress (addr alignment : Word) (write : Bool) {k : Exec σ ArmStatus}
    (hk : Never (· = .undefined) k) :
    RefusesInsn B (onCpu (prepareSyncAddress addr alignment write) >>= fun st =>
      match st with
      | some st => pure st
      | none => k) := by
  refine .bind_of (refuses_prepareSyncAddress B addr alignment write) (fun st _ => ?_)
    fun st hst => ?_
  · cases st with
    | none => exact hk.refuses
    | some st => exact .pure _
  · obtain rfl := not_not.mp hst
    exact .pure ok_ne_undefined

theorem never_checked {k : Exec σ ArmStatus} (hk : Never (· = .undefined) k) :
    Never (· = .undefined) (abortLatched >>= fun b => if b = true then pure .ok else k) :=
  .bind fun _ => .either (.pure ok_ne_undefined) hk

theorem refuses_loadExclusive (w : MemWidth) (insn : Word) :
    RefusesInsn B (loadExclusive B w insn) := by
  refine .either (.pure _) ?_
  refine .bind untouched_getCpu fun c => refuses_syncAddress B _ _ false ?_
  exact .bind fun v => never_checked never_ok

theorem never_storeIfExclusive (addr : Word) (rd : RegNo) (store : Exec σ Unit) :
    Never (· = .undefined) (storeIfExclusive addr rd store) := by
  refine .bind fun c => .either ?_ never_ok
  exact .bind fun _ => .bind fun aborted => .bind fun _ => never_ok

theorem refuses_execStrex (insn : Word) : RefusesInsn B (execStrex B insn) := by
  refine .either (.pure _) ?_
  refine .bind untouched_getCpu fun c => refuses_syncAddress B _ _ true ?_
  exact .bind fun r => .either never_ok <| never_storeIfExclusive _ _ _

theorem refuses_storeExclusive (w : MemWidth) (insn : Word) :
    RefusesInsn B (storeExclusive B w insn) := by
  refine .either (.pure _) ?_
  exact .bind untouched_getCpu fun c =>
    refuses_syncAddress B _ _ true (never_storeIfExclusive _ _ _)

theorem refuses_execLdrexd (insn : Word) : RefusesInsn B (execLdrexd B insn) := by
  refine .either (.pure _) ?_
  refine .bind untouched_getCpu fun c => refuses_syncAddress B _ _ false ?_
  exact .bind fun lo => never_checked (.bind fun hi => never_checked never_ok)

theorem refuses_execStrexd (insn : Word) : RefusesInsn B (execStrexd B insn) := by
  refine .either (.pure _) ?_
  exact .bind untouched_getCpu fun c =>
    refuses_syncAddress B _ _ true (never_storeIfExclusive _ _ _)

theorem refuses_execSwp (insn : Word) : RefusesInsn B (execSwp B insn) := by
  refine .either (.pure _) ?_
  refine Refuses.bind untouched_getCpu fun c => Never.refuses ?_
  refine .either never_ok <| .bind fun old => never_checked ?_
  exact .bind fun _ => never_checked never_ok

theorem refuses_armSynchronisation (insn : Word) : RefusesInsn B (armSynchronisation B insn) := by
  rw [armSynchronisation]
  refine .either (refuses_loadExclusive B _ _) ?_
  refine .either (refuses_execStrex B _) ?_
  refine .either (refuses_execLdrexd B _) ?_
  refine .either (refuses_execStrexd B _) ?_
  refine .either (refuses_loadExclusive B _ _) ?_
  refine .either (refuses_storeExclusive B _ _) ?_
  refine .either (refuses_loadExclusive B _ _) ?_
  refine .either (refuses_storeExclusive B _ _) ?_
  exact .either (refuses_execSwp B _) <| .pure _

end Transfers

/-! ### The coprocessors -/

section Coprocessors

variable (B) (fpu : HostFpu)

theorem refuses_vfpLdstMultiple (insn base : Word) : RefusesInsn B (vfpLdstMultiple B insn base) := by
  rw [vfpLdstMultiple]
  refine .either (.pure _) ?_
  refine .either (.pure _) ?_
  refine Refuses.either (Refuses.pure _) <| Never.refuses ?_
  refine .bind fun done => .either (.pure ok_ne_undefined) ?_
  refine .either ?_ ?_
  · exact .bind fun done => .either (.pure ok_ne_undefined) never_ok
  · exact .bind fun done => .either (.pure ok_ne_undefined) never_ok

/-- The addressing mode and the registers of a VFP transfer are judged before the first access. -/
theorem refusesInsn_vfpLdst (pc insn : Word) : RefusesInsn B (vfpLdst B pc insn) := by
  rw [vfpLdst]
  refine .either (.pure _) ?_
  refine .either (.pure _) ?_
  refine .either (.pure _) ?_
  refine .bind untouched_getCpu fun c => ?_
  refine .either (refuses_vfpLdstMultiple B _ _) ?_
  refine .either ?_ never_ok.refuses
  exact .either (.pure _) never_ok.refuses

theorem refusesInsn_vfpExecute (pc insn : Word) : RefusesInsn B (vfpExecute B fpu pc insn) := by
  rw [vfpExecute]
  refine .bind untouched_getCpu fun c => ?_
  refine .either (.pure _) ?_
  rw [vfpExecuteInner]
  refine .bind untouched_getCpu fun c => ?_
  refine .either (.pure _) ?_
  refine .either (.pure _) ?_
  refine .either (RefusesInsn.onCpu fun c => vfpXfer32_undefined) ?_
  refine .either (RefusesInsn.ordinary fun c => ordinary_vfpDp fpu c insn) ?_
  refine .either (RefusesInsn.ordinary fun c => ordinary_vfpXfer64 c insn) ?_
  exact .either (refusesInsn_vfpLdst B pc insn) <| .pure _

theorem refusesInsn_execCoprocessor (pc insn : Word) :
    RefusesInsn B (execCoprocessor B fpu pc insn) := by
  rw [execCoprocessor]
  refine .bind untouched_getCpu fun c => ?_
  refine .either ?_ ?_
  · exact .either (.pure _) never_ok.refuses
  refine .either (refusesInsn_vfpExecute B fpu pc insn) ?_
  refine .either (.pure _) ?_
  refine .either ?_ ?_
  · refine .either (.pure _) ?_
    exact .either (.pure _) never_ok.refuses
  refine .either (.pure _) ?_
  exact .either never_ok.refuses never_ok.refuses

theorem never_execSvc (pc encoding ret next : Word) :
    Never (·.1 = .undefined) (execSvc B pc encoding ret next) := by
  intro s hs
  obtain hok | hhalt := execSvc_status (B := B) pc encoding ret next s
  · rw [hok] at hs
    cases hs
  · rw [hhalt] at hs
    cases hs

end Coprocessors

/-! ### Thumb -/

section Thumb

variable (B)

theorem refuses_thumbLoad (rd : RegNo) (load : Exec σ Word) : RefusesInsn B (thumbLoad rd load) :=
  Never.refuses (.bind fun _ => never_checked never_ok)

theorem refuses_thumbWordByte (load byte : Bool) (rd : RegNo) (addr : Word) :
    RefusesInsn B (thumbWordByte B load byte rd addr) := by
  refine Refuses.either (refuses_thumbLoad B rd _) <| Never.refuses ?_
  exact .bind fun c => never_ok

theorem refuses_thumbRegisterOffset (insn : Word) : RefusesInsn B (thumbRegisterOffset B insn) := by
  refine .bind untouched_getCpu fun c => ?_
  refine .either ?_ <| refuses_thumbWordByte B _ _ _ _
  refine .bind untouched_getCpu fun c => ?_
  refine .either (.pure _) ?_
  exact .either never_ok.refuses <| refuses_thumbLoad B _ _

theorem refuses_thumbHalfword (insn : Word) : RefusesInsn B (thumbHalfword B insn) := by
  refine .bind untouched_getCpu fun c => ?_
  refine .either (.pure _) ?_
  exact .either (refuses_thumbLoad B _ _) never_ok.refuses

theorem refuses_thumbPop (list : Word) (extra : Bool) (next : Word) :
    RefusesPair B (thumbPop B list extra next) := by
  refine .bind untouched_getCpu fun c => ?_
  refine .bind_some (refuses_prepareMultiwordAddress B _ 4 false)
    (.pure ok_ne_undefined) fun addr => ?_
  refine .bind_some (refuses_loadList B _ _) (.pure ok_ne_undefined) fun vs => ?_
  refine Refuses.either (Refuses.pure _) <| Never.refuses (Never.bind fun _ => ?_)
  exact .either neverPair_ok <| .pure ok_ne_undefined

theorem never_thumbPush (list : Word) (extra : Bool) :
    Never (· = .undefined) (thumbPush B list extra) := by
  refine .bind fun c => .bind fun addr => ?_
  cases addr with
  | none => exact .pure ok_ne_undefined
  | some addr =>
    exact .bind fun done => .either never_ok <| .pure ok_ne_undefined

theorem refuses_thumbMiscellaneous (insn next : Word) :
    RefusesPair B (thumbMiscellaneous B insn next) := by
  rw [thumbMiscellaneous]
  refine .either neverPair_ok.refuses ?_
  refine .either ?_ ?_
  · refine .either (.pure _) ?_
    refine .either (refuses_thumbPop B _ _ next) ?_
    exact RefusesInsn.sequential (never_thumbPush B _ _).refuses next
  refine .either neverPair_ok.refuses ?_
  refine .either ?_ ?_
  · exact RefusesInsn.sequential (RefusesInsn.ordinary fun c => ordinary_thumbReverse c insn) next
  refine .either neverPair_ok.refuses ?_
  exact .either (.pure _) <| .pure _

theorem refuses_thumbMultiple (insn : Word) : RefusesInsn B (thumbMultiple B insn) := by
  refine .bind untouched_getCpu fun c => ?_
  refine .either (.pure _) ?_
  refine Refuses.either (Refuses.pure _) <| Never.refuses (Never.bind fun addr => ?_)
  cases addr with
  | none => exact .pure ok_ne_undefined
  | some addr =>
    refine .either (.bind fun r => ?_) <| .bind fun done => ?_
    · cases r with
      | none => exact .pure ok_ne_undefined
      | some vs => exact never_ok
    · exact .either never_ok <| .pure ok_ne_undefined

theorem refuses_thumbRegister (pc insn next : Word) :
    RefusesPair B (thumbRegister B pc insn next) := by
  rw [thumbRegister]
  refine .either neverPair_ok.refuses ?_
  refine .either (RefusesPair.onCpu fun c h => ?_) ?_
  · exact Ordinary.eq_of_undefined (ordinary_thumbHiReg c pc insn next) h
  · exact RefusesInsn.sequential (refuses_thumbLoad B _ _) next

theorem refuses_thumbConditional (pc insn next : Word) :
    RefusesPair B (thumbConditional B pc insn next) := by
  refine .either ((never_execSvc B pc insn _ next).refuses) ?_
  exact .either (.pure _) neverPair_ok.refuses

theorem refuses_thumbStep (pc insn next : Word) : RefusesPair B (thumbStep B pc insn next) := by
  rw [thumbStep]
  split
  · exact neverPair_ok.refuses
  · exact neverPair_ok.refuses
  · exact neverPair_ok.refuses
  · exact neverPair_ok.refuses
  · exact refuses_thumbRegister B pc insn next
  · exact RefusesInsn.sequential (refuses_thumbRegisterOffset B insn) next
  · exact RefusesInsn.sequential
      (.bind untouched_getCpu fun c => refuses_thumbWordByte B _ _ _ _) next
  · exact RefusesInsn.sequential
      (.bind untouched_getCpu fun c => refuses_thumbWordByte B _ _ _ _) next
  · exact RefusesInsn.sequential (refuses_thumbHalfword B insn) next
  · exact .bind untouched_getCpu fun c =>
      RefusesInsn.sequential (refuses_thumbWordByte B _ _ _ _) next
  · exact neverPair_ok.refuses
  · exact refuses_thumbMiscellaneous B insn next
  · exact RefusesInsn.sequential (refuses_thumbMultiple B insn) next
  · exact refuses_thumbConditional B pc insn next
  · exact neverPair_ok.refuses
  · exact neverPair_ok.refuses

end Thumb

/-! ### The step -/

section Step

variable (B) (fpu : HostFpu)

theorem refuses_armUnconditional (pc insn next : Word) :
    RefusesInsn B (armUnconditional B pc insn next) := by
  rw [armUnconditional]
  refine .either never_ok.refuses ?_
  refine .either never_ok.refuses ?_
  refine .either (RefusesInsn.onCpu fun c => armCps_undefined) ?_
  refine .either never_ok.refuses ?_
  refine .either (refuses_execSrs B pc insn next) ?_
  refine .either (refuses_execRfe B pc insn) ?_
  refine .either ?_ <| RefusesInsn.onCpu fun c => undefinedInstruction_undefined
  exact .either (.pure _) never_ok.refuses

theorem refuses_armConditional (pc insn next : Word) :
    RefusesPair B (armConditional B fpu pc insn next) := by
  have hdp : RefusesPair B (onCpu (execDataProcessing pc insn next) : Exec σ (ArmStatus × Word)) :=
    RefusesPair.onCpu fun c => execDataProcessing_undefined pc insn next
  rw [armConditional]
  refine .either hdp ?_
  refine .either (RefusesPair.onCpu fun c h => ?_) ?_
  · exact absurd h (execBranch_ok c pc insn)
  refine .either ?_ ?_
  · exact RefusesInsn.sequential (RefusesInsn.ordinary fun c => ordinary_execMultiply c pc insn) next
  refine .either ?_ ?_
  · exact RefusesInsn.sequential
      (RefusesInsn.ordinary fun c => ordinary_execMultiplyLong c pc insn) next
  refine .either ?_ ?_
  · exact RefusesInsn.sequential (RefusesInsn.ordinary fun c => ordinary_execDspMultiply c insn) next
  refine .either ?_ ?_
  · exact RefusesInsn.sequential (RefusesInsn.ordinary fun c => ordinary_execMedia c pc insn) next
  refine .either (refuses_execSingleTransfer B pc insn next) ?_
  refine .either (refuses_execBlockTransfer B pc insn next) ?_
  refine .either (refuses_execExtraTransfer B pc insn next) ?_
  refine .either ?_ ?_
  · exact RefusesInsn.sequential (refuses_armSynchronisation B insn) next
  refine .either ?_ ?_
  · exact RefusesInsn.sequential (refusesInsn_execCoprocessor B fpu pc insn) next
  refine .either ?_ ?_
  · exact RefusesInsn.sequential (refusesInsn_vfpExecute B fpu pc insn) next
  refine .either ((never_execSvc B pc insn _ next).refuses) ?_
  exact .either hdp <| .pure _

/-- The end of a Thumb instruction hands a refusal on. -/
theorem refuses_thumbRetire {pc : Word} {m : Exec σ (ArmStatus × Word)} (hm : RefusesPair B m) :
    RefusesInsn B (m >>= thumbRetire pc) := by
  refine .bind_of hm (fun r hr => ?_) fun r hr => ?_
  · refine .either (.pure _) ?_
    refine .tested (fun _ => rfl) never_ok (.bind ?_ fun _ => .pure _)
    exact untouched_guarded fun hok => absurd (hok.symm.trans hr) nofun
  · refine .either (.pure nofun) ?_
    refine .bind fun _ => .either never_ok ?_
    exact .bind fun _ => .pure hr

/-- The end of an ARM instruction makes a refusal the guest's exception, or hands it on. -/
theorem refuses_armRetire {pc insn : Word} {m : Exec σ (ArmStatus × Word)} (hm : RefusesPair B m) :
    RefusesInsn B (m >>= armRetire pc insn) := by
  refine .bind_of hm (fun r hr => ?_) fun r hr => ?_
  · refine .either (.pure _) ?_
    refine .tested (fun _ => rfl) never_ok ?_
    refine .either never_ok.refuses ?_
    refine .ite (fun _ => RefusesInsn.onCpu fun c => undefinedInstruction_undefined) fun hno => ?_
    exact absurd hr hno
  · refine .either (.pure nofun) ?_
    refine .bind fun _ => .either never_ok ?_
    refine .either never_ok <| .ite (fun h => absurd h hr) fun _ => ?_
    exact .bind fun _ => .pure hr

theorem refuses_armInsn (pc insn : Word) : RefusesInsn B (armInsn B fpu pc insn) := by
  refine .bind (untouched_modifyCpu fun _ => rfl) fun _ => ?_
  refine .either (refuses_armUnconditional B pc insn _) ?_
  refine .bind untouched_getCpu fun c => ?_
  refine .either never_ok.refuses ?_
  exact refuses_armRetire B (refuses_armConditional B fpu pc insn _)

theorem refuses_armStep : RefusesInsn B (armStep B fpu) := by
  refine .bind untouched_getCpu fun c => ?_
  refine .either (.pure _) ?_
  refine .either never_ok.refuses ?_
  refine .either never_ok.refuses ?_
  refine .bind_some (refuses_fetchInsn B _) (.pure ok_ne_undefined) fun insn => ?_
  refine .bind untouched_getCpu fun c => ?_
  refine .either ?_ <| refuses_armInsn B fpu _ insn
  refine .bind (untouched_modifyCpu fun _ => rfl) fun _ => ?_
  exact refuses_thumbRetire B (refuses_thumbStep B _ insn _)

end Step

/-- A step that ends undefined leaves the core as it was, but for its caches and its count of
instructions, and nothing has been stored: the bus has seen the reads of the fetch, of translations
and of a load whose value is refused, and the fetch policy of the platform. -/
theorem undefined_untouched (B : ArmBus σ) (fpu : HostFpu) {s : Sys σ}
    (h : (armStep B fpu s).1 = .undefined) :
    (armStep B fpu s).2.cpu.uncounted = s.cpu.uncounted ∧
      BusReads B s.bus (armStep B fpu s).2.bus :=
  ⟨(refuses_armStep B fpu s h).core, (refuses_armStep B fpu s h).bus⟩

/-- A load of the program counter is refused for the address that it has loaded. -/
theorem undefined_untouched_load :
    let s : Sys Unit := {
      cpu := { cpsr := armModeSvc, r := fun n => if n = 1 then 2 else 0 }
      bus := () }
    (armStep (constantBus 0xe591f002) zeroFpu s).2.cpu.uncounted = s.cpu.uncounted ∧
      BusReads (constantBus 0xe591f002) () (armStep (constantBus 0xe591f002) zeroFpu s).2.bus :=
  undefined_untouched (constantBus 0xe591f002) zeroFpu
    (s := { cpu := { cpsr := armModeSvc, r := fun n => if n = 1 then 2 else 0 }, bus := () })
    (by decide)

/-- A memory of one word everywhere, which the platform replaces as it is asked about a fetch. -/
def policyBus (w w' : Word) : ArmBus Bool where
  read32 b _ := (if b then w' else w, b)
  read16 b _ := ((if b then w' else w).setWidth 16, b)
  read8 b _ := ((if b then w' else w).setWidth 8, b)
  write32 b _ _ := b
  write16 b _ _ := b
  write8 b _ _ := b
  prepareFetch := some fun _ _ _ _ => true

/-- Memory need not be as it was: the platform may publish a change of its own when it is asked
about the fetch of an undefined instruction. -/
theorem undefined_policy :
    let B := policyBus 0xe7f000f2 0xe7f001f2
    let s : Sys Bool := {
      cpu := { cpsr := armModeUsr, cp15 := { sctlr := armSctlrM, dacr := 0xffffffff } }
      bus := false }
    (armStep B zeroFpu s).1 = .undefined ∧
      (B.read32 (armStep B zeroFpu s).2.bus 0).1 ≠ (B.read32 s.bus 0).1 := by
  decide

end Exec

end S5LBox
