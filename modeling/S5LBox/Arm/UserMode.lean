import S5LBox.Arm.Confinement
import S5LBox.Arm.PreciseAborts

/-!
# User mode is confined

One step of a core in User mode takes an exception or leaves the privileged part of the core
alone. The exception is entered from a core whose status register is the one the step started
with: an instruction that latches a fault keeps it, and an instruction that is refused in the
coprocessor space has not begun.

## Main definitions

* `TakesException`: an exception, with its vector and its saved status register.
* `Exec.Refuses`: programs whose refusals leave the core alone.

## Main results

* `armStep_userConfined`: a step in User mode; `armRun_userConfined`: a run.
-/

namespace S5LBox

open Blocks StateProgram WriteLog

/-- The exceptions of the core: a vector and the mode of its handler. -/
def isArchException (vector mode : Word) : Prop :=
  (vector, mode) ∈ [(armVecUndefined, armModeUnd), (armVecSwi, armModeSvc),
    (armVecPrefetch, armModeAbt), (armVecDataAbort, armModeAbt), (armVecIrq, armModeIrq),
    (armVecFiq, armModeFiq)]

instance (vector mode : Word) : Decidable (isArchException vector mode) :=
  inferInstanceAs (Decidable ((vector, mode) ∈ _))

/-- From `c` the core has taken an exception: it runs the handler's mode from the vector that
SCTLR.V selects, and the handler's bank holds the status register from before. Only when a fault
is latched already at the start, which no step leaves behind, may the instruction come first. -/
def TakesException (c c' : ArmCpu) : Prop :=
  ∃ d vector mode ret maskFiq, isArchException vector mode ∧
    c' = enterException d vector mode ret maskFiq ∧
      (c.abortPending = false → d.cpsr = c.cpsr) ∧ c'.mode = mode ∧
        c'.r 15 = vectorBase c + vector ∧ c'.spsr (armBankOfMode mode) = d.cpsr

theorem isArchException.valid {vector mode : Word} (h : isArchException vector mode) :
    armModeIsValid mode ∧ mode &&& armCpsrModeMask = mode := by
  simp only [isArchException, List.mem_cons, Prod.mk.injEq, List.mem_nil_iff, or_false] at h
  obtain ⟨-, rfl⟩ | ⟨-, rfl⟩ | ⟨-, rfl⟩ | ⟨-, rfl⟩ | ⟨-, rfl⟩ | ⟨-, rfl⟩ := h <;> decide

/-- Exception entry from a core that agrees with `c` on the status register and SCTLR. -/
theorem takesException_of {c d : ArmCpu} {vector mode : Word} (ret : Word) (maskFiq : Bool)
    (harch : isArchException vector mode) (hsctlr : d.cp15.sctlr = c.cp15.sctlr)
    (hcpsr : c.abortPending = false → d.cpsr = c.cpsr) :
    TakesException c (enterException d vector mode ret maskFiq) := by
  obtain ⟨hvalid, hmask⟩ := harch.valid
  have hmap := regMap_enterException d vector mode ret maskFiq hvalid
  have hbank : (enterException d vector mode ret maskFiq).mode = mode :=
    (enterException_mode d vector mode ret maskFiq hvalid).trans hmask
  refine ⟨d, vector, mode, ret, maskFiq, harch, rfl, hcpsr, hbank, ?_, ?_⟩
  · have hpc := congrFun hmap .pc
    have hbase : vectorBase d = vectorBase c := by
      rw [vectorBase, vectorBase, hsctlr]
    rw [← hbase]
    exact hpc
  · have hspsr := congrFun hmap (.spsr (armBankOfMode mode))
    have hlast : writeAll d.regMap [(.spsr (armBankOfMode mode), d.cpsr),
        (.lr (armBankOfMode mode), ret), (.pc, vectorBase d + vector)]
          (.spsr (armBankOfMode mode)) = d.cpsr := by
      simp only [writeAll]
      simp
    exact hspsr.trans hlast

namespace Exec

variable {σ α : Type} (B : ArmBus σ) (fpu : HostFpu)

/-! ### Refusals -/

/-- The program leaves the core alone unless it completes, and it never stops the platform. -/
def Refuses (m : Exec σ ArmStatus) : Prop :=
  ∀ s, (m s).1 = .ok ∨ (m s).1 ≠ .halt ∧ (m s).2.cpu = s.cpu

/-- The program ends with a completed instruction. -/
def Completes (m : Exec σ ArmStatus) : Prop := ∀ s, (m s).1 = .ok

theorem Completes.pure : Completes (pure .ok : Exec σ ArmStatus) := fun _ => rfl

theorem Completes.bind (m : Exec σ α) {f : α → Exec σ ArmStatus} (hf : ∀ a, Completes (f a)) :
    Completes (m >>= f) := fun s => hf (m s).1 (m s).2

theorem Completes.ite {p : Prop} [Decidable p] {m n : Exec σ ArmStatus} (hm : Completes m)
    (hn : Completes n) : Completes (if p then m else n) := by
  by_cases h : p
  · rw [if_pos h]
    exact hm
  · rw [if_neg h]
    exact hn

theorem Completes.refuses {m : Exec σ ArmStatus} (h : Completes m) : Refuses m :=
  fun s => .inl (h s)

theorem Refuses.undefined : Refuses (pure .undefined : Exec σ ArmStatus) :=
  fun _ => .inr ⟨nofun, rfl⟩

theorem Refuses.read {f : ArmCpu → Exec σ ArmStatus} (hf : ∀ c, Refuses (f c)) :
    Refuses (getCpu >>= f) := fun s => hf s.cpu s

theorem Refuses.ite {p : Prop} [Decidable p] {m n : Exec σ ArmStatus} (hm : p → Refuses m)
    (hn : ¬p → Refuses n) : Refuses (if p then m else n) :=
  iteInduction hm hn

theorem Refuses.either {p : Prop} [Decidable p] {m n : Exec σ ArmStatus} (hm : Refuses m)
    (hn : Refuses n) : Refuses (if p then m else n) :=
  .ite (fun _ => hm) fun _ => hn

theorem Refuses.ordinary {f : ArmCpu → ArmStatus × ArmCpu}
    (h : ∀ c, Ordinary c (f c).1 (f c).2) : Refuses (onCpu f : Exec σ ArmStatus) := by
  intro s
  have hcpu := h s.cpu
  rw [onCpu]
  generalize f s.cpu = r at hcpu
  obtain ⟨st, c⟩ := r
  cases hcpu with
  | ok h => exact .inl rfl
  | refused => exact .inr ⟨by rintro ⟨⟩, rfl⟩

theorem Refuses.completes (m : Exec σ α) : Refuses (m >>= fun _ => pure .ok) :=
  (Completes.bind m fun _ => .pure).refuses

theorem refuses_vfpLdst (pc insn : Word) : Refuses (vfpLdst B pc insn) := by
  rw [vfpLdst]
  refine .either .undefined ?_
  refine .either .undefined ?_
  refine .either .undefined ?_
  refine .read fun c => ?_
  refine .either ?_ ?_
  · rw [vfpLdstMultiple]
    refine .either .undefined ?_
    refine .either .undefined ?_
    refine .either .undefined ?_
    refine (Completes.bind _ fun done => .ite .pure ?_).refuses
    refine .ite ?_ ?_
    all_goals
      refine .bind _ fun done => .ite .pure ?_
      exact .bind _ fun _ => .pure
  refine .either ?_ <| .completes _
  exact .either .undefined <| .completes _

theorem refuses_vfpXfer32 (insn : Word) : Refuses (onCpu (vfpXfer32 insn) : Exec σ ArmStatus) := by
  intro s
  obtain h | h | ⟨-, v, h⟩ := vfpXfer32_cases s.cpu insn
  · rw [onCpu]
    generalize vfpXfer32 insn s.cpu = r at h
    obtain ⟨st, c⟩ := r
    cases h with
    | ok h => exact .inl rfl
    | refused => exact .inr ⟨by rintro ⟨⟩, rfl⟩
  · rw [onCpu, h]
    exact .inr ⟨by rintro ⟨⟩, rfl⟩
  · rw [onCpu, h]
    exact .inl rfl

theorem refuses_vfpExecute (pc insn : Word) : Refuses (vfpExecute B fpu pc insn) := by
  rw [vfpExecute]
  refine .read fun c => .either .undefined ?_
  rw [vfpExecuteInner]
  refine .read fun c => ?_
  refine .either .undefined ?_
  refine .either .undefined ?_
  refine .either (refuses_vfpXfer32 insn) ?_
  refine .either (.ordinary fun c => ordinary_vfpDp fpu c insn) ?_
  refine .either (.ordinary fun c => ordinary_vfpXfer64 c insn) ?_
  exact .either (refuses_vfpLdst B pc insn) .undefined

theorem refuses_execCoprocessor (pc insn : Word) : Refuses (execCoprocessor B fpu pc insn) := by
  rw [execCoprocessor]
  refine .read fun c => ?_
  refine .either ?_ ?_
  · exact .either .undefined <| .completes _
  refine .either (refuses_vfpExecute B fpu pc insn) ?_
  refine .either .undefined ?_
  refine .either ?_ ?_
  · refine .either .undefined ?_
    exact .either .undefined <| .completes _
  refine .either .undefined ?_
  exact .either (.completes _) <| .completes _

/-! ### Decoding -/

section Decoding

/-- The coprocessor and supervisor-call space. -/
def isHighSpace (insn : Word) : Prop := insn &&& 0x0c000000 = 0x0c000000

theorem not_isHighSpace {insn m v : Word} (h : insn &&& m = v)
    (hm : m &&& 0x0c000000 = 0x0c000000) (hv : v &&& 0x0c000000 ≠ 0x0c000000) :
    ¬ isHighSpace insn := fun hhigh => hv ((and_part h hm).symm.trans hhigh)

theorem isHighSpace_of {insn m v : Word} (h : insn &&& m = v)
    (hm : m &&& 0x0c000000 = 0x0c000000) (hv : v &&& 0x0c000000 = 0x0c000000) :
    isHighSpace insn := (and_part h hm).trans hv

/-- A conditional instruction of the VFP space is one of the coprocessor space. -/
theorem isHighSpace_of_vfp {insn : Word} (hcond : field insn 28 ≠ 15)
    (h : insnIsVfpSpace insn = true) : isHighSpace insn := by
  have hnever : ∀ {m v : Word}, insn &&& m = v → m &&& 0xf0000000 = 0xf0000000 →
      v &&& 0xf0000000 = 0xf0000000 → isHighSpace insn := by
    intro m v hmask hm hv
    have htop : insn &&& (0xf0000000 : Word) = 0xf0000000 := (and_part hmask hm).trans hv
    have hfield := congrArg (fun x : Word => x.extractLsb' 28 4) htop
    have hones : BitVec.extractLsb' 28 4 (0xf0000000 : Word) = BitVec.allOnes 4 := by decide
    rw [BitVec.extractLsb'_and, hones, BitVec.and_allOnes] at hfield
    exact absurd hfield hcond
  simp only [insnIsVfpSpace, Bool.or_eq_true, beq_iff_eq] at h
  obtain ((((h | h) | h) | h) | h) | h := h
  · exact hnever h (by decide) (by decide)
  · exact isHighSpace_of h (by decide) (by decide)
  · exact isHighSpace_of h (by decide) (by decide)
  · exact hnever h (by decide) (by decide)
  · exact isHighSpace_of h (by decide) (by decide)
  · exact isHighSpace_of h (by decide) (by decide)

/-- The instructions below the coprocessor space are confined. -/
theorem confines_armConditional (pc insn next : Word) (hlow : ¬ isHighSpace insn) :
    Confines True SettledPair (armConditional B fpu pc insn next) := by
  have hdp : Confines True SettledPair
      (onCpu (execDataProcessing pc insn next) : Exec σ (ArmStatus × Word)) :=
    .onCpu
      (fun _ c hmode => privileged_of_plain (ordinary_execDataProcessing hmode pc insn next).plain)
      fun c => settled_execDataProcessing c pc insn next
  rw [armConditional]
  refine .either hdp ?_
  refine .either ?_ ?_
  · exact .onCpu (fun _ c _ => privileged_of_plain (plain_execBranch c pc insn)) fun _ =>
      settled_ok
  refine .either ?_ ?_
  · exact .thumb (.ordinary fun c => ordinary_execMultiply c pc insn) next
  refine .either ?_ ?_
  · exact .thumb (.ordinary fun c => ordinary_execMultiplyLong c pc insn) next
  refine .either ?_ ?_
  · exact .thumb (.ordinary fun c => ordinary_execDspMultiply c insn) next
  refine .either ?_ ?_
  · exact .thumb (.ordinary fun c => ordinary_execMedia c pc insn) next
  refine .either (confines_execSingleTransfer B pc insn next) ?_
  refine .either (confines_execBlockTransfer B pc insn next) ?_
  refine .either (confines_execExtraTransfer B pc insn next) ?_
  refine .either (.thumb (confines_armSynchronisation B insn) next) ?_
  refine .ite (fun h => absurd (isHighSpace_of h (by decide) (by decide)) hlow) fun _ => ?_
  refine .ite (fun h => ?_) fun _ => ?_
  · obtain h | h := h
    · exact absurd (isHighSpace_of h (by decide) (by decide)) hlow
    · exact absurd (isHighSpace_of h (by decide) (by decide)) hlow
  refine .ite (fun h => absurd (isHighSpace_of h (by decide) (by decide)) hlow) fun _ => ?_
  exact .either hdp <| .pure settled_undefined

/-- The decoder in the coprocessor space. -/
theorem armConditional_high (pc insn next : Word) (hhigh : isHighSpace insn) :
    armConditional B fpu pc insn next =
      if insn &&& 0x0f000010 = 0x0e000010 then sequential next (execCoprocessor B fpu pc insn)
      else if insn &&& 0x0f000e10 = 0x0e000a00 ∨ insn &&& 0x0e000e00 = 0x0c000a00 then
        sequential next (vfpExecute B fpu pc insn)
      else if insn &&& 0x0f000000 = 0x0f000000 then execSvc B pc insn (pc + 4) next
      else pure (.undefined, next) := by
  have hno : ∀ {m v : Word}, m &&& 0x0c000000 = 0x0c000000 → v &&& 0x0c000000 ≠ 0x0c000000 →
      insn &&& m ≠ v := fun hm hv h => not_isHighSpace h hm hv hhigh
  have hdp : insn &&& 0x0c000000 ≠ 0 := hno (by decide) (by decide)
  have hhoisted : ¬ isHoistedDataProcessing insn = true := by
    intro h
    rw [isHoistedDataProcessing, Bool.and_eq_true, Bool.and_eq_true, beq_iff_eq] at h
    exact hdp h.1.1
  rw [armConditional, if_neg hhoisted, if_neg, if_neg, if_neg, if_neg, if_neg, if_neg, if_neg,
    if_neg, if_neg, if_neg hdp]
  · exact fun h => hno (by decide) (by decide) h.1
  · exact fun h => hno (by decide) (by decide) h.1
  · exact hno (by decide) (by decide)
  · exact hno (by decide) (by decide)
  · exact fun h => hno (by decide) (by decide) h.1
  · exact hno (by decide) (by decide)
  · exact hno (by decide) (by decide)
  · exact hno (by decide) (by decide)
  · exact fun h => h.elim (hno (by decide) (by decide)) (hno (by decide) (by decide))

/-- A Thumb instruction is a supervisor call, or it is confined. -/
theorem thumbStep_cases (pc insn next : Word) :
    thumbStep B pc insn next = execSvc B pc insn (pc + 2) next ∨
      Confines True SettledPair (thumbStep B pc insn next) := by
  have hshift : Confines True SettledPair (do modifyCpu (thumbShiftAdd insn); pure (.ok, next) :
      Exec σ (ArmStatus × Word)) := confines_modifyThen (fun c => plain_thumbShiftAdd c insn) next
  have himm : Confines True SettledPair (do modifyCpu (thumbImmediate insn); pure (.ok, next) :
      Exec σ (ArmStatus × Word)) := confines_modifyThen (fun c => plain_thumbImmediate c insn) next
  have hoffset : Confines True SettledPair (do return (← thumbImmediateOffset B insn, next) :
      Exec σ (ArmStatus × Word)) :=
    .thumb (.seq (.quiet quiet_getCpu) fun c =>
      confines_thumbWordByte B _ _ _ _) next
  rw [thumbStep]
  split
  case h_14 =>
    rw [thumbConditional]
    split
    · exact .inl rfl
    refine .inr (.either (.pure settled_undefined) ?_)
    exact .seq (.quiet quiet_getCpu) fun c => .pure settled_ok
  all_goals refine .inr ?_
  case h_1 | h_2 => exact hshift
  case h_3 | h_4 => exact himm
  case h_5 => exact confines_thumbRegister B pc insn next
  case h_6 =>
    refine .thumb (.seq (.quiet quiet_getCpu) fun c => ?_) next
    exact .ite (fun _ => confines_thumbSigned B _ _ _) fun _ => confines_thumbWordByte B _ _ _ _
  case h_7 | h_8 => exact hoffset
  case h_9 => exact .thumb (confines_thumbHalfword B insn) next
  case h_10 =>
    refine .seq (.quiet quiet_getCpu) fun c => ?_
    exact .thumb (confines_thumbWordByte B _ _ _ _) next
  case h_11 => exact confines_modifyThen (fun c => plain_thumbAddress c pc insn) next
  case h_12 => exact confines_thumbMiscellaneous B insn next
  case h_13 => exact .thumb (confines_thumbMultiple B insn) next
  case h_15 =>
    exact .seq (.onPlain fun c => plain_thumbBranch c pc insn) fun _ => .pure settled_ok
  case h_16 =>
    exact .seq (.onPlain fun c => plain_thumbBl c pc insn next) fun _ => .pure settled_ok

end Decoding

/-! ### The step -/

section Steps

/-- What a step in User mode may do. -/
def UserConfined (c c' : ArmCpu) : Prop := TakesException c c' ∨ c'.privileged = c.privileged

theorem sctlr_of_privileged {c c' : ArmCpu} (h : c'.privileged = c.privileged) :
    c'.cp15.sctlr = c.cp15.sctlr := by
  have hsctlr := congrArg (fun d : ArmCpu => d.cp15.sctlr) h
  exact hsctlr

theorem UserConfined.of_eq {c c' : ArmCpu} (h : c' = c) : UserConfined c c' :=
  .inr (congrArg ArmCpu.privileged h)

theorem userConfined_undefinedInstruction {c d : ArmCpu} (pc insn : Word)
    (h : d.privileged = c.privileged) (htrap : insnIsVfpSpace insn = true → d.cpsr = c.cpsr) :
    UserConfined c (undefinedInstruction pc insn d).2 := by
  rw [undefinedInstruction]
  split
  case isTrue hlazy =>
    rw [vfpLazyEnableTrap, Bool.and_eq_true] at hlazy
    exact .inl (takesException_of _ _ (by decide) (sctlr_of_privileged h) fun _ => htrap hlazy.1)
  case isFalse => exact .inr h

/-- A latched fault becomes a data abort, from a core whose status register is the old one. -/
theorem userConfined_latched {c : ArmCpu} {s : Sys σ} (pc : Word) {k : Exec σ ArmStatus}
    (hsctlr : s.cpu.cp15.sctlr = c.cp15.sctlr)
    (hcpsr : c.abortPending = false → pending s = true → s.cpu.cpsr = c.cpsr)
    (hk : pending s = false → UserConfined c (k s).2.cpu) :
    UserConfined c (takeLatchedAbort pc k s).2.cpu := by
  have hrun : takeLatchedAbort pc k s =
      if pending s = true then (do takeDataAbort pc; pure .ok : Exec σ ArmStatus) s else k s := by
    rw [takeLatchedAbort, run_bind, run_ite]
    rfl
  rw [hrun]
  by_cases hpending : pending s = true
  · rw [if_pos hpending]
    exact .inl (takesException_of _ _ (by decide) hsctlr fun hlatch => hcpsr hlatch hpending)
  · rw [if_neg hpending]
    exact hk (Bool.not_eq_true _ ▸ hpending)

/-- The result of a supervisor call that the platform is not asked about. -/
def svcResult (s : Sys σ) (ret : Word) : (ArmStatus × Word) × Sys σ :=
  ((.ok, (takeException s.cpu armVecSwi armModeSvc ret false).2),
    { s with cpu := (takeException s.cpu armVecSwi armModeSvc ret false).1 })

/-- A supervisor call and the end of its step. -/
theorem userConfined_svc (s : Sys σ) (pc ret : Word) {k : Exec σ ArmStatus}
    (hk : (k (svcResult s ret).2).2.cpu =
      enterException s.cpu armVecSwi armModeSvc ret false) :
    UserConfined s.cpu (takeLatchedAbort pc k (svcResult s ret).2).2.cpu := by
  have hsctlr : (svcResult s ret).2.cpu.cp15.sctlr = s.cpu.cp15.sctlr :=
    congrArg Cp15.sctlr (enterException_frame s.cpu armVecSwi armModeSvc ret false).1
  have hlatch : (svcResult s ret).2.cpu.abortPending = s.cpu.abortPending :=
    abortPending_takeException _ _ _ _ _
  refine userConfined_latched pc hsctlr (fun hclear hpending => ?_) fun _ => ?_
  · have hset : s.cpu.abortPending = true := hlatch.symm.trans hpending
    exact absurd (hclear.symm.trans hset) nofun
  · rw [hk]
    exact .inl (takesException_of ret false (by decide) rfl fun _ => rfl)

variable {s : Sys σ} (hmode : s.cpu.mode = armModeUsr) (pc : Word)

include hmode

theorem not_cpuIsPriv : ¬ cpuIsPriv s.cpu = true := by
  rw [cpuIsPriv, Bool.not_eq_true, bne_eq_false_iff_eq]
  exact hmode

/-- The unconditional space in User mode. -/
theorem userConfined_armUnconditional (insn next : Word) :
    UserConfined s.cpu (armUnconditional B pc insn next s).2.cpu := by
  have hpriv := not_cpuIsPriv hmode
  rw [armUnconditional, run_ite]
  split
  · exact .inr rfl
  rw [run_ite]
  split
  · exact .inr rfl
  rw [run_ite]
  split
  · refine .inr ?_
    rw [onCpu, armCps, if_pos hpriv]
    rfl
  rw [run_ite]
  split
  · exact .inr (privileged_of_plain (plain_setT (s.cpu.setR 14 (pc + 4))))
  rw [run_ite]
  split
  · refine UserConfined.of_eq ?_
    rw [execSrs, run_getCpu, run_ite, if_pos (.inl hmode)]
    rfl
  rw [run_ite]
  split
  · refine UserConfined.of_eq ?_
    rw [execRfe, run_getCpu, run_ite, if_pos hpriv]
    rfl
  rw [run_ite]
  split
  · rw [run_ite]
    split
    · exact .inr rfl
    · exact .inr rfl
  · exact userConfined_undefinedInstruction pc insn rfl fun _ => rfl

/-- A conditional instruction in User mode that is no supervisor call keeps the privileged part.
It completes, or it is refused before it has begun, or it lies outside of the VFP space. -/
structure ConfinedRun (insn : Word) (s : Sys σ) (r : (ArmStatus × Word) × Sys σ) : Prop where
  kept : r.2.cpu.privileged = s.cpu.privileged
  answered : r.1.1 ≠ .halt
  refused : r.1.1 = .ok ∨ r.2.cpu = s.cpu ∨ r.1.1 = .undefined ∧ insnIsVfpSpace insn = false

theorem armConditional_user (insn next : Word) (hcond : field insn 28 ≠ 15) :
    armConditional B fpu pc insn next s = svcResult s (pc + 4) ∨
      ConfinedRun insn s (armConditional B fpu pc insn next s) := by
  have hpriv := not_cpuIsPriv hmode
  have hcoprocessor : ∀ m : Exec σ ArmStatus, Confines True Answered m → Refuses m →
      ConfinedRun insn s (sequential next m s) := by
    intro m hm href
    refine ⟨(hm s).1 trivial hmode, (hm s).2, ?_⟩
    exact (href s).imp id fun h => .inl h.2
  by_cases hhigh : isHighSpace insn
  · rw [armConditional_high B fpu pc insn next hhigh, run_ite]
    split
    · exact .inr (hcoprocessor _ (confines_execCoprocessor B fpu pc insn)
        (refuses_execCoprocessor B fpu pc insn))
    rw [run_ite]
    split
    · exact .inr (hcoprocessor _ (confines_vfpExecute B fpu pc insn)
        (refuses_vfpExecute B fpu pc insn))
    rw [run_ite]
    split
    · exact .inl (execSvc_unhooked B (.inr hpriv) pc insn (pc + 4) next)
    · exact .inr ⟨rfl, nofun, .inr (.inl rfl)⟩
  · obtain ⟨hkept, hsettled⟩ := confines_armConditional B fpu pc insn next hhigh s
    refine .inr ⟨hkept trivial hmode, hsettled.answered, hsettled.imp id fun h => .inr ⟨h, ?_⟩⟩
    rw [← Bool.not_eq_true]
    exact fun hvfp => hhigh (isHighSpace_of_vfp hcond hvfp)

omit hmode in
/-- The end of a conditional ARM instruction in User mode. -/
theorem userConfined_armRetire (insn : Word) {r : (ArmStatus × Word) × Sys σ}
    (hrun : ConfinedRun insn s r)
    (hcpsr : s.cpu.abortPending = false → pending r.2 = true → r.2.cpu.cpsr = s.cpu.cpsr) :
    UserConfined s.cpu (armRetire pc insn r.1 r.2).2.cpu := by
  obtain ⟨hkept, hanswered, hrefused⟩ := hrun
  rw [armRetire, run_ite, if_neg hanswered]
  refine userConfined_latched pc (sctlr_of_privileged hkept) hcpsr fun _ => ?_
  rw [run_ite]
  split
  case isTrue hguest =>
    -- the gate of the VFP unit refuses before it begins
    have hsame : r.2.cpu = s.cpu := by
      obtain h | h | h := hrefused
      · cases hguest.symm.trans h
      · exact h
      · cases hguest.symm.trans h.1
    exact .inl (takesException_of _ _ (by decide) (sctlr_of_privileged hkept)
      fun _ => congrArg ArmCpu.cpsr hsame)
  rw [run_ite]
  split
  case isTrue hundefined =>
    refine userConfined_undefinedInstruction pc insn hkept fun hvfp => ?_
    obtain h | h | h := hrefused
    · cases hundefined.symm.trans h
    · exact congrArg ArmCpu.cpsr h
    · cases hvfp.symm.trans h.2
  case isFalse =>
    refine .inr (Eq.trans ?_ hkept)
    rw [run_bind, run_guarded]
    split <;> rfl

theorem userConfined_armInsn (insn : Word) :
    UserConfined s.cpu (armInsn B fpu pc insn s).2.cpu := by
  let s₁ : Sys σ := { s with cpu := countCycle s.cpu }
  have hmode₁ : s₁.cpu.mode = armModeUsr := hmode
  rw [armInsn, run_modifyCpu]
  simp only [run_ite]
  split
  · exact userConfined_armUnconditional B (s := s₁) hmode₁ pc insn (pc + 4)
  case isFalse hcond =>
  rw [run_getCpu, run_ite]
  split
  · exact .inr rfl
  have hpriv := not_cpuIsPriv hmode₁
  rw [run_bind]
  obtain hsvc | hrun := armConditional_user B fpu hmode₁ pc insn (pc + 4) hcond
  · rw [hsvc]
    exact userConfined_svc s₁ pc (pc + 4) rfl
  · have hatomic : Rollback.AtomicAt pending (keptBy true) Sys.aborts
        (armConditional B fpu pc insn (pc + 4)) s₁ :=
      armConditional_atomic B fpu pc insn (pc + 4) (fun _ => rfl) fun _ => .inr hpriv
    have hcpsr : s₁.cpu.abortPending = false →
        pending (armConditional B fpu pc insn (pc + 4) s₁).2 = true →
          (armConditional B fpu pc insn (pc + 4) s₁).2.cpu.cpsr = s₁.cpu.cpsr := by
      intro hclear hpending
      have hkept := congrArg ArmCpu.cpsr ((hatomic hclear).1 hpending)
      exact hkept
    generalize armConditional B fpu pc insn (pc + 4) s₁ = r at hrun hcpsr
    obtain ⟨⟨st, next⟩, s₂⟩ := r
    have hretire : UserConfined s₁.cpu (armRetire pc insn (st, next) s₂).2.cpu :=
      userConfined_armRetire pc insn hrun hcpsr
    exact hretire

/-- A Thumb instruction in User mode makes a supervisor call or keeps the privileged part. -/
theorem thumbStep_user (insn next : Word) :
    thumbStep B pc insn next s = svcResult s (pc + 2) ∨
      (thumbStep B pc insn next s).2.cpu.privileged = s.cpu.privileged ∧
        (thumbStep B pc insn next s).1.1 ≠ .halt := by
  obtain hsvc | hconfines := thumbStep_cases B pc insn next
  · rw [hsvc]
    exact .inl (execSvc_unhooked B (.inr (not_cpuIsPriv hmode)) pc insn (pc + 2) next)
  · exact .inr ⟨(hconfines s).1 trivial hmode, (hconfines s).2.answered⟩

theorem userConfined_thumbInsn (insn : Word) :
    UserConfined s.cpu (thumbInsn B pc insn s).2.cpu := by
  let s₁ : Sys σ := { s with cpu := countCycle s.cpu }
  have hmode₁ : s₁.cpu.mode = armModeUsr := hmode
  have hpriv := not_cpuIsPriv hmode₁
  rw [thumbInsn, run_modifyCpu, run_bind]
  have hatomic : Rollback.AtomicAt pending (keptBy true) Sys.aborts
      (thumbStep B pc insn (pc + 2)) s₁ := thumbStep_atomic B pc insn (pc + 2) fun _ => .inr hpriv
  have huser := thumbStep_user B hmode₁ pc insn (pc + 2)
  have hretire : UserConfined s₁.cpu (thumbRetire pc (thumbStep B pc insn (pc + 2) s₁).1
      (thumbStep B pc insn (pc + 2) s₁).2).2.cpu := by
    obtain hsvc | ⟨hkept, hanswered⟩ := huser
    · rw [hsvc]
      exact userConfined_svc s₁ pc (pc + 2) rfl
    · rw [thumbRetire, run_ite, if_neg hanswered]
      refine userConfined_latched pc (sctlr_of_privileged hkept) (fun hclear hpending => ?_)
        fun _ => .inr (Eq.trans ?_ hkept)
      · have hcpsr := congrArg ArmCpu.cpsr ((hatomic hclear).1 hpending)
        exact hcpsr
      · rw [run_bind, run_guarded]
        split <;> rfl
  exact hretire

end Steps

/-! ### The fetch and the whole step -/

theorem UserConfined.of_uncached {c₁ c c' : ArmCpu} (h : c₁.uncached = c.uncached)
    (huser : UserConfined c₁ c') : UserConfined c c' := by
  have hcpsr : c₁.cpsr = c.cpsr := by
    have hfield := congrArg ArmCpu.cpsr h
    exact hfield
  have hlatch : c₁.abortPending = c.abortPending := by
    have hfield := congrArg ArmCpu.abortPending h
    exact hfield
  have hcp15 : c₁.cp15 = c.cp15 := by
    have hfield := congrArg ArmCpu.cp15 h
    exact hfield
  have hbase : vectorBase c₁ = vectorBase c := by
    rw [vectorBase, vectorBase, hcp15]
  have hprivileged := congrArg ArmCpu.privileged h
  obtain ⟨d, vector, mode, ret, maskFiq, harch, hentry, hsaved, hrest⟩ | hkept := huser
  · rw [hlatch, hcpsr] at hsaved
    rw [hbase] at hrest
    exact .inl ⟨d, vector, mode, ret, maskFiq, harch, hentry, hsaved, hrest⟩
  · exact .inr (hkept.trans hprivileged)

/-- A fetch that gives no instruction has taken a prefetch abort. -/
theorem takesException_fetchInsn (pc : Word) (s : Sys σ) (h : (fetchInsn B pc s).1 = none) :
    TakesException s.cpu (fetchInsn B pc s).2.cpu := by
  obtain ⟨hcpu, -⟩ := cacheOnly_armMmuTranslate B pc .fetch (cpuIsPriv s.cpu) 0
    (logAccess .fetch pc (cpuIsPriv s.cpu) s).2
  have hsrc : (resolveFetch B pc s).1 = none := by
    cases hsrc : (resolveFetch B pc s).1 with
    | none => rfl
    | some src =>
      rw [fetchInsn, run_bind, hsrc] at h
      cases h
  have hkeep : (fetchInsn B pc s).2 = (resolveFetch B pc s).2 := by
    rw [fetchInsn, run_bind, hsrc]
    rfl
  rw [hkeep]
  revert hsrc
  simp only [resolveFetch, run_bind, run_ite]
  split
  case isTrue hhit =>
    -- a hit of the fetch block gives a host address
    intro hnone
    rw [fetchBlockHit, Bool.and_eq_true, Bool.and_eq_true, Bool.and_eq_true] at hhit
    have hsome : s.cpu.cache.fetchHost.isSome = true := hhit.1.1.1
    change Option.map _ s.cpu.cache.fetchHost = none at hnone
    rw [Option.map_eq_none_iff.mp hnone] at hsome
    cases hsome
  split
  case isTrue =>
    intro _
    refine takesException_of _ _ (by decide) ?_ fun _ => ?_
    · have hsctlr := congrArg (fun c : ArmCpu => c.cp15.sctlr) hcpu
      exact hsctlr
    · have hcpsr := congrArg ArmCpu.cpsr hcpu
      exact hcpsr
  case isFalse =>
    intro hnone
    split at hnone
    · cases hnone
    · cases hnone

theorem armStep_userOr {s : Sys σ} (hmode : s.cpu.mode = armModeUsr) :
    UserConfined s.cpu (armStep B fpu s).2.cpu := by
  rw [armStep, run_getCpu]
  simp only [run_ite]
  split
  · exact .inr rfl
  split
  · exact .inl (takesException_of _ _ (by decide) rfl fun _ => rfl)
  split
  · exact .inl (takesException_of _ _ (by decide) rfl fun _ => rfl)
  rw [fetchAndExecute, run_bind]
  obtain ⟨-, hcpu⟩ := fetchInsn_frame B (s.cpu.r 15) s
  cases hinsn : (fetchInsn B (s.cpu.r 15) s).1 with
  | none => exact .inl (takesException_fetchInsn B (s.cpu.r 15) s hinsn)
  | some insn =>
    have hsame := hcpu (by rw [hinsn]; rintro ⟨⟩)
    generalize (fetchInsn B (s.cpu.r 15) s).2 = s₁ at hsame
    have hcpsr := congrArg ArmCpu.cpsr hsame
    have hmode₁ : s₁.cpu.mode = armModeUsr :=
      (congrArg (fun x : Word => x &&& armCpsrModeMask) hcpsr).trans hmode
    refine UserConfined.of_uncached hsame ?_
    simp only [run_getCpu, run_ite]
    split
    · exact userConfined_thumbInsn B hmode₁ (s.cpu.r 15) insn
    · exact userConfined_armInsn B fpu hmode₁ (s.cpu.r 15) insn

/-- What the privileged part holds for every register that User mode does not see. -/
theorem regMap_of_privileged {c c' : ArmCpu} (hmode : c.mode = armModeUsr)
    (h : c'.privileged = c.privileged) {k : ArchReg} (hk : ∀ n, k ≠ archReg .usr n) :
    c'.regMap k = c.regMap k := by
  have hbank : c.bank = .usr := bank_of_user hmode
  have hbank' : c'.bank = .usr := bank_of_user ((mode_of_privileged h).trans hmode)
  have hlive : liveReg .usr k = none := by
    cases hlive : liveReg .usr k with
    | none => rfl
    | some n => exact absurd (archReg_liveReg hlive) (hk n)
  have hparked : c'.parked k = c.parked k := by
    have hfield := congrArg (fun d : ArmCpu => d.parked k) h
    exact hfield
  simp only [ArmCpu.regMap, hbank, hbank', hlive, hparked]

/-- User mode is confined. A step of a core in User mode takes an exception, or leaves the mode,
the masks, every register that User mode does not see, FPEXC, and CP15 but for the user thread
register as they were. -/
theorem armStep_userConfined {s : Sys σ} (hmode : s.cpu.mode = armModeUsr) :
    let c := s.cpu
    let c' := (armStep B fpu s).2.cpu
    TakesException c c' ∨
      (c'.mode = c.mode ∧ (∀ m ∈ [armCpsrI, armCpsrF, armCpsrA], c'.getFlag m = c.getFlag m) ∧
        (∀ k, (∀ n, k ≠ archReg .usr n) → c'.regMap k = c.regMap k) ∧
        (∃ tpidrurw, c'.cp15 = { c.cp15 with tpidrurw }) ∧ c'.vfpFpexc = c.vfpFpexc) := by
  intro c c'
  obtain hentry | hkept := armStep_userOr B fpu hmode
  · exact .inl hentry
  refine .inr ⟨mode_of_privileged hkept, fun m hm => ?_, fun k hk => ?_, ⟨c'.cp15.tpidrurw, ?_⟩, ?_⟩
  · have hcpsr : c'.cpsr &&& armCpsrKept = c.cpsr &&& armCpsrKept := by
      have hfield := congrArg ArmCpu.cpsr hkept
      exact hfield
    have hpart : armCpsrKept &&& m = m := by
      simp only [List.mem_cons, List.mem_nil_iff, or_false] at hm
      obtain rfl | rfl | rfl := hm <;> decide
    have hbit : c'.cpsr &&& m = c.cpsr &&& m := by
      rw [← hpart, ← BitVec.and_assoc, ← BitVec.and_assoc, hcpsr]
    exact congrArg (· != 0) hbit
  · exact regMap_of_privileged hmode hkept hk
  · have hcp15 := congrArg (fun d : ArmCpu => { d.cp15 with tpidrurw := c'.cp15.tpidrurw }) hkept
    exact hcp15
  · have hfpexc := congrArg ArmCpu.vfpFpexc hkept
    exact hfpexc

/-- An MSR to the control field does not open the interrupt mask to User mode. -/
theorem armStep_userConfined_msr :
    let s : Sys Unit := { cpu := { cpsr := armModeUsr, r := fun _ => 0xff }, bus := () }
    let c' := (armStep (constantBus 0xe121f000) zeroFpu s).2.cpu
    TakesException s.cpu c' ∨ c'.getFlag armCpsrI = s.cpu.getFlag armCpsrI :=
  (armStep_userConfined (constantBus 0xe121f000) zeroFpu (by decide)).imp id fun h =>
    h.2.1 armCpsrI (by decide)

/-! ### Runs in User mode -/

theorem not_isArchException_usr {vector : Word} : ¬isArchException vector armModeUsr := by
  simp [isArchException, armModeUsr, armModeUnd, armModeSvc, armModeAbt, armModeIrq, armModeFiq]

/-- The privileged part is as it was, as long as the core is in User mode. -/
theorem privileged_armRun {s : Sys σ} (n : Nat)
    (huser : ∀ m ≤ n, (armRun B fpu m s).2.cpu.mode = armModeUsr) :
    (armRun B fpu n s).2.cpu.privileged = s.cpu.privileged := by
  induction n with
  | zero => rfl
  | succ n ih =>
    have hbefore := ih fun m hm => huser m (Nat.le_succ_of_le hm)
    have hstep := armStep_userOr B fpu (huser n (Nat.le_succ n))
    obtain ⟨d, vector, mode, ret, maskFiq, harch, -, -, hmode, -⟩ | hkept := hstep
    · -- an exception would have left User mode
      have huser' := huser (n + 1) (Nat.le_refl _)
      obtain rfl : mode = armModeUsr := hmode.symm.trans huser'
      exact absurd harch not_isArchException_usr
    · exact hkept.trans hbefore

/-- A run in User mode. Until an exception is taken, nothing has changed of the mode and the masks,
of the registers that User mode does not see, of FPEXC, and of CP15 but for the user thread register.
The step that leaves User mode enters at one of the vectors where the run began to have them, and
saves the status register. -/
theorem armRun_userConfined {s : Sys σ} (n : Nat)
    (huser : ∀ m ≤ n, (armRun B fpu m s).2.cpu.mode = armModeUsr) :
    let c := s.cpu
    let c' := (armRun B fpu n s).2.cpu
    let next := (armRun B fpu (n + 1) s).2.cpu
    c'.cpsr &&& armCpsrKept = c.cpsr &&& armCpsrKept ∧
      (∀ k, (∀ j, k ≠ archReg .usr j) → c'.regMap k = c.regMap k) ∧
      (∃ tpidrurw, c'.cp15 = { c.cp15 with tpidrurw }) ∧ c'.vfpFpexc = c.vfpFpexc ∧
      (next.mode ≠ armModeUsr → ∃ vector, isArchException vector next.mode ∧
        next.r 15 = vectorBase c + vector ∧
          (c'.abortPending = false → next.spsr (armBankOfMode next.mode) = c'.cpsr)) := by
  intro c c' next
  have hkept : c'.privileged = c.privileged := privileged_armRun B fpu n huser
  have hmode : c.mode = armModeUsr := huser 0 (Nat.zero_le _)
  have hcp15 : c'.cp15 = { c.cp15 with tpidrurw := c'.cp15.tpidrurw } := by
    have hfield := congrArg (fun d : ArmCpu => { d.cp15 with tpidrurw := c'.cp15.tpidrurw }) hkept
    exact hfield
  refine ⟨?_, fun k hk => regMap_of_privileged hmode hkept hk, ⟨_, hcp15⟩, ?_, fun hleft => ?_⟩
  · have hfield := congrArg ArmCpu.cpsr hkept
    exact hfield
  · have hfield := congrArg ArmCpu.vfpFpexc hkept
    exact hfield
  · obtain ⟨d, vector, mode, ret, maskFiq, harch, -, hcpsr, rfl, hpc, hspsr⟩ | hstay :=
      armStep_userOr B fpu (huser n (Nat.le_refl _))
    · refine ⟨vector, harch, hpc.trans ?_, fun hclear => hspsr.trans (hcpsr hclear)⟩
      change vectorBase c' + vector = _
      rw [vectorBase, vectorBase, hcp15]
    · exact absurd ((mode_of_privileged hstay).trans (huser n (Nat.le_refl _))) hleft

/-- An SVC in User mode. -/
theorem armRun_userConfined_svc :
    let s : Sys Unit := { cpu := { cpsr := armModeUsr }, bus := () }
    let next := (armRun (constantBus 0xef000000) zeroFpu 1 s).2.cpu
    next.mode = armModeSvc ∧ ∃ vector, isArchException vector next.mode ∧
      next.r 15 = vectorBase s.cpu + vector := by
  intro s next
  have hsvc : next.mode = armModeSvc := by decide +kernel
  have huser : ∀ m ≤ 0, (armRun (constantBus 0xef000000) zeroFpu m s).2.cpu.mode = armModeUsr := by
    intro m hm
    obtain rfl := Nat.le_zero.1 hm
    decide
  obtain ⟨-, -, -, -, hleaves⟩ := armRun_userConfined (constantBus 0xef000000) zeroFpu 0 huser
  obtain ⟨vector, harch, hpc, -⟩ := hleaves (by rw [hsvc]; decide)
  exact ⟨hsvc, vector, harch, hpc⟩

end Exec

end S5LBox
