import S5LBox.Arm.PreciseAborts

/-!
# The privileged-SVC seam

The platform may consume a supervisor call of a privileged mode. What its hook does to the core is
kept where it says so and undone where it does not, in both instruction sets.

## Main definitions

* `AtSvc`: the step executes a supervisor call.

## Main results

* `svc_transactional`: what each answer of the hook comes to.
-/

namespace S5LBox

open StateProgram Blocks

namespace Exec

variable {σ : Type} {B : ArmBus σ} {fpu : HostFpu} {s : Sys σ} {insn : Word}

/-! ### The decoders -/

theorem svc_mismatch (h : insn &&& 0x0f000000 = 0x0f000000) {m v : Word}
    (hne : v &&& 0x0f000000 ≠ m &&& 0x0f000000) : insn &&& m ≠ v := by
  intro heq
  apply hne
  rw [← heq, BitVec.and_assoc, BitVec.and_comm m, ← BitVec.and_assoc, h, BitVec.and_comm]

theorem armConditional_svc (h : insn &&& 0x0f000000 = 0x0f000000) (pc next : Word) :
    armConditional B fpu pc insn next = execSvc B pc insn (pc + 4) next := by
  have hdp : isHoistedDataProcessing insn = false := by
    have hclass : insn &&& 0x0c000000 ≠ 0 := svc_mismatch h (by decide)
    rw [isHoistedDataProcessing, beq_false_of_ne hclass]
    rfl
  rw [armConditional, hdp, if_neg Bool.false_ne_true]
  rw [if_neg (not_or.mpr ⟨svc_mismatch h (by decide), svc_mismatch h (by decide)⟩),
    if_neg (svc_mismatch h (by decide)), if_neg (svc_mismatch h (by decide)),
    if_neg (svc_mismatch h (by decide)),
    if_neg (not_and.mpr fun hm => absurd hm (svc_mismatch h (by decide))),
    if_neg (svc_mismatch h (by decide)), if_neg (svc_mismatch h (by decide)),
    if_neg (not_and.mpr fun hm => absurd hm (svc_mismatch h (by decide))),
    if_neg (not_and.mpr fun hm => absurd hm (svc_mismatch h (by decide))),
    if_neg (svc_mismatch h (by decide)),
    if_neg (not_or.mpr ⟨svc_mismatch h (by decide), svc_mismatch h (by decide)⟩), if_pos h]

theorem thumbStep_svc (h : isSvc true insn) (pc next : Word) :
    thumbStep B pc insn next = execSvc B pc insn (pc + 2) next := by
  obtain ⟨hgroup, hcond⟩ := Bool.and_eq_true_iff.mp h
  have hcond' : field insn 8 = 15 := beq_iff_eq.mp hcond
  have hgroup' : (field insn 12).toNat = 13 := by
    rw [beq_iff_eq.mp hgroup]
    rfl
  rw [thumbStep, hgroup']
  change thumbConditional B pc insn next = _
  rw [thumbConditional]
  exact if_pos hcond'

/-! ### The step -/

/-- The length of an instruction. -/
def insnLength (c : ArmCpu) : Word := if c.getFlag armCpsrT then 2 else 4

/-- The step executes an instruction: nothing comes before it. -/
structure AtInsn (B : ArmBus σ) (s : Sys σ) (insn : Word) : Prop where
  valid : armModeIsValid s.cpu.cpsr
  fiq : ¬(s.cpu.fiqLine ∧ s.cpu.cpsr &&& armCpsrF = 0)
  irq : ¬(s.cpu.irqLine ∧ s.cpu.cpsr &&& armCpsrI = 0)
  fetched : (fetchInsn B (s.cpu.r 15) s).1 = some insn

/-- The condition of an ARM instruction has passed. -/
def Executed (c : ArmCpu) (insn : Word) : Prop :=
  field insn 28 ≠ 15 ∧ (field insn 28 = 14 ∨ armCondPassed c (field insn 28))

/-- The instruction is a supervisor call, and its condition has passed. -/
structure AtSvc (B : ArmBus σ) (s : Sys σ) (insn : Word) : Prop extends AtInsn B s insn where
  svc : isSvc (s.cpu.getFlag armCpsrT) insn
  executed : s.cpu.getFlag armCpsrT = false → Executed s.cpu insn

/-- The state in which the instruction is executed: it has been fetched and counted. -/
def counted (B : ArmBus σ) (s : Sys σ) : Sys σ :=
  { (fetchInsn B (s.cpu.r 15) s).2 with cpu := countCycle (fetchInsn B (s.cpu.r 15) s).2.cpu }

theorem AtInsn.uncached (h : AtInsn B s insn) :
    (fetchInsn B (s.cpu.r 15) s).2.cpu.uncached = s.cpu.uncached :=
  (fetchInsn_frame B (s.cpu.r 15) s).2 (by rw [h.fetched]; exact nofun)

theorem AtInsn.cpsr_eq (h : AtInsn B s insn) :
    (fetchInsn B (s.cpu.r 15) s).2.cpu.cpsr = s.cpu.cpsr := by
  have hcpsr := congrArg ArmCpu.cpsr h.uncached
  exact hcpsr

/-- Once fetched, the instruction goes to the decoder of its instruction set. -/
theorem armStep_insn (fpu : HostFpu) (h : AtInsn B s insn) :
    armStep B fpu s =
      if s.cpu.getFlag armCpsrT then thumbInsn B (s.cpu.r 15) insn (fetchInsn B (s.cpu.r 15) s).2
      else armInsn B fpu (s.cpu.r 15) insn (fetchInsn B (s.cpu.r 15) s).2 := by
  have hthumb : (fetchInsn B (s.cpu.r 15) s).2.cpu.getFlag armCpsrT = s.cpu.getFlag armCpsrT := by
    rw [ArmCpu.getFlag, ArmCpu.getFlag, h.cpsr_eq]
  have hvalid : ¬¬armModeIsValid s.cpu.cpsr = true := not_not.mpr h.valid
  rw [armStep, run_getCpu, run_ite, if_neg hvalid, run_ite, if_neg h.fiq, run_ite, if_neg h.irq,
    fetchAndExecute, run_bind, h.fetched]
  dsimp only
  rw [run_getCpu, run_ite, hthumb]

theorem armCondPassed_congr {c c' : ArmCpu} (h : c'.cpsr = c.cpsr) (cond : RegNo) :
    armCondPassed c' cond = armCondPassed c cond := by
  unfold armCondPassed ArmCpu.getFlag
  rw [h]

/-- An ARM instruction whose condition has passed goes through the conditional decoder. -/
theorem armStep_conditional (fpu : HostFpu) (h : AtInsn B s insn)
    (hstate : s.cpu.getFlag armCpsrT = false) (hcond : Executed s.cpu insn) :
    armStep B fpu s =
      (armConditional B fpu (s.cpu.r 15) insn (s.cpu.r 15 + 4) >>=
        armRetire (s.cpu.r 15) insn) (counted B s) := by
  have hpassed : ¬(field insn 28 ≠ 14 ∧
      ¬armCondPassed (countCycle (fetchInsn B (s.cpu.r 15) s).2.cpu) (field insn 28)) := by
    rw [armCondPassed_congr (c := s.cpu) (show (countCycle _).cpsr = _ from h.cpsr_eq)]
    exact fun hno => hcond.2.elim hno.1 hno.2
  rw [armStep_insn fpu h, if_neg (hstate ▸ Bool.false_ne_true), armInsn, run_modifyCpu, run_ite,
    if_neg hcond.1, run_getCpu, run_ite, if_neg hpassed]
  rfl

/-- A supervisor call ends with a status that both instruction sets retire alike. -/
theorem armRetire_of_ok {pc : Word} {r : ArmStatus × Word} (h : r.1 = .ok ∨ r.1 = .halt) :
    armRetire pc insn r = (thumbRetire pc r : Exec σ ArmStatus) := by
  obtain ⟨st, next⟩ := r
  obtain rfl | rfl := h
  · rfl
  · rfl

theorem execSvc_status (pc encoding retAddr next : Word) (s : Sys σ) :
    (execSvc B pc encoding retAddr next s).1.1 = .ok ∨
      (execSvc B pc encoding retAddr next s).1.1 = .halt := by
  rw [execSvc, run_bind]
  cases (privilegedSvcResult B pc encoding s).1 with
  | error => exact .inr rfl
  | redirected => exact .inl rfl
  | handled => exact .inl rfl
  | unhandled => exact .inl rfl
  | other => exact .inl rfl

theorem armStep_svc (fpu : HostFpu) (h : AtSvc B s insn) :
    armStep B fpu s = (do
      let r ← execSvc B (s.cpu.r 15) insn (s.cpu.r 15 + insnLength s.cpu)
        (s.cpu.r 15 + insnLength s.cpu)
      thumbRetire (s.cpu.r 15) r) (counted B s) := by
  have hsvc := h.svc
  by_cases hstate : s.cpu.getFlag armCpsrT
  · rw [hstate] at hsvc
    rw [armStep_insn fpu h.toAtInsn, insnLength, if_pos hstate, if_pos hstate, thumbInsn,
      run_modifyCpu, thumbStep_svc hsvc]
    rfl
  · have hstate' : s.cpu.getFlag armCpsrT = false := eq_false_of_ne_true hstate
    rw [hstate'] at hsvc
    have hsvc' : insn &&& 0x0f000000 = 0x0f000000 := beq_iff_eq.mp hsvc
    rw [armStep_conditional fpu h.toAtInsn hstate' (h.executed hstate'), insnLength, if_neg hstate,
      armConditional_svc hsvc', run_bind, armRetire_of_ok (execSvc_status (s.cpu.r 15) insn _ _ _)]
    rfl

/-! ### The answers of the hook -/

/-- The answer of the hook, with the core and the platform that it leaves. -/
def svcAnswer (h : σ → ArmCpu → Word → Word → ArmSvcResult × ArmCpu × σ) (s : Sys σ) (pc insn : Word) :
    ArmSvcResult × ArmCpu × σ :=
  h s.bus s.cpu pc insn

section Hooked

variable {h : σ → ArmCpu → Word → Word → ArmSvcResult × ArmCpu × σ}
  (hB : B.privilegedSvcHandler = some h) (hpriv : cpuIsPriv s.cpu)
include hB hpriv

/-- What the seam leaves of what the hook has done to the core. -/
theorem privilegedSvcResult_hooked (pc : Word) :
    privilegedSvcResult B pc insn s =
      let a := svcAnswer h s pc insn
      let s' := { s with bus := a.2.2, era := a.2.2 :: s.era }
      if a.1 = .handled ∨ a.1 = .redirected then
        (a.1, { s' with cpu := a.2.1, era := B.svcEra s.bus s.cpu pc insn s.era })
      else if a.1 = .error then
        (.error, { s' with cpu := { s.cpu with cycles := s.cpu.cycles - 1 } })
      else (.unhandled, s') := by
  have hpriv' : ¬¬cpuIsPriv s.cpu = true := not_not.mpr hpriv
  rw [privilegedSvcResult, hB]
  dsimp only
  rw [if_neg hpriv']
  rfl

/-- What the seam undoes: everything, and the count of the instruction where the service failed. -/
theorem privilegedSvcResult_undone (pc : Word) (hne : (svcAnswer h s pc insn).1 ≠ .handled)
    (hne' : (svcAnswer h s pc insn).1 ≠ .redirected) :
    (privilegedSvcResult B pc insn s).2.cpu =
      if (svcAnswer h s pc insn).1 = .error then { s.cpu with cycles := s.cpu.cycles - 1 }
      else s.cpu := by
  rw [privilegedSvcResult_hooked hB hpriv]
  dsimp only
  rw [if_neg (not_or.mpr ⟨hne, hne'⟩)]
  split_ifs <;> rfl

theorem execSvc_handled (pc retAddr next : Word) (ha : (svcAnswer h s pc insn).1 = .handled) :
    (execSvc B pc insn retAddr next s).1 = (.ok, next) ∧
      (execSvc B pc insn retAddr next s).2.cpu = (svcAnswer h s pc insn).2.1 := by
  rw [execSvc, run_bind, privilegedSvcResult_hooked hB hpriv]
  dsimp only
  rw [if_pos (.inl ha), ha]
  exact ⟨rfl, rfl⟩

theorem execSvc_redirected (pc retAddr next : Word)
    (ha : (svcAnswer h s pc insn).1 = .redirected) :
    (execSvc B pc insn retAddr next s).1 = (.ok, (svcAnswer h s pc insn).2.1.r 15) ∧
      (execSvc B pc insn retAddr next s).2.cpu = (svcAnswer h s pc insn).2.1 := by
  rw [execSvc, run_bind, privilegedSvcResult_hooked hB hpriv]
  dsimp only
  rw [if_pos (.inr ha), ha]
  exact ⟨rfl, rfl⟩

theorem execSvc_error (pc retAddr next : Word) (ha : (svcAnswer h s pc insn).1 = .error) :
    (execSvc B pc insn retAddr next s).1 = (.halt, next) ∧
      (execSvc B pc insn retAddr next s).2.cpu = { s.cpu with cycles := s.cpu.cycles - 1 } := by
  rw [execSvc, run_bind, privilegedSvcResult_hooked hB hpriv]
  dsimp only
  rw [if_neg (by rw [ha]; decide), if_pos ha]
  exact ⟨rfl, rfl⟩

/-- A call that is not handled is the guest's, on a platform that the hook may have changed. -/
theorem execSvc_unhandled (pc retAddr next : Word)
    (ha : (svcAnswer h s pc insn).1 = .unhandled ∨ (svcAnswer h s pc insn).1 = .other) :
    (execSvc B pc insn retAddr next s).1 =
        (.ok, (takeException s.cpu armVecSwi armModeSvc retAddr false).2) ∧
      (execSvc B pc insn retAddr next s).2.cpu =
        (takeException s.cpu armVecSwi armModeSvc retAddr false).1 := by
  have hother : ¬((svcAnswer h s pc insn).1 = .handled ∨ (svcAnswer h s pc insn).1 = .redirected) := by
    obtain ha | ha := ha <;> rw [ha] <;> decide
  have herror : (svcAnswer h s pc insn).1 ≠ .error := by
    obtain ha | ha := ha <;> rw [ha] <;> decide
  rw [execSvc, run_bind, privilegedSvcResult_hooked hB hpriv]
  dsimp only
  rw [if_neg hother, if_neg herror]
  exact ⟨rfl, rfl⟩

end Hooked

/-! ### The end of the step -/

/-- The end of the step looks at the core alone. -/
theorem thumbRetire_cpu (pc : Word) (r : ArmStatus × Word) (s : Sys σ) :
    (thumbRetire pc r s).1 = (if r.1 = .halt then .halt else if s.cpu.abortPending then .ok else r.1) ∧
      (thumbRetire pc r s).2.cpu =
        if r.1 = .halt then s.cpu
        else if s.cpu.abortPending then takePendingDataAbort s.cpu pc
        else if r.1 = .ok then s.cpu.setR 15 r.2
        else s.cpu := by
  rw [thumbRetire, run_ite]
  by_cases hhalt : r.1 = .halt
  · rw [if_pos hhalt, if_pos hhalt, if_pos hhalt]
    exact ⟨rfl, rfl⟩
  · rw [if_neg hhalt, if_neg hhalt, if_neg hhalt, takeLatchedAbort, run_bind, run_ite]
    by_cases hlatch : s.cpu.abortPending
    · have hlatch' : (abortLatched s).1 = true := hlatch
      rw [if_pos hlatch', if_pos hlatch, if_pos hlatch]
      exact ⟨rfl, rfl⟩
    · have hlatch' : ¬(abortLatched s).1 = true := hlatch
      rw [if_neg hlatch', if_neg hlatch, if_neg hlatch, guarded, run_bind, run_ite]
      by_cases hok : r.1 = .ok
      · rw [if_pos hok, if_pos hok]
        exact ⟨rfl, rfl⟩
      · rw [if_neg hok, if_neg hok]
        exact ⟨rfl, rfl⟩

/-- The bus without the hook. -/
def unhooked (B : ArmBus σ) : ArmBus σ := { B with privilegedSvcHandler := none }

theorem peekN_unhooked (B : ArmBus σ) (b : σ) (host n : Nat) :
    (unhooked B).peekN b host n = B.peekN b host n := by
  induction n with
  | zero => rfl
  | succ n ih =>
    rw [ArmBus.peekN, ArmBus.peekN, ih]
    rfl

theorem readInsn_unhooked (B : ArmBus σ) : readInsn (unhooked B) = readInsn B := by
  funext thumb src
  cases src with
  | host a =>
    funext s
    exact congrArg (·, s) (peekN_unhooked B s.bus a _)
  | phys pa => rfl

theorem fetchInsn_unhooked (B : ArmBus σ) (pc : Word) : fetchInsn (unhooked B) pc = fetchInsn B pc := by
  rw [fetchInsn, fetchInsn, readInsn_unhooked]
  rfl

theorem AtSvc.unhooked (h : AtSvc B s insn) : AtSvc (unhooked B) s insn :=
  { h with fetched := by rw [fetchInsn_unhooked]; exact h.fetched }

theorem counted_unhooked (B : ArmBus σ) (s : Sys σ) : counted (Exec.unhooked B) s = counted B s := by
  rw [counted, counted, fetchInsn_unhooked]

/-- A supervisor call where the hook is not asked, or does not handle it, takes the guest's
exception. -/
def guestSvc (c : ArmCpu) (pc retAddr : Word) : ArmCpu :=
  let c' := takeException c armVecSwi armModeSvc retAddr false
  if c'.1.abortPending then takePendingDataAbort c'.1 pc else c'.1.setR 15 c'.2

theorem armStep_guestSvc (fpu : HostFpu) (hsvc : AtSvc B s insn)
    (hrun : (execSvc B (s.cpu.r 15) insn (s.cpu.r 15 + insnLength s.cpu)
        (s.cpu.r 15 + insnLength s.cpu) (counted B s)).1 =
          (.ok, (takeException (counted B s).cpu armVecSwi armModeSvc
            (s.cpu.r 15 + insnLength s.cpu) false).2) ∧
      (execSvc B (s.cpu.r 15) insn (s.cpu.r 15 + insnLength s.cpu)
        (s.cpu.r 15 + insnLength s.cpu) (counted B s)).2.cpu =
          (takeException (counted B s).cpu armVecSwi armModeSvc
            (s.cpu.r 15 + insnLength s.cpu) false).1) :
    (armStep B fpu s).1 = .ok ∧
      (armStep B fpu s).2.cpu =
        guestSvc (counted B s).cpu (s.cpu.r 15) (s.cpu.r 15 + insnLength s.cpu) := by
  obtain ⟨hstatus, hcpu⟩ := hrun
  rw [armStep_svc fpu hsvc, run_bind]
  obtain ⟨hret, hret'⟩ := thumbRetire_cpu (s.cpu.r 15)
    (execSvc B (s.cpu.r 15) insn (s.cpu.r 15 + insnLength s.cpu)
      (s.cpu.r 15 + insnLength s.cpu) (counted B s)).1
    (execSvc B (s.cpu.r 15) insn (s.cpu.r 15 + insnLength s.cpu)
      (s.cpu.r 15 + insnLength s.cpu) (counted B s)).2
  rw [hret, hret', hcpu, hstatus]
  refine ⟨?_, ?_⟩
  · exact (if_neg nofun).trans (ite_self _)
  · exact if_neg nofun

/-- What a step does with a supervisor call, by the answer of the hook. -/
structure SvcOutcome (B : ArmBus σ) (fpu : HostFpu)
    (h : σ → ArmCpu → Word → Word → ArmSvcResult × ArmCpu × σ) (s : Sys σ) (insn : Word) : Prop where
  undone : (svcAnswer h (counted B s) (s.cpu.r 15) insn).1 ≠ .handled →
    (svcAnswer h (counted B s) (s.cpu.r 15) insn).1 ≠ .redirected →
    (privilegedSvcResult B (s.cpu.r 15) insn (counted B s)).2.cpu =
      if (svcAnswer h (counted B s) (s.cpu.r 15) insn).1 = .error then
        { (counted B s).cpu with cycles := (counted B s).cpu.cycles - 1 }
      else (counted B s).cpu
  handled : (svcAnswer h (counted B s) (s.cpu.r 15) insn).1 = .handled →
    (svcAnswer h (counted B s) (s.cpu.r 15) insn).2.1.abortPending = false →
    (armStep B fpu s).1 = .ok ∧ (armStep B fpu s).2.cpu =
      (svcAnswer h (counted B s) (s.cpu.r 15) insn).2.1.setR 15 (s.cpu.r 15 + insnLength s.cpu)
  redirected : (svcAnswer h (counted B s) (s.cpu.r 15) insn).1 = .redirected →
    (svcAnswer h (counted B s) (s.cpu.r 15) insn).2.1.abortPending = false →
    (armStep B fpu s).1 = .ok ∧
      (armStep B fpu s).2.cpu = (svcAnswer h (counted B s) (s.cpu.r 15) insn).2.1
  latched : (svcAnswer h (counted B s) (s.cpu.r 15) insn).1 = .handled ∨
      (svcAnswer h (counted B s) (s.cpu.r 15) insn).1 = .redirected →
    (svcAnswer h (counted B s) (s.cpu.r 15) insn).2.1.abortPending = true →
    (armStep B fpu s).1 = .ok ∧ (armStep B fpu s).2.cpu =
      takePendingDataAbort (svcAnswer h (counted B s) (s.cpu.r 15) insn).2.1 (s.cpu.r 15)
  failed : (svcAnswer h (counted B s) (s.cpu.r 15) insn).1 = .error →
    (armStep B fpu s).1 = .halt ∧ (armStep B fpu s).2.cpu.uncached = s.cpu.uncached
  unhandled : (svcAnswer h (counted B s) (s.cpu.r 15) insn).1 = .unhandled ∨
      (svcAnswer h (counted B s) (s.cpu.r 15) insn).1 = .other →
    (armStep B fpu s).1 = (armStep (unhooked B) fpu s).1 ∧
      (armStep B fpu s).2.cpu = (armStep (unhooked B) fpu s).2.cpu

theorem armStep_unhooked (fpu : HostFpu) (hsvc : AtSvc B s insn) :
    (armStep (unhooked B) fpu s).1 = .ok ∧
      (armStep (unhooked B) fpu s).2.cpu =
        guestSvc (counted B s).cpu (s.cpu.r 15) (s.cpu.r 15 + insnLength s.cpu) := by
  rw [← counted_unhooked B]
  refine armStep_guestSvc fpu hsvc.unhooked ?_
  rw [execSvc_unhooked (unhooked B) (.inl rfl)]
  exact ⟨rfl, rfl⟩

theorem svcOutcome {h : σ → ArmCpu → Word → Word → ArmSvcResult × ArmCpu × σ}
    (hB : B.privilegedSvcHandler = some h) (fpu : HostFpu) (hsvc : AtSvc B s insn)
    (hpriv : cpuIsPriv s.cpu) : SvcOutcome B fpu h s insn := by
  have hpriv' : cpuIsPriv (counted B s).cpu := by
    have hmode : cpuIsPriv (fetchInsn B (s.cpu.r 15) s).2.cpu = cpuIsPriv s.cpu := by
      rw [cpuIsPriv, cpuIsPriv, ArmCpu.mode, ArmCpu.mode, hsvc.cpsr_eq]
    exact hmode.trans hpriv
  have hret (pc : Word) (r : ArmStatus × Word) (v : Sys σ) := thumbRetire_cpu pc r v
  constructor
  case undone => exact fun hne hne' => privilegedSvcResult_undone hB hpriv' _ hne hne'
  case handled =>
    intro ha hlatch
    obtain ⟨hstatus, hcpu⟩ := execSvc_handled hB hpriv' (s.cpu.r 15)
      (s.cpu.r 15 + insnLength s.cpu) (s.cpu.r 15 + insnLength s.cpu) ha
    rw [armStep_svc fpu hsvc, run_bind, hstatus, (hret _ _ _).1, (hret _ _ _).2, hcpu, hlatch]
    exact ⟨rfl, rfl⟩
  case redirected =>
    intro ha hlatch
    obtain ⟨hstatus, hcpu⟩ := execSvc_redirected hB hpriv' (s.cpu.r 15)
      (s.cpu.r 15 + insnLength s.cpu) (s.cpu.r 15 + insnLength s.cpu) ha
    rw [armStep_svc fpu hsvc, run_bind, hstatus, (hret _ _ _).1, (hret _ _ _).2, hcpu, hlatch]
    refine ⟨rfl, ?_⟩
    change ArmCpu.setR _ 15 _ = _
    rw [ArmCpu.setR, Function.update_eq_self]
  case latched =>
    intro ha hlatch
    obtain ⟨next, hstatus, hcpu⟩ : ∃ next,
        (execSvc B (s.cpu.r 15) insn (s.cpu.r 15 + insnLength s.cpu)
          (s.cpu.r 15 + insnLength s.cpu) (counted B s)).1 = (.ok, next) ∧
        (execSvc B (s.cpu.r 15) insn (s.cpu.r 15 + insnLength s.cpu)
          (s.cpu.r 15 + insnLength s.cpu) (counted B s)).2.cpu =
            (svcAnswer h (counted B s) (s.cpu.r 15) insn).2.1 := by
      obtain ha | ha := ha
      · exact ⟨_, execSvc_handled hB hpriv' _ _ _ ha⟩
      · exact ⟨_, execSvc_redirected hB hpriv' _ _ _ ha⟩
    rw [armStep_svc fpu hsvc, run_bind, hstatus, (hret _ _ _).1, (hret _ _ _).2, hcpu, hlatch]
    exact ⟨rfl, rfl⟩
  case failed =>
    intro ha
    obtain ⟨hstatus, hcpu⟩ := execSvc_error hB hpriv' (s.cpu.r 15)
      (s.cpu.r 15 + insnLength s.cpu) (s.cpu.r 15 + insnLength s.cpu) ha
    rw [armStep_svc fpu hsvc, run_bind, hstatus, (hret _ _ _).1, (hret _ _ _).2, hcpu]
    refine ⟨rfl, ?_⟩
    have hcount : { (counted B s).cpu with cycles := (counted B s).cpu.cycles - 1 } =
        (fetchInsn B (s.cpu.r 15) s).2.cpu := by
      have hcycles : (fetchInsn B (s.cpu.r 15) s).2.cpu.cycles + 1 - 1 =
          (fetchInsn B (s.cpu.r 15) s).2.cpu.cycles := BitVec.add_sub_cancel _ _
      change { (fetchInsn B (s.cpu.r 15) s).2.cpu with
        cycles := (fetchInsn B (s.cpu.r 15) s).2.cpu.cycles + 1 - 1 } = _
      rw [hcycles]
    exact (congrArg ArmCpu.uncached hcount).trans hsvc.uncached
  case unhandled =>
    intro ha
    obtain ⟨hstatus, hcpu⟩ := armStep_unhooked fpu hsvc
    obtain ⟨hstatus', hcpu'⟩ := armStep_guestSvc fpu hsvc
      (execSvc_unhandled hB hpriv' _ _ _ ha)
    exact ⟨hstatus'.trans hstatus.symm, hcpu'.trans hcpu.symm⟩

/-- In User mode the hook is not asked. -/
theorem armStep_svc_user (fpu : HostFpu) (hsvc : AtSvc B s insn) (huser : ¬cpuIsPriv s.cpu) :
    (armStep B fpu s).1 = (armStep (unhooked B) fpu s).1 ∧
      (armStep B fpu s).2.cpu = (armStep (unhooked B) fpu s).2.cpu := by
  have huser' : ¬cpuIsPriv (counted B s).cpu := by
    have hmode : cpuIsPriv (fetchInsn B (s.cpu.r 15) s).2.cpu = cpuIsPriv s.cpu := by
      rw [cpuIsPriv, cpuIsPriv, ArmCpu.mode, ArmCpu.mode, hsvc.cpsr_eq]
    exact fun hpriv => huser (hmode.symm.trans hpriv)
  obtain ⟨hstatus, hcpu⟩ := armStep_unhooked fpu hsvc
  obtain ⟨hstatus', hcpu'⟩ := armStep_guestSvc fpu hsvc (by
    rw [execSvc_unhooked B (.inr huser')]
    exact ⟨rfl, rfl⟩)
  exact ⟨hstatus'.trans hstatus.symm, hcpu'.trans hcpu.symm⟩

/-- What a step does with a supervisor call, for any core, any hook and both instruction sets. In a
privileged mode it goes by the answer of the hook: a service that is handled or redirects keeps what
the hook has done to the core, and an abort that the hook has latched is taken; a service that fails
stops with the core as it was; a service that is not the hook's leaves a call as without a hook. In
User mode the step is in status and core the one of a machine without a hook. -/
theorem svc_transactional {h : σ → ArmCpu → Word → Word → ArmSvcResult × ArmCpu × σ}
    (hB : B.privilegedSvcHandler = some h) (fpu : HostFpu) (hsvc : AtSvc B s insn) :
    (cpuIsPriv s.cpu → SvcOutcome B fpu h s insn) ∧
    (¬cpuIsPriv s.cpu → (armStep B fpu s).1 = (armStep (unhooked B) fpu s).1 ∧
      (armStep B fpu s).2.cpu = (armStep (unhooked B) fpu s).2.cpu) :=
  ⟨svcOutcome hB fpu hsvc, armStep_svc_user fpu hsvc⟩

/-- A supervisor call with a hook that gives one answer, after it has changed the core. -/
def hookedBus (insn : Word) (answer : ArmSvcResult) (f : ArmCpu → ArmCpu) : ArmBus Unit :=
  { constantBus insn with privilegedSvcHandler := some fun b c _ _ => (answer, f c, b) }

/-- A failed service leaves the count of instructions as it was, also where it has come round. -/
theorem svc_transactional_failed :
    let s : Sys Unit := { cpu := { cpsr := armModeSvc, cycles := BitVec.allOnes 64 }, bus := () }
    (armStep (hookedBus 0xef000000 .error fun c => { c with r := fun _ => 7 }) zeroFpu s).1 = .halt ∧
      (armStep (hookedBus 0xef000000 .error fun c => { c with r := fun _ => 7 }) zeroFpu
        s).2.cpu.uncached = s.cpu.uncached :=
  ((svc_transactional (B := hookedBus 0xef000000 .error fun c => { c with r := fun _ => 7 })
    (s := { cpu := { cpsr := armModeSvc, cycles := BitVec.allOnes 64 }, bus := () })
    rfl zeroFpu (show AtSvc _ _ 0xef000000 from {
      valid := by decide
      fiq := by decide
      irq := by decide
      fetched := by decide
      svc := by decide
      executed := fun _ => ⟨by decide, .inl (by decide)⟩ })).1 (by decide)).failed rfl

/-- A hook that latches a fault does not have the core go on behind the call. -/
theorem svc_handled_latched :
    let s : Sys Unit := { cpu := { cpsr := armModeSvc }, bus := () }
    (armStep (hookedBus 0xef000000 .handled fun c => { c with abortPending := true }) zeroFpu
      s).2.cpu.r 15 ≠ s.cpu.r 15 + insnLength s.cpu := by
  decide

end Exec

end S5LBox
