import S5LBox.Arm.Refusals

/-!
# The exceptions of a step

A step takes one of six exceptions. Each has its vector, the mode of its handler, the place at which
the interrupted program goes on, and the distance from there to the address that entry leaves in the
link register, which is what the return of the handler takes off again.

## Main definitions

* `ExceptionKind`: the exceptions.
* `Exec.Takes`: what makes a step take an exception.

## Main results

* `Exec.armStep_enters`: the step enters the exception from the core as it was, with the link of its
  kind.
* `banking_refines_map`: register banking refines the map from bank and register number.
-/

namespace S5LBox

open Blocks WriteLog Refusal StateProgram

/-- The exceptions that a step takes. -/
inductive ExceptionKind
  | undefined
  | svc
  | prefetchAbort
  | dataAbort
  | irq
  | fiq
  deriving DecidableEq, Repr

namespace ExceptionKind

/-- The vector. -/
def vector : ExceptionKind → Word
  | undefined => armVecUndefined
  | svc => armVecSwi
  | prefetchAbort => armVecPrefetch
  | dataAbort => armVecDataAbort
  | irq => armVecIrq
  | fiq => armVecFiq

/-- The mode of the handler. -/
def mode : ExceptionKind → Word
  | undefined => armModeUnd
  | svc => armModeSvc
  | prefetchAbort => armModeAbt
  | dataAbort => armModeAbt
  | irq => armModeIrq
  | fiq => armModeFiq

/-- Entry masks the fast interrupt. -/
def masksFiq (k : ExceptionKind) : Bool := k == fiq

/-- Where the interrupted program goes on: behind an instruction that calls for its exception, and at
the instruction that has not been executed otherwise. -/
def resume (k : ExceptionKind) (c : ArmCpu) : Word :=
  match k with
  | undefined => c.r 15 + Exec.insnLength c
  | svc => c.r 15 + Exec.insnLength c
  | prefetchAbort => c.r 15
  | dataAbort => c.r 15
  | irq => c.r 15
  | fiq => c.r 15

/-- What the return of the handler takes off the link register. -/
def back : ExceptionKind → Byte
  | undefined => 0
  | svc => 0
  | prefetchAbort => 4
  | dataAbort => 8
  | irq => 4
  | fiq => 4

theorem mode_valid (k : ExceptionKind) : armModeIsValid k.mode := by cases k <;> decide

theorem mode_bank (k : ExceptionKind) : armBankOfMode k.mode ≠ .usr := by cases k <;> decide

theorem mode_masked (k : ExceptionKind) : k.mode &&& armCpsrModeMask = k.mode := by
  cases k <;> decide

end ExceptionKind

namespace Exec

variable {σ : Type} (B : ArmBus σ) (fpu : HostFpu)

/-- The unconditional encodings that have an instruction of their own. -/
def Assigned (insn : Word) : Prop :=
  insn = 0xf57ff01f ∨ insn &&& 0x0c00f000 = 0x0400f000 ∨ insn &&& 0xfff1fe20 = 0xf1000000 ∨
    insn &&& 0xfe000000 = 0xfa000000 ∨ insn &&& 0xfe5fffe0 = 0xf84d0500 ∨
      insn &&& 0xfe50ffff = 0xf8100a00 ∨ insn &&& 0xfffffdff = 0xf1010000

/-- What makes a step take an exception: a line that is raised and not masked; a fetch that fails; an
access that fails; a supervisor call that the platform leaves to the guest; and an instruction of the
floating-point unit, in either instruction space, while the unit is off or out of reach. -/
inductive Takes (s : Sys σ) : ExceptionKind → Prop
  | fiq (hvalid : armModeIsValid s.cpu.cpsr) (hfiq : s.cpu.fiqLine ∧ s.cpu.cpsr &&& armCpsrF = 0) :
      Takes s .fiq
  | irq (hvalid : armModeIsValid s.cpu.cpsr)
      (hfiq : ¬(s.cpu.fiqLine ∧ s.cpu.cpsr &&& armCpsrF = 0))
      (hirq : s.cpu.irqLine ∧ s.cpu.cpsr &&& armCpsrI = 0) : Takes s .irq
  | prefetchAbort (hvalid : armModeIsValid s.cpu.cpsr)
      (hfiq : ¬(s.cpu.fiqLine ∧ s.cpu.cpsr &&& armCpsrF = 0))
      (hirq : ¬(s.cpu.irqLine ∧ s.cpu.cpsr &&& armCpsrI = 0))
      (hfetch : (fetchInsn B (s.cpu.r 15) s).1 = none) : Takes s .prefetchAbort
  | dataAbort (hlatch : s.cpu.abortPending = false)
      (hsvc : ∀ insn, (fetchInsn B (s.cpu.r 15) s).1 = some insn →
        isSvc (s.cpu.getFlag armCpsrT) insn → svcUnhooked B s)
      (habort : (armStep B fpu s).2.aborts ≠ s.aborts) : Takes s .dataAbort
  | svc (insn : Word) (hsvc : AtSvc B s insn) (hlatch : s.cpu.abortPending = false)
      (hguest : (privilegedSvcResult B (s.cpu.r 15) insn (counted B s)).1 = .unhandled) :
      Takes s .svc
  | unconditional (insn : Word) (hat : AtInsn B s insn) (harm : s.cpu.getFlag armCpsrT = false)
      (hspace : field insn 28 = 15) (hfree : ¬Assigned insn)
      (htrap : vfpLazyEnableTrap s.cpu insn) : Takes s .undefined
  | conditional (insn : Word) (hat : AtInsn B s insn) (harm : s.cpu.getFlag armCpsrT = false)
      (hexecuted : Executed s.cpu insn) (hlatch : s.cpu.abortPending = false)
      (hrefused : (armConditional B fpu (s.cpu.r 15) insn (s.cpu.r 15 + 4) (counted B s)).1.1 =
        .undefined)
      (htrap : vfpLazyEnableTrap s.cpu insn) : Takes s .undefined
  | transfer (insn : Word) (hat : AtInsn B s insn) (harm : s.cpu.getFlag armCpsrT = false)
      (hexecuted : Executed s.cpu insn) (hlatch : s.cpu.abortPending = false)
      (hinsn : insn &&& 0x0f000e10 = 0x0e000a10)
      (hrefused : (armConditional B fpu (s.cpu.r 15) insn (s.cpu.r 15 + 4) (counted B s)).1.1 =
        .guestUndefined) : Takes s .undefined

/-! ### Entry -/

/-- A core with the registers and the status of another. -/
structure SameRegisters (c c' : ArmCpu) : Prop where
  regMap : c'.regMap = c.regMap
  cpsr : c'.cpsr = c.cpsr

variable {B} {fpu} {s : Sys σ} {insn : Word}

theorem SameRegisters.of_fields {c c' : ArmCpu} (hr : c'.r = c.r) (hparked : c'.parked = c.parked)
    (hcpsr : c'.cpsr = c.cpsr) : SameRegisters c c' :=
  ⟨regMap_congr hr hparked (congrArg (fun x : Word => x &&& armCpsrModeMask) hcpsr), hcpsr⟩

theorem SameRegisters.of_uncounted {c c' : ArmCpu} (h : c'.uncounted = c.uncounted) :
    SameRegisters c c' := by
  have hr := congrArg ArmCpu.r h
  have hparked := congrArg ArmCpu.parked h
  have hcpsr := congrArg ArmCpu.cpsr h
  exact .of_fields hr hparked hcpsr

/-- The fetched and counted core is the core as it was, but for its caches and its count. -/
theorem AtInsn.uncounted_counted (h : AtInsn B s insn) :
    (counted B s).cpu.uncounted = s.cpu.uncounted := by
  have hcount := congrArg ArmCpu.uncounted h.uncached
  exact hcount

theorem vfpLazyEnableTrap_congr {c c' : ArmCpu} (h : c'.uncounted = c.uncounted) (insn : Word) :
    vfpLazyEnableTrap c' insn = vfpLazyEnableTrap c insn := by
  have hcp15 := congrArg ArmCpu.cp15 h
  have hfpexc := congrArg ArmCpu.vfpFpexc h
  have hmode := congrArg ArmCpu.cpsr h
  dsimp only [ArmCpu.uncounted] at hcp15 hfpexc hmode
  simp only [vfpLazyEnableTrap, vfpCpacrPermits, vfpEnabled, ArmCpu.mode, hcp15, hfpexc, hmode]

/-- What a step enters its exception from: the registers and the status as they were. -/
def Enters (s : Sys σ) (k : ExceptionKind) (c' : ArmCpu) : Prop :=
  ∃ d, SameRegisters s.cpu d ∧
    c' = enterException d k.vector k.mode (k.resume s.cpu + k.back.setWidth 32) k.masksFiq

/-- A fetch that fails enters the prefetch abort. -/
theorem fetchInsn_enters (hfetch : (fetchInsn B (s.cpu.r 15) s).1 = none) :
    Enters s .prefetchAbort (fetchInsn B (s.cpu.r 15) s).2.cpu := by
  have hresolve : (resolveFetch B (s.cpu.r 15) s).1 = none ∧
      (fetchInsn B (s.cpu.r 15) s).2 = (resolveFetch B (s.cpu.r 15) s).2 := by
    rw [fetchInsn, run_bind] at hfetch ⊢
    cases hsrc : (resolveFetch B (s.cpu.r 15) s).1 with
    | none => exact ⟨rfl, rfl⟩
    | some src =>
      rw [hsrc] at hfetch
      cases hfetch
  obtain ⟨hnone, heq⟩ := hresolve
  obtain ⟨hcpu, -⟩ := cacheOnly_armMmuTranslate B (s.cpu.r 15) .fetch (cpuIsPriv s.cpu) 0
    (logAccess .fetch (s.cpu.r 15) (cpuIsPriv s.cpu) s).2
  rw [heq]
  simp only [resolveFetch, run_bind, run_ite] at hnone ⊢
  split at hnone
  case isTrue hhit =>
    rw [fetchBlockHit, Bool.and_eq_true, Bool.and_eq_true, Bool.and_eq_true] at hhit
    obtain ⟨host, hhost⟩ := Option.isSome_iff_exists.mp hhit.1.1.1
    have hsome : (logAccess .fetch (s.cpu.r 15) (cpuIsPriv s.cpu) s).2.cpu.cache.fetchHost =
        some host := hhost
    rw [hhost] at hnone
    cases hnone
  case isFalse hmiss =>
    rw [if_neg hmiss]
    split at hnone
    case isTrue hfsr =>
      rw [if_pos hfsr]
      refine ⟨_, ?_, rfl⟩
      have hr := congrArg ArmCpu.r hcpu
      have hparked := congrArg ArmCpu.parked hcpu
      have hcpsr := congrArg ArmCpu.cpsr hcpu
      exact .of_fields hr hparked hcpsr
    case isFalse hfsr =>
      split at hnone <;> cases hnone

/-- A supervisor call that the platform leaves to the guest enters the exception of the guest. -/
theorem armStep_svc_enters (hsvc : AtSvc B s insn) (hlatch : s.cpu.abortPending = false)
    (hguest : (privilegedSvcResult B (s.cpu.r 15) insn (counted B s)).1 = .unhandled) :
    Enters s .svc (armStep B fpu s).2.cpu := by
  have hcpu : (privilegedSvcResult B (s.cpu.r 15) insn (counted B s)).2.cpu = (counted B s).cpu := by
    cases hB : B.privilegedSvcHandler with
    | none => rw [privilegedSvcResult, hB]
    | some handler =>
      rw [privilegedSvcResult, hB] at hguest ⊢
      dsimp only at hguest ⊢
      split_ifs at hguest ⊢ with hpriv hdone
      · dsimp only at hguest
        rw [hguest] at hdone
        exact absurd hdone (by decide)
      · rfl
      · rfl
  have huncounted := hsvc.toAtInsn.uncounted_counted
  have hpending : (counted B s).cpu.abortPending = false :=
    (congrArg ArmCpu.abortPending huncounted).trans hlatch
  obtain ⟨-, hstep⟩ := armStep_guestSvc fpu hsvc (by
    rw [execSvc, run_bind, hguest]
    dsimp only
    rw [run_onCpu, hcpu]
    exact ⟨rfl, rfl⟩)
  refine ⟨(counted B s).cpu, .of_uncounted huncounted, ?_⟩
  have hentry := abortPending_takeException (counted B s).cpu armVecSwi armModeSvc
    (s.cpu.r 15 + insnLength s.cpu) false
  rw [hstep, guestSvc, if_neg (by rw [hentry, hpending]; exact Bool.false_ne_true)]
  have hback : ExceptionKind.svc.resume s.cpu + ExceptionKind.svc.back.setWidth 32 =
      s.cpu.r 15 + insnLength s.cpu := BitVec.add_zero _
  rw [hback]
  rfl

/-! ### Undefined instructions -/

/-- A field and a mask that disagree on some bits are not both met. -/
theorem and_ne_of_and_eq {x m v m' v' : Word} (h : x &&& m = v)
    (hne : v &&& m' ≠ v' &&& m) : x &&& m' ≠ v' := by
  intro h'
  apply hne
  rw [← h, ← h', BitVec.and_assoc, BitVec.and_assoc, BitVec.and_comm m m']

/-- An instruction of the floating-point unit that is off, in the unconditional space. -/
theorem armUnconditional_free {pc insn next : Word} (hfree : ¬Assigned insn) :
    armUnconditional B pc insn next = onCpu (undefinedInstruction pc insn) := by
  simp only [Assigned, not_or] at hfree
  obtain ⟨hclrex, hpld, hcps, hblx, hsrs, hrfe, hsetend⟩ := hfree
  funext s
  simp only [armUnconditional, run_ite, if_neg hclrex, if_neg hpld, if_neg hcps, if_neg hblx,
    if_neg hsrs, if_neg hrfe, if_neg hsetend]

theorem undefinedInstruction_of_trap {pc insn : Word} {c : ArmCpu} (h : vfpLazyEnableTrap c insn) :
    undefinedInstruction pc insn c = (.ok, takeUndefinedInstruction c pc) := if_pos h

/-- In ARM state the exception of an undefined instruction returns behind it. -/
theorem enters_undefined (harm : s.cpu.getFlag armCpsrT = false) {d : ArmCpu}
    (hd : SameRegisters s.cpu d) :
    Enters s .undefined (takeUndefinedInstruction d (s.cpu.r 15)) := by
  have hlength : insnLength s.cpu = 4 := if_neg (harm ▸ Bool.false_ne_true)
  have hback : ExceptionKind.undefined.resume s.cpu + ExceptionKind.undefined.back.setWidth 32 =
      s.cpu.r 15 + 4 := by
    rw [ExceptionKind.resume, hlength]
    exact BitVec.add_zero _
  exact ⟨d, hd, by rw [hback]; rfl⟩

theorem armStep_unconditional_enters (hat : AtInsn B s insn)
    (harm : s.cpu.getFlag armCpsrT = false) (hspace : field insn 28 = 15)
    (hfree : ¬Assigned insn) (htrap : vfpLazyEnableTrap s.cpu insn) :
    Enters s .undefined (armStep B fpu s).2.cpu := by
  have huncounted := hat.uncounted_counted
  have htrap' : vfpLazyEnableTrap (counted B s).cpu insn :=
    (vfpLazyEnableTrap_congr huncounted insn).trans htrap
  have hstep : armStep B fpu s =
      onCpu (undefinedInstruction (s.cpu.r 15) insn) (counted B s) := by
    rw [armStep_insn fpu hat, if_neg (harm ▸ Bool.false_ne_true), armInsn, run_modifyCpu, run_ite,
      if_pos hspace, armUnconditional_free hfree]
    rfl
  rw [hstep]
  have hcpu : (onCpu (undefinedInstruction (s.cpu.r 15) insn) (counted B s)).2.cpu =
      takeUndefinedInstruction (counted B s).cpu (s.cpu.r 15) :=
    congrArg Prod.snd (undefinedInstruction_of_trap htrap')
  rw [hcpu]
  exact enters_undefined harm (.of_uncounted huncounted)

/-- A refused instruction goes to the end of the step with the core as it was. -/
theorem armStep_refused_enters (hat : AtInsn B s insn) (harm : s.cpu.getFlag armCpsrT = false)
    (hexecuted : Executed s.cpu insn) (hlatch : s.cpu.abortPending = false)
    (hcore : (armConditional B fpu (s.cpu.r 15) insn (s.cpu.r 15 + 4) (counted B s)).2.cpu.uncounted =
      (counted B s).cpu.uncounted)
    (hrefused : (armConditional B fpu (s.cpu.r 15) insn (s.cpu.r 15 + 4) (counted B s)).1.1 =
        .guestUndefined ∨
      (armConditional B fpu (s.cpu.r 15) insn (s.cpu.r 15 + 4) (counted B s)).1.1 = .undefined ∧
        vfpLazyEnableTrap s.cpu insn) :
    Enters s .undefined (armStep B fpu s).2.cpu := by
  have huncounted := hcore.trans hat.uncounted_counted
  rw [armStep_conditional fpu hat harm hexecuted, run_bind]
  generalize armConditional B fpu (s.cpu.r 15) insn (s.cpu.r 15 + 4) (counted B s) = out at *
  obtain ⟨⟨st, next⟩, s₁⟩ := out
  have hpending : s₁.cpu.abortPending = false :=
    (congrArg ArmCpu.abortPending huncounted).trans hlatch
  have hentry : Enters s .undefined (takeUndefinedInstruction s₁.cpu (s.cpu.r 15)) :=
    enters_undefined harm (.of_uncounted huncounted)
  have hlatched : ¬(abortLatched s₁).1 = true := by
    rw [abortLatched, hpending]
    exact Bool.false_ne_true
  dsimp only at hrefused ⊢
  obtain rfl | ⟨rfl, htrap⟩ := hrefused
  · rw [armRetire, run_ite, if_neg (by simp), takeLatchedAbort, run_bind, run_ite, if_neg hlatched,
      run_ite, if_pos rfl]
    exact hentry
  · have htrap' : vfpLazyEnableTrap s₁.cpu insn :=
      (vfpLazyEnableTrap_congr huncounted insn).trans htrap
    have hcpu : (onCpu (undefinedInstruction (s.cpu.r 15) insn) s₁).2.cpu =
        takeUndefinedInstruction s₁.cpu (s.cpu.r 15) :=
      congrArg Prod.snd (undefinedInstruction_of_trap htrap')
    rw [armRetire, run_ite, if_neg (by simp), takeLatchedAbort, run_bind, run_ite, if_neg hlatched,
      run_ite, if_neg (by simp), run_ite, if_pos rfl]
    exact hcpu ▸ hentry

/-- A register transfer of the floating-point unit goes through the coprocessor space. -/
theorem armConditional_transfer {pc next : Word} (hinsn : insn &&& 0x0f000e10 = 0x0e000a10) :
    armConditional B fpu pc insn next = sequential next (vfpExecute B fpu pc insn) := by
  have hhoisted : ¬isHoistedDataProcessing insn = true := by
    have hne : insn &&& 0x0c000000 ≠ 0 := and_ne_of_and_eq hinsn (by decide)
    rw [isHoistedDataProcessing, beq_false_of_ne hne]
    exact Bool.false_ne_true
  have hne {m v : Word} (hdiffer : (0x0e000a10 : Word) &&& m ≠ v &&& 0x0f000e10) : insn &&& m ≠ v :=
    and_ne_of_and_eq hinsn hdiffer
  have hclass : insn &&& 0x0f000010 = 0x0e000010 := by
    have hmask := congrArg (fun x : Word => x &&& 0x0f000010) hinsn
    rw [BitVec.and_assoc] at hmask
    exact hmask
  have hcp : field insn 8 = 10 ∨ field insn 8 = 11 := by
    have hbits : field insn 8 &&& 0xe = 0xa := by
      have hextract := congrArg (fun x : Word => x.extractLsb' 8 4) hinsn
      rw [BitVec.extractLsb'_and] at hextract
      exact hextract
    revert hbits
    generalize field insn 8 = cp
    revert cp
    decide
  rw [armConditional, if_neg hhoisted, if_neg (not_or.mpr ⟨hne (by decide), hne (by decide)⟩),
    if_neg (hne (by decide)), if_neg (hne (by decide)), if_neg (hne (by decide)),
    if_neg fun h => hne (by decide) h.1, if_neg (hne (by decide)), if_neg (hne (by decide)),
    if_neg fun h => hne (by decide) h.1, if_neg fun h => hne (by decide) h.1, if_pos hclass]
  have hne14 : field insn 8 ≠ 14 := by
    obtain h | h := hcp <;> rw [h] <;> decide
  funext s
  rw [execCoprocessor, sequential]
  simp only [run_bind, if_neg hne14, if_pos hcp]
  rfl

/-- It is refused with the exception of the guest before it has done anything. -/
theorem armConditional_guestUndefined {pc next : Word} {s : Sys σ}
    (hinsn : insn &&& 0x0f000e10 = 0x0e000a10)
    (h : (armConditional B fpu pc insn next s).1.1 = .guestUndefined) :
    (armConditional B fpu pc insn next s).2 = s := by
  rw [armConditional_transfer hinsn] at h ⊢
  have hxfer (hst : (onCpu (vfpXfer32 insn) s).1 = .guestUndefined) :
      (onCpu (vfpXfer32 insn) s).2 = s := by
    have hst' : (vfpXfer32 insn s.cpu).1 = .guestUndefined := hst
    obtain hordinary | hcore | ⟨-, v, hok⟩ := vfpXfer32_cases s.cpu insn
    · rw [hst'] at hordinary
      cases hordinary
    · have hsame : (vfpXfer32 insn s.cpu).2 = s.cpu := congrArg Prod.snd hcore
      exact congrArg (fun c => { s with cpu := c }) hsame
    · rw [hok] at hst'
      cases hst'
  have hexecute (hst : (vfpExecute B fpu pc insn s).1 = .guestUndefined) :
      (vfpExecute B fpu pc insn s).2 = s := by
    simp only [vfpExecute, vfpExecuteInner, run_getCpu, run_ite, if_pos hinsn] at hst ⊢
    split_ifs at hst ⊢
    all_goals first
      | exact hxfer hst
      | cases hst
  exact hexecute h

/-! ### The entries -/

theorem enters_dataAbort {c : ArmCpu} {vfp : Bool} (hkept : c.kept vfp = s.cpu.kept vfp) :
    Enters s .dataAbort (takePendingDataAbort c (s.cpu.r 15)) := by
  have hmap : c.regMap = s.cpu.regMap := regMap_of_kept hkept
  have hcpsr := congrArg ArmCpu.cpsr hkept
  let d : ArmCpu := { c with
    abortPending := false
    cp15 := { c.cp15 with dfsr := c.abortFsr, dfar := c.abortFar } }
  have hsame : SameRegisters s.cpu d := ⟨hmap, hcpsr⟩
  exact ⟨d, hsame, rfl⟩

/-- A step takes an exception in a valid mode only. -/
theorem Takes.valid {k : ExceptionKind} (h : Takes B fpu s k) : armModeIsValid s.cpu.cpsr := by
  cases h with
  | fiq hvalid => exact hvalid
  | irq hvalid => exact hvalid
  | prefetchAbort hvalid => exact hvalid
  | dataAbort hlatch hsvc habort =>
    obtain hnone | ⟨hvalid, -⟩ := armStep_precise B fpu true hlatch hsvc fun _ _ _ => rfl
    · exact absurd hnone habort
    · exact hvalid
  | svc insn hsvc => exact hsvc.valid
  | unconditional insn hat => exact hat.valid
  | conditional insn hat => exact hat.valid
  | transfer insn hat => exact hat.valid

/-- Whatever makes a step take an exception, the step enters it from the core as it was. -/
theorem armStep_enters {k : ExceptionKind} (h : Takes B fpu s k) :
    Enters s k (armStep B fpu s).2.cpu := by
  have hsame : SameRegisters s.cpu (countCycle s.cpu) := ⟨rfl, rfl⟩
  cases h with
  | fiq hvalid hfiq =>
    rw [armStep, run_getCpu, run_ite, if_neg (not_not.mpr hvalid), run_ite, if_pos hfiq]
    exact ⟨_, hsame, rfl⟩
  | irq hvalid hfiq hirq =>
    rw [armStep, run_getCpu, run_ite, if_neg (not_not.mpr hvalid), run_ite, if_neg hfiq, run_ite,
      if_pos hirq]
    exact ⟨_, hsame, rfl⟩
  | prefetchAbort hvalid hfiq hirq hfetch =>
    rw [armStep, run_getCpu, run_ite, if_neg (not_not.mpr hvalid), run_ite, if_neg hfiq, run_ite,
      if_neg hirq, fetchAndExecute, run_bind, hfetch]
    exact fetchInsn_enters hfetch
  | dataAbort hlatch hsvc habort =>
    obtain hnone | ⟨-, c, hkept, hentry⟩ :=
      armStep_precise B fpu true hlatch hsvc fun _ _ _ => rfl
    · exact absurd hnone habort
    · rw [hentry]
      exact enters_dataAbort hkept
  | svc insn hsvc hlatch hguest => exact armStep_svc_enters hsvc hlatch hguest
  | unconditional insn hat harm hspace hfree htrap =>
    exact armStep_unconditional_enters hat harm hspace hfree htrap
  | conditional insn hat harm hexecuted hlatch hrefused htrap =>
    have hcore := (refuses_armConditional B fpu _ _ _ _ hrefused).core
    exact armStep_refused_enters hat harm hexecuted hlatch hcore (.inr ⟨hrefused, htrap⟩)
  | transfer insn hat harm hexecuted hlatch hinsn hrefused =>
    have hcore := congrArg (fun s => s.cpu.uncounted) (armConditional_guestUndefined hinsn hrefused)
    exact armStep_refused_enters hat harm hexecuted hlatch hcore (.inl hrefused)

end Exec

section Return

variable {c c' : ArmCpu} {k : ExceptionKind} {ret : Word}

/-- A return from an exception that has left what was interrupted in the registers of its bank. -/
theorem ReturnSequence.returns_of_entered (hvalid : armModeIsValid c.cpsr)
    (hmode : c'.mode = k.mode) {v : Word}
    (hmap : c'.regMap = writeAll c.regMap
      [(.spsr (armBankOfMode k.mode), c.cpsr), (.lr (armBankOfMode k.mode), ret), (.pc, v)])
    (seq : ReturnSequence) (hseq : seq.Reloads c') :
    c'.r 14 = ret ∧ (seq.run c').2.cpsr = c.cpsr ∧
      (seq.run c').1 = seq.target c' &&& pcMask c.cpsr ∧
      ∀ key, key ≠ .pc → key ≠ .lr (armBankOfMode k.mode) → key ≠ .spsr (armBankOfMode k.mode) →
        (seq.run c').2.regMap key = c.regMap key := by
  have hbank : c'.bank = armBankOfMode k.mode := by
    apply armBankOfMode_congr
    exact hmode.trans k.mode_masked.symm
  have hlr : c'.r 14 = ret := by
    have h14 : archReg (armBankOfMode k.mode) 14 = .lr (armBankOfMode k.mode) := by
      cases armBankOfMode k.mode <;> decide
    have hne : ArchReg.lr (armBankOfMode k.mode) ≠ .pc := by
      intro h
      cases h
    rw [r_eq_regMap, hbank, h14, hmap, writeAll, writeAll, writeAll, writeAll,
      Function.update_of_ne hne, Function.update_self]
  have hspsr : c'.spsr c'.bank = c.cpsr := by
    have hpc : ArchReg.spsr (armBankOfMode k.mode) ≠ .pc := by
      intro h
      cases h
    have hne : ArchReg.spsr (armBankOfMode k.mode) ≠ .lr (armBankOfMode k.mode) := by
      intro h
      cases h
    have hsaved : c'.regMap (.spsr (armBankOfMode k.mode)) = c.cpsr := by
      rw [hmap, writeAll, writeAll, writeAll, writeAll, Function.update_of_ne hpc,
        Function.update_of_ne hne, Function.update_self]
    rw [hbank]
    exact hsaved
  have hout := ReturnSequence.returns (hbank ▸ k.mode_bank) (hspsr ▸ hvalid) seq hseq
  rw [hspsr] at hout
  refine ⟨hlr, hout.cpsr, hout.pc, fun key hpc hlr hsp => ?_⟩
  rw [hout.regMap key hpc, hmap, writeAll, writeAll, writeAll, writeAll, Function.update_of_ne hpc,
    Function.update_of_ne hlr, Function.update_of_ne hsp]

/-- The registers of the interrupted mode, but for the link register if the handler has the same
bank. -/
theorem r_of_regMap {b : ArmBank} (hcpsr : c'.cpsr = c.cpsr)
    (hmap : ∀ key, key ≠ .pc → key ≠ .lr b → key ≠ .spsr b → c'.regMap key = c.regMap key)
    {n : RegNo} (h15 : n ≠ 15) (h14 : n = 14 → c.bank ≠ b) : c'.r n = c.r n := by
  have hback : c'.bank = c.bank := congrArg armBankOfMode hcpsr
  rw [r_eq_regMap, hback, r_eq_regMap c]
  refine hmap _ (fun h => h15 (archReg_eq_pc h)) (fun h => ?_) (archReg_ne_spsr _ _ n)
  obtain ⟨hn, heq⟩ := archReg_eq_lr h
  exact h14 hn heq

end Return

/-- A step that takes an exception leaves where the interrupted program goes on in the link register
of the handler, with the distance of the exception. A return that takes this distance off again
restores the status register and the registers of the interrupted mode, and goes on there. -/
theorem Exec.armStep_entry_return {σ : Type} {B : ArmBus σ} {fpu : HostFpu} {s : Sys σ}
    {k : ExceptionKind} (htakes : Exec.Takes B fpu s k) (seq : ReturnSequence)
    (hseq : seq.Reloads (Exec.armStep B fpu s).2.cpu)
    (hback : seq.target (Exec.armStep B fpu s).2.cpu =
      (Exec.armStep B fpu s).2.cpu.r 14 - k.back.setWidth 32) :
    let c := s.cpu
    let entry := (Exec.armStep B fpu s).2.cpu
    let out := seq.run entry
    entry.mode = k.mode ∧ entry.r 14 = k.resume c + k.back.setWidth 32 ∧
      out.2.cpsr = c.cpsr ∧ out.1 = k.resume c &&& pcMask c.cpsr ∧
        (∀ n, n ≠ 15 → (n = 14 → c.bank ≠ armBankOfMode k.mode) → out.2.r n = c.r n) ∧
          ∀ key, key ≠ .pc → key ≠ .lr (armBankOfMode k.mode) →
            key ≠ .spsr (armBankOfMode k.mode) → out.2.regMap key = c.regMap key := by
  intro c entry out
  obtain ⟨d, hd, hentry⟩ := Exec.armStep_enters htakes
  have hmode : entry.mode = k.mode := by
    have henter := enterException_mode d k.vector k.mode (k.resume c + k.back.setWidth 32)
      k.masksFiq k.mode_valid
    rw [← hentry] at henter
    exact henter.trans k.mode_masked
  have hmap := regMap_enterException d k.vector k.mode (k.resume c + k.back.setWidth 32) k.masksFiq
    k.mode_valid
  rw [← hentry, hd.regMap, hd.cpsr] at hmap
  obtain ⟨hlr, hcpsr, hpc, hkeeps⟩ :=
    ReturnSequence.returns_of_entered htakes.valid hmode hmap seq hseq
  refine ⟨hmode, hlr, hcpsr, ?_, fun n h15 h14 => r_of_regMap hcpsr hkeeps h15 h14, hkeeps⟩
  rw [hpc, hback, hlr, BitVec.add_sub_cancel]

/-- Register banking refines the map from bank and register number. After any run of mode
changes, exceptions, register, user-bank and saved-status accesses and exception returns, a
register read in any mode, or through the user view, holds the last value written to the
architectural register of that mode, and so do the saved status registers. Exception entry followed
by an architectural return restores the interrupted status register and registers, except for the
link and saved status registers of the handler's bank, and goes to what it takes from the link
register. A step that takes an exception leaves there where the interrupted program goes on, with the
distance of the exception: a return that takes the distance off again goes on at the interrupted
instruction, or behind it after a supervisor call and an undefined instruction. -/
theorem banking_refines_map :
    (∀ (ops : List BankOp) (c : ArmCpu) (mode : Word) (n : RegNo), armModeIsValid mode →
      (armSetMode (bankRun ops c) mode).r n =
        (lastWritten (archReg (armBankOfMode mode) n) (bankLog ops c)).getD
          (c.regMap (archReg (armBankOfMode mode) n))) ∧
    (∀ (ops : List BankOp) (c : ArmCpu) (pc : Word) (n : RegNo), n ≠ 15 →
      regReadUser (bankRun ops c) pc n =
        (lastWritten (archReg .usr n) (bankLog ops c)).getD (c.regMap (archReg .usr n))) ∧
    (∀ (ops : List BankOp) (c : ArmCpu) (b : ArmBank),
      (bankRun ops c).spsr b = (lastWritten (.spsr b) (bankLog ops c)).getD (c.spsr b)) ∧
    (∀ (c : ArmCpu) (vector mode ret : Word) (maskFiq : Bool) (seq : ReturnSequence),
      armModeIsValid c.cpsr → armModeIsValid mode → armBankOfMode mode ≠ .usr →
        seq.Reloads (takeException c vector mode ret maskFiq).1 →
          let entry := (takeException c vector mode ret maskFiq).1
          let out := seq.run entry
          entry.r 14 = ret ∧ out.2.cpsr = c.cpsr ∧ out.1 = seq.target entry &&& pcMask c.cpsr ∧
            (∀ n, n ≠ 15 → (n = 14 → c.bank ≠ armBankOfMode mode) → out.2.r n = c.r n) ∧
              ∀ k, k ≠ .pc → k ≠ .lr (armBankOfMode mode) → k ≠ .spsr (armBankOfMode mode) →
                out.2.regMap k = c.regMap k) ∧
    ∀ (σ : Type) (B : ArmBus σ) (fpu : HostFpu) (s : Sys σ) (k : ExceptionKind)
      (seq : ReturnSequence),
      Exec.Takes B fpu s k → seq.Reloads (Exec.armStep B fpu s).2.cpu →
        seq.target (Exec.armStep B fpu s).2.cpu =
            (Exec.armStep B fpu s).2.cpu.r 14 - k.back.setWidth 32 →
          let c := s.cpu
          let entry := (Exec.armStep B fpu s).2.cpu
          let out := seq.run entry
          entry.mode = k.mode ∧ entry.r 14 = k.resume c + k.back.setWidth 32 ∧
            out.2.cpsr = c.cpsr ∧ out.1 = k.resume c &&& pcMask c.cpsr ∧
              (∀ n, n ≠ 15 → (n = 14 → c.bank ≠ armBankOfMode k.mode) → out.2.r n = c.r n) ∧
                ∀ key, key ≠ .pc → key ≠ .lr (armBankOfMode k.mode) →
                  key ≠ .spsr (armBankOfMode k.mode) → out.2.regMap key = c.regMap key := by
  refine ⟨fun ops c mode n hmode => ?_, fun ops c pc n h15 => ?_, fun ops c b => ?_, ?_,
    fun σ B fpu s k seq htakes hseq hback => Exec.armStep_entry_return htakes seq hseq hback⟩
  · rw [r_eq_regMap, armSetMode_bank _ _ hmode, regMap_armSetMode, bankRun_regMap]
  · rw [regReadUser_eq _ n pc h15, bankRun_regMap]
  · exact bankRun_regMap ops c (.spsr b)
  · intro c vector mode ret maskFiq seq hvalid hmode hbank hseq entry out
    obtain ⟨hlr, hcpsr, hpc, hmap⟩ :=
      takeException_return hvalid vector hmode hbank ret maskFiq seq hseq
    exact ⟨hlr, hcpsr, hpc, fun n h15 h14 => r_of_regMap hcpsr hmap h15 h14, hmap⟩

/-- A core in Thumb state and User mode whose interrupt line is raised. -/
def interruptedThumb : Sys Unit :=
  { cpu := { cpsr := armModeUsr ||| armCpsrT, r := fun n => if n = 15 then 0x1002 else 7,
             irqLine := true }
    bus := () }

/-- A stack pointer written in Supervisor mode is read back after a stay in IRQ mode, which has
one of its own; and an interrupt of Thumb code returns to the instruction that was not executed. -/
theorem banking_refines_map_stacks :
    (armSetMode
        (bankRun [.write 13 0x1000, .setMode armModeIrq, .write 13 0x2000]
          { cpsr := armModeSvc }) armModeSvc).r 13 = 0x1000 ∧
      let entry := (Exec.armStep (Exec.constantBus 0) Exec.zeroFpu interruptedThumb).2.cpu
      let out := (ReturnSequence.subs 0x18 0x1c 4).run entry
      entry.r 14 = 0x1006 ∧ out.1 = 0x1002 ∧ out.2.cpsr = armModeUsr ||| armCpsrT ∧
        out.2.r 14 = 7 := by
  obtain ⟨hruns, -, -, -, hsteps⟩ := banking_refines_map
  obtain ⟨-, hlr, hcpsr, hpc, hregs, -⟩ := hsteps Unit (Exec.constantBus 0) Exec.zeroFpu
    interruptedThumb .irq (.subs 0x18 0x1c 4)
    (.irq (by decide) (by decide) (by decide)) trivial rfl
  exact ⟨(hruns _ _ armModeSvc 13 (by decide)).trans (by decide), hlr.trans (by decide),
    hpc.trans (by decide), hcpsr, (hregs 14 (by decide) (by decide)).trans (by decide)⟩

/-- An exception taken to the mode that is interrupted overwrites the link register of that mode:
an SVC from Supervisor mode returns with its own return address in it. -/
theorem takeException_overwrites_link :
    let c : ArmCpu := { cpsr := armModeSvc, r := fun _ => 7 }
    let entry := (takeException c armVecSwi armModeSvc 0x1004 false).1
    let out := (ReturnSequence.movs 0x8 0xc).run entry
    armModeIsValid c.cpsr ∧ out.2.cpsr = c.cpsr ∧ out.1 = 0x1004 ∧ out.2.r 14 ≠ c.r 14 := by
  decide

end S5LBox
