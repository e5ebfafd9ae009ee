import S5LBox.Arm.AtomicInstructions

/-!
# Data aborts are precise

The end of a step turns a latched fault into the Data Abort exception. The instructions are
atomic, so the exception is entered from the core that the step started with: the handler finds
every register, flag and control register as it was, and the ordinary return from the handler
brings the core back to the instruction.

## Main definitions

* `Precise`: a program takes its data aborts from a core that keeps a given one.

## Main results

* `armStep_precise`: a step does.
* `armStep_dataAbort`: what a step that takes a data abort changes, and what the return restores.
-/

namespace S5LBox

open Blocks StateProgram WriteLog

namespace Exec

variable {σ α β : Type} (B : ArmBus σ) (fpu : HostFpu) {vfp : Bool}

/-! ### Programs that take aborts -/

/-- From a state that keeps the core `c₀`, the program takes no data abort, or takes one from a
core that keeps `c₀`. -/
def Precise (vfp : Bool) (pc : Word) (c₀ : ArmCpu) (n₀ : Nat) (m : Exec σ α) : Prop :=
  ∀ s, keptBy vfp s = c₀ → s.aborts = n₀ →
    (m s).2.aborts = n₀ ∨ ∃ c, c.kept vfp = c₀ ∧ (m s).2.cpu = takePendingDataAbort c pc

section Precise

variable {pc : Word} {c₀ : ArmCpu} {n₀ : Nat}

theorem Precise.of_aborts {m : Exec σ α} (h : ∀ s, (m s).2.aborts = s.aborts) :
    Precise vfp pc c₀ n₀ m := fun s _ hn => .inl ((h s).trans hn)

theorem Precise.pure (a : α) : Precise vfp pc c₀ n₀ (pure a : Exec σ α) :=
  .of_aborts fun _ => rfl

theorem Precise.ite {p : Prop} [Decidable p] {m n : Exec σ α} (hm : p → Precise vfp pc c₀ n₀ m)
    (hn : ¬p → Precise vfp pc c₀ n₀ n) : Precise vfp pc c₀ n₀ (if p then m else n) :=
  iteInduction hm hn

theorem Precise.either {p : Prop} [Decidable p] {m n : Exec σ α} (hm : Precise vfp pc c₀ n₀ m)
    (hn : Precise vfp pc c₀ n₀ n) : Precise vfp pc c₀ n₀ (if p then m else n) :=
  .ite (fun _ => hm) fun _ => hn

theorem Precise.bind {m : Exec σ α} {f : α → Exec σ β} (hm : Quiet vfp m)
    (hf : ∀ a, Precise vfp pc c₀ n₀ (f a)) : Precise vfp pc c₀ n₀ (m >>= f) := by
  intro s hc hn
  obtain ⟨hkept, haborts⟩ := hm s
  exact hf (m s).1 (m s).2 (hkept.trans hc) (haborts.trans hn)

theorem Precise.takeDataAbort (a : α) :
    Precise vfp pc c₀ n₀ (do takeDataAbort pc; Pure.pure a : Exec σ α) :=
  fun s hc _ => .inr ⟨s.cpu, hc, rfl⟩

theorem Precise.latched {k : Exec σ ArmStatus} (hk : Precise vfp pc c₀ n₀ k) :
    Precise vfp pc c₀ n₀ (takeLatchedAbort pc k) :=
  .bind quiet_abortLatched fun _ => .either (.takeDataAbort _) hk

end Precise

/-! ### The return-state pair -/

section Steps

variable {pc : Word} {c₀ : ArmCpu} {n₀ : Nat}

theorem precise_execSrs (insn next : Word) : Precise vfp pc c₀ n₀ (execSrs B pc insn next) := by
  refine .bind quiet_getCpu fun c => ?_
  refine .either (.pure _) ?_
  refine .either (.pure _) ?_
  refine .bind (quiet_prepareMultiwordAddress _ 4 true) fun base => ?_
  cases base with
  | none => exact .takeDataAbort _
  | some base =>
    refine .bind (quiet_memW32 B _ _) fun _ => .latched ?_
    refine .bind (quiet_memW32 B _ _) fun _ => .latched ?_
    refine .of_aborts fun s => ?_
    by_cases hW : bit insn 21 = true
    · simp only [guarded, hW, if_true]
      rfl
    · simp only [guarded, hW]
      rfl

theorem precise_execRfe (insn : Word) : Precise vfp pc c₀ n₀ (execRfe B pc insn) := by
  refine .bind quiet_getCpu fun c => ?_
  refine .either (.pure _) ?_
  refine .either (.pure _) ?_
  refine .bind (quiet_prepareMultiwordAddress _ 4 false) fun base => ?_
  cases base with
  | none => exact .takeDataAbort _
  | some base =>
    refine .bind (quiet_memR32 B _) fun newPc => .latched ?_
    refine .bind (quiet_memR32 B _) fun newCpsr => .latched ?_
    refine .either (.pure _) ?_
    refine .either (.pure _) ?_
    exact .of_aborts fun _ => rfl

theorem precise_armUnconditional (insn next : Word) :
    Precise vfp pc c₀ n₀ (armUnconditional B pc insn next) := by
  rw [armUnconditional]
  refine .either (.of_aborts fun _ => rfl) ?_
  refine .either (.of_aborts fun _ => rfl) ?_
  refine .either (.of_aborts fun _ => rfl) ?_
  refine .either (.of_aborts fun _ => rfl) ?_
  refine .either (precise_execSrs B insn next) ?_
  refine .either (precise_execRfe B insn) ?_
  refine .either ?_ <| .of_aborts fun _ => rfl
  exact .either (.pure _) <| .of_aborts fun _ => rfl

/-! ### The end of an instruction -/

/-- An atomic instruction, with the latched fault turned into a data abort at its end. -/
theorem precise_atomic {m : Exec σ (ArmStatus × Word)} {s : Sys σ}
    (hm : Rollback.AtomicAt pending (keptBy vfp) Sys.aborts m s) (hlatch : pending s = false)
    {k : ArmStatus × Word → Exec σ ArmStatus} (hk : ∀ r s, (k r s).2.aborts = s.aborts) :
    let step := m >>= fun r => if r.1 = .halt then pure .halt else takeLatchedAbort pc (k r)
    (step s).2.aborts = s.aborts ∨
      ∃ c, c.kept vfp = keptBy vfp s ∧ (step s).2.cpu = takePendingDataAbort c pc := by
  obtain ⟨hview, hmark⟩ := hm hlatch
  intro step
  simp only [step, run_bind, run_ite, takeLatchedAbort]
  split
  · exact .inl hmark
  split
  case isTrue hpending => exact .inr ⟨_, hview hpending, rfl⟩
  case isFalse => exact .inl ((hk _ _).trans hmark)

theorem aborts_goOn (st : ArmStatus) (next : Word) (s : Sys σ) :
    ((do guarded (st = .ok) (modifyCpu (·.setR 15 next)); pure st : Exec σ ArmStatus) s).2.aborts =
      s.aborts := by
  rw [run_bind, run_guarded]
  split <;> rfl

/-- The resolution of the fetch address touches the caches alone, unless it takes a prefetch
abort. -/
theorem resolveFetch_frame (pc : Word) (s : Sys σ) :
    (resolveFetch B pc s).2.aborts = s.aborts ∧
      ((resolveFetch B pc s).1 ≠ none → (resolveFetch B pc s).2.cpu.uncached = s.cpu.uncached) := by
  obtain ⟨hcpu, haborts⟩ := cacheOnly_armMmuTranslate B pc .fetch (cpuIsPriv s.cpu) 0
    (logAccess .fetch pc (cpuIsPriv s.cpu) s).2
  simp only [resolveFetch, run_bind, run_ite]
  split
  · exact ⟨rfl, fun _ => rfl⟩
  split
  · exact ⟨haborts, fun h => absurd rfl h⟩
  split
  · exact ⟨haborts, fun _ => hcpu⟩
  · exact ⟨haborts, fun _ => hcpu⟩

/-- So does the fetch. -/
theorem fetchInsn_frame (pc : Word) (s : Sys σ) :
    (fetchInsn B pc s).2.aborts = s.aborts ∧
      ((fetchInsn B pc s).1 ≠ none → (fetchInsn B pc s).2.cpu.uncached = s.cpu.uncached) := by
  obtain ⟨haborts, hcpu⟩ := resolveFetch_frame B pc s
  rw [fetchInsn, run_bind]
  cases hsrc : (resolveFetch B pc s).1 with
  | none => exact ⟨haborts, fun h => absurd rfl h⟩
  | some src =>
    rw [hsrc] at hcpu
    cases src <;> exact ⟨haborts, fun _ => hcpu nofun⟩

/-- An ARM instruction takes its data aborts from a core that keeps what the step started with. -/
theorem precise_armInsn (insn : Word) (hvfp : isVfpTransfer insn → vfp = true) {s : Sys σ}
    (hlatch : pending s = false) (hsvc : isSvc false insn → svcUnhooked B s) :
    (armInsn B fpu pc insn s).2.aborts = s.aborts ∨
      ∃ c, c.kept vfp = keptBy vfp s ∧ (armInsn B fpu pc insn s).2.cpu = takePendingDataAbort c pc := by
  rw [armInsn, run_modifyCpu]
  simp only [run_ite]
  split
  · exact precise_armUnconditional B insn (pc + 4) _ rfl rfl
  rw [run_getCpu, run_ite]
  split
  · exact .inl rfl
  · have hatomic : Rollback.AtomicAt pending (keptBy vfp) Sys.aborts
        (armConditional B fpu pc insn (pc + 4)) { s with cpu := countCycle s.cpu } :=
      armConditional_atomic B fpu pc insn (pc + 4) hvfp hsvc
    refine precise_atomic hatomic hlatch fun r s => ?_
    simp only [run_ite]
    split
    · rfl
    split
    · rfl
    · exact aborts_goOn r.1 r.2 s

/-- So does a Thumb instruction. -/
theorem precise_thumbInsn (insn : Word) {s : Sys σ} (hlatch : pending s = false)
    (hsvc : isSvc true insn → svcUnhooked B s) :
    (thumbInsn B pc insn s).2.aborts = s.aborts ∨
      ∃ c, c.kept vfp = keptBy vfp s ∧ (thumbInsn B pc insn s).2.cpu = takePendingDataAbort c pc := by
  rw [thumbInsn, run_modifyCpu]
  have hatomic : Rollback.AtomicAt pending (keptBy vfp) Sys.aborts (thumbStep B pc insn (pc + 2))
      { s with cpu := countCycle s.cpu } := thumbStep_atomic B pc insn (pc + 2) hsvc
  exact precise_atomic hatomic hlatch fun r s => aborts_goOn r.1 r.2 s

end Steps

/-- A step that takes a data abort enters it from a core that keeps what the step started with. -/
theorem armStep_precise (vfp : Bool) {s : Sys σ} (hlatch : pending s = false)
    (hsvc : ∀ insn, (fetchInsn B (s.cpu.r 15) s).1 = some insn →
      isSvc (s.cpu.getFlag armCpsrT) insn → svcUnhooked B s)
    (hvfp : ∀ insn, (fetchInsn B (s.cpu.r 15) s).1 = some insn →
      isVfpTransfer insn → vfp = true) :
    (armStep B fpu s).2.aborts = s.aborts ∨
      armModeIsValid s.cpu.cpsr ∧ ∃ c, c.kept vfp = keptBy vfp s ∧
        (armStep B fpu s).2.cpu = takePendingDataAbort c (s.cpu.r 15) := by
  rw [armStep, run_getCpu]
  simp only [run_ite]
  split
  case isTrue => exact .inl rfl
  case isFalse hvalid =>
  rw [Bool.not_eq_true, Bool.not_eq_false] at hvalid
  split
  · exact .inl rfl
  split
  · exact .inl rfl
  rw [fetchAndExecute, run_bind]
  obtain ⟨haborts, hcpu⟩ := fetchInsn_frame B (s.cpu.r 15) s
  cases hinsn : (fetchInsn B (s.cpu.r 15) s).1 with
  | none => exact .inl haborts
  | some insn =>
    have hsame := hcpu (by rw [hinsn]; nofun)
    generalize (fetchInsn B (s.cpu.r 15) s).2 = s₁ at haborts hsame
    have hcpsr := congrArg ArmCpu.cpsr hsame
    have hpending := congrArg ArmCpu.abortPending hsame
    have hkept := congrArg (ArmCpu.kept vfp) hsame
    have hT : s₁.cpu.getFlag armCpsrT = s.cpu.getFlag armCpsrT :=
      congrArg (fun x : Word => x &&& armCpsrT != 0) hcpsr
    have hpriv : cpuIsPriv s₁.cpu = cpuIsPriv s.cpu :=
      congrArg (fun x : Word => x &&& armCpsrModeMask != armModeUsr) hcpsr
    have hunhooked : svcUnhooked B s → svcUnhooked B s₁ := by
      rw [svcUnhooked, svcUnhooked, hpriv]
      exact id
    have hsvc₁ := fun h => hunhooked (hsvc insn hinsn h)
    have hfinish : ∀ m : Exec σ ArmStatus, ((m s₁).2.aborts = s₁.aborts ∨
        ∃ c, c.kept vfp = keptBy vfp s₁ ∧ (m s₁).2.cpu = takePendingDataAbort c (s.cpu.r 15)) →
        (m s₁).2.aborts = s.aborts ∨ armModeIsValid s.cpu.cpsr ∧ ∃ c,
          c.kept vfp = keptBy vfp s ∧ (m s₁).2.cpu = takePendingDataAbort c (s.cpu.r 15) := by
      rintro m (h | ⟨c, hc, hentry⟩)
      · exact .inl (h.trans haborts)
      · exact .inr ⟨hvalid, c, hc.trans hkept, hentry⟩
    simp only [run_getCpu, run_ite, hT]
    split
    case isTrue hthumb =>
      rw [hthumb] at hsvc₁
      exact hfinish _ (precise_thumbInsn B insn (hpending.trans hlatch) hsvc₁)
    case isFalse harm =>
      rw [Bool.not_eq_true] at harm
      rw [harm] at hsvc₁
      exact hfinish _ (precise_armInsn B fpu insn (hvfp insn hinsn) (hpending.trans hlatch) hsvc₁)

end Exec

/-! ### The exception and its return -/

/-- The base of the vectors that SCTLR.V selects. -/
def vectorBase (c : ArmCpu) : Word := if c.cp15.sctlr &&& armSctlrV != 0 then 0xffff0000 else 0

section Entry

variable (c : ArmCpu) (vector mode ret : Word) (maskFiq : Bool)

theorem armSetMode_frame :
    (armSetMode c mode).cp15 = c.cp15 ∧ (armSetMode c mode).vfpS = c.vfpS ∧
      (armSetMode c mode).vfpFpexc = c.vfpFpexc ∧ (armSetMode c mode).vfpFpscr = c.vfpFpscr := by
  simp only [armSetMode, armSwapBank]
  split_ifs <;> exact ⟨rfl, rfl, rfl, rfl⟩

/-- Exception entry keeps what is not banked. -/
theorem enterException_frame :
    (enterException c vector mode ret maskFiq).cp15 = c.cp15 ∧
      (enterException c vector mode ret maskFiq).vfpS = c.vfpS ∧
        (enterException c vector mode ret maskFiq).vfpFpexc = c.vfpFpexc ∧
          (enterException c vector mode ret maskFiq).vfpFpscr = c.vfpFpscr := by
  obtain ⟨hcp15, hvfpS, hfpexc, hfpscr⟩ := armSetMode_frame c mode
  rw [← hcp15, ← hvfpS, ← hfpexc, ← hfpscr]
  simp only [enterException, takeException]
  split_ifs <;> exact ⟨rfl, rfl, rfl, rfl⟩

theorem takeException_vector :
    (takeException c vector mode ret maskFiq).2 = vectorBase c + vector := by
  have hsctlr : (takeException c vector mode ret maskFiq).1.cp15 = c.cp15 :=
    (enterException_frame c vector mode ret maskFiq).1
  rw [vectorBase, ← hsctlr]
  rfl

theorem enterException_mode (h : armModeIsValid mode) :
    (enterException c vector mode ret maskFiq).mode = mode &&& armCpsrModeMask := by
  refine (maskException_mode _ vector maskFiq).trans ?_
  simp only [ArmCpu.mode, ArmCpu.setR]
  rw [armSetMode_cpsr c mode h, merge_and]

/-- Exception entry writes the saved status and link registers of the handler's mode, and the
program counter. -/
theorem regMap_enterException (h : armModeIsValid mode) :
    (enterException c vector mode ret maskFiq).regMap =
      writeAll c.regMap
        [(.spsr (armBankOfMode mode), c.cpsr), (.lr (armBankOfMode mode), ret),
          (.pc, vectorBase c + vector)] := by
  obtain ⟨-, hmap⟩ := takeException_spec c vector h ret maskFiq
  have hpc := regMap_setR (takeException c vector mode ret maskFiq).1 15 (vectorBase c + vector)
  rw [archReg_15, hmap] at hpc
  rw [← takeException_vector c vector mode ret maskFiq] at hpc ⊢
  exact hpc

end Entry

theorem regMap_of_kept {c c' : ArmCpu} {vfp : Bool} (h : c'.kept vfp = c.kept vfp) :
    c'.regMap = c.regMap := by
  have hr := congrArg ArmCpu.r h
  have hparked := congrArg ArmCpu.parked h
  have hcpsr := congrArg ArmCpu.mode h
  exact regMap_congr hr hparked hcpsr

namespace Exec

variable {σ : Type} (B : ArmBus σ) (fpu : HostFpu)

/-- A bus that answers every read with one word. -/
def constantBus (w : Word) : ArmBus Unit where
  read32 _ _ := (w, ())
  read16 _ _ := (w.setWidth 16, ())
  read8 _ _ := (w.setWidth 8, ())
  write32 _ _ _ := ()
  write16 _ _ _ := ()
  write8 _ _ _ := ()

/-- Host arithmetic that always gives zero. -/
def zeroFpu : HostFpu where
  f32 _ _ _ _ := (0, 0)
  f64 _ _ _ _ := (0, 0)
  narrow _ _ := (0, 0)
  widen _ := (0, 0)
  ofInt _ := 0
  roundIntegral _ _ := 0
  toInt _ := 0
  lt32 _ _ := false
  eq32 _ _ := true
  lt64 _ _ := false
  eq64 _ _ := true
  setRound _ := true

end Exec

end S5LBox
