import S5LBox.Arm.CacheTransfers

/-!
# A step keeps the page caches coherent

The rest of the instruction set, the fetch and the step. A write to a translation register flushes
where it could change what a walk returns; exception entry goes on at a word; an instruction of the
data-processing space that writes the program counter aligns it to the instruction set it leaves
behind.

The supervisor hook of the platform is code outside of the core. What is asked of it is that what it
commits comes of operations of the core: translations on the live core, flushes, which may come with
other translation registers, moves of the platform, and changes of the rest of the core. Where it
redirects the core it leaves an address to fetch from.

## Main definitions

* `HookStep`: one operation of the supervisor hook.
* `SvcHookSteps`: the contract of the supervisor hook.

## Main results

* `Exec.armStep_stepping`: a step keeps the page caches coherent and leaves an address to fetch
  from.
-/

namespace S5LBox

open Blocks StateProgram

namespace Exec

variable {σ α β : Type} {B : ArmBus σ} {thumb : Bool}

/-! ### Data processing -/

variable {next : Word}

section DataProcessing

/-- A function of the core that says where the instruction goes on, or refuses and leaves the core
alone. -/
def LandsOn (c : ArmCpu) (r : Retired) : Prop :=
  (r.1.1 = .ok ∧ (r.2.cache = c.cache ∧ r.2.cp15 = c.cp15) ∧ Fetchable r.2 r.1.2) ∨
    r.1.1 ≠ .ok ∧ r.2 = c

variable {c : ArmCpu}

theorem LandsOn.ite {p : Prop} [Decidable p] {x y : Retired} (hx : p → LandsOn c x)
    (hy : ¬p → LandsOn c y) : LandsOn c (if p then x else y) := by
  split
  case isTrue h => exact hx h
  case isFalse h => exact hy h

theorem LandsOn.either {p : Prop} [Decidable p] {x y : Retired} (hx : LandsOn c x)
    (hy : LandsOn c y) : LandsOn c (if p then x else y) :=
  .ite (fun _ => hx) fun _ => hy

theorem LandsOn.undefined : LandsOn c ((.undefined, next), c) := .inr ⟨nofun, rfl⟩

theorem LandsOn.sequential (hnext : next &&& 3 = 0) {c' : ArmCpu}
    (h : c'.cache = c.cache ∧ c'.cp15 = c.cp15) : LandsOn c ((.ok, next), c') :=
  .inl ⟨rfl, h, .inl hnext⟩

theorem LandsOn.lands {f : ArmCpu → Retired} (h : ∀ c, LandsOn c (f c)) :
    Lands B false (onCpu f : Exec σ (ArmStatus × Word)) :=
  .onCpu fun c _ => (h c).imp
    (fun hok => ⟨hok.2.1.1, congrArg Cp15.stamp hok.2.1.2, hok.1, hok.2.2⟩) id

theorem frame_of_plain {c' : ArmCpu} (h : c'.plain = c.plain) :
    c'.cache = c.cache ∧ c'.cp15 = c.cp15 := by
  have hcache := congrArg ArmCpu.cache h
  have hcp15 := congrArg ArmCpu.cp15 h
  exact ⟨hcache, hcp15⟩

/-- A branch to an address that bit zero of a register selects the instruction set of. -/
theorem fetchable_exchange (c : ArmCpu) {t : Word} (ht : t &&& 3 ≠ 2)
    (hthumb : bit t 0 = true → InThumb c) : Fetchable c (t &&& ~~~1) := by
  cases hbit : bit t 0 with
  | true => exact .inr ⟨(cleared_and t).1, hthumb hbit⟩
  | false =>
    have hmask : (t &&& 3).toNat = t.toNat % 4 := toNat_and_lowMask t (by decide : 2 ≤ 32)
    have heven : t.toNat % 2 = 0 := by
      rw [bit, BitVec.getLsbD, Nat.testBit_zero, decide_eq_false_iff_not] at hbit
      omega
    have hword : t.toNat % 4 ≠ 2 := fun h => ht (BitVec.eq_of_toNat_eq (hmask.trans h))
    have haligned : t &&& 3 = 0 := (aligned_iff t).mpr (by omega)
    refine .inl ?_
    rw [BitVec.and_assoc, BitVec.and_comm (~~~1) 3, ← BitVec.and_assoc, haligned]
    exact BitVec.zero_and

theorem landsOn_exchange {c' : ArmCpu} (h : c'.cache = c.cache ∧ c'.cp15 = c.cp15) {t : Word}
    (ht : t &&& 3 ≠ 2) : LandsOn c ((.ok, t &&& ~~~1),
      if bit t 0 then c'.setCpsr (c'.cpsr ||| armCpsrT) else c') := by
  cases hbit : bit t 0 with
  | true => exact .inl ⟨rfl, h, fetchable_exchange _ ht fun _ => inThumb_setT c'⟩
  | false => exact .inl ⟨rfl, h, fetchable_exchange _ ht fun hb => by rw [hbit] at hb; cases hb⟩

theorem landsOn_msrCpsr (hnext : next &&& 3 = 0) (c : ArmCpu) (mask val : Word) :
    LandsOn c (((msrCpsr c mask val).1, next), (msrCpsr c mask val).2) := by
  simp only [msrCpsr]
  split_ifs
  all_goals first
    | exact .undefined
    | exact .sequential hnext (armSetMode_cache c _)
    | exact .sequential hnext ⟨rfl, rfl⟩

theorem landsOn_execMiscellaneous (pc insn : Word) (hnext : next &&& 3 = 0) (c : ArmCpu) :
    LandsOn c (execMiscellaneous pc insn next c) := by
  simp only [execMiscellaneous]
  refine .either ?_ ?_
  · exact .ite (fun _ => .undefined) fun h => landsOn_exchange ⟨rfl, rfl⟩ h
  refine .either ?_ ?_
  · refine .either .undefined <| .ite (fun _ => .undefined) fun h => ?_
    have hlink : (c.setR 14 (pc + 4)).cache = c.cache ∧ (c.setR 14 (pc + 4)).cp15 = c.cp15 :=
      ⟨rfl, rfl⟩
    exact landsOn_exchange hlink h
  refine .either (.sequential hnext ⟨rfl, rfl⟩) ?_
  refine .either (.sequential hnext ?_) ?_
  · split <;> exact ⟨rfl, rfl⟩
  refine .either ?_ ?_
  · exact .either .undefined <| .sequential hnext ⟨rfl, rfl⟩
  refine .either ?_ .undefined
  refine .either ?_ <| landsOn_msrCpsr hnext c _ _
  exact .either .undefined <| .sequential hnext ⟨rfl, rfl⟩

theorem fetchable_writePc (c : ArmCpu) (res : Word) (S : Bool) :
    ((writePc c res S).2.cache = c.cache ∧ (writePc c res S).2.cp15 = c.cp15) ∧
      Fetchable (writePc c res S).2 (writePc c res S).1 := by
  refine ⟨?_, fetchable_pcMask _ res⟩
  simp only [writePc]
  split
  · exact restoreCpsr_cache c _
  · exact ⟨rfl, rfl⟩

/-- An instruction of the data-processing space lands, in every mode. -/
theorem landsOn_execDataProcessing (pc insn : Word) (hnext : next &&& 3 = 0) (c : ArmCpu) :
    LandsOn c (execDataProcessing pc insn next c) := by
  simp only [execDataProcessing]
  refine .either ?_ ?_
  · exact .either .undefined <| .sequential hnext ⟨rfl, rfl⟩
  refine .either (landsOn_execMiscellaneous pc insn hnext c) ?_
  refine .either .undefined <| .either .undefined ?_
  have hflags := fun a op2 carry => frame_of_plain
    (plain_aluOp c (field insn 21).toNat a op2 carry (bit insn 20))
  refine .either ?_ <| .sequential hnext (hflags _ _ _)
  refine .either ?_ <| .sequential hnext (hflags _ _ _)
  obtain ⟨⟨hcache, hcp15⟩, hfetch⟩ := fetchable_writePc
    ((aluOp c (field insn 21).toNat (regRead c pc (field insn 16))
      (dpOperand2 c pc insn (c.getFlag armCpsrC)).1 (dpOperand2 c pc insn (c.getFlag armCpsrC)).2
      (bit insn 20)).2.setR (field insn 12) _) _ (bit insn 20)
  exact .inl ⟨rfl, ⟨hcache.trans (hflags _ _ _).1, hcp15.trans (hflags _ _ _).2⟩, hfetch⟩

theorem landsOn_execBranch (pc insn : Word) (c : ArmCpu) : LandsOn c (execBranch pc insn c) :=
  .inl ⟨rfl, frame_of_plain (plain_execBranch c pc insn), .inl (cleared_and _).2⟩

end DataProcessing

/-! ### The coprocessors -/

section Coprocessors

theorem touches_vfpMemR32 (va : Word) : Touches B (vfpMemR32 B va) := by
  refine .bind (touches_prepareMultiwordAddress va 4 false) fun r => ?_
  cases r with
  | none => exact .pure 0
  | some va => exact touches_memR32 va

theorem touches_vfpMemW32 (va v : Word) : Touches B (vfpMemW32 B va v) := by
  refine .bind (touches_prepareMultiwordAddress va 4 true) fun r => ?_
  cases r with
  | none => exact .pure ()
  | some va => exact touches_memW32 va v

theorem touches_setVfp {f : ArmCpu → ArmCpu} (hkept : ∀ c, (f c).kept true = c.kept true)
    (hcache : ∀ c, (f c).cache = c.cache) (hstamp : ∀ c, (f c).cp15.stamp = c.cp15.stamp) :
    Touches B (modifyCpu f : Exec σ Unit) := ⟨quiet_modifyCpu hkept, keeps_modifyCpu hcache hstamp⟩

theorem touches_vfpTransferD (L : Bool) (addr : Word) (n : Nat) :
    Touches B (vfpTransferD B L addr n) := by
  refine .either ?_ ?_
  · refine .bind (touches_vfpMemR32 _) fun lo => .bind touches_abortLatched fun _ => ?_
    refine .either (.pure _) ?_
    refine .bind (touches_vfpMemR32 _) fun hi => .bind touches_abortLatched fun _ => ?_
    refine .either (.pure _) ?_
    exact .bind (touches_setVfp (fun _ => rfl) (fun _ => rfl) fun _ => rfl) fun _ => .pure _
  · refine .bind touches_getCpu fun c => .bind (touches_vfpMemW32 _ _) fun _ => ?_
    refine .bind touches_abortLatched fun _ => ?_
    refine .either (.pure _) ?_
    exact .bind (touches_vfpMemW32 _ _) fun _ => .bind touches_abortLatched fun _ => .pure _

theorem touches_vfpTransferS (L : Bool) (addr : Word) (n : Nat) :
    Touches B (vfpTransferS B L addr n) := by
  refine .either ?_ ?_
  · refine .bind (touches_vfpMemR32 _) fun v => .bind touches_abortLatched fun _ => ?_
    refine .either (.pure _) ?_
    exact .bind (touches_setVfp (fun _ => rfl) (fun _ => rfl) fun _ => rfl) fun _ => .pure _
  · refine .bind touches_getCpu fun c => .bind (touches_vfpMemW32 _ _) fun _ => ?_
    exact .bind touches_abortLatched fun _ => .pure _

theorem touches_vfpTransferList (dbl L : Bool) (addr : Word) (first : Nat) (is : List Nat) :
    Touches B (vfpTransferList B dbl L addr first is) := by
  induction is with
  | nil => exact .pure _
  | cons i is ih =>
    have hrest : ∀ done : Bool, Touches B (if ¬ done then Pure.pure false
        else vfpTransferList B dbl L addr first is : Exec σ Bool) := fun done =>
      .either (.pure _) ih
    refine .either ?_ ?_
    · exact .bind (touches_vfpTransferD _ _ _) hrest
    · exact .bind (touches_vfpTransferS _ _ _) hrest

theorem touches_vfpReservedWord (L : Bool) (addr : Word) : Touches B (vfpReservedWord B L addr) := by
  refine .either ?_ ?_
  · exact .bind (touches_vfpMemR32 _) fun _ => .bind touches_abortLatched fun _ => .pure _
  · exact .bind (touches_vfpMemW32 _ _) fun _ => .bind touches_abortLatched fun _ => .pure _

theorem retires_vfpLdstMultiple (insn base : Word) :
    Retires B false (vfpLdstMultiple B insn base) := by
  rw [vfpLdstMultiple]
  refine .either (.refuse (by simp)) ?_
  refine .either (.refuse (by simp)) ?_
  refine .either (.refuse (by simp)) ?_
  refine .access (touches_vfpTransferList _ _ _ _ _) fun done => ?_
  refine .either finishes_ok.ends ?_
  have hrest : ∀ done : Bool, Retires B false (do
      if ¬ done then return .ok
      guarded (bit insn 21) (modifyCpu (·.setR (field insn 16)
        (if bit insn 23 then base + (insn &&& 0xff) * 4 else base - (insn &&& 0xff) * 4)))
      return .ok : Exec σ ArmStatus) := fun done =>
    .ite (fun _ => finishes_ok.ends) fun _ =>
      Finishes.ends (.bind (going_guarded (going_setR _ _)) fun _ => finishes_ok)
  refine .either ?_ ?_
  · exact .access (touches_vfpReservedWord _ _) hrest
  · exact .access (.pure true) hrest

theorem retires_vfpLdst (pc insn : Word) : Retires B false (vfpLdst B pc insn) := by
  rw [vfpLdst]
  refine .either (.refuse (by simp)) ?_
  refine .either (.refuse (by simp)) ?_
  refine .either (.refuse (by simp)) <| .read fun c => ?_
  refine .either (retires_vfpLdstMultiple _ _) ?_
  refine .either ?_ ?_
  · refine .either (.refuse (by simp)) ?_
    exact .access (touches_vfpTransferD _ _ _) fun _ => finishes_ok.ends
  · exact .access (touches_vfpTransferS _ _ _) fun _ => finishes_ok.ends

/-- A transfer between a core register and the VFP unit retires, whatever the mode. -/
theorem retires_vfpXfer32 (insn : Word) :
    Retires B false (onCpu (vfpXfer32 insn) : Exec σ ArmStatus) := by
  refine .onCpu fun c _ => ?_
  obtain h | h | ⟨-, v, h⟩ := vfpXfer32_cases c insn
  · generalize vfpXfer32 insn c = r at h
    obtain ⟨st, c'⟩ := r
    cases h with
    | ok hplain => exact .inl ⟨(cache_of_plain hplain).1, (cache_of_plain hplain).2, rfl, nofun⟩
    | refused => exact .inr ⟨nofun, rfl⟩
  · rw [h]
    exact .inr ⟨nofun, rfl⟩
  · rw [h]
    exact .inl ⟨rfl, rfl, rfl, nofun⟩

theorem retires_vfpExecute (fpu : HostFpu) (pc insn : Word) :
    Retires B false (vfpExecute B fpu pc insn) := by
  rw [vfpExecute]
  refine .read fun c => .either (.refuse (by simp)) ?_
  rw [vfpExecuteInner]
  refine .read fun c => .either (.refuse (by simp)) ?_
  refine .either (.refuse (by simp)) ?_
  refine .either (retires_vfpXfer32 insn) ?_
  refine .either (retires_ordinary fun c => ordinary_vfpDp fpu c insn) ?_
  refine .either (retires_ordinary fun c => ordinary_vfpXfer64 c insn) ?_
  exact .either (retires_vfpLdst pc insn) <| .refuse (by simp)

/-- A write to CP15 that does not flush leaves the translation registers alone. -/
theorem cp15Updated_stamp (p : Cp15) (crn crm : RegNo) (opc2 : Nat) (v : Word)
    (h : (cp15Updated p crn crm opc2 v).2 = false) :
    (cp15Updated p crn crm opc2 v).1.stamp = p.stamp := by
  simp only [cp15Updated] at h ⊢
  grind [Cp15.stamp]

/-- A write to a translation register flushes. -/
theorem keeps_cp15Write (crn crm : RegNo) (opc2 : Nat) (v : Word) :
    Keeps (Traced B) (cp15Write crn crm opc2 v : Exec σ Unit) := by
  intro s h
  rw [cp15Write, run_getCpu]
  simp only [run_modifyCpu, run_guarded]
  split
  · exact ⟨h.now.flushed _, h.log, h.aligned⟩
  case isFalse hflush =>
    have hstamp := cp15Updated_stamp s.cpu.cp15 crn crm opc2 v (Bool.not_eq_true _ ▸ hflush)
    exact ⟨h.now.modify rfl hstamp, h.log, h.aligned⟩

/-- The platform may move the interrupt lines while the core waits. -/
theorem keeps_waitForInterrupt : Keeps (Traced B) (waitForInterrupt B) := by
  intro s h
  rw [waitForInterrupt]
  split
  case h_1 f hf =>
    have hlater := h.now.later (fun _ => List.mem_cons_of_mem _)
      (List.mem_cons_self : (f s.bus).2.2 ∈ (f s.bus).2.2 :: s.era)
    exact ⟨hlater.modify rfl rfl, h.log, h.aligned⟩
  case h_2 => exact h

theorem going_of_keeps {m : Exec σ α} (h : Keeps (Traced B) m) : Keeps (Going B false) m :=
  fun s hs => ⟨h s hs.1, nofun⟩

theorem retires_execCoprocessor (fpu : HostFpu) (pc insn : Word) :
    Retires B false (execCoprocessor B fpu pc insn) := by
  rw [execCoprocessor]
  refine .read fun c => .either ?_ ?_
  · refine Ends.either (Ends.refuse (by simp)) <| Finishes.ends ?_
    exact .bind (going_guarded (going_setR _ _)) fun _ => finishes_ok
  refine .either (retires_vfpExecute fpu pc insn) ?_
  refine .either (.refuse (by simp)) <| .either ?_ ?_
  · refine .either (.refuse (by simp)) ?_
    refine Ends.either (Ends.refuse (by simp)) <| Finishes.ends ?_
    exact .bind (going_of_keeps keeps_waitForInterrupt) fun _ => finishes_ok
  refine Ends.either (Ends.refuse (by simp)) <| Finishes.ends ?_
  refine .either ?_ ?_
  · exact .bind (going_setR _ _) fun _ => finishes_ok
  · exact .bind (going_of_keeps (keeps_cp15Write _ _ _ _)) fun _ => finishes_ok

end Coprocessors

/-! ### The supervisor hook -/

variable (B) in
/-- What a supervisor hook does with the core and the platform, one operation after another. It
translates addresses on the live core; it flushes the caches, which may come with other translation
registers; it moves the platform; and it changes the rest of the core. -/
inductive HookStep : Sys σ → Sys σ → Prop
  | translate (s : Sys σ) (va : Word) (acc : ArmAccess) (priv : Bool) (pa : Word) :
      HookStep s (armMmuTranslate B va acc priv pa s).2
  | flush (s : Sys σ) (p : Cp15) :
      HookStep s (armMmuTlbFlush { s with cpu := { s.cpu with cp15 := p } }).2
  | platform (s : Sys σ) (b : σ) : HookStep s { s with bus := b, era := b :: s.era }
  | core (s : Sys σ) (c : ArmCpu) (hcache : c.cache = s.cpu.cache)
      (hstamp : c.cp15.stamp = s.cpu.cp15.stamp) : HookStep s { s with cpu := c }

variable (B) in
/-- The contract of the supervisor hook. What it commits comes of a sequence of operations, in states
of the platform that are on the record. Where it has handled the call the core goes on in the same
instruction set, and where it redirects the core the address and the instruction set go together. -/
def SvcHookSteps : Prop :=
  ∀ handler, B.privilegedSvcHandler = some handler → ∀ (s : Sys σ) (pc encoding : Word),
    let r := handler s.bus s.cpu pc encoding
    (r.1 = .handled ∨ r.1 = .redirected → ∃ s', Relation.ReflTransGen (HookStep B) s s' ∧
      s'.cpu = r.2.1 ∧ s'.bus = r.2.2 ∧ ∀ b ∈ s'.era, b ∈ B.svcEra s.bus s.cpu pc encoding s.era) ∧
    (r.1 = .handled → InThumb s.cpu → InThumb r.2.1) ∧
    (r.1 = .redirected → Fetchable r.2.1 (r.2.1.r 15))

/-- Every operation of a hook keeps the caches coherent. -/
theorem HookStep.pageCoherent {s s' : Sys σ} (h : HookStep B s s') (hs : PageCoherent B s) :
    PageCoherent B s' := by
  cases h with
  | translate va acc priv pa => exact (armMmuTranslate_pageCoherent hs va acc priv pa).1
  | flush p => exact hs.flushed p
  | platform b => exact hs.later (fun _ => List.mem_cons_of_mem _) List.mem_cons_self
  | core c hcache hstamp => exact hs.modify hcache hstamp

theorem pageCoherent_of_hookSteps {s s' : Sys σ} (h : Relation.ReflTransGen (HookStep B) s s')
    (hs : PageCoherent B s) : PageCoherent B s' := by
  induction h with
  | refl => exact hs
  | tail _ hstep ih => exact hstep.pageCoherent ih

variable {s : Sys σ}

section Svc

variable (hhook : SvcHookSteps B)

include hhook

/-- What the hook answers, and the core it leaves. -/
theorem privilegedSvcResult_traced (pc encoding : Word) (h : Going B thumb s) :
    let r := privilegedSvcResult B pc encoding s
    Traced B r.2 ∧ (r.1 = .handled → thumb = true → InThumb r.2.cpu) ∧
      (r.1 = .redirected → Fetchable r.2.cpu (r.2.cpu.r 15)) ∧
        (r.1 = .error → r.2.cpu.kept true = s.cpu.kept true) := by
  have hlater : ∀ b, PageCoherent B { s with bus := b, era := b :: s.era } := fun b =>
    h.1.now.later (fun _ => List.mem_cons_of_mem _) List.mem_cons_self
  rw [privilegedSvcResult]
  split
  case h_1 => exact ⟨h.1, by rintro ⟨⟩, by rintro ⟨⟩, by rintro ⟨⟩⟩
  case h_2 handler hhandler =>
    obtain ⟨hsteps, hhandled, hredirected⟩ := hhook handler hhandler s pc encoding
    split
    · exact ⟨h.1, by rintro ⟨⟩, by rintro ⟨⟩, by rintro ⟨⟩⟩
    generalize handler s.bus s.cpu pc encoding = r at hsteps hhandled hredirected
    obtain ⟨result, c, b⟩ := r
    dsimp only at hsteps hhandled hredirected ⊢
    split
    case isTrue hok =>
      obtain ⟨s', hrun, rfl, rfl, hera⟩ := hsteps hok
      have hcoherent := pageCoherent_of_hookSteps hrun h.1.now
      have hnow := hcoherent.later hera (hera _ hcoherent.tlb.present)
      refine ⟨⟨hnow.congr rfl rfl rfl, h.1.log, h.1.aligned⟩, ?_, hredirected, ?_⟩
      · exact fun hres hthumb => hhandled hres (h.2 hthumb)
      · rintro rfl
        obtain hok | hok := hok <;> cases hok
    split
    · exact ⟨⟨(hlater b).modify rfl rfl, h.1.log, h.1.aligned⟩, by rintro ⟨⟩, by rintro ⟨⟩, fun _ => rfl⟩
    · exact ⟨⟨hlater b, h.1.log, h.1.aligned⟩, by rintro ⟨⟩, by rintro ⟨⟩, by rintro ⟨⟩⟩

omit hhook in
/-- The exception that an ordinary supervisor call takes. -/
theorem ensures_svcException (ret : Word) :
    Ensures (Traced B) (do
      let vec ← onCpu fun c => (takeException c armVecSwi armModeSvc ret false).swap
      return (.ok, vec) : Exec σ (ArmStatus × Word))
      fun r s => Traced B s ∧ r.1 = .ok ∧ Fetchable s.cpu r.2 := by
  intro s hs
  obtain ⟨hcache, hcp15⟩ := takeException_cache s.cpu armVecSwi armModeSvc ret false
  refine ⟨⟨hs.now.modify hcache (congrArg Cp15.stamp hcp15), hs.log, hs.aligned⟩, rfl, .inl ?_⟩
  exact takeException_aligned s.cpu (by decide : armVecSwi &&& 3 = 0) armModeSvc ret false

theorem lands_execSvc (pc encoding ret : Word) (hnext : Follows thumb next) :
    Lands B thumb (execSvc B pc encoding ret next) := by
  intro s hs
  obtain ⟨htraced, hhandled, hredirected, herror⟩ :=
    privilegedSvcResult_traced hhook pc encoding hs
  have hvector := ensures_svcException ret _ htraced
  rw [execSvc, run_bind]
  cases hres : (privilegedSvcResult B pc encoding s).1 with
  | error => exact ⟨htraced, .inr ⟨by rintro ⟨⟩, herror hres⟩⟩
  | redirected => exact ⟨htraced, .inl ⟨rfl, hredirected hres⟩⟩
  | handled => exact ⟨htraced, .inl ⟨rfl, hnext.fetchable (hhandled hres)⟩⟩
  | unhandled => exact ⟨hvector.1, .inl hvector.2⟩
  | other => exact ⟨hvector.1, .inl hvector.2⟩

end Svc

/-! ### The ARM decoder -/

/-- A conditional ARM instruction lands. -/
theorem lands_armConditional (hhook : SvcHookSteps B) (fpu : HostFpu) (pc insn : Word)
    (hnext : next &&& 3 = 0) :
    Lands B false (armConditional B fpu pc insn next) := by
  have hfollows : Follows false next := .inl hnext
  have hdp : Lands B false (onCpu (execDataProcessing pc insn next) : Exec σ (ArmStatus × Word)) :=
    LandsOn.lands (landsOn_execDataProcessing pc insn hnext)
  rw [armConditional]
  refine .either hdp ?_
  refine Ends.either (LandsOn.lands (landsOn_execBranch pc insn)) ?_
  refine .either ?_ ?_
  · exact (retires_ordinary fun c => ordinary_execMultiply c pc insn).lands hfollows
  refine .either ?_ ?_
  · exact (retires_ordinary fun c => ordinary_execMultiplyLong c pc insn).lands hfollows
  refine .either ?_ ?_
  · exact (retires_ordinary fun c => ordinary_execDspMultiply c insn).lands hfollows
  refine .either ?_ ?_
  · exact (retires_ordinary fun c => ordinary_execMedia c pc insn).lands hfollows
  refine .either (lands_execSingleTransfer hfollows pc insn) ?_
  refine .either (lands_execBlockTransfer hfollows pc insn) ?_
  refine .either (lands_execExtraTransfer hfollows pc insn) ?_
  refine .either ((retires_armSynchronisation insn).lands hfollows) ?_
  refine .either ((retires_execCoprocessor fpu pc insn).lands hfollows) ?_
  refine .either ((retires_vfpExecute fpu pc insn).lands hfollows) ?_
  refine .either (lands_execSvc hhook pc insn (pc + 4) hfollows) ?_
  exact .either hdp <| .refuse (by simp)

theorem undefinedInstruction_stepping (pc insn : Word) :
    Keeps (Stepping B) (onCpu (undefinedInstruction pc insn) : Exec σ ArmStatus) := by
  intro s hs
  simp only [onCpu, undefinedInstruction]
  split
  · exact stepping_enterException hs.1 rfl rfl (by decide : armVecUndefined &&& 3 = 0) armModeUnd
      (pc + 4) false
  · exact hs

theorem setR_15 (c : ArmCpu) (v : Word) : (c.setR 15 v).r 15 = v := by
  change Function.update c.r 15 v 15 = v
  exact Function.update_self ..

theorem cpsMasks_cache (a i f disable : Bool) (c : ArmCpu) :
    (cpsMasks a i f disable c).cache = c.cache ∧ (cpsMasks a i f disable c).cp15 = c.cp15 := by
  simp only [cpsMasks, ArmCpu.setFlag]
  split_ifs <;> exact ⟨rfl, rfl⟩

theorem keeps_armCps (insn : Word) (hnext : next &&& 3 = 0) :
    Keeps (Stepping B) (onCpu (armCps insn next) : Exec σ ArmStatus) := by
  have hgo : ∀ s, Traced B s → ∀ c : ArmCpu, c.cache = s.cpu.cache ∧ c.cp15 = s.cpu.cp15 →
      Stepping B { s with cpu := c.setR 15 next } := by
    intro s h c hc
    refine ⟨⟨h.now.modify hc.1 (congrArg Cp15.stamp hc.2), h.log, h.aligned⟩, .inl ?_⟩
    exact (setR_15 c next).symm ▸ hnext
  intro s hs
  have hmasks := cpsMasks_cache (insn &&& armCpsrA != 0) (insn &&& armCpsrI != 0)
    (insn &&& armCpsrF != 0) (bit insn 18) s.cpu
  have hmode := fun c : ArmCpu => armSetMode_cache c (insn &&& armCpsrModeMask)
  simp only [onCpu, armCps]
  split_ifs
  all_goals first
    | exact hs
    | exact hgo s hs.1 s.cpu ⟨rfl, rfl⟩
    | exact hgo s hs.1 _ hmasks
    | exact hgo s hs.1 _ (hmode _)
    | exact hgo s hs.1 _ ⟨(hmode _).1.trans hmasks.1, (hmode _).2.trans hmasks.2⟩

theorem fetchable_armBlxImmediate (pc insn : Word) (c : ArmCpu) :
    ((armBlxImmediate pc insn c).cache = c.cache ∧ (armBlxImmediate pc insn c).cp15 = c.cp15) ∧
      Fetchable (armBlxImmediate pc insn c) ((armBlxImmediate pc insn c).r 15) := by
  refine ⟨⟨rfl, rfl⟩, .inr ⟨?_, inThumb_setT (c.setR 14 (pc + 4))⟩⟩
  rw [armBlxImmediate, setR_15]
  exact (cleared_and _).1

/-- The unconditional space: every instruction writes the program counter itself. -/
theorem keeps_armUnconditional (pc insn : Word) (hnext : next &&& 3 = 0) :
    Keeps (Stepping B) (armUnconditional B pc insn next) := by
  have hgo : ∀ c : ArmCpu, Fetchable (c.setR 15 next) ((c.setR 15 next).r 15) := fun c =>
    .inl ((setR_15 c next).symm ▸ hnext)
  have hnop : Keeps (Stepping B) (do modifyCpu (·.setR 15 next); return .ok : Exec σ ArmStatus) :=
    keeps_goTo (f := (·.setR 15 next)) (fun _ => rfl) (fun _ => rfl) hgo .ok
  rw [armUnconditional]
  refine .either ?_ <| .either hnop ?_
  · exact keeps_goTo (f := fun c => (clearExclusive c).setR 15 next) (fun _ => rfl) (fun _ => rfl)
      (fun c => hgo (clearExclusive c)) .ok
  refine .either (keeps_armCps insn hnext) ?_
  refine .either ?_ ?_
  · have hblx := fetchable_armBlxImmediate pc insn
    exact keeps_goTo (f := armBlxImmediate pc insn) (fun _ => rfl) (fun _ => rfl)
      (fun c => (hblx c).2) .ok
  refine .either (keeps_execSrs pc insn hnext) ?_
  refine .either (keeps_execRfe pc insn) ?_
  refine .either ?_ <| undefinedInstruction_stepping pc insn
  exact .either (.pure _) hnop

/-! ### Thumb -/

section Thumb

variable (c : ArmCpu)

theorem inThumb_setFlag {m : Word} (h : m &&& armCpsrT = 0#32) (on : Bool) :
    InThumb (c.setFlag m on) ↔ InThumb c := by
  have hbit : (c.setFlag m on).cpsr &&& armCpsrT = c.cpsr &&& armCpsrT := by
    cases on
    · exact and_not_and_of_disjoint h
    · exact or_and_of_disjoint h
  rw [InThumb, InThumb, ArmCpu.getFlag, ArmCpu.getFlag, hbit]

@[simp]
theorem inThumb_setR (n : RegNo) (v : Word) : InThumb (c.setR n v) ↔ InThumb c := Iff.rfl

@[simp]
theorem inThumb_setN (on : Bool) : InThumb (c.setFlag armCpsrN on) ↔ InThumb c :=
  inThumb_setFlag c (by decide) on

@[simp]
theorem inThumb_setZ (on : Bool) : InThumb (c.setFlag armCpsrZ on) ↔ InThumb c :=
  inThumb_setFlag c (by decide) on

@[simp]
theorem inThumb_setC (on : Bool) : InThumb (c.setFlag armCpsrC on) ↔ InThumb c :=
  inThumb_setFlag c (by decide) on

@[simp]
theorem inThumb_setV (on : Bool) : InThumb (c.setFlag armCpsrV on) ↔ InThumb c :=
  inThumb_setFlag c (by decide) on

@[simp]
theorem inThumb_aluAdd (a b cin : Word) (set : Bool) :
    InThumb (aluAdd c a b cin set).2 ↔ InThumb c := by
  rw [aluAdd]
  split <;> simp

@[simp]
theorem inThumb_aluSub (a b cin : Word) (set : Bool) :
    InThumb (aluSub c a b cin set).2 ↔ InThumb c := inThumb_aluAdd c a _ cin set

@[simp]
theorem inThumb_aluLogicFlags (r : Word) (carry set : Bool) :
    InThumb (aluLogicFlags c r carry set) ↔ InThumb c := by
  rw [aluLogicFlags]
  split <;> simp

@[simp]
theorem inThumb_thumbLogic (rd : RegNo) (res : Word) (carry : Bool) :
    InThumb (thumbLogic rd res carry c) ↔ InThumb c := inThumb_aluLogicFlags (c.setR rd res) _ _ _

@[simp]
theorem inThumb_writeResult (rd : RegNo) (r : Word × ArmCpu) :
    InThumb (writeResult rd r) ↔ InThumb r.2 := Iff.rfl

theorem inThumb_thumbShiftAdd (insn : Word) : InThumb (thumbShiftAdd insn c) ↔ InThumb c := by
  simp only [thumbShiftAdd]
  split_ifs <;> simp

theorem inThumb_thumbImmediate (insn : Word) : InThumb (thumbImmediate insn c) ↔ InThumb c := by
  simp only [thumbImmediate]
  split <;> simp

theorem inThumb_thumbAlu (insn : Word) : InThumb (thumbAlu insn c) ↔ InThumb c := by
  simp only [thumbAlu]
  split <;> simp

theorem inThumb_thumbCps (insn : Word) : InThumb (thumbCps insn c) ↔ InThumb c := by
  have hA := fun (c : ArmCpu) on => inThumb_setFlag c (by decide : armCpsrA &&& armCpsrT = 0#32) on
  have hI := fun (c : ArmCpu) on => inThumb_setFlag c (by decide : armCpsrI &&& armCpsrT = 0#32) on
  have hF := fun (c : ArmCpu) on => inThumb_setFlag c (by decide : armCpsrF &&& armCpsrT = 0#32) on
  simp only [thumbCps, cpsMasks]
  split_ifs <;> simp only [hA, hI, hF]

theorem inThumb_commitList (vs : List (RegNo × Word)) :
    InThumb (commitList ArmCpu.setR vs c) ↔ InThumb c := by
  induction vs generalizing c with
  | nil => exact Iff.rfl
  | cons v vs ih => exact ih (c.setR v.1 v.2)

theorem going_ordinary {f : ArmCpu → ArmCpu} (hplain : ∀ c, (f c).plain = c.plain)
    (hthumb : ∀ c, InThumb (f c) ↔ InThumb c) :
    Keeps (Going B true) (modifyCpu f : Exec σ Unit) :=
  going_modifyCpu (fun c => (cache_of_plain (hplain c)).1)
    (fun c => (cache_of_plain (hplain c)).2) fun _ c => (hthumb c).mpr

theorem retires_thumbLoad (rd : RegNo) {load : Exec σ Word} (hload : Touches B load) :
    Retires B true (thumbLoad rd load) := by
  refine Ends.access hload fun v => Ends.checked finishes_ok (Finishes.ends ?_)
  exact .bind (going_setR rd v) fun _ => finishes_ok

theorem retires_thumbWordByte (load byte : Bool) (rd : RegNo) (addr : Word) :
    Retires B true (thumbWordByte B load byte rd addr) := by
  refine .either (retires_thumbLoad rd (touches_memR _ _)) <| .read fun c => ?_
  exact .access (touches_memW _ _ _) fun _ => finishes_ok.ends

theorem retires_thumbSigned (op : Nat) (rd : RegNo) (addr : Word) :
    Retires B true (thumbSigned B op rd addr) := by
  refine .read fun c => .either (.refuse nofun) ?_
  refine .either ?_ <| retires_thumbLoad rd (touches_extraLoad _ _)
  exact .access (touches_memW16 _ _) fun _ => finishes_ok.ends

theorem retires_thumbHalfword (insn : Word) : Retires B true (thumbHalfword B insn) := by
  refine .read fun c => .either (.refuse nofun) ?_
  refine .either (retires_thumbLoad _ (touches_memR16 _)) ?_
  exact .access (touches_memW16 _ _) fun _ => finishes_ok.ends

/-- A popped program counter leaves Thumb state when its bit zero is clear. -/
theorem lands_thumbPop (list : Word) (extra : Bool) (hnext : Follows true next) :
    Lands B true (thumbPop B list extra next) := by
  refine .read fun c => ?_
  refine .access (touches_prepareMultiwordAddress _ 4 false) fun addr => ?_
  cases addr with
  | none => exact (finishes_next hnext).ends
  | some addr =>
    refine .access (touches_loadList _ _) fun r => ?_
    cases r with
    | none => exact (finishes_next hnext).ends
    | some vs =>
      refine Ends.ite (fun _ => Ends.refuse nofun) fun hpc => Finishes.ends ?_
      refine .bind (going_ordinary (fun c => plain_commitList c _)
        fun c => inThumb_commitList c _) fun _ => ?_
      refine .ite (fun hextra => ?_) fun _ => finishes_next hnext
      have hword : (loadedPc vs).getD 0 &&& 3 ≠ 2 := fun h => hpc ⟨hextra, h⟩
      intro s hs
      rw [run_bind, run_guarded]
      split
      case isTrue hbit =>
        have hclear : bit ((loadedPc vs).getD 0) 0 = false := Bool.not_eq_true _ ▸ hbit
        refine ⟨⟨hs.1.now.modify rfl rfl, hs.1.log, hs.1.aligned⟩, rfl, ?_⟩
        exact fetchable_exchange _ hword fun h => absurd (hclear.symm.trans h) nofun
      case isFalse => exact ⟨hs.1, rfl, .inr ⟨(cleared_and _).1, hs.2 rfl⟩⟩

theorem retires_thumbPush (list : Word) (extra : Bool) : Retires B true (thumbPush B list extra) := by
  refine .read fun c => ?_
  refine .access (touches_prepareMultiwordAddress _ 4 true) fun addr => ?_
  cases addr with
  | none => exact finishes_ok.ends
  | some addr =>
    refine Ends.access (touches_storeList _ _ _) fun done => Finishes.ends ?_
    refine .either ?_ finishes_ok
    exact .bind (going_setR _ _) fun _ => finishes_ok

theorem retires_thumbMultiple (insn : Word) : Retires B true (thumbMultiple B insn) := by
  refine .read fun c => .either (.refuse nofun) ?_
  refine .either (.refuse nofun) ?_
  refine .access (touches_prepareMultiwordAddress _ 4 _) fun addr => ?_
  cases addr with
  | none => exact finishes_ok.ends
  | some addr =>
    refine .either ?_ ?_
    · refine .access (touches_loadList _ _) fun r => ?_
      cases r with
      | none => exact finishes_ok.ends
      | some vs =>
        refine Finishes.ends (.bind (going_ordinary (fun c => ?_) fun c => ?_) fun _ =>
          finishes_ok)
        · have hlist := plain_commitList c vs
          split
          · exact hlist
          · exact hlist
        · have hlist := inThumb_commitList c vs
          split
          · exact hlist
          · exact hlist
    · refine Ends.access (touches_storeList _ _ _) fun done => Finishes.ends ?_
      refine .either ?_ finishes_ok
      exact .bind (going_setR _ _) fun _ => finishes_ok

theorem lands_modifyThen {f : ArmCpu → ArmCpu} (hplain : ∀ c, (f c).plain = c.plain)
    (hthumb : ∀ c, InThumb (f c) ↔ InThumb c) (hnext : Follows true next) :
    Lands B true (do modifyCpu f; return (.ok, next) : Exec σ (ArmStatus × Word)) :=
  Finishes.ends (.bind (going_ordinary hplain hthumb) fun _ => finishes_next hnext)

theorem retires_thumbReverse (insn : Word) :
    Retires B true (onCpu (thumbReverse insn) : Exec σ ArmStatus) := by
  refine .onCpu fun c hc => ?_
  simp only [thumbReverse]
  split
  case h_1 | h_2 | h_3 => exact .inl ⟨rfl, rfl, rfl, fun _ => hc rfl⟩
  case h_4 => exact .inr ⟨by rintro ⟨⟩, rfl⟩

theorem lands_thumbMiscellaneous (insn : Word) (hnext : Follows true next) :
    Lands B true (thumbMiscellaneous B insn next) := by
  have hsp : ∀ f : ArmCpu → Word, Lands B true (do
      modifyCpu fun c => c.setR 13 (f c)
      return (.ok, next) : Exec σ (ArmStatus × Word)) := fun f =>
    lands_modifyThen (f := fun c => c.setR 13 (f c)) (fun _ => rfl) (fun _ => Iff.rfl) hnext
  have hextend : Lands B true (do modifyCpu (thumbExtend insn); return (.ok, next) :
      Exec σ (ArmStatus × Word)) :=
    lands_modifyThen (f := thumbExtend insn) (fun _ => rfl) (fun _ => Iff.rfl) hnext
  rw [thumbMiscellaneous]
  refine .either (hsp _) ?_
  refine .either ?_ ?_
  · refine .either (.refuse (by simp)) ?_
    refine .either (lands_thumbPop _ _ hnext) ?_
    exact (retires_thumbPush _ _).lands hnext
  refine .either hextend ?_
  refine .either ((retires_thumbReverse insn).lands hnext) ?_
  refine Ends.either (Finishes.ends ?_) ?_
  · refine .bind (going_modifyCpu ?_ ?_ ?_) fun _ => finishes_next hnext
    · intro c
      rw [thumbCps]
      split
      · exact (cpsMasks_cache _ _ _ _ c).1
      · rfl
    · intro c
      rw [thumbCps]
      split
      · exact congrArg Cp15.stamp (cpsMasks_cache _ _ _ _ c).2
      · rfl
    · exact fun _ c => (inThumb_thumbCps c insn).mpr
  refine .either ?_ <| .refuse (by simp)
  split
  · exact .refuse (by simp)
  · exact (finishes_next hnext).ends

/-- The high-register operations land: BX and BLX by bit zero of the register, and a write of the
program counter in Thumb state. -/
theorem lands_thumbHiReg (pc insn : Word) (hnext : Follows true next) :
    Lands B true (onCpu (thumbHiReg pc insn next) : Exec σ (ArmStatus × Word)) := by
  refine .onCpu fun c hc => ?_
  obtain ⟨hcache, hcp15⟩ := frame_of_plain (ordinary_thumbHiReg c pc insn next).plain
  have hstamp := congrArg Cp15.stamp hcp15
  have hthumb := hc rfl
  have hfollows : ∀ c' : ArmCpu, InThumb c' → Fetchable c' next := fun c' h =>
    hnext.fetchable fun _ => h
  suffices hlands : ((thumbHiReg pc insn next c).1.1 = .ok ∧
      Fetchable (thumbHiReg pc insn next c).2 (thumbHiReg pc insn next c).1.2) ∨
        (thumbHiReg pc insn next c).1.1 ≠ .ok ∧ (thumbHiReg pc insn next c).2 = c from
    hlands.imp (fun h => ⟨hcache, hstamp, h⟩) id
  simp only [thumbHiReg]
  generalize (thumbReg insn 3 ||| (if bit insn 6 then 8 else 0) : RegNo) = rs
  generalize (if rs = 15 then pc + 4 else c.r rs) = sv
  generalize (thumbReg insn 0 ||| (if bit insn 7 then 8 else 0) : RegNo) = rd
  split
  · split
    · exact .inl ⟨rfl, .inr ⟨(cleared_and _).1, hthumb⟩⟩
    · exact .inl ⟨rfl, hfollows _ hthumb⟩
  · exact .inl ⟨rfl, hfollows _ ((inThumb_aluSub c _ _ 1 true).mpr hthumb)⟩
  · split
    · exact .inl ⟨rfl, .inr ⟨(cleared_and _).1, hthumb⟩⟩
    · exact .inl ⟨rfl, hfollows _ hthumb⟩
  · split
    · exact .inr ⟨by rintro ⟨⟩, rfl⟩
    split
    · exact .inr ⟨by rintro ⟨⟩, rfl⟩
    case isFalse hword =>
      refine .inl ⟨rfl, fetchable_exchange _ hword fun hbit => ?_⟩
      rw [if_pos hbit]
      split
      · exact hthumb
      · exact hthumb

theorem lands_thumbRegister (pc insn : Word) (hnext : Follows true next) :
    Lands B true (thumbRegister B pc insn next) := by
  rw [thumbRegister]
  refine .either ?_ <| .either (lands_thumbHiReg pc insn hnext) ?_
  · exact lands_modifyThen (fun c => plain_thumbAlu c insn) (fun c => inThumb_thumbAlu c insn) hnext
  · exact (retires_thumbLoad _ (touches_memR32 _)).lands hnext

theorem even_iff (v : Word) : v &&& 1 = 0 ↔ v.toNat % 2 = 0 := by
  have hmask : (v &&& 1).toNat = v.toNat % 2 := toNat_and_lowMask v (by decide : 1 ≤ 32)
  rw [← hmask, ← BitVec.toNat_inj]
  rfl

theorem even_add {v w : Word} (hv : v &&& 1 = 0) (hw : w &&& 1 = 0) : (v + w) &&& 1 = 0 := by
  rw [even_iff] at hv hw ⊢
  rw [BitVec.toNat_add]
  omega

/-- The offset of a branch is a number of halfwords. -/
theorem even_branchOffset (w : Word) :
    (w <<< 1) &&& 1 = 0 ∧ ((w <<< 21).sshiftRight 20) &&& 1 = 0 := by
  have hbit : ∀ v : Word, v.getLsbD 0 = false → v &&& 1 = 0 := by
    intro v hv
    rw [even_iff]
    rw [BitVec.getLsbD, Nat.testBit_zero, decide_eq_false_iff_not] at hv
    omega
  constructor
  · exact hbit _ (by simp)
  · exact hbit _ (by simp [BitVec.getLsbD_sshiftRight, -BitVec.getLsbD_eq_getElem])

theorem lands_thumbConditional (hhook : SvcHookSteps B) {pc : Word} (hpc : pc &&& 1 = 0)
    (insn : Word) (hnext : Follows true next) :
    Lands B true (thumbConditional B pc insn next) := by
  refine .either (lands_execSvc hhook pc insn (pc + 2) hnext) ?_
  refine Ends.either (Ends.refuse nofun) <| Ends.read fun c => Finishes.ends ?_
  refine .pure fun c hc => ⟨rfl, ?_⟩
  dsimp only
  split
  · have heven := even_add (even_add hpc (by decide : (4 : Word) &&& 1 = 0))
      (even_branchOffset (signExtend8 (insn &&& 0xff))).1
    exact .inr ⟨heven, hc rfl⟩
  · exact hnext.fetchable hc

theorem lands_thumbBranch {pc : Word} (hpc : pc &&& 1 = 0) (insn : Word) :
    Lands B true (do
      let next ← onCpu (thumbBranch pc insn)
      return (.ok, next) : Exec σ (ArmStatus × Word)) := by
  intro s hs
  obtain ⟨hcache, hstamp⟩ := cache_of_plain (plain_thumbBranch s.cpu pc insn)
  refine ⟨⟨hs.1.now.modify hcache hstamp, hs.1.log, hs.1.aligned⟩, .inl ⟨rfl, ?_⟩⟩
  suffices hfetch : Fetchable (thumbBranch pc insn s.cpu).2 (thumbBranch pc insn s.cpu).1 from hfetch
  rw [thumbBranch]
  split
  · exact .inl (cleared_and _).2
  · have heven := even_add (even_add hpc (by decide : (4 : Word) &&& 1 = 0))
      (even_branchOffset (insn &&& 0x7ff)).2
    exact .inr ⟨heven, hs.2 rfl⟩

theorem lands_thumbBl (pc insn : Word) (hnext : Follows true next) :
    Lands B true (do
      let next ← onCpu (thumbBl pc insn next)
      return (.ok, next) : Exec σ (ArmStatus × Word)) := by
  intro s hs
  obtain ⟨hcache, hstamp⟩ := cache_of_plain (plain_thumbBl s.cpu pc insn next)
  refine ⟨⟨hs.1.now.modify hcache hstamp, hs.1.log, hs.1.aligned⟩, .inl ⟨rfl, ?_⟩⟩
  suffices hfetch : Fetchable (thumbBl pc insn next s.cpu).2 (thumbBl pc insn next s.cpu).1 from
    hfetch
  rw [thumbBl]
  split
  · exact .inr ⟨(cleared_and _).1, hs.2 rfl⟩
  · exact hnext.fetchable fun _ => hs.2 rfl

/-- A Thumb instruction lands. -/
theorem lands_thumbStep (hhook : SvcHookSteps B) {pc : Word} (hpc : pc &&& 1 = 0) (insn : Word)
    (hnext : Follows true next) : Lands B true (thumbStep B pc insn next) := by
  have hshift : Lands B true (do modifyCpu (thumbShiftAdd insn); pure (.ok, next) :
      Exec σ (ArmStatus × Word)) :=
    lands_modifyThen (fun c => plain_thumbShiftAdd c insn) (fun c => inThumb_thumbShiftAdd c insn)
      hnext
  have himm : Lands B true (do modifyCpu (thumbImmediate insn); pure (.ok, next) :
      Exec σ (ArmStatus × Word)) :=
    lands_modifyThen (fun c => plain_thumbImmediate c insn) (fun c => inThumb_thumbImmediate c insn)
      hnext
  have hoffset : Lands B true (do return (← thumbImmediateOffset B insn, next)) :=
    Retires.lands (.read fun c => retires_thumbWordByte _ _ _ _) hnext
  rw [thumbStep]
  split
  case h_1 | h_2 => exact hshift
  case h_3 | h_4 => exact himm
  case h_5 => exact lands_thumbRegister pc insn hnext
  case h_6 =>
    refine Retires.lands (.read fun c => ?_) hnext
    exact .either (retires_thumbSigned _ _ _) <| retires_thumbWordByte _ _ _ _
  case h_7 | h_8 => exact hoffset
  case h_9 => exact (retires_thumbHalfword insn).lands hnext
  case h_10 => exact .read fun c => (retires_thumbWordByte _ _ _ _).lands hnext
  case h_11 =>
    exact lands_modifyThen (fun c => plain_thumbAddress c pc insn) (fun _ => Iff.rfl) hnext
  case h_12 => exact lands_thumbMiscellaneous insn hnext
  case h_13 => exact (retires_thumbMultiple insn).lands hnext
  case h_14 => exact lands_thumbConditional hhook hpc insn hnext
  case h_15 => exact lands_thumbBranch hpc insn
  case h_16 => exact lands_thumbBl pc insn hnext

end Thumb

/-! ### The fetch -/

section Fetch

/-- The fetch keeps the page caches coherent, and a prefetch abort goes on at its vector. -/
theorem keeps_resolveFetch (h : Stepping B s) :
    Stepping B (resolveFetch B (s.cpu.r 15) s).2 := by
  have hlog : Stepping B (logAccess .fetch (s.cpu.r 15) (cpuIsPriv s.cpu) s).2 :=
    ⟨logAccess_fetch h.1 h.2, h.2⟩
  rw [resolveFetch, run_getCpu]
  dsimp only
  rw [run_bind]
  generalize (logAccess .fetch (s.cpu.r 15) (cpuIsPriv s.cpu) s).2 = s₁ at hlog
  rw [run_ite]
  split
  · exact hlog
  have htraced := keeps_armMmuTranslate (B := B) (s.cpu.r 15) .fetch (cpuIsPriv s.cpu) 0 s₁ hlog.1
  have hquiet : Quiet true (armMmuTranslate B (s.cpu.r 15) .fetch (cpuIsPriv s.cpu) 0) :=
    quiet_armMmuTranslate B (s.cpu.r 15) .fetch (cpuIsPriv s.cpu) 0
  have hkept := hquiet s₁
  obtain ⟨-, hcp15, htrans⟩ :=
    armMmuTranslate_pageCoherent hlog.1.now (s.cpu.r 15) .fetch (cpuIsPriv s.cpu) 0
  rw [← hcp15] at htrans
  have hstep := hlog.of_kept htraced hkept.1
  rw [run_bind]
  generalize armMmuTranslate B (s.cpu.r 15) .fetch (cpuIsPriv s.cpu) 0 s₁ = r at *
  obtain ⟨⟨fsr, pa⟩, s₂⟩ := r
  dsimp only at hstep htrans ⊢
  rw [run_ite]
  split
  · have henter := stepping_enterException hstep.1 (c := { countCycle s₂.cpu with
      cp15 := { s₂.cpu.cp15 with ifsr := fsr, ifar := s.cpu.r 15 } }) rfl rfl
      (by decide : armVecPrefetch &&& 3 = 0) armModeAbt (s.cpu.r 15 + 4) false
    exact henter
  case isFalse hok =>
    split
    case h_1 blk hblk =>
      exact ⟨installFetch_traced hstep.1 (htrans (not_ne_iff.mp hok)) hblk, hstep.2⟩
    case h_2 => exact hstep

theorem touches_readInsn (src : FetchSource) : Touches B (readInsn B thumb src) := by
  cases src with
  | host a => exact ⟨fun _ => ⟨rfl, rfl⟩, fun _ h => h⟩
  | phys pa => exact ⟨quiet_busCall _, keeps_busCall _⟩

theorem keeps_fetchInsn (h : Stepping B s) :
    Stepping B (fetchInsn B (s.cpu.r 15) s).2 := by
  have hresolve := keeps_resolveFetch h
  rw [fetchInsn, run_bind]
  generalize resolveFetch B (s.cpu.r 15) s = r at hresolve
  obtain ⟨src, s₁⟩ := r
  cases src with
  | none => exact hresolve
  | some src => exact (touches_readInsn src).stepping s₁ hresolve

end Fetch

/-! ### The step -/

section Step

theorem even_of_fetchable {c : ArmCpu} {pc : Word} (h : Fetchable c pc) : pc &&& 1 = 0 := by
  obtain h | ⟨h, -⟩ := h
  · rw [aligned_iff] at h
    rw [even_iff]
    omega
  · exact h

/-- The end of an instruction: what has landed goes on there, and what was refused or has latched
a fault goes on where it was or at a vector. -/
theorem stepping_retire {m : Exec σ (ArmStatus × Word)} (hm : Lands B thumb m) (pc : Word)
    {k : ArmStatus × Word → Exec σ ArmStatus}
    (hlanded : ∀ r, r.1 = .ok → Ensures (fun s => Traced B s ∧ Fetchable s.cpu r.2) (k r)
      fun _ => Stepping B)
    (hrefused : ∀ r, r.1 ≠ .ok → Keeps (Stepping B) (k r)) {s : Sys σ} (hgo : Going B thumb s)
    (hpc : Fetchable s.cpu (s.cpu.r 15)) :
    Stepping B ((m >>= fun r =>
      if r.1 = .halt then pure .halt else takeLatchedAbort pc (k r)) s).2 := by
  obtain ⟨htraced, hend⟩ := hm s hgo
  rw [run_bind, run_ite]
  have hstay : (m s).2.cpu.kept true = s.cpu.kept true → Stepping B (m s).2 :=
    Stepping.of_kept (s := s) ⟨hgo.1, hpc⟩ htraced
  split
  case isTrue hhalt =>
    obtain ⟨hok, -⟩ | ⟨-, hkept⟩ := hend
    · exact absurd (hok.symm.trans hhalt) nofun
    · exact hstay hkept
  case isFalse =>
    rw [takeLatchedAbort, run_bind, run_ite]
    split
    · exact stepping_takeDataAbort htraced pc
    · obtain ⟨hok, hfetch⟩ | ⟨hne, hkept⟩ := hend
      · exact hlanded _ hok _ ⟨htraced, hfetch⟩
      · exact hrefused _ hne _ (hstay hkept)

theorem stepping_goOn (r : ArmStatus × Word) :
    (r.1 = .ok → Ensures (fun s => Traced B s ∧ Fetchable s.cpu r.2)
      (do guarded (r.1 = .ok) (modifyCpu (·.setR 15 r.2)); pure r.1 : Exec σ ArmStatus)
      fun _ => Stepping B) ∧
    (r.1 ≠ .ok → Keeps (Stepping B)
      (do guarded (r.1 = .ok) (modifyCpu (·.setR 15 r.2)); pure r.1 : Exec σ ArmStatus)) := by
  constructor
  · intro hok s hs
    rw [run_bind, run_guarded, if_pos hok]
    refine ⟨⟨hs.1.now.modify rfl rfl, hs.1.log, hs.1.aligned⟩, ?_⟩
    have hfetch : Fetchable (s.cpu.setR 15 r.2) r.2 := hs.2
    exact (setR_15 s.cpu r.2).symm ▸ hfetch
  · intro hne s hs
    rw [run_bind, run_guarded, if_neg hne]
    exact hs

theorem stepping_thumbInsn (hhook : SvcHookSteps B) (insn : Word) (h : Stepping B s)
    (hthumb : InThumb s.cpu) : Stepping B (thumbInsn B (s.cpu.r 15) insn s).2 := by
  have heven := even_of_fetchable h.2
  have hnext : Follows true (s.cpu.r 15 + 2) :=
    .inr ⟨rfl, even_add heven (by decide : (2 : Word) &&& 1 = 0)⟩
  have hgo : Going B true { s with cpu := countCycle s.cpu } :=
    ⟨⟨h.1.now.modify rfl rfl, h.1.log, h.1.aligned⟩, fun _ => hthumb⟩
  exact stepping_retire (lands_thumbStep hhook heven insn hnext) (s.cpu.r 15)
    (fun r => (stepping_goOn r).1) (fun r => (stepping_goOn r).2) hgo h.2

theorem stepping_armInsn (hhook : SvcHookSteps B) (fpu : HostFpu) (insn : Word) (h : Stepping B s)
    (harm : ¬ InThumb s.cpu) :
    Stepping B (armInsn B fpu (s.cpu.r 15) insn s).2 := by
  have hword : s.cpu.r 15 &&& 3 = 0 := h.2.resolve_right fun hthumb => harm hthumb.2
  have hnext := aligned_add hword (by decide : (4 : Word) &&& 3 = 0)
  have hcount : Stepping B { s with cpu := countCycle s.cpu } :=
    ⟨⟨h.1.now.modify rfl rfl, h.1.log, h.1.aligned⟩, h.2⟩
  rw [armInsn, run_modifyCpu, run_ite]
  split
  · exact keeps_armUnconditional (s.cpu.r 15) insn hnext _ hcount
  rw [run_getCpu, run_ite]
  split
  · refine ⟨⟨hcount.1.now.modify rfl rfl, hcount.1.log, hcount.1.aligned⟩, .inl ?_⟩
    exact (setR_15 (countCycle s.cpu) (s.cpu.r 15 + 4)).symm ▸ hnext
  refine stepping_retire (lands_armConditional hhook fpu (s.cpu.r 15) insn hnext) (s.cpu.r 15)
    (fun r hok => ?_) (fun r hne => ?_) ⟨hcount.1, by rintro ⟨⟩⟩ hcount.2
  · refine .ite (fun hundef => ?_) fun _ => ?_
    · cases hok.symm.trans hundef
    refine .ite (fun hundef => ?_) fun _ => (stepping_goOn r).1 hok
    cases hok.symm.trans hundef
  · refine .either ?_ <| .either ?_ <| (stepping_goOn r).2 hne
    · intro s' hs'
      exact stepping_enterException hs'.1 (c := s'.cpu) rfl rfl
        (by decide : armVecUndefined &&& 3 = 0) armModeUnd (s.cpu.r 15 + 4) false
    · exact undefinedInstruction_stepping (s.cpu.r 15) insn

/-- The fetch block and the instruction set are read after the fetch, which leaves the program
counter alone unless it takes a prefetch abort. -/
theorem fetchInsn_pc {insn : Word} (pc : Word) (h : (fetchInsn B pc s).1 = some insn) :
    (fetchInsn B pc s).2.cpu.r = s.cpu.r := by
  have hframe := (fetchInsn_frame B pc s).2 (by rw [h]; exact nofun)
  have hr := congrArg ArmCpu.r hframe
  exact hr

/-- A step keeps the page caches coherent and leaves an address to fetch from. -/
theorem armStep_stepping (hhook : SvcHookSteps B) (fpu : HostFpu) :
    Keeps (Stepping B) (armStep B fpu) := by
  intro s h
  have henter : ∀ vector : Word, vector &&& 3 = 0 → ∀ mode maskFiq,
      Stepping B { s with
        cpu := enterException (countCycle s.cpu) vector mode (s.cpu.r 15 + 4) maskFiq } :=
    fun vector hvector mode maskFiq =>
      stepping_enterException h.1 (c := countCycle s.cpu) rfl rfl hvector mode _ maskFiq
  rw [armStep, run_getCpu, run_ite]
  split
  · exact h
  rw [run_ite]
  split
  · exact henter armVecFiq (by decide) armModeFiq true
  rw [run_ite]
  split
  · exact henter armVecIrq (by decide) armModeIrq false
  have hfetch := keeps_fetchInsn h
  have hpc : ∀ insn, (fetchInsn B (s.cpu.r 15) s).1 = some insn →
      (fetchInsn B (s.cpu.r 15) s).2.cpu.r = s.cpu.r := fun insn h => fetchInsn_pc (s.cpu.r 15) h
  rw [fetchAndExecute, run_bind]
  generalize fetchInsn B (s.cpu.r 15) s = r at hfetch hpc
  obtain ⟨insn, s'⟩ := r
  cases insn with
  | none => exact hfetch
  | some insn =>
    have hr : s'.cpu.r = s.cpu.r := hpc insn rfl
    dsimp only
    rw [run_getCpu, run_ite, ← hr]
    split
    case isTrue hthumb => exact stepping_thumbInsn hhook insn hfetch hthumb
    case isFalse harm => exact stepping_armInsn hhook fpu insn hfetch harm

end Step

end Exec

end S5LBox
