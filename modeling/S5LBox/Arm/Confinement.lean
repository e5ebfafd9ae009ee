import S5LBox.Arm.AtomicInstructions

/-!
# What a User-mode instruction leaves alone

In User mode an instruction that takes no exception writes what ordinary instructions write, the
caches and the monitor, and the one thread register that is open to it. `ArmCpu.privileged` is the
rest of the core. Each decoder and each group of instructions is run under an assumption `u` that
is carried from the point where the code reads the mode to the point where it acts on it.

## Main definitions

* `ArmCpu.privileged`: what User mode must leave alone.
* `Confines u P m`: under `u`, the program keeps the privileged part in User mode; its result
  satisfies `P` in any mode.

## Main results

* one lemma for each group of instructions, such as `confines_execBlockTransfer`.
-/

namespace S5LBox

open Blocks StateProgram

/-- What an instruction in User mode must leave alone: the mode and the masks, the banks and
saved status registers, CP15 but for the user thread register, and FPEXC. -/
def ArmCpu.privileged (c : ArmCpu) : ArmCpu :=
  let d := c.plain.kept true
  { d with cp15 := { d.cp15 with tpidrurw := 0 } }

section Privileged

variable {c c' : ArmCpu}

theorem privileged_of_plain (h : c'.plain = c.plain) : c'.privileged = c.privileged := by
  rw [ArmCpu.privileged, ArmCpu.privileged, h]

theorem privileged_of_kept (h : c'.kept true = c.kept true) : c'.privileged = c.privileged := by
  have hplain := congrArg ArmCpu.plain h
  have hcommute : ∀ d : ArmCpu, d.plain.kept true = (d.kept true).plain := fun _ => rfl
  rw [ArmCpu.privileged, ArmCpu.privileged, hcommute, hcommute, hplain]

theorem mode_of_privileged (h : c'.privileged = c.privileged) : c'.mode = c.mode := by
  have hcpsr : c'.cpsr &&& armCpsrKept = c.cpsr &&& armCpsrKept := by
    have hkept := congrArg ArmCpu.cpsr h
    exact hkept
  have hmask : armCpsrKept &&& armCpsrModeMask = armCpsrModeMask := by decide
  have hmode := congrArg (· &&& armCpsrModeMask) hcpsr
  simp only [BitVec.and_assoc, hmask] at hmode
  exact hmode

end Privileged

/-! ### Data processing in User mode -/

section UserMode

variable {c : ArmCpu} (hmode : c.mode = armModeUsr)

include hmode

theorem bank_of_user : armBankOfMode c.cpsr = .usr := by
  have hcongr : armBankOfMode c.cpsr = armBankOfMode armModeUsr := armBankOfMode_congr hmode
  exact hcongr

/-- In User mode MSR reaches the flags byte alone. -/
theorem ordinary_msrCpsr (mask val : Word) :
    Ordinary c (msrCpsr c mask val).1 (msrCpsr c mask val).2 := by
  have huser : armBankOfMode c.cpsr = .usr ∧ c.mode = armModeUsr := ⟨bank_of_user hmode, hmode⟩
  have hflags : ∀ k : Word, 0xff000000 &&& k = 0 → mask &&& 0xff000000 &&& k = 0 := by
    intro k hk
    rw [BitVec.and_assoc, hk]
    exact BitVec.and_zero
  have hfield : ¬ (mask &&& 0xff000000 &&& armCpsrModeMask ≠ 0 ∧
      ¬ armModeIsValid ((c.cpsr &&& ~~~(mask &&& 0xff000000)) ||| (val &&& (mask &&& 0xff000000)))) :=
    fun h => h.1 (hflags _ (by decide))
  have hfield' : ¬ (mask &&& 0xff000000 &&& 0x1f ≠ 0 ∧
      ((c.cpsr &&& ~~~(mask &&& 0xff000000)) ||| (val &&& (mask &&& 0xff000000))) &&&
        armCpsrModeMask ≠ c.cpsr &&& armCpsrModeMask) :=
    fun h => h.1 (hflags _ (by decide))
  simp only [msrCpsr, if_pos huser, if_neg hfield, if_neg hfield']
  exact .ok (plain_setCpsr c (merge_and_of_disjoint (hflags _ (by decide))))

theorem ordinary_execMiscellaneous (pc insn next : Word) :
    Ordinary c (execMiscellaneous pc insn next c).1.1 (execMiscellaneous pc insn next c).2 := by
  have hbank := bank_of_user hmode
  simp only [execMiscellaneous, hbank]
  split_ifs
  all_goals first
    | exact .refused
    | exact .ok rfl
    | exact .ok (plain_setT _)
    | exact .ok (plain_noteSaturation (c.setR _ _) _)
    | exact ordinary_msrCpsr hmode _ _
    | exact .ok (plain_setQ (c.setR _ _))

/-- In User mode a data-processing instruction is ordinary. -/
theorem ordinary_execDataProcessing (pc insn next : Word) :
    Ordinary c (execDataProcessing pc insn next c).1.1 (execDataProcessing pc insn next c).2 := by
  have hbank := bank_of_user hmode
  simp only [execDataProcessing]
  split_ifs
  all_goals first
    | exact .refused
    | exact .ok rfl
    | exact ordinary_execMiscellaneous hmode pc insn next
    | exact .ok (plain_aluOp c _ _ _ _ _)
    | skip
  case pos hreturn hwrites hpc =>
    have hS : bit insn 20 = false := by
      cases hbit : bit insn 20 with
      | false => rfl
      | true => exact absurd ⟨hwrites, hpc, hbit, .inl hbank⟩ hreturn
    rw [hS]
    exact .ok (plain_aluOp c _ _ _ _ _)

end UserMode

namespace Exec

variable {σ α β : Type}

/-- Under the assumption, the program keeps the privileged part of a core in User mode. Its
result satisfies the predicate in any mode. -/
def Confines (u : Prop) (P : α → Prop) (m : Exec σ α) : Prop :=
  ∀ s, (u → s.cpu.mode = armModeUsr → (m s).2.cpu.privileged = s.cpu.privileged) ∧ P (m s).1

/-- A status that ends an instruction without a word to the platform. -/
def Settled (st : ArmStatus) : Prop := st = .ok ∨ st = .undefined

/-! ### Rules -/

variable {f : ArmCpu → ArmCpu}

section Rules

variable {u : Prop} {P : α → Prop} {Q : β → Prop}

theorem Confines.pure {a : α} (h : P a) : Confines u P (pure a : Exec σ α) :=
  fun _ => ⟨fun _ _ => rfl, h⟩

theorem Confines.bind {m : Exec σ α} {f : α → Exec σ β} (hm : Confines u P m)
    (hf : ∀ a, P a → Confines u Q (f a)) : Confines u Q (m >>= f) := by
  intro s
  obtain ⟨hkeep, hresult⟩ := hm s
  obtain ⟨hfkeep, hfresult⟩ := hf _ hresult (m s).2
  refine ⟨fun hu hmode => ?_, hfresult⟩
  have hstay := hkeep hu hmode
  exact (hfkeep hu ((mode_of_privileged hstay).trans hmode)).trans hstay

theorem Confines.seq {m : Exec σ α} {f : α → Exec σ β} (hm : Confines u (fun _ => True) m)
    (hf : ∀ a, Confines u Q (f a)) : Confines u Q (m >>= f) := .bind hm fun a _ => hf a

theorem Confines.ite {p : Prop} [Decidable p] {m n : Exec σ α} (hm : p → Confines u P m)
    (hn : ¬p → Confines u P n) : Confines u P (if p then m else n) :=
  iteInduction hm hn

theorem Confines.either {p : Prop} [Decidable p] {m n : Exec σ α} (hm : Confines u P m)
    (hn : Confines u P n) : Confines u P (if p then m else n) :=
  .ite (fun _ => hm) fun _ => hn

theorem Confines.getCpu {f : ArmCpu → Exec σ α}
    (hf : ∀ c, Confines (u ∧ c.mode = armModeUsr) P (f c)) : Confines u P (getCpu >>= f) :=
  fun s => ⟨fun hu hmode => (hf s.cpu s).1 ⟨hu, hmode⟩ hmode, (hf s.cpu s).2⟩

theorem Confines.mono {u' : Prop} {P' : α → Prop} {m : Exec σ α} (hm : Confines u P m)
    (hu : u' → u) (hP : ∀ a, P a → P' a) : Confines u' P' m :=
  fun s => ⟨fun h => (hm s).1 (hu h), hP _ (hm s).2⟩

theorem Confines.quiet {m : Exec σ α} (h : Quiet true m) : Confines u (fun _ => True) m :=
  fun s => ⟨fun _ _ => privileged_of_kept (h s).1, trivial⟩

theorem Confines.modifyCpu (h : u → ∀ c, c.mode = armModeUsr → (f c).privileged = c.privileged) :
    Confines u (fun _ => True) (modifyCpu f : Exec σ Unit) :=
  fun s => ⟨fun hu => h hu s.cpu, trivial⟩

theorem Confines.onCpu {f : ArmCpu → α × ArmCpu}
    (h : u → ∀ c, c.mode = armModeUsr → (f c).2.privileged = c.privileged)
    (hP : ∀ c, P (f c).1) : Confines u P (onCpu f : Exec σ α) :=
  fun s => ⟨fun hu => h hu s.cpu, hP s.cpu⟩

theorem Confines.modifyPlain (h : ∀ c, (f c).plain = c.plain) :
    Confines u (fun _ => True) (Exec.modifyCpu f : Exec σ Unit) :=
  .modifyCpu fun _ c _ => privileged_of_plain (h c)

theorem Confines.onPlain {f : ArmCpu → α × ArmCpu} (h : ∀ c, (f c).2.plain = c.plain) :
    Confines u (fun _ => True) (Exec.onCpu f : Exec σ α) :=
  .onCpu (fun _ c _ => privileged_of_plain (h c)) fun _ => trivial

theorem Ordinary.settled {c c' : ArmCpu} {st : ArmStatus} (h : Ordinary c st c') : Settled st := by
  cases h with
  | ok h => exact .inl rfl
  | refused => exact .inr rfl

theorem Confines.ordinary {f : ArmCpu → ArmStatus × ArmCpu}
    (h : ∀ c, Ordinary c (f c).1 (f c).2) :
    Confines u Settled (Exec.onCpu f : Exec σ ArmStatus) :=
  Confines.onCpu (fun _ c _ => privileged_of_plain (h c).plain) fun c => Ordinary.settled (h c)

theorem settled_execDataProcessing (c : ArmCpu) (pc insn next : Word) :
    Settled (execDataProcessing pc insn next c).1.1 := by
  have hmsr : ∀ mask val, Settled (msrCpsr c mask val).1 := by
    intro mask val
    simp only [msrCpsr]
    split_ifs
    all_goals first | exact .inl rfl | exact .inr rfl
  have hmisc : Settled (execMiscellaneous pc insn next c).1.1 := by
    simp only [execMiscellaneous]
    split_ifs
    all_goals first | exact .inl rfl | exact .inr rfl | exact hmsr _ _
  simp only [execDataProcessing]
  split_ifs
  all_goals first | exact .inl rfl | exact .inr rfl | exact hmisc

theorem Confines.guarded {p : Prop} [Decidable p] {m : Exec σ Unit}
    (h : p → Confines u (fun _ => True) m) : Confines u (fun _ => True) (guarded p m) :=
  .ite h fun _ => .pure trivial

theorem confines_setR (n : RegNo) (v : Word) :
    Confines u (fun _ => True) (Exec.modifyCpu (·.setR n v) : Exec σ Unit) :=
  .modifyPlain fun _ => rfl

theorem confines_abortLatched : Confines u (fun _ => True) (abortLatched : Exec σ Bool) :=
  .quiet quiet_abortLatched

theorem settled_ok : Settled .ok := .inl rfl

theorem settled_undefined : Settled .undefined := .inr rfl

end Rules

/-- A settled status with the next program counter. -/
abbrev SettledPair (r : ArmStatus × Word) : Prop := Settled r.1

/-! ### ARM transfers -/

section Transfers

variable (B : ArmBus σ) {u : Prop}

theorem Confines.checked {P : α → Prop} {a : α} (ha : P a) {go : Exec σ α}
    (hgo : Confines u P go) :
    Confines u P (abortLatched >>= fun b => if b = true then Pure.pure a else go) :=
  .seq confines_abortLatched fun _ =>
    .either (.pure ha) hgo

theorem confines_execSingleTransfer (pc insn next : Word) :
    Confines u SettledPair (execSingleTransfer B pc insn next) := by
  have hpair : ∀ next : Word, SettledPair (.ok, next) := fun _ => settled_ok
  rw [execSingleTransfer]
  refine .either (.pure settled_undefined) ?_
  refine .either (.pure settled_undefined) ?_
  refine .either (.pure settled_undefined) ?_
  refine .either (.pure settled_undefined) ?_
  refine .seq (.quiet quiet_getCpu) fun c => ?_
  refine .either ?load ?store
  case load =>
    refine .either ?_ ?_
    · refine .either ?_ <| .pure settled_undefined
      exact .seq
        (.quiet (quiet_modifyCpu fun c => kept_noteAlignmentAbort c _ false)) fun _ =>
          .pure (hpair next)
    refine .seq (.quiet (quiet_memRAs B _ _ _)) fun val => ?_
    refine .checked (hpair next) ?_
    refine .either (.pure settled_undefined) ?_
    refine .seq (confines_setR _ val) fun _ => ?_
    have htail : ∀ next : Word, ∀ p q : Prop, ∀ [Decidable p] [Decidable q], ∀ v,
        Confines u SettledPair (do
          guarded p (modifyCpu (·.setR (field insn 16) v))
          guarded q (modifyCpu (·.setR (field insn 16) v))
          return (.ok, next) : Exec σ (ArmStatus × Word)) := fun next p q _ _ v =>
      .seq (.guarded fun _ => confines_setR _ v) fun _ =>
        .seq (.guarded fun _ => confines_setR _ v) fun _ =>
          .pure (hpair next)
    refine .either ?_ ?_
    · exact .seq (.onPlain fun c => plain_interwork c val) fun next => htail next _ _ _
    · exact .seq (.pure trivial) fun next => htail next _ _ _
  case store =>
    refine .seq (.quiet (quiet_memWAs B _ _ _ _)) fun _ => ?_
    refine .checked (hpair next) ?_
    exact .seq (.guarded fun _ => confines_setR _ _) fun _ => .pure (hpair next)

theorem confines_doublewordTransfer (pc addr : Word) (rd : RegNo) (store : Bool) :
    Confines u (fun _ => True) (doublewordTransfer B pc addr rd store) := by
  refine .seq (.quiet (quiet_prepareMultiwordAddress addr 4 store)) fun xfer => ?_
  cases xfer with
  | none => exact .pure trivial
  | some xfer =>
    refine .either ?_ ?_
    · refine .seq (.quiet quiet_getCpu) fun c => ?_
      refine .seq (.quiet (quiet_memW32 B _ _)) fun _ => ?_
      refine .checked trivial ?_
      refine .seq (.quiet quiet_getCpu) fun c => ?_
      refine .seq (.quiet (quiet_memW32 B _ _)) fun _ => ?_
      exact .seq confines_abortLatched fun _ => .pure trivial
    · refine .seq (.quiet (quiet_memR32 B _)) fun lo => ?_
      refine .checked trivial ?_
      refine .seq (.quiet (quiet_memR32 B _)) fun hi => ?_
      refine .checked trivial ?_
      exact .seq (.modifyPlain fun _ => rfl) fun _ => .pure trivial

theorem confines_extraAccess (pc addr : Word) (rd : RegNo) (sh : Nat) (L : Bool) :
    Confines u (fun _ => True) (extraAccess B pc addr rd sh L) := by
  refine .either (confines_doublewordTransfer B pc addr rd _) ?_
  refine .either ?_ ?_
  · refine .seq (.quiet (quiet_extraLoad B sh addr)) fun val => ?_
    refine .checked trivial ?_
    exact .seq (confines_setR rd val) fun _ => .pure trivial
  · refine .seq (.quiet quiet_getCpu) fun c => ?_
    refine .seq (.quiet (quiet_memW16 B _ _)) fun _ => ?_
    exact .seq confines_abortLatched fun _ => .pure trivial

theorem confines_execExtraTransfer (pc insn next : Word) :
    Confines u SettledPair (execExtraTransfer B pc insn next) := by
  rw [execExtraTransfer]
  refine .either (.pure settled_undefined) ?_
  refine .either (.pure settled_undefined) ?_
  refine .either (.pure settled_undefined) ?_
  refine .either (.pure settled_undefined) ?_
  refine .either (.pure settled_undefined) ?_
  refine .either (.pure settled_undefined) ?_
  refine .seq (.quiet quiet_getCpu) fun c => ?_
  refine .either (.pure settled_undefined) ?_
  refine .either (.pure settled_undefined) ?_
  refine .seq (confines_extraAccess B _ _ _ _ _) fun done => ?_
  refine .either ?_ <| .pure settled_ok
  exact .seq (.guarded fun _ => confines_setR _ _) fun _ => .pure settled_ok

/-- In User mode a load of a block goes to the live bank and restores no status register. -/
theorem confines_blockLoad (t : BlockTransfer) (addr next : Word) (huser : u → ¬ t.userBank)
    (hrestore : u → ¬ t.restoreCpsr) : Confines u SettledPair (blockLoad B t addr next) := by
  refine .seq (.quiet (quiet_loadList B _ _)) fun r => ?_
  cases r with
  | none => exact .pure settled_ok
  | some vs =>
    refine .seq (.quiet quiet_getCpu) fun c => ?_
    refine .either (.pure settled_undefined) ?_
    refine .either (.pure settled_undefined) ?_
    refine .ite (fun h => ?_) fun _ => ?_
    · exact .seq (.onCpu (fun hu _ _ => absurd h (hrestore hu)) fun _ => trivial)
        fun _ => .pure settled_ok
    · refine .seq (.onCpu (fun hu c _ => ?_) fun _ => trivial) fun _ => ?_
      · rw [commitLoad, if_neg (huser hu)]
        have hlist := plain_commitList c vs
        cases loadedPc vs with
        | none => exact privileged_of_plain hlist
        | some v => exact privileged_of_plain ((plain_interwork _ v).trans hlist)
      · exact .seq (.modifyPlain fun c => plain_writeBase c t) fun _ => .pure settled_ok

theorem confines_blockStore (t : BlockTransfer) (pc addr next : Word) :
    Confines u SettledPair (blockStore B t pc addr next) := by
  refine .seq (.quiet (quiet_storeList B _ _ _)) fun done => ?_
  refine .either ?_ <| .pure settled_ok
  exact .seq (.guarded fun _ => confines_setR _ _) fun _ => .pure settled_ok

/-- User mode may neither transfer the bank of another mode nor return from an exception. -/
theorem confines_execBlockTransfer (pc insn next : Word) :
    Confines u SettledPair (execBlockTransfer B pc insn next) := by
  rw [execBlockTransfer]
  refine .either (.pure settled_undefined) ?_
  refine .either (.pure settled_undefined) ?_
  refine .getCpu fun c => ?_
  refine .ite (fun _ => .pure settled_undefined) fun hrestore => ?_
  refine .ite (fun _ => .pure settled_undefined) fun hbank => ?_
  refine .either (.pure settled_undefined) ?_
  refine .either (.pure settled_undefined) ?_
  refine .seq (.quiet (quiet_prepareMultiwordAddress _ 4 _)) fun addr => ?_
  cases addr with
  | none => exact .pure settled_ok
  | some addr =>
    refine .either ?_ <| confines_blockStore B _ pc addr next
    refine confines_blockLoad B _ addr next (fun hu huser => ?_) fun hu hreturn => ?_
    · exact hbank ⟨huser, .inl hu.2⟩
    · exact hrestore ⟨hreturn, .inl (bank_of_user hu.2)⟩

/-! ### Exclusive and swap transfers -/

theorem Confines.direct (h : ∀ c, (f c).privileged = c.privileged) :
    Confines u (fun _ => True) (Exec.modifyCpu f : Exec σ Unit) :=
  .modifyCpu fun _ c _ => h c

/-- The alignment check of an exclusive transfer in front of the transfer. -/
theorem confines_syncAddress (addr alignment : Word) (write : Bool) {k : Exec σ ArmStatus}
    (hk : Confines u Settled k) :
    Confines u Settled (onCpu (prepareSyncAddress addr alignment write) >>= fun st =>
      match st with
      | some st => pure st
      | none => k) := by
  have hcheck : Confines u (fun st => ∀ st', st = some st' → Settled st')
      (onCpu (prepareSyncAddress addr alignment write) : Exec σ (Option ArmStatus)) := by
    refine .onCpu (fun _ c _ => ?_) fun c st' h => ?_
    · exact privileged_of_kept (kept_prepareSyncAddress addr alignment write c)
    · simp only [prepareSyncAddress] at h
      split_ifs at h
      · exact .inl (Option.some.inj h).symm
      · exact .inr (Option.some.inj h).symm
  refine .bind hcheck fun st hst => ?_
  cases st with
  | some st => exact .pure (hst st rfl)
  | none => exact hk

theorem confines_loadExclusive (w : MemWidth) (insn : Word) :
    Confines u Settled (loadExclusive B w insn) := by
  refine .either (.pure settled_undefined) ?_
  refine .seq (.quiet quiet_getCpu) fun c => ?_
  refine confines_syncAddress _ _ false ?_
  refine .seq (.quiet (quiet_memR B _ _)) fun v => ?_
  refine .checked settled_ok ?_
  exact .seq (.direct fun _ => rfl) fun _ => .pure settled_ok

theorem confines_storeIfExclusive (addr : Word) (rd : RegNo) {store : Exec σ Unit}
    (hstore : Quiet true store) : Confines u Settled (storeIfExclusive addr rd store) := by
  refine .seq (.quiet quiet_getCpu) fun c => ?_
  refine .either ?_ ?_
  · refine .seq (.quiet hstore) fun _ => ?_
    refine .seq confines_abortLatched fun _ => ?_
    refine .seq (.guarded fun _ => confines_setR _ _) fun _ => ?_
    exact .seq (.direct fun _ => rfl) fun _ => .pure settled_ok
  · exact .seq (.direct fun _ => rfl) fun _ => .pure settled_ok

theorem confines_execStrex (insn : Word) : Confines u Settled (execStrex B insn) := by
  refine .either (.pure settled_undefined) ?_
  refine .seq (.quiet quiet_getCpu) fun c => ?_
  refine confines_syncAddress _ 4 true ?_
  refine .seq (.quiet (cacheOnly_armMmuTranslate B _ _ _ _).quiet) fun r => ?_
  refine .either ?_ <| confines_storeIfExclusive _ _ (quiet_memW32 B _ _)
  refine .seq (.direct fun c => ?_) fun _ => .pure settled_ok
  exact privileged_of_kept (kept_noteAbort c _ _)

theorem confines_storeExclusive (w : MemWidth) (insn : Word) :
    Confines u Settled (storeExclusive B w insn) := by
  refine .either (.pure settled_undefined) ?_
  refine .seq (.quiet quiet_getCpu) fun c => ?_
  refine confines_syncAddress _ _ true ?_
  exact confines_storeIfExclusive _ _ (quiet_memW B _ _ _)

theorem confines_execLdrexd (insn : Word) : Confines u Settled (execLdrexd B insn) := by
  refine .either (.pure settled_undefined) ?_
  refine .seq (.quiet quiet_getCpu) fun c => ?_
  refine confines_syncAddress _ 8 false ?_
  refine .seq (.quiet (quiet_memR32 B _)) fun lo => ?_
  refine .checked settled_ok ?_
  refine .seq (.quiet (quiet_memR32 B _)) fun hi => ?_
  refine .checked settled_ok ?_
  exact .seq (.direct fun _ => rfl) fun _ => .pure settled_ok

theorem confines_execStrexd (insn : Word) : Confines u Settled (execStrexd B insn) := by
  refine .either (.pure settled_undefined) ?_
  refine .seq (.quiet quiet_getCpu) fun c => ?_
  refine confines_syncAddress _ 8 true ?_
  refine confines_storeIfExclusive _ _ ?_
  refine .bind (quiet_memW32 B _ _) fun _ => ?_
  refine .bind quiet_abortLatched fun _ => ?_
  exact quiet_guarded (quiet_memW32 B _ _)

theorem confines_execSwp (insn : Word) : Confines u Settled (execSwp B insn) := by
  refine .either (.pure settled_undefined) ?_
  refine .seq (.quiet quiet_getCpu) fun c => ?_
  refine .either ?_ ?_
  · exact .seq (.quiet (quiet_modifyCpu fun c => kept_noteAlignmentAbort c _ true))
      fun _ => .pure settled_ok
  refine .seq (.quiet (quiet_memR B _ _)) fun old => ?_
  refine .checked settled_ok ?_
  refine .seq (.quiet (quiet_memW B _ _ _)) fun _ => ?_
  refine .checked settled_ok ?_
  exact .seq (confines_setR _ _) fun _ => .pure settled_ok

theorem confines_armSynchronisation (insn : Word) :
    Confines u Settled (armSynchronisation B insn) := by
  rw [armSynchronisation]
  refine .either (confines_loadExclusive B _ _) ?_
  refine .either (confines_execStrex B _) ?_
  refine .either (confines_execLdrexd B _) ?_
  refine .either (confines_execStrexd B _) ?_
  refine .either (confines_loadExclusive B _ _) ?_
  refine .either (confines_storeExclusive B _ _) ?_
  refine .either (confines_loadExclusive B _ _) ?_
  refine .either (confines_storeExclusive B _ _) ?_
  exact .either (confines_execSwp B _) <| .pure settled_undefined

end Transfers

/-! ### The coprocessors -/

section Coprocessors

variable (B : ArmBus σ) (fpu : HostFpu) {u : Prop}

/-- The status of an instruction that the platform is not asked about. -/
def Answered (st : ArmStatus) : Prop := st ≠ .halt

theorem Settled.answered {st : ArmStatus} (h : Settled st) : Answered st := by
  rcases h with rfl | rfl <;> exact nofun

theorem answered_ok : Answered .ok := nofun

theorem answered_undefined : Answered .undefined := nofun

theorem confines_vfpXfer32 (insn : Word) :
    Confines u Answered (onCpu (vfpXfer32 insn) : Exec σ ArmStatus) := by
  refine .onCpu (fun _ c hmode => ?_) fun c => ?_
  · obtain h | h | ⟨hpriv, -⟩ := vfpXfer32_cases c insn
    · exact privileged_of_plain h.plain
    · rw [h]
    · exact absurd hmode hpriv
  · obtain h | h | ⟨-, v, h⟩ := vfpXfer32_cases c insn
    · exact (Ordinary.settled h).answered
    · rw [h]
      exact nofun
    · rw [h]
      exact nofun

theorem confines_vfpLdstMultiple (insn base : Word) :
    Confines u Settled (vfpLdstMultiple B insn base) := by
  rw [vfpLdstMultiple]
  refine .either (.pure settled_undefined) ?_
  refine .either (.pure settled_undefined) ?_
  refine .either (.pure settled_undefined) ?_
  refine .seq (.quiet (quiet_vfpTransferList B _ _ _ _ _)) fun done => ?_
  refine .either (.pure settled_ok) ?_
  have hrest : ∀ done : Bool, Confines u Settled (do
      if ¬ done then return .ok
      guarded (bit insn 21) (modifyCpu (·.setR (field insn 16)
        (if bit insn 23 then base + (insn &&& 0xff) * 4 else base - (insn &&& 0xff) * 4)))
      return .ok : Exec σ ArmStatus) := fun done =>
    .ite (fun _ => .pure settled_ok) fun _ =>
      .seq (.guarded fun _ => confines_setR _ _) fun _ => .pure settled_ok
  refine .either ?_ ?_
  · exact .seq (.quiet (quiet_vfpReservedWord B _ _)) hrest
  · exact .seq (.pure trivial) hrest

theorem confines_vfpLdst (pc insn : Word) : Confines u Settled (vfpLdst B pc insn) := by
  rw [vfpLdst]
  refine .either (.pure settled_undefined) ?_
  refine .either (.pure settled_undefined) ?_
  refine .either (.pure settled_undefined) ?_
  refine .seq (.quiet quiet_getCpu) fun c => ?_
  refine .either (confines_vfpLdstMultiple B _ _) ?_
  refine .either ?_ ?_
  · refine .either (.pure settled_undefined) ?_
    exact .seq (.quiet (quiet_vfpTransferD B _ _ _)) fun _ => .pure settled_ok
  · exact .seq (.quiet (quiet_vfpTransferS B _ _ _)) fun _ => .pure settled_ok

theorem confines_vfpExecute (pc insn : Word) : Confines u Answered (vfpExecute B fpu pc insn) := by
  rw [vfpExecute]
  refine .seq (.quiet quiet_getCpu) fun c => ?_
  refine .either (.pure answered_undefined) ?_
  rw [vfpExecuteInner]
  refine .seq (.quiet quiet_getCpu) fun c => ?_
  refine .either (.pure answered_undefined) ?_
  refine .either (.pure answered_undefined) ?_
  refine .either (confines_vfpXfer32 insn) ?_
  refine .either ?_ ?_
  · exact (Confines.ordinary fun c => ordinary_vfpDp fpu c insn).mono id fun _ => Settled.answered
  refine .either ?_ ?_
  · exact (Confines.ordinary fun c => ordinary_vfpXfer64 c insn).mono id fun _ => Settled.answered
  refine .either ?_ <| .pure answered_undefined
  exact (confines_vfpLdst B pc insn).mono id fun _ => Settled.answered

/-- What User mode may write in CP15 is the thread register. -/
theorem cp15Updated_user (p : Cp15) {crn crm : RegNo} {opc2 : Nat} (v : Word)
    (h : cp15UserAllowed crn crm opc2 false) :
    { (cp15Updated p crn crm opc2 v).1 with tpidrurw := 0 } = { p with tpidrurw := 0 } := by
  simp only [cp15UserAllowed, Bool.and_false, Bool.or_false, Bool.or_eq_true, Bool.and_eq_true,
    beq_iff_eq] at h
  obtain rfl | ⟨⟨rfl, rfl⟩, rfl⟩ := h
  · rfl
  · rfl

theorem confines_cp15Write {crn crm : RegNo} {opc2 : Nat} (v : Word)
    (h : u → cp15UserAllowed crn crm opc2 false) :
    Confines u (fun _ => True) (cp15Write crn crm opc2 v : Exec σ Unit) := by
  intro s
  refine ⟨fun hu _ => ?_, trivial⟩
  have hcp15 := cp15Updated_user s.cpu.cp15 v (h hu)
  have hwrite : { s.cpu with cp15 := (cp15Updated s.cpu.cp15 crn crm opc2 v).1 }.privileged =
      s.cpu.privileged := congrArg (fun p => { s.cpu.privileged with cp15 := p }) hcp15
  rw [cp15Write, run_getCpu]
  simp only [run_modifyCpu, run_guarded]
  split
  · exact hwrite
  · exact hwrite

theorem confines_execCoprocessor (pc insn : Word) :
    Confines u Answered (execCoprocessor B fpu pc insn) := by
  rw [execCoprocessor]
  refine .getCpu fun c => ?_
  have hpriv : ∀ {p : Prop}, ¬ (¬ cpuIsPriv c = true) → u ∧ c.mode = armModeUsr → p := by
    intro p h hu
    have huser : cpuIsPriv c = false := by
      rw [cpuIsPriv, bne_eq_false_iff_eq]
      exact hu.2
    exact absurd (huser ▸ Bool.false_ne_true) h
  refine .either ?_ ?_
  · refine .either (.pure answered_undefined) ?_
    exact .seq (.guarded fun _ => confines_setR _ _) fun _ => .pure answered_ok
  refine .either (confines_vfpExecute B fpu pc insn) ?_
  refine .either (.pure answered_undefined) ?_
  refine .either ?_ ?_
  · refine .ite (fun _ => .pure answered_undefined) fun h => ?_
    refine .either (.pure answered_undefined) ?_
    exact fun s => ⟨fun hu => hpriv h hu, answered_ok⟩
  refine .ite (fun _ => .pure answered_undefined) fun hallowed => ?_
  refine .ite (fun _ => ?_) fun hload => ?_
  · exact .seq (confines_setR _ _) fun _ => .pure answered_ok
  · refine .seq (confines_cp15Write _ fun hu => ?_) fun _ => .pure answered_ok
    by_contra hno
    rw [Bool.not_eq_true] at hload
    refine hpriv (fun h => hallowed ⟨h, ?_⟩) hu
    rw [hload]
    exact hno

end Coprocessors

/-! ### Thumb -/

section Thumb

variable (B : ArmBus σ) {u : Prop}

theorem Confines.thumb {m : Exec σ ArmStatus} (h : Confines u Settled m) (next : Word) :
    Confines u SettledPair (do return (← m, next)) :=
  .bind h fun _ hst => .pure hst

theorem confines_modifyThen (h : ∀ c, (f c).plain = c.plain) (next : Word) :
    Confines u SettledPair (do modifyCpu f; return (.ok, next) : Exec σ (ArmStatus × Word)) :=
  .seq (.modifyPlain h) fun _ => .pure settled_ok

theorem confines_thumbLoad (rd : RegNo) {load : Exec σ Word} (hload : Quiet true load) :
    Confines u Settled (thumbLoad rd load) := by
  refine .seq (.quiet hload) fun v => ?_
  refine .checked settled_ok ?_
  exact .seq (confines_setR rd v) fun _ => .pure settled_ok

theorem confines_thumbWordByte (load byte : Bool) (rd : RegNo) (addr : Word) :
    Confines u Settled (thumbWordByte B load byte rd addr) := by
  refine .either (confines_thumbLoad rd (quiet_memR B _ _)) ?_
  refine .seq (.quiet quiet_getCpu) fun c => ?_
  exact .seq (.quiet (quiet_memW B _ _ _)) fun _ => .pure settled_ok

theorem confines_thumbSigned (op : Nat) (rd : RegNo) (addr : Word) :
    Confines u Settled (thumbSigned B op rd addr) := by
  refine .seq (.quiet quiet_getCpu) fun c => ?_
  refine .either (.pure settled_undefined) ?_
  refine .either ?_ <| confines_thumbLoad rd (quiet_extraLoad B _ _)
  exact .seq (.quiet (quiet_memW16 B _ _)) fun _ => .pure settled_ok

theorem confines_thumbHalfword (insn : Word) : Confines u Settled (thumbHalfword B insn) := by
  refine .seq (.quiet quiet_getCpu) fun c => ?_
  refine .either (.pure settled_undefined) ?_
  refine .either (confines_thumbLoad _ (quiet_memR16 B _)) ?_
  exact .seq (.quiet (quiet_memW16 B _ _)) fun _ => .pure settled_ok

theorem confines_thumbPop (list : Word) (extra : Bool) (next : Word) :
    Confines u SettledPair (thumbPop B list extra next) := by
  refine .seq (.quiet quiet_getCpu) fun c => ?_
  refine .seq (.quiet (quiet_prepareMultiwordAddress _ 4 false)) fun addr => ?_
  cases addr with
  | none => exact .pure settled_ok
  | some addr =>
    refine .seq (.quiet (quiet_loadList B _ _)) fun r => ?_
    cases r with
    | none => exact .pure settled_ok
    | some vs =>
      refine .either (.pure settled_undefined) ?_
      refine .seq (.modifyPlain fun c => plain_commitList c _) fun _ => ?_
      refine .either ?_ <| .pure settled_ok
      exact .seq (.guarded fun _ => .modifyPlain fun c => plain_clearT c)
        fun _ => .pure settled_ok

theorem confines_thumbPush (list : Word) (extra : Bool) :
    Confines u Settled (thumbPush B list extra) := by
  refine .seq (.quiet quiet_getCpu) fun c => ?_
  refine .seq (.quiet (quiet_prepareMultiwordAddress _ 4 true)) fun addr => ?_
  cases addr with
  | none => exact .pure settled_ok
  | some addr =>
    refine .seq (.quiet (quiet_storeList B _ _ _)) fun done => ?_
    refine .either ?_ <| .pure settled_ok
    exact .seq (confines_setR _ _) fun _ => .pure settled_ok

theorem confines_thumbMultiple (insn : Word) : Confines u Settled (thumbMultiple B insn) := by
  refine .seq (.quiet quiet_getCpu) fun c => ?_
  refine .either (.pure settled_undefined) ?_
  refine .either (.pure settled_undefined) ?_
  refine .seq (.quiet (quiet_prepareMultiwordAddress _ 4 _)) fun addr => ?_
  cases addr with
  | none => exact .pure settled_ok
  | some addr =>
    refine .either ?_ ?_
    · refine .seq (.quiet (quiet_loadList B _ _)) fun r => ?_
      cases r with
      | none => exact .pure settled_ok
      | some vs =>
        refine .seq (.modifyPlain fun c => ?_) fun _ => .pure settled_ok
        have hlist := plain_commitList c vs
        split
        · exact hlist
        · exact hlist
    · refine .seq (.quiet (quiet_storeList B _ _ _)) fun done => ?_
      refine .either ?_ <| .pure settled_ok
      exact .seq (confines_setR _ _) fun _ => .pure settled_ok

theorem confines_thumbMiscellaneous (insn next : Word) :
    Confines u SettledPair (thumbMiscellaneous B insn next) := by
  rw [thumbMiscellaneous]
  refine .either (confines_modifyThen (fun _ => rfl) next) ?_
  refine .either ?_ ?_
  · refine .either (.pure settled_undefined) ?_
    refine .either (confines_thumbPop B _ _ _) ?_
    exact .thumb (confines_thumbPush B _ _) next
  refine .either (confines_modifyThen (fun _ => rfl) next) ?_
  refine .either ?_ ?_
  · exact .thumb (.ordinary fun c => ordinary_thumbReverse c insn) next
  refine .either ?_ ?_
  · -- User mode is not privileged, so the change of the masks is a no-op
    refine .seq (.modifyCpu fun _ c hmode => ?_) fun _ => .pure settled_ok
    have huser : ¬ cpuIsPriv c = true := by
      rw [cpuIsPriv, Bool.not_eq_true, bne_eq_false_iff_eq]
      exact hmode
    rw [thumbCps, if_neg huser]
  refine .either ?_ <| .pure settled_undefined
  refine .pure ?_
  rw [SettledPair]
  split
  · exact settled_undefined
  · exact settled_ok

theorem confines_thumbRegister (pc insn next : Word) :
    Confines u SettledPair (thumbRegister B pc insn next) := by
  rw [thumbRegister]
  refine .either ?_ ?_
  · exact confines_modifyThen (fun c => plain_thumbAlu c insn) next
  refine .either ?_ ?_
  · refine .onCpu (fun _ c _ => ?_) fun c => ?_
    · exact privileged_of_plain (ordinary_thumbHiReg c pc insn next).plain
    · exact Ordinary.settled (ordinary_thumbHiReg c pc insn next)
  · exact .thumb (confines_thumbLoad _ (quiet_memR32 B _)) next

end Thumb

end Exec

end S5LBox
