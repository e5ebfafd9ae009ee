import S5LBox.Lib.Rollback
import S5LBox.Arm.Programs
import S5LBox.Arm.Step

/-!
# What a memory access leaves alone

A load or a store goes through the caches and may latch a fault. Registers, status words and CP15
are out of its reach, whether it succeeds or not. `ArmCpu.kept` is the core without the part that
an access may write, so that two cores that keep the same agree on everything else.

## Main definitions

* `ArmCpu.kept`: the core without caches, latched fault, exclusive monitor and cycle counter.
* `Exec.Accesses`: programs that change caches and latched fault alone.
* `Exec.Quiet`: programs that change nothing but these, the monitor and the counter.
* `Exec.Commits`, `Exec.Restores`, `Exec.Atomic`: the rollback predicates for the latched fault.

## Main results

* `accesses_memRAs`, `accesses_memWAs`: the accessors; `quiet_memRAs`, `quiet_memWAs` follow.
* `accesses_loadList`, `accesses_storeList`: the transfers of a register list.
-/

namespace S5LBox

open StateProgram

/-- The core without what an access may write. With `vfp` the VFP registers, which a VFP load
writes one by one, are left out as well. -/
def ArmCpu.kept (vfp : Bool) (c : ArmCpu) : ArmCpu :=
  { c with
    cache := {}
    abortPending := false
    abortFsr := 0
    abortFar := 0
    exclValid := false
    exclAddr := 0
    cycles := 0
    vfpS := if vfp then fun _ => 0 else c.vfpS }

/-- The core without its caches and its latched fault. -/
def ArmCpu.unaccessed (c : ArmCpu) : ArmCpu :=
  { c with cache := {}, abortPending := false, abortFsr := 0, abortFar := 0 }

/-- The core without its caches. -/
def ArmCpu.uncached (c : ArmCpu) : ArmCpu := { c with cache := {} }

namespace Exec

variable {σ α β : Type}

/-- The core that a program must keep. -/
abbrev keptBy (vfp : Bool) (s : Sys σ) : ArmCpu := s.cpu.kept vfp

/-- A fault has been latched. -/
abbrev pending (s : Sys σ) : Bool := s.cpu.abortPending

/-- The program writes nothing but what an access may write. -/
abbrev Quiet (vfp : Bool) (m : Exec σ α) : Prop := Rollback.Quiet (keptBy vfp) Sys.aborts m

/-- The program writes nothing but the caches and the latched fault. -/
abbrev Accesses (m : Exec σ α) : Prop :=
  Rollback.Quiet (fun s : Sys σ => s.cpu.unaccessed) Sys.aborts m

/-- The program writes nothing but the caches. -/
abbrev CacheOnly (m : Exec σ α) : Prop :=
  Rollback.Quiet (fun s : Sys σ => s.cpu.uncached) Sys.aborts m

/-- The program latches no fault. -/
abbrev Commits (m : Exec σ α) : Prop := Rollback.Commits pending Sys.aborts m

/-- The program keeps the core whenever a fault is latched at its end. -/
abbrev Restores (vfp : Bool) (m : Exec σ α) : Prop :=
  Rollback.Restores pending (keptBy vfp) Sys.aborts m

/-- The same for the runs in which no fault is latched at the start. -/
abbrev Atomic (vfp : Bool) (m : Exec σ α) : Prop :=
  Rollback.Atomic pending (keptBy vfp) Sys.aborts m

/-! ### Primitives -/

section Primitives

variable {vfp : Bool}

theorem quiet_getCpu : Quiet vfp (getCpu : Exec σ ArmCpu) := fun _ => ⟨rfl, rfl⟩

theorem quiet_modifyCpu {f : ArmCpu → ArmCpu} (h : ∀ c, (f c).kept vfp = c.kept vfp) :
    Quiet vfp (modifyCpu f : Exec σ Unit) := fun s => ⟨h s.cpu, rfl⟩

variable {f : ArmCpu → α × ArmCpu}

theorem quiet_onCpu (h : ∀ c, (f c).2.kept vfp = c.kept vfp) :
    Quiet vfp (onCpu f : Exec σ α) := fun s => ⟨h s.cpu, rfl⟩

theorem quiet_busCall (f : σ → α × σ) : Quiet vfp (busCall f) := fun _ => ⟨rfl, rfl⟩

theorem quiet_abortLatched : Quiet vfp (abortLatched : Exec σ Bool) := fun _ => ⟨rfl, rfl⟩

theorem quiet_guarded {p : Prop} [Decidable p] {m : Exec σ Unit} (h : Quiet vfp m) :
    Quiet vfp (guarded p m) :=
  .either h <| .pure ()

variable {m : Exec σ α}

theorem Accesses.quiet (h : Accesses m) : Quiet vfp m := by
  intro s
  have hcpu : (m s).2.cpu.unaccessed = s.cpu.unaccessed := (h s).1
  have hkept := congrArg (ArmCpu.kept vfp) hcpu
  exact ⟨hkept, (h s).2⟩

theorem CacheOnly.accesses (h : CacheOnly m) : Accesses m := by
  intro s
  have hcpu : (m s).2.cpu.uncached = s.cpu.uncached := (h s).1
  have hunaccessed := congrArg ArmCpu.unaccessed hcpu
  exact ⟨hunaccessed, (h s).2⟩

theorem CacheOnly.quiet (h : CacheOnly m) : Quiet vfp m := h.accesses.quiet

theorem accesses_modifyCpu {f : ArmCpu → ArmCpu} (h : ∀ c, (f c).unaccessed = c.unaccessed) :
    Accesses (modifyCpu f : Exec σ Unit) := fun s => ⟨h s.cpu, rfl⟩

theorem accesses_onCpu (h : ∀ c, (f c).2.unaccessed = c.unaccessed) :
    Accesses (onCpu f : Exec σ α) := fun s => ⟨h s.cpu, rfl⟩

theorem accesses_of_cpu (hcpu : ∀ s, (m s).2.cpu = s.cpu) (haborts : ∀ s, (m s).2.aborts = s.aborts)
    : Accesses m :=
  fun s => ⟨congrArg ArmCpu.unaccessed (hcpu s), haborts s⟩

theorem CacheOnly.commits (h : CacheOnly m) : Commits m := by
  intro s
  have hcpu : (m s).2.cpu.uncached = s.cpu.uncached := (h s).1
  have hpending := congrArg ArmCpu.abortPending hcpu
  exact ⟨hpending.trans, (h s).2⟩

theorem commits_modifyCpu {f : ArmCpu → ArmCpu} (h : ∀ c, (f c).abortPending = c.abortPending) :
    Commits (modifyCpu f : Exec σ Unit) := fun s => ⟨(h s.cpu).trans, rfl⟩

theorem commits_onCpu (h : ∀ c, (f c).2.abortPending = c.abortPending) :
    Commits (onCpu f : Exec σ α) :=
  fun s => ⟨(h s.cpu).trans, rfl⟩

theorem commits_guarded {p : Prop} [Decidable p] {m : Exec σ Unit} (h : Commits m) :
    Commits (guarded p m) :=
  .either h <| .pure ()

theorem restores_checked {give go : Exec σ α} (hgive : Restores vfp give)
    (hgo : Atomic vfp go) :
    Restores vfp (abortLatched >>= fun b => if b = true then give else go) :=
  .checked (fun _ => rfl) hgive hgo

end Primitives

/-! ### The accessors -/

section Accessors

variable (B : ArmBus σ) {vfp : Bool}

theorem unaccessed_noteAbort (c : ArmCpu) (fsr va : Word) :
    (noteAbort c fsr va).unaccessed = c.unaccessed := by
  rw [noteAbort]
  split <;> rfl

theorem unaccessed_noteAlignmentAbort (c : ArmCpu) (va : Word) (write : Bool) :
    (noteAlignmentAbort c va write).unaccessed = c.unaccessed := unaccessed_noteAbort c _ va

theorem kept_noteAbort (c : ArmCpu) (fsr va : Word) : (noteAbort c fsr va).kept vfp = c.kept vfp := by
  have hkept := congrArg (ArmCpu.kept vfp) (unaccessed_noteAbort c fsr va)
  exact hkept

theorem kept_noteAlignmentAbort (c : ArmCpu) (va : Word) (write : Bool) :
    (noteAlignmentAbort c va write).kept vfp = c.kept vfp := kept_noteAbort c _ va

theorem cacheOnly_prepareFetch (va pa : Word) (priv : Bool) :
    CacheOnly (prepareFetch B va pa priv) := by
  rw [prepareFetch]
  cases B.prepareFetch with
  | none => exact .pure ()
  | some f => exact fun _ => ⟨rfl, rfl⟩

/-- A translation touches the caches alone. -/
theorem cacheOnly_armMmuTranslate (va : Word) (acc : ArmAccess) (priv : Bool) (pa : Word) :
    CacheOnly (armMmuTranslate B va acc priv pa) := by
  have hmodify : ∀ f : ArmCpu → ArmCpu, (∀ c, (f c).uncached = c.uncached) →
      CacheOnly (modifyCpu f : Exec σ Unit) := fun f h s => ⟨h s.cpu, rfl⟩
  have hinit : ∀ c : ArmCpu, (initGeneration c).uncached = c.uncached := by
    intro c
    rw [initGeneration]
    split <;> rfl
  refine .bind (fun _ => ⟨rfl, rfl⟩) fun c => ?_
  refine .either (.pure _) ?_
  refine .bind (hmodify _ hinit) fun _ => ?_
  refine .bind (.either ?_ ?_) fun _ => ?_
  · exact .bind (fun _ => ⟨rfl, rfl⟩) fun _ => hmodify _ fun _ => rfl
  · exact .pure ()
  refine .bind (fun _ => ⟨rfl, rfl⟩) fun c => ?_
  refine .either ?_ ?_
  · exact .bind (hmodify _ fun _ => rfl) fun _ => .pure _
  refine .bind (hmodify _ fun _ => rfl) fun _ => ?_
  refine .bind (fun _ => ⟨rfl, rfl⟩) fun w => ?_
  refine .bind (.either ?_ ?_) fun _ => ?_
  · exact cacheOnly_prepareFetch B _ _ _
  · exact .pure ()
  exact .bind (hmodify _ fun _ => rfl) fun _ => .pure _

theorem accesses_armMmuTranslate (va : Word) (acc : ArmAccess) (priv : Bool) (pa : Word) :
    Accesses (armMmuTranslate B va acc priv pa) :=
  (cacheOnly_armMmuTranslate B va acc priv pa).accesses

theorem quiet_armMmuTranslate (va : Word) (acc : ArmAccess) (priv : Bool) (pa : Word) :
    Quiet vfp (armMmuTranslate B va acc priv pa) := (accesses_armMmuTranslate B va acc priv pa).quiet

theorem accesses_busCall (f : σ → α × σ) : Accesses (busCall f) := fun _ => ⟨rfl, rfl⟩

theorem accesses_dreadFill (va pa : Word) (priv : Bool) : Accesses (dreadFill B va pa priv) := by
  intro s
  rw [dreadFill]
  cases grantOf B.hostRam pa s.bus <;> exact ⟨rfl, rfl⟩

theorem accesses_dwriteFill (va pa : Word) (priv : Bool) : Accesses (dwriteFill B va pa priv) := by
  intro s
  rw [dwriteFill]
  cases grantOf B.hostRamWrite pa s.bus <;> exact ⟨rfl, rfl⟩

/-- A fault in front of the rest of an access. -/
theorem accesses_faulting {f : Word} {va : Word} (a : α) {k : Exec σ α} (hk : Accesses k) :
    Accesses (if f ≠ 0 then (do modifyCpu (noteAbort · f va); pure a) else k) :=
  .ite
    (fun _ => .bind (accesses_modifyCpu fun c => unaccessed_noteAbort c f va) fun _ =>
      .pure a)
    fun _ => hk

theorem accesses_memReadCrossingFrom (va : Word) (priv : Bool) (is : List Nat)
    (val pagePa : Word) : Accesses (memReadCrossingFrom B va priv is val pagePa) := by
  induction is generalizing val pagePa with
  | nil => exact .pure _
  | cons i is ih =>
    rw [memReadCrossingFrom]
    refine .either ?_ ?_
    · refine .bind (accesses_armMmuTranslate B _ _ _ _) fun r => accesses_faulting 0 ?_
      exact .bind (accesses_busCall _) fun byte => ih _ _
    · refine .bind (.pure _) fun r => accesses_faulting 0 ?_
      exact .bind (accesses_busCall _) fun byte => ih _ _

theorem accesses_memWriteCrossingFrom (va v : Word) (priv : Bool) (is : List Nat) (pagePa : Word) :
    Accesses (memWriteCrossingFrom B va v priv is pagePa) := by
  induction is generalizing pagePa with
  | nil => exact .pure _
  | cons i is ih =>
    rw [memWriteCrossingFrom]
    refine .either ?_ ?_
    · refine .bind (accesses_armMmuTranslate B _ _ _ _) fun r => accesses_faulting () ?_
      exact .bind (accesses_busCall _) fun _ => ih _
    · refine .bind (.pure _) fun r => accesses_faulting () ?_
      exact .bind (accesses_busCall _) fun _ => ih _

theorem accesses_memReadSlow (w : MemWidth) (va : Word) (priv : Bool) :
    Accesses (memReadSlow B w va priv) := by
  refine .bind (accesses_armMmuTranslate B _ _ _ _) fun r => ?_
  refine accesses_faulting 0 ?_
  refine .bind (accesses_busCall _) fun value => ?_
  exact .bind (accesses_dreadFill B _ _ _) fun _ => .pure _

theorem accesses_memWriteSlow (w : MemWidth) (va v : Word) (priv : Bool) :
    Accesses (memWriteSlow B w va v priv) := by
  refine .bind (accesses_armMmuTranslate B _ _ _ _) fun r => ?_
  refine accesses_faulting () ?_
  exact .bind (accesses_busCall _) fun _ => accesses_dwriteFill B _ _ _

theorem unaccessed_dreadHit (va : Word) (n : Nat) (priv : Bool) (c : ArmCpu) :
    (dreadHit va n priv c).2.unaccessed = c.unaccessed := by
  simp only [dreadHit]
  split <;> rfl

theorem unaccessed_dwriteHit (consent : Bool) (va : Word) (n : Nat) (priv : Bool) (c : ArmCpu) :
    (dwriteHit consent va n priv c).2.unaccessed = c.unaccessed := by
  simp only [dwriteHit]
  split_ifs <;> rfl

theorem accesses_memReadAt (w : MemWidth) (va : Word) (priv : Bool) :
    Accesses (memReadAt B w va priv) := by
  refine .either ?_ ?_
  · exact accesses_memReadCrossingFrom B _ _ _ _ _
  refine .bind (accesses_onCpu (unaccessed_dreadHit va _ priv)) fun hit => ?_
  cases hit with
  | none => exact accesses_memReadSlow B w va priv
  | some dh => exact accesses_of_cpu (fun _ => rfl) fun _ => rfl

theorem accesses_memWriteAt (w : MemWidth) (va v : Word) (priv : Bool) :
    Accesses (memWriteAt B w va v priv) := by
  refine .either ?_ ?_
  · exact accesses_memWriteCrossingFrom B _ _ _ _ _
  refine .bind (accesses_onCpu (unaccessed_dwriteHit _ va _ priv)) fun hit => ?_
  cases hit with
  | none => exact accesses_memWriteSlow B w va v priv
  | some dh => exact accesses_busCall _

/-- A load is an access. -/
theorem accesses_memRAs (w : MemWidth) (va : Word) (priv : Bool) : Accesses (memRAs B w va priv) := by
  refine .bind (accesses_of_cpu (fun _ => rfl) fun _ => rfl) fun _ => ?_
  refine .bind (accesses_of_cpu (fun _ => rfl) fun _ => rfl) fun c => ?_
  cases alignedAddress w va c with
  | none =>
    exact .bind (accesses_modifyCpu fun c => unaccessed_noteAlignmentAbort c va false)
      fun _ => .pure _
  | some a => exact .bind (accesses_memReadAt B w a priv) fun _ => .pure _

/-- A store is an access. -/
theorem accesses_memWAs (w : MemWidth) (va v : Word) (priv : Bool) :
    Accesses (memWAs B w va v priv) := by
  refine .bind (accesses_of_cpu (fun _ => rfl) fun _ => rfl) fun _ => ?_
  refine .bind (accesses_of_cpu (fun _ => rfl) fun _ => rfl) fun c => ?_
  cases alignedAddress w va c with
  | none => exact accesses_modifyCpu fun c => unaccessed_noteAlignmentAbort c va true
  | some a => exact accesses_memWriteAt B w a v priv

theorem accesses_getCpu : Accesses (getCpu : Exec σ ArmCpu) :=
  accesses_of_cpu (fun _ => rfl) fun _ => rfl

theorem accesses_abortLatched : Accesses (abortLatched : Exec σ Bool) :=
  accesses_of_cpu (fun _ => rfl) fun _ => rfl

theorem accesses_memR (w : MemWidth) (va : Word) : Accesses (memR B w va) :=
  .bind accesses_getCpu fun _ => accesses_memRAs B w va _

theorem accesses_memW (w : MemWidth) (va v : Word) : Accesses (memW B w va v) :=
  .bind accesses_getCpu fun _ => accesses_memWAs B w va v _

theorem quiet_memRAs (w : MemWidth) (va : Word) (priv : Bool) : Quiet vfp (memRAs B w va priv) :=
  (accesses_memRAs B w va priv).quiet

theorem quiet_memWAs (w : MemWidth) (va v : Word) (priv : Bool) :
    Quiet vfp (memWAs B w va v priv) := (accesses_memWAs B w va v priv).quiet

theorem quiet_memR (w : MemWidth) (va : Word) : Quiet vfp (memR B w va) := (accesses_memR B w va).quiet

theorem quiet_memW (w : MemWidth) (va v : Word) : Quiet vfp (memW B w va v) :=
  (accesses_memW B w va v).quiet

theorem quiet_memR32 (va : Word) : Quiet vfp (memR32 B va) := quiet_memR B .w32 va

theorem quiet_memR16 (va : Word) : Quiet vfp (memR16 B va) := quiet_memR B .w16 va

theorem quiet_memR8 (va : Word) : Quiet vfp (memR8 B va) := quiet_memR B .w8 va

theorem quiet_memW32 (va v : Word) : Quiet vfp (memW32 B va v) := quiet_memW B .w32 va v

theorem quiet_memW16 (va v : Word) : Quiet vfp (memW16 B va v) := quiet_memW B .w16 va v

/-! ### Register lists and aligned addresses -/

theorem accesses_loadList (addr : Word) (regs : List RegNo) : Accesses (loadList B addr regs) := by
  induction regs generalizing addr with
  | nil => exact .pure _
  | cons i is ih =>
    refine .bind (accesses_memR B .w32 addr) fun v => ?_
    refine .bind accesses_abortLatched fun aborted => ?_
    refine .either (.pure _) ?_
    refine .bind (ih (addr + 4)) fun r => ?_
    cases r <;> exact .pure _

theorem accesses_storeList (value : ArmCpu → RegNo → Word) (addr : Word) (regs : List RegNo) :
    Accesses (storeList B value addr regs) := by
  induction regs generalizing addr with
  | nil => exact .pure _
  | cons i is ih =>
    refine .bind accesses_getCpu fun c => ?_
    refine .bind (accesses_memW B .w32 addr _) fun _ => ?_
    refine .bind accesses_abortLatched fun aborted => ?_
    exact .either (.pure _) <| ih (addr + 4)

theorem quiet_loadList (addr : Word) (regs : List RegNo) : Quiet vfp (loadList B addr regs) :=
  (accesses_loadList B addr regs).quiet

theorem quiet_storeList (value : ArmCpu → RegNo → Word) (addr : Word) (regs : List RegNo) :
    Quiet vfp (storeList B value addr regs) := (accesses_storeList B value addr regs).quiet

/-- Values come back only when no access has faulted. -/
theorem tells_loadList (addr : Word) (regs : List RegNo) :
    Rollback.Tells pending (fun r => r.isSome = true) (loadList B addr regs) := by
  induction regs generalizing addr with
  | nil => exact fun s hs _ => hs
  | cons i is ih =>
    refine Rollback.Reports.tells <| .bind fun v => ?_
    refine .checked (fun _ => rfl) (.pure nofun) ?_
    refine .bind_of (ih (addr + 4)) (fun r hr => ?_) fun r hr => ?_
    · cases r <;> exact fun s hs _ => hs
    · cases r with
      | none => exact .pure nofun
      | some vs => exact absurd rfl hr

theorem tells_storeList (value : ArmCpu → RegNo → Word) (addr : Word) (regs : List RegNo) :
    Rollback.Tells pending (· = true) (storeList B value addr regs) := by
  induction regs generalizing addr with
  | nil => exact fun s hs _ => hs
  | cons i is ih =>
    refine Rollback.Reports.tells <| .bind fun c => .bind fun _ => ?_
    exact .checked (fun _ => rfl) (.pure nofun) (ih (addr + 4))

theorem unaccessed_prepareMultiwordAddress (va alignment : Word) (write : Bool) (c : ArmCpu) :
    (prepareMultiwordAddress va alignment write c).2.unaccessed = c.unaccessed := by
  simp only [prepareMultiwordAddress]
  split_ifs
  · rfl
  · exact unaccessed_noteAlignmentAbort c va write
  · rfl

theorem accesses_prepareMultiwordAddress (va alignment : Word) (write : Bool) :
    Accesses (onCpu (prepareMultiwordAddress va alignment write) : Exec σ (Option Word)) :=
  accesses_onCpu (unaccessed_prepareMultiwordAddress va alignment write)

theorem quiet_prepareMultiwordAddress (va alignment : Word) (write : Bool) :
    Quiet vfp (onCpu (prepareMultiwordAddress va alignment write) : Exec σ (Option Word)) :=
  (accesses_prepareMultiwordAddress va alignment write).quiet

theorem tells_prepareMultiwordAddress (va alignment : Word) (write : Bool) :
    Rollback.Tells pending (fun r => r.isSome = true)
      (onCpu (prepareMultiwordAddress va alignment write) : Exec σ (Option Word)) := by
  intro s hs h
  simp only [onCpu, prepareMultiwordAddress] at h ⊢
  split_ifs at h ⊢
  · exact hs
  · cases h
  · exact hs

theorem unaccessed_prepareSyncAddress (va alignment : Word) (write : Bool) (c : ArmCpu) :
    (prepareSyncAddress va alignment write c).2.unaccessed = c.unaccessed := by
  simp only [prepareSyncAddress]
  split_ifs
  · rfl
  · exact unaccessed_noteAlignmentAbort c va write
  · rfl

theorem kept_prepareSyncAddress (va alignment : Word) (write : Bool) (c : ArmCpu) :
    (prepareSyncAddress va alignment write c).2.kept vfp = c.kept vfp := by
  have hkept := congrArg (ArmCpu.kept vfp) (unaccessed_prepareSyncAddress va alignment write c)
  exact hkept

theorem accesses_prepareSyncAddress (va alignment : Word) (write : Bool) :
    Accesses (onCpu (prepareSyncAddress va alignment write) : Exec σ (Option ArmStatus)) :=
  accesses_onCpu (unaccessed_prepareSyncAddress va alignment write)

theorem quiet_prepareSyncAddress (va alignment : Word) (write : Bool) :
    Quiet vfp (onCpu (prepareSyncAddress va alignment write) : Exec σ (Option ArmStatus)) :=
  (accesses_prepareSyncAddress va alignment write).quiet

theorem tells_prepareSyncAddress (va alignment : Word) (write : Bool) :
    Rollback.Tells pending (fun r => r = none)
      (onCpu (prepareSyncAddress va alignment write) : Exec σ (Option ArmStatus)) := by
  intro s hs h
  simp only [onCpu, prepareSyncAddress] at h ⊢
  split_ifs at h ⊢
  exact hs

end Accessors

end Exec

end S5LBox
