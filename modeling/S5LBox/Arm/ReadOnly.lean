import S5LBox.Lib.Refusal
import S5LBox.Arm.PreciseAborts

/-!
# What reading leaves alone

A fetch, a translation and a load ask the bus for words and write nothing. Nothing is lost when an
instruction goes no further than that: apart from the caches and the count of instructions the core
is as it was, and the bus has seen reads. A load that faults latches the fault.

## Main definitions

* `BusReads`: reads of the bus, and the fetch policy of the platform.
* `Untouched`: the core but for its caches and its count, with reads of the bus.

## Main results

* `untouched_armMmuTranslate`, `readsOnly_memR`, `refuses_loadList`: translations and loads.
* `refuses_fetchInsn`: the fetch.
-/

namespace S5LBox

open StateProgram Refusal

/-- The core without its caches and its count of instructions. -/
def ArmCpu.uncounted (c : ArmCpu) : ArmCpu := { c with cache := {}, cycles := 0 }

namespace Exec

variable {σ α β : Type} (B : ArmBus σ)

/-- One call of the bus that stores nothing: a read, or the fetch policy of the platform. -/
inductive BusRead : σ → σ → Prop
  | read (w : MemWidth) (b : σ) (pa : Word) : BusRead b (B.readN w b pa).2
  | policy {f : σ → Word → Word → Bool → σ} (h : B.prepareFetch = some f) (b : σ) (va pa : Word)
      (priv : Bool) : BusRead b (f b va pa priv)

/-- Any number of such calls. -/
abbrev BusReads : σ → σ → Prop := Relation.ReflTransGen (BusRead B)

/-- A step that has only read. -/
structure Untouched (s s' : Sys σ) : Prop where
  core : s'.cpu.uncounted = s.cpu.uncounted
  bus : BusReads B s.bus s'.bus

instance : Std.Refl (Untouched B) := ⟨fun _ => ⟨rfl, .refl⟩⟩

instance : IsTrans (Sys σ) (Untouched B) :=
  ⟨fun _ _ _ h h' => ⟨h'.core.trans h.core, h.bus.trans h'.bus⟩⟩

instance : Flagged (Untouched B) (pending : Sys σ → Bool) := by
  refine ⟨fun h => ?_⟩
  have hlatch := congrArg ArmCpu.abortPending h.core
  exact hlatch

/-- What a load does: it reads, or latches a fault. -/
abbrev ReadsOnly (m : Exec σ α) : Prop := Reads (Untouched B) pending m

variable {B}

/-! ### Primitives -/

theorem untouched_getCpu : Moves (Untouched B) (getCpu : Exec σ ArmCpu) := fun _ => ⟨rfl, .refl⟩

theorem untouched_logAccess (kind : AccessKind) (va : Word) (priv : Bool) :
    Moves (Untouched B) (logAccess kind va priv : Exec σ Unit) := fun _ => ⟨rfl, .refl⟩

theorem untouched_modifyCpu {f : ArmCpu → ArmCpu} (h : ∀ c, (f c).uncounted = c.uncounted) :
    Moves (Untouched B) (modifyCpu f : Exec σ Unit) := fun s => ⟨h s.cpu, .refl⟩

theorem untouched_onCpu {f : ArmCpu → α × ArmCpu} (h : ∀ c, (f c).2.uncounted = c.uncounted) :
    Moves (Untouched B) (onCpu f : Exec σ α) := fun s => ⟨h s.cpu, .refl⟩

theorem untouched_readN (w : MemWidth) (pa : Word) :
    Moves (Untouched B) (busCall (B.readN w · pa)) :=
  fun s => ⟨rfl, .single (.read w s.bus pa)⟩

theorem untouched_guarded {p : Prop} [Decidable p] {m : Exec σ Unit}
    (h : p → Moves (Untouched B) m) : Moves (Untouched B) (guarded p m) :=
  .ite h fun _ => .pure ()

/-- A latched fault is a read that has failed. -/
theorem readsOnly_noteAbort (fsr va : Word) :
    ReadsOnly B (modifyCpu (noteAbort · fsr va) : Exec σ Unit) := by
  intro s
  refine .inr ?_
  change (noteAbort s.cpu fsr va).abortPending = true
  rw [noteAbort]
  split
  case isTrue h => exact h
  case isFalse => rfl

theorem readsOnly_noteAlignmentAbort (va : Word) (write : Bool) :
    ReadsOnly B (modifyCpu (noteAlignmentAbort · va write) : Exec σ Unit) :=
  readsOnly_noteAbort _ va

/-! ### Translations and loads -/

variable (B)

theorem untouched_walk (va : Word) (acc : ArmAccess) (priv : Bool) (pa : Word) :
    Moves (Untouched B) (walk B va acc priv pa) := by
  intro s
  refine ⟨rfl, ?_⟩
  have hone (p : Word) : BusRead B s.bus (B.read32 s.bus p).2 := .read .w32 s.bus p
  change BusReads B s.bus (mmuWalk B s.cpu.cp15 va acc priv pa s.bus).2.2
  rw [mmuWalk]
  split
  · exact .refl
  split
  · exact .refl
  dsimp only
  split
  · exact .tail (.single (hone _)) (.read .w32 _ _)
  · exact .single (hone _)

theorem untouched_prepareFetch (va pa : Word) (priv : Bool) :
    Moves (Untouched B) (prepareFetch B va pa priv) := by
  rw [prepareFetch]
  cases hpolicy : B.prepareFetch with
  | none => exact .pure ()
  | some f => exact fun s => ⟨rfl, .single (.policy hpolicy s.bus va pa priv)⟩

theorem untouched_armMmuTlbFlush : Moves (Untouched B) (armMmuTlbFlush : Exec σ Unit) :=
  fun _ => ⟨rfl, .refl⟩

theorem untouched_armMmuTranslate (va : Word) (acc : ArmAccess) (priv : Bool) (pa : Word) :
    Moves (Untouched B) (armMmuTranslate B va acc priv pa) := by
  have hinit : ∀ c : ArmCpu, (initGeneration c).uncounted = c.uncounted := by
    intro c
    rw [initGeneration]
    split <;> rfl
  refine .bind untouched_getCpu fun c => ?_
  refine .either (.pure _) ?_
  refine .bind (untouched_modifyCpu hinit) fun _ => ?_
  refine .bind (untouched_guarded fun _ => ?_) fun _ => ?_
  · exact .bind (untouched_armMmuTlbFlush B) fun _ => untouched_modifyCpu fun _ => rfl
  refine .bind untouched_getCpu fun c => ?_
  refine .either ?_ ?_
  · exact .bind (untouched_modifyCpu fun _ => rfl) fun _ => .pure _
  refine .bind (untouched_modifyCpu fun _ => rfl) fun _ => ?_
  refine .bind (untouched_walk B va acc priv pa) fun w => ?_
  refine .bind (untouched_guarded fun _ => untouched_prepareFetch B _ _ _) fun _ => ?_
  exact .bind (untouched_modifyCpu fun _ => rfl) fun _ => .pure _

theorem readsOnly_armMmuTranslate (va : Word) (acc : ArmAccess) (priv : Bool) (pa : Word) :
    ReadsOnly B (armMmuTranslate B va acc priv pa) :=
  Reads.of_moves (untouched_armMmuTranslate B va acc priv pa)

theorem untouched_dreadFill (va pa : Word) (priv : Bool) :
    Moves (Untouched B) (dreadFill B va pa priv) := by
  intro s
  rw [dreadFill]
  cases grantOf B.hostRam pa s.bus <;> exact ⟨rfl, .refl⟩

theorem readsOnly_faulting {f va : Word} (a : α) {k : Exec σ α} (hk : ReadsOnly B k) :
    ReadsOnly B (if f ≠ 0 then (do modifyCpu (noteAbort · f va); pure a) else k) :=
  .either (.bind (readsOnly_noteAbort f va) fun _ => .pure a) hk

theorem readsOnly_memReadCrossingFrom (va : Word) (priv : Bool) (is : List Nat) (val pagePa : Word) :
    ReadsOnly B (memReadCrossingFrom B va priv is val pagePa) := by
  induction is generalizing val pagePa with
  | nil => exact .pure _
  | cons i is ih =>
    rw [memReadCrossingFrom]
    refine .either ?_ ?_
    · refine .bind (readsOnly_armMmuTranslate B _ _ _ _) fun r => readsOnly_faulting B 0 ?_
      exact .bind (Reads.of_moves (untouched_readN _ _)) fun byte => ih _ _
    · refine .bind (.pure _) fun r => readsOnly_faulting B 0 ?_
      exact .bind (Reads.of_moves (untouched_readN _ _)) fun byte => ih _ _

theorem readsOnly_memReadSlow (w : MemWidth) (va : Word) (priv : Bool) :
    ReadsOnly B (memReadSlow B w va priv) := by
  refine .bind (readsOnly_armMmuTranslate B _ _ _ _) fun r => readsOnly_faulting B 0 ?_
  refine .bind (Reads.of_moves (untouched_readN _ _)) fun value => ?_
  exact .bind (Reads.of_moves (untouched_dreadFill B _ _ _)) fun _ => .pure _

theorem uncounted_dreadHit (va : Word) (n : Nat) (priv : Bool) (c : ArmCpu) :
    (dreadHit va n priv c).2.uncounted = c.uncounted := by
  simp only [dreadHit]
  split <;> rfl

theorem readsOnly_memReadAt (w : MemWidth) (va : Word) (priv : Bool) :
    ReadsOnly B (memReadAt B w va priv) := by
  refine .either ?_ ?_
  · exact readsOnly_memReadCrossingFrom B _ _ _ _ _
  refine .bind (Reads.of_moves (untouched_onCpu (uncounted_dreadHit va _ priv))) fun hit => ?_
  cases hit with
  | none => exact readsOnly_memReadSlow B w va priv
  | some dh => exact fun _ => .inl ⟨rfl, .refl⟩

/-- A load reads only. -/
theorem readsOnly_memRAs (w : MemWidth) (va : Word) (priv : Bool) :
    ReadsOnly B (memRAs B w va priv) := by
  refine .bind (Reads.of_moves (untouched_logAccess _ _ _)) fun _ => ?_
  refine .bind (Reads.of_moves untouched_getCpu) fun c => ?_
  cases alignedAddress w va c with
  | none => exact .bind (readsOnly_noteAlignmentAbort va false) fun _ => .pure _
  | some a => exact .bind (readsOnly_memReadAt B w a priv) fun _ => .pure _

theorem readsOnly_memR (w : MemWidth) (va : Word) : ReadsOnly B (memR B w va) :=
  .bind (Reads.of_moves untouched_getCpu) fun _ => readsOnly_memRAs B w va _

theorem readsOnly_memR32 (va : Word) : ReadsOnly B (memR32 B va) := readsOnly_memR B .w32 va

/-! ### Register lists and aligned addresses -/

/-- The values of a register list have come by reads. -/
theorem refuses_loadList (addr : Word) (regs : List RegNo) :
    Refuses (Untouched B) (· ≠ none) (loadList B addr regs) := by
  induction regs generalizing addr with
  | nil => exact .pure _
  | cons i is ih =>
    refine .checked (fun _ => rfl) (readsOnly_memR32 B addr)
      (fun _ => .pure fun h => h rfl) fun v => ?_
    exact .bind_some (ih (addr + 4)) (.pure fun h => h rfl) fun vs => .pure _

/-- An address is handed on by a core that stays as it was. -/
theorem refuses_prepareMultiwordAddress (va alignment : Word) (write : Bool) :
    Refuses (Untouched B) (· ≠ none)
      (onCpu (prepareMultiwordAddress va alignment write) : Exec σ (Option Word)) := by
  intro s hs
  simp only [onCpu, prepareMultiwordAddress] at hs ⊢
  split_ifs at hs ⊢
  · exact ⟨rfl, .refl⟩
  · exact absurd rfl hs
  · exact ⟨rfl, .refl⟩

/-- A synchronised access that is not cut short by a fault finds the core as it was. -/
theorem refuses_prepareSyncAddress (va alignment : Word) (write : Bool) :
    Refuses (Untouched B) (· ≠ some .ok)
      (onCpu (prepareSyncAddress va alignment write) : Exec σ (Option ArmStatus)) := by
  intro s hs
  simp only [onCpu, prepareSyncAddress] at hs ⊢
  split_ifs at hs ⊢
  · exact ⟨rfl, .refl⟩
  · exact absurd rfl hs
  · exact ⟨rfl, .refl⟩

/-! ### The fetch -/

theorem untouched_readInsn (thumb : Bool) (src : FetchSource) :
    Moves (Untouched B) (readInsn B thumb src) := by
  cases src with
  | host a => exact fun _ => ⟨rfl, .refl⟩
  | phys pa => exact untouched_readN _ pa

/-- The resolution of a fetch address that does not end in an abort. -/
theorem refuses_resolveFetch (pc : Word) :
    Refuses (Untouched B) (· ≠ none) (resolveFetch B pc) := by
  refine .bind untouched_getCpu fun c => ?_
  refine .bind (untouched_logAccess _ _ _) fun _ => ?_
  refine .either (.pure _) ?_
  refine .bind (untouched_armMmuTranslate B pc .fetch _ 0) fun r => ?_
  refine .ite (fun _ => ?_) fun _ s _ => ?_
  · exact Never.refuses (.bind fun _ => .pure fun h => h rfl)
  · split <;> exact ⟨rfl, .refl⟩

/-- A fetch that does not end in an abort. -/
theorem refuses_fetchInsn (pc : Word) : Refuses (Untouched B) (· ≠ none) (fetchInsn B pc) := by
  rw [fetchInsn]
  refine .bind_some (refuses_resolveFetch B pc) (.pure fun h => h rfl) fun src => ?_
  refine .bind untouched_getCpu fun c => ?_
  exact .bind (untouched_readInsn B _ src) fun insn => .pure _

end Exec

end S5LBox
