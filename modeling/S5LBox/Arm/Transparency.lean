import S5LBox.Lib.GenTable
import S5LBox.Arm.MmuBlock
import S5LBox.Arm.Programs

/-!
# The translation cache is transparent

An entry of the translation cache is explained by a walk of some address of its block, under
the registers of the stamp, over descriptor words that bus states since the last flush held.
That every live entry is explained is an invariant of translations, flushes, register writes and
changes of memory; over steady tables it makes a hit the verdict of the walk.

## Main definitions

* `TlbCoherent`: the invariant of the translation cache.
* `MmuOp`, `mmuRun`: runs of translations, flushes, register changes and memory changes.

## Main results

* `armMmuTranslate_on`: what a translation does.
* `armMmuTranslate_eq_mmuWalk`: over a coherent cache and steady tables the front end is the walk.
* `armMmuTranslate_transparent`: so it is at every point of every run from a zeroed core.
-/

namespace S5LBox

open Blocks GenTable StateProgram

variable {σ : Type} (B : ArmBus σ)

/-! ### What an entry means -/

/-- The entry records an outcome. -/
def TlbEntry.Records (e : TlbEntry) : WalkResult → Prop
  | .fault fsr => e.fsr = fsr
  | .mapped pa => e.fsr = 0 ∧ e.pa = pa &&& ~~~0x3ff
  | .coarse _ => False

/-- The entry is explained by a walk over descriptors of bus states of the era. -/
def Explained (stamp : TlbStamp) (era : List σ) (e : TlbEntry) : Prop :=
  ∃ p va acc priv, ∃ b₁ ∈ era, ∃ b₂ ∈ era,
    p.stamp = stamp ∧ e.tag = mmuTlbTag va acc priv ∧
      let l1 := (B.read32 b₁ (mmuL1Addr p va)).1
      e.Records (mmuVerdict p va acc priv l1 (B.read32 b₂ (mmuL2Addr l1 va)).1)

/-- The invariant of the translation cache: no entry is ahead of the generation, every live
entry is explained, and the era has the present bus state. -/
structure TlbCoherent (s : Sys σ) : Prop where
  bounded : Bounded TlbEntry.gen s.cpu.cache.tlb s.cpu.cache.tlbGen
  sound : s.cpu.cache.tlbGen ≠ 0 →
    Sound TlbEntry.gen s.cpu.cache.tlb s.cpu.cache.tlbGen (Explained B s.cpu.cache.tlbStamp s.era)
  present : s.bus ∈ s.era

variable {B}

theorem Explained.mono {stamp : TlbStamp} {era era' : List σ} (h : ∀ b ∈ era, b ∈ era')
    {e : TlbEntry} (he : Explained B stamp era e) : Explained B stamp era' e := by
  obtain ⟨p, va, acc, priv, b₁, h₁, b₂, h₂, hrest⟩ := he
  exact ⟨p, va, acc, priv, b₁, h b₁ h₁, b₂, h b₂ h₂, hrest⟩

/-- What a hit answers is the recorded outcome, moved to the address asked for. -/
theorem TlbEntry.Records.answer {e : TlbEntry} {r : WalkResult} (h : e.Records r) (hr : r.Final)
    (va pa : Word) :
    (e.fsr, if e.fsr = 0 then e.pa ||| (va &&& 0x3ff) else pa) = (r.moveTo va).out pa := by
  cases r with
  | fault fsr =>
    have hne : e.fsr ≠ 0 := fun h0 => hr (h.symm.trans h0)
    simp only [if_neg hne, WalkResult.moveTo, WalkResult.out]
    rw [show e.fsr = fsr from h]
  | mapped pa' =>
    obtain ⟨hfsr, hpa⟩ := h
    simp only [hfsr, hpa, if_true, WalkResult.moveTo, WalkResult.out, moveOffset]
  | coarse domain => exact hr.elim

/-- A hit over steady tables answers with the verdict of the walk. -/
theorem Explained.answer {p : Cp15} {era : List σ} {e : TlbEntry}
    (he : Explained B p.stamp era e) (hM : p.sctlr &&& armSctlrM ≠ 0) {va : Word}
    {acc : ArmAccess} {priv : Bool} (htag : e.tag = mmuTlbTag va acc priv) {b : σ}
    (hsteady : TablesSteady B p va era b) (pa : Word) :
    (e.fsr, if e.fsr = 0 then e.pa ||| (va &&& 0x3ff) else pa) =
      (mmuWalk B p va acc priv pa b).1 := by
  obtain ⟨p', va', acc', priv', b₁, h₁, b₂, h₂, hstamp, htag', hrec⟩ := he
  obtain ⟨hblock, rfl, rfl⟩ := mmuTlbTag_injective (htag'.symm.trans htag)
  simp only [mmuVerdict_stamp hstamp, mmuL1Addr_stamp hstamp, mmuL1Addr_block p hblock,
    mmuL2Addr_block _ hblock] at hrec
  rw [hrec.answer (mmuVerdict_final ..), mmuWalk_verdict B p va _ _ pa b hM,
    ← mmuVerdict_block p _ _ _ _ hblock.symm, mmuVerdict_steady B p va _ _ b hsteady h₁ h₂]

/-! ### What a translation does -/

namespace Exec

/-- The state in which a translation looks its entry up: the generation is initialised, and a
cache filled under other registers has been flushed. -/
def tlbReady (s : Sys σ) : Sys σ :=
  if mmuStampMatches s.cpu then { s with cpu := initGeneration s.cpu }
  else
    let c := initGeneration s.cpu
    { s with cpu := stampCache { c with cache := c.cache.flush }, era := [s.bus] }

/-- The lookup of a translation. -/
def tlbHit (c : ArmCpu) (va : Word) (acc : ArmAccess) (priv : Bool) : Prop :=
  (c.cache.tlb (mmuTlbSlot va acc)).gen = c.cache.tlbGen ∧
    (c.cache.tlb (mmuTlbSlot va acc)).tag = mmuTlbTag va acc priv

variable (B)

/-- The bus states at the end of a missing translation: those of the walk, and the one that the
firmware policy leaves after a successful fetch walk. -/
def missBus (va : Word) (acc : ArmAccess) (priv : Bool)
    (w : (Word × Word) × List σ × σ) (era : List σ) : σ × List σ :=
  if w.1.1 = 0 ∧ acc = .fetch then
    match B.prepareFetch with
    | some f => (f w.2.2 va w.1.2 priv, f w.2.2 va w.1.2 priv :: (w.2.1 ++ era))
    | none => (w.2.2, w.2.1 ++ era)
  else (w.2.2, w.2.1 ++ era)

/-- The state after a missing translation. -/
def tlbMissed (va : Word) (acc : ArmAccess) (priv : Bool) (w : (Word × Word) × List σ × σ)
    (s : Sys σ) : Sys σ :=
  { s with
    cpu := fillTlb (mmuTlbSlot va acc) (mmuTlbTag va acc priv) w.1.1 w.1.2 (countTlb false s.cpu)
    bus := (missBus B va acc priv w s.era).1
    era := (missBus B va acc priv w s.era).2 }

variable {B} (va : Word) (acc : ArmAccess) (priv : Bool) (pa : Word) (s : Sys σ)

theorem tlbReady_cp15 : (tlbReady s).cpu.cp15 = s.cpu.cp15 := by
  simp only [tlbReady, initGeneration, stampCache]
  split_ifs <;> rfl

theorem tlbReady_bus : (tlbReady s).bus = s.bus := by
  simp only [tlbReady]
  split <;> rfl

theorem countTlb_cp15 (hit : Bool) (c : ArmCpu) : (countTlb hit c).cp15 = c.cp15 := rfl

theorem run_walk {α : Type} (f : Word × Word → Exec σ α) :
    (walk B va acc priv pa >>= f) s =
      (let w := mmuWalk B s.cpu.cp15 va acc priv pa s.bus
      f w.1 { s with bus := w.2.2, era := w.2.1 ++ s.era }) := rfl

/-- The policy runs after a successful fetch walk only. -/
theorem run_prepareFetch (w : (Word × Word) × List σ × σ) (c : ArmCpu) (era : List σ)
    (log : List (Access σ)) (aborts : Nat) :
    (guarded (w.1.1 = 0 ∧ acc = .fetch) (prepareFetch B va w.1.2 priv) : Exec σ Unit)
        { cpu := c, bus := w.2.2, era := w.2.1 ++ era, log, aborts } =
      ((), { cpu := c, bus := (missBus B va acc priv w era).1,
             era := (missBus B va acc priv w era).2, log, aborts }) := by
  simp only [guarded, missBus, prepareFetch]
  split_ifs with h
  · cases B.prepareFetch <;> rfl
  · rfl

theorem armMmuTranslate_off (hM : s.cpu.cp15.sctlr &&& armSctlrM = 0) :
    armMmuTranslate B va acc priv pa s = ((0, va), s) := by
  simp only [armMmuTranslate, run_getCpu, run_ite, run_pure, if_pos hM]

/-- With the MMU on a translation answers from its entry or walks and fills it. -/
theorem armMmuTranslate_on (hM : s.cpu.cp15.sctlr &&& armSctlrM ≠ 0) :
    (tlbHit (tlbReady s).cpu va acc priv ∧
      armMmuTranslate B va acc priv pa s =
        (let e := (tlbReady s).cpu.cache.tlb (mmuTlbSlot va acc)
        (e.fsr, if e.fsr = 0 then e.pa ||| (va &&& 0x3ff) else pa),
          { tlbReady s with cpu := countTlb true (tlbReady s).cpu })) ∨
    (¬ tlbHit (tlbReady s).cpu va acc priv ∧
      armMmuTranslate B va acc priv pa s =
        ((mmuWalk B s.cpu.cp15 va acc priv pa s.bus).1,
          tlbMissed B va acc priv (mmuWalk B s.cpu.cp15 va acc priv pa s.bus) (tlbReady s))) := by
  have hready : (guarded (¬ mmuStampMatches s.cpu) (do armMmuTlbFlush; modifyCpu stampCache) :
      Exec σ Unit) { s with cpu := initGeneration s.cpu } = ((), tlbReady s) := by
    by_cases h : mmuStampMatches s.cpu = true
    · simp [tlbReady, h]
    · simp [tlbReady, h, armMmuTlbFlush]
  by_cases hhit : tlbHit (tlbReady s).cpu va acc priv
  · refine .inl ⟨hhit, ?_⟩
    rw [tlbHit] at hhit
    simp only [armMmuTranslate, run_getCpu, run_modifyCpu, run_guarded_bind, run_ite, run_pure,
      if_neg hM, hready, if_pos hhit]
  · refine .inr ⟨hhit, ?_⟩
    rw [tlbHit] at hhit
    have hwalk : mmuWalk B (countTlb false (tlbReady s).cpu).cp15 va acc priv pa (tlbReady s).bus =
        mmuWalk B s.cpu.cp15 va acc priv pa s.bus := by
      rw [countTlb_cp15, tlbReady_cp15, tlbReady_bus]
    simp only [armMmuTranslate, run_getCpu, run_modifyCpu, run_guarded_bind, run_ite, run_pure,
      if_neg hM, hready, if_neg hhit, run_walk]
    rw [hwalk, run_prepareFetch]
    rfl

end Exec

/-! ### The invariant -/

section Invariant

open Exec

variable {s : Sys σ}

theorem tlbCoherent_zero (b : σ) (log : List (Access σ)) :
    TlbCoherent B { cpu := {}, bus := b, era := [b], log := log } where
  bounded := Bounded.wiped rfl
  sound h := absurd rfl h
  present := List.mem_singleton.mpr rfl

/-- A flush leaves no live entry, whether or not the generation wraps. -/
theorem flush_sound {t : TransCache} (h : Bounded TlbEntry.gen t.tlb t.tlbGen)
    (P : TlbEntry → Prop) :
    t.flush.tlbGen ≠ 0 ∧ Bounded TlbEntry.gen t.flush.tlb t.flush.tlbGen ∧
      Sound TlbEntry.gen t.flush.tlb t.flush.tlbGen P := by
  have hne : (0 : Word) ≠ 1 := by decide
  simp only [TransCache.flush]
  split_ifs with hwrap
  · exact ⟨hne.symm, Bounded.wiped rfl, Sound.wiped hne⟩
  · have hlt := lt_next hwrap
    exact ⟨hwrap, h.mono (BitVec.le_of_lt hlt), h.sound_next hlt⟩

/-- Initialising the generation leaves a nonzero one, and the invariant with it. -/
theorem TlbCoherent.initGeneration (h : TlbCoherent B s) :
    TlbCoherent B { s with cpu := initGeneration s.cpu } ∧
      (initGeneration s.cpu).cache.tlbGen ≠ 0 := by
  have hlt : (0 : Word) < 1 := by decide
  have hne : (1 : Word) ≠ 0 := by decide
  by_cases h0 : s.cpu.cache.tlbGen = 0
  · have hinit : Exec.initGeneration s.cpu =
        { s.cpu with cache := { s.cpu.cache with tlbGen := 1 } } := if_pos h0
    have hbounded : Bounded TlbEntry.gen s.cpu.cache.tlb 0 := h0 ▸ h.bounded
    rw [hinit]
    exact ⟨⟨hbounded.mono (BitVec.le_of_lt hlt), fun _ => hbounded.sound_next hlt, h.present⟩, hne⟩
  · have hinit : Exec.initGeneration s.cpu = s.cpu := if_neg h0
    rw [hinit]
    exact ⟨h, h0⟩

theorem initGeneration_tlbStamp (c : ArmCpu) :
    (initGeneration c).cache.tlbStamp = c.cache.tlbStamp := by
  rw [Exec.initGeneration]
  split <;> rfl

theorem initGeneration_cp15 (c : ArmCpu) : (initGeneration c).cp15 = c.cp15 := by
  rw [Exec.initGeneration]
  split <;> rfl

/-- The state in which the lookup happens is coherent, and its cache is valid under the present
registers. -/
theorem TlbCoherent.ready (h : TlbCoherent B s) :
    TlbCoherent B (tlbReady s) ∧ (tlbReady s).cpu.cache.tlbGen ≠ 0 ∧
      (tlbReady s).cpu.cache.tlbStamp = s.cpu.cp15.stamp ∧
        ∀ b ∈ (tlbReady s).era, b ∈ s.era := by
  obtain ⟨hinit, hne⟩ := h.initGeneration
  by_cases hstamp : mmuStampMatches s.cpu = true
  · have hready : tlbReady s = { s with cpu := Exec.initGeneration s.cpu } := if_pos hstamp
    have hcur : s.cpu.cache.tlbStamp = s.cpu.cp15.stamp := by
      simpa [mmuStampMatches] using hstamp
    rw [hready]
    exact ⟨hinit, hne, (initGeneration_tlbStamp s.cpu).trans hcur, fun _ => id⟩
  · have hready : tlbReady s = _ := if_neg hstamp
    obtain ⟨hne', hbounded, hsound⟩ := flush_sound hinit.bounded
      (Explained B (Exec.initGeneration s.cpu).cp15.stamp [s.bus])
    rw [hready]
    refine ⟨⟨hbounded, fun _ => hsound, List.mem_singleton.mpr rfl⟩, hne',
      congrArg Cp15.stamp (initGeneration_cp15 s.cpu), fun b hb => ?_⟩
    rw [List.mem_singleton.mp hb]
    exact h.present

/-- Every bus state of a walk and of the firmware policy joins the era. -/
theorem missBus_spec (va : Word) (acc : ArmAccess) (priv : Bool)
    (w : (Word × Word) × List σ × σ) (era : List σ) (hw : w.2.2 ∈ w.2.1 ++ era) :
    (missBus B va acc priv w era).1 ∈ (missBus B va acc priv w era).2 ∧
      ∀ b ∈ w.2.1 ++ era, b ∈ (missBus B va acc priv w era).2 := by
  simp only [missBus]
  split_ifs
  · cases B.prepareFetch with
    | none => exact ⟨hw, fun _ => id⟩
    | some f => exact ⟨List.mem_cons_self, fun _ => List.mem_cons_of_mem _⟩
  · exact ⟨hw, fun _ => id⟩

/-- A walk ends in a bus state it passed through. -/
theorem mmuWalk_bus_mem (p : Cp15) (va : Word) (acc : ArmAccess) (priv : Bool) (pa : Word)
    {b : σ} {era : List σ} (hb : b ∈ era) :
    (mmuWalk B p va acc priv pa b).2.2 ∈ (mmuWalk B p va acc priv pa b).2.1 ++ era := by
  simp only [mmuWalk]
  split_ifs
  · exact hb
  · exact hb
  · cases mmuL1Decode p va acc priv (B.read32 b (mmuL1Addr p va)).1 <;>
      exact List.mem_cons_self

/-- The second descriptor of a walk comes from a bus state that the walk passed through. -/
theorem mmuWalk_verdict_mem (p : Cp15) (va : Word) (acc : ArmAccess) (priv : Bool) (pa : Word)
    {b : σ} {era : List σ} (hb : b ∈ era) (hM : p.sctlr &&& armSctlrM ≠ 0) :
    ∃ b₂ ∈ (mmuWalk B p va acc priv pa b).2.1 ++ era,
      (mmuWalk B p va acc priv pa b).1 =
        (mmuVerdict p va acc priv (mmuFetchL1 B p va b).1
          (B.read32 b₂ (mmuL2Addr (mmuFetchL1 B p va b).1 va)).1).out pa := by
  simp only [mmuWalk, if_neg hM, mmuVerdict, mmuFetchL1]
  split_ifs
  · exact ⟨b, hb, rfl⟩
  · cases mmuL1Decode p va acc priv (B.read32 b (mmuL1Addr p va)).1 with
    | fault fsr => exact ⟨b, List.mem_append_right _ hb, rfl⟩
    | mapped pa' => exact ⟨b, List.mem_append_right _ hb, rfl⟩
    | coarse domain =>
      exact ⟨(B.read32 b (mmuL1Addr p va)).2, List.mem_cons_of_mem _ List.mem_cons_self, rfl⟩

/-- The entry that a walk fills records its verdict. -/
theorem records_filled {r : WalkResult} (hr : r.Final) {w : Word × Word} {pa : Word}
    (hw : w = r.out pa) (gen tag : Word) :
    ({ gen, tag, fsr := w.1, pa := if w.1 = 0 then w.2 &&& ~~~0x3ff else 0 } :
      TlbEntry).Records r := by
  subst hw
  cases r with
  | fault fsr => exact rfl
  | mapped pa' => exact ⟨rfl, by simp only [WalkResult.out, if_true]⟩
  | coarse domain => exact hr.elim

theorem TlbCoherent.missed {va : Word} {acc : ArmAccess} {priv : Bool} {pa : Word}
    (h : TlbCoherent B s) (hM : s.cpu.cp15.sctlr &&& armSctlrM ≠ 0)
    (hstamp : s.cpu.cache.tlbStamp = s.cpu.cp15.stamp) :
    TlbCoherent B
      (tlbMissed B va acc priv (mmuWalk B s.cpu.cp15 va acc priv pa s.bus) s) := by
  set w := mmuWalk B s.cpu.cp15 va acc priv pa s.bus with hw
  obtain ⟨hbus, hera⟩ := missBus_spec (B := B) va acc priv w s.era
    (mmuWalk_bus_mem s.cpu.cp15 va acc priv pa h.present)
  obtain ⟨b₂, hb₂, hverdict⟩ := mmuWalk_verdict_mem (B := B) s.cpu.cp15 va acc priv pa h.present hM
  refine ⟨h.bounded.update (BitVec.le_refl _), fun hne => ?_, hbus⟩
  refine Sound.update ((h.sound hne).mono fun e he =>
    he.mono fun b hb => hera b (List.mem_append_right _ hb)) fun _ => ?_
  exact ⟨s.cpu.cp15, va, acc, priv, s.bus, hera _ (List.mem_append_right _ h.present), b₂,
    hera _ hb₂, hstamp.symm, rfl, records_filled (mmuVerdict_final ..) hverdict _ _⟩

/-- A translation keeps the cache coherent. -/
theorem TlbCoherent.translate (va : Word) (acc : ArmAccess) (priv : Bool) (pa : Word) :
    Keeps (TlbCoherent B) (armMmuTranslate B va acc priv pa) := by
  intro s h
  by_cases hM : s.cpu.cp15.sctlr &&& armSctlrM = 0
  · rw [armMmuTranslate_off va acc priv pa s hM]
    exact h
  · obtain ⟨hready, -, hstamp, -⟩ := h.ready
    rcases armMmuTranslate_on (B := B) va acc priv pa s hM with ⟨-, hrun⟩ | ⟨-, hrun⟩
    · rw [hrun]
      exact ⟨hready.bounded, hready.sound, hready.present⟩
    · rw [hrun, ← tlbReady_cp15 s, ← tlbReady_bus s]
      rw [← tlbReady_cp15 s] at hM hstamp
      exact hready.missed hM hstamp

/-- Over a coherent cache and steady tables a translation is the walk. -/
theorem armMmuTranslate_eq_mmuWalk (h : TlbCoherent B s) (va : Word) (acc : ArmAccess)
    (priv : Bool) (pa : Word) (hsteady : TablesSteady B s.cpu.cp15 va s.era s.bus) :
    (armMmuTranslate B va acc priv pa s).1 = (mmuWalk B s.cpu.cp15 va acc priv pa s.bus).1 := by
  by_cases hM : s.cpu.cp15.sctlr &&& armSctlrM = 0
  · rw [armMmuTranslate_off va acc priv pa s hM, mmuWalk, if_pos hM]
  · rcases armMmuTranslate_on (B := B) va acc priv pa s hM with ⟨hhit, hrun⟩ | ⟨-, hrun⟩
    · obtain ⟨hready, hne, hstamp, hera⟩ := h.ready
      have hexp := hready.sound hne (mmuTlbSlot va acc) hhit.1
      rw [hstamp] at hexp
      rw [hrun]
      exact hexp.answer hM hhit.2 (fun b hb => hsteady b (hera b hb)) pa
    · rw [hrun]

end Invariant

/-! ### Runs -/

/-- What happens between two translations: a flush, a direct change of the registers, or a
change of what lies behind the bus. -/
inductive MmuOp (σ : Type)
  | translate (va : Word) (acc : ArmAccess) (priv : Bool) (pa : Word)
  | flush
  | setRegisters (f : Cp15 → Cp15)
  | setBus (f : σ → σ)

open Exec in
/-- One operation as a program. -/
def MmuOp.run (B : ArmBus σ) : MmuOp σ → Exec σ Unit
  | .translate va acc priv pa => (fun _ => ()) <$> armMmuTranslate B va acc priv pa
  | .flush => armMmuTlbFlush
  | .setRegisters f => modifyCpu fun c => { c with cp15 := f c.cp15 }
  | .setBus f => busCall fun b => ((), f b)

/-- A run of operations. -/
def mmuRun (B : ArmBus σ) (ops : List (MmuOp σ)) (s : Sys σ) : Sys σ :=
  ops.foldl (fun s op => (op.run B s).2) s

theorem TlbCoherent.op (op : MmuOp σ) : Keeps (TlbCoherent B) (op.run B) := by
  intro s h
  cases op with
  | translate va acc priv pa => exact TlbCoherent.translate va acc priv pa s h
  | flush =>
    obtain ⟨-, hbounded, hsound⟩ := flush_sound h.bounded
      (Explained B s.cpu.cache.flush.tlbStamp [s.bus])
    exact ⟨hbounded, fun _ => hsound, List.mem_singleton.mpr rfl⟩
  | setRegisters f => exact ⟨h.bounded, h.sound, h.present⟩
  | setBus f =>
    exact ⟨h.bounded, fun hne => (h.sound hne).mono fun e he =>
      he.mono fun b hb => List.mem_cons_of_mem _ hb, List.mem_cons_self⟩

theorem TlbCoherent.run (ops : List (MmuOp σ)) {s : Sys σ} (h : TlbCoherent B s) :
    TlbCoherent B (mmuRun B ops s) := by
  induction ops generalizing s with
  | nil => exact h
  | cons op ops ih => exact ih (TlbCoherent.op op s h)

/-- A faulting walk leaves the caller's address as it was. -/
theorem mmuWalk_fault (p : Cp15) (va : Word) (acc : ArmAccess) (priv : Bool) (pa : Word) (b : σ)
    (h : (mmuWalk B p va acc priv pa b).1.1 ≠ 0) : (mmuWalk B p va acc priv pa b).1.2 = pa := by
  by_cases hM : p.sctlr &&& armSctlrM = 0
  · rw [mmuWalk, if_pos hM] at h
    exact absurd rfl h
  · rw [mmuWalk_verdict B p va acc priv pa b hM] at h ⊢
    revert h
    cases mmuVerdict p va acc priv (mmuFetchL1 B p va b).1 (mmuFetchL2 B p va b).1 with
    | fault fsr => exact fun _ => rfl
    | mapped pa' => exact fun h => absurd rfl h
    | coarse domain => exact fun _ => rfl

/-- At every point of every run from a zeroed core, a translation over descriptors that have not
changed since the last flush returns the fault status and stores the physical address of the
uncached walk; on a fault the caller's address is left as it was. -/
theorem armMmuTranslate_transparent (B : ArmBus σ) (b : σ) (ops : List (MmuOp σ)) (va : Word)
    (acc : ArmAccess) (priv : Bool) (pa : Word) :
    let s := mmuRun B ops { cpu := {}, bus := b }
    TablesSteady B s.cpu.cp15 va s.era s.bus →
      (Exec.armMmuTranslate B va acc priv pa s).1 =
          (mmuWalk B s.cpu.cp15 va acc priv pa s.bus).1 ∧
        ((Exec.armMmuTranslate B va acc priv pa s).1.1 ≠ 0 →
          (Exec.armMmuTranslate B va acc priv pa s).1.2 = pa) := by
  intro s hsteady
  have hcoherent : TlbCoherent B s := TlbCoherent.run ops (tlbCoherent_zero b [])
  have heq := armMmuTranslate_eq_mmuWalk hcoherent va acc priv pa hsteady
  refine ⟨heq, fun hfault => ?_⟩
  rw [heq] at hfault ⊢
  exact mmuWalk_fault _ va acc priv pa s.bus hfault

/-- A memory in which every word is the descriptor of one section: frame zero, domain zero,
accessible to all. -/
def sectionBus : ArmBus Unit where
  read32 _ _ := (0xc02, ())
  read16 _ _ := (0, ())
  read8 _ _ := (0, ())
  write32 _ _ _ := ()
  write16 _ _ _ := ()
  write8 _ _ _ := ()

/-- The second translation in the block answers from the entry of the first one. -/
theorem armMmuTranslate_transparent_section :
    (Exec.armMmuTranslate sectionBus 0x123 .read true 7
      (mmuRun sectionBus
        [.setRegisters fun p => { p with sctlr := armSctlrM, dacr := 1 },
          .translate 0x300 .read true 0]
        { cpu := {}, bus := () })).1 = (0, 0x123) :=
  (armMmuTranslate_transparent sectionBus () _ 0x123 .read true 7
    (fun _ _ => ⟨rfl, fun _ => rfl⟩)).1.trans (by decide)

end S5LBox
