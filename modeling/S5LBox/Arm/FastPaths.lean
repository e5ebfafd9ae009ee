import S5LBox.Arm.Refill
import S5LBox.Arm.CacheSteps

/-!
# The fast paths

What a page cache answers is what the translator and the bus answer under the present registers.
The caches are coherent at every access of every run of steps, refills and flushes. A hit of a
coherent cache names a block that the present registers map the address to, over descriptors that
the tables still hold, so the translator grants the access; and the host address was granted for
that block, so the host's own load or store is the bus access.

## Main definitions

* `CoreOp`, `coreRun`: runs of the core.
* `GrantsRemain`: the host addresses handed out are still what the bus reads and writes.
* `Access.Agrees`: an access that a page cache answers is translated and made over the bus.

## Main results

* `coreRun_agrees`: every access of every run agrees.
-/

namespace S5LBox

open Blocks GenTable StateProgram

variable {σ : Type} {B : ArmBus σ}

/-! ### Refills -/

variable {grant : Option (σ → Word → Nat → Option Nat)} {acc : ArmAccess} {va : Word} {priv : Bool}

namespace Exec

/-- Only the block of a physical address matters to a grant. -/
theorem grantOf_block (grant : Option (σ → Word → Nat → Option Nat)) (pa va : Word) (b : σ) :
    grantOf grant (pa ||| (va &&& 0x3ff)) b = grantOf grant pa b := by
  have hblock : (pa ||| (va &&& 0x3ff)) &&& ~~~armDreadBlkMask = pa &&& ~~~armDreadBlkMask := by
    have hoff : (va &&& 0x3ff) &&& ~~~armDreadBlkMask = 0 := by
      rw [BitVec.and_assoc]
      exact BitVec.and_zero
    rw [BitVec.and_or_distrib_right, hoff]
    exact BitVec.or_zero
  simp only [grantOf, hblock]

theorem grantOf_base (grant : Option (σ → Word → Nat → Option Nat)) (va : Word) (b : σ) :
    grantOf grant (va &&& ~~~0x3ff) b = grantOf grant va b := by
  have hblock : (va &&& ~~~0x3ff) &&& ~~~armDreadBlkMask = va &&& ~~~armDreadBlkMask := by
    rw [BitVec.and_assoc]
    rfl
  simp only [grantOf, hblock]

/-- The block that the translation cache holds is one that the registers map. -/
theorem translates_cachedBlock {s : Sys σ} (h : PageCoherent B s) {va : Word} {acc : ArmAccess}
    {priv : Bool} {blk : Word} (hblk : cachedBlock s.cpu va acc priv = some blk)
    (grant : Option (σ → Word → Nat → Option Nat)) :
    ∃ pa, Translates B s.cpu.cp15.stamp s.era va acc priv pa ∧
      grantOf grant pa s.bus = grantOf grant blk s.bus := by
  rw [cachedBlock] at hblk
  split at hblk
  case isTrue hoff =>
    obtain rfl := Option.some.inj hblk
    exact ⟨va, ⟨s.cpu.cp15, rfl, .inl ⟨hoff, rfl⟩⟩, (grantOf_base grant va s.bus).symm⟩
  case isFalse hon =>
    dsimp only at hblk
    split at hblk
    · cases hblk
    case isFalse hlive =>
      simp only [not_or, not_not] at hlive
      obtain ⟨hgen, hstamp, hentry, htag, hfsr⟩ := hlive
      obtain rfl := Option.some.inj hblk
      have hexp := h.tlb.sound hgen (mmuTlbSlot va acc) hentry
      have hstamp' : s.cpu.cache.tlbStamp = s.cpu.cp15.stamp := beq_iff_eq.mp hstamp
      rw [hstamp'] at hexp
      exact ⟨_, hexp.translates hon htag hfsr, grantOf_block grant _ va s.bus⟩

/-- A refill installs what the registers map. -/
theorem keeps_refill {grant : Option (σ → Word → Nat → Option Nat)} {va : Word} {acc : ArmAccess}
    {priv : Bool} {install : Nat → ArmCpu → ArmCpu}
    (hinstall : ∀ s : Sys σ, Traced B s → ∀ pa blk, Translates B s.cpu.cp15.stamp s.era va acc priv
      pa → grantOf grant pa s.bus = some blk → Traced B { s with cpu := install blk s.cpu })
    (hpc : ∀ blk c, (install blk c).r = c.r ∧ (install blk c).cpsr = c.cpsr) :
    Keeps (Stepping B) (refill grant va acc priv install) := by
  intro s h
  rw [refill]
  split
  case h_1 => exact h
  case h_2 blk hblk =>
    split
    case h_1 => exact h
    case h_2 host hhost =>
      obtain ⟨pa, htrans, hgrant⟩ := translates_cachedBlock h.1.now hblk grant
      have htraced := hinstall s h.1 pa host htrans (hgrant.trans hhost)
      obtain ⟨hr, hcpsr⟩ := hpc host s.cpu
      have hfetch : Fetchable (install host s.cpu) ((install host s.cpu).r 15) := by
        rw [hr]
        exact fetchable_congr hcpsr h.2
      dsimp only
      rw [countRefill]
      split
      · exact ⟨htraced, hfetch⟩
      · exact ⟨traced_recount htraced ⟨rfl, rfl, rfl⟩ rfl rfl ⟨rfl, rfl, rfl, rfl⟩, hfetch⟩

theorem keeps_armFetchCacheTryRefill (va : Word) (priv : Bool) :
    Keeps (Stepping B) (armFetchCacheTryRefill B va priv) := by
  refine .bind (fun _ h => h) fun c => .either (.pure _) ?_
  refine .either (.pure _) <| keeps_refill (fun s h pa blk => ?_) fun _ _ => ?_
  · exact installFetch_traced h
  · exact ⟨rfl, rfl⟩

theorem keeps_armDataCacheTryRefill (va : Word) (acc : ArmAccess) (priv : Bool) :
    Keeps (Stepping B) (armDataCacheTryRefill B va acc priv) := by
  refine .bind (fun _ h => h) fun c => ?_
  cases acc with
  | fetch => exact .pure _
  | read =>
    refine .either (.pure _) <| .either (.pure _) ?_
    exact keeps_refill (fun s h pa blk => installDread_traced h) fun _ _ => ⟨rfl, rfl⟩
  | write =>
    refine .either (.pure _) <| .either (.pure _) ?_
    exact keeps_refill (fun s h pa blk => installDwrite_traced h) fun _ _ => ⟨rfl, rfl⟩

end Exec

/-! ### Runs -/

/-- What happens to a core: it steps; the devices behind the bus advance and drive the interrupt
lines; a page cache is refilled; the translations are flushed. -/
inductive CoreOp (σ : Type)
  | step
  | tick (f : σ → Bool × Bool × σ)
  | fetchRefill (va : Word) (priv : Bool)
  | dataRefill (va : Word) (acc : ArmAccess) (priv : Bool)
  | flush

open Exec in
/-- One operation. -/
def CoreOp.run (B : ArmBus σ) (fpu : HostFpu) (op : CoreOp σ) (s : Sys σ) : Sys σ :=
  match op with
  | .step => (armStep B fpu s).2
  | .tick f =>
    let (irq, fiq, b) := f s.bus
    { s with
      cpu := { s.cpu with irqLine := irq, fiqLine := fiq }
      bus := b
      era := b :: s.era }
  | .fetchRefill va priv => (armFetchCacheTryRefill B va priv s).2
  | .dataRefill va acc priv => (armDataCacheTryRefill B va acc priv s).2
  | .flush => (armMmuTlbFlush s).2

/-- A run of operations. -/
def coreRun (B : ArmBus σ) (fpu : HostFpu) (ops : List (CoreOp σ)) (s : Sys σ) : Sys σ :=
  ops.foldl (fun s op => op.run B fpu s) s

section Runs

variable (hhook : Exec.SvcHookSteps B) (fpu : HostFpu)

include hhook

/-- An operation keeps the page caches coherent. -/
theorem CoreOp.stepping (op : CoreOp σ) {s : Sys σ} (h : Exec.Stepping B s) :
    Exec.Stepping B (op.run B fpu s) := by
  cases op with
  | step => exact Exec.armStep_stepping hhook fpu s h
  | tick f =>
    have hlater := h.1.now.later (fun _ => List.mem_cons_of_mem _)
      (List.mem_cons_self : (f s.bus).2.2 ∈ (f s.bus).2.2 :: s.era)
    exact ⟨⟨hlater.modify rfl rfl, h.1.log, h.1.aligned⟩, h.2⟩
  | fetchRefill va priv => exact Exec.keeps_armFetchCacheTryRefill va priv s h
  | dataRefill va acc priv => exact Exec.keeps_armDataCacheTryRefill va acc priv s h
  | flush => exact ⟨⟨h.1.now.flushed s.cpu.cp15, h.1.log, h.1.aligned⟩, h.2⟩

theorem coreRun_stepping (ops : List (CoreOp σ)) {s : Sys σ} (h : Exec.Stepping B s) :
    Exec.Stepping B (coreRun B fpu ops s) := by
  induction ops generalizing s with
  | nil => exact h
  | cons op ops ih => exact ih (op.stepping hhook fpu h)

end Runs

/-! ### Hits -/

/-- A block of a page cache that answers for `va`: the present registers map an address of its
block to one of a block that the host address was granted for. -/
def Hits (B : ArmBus σ) (grant : Option (σ → Word → Nat → Option Nat)) (acc : ArmAccess) (va : Word)
    (priv : Bool) (s : Sys σ) (host : Nat) : Prop :=
  ∃ va' pa, SameBlock 10 va va' ∧ Translates B s.cpu.cp15.stamp s.era va' acc priv pa ∧
    ∃ b ∈ s.era, Exec.grantOf grant pa b = some host

/-- The bits of an address above its block. -/
theorem sameBlock_of_base {va va' : Word} (h : va &&& ~~~armDreadBlkMask = va' &&& ~~~armDreadBlkMask) :
    SameBlock 10 va va' := by
  have hbase : ∀ v : Word, (v &&& ~~~armDreadBlkMask) >>> 10 = v >>> 10 := by
    intro v
    apply BitVec.eq_of_getLsbD_eq
    intro i hi
    simp only [show armDreadBlkMask = lowMask 32 10 by decide, BitVec.getLsbD_ushiftRight,
      BitVec.getLsbD_and, BitVec.getLsbD_not, getLsbD_lowMask]
    by_cases h32 : 10 + i < 32
    · simp [h32]
    · simp [BitVec.getLsbD_of_ge v (10 + i) (by omega)]
  rw [SameBlock, ← hbase va, h, hbase]

/-- Moving an address of the block to an offset gives the address at the offset. -/
theorem moveOffset_same {va va' : Word} (h : SameBlock 10 va va') : moveOffset va va' = va := by
  apply BitVec.eq_of_getLsbD_eq
  intro i hi
  simp only [moveOffset, show (0x3ff : Word) = lowMask 32 10 by decide, BitVec.getLsbD_or,
    BitVec.getLsbD_and, BitVec.getLsbD_not, getLsbD_lowMask]
  by_cases hlow : i < 10
  · simp [hlow, hi]
  · have hhigh := h.getLsbD (Nat.le_of_not_lt hlow)
    rw [hhigh]
    simp [hlow, hi]

/-- The tag of a data block determines the block and the privilege. -/
theorem dreadTag_injective {va va' : Word} {priv priv' : Bool}
    (h : dreadTag va priv = dreadTag va' priv') : SameBlock 10 va va' ∧ priv = priv' := by
  have hbase : ∀ (v : Word) (p : Bool),
      dreadTag v p &&& ~~~armDreadBlkMask = v &&& ~~~armDreadBlkMask := by
    intro v p
    have hpriv : (if p then (1 : Word) else 0) &&& ~~~armDreadBlkMask = 0 := by
      cases p <;> decide
    rw [dreadTag, BitVec.and_or_distrib_right, hpriv, BitVec.and_assoc, BitVec.and_self]
    exact BitVec.or_zero
  have hpriv : ∀ (v : Word) (p : Bool), dreadTag v p &&& 1 = if p then 1 else 0 := by
    intro v p
    have hlow : (v &&& ~~~armDreadBlkMask) &&& 1 = 0 := by
      rw [BitVec.and_assoc]
      exact BitVec.and_zero
    rw [dreadTag, BitVec.and_or_distrib_right, hlow]
    cases p <;> decide
  constructor
  · exact sameBlock_of_base ((hbase va priv).symm.trans (h ▸ hbase va' priv'))
  · have hbit := (hpriv va priv).symm.trans (h ▸ hpriv va' priv')
    revert hbit
    cases priv <;> cases priv' <;> decide

theorem le_of_not_leavesBlock {n : Nat} (h : ¬ leavesBlock va n = true) :
    (va &&& armDreadBlkMask).toNat + n ≤ 0x400 := by
  rw [leavesBlock, decide_eq_true_iff, not_lt] at h
  exact h

theorem hits_of_live {s : Sys σ} {e : BlockEntry}
    (hsound : e.gen = s.cpu.cache.tlbGen → BlockGranted B grant acc s.cpu.cp15.stamp s.era e)
    (hlive : e.live va priv s.cpu.cache.tlbGen = true) :
    ∃ host, e.host = some host ∧ Hits B grant acc va priv s host := by
  rw [BlockEntry.live, Bool.and_eq_true, Bool.and_eq_true, beq_iff_eq, beq_iff_eq] at hlive
  obtain ⟨⟨hsome, htag⟩, hgen⟩ := hlive
  obtain ⟨host, hhost⟩ := Option.isSome_iff_exists.mp hsome
  obtain ⟨va', priv', htag', pa, b, hb, htrans, hgrant⟩ := hsound hgen host hhost
  obtain ⟨hblock, rfl⟩ := dreadTag_injective (htag.symm.trans htag')
  exact ⟨host, hhost, va', pa, hblock, htrans, b, hb, hgrant⟩

/-- A hit of the read cache. -/
theorem dreadHit_hits {s : Sys σ} (h : PageCoherent B s) {n : Nat} {dh : Nat}
    (hhit : (dreadHit va n priv s.cpu).1 = some dh) :
    (va &&& armDreadBlkMask).toNat + n ≤ 0x400 ∧ ∃ host,
      dh = host + (va &&& armDreadBlkMask).toNat ∧ Hits B B.hostRam .read va priv s host := by
  rw [dreadHit] at hhit
  dsimp only at hhit
  split at hhit
  · cases hhit
  case isFalse hlive =>
    rw [not_or, not_not] at hlive
    obtain ⟨host, hhost, hhits⟩ := hits_of_live (h.dread (dreadSlot va priv)) hlive.2
    rw [BlockEntry.hostAt, hhost] at hhit
    exact ⟨le_of_not_leavesBlock hlive.1, host, (Option.some.inj hhit).symm, hhits⟩

/-- A hit of the write cache. -/
theorem dwriteHit_hits {s : Sys σ} (h : PageCoherent B s) {consent : Bool} {n : Nat} {dw : Nat}
    (hhit : (dwriteHit consent va n priv s.cpu).1 = some dw) :
    (va &&& armDreadBlkMask).toNat + n ≤ 0x400 ∧ ∃ host,
      dw = host + (va &&& armDreadBlkMask).toNat ∧ Hits B B.hostRamWrite .write va priv s host := by
  rw [dwriteHit] at hhit
  dsimp only at hhit
  split at hhit
  · cases hhit
  split at hhit
  · cases hhit
  case isFalse hlive =>
    rw [not_or, not_not] at hlive
    obtain ⟨host, hhost, hhits⟩ := hits_of_live (h.dwrite (dreadSlot va priv)) hlive.2
    rw [BlockEntry.hostAt, hhost] at hhit
    exact ⟨le_of_not_leavesBlock hlive.1, host, (Option.some.inj hhit).symm, hhits⟩

/-- A hit of the fetch block. -/
theorem fetchBlockHit_hits {s : Sys σ} (h : PageCoherent B s) {pc : Word}
    (hhit : Exec.fetchBlockHit s.cpu.cache pc priv = true) :
    ∃ host, s.cpu.cache.fetchHost = some host ∧ Hits B B.hostRam .fetch pc priv s host := by
  rw [Exec.fetchBlockHit] at hhit
  simp only [Bool.and_eq_true, beq_iff_eq] at hhit
  obtain ⟨⟨⟨hsome, hblk⟩, hgen⟩, rfl⟩ := hhit
  obtain ⟨host, hhost⟩ := Option.isSome_iff_exists.mp hsome
  obtain ⟨va, hva, pa, b, hb, htrans, hgrant⟩ := h.fetch hgen host hhost
  exact ⟨host, hhost, va, pa, sameBlock_of_base (hblk.symm.trans hva), htrans, b, hb, hgrant⟩

/-! ### What a hit answers -/

/-- Over steady tables the translator grants what a page cache hits, in the block of the grant. -/
theorem Hits.translate {s : Sys σ} (h : PageCoherent B s) {host : Nat}
    (hhits : Hits B grant acc va priv s host) (hsteady : TablesSteady B s.cpu.cp15 va s.era s.bus) :
    ∃ pa, ∃ b ∈ s.era, (Exec.armMmuTranslate B va acc priv 0 s).1 = (0, moveOffset va pa) ∧
      Exec.grantOf grant pa b = some host := by
  obtain ⟨va', pa, hblock, ⟨p, hstamp, htrans⟩, b, hb, hgrant⟩ := hhits
  rw [armMmuTranslate_eq_mmuWalk h.tlb va acc priv 0 hsteady]
  have hsctlr : p.sctlr = s.cpu.cp15.sctlr := congrArg TlbStamp.sctlr hstamp
  obtain ⟨hoff, rfl⟩ | ⟨hon, b₁, hb₁, b₂, hb₂, hverdict⟩ := htrans
  · rw [hsctlr] at hoff
    refine ⟨pa, b, hb, ?_, hgrant⟩
    rw [mmuWalk, if_pos hoff, moveOffset_same hblock]
  · rw [hsctlr] at hon
    refine ⟨pa, b, hb, ?_, hgrant⟩
    simp only [mmuVerdict_stamp hstamp, mmuL1Addr_stamp hstamp, ← mmuL1Addr_block _ hblock,
      ← mmuL2Addr_block _ hblock] at hverdict
    rw [mmuWalk_verdict B s.cpu.cp15 va acc priv 0 s.bus hon,
      ← mmuVerdict_steady B s.cpu.cp15 va acc priv s.bus hsteady hb₁ hb₂,
      mmuVerdict_block s.cpu.cp15 acc priv _ _ hblock, hverdict]
    rfl

/-- The host addresses that were handed out in a bus state of the era are still good: the host's own
load and store of bytes of the block are those of the bus. -/
structure GrantsRemain (B : ArmBus σ) (era : List σ) (b : σ) : Prop where
  read : ∀ b' ∈ era, ∀ pa host, Exec.grantOf B.hostRam pa b' = some host →
    ∀ (w : MemWidth) (a : Word), a &&& ~~~armDreadBlkMask = pa &&& ~~~armDreadBlkMask →
      (a &&& armDreadBlkMask).toNat + w.bytes ≤ 0x400 →
        B.readN w b a = (B.peekN b (host + (a &&& armDreadBlkMask).toNat) w.bytes, b)
  write : ∀ b' ∈ era, ∀ pa host, Exec.grantOf B.hostRamWrite pa b' = some host →
    ∀ (w : MemWidth) (a v : Word), a &&& ~~~armDreadBlkMask = pa &&& ~~~armDreadBlkMask →
      (a &&& armDreadBlkMask).toNat + w.bytes ≤ 0x400 →
        B.writeN w b a v = B.pokeN b (host + (a &&& armDreadBlkMask).toNat) v w.bytes

/-- A program that answers as the translator grants and the bus then does: the value, the state
behind the bus and, its caches apart, the core are those of the translation of `va` without a
fault followed by the bus access `access` at the address it gives. -/
structure AnswersAs {α : Type} (B : ArmBus σ) (va : Word) (acc : ArmAccess) (priv : Bool)
    (access : σ → Word → α × σ) (m : Exec σ α) (s : Sys σ) : Prop where
  granted : (Exec.armMmuTranslate B va acc priv 0 s).1.1 = 0
  value : (m s).1 = (access s.bus (Exec.armMmuTranslate B va acc priv 0 s).1.2).1
  bus : (m s).2.bus = (access s.bus (Exec.armMmuTranslate B va acc priv 0 s).1.2).2
  core : (m s).2.cpu.uncached = s.cpu.uncached

variable (B) in
/-- An access of the log that a page cache answers is made as the translator grants and the bus
then does. -/
def Access.Agrees (a : Access σ) : Prop :=
  match a.kind with
  | .fetch =>
    Exec.fetchBlockHit a.cpu.cache a.va a.priv = true →
      AnswersAs B a.va .fetch a.priv
        (fun b pa =>
          let (insn, b) := B.readN (if a.cpu.getFlag armCpsrT then .w16 else .w32) b pa
          (some insn, b))
        (Exec.fetchInsn B a.va) a.state
  | .load w =>
    ∀ va, Exec.alignedAddress w a.va a.cpu = some va →
      (dreadHit va w.bytes a.priv a.cpu).1.isSome →
        AnswersAs B va .read a.priv (B.readN w) (Exec.memReadAt B w va a.priv) a.state
  | .store w v =>
    ∀ va, Exec.alignedAddress w a.va a.cpu = some va →
      (dwriteHit B.hostRamWrite.isSome va w.bytes a.priv a.cpu).1.isSome →
        AnswersAs B va .write a.priv (fun b pa => ((), B.writeN w b pa v))
          (Exec.memWriteAt B w va v a.priv) a.state

variable (B) in
/-- The address that an access of the log translates. -/
def Access.target (a : Access σ) : Word :=
  match a.kind with
  | .fetch => a.va
  | .load w | .store w _ => (Exec.alignedAddress w a.va a.cpu).getD a.va

section Agreement

theorem not_memCrossesPage {n : Nat} (h : (va &&& armDreadBlkMask).toNat + n ≤ 0x400) :
    memCrossesPage va n = false := by
  have hblk : (va &&& armDreadBlkMask).toNat = va.toNat % 1024 :=
    toNat_and_lowMask va (by decide : 10 ≤ 32)
  have hpage : (va &&& armPageMask).toNat = va.toNat % 4096 :=
    toNat_and_lowMask va (by decide : 12 ≤ 32)
  have hmask : armPageMask.toNat = 4095 := by decide
  rw [memCrossesPage, hpage, hmask, decide_eq_false_iff_not]
  rw [hblk] at h
  omega

theorem moveOffset_parts (va pa : Word) :
    moveOffset va pa &&& ~~~armDreadBlkMask = pa &&& ~~~armDreadBlkMask ∧
      moveOffset va pa &&& armDreadBlkMask = va &&& armDreadBlkMask :=
  ⟨merge_and_not .., merge_and ..⟩

/-- The host's load of a hit is the load of the bus at the address that the translator gives. -/
theorem Hits.read {s : Sys σ} (h : PageCoherent B s) {host : Nat}
    (hhits : Hits B B.hostRam acc va priv s host)
    (hsteady : TablesSteady B s.cpu.cp15 va s.era s.bus) (hgrants : GrantsRemain B s.era s.bus)
    {w : MemWidth} (hoff : (va &&& armDreadBlkMask).toNat + w.bytes ≤ 0x400) :
    (Exec.armMmuTranslate B va acc priv 0 s).1.1 = 0 ∧
      B.readN w s.bus (Exec.armMmuTranslate B va acc priv 0 s).1.2 =
        (B.peekN s.bus (host + (va &&& armDreadBlkMask).toNat) w.bytes, s.bus) := by
  obtain ⟨pa, b, hb, htrans, hgrant⟩ := hhits.translate h hsteady
  obtain ⟨hbase, hoffset⟩ := moveOffset_parts va pa
  rw [htrans]
  refine ⟨rfl, ?_⟩
  rw [hgrants.read b hb pa host hgrant w (moveOffset va pa) hbase (hoffset ▸ hoff), hoffset]

/-- The host's store of a hit is the store of the bus. -/
theorem Hits.write {s : Sys σ} (h : PageCoherent B s) {host : Nat}
    (hhits : Hits B B.hostRamWrite .write va priv s host)
    (hsteady : TablesSteady B s.cpu.cp15 va s.era s.bus) (hgrants : GrantsRemain B s.era s.bus)
    {w : MemWidth} (v : Word) (hoff : (va &&& armDreadBlkMask).toNat + w.bytes ≤ 0x400) :
    (Exec.armMmuTranslate B va .write priv 0 s).1.1 = 0 ∧
      B.writeN w s.bus (Exec.armMmuTranslate B va .write priv 0 s).1.2 v =
        B.pokeN s.bus (host + (va &&& armDreadBlkMask).toNat) v w.bytes := by
  obtain ⟨pa, b, hb, htrans, hgrant⟩ := hhits.translate h hsteady
  obtain ⟨hbase, hoffset⟩ := moveOffset_parts va pa
  rw [htrans]
  refine ⟨rfl, ?_⟩
  rw [hgrants.write b hb pa host hgrant w (moveOffset va pa) v hbase (hoffset ▸ hoff), hoffset]

variable {s : Sys σ} (h : PageCoherent B s)

include h

/-- A load that the read cache answers. -/
theorem answersAs_memReadAt {w : MemWidth} (hhit : (dreadHit va w.bytes priv s.cpu).1.isSome)
    (hsteady : TablesSteady B s.cpu.cp15 va s.era s.bus) (hgrants : GrantsRemain B s.era s.bus) :
    AnswersAs B va .read priv (B.readN w) (Exec.memReadAt B w va priv) s := by
  obtain ⟨dh, hdh⟩ := Option.isSome_iff_exists.mp hhit
  obtain ⟨hoff, host, rfl, hhits⟩ := dreadHit_hits h hdh
  obtain ⟨hgranted, hread⟩ := hhits.read h hsteady hgrants hoff
  have hrun : Exec.memReadAt B w va priv s =
      (B.peekN s.bus (host + (va &&& armDreadBlkMask).toNat) w.bytes,
        { s with cpu := (dreadHit va w.bytes priv s.cpu).2 }) := by
    rw [Exec.memReadAt, not_memCrossesPage hoff]
    simp only [Bool.false_eq_true, if_false, Exec.run_onCpu, hdh]
  have hcore : (dreadHit va w.bytes priv s.cpu).2.uncached = s.cpu.uncached := by
    simp only [dreadHit]
    split <;> rfl
  refine ⟨hgranted, ?_, ?_, ?_⟩
  · rw [hrun, hread]
  · rw [hrun, hread]
  · rw [hrun]
    exact hcore

/-- A store that the write cache answers. -/
theorem answersAs_memWriteAt {w : MemWidth} {va v : Word}
    (hhit : (dwriteHit B.hostRamWrite.isSome va w.bytes priv s.cpu).1.isSome)
    (hsteady : TablesSteady B s.cpu.cp15 va s.era s.bus) (hgrants : GrantsRemain B s.era s.bus) :
    AnswersAs B va .write priv (fun b pa => ((), B.writeN w b pa v))
      (Exec.memWriteAt B w va v priv) s := by
  obtain ⟨dw, hdw⟩ := Option.isSome_iff_exists.mp hhit
  obtain ⟨hoff, host, rfl, hhits⟩ := dwriteHit_hits h hdw
  obtain ⟨hgranted, hwrite⟩ := hhits.write h hsteady hgrants v hoff
  have hrun : (Exec.memWriteAt B w va v priv s).2.bus =
        B.pokeN s.bus (host + (va &&& armDreadBlkMask).toNat) v w.bytes ∧
      (Exec.memWriteAt B w va v priv s).2.cpu =
        (dwriteHit B.hostRamWrite.isSome va w.bytes priv s.cpu).2 := by
    rw [Exec.memWriteAt, not_memCrossesPage hoff]
    simp only [Bool.false_eq_true, if_false, Exec.run_onCpu, hdw]
    exact ⟨rfl, rfl⟩
  have hcore : (dwriteHit B.hostRamWrite.isSome va w.bytes priv s.cpu).2.uncached =
      s.cpu.uncached := by
    simp only [dwriteHit]
    split_ifs <;> rfl
  refine ⟨hgranted, rfl, ?_, ?_⟩
  · rw [hrun.1, hwrite]
  · rw [hrun.2]
    exact hcore

omit h in
theorem resolveFetch_hit {pc : Word} {host : Nat} (hhost : s.cpu.cache.fetchHost = some host)
    (hhit : Exec.fetchBlockHit s.cpu.cache pc (cpuIsPriv s.cpu) = true) :
    Exec.resolveFetch B pc s =
      (some (.host (host + (pc &&& armDreadBlkMask).toNat)),
        (Exec.logAccess .fetch pc (cpuIsPriv s.cpu) s).2) := by
  rw [Exec.resolveFetch, Exec.run_getCpu, run_bind, run_ite, if_pos hhit, hhost]
  rfl

/-- A fetch that the fetch block answers. -/
theorem answersAs_fetchInsn {pc : Word} (hpc : Fetchable s.cpu pc)
    (hhit : Exec.fetchBlockHit s.cpu.cache pc (cpuIsPriv s.cpu) = true)
    (hsteady : TablesSteady B s.cpu.cp15 pc s.era s.bus) (hgrants : GrantsRemain B s.era s.bus) :
    AnswersAs B pc .fetch (cpuIsPriv s.cpu)
      (fun b pa =>
        let (insn, b) := B.readN (if s.cpu.getFlag armCpsrT then .w16 else .w32) b pa
        (some insn, b))
      (Exec.fetchInsn B pc) s := by
  obtain ⟨host, hhost, hhits⟩ := fetchBlockHit_hits h hhit
  have hoff : (pc &&& armDreadBlkMask).toNat +
      (if s.cpu.getFlag armCpsrT then MemWidth.w16 else .w32).bytes ≤ 0x400 := by
    have hblk : (pc &&& armDreadBlkMask).toNat = pc.toNat % 1024 :=
      toNat_and_lowMask pc (by decide : 10 ≤ 32)
    rw [hblk]
    obtain hword | ⟨heven, hthumb⟩ := hpc
    · rw [Exec.aligned_iff] at hword
      split <;> simp only [MemWidth.bytes] <;> omega
    · rw [Exec.even_iff] at heven
      rw [if_pos hthumb]
      simp only [MemWidth.bytes]
      omega
  obtain ⟨hgranted, hread⟩ := hhits.read h hsteady hgrants hoff
  have hbytes : (if s.cpu.getFlag armCpsrT = true then MemWidth.w16 else .w32).bytes =
      if s.cpu.getFlag armCpsrT = true then 2 else 4 := by
    split <;> rfl
  have hrun : (Exec.fetchInsn B pc s).1 =
        some (B.peekN s.bus (host + (pc &&& armDreadBlkMask).toNat)
          (if s.cpu.getFlag armCpsrT = true then 2 else 4)) ∧
      (Exec.fetchInsn B pc s).2.bus = s.bus ∧ (Exec.fetchInsn B pc s).2.cpu = s.cpu := by
    rw [Exec.fetchInsn, run_bind, resolveFetch_hit hhost hhit]
    exact ⟨rfl, rfl, rfl⟩
  refine ⟨hgranted, ?_, ?_, ?_⟩
  · dsimp only
    rw [hrun.1, hread, hbytes]
  · dsimp only
    rw [hrun.2.1, hread]
  · rw [hrun.2.2]

end Agreement

/-! ### Every access of every run -/

/-- The page caches are blank. -/
structure TransCache.Blank (t : TransCache) : Prop where
  tlb : t.tlb = fun _ => {}
  dread : t.dread = fun _ => {}
  dwrite : t.dwrite = fun _ => {}
  fetch : t.fetchHost = none

theorem stepping_blank {c : ArmCpu} (hblank : c.cache.Blank) (hpc : Fetchable c (c.r 15)) (b : σ) :
    Exec.Stepping B { cpu := c, bus := b } := by
  have hcoherent : PageCoherent B { cpu := c, bus := b } :=
    pageCoherent_blank hblank.tlb hblank.dread hblank.dwrite hblank.fetch
      (List.mem_singleton.mpr rfl)
  exact ⟨⟨hcoherent, fun a ha => absurd ha List.not_mem_nil,
    fun a ha => absurd ha List.not_mem_nil⟩, hpc⟩

/-- An access of a coherent state agrees. -/
theorem Access.agrees {a : Access σ} (h : PageCoherent B a.state)
    (hfetch : a.kind = .fetch → a.priv = cpuIsPriv a.cpu ∧ Fetchable a.cpu a.va)
    (hsteady : TablesSteady B a.cpu.cp15 a.target a.era a.bus)
    (hgrants : GrantsRemain B a.era a.bus) : a.Agrees B := by
  rw [Access.Agrees]
  split
  case h_1 hkind =>
    obtain ⟨hpriv, hpc⟩ := hfetch hkind
    rw [Access.target, hkind] at hsteady
    rw [hpriv]
    exact fun hhit => answersAs_fetchInsn h hpc hhit hsteady hgrants
  case h_2 w hkind =>
    intro va hva hhit
    rw [Access.target, hkind] at hsteady
    dsimp only at hsteady
    rw [hva] at hsteady
    exact answersAs_memReadAt h hhit hsteady hgrants
  case h_3 w v hkind =>
    intro va hva hhit
    rw [Access.target, hkind] at hsteady
    dsimp only at hsteady
    rw [hva] at hsteady
    exact answersAs_memWriteAt h hhit hsteady hgrants

/-- In every run from blank caches and an address to fetch from, an access that a page cache
answers, over tables that hold what they held since the last flush and grants that remain, gets the
value, writes the bytes and meets the fault of the translation under the present registers and
privilege followed by the bus access. Supervisor calls that the platform handles are part of the run,
with the translations and the flushes that the hook makes on the live core. -/
theorem coreRun_agrees (hhook : Exec.SvcHookSteps B) (fpu : HostFpu) {c : ArmCpu}
    (hblank : c.cache.Blank) (hpc : Fetchable c (c.r 15)) (b : σ) (ops : List (CoreOp σ)) :
    ∀ a ∈ (coreRun B fpu ops { cpu := c, bus := b }).log,
      TablesSteady B a.cpu.cp15 a.target a.era a.bus → GrantsRemain B a.era a.bus →
        a.Agrees B := by
  have hstart := stepping_blank (B := B) hblank hpc b
  obtain ⟨htraced, -⟩ := coreRun_stepping hhook fpu ops hstart
  intro a ha hsteady hgrants
  exact Access.agrees (htraced.log a ha) (htraced.aligned a ha) hsteady hgrants

/-- A memory whose every word is a supervisor call, all of it granted to the host. -/
def svcRam : ArmBus Unit where
  read32 _ _ := (0xefefefef, ())
  read16 _ _ := (0xefef, ())
  read8 _ _ := (0xef, ())
  write32 _ _ _ := ()
  write16 _ _ _ := ()
  write8 _ _ _ := ()
  hostRam := some fun _ pa _ => some pa.toNat
  peek _ _ := 0xef

/-- A platform that translates an address on the core as it handles a supervisor call. -/
def translatingBus : ArmBus Unit :=
  { svcRam with
    privilegedSvcHandler := some fun b c _ _ =>
      (.handled, (Exec.armMmuTranslate svcRam 0x1000 .read true 0 { cpu := c, bus := b }).2.cpu, b)
    svcEra := fun b _ _ _ era => b :: era }

theorem translatingBus_translate (s : Sys Unit) :
    (Exec.armMmuTranslate svcRam 0x1000 .read true 0 { cpu := s.cpu, bus := s.bus }).2.cpu =
      (Exec.armMmuTranslate translatingBus 0x1000 .read true 0 s).2.cpu := by
  have hready : (Exec.tlbReady { cpu := s.cpu, bus := s.bus }).cpu = (Exec.tlbReady s).cpu := by
    simp only [Exec.tlbReady]
    split_ifs <;> rfl
  by_cases hM : s.cpu.cp15.sctlr &&& armSctlrM = 0
  · have hoff := Exec.armMmuTranslate_off (B := svcRam) 0x1000 .read true 0
      { cpu := s.cpu, bus := s.bus } hM
    rw [hoff, Exec.armMmuTranslate_off _ _ _ _ _ hM]
  · have hon := Exec.armMmuTranslate_on (B := translatingBus) 0x1000 .read true 0 s hM
    have hon' := Exec.armMmuTranslate_on (B := svcRam) 0x1000 .read true 0
      { cpu := s.cpu, bus := s.bus } hM
    rw [hready] at hon'
    obtain ⟨hhit, hrun⟩ | ⟨hmiss, hrun⟩ := hon
    · obtain ⟨-, hrun'⟩ | ⟨hmiss, -⟩ := hon'
      · rw [hrun, hrun']
      · exact absurd hhit hmiss
    · obtain ⟨hhit, -⟩ | ⟨-, hrun'⟩ := hon'
      · exact absurd hhit hmiss
      · rw [hrun, hrun', Exec.tlbMissed, Exec.tlbMissed, hready]
        rfl

/-- It keeps the contract. -/
theorem translatingBus_steps : Exec.SvcHookSteps translatingBus := by
  intro handler hhandler s pc encoding
  cases hhandler
  have hera (era : List Unit) : ∀ b ∈ era, b ∈ translatingBus.svcEra s.bus s.cpu pc encoding s.era :=
    fun b _ => List.mem_cons_self (a := b)
  refine ⟨fun _ => ⟨_, .single (.translate s 0x1000 .read true 0), ?_, rfl, hera _⟩,
    fun _ hthumb => ?_, nofun⟩
  · exact (translatingBus_translate s).symm
  · obtain ⟨hcpu, -⟩ := Exec.cacheOnly_armMmuTranslate svcRam 0x1000 .read true 0
      { cpu := s.cpu, bus := s.bus }
    have hkept := congrArg (ArmCpu.kept true) hcpu
    exact Exec.inThumb_of_kept hkept hthumb

/-- Of two supervisor calls that the platform handles the second one is fetched from the fetch block,
and it agrees. -/
theorem coreRun_agrees_zeros :
    ((coreRun translatingBus Exec.zeroFpu [.step, .step]
      { cpu := { cpsr := armModeSvc }, bus := () }).log.head?.map fun a =>
        (Exec.fetchBlockHit a.cpu.cache a.va a.priv, a.va)) = some (true, 4) ∧
    ∀ a ∈ (coreRun translatingBus Exec.zeroFpu [.step, .step]
      { cpu := { cpsr := armModeSvc }, bus := () }).log, a.Agrees translatingBus := by
  constructor
  · rfl
  intro a ha
  refine coreRun_agrees (B := translatingBus) translatingBus_steps Exec.zeroFpu
    ⟨rfl, rfl, rfl, rfl⟩ (.inl (by decide)) () [.step, .step] a ha
    (fun _ _ => ⟨rfl, fun _ => rfl⟩) ⟨?_, ?_⟩
  · intro _ _ pa host _ w va _ _
    cases w with
    | w8 | w16 | w32 =>
      simp only [ArmBus.readN, MemWidth.bytes, ArmBus.peekN, translatingBus, svcRam]
      rfl
  · intro _ _ pa host _ w va v _ _
    rfl

end S5LBox
