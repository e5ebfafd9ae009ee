import S5LBox.Arm.Transparency
import S5LBox.Arm.Step

/-!
# The page caches

Three caches hold host addresses of 1 KB blocks: one block of fetched code, and tables of blocks for
loads and for stores. A lookup compares the block, the privilege and the generation, and none of the
translation registers. What makes a hit sound is an invariant: a live block is granted for the
physical block to which the present registers, over descriptors of the era, map its address. A
translation that finds other registers than those of the stamp flushes, and every write to a
translation register flushes, so that no block outlives the registers it was resolved under.

## Main definitions

* `Translates`: the registers and the descriptors of the era map an address.
* `Granted`: the bus grants a host address for the block to which an address maps.
* `PageCoherent`: the invariant of the page caches, on top of that of the translation cache.

## Main results

* `armMmuTranslate_pageCoherent`: a translation keeps the invariant, and what it answers is mapped.
-/

namespace S5LBox

open Blocks GenTable StateProgram

variable {σ : Type} (B : ArmBus σ)

/-! ### What a block means -/

/-- The registers of the stamp and the descriptors of the era map `va` to `pa`. -/
def Translates (stamp : TlbStamp) (era : List σ) (va : Word) (acc : ArmAccess) (priv : Bool)
    (pa : Word) : Prop :=
  ∃ p : Cp15, p.stamp = stamp ∧
    ((p.sctlr &&& armSctlrM = 0 ∧ pa = va) ∨
      p.sctlr &&& armSctlrM ≠ 0 ∧ ∃ b₁ ∈ era, ∃ b₂ ∈ era,
        let l1 := (B.read32 b₁ (mmuL1Addr p va)).1
        mmuVerdict p va acc priv l1 (B.read32 b₂ (mmuL2Addr l1 va)).1 = .mapped pa)

/-- In a state of the era the bus has granted a host address for the physical block to which `va`
maps. -/
def Granted (grant : Option (σ → Word → Nat → Option Nat)) (stamp : TlbStamp) (era : List σ)
    (va : Word) (acc : ArmAccess) (priv : Bool) (host : Nat) : Prop :=
  ∃ pa, ∃ b ∈ era, Translates B stamp era va acc priv pa ∧ Exec.grantOf grant pa b = some host

/-- A block of a data cache is granted. -/
def BlockGranted (grant : Option (σ → Word → Nat → Option Nat)) (acc : ArmAccess)
    (stamp : TlbStamp) (era : List σ) (e : BlockEntry) : Prop :=
  ∀ host, e.host = some host →
    ∃ va priv, e.tag = dreadTag va priv ∧ Granted B grant stamp era va acc priv host

/-- The block of fetched code is granted. -/
def FetchGranted (stamp : TlbStamp) (era : List σ) (t : TransCache) : Prop :=
  ∀ host, t.fetchHost = some host →
    ∃ va, t.fetchBlk = va &&& ~~~0x3ff ∧
      Granted B B.hostRam stamp era va .fetch t.fetchPriv host

/-- The invariant of the page caches: no block is ahead of the generation, and every live block
is granted under the present registers. -/
structure PageCoherent (s : Sys σ) : Prop where
  tlb : TlbCoherent B s
  dreadBounded : Bounded BlockEntry.gen s.cpu.cache.dread s.cpu.cache.tlbGen
  dwriteBounded : Bounded BlockEntry.gen s.cpu.cache.dwrite s.cpu.cache.tlbGen
  fetchBounded : s.cpu.cache.fetchHost ≠ none → s.cpu.cache.fetchGen ≤ s.cpu.cache.tlbGen
  dread : Sound BlockEntry.gen s.cpu.cache.dread s.cpu.cache.tlbGen
    (BlockGranted B B.hostRam .read s.cpu.cp15.stamp s.era)
  dwrite : Sound BlockEntry.gen s.cpu.cache.dwrite s.cpu.cache.tlbGen
    (BlockGranted B B.hostRamWrite .write s.cpu.cp15.stamp s.era)
  fetch : s.cpu.cache.fetchGen = s.cpu.cache.tlbGen →
    FetchGranted B s.cpu.cp15.stamp s.era s.cpu.cache

variable {B}

/-! ### Monotonicity -/

variable {priv : Bool}

section Mono

variable {stamp : TlbStamp} {era era' : List σ} (hera : ∀ b ∈ era, b ∈ era')

include hera

theorem Translates.mono {va : Word} {acc : ArmAccess} {pa : Word}
    (h : Translates B stamp era va acc priv pa) : Translates B stamp era' va acc priv pa := by
  obtain ⟨p, hp, hoff | ⟨hM, b₁, h₁, b₂, h₂, hverdict⟩⟩ := h
  · exact ⟨p, hp, .inl hoff⟩
  · exact ⟨p, hp, .inr ⟨hM, b₁, hera b₁ h₁, b₂, hera b₂ h₂, hverdict⟩⟩

theorem Granted.mono {grant : Option (σ → Word → Nat → Option Nat)} {va : Word} {acc : ArmAccess}
    {host : Nat} (h : Granted B grant stamp era va acc priv host) :
    Granted B grant stamp era' va acc priv host := by
  obtain ⟨pa, b, hb, htrans, hgrant⟩ := h
  exact ⟨pa, b, hera b hb, htrans.mono hera, hgrant⟩

theorem BlockGranted.mono {grant : Option (σ → Word → Nat → Option Nat)} {acc : ArmAccess}
    {e : BlockEntry} (h : BlockGranted B grant acc stamp era e) :
    BlockGranted B grant acc stamp era' e := by
  intro host hhost
  obtain ⟨va, priv, htag, hgranted⟩ := h host hhost
  exact ⟨va, priv, htag, hgranted.mono hera⟩

theorem FetchGranted.mono {t : TransCache} (h : FetchGranted B stamp era t) :
    FetchGranted B stamp era' t := by
  intro host hhost
  obtain ⟨va, hblk, hgranted⟩ := h host hhost
  exact ⟨va, hblk, hgranted.mono hera⟩

end Mono

variable {s : Sys σ}

/-- A later bus state joins the era. -/
theorem PageCoherent.later (h : PageCoherent B s) {b : σ} {era : List σ}
    (hera : ∀ b' ∈ s.era, b' ∈ era) (hb : b ∈ era) :
    PageCoherent B { s with bus := b, era := era } where
  tlb := ⟨h.tlb.bounded, fun hne => (h.tlb.sound hne).mono fun _ he => he.mono hera, hb⟩
  dreadBounded := h.dreadBounded
  dwriteBounded := h.dwriteBounded
  fetchBounded := h.fetchBounded
  dread := h.dread.mono fun _ he => he.mono hera
  dwrite := h.dwrite.mono fun _ he => he.mono hera
  fetch hgen := (h.fetch hgen).mono hera

/-- A change of the core that leaves the caches and the translation registers alone. -/
theorem PageCoherent.modify (h : PageCoherent B s) {c : ArmCpu} (hcache : c.cache = s.cpu.cache)
    (hstamp : c.cp15.stamp = s.cpu.cp15.stamp) :
    PageCoherent B { s with cpu := c } := by
  have htlb : TlbCoherent B { s with cpu := c } :=
    ⟨hcache ▸ h.tlb.bounded, hcache ▸ h.tlb.sound, h.tlb.present⟩
  refine ⟨htlb, ?_, ?_, ?_, ?_, ?_, ?_⟩
  all_goals dsimp only
  all_goals try rw [hcache]
  · exact h.dreadBounded
  · exact h.dwriteBounded
  · exact h.fetchBounded
  · exact hstamp ▸ h.dread
  · exact hstamp ▸ h.dwrite
  · exact hstamp ▸ h.fetch

/-! ### Emptied caches -/

/-- A flush leaves no live block. -/
theorem PageCoherent.flush (hd : Bounded BlockEntry.gen s.cpu.cache.dread s.cpu.cache.tlbGen)
    (hw : Bounded BlockEntry.gen s.cpu.cache.dwrite s.cpu.cache.tlbGen) :
    let t := s.cpu.cache.flush
    Bounded BlockEntry.gen t.dread t.tlbGen ∧ Bounded BlockEntry.gen t.dwrite t.tlbGen ∧
      t.fetchHost = none ∧ (∀ P, Sound BlockEntry.gen t.dread t.tlbGen P) ∧
        ∀ P, Sound BlockEntry.gen t.dwrite t.tlbGen P := by
  have hne : (0 : Word) ≠ 1 := by decide
  simp only [TransCache.flush]
  split_ifs with hwrap
  · exact ⟨Bounded.wiped rfl, Bounded.wiped rfl, rfl, fun P => Sound.wiped hne,
      fun P => Sound.wiped hne⟩
  · have hlt := lt_next hwrap
    exact ⟨hd.mono (BitVec.le_of_lt hlt), hw.mono (BitVec.le_of_lt hlt), rfl,
      fun P => hd.sound_next hlt, fun P => hw.sound_next hlt⟩

/-- From a state with a coherent translation cache and no live block on, the invariant holds
whatever the registers. -/
theorem pageCoherent_of_empty (htlb : TlbCoherent B s)
    (hd : Bounded BlockEntry.gen s.cpu.cache.dread s.cpu.cache.tlbGen)
    (hw : Bounded BlockEntry.gen s.cpu.cache.dwrite s.cpu.cache.tlbGen)
    (hf : s.cpu.cache.fetchHost = none)
    (hdread : ∀ P, Sound BlockEntry.gen s.cpu.cache.dread s.cpu.cache.tlbGen P)
    (hdwrite : ∀ P, Sound BlockEntry.gen s.cpu.cache.dwrite s.cpu.cache.tlbGen P) :
    PageCoherent B s where
  tlb := htlb
  dreadBounded := hd
  dwriteBounded := hw
  fetchBounded h := absurd hf h
  dread := hdread _
  dwrite := hdwrite _
  fetch _ _ hhost := absurd (hf.symm.trans hhost) nofun

/-- A core whose caches are blank is coherent. -/
theorem pageCoherent_blank (htlb : s.cpu.cache.tlb = fun _ => {})
    (hd : s.cpu.cache.dread = fun _ => {}) (hw : s.cpu.cache.dwrite = fun _ => {})
    (hf : s.cpu.cache.fetchHost = none) (hpresent : s.bus ∈ s.era) : PageCoherent B s where
  tlb := ⟨htlb ▸ Bounded.wiped rfl, fun hne => htlb ▸ Sound.wiped hne.symm, hpresent⟩
  dreadBounded := hd ▸ Bounded.wiped rfl
  dwriteBounded := hw ▸ Bounded.wiped rfl
  fetchBounded h := absurd hf h
  dread := hd ▸ fun _ _ => nofun
  dwrite := hw ▸ fun _ _ => nofun
  fetch _ _ hhost := absurd (hf.symm.trans hhost) nofun

/-- A flush restores the invariant under any registers. -/
theorem PageCoherent.flushed (h : PageCoherent B s) (p : Cp15) :
    PageCoherent B (Exec.armMmuTlbFlush { s with cpu := { s.cpu with cp15 := p } }).2 := by
  obtain ⟨hd, hw, hf, hdread, hdwrite⟩ := PageCoherent.flush h.dreadBounded h.dwriteBounded
  obtain ⟨-, hbounded, hsound⟩ := flush_sound h.tlb.bounded
    (Explained B s.cpu.cache.flush.tlbStamp [s.bus])
  exact pageCoherent_of_empty ⟨hbounded, fun _ => hsound, List.mem_singleton.mpr rfl⟩ hd hw hf
    hdread hdwrite

/-! ### Translations -/

open Exec

/-- Initialising the generation leaves no live block. -/
theorem PageCoherent.initGeneration (h : PageCoherent B s) :
    PageCoherent B { s with cpu := initGeneration s.cpu } := by
  have htlb := h.tlb.initGeneration.1
  by_cases h0 : s.cpu.cache.tlbGen = 0
  · have hinit : Exec.initGeneration s.cpu =
        { s.cpu with cache := { s.cpu.cache with tlbGen := 1 } } := if_pos h0
    have hlt : (0 : Word) < 1 := by decide
    have hd : Bounded BlockEntry.gen s.cpu.cache.dread 0 := h0 ▸ h.dreadBounded
    have hw : Bounded BlockEntry.gen s.cpu.cache.dwrite 0 := h0 ▸ h.dwriteBounded
    have hf : s.cpu.cache.fetchHost ≠ none → s.cpu.cache.fetchGen ≤ 0 := h0 ▸ h.fetchBounded
    rw [hinit] at htlb ⊢
    refine ⟨htlb, hd.mono (BitVec.le_of_lt hlt), hw.mono (BitVec.le_of_lt hlt), fun hhost => ?_,
      hd.sound_next hlt, hw.sound_next hlt, fun hgen host hhost => ?_⟩
    · exact BitVec.le_trans (hf hhost) (BitVec.le_of_lt hlt)
    · have hle := hf (by rw [hhost]; exact nofun)
      have hone : s.cpu.cache.fetchGen = 1 := hgen
      rw [hone] at hle
      exact absurd hle (by decide)
  · have hinit : Exec.initGeneration s.cpu = s.cpu := if_neg h0
    rw [hinit]
    exact h

/-- The state in which a translation looks its entry up. -/
theorem PageCoherent.ready (h : PageCoherent B s) : PageCoherent B (tlbReady s) := by
  obtain ⟨htlb, -, -, -⟩ := h.tlb.ready
  have hinit := h.initGeneration
  by_cases hstamp : mmuStampMatches s.cpu = true
  · have hready : tlbReady s = { s with cpu := Exec.initGeneration s.cpu } := if_pos hstamp
    rw [hready]
    exact hinit
  · have hready : tlbReady s = _ := if_neg hstamp
    obtain ⟨hd, hw, hf, hdread, hdwrite⟩ :=
      PageCoherent.flush hinit.dreadBounded hinit.dwriteBounded
    rw [hready] at htlb ⊢
    exact pageCoherent_of_empty htlb hd hw hf hdread hdwrite

/-- Filling an entry of the translation cache leaves the blocks as they are. -/
theorem PageCoherent.retable {s : Sys σ} (h : PageCoherent B s) {t : TransCache} {b : σ}
    {era : List σ} (htlb : TlbCoherent B { s with cpu := { s.cpu with cache := t }, bus := b, era })
    (hera : ∀ b' ∈ s.era, b' ∈ era) (hgen : t.tlbGen = s.cpu.cache.tlbGen)
    (hd : t.dread = s.cpu.cache.dread) (hw : t.dwrite = s.cpu.cache.dwrite)
    (hf : t.fetchHost = s.cpu.cache.fetchHost ∧ t.fetchBlk = s.cpu.cache.fetchBlk ∧
      t.fetchGen = s.cpu.cache.fetchGen ∧ t.fetchPriv = s.cpu.cache.fetchPriv) :
    PageCoherent B { s with cpu := { s.cpu with cache := t }, bus := b, era } := by
  obtain ⟨hhost, hblk, hfgen, hpriv⟩ := hf
  refine ⟨htlb, ?_, ?_, ?_, ?_, ?_, ?_⟩
  all_goals dsimp only
  all_goals rw [hgen]
  · exact hd ▸ h.dreadBounded
  · exact hw ▸ h.dwriteBounded
  · rw [hhost, hfgen]
    exact h.fetchBounded
  · rw [hd]
    exact h.dread.mono fun _ he => he.mono hera
  · rw [hw]
    exact h.dwrite.mono fun _ he => he.mono hera
  · rw [hfgen]
    intro hlive host hgranted
    rw [hhost] at hgranted
    obtain ⟨va, hva, hgr⟩ := h.fetch hlive host hgranted
    have hpriv' : Granted B B.hostRam s.cpu.cp15.stamp s.era va .fetch t.fetchPriv host := hpriv ▸ hgr
    exact ⟨va, hblk.trans hva, hpriv'.mono hera⟩

theorem WalkResult.eq_mapped {r : WalkResult} (hr : r.Final) {pa : Word}
    (h : (r.out pa).1 = 0) : r = .mapped (r.out pa).2 := by
  cases r with
  | fault fsr => exact absurd h hr
  | mapped pa' => rfl
  | coarse domain => exact hr.elim

/-- What a live entry of the translation cache answers is mapped. -/
theorem Explained.translates {stamp : TlbStamp} {era : List σ} {e : TlbEntry}
    (he : Explained B stamp era e) (hM : stamp.sctlr &&& armSctlrM ≠ 0) {va : Word}
    {acc : ArmAccess} (htag : e.tag = mmuTlbTag va acc priv) (hfsr : e.fsr = 0) :
    Translates B stamp era va acc priv (e.pa ||| (va &&& 0x3ff)) := by
  obtain ⟨p, va', acc', priv', b₁, h₁, b₂, h₂, hstamp, htag', hrec⟩ := he
  obtain ⟨hblock, rfl, rfl⟩ := mmuTlbTag_injective (htag'.symm.trans htag)
  have hMp : p.sctlr &&& armSctlrM ≠ 0 := by
    rw [← hstamp] at hM
    exact hM
  refine ⟨p, hstamp, .inr ⟨hMp, b₁, h₁, b₂, h₂, ?_⟩⟩
  simp only [mmuL1Addr_block p hblock, mmuL2Addr_block _ hblock] at hrec
  dsimp only
  rw [mmuVerdict_block p _ _ _ _ hblock.symm]
  have hfinal := mmuVerdict_final p va' acc' priv' (B.read32 b₁ (mmuL1Addr p va)).1
    (B.read32 b₂ (mmuL2Addr (B.read32 b₁ (mmuL1Addr p va)).1 va)).1
  revert hrec hfinal
  cases mmuVerdict p va' acc' priv' (B.read32 b₁ (mmuL1Addr p va)).1
      (B.read32 b₂ (mmuL2Addr (B.read32 b₁ (mmuL1Addr p va)).1 va)).1 with
  | fault fsr => exact fun hrec hfinal => absurd (hrec.symm.trans hfsr) hfinal
  | mapped pa =>
    intro hrec _
    rw [WalkResult.moveTo, moveOffset, hrec.2]
  | coarse domain => exact fun hrec _ => hrec.elim

/-- A translation keeps the page caches coherent, and a translation that succeeds is mapped by the
registers and descriptors of the era. -/
theorem armMmuTranslate_pageCoherent (h : PageCoherent B s) (va : Word) (acc : ArmAccess)
    (priv : Bool) (pa : Word) :
    let r := armMmuTranslate B va acc priv pa s
    PageCoherent B r.2 ∧ r.2.cpu.cp15 = s.cpu.cp15 ∧
      (r.1.1 = 0 → Translates B s.cpu.cp15.stamp r.2.era va acc priv r.1.2) := by
  intro r
  have hr : r = armMmuTranslate B va acc priv pa s := rfl
  by_cases hM : s.cpu.cp15.sctlr &&& armSctlrM = 0
  · rw [hr, armMmuTranslate_off va acc priv pa s hM]
    exact ⟨h, rfl, fun _ => ⟨s.cpu.cp15, rfl, .inl ⟨hM, rfl⟩⟩⟩
  · have hready := h.ready
    obtain ⟨-, hne, hstamp, -⟩ := h.tlb.ready
    obtain ⟨hhit, hrun⟩ | ⟨-, hrun⟩ := armMmuTranslate_on (B := B) va acc priv pa s hM
    · rw [hr, hrun]
      refine ⟨hready.retable ⟨hready.tlb.bounded, hready.tlb.sound, hready.tlb.present⟩
        (fun _ => id) rfl rfl rfl ⟨rfl, rfl, rfl, rfl⟩, tlbReady_cp15 s, fun hfsr => ?_⟩
      have hexp := hready.tlb.sound hne (mmuTlbSlot va acc) hhit.1
      rw [hstamp] at hexp
      have hfsr' : ((tlbReady s).cpu.cache.tlb (mmuTlbSlot va acc)).fsr = 0 := hfsr
      simp only [if_pos hfsr']
      exact hexp.translates hM hhit.2 hfsr'
    · rw [← tlbReady_cp15 s] at hM hstamp
      have hmissed : TlbCoherent B (tlbMissed B va acc priv
          (mmuWalk B (tlbReady s).cpu.cp15 va acc priv pa (tlbReady s).bus) (tlbReady s)) :=
        hready.tlb.missed hM hstamp
      rw [tlbReady_cp15, tlbReady_bus] at hmissed
      obtain ⟨-, hera⟩ := missBus_spec (B := B) va acc priv _ _
        (mmuWalk_bus_mem s.cpu.cp15 va acc priv pa (tlbReady_bus s ▸ hready.tlb.present))
      rw [tlbReady_cp15] at hM
      obtain ⟨b₂, hb₂, hverdict⟩ := mmuWalk_verdict_mem (B := B) s.cpu.cp15 va acc priv pa
        (tlbReady_bus s ▸ hready.tlb.present) hM
      rw [hr, hrun]
      refine ⟨hready.retable hmissed (fun b hb => hera b (List.mem_append_right _ hb)) rfl rfl rfl
        ⟨rfl, rfl, rfl, rfl⟩, tlbReady_cp15 s, fun hfsr => ?_⟩
      refine ⟨s.cpu.cp15, rfl, .inr ⟨hM, s.bus, hera _ (List.mem_append_right _
        (tlbReady_bus s ▸ hready.tlb.present)), b₂, hera _ hb₂, ?_⟩⟩
      have hv := hverdict ▸ hfsr
      dsimp only
      rw [hverdict]
      exact WalkResult.eq_mapped (mmuVerdict_final ..) hv

/-! ### The trace -/

/-- An address that an instruction may be fetched from: aligned to the instruction set, or to a
word in either of them. -/
def Fetchable (c : ArmCpu) (pc : Word) : Prop :=
  pc &&& 3 = 0 ∨ pc &&& 1 = 0 ∧ c.getFlag armCpsrT = true

/-- The state in which an access of the log was made. -/
def Access.state (a : Access σ) : Sys σ := { cpu := a.cpu, bus := a.bus, era := a.era }

variable (B) in
/-- The page caches are coherent, and were so at every access of the log; every fetch of the log
was aligned, and made with the privilege of the mode. -/
structure Traced (s : Sys σ) : Prop where
  now : PageCoherent B s
  log : ∀ a ∈ s.log, PageCoherent B a.state
  aligned : ∀ a ∈ s.log, a.kind = .fetch → a.priv = cpuIsPriv a.cpu ∧ Fetchable a.cpu a.va

/-- The invariant reads the core, the bus and the era. -/
theorem PageCoherent.congr {s s' : Sys σ} (h : PageCoherent B s) (hcpu : s'.cpu = s.cpu)
    (hbus : s'.bus = s.bus) (hera : s'.era = s.era) : PageCoherent B s' := by
  obtain ⟨c, b, era, log, n⟩ := s
  obtain ⟨c', b', era', log', n'⟩ := s'
  cases hcpu
  cases hbus
  cases hera
  exact ⟨⟨h.tlb.bounded, h.tlb.sound, h.tlb.present⟩, h.dreadBounded, h.dwriteBounded,
    h.fetchBounded, h.dread, h.dwrite, h.fetch⟩

namespace Exec

variable {α β : Type}

theorem keeps_modifyCpu {f : ArmCpu → ArmCpu} (hcache : ∀ c, (f c).cache = c.cache)
    (hstamp : ∀ c, (f c).cp15.stamp = c.cp15.stamp) :
    Keeps (Traced B) (modifyCpu f : Exec σ Unit) :=
  fun s h => ⟨h.now.modify (hcache s.cpu) (hstamp s.cpu), h.log, h.aligned⟩

theorem keeps_onCpu {f : ArmCpu → α × ArmCpu} (hcache : ∀ c, (f c).2.cache = c.cache)
    (hstamp : ∀ c, (f c).2.cp15.stamp = c.cp15.stamp) :
    Keeps (Traced B) (onCpu f : Exec σ α) :=
  fun s h => ⟨h.now.modify (hcache s.cpu) (hstamp s.cpu), h.log, h.aligned⟩

theorem keeps_getCpu : Keeps (Traced B) (getCpu : Exec σ ArmCpu) := fun _ h => h

theorem keeps_busCall (f : σ → α × σ) : Keeps (Traced B) (busCall f) := fun _ h =>
  ⟨h.now.later (fun _ => List.mem_cons_of_mem _) List.mem_cons_self, h.log, h.aligned⟩

theorem keeps_guarded {I : Sys σ → Prop} {p : Prop} [Decidable p] {m : Exec σ Unit}
    (h : p → Keeps I m) : Keeps I (guarded p m) := .ite h fun _ => .pure ()

theorem keeps_abortLatched {I : Sys σ → Prop} : Keeps I (abortLatched : Exec σ Bool) :=
  fun _ h => h

/-- A load or a store joins the log. -/
theorem keeps_logAccess (kind : AccessKind) (hkind : kind ≠ .fetch) (va : Word) (priv : Bool) :
    Keeps (Traced B) (logAccess kind va priv : Exec σ Unit) := by
  intro s h
  refine ⟨h.now.congr rfl rfl rfl, fun a ha => ?_, fun a ha hfetch => ?_⟩
  · obtain rfl | ha := List.mem_cons.mp ha
    · exact h.now.congr rfl rfl rfl
    · exact h.log a ha
  · obtain rfl | ha := List.mem_cons.mp ha
    · exact absurd hfetch hkind
    · exact h.aligned a ha hfetch

/-- A fetch joins the log. -/
theorem logAccess_fetch (h : Traced B s) {pc : Word} (hpc : Fetchable s.cpu pc) :
    Traced B (logAccess .fetch pc (cpuIsPriv s.cpu) s).2 := by
  refine ⟨h.now.congr rfl rfl rfl, fun a ha => ?_, fun a ha hfetch => ?_⟩
  · obtain rfl | ha := List.mem_cons.mp ha
    · exact h.now.congr rfl rfl rfl
    · exact h.log a ha
  · obtain rfl | ha := List.mem_cons.mp ha
    · exact ⟨rfl, hpc⟩
    · exact h.aligned a ha hfetch

theorem armMmuTranslate_log (va : Word) (acc : ArmAccess) (priv : Bool) (pa : Word) (s : Sys σ) :
    (armMmuTranslate B va acc priv pa s).2.log = s.log := by
  have hready : (tlbReady s).log = s.log := by
    rw [tlbReady]
    split <;> rfl
  by_cases hM : s.cpu.cp15.sctlr &&& armSctlrM = 0
  · rw [armMmuTranslate_off va acc priv pa s hM]
  · obtain ⟨-, hrun⟩ | ⟨-, hrun⟩ := armMmuTranslate_on (B := B) va acc priv pa s hM
    · rw [hrun]
      exact hready
    · rw [hrun]
      exact hready

/-- A translation keeps the trace. -/
theorem keeps_armMmuTranslate (va : Word) (acc : ArmAccess) (priv : Bool) (pa : Word) :
    Keeps (Traced B) (armMmuTranslate B va acc priv pa) := by
  intro s h
  obtain ⟨hcoherent, -, -⟩ := armMmuTranslate_pageCoherent h.now va acc priv pa
  have hlog := armMmuTranslate_log (B := B) va acc priv pa s
  exact ⟨hcoherent, hlog ▸ h.log, hlog ▸ h.aligned⟩

theorem noteAbort_cache (c : ArmCpu) (fsr va : Word) :
    (noteAbort c fsr va).cache = c.cache ∧ (noteAbort c fsr va).cp15.stamp = c.cp15.stamp := by
  rw [noteAbort]
  split <;> exact ⟨rfl, rfl⟩

theorem keeps_noteAbort (fsr va : Word) :
    Keeps (Traced B) (modifyCpu (noteAbort · fsr va) : Exec σ Unit) :=
  keeps_modifyCpu (fun c => (noteAbort_cache c fsr va).1) fun c => (noteAbort_cache c fsr va).2

variable {va pa : Word}

/-- The block of a successful translation may join the read cache. -/
theorem installDread_traced (h : Traced B s) {blk : Nat}
    (htrans : Translates B s.cpu.cp15.stamp s.era va .read priv pa)
    (hblk : grantOf B.hostRam pa s.bus = some blk) :
    Traced B { s with cpu := installDread va priv blk s.cpu } := by
  refine ⟨⟨⟨h.now.tlb.bounded, h.now.tlb.sound, h.now.tlb.present⟩,
    h.now.dreadBounded.update (BitVec.le_refl _), h.now.dwriteBounded, h.now.fetchBounded,
    h.now.dread.update fun _ host hhost => ?_, h.now.dwrite, h.now.fetch⟩, h.log, h.aligned⟩
  obtain rfl : blk = host := Option.some.inj hhost
  exact ⟨va, priv, rfl, pa, s.bus, h.now.tlb.present, htrans, hblk⟩

/-- The block of a successful translation may join the write cache. -/
theorem installDwrite_traced (h : Traced B s) {blk : Nat}
    (htrans : Translates B s.cpu.cp15.stamp s.era va .write priv pa)
    (hblk : grantOf B.hostRamWrite pa s.bus = some blk) :
    Traced B { s with cpu := installDwrite va priv blk s.cpu } := by
  refine ⟨⟨⟨h.now.tlb.bounded, h.now.tlb.sound, h.now.tlb.present⟩, h.now.dreadBounded,
    h.now.dwriteBounded.update (BitVec.le_refl _), h.now.fetchBounded, h.now.dread,
    h.now.dwrite.update fun _ host hhost => ?_, h.now.fetch⟩, h.log, h.aligned⟩
  obtain rfl : blk = host := Option.some.inj hhost
  exact ⟨va, priv, rfl, pa, s.bus, h.now.tlb.present, htrans, hblk⟩

/-- The block of a successful fetch may become the fetch block. -/
theorem installFetch_traced (h : Traced B s) {blk : Nat}
    (htrans : Translates B s.cpu.cp15.stamp s.era va .fetch priv pa)
    (hblk : grantOf B.hostRam pa s.bus = some blk) :
    Traced B { s with cpu := installFetch va priv blk s.cpu } := by
  refine ⟨⟨⟨h.now.tlb.bounded, h.now.tlb.sound, h.now.tlb.present⟩, h.now.dreadBounded,
    h.now.dwriteBounded, fun _ => BitVec.le_refl _, h.now.dread, h.now.dwrite,
    fun _ host hhost => ?_⟩, h.log, h.aligned⟩
  obtain rfl : blk = host := Option.some.inj hhost
  exact ⟨va, rfl, pa, s.bus, h.now.tlb.present, htrans, hblk⟩

theorem dreadFill_traced (h : Traced B s)
    (htrans : Translates B s.cpu.cp15.stamp s.era va .read priv pa) :
    Traced B (dreadFill B va pa priv s).2 := by
  rw [dreadFill]
  split
  case h_1 blk hblk => exact installDread_traced h htrans hblk
  case h_2 => exact h

theorem dwriteFill_traced (h : Traced B s)
    (htrans : Translates B s.cpu.cp15.stamp s.era va .write priv pa) :
    Traced B (dwriteFill B va pa priv s).2 := by
  rw [dwriteFill]
  split
  case h_1 blk hblk => exact installDwrite_traced h htrans hblk
  case h_2 => exact h

theorem keeps_memReadSlow (w : MemWidth) (va : Word) (priv : Bool) :
    Keeps (Traced B) (memReadSlow B w va priv) := by
  intro s h
  have htraced := keeps_armMmuTranslate (B := B) va .read priv 0 s h
  obtain ⟨-, hcp15, htrans⟩ := armMmuTranslate_pageCoherent h.now va .read priv 0
  rw [← hcp15] at htrans
  rw [memReadSlow, run_bind]
  generalize armMmuTranslate B va .read priv 0 s = r at htraced htrans
  obtain ⟨⟨f, pa⟩, s⟩ := r
  dsimp only at htraced htrans ⊢
  rw [run_ite]
  split
  · exact keeps_noteAbort f va s htraced
  case isFalse hf =>
    have hbus := keeps_busCall (B.readN w · pa) s htraced
    have hera := (htrans (not_ne_iff.mp hf)).mono fun b (hb : b ∈ s.era) =>
      List.mem_cons_of_mem (B.readN w s.bus pa).2 hb
    exact dreadFill_traced hbus hera

theorem keeps_memWriteSlow (w : MemWidth) (va v : Word) (priv : Bool) :
    Keeps (Traced B) (memWriteSlow B w va v priv) := by
  intro s h
  have htraced := keeps_armMmuTranslate (B := B) va .write priv 0 s h
  obtain ⟨-, hcp15, htrans⟩ := armMmuTranslate_pageCoherent h.now va .write priv 0
  rw [← hcp15] at htrans
  rw [memWriteSlow, run_bind]
  generalize armMmuTranslate B va .write priv 0 s = r at htraced htrans
  obtain ⟨⟨f, pa⟩, s⟩ := r
  dsimp only at htraced htrans ⊢
  rw [run_ite]
  split
  · exact keeps_noteAbort f va s htraced
  case isFalse hf =>
    have hbus := keeps_busCall (fun b => ((), B.writeN w b pa v)) s htraced
    have hera := (htrans (not_ne_iff.mp hf)).mono fun b (hb : b ∈ s.era) =>
      List.mem_cons_of_mem (B.writeN w s.bus pa v) hb
    exact dwriteFill_traced hbus hera

theorem keeps_memReadCrossingFrom (va : Word) (priv : Bool) (is : List Nat) (val pagePa : Word) :
    Keeps (Traced B) (memReadCrossingFrom B va priv is val pagePa) := by
  induction is generalizing val pagePa with
  | nil => exact .pure _
  | cons i is ih =>
    have htail : ∀ r : Word × Word, Keeps (Traced B) (do
        if r.1 ≠ 0 then
          modifyCpu (noteAbort · r.1 (va + BitVec.ofNat 32 i))
          return 0
        let byte ← busCall (B.readN .w8 · ((r.2 &&& ~~~armPageMask) |||
          ((va + BitVec.ofNat 32 i) &&& armPageMask)))
        memReadCrossingFrom B va priv is (val ||| (byte <<< (8 * i))) (r.2 &&& ~~~armPageMask) :
          Exec σ Word) := by
      intro r
      refine .either ?_ ?_
      · exact .bind (keeps_noteAbort _ _) fun _ => .pure _
      · exact .bind (keeps_busCall _) fun byte => ih _ _
    rw [memReadCrossingFrom]
    refine .either ?_ ?_
    · exact .bind (keeps_armMmuTranslate _ _ _ _) htail
    · exact .bind (.pure _) htail

theorem keeps_memWriteCrossingFrom (va v : Word) (priv : Bool) (is : List Nat) (pagePa : Word) :
    Keeps (Traced B) (memWriteCrossingFrom B va v priv is pagePa) := by
  induction is generalizing pagePa with
  | nil => exact .pure _
  | cons i is ih =>
    have htail : ∀ r : Word × Word, Keeps (Traced B) (do
        if r.1 ≠ 0 then
          modifyCpu (noteAbort · r.1 (va + BitVec.ofNat 32 i))
          return ()
        busCall fun b => ((), B.writeN .w8 b ((r.2 &&& ~~~armPageMask) |||
          ((va + BitVec.ofNat 32 i) &&& armPageMask)) (v >>> (8 * i)))
        memWriteCrossingFrom B va v priv is (r.2 &&& ~~~armPageMask) : Exec σ Unit) := by
      intro r
      refine .either ?_ ?_
      · exact .bind (keeps_noteAbort _ _) fun _ => .pure _
      · exact .bind (keeps_busCall _) fun _ => ih _
    rw [memWriteCrossingFrom]
    refine .either ?_ ?_
    · exact .bind (keeps_armMmuTranslate _ _ _ _) htail
    · exact .bind (.pure _) htail

/-- The counters of the caches may change. -/
theorem traced_recount {s : Sys σ} (h : Traced B s) {t : TransCache}
    (htlb : t.tlb = s.cpu.cache.tlb ∧ t.tlbGen = s.cpu.cache.tlbGen ∧
      t.tlbStamp = s.cpu.cache.tlbStamp)
    (hd : t.dread = s.cpu.cache.dread) (hw : t.dwrite = s.cpu.cache.dwrite)
    (hf : t.fetchHost = s.cpu.cache.fetchHost ∧ t.fetchBlk = s.cpu.cache.fetchBlk ∧
      t.fetchGen = s.cpu.cache.fetchGen ∧ t.fetchPriv = s.cpu.cache.fetchPriv) :
    Traced B { s with cpu := { s.cpu with cache := t } } := by
  obtain ⟨htable, hgen, hstamp⟩ := htlb
  have hcoherent : TlbCoherent B { s with cpu := { s.cpu with cache := t } } := by
    refine ⟨?_, ?_, h.now.tlb.present⟩
    all_goals dsimp only
    · rw [htable, hgen]
      exact h.now.tlb.bounded
    · rw [htable, hgen, hstamp]
      exact h.now.tlb.sound
  exact ⟨h.now.retable hcoherent (fun _ => id) hgen hd hw hf, h.log, h.aligned⟩

theorem keeps_dreadHit (va : Word) (n : Nat) (priv : Bool) :
    Keeps (Traced B) (onCpu (dreadHit va n priv) : Exec σ (Option Nat)) := by
  intro s h
  simp only [onCpu, dreadHit]
  split_ifs <;> exact traced_recount h ⟨rfl, rfl, rfl⟩ rfl rfl ⟨rfl, rfl, rfl, rfl⟩

theorem keeps_dwriteHit (consent : Bool) (va : Word) (n : Nat) (priv : Bool) :
    Keeps (Traced B) (onCpu (dwriteHit consent va n priv) : Exec σ (Option Nat)) := by
  intro s h
  simp only [onCpu, dwriteHit]
  split_ifs <;> exact traced_recount h ⟨rfl, rfl, rfl⟩ rfl rfl ⟨rfl, rfl, rfl, rfl⟩

theorem keeps_memReadAt (w : MemWidth) (va : Word) (priv : Bool) :
    Keeps (Traced B) (memReadAt B w va priv) := by
  refine .either (keeps_memReadCrossingFrom _ _ _ _ _) ?_
  refine .bind (keeps_dreadHit _ _ _) fun hit => ?_
  cases hit with
  | some dh => exact fun _ h => h
  | none => exact keeps_memReadSlow w va priv

theorem keeps_memWriteAt (w : MemWidth) (va v : Word) (priv : Bool) :
    Keeps (Traced B) (memWriteAt B w va v priv) := by
  refine .either (keeps_memWriteCrossingFrom _ _ _ _ _) ?_
  refine .bind (keeps_dwriteHit _ _ _ _) fun hit => ?_
  cases hit with
  | some dw => exact keeps_busCall _
  | none => exact keeps_memWriteSlow w va v priv

/-- A load keeps the trace. -/
theorem keeps_memRAs (w : MemWidth) (va : Word) (priv : Bool) :
    Keeps (Traced B) (memRAs B w va priv) := by
  refine .bind (keeps_logAccess (.load w) nofun va priv) fun _ => .bind keeps_getCpu fun c => ?_
  cases alignedAddress w va c with
  | none => exact .bind (keeps_noteAbort _ _) fun _ => .pure _
  | some va' => exact .bind (keeps_memReadAt w va' priv) fun _ => .pure _

/-- A store keeps the trace. -/
theorem keeps_memWAs (w : MemWidth) (va v : Word) (priv : Bool) :
    Keeps (Traced B) (memWAs B w va v priv) := by
  refine .bind (keeps_logAccess (.store w v) nofun va priv) fun _ =>
    .bind keeps_getCpu fun c => ?_
  cases alignedAddress w va c with
  | none => exact keeps_noteAbort _ _
  | some va' => exact keeps_memWriteAt w va' v priv

theorem keeps_memR (w : MemWidth) (va : Word) : Keeps (Traced B) (memR B w va) :=
  .bind keeps_getCpu fun _ => keeps_memRAs w va _

theorem keeps_memW (w : MemWidth) (va v : Word) : Keeps (Traced B) (memW B w va v) :=
  .bind keeps_getCpu fun _ => keeps_memWAs w va v _

end Exec

end S5LBox
