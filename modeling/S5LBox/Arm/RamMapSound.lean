import S5LBox.Arm.RamMap

/-!
# A lookup in the compact map is fresh

An entry is found only if the core has not flushed its translation cache since it was stored. The
generation of a key has 32 bits and skips zero, and the count of flushes has 64 bits. The periods
of the two are coprime, so that fewer flushes than their product, made since the map was last
prepared, show in one of the two differences.

## Main definitions

* `flushLap`, `Unlapped`: how many flushes are told apart.
* `Counted`: the two counters of the owner, and how often it has flushed.
* `Stored`: an entry comes from a call that stored it.
* `FreshLookup`: what a lookup that finds something says.

## Main results

* `MapInv.run`: the invariant of a run.
* `lookup_fresh`: what is found is fresh.
* `lookup_after_lap`: a lookup that finds an entry from before the flushes.
-/

namespace S5LBox

open Blocks

/-! ### Keys -/

section Keys

variable {va va' : Word} {access access' : ArmAccess} {generation generation' : Word}

theorem armRamMapKey_high (va : Word) (access : ArmAccess) (generation : Word) :
    (armRamMapKey va access generation >>> 32).setWidth 32 = generation := by
  apply BitVec.eq_of_getLsbD_eq
  intro i hi
  simp only [armRamMapKey, BitVec.getLsbD_setWidth, BitVec.getLsbD_ushiftRight, BitVec.getLsbD_or,
    BitVec.getLsbD_shiftLeft]
  have hva : (va &&& ~~~(1023 : Word)).getLsbD (32 + i) = false :=
    BitVec.getLsbD_of_ge _ _ (by omega)
  rw [hva]
  simp [hi, show 32 + i < 64 by omega, show i < 64 by omega, show ¬32 + i < 32 by omega]

theorem armRamMapKey_low (va : Word) (access : ArmAccess) (generation : Word) :
    (armRamMapKey va access generation).setWidth 32 =
      (va &&& ~~~(1023 : Word)) ||| (access.code <<< 1) := by
  apply BitVec.eq_of_getLsbD_eq
  intro i hi
  simp only [armRamMapKey, BitVec.getLsbD_setWidth, BitVec.getLsbD_or, BitVec.getLsbD_shiftLeft]
  simp [hi, show i < 64 by omega]

theorem and_not_shiftRight (va : Word) : (va &&& ~~~(1023 : Word)) >>> 10 = va >>> 10 := by
  apply BitVec.eq_of_getLsbD_eq
  intro i hi
  have hmask : (1023 : Word) = lowMask 32 10 := rfl
  simp only [hmask, BitVec.getLsbD_ushiftRight, BitVec.getLsbD_and, BitVec.getLsbD_not,
    getLsbD_lowMask]
  by_cases h : 10 + i < 32
  · simp [h]
  · rw [BitVec.getLsbD_of_ge _ _ (Nat.not_lt.1 h), Bool.false_and]

/-- The key determines the block, the kind of access and the generation. -/
theorem armRamMapKey_injective
    (h : armRamMapKey va access generation = armRamMapKey va' access' generation') :
    SameBlock 10 va va' ∧ access = access' ∧ generation = generation' := by
  have hlow : (va &&& ~~~(1023 : Word)) ||| (access.code <<< 1) =
      (va' &&& ~~~(1023 : Word)) ||| (access'.code <<< 1) := by
    rw [← armRamMapKey_low va access generation, h, armRamMapKey_low]
  have hcode : ∀ a : ArmAccess, (a.code <<< 1) >>> 10 = 0#32 := fun a => by
    cases a <;> rfl
  refine ⟨?_, ?_, ?_⟩
  · have hshift := congrArg (fun x : Word => x >>> 10) hlow
    rw [BitVec.ushiftRight_or_distrib, BitVec.ushiftRight_or_distrib, hcode, hcode,
      BitVec.or_zero, BitVec.or_zero, and_not_shiftRight, and_not_shiftRight] at hshift
    exact hshift
  · have hmask := congrArg (fun x : Word => x &&& 7) hlow
    have hnone : ∀ x : Word, x &&& ~~~(1023 : Word) &&& 7 = 0#32 := fun x => by
      rw [BitVec.and_assoc]
      exact BitVec.and_zero
    rw [BitVec.and_or_distrib_right, BitVec.and_or_distrib_right, hnone, hnone, BitVec.zero_or,
      BitVec.zero_or] at hmask
    revert hmask
    cases access <;> cases access' <;> decide
  · rw [← armRamMapKey_high va access generation, h, armRamMapKey_high]

theorem armRamMapKey_ne_zero (h : generation ≠ 0) : armRamMapKey va access generation ≠ 0 := by
  intro hzero
  refine h ?_
  rw [← armRamMapKey_high va access generation, hzero]
  rfl

end Keys

/-! ### Counters -/

/-- How many flushes the generation and the count of flushes tell apart. -/
def flushLap : Nat := (2 ^ 32 - 1) * 2 ^ 64

/-- Two differences that agree are the count of flushes. -/
theorem eq_of_modEq {n d : Nat} (hgeneration : n ≡ d [MOD 2 ^ 32 - 1])
    (hflushes : n ≡ d [MOD 2 ^ 64]) (hn : n < flushLap) (hd : d < flushLap) : n = d := by
  have hcoprime : Nat.Coprime (2 ^ 32 - 1) (2 ^ 64) := by decide +kernel
  have hboth : n ≡ d [MOD (2 ^ 32 - 1) * 2 ^ 64] :=
    (Nat.modEq_and_modEq_iff_modEq_mul hcoprime).1 ⟨hgeneration, hflushes⟩
  exact hboth.eq_of_lt_of_lt hn hd

/-- A flush moves both counters by one. -/
theorem flush_counts (t : TransCache) :
    t.flush.tlbFlushes.toNat ≡ t.tlbFlushes.toNat + 1 [MOD 2 ^ 64] ∧
      t.flush.tlbGen ≠ 0 ∧ t.flush.tlbGen.toNat ≡ t.tlbGen.toNat + 1 [MOD 2 ^ 32 - 1] ∧
        t.flush.tlbStamp = t.tlbStamp := by
  have hflushes : (t.tlbFlushes + 1).toNat ≡ t.tlbFlushes.toNat + 1 [MOD 2 ^ 64] := by
    rw [BitVec.toNat_add]
    exact Nat.mod_modEq _ _
  have hgen : (t.tlbGen + 1).toNat = (t.tlbGen.toNat + 1) % 2 ^ 32 := BitVec.toNat_add ..
  have hlt := t.tlbGen.isLt
  rw [TransCache.flush]
  dsimp only
  split_ifs with hwrap
  · refine ⟨hflushes, (by decide : (1 : Word) ≠ 0), ?_, rfl⟩
    rw [hwrap] at hgen
    have hlast : t.tlbGen.toNat = 2 ^ 32 - 1 := by
      have hzero : (0 : Word).toNat = 0 := rfl
      omega
    rw [hlast]
    exact (Nat.ModEq.refl 1).symm.trans (by rfl)
  · refine ⟨hflushes, hwrap, ?_, rfl⟩
    have hne : (t.tlbGen + 1).toNat ≠ 0 := fun h => hwrap (BitVec.eq_of_toNat_eq h)
    have heq : (t.tlbGen + 1).toNat = t.tlbGen.toNat + 1 := by omega
    rw [heq]

/-- What an operation does to the translation cache of a core. -/
structure CacheStep (s s' : Sys σ) (n : Nat) : Prop where
  flushes : s'.cpu.cache.tlbFlushes.toNat ≡ s.cpu.cache.tlbFlushes.toNat + n [MOD 2 ^ 64]
  generation : s.cpu.cache.tlbGen ≠ 0 → s'.cpu.cache.tlbGen ≠ 0 ∧
    s'.cpu.cache.tlbGen.toNat ≡ s.cpu.cache.tlbGen.toNat + n [MOD 2 ^ 32 - 1]
  kept : n = 0 → s'.cpu.cache.tlbStamp = s.cpu.cache.tlbStamp ∧ ∀ b ∈ s.era, b ∈ s'.era

variable {σ : Type} {B : ArmBus σ} {s : Sys σ}

open Exec in
/-- The state in which a translation looks its entry up. -/
theorem cacheStep_tlbReady (s : Sys σ) :
    CacheStep s (tlbReady s) (if mmuStampMatches s.cpu then 0 else 1) := by
  by_cases hstamp : mmuStampMatches s.cpu = true
  · have hready : tlbReady s = { s with cpu := initGeneration s.cpu } := if_pos hstamp
    rw [hready, if_pos hstamp]
    refine ⟨?_, fun hne => ?_, fun _ => ⟨initGeneration_tlbStamp s.cpu, fun _ => id⟩⟩
    · dsimp only
      rw [initGeneration]
      split_ifs
      · rfl
      · rfl
    · have hinit : initGeneration s.cpu = s.cpu := if_neg hne
      rw [hinit]
      exact ⟨hne, rfl⟩
  · have hready : tlbReady s = _ := if_neg hstamp
    have hflushes : (initGeneration s.cpu).cache.tlbFlushes = s.cpu.cache.tlbFlushes := by
      rw [initGeneration]
      split_ifs <;> rfl
    obtain ⟨hcount, hgen, hnext, -⟩ := flush_counts (initGeneration s.cpu).cache
    rw [hready, if_neg hstamp]
    refine ⟨hflushes ▸ hcount, fun hne => ?_, fun h => absurd h Nat.one_ne_zero⟩
    have hinit : initGeneration s.cpu = s.cpu := if_neg hne
    rw [hinit] at hgen hnext ⊢
    exact ⟨hgen, hnext⟩

open Exec in
/-- What an operation on a core does to its translation cache. -/
theorem cacheStep_run (op : MmuOp σ) (s : Sys σ) (h : s.bus ∈ s.era) :
    CacheStep s (op.run B s).2 (op.flushes s) := by
  cases op with
  | translate va acc priv pa =>
    have hrun : (MmuOp.run B (.translate va acc priv pa) s).2 =
        (armMmuTranslate B va acc priv pa s).2 := rfl
    rw [hrun, MmuOp.flushes]
    by_cases hM : s.cpu.cp15.sctlr &&& armSctlrM = 0
    · rw [armMmuTranslate_off va acc priv pa s hM, if_pos hM]
      exact ⟨rfl, fun hne => ⟨hne, rfl⟩, fun _ => ⟨rfl, fun _ => id⟩⟩
    · rw [if_neg hM]
      have hready := cacheStep_tlbReady s
      obtain ⟨-, htranslate⟩ | ⟨-, htranslate⟩ := armMmuTranslate_on (B := B) va acc priv pa s hM
      · rw [htranslate]
        exact ⟨hready.flushes, hready.generation, hready.kept⟩
      · rw [htranslate]
        refine ⟨hready.flushes, hready.generation, fun hzero => ⟨(hready.kept hzero).1, ?_⟩⟩
        have hpresent : s.bus ∈ (tlbReady s).era := by
          by_cases hstamp : mmuStampMatches s.cpu = true
          · rwa [tlbReady, if_pos hstamp]
          · rw [tlbReady, if_neg hstamp]
            exact List.mem_singleton.2 rfl
        intro b hb
        exact (missBus_spec (B := B) va acc priv _ _
          (mmuWalk_bus_mem _ va acc priv pa hpresent)).2 b
            (List.mem_append_right _ ((hready.kept hzero).2 b hb))
  | flush =>
    obtain ⟨hcount, hgen, hnext, -⟩ := flush_counts s.cpu.cache
    exact ⟨hcount, fun _ => ⟨hgen, hnext⟩, fun h => absurd h Nat.one_ne_zero⟩
  | setRegisters f => exact ⟨rfl, fun hne => ⟨hne, rfl⟩, fun _ => ⟨rfl, fun _ => id⟩⟩
  | setBus f =>
    exact ⟨rfl, fun hne => ⟨hne, rfl⟩, fun _ => ⟨rfl, fun b hb => List.mem_cons_of_mem _ hb⟩⟩

/-! ### The invariant -/

/-- How often the owner has flushed since the map was last prepared. -/
def MapHost.since (w : MapHost σ) : Nat :=
  match w.map.owner with
  | some i => w.flushed i - w.prepared
  | none => 0

/-- The flushes since the map was last prepared show in the counters. -/
def Unlapped (w : MapHost σ) : Prop := w.map.bound = true → w.since < flushLap

/-- The two counters of the owner say how often it has flushed since the map was prepared. -/
structure Counted (w : MapHost σ) (i : Nat) : Prop where
  prepared_le : w.prepared ≤ w.flushed i
  generation_ne : w.map.generation ≠ 0
  now_ne : (w.cores i).sys.cpu.cache.tlbGen ≠ 0
  generation : (w.cores i).sys.cpu.cache.tlbGen.toNat ≡
    w.map.generation.toNat + (w.flushed i - w.prepared) [MOD 2 ^ 32 - 1]
  flushes : (w.cores i).sys.cpu.cache.tlbFlushes.toNat ≡
    w.map.flushes.toNat + (w.flushed i - w.prepared) [MOD 2 ^ 64]

/-- A call that stores a host block, in the state that the run before it leaves. -/
structure Publishes (p : MapHost σ) (i : Nat) (va : Word) (access : ArmAccess) (host : Nat) :
    Prop where
  current : armRamMapCurrent p.map i (p.cores i) = true
  found : armRamWindowTlbLookup p.map.ram (p.cores i) va access false = some host

/-- The entry was stored by a call of the run, for the window of the map, and for its translation
registers if there has been no flush up to the last preparation. -/
structure Stored (B : ArmBus σ) (w₀ : MapHost σ) (ops : List (MapOp σ)) (w : MapHost σ) (i : Nat)
    (entry : RamMapEntry) (before after : List (MapOp σ)) (va : Word) (access : ArmAccess)
    (host : Nat) (e : TlbEntry) : Prop where
  split : ops = before ++ .publish (some i) va (some access) :: after
  publishes : Publishes (mapRun B w₀ before) i va access host
  entry_eq : entry = ⟨some host, armRamMapKey va access (mapRun B w₀ before).map.generation⟩
  window : (mapRun B w₀ before).map.ram = w.map.ram
  generation_le : (mapRun B w₀ before).map.generation.toNat ≤ w.map.generation.toNat
  prepared : w.prepared = (mapRun B w₀ before).flushed i +
    (w.map.generation.toNat - (mapRun B w₀ before).map.generation.toNat)
  stamp : (mapRun B w₀ before).map.generation = w.map.generation →
    (mapRun B w₀ before).map.cp15.stamp = w.map.cp15.stamp
  tag : e.tag = mmuTlbTag va access false
  fsr : e.fsr = 0
  block : w.map.ram.block access e.pa = some host
  explained : (mapRun B w₀ before).flushed i = w.flushed i →
    Explained B (w.cores i).sys.cpu.cache.tlbStamp (w.cores i).sys.era e

/-- The invariant of a run. -/
structure MapInv (B : ArmBus σ) (w₀ : MapHost σ) (ops : List (MapOp σ)) (w : MapHost σ) : Prop where
  coherent : ∀ i, TlbCoherent B (w.cores i).sys
  counted : ∀ i, w.map.bound = true → w.map.owner = some i → Counted w i
  stored : ∀ i slot, w.map.bound = true → w.map.owner = some i → (w.map.entries slot).key ≠ 0 →
    ∃ before after va access host e,
      Stored B w₀ ops w i (w.map.entries slot) before after va access host e

/-! ### What the tests say -/

variable {c : RamCore σ}

/-- A map is current for its owner, with equal counters. -/
theorem armRamMapCurrent_iff {map : RamMap} {i : Nat} :
    armRamMapCurrent map i c = true ↔
      map.bound = true ∧ map.owner = some i ∧ admissible c.sys.cpu = true ∧
        map.generation = c.sys.cpu.cache.tlbGen ∧ map.flushes = c.sys.cpu.cache.tlbFlushes ∧
          map.cp15.stamp = c.sys.cpu.cp15.stamp ∧ armRamWindowCurrent map.ram c = true := by
  rw [armRamMapCurrent, controlsMatch]
  simp only [Bool.and_eq_true, beq_iff_eq, and_assoc]

theorem admissible_iff {cpu : ArmCpu} (h : admissible cpu = true) :
    cpu.cache.tlbGen ≠ 0 ∧ cpu.cp15.sctlr &&& armSctlrM ≠ 0 ∧
      cpu.cache.tlbStamp = cpu.cp15.stamp := by
  rw [admissible, mmuStampMatches] at h
  simp only [Bool.and_eq_true, bne_iff_ne, beq_iff_eq] at h
  exact ⟨h.1.1.1.1.1.1, h.1.1.1.1.1.2, h.2⟩

/-- A window is current for one bus. -/
theorem armRamWindowCurrent_bus {w : RamWindow} (h : armRamWindowCurrent w c = true) :
    ∃ identity, c.bus = some (identity, w.bus) ∧
      w.identity = some identity := by
  rw [armRamWindowCurrent] at h
  cases hbus : c.bus with
  | none =>
    rw [hbus] at h
    cases h
  | some bus =>
    obtain ⟨identity, b⟩ := bus
    rw [hbus] at h
    simp only [Bool.and_eq_true, beq_iff_eq] at h
    exact ⟨identity, by rw [h.2], h.1.2⟩

/-- A table that is kept is one of the same core and window, whose counters have gone on by the
same number. -/
theorem keepsEntries_spec {map : RamMap} {ram : RamWindow} {i : Nat}
    (h : keepsEntries map ram i c = true) (hram : armRamWindowCurrent ram c = true) :
    map.bound = true ∧ map.owner = some i ∧ map.ram = ram ∧
      map.generation.toNat ≤ c.sys.cpu.cache.tlbGen.toNat ∧
      c.sys.cpu.cache.tlbFlushes.toNat = map.flushes.toNat +
        (c.sys.cpu.cache.tlbGen.toNat - map.generation.toNat) ∧
      (map.generation = c.sys.cpu.cache.tlbGen → map.cp15.stamp = c.sys.cpu.cp15.stamp) := by
  rw [keepsEntries, controlsMatch] at h
  simp only [Bool.not_eq_true', Bool.or_eq_false_iff, Bool.not_eq_false', Bool.and_eq_true,
    beq_iff_eq, decide_eq_false_iff_not, bne_eq_false_iff_eq, Bool.and_eq_false_iff,
    Bool.not_eq_false'] at h
  obtain ⟨⟨⟨⟨hsame, hflushes⟩, hgeneration⟩, hdelta⟩, hcontrols⟩ := h
  obtain ⟨⟨⟨⟨⟨⟨hbound, howner⟩, hcurrent⟩, hread⟩, hwrite⟩, hbase⟩, hbytes⟩ := hsame
  obtain ⟨identity, hbus, hidentity⟩ := armRamWindowCurrent_bus hcurrent
  obtain ⟨identity', hbus', hidentity'⟩ := armRamWindowCurrent_bus hram
  rw [hbus, Option.some.injEq, Prod.mk.injEq] at hbus'
  refine ⟨hbound, howner, ?_, ?_, ?_, ?_⟩
  · refine RamWindow.ext hbus'.2 ?_ hread hwrite hbase hbytes
    rw [hidentity, hidentity', hbus'.1]
  · exact Nat.not_lt.1 hgeneration
  · have hle : map.flushes ≤ c.sys.cpu.cache.tlbFlushes := BitVec.not_lt.1 hflushes
    have hle' : map.generation ≤ c.sys.cpu.cache.tlbGen := BitVec.not_lt.1 hgeneration
    have hnat := congrArg BitVec.toNat hdelta
    rw [BitVec.toNat_sub_of_le hle, BitVec.toNat_setWidth_of_le (by decide),
      BitVec.toNat_sub_of_le hle'] at hnat
    have hleNat : map.flushes.toNat ≤ c.sys.cpu.cache.tlbFlushes.toNat := hle
    omega
  · intro hequal
    refine hcontrols.resolve_left ?_
    rw [hequal, beq_self_eq_true]
    exact Bool.noConfusion

/-! ### Steps -/

variable {w₀ w w' : MapHost σ} {ops : List (MapOp σ)} {i : Nat}

/-- With equal counters the owner has not flushed. -/
theorem Counted.flushed_eq (h : Counted w i) (howner : w.map.owner = some i)
    (hlap : w.since < flushLap)
    (hgeneration : w.map.generation = (w.cores i).sys.cpu.cache.tlbGen)
    (hflushes : w.map.flushes = (w.cores i).sys.cpu.cache.tlbFlushes) :
    w.flushed i = w.prepared := by
  have hcount := h.generation
  have hcount' := h.flushes
  rw [hgeneration] at hcount
  rw [hflushes] at hcount'
  have hsince : w.since = w.flushed i - w.prepared := by rw [MapHost.since, howner]
  have hfirst : w.flushed i - w.prepared ≡ 0 [MOD 2 ^ 32 - 1] :=
    Nat.ModEq.add_left_cancel' (w.cores i).sys.cpu.cache.tlbGen.toNat hcount.symm
  have hsecond : w.flushed i - w.prepared ≡ 0 [MOD 2 ^ 64] :=
    Nat.ModEq.add_left_cancel' (w.cores i).sys.cpu.cache.tlbFlushes.toNat hcount'.symm
  have hzero := eq_of_modEq hfirst hsecond (hsince ▸ hlap) (by decide)
  have hle := h.prepared_le
  omega

/-- A table that is kept has counters that have gone on by the number of flushes. -/
theorem Counted.flushed_sub (h : Counted w i) (howner : w.map.owner = some i)
    (hlap : w.since < flushLap)
    (hle : w.map.generation.toNat ≤ (w.cores i).sys.cpu.cache.tlbGen.toNat)
    (hflushes : (w.cores i).sys.cpu.cache.tlbFlushes.toNat = w.map.flushes.toNat +
      ((w.cores i).sys.cpu.cache.tlbGen.toNat - w.map.generation.toNat)) :
    w.flushed i = w.prepared +
      ((w.cores i).sys.cpu.cache.tlbGen.toNat - w.map.generation.toNat) := by
  have hcount := h.generation
  have hcount' := h.flushes
  have hlt := (w.cores i).sys.cpu.cache.tlbGen.isLt
  obtain ⟨d, hd⟩ := Nat.exists_eq_add_of_le hle
  have hsub : (w.cores i).sys.cpu.cache.tlbGen.toNat - w.map.generation.toNat = d := by omega
  rw [hsub] at hflushes ⊢
  rw [hd] at hcount
  rw [hflushes] at hcount'
  have hsince : w.since = w.flushed i - w.prepared := by rw [MapHost.since, howner]
  have hequal := eq_of_modEq (Nat.ModEq.add_left_cancel' _ hcount.symm)
    (Nat.ModEq.add_left_cancel' _ hcount'.symm) (hsince ▸ hlap)
    (by rw [flushLap]; omega)
  have hprepared := h.prepared_le
  omega

variable {entry : RamMapEntry} {before after : List (MapOp σ)} {va : Word} {access : ArmAccess}
  {host : Nat} {e : TlbEntry}

theorem Stored.append (h : Stored B w₀ ops w i entry before after va access host e)
    (op : MapOp σ) :
    Stored B w₀ (ops ++ [op]) w i entry before (after ++ [op]) va access host e :=
  { h with split := by rw [h.split, List.append_assoc]; rfl }

/-- The entry is one of the map in another state that its facts hold of. -/
theorem Stored.of_eq (h : Stored B w₀ ops w i entry before after va access host e)
    (hmap : w'.map.ram = w.map.ram ∧ w'.map.generation = w.map.generation ∧
      w'.map.cp15 = w.map.cp15) (hprepared : w'.prepared = w.prepared)
    (hexplained : (mapRun B w₀ before).flushed i = w'.flushed i →
      Explained B (w'.cores i).sys.cpu.cache.tlbStamp (w'.cores i).sys.era e) :
    Stored B w₀ ops w' i entry before after va access host e where
  split := h.split
  publishes := h.publishes
  entry_eq := h.entry_eq
  window := hmap.1 ▸ h.window
  generation_le := hmap.2.1 ▸ h.generation_le
  prepared := by rw [hprepared, hmap.2.1, h.prepared]
  stamp := by
    rw [hmap.2.1, hmap.2.2]
    exact h.stamp
  tag := h.tag
  fsr := h.fsr
  block := hmap.1 ▸ h.block
  explained := hexplained

theorem Stored.flushed_le (h : Stored B w₀ ops w i entry before after va access host e)
    (hcounted : Counted w i) : (mapRun B w₀ before).flushed i ≤ w.flushed i := by
  have hprepared := h.prepared
  have hle := hcounted.prepared_le
  omega

/-- What a lookup in the translation cache finds is the block of an entry that explains it. -/
theorem armRamWindowTlbLookup_some {r : RamWindow}
    (h : armRamWindowTlbLookup r c va access false = some host) :
    ∃ e, e = c.sys.cpu.cache.tlb (mmuTlbSlot va access) ∧ e.gen = c.sys.cpu.cache.tlbGen ∧
      e.tag = mmuTlbTag va access false ∧ e.fsr = 0 ∧ r.block access e.pa = some host := by
  rw [armRamWindowTlbLookup] at h
  dsimp only at h
  split_ifs at h with hcurrent hentry
  rw [not_or, not_or, not_not, not_not, not_not] at hentry
  exact ⟨_, rfl, hentry.1, hentry.2.1, hentry.2.2, h⟩

/-- A preparation fails and leaves the map unbound, or it binds the map to a core. -/
theorem MapHost.prepare_cases (w : MapHost σ) (ram : Option RamWindow) (cpu : Option Nat) :
    ((w.prepare ram cpu).map.bound = false ∧ (w.prepare ram cpu).cores = w.cores) ∨
      ∃ r i, cpu = some i ∧ admissible (w.cores i).sys.cpu = true ∧
        armRamWindowCurrent r (w.cores i) = true ∧
        w.prepare ram cpu = { w with
          map := {
            entries := if keepsEntries w.map r i (w.cores i) then w.map.entries else fun _ => {}
            ram := r
            owner := some i
            cp15 := (w.cores i).sys.cpu.cp15
            flushes := (w.cores i).sys.cpu.cache.tlbFlushes
            generation := (w.cores i).sys.cpu.cache.tlbGen
            bound := true }
          prepared := w.flushed i } := by
  cases ram with
  | none => exact Or.inl ⟨rfl, rfl⟩
  | some r =>
    cases cpu with
    | none => exact Or.inl ⟨rfl, rfl⟩
    | some i =>
      by_cases hcurrent : (admissible (w.cores i).sys.cpu && armRamWindowCurrent r (w.cores i)) = true
      · obtain ⟨hadmissible, hram⟩ := Bool.and_eq_true_iff.1 hcurrent
        refine Or.inr ⟨r, i, rfl, hadmissible, hram, ?_⟩
        rw [MapHost.prepare, MapHost.core, Option.map_some, armRamMapPrepare, if_pos hcurrent]
        rfl
      · refine Or.inl ?_
        rw [MapHost.prepare, MapHost.core, Option.map_some, armRamMapPrepare, if_neg hcurrent]
        exact ⟨rfl, rfl⟩

theorem MapInv.prepare (h : MapInv B w₀ ops w) (hlap : Unlapped w) (ram : Option RamWindow)
    (cpu : Option Nat) : MapInv B w₀ (ops ++ [.prepare ram cpu]) (w.prepare ram cpu) := by
  obtain ⟨hbound, hcores⟩ | ⟨r, i, rfl, hadmissible, hram, hprepare⟩ := w.prepare_cases ram cpu
  · exact ⟨hcores ▸ h.coherent, fun i hb => absurd (hbound.symm.trans hb) Bool.false_ne_true,
      fun i slot hb => absurd (hbound.symm.trans hb) Bool.false_ne_true⟩
  · obtain ⟨hgen, -, -⟩ := admissible_iff hadmissible
    rw [hprepare]
    refine ⟨h.coherent, fun j _ hj => ?_, fun j slot _ hj hkey => ?_⟩
    · obtain rfl := Option.some.inj hj
      refine ⟨Nat.le_refl _, hgen, hgen, ?_, ?_⟩
      · rw [Nat.sub_self]
        exact Nat.ModEq.refl _
      · rw [Nat.sub_self]
        exact Nat.ModEq.refl _
    · obtain rfl := Option.some.inj hj
      dsimp only at hkey ⊢
      by_cases hkeeps : keepsEntries w.map r i (w.cores i) = true
      · rw [if_pos hkeeps] at hkey ⊢
        obtain ⟨hbound, howner, hwindow, hle, hflushes, hstamp⟩ := keepsEntries_spec hkeeps hram
        obtain ⟨before, after, va, access, host, e, hstored⟩ := h.stored i slot hbound howner hkey
        have hcount := (h.counted i hbound howner).flushed_sub howner (hlap hbound) hle hflushes
        have hbefore := hstored.prepared
        have hgenLe := hstored.generation_le
        refine ⟨before, after ++ [.prepare ram (some i)], va, access, host, e, ?_⟩
        exact {
          split := (hstored.append _).split
          publishes := hstored.publishes
          entry_eq := hstored.entry_eq
          window := hstored.window.trans hwindow
          generation_le := Nat.le_trans hgenLe hle
          prepared := by
            dsimp only
            omega
          stamp := fun hequal => by
            dsimp only at hequal ⊢
            have hsame : w.map.generation = (w.cores i).sys.cpu.cache.tlbGen := by
              refine BitVec.eq_of_toNat_eq (Nat.le_antisymm hle ?_)
              rw [← hequal]
              exact hgenLe
            exact (hstored.stamp (hequal.trans hsame.symm)).trans (hstamp hsame)
          tag := hstored.tag
          fsr := hstored.fsr
          block := hwindow ▸ hstored.block
          explained := hstored.explained }
      · rw [if_neg hkeeps] at hkey
        exact absurd rfl hkey

theorem MapInv.append (h : MapInv B w₀ ops w) (op : MapOp σ) : MapInv B w₀ (ops ++ [op]) w := by
  refine ⟨h.coherent, h.counted, fun i slot hbound howner hkey => ?_⟩
  obtain ⟨before, after, va, access, host, e, hstored⟩ := h.stored i slot hbound howner hkey
  exact ⟨before, after ++ [op], va, access, host, e, hstored.append op⟩

/-- A call that publishes changes nothing, or it stores a host block for a current map. -/
theorem publish_cases (w : MapHost σ) (cpu : Option Nat) (va : Word) (access : Option ArmAccess) :
    (armRamMapPublish w.map (w.core cpu) va access).2 = w.map ∨
      ∃ i acc host, cpu = some i ∧ access = some acc ∧ Publishes w i va acc host ∧
        (armRamMapPublish w.map (w.core cpu) va access).2 = { w.map with
          entries := Function.update w.map.entries (armRamMapSlot va acc)
            ⟨some host, armRamMapKey va acc w.map.generation⟩ } := by
  cases cpu with
  | none => exact Or.inl rfl
  | some i =>
    cases access with
    | none => exact Or.inl rfl
    | some acc =>
      rw [MapHost.core, Option.map_some, armRamMapPublish]
      dsimp only
      by_cases hcurrent : armRamMapCurrent w.map i (w.cores i) = true
      · rw [if_pos hcurrent]
        cases hfound : armRamWindowTlbLookup w.map.ram (w.cores i) va acc false with
        | none => exact Or.inl rfl
        | some host => exact Or.inr ⟨i, acc, host, rfl, rfl, ⟨hcurrent, hfound⟩, rfl⟩
      · rw [if_neg hcurrent]
        exact Or.inl rfl

theorem MapInv.publish (hrun : w = mapRun B w₀ ops) (h : MapInv B w₀ ops w) (hlap : Unlapped w)
    (cpu : Option Nat) (va : Word) (access : Option ArmAccess) :
    MapInv B w₀ (ops ++ [.publish cpu va access])
      { w with map := (armRamMapPublish w.map (w.core cpu) va access).2 } := by
  obtain hsame | ⟨i, acc, host, rfl, rfl, hpublishes, hmap⟩ := publish_cases w cpu va access
  · rw [hsame]
    exact h.append _
  · obtain ⟨hbound, howner, hadmissible, hgeneration, hflushes, hstamp, -⟩ :=
      armRamMapCurrent_iff.1 hpublishes.current
    obtain ⟨hgen, -, -⟩ := admissible_iff hadmissible
    rw [hmap]
    refine ⟨h.coherent, fun j hb hj => ?_, fun j slot hb hj hkey => ?_⟩
    · obtain ⟨hle, hne, hnow, hcount, hcount'⟩ := h.counted j hb hj
      exact ⟨hle, hne, hnow, hcount, hcount'⟩
    · obtain rfl := Option.some.inj (howner.symm.trans hj)
      by_cases hslot : slot = armRamMapSlot va acc
      · -- The entry that is stored now, for the entry of the translation cache.
        obtain ⟨e, he, hlive, htag, hfsr, hblock⟩ := armRamWindowTlbLookup_some hpublishes.found
        have hprepared := (h.counted i hbound howner).flushed_eq howner (hlap hbound) hgeneration
          hflushes
        refine ⟨ops, [], va, acc, host, e, ?_⟩
        rw [hslot]
        dsimp only
        rw [Function.update_self]
        exact {
          split := rfl
          publishes := hrun ▸ hpublishes
          entry_eq := by rw [← hrun]
          window := by rw [← hrun]
          generation_le := by rw [← hrun]
          prepared := by
            rw [← hrun, Nat.sub_self]
            exact hprepared.symm
          stamp := fun _ => by rw [← hrun]
          tag := htag
          fsr := hfsr
          block := hblock
          explained := fun _ => by
            refine he ▸ (h.coherent i).sound hgen (mmuTlbSlot va acc) ?_
            rw [← he]
            exact hlive }
      · dsimp only at hkey ⊢
        rw [Function.update_of_ne hslot] at hkey ⊢
        obtain ⟨before, after, va', access, host', e, hstored⟩ := h.stored i slot hbound howner hkey
        refine ⟨before, after ++ [.publish (some i) va (some acc)], va', access, host', e, ?_⟩
        exact (hstored.append _).of_eq ⟨rfl, rfl, rfl⟩ rfl hstored.explained

/-- An operation on a core that leaves its translation cache and what it is explained by alone. -/
theorem MapInv.setCore (h : MapInv B w₀ ops w) (op : MapOp σ) (j : Nat)
    (hcache : c.sys.cpu.cache = (w.cores j).sys.cpu.cache) (hbus : c.sys.bus = (w.cores j).sys.bus)
    (hera : c.sys.era = (w.cores j).sys.era) : MapInv B w₀ (ops ++ [op]) (w.setCore j c) := by
  have hsame : ∀ i, ((w.setCore j c).cores i).sys.cpu.cache = (w.cores i).sys.cpu.cache ∧
      ((w.setCore j c).cores i).sys.bus = (w.cores i).sys.bus ∧
      ((w.setCore j c).cores i).sys.era = (w.cores i).sys.era := by
    intro i
    rw [MapHost.setCore]
    by_cases hij : i = j
    · rw [hij]
      dsimp only
      rw [Function.update_self]
      exact ⟨hcache, hbus, hera⟩
    · dsimp only
      rw [Function.update_of_ne hij]
      exact ⟨rfl, rfl, rfl⟩
  refine ⟨fun i => ?_, fun i hbound howner => ?_, fun i slot hbound howner hkey => ?_⟩
  · obtain ⟨hc, hb, he⟩ := hsame i
    obtain ⟨hbounded, hsound, hpresent⟩ := h.coherent i
    refine ⟨by rw [hc]; exact hbounded, by rw [hc, he]; exact hsound, by rw [hb, he]; exact hpresent⟩
  · obtain ⟨hle, hne, hnow, hcount, hcount'⟩ := h.counted i hbound howner
    refine ⟨hle, hne, by rw [(hsame i).1]; exact hnow, ?_, ?_⟩
    · rw [(hsame i).1]
      exact hcount
    · rw [(hsame i).1]
      exact hcount'
  · obtain ⟨before, after, va, access, host, e, hstored⟩ := h.stored i slot hbound howner hkey
    refine ⟨before, after ++ [op], va, access, host, e, ?_⟩
    refine (hstored.append op).of_eq ⟨rfl, rfl, rfl⟩ rfl fun hflushed => ?_
    rw [(hsame i).1, (hsame i).2.2]
    exact hstored.explained hflushed

/-- An operation on a core and its translation cache. -/
theorem MapInv.mmu (h : MapInv B w₀ ops w) (j : Nat) (op : MmuOp σ) :
    MapInv B w₀ (ops ++ [.mmu j op]) ((MapOp.mmu j op).run B w) := by
  have hstep := cacheStep_run (B := B) op (w.cores j).sys (h.coherent j).present
  have hself : ∀ i, i = j → (((MapOp.mmu j op).run B w).cores i).sys =
      (op.run B (w.cores i).sys).2 ∧ ((MapOp.mmu j op).run B w).flushed i =
        w.flushed i + op.flushes (w.cores i).sys := by
    rintro i rfl
    rw [MapOp.run, MapHost.setCore]
    dsimp only
    rw [Function.update_self, Function.update_self]
    exact ⟨rfl, rfl⟩
  have hother : ∀ i, i ≠ j → ((MapOp.mmu j op).run B w).cores i = w.cores i ∧
      ((MapOp.mmu j op).run B w).flushed i = w.flushed i := by
    intro i hij
    rw [MapOp.run, MapHost.setCore]
    dsimp only
    rw [Function.update_of_ne hij, Function.update_of_ne hij]
    exact ⟨rfl, rfl⟩
  refine ⟨fun i => ?_, fun i hbound howner => ?_, fun i slot hbound howner hkey => ?_⟩
  · by_cases hij : i = j
    · rw [(hself i hij).1]
      exact TlbCoherent.op op _ (h.coherent i)
    · rw [(hother i hij).1]
      exact h.coherent i
  · obtain ⟨hle, hne, hnow, hcount, hcount'⟩ := h.counted i hbound howner
    by_cases hij : i = j
    · obtain ⟨hsys, hflushed⟩ := hself i hij
      subst hij
      have hsub : w.flushed i + op.flushes (w.cores i).sys - w.prepared =
          w.flushed i - w.prepared + op.flushes (w.cores i).sys := by omega
      obtain ⟨hnow', hgeneration⟩ := hstep.generation hnow
      refine ⟨hflushed ▸ Nat.le_add_right_of_le hle, hne, by rw [hsys]; exact hnow', ?_, ?_⟩
      · rw [hsys, hflushed]
        refine hgeneration.trans ((hcount.add_right _).trans ?_)
        change _ ≡ w.map.generation.toNat +
          (w.flushed i + op.flushes (w.cores i).sys - w.prepared) [MOD 2 ^ 32 - 1]
        rw [hsub, Nat.add_assoc]
      · rw [hsys, hflushed]
        refine hstep.flushes.trans ((hcount'.add_right _).trans ?_)
        change _ ≡ w.map.flushes.toNat +
          (w.flushed i + op.flushes (w.cores i).sys - w.prepared) [MOD 2 ^ 64]
        rw [hsub, Nat.add_assoc]
    · obtain ⟨hcore, hflushed⟩ := hother i hij
      exact ⟨hflushed ▸ hle, hne, hcore ▸ hnow, hcore ▸ hflushed ▸ hcount,
        hcore ▸ hflushed ▸ hcount'⟩
  · obtain ⟨before, after, va, access, host, e, hstored⟩ := h.stored i slot hbound howner hkey
    have hbefore := hstored.flushed_le (h.counted i hbound howner)
    refine ⟨before, after ++ [.mmu j op], va, access, host, e, ?_⟩
    refine (hstored.append _).of_eq ⟨rfl, rfl, rfl⟩ rfl fun hflushed => ?_
    by_cases hij : i = j
    · obtain ⟨hsys, hnow⟩ := hself i hij
      subst hij
      rw [hnow] at hflushed
      obtain ⟨hstamp, hera⟩ := hstep.kept (by omega)
      rw [hsys, hstamp]
      exact (hstored.explained (by omega)).mono hera
    · obtain ⟨hcore, hnow⟩ := hother i hij
      rw [hcore]
      exact hstored.explained (hflushed.trans hnow)

theorem MapInv.step (hrun : w = mapRun B w₀ ops) (h : MapInv B w₀ ops w) (hlap : Unlapped w)
    (op : MapOp σ) : MapInv B w₀ (ops ++ [op]) (op.run B w) := by
  cases op with
  | prepare ram cpu => exact h.prepare hlap ram cpu
  | publish cpu va access => exact h.publish hrun hlap cpu va access
  | lookup cpu va access => exact h.append _
  | reset =>
    exact ⟨h.coherent, fun i hbound => absurd hbound Bool.false_ne_true,
      fun i slot hbound => absurd hbound Bool.false_ne_true⟩
  | mmu i op => exact h.mmu i op
  | setStatus i cpsr abortPending irqLine fiqLine => exact h.setCore _ i rfl rfl rfl
  | setBus i bus => exact h.setCore _ i rfl rfl rfl

/-- The flushes since the map was last prepared show in the counters, at every point of a run. -/
def UnlappedRun (B : ArmBus σ) (w₀ : MapHost σ) (ops : List (MapOp σ)) : Prop :=
  ∀ before, before <+: ops → Unlapped (mapRun B w₀ before)

theorem MapInv.run (b : Nat → σ) {ops : List (MapOp σ)}
    (hlap : UnlappedRun B (mapStart b) ops) :
    MapInv B (mapStart b) ops (mapRun B (mapStart b) ops) := by
  induction ops using List.reverseRecOn with
  | nil =>
    exact ⟨fun i => tlbCoherent_zero (b i) [], fun i hbound => absurd hbound Bool.false_ne_true,
      fun i slot hbound => absurd hbound Bool.false_ne_true⟩
  | append_singleton ops op ih =>
    have hshort : UnlappedRun B (mapStart b) ops := fun before hbefore =>
      hlap before (hbefore.trans (List.prefix_append ops [op]))
    have hrun : mapRun B (mapStart b) (ops ++ [op]) = op.run B (mapRun B (mapStart b) ops) :=
      List.foldl_append
    rw [hrun]
    exact (ih hshort).step rfl (hlap ops (List.prefix_append ops [op])) op

theorem mapRun_append (B : ArmBus σ) (w : MapHost σ) (ops ops' : List (MapOp σ)) :
    mapRun B w (ops ++ ops') = mapRun B (mapRun B w ops) ops' := List.foldl_append

/-- An operation flushes at most once. -/
theorem MapOp.flushed_run (op : MapOp σ) (w : MapHost σ) (i : Nat) :
    w.flushed i ≤ (op.run B w).flushed i ∧ (op.run B w).flushed i ≤ w.flushed i + 1 := by
  cases op with
  | mmu j op =>
    have hone : op.flushes (w.cores j).sys ≤ 1 := by
      cases op with
      | translate va acc priv pa =>
        rw [MmuOp.flushes]
        split_ifs <;> decide
      | flush => exact Nat.le_refl 1
      | setRegisters f => exact Nat.zero_le 1
      | setBus f => exact Nat.zero_le 1
    rw [MapOp.run]
    dsimp only
    by_cases hij : i = j
    · rw [hij, Function.update_self]
      omega
    · rw [Function.update_of_ne hij]
      omega
  | prepare ram cpu => exact ⟨Nat.le_refl _, Nat.le_succ _⟩
  | publish cpu va access => exact ⟨Nat.le_refl _, Nat.le_succ _⟩
  | lookup cpu va access => exact ⟨Nat.le_refl _, Nat.le_succ _⟩
  | reset => exact ⟨Nat.le_refl _, Nat.le_succ _⟩
  | setStatus j cpsr abortPending irqLine fiqLine => exact ⟨Nat.le_refl _, Nat.le_succ _⟩
  | setBus j bus => exact ⟨Nat.le_refl _, Nat.le_succ _⟩

theorem flushed_mapRun (w : MapHost σ) (ops : List (MapOp σ)) (i : Nat) :
    w.flushed i ≤ (mapRun B w ops).flushed i ∧
      (mapRun B w ops).flushed i ≤ w.flushed i + ops.length := by
  induction ops generalizing w with
  | nil => exact ⟨Nat.le_refl _, Nat.le_refl _⟩
  | cons op ops ih =>
    obtain ⟨hfirst, hlast⟩ := op.flushed_run (B := B) w i
    obtain ⟨hfirst', hlast'⟩ := ih (op.run B w)
    have hrun : mapRun B w (op :: ops) = mapRun B (op.run B w) ops := rfl
    rw [hrun, List.length_cons]
    omega

/-- A run that is shorter than a lap shows all its flushes. -/
theorem unlappedRun_of_length (b : Nat → σ) {ops : List (MapOp σ)} (h : ops.length < flushLap) :
    UnlappedRun B (mapStart b) ops := by
  intro before hbefore _
  have hlength := hbefore.length_le
  rw [MapHost.since]
  cases (mapRun B (mapStart b) before).map.owner with
  | none => exact Nat.lt_of_le_of_lt (Nat.zero_le _) h
  | some i =>
    have hflushed := (flushed_mapRun (B := B) (mapStart b) before i).2
    have hzero : (mapStart b).flushed i = 0 := rfl
    dsimp only
    omega

/-! ### Lookups -/

/-- A lookup that finds something finds it in an entry of the map. -/
theorem lookup_cases {cpu : Option Nat} {access : Option ArmAccess} {host : Nat}
    (h : w.lookup cpu va access = some host) : ∃ i acc, cpu = some i ∧ access = some acc ∧
      armRamMapCurrent w.map i (w.cores i) = true ∧
        w.map.entries (armRamMapSlot va acc) =
          ⟨some host, armRamMapKey va acc w.map.generation⟩ := by
  cases cpu with
  | none => cases h
  | some i =>
    cases access with
    | none => cases h
    | some acc =>
      rw [MapHost.lookup, MapHost.core, Option.map_some, armRamMapLookup] at h
      dsimp only at h
      split_ifs at h with hcurrent hkey
      refine ⟨i, acc, rfl, rfl, hcurrent, ?_⟩
      rw [← h, ← hkey]

/-- The block of a window for the page of an address, from an entry with the page. -/
theorem RamWindow.block_page {r : RamWindow} {page : Word}
    (h : r.block access page = some host) (va : Word) :
    r.block access ((page ||| (va &&& 0x3ff)) &&& ~~~0x3ff) = some host := by
  have hpage : page &&& 1023 = 0 := by
    rw [RamWindow.block] at h
    split at h
    · cases h
    · split_ifs at h with hbad
      exact not_not.1 (not_or.1 hbad).1
  have hsame : (page ||| (va &&& 0x3ff)) &&& ~~~0x3ff = page := by
    rw [BitVec.and_or_distrib_right]
    have hlow : va &&& 0x3ff &&& ~~~0x3ff = 0#32 := by
      rw [BitVec.and_assoc]
      exact BitVec.and_zero
    have hhigh := and_or_and_not (m := 1023#32) page
    rw [show page &&& 1023#32 = 0#32 from hpage, BitVec.zero_or] at hhigh
    rw [hlow, BitVec.or_zero]
    exact hhigh
  rw [hsame, h]

/-- A call that stored the host block of a lookup: for the same block of addresses and kind of
access, under the same owner, window, translation registers and generation, and with no flush
since. If the tables have changed only before a flush, a translation answers with a physical
address of the block. -/
structure FreshLookup (B : ArmBus σ) (w₀ : MapHost σ) (ops : List (MapOp σ)) (w : MapHost σ)
    (i : Nat) (va : Word) (access : ArmAccess) (host : Nat) (before : List (MapOp σ))
    (va' : Word) (after : List (MapOp σ)) : Prop where
  split : ops = before ++ .publish (some i) va' (some access) :: after
  block : SameBlock 10 va' va
  publishes : Publishes (mapRun B w₀ before) i va' access host
  owner : (mapRun B w₀ before).map.owner = w.map.owner
  window : (mapRun B w₀ before).map.ram = w.map.ram
  registers : ((mapRun B w₀ before).cores i).sys.cpu.cp15.stamp = (w.cores i).sys.cpu.cp15.stamp
  generation : ((mapRun B w₀ before).cores i).sys.cpu.cache.tlbGen =
    (w.cores i).sys.cpu.cache.tlbGen
  flushed : (mapRun B w₀ before).flushed i = w.flushed i
  answer : let s := (w.cores i).sys
    TablesSteady B s.cpu.cp15 va s.era s.bus →
      ∃ pa, (Exec.armMmuTranslate B va access false 0 s).1 = (0, pa) ∧
        (mmuWalk B s.cpu.cp15 va access false 0 s.bus).1 = (0, pa) ∧
          w.map.ram.block access (pa &&& ~~~0x3ff) = some host

/-- What a lookup finds at the end of any run of publications, lookups, flushes and changes, by any
number of cores, was stored by a publication of the same core, for the same block of addresses and
kind of access, under the same owner, window, translation registers and generation, and no flush has
come after it. As long as the tables were only changed before a flush, it is the host block that a
translation leads to now. The run may not bring a counter of generations round to where it was. -/
theorem lookup_fresh (B : ArmBus σ) (b : Nat → σ) (ops : List (MapOp σ))
    (hlap : UnlappedRun B (mapStart b) ops) (cpu : Option Nat) (va : Word)
    (access : Option ArmAccess) (host : Nat)
    (h : (mapRun B (mapStart b) ops).lookup cpu va access = some host) :
    ∃ i acc, cpu = some i ∧ access = some acc ∧ ∃ before va' after,
      FreshLookup B (mapStart b) ops (mapRun B (mapStart b) ops) i va acc host before va' after := by
  obtain ⟨i, acc, rfl, rfl, hcurrent, hentry⟩ := lookup_cases h
  have hinv := MapInv.run b hlap
  generalize hw : mapRun B (mapStart b) ops = w at *
  obtain ⟨hbound, howner, hadmissible, hgeneration, hflushes, hstamp, -⟩ :=
    armRamMapCurrent_iff.1 hcurrent
  obtain ⟨hgen, hM, htlbStamp⟩ := admissible_iff hadmissible
  have hkey : (w.map.entries (armRamMapSlot va acc)).key ≠ 0 := by
    rw [hentry]
    exact armRamMapKey_ne_zero (hgeneration ▸ hgen)
  obtain ⟨before, after, va', acc', host', e, hstored⟩ := hinv.stored i _ hbound howner hkey
  have hequal := hentry.symm.trans hstored.entry_eq
  rw [RamMapEntry.mk.injEq, Option.some.injEq] at hequal
  obtain ⟨rfl, hkeys⟩ := hequal
  obtain ⟨hblock, rfl, hsame⟩ := armRamMapKey_injective hkeys
  have hlapEnd : Unlapped w := hw ▸ hlap ops (List.prefix_refl ops)
  have hcount := (hinv.counted i hbound howner).flushed_eq howner (hlapEnd hbound) hgeneration
    hflushes
  have hflushed : (mapRun B (mapStart b) before).flushed i = w.flushed i := by
    rw [hcount, hstored.prepared, hsame, Nat.sub_self, Nat.add_zero]
  obtain ⟨-, howner', -, hgeneration', -, hstamp', -⟩ :=
    armRamMapCurrent_iff.1 hstored.publishes.current
  refine ⟨i, acc, rfl, rfl, before, va', after, ?_⟩
  exact {
    split := hstored.split
    block := hblock.symm
    publishes := hstored.publishes
    owner := howner'.trans howner.symm
    window := hstored.window
    registers := by rw [← hstamp', ← hstamp, hstored.stamp hsame.symm]
    generation := by rw [← hgeneration', ← hgeneration, hsame]
    flushed := hflushed
    answer := fun hsteady => by
      have hexplained := hstored.explained hflushed
      rw [htlbStamp] at hexplained
      have htag : e.tag = mmuTlbTag va acc false := by
        rw [hstored.tag, mmuTlbTag, mmuTlbTag, hblock]
      have hanswer := hexplained.answer hM htag hsteady 0
      rw [hstored.fsr, if_pos rfl] at hanswer
      refine ⟨_, ?_, hanswer.symm, RamWindow.block_page hstored.block va⟩
      rw [armMmuTranslate_eq_mmuWalk (hinv.coherent i) va acc false 0 hsteady, ← hanswer] }

/-- A window on a megabyte of memory at the address zero. -/
def sectionWindow : RamWindow where
  bus := { hostRam := 1 }
  identity := some 1
  readHost := some 0x1000
  bytes := 0x100000

/-- A core turns translation on, translates an address and publishes its block. -/
def sectionRun : List (MapOp Unit) :=
  [.setBus 0 (some (1, { hostRam := 1 })),
    .mmu 0 (.setRegisters fun p => { p with sctlr := armSctlrM, dacr := 1 }),
    .setStatus 0 armModeUsr false false false, .mmu 0 (.translate 0x300 .read false 0),
    .prepare (some sectionWindow) (some 0), .publish (some 0) 0x300 (some .read)]

/-- The lookup of another address of the block. -/
theorem lookup_fresh_section :
    (mapRun sectionBus (mapStart fun _ => ()) sectionRun).lookup (some 0) 0x123 (some .read) =
        some 0x1000 ∧
      ∃ before va' after, FreshLookup sectionBus (mapStart fun _ => ()) sectionRun
        (mapRun sectionBus (mapStart fun _ => ()) sectionRun) 0 0x123 .read 0x1000
        before va' after := by
  have hlookup : (mapRun sectionBus (mapStart fun _ => ()) sectionRun).lookup (some 0) 0x123
      (some .read) = some 0x1000 := by decide +kernel
  have hlap : UnlappedRun sectionBus (mapStart fun _ => ()) sectionRun :=
    unlappedRun_of_length _ (by decide)
  obtain ⟨i, acc, hi, hacc, hfresh⟩ := lookup_fresh sectionBus (fun _ => ()) sectionRun hlap (some 0)
    0x123 (some .read) 0x1000 hlookup
  obtain rfl := Option.some.inj hi
  obtain rfl := Option.some.inj hacc
  exact ⟨hlookup, hfresh⟩

/-! ### After a lap -/

/-- The flushes of a core move its two counters and leave everything else of it, and the map. -/
structure Flushed (w w' : MapHost σ) (i n : Nat) : Prop where
  map : w'.map = w.map
  flushed : w'.flushed i = w.flushed i + n
  bus : (w'.cores i).bus = (w.cores i).bus
  cpu : (w'.cores i).sys.cpu = { (w.cores i).sys.cpu with cache := (w'.cores i).sys.cpu.cache }
  stamp : (w'.cores i).sys.cpu.cache.tlbStamp = (w.cores i).sys.cpu.cache.tlbStamp
  generation_ne : (w'.cores i).sys.cpu.cache.tlbGen ≠ 0
  generation : (w'.cores i).sys.cpu.cache.tlbGen.toNat ≡
    (w.cores i).sys.cpu.cache.tlbGen.toNat + n [MOD 2 ^ 32 - 1]
  flushes : (w'.cores i).sys.cpu.cache.tlbFlushes.toNat ≡
    (w.cores i).sys.cpu.cache.tlbFlushes.toNat + n [MOD 2 ^ 64]

theorem flushed_replicate (w : MapHost σ) (i n : Nat)
    (hne : (w.cores i).sys.cpu.cache.tlbGen ≠ 0) :
    Flushed w (mapRun B w (List.replicate n (.mmu i .flush))) i n := by
  induction n with
  | zero => exact ⟨rfl, rfl, rfl, rfl, rfl, hne, Nat.ModEq.refl _, Nat.ModEq.refl _⟩
  | succ n ih =>
    have hrun : mapRun B w (List.replicate (n + 1) (.mmu i .flush)) =
        (MapOp.mmu i .flush).run B (mapRun B w (List.replicate n (.mmu i .flush))) := by
      rw [List.replicate_succ', mapRun_append]
      rfl
    rw [hrun]
    generalize mapRun B w (List.replicate n (.mmu i .flush)) = w' at ih
    obtain ⟨hflushes, hgenNe, hgen, hstamp⟩ := flush_counts (w'.cores i).sys.cpu.cache
    have hcore : ((MapOp.mmu i .flush).run B w').cores i = { w'.cores i with
        sys := { (w'.cores i).sys with
          cpu := { (w'.cores i).sys.cpu with cache := (w'.cores i).sys.cpu.cache.flush }
          era := [(w'.cores i).sys.bus] } } := Function.update_self ..
    have hcount : ((MapOp.mmu i .flush).run B w').flushed i = w'.flushed i + 1 :=
      Function.update_self ..
    exact {
      map := ih.map
      flushed := by rw [hcount, ih.flushed, Nat.add_assoc]
      bus := by rw [hcore, ← ih.bus]
      cpu := by
        rw [hcore]
        dsimp only
        rw [ih.cpu]
      stamp := by rw [hcore, ← ih.stamp, ← hstamp]
      generation_ne := by
        rw [hcore]
        exact hgenNe
      generation := by
        rw [hcore]
        exact hgen.trans (ih.generation.add_right 1)
      flushes := by
        rw [hcore]
        exact hflushes.trans (ih.flushes.add_right 1) }

/-- A lap of flushes does not show. -/
theorem Flushed.lookup (h : Flushed w w' i flushLap)
    (hne : (w.cores i).sys.cpu.cache.tlbGen ≠ 0) (va : Word) (access : Option ArmAccess) :
    w'.lookup (some i) va access = w.lookup (some i) va access := by
  have hgeneration : (w'.cores i).sys.cpu.cache.tlbGen = (w.cores i).sys.cpu.cache.tlbGen := by
    have hmod : (w'.cores i).sys.cpu.cache.tlbGen.toNat ≡ (w.cores i).sys.cpu.cache.tlbGen.toNat
        [MOD 2 ^ 32 - 1] := by
      refine h.generation.trans ?_
      rw [flushLap, Nat.ModEq, Nat.add_mul_mod_self_left]
    have hpos : ∀ x : Word, x ≠ 0 → 0 < x.toNat := fun x hx =>
      Nat.pos_of_ne_zero fun hzero => hx (BitVec.eq_of_toNat_eq hzero)
    have hpos₁ := hpos _ h.generation_ne
    have hpos₂ := hpos _ hne
    have hlt₁ := (w'.cores i).sys.cpu.cache.tlbGen.isLt
    have hlt₂ := (w.cores i).sys.cpu.cache.tlbGen.isLt
    refine BitVec.eq_of_toNat_eq ?_
    rw [Nat.ModEq] at hmod
    omega
  have hflushes : (w'.cores i).sys.cpu.cache.tlbFlushes = (w.cores i).sys.cpu.cache.tlbFlushes := by
    have hmod : (w'.cores i).sys.cpu.cache.tlbFlushes.toNat ≡
        (w.cores i).sys.cpu.cache.tlbFlushes.toNat [MOD 2 ^ 64] := by
      refine h.flushes.trans ?_
      rw [flushLap, Nat.ModEq, Nat.add_mul_mod_self_right]
    exact BitVec.eq_of_toNat_eq (hmod.eq_of_lt_of_lt (BitVec.isLt _) (BitVec.isLt _))
  have hcurrent : armRamMapCurrent w.map i (w'.cores i) =
      armRamMapCurrent w.map i (w.cores i) := by
    have hwindow : armRamWindowCurrent w.map.ram (w'.cores i) =
        armRamWindowCurrent w.map.ram (w.cores i) := by
      rw [armRamWindowCurrent, armRamWindowCurrent, h.bus]
    rw [armRamMapCurrent, armRamMapCurrent, hwindow, hgeneration, hflushes, admissible, admissible,
      mmuStampMatches, mmuStampMatches, hgeneration, h.stamp, h.cpu]
  cases access with
  | none => rfl
  | some acc =>
    rw [MapHost.lookup, MapHost.lookup, MapHost.core, MapHost.core, Option.map_some,
      Option.map_some, armRamMapLookup, armRamMapLookup, h.map]
    dsimp only
    rw [hcurrent]

/-- After a lap of flushes a lookup finds the block that was published before all of them. -/
theorem lookup_after_lap :
    let ops := sectionRun ++ List.replicate flushLap (.mmu 0 .flush)
    let w := mapRun sectionBus (mapStart fun _ => ()) ops
    w.lookup (some 0) 0x123 (some .read) = some 0x1000 ∧
      ∀ before va' access after, ops = before ++ .publish (some 0) va' access :: after →
        (mapRun sectionBus (mapStart fun _ => ()) before).flushed 0 < w.flushed 0 := by
  dsimp only
  rw [mapRun_append]
  have hne : ((mapRun sectionBus (mapStart fun _ => ()) sectionRun).cores 0).sys.cpu.cache.tlbGen ≠
      0 := by decide +kernel
  have hlap := flushed_replicate (B := sectionBus) _ 0 flushLap hne
  refine ⟨?_, fun before va' access after hsplit => ?_⟩
  · rw [hlap.lookup hne]
    decide +kernel
  · obtain ⟨rest, hbefore, -⟩ | ⟨rest, -, hrest⟩ := List.append_eq_append_iff.1 hsplit.symm
    · rw [hlap.flushed, hbefore, mapRun_append]
      have hle := (flushed_mapRun (B := sectionBus)
        (mapRun sectionBus (mapStart fun _ => ()) before) rest 0).1
      have hpos : 0 < flushLap := by decide
      omega
    · -- A call that publishes is not one of the flushes.
      have hmem : MapOp.publish (some 0) va' access ∈
          List.replicate flushLap (MapOp.mmu 0 (MmuOp.flush : MmuOp Unit)) := by
        rw [hrest]
        exact List.mem_append_right _ List.mem_cons_self
      cases List.eq_of_mem_replicate hmem

end S5LBox
