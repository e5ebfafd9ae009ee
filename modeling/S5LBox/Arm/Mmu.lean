import S5LBox.Arm.Bus

/-!
# The MMU and its translation cache

The ARMv6 short-descriptor walk (`mmu.c`): the first-level table is selected by `TTBCR.N`, a
first-level descriptor is a section, a supersection or a pointer to a second-level table, and a
second-level descriptor is a large or a small page, which in the legacy format carries one
access permission for each quarter of the page. The walk is written as the address and the
classification of each level (`mmuL1Addr`, `mmuL1Decode`, `mmuL2Decode`), composed by
`mmuWalk`, which fetches each descriptor as it needs it.

The front end `armMmuTranslate` keeps the verdicts of walks in a direct-mapped table keyed at
1 KB, valid for one generation and one set of translation registers; a flush is a bump of the
generation.

## Main definitions

* `mmuWalk`: the uncached walk.
* `armMmuTranslate`: the cached front end.
* `armMmuTlbFlush`: the flush.
-/

namespace S5LBox

/-! ### Fault status and permissions -/

def armFsrAlignment : Word := 0x1
def armFsrSectionAccessFlag : Word := 0x3
def armFsrSectionTranslation : Word := 0x5
def armFsrPageAccessFlag : Word := 0x6
def armFsrPageTranslation : Word := 0x7
def armFsrSectionDomain : Word := 0x9
def armFsrPageDomain : Word := 0xb
def armFsrSectionPermission : Word := 0xd
def armFsrPagePermission : Word := 0xf

/-- `fsr_make`: status in bits 3:0, domain in 7:4 and WnR in bit 11. -/
def fsrMake (status domain : Word) (write : Bool) : Word :=
  (status &&& (0xf : Word)) ||| ((domain &&& (0xf : Word)) <<< 4) |||
    (if write then (1 : Word) <<< 11 else 0)

/-- `ap_permits`: the ARM1176 access permissions, with APX and the legacy S/R controls. -/
def apPermits (p : Cp15) (ap : Word) (apx write priv : Bool) : Bool :=
  if apx then
    if ap &&& 3 = 0 then false
    else if ap &&& 3 = 1 then priv && !write
    else !write
  else if ap &&& 3 = 0 then
    let s := p.sctlr &&& armSctlrS != 0
    let r := p.sctlr &&& armSctlrR != 0
    if s && r then false
    else if r then !write
    else if s then priv && !write
    else false
  else if ap &&& 3 = 1 then priv
  else if ap &&& 3 = 2 then priv || !write
  else true

/-- `access_flag_faults`: with XP and FA set, `AP[0]` is the access flag, except for the legacy
read-only encodings. -/
def accessFlagFaults (p : Cp15) (xp : Bool) (ap : Word) (apx : Bool) : Bool :=
  if !xp || p.sctlr &&& armSctlrFA == 0 || ap &&& 1 != 0 then false
  else if !apx && ap == 0 then
    let s := p.sctlr &&& armSctlrS != 0
    let r := p.sctlr &&& armSctlrR != 0
    if s != r then false else true
  else true

/-- `xn_forbids_fetch`: execute-never, outside manager domains and only with XP set. -/
def xnForbidsFetch (p : Cp15) (acc : ArmAccess) (dac : Word) (xn : Bool) : Bool :=
  acc == .fetch && xn && dac != 3 && p.sctlr &&& armSctlrXP != 0

/-! ### The walk -/

/-- The walk starts from TTBR0 when the top `TTBCR.N` bits of the address are zero. -/
def mmuUseTtbr0 (p : Cp15) (va : Word) : Bool :=
  let n := (p.ttbcr &&& 7).toNat
  n == 0 || va >>> (32 - n) == 0

/-- The address of the first-level descriptor. -/
def mmuL1Addr (p : Cp15) (va : Word) : Word :=
  let n := (p.ttbcr &&& 7).toNat
  if mmuUseTtbr0 p va then
    let base := p.ttbr0 &&& ((0xffffffff : Word) <<< (14 - n))
    let idx := (va >>> 20) &&& (((1 : Word) <<< (12 - n)) - 1)
    base ||| (idx <<< 2)
  else (p.ttbr1 &&& (0xffffc000 : Word)) ||| ((va >>> 20) <<< 2)

/-- TTBCR.PD0 and PD1 disable the selected walk. -/
def mmuWalkDisabled (p : Cp15) (va : Word) : Bool :=
  p.ttbcr &&& ((1 : Word) <<< (if mmuUseTtbr0 p va then 4 else 5)) != 0

/-- The outcome of classifying a descriptor: a fault status, a physical address, or, at the
first level, the domain of a second-level table. -/
inductive WalkResult
  | fault (fsr : Word)
  | mapped (pa : Word)
  | coarse (domain : Word)
  deriving DecidableEq

/-- The classification of the first-level descriptor `l1`. -/
def mmuL1Decode (p : Cp15) (va : Word) (acc : ArmAccess) (priv : Bool) (l1 : Word) :
    WalkResult :=
  let write := acc == .write
  let type := l1 &&& 3
  let xp := p.sctlr &&& armSctlrXP != 0
  if type = 0 then .fault (fsrMake armFsrSectionTranslation 0 write)
  else if type = 3 then .fault (fsrMake armFsrSectionTranslation 0 write)
  else
    let supersection := type == 2 && bit l1 18
    let domain : Word := if supersection then 0 else (l1 >>> 5) &&& 0xf
    let dac := (p.dacr >>> (domain.toNat * 2)) &&& 3
    if type = 2 then
      let ap := (l1 >>> 10) &&& 3
      let apx := xp && bit l1 15
      if accessFlagFaults p xp ap apx then
        .fault (fsrMake armFsrSectionAccessFlag domain write)
      else if dac = 0 ∨ dac = 2 then .fault (fsrMake armFsrSectionDomain domain write)
      else if dac ≠ 3 ∧ ¬ apPermits p ap apx write priv then
        .fault (fsrMake armFsrSectionPermission domain write)
      else if xnForbidsFetch p acc dac (bit l1 4) then
        .fault (fsrMake armFsrSectionPermission domain false)
      else if supersection then .mapped ((l1 &&& 0xff000000) ||| (va &&& 0x00ffffff))
      else .mapped ((l1 &&& 0xfff00000) ||| (va &&& 0x000fffff))
    else .coarse domain

/-- The address of the second-level descriptor. -/
def mmuL2Addr (l1 va : Word) : Word :=
  (l1 &&& (0xfffffc00 : Word)) ||| (((va >>> 12) &&& (0xff : Word)) <<< 2)

/-- The access permission field of a second-level descriptor: one for the page with XP set,
one for each quarter of a legacy large or small page. -/
def mmuL2Ap (xp : Bool) (va l2 : Word) : Word :=
  if xp then (l2 >>> 4) &&& 3
  else if l2 &&& 3 = 1 then (l2 >>> (4 + ((va >>> 14) &&& 3).toNat * 2)) &&& 3
  else if l2 &&& 3 = 2 then (l2 >>> (4 + ((va >>> 10) &&& 3).toNat * 2)) &&& 3
  else (l2 >>> 4) &&& 3

/-- The classification of the second-level descriptor `l2`. -/
def mmuL2Decode (p : Cp15) (va : Word) (acc : ArmAccess) (priv : Bool) (domain l2 : Word) :
    WalkResult :=
  let write := acc == .write
  let t2 := l2 &&& 3
  let xp := p.sctlr &&& armSctlrXP != 0
  let dac := (p.dacr >>> (domain.toNat * 2)) &&& 3
  if t2 = 0 then .fault (fsrMake armFsrPageTranslation domain write)
  else
    let ap := mmuL2Ap xp va l2
    let apx := xp && bit l2 9
    if accessFlagFaults p xp ap apx then .fault (fsrMake armFsrPageAccessFlag domain write)
    else if dac = 0 ∨ dac = 2 then .fault (fsrMake armFsrPageDomain domain write)
    else if dac ≠ 3 ∧ ¬ apPermits p ap apx write priv then
      .fault (fsrMake armFsrPagePermission domain write)
    else if xnForbidsFetch p acc dac (if t2 = 1 then bit l2 15 else bit l2 0) then
      .fault (fsrMake armFsrPagePermission domain false)
    else if t2 = 1 then .mapped ((l2 &&& 0xffff0000) ||| (va &&& 0x0000ffff))
    else .mapped ((l2 &&& 0xfffff000) ||| (va &&& 0x00000fff))

/-- The fault status and the stored physical address of a classification: a fault leaves the
caller's address as it is. -/
def WalkResult.out (pa : Word) : WalkResult → Word × Word
  | .fault fsr => (fsr, pa)
  | .mapped pa' => (0, pa')
  | .coarse _ => (0, pa)

section Walk

variable {σ : Type} (B : ArmBus σ)

/-- `mmu_walk` through the bus. The result is the fault status, zero for success, and the
contents of `*pa` afterwards, which were `pa`. -/
def mmuWalk (p : Cp15) (va : Word) (acc : ArmAccess) (priv : Bool) (pa : Word) (b : σ) :
    (Word × Word) × List σ × σ :=
  if p.sctlr &&& armSctlrM = 0 then ((0, va), [], b)
  else if mmuWalkDisabled p va then
    ((fsrMake armFsrSectionTranslation 0 (acc == .write), pa), [], b)
  else
    let (l1, b₁) := B.read32 b (mmuL1Addr p va)
    match mmuL1Decode p va acc priv l1 with
    | .coarse domain =>
      let (l2, b₂) := B.read32 b₁ (mmuL2Addr l1 va)
      ((mmuL2Decode p va acc priv domain l2).out pa, [b₂, b₁], b₂)
    | result => (result.out pa, [b₁], b₁)

end Walk

/-! ### The translation cache -/

/-- `mmu_tlb_tag`: 1 KB block, access kind and privilege. -/
def mmuTlbTag (va : Word) (acc : ArmAccess) (priv : Bool) : Word :=
  ((va >>> 10) <<< 3) ||| (acc.code <<< 1) ||| (if priv then (1 : Word) else 0)

/-- `mmu_tlb_slot`: the access kinds are a quarter of the table apart. -/
def mmuTlbSlot (va : Word) (acc : ArmAccess) : BitVec 12 :=
  ((va >>> 10) + acc.code * (4096 / 4)).setWidth 12

/-- The translation registers of a `Cp15`. -/
def Cp15.stamp (p : Cp15) : TlbStamp :=
  ⟨p.sctlr, p.ttbr0, p.ttbr1, p.ttbcr, p.dacr, p.contextId⟩

/-- `mmu_stamp_matches`: the cache was filled under the present translation registers. -/
def mmuStampMatches (c : ArmCpu) : Bool := c.cache.tlbStamp == c.cp15.stamp

/-- The part of `arm_mmu_tlb_flush` that touches the caches: a bump of the generation, and a
clear of everything when the generation wraps. -/
def TransCache.flush (t : TransCache) : TransCache :=
  let t := { t with tlbFlushes := t.tlbFlushes + 1, fetchHost := none, tlbGen := t.tlbGen + 1 }
  if t.tlbGen = 0 then
    { t with tlb := fun _ => {}, dread := fun _ => {}, dwrite := fun _ => {}, tlbGen := 1 }
  else t

namespace Exec

variable {σ : Type}

/-- `arm_mmu_tlb_flush`. The era restarts at the present bus state. -/
def armMmuTlbFlush : Exec σ Unit := fun s =>
  ((), { s with cpu := { s.cpu with cache := s.cpu.cache.flush }, era := [s.bus] })

/-- Take the translation registers as the ones the cache is valid under. -/
def stampCache (c : ArmCpu) : ArmCpu :=
  { c with cache := { c.cache with tlbStamp := c.cp15.stamp } }

/-- Generation zero means that the cache was never initialised. -/
def initGeneration (c : ArmCpu) : ArmCpu :=
  if c.cache.tlbGen = 0 then { c with cache := { c.cache with tlbGen := 1 } } else c

/-- Install the verdict of a walk. -/
def fillTlb (slot : BitVec 12) (tag fsr pa : Word) (c : ArmCpu) : ArmCpu :=
  { c with cache := { c.cache with
      tlb := Function.update c.cache.tlb slot
        { gen := c.cache.tlbGen, tag, fsr, pa := if fsr = 0 then pa &&& ~~~0x3ff else 0 } } }

/-- Count a lookup. -/
def countTlb (hit : Bool) (c : ArmCpu) : ArmCpu :=
  { c with cache :=
      if hit then { c.cache with tlbHits := c.cache.tlbHits + 1 }
      else { c.cache with tlbMisses := c.cache.tlbMisses + 1 } }

variable (B : ArmBus σ)

/-- The walk as a program; the bus states it passes through join the era. -/
def walk (va : Word) (acc : ArmAccess) (priv : Bool) (pa : Word) : Exec σ (Word × Word) :=
  fun s =>
    let (r, bs, b) := mmuWalk B s.cpu.cp15 va acc priv pa s.bus
    (r, { s with bus := b, era := bs ++ s.era })

/-- The optional firmware policy, called after a successful fetch walk. -/
def prepareFetch (va pa : Word) (priv : Bool) : Exec σ Unit :=
  match B.prepareFetch with
  | some f => busCall fun b => ((), f b va pa priv)
  | none => pure ()

/-- `arm_mmu_translate`: the fault status and the contents of `*pa` afterwards, which were
`pa`. -/
def armMmuTranslate (va : Word) (acc : ArmAccess) (priv : Bool) (pa : Word) :
    Exec σ (Word × Word) := do
  let c ← getCpu
  if c.cp15.sctlr &&& armSctlrM = 0 then return (0, va)
  modifyCpu initGeneration
  guarded (¬ mmuStampMatches c) (do armMmuTlbFlush; modifyCpu stampCache)
  let c ← getCpu
  let tag := mmuTlbTag va acc priv
  let slot := mmuTlbSlot va acc
  let e := c.cache.tlb slot
  if e.gen = c.cache.tlbGen ∧ e.tag = tag then
    modifyCpu (countTlb true)
    return (e.fsr, if e.fsr = 0 then e.pa ||| (va &&& 0x3ff) else pa)
  modifyCpu (countTlb false)
  let (fsr, pa) ← walk B va acc priv pa
  guarded (fsr = 0 ∧ acc = .fetch) (prepareFetch B va pa priv)
  modifyCpu (fillTlb slot tag fsr pa)
  return (fsr, pa)

end Exec

end S5LBox
