import S5LBox.Arm.Mmu

/-!
# Data-side memory accessors

Every guest load and store goes through translation; a fault is latched on the core and turned
into a data abort when the instruction finishes (`arm_interp.c`). An access that crosses a 4 KB
page is split at the boundary and each side is translated on its own. An access that lies in a
1 KB block whose host address is cached goes through that address, and a successful slow access
installs the block it resolved.

## Main definitions

* `Exec.memRAs`, `Exec.memWAs`: loads and stores of one, two and four bytes.
* `prepareMultiwordAddress`, `prepareSyncAddress`: the stricter alignment rules of multiple and
  exclusive transfers.
* `Exec.takeLatchedAbort`: a latched fault turned into a data abort.
-/

namespace S5LBox

/-- `note_alignment_abort`. -/
def noteAlignmentAbort (c : ArmCpu) (va : Word) (write : Bool) : ArmCpu :=
  noteAbort c (armFsrAlignment ||| (if write then (1 : Word) <<< 11 else 0)) va

/-- `ror32`: 32-bit rotate right. -/
def ror32 (v : Word) (n : Nat) : Word :=
  let n := n % 32
  if n = 0 then v else (v >>> n) ||| (v <<< (32 - n))

/-- `legacy_rotate_word`. -/
def legacyRotateWord (v byteOffset : Word) : Word := ror32 v ((byteOffset &&& 3).toNat * 8)

/-- `legacy_halfword_unpredictable`: an odd halfword address with neither U nor A set. -/
def legacyHalfwordUnpredictable (c : ArmCpu) (va : Word) : Bool :=
  va &&& 1 != 0 && c.cp15.sctlr &&& (armSctlrU ||| armSctlrA) == 0

def armPageMask : Word := 0xfff

/-- `mem_crosses_page`: an access of `n` bytes at `va` spans two 4 KB pages. -/
def memCrossesPage (va : Word) (n : Nat) : Bool :=
  decide ((va &&& armPageMask).toNat + n > armPageMask.toNat + 1)

def armDreadBlkMask : Word := 0x3ff

/-- `dread_slot`: the two privileges are half of the table apart. -/
def dreadSlot (va : Word) (priv : Bool) : BitVec 12 :=
  ((va >>> 10) + (if priv then 4096 / 2 else 0)).setWidth 12

/-- `dread_tag`: the 1 KB block, and the privilege in bit 0. -/
def dreadTag (va : Word) (priv : Bool) : Word :=
  (va &&& ~~~armDreadBlkMask) ||| (if priv then 1 else 0)

/-- The access leaves its 1 KB block. -/
def leavesBlock (va : Word) (n : Nat) : Bool :=
  decide ((va &&& armDreadBlkMask).toNat + n > armDreadBlkMask.toNat + 1)

/-- A block entry answers for the address, privilege and generation. -/
def BlockEntry.live (e : BlockEntry) (va : Word) (priv : Bool) (gen : Word) : Bool :=
  e.host.isSome && e.tag == dreadTag va priv && e.gen == gen

/-- The host address of `va` in the block of an entry. -/
def BlockEntry.hostAt (e : BlockEntry) (va : Word) : Option Nat :=
  e.host.map (· + (va &&& armDreadBlkMask).toNat)

/-- `dread_hit`: the host address for a load of `n` bytes, or `none` for the slow path. -/
def dreadHit (va : Word) (n : Nat) (priv : Bool) (c : ArmCpu) : Option Nat × ArmCpu :=
  let e := c.cache.dread (dreadSlot va priv)
  if leavesBlock va n ∨ ¬ e.live va priv c.cache.tlbGen then
    (none, { c with cache := { c.cache with dreadMisses := c.cache.dreadMisses + 1 } })
  else
    (e.hostAt va, { c with cache := { c.cache with dreadHits := c.cache.dreadHits + 1 } })

/-- `dwrite_hit`: the same for a store, with the consent of the bus. -/
def dwriteHit (consent : Bool) (va : Word) (n : Nat) (priv : Bool) (c : ArmCpu) :
    Option Nat × ArmCpu :=
  let e := c.cache.dwrite (dreadSlot va priv)
  if ¬ consent then (none, c)
  else if leavesBlock va n ∨ ¬ e.live va priv c.cache.tlbGen then
    (none, { c with cache := { c.cache with dwriteMisses := c.cache.dwriteMisses + 1 } })
  else
    (e.hostAt va, { c with cache := { c.cache with dwriteHits := c.cache.dwriteHits + 1 } })

/-- Install a block of the data-read cache. -/
def installDread (va : Word) (priv : Bool) (blk : Nat) (c : ArmCpu) : ArmCpu :=
  { c with cache := { c.cache with
      dread := Function.update c.cache.dread (dreadSlot va priv)
        { host := some blk, tag := dreadTag va priv, gen := c.cache.tlbGen } } }

/-- Install a block of the data-write cache. -/
def installDwrite (va : Word) (priv : Bool) (blk : Nat) (c : ArmCpu) : ArmCpu :=
  { c with cache := { c.cache with
      dwrite := Function.update c.cache.dwrite (dreadSlot va priv)
        { host := some blk, tag := dreadTag va priv, gen := c.cache.tlbGen } } }

/-- `prepare_multiword_address`: the address to use, or `none` with the fault latched. -/
def prepareMultiwordAddress (va alignment : Word) (write : Bool) (c : ArmCpu) :
    Option Word × ArmCpu :=
  let mask := alignment - 1
  if va &&& mask = 0 then (some va, c)
  else if c.cp15.sctlr &&& (armSctlrU ||| armSctlrA) ≠ 0 then
    (none, noteAlignmentAbort c va write)
  else (some (va &&& ~~~mask), c)

/-- `prepare_sync_address`: `none` to go on, or the status with which the access is refused. -/
def prepareSyncAddress (va alignment : Word) (write : Bool) (c : ArmCpu) :
    Option ArmStatus × ArmCpu :=
  if va &&& (alignment - 1) = 0 then (none, c)
  else if c.cp15.sctlr &&& (armSctlrU ||| armSctlrA) ≠ 0 then
    (some .ok, noteAlignmentAbort c va write)
  else (some .undefined, c)

namespace Exec

variable {σ : Type} (B : ArmBus σ)

/-- The grant of a callback for the 1 KB block of a physical address. -/
def grantOf (grant : Option (σ → Word → Nat → Option Nat)) (pa : Word) (b : σ) : Option Nat :=
  match grant with
  | some f => f b (pa &&& ~~~armDreadBlkMask) 0x400
  | none => none

/-- `dread_fill`. -/
def dreadFill (va pa : Word) (priv : Bool) : Exec σ Unit := fun s =>
  match grantOf B.hostRam pa s.bus with
  | some blk => modifyCpu (installDread va priv blk) s
  | none => ((), s)

/-- `dwrite_fill`. -/
def dwriteFill (va pa : Word) (priv : Bool) : Exec σ Unit := fun s =>
  match grantOf B.hostRamWrite pa s.bus with
  | some blk => modifyCpu (installDwrite va priv blk) s
  | none => ((), s)

/-- The loop of `mem_read_crossing` over the byte offsets that are left. -/
def memReadCrossingFrom (va : Word) (priv : Bool) :
    List Nat → (val pagePa : Word) → Exec σ Word
  | [], val, _ => pure val
  | i :: is, val, pagePa => do
    let a := va + BitVec.ofNat 32 i
    let (f, pa) ←
      if i = 0 ∨ a &&& armPageMask = 0 then armMmuTranslate B a .read priv 0
      else pure (0, pagePa)
    if f ≠ 0 then
      modifyCpu (noteAbort · f a)
      return 0
    let pagePa := pa &&& ~~~armPageMask
    let byte ← busCall (B.readN .w8 · (pagePa ||| (a &&& armPageMask)))
    memReadCrossingFrom va priv is (val ||| (byte <<< (8 * i))) pagePa

/-- `mem_read_crossing`: byte by byte, translating at each page. -/
def memReadCrossing (va : Word) (n : Nat) (priv : Bool) : Exec σ Word :=
  memReadCrossingFrom B va priv (List.range n) 0 0

/-- The loop of `mem_write_crossing` over the byte offsets that are left. -/
def memWriteCrossingFrom (va v : Word) (priv : Bool) :
    List Nat → (pagePa : Word) → Exec σ Unit
  | [], _ => pure ()
  | i :: is, pagePa => do
    let a := va + BitVec.ofNat 32 i
    let (f, pa) ←
      if i = 0 ∨ a &&& armPageMask = 0 then armMmuTranslate B a .write priv 0
      else pure (0, pagePa)
    if f ≠ 0 then
      modifyCpu (noteAbort · f a)
      return ()
    let pagePa := pa &&& ~~~armPageMask
    busCall fun b => ((), B.writeN .w8 b (pagePa ||| (a &&& armPageMask)) (v >>> (8 * i)))
    memWriteCrossingFrom va v priv is pagePa

/-- `mem_write_crossing`: bytes already written stay written when a later page faults. -/
def memWriteCrossing (va : Word) (n : Nat) (v : Word) (priv : Bool) : Exec σ Unit :=
  memWriteCrossingFrom B va v priv (List.range n) 0

/-- The slow path of a load: one translation and one bus access. -/
def memReadSlow (w : MemWidth) (va : Word) (priv : Bool) : Exec σ Word := do
  let (f, pa) ← armMmuTranslate B va .read priv 0
  if f ≠ 0 then
    modifyCpu (noteAbort · f va)
    return 0
  let value ← busCall (B.readN w · pa)
  dreadFill B va pa priv
  return value

/-- The slow path of a store. -/
def memWriteSlow (w : MemWidth) (va v : Word) (priv : Bool) : Exec σ Unit := do
  let (f, pa) ← armMmuTranslate B va .write priv 0
  if f ≠ 0 then
    modifyCpu (noteAbort · f va)
    return ()
  busCall fun b => ((), B.writeN w b pa v)
  dwriteFill B va pa priv

/-- The address an access uses: misaligned ordinary accesses fault with A set, align down with
U clear, and are left as they are otherwise. -/
def alignedAddress (w : MemWidth) (va : Word) (c : ArmCpu) : Option Word :=
  let mask := BitVec.ofNat 32 (w.bytes - 1)
  if va &&& mask = 0 then some va
  else if c.cp15.sctlr &&& armSctlrA ≠ 0 then none
  else if c.cp15.sctlr &&& armSctlrU = 0 then some (va &&& ~~~mask)
  else some va

/-- The load of an aligned or permitted address: split, from the cached block, or slow. -/
def memReadAt (w : MemWidth) (va : Word) (priv : Bool) : Exec σ Word := do
  if memCrossesPage va w.bytes then return ← memReadCrossing B va w.bytes priv
  match ← onCpu (dreadHit va w.bytes priv) with
  | some dh => fun s => (B.peekN s.bus dh w.bytes, s)
  | none => memReadSlow B w va priv

/-- The store of an aligned or permitted address. -/
def memWriteAt (w : MemWidth) (va v : Word) (priv : Bool) : Exec σ Unit := do
  if memCrossesPage va w.bytes then return ← memWriteCrossing B va w.bytes v priv
  match ← onCpu (dwriteHit B.hostRamWrite.isSome va w.bytes priv) with
  | some dw => busCall fun b => ((), B.pokeN b dw v w.bytes)
  | none => memWriteSlow B w va v priv

/-- `MEM_READ`: a load with the given privilege, zero-extended. -/
def memRAs (w : MemWidth) (original : Word) (priv : Bool) : Exec σ Word := do
  logAccess (.load w) original priv
  let c ← getCpu
  match alignedAddress w original c with
  | none =>
    modifyCpu (noteAlignmentAbort · original false)
    return 0
  | some va =>
    let value ← memReadAt B w va priv
    return if w = .w32 ∧ original ≠ va then legacyRotateWord value (original &&& 3) else value

/-- `MEM_WRITE`: a store with the given privilege. -/
def memWAs (w : MemWidth) (original v : Word) (priv : Bool) : Exec σ Unit := do
  logAccess (.store w v) original priv
  let c ← getCpu
  match alignedAddress w original c with
  | none => modifyCpu (noteAlignmentAbort · original true)
  | some va => memWriteAt B w va v priv

/-- A load with the privilege of the current mode. -/
def memR (w : MemWidth) (va : Word) : Exec σ Word := do
  let c ← getCpu
  memRAs B w va (cpuIsPriv c)

/-- A store with the privilege of the current mode. -/
def memW (w : MemWidth) (va v : Word) : Exec σ Unit := do
  let c ← getCpu
  memWAs B w va v (cpuIsPriv c)

/-- `mem_r32`. -/
def memR32 (va : Word) : Exec σ Word := memR B .w32 va

/-- `mem_r16`. -/
def memR16 (va : Word) : Exec σ Word := memR B .w16 va

/-- `mem_r8`. -/
def memR8 (va : Word) : Exec σ Word := memR B .w8 va

/-- `mem_w32`. -/
def memW32 (va v : Word) : Exec σ Unit := memW B .w32 va v

/-- `mem_w16`. -/
def memW16 (va v : Word) : Exec σ Unit := memW B .w16 va v

/-! ### The latched fault -/

/-- A data fault has been latched. -/
def abortLatched : Exec σ Bool := fun s => (s.cpu.abortPending, s)

/-- `take_pending_data_abort`, counted. -/
def takeDataAbort (pc : Word) : Exec σ Unit := fun s =>
  ((), { s with cpu := takePendingDataAbort s.cpu pc, aborts := s.aborts + 1 })

/-- Go on unless a fault has been latched, which becomes a data abort. -/
def takeLatchedAbort (pc : Word) (k : Exec σ ArmStatus) : Exec σ ArmStatus := do
  if ← abortLatched then
    takeDataAbort pc
    return .ok
  k

end Exec

end S5LBox
