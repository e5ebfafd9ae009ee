import S5LBox.Arm.Transparency

/-!
# The compact map of RAM

`arm_ram_map.c`, and from `mmu.c` the window on RAM that it is filled from. An entry is for a block
of 1 KB and a kind of access, and its key has the generation of the translation cache. Pointers are
numbers, `none` is the null pointer, and a kind of access that `arm_access_t` does not name is
`none`.

The two counts of `MapHost` say how often a core has flushed its translation cache. No function
reads them.

## Main definitions

* `armRamWindowCurrent`, `armRamWindowTlbLookup`.
* `armRamMapPrepare`, `armRamMapPublish`, `armRamMapLookup`.
* `MapOp`, `mapRun`: the calls on one map, and what happens to the cores.
-/

namespace S5LBox

/-- What a window compares of `arm_bus_t`. -/
structure BusCallbacks where
  ctx : Nat := 0
  hostRam : Nat := 0
  hostRamWrite : Nat := 0
  prepareFetch : Nat := 0
  prepareFetchCtx : Nat := 0
  read32 : Nat := 0
  read16 : Nat := 0
  read8 : Nat := 0
  write32 : Nat := 0
  write16 : Nat := 0
  write8 : Nat := 0
  deriving DecidableEq

/-- `arm_ram_window_t`. -/
@[ext]
structure RamWindow where
  bus : BusCallbacks := {}
  identity : Option Nat := none
  readHost : Option Nat := none
  writeHost : Option Nat := none
  base : Word := 0
  bytes : Word := 0
  deriving DecidableEq

/-- A core with what lies behind its bus, and its pointer to the bus with what it shows. -/
structure RamCore (σ : Type) where
  sys : Sys σ
  bus : Option (Nat × BusCallbacks) := none

section Functions

variable {σ : Type}

/-- `arm_ram_window_current`, for a window and a core that are there. -/
def armRamWindowCurrent (w : RamWindow) (c : RamCore σ) : Bool :=
  match c.bus with
  | none => false
  | some (identity, b) =>
    w.readHost.isSome && decide (1024 ≤ w.bytes.toNat) && (w.identity == some identity) &&
      (b == w.bus)

/-- The host block of a physical address in a window, for a kind of access. -/
def RamWindow.block (w : RamWindow) (access : ArmAccess) (pa : Word) : Option Nat :=
  let offset := pa - w.base
  let host := if access = .write then w.writeHost else w.readHost
  match host with
  | none => none
  | some host =>
    if pa &&& 1023 ≠ 0 ∨ pa.toNat < w.base.toNat ∨ w.bytes.toNat - 1024 < offset.toNat then none
    else some (host + offset.toNat)

/-- `arm_ram_window_tlb_lookup`. -/
def armRamWindowTlbLookup (w : RamWindow) (c : RamCore σ) (va : Word) (access : ArmAccess)
    (priv : Bool) : Option Nat :=
  let cpu := c.sys.cpu
  if armRamWindowCurrent w c = false ∨ cpu.cache.tlbGen = 0 ∨
      cpu.cp15.sctlr &&& armSctlrM = 0 ∨ mmuStampMatches cpu = false then none
  else
    let e := cpu.cache.tlb (mmuTlbSlot va access)
    if e.gen ≠ cpu.cache.tlbGen ∨ e.tag ≠ mmuTlbTag va access priv ∨ e.fsr ≠ 0 then none
    else w.block access e.pa

/-- `arm_ram_map_entry_t`. -/
structure RamMapEntry where
  host : Option Nat := none
  key : BitVec 64 := 0

/-- `arm_ram_map_t`. -/
structure RamMap where
  entries : BitVec 12 → RamMapEntry := fun _ => {}
  ram : RamWindow := {}
  owner : Option Nat := none
  cp15 : Cp15 := {}
  flushes : BitVec 64 := 0
  generation : Word := 0
  bound : Bool := false

/-- `arm_ram_map_slot`. -/
def armRamMapSlot (va : Word) (access : ArmAccess) : BitVec 12 :=
  let page := va >>> 10
  ((page ^^^ (page >>> 12)) + access.code * 1024).setWidth 12

/-- `arm_ram_map_key`. -/
def armRamMapKey (va : Word) (access : ArmAccess) (generation : Word) : BitVec 64 :=
  (generation.setWidth 64 <<< 32) ||| (va &&& ~~~(1023 : Word)).setWidth 64 |||
    (access.code <<< 1).setWidth 64

/-- `controls_match`. -/
def controlsMatch (a b : Cp15) : Bool := a.stamp == b.stamp

/-- `admissible`, for a core that is there. -/
def admissible (cpu : ArmCpu) : Bool :=
  cpu.cache.tlbGen != 0 && cpu.cp15.sctlr &&& armSctlrM != 0 &&
    (cpu.cpsr &&& (armCpsrModeMask ||| armCpsrE) == armModeUsr) && !cpu.abortPending &&
    !(cpu.irqLine && cpu.cpsr &&& armCpsrI == 0) &&
    !(cpu.fiqLine && cpu.cpsr &&& armCpsrF == 0) && mmuStampMatches cpu

/-- `arm_ram_map_current`, for the core with a number. -/
def armRamMapCurrent (map : RamMap) (i : Nat) (c : RamCore σ) : Bool :=
  map.bound && (map.owner == some i) && admissible c.sys.cpu &&
    (map.generation == c.sys.cpu.cache.tlbGen) && (map.flushes == c.sys.cpu.cache.tlbFlushes) &&
    controlsMatch map.cp15 c.sys.cpu.cp15 && armRamWindowCurrent map.ram c

/-- The test of `arm_ram_map_prepare` for a table that may be kept. -/
def keepsEntries (map : RamMap) (ram : RamWindow) (i : Nat) (c : RamCore σ) : Bool :=
  let cache := c.sys.cpu.cache
  let sameOwner := map.bound && (map.owner == some i) && armRamWindowCurrent map.ram c &&
    (map.ram.readHost == ram.readHost) && (map.ram.writeHost == ram.writeHost) &&
    (map.ram.base == ram.base) && (map.ram.bytes == ram.bytes)
  let flushDelta := cache.tlbFlushes - map.flushes
  let generationDelta := cache.tlbGen - map.generation
  !(!sameOwner || decide (cache.tlbFlushes < map.flushes) ||
    decide (cache.tlbGen < map.generation) || (flushDelta != generationDelta.setWidth 64) ||
    (cache.tlbGen == map.generation && !controlsMatch map.cp15 c.sys.cpu.cp15))

/-- `arm_ram_map_prepare`. -/
def armRamMapPrepare (map : RamMap) (ram : Option RamWindow) (cpu : Option (Nat × RamCore σ)) :
    Bool × RamMap :=
  match ram, cpu with
  | some ram, some (i, c) =>
    if admissible c.sys.cpu && armRamWindowCurrent ram c then
      (true, {
        entries := if keepsEntries map ram i c then map.entries else fun _ => {}
        ram
        owner := some i
        cp15 := c.sys.cpu.cp15
        flushes := c.sys.cpu.cache.tlbFlushes
        generation := c.sys.cpu.cache.tlbGen
        bound := true })
    else (false, { map with bound := false })
  | _, _ => (false, { map with bound := false })

/-- `arm_ram_map_publish`. -/
def armRamMapPublish (map : RamMap) (cpu : Option (Nat × RamCore σ)) (va : Word)
    (access : Option ArmAccess) : Bool × RamMap :=
  match cpu, access with
  | some (i, c), some access =>
    if armRamMapCurrent map i c then
      match armRamWindowTlbLookup map.ram c va access false with
      | none => (false, map)
      | some host =>
        (true, { map with
          entries := Function.update map.entries (armRamMapSlot va access)
            ⟨some host, armRamMapKey va access map.generation⟩ })
    else (false, map)
  | _, _ => (false, map)

/-- `arm_ram_map_lookup`. -/
def armRamMapLookup (map : RamMap) (cpu : Option (Nat × RamCore σ)) (va : Word)
    (access : Option ArmAccess) : Option Nat :=
  match cpu, access with
  | some (i, c), some access =>
    if armRamMapCurrent map i c then
      let entry := map.entries (armRamMapSlot va access)
      if entry.key = armRamMapKey va access map.generation then entry.host else none
    else none
  | _, _ => none

end Functions

/-! ### Runs -/

/-- A map and the cores, with how often each core has flushed its translation cache, and how often
the owner of the map had when the map was last prepared. -/
structure MapHost (σ : Type) where
  map : RamMap
  cores : Nat → RamCore σ
  flushed : Nat → Nat
  prepared : Nat

/-- A call on the map, or something that happens to a core. -/
inductive MapOp (σ : Type)
  | prepare (ram : Option RamWindow) (cpu : Option Nat)
  | publish (cpu : Option Nat) (va : Word) (access : Option ArmAccess)
  | lookup (cpu : Option Nat) (va : Word) (access : Option ArmAccess)
  | reset
  | mmu (i : Nat) (op : MmuOp σ)
  | setStatus (i : Nat) (cpsr : Word) (abortPending irqLine fiqLine : Bool)
  | setBus (i : Nat) (bus : Option (Nat × BusCallbacks))

variable {σ : Type} (B : ArmBus σ)

/-- How often an operation on a core flushes its translation cache. -/
def MmuOp.flushes (s : Sys σ) : MmuOp σ → Nat
  | .flush => 1
  | .translate _ _ _ _ =>
    if s.cpu.cp15.sctlr &&& armSctlrM = 0 then 0 else if mmuStampMatches s.cpu then 0 else 1
  | .setRegisters _ => 0
  | .setBus _ => 0

namespace MapHost

variable (w : MapHost σ)

/-- A core with its number. -/
def core (cpu : Option Nat) : Option (Nat × RamCore σ) := cpu.map fun i => (i, w.cores i)

/-- A core changes. -/
def setCore (i : Nat) (c : RamCore σ) : MapHost σ :=
  { w with cores := Function.update w.cores i c }

/-- The map is prepared. -/
def prepare (ram : Option RamWindow) (cpu : Option Nat) : MapHost σ :=
  let (prepared, map) := armRamMapPrepare w.map ram (w.core cpu)
  { w with
    map
    prepared := if prepared then (cpu.map w.flushed).getD 0 else w.prepared }

/-- What a lookup returns. -/
def lookup (cpu : Option Nat) (va : Word) (access : Option ArmAccess) : Option Nat :=
  armRamMapLookup w.map (w.core cpu) va access

end MapHost

/-- One operation. -/
def MapOp.run (w : MapHost σ) : MapOp σ → MapHost σ
  | .prepare ram cpu => w.prepare ram cpu
  | .publish cpu va access => { w with map := (armRamMapPublish w.map (w.core cpu) va access).2 }
  | .lookup _ _ _ => w
  | .reset => { w with map := {} }
  | .mmu i op =>
    let c := w.cores i
    { w.setCore i { c with sys := (op.run B c.sys).2 } with
      flushed := Function.update w.flushed i (w.flushed i + op.flushes c.sys) }
  | .setStatus i cpsr abortPending irqLine fiqLine =>
    let c := w.cores i
    let cpu := { c.sys.cpu with cpsr, abortPending, irqLine, fiqLine }
    w.setCore i { c with sys := { c.sys with cpu } }
  | .setBus i bus => w.setCore i { w.cores i with bus }

/-- A run of operations. -/
def mapRun (w : MapHost σ) (ops : List (MapOp σ)) : MapHost σ := ops.foldl (MapOp.run B) w

/-- An empty map, and cores that are all zero. -/
def mapStart (b : Nat → σ) : MapHost σ where
  map := {}
  cores i := { sys := { cpu := {}, bus := b i } }
  flushed _ := 0
  prepared := 0

end S5LBox
