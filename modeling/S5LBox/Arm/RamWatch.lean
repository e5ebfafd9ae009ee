import S5LBox.Arm.Cpu
import S5LBox.Lib.Stamps

/-!
# The watch on RAM pages

`arm_ram_watch.c`. A page of 1 KB has a stamp from its first capture on, and a new one after every
change, until the watch is reset. Pointers are numbers, and the null pointer is 0. The stamps beyond
the last page are never looked at.

## Main definitions

* `armRamWatchCreate`, `armRamWatchReset`, `armRamWatchCapture`, `armRamWatchUnwatched`,
  `armRamWatchChanged`.
* `WatchOp`, `watchRun`: the calls on one watch, and the grants of direct writes.
-/

namespace S5LBox

/-- `UINT64_MAX`. -/
def uint64Max : Nat := 2 ^ 64 - 1

/-- `struct arm_ram_watch`, with what `arm_ram_watch_create` has checked. Its `pages` is
`size / 1024`. -/
structure RamWatch where
  ram : Nat
  base : Nat
  size : Nat
  stamps : Stamps.State Nat
  ram_pos : 0 < ram
  size_pos : 0 < size
  base_aligned : base % 1024 = 0
  size_aligned : size % 1024 = 0
  window_le : base + size ≤ 2 ^ 32

namespace RamWatch

/-- The watch with other stamps. -/
def withStamps (watch : RamWatch) (stamps : Stamps.State Nat) : RamWatch := { watch with stamps }

@[simp] theorem withStamps_stamps (w : RamWatch) (s) : (w.withStamps s).stamps = s := rfl

end RamWatch

/-- `arm_ram_watch_create`, with whether there is memory for it. -/
def armRamWatchCreate (memory : Bool) (ram : Nat) (base size : Word) : Option RamWatch :=
  if h : 0 < ram ∧ 0 < size.toNat ∧ base.toNat % 1024 = 0 ∧ size.toNat % 1024 = 0 ∧
      base.toNat + size.toNat ≤ 2 ^ 32 then
    if memory then
      some ⟨ram, base.toNat, size.toNat, {}, h.1, h.2.1, h.2.2.1, h.2.2.2.1, h.2.2.2.2⟩
    else none
  else none

/-- `arm_ram_watch_reset`. -/
def armRamWatchReset (watch : RamWatch) : RamWatch :=
  watch.withStamps { watch.stamps with stamp := fun _ => 0 }

/-- `next_stamp`. -/
abbrev nextStamp (stamps : Stamps.State Nat) : Nat × Stamps.State Nat :=
  Stamps.next uint64Max stamps

/-- The loop of `arm_ram_watch_capture` over the grants of direct writes. -/
def revokeWrites (cpu : ArmCpu) (page : Nat) : ArmCpu :=
  { cpu with cache := { cpu.cache with
      dwrite := fun i =>
        if (cpu.cache.dwrite i).host = some page then {} else cpu.cache.dwrite i } }

/-- `arm_ram_watch_capture`. -/
def armRamWatchCapture (watch : RamWatch) (cpu : Option ArmCpu) (page : Nat) :
    Nat × RamWatch × Option ArmCpu :=
  match cpu with
  | none => (0, watch, none)
  | some cpu =>
    if page = 0 ∨ watch.stamps.sequence = uint64Max then (0, watch, some cpu)
    else if page < watch.ram ∨ watch.size ≤ page - watch.ram ∨ (page - watch.ram) % 1024 ≠ 0 then
      (0, watch, some cpu)
    else
      let index := (page - watch.ram) / 1024
      if watch.stamps.stamp index = 0 then
        let (stamp, stamps) := nextStamp watch.stamps
        let stamps := { stamps with stamp := Function.update stamps.stamp index stamp }
        (stamps.stamp index, watch.withStamps stamps, some (revokeWrites cpu page))
      else (watch.stamps.stamp index, watch, some cpu)

/-- `arm_ram_watch_unwatched`. -/
def armRamWatchUnwatched (watch : Option RamWatch) (pa length : Word) : Bool :=
  match watch with
  | none => true
  | some watch =>
    if length.toNat = 0 ∨ pa.toNat < watch.base ∨
        watch.size < pa.toNat - watch.base + length.toNat then false
    else
      let first := (pa.toNat - watch.base) / 1024
      let last := (pa.toNat - watch.base + length.toNat - 1) / 1024
      (List.range' first (last + 1 - first)).all fun i => watch.stamps.stamp i = 0

/-- The body of the loop of `arm_ram_watch_changed`. -/
def changePage (stamps : Stamps.State Nat) (i : Nat) : Stamps.State Nat :=
  if stamps.stamp i ≠ 0 then
    let (stamp, stamps) := nextStamp stamps
    { stamps with
      stamp := Function.update stamps.stamp i (if stamp ≠ 0 then stamp else uint64Max) }
  else stamps

/-- `arm_ram_watch_changed`. -/
def armRamWatchChanged (watch : RamWatch) (pa length : Word) : RamWatch :=
  if length.toNat = 0 then watch
  else
    let first := max pa.toNat watch.base
    let last := min (pa.toNat + length.toNat) (watch.base + watch.size)
    if last ≤ first then watch
    else
      let a := (first - watch.base) / 1024
      let b := (last - 1 - watch.base) / 1024
      watch.withStamps ((List.range' a (b + 1 - a)).foldl changePage watch.stamps)

/-! ### Runs -/

/-- A watch and the cores that are captured with it. -/
structure WatchHost where
  watch : RamWatch
  cpus : Nat → ArmCpu

/-- A call on the watch, or a grant of direct writes that is put into a slot of a core. -/
inductive WatchOp
  | capture (cpu : Option Nat) (page : Nat)
  | changed (pa length : Word)
  | reset
  | unwatched (pa length : Word)
  | grant (cpu : Nat) (slot : BitVec 12) (entry : BlockEntry)

namespace WatchHost

variable (h : WatchHost)

/-- The stamp that a capture returns. -/
def stampOf (cpu : Option Nat) (page : Nat) : Nat :=
  (armRamWatchCapture h.watch (cpu.map h.cpus) page).1

/-- A capture. -/
def capture (cpu : Option Nat) (page : Nat) : WatchHost :=
  let (_, watch, captured) := armRamWatchCapture h.watch (cpu.map h.cpus) page
  { watch
    cpus := match cpu, captured with
      | some i, some c => Function.update h.cpus i c
      | _, _ => h.cpus }

/-- A grant. -/
def grant (cpu : Nat) (slot : BitVec 12) (entry : BlockEntry) : WatchHost :=
  let c := h.cpus cpu
  let dwrite := Function.update c.cache.dwrite slot entry
  { h with cpus := Function.update h.cpus cpu { c with cache := { c.cache with dwrite } } }

end WatchHost

/-- One operation. -/
def WatchOp.run (h : WatchHost) : WatchOp → WatchHost
  | .capture cpu page => h.capture cpu page
  | .changed pa length => { h with watch := armRamWatchChanged h.watch pa length }
  | .reset => { h with watch := armRamWatchReset h.watch }
  | .unwatched _ _ => h
  | .grant cpu slot entry => h.grant cpu slot entry

/-- A run of operations. -/
def watchRun (h : WatchHost) (ops : List WatchOp) : WatchHost := ops.foldl WatchOp.run h

end S5LBox
