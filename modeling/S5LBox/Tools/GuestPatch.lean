import S5LBox.Arm.Cpu
import S5LBox.Lib.WordArith

/-!
# Patches of the guest's memory

`guest_patch.c` checks a manifest of patches against the memory that it patches, and then writes
them. The manifest and its entries may lie in that memory: both are read from it, and what is read
later is read from what the memory then holds. The sums and differences of addresses are a
parameter.

## Main definitions

* `planEntry`: the checks on one entry, and what is kept of it.
* `checkPairs`, `checkBytes`: no two entries overlap, and the memory holds given bytes.
* `store`: the bytes of all entries written.
* `guestPatchApply`: the whole.
-/

namespace S5LBox.Tools.GuestPatch

/-! ### Data -/

/-- `GUEST_PATCH_MAX_ENTRIES`. -/
abbrev maxEntries : Nat := 64

/-- `GUEST_PATCH_MAX_BYTES`. -/
abbrev maxBytes : Nat := 8

/-- `GUEST_ADDRESS_SPACE_SIZE`. -/
abbrev guestAddressSpaceSize : Nat := 0x100000000

/-- `guest_patch_status_t`. -/
inductive Status
  | ok
  | invalidArgument
  | invalidGeometry
  | invalidCount
  | invalidLength
  | noChange
  | vaBelowBase
  | vaOverflow
  | paOverflow
  | outOfRam
  | overlap
  | expectedMismatch
  | verifyMismatch
  deriving DecidableEq, Repr

/-- `guest_patch_entry_t`. -/
structure Entry where
  virtualAddress : BitVec 32
  length : BitVec 32
  expected : Vector Byte maxBytes
  replacement : Vector Byte maxBytes

/-- `guest_patch_manifest_t`, but for its RAM, of which it is only known here whether there is
one. -/
structure Manifest where
  hasRam : Bool
  ramBase : BitVec 64
  virtBase : BitVec 32
  hasEntries : Bool
  entryCount : Nat

/-- What the caller's memory holds, as far as it depends on the RAM. -/
structure Caller where
  manifest : List Byte → Option Manifest
  entry : List Byte → Nat → Entry

/-- `guest_patch_report_t`. `none` is a `GUEST_PATCH_NO_` sentinel. -/
structure Report where
  status : Status
  entryIndex : Option Nat := none
  byteIndex : Option Nat := none
  virtualAddress : Option Nat := none
  physicalAddress : Option Nat := none
  expected : Byte := 0
  actual : Byte := 0

/-- `guest_patch_plan_entry_t`. -/
structure PlanEntry where
  virtualAddress : Nat
  physicalAddress : Nat
  ramOffset : Nat
  length : Nat
  expected : Vector Byte maxBytes
  replacement : Vector Byte maxBytes

/-- A byte of one of the two arrays. -/
def byteAt (bytes : Vector Byte maxBytes) (k : Nat) : Byte := bytes.toList.getD k 0

/-- `entry_changes_bytes`. -/
def entryChangesBytes (e : Entry) : Bool :=
  (List.range e.length.toNat).any fun k => byteAt e.expected k ≠ byteAt e.replacement k

/-! ### The plan -/

section Plan

variable (A : WordArith) (m : Manifest) (ramSize : Nat)

/-- One round of the loop that builds the plan. -/
def planEntry (i : Nat) (e : Entry) : Except Report PlanEntry :=
  let va := e.virtualAddress.toNat
  let vbase := m.virtBase.toNat
  let base := m.ramBase.toNat
  let len := e.length.toNat
  let ramEnd := A.add base ramSize
  let vaEnd := A.add va len
  let pa := A.add base (A.sub va vbase)
  let paEnd := A.add pa len
  if len = 0 ∨ maxBytes < len then
    .error { status := .invalidLength, entryIndex := some i, virtualAddress := some va }
  else if va < vbase then
    .error { status := .vaBelowBase, entryIndex := some i, byteIndex := some 0,
             virtualAddress := some va, expected := byteAt e.expected 0 }
  else if guestAddressSpaceSize < vaEnd then
    let failedByte := A.sub guestAddressSpaceSize va % 2 ^ 32
    let failedVa := A.add va failedByte
    .error { status := .vaOverflow, entryIndex := some i, byteIndex := some failedByte,
             virtualAddress := some failedVa,
             physicalAddress := some (A.add base (A.sub failedVa vbase)),
             expected := byteAt e.expected failedByte }
  else if guestAddressSpaceSize ≤ pa ∨ guestAddressSpaceSize < paEnd then
    let failedByte :=
      if guestAddressSpaceSize ≤ pa then 0 else A.sub guestAddressSpaceSize pa % 2 ^ 32
    .error { status := .paOverflow, entryIndex := some i, byteIndex := some failedByte,
             virtualAddress := some (A.add va failedByte),
             physicalAddress := some (A.add pa failedByte),
             expected := byteAt e.expected failedByte }
  else if pa < base ∨ ramEnd < paEnd then
    let failedByte := if ramEnd ≤ pa then 0 else A.sub ramEnd pa % 2 ^ 32
    .error { status := .outOfRam, entryIndex := some i, byteIndex := some failedByte,
             virtualAddress := some (A.add va failedByte),
             physicalAddress := some (A.add pa failedByte),
             expected := byteAt e.expected failedByte }
  else if entryChangesBytes e = false then
    .error { status := .noChange, entryIndex := some i, byteIndex := some 0,
             virtualAddress := some va, physicalAddress := some pa,
             expected := byteAt e.expected 0, actual := byteAt e.replacement 0 }
  else
    .ok { virtualAddress := va, physicalAddress := pa, ramOffset := A.sub pa base, length := len,
          expected := e.expected, replacement := e.replacement }

/-- The loop that builds the plan, from an index on. -/
def buildPlan (entry : Nat → Entry) : (i n : Nat) → Except Report (List PlanEntry)
  | _, 0 => .ok []
  | i, n + 1 =>
    match planEntry A m ramSize i (entry i) with
    | .error r => .error r
    | .ok p =>
      match buildPlan entry (i + 1) n with
      | .error r => .error r
      | .ok ps => .ok (p :: ps)

/-- Two entries of the plan share an address. -/
def overlaps (p q : PlanEntry) : Prop :=
  p.virtualAddress < A.add q.virtualAddress q.length ∧
    q.virtualAddress < A.add p.virtualAddress p.length

instance (p q : PlanEntry) : Decidable (overlaps A p q) := by
  unfold overlaps
  infer_instance

/-- The loops over pairs of entries: each one against those before it. -/
def checkPairs (before : List PlanEntry) : (i : Nat) → List PlanEntry → Except Report Unit
  | _, [] => .ok ()
  | i, p :: ps =>
    match before.find? fun q => overlaps A p q with
    | some q =>
      let overlap := max p.virtualAddress q.virtualAddress
      let byteIndex := A.sub overlap p.virtualAddress % 2 ^ 32
      .error { status := .overlap, entryIndex := some i, byteIndex := some byteIndex,
               virtualAddress := some overlap,
               physicalAddress := some (A.add p.physicalAddress byteIndex) }
    | none => checkPairs (before ++ [p]) (i + 1) ps

end Plan

/-! ### The memory -/

section Memory

variable (A : WordArith) (bytes : PlanEntry → Vector Byte maxBytes)

/-- The first byte of an entry that the memory does not hold. -/
def mismatch (ram : List Byte) (p : PlanEntry) : Option Nat :=
  (List.range p.length).find? fun k => ram.getD (p.ramOffset + k) 0 ≠ byteAt (bytes p) k

/-- The loops that compare the memory with the bytes of the entries. -/
def checkBytes (status : Status) (ram : List Byte) :
    (i : Nat) → List PlanEntry → Except Report Unit
  | _, [] => .ok ()
  | i, p :: ps =>
    match mismatch bytes ram p with
    | some k =>
      .error { status, entryIndex := some i, byteIndex := some k,
               virtualAddress := some (A.add p.virtualAddress k),
               physicalAddress := some (A.add p.physicalAddress k),
               expected := byteAt (bytes p) k, actual := ram.getD (p.ramOffset + k) 0 }
    | none => checkBytes status ram (i + 1) ps

/-- The bytes of an entry, written one after the other. -/
def storeEntry (ram : List Byte) (p : PlanEntry) : List Byte :=
  (List.range p.length).foldl (fun ram k => ram.set (p.ramOffset + k) (byteAt (bytes p) k)) ram

/-- The bytes of all entries written. -/
def store (ram : List Byte) (plan : List PlanEntry) : List Byte :=
  plan.foldl (storeEntry bytes) ram

end Memory

/-! ### The whole -/

/-- The checks, which write nothing, and the plan that comes of them. -/
def validate (A : WordArith) (c : Caller) (ram : List Byte) : Except Report (List PlanEntry) :=
  match c.manifest ram with
  | none => .error { status := .invalidArgument }
  | some m =>
    if m.hasRam = false ∨ m.hasEntries = false then .error { status := .invalidArgument }
    else if ram.length = 0 ∨ guestAddressSpaceSize ≤ m.ramBase.toNat ∨
        A.sub guestAddressSpaceSize m.ramBase.toNat < ram.length then
      .error { status := .invalidGeometry, physicalAddress := some m.ramBase.toNat }
    else if m.entryCount = 0 ∨ maxEntries < m.entryCount then .error { status := .invalidCount }
    else
      match buildPlan A m ram.length (c.entry ram) 0 m.entryCount with
      | .error r => .error r
      | .ok plan =>
        match checkPairs A [] 0 plan with
        | .error r => .error r
        | .ok () =>
          match checkBytes A PlanEntry.expected .expectedMismatch ram 0 plan with
          | .error r => .error r
          | .ok () => .ok plan

/-- `guest_patch_apply`: the report, with the status, and the memory afterwards. -/
def guestPatchApply (A : WordArith) (hasReport : Bool) (c : Caller) (ram : List Byte) :
    Report × List Byte :=
  if hasReport = false then ({ status := .invalidArgument }, ram)
  else match validate A c ram with
  | .error r => (r, ram)
  | .ok plan =>
    let ram' := store PlanEntry.replacement ram plan
    match checkBytes A PlanEntry.replacement .verifyMismatch ram' 0 plan with
    | .error r => (r, store PlanEntry.expected ram' plan)
    | .ok () => ({ status := .ok }, ram')

end S5LBox.Tools.GuestPatch
