import S5LBox.Arm.Cpu

/-!
# The bus, and programs over the core and its bus

The core reaches memory through callbacks (`arm_bus_t`). A bus is given here by the type `σ` of
what lies behind the callbacks and one function for each; a null callback is `none`. The
optional `hostRam` and `hostRamWrite` hand out host addresses, and `peek` and `poke` are the
host's own loads and stores through them.

Code that reaches memory is a program over a `Sys`: the core, the state behind the bus, and three
records that no program reads. `era` lists the bus states since the last flush of the
translation cache, `log` the accesses made so far, each with the state it was made in, and
`aborts` counts the data aborts taken.

## Main definitions

* `ArmBus`.
* `Sys`, `Exec`, and the primitive programs `getCpu`, `modifyCpu`, `onCpu`, `busCall`.
-/

namespace S5LBox

/-- The result of the privileged-SVC host hook (`arm_svc_result_t`); `other` is any value the
enumeration does not name. -/
inductive ArmSvcResult
  | unhandled
  | handled
  | redirected
  | error
  | other
  deriving DecidableEq, Repr

/-- The system bus (`arm_bus_t`) over a state `σ`. -/
structure ArmBus (σ : Type) where
  read32 : σ → Word → Word × σ
  read16 : σ → Word → BitVec 16 × σ
  read8 : σ → Word → Byte × σ
  write32 : σ → Word → Word → σ
  write16 : σ → Word → BitVec 16 → σ
  write8 : σ → Word → Byte → σ
  /-- A host address for a physical range that is wholly plain RAM. -/
  hostRam : Option (σ → Word → Nat → Option Nat) := none
  /-- The same, with consent to store through it. -/
  hostRamWrite : Option (σ → Word → Nat → Option Nat) := none
  peek : σ → Nat → Byte := fun _ _ => 0
  poke : σ → Nat → Byte → σ := fun b _ _ => b
  /-- The platform may move the interrupt lines of the core while it waits. -/
  waitForInterrupt : Option (σ → Bool × Bool × σ) := none
  privilegedSvcHandler : Option (σ → ArmCpu → Word → Word → ArmSvcResult × ArmCpu × σ) := none
  /-- The states of the platform since the last flush of the caches, after a supervisor call that the
  platform has handled; a record, which nothing reads. -/
  svcEra : σ → ArmCpu → Word → Word → List σ → List σ := fun b c pc encoding era =>
    match privilegedSvcHandler with
    | some handler => (handler b c pc encoding).2.2 :: era
    | none => era
  prepareFetch : Option (σ → Word → Word → Bool → σ) := none

/-- The width of a data access. -/
inductive MemWidth
  | w8
  | w16
  | w32
  deriving DecidableEq, Repr

/-- The number of bytes of an access. -/
def MemWidth.bytes : MemWidth → Nat
  | .w8 => 1
  | .w16 => 2
  | .w32 => 4

/-- An access as the log records it: what it is, and the state it was made in. -/
inductive AccessKind
  | fetch
  | load (w : MemWidth)
  | store (w : MemWidth) (v : Word)

/-- An entry of the log. -/
structure Access (σ : Type) where
  kind : AccessKind
  va : Word
  priv : Bool
  cpu : ArmCpu
  bus : σ
  era : List σ

/-- The core with the state behind its bus, and the three records. -/
structure Sys (σ : Type) where
  cpu : ArmCpu
  bus : σ
  era : List σ := [bus]
  log : List (Access σ) := []
  aborts : Nat := 0

/-- A program over the core and its bus. -/
abbrev Exec (σ : Type) := StateM (Sys σ)

namespace Exec

variable {σ : Type} {α : Type}

/-- Read the core. -/
def getCpu : Exec σ ArmCpu := fun s => (s.cpu, s)

/-- Change the core. -/
def modifyCpu (f : ArmCpu → ArmCpu) : Exec σ Unit := fun s => ((), { s with cpu := f s.cpu })

/-- Run a function of the core alone. -/
def onCpu (f : ArmCpu → α × ArmCpu) : Exec σ α := fun s =>
  let (a, c) := f s.cpu
  (a, { s with cpu := c })

/-- Run a callback of the bus. -/
def busCall (f : σ → α × σ) : Exec σ α := fun s =>
  let (a, b) := f s.bus
  (a, { s with bus := b, era := b :: s.era })

/-- Run a program only when a condition holds. -/
def guarded (p : Prop) [Decidable p] (m : Exec σ Unit) : Exec σ Unit := if p then m else pure ()

/-- Record an access. -/
def logAccess (kind : AccessKind) (va : Word) (priv : Bool) : Exec σ Unit := fun s =>
  ((), { s with log := ⟨kind, va, priv, s.cpu, s.bus, s.era⟩ :: s.log })

end Exec

/-! ### The bus at a given width -/

/-- A bus load of the given width, zero-extended. -/
def ArmBus.readN {σ : Type} (B : ArmBus σ) : MemWidth → σ → Word → Word × σ
  | .w8, b, pa => ((B.read8 b pa).1.setWidth 32, (B.read8 b pa).2)
  | .w16, b, pa => ((B.read16 b pa).1.setWidth 32, (B.read16 b pa).2)
  | .w32, b, pa => B.read32 b pa

/-- A bus store of the low bytes of a word. -/
def ArmBus.writeN {σ : Type} (B : ArmBus σ) : MemWidth → σ → Word → Word → σ
  | .w8, b, pa, v => B.write8 b pa (v.setWidth 8)
  | .w16, b, pa, v => B.write16 b pa (v.setWidth 16)
  | .w32, b, pa, v => B.write32 b pa v

/-- The little-endian load of `n` bytes through a host address. -/
def ArmBus.peekN {σ : Type} (B : ArmBus σ) (b : σ) (host : Nat) : Nat → Word
  | 0 => 0
  | n + 1 => B.peekN b host n ||| ((B.peek b (host + n)).setWidth 32 <<< (8 * n))

/-- The little-endian store of the `n` low bytes of a word through a host address. -/
def ArmBus.pokeN {σ : Type} (B : ArmBus σ) (b : σ) (host : Nat) (v : Word) : Nat → σ
  | 0 => b
  | n + 1 => B.poke (B.pokeN b host v n) (host + n) ((v >>> (8 * n)).setWidth 8)

end S5LBox
