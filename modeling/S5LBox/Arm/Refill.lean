import S5LBox.Arm.Step

/-!
# Refills from the translation cache

Two operations outside of a step fill the page caches from live entries of the translation cache:
`arm_fetch_cache_try_refill` and `arm_data_cache_try_refill`. Neither walks the tables, and neither
fills anything under other translation registers than those of the stamp.

## Main definitions

* `Exec.armFetchCacheTryRefill`, `Exec.armDataCacheTryRefill`.
-/

namespace S5LBox

/-- The physical block that the translation cache holds for an address: the address itself with
the MMU off, and `none` when the cache has no successful translation for it. -/
def cachedBlock (c : ArmCpu) (va : Word) (acc : ArmAccess) (priv : Bool) : Option Word :=
  if c.cp15.sctlr &&& armSctlrM = 0 then some (va &&& ~~~0x3ff)
  else
    let e := c.cache.tlb (mmuTlbSlot va acc)
    if c.cache.tlbGen = 0 ∨ ¬ mmuStampMatches c ∨ e.gen ≠ c.cache.tlbGen ∨
        e.tag ≠ mmuTlbTag va acc priv ∨ e.fsr ≠ 0 then none
    else some e.pa

/-- A refill counts as a hit of the translation cache, unless the MMU is off. -/
def countRefill (c : ArmCpu) : ArmCpu :=
  if c.cp15.sctlr &&& armSctlrM = 0 then c else Exec.countTlb true c

namespace Exec

variable {σ : Type} (B : ArmBus σ)

/-- Ask for the block that the translation cache holds, and install what is granted. -/
def refill (grant : Option (σ → Word → Nat → Option Nat)) (va : Word) (acc : ArmAccess)
    (priv : Bool) (install : Nat → ArmCpu → ArmCpu) : Exec σ Bool := fun s =>
  match cachedBlock s.cpu va acc priv with
  | none => (false, s)
  | some pa =>
    match grantOf grant pa s.bus with
    | none => (false, s)
    | some blk => (true, { s with cpu := countRefill (install blk s.cpu) })

/-- `arm_fetch_cache_try_refill`. -/
def armFetchCacheTryRefill (va : Word) (priv : Bool) : Exec σ Bool := do
  let c ← getCpu
  if B.hostRam.isNone then return false
  if fetchBlockHit c.cache va priv then return true
  refill B.hostRam va .fetch priv (installFetch va priv)

/-- `arm_data_cache_try_refill`; a fetch is refused. -/
def armDataCacheTryRefill (va : Word) (acc : ArmAccess) (priv : Bool) : Exec σ Bool := do
  let c ← getCpu
  let on : Bool := c.cp15.sctlr &&& armSctlrM != 0
  match acc with
  | .fetch => return false
  | .read =>
    if B.hostRam.isNone then return false
    if on ∧ c.cache.tlbGen ≠ 0 ∧ mmuStampMatches c ∧
        (c.cache.dread (dreadSlot va priv)).live va priv c.cache.tlbGen then return true
    refill B.hostRam va .read priv (installDread va priv)
  | .write =>
    if B.hostRamWrite.isNone then return false
    if on ∧ c.cache.tlbGen ≠ 0 ∧ mmuStampMatches c ∧
        (c.cache.dwrite (dreadSlot va priv)).live va priv c.cache.tlbGen then return true
    refill B.hostRamWrite va .write priv (installDwrite va priv)

end Exec

end S5LBox
