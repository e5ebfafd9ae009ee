import S5LBox.Rootfs.CatalogSearch

/-!
# The audit of the catalog

The audit walks the chain of the leaves from the first leaf of the header, and compares the children
that each index level names with the chain of the level below. In its recovery mode it accepts
links back that are wrong, and may repair them in the cache.

## Main definitions

* `catalogAudit`: the audit.
-/

namespace S5LBox.Rootfs

open Octets Planning

/-! ### One node -/

/-- `catalog_audit_used_node`. -/
def catalogAuditUsedNode (c : Catalog) (index level : Nat) (stage : Stage) : Except Failure Unit :=
  if catalogNodeMapUsed c index then .ok ()
  else .error (corrupt stage
    s!"the level-{level} chain reaches node {index}, but the catalog map calls it free")

/-- How an audit treats links back that are wrong. -/
structure AuditMode where
  permitRecovery : Bool
  repair : Bool

/-- `catalog_audit_backlink`: the count of the wrong links with this one. -/
def catalogAuditBacklink (node : Buffer) (index predecessor level : Nat) (mode : AuditMode)
    (mismatches : Nat) (stage : Stage) : CatalogPlan Nat := do
  if bLink node = predecessor then pure mismatches
  else if ¬mode.permitRecovery then
    Plan.fail (corrupt stage (
      if level = 1 then
        s!"leaf {index} has bLink {bLink node}, but the chain reached it from {predecessor}"
      else
        s!"index node {index} at level {level} has bLink {bLink node}, but the chain reached it from {predecessor}"))
  else if mismatches = 4294967295 then
    Plan.fail ⟨.provisionLimit, stage, 0, "catalog backlink recovery count overflowed"⟩
  else do
    Plan.provided mode.repair (catalogNodeChange index fun node => put node 4 (bytes32 predecessor))
    pure (mismatches + 1)

/-- The octets of a node for the audit: cached ones in recovery mode, and else those of the fork. -/
def auditLoad (c : Catalog) (mode : AuditMode) (index : Nat) (stage : Stage) : CatalogPlan Buffer :=
  if mode.permitRecovery then catalogNodeLoad c index stage
  else Plan.lift (catalogNodeReadRaw c index stage)

/-- The check that a node is filed under its own first key. -/
def auditParent (c : Catalog) (mode : AuditMode) (index level : Nat) (stage : Stage) :
    CatalogPlan Unit :=
  Plan.provided (mode.permitRecovery ∧ index ≠ c.rootNode) do
    let parent ← catalogNodeParent c index level stage
    -- No failure is recorded here: the root is not node zero, and no child is.
    if parent.1 = 0 then Plan.fail ⟨.ok, stage, 0, ""⟩ else pure ()

/-- What the audit does at a node of a level before it looks at its records. -/
def auditNode (c : Catalog) (mode : AuditMode) (index level predecessor mismatches : Nat)
    (stage : Stage) : CatalogPlan (Buffer × Nat) := do
  let node ← auditLoad c mode index stage
  Plan.lift (catalogNodeCheck c node index (levelKind level) level stage)
  Plan.lift (catalogAuditUsedNode c index level stage)
  let mismatches ← catalogAuditBacklink node index predecessor level mode mismatches stage
  auditParent c mode index level stage
  pure (node, mismatches)

/-! ### The leaves -/

/-- The identity in the body of a leaf record. -/
def recordIdentity (record : Buffer) : Nat :=
  let data := catalogRecordDataOffset record
  get32 record (data + if get16 record data = 1 ∨ get16 record data = 2 then 8 else 4)

/-- The records of a leaf, from a position on: the last key and the highest identity. -/
def auditRecords (index : Nat) (stage : Stage) :
    (records : List Buffer) → (position : Nat) → (previous : Option Key) → (highest : Nat) →
      Except Failure (Option Key × Nat)
  | [], _, previous, highest => .ok (previous, highest)
  | record :: records, position, previous, highest =>
    let highest := max (max highest (get32 record 2)) (recordIdentity record)
    match previous with
    | none => auditRecords index stage records (position + 1) (some (recordKey record)) highest
    | some key =>
      match catalogKeyCompareRaw record key with
      | some .gt =>
        auditRecords index stage records (position + 1) (some (recordKey record)) highest
      | _ => .error (corrupt stage s!"catalog key order breaks at node {index} record {position}")

/-- What the walk along the leaves has found. -/
structure LeafWalk where
  chain : List Nat
  records : Nat
  previous : Option Key
  highest : Nat
  mismatches : Nat

/-- The walk along the leaves, with the nodes that are left. -/
def auditLeaves (c : Catalog) (mode : AuditMode) (stage : Stage) :
    (left : Nat) → (index : Nat) → LeafWalk → CatalogPlan LeafWalk
  | 0, index, walk =>
    if index = 0 then pure walk
    else Plan.fail (corrupt stage
      s!"catalog leaf chain does not terminate within {c.totalNodes} nodes")
  | left + 1, index, walk =>
    if index = 0 then pure walk
    else do
      let (node, mismatches) ←
        auditNode c mode index 1 (walk.chain.getLastD 0) walk.mismatches stage
      let records := nodeRecords c node
      let (previous, highest) ← Plan.lift
        (auditRecords index stage records 0 walk.previous walk.highest)
      auditLeaves c mode stage left (fLink node)
        ⟨walk.chain ++ [index], walk.records + records.length, previous, highest, mismatches⟩

/-! ### The index levels -/

/-- The left spine, from a level down to the leaves. -/
def auditSpine (c : Catalog) (stage : Stage) : (level : Nat) → (index : Nat) →
    Except Failure (List Nat)
  | 0, _ => .ok []
  | 1, index => .ok [index]
  | level + 2, index => do
    let node ← catalogNodeReadRaw c index stage
    catalogNodeCheck c node index indexNode (level + 2) stage
    let spine ← auditSpine c stage (level + 1) (recordChild (nodeRecord c node 0))
    pure (index :: spine)

/-- The children of an index node against the chain of the level below. -/
def auditChildren (level index : Nat) (below : List Nat) (stage : Stage) :
    (children : List Nat) → (cursor : Nat) → Except Failure Nat
  | [], cursor => .ok cursor
  | child :: children, cursor =>
    if below[cursor]? = some child then auditChildren level index below stage children (cursor + 1)
    else .error (corrupt stage
      s!"level {level} child {cursor} of index node {index} is node {child}; the level below has {below.getD cursor 0} there")

/-- What the walk along a level of index nodes has found. -/
structure LevelWalk where
  chain : List Nat
  cursor : Nat
  mismatches : Nat

/-- The walk along a level of index nodes, with the nodes that are left. -/
def auditLevel (c : Catalog) (mode : AuditMode) (level : Nat) (below : List Nat) (stage : Stage) :
    (left : Nat) → (index : Nat) → LevelWalk → CatalogPlan LevelWalk
  | 0, index, walk =>
    if index = 0 then pure walk
    else Plan.fail (corrupt stage
      s!"the level-{level} chain does not terminate within {c.totalNodes} nodes")
  | left + 1, index, walk =>
    if index = 0 then pure walk
    else do
      let (node, mismatches) ←
        auditNode c mode index level (walk.chain.getLastD 0) walk.mismatches stage
      let cursor ← Plan.lift (auditChildren level index below stage
        ((nodeRecords c node).map recordChild) walk.cursor)
      auditLevel c mode level below stage left (fLink node)
        ⟨walk.chain ++ [index], cursor, mismatches⟩

/-- The index levels from a level up, with the first node of each: the count of the wrong links. -/
def auditLevels (c : Catalog) (mode : AuditMode) (stage : Stage) :
    (spine : List Nat) → (level : Nat) → (below : List Nat) → (mismatches : Nat) → CatalogPlan Nat
  | [], _, _, mismatches => pure mismatches
  | first :: spine, level, below, mismatches => do
    let walk ← auditLevel c mode level below stage c.totalNodes first ⟨[], 0, mismatches⟩
    if walk.cursor ≠ below.length then
      Plan.fail (corrupt stage
        s!"level {level} names {walk.cursor} children but the level below is a {below.length}-node chain")
    else auditLevels c mode stage spine (level + 1) walk.chain walk.mismatches

/-- `catalog_audit_index_levels`. -/
def catalogAuditIndexLevels (c : Catalog) (mode : AuditMode) (leafChain : List Nat)
    (mismatches : Nat) (stage : Stage) : CatalogPlan Nat := do
  if c.treeDepth < 2 then pure mismatches
  else do
    let spine ← Plan.lift (auditSpine c stage c.treeDepth c.rootNode)
    let firsts := spine.reverse
    if firsts.headD 0 ≠ c.firstLeaf then
      Plan.fail (corrupt stage
        s!"the tree's leftmost leaf is {firsts.headD 0} but the header's firstLeafNode is {c.firstLeaf}")
    else auditLevels c mode stage firsts.tail 2 leafChain mismatches

/-! ### The audit -/

/-- `HFS_FIRST_USER_CNID`. -/
abbrev firstUserCnid : Nat := 16

/-- `catalog_audit`: the count of the wrong links back, and the highest identity. -/
def catalogAudit (c : Catalog) (expectRecords : Nat) (mode : AuditMode) (stage : Stage) :
    CatalogPlan (Nat × Nat) := do
  if mode.repair ∧ ¬mode.permitRecovery then
    Plan.fail ⟨.invalidArgument, stage, 0, "catalog backlink repair requires its recovery audit"⟩
  else if c.firstLeaf = 0 ∨ c.firstLeaf ≥ c.totalNodes then
    Plan.fail (corrupt stage
      s!"B-tree header firstLeafNode {c.firstLeaf} is not a node of {c.totalNodes}")
  else do
    let walk ← auditLeaves c mode stage c.totalNodes c.firstLeaf
      ⟨[], 0, none, firstUserCnid - 1, 0⟩
    if walk.chain.getLastD 0 ≠ c.lastLeaf then
      Plan.fail (corrupt stage
        s!"catalog leaf chain ends at node {walk.chain.getLastD 0}, header says {c.lastLeaf}")
    else if walk.records ≠ expectRecords then
      Plan.fail (corrupt stage
        s!"catalog leaf chain holds {walk.records} records, header says {expectRecords}")
    else do
      let mismatches ← catalogAuditIndexLevels c mode walk.chain walk.mismatches stage
      pure (mismatches, walk.highest)

end S5LBox.Rootfs
