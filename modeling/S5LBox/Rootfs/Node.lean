import Mathlib.Data.List.Lex
import Mathlib.Data.Prod.Lex
import S5LBox.Lib.Octets
import S5LBox.Lib.Planning
import S5LBox.Rootfs.Host

/-!
# Nodes of the catalog

The catalog of the volume is a B-tree in the nodes of one fork. A node has a descriptor, records
from its front on, and the offsets of the records from its back on. Records begin with a key: the
identity of a folder and a name.

The extents of the fork are not modelled: its nodes are found one after the other.

## Main definitions

* `Catalog`, `catalogOpen`: the fork with its header, as far as the header has been checked.
* `Key`, `catalogKeyCompareRaw`: the keys and their order.
* `catalogNodeCheck`: the validation of one node.

## Main results

* `catalogKeyCompareRaw_eq`: the comparison is that of a linear order.
* `catalogNodeCheck_eq_ok`: what the validation establishes.
-/

namespace S5LBox.Rootfs

open Octets Planning

/-! ### The fork -/

/-- `HFS_BT_INDEX_NODE`. -/
abbrev indexNode : Nat := 0x00

/-- `HFS_BT_HEADER_NODE`. -/
abbrev headerNode : Nat := 0x01

/-- `HFS_BT_LEAF_NODE`. -/
abbrev leafNode : Nat := 0xff

/-- `HFS_NODE_DESCRIPTOR`. -/
abbrev nodeDescriptor : Nat := 14

/-- `HFS_MAX_TREE_DEPTH`. -/
abbrev maxTreeDepth : Nat := 8

/-- `HFS_NAME_MAX_UNITS`. -/
abbrev nameMaxUnits : Nat := 255

/-- `HFS_KEY_COMPARE_BINARY`. -/
abbrev keyCompareBinary : Nat := 0xbc

/-- A bit of the map of the nodes. -/
def mapBit (map : Buffer) (index : Nat) : Bool := (map.getD (index / 8) 0).getLsbD (7 - index % 8)

/-- The part of `catalog_ctx_t` that the search and the audit read: the fork, the header of the
tree and the map of its nodes, as `catalog_open` has checked them. -/
structure Catalog where
  fork : Buffer
  nodeSize : Nat
  treeDepth : Nat
  rootNode : Nat
  firstLeaf : Nat
  lastLeaf : Nat
  totalNodes : Nat
  freeNodes : Nat
  leafRecords : Nat
  nodeMap : Buffer
  nodeSize_range : 512 ≤ nodeSize ∧ nodeSize ≤ 32768
  depth_range : 0 < treeDepth ∧ treeDepth ≤ maxTreeDepth
  root_range : rootNode ≠ 0 ∧ rootNode < totalNodes
  leaf_range : firstLeaf < totalNodes ∧ lastLeaf < totalNodes
  free_le : freeNodes ≤ totalNodes
  fork_length : totalNodes * nodeSize = fork.length
  total_lt : totalNodes < 4294967296
  map_covers : totalNodes ≤ nodeMap.length * 8

/-- A number in hexadecimal with leading zeros. -/
def hexPad (width n : Nat) : String :=
  String.ofList (List.replicate (width - (Nat.toDigits 16 n).length) '0' ++ Nat.toDigits 16 n)

/-- `ROOTFS_WORK_PROVISION_CATALOG_CORRUPT`. -/
def corrupt (stage : Stage) (detail : String) : Failure :=
  ⟨.provisionCatalogCorrupt, stage, 0, detail⟩

/-- `catalog_slot`. -/
def catalogSlot (node : Buffer) (nodeSize index : Nat) : Nat :=
  get16 node (nodeSize - 2 * (index + 1))

/-- `catalog_record_count`. -/
def catalogRecordCount (node : Buffer) : Nat := get16 node 10

/-- The map of the nodes in the header node, as `catalog_node_map_open` locates it. -/
def catalogNodeMapOpen (node : Buffer) (totalNodes : Nat) (stage : Stage) :
    Except Failure {map : Buffer // totalNodes ≤ map.length * 8} :=
  let mapOffset := catalogSlot node node.length 2
  let mapEnd := catalogSlot node node.length 3
  let map := (node.drop mapOffset).take (mapEnd - mapOffset)
  if at8 node 8 ≠ headerNode ∨ at8 node 9 ≠ 0 ∨ catalogRecordCount node ≠ 3 then
    .error (corrupt stage
      s!"catalog node 0 is kind 0x{hexPad 2 (at8 node 8)} height {at8 node 9} with {catalogRecordCount node} records, not a 3-record B-tree header node")
  else if mapOffset < nodeDescriptor ∨ mapEnd ≤ mapOffset ∨ mapEnd > node.length - 8 then
    .error (corrupt stage
      s!"the header node's map record spans 0x{hexPad 4 mapOffset}..0x{hexPad 4 mapEnd} of a {node.length}-byte node")
  else if h : totalNodes ≤ map.length * 8 then .ok ⟨map, h⟩
  else
    .error ⟨.provisionUnsupported, stage, 0,
      s!"the {map.length}-byte node map covers {map.length * 8} of {totalNodes} nodes, so the rest is in chained map nodes this writer does not read"⟩

/-- `catalog_open`, from the header node on. -/
def catalogOpen (fork : Buffer) (stage : Stage) : Except Failure Catalog :=
  let treeDepth := get16 fork 14
  let rootNode := get32 fork 16
  let firstLeaf := get32 fork 24
  let lastLeaf := get32 fork 28
  let nodeSize := get16 fork 32
  let totalNodes := get32 fork 36
  let freeNodes := get32 fork 40
  let attributes := get32 fork 52
  if at8 fork 8 ≠ headerNode then
    .error (corrupt stage
      s!"catalog node 0 is kind 0x{hexPad 2 (at8 fork 8)}, not a B-tree header")
  else if hsize : (512 ≤ nodeSize ∧ nodeSize ≤ 32768) ∧ nodeSize &&& (nodeSize - 1) = 0 then
    if at8 fork 50 ≠ 0 ∨ at8 fork 51 ≠ keyCompareBinary then
      .error ⟨.provisionUnsupported, stage, 0,
        s!"catalog btreeType {at8 fork 50} keyCompareType 0x{hexPad 2 (at8 fork 51)}; only HFSX binary compare (0xbc) is supported"⟩
    else if attributes &&& 6 ≠ 6 then
      .error ⟨.provisionUnsupported, stage, 0,
        s!"catalog B-tree attributes 0x{hexPad 8 attributes} lack big or variable index keys"⟩
    else if hfork : totalNodes * nodeSize = fork.length then
      if hheader : (0 < treeDepth ∧ treeDepth ≤ maxTreeDepth) ∧
          (rootNode ≠ 0 ∧ rootNode < totalNodes) ∧
          (firstLeaf < totalNodes ∧ lastLeaf < totalNodes) ∧ freeNodes ≤ totalNodes then
        match catalogNodeMapOpen (fork.take nodeSize) totalNodes stage with
        | .error why => .error why
        | .ok map =>
          match [(0, "the header node"), (rootNode, "rootNode"), (firstLeaf, "firstLeafNode"),
            (lastLeaf, "lastLeafNode")].find? fun named => !mapBit map.1 named.1 with
          | some named =>
            .error (corrupt stage
              s!"the node map calls node {named.1} free, but it is {named.2}")
          | none => .ok ⟨fork, nodeSize, treeDepth, rootNode, firstLeaf, lastLeaf, totalNodes,
              freeNodes, get32 fork 20, map.1, hsize.1, hheader.1, hheader.2.1, hheader.2.2.1,
              hheader.2.2.2, hfork, get32_lt fork 36, map.2⟩
      else
        .error (corrupt stage
          s!"B-tree header depth {treeDepth} root {rootNode} firstLeaf {firstLeaf} lastLeaf {lastLeaf} freeNodes {freeNodes} against {totalNodes} nodes")
    else
      .error (corrupt stage
        s!"{totalNodes} nodes of {nodeSize} bytes is not the {fork.length}-byte catalog")
  else
    .error ⟨.provisionUnsupported, stage, 0,
      s!"catalog nodeSize {nodeSize} is not a power of two in 512..32768"⟩

/-- A node of the fork. -/
def Catalog.node (c : Catalog) (index : Nat) : Buffer :=
  (c.fork.drop (index * c.nodeSize)).take c.nodeSize

theorem Catalog.length_node (c : Catalog) {index : Nat} (h : index < c.totalNodes) :
    (c.node index).length = c.nodeSize := by
  have hmul : (index + 1) * c.nodeSize ≤ c.totalNodes * c.nodeSize := Nat.mul_le_mul_right _ h
  rw [Nat.add_mul, Nat.one_mul, c.fork_length] at hmul
  rw [Catalog.node, List.length_take, List.length_drop]
  omega

/-- `catalog_node_map_used`. -/
def catalogNodeMapUsed (c : Catalog) (index : Nat) : Bool :=
  index < c.totalNodes && mapBit c.nodeMap index

/-! ### Keys -/

/-- Names, in the order of their units. -/
def Name : Type := List Nat

instance : LinearOrder Name := inferInstanceAs (LinearOrder (List Nat))

/-- The key of a record: a folder and a name. -/
abbrev Key : Type := Nat ×ₗ Name

/-- The comparison of two names. -/
def compareUnits : Name → Name → Ordering
  | [], [] => .eq
  | [], _ :: _ => .lt
  | _ :: _, [] => .gt
  | left :: ls, right :: rs =>
    if left ≠ right then if left < right then .lt else .gt else compareUnits ls rs

/-- The name in the key of a record. -/
def recordUnits (record : Buffer) : Name :=
  (List.range (get16 record 6)).map fun unit => get16 record (8 + unit * 2)

/-- The key of a record. -/
def recordKey (record : Buffer) : Key := toLex (get32 record 2, recordUnits record)

/-- A record begins with a key. -/
def ValidKey (record : Buffer) : Prop :=
  8 ≤ record.length ∧ 6 ≤ get16 record 0 ∧ get16 record 0 + 2 ≤ record.length ∧
    get16 record 6 ≤ nameMaxUnits ∧ get16 record 6 * 2 + 6 ≤ get16 record 0

instance (record : Buffer) : Decidable (ValidKey record) :=
  inferInstanceAs (Decidable (_ ∧ _ ∧ _ ∧ _ ∧ _))

/-- `catalog_key_compare_raw`: how the key of the record compares, if it is one. -/
def catalogKeyCompareRaw (record : Buffer) (key : Key) : Option Ordering :=
  if record.length < 8 then none
  else if get16 record 0 < 6 ∨ get16 record 0 + 2 > record.length then none
  else if get16 record 6 > nameMaxUnits ∨ get16 record 6 * 2 + 6 > get16 record 0 then none
  else if get32 record 2 ≠ (ofLex key).1 then
    some (if get32 record 2 < (ofLex key).1 then .lt else .gt)
  else some (compareUnits (recordUnits record) (ofLex key).2)

section Names

variable {a b : Nat} {as bs : Name}

/-- A name from its first unit on. -/
def Name.cons (a : Nat) (as : Name) : Name := List.cons a as

theorem Name.cons_lt_cons (h : a < b ∨ a = b ∧ as < bs) : Name.cons a as < Name.cons b bs :=
  List.cons_lt_cons_iff.mpr h

theorem compareUnits_eq (as bs : Name) : compareUnits as bs = cmp as bs := by
  match as, bs with
  | [], [] => exact (cmp_self_eq_eq (α := Name) []).symm
  | [], b :: bs =>
    refine ((cmp_eq_lt_iff (α := Name) ..).mpr ?_).symm
    exact List.nil_lt_cons b bs
  | a :: as, [] =>
    refine ((cmp_eq_gt_iff (α := Name) ..).mpr ?_).symm
    exact List.nil_lt_cons a as
  | a :: as, b :: bs =>
    change compareUnits (a :: as) (b :: bs) = cmp (Name.cons a as) (Name.cons b bs)
    rw [compareUnits]
    rcases Nat.lt_trichotomy a b with hlt | rfl | hgt
    · rw [if_pos (by omega), if_pos hlt]
      exact ((cmp_eq_lt_iff ..).mpr (Name.cons_lt_cons (.inl hlt))).symm
    · rw [if_neg (not_not.mpr rfl), compareUnits_eq as bs]
      rcases lt_trichotomy (α := Name) as bs with h | rfl | h
      · rw [(cmp_eq_lt_iff (α := Name) ..).mpr h]
        exact ((cmp_eq_lt_iff ..).mpr (Name.cons_lt_cons (.inr ⟨rfl, h⟩))).symm
      · exact (cmp_self_eq_eq (α := Name) as).trans (cmp_self_eq_eq (Name.cons a as)).symm
      · rw [(cmp_eq_gt_iff (α := Name) ..).mpr h]
        exact ((cmp_eq_gt_iff ..).mpr (Name.cons_lt_cons (.inr ⟨rfl, h⟩))).symm
    · rw [if_pos (by omega), if_neg (by omega)]
      exact ((cmp_eq_gt_iff ..).mpr (Name.cons_lt_cons (.inl hgt))).symm

end Names

/-- The comparison is that of the linear order of the keys. -/
theorem catalogKeyCompareRaw_eq {record : Buffer} (h : ValidKey record) (key : Key) :
    catalogKeyCompareRaw record key = some (cmp (recordKey record) key) := by
  obtain ⟨h₁, h₂, h₃, h₄, h₅⟩ := h
  rw [catalogKeyCompareRaw, if_neg (by omega), if_neg (by omega), if_neg (by omega)]
  rcases Nat.lt_trichotomy (get32 record 2) (ofLex key).1 with hlt | hfst | hgt
  · rw [if_pos (by omega), if_pos hlt]
    exact congrArg some ((cmp_eq_lt_iff ..).mpr (Prod.Lex.lt_iff.mpr (.inl hlt))).symm
  · rw [if_neg (not_not.mpr hfst), compareUnits_eq]
    have hfst : (ofLex (recordKey record)).1 = (ofLex key).1 := hfst
    rcases lt_trichotomy (α := Name) (recordUnits record) (ofLex key).2 with h | h | h
    · rw [(cmp_eq_lt_iff ..).mpr h]
      exact congrArg some ((cmp_eq_lt_iff ..).mpr (Prod.Lex.lt_iff.mpr (.inr ⟨hfst, h⟩))).symm
    · have heq : recordKey record = key := congrArg toLex (Prod.ext hfst h)
      rw [heq, h, cmp_self_eq_eq, cmp_self_eq_eq]
    · rw [(cmp_eq_gt_iff ..).mpr h]
      exact congrArg some ((cmp_eq_gt_iff ..).mpr (Prod.Lex.lt_iff.mpr (.inr ⟨hfst.symm, h⟩))).symm
  · rw [if_pos (by omega), if_neg (by omega)]
    exact congrArg some ((cmp_eq_gt_iff ..).mpr (Prod.Lex.lt_iff.mpr (.inl hgt))).symm

/-! ### The validation of a node -/

/-- A record of a node. -/
def nodeRecord (c : Catalog) (node : Buffer) (index : Nat) : Buffer :=
  let offset := catalogSlot node c.nodeSize index
  (node.drop offset).take (catalogSlot node c.nodeSize (index + 1) - offset)

/-- The records of a node. -/
def nodeRecords (c : Catalog) (node : Buffer) : List Buffer :=
  (List.range (catalogRecordCount node)).map (nodeRecord c node)

/-- `catalog_record_data_offset`. -/
def catalogRecordDataOffset (record : Buffer) : Nat :=
  let offset := 2 + get16 record 0
  if offset % 2 ≠ 0 then offset + 1 else offset

/-- The child that the record of an index node names. -/
def recordChild (record : Buffer) : Nat := get32 record (catalogRecordDataOffset record)

/-- A slot of the offsets that is not in order. -/
def slotFaulty (c : Catalog) (node : Buffer) (index : Nat) : Bool :=
  let offset := catalogSlot node c.nodeSize index
  offset % 2 ≠ 0 ∨ offset > c.nodeSize - 2 * (catalogRecordCount node + 1) ∨
    if index = 0 then offset ≠ nodeDescriptor
    else offset ≤ catalogSlot node c.nodeSize (index - 1)

/-- The octets that the body of a leaf record of a type has at least. -/
def neededBytes : Nat → Option Nat
  | 1 => some 88
  | 2 => some 248
  | 3 => some 10
  | 4 => some 10
  | _ => none

/-- What is wrong with a record. -/
def recordFault (c : Catalog) (index kind : Nat) (stage : Stage) (node : Buffer) (i : Nat) :
    Option Failure :=
  let record := nodeRecord c node i
  let dataOffset := catalogRecordDataOffset record
  if ¬ValidKey record then
    some (corrupt stage s!"catalog node {index} record {i} has a malformed key")
  else if kind = indexNode then
    if dataOffset + 4 > record.length then
      some (corrupt stage s!"catalog index node {index} record {i} has no child pointer")
    else if recordChild record = 0 ∨ recordChild record ≥ c.totalNodes then
      some (corrupt stage
        s!"catalog index node {index} record {i} points at node {recordChild record} of {c.totalNodes}")
    else none
  else if dataOffset + 2 > record.length then
    some (corrupt stage s!"catalog leaf {index} record {i} has no record type")
  else match neededBytes (get16 record dataOffset) with
    | none => some (corrupt stage
        s!"catalog leaf {index} record {i} has record type {get16 record dataOffset}")
    | some needed =>
      if dataOffset + needed > record.length then
        some (corrupt stage
          s!"catalog leaf {index} record {i} is {record.length} bytes, too short for its type")
      else none

/-- `catalog_node_check`. -/
def catalogNodeCheck (c : Catalog) (node : Buffer) (index kind height : Nat) (stage : Stage) :
    Except Failure Unit :=
  let count := catalogRecordCount node
  if at8 node 8 ≠ kind ∨ at8 node 9 ≠ height then
    .error (corrupt stage
      s!"catalog node {index} is kind 0x{hexPad 2 (at8 node 8)} height {at8 node 9}, expected 0x{hexPad 2 kind}/{height}")
  else if count = 0 ∨ nodeDescriptor + 2 * (count + 1) > c.nodeSize then
    .error (corrupt stage s!"catalog node {index} claims {count} records")
  else match (List.range (count + 1)).find? (slotFaulty c node) with
    | some i =>
      let previous := if i = 0 then nodeDescriptor else catalogSlot node c.nodeSize (i - 1)
      .error (corrupt stage
        s!"catalog node {index} offset slot {i} is 0x{hexPad 4 (catalogSlot node c.nodeSize i)} after 0x{hexPad 4 previous} (limit 0x{hexPad 4 (c.nodeSize - 2 * (count + 1))})")
    | none =>
      match (List.range count).findSome? (recordFault c index kind stage node) with
      | some why => .error why
      | none => .ok ()

/-- What a record of a node of a kind must be. -/
def SoundRecord (c : Catalog) (kind : Nat) (record : Buffer) : Prop :=
  ValidKey record ∧
    if kind = indexNode then
      catalogRecordDataOffset record + 4 ≤ record.length ∧ recordChild record ≠ 0 ∧
        recordChild record < c.totalNodes
    else
      catalogRecordDataOffset record + 2 ≤ record.length ∧
        ∃ needed, neededBytes (get16 record (catalogRecordDataOffset record)) = some needed ∧
          catalogRecordDataOffset record + needed ≤ record.length

/-- What the validation of a node establishes. -/
structure SoundNode (c : Catalog) (node : Buffer) (kind height : Nat) : Prop where
  hasKind : at8 node 8 = kind
  hasHeight : at8 node 9 = height
  pos : 0 < catalogRecordCount node
  fits : nodeDescriptor + 2 * (catalogRecordCount node + 1) ≤ c.nodeSize
  slots : ∀ i ≤ catalogRecordCount node, slotFaulty c node i = false
  records : ∀ record ∈ nodeRecords c node, SoundRecord c kind record

variable {i : Nat}

theorem recordFault_eq_none {c : Catalog} {index kind : Nat} {stage : Stage} {node : Buffer} :
    recordFault c index kind stage node i = none ↔ SoundRecord c kind (nodeRecord c node i) := by
  rw [recordFault, SoundRecord]
  by_cases hkey : ValidKey (nodeRecord c node i)
  · rw [if_neg (not_not.mpr hkey)]
    by_cases hkind : kind = indexNode
    · rw [if_pos hkind, if_pos hkind]
      split_ifs with h₁ h₂
      · exact ⟨(nomatch ·), fun h => by omega⟩
      · exact ⟨(nomatch ·), fun h => by omega⟩
      · exact ⟨fun _ => ⟨hkey, by omega, by omega, by omega⟩, fun _ => rfl⟩
    · rw [if_neg hkind, if_neg hkind]
      split_ifs with h₁
      · exact ⟨(nomatch ·), fun h => by omega⟩
      · match neededBytes _ with
        | none => exact ⟨(nomatch ·), fun ⟨_, _, _, h, _⟩ => nomatch h⟩
        | some needed =>
          dsimp only
          split_ifs with h₂
          · refine ⟨(nomatch ·), ?_⟩
            rintro ⟨_, _, _, ⟨⟩, h⟩
            omega
          · exact ⟨fun _ => ⟨hkey, by omega, needed, rfl, by omega⟩, fun _ => rfl⟩
  · rw [if_pos hkey]
    exact ⟨(nomatch ·), fun h => absurd h.1 hkey⟩

/-- A node passes the validation when it is sound. -/
theorem catalogNodeCheck_eq_ok {c : Catalog} {node : Buffer} {index kind height : Nat}
    {stage : Stage} :
    catalogNodeCheck c node index kind height stage = .ok () ↔ SoundNode c node kind height := by
  rw [catalogNodeCheck]
  dsimp only
  constructor
  · intro h
    split_ifs at h with h₁ h₂
    split at h
    · cases h
    · rename_i hslots
      split at h
      · cases h
      · rename_i hrecords
        have hslots := List.find?_eq_none.mp hslots
        have hrecords := List.findSome?_eq_none_iff.mp hrecords
        refine ⟨by omega, by omega, by omega, by omega, fun i hi => ?_, ?_⟩
        · simpa using hslots i (List.mem_range.mpr (by omega))
        · intro record hrecord
          obtain ⟨i, hi, rfl⟩ := List.mem_map.mp hrecord
          exact recordFault_eq_none.mp (hrecords i hi)
  · intro h
    have hslots : (List.range (catalogRecordCount node + 1)).find? (slotFaulty c node) = none := by
      refine List.find?_eq_none.mpr fun i hi => ?_
      rw [h.slots i (Nat.le_of_lt_succ (List.mem_range.mp hi))]
      exact Bool.false_ne_true
    have hrecords : (List.range (catalogRecordCount node)).findSome?
        (recordFault c index kind stage node) = none := by
      refine List.findSome?_eq_none_iff.mpr fun i hi => recordFault_eq_none.mpr ?_
      exact h.records _ (List.mem_map_of_mem hi)
    have hpos := h.pos
    have hfits := h.fits
    rw [if_neg (by rw [h.hasKind, h.hasHeight]; omega), if_neg (by omega), hslots]
    dsimp only
    rw [hrecords]

/-! ### Sound nodes -/

namespace SoundNode

variable {c : Catalog} {node node' : Buffer} {kind height : Nat}

theorem slot_zero (h : SoundNode c node kind height) :
    catalogSlot node c.nodeSize 0 = nodeDescriptor := by
  have hslot := h.slots 0 (Nat.zero_le _)
  rw [slotFaulty] at hslot
  simp only [decide_eq_false_iff_not, if_pos, not_or, not_not] at hslot
  exact hslot.2.2

theorem slot_lt (h : SoundNode c node kind height) (hi : i < catalogRecordCount node) :
    catalogSlot node c.nodeSize i < catalogSlot node c.nodeSize (i + 1) := by
  have hslot := h.slots (i + 1) hi
  rw [slotFaulty] at hslot
  simp only [decide_eq_false_iff_not, Nat.succ_ne_zero, if_false, not_or, Nat.add_sub_cancel]
    at hslot
  omega

theorem le_slot (h : SoundNode c node kind height) (hi : i ≤ catalogRecordCount node) :
    nodeDescriptor ≤ catalogSlot node c.nodeSize i := by
  induction i with
  | zero => exact h.slot_zero.ge
  | succ i ih => exact (ih (by omega)).trans (h.slot_lt hi).le

theorem records_ne_nil (h : SoundNode c node kind height) : nodeRecords c node ≠ [] := by
  rw [nodeRecords, Ne, List.map_eq_nil_iff, List.range_eq_nil]
  exact h.pos.ne'

theorem valid (h : SoundNode c node kind height) : ∀ record ∈ nodeRecords c node, ValidKey record :=
  fun record hr => (h.records record hr).1

end SoundNode

/-- Two nodes differ at most in their links. -/
structure SameBody (node node' : Buffer) : Prop where
  length : node'.length = node.length
  body : node'.drop 8 = node.drop 8

/-- Two nodes differ at most in the link back. -/
structure Alike (node node' : Buffer) : Prop extends SameBody node node' where
  link : node'.take 4 = node.take 4

theorem Alike.rfl {node : Buffer} : Alike node node := ⟨⟨.refl _, .refl _⟩, .refl _⟩

theorem Alike.symm {node node' : Buffer} (h : Alike node node') : Alike node' node :=
  ⟨⟨h.length.symm, h.body.symm⟩, h.link.symm⟩

theorem Alike.trans {a b d : Buffer} (h : Alike a b) (h' : Alike b d) : Alike a d :=
  ⟨⟨h'.length.trans h.length, h'.body.trans h.body⟩, h'.link.trans h.link⟩

/-- The next node of the chain that a node is in. -/
def fLink (node : Buffer) : Nat := get32 node 0

/-- The node before in the chain that a node is in. -/
def bLink (node : Buffer) : Nat := get32 node 4

theorem Alike.fLink_eq {node node' : Buffer} (h : Alike node node') : fLink node' = fLink node := by
  refine get32_congr fun i _ hi => ?_
  have hoctet : (node'.take 4).getD i 0 = (node.take 4).getD i 0 := by rw [h.link]
  rw [List.getD_eq_getElem?_getD, List.getD_eq_getElem?_getD, List.getElem?_take_of_lt (by omega),
    List.getElem?_take_of_lt (by omega)] at hoctet
  rw [at8, at8, List.getD_eq_getElem?_getD, List.getD_eq_getElem?_getD, hoctet]

namespace SameBody

variable {c : Catalog} {node node' : Buffer} {kind height : Nat}

theorem at8_eq (h : SameBody node node') (hi : 8 ≤ i) : at8 node' i = at8 node i := by
  have hoctet : (node'.drop 8).getD (i - 8) 0 = (node.drop 8).getD (i - 8) 0 := by rw [h.body]
  rw [List.getD_eq_getElem?_getD, List.getD_eq_getElem?_getD, List.getElem?_drop,
    List.getElem?_drop, Nat.add_sub_cancel' hi] at hoctet
  rw [at8, at8, List.getD_eq_getElem?_getD, List.getD_eq_getElem?_getD, hoctet]

theorem get16_eq (h : SameBody node node') (hi : 8 ≤ i) :
    get16 node' i = get16 node i :=
  get16_congr (h.at8_eq hi) (h.at8_eq (by omega))

theorem count_eq (h : SameBody node node') : catalogRecordCount node' = catalogRecordCount node :=
  h.get16_eq (by omega)

theorem slot_eq (h : SameBody node node') (hs : SoundNode c node kind height)
    (hi : i ≤ catalogRecordCount node) :
    catalogSlot node' c.nodeSize i = catalogSlot node c.nodeSize i := by
  have hfits : 14 + 2 * (catalogRecordCount node + 1) ≤ c.nodeSize := hs.fits
  exact h.get16_eq (by omega)

theorem record_eq (h : SameBody node node') (hs : SoundNode c node kind height)
    (hi : i < catalogRecordCount node) : nodeRecord c node' i = nodeRecord c node i := by
  have hge : 14 ≤ catalogSlot node c.nodeSize i := hs.le_slot (by omega)
  have hdrop {b : Buffer} {o : Nat} (ho : 8 ≤ o) : b.drop o = (b.drop 8).drop (o - 8) := by
    rw [List.drop_drop, Nat.add_sub_cancel' ho]
  rw [nodeRecord, nodeRecord, h.slot_eq hs hi, h.slot_eq hs (by omega), hdrop (by omega), h.body,
    ← hdrop (by omega)]

theorem records_eq (h : SameBody node node') (hs : SoundNode c node kind height) :
    nodeRecords c node' = nodeRecords c node := by
  rw [nodeRecords, nodeRecords, h.count_eq]
  exact List.map_congr_left fun i hi => h.record_eq hs (List.mem_range.mp hi)

/-- The validation does not look at the links. -/
theorem sound (h : SameBody node node') (hs : SoundNode c node kind height) :
    SoundNode c node' kind height where
  hasKind := by rw [h.at8_eq (by omega), hs.hasKind]
  hasHeight := by rw [h.at8_eq (by omega), hs.hasHeight]
  pos := by
    rw [h.count_eq]
    exact hs.pos
  fits := by
    rw [h.count_eq]
    exact hs.fits
  slots := fun i hi => by
    rw [h.count_eq] at hi
    have hslot := hs.slots i hi
    rwa [slotFaulty, h.slot_eq hs hi, h.slot_eq hs (i := i - 1) (by omega), h.count_eq]
  records := by
    rw [h.records_eq hs]
    exact hs.records

end SameBody

end S5LBox.Rootfs
