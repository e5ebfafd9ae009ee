import S5LBox.Lib.RoutingTree
import S5LBox.Rootfs.Node

/-!
# Searching the catalog

The nodes that a request has touched are cached. A search descends from the root on the keys of
the index nodes, and validates every node that it comes to.

## Main definitions

* `Cache`, `catalogNodeLoad`: the cached nodes.
* `catalogSearch`: the search for a key.
* `catalogNodeParent`: the index node that files a node under the first key of the node.

## Main results

* `catalogNodeLoad_ok`: a node that is cached or fits is found, and the others stay.
* `searchFrom_ok`: over sound nodes, the search comes to the leaf that the keys lead to.
-/

namespace S5LBox.Rootfs

open Octets Planning RoutingTree

/-! ### The cache -/

/-- `catalog_node_cache_t`. -/
structure Cached where
  index : Nat
  bytes : Buffer
  dirty : Bool

/-- The cached nodes. -/
abbrev Cache := List Cached

/-- `ROOTFS_WORK_MAX_CATALOG_NODES`. -/
abbrev maxCatalogNodes : Nat := 4096

/-- A part of a request: it works on the cache. -/
abbrev CatalogPlan (α : Type) := Plan Failure Cache α

/-- `catalog_node_read_raw`. -/
def catalogNodeReadRaw (c : Catalog) (index : Nat) (stage : Stage) : Except Failure Buffer :=
  if index ≥ c.totalNodes then
    .error (corrupt stage s!"catalog node {index} is outside the {c.fork.length}-byte fork")
  else .ok (c.node index)

/-- `catalog_node_load`. -/
def catalogNodeLoad (c : Catalog) (index : Nat) (stage : Stage) : CatalogPlan Buffer := fun cache =>
  match cache.find? (·.index = index) with
  | some cached => .ok (cached.bytes, cache)
  | none =>
    if cache.length ≥ maxCatalogNodes then
      .error ⟨.provisionLimit, stage, 0,
        s!"this request touches more than {maxCatalogNodes} catalog nodes"⟩
    else (catalogNodeReadRaw c index stage).map fun bytes =>
      (bytes, cache ++ [⟨index, bytes, false⟩])

/-- The cache with a node changed and marked. -/
def changed (index : Nat) (f : Buffer → Buffer) (cache : Cache) : Cache :=
  cache.map fun cached =>
    if cached.index = index then { cached with bytes := f cached.bytes, dirty := true } else cached

/-- A change of a cached node, which `catalog_node_dirty` marks. -/
def catalogNodeChange (index : Nat) (f : Buffer → Buffer) : CatalogPlan Unit :=
  Plan.update (changed index f)

/-- What a node holds for the request: what is cached, or what is in the fork. -/
def nodeView (c : Catalog) (cache : Cache) (index : Nat) : Buffer :=
  match cache.find? (·.index = index) with
  | some cached => cached.bytes
  | none => c.node index

/-! ### One node -/

/-- The kind of the nodes of a level. -/
def levelKind (level : Nat) : Nat := if level = 1 then leafNode else indexNode

/-- The last record before the first with a greater key, and how its key compares, from a position
on; or the position of a malformed key. -/
def bestRecord (key : Key) :
    (records : List Buffer) → (position : Nat) → Option (Nat × Ordering) →
      Except Nat (Option (Nat × Ordering))
  | [], _, best => .ok best
  | record :: records, position, best =>
    match catalogKeyCompareRaw record key with
    | none => .error position
    | some .gt => .ok best
    | some order => bestRecord key records (position + 1) (some (position, order))

/-! ### The search -/

/-- The loop of `catalog_search`, at a node of a level: the leaf, the position, and whether the key
is there. -/
def searchFrom (c : Catalog) (key : Key) (stage : Stage) :
    (level : Nat) → (index : Nat) → CatalogPlan (Nat × Nat × Bool)
  | 0, _ => Plan.fail (corrupt stage s!"catalog descent ran past treeDepth {c.treeDepth}")
  | level + 1, index => do
    let node ← catalogNodeLoad c index stage
    Plan.lift (catalogNodeCheck c node index (levelKind (level + 1)) (level + 1) stage)
    match bestRecord key (nodeRecords c node) 0 none with
    | .error record =>
      Plan.fail (corrupt stage
        s!"catalog node {index} record {record} key became unreadable during search")
    | .ok best =>
      if level = 0 then
        match best with
        | some (position, .eq) => pure (index, position, true)
        | some (position, _) => pure (index, position + 1, false)
        | none => pure (index, 0, false)
      else
        -- Below every key of the node, the leftmost child is the only one that can hold the key.
        let position := (best.map Prod.fst).getD 0
        searchFrom c key stage level (recordChild (nodeRecord c node position))

/-- `catalog_search`. -/
def catalogSearch (c : Catalog) (key : Key) (stage : Stage) : CatalogPlan (Nat × Nat × Bool) :=
  searchFrom c key stage c.treeDepth c.rootNode

/-- The loop of `catalog_node_parent`, down to the level above a node: the parent and the position
in it. -/
def parentFrom (c : Catalog) (node : Nat) (key : Key) (nodeLevel : Nat) (stage : Stage) :
    (levels : Nat) → (index : Nat) → CatalogPlan (Nat × Nat)
  | 0, _ =>
    Plan.fail (corrupt stage s!"the descent for node {node} never reached level {nodeLevel + 1}")
  | levels + 1, index => do
    let bytes ← catalogNodeLoad c index stage
    Plan.lift (catalogNodeCheck c bytes index indexNode (nodeLevel + levels + 1) stage)
    match bestRecord key (nodeRecords c bytes) 0 none with
    | .error record =>
      Plan.fail (corrupt stage
        s!"index node {index} record {record} key became unreadable while locating node {node}'s parent")
    | .ok best =>
      let position := (best.map Prod.fst).getD 0
      let child := recordChild (nodeRecord c bytes position)
      if levels = 0 then
        if child ≠ node then
          Plan.fail (corrupt stage
            s!"the level-{nodeLevel + 1} index node {index} files node {node}'s own first key under child {child}")
        else pure (index, position)
      else parentFrom c node key nodeLevel stage levels child

/-- `catalog_node_parent`. -/
def catalogNodeParent (c : Catalog) (node nodeLevel : Nat) (stage : Stage) :
    CatalogPlan (Nat × Nat) := do
  if nodeLevel ≥ c.treeDepth then
    Plan.fail (corrupt stage
      s!"node {node} at level {nodeLevel} has no parent in a depth-{c.treeDepth} tree")
  else do
    let bytes ← catalogNodeLoad c node stage
    let record := nodeRecord c bytes 0
    if get16 record 6 > nameMaxUnits then
      Plan.fail (corrupt stage s!"node {node} begins with a {get16 record 6}-unit key")
    else
      parentFrom c node (recordKey record) nodeLevel stage (c.treeDepth - nodeLevel) c.rootNode

/-! ### What the cache holds -/

/-- A node is cached. -/
def Holds (cache : Cache) (index : Nat) : Prop := ∃ cached ∈ cache, cached.index = index

/-- Up to the links back, the request sees the nodes `v`. -/
structure Coherent (c : Catalog) (v : Nat → Buffer) (cache : Cache) : Prop where
  range : ∀ cached ∈ cache, cached.index < c.totalNodes
  sized : ∀ index < c.totalNodes, (v index).length = c.nodeSize
  alike : ∀ index < c.totalNodes, Alike (v index) (nodeView c cache index)

/-- Some nodes are cached, or there is room for a count of them. -/
def Room (cache : Cache) (nodes : Nat → Prop) (count : Nat) : Prop :=
  (∀ index, nodes index → Holds cache index) ∨ cache.length + count ≤ maxCatalogNodes

variable {c : Catalog} {v : Nat → Buffer} {cache cache' : Cache} {index : Nat} {stage : Stage}
  {nodes : Nat → Prop} {count : Nat}

theorem coherent_nil (c : Catalog) : Coherent c c.node [] :=
  ⟨fun _ h => (List.not_mem_nil h).elim, fun _ h => c.length_node h, fun _ _ => .rfl⟩

theorem holds_iff : Holds cache index ↔ (cache.find? (·.index = index)).isSome = true := by
  rw [Holds, List.find?_isSome]
  simp only [decide_eq_true_eq]

/-- The nodes that are seen with one more node cached as it is in the fork. -/
theorem nodeView_append (index j : Nat) :
    nodeView c (cache ++ [⟨index, c.node index, false⟩]) j = nodeView c cache j := by
  rw [nodeView, nodeView, List.find?_append]
  match hfind : cache.find? (·.index = j) with
  | some cached =>
    rw [hfind]
    rfl
  | none =>
    rw [hfind, Option.none_or, List.find?_singleton]
    by_cases hij : index = j
    · subst hij
      simp
    · simp [hij]

theorem Coherent.append (h : Coherent c v cache) (hindex : index < c.totalNodes) :
    Coherent c v (cache ++ [⟨index, c.node index, false⟩]) where
  range := fun cached hc => by
    rcases List.mem_append.mp hc with hc | hc
    · exact h.range cached hc
    · rw [List.mem_singleton.mp hc]
      exact hindex
  sized := h.sized
  alike := fun j hj => by
    rw [nodeView_append]
    exact h.alike j hj

/-- A node that is loaded is a node of the tree, and it is as the request sees it. -/
theorem catalogNodeLoad_spec (h : Coherent c v cache) {bytes : Buffer}
    (hload : catalogNodeLoad c index stage cache = .ok (bytes, cache')) :
    index < c.totalNodes ∧ Alike (v index) bytes ∧ Coherent c v cache' ∧ Holds cache' index ∧
      ∀ j, Holds cache j → Holds cache' j := by
  rw [catalogNodeLoad] at hload
  match hfind : cache.find? (·.index = index) with
  | some cached =>
    rw [hfind] at hload
    cases hload
    have hholds : Holds cache index := by
      rw [holds_iff, hfind]
      rfl
    have hindex : index < c.totalNodes := by
      obtain ⟨e, he, rfl⟩ := hholds
      exact h.range e he
    have hview := h.alike index hindex
    rw [nodeView, hfind] at hview
    exact ⟨hindex, hview, h, hholds, fun _ hj => hj⟩
  | none =>
    rw [hfind] at hload
    dsimp only at hload
    rw [catalogNodeReadRaw] at hload
    split_ifs at hload with hlen hindex
    · cases hload
    · cases hload
      have hindex : index < c.totalNodes := not_le.mp hindex
      have hview := h.alike index hindex
      rw [nodeView, hfind] at hview
      refine ⟨hindex, hview, h.append hindex, ⟨_, List.mem_append_right _
        (List.mem_singleton_self _), rfl⟩, ?_⟩
      rintro j ⟨e, he, hj⟩
      exact ⟨e, List.mem_append_left _ he, hj⟩

/-- A node that is cached, or for which there is room, is loaded. -/
theorem catalogNodeLoad_ok (hindex : index < c.totalNodes)
    (hnode : nodes index) (hroom : Room cache nodes (count + 1)) :
    ∃ bytes cache', catalogNodeLoad c index stage cache = .ok (bytes, cache') ∧
      Room cache' nodes count := by
  rw [catalogNodeLoad]
  match hfind : cache.find? (·.index = index) with
  | some cached =>
    rw [hfind]
    exact ⟨_, _, rfl, hroom.imp_right fun _ => by omega⟩
  | none =>
    rw [hfind]
    have hmiss : ¬Holds cache index := by
      rw [holds_iff, hfind]
      exact Bool.false_ne_true
    have hlen : cache.length + (count + 1) ≤ maxCatalogNodes :=
      hroom.resolve_left fun hall => hmiss (hall index hnode)
    dsimp only
    rw [if_neg (by omega), catalogNodeReadRaw, if_neg (by omega)]
    refine ⟨_, _, rfl, .inr ?_⟩
    rw [List.length_append, List.length_singleton]
    omega

theorem find?_changed (index : Nat) (f : Buffer → Buffer) (cache : Cache) (j : Nat) :
    (changed index f cache).find? (·.index = j) = (cache.find? (·.index = j)).map fun cached =>
      if cached.index = index then { cached with bytes := f cached.bytes, dirty := true }
      else cached := by
  rw [changed, List.find?_map]
  congr 2
  funext cached
  dsimp only [Function.comp]
  split_ifs <;> rfl

theorem holds_changed {j : Nat} {f : Buffer → Buffer} :
    Holds (changed index f cache) j ↔ Holds cache j := by
  rw [holds_iff, holds_iff, find?_changed, Option.isSome_map]

/-- The node that has been changed, where it is cached. -/
theorem nodeView_changed_self {f : Buffer → Buffer} (h : Holds cache index) :
    nodeView c (changed index f cache) index = f (nodeView c cache index) := by
  rw [nodeView, nodeView, find?_changed]
  rw [holds_iff] at h
  match hfind : cache.find? (·.index = index) with
  | none =>
    rw [hfind] at h
    cases h
  | some cached =>
    have hindex : cached.index = index := by simpa using List.find?_some hfind
    rw [hfind, Option.map_some, if_pos hindex]

/-- The other nodes, and one that is not cached, are seen as before. -/
theorem nodeView_changed_of_not {j : Nat} {f : Buffer → Buffer} (h : j = index → ¬Holds cache j) :
    nodeView c (changed index f cache) j = nodeView c cache j := by
  rw [nodeView, nodeView, find?_changed]
  rw [holds_iff] at h
  match hfind : cache.find? (·.index = j) with
  | none =>
    rw [hfind]
    rfl
  | some cached =>
    have hindex : cached.index = j := by simpa using List.find?_some hfind
    have hne : cached.index ≠ index := by
      rw [hindex]
      intro hj
      rw [hfind] at h
      exact h hj rfl
    rw [hfind, Option.map_some, if_neg hne]

/-! ### The choice at one node -/

/-- The scan of the records of a node, as a scan of their keys. -/
theorem bestRecord_eq {records : List Buffer} (h : ∀ record ∈ records, ValidKey record) (key : Key)
    (position : Nat) (best : Option (Nat × Ordering)) :
    bestRecord key records position best =
      .ok (match ((records.map recordKey).takeWhile (· ≤ key)).getLast? with
        | none => best
        | some q => some (position + ((records.map recordKey).takeWhile (· ≤ key)).length - 1,
            cmp q key)) := by
  induction records generalizing position best with
  | nil => rfl
  | cons record records ih =>
    have hvalid := h record List.mem_cons_self
    have ih := ih fun r hr => h r (List.mem_cons_of_mem _ hr)
    rw [bestRecord, catalogKeyCompareRaw_eq hvalid, List.map_cons]
    by_cases hle : recordKey record ≤ key
    · have hstep : bestRecord key records (position + 1)
          (some (position, cmp (recordKey record) key)) = _ := ih _ _
      have hne : cmp (recordKey record) key ≠ .gt := by
        rw [Ne, cmp_eq_gt_iff]
        exact not_lt.mpr hle
      rw [List.takeWhile_cons_of_pos (by simpa using hle), List.getLast?_cons]
      generalize (records.map recordKey).takeWhile (· ≤ key) = prior at hstep
      have hgoal : bestRecord key records (position + 1)
          (some (position, cmp (recordKey record) key)) =
            .ok (some (position + (recordKey record :: prior).length - 1,
              cmp (prior.getLast?.getD (recordKey record)) key)) := by
        rw [hstep]
        match hlast : prior.getLast? with
        | none =>
          rw [List.getLast?_eq_none_iff] at hlast
          rw [hlast]
          rfl
        | some q =>
          dsimp only [List.length_cons, Option.getD_some]
          congr 3
          omega
      cases horder : cmp (recordKey record) key with
      | lt =>
        rw [horder] at hgoal
        exact hgoal
      | eq =>
        rw [horder] at hgoal
        exact hgoal
      | gt => exact absurd horder hne
    · have hgt : cmp (recordKey record) key = .gt :=
        (cmp_eq_gt_iff ..).mpr (not_le.mp hle)
      rw [hgt, List.takeWhile_cons_of_neg (by simpa using hle)]
      rfl

/-- The tree in the nodes `v`. -/
def catalogGraph (c : Catalog) (v : Nat → Buffer) : RoutingTree.Graph Key Nat where
  keys index := (nodeRecords c (v index)).map recordKey
  kids index := (nodeRecords c (v index)).map recordChild

/-- The child that a scan of an index node chooses. -/
theorem chosen_child {node : Buffer} {kind height : Nat} (hs : SoundNode c node kind height)
    (key : Key) (n : Nat) {best : Option (Nat × Ordering)}
    (hbest : bestRecord key (nodeRecords c node) 0 none = .ok best) :
    recordChild (nodeRecord c node ((best.map Prod.fst).getD 0)) =
      ((nodeRecords c node).map recordChild).getD
        (route ((nodeRecords c node).map recordKey) key) n := by
  have hroute : (best.map Prod.fst).getD 0 = route ((nodeRecords c node).map recordKey) key := by
    rw [bestRecord_eq hs.valid, Except.ok.injEq] at hbest
    rw [← hbest, route]
    cases hlast : (((nodeRecords c node).map recordKey).takeWhile (· ≤ key)).getLast? with
    | none =>
      rw [List.getLast?_eq_none_iff] at hlast
      rw [hlast]
      rfl
    | some q =>
      dsimp only [Option.map_some, Option.getD_some]
      rw [Nat.zero_add]
  have hlt : route ((nodeRecords c node).map recordKey) key < _ :=
    route_lt (by simpa using hs.records_ne_nil) key
  rw [List.length_map] at hlt
  rw [hroute, List.getD_eq_getElem?_getD, List.getElem?_map, List.getElem?_eq_getElem hlt,
    Option.map_some, Option.getD_some]
  simp only [nodeRecords, List.getElem_map, List.getElem_range]

/-! ### The search over sound nodes -/

/-- The nodes below a node of a height are sound. -/
def SoundTree (c : Catalog) (v : Nat → Buffer) : Nat → Nat → Prop
  | 0, index => index < c.totalNodes ∧ SoundNode c (v index) leafNode 1
  | l + 1, index => index < c.totalNodes ∧ SoundNode c (v index) indexNode (l + 2) ∧
      ∀ child ∈ (catalogGraph c v).kids index, SoundTree c v l child

theorem SoundTree.shaped {l : Nat} (h : SoundTree c v l index) :
    Shaped (catalogGraph c v) l index := by
  induction l generalizing index with
  | zero => exact List.map_eq_nil_iff.not.mpr h.2.records_ne_nil
  | succ l ih =>
    refine ⟨List.map_eq_nil_iff.not.mpr h.2.1.records_ne_nil, ?_, fun child hchild => ?_⟩
    · rw [catalogGraph, List.length_map, List.length_map]
    · exact ih (h.2.2 child hchild)

/-- Where a key stands among the keys of a leaf, and whether it is there. -/
def placeIn (keys : List Key) (key : Key) : Nat × Bool :=
  match (keys.takeWhile (· ≤ key)).getLast? with
  | none => (0, false)
  | some q =>
    if q = key then ((keys.takeWhile (· ≤ key)).length - 1, true)
    else ((keys.takeWhile (· ≤ key)).length, false)

/-- Over sound nodes, the search comes to the leaf that the keys lead to. -/
theorem searchFrom_ok {l : Nat} (hs : SoundTree c v l index) (hc : Coherent c v cache)
    (hroom : Room cache (· ∈ RoutingTree.nodes (catalogGraph c v) l index) (l + 1)) (key : Key)
    (stage : Stage) :
    ∃ cache', searchFrom c key stage (l + 1) index cache =
        .ok ((descend (catalogGraph c v) key l index,
          placeIn ((catalogGraph c v).keys (descend (catalogGraph c v) key l index)) key), cache') ∧
      Coherent c v cache' := by
  induction l generalizing index cache with
  | zero =>
    obtain ⟨bytes, cache', hload, _⟩ :=
      catalogNodeLoad_ok (c := c) hs.1 (mem_nodes_self _ _) hroom
    obtain ⟨_, halike, hc', _⟩ := catalogNodeLoad_spec hc hload
    have hsound := halike.sound hs.2
    have hrecords := halike.records_eq hs.2
    refine ⟨cache', ?_, hc'⟩
    rw [searchFrom, bind_of_ok hload, show levelKind (0 + 1) = leafNode from rfl,
      catalogNodeCheck_eq_ok.mpr hsound, bind_of_ok (lift_ok _), hrecords,
      bestRecord_eq hs.2.valid]
    have hkeys : (catalogGraph c v).keys index = (nodeRecords c (v index)).map recordKey := rfl
    rw [descend, hkeys, placeIn]
    cases hlast : (((nodeRecords c (v index)).map recordKey).takeWhile (· ≤ key)).getLast? with
    | none => rfl
    | some q =>
      have hpos : 0 < (((nodeRecords c (v index)).map recordKey).takeWhile (· ≤ key)).length := by
        refine List.length_pos_iff.mpr fun hnil => ?_
        rw [hnil] at hlast
        cases hlast
      have hle : q ≤ key := by
        simpa using List.mem_takeWhile_imp (List.mem_of_getLast? hlast)
      dsimp only
      by_cases heq : q = key
      · rw [if_pos heq, heq, cmp_self_eq_eq, Nat.zero_add]
        rfl
      · rw [if_neg heq, (cmp_eq_lt_iff ..).mpr (lt_of_le_of_ne hle heq), Nat.zero_add]
        change Except.ok ((index, _ - 1 + 1, false), cache') = _
        rw [Nat.sub_add_cancel hpos]
  | succ l ih =>
    obtain ⟨bytes, cache', hload, hroom'⟩ :=
      catalogNodeLoad_ok (c := c) hs.1 (mem_nodes_self _ _) hroom
    obtain ⟨_, halike, hc', _⟩ := catalogNodeLoad_spec hc hload
    have hsound := halike.sound hs.2.1
    have hrecords := halike.records_eq hs.2.1
    have hchosen := getElem?_route hs.shaped key
    have hmem := List.mem_of_getElem? hchosen
    obtain ⟨best, hbest⟩ : ∃ best, bestRecord key (nodeRecords c bytes) 0 none = .ok best :=
      ⟨_, bestRecord_eq hsound.valid key 0 none⟩
    have hchild := chosen_child hsound key index hbest
    rw [hrecords] at hchild
    obtain ⟨cache'', hsearch, hc''⟩ := ih (hs.2.2 _ hmem) hc'
      (hroom'.imp_left fun hall m hm => hall m (nodes_of_kid hmem hm))
    refine ⟨cache'', ?_, hc''⟩
    rw [searchFrom, bind_of_ok hload, show levelKind (l + 1 + 1) = indexNode from rfl,
      catalogNodeCheck_eq_ok.mpr hsound, bind_of_ok (lift_ok _), hbest]
    change (if l + 1 = 0 then _ else searchFrom c key stage (l + 1) _) cache' = _
    rw [if_neg (Nat.succ_ne_zero l), hchild]
    exact hsearch

end S5LBox.Rootfs
