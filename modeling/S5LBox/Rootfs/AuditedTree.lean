import Mathlib.Data.List.Chain
import S5LBox.Rootfs.CatalogAudit

/-!
# What an audit establishes

An audit that succeeds has found, at every level, a chain of sound nodes, whose keys grow along the
leaves, and whose children are the chain of the level below. It has not compared the keys of the
index nodes with anything.

## Main definitions

* `Chained`: a chain of nodes by their links forth.
* `Levels`: the chains of the index levels.
* `Step`: what the audit does to the cache.

## Main results

* `catalogAudit_sound`: what an audit that succeeds has found.
-/

namespace S5LBox.Rootfs

open Octets Planning RoutingTree

variable {c : Catalog} {v : Nat → Buffer} {mode : AuditMode} {stage : Stage} {cache cache' : Cache}

/-! ### What happens to the cache -/

/-- The nodes are seen as before, those that are cached stay so, and outside of the recovery mode
the cache is left alone. -/
structure Step (c : Catalog) (v : Nat → Buffer) (mode : AuditMode) (cache cache' : Cache) :
    Prop where
  coherent : Coherent c v cache → Coherent c v cache'
  holds : ∀ index, Holds cache index → Holds cache' index
  strict : mode.permitRecovery = false → cache' = cache

instance : Std.Refl (Step c v mode) := ⟨fun _ => ⟨id, fun _ => id, fun _ => rfl⟩⟩

instance : IsTrans Cache (Step c v mode) where
  trans _ _ _ h h' := ⟨fun hc => h'.coherent (h.coherent hc),
    fun index hi => h'.holds index (h.holds index hi),
    fun hm => (h'.strict hm).trans (h.strict hm)⟩

/-- A load, which only the recovery mode does. -/
theorem catalogNodeLoad_moves (index : Nat) (stage : Stage) (hmode : mode.permitRecovery = true) :
    Moves (Step c v mode) (catalogNodeLoad c index stage) := by
  rintro cache ⟨bytes, cache'⟩ hload
  refine ⟨fun hc => (catalogNodeLoad_spec hc hload).2.2.1, fun j hj => ?_, fun h => ?_⟩
  · rw [catalogNodeLoad] at hload
    split at hload
    · cases hload
      exact hj
    · rw [catalogNodeReadRaw] at hload
      split_ifs at hload
      · cases hload
      · cases hload
        obtain ⟨e, he, hj⟩ := hj
        exact ⟨e, List.mem_append_left _ he, hj⟩
  · rw [hmode] at h
    cases h

theorem parentFrom_moves (node : Nat) (key : Key) (nodeLevel : Nat) (stage : Stage)
    (levels index : Nat) (hmode : mode.permitRecovery = true) :
    Moves (Step c v mode) (parentFrom c node key nodeLevel stage levels index) := by
  induction levels generalizing index with
  | zero => exact .fail _
  | succ levels ih =>
    refine (catalogNodeLoad_moves index stage hmode).bind fun bytes => ?_
    refine (Moves.lift _).bind fun _ => ?_
    split
    · exact .fail _
    · refine .either ?_ <| ih _
      exact .either (.fail _) <| .pure _

theorem catalogNodeParent_moves (node nodeLevel : Nat) (stage : Stage)
    (hmode : mode.permitRecovery = true) :
    Moves (Step c v mode) (catalogNodeParent c node nodeLevel stage) := by
  refine .either (.fail _) ?_
  refine (catalogNodeLoad_moves node stage hmode).bind fun bytes => ?_
  exact .either (.fail _) <| parentFrom_moves _ _ _ _ _ _ hmode

/-- A new link back changes nothing else. -/
theorem alike_put {node : Buffer} (h : 8 ≤ node.length) (link : Nat) :
    Alike node (put node 4 (bytes32 link)) := by
  have htake : (node.take 4).length = 4 := List.length_take_of_le (by omega)
  have hput : put node 4 (bytes32 link) = node.take 4 ++ (bytes32 link ++ node.drop 8) :=
    List.append_assoc _ _ _
  refine ⟨⟨length_put (by rw [length_bytes32]; omega), ?_⟩, ?_⟩
  · rw [hput, ← List.append_assoc]
    exact List.drop_left' (by rw [List.length_append, htake, length_bytes32])
  · rw [hput]
    exact List.take_left' htake

theorem backlink_moves (index link : Nat) (hmode : mode.permitRecovery = true) :
    Moves (Step c v mode) (catalogNodeChange index fun node => put node 4 (bytes32 link)) := by
  refine .update fun cache => ⟨fun hc => ⟨?_, hc.sized, fun j hj => ?_⟩, fun j hj => ?_, fun h => ?_⟩
  · intro cached hcached
    obtain ⟨e, he, rfl⟩ := List.mem_map.mp hcached
    have hrange := hc.range e he
    split_ifs
    · exact hrange
    · exact hrange
  · have halike := hc.alike j hj
    by_cases h : j = index ∧ Holds cache j
    · obtain ⟨rfl, h⟩ := h
      rw [nodeView_changed_self h]
      have hlen := hc.sized j hj
      have hrange := c.nodeSize_range
      refine halike.trans (alike_put ?_ link)
      rw [halike.length]
      omega
    · rwa [nodeView_changed_of_not fun hj h' => h ⟨hj, h'⟩]
  · exact holds_changed.mpr hj
  · rw [hmode] at h
    cases h

theorem catalogAuditBacklink_moves (node : Buffer) (index predecessor level mismatches : Nat) :
    Moves (Step c v mode)
      (catalogAuditBacklink node index predecessor level mode mismatches stage) := by
  refine .either (.pure _) <| .ite (fun _ => .fail _) fun hmode => ?_
  refine .either (.fail _) ?_
  refine .bind (.provided fun _ => backlink_moves index predecessor ?_) fun _ => .pure _
  simpa using hmode

theorem auditParent_moves (index level : Nat) :
    Moves (Step c v mode) (auditParent c mode index level stage) := by
  refine .provided fun hmode => (catalogNodeParent_moves _ _ _ hmode.1).bind fun _ => ?_
  exact .either (.fail _) <| .pure _

/-! ### One node -/

/-- A node of a chain at a level. -/
structure Proper (c : Catalog) (v : Nat → Buffer) (level index : Nat) : Prop where
  lt : index < c.totalNodes
  sound : SoundNode c (v index) (levelKind level) level
  used : catalogNodeMapUsed c index = true

theorem auditLoad_spec {index : Nat} {bytes : Buffer} (hc : Coherent c c.node cache)
    (hload : auditLoad c mode index stage cache = .ok (bytes, cache')) :
    index < c.totalNodes ∧ Alike (c.node index) bytes ∧ Step c c.node mode cache cache' ∧
      (mode.permitRecovery = true → Holds cache' index) := by
  rw [auditLoad] at hload
  split_ifs at hload with hmode
  · obtain ⟨hindex, halike, _, hholds, _⟩ := catalogNodeLoad_spec hc hload
    exact ⟨hindex, halike, catalogNodeLoad_moves index stage hmode _ _ hload, fun _ => hholds⟩
  · obtain ⟨hread, rfl⟩ := lift_eq_ok.mp hload
    rw [catalogNodeReadRaw] at hread
    split_ifs at hread with hindex
    cases hread
    exact ⟨not_le.mp hindex, .rfl, Std.Refl.refl _, fun h => absurd h hmode⟩

/-- What the audit of a node establishes. -/
theorem auditNode_sound {index level predecessor mismatches : Nat} {r : Buffer × Nat}
    (hc : Coherent c c.node cache)
    (h : auditNode c mode index level predecessor mismatches stage cache = .ok (r, cache')) :
    Proper c c.node level index ∧ Alike (c.node index) r.1 ∧ Step c c.node mode cache cache' ∧
      (mode.permitRecovery = true → Holds cache' index) := by
  obtain ⟨bytes, cache₁, hload, h⟩ := bind_eq_ok.mp h
  obtain ⟨hindex, halike, hstep, hholds⟩ := auditLoad_spec hc hload
  obtain ⟨_, hcheck, h⟩ := lift_bind_eq_ok.mp h
  obtain ⟨_, hused, h⟩ := lift_bind_eq_ok.mp h
  obtain ⟨mismatches', cache₂, hback, h⟩ := bind_eq_ok.mp h
  have hstep₂ := catalogAuditBacklink_moves (c := c) (v := c.node) _ _ _ _ _ _ _ hback
  obtain ⟨_, cache₃, hparent, h⟩ := bind_eq_ok.mp h
  have hstep₃ := auditParent_moves (v := c.node) _ _ _ _ hparent
  cases h
  have hrest := IsTrans.trans (r := Step c c.node mode) _ _ _ hstep₂ hstep₃
  refine ⟨⟨hindex, halike.symm.sound (catalogNodeCheck_eq_ok.mp hcheck), ?_⟩, halike,
    IsTrans.trans _ _ _ hstep hrest, fun hmode => hrest.holds index (hholds hmode)⟩
  rw [catalogAuditUsedNode] at hused
  split_ifs at hused with hmap
  exact hmap

/-! ### The leaves -/

/-- The keys of the leaves of a chain. -/
def chainKeys (c : Catalog) (v : Nat → Buffer) (chain : List Nat) : List Key :=
  chain.flatMap (catalogGraph c v).keys

/-- A chain of nodes by their links forth. -/
def Chained (v : Nat → Buffer) : (first : Nat) → (chain : List Nat) → Prop
  | first, [] => first = 0
  | first, index :: chain => first = index ∧ index ≠ 0 ∧ Chained v (fLink (v index)) chain

/-- What a walk along a chain has found after it stood at a node. -/
structure Walked (c : Catalog) (mode : AuditMode) (level left first : Nat) (more : List Nat)
    (cache cache' : Cache) : Prop where
  linked : Chained c.node first more
  length_le : more.length ≤ left
  proper : ∀ index ∈ more, Proper c c.node level index
  step : Step c c.node mode cache cache'
  holds : mode.permitRecovery = true → ∀ index ∈ more, Holds cache' index

theorem Walked.nil {level left : Nat} : Walked c mode level left 0 [] cache cache :=
  ⟨rfl, Nat.zero_le _, fun _ h => (List.not_mem_nil h).elim, Std.Refl.refl _,
    fun _ _ h => (List.not_mem_nil h).elim⟩

theorem Walked.cons {level left index : Nat} {more : List Nat} {cache₁ : Cache}
    (hindex : index ≠ 0) (hproper : Proper c c.node level index)
    (hstep : Step c c.node mode cache cache₁)
    (hholds : mode.permitRecovery = true → Holds cache₁ index)
    (h : Walked c mode level left (fLink (c.node index)) more cache₁ cache') :
    Walked c mode level (left + 1) index (index :: more) cache cache' where
  linked := ⟨rfl, hindex, h.linked⟩
  length_le := Nat.succ_le_succ h.length_le
  proper := List.forall_mem_cons.mpr ⟨hproper, h.proper⟩
  step := IsTrans.trans _ _ _ hstep h.step
  holds := fun hmode => List.forall_mem_cons.mpr
    ⟨h.step.holds index (hholds hmode), h.holds hmode⟩

/-- The records of a leaf go on from the last key, and grow. -/
theorem auditRecords_sound {index : Nat} {records : List Buffer} {position : Nat} {keys : List Key}
    {highest : Nat} {r : Option Key × Nat} (hvalid : ∀ record ∈ records, ValidKey record)
    (hkeys : keys.IsChain (· < ·))
    (h : auditRecords index stage records position keys.getLast? highest = .ok r) :
    (keys ++ records.map recordKey).IsChain (· < ·) ∧
      (keys ++ records.map recordKey).getLast? = r.1 := by
  induction records generalizing position keys highest with
  | nil =>
    rw [auditRecords] at h
    cases h
    rw [List.map_nil, List.append_nil]
    exact ⟨hkeys, rfl⟩
  | cons record records ih =>
    have hlast : (keys ++ [recordKey record]).getLast? = some (recordKey record) :=
      List.getLast?_concat
    have hgrows : (∀ key ∈ keys.getLast?, key < recordKey record) →
        (keys ++ [recordKey record]).IsChain (· < ·) := by
      intro hlt
      refine List.isChain_append.mpr ⟨hkeys, .singleton _, fun x hx y hy => ?_⟩
      obtain rfl : recordKey record = y := by simpa using hy
      exact hlt x hx
    have hrest : ∀ highest', (keys ++ [recordKey record]).IsChain (· < ·) →
        auditRecords index stage records (position + 1) (some (recordKey record)) highest' =
          .ok r → _ := fun highest' hchain h => by
      rw [← hlast] at h
      exact ih (fun q hq => hvalid q (List.mem_cons_of_mem _ hq)) hchain h
    rw [List.map_cons, List.append_cons]
    cases hprevious : keys.getLast? with
    | none =>
      rw [hprevious] at h hgrows
      rw [auditRecords] at h
      exact hrest _ (hgrows fun _ hx => nomatch hx) h
    | some key =>
      rw [hprevious] at h hgrows
      rw [auditRecords, catalogKeyCompareRaw_eq (hvalid record List.mem_cons_self)] at h
      match horder : cmp (recordKey record) key with
      | .lt | .eq =>
        rw [horder] at h
        cases h
      | .gt =>
        rw [horder] at h
        refine hrest _ (hgrows fun x hx => ?_) h
        obtain rfl : key = x := by simpa using hx
        exact (cmp_eq_gt_iff ..).mp horder

/-- The walk along the leaves. -/
theorem auditLeaves_sound {left index : Nat} {walk walk' : LeafWalk}
    (hc : Coherent c c.node cache) (hkeys : (chainKeys c c.node walk.chain).IsChain (· < ·))
    (hprevious : (chainKeys c c.node walk.chain).getLast? = walk.previous)
    (h : auditLeaves c mode stage left index walk cache = .ok (walk', cache')) :
    ∃ more, walk'.chain = walk.chain ++ more ∧ Walked c mode 1 left index more cache cache' ∧
      (chainKeys c c.node walk'.chain).IsChain (· < ·) := by
  induction left generalizing index walk cache with
  | zero =>
    rw [auditLeaves] at h
    split_ifs at h with hzero
    · cases h
      subst hzero
      exact ⟨[], (List.append_nil _).symm, .nil, hkeys⟩
    · cases h
  | succ left ih =>
    rw [auditLeaves] at h
    split_ifs at h with hzero
    · cases h
      subst hzero
      exact ⟨[], (List.append_nil _).symm, .nil, hkeys⟩
    · obtain ⟨⟨node, mismatches⟩, cache₁, hnode, h⟩ := bind_eq_ok.mp h
      obtain ⟨hproper, halike, hstep, hholds⟩ := auditNode_sound hc hnode
      obtain ⟨⟨previous, highest⟩, hrecords, h⟩ := lift_bind_eq_ok.mp h
      dsimp only at hrecords h halike
      have hkind : SoundNode c (c.node index) leafNode 1 := hproper.sound
      have heq := halike.records_eq hkind
      rw [← hprevious, heq] at hrecords
      obtain ⟨hgrows, hlast⟩ := auditRecords_sound hkind.valid hkeys hrecords
      have hmore : chainKeys c c.node (walk.chain ++ [index]) = chainKeys c c.node walk.chain ++
          (nodeRecords c (c.node index)).map recordKey := by
        rw [chainKeys, List.flatMap_append, List.flatMap_singleton]
        rfl
      rw [halike.fLink_eq] at h
      obtain ⟨more, hchain, hwalked, hsorted⟩ := ih (hstep.coherent hc) (by rwa [hmore])
        (by rwa [hmore]) h
      refine ⟨index :: more, ?_, .cons hzero hproper hstep hholds hwalked, hsorted⟩
      rw [hchain, List.append_assoc, List.singleton_append]

/-! ### The index levels -/

theorem auditChildren_sound {level index : Nat} {below children : List Nat} {cursor cursor' : Nat}
    (h : auditChildren level index below stage children cursor = .ok cursor') :
    children ++ below.drop cursor' = below.drop cursor := by
  induction children generalizing cursor with
  | nil =>
    cases h
    rfl
  | cons child children ih =>
    rw [auditChildren] at h
    split_ifs at h with hchild
    obtain ⟨hlt, hget⟩ := List.getElem?_eq_some_iff.mp hchild
    rw [List.cons_append, ih h, ← hget, List.getElem_cons_drop]

/-- The walk along a level of index nodes. -/
theorem auditLevel_sound {level : Nat} {below : List Nat} {left index : Nat}
    {walk walk' : LevelWalk} (hc : Coherent c c.node cache)
    (h : auditLevel c mode level below stage left index walk cache = .ok (walk', cache')) :
    ∃ more, walk'.chain = walk.chain ++ more ∧
      Walked c mode level left index more cache cache' ∧
      more.flatMap (catalogGraph c c.node).kids ++ below.drop walk'.cursor =
        below.drop walk.cursor := by
  induction left generalizing index walk cache with
  | zero =>
    rw [auditLevel] at h
    split_ifs at h with hzero
    · cases h
      subst hzero
      exact ⟨[], (List.append_nil _).symm, .nil, rfl⟩
    · cases h
  | succ left ih =>
    rw [auditLevel] at h
    split_ifs at h with hzero
    · cases h
      subst hzero
      exact ⟨[], (List.append_nil _).symm, .nil, rfl⟩
    · obtain ⟨⟨node, mismatches⟩, cache₁, hnode, h⟩ := bind_eq_ok.mp h
      obtain ⟨hproper, halike, hstep, hholds⟩ := auditNode_sound hc hnode
      obtain ⟨cursor, hchildren, h⟩ := lift_bind_eq_ok.mp h
      dsimp only at hchildren h halike
      rw [halike.records_eq hproper.sound] at hchildren
      rw [halike.fLink_eq] at h
      obtain ⟨more, hchain, hwalked, hrows⟩ := ih (hstep.coherent hc) h
      refine ⟨index :: more, ?_, .cons hzero hproper hstep hholds hwalked, ?_⟩
      · rw [hchain, List.append_assoc, List.singleton_append]
      · rw [List.flatMap_cons, List.append_assoc, hrows]
        exact auditChildren_sound hchildren

/-- The chains of the index levels from a level up: each names the chain below, and the last is the
chain at the top. -/
def Levels (c : Catalog) : (spine : List Nat) → (level : Nat) → (below top : List Nat) → Prop
  | [], _, below, top => top = below
  | first :: spine, level, below, top => ∃ chain, Chained c.node first chain ∧
      (∀ index ∈ chain, Proper c c.node level index) ∧
      chain.flatMap (catalogGraph c c.node).kids = below ∧ Levels c spine (level + 1) chain top

/-- The nodes at and below those of a level are cached. -/
def HoldsBelow (c : Catalog) (cache : Cache) (l : Nat) (chain : List Nat) : Prop :=
  ∀ index ∈ chain, ∀ m ∈ RoutingTree.nodes (catalogGraph c c.node) l index, Holds cache m

theorem HoldsBelow.level {l : Nat} {below chain : List Nat} (h : HoldsBelow c cache l below)
    (hkids : chain.flatMap (catalogGraph c c.node).kids = below)
    (hchain : ∀ index ∈ chain, Holds cache index) : HoldsBelow c cache (l + 1) chain := by
  intro index hindex m hm
  rcases List.mem_cons.mp hm with rfl | hm
  · exact hchain m hindex
  · obtain ⟨child, hchild, hm⟩ := List.mem_flatMap.mp hm
    refine h child ?_ m hm
    rw [← hkids]
    exact List.mem_flatMap.mpr ⟨index, hindex, hchild⟩

theorem auditLevels_sound {spine : List Nat} {l : Nat} {below : List Nat} {mismatches : Nat}
    {r : Nat} (hc : Coherent c c.node cache)
    (hbelow : mode.permitRecovery = true → HoldsBelow c cache l below)
    (h : auditLevels c mode stage spine (l + 2) below mismatches cache = .ok (r, cache')) :
    ∃ top, Levels c spine (l + 2) below top ∧ Step c c.node mode cache cache' ∧
      (mode.permitRecovery = true → HoldsBelow c cache' (l + spine.length) top) := by
  induction spine generalizing l below mismatches cache with
  | nil =>
    cases h
    exact ⟨below, rfl, Std.Refl.refl _, hbelow⟩
  | cons first spine ih =>
    obtain ⟨walk, cache₁, hwalk, h⟩ := bind_eq_ok.mp h
    split_ifs at h with hcursor
    · cases h
    · obtain ⟨more, hchain, hwalked, hrows⟩ := auditLevel_sound hc hwalk
      dsimp only at hchain hrows
      rw [not_not.mp hcursor, List.drop_length, List.append_nil, List.drop_zero] at hrows
      rw [List.nil_append] at hchain
      rw [hchain] at h
      obtain ⟨top, hlevels, hstep, hholds⟩ := ih (hwalked.step.coherent hc)
        (fun hmode => HoldsBelow.level (fun index hindex m hm =>
          hwalked.step.holds m (hbelow hmode index hindex m hm)) hrows (hwalked.holds hmode)) h
      refine ⟨top, ⟨more, hwalked.linked, hwalked.proper, hrows, hlevels⟩,
        IsTrans.trans _ _ _ hwalked.step hstep, fun hmode => ?_⟩
      rw [List.length_cons, Nat.add_comm spine.length, ← Nat.add_assoc]
      exact hholds hmode

/-- The trees below the chain at the top. -/
theorem Levels.trees {spine : List Nat} {l : Nat} {below top : List Nat}
    (h : Levels c spine (l + 2) below top) (hbelow : ∀ index ∈ below, SoundTree c c.node l index) :
    (∀ index ∈ top, SoundTree c c.node (l + spine.length) index) ∧
      top.flatMap (leaves (catalogGraph c c.node) (l + spine.length)) =
        below.flatMap (leaves (catalogGraph c c.node) l) := by
  induction spine generalizing l below with
  | nil =>
    obtain rfl : top = below := h
    exact ⟨hbelow, rfl⟩
  | cons first spine ih =>
    obtain ⟨chain, _, hproper, hkids, h⟩ := h
    obtain ⟨htrees, hleaves⟩ := ih (l := l + 1) h fun index hindex =>
      ⟨(hproper index hindex).lt, (hproper index hindex).sound, fun child hchild =>
        hbelow child (by rw [← hkids]; exact List.mem_flatMap.mpr ⟨index, hindex, hchild⟩)⟩
    rw [List.length_cons, Nat.add_comm spine.length, ← Nat.add_assoc]
    refine ⟨htrees, hleaves.trans ?_⟩
    rw [← hkids, List.flatMap_assoc]
    rfl

/-- The chain at the top begins with the last node of the spine. -/
theorem Levels.linked {spine : List Nat} {level first : Nat} {below top : List Nat}
    (h : Levels c spine level below top) (hlast : spine.getLast? = some first) :
    Chained c.node first top := by
  induction spine generalizing level below with
  | nil => cases hlast
  | cons index spine ih =>
    obtain ⟨chain, hlinked, _, _, h⟩ := h
    match spine with
    | [] =>
      obtain rfl : top = chain := h
      cases hlast
      exact hlinked
    | next :: spine =>
      rw [List.getLast?_cons_cons] at hlast
      exact ih h hlast

theorem auditSpine_ok {level index : Nat} {spine : List Nat}
    (h : auditSpine c stage level index = .ok spine) :
    spine.length = level ∧ (level ≠ 0 → spine.head? = some index) := by
  match level with
  | 0 =>
    cases h
    exact ⟨rfl, fun hne => absurd rfl hne⟩
  | 1 =>
    cases h
    exact ⟨rfl, fun _ => rfl⟩
  | level + 2 =>
    obtain ⟨node, _, h⟩ := result_bind_eq_ok.mp h
    obtain ⟨_, _, h⟩ := result_bind_eq_ok.mp h
    obtain ⟨rest, hrest, h⟩ := result_bind_eq_ok.mp h
    cases h
    exact ⟨congrArg (· + 1) (auditSpine_ok hrest).1, fun _ => rfl⟩

/-! ### The audit -/

/-- The chain of nodes that begins at a node. -/
def follow (v : Nat → Buffer) : (left : Nat) → (index : Nat) → List Nat
  | 0, _ => []
  | left + 1, index => if index = 0 then [] else index :: follow v left (fLink (v index))

theorem Chained.follow_eq {first left : Nat} {chain : List Nat} (h : Chained v first chain)
    (hlen : chain.length ≤ left) : follow v left first = chain := by
  induction left generalizing first chain with
  | zero =>
    rw [List.length_eq_zero_iff.mp (Nat.le_zero.mp hlen)]
    rfl
  | succ left ih =>
    match chain with
    | [] =>
      obtain rfl : first = 0 := h
      rfl
    | index :: chain =>
      obtain ⟨rfl, hne, h⟩ := h
      rw [follow, if_neg hne, ih h (Nat.le_of_succ_le_succ hlen)]

/-- The chain of the leaves. -/
def leafChain (c : Catalog) : List Nat := follow c.node c.totalNodes c.firstLeaf

/-- What an audit that succeeds has found: the chain at the top, and the trees below it. -/
structure Audited (c : Catalog) (mode : AuditMode) (cache : Cache) (top : List Nat) : Prop where
  chain : Chained c.node c.firstLeaf (leafChain c)
  sorted : (chainKeys c c.node (leafChain c)).Pairwise (· < ·)
  trees : ∀ index ∈ top, SoundTree c c.node (c.treeDepth - 1) index
  rows : top.flatMap (leaves (catalogGraph c c.node) (c.treeDepth - 1)) = leafChain c
  linked : Chained c.node (if c.treeDepth = 1 then c.firstLeaf else c.rootNode) top
  coherent : Coherent c c.node cache
  strict : mode.permitRecovery = false → cache = []
  holds : mode.permitRecovery = true → HoldsBelow c cache (c.treeDepth - 1) top

/-- What an audit that succeeds has found. -/
theorem catalogAudit_sound {expectRecords : Nat} {r : Nat × Nat}
    (h : catalogAudit c expectRecords mode stage [] = .ok (r, cache)) :
    ∃ top, Audited c mode cache top := by
  rw [catalogAudit] at h
  split_ifs at h with hmode hfirst
  · cases h
  · cases h
  · obtain ⟨walk, cache₁, hwalk, h⟩ := bind_eq_ok.mp h
    split_ifs at h with hlast hcount
    · cases h
    · cases h
    · obtain ⟨mismatches, cache₂, hlevels, h⟩ := bind_eq_ok.mp h
      cases h
      obtain ⟨more, hchain, hwalked, hsorted⟩ :=
        auditLeaves_sound (coherent_nil c) .nil rfl hwalk
      dsimp only [List.nil_append] at hchain
      have hleaf : leafChain c = walk.chain := by
        rw [hchain]
        exact hwalked.linked.follow_eq hwalked.length_le
      have hkeys : (chainKeys c c.node (leafChain c)).Pairwise (· < ·) := by
        rw [hleaf]
        exact List.isChain_iff_pairwise.mp hsorted
      have hlinked : Chained c.node c.firstLeaf (leafChain c) := by
        rw [hleaf, hchain]
        exact hwalked.linked
      rw [← hleaf] at hlevels
      rw [← hchain, ← hleaf] at hwalked
      have hsound : ∀ index ∈ leafChain c, SoundTree c c.node 0 index := fun index hindex =>
        ⟨(hwalked.proper index hindex).lt, (hwalked.proper index hindex).sound⟩
      have hrow : (leafChain c).flatMap (leaves (catalogGraph c c.node) 0) = leafChain c :=
        List.flatMap_singleton' _
      have hheld : mode.permitRecovery = true → HoldsBelow c cache₁ 0 (leafChain c) := by
        intro hmode index hindex m hm
        rw [List.mem_singleton.mp hm]
        exact hwalked.holds hmode index hindex
      have hdepth := c.depth_range
      rw [catalogAuditIndexLevels] at hlevels
      split_ifs at hlevels with hshallow
      · cases hlevels
        have hone : c.treeDepth = 1 := by omega
        refine ⟨leafChain c, ⟨hlinked, hkeys, ?_, ?_, ?_, hwalked.step.coherent (coherent_nil c),
          hwalked.step.strict, ?_⟩⟩
        · rwa [hone]
        · rwa [hone]
        · rwa [if_pos hone]
        · rwa [hone]
      · obtain ⟨spine, hspine, hlevels⟩ := lift_bind_eq_ok.mp hlevels
        split_ifs at hlevels with hstart
        · cases hlevels
        · obtain ⟨hlen, hhead⟩ := auditSpine_ok hspine
          obtain ⟨top, hlevels, hstep, hholds⟩ :=
            auditLevels_sound (hwalked.step.coherent (coherent_nil c)) hheld hlevels
          have htail : 0 + spine.reverse.tail.length = c.treeDepth - 1 := by
            rw [List.length_tail, List.length_reverse, hlen, Nat.zero_add]
          have hlast : spine.reverse.tail.getLast? = some c.rootNode := by
            rw [List.getLast?_tail, if_neg (by rw [List.length_reverse, hlen]; omega),
              List.getLast?_reverse, hhead (by omega)]
          obtain ⟨htrees, hleaves⟩ := hlevels.trees hsound
          rw [htail] at htrees hleaves hholds
          have hstep := IsTrans.trans (r := Step c c.node mode) _ _ _ hwalked.step hstep
          refine ⟨top, ⟨hlinked, hkeys, htrees, hleaves.trans hrow, ?_,
            hstep.coherent (coherent_nil c), hstep.strict, hholds⟩⟩
          rw [if_neg (by omega)]
          exact hlevels.linked hlast

end S5LBox.Rootfs
