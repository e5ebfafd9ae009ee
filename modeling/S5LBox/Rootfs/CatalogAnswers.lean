import S5LBox.Rootfs.AuditedTree

/-!
# Searches after an audit

The search goes by the keys of the index nodes, which an audit does not compare with the leaves. So
an audit that succeeds does not make the searches right. It does where the keys of the index nodes
separate what is below them, and where the root is the only node at its level.

## Main definitions

* `AnswersRightly`: the answer to a search is right.
* `WellRouted`: the condition under which all answers are.

## Main results

* `audited_search_rightly_iff`: after an audit, all searches are right exactly under that condition.
-/

namespace S5LBox.Rootfs

open Octets Planning RoutingTree

variable {c : Catalog} {mode : AuditMode} {cache : Cache} {top : List Nat}

/-! ### The place of a key in a leaf -/

section Place

variable {keys : List Key} {key : Key}

theorem lt_of_mem_dropWhile (hs : keys.Pairwise (· < ·)) :
    ∀ x ∈ keys.dropWhile (· ≤ key), key < x := by
  induction keys with
  | nil => exact List.forall_mem_nil _
  | cons k keys ih =>
    rw [List.pairwise_cons] at hs
    by_cases hk : k ≤ key
    · rw [List.dropWhile_cons_of_pos (by simpa using hk)]
      exact ih hs.2
    · rw [List.dropWhile_cons_of_neg (by simpa using hk)]
      refine List.forall_mem_cons.mpr ⟨not_le.mp hk, fun x hx => ?_⟩
      exact (not_le.mp hk).trans (hs.1 x hx)

theorem pairwise_insert {before after : List Key} (hs : (before ++ after).Pairwise (· < ·))
    (hbefore : ∀ x ∈ before, x < key) (hafter : ∀ x ∈ after, key < x) :
    (before ++ key :: after).Pairwise (· < ·) := by
  obtain ⟨hb, ha, hba⟩ := List.pairwise_append.mp hs
  refine List.pairwise_append.mpr ⟨hb, List.pairwise_cons.mpr ⟨hafter, ha⟩, fun x hx => ?_⟩
  exact List.forall_mem_cons.mpr ⟨hbefore x hx, hba x hx⟩

/-- A place that holds the key, or one between the lesser keys and the greater ones. -/
theorem placeIn_cases (hs : keys.Pairwise (· < ·)) (key : Key) :
    ((placeIn keys key).2 = true ∧ keys[(placeIn keys key).1]? = some key) ∨
    ((placeIn keys key).2 = false ∧ ∃ before after, keys = before ++ after ∧
      (placeIn keys key).1 = before.length ∧ (∀ x ∈ before, x < key) ∧ ∀ x ∈ after, key < x) := by
  have hsplit : keys.takeWhile (· ≤ key) ++ keys.dropWhile (· ≤ key) = keys :=
    List.takeWhile_append_dropWhile
  have hafter : ∀ x ∈ keys.dropWhile (· ≤ key), key < x := lt_of_mem_dropWhile hs
  have hbefore : ∀ x ∈ keys.takeWhile (· ≤ key), x ≤ key := fun x hx => by
    simpa using List.mem_takeWhile_imp hx
  rw [placeIn]
  generalize keys.takeWhile (· ≤ key) = before at hsplit hbefore ⊢
  generalize keys.dropWhile (· ≤ key) = after at hsplit hafter
  subst hsplit
  cases hlast : before.getLast? with
  | none =>
    rw [List.getLast?_eq_none_iff] at hlast
    subst hlast
    exact .inr ⟨rfl, [], after, rfl, rfl, List.forall_mem_nil _, hafter⟩
  | some q =>
    have hne : before ≠ [] := by
      rintro rfl
      cases hlast
    have hpos : 0 < before.length := List.length_pos_iff.mpr hne
    dsimp only
    by_cases hq : q = key
    · rw [if_pos hq]
      refine .inl ⟨rfl, ?_⟩
      dsimp only
      rw [List.getElem?_append_left (by omega), ← List.getLast?_eq_getElem?, hlast, hq]
    · rw [if_neg hq]
      refine .inr ⟨rfl, before, after, rfl, rfl, fun x hx => ?_, hafter⟩
      have hqmem := List.mem_of_getLast? hlast
      have hle : x ≤ q := by
        have hq' : before.getLast hne = q := by
          rw [List.getLast?_eq_some_getLast hne] at hlast
          exact Option.some.inj hlast
        rw [← hq']
        exact ((List.pairwise_append.mp hs).1.imp le_of_lt).rel_getLast hx
      exact lt_of_le_of_lt hle (lt_of_le_of_ne (hbefore q hqmem) hq)

end Place

/-! ### Right answers -/

/-- The keys of a leaf. -/
abbrev leafKeys (c : Catalog) (leaf : Nat) : List Key := (catalogGraph c c.node).keys leaf

/-- The answer to a search is right: the key is found when it is in the chain of the leaves, and
then at its record; where it is not, it keeps the chain in order when it is put where it was missed.
-/
structure AnswersRightly (c : Catalog) (key : Key) (answer : Nat × Nat × Bool) : Prop where
  found_iff : answer.2.2 = true ↔ key ∈ chainKeys c c.node (leafChain c)
  leaf_mem : answer.1 ∈ leafChain c
  at_record : answer.2.2 = true → (leafKeys c answer.1)[answer.2.1]? = some key
  in_order : answer.2.2 = false → answer.2.1 ≤ (leafKeys c answer.1).length ∧
    ∃ before after, leafChain c = before ++ answer.1 :: after ∧
      (chainKeys c c.node before ++ ((leafKeys c answer.1).take answer.2.1 ++
        key :: (leafKeys c answer.1).drop answer.2.1) ++
          chainKeys c c.node after).Pairwise (· < ·)

/-- The root is alone at its level, and the keys of the index nodes separate the leaves. -/
structure WellRouted (c : Catalog) : Prop where
  alone : fLink (c.node c.rootNode) = 0
  first : c.treeDepth = 1 → c.firstLeaf = c.rootNode
  routes : Routes (catalogGraph c c.node) (c.treeDepth - 1) c.rootNode

theorem chainKeys_append (c : Catalog) (v : Nat → Buffer) (before : List Nat) (leaf : Nat)
    (after : List Nat) :
    chainKeys c v (before ++ leaf :: after) =
      chainKeys c v before ++ ((catalogGraph c v).keys leaf ++ chainKeys c v after) := by
  rw [chainKeys, List.flatMap_append, List.flatMap_cons]
  rfl

/-- The place of a key in a leaf is a right answer where all keys before the leaf are lesser, and
all after it are greater. -/
theorem answersRightly_placeIn {key : Key} {before after : List Nat} {leaf : Nat}
    (hs : (chainKeys c c.node (leafChain c)).Pairwise (· < ·))
    (hchain : leafChain c = before ++ leaf :: after)
    (hbefore : ∀ x ∈ chainKeys c c.node before, x < key)
    (hafter : ∀ x ∈ chainKeys c c.node after, key < x) :
    AnswersRightly c key (leaf, placeIn (leafKeys c leaf) key) := by
  have hmem : leaf ∈ leafChain c := by
    rw [hchain]
    exact List.mem_append_right _ List.mem_cons_self
  rw [hchain, chainKeys_append] at hs
  have hsl : (leafKeys c leaf).Pairwise (· < ·) :=
    (List.pairwise_append.mp (List.pairwise_append.mp hs).2.1).1
  have hin : key ∈ chainKeys c c.node (leafChain c) ↔ key ∈ leafKeys c leaf := by
    rw [hchain, chainKeys_append, List.mem_append, List.mem_append]
    constructor
    · rintro (h | h | h)
      · exact absurd (hbefore key h) (lt_irrefl key)
      · exact h
      · exact absurd (hafter key h) (lt_irrefl key)
    · exact fun h => .inr (.inl h)
  rcases placeIn_cases hsl key with ⟨hfound, hat⟩ | ⟨hmissing, lesser, greater, hsplit, hpos, hl, hg⟩
  · refine ⟨iff_of_true hfound (hin.mpr (List.mem_of_getElem? hat)), hmem, fun _ => hat, ?_⟩
    intro h
    exact absurd (hfound.symm.trans h) (by simp)
  · have hnot : key ∉ leafKeys c leaf := by
      rw [hsplit, List.mem_append]
      rintro (h | h)
      · exact lt_irrefl key (hl key h)
      · exact lt_irrefl key (hg key h)
    refine ⟨iff_of_false (by rw [hmissing]; exact Bool.false_ne_true) (hin.not.mpr hnot), hmem, ?_,
      fun _ => ⟨?_, before, after, hchain, ?_⟩⟩
    · intro h
      exact absurd (hmissing.symm.trans h) (by simp)
    · dsimp only
      rw [hpos, hsplit, List.length_append]
      omega
    · dsimp only
      rw [hpos, hsplit, List.take_left, List.drop_left]
      rw [show (catalogGraph c c.node).keys leaf = lesser ++ greater from hsplit] at hs
      have hkeys : ((chainKeys c c.node before ++ lesser) ++
          (greater ++ chainKeys c c.node after)).Pairwise (· < ·) := by
        simpa only [List.append_assoc] using hs
      have hinsert := pairwise_insert hkeys (List.forall_mem_append.mpr ⟨hbefore, hl⟩)
        (List.forall_mem_append.mpr ⟨hg, hafter⟩)
      simpa only [List.append_assoc, List.cons_append] using hinsert

/-! ### Searches after an audit -/

section Search

variable {key : Key} {stage : Stage}

theorem Chained.eq_nil {v : Nat → Buffer} {chain : List Nat} (h : Chained v 0 chain) : chain = [] := by
  match chain with
  | [] => rfl
  | index :: chain =>
    obtain ⟨rfl, hne, _⟩ := h
    exact absurd rfl hne

/-- In a tree of one level, the search comes to the root. -/
theorem searchFrom_one {index : Nat} {answer : Nat × Nat × Bool} {cache' : Cache}
    (h : searchFrom c key stage 1 index cache = .ok (answer, cache')) : answer.1 = index := by
  obtain ⟨node, cache₁, _, h⟩ := bind_eq_ok.mp h
  obtain ⟨_, _, h⟩ := lift_bind_eq_ok.mp h
  match hbest : bestRecord key (nodeRecords c node) 0 none with
  | .error record =>
    rw [hbest] at h
    cases h
  | .ok none =>
    rw [hbest] at h
    cases h
    rfl
  | .ok (some (position, .eq)) =>
    rw [hbest] at h
    cases h
    rfl
  | .ok (some (position, .lt)) | .ok (some (position, .gt)) =>
    rw [hbest] at h
    cases h
    rfl

namespace Audited

variable (ha : Audited c mode cache top)
include ha

/-- The search from a node at the top, with what the audit has left in the cache. -/
theorem search {root : Nat} (hroot : root ∈ top) (key : Key) (stage : Stage) :
    ∃ cache', searchFrom c key stage c.treeDepth root cache =
      .ok ((descend (catalogGraph c c.node) key (c.treeDepth - 1) root,
        placeIn (leafKeys c (descend (catalogGraph c c.node) key (c.treeDepth - 1) root)) key),
          cache') := by
  have hdepth : 0 < c.treeDepth ∧ c.treeDepth ≤ 8 := c.depth_range
  have hroom : Room cache (· ∈ RoutingTree.nodes (catalogGraph c c.node) (c.treeDepth - 1) root)
      (c.treeDepth - 1 + 1) := by
    cases hmode : mode.permitRecovery with
    | false =>
      refine .inr ?_
      rw [ha.strict hmode, List.length_nil]
      change _ ≤ 4096
      omega
    | true => exact .inl fun m hm => ha.holds hmode root hroot m hm
  obtain ⟨cache', hsearch, _⟩ := searchFrom_ok (ha.trees root hroot) ha.coherent hroom key stage
  rw [Nat.sub_add_cancel hdepth.1] at hsearch
  exact ⟨cache', hsearch⟩

theorem sorted_split (before : List Nat) (root : Nat) (after : List Nat)
    (htop : top = before ++ root :: after) :
    (before.flatMap (content (catalogGraph c c.node) (c.treeDepth - 1)) ++
      (content (catalogGraph c c.node) (c.treeDepth - 1) root ++
        after.flatMap (content (catalogGraph c c.node) (c.treeDepth - 1)))).Pairwise (· < ·) := by
  have hs := ha.sorted
  rw [chainKeys, ← ha.rows, htop, List.flatMap_assoc, List.flatMap_append, List.flatMap_cons] at hs
  exact hs

/-- Where every search from a node at the top is right, the node is alone there. -/
theorem alone {root : Nat} (hroot : root ∈ top)
    (h : ∀ key, ∃ answer cache', searchFrom c key stage c.treeDepth root cache =
      .ok (answer, cache') ∧ AnswersRightly c key answer) :
    top = [root] ∧ ∀ key ∈ content (catalogGraph c c.node) (c.treeDepth - 1) root,
      key ∈ leafKeys c (descend (catalogGraph c c.node) key (c.treeDepth - 1) root) := by
  have hfound : ∀ key ∈ chainKeys c c.node (leafChain c),
      key ∈ leafKeys c (descend (catalogGraph c c.node) key (c.treeDepth - 1) root) := by
    intro key hkey
    obtain ⟨answer, cache', hsearch, hright⟩ := h key
    obtain ⟨cache'', hanswer⟩ := ha.search hroot key stage
    rw [hanswer] at hsearch
    cases hsearch
    exact List.mem_of_getElem? (hright.at_record (hright.found_iff.mpr hkey))
  have hbelow : ∀ key, key ∈ leafKeys c
      (descend (catalogGraph c c.node) key (c.treeDepth - 1) root) →
        key ∈ content (catalogGraph c c.node) (c.treeDepth - 1) root := fun key hkey =>
    List.mem_flatMap.mpr ⟨_, descend_mem (ha.trees root hroot).shaped key, hkey⟩
  have hchain : ∀ node ∈ top, ∀ key ∈ content (catalogGraph c c.node) (c.treeDepth - 1) node,
      key ∈ chainKeys c c.node (leafChain c) := by
    intro node hnode key hkey
    rw [chainKeys, ← ha.rows, List.flatMap_assoc]
    exact List.mem_flatMap.mpr ⟨node, hnode, hkey⟩
  refine ⟨?_, fun key hkey => hfound key (hchain root hroot key hkey)⟩
  obtain ⟨before, after, htop⟩ := List.append_of_mem hroot
  have hs := ha.sorted_split before root after htop
  -- Any other node at the top has a key, and the search for it comes to a leaf below the root.
  have hother : ∀ node ∈ top, ∃ key ∈ content (catalogGraph c c.node) (c.treeDepth - 1) node,
      key ∈ content (catalogGraph c c.node) (c.treeDepth - 1) root := by
    intro node hnode
    obtain ⟨key, hkey⟩ := List.exists_mem_of_ne_nil _ (content_ne_nil (ha.trees node hnode).shaped)
    exact ⟨key, hkey, hbelow key (hfound key (hchain node hnode key hkey))⟩
  have hb : before = [] := by
    refine List.eq_nil_iff_forall_not_mem.mpr fun node hnode => ?_
    obtain ⟨key, hkey, hroot⟩ := hother node (by rw [htop]; exact List.mem_append_left _ hnode)
    refine lt_irrefl key ((List.pairwise_append.mp hs).2.2 key ?_ key ?_)
    · exact List.mem_flatMap.mpr ⟨node, hnode, hkey⟩
    · exact List.mem_append_left _ hroot
  have hafter : after = [] := by
    refine List.eq_nil_iff_forall_not_mem.mpr fun node hnode => ?_
    obtain ⟨key, hkey, hroot⟩ := hother node
      (by rw [htop]; exact List.mem_append_right _ (List.mem_cons_of_mem _ hnode))
    refine lt_irrefl key ((List.pairwise_append.mp (List.pairwise_append.mp hs).2.1).2.2 key hroot
      key ?_)
    exact List.mem_flatMap.mpr ⟨node, hnode, hkey⟩
  rw [htop, hb, hafter]
  rfl

end Audited

end Search

/-- After an audit, in any mode and with any count of records, a search gives the right answer for
every key exactly where the root is alone at its level and the keys of the index nodes separate the
leaves. The right answer is the record with the key, or the one place in the chain of the leaves
where the key keeps it in order. The audit checks the chain and each index key against its child,
which does not bring either about. -/
theorem audited_search_rightly_iff (c : Catalog) (expectRecords : Nat) (mode : AuditMode)
    (stage : Stage) (r : Nat × Nat) (cache : Cache)
    (haudit : catalogAudit c expectRecords mode stage [] = .ok (r, cache)) :
    (∀ key, ∃ answer cache', catalogSearch c key stage cache = .ok (answer, cache') ∧
      AnswersRightly c key answer) ↔ WellRouted c := by
  obtain ⟨top, ha⟩ := catalogAudit_sound haudit
  have hlinked := ha.linked
  have hne := c.root_range.1
  constructor
  · intro h
    have hroot : c.rootNode ∈ top := by
      split_ifs at hlinked with hdepth
      · -- In a tree of one level the chain at the top is that of the leaves.
        have hrows := ha.rows
        rw [hdepth] at hrows
        obtain ⟨answer, cache', hsearch, hright⟩ := h (toLex (0, []))
        rw [catalogSearch, hdepth] at hsearch
        rw [← searchFrom_one hsearch, ← List.flatMap_singleton' top]
        exact hrows ▸ hright.leaf_mem
      · match top with
        | [] => exact absurd hlinked hne
        | index :: top =>
          rw [hlinked.1]
          exact List.mem_cons_self
    obtain ⟨htop, hfound⟩ := ha.alone hroot h
    subst htop
    obtain ⟨hfirst, _, hlast⟩ := hlinked
    refine ⟨hlast, fun hdepth => ?_, ?_⟩
    · rwa [if_pos hdepth] at hfirst
    · have hs := ha.sorted_split [] c.rootNode [] rfl
      refine (routes_iff_found (ha.trees _ (List.mem_singleton_self _)).shaped ?_).mp hfound
      simpa using hs
  · intro h key
    have htop : top = [c.rootNode] := by
      have hfirst : (if c.treeDepth = 1 then c.firstLeaf else c.rootNode) = c.rootNode := by
        split_ifs with hdepth
        · exact h.first hdepth
        · rfl
      rw [hfirst] at hlinked
      match top with
      | [] => exact absurd hlinked hne
      | index :: top =>
        obtain ⟨rfl, _, hlinked⟩ := hlinked
        rw [h.alone] at hlinked
        rw [hlinked.eq_nil]
    subst htop
    have hmem := List.mem_singleton_self c.rootNode
    obtain ⟨cache', hsearch⟩ := ha.search hmem key stage
    refine ⟨_, cache', hsearch, ?_⟩
    have hs := ha.sorted_split [] c.rootNode [] rfl
    obtain ⟨before, after, hsplit, hbefore, hafter⟩ :=
      h.routes.placed (ha.trees _ hmem).shaped (by simpa using hs) key
    refine answersRightly_placeIn ha.sorted ?_ hbefore hafter
    rw [← ha.rows, List.flatMap_singleton, hsplit]

/-! ### A catalog whose index keys are wrong -/

/-- A node of 512 octets. -/
def sampleNode (forth back : Nat) (kind height : BitVec 8) (records : List Buffer)
    (slots : List Nat) : Buffer :=
  let front := bytes32 forth ++ bytes32 back ++ [kind, height] ++ bytes16 records.length ++ [0, 0] ++
    records.flatten
  let offsets := slots.reverse.flatMap bytes16
  front ++ List.replicate (512 - front.length - offsets.length) 0 ++ offsets

/-- The record of the thread of a folder. -/
def threadRecord (folder : Nat) : Buffer :=
  bytes16 6 ++ bytes32 folder ++ bytes16 0 ++ bytes16 3 ++ List.replicate 8 0

/-- The record of an index node that names a child under the thread of a folder. -/
def pointerRecord (folder child : Nat) : Buffer :=
  bytes16 6 ++ bytes32 folder ++ bytes16 0 ++ bytes32 child

/-- Two leaves with the threads 16, 17 and 18, 19, of which the index has the second under 19. -/
def misfiled : Buffer :=
  sampleNode 0 0 1 0
    [bytes16 2 ++ bytes32 1 ++ bytes32 4 ++ bytes32 2 ++ bytes32 3 ++ bytes16 512 ++ bytes16 0 ++
      bytes32 4 ++ bytes32 0 ++ List.replicate 6 0 ++ [0, 188] ++ bytes32 6 ++
      List.replicate 64 0, List.replicate 128 0, 240 :: List.replicate 255 0] [14, 120, 248, 504] ++
  sampleNode 0 0 0 2 [pointerRecord 16 2, pointerRecord 19 3] [14, 26, 38] ++
  sampleNode 3 0 255 1 [threadRecord 16, threadRecord 17] [14, 32, 50] ++
  sampleNode 0 2 255 1 [threadRecord 18, threadRecord 19] [14, 32, 50]

/-- The audit succeeds, and then a key in the chain of the leaves is not found. -/
def loses (c : Catalog) (key : Key) : Bool :=
  match catalogAudit c c.leafRecords ⟨false, false⟩ .provisionPlan [] with
  | .error _ => false
  | .ok (_, cache) =>
    match catalogSearch c key .provisionPlan cache with
    | .error _ => false
    | .ok ((_, _, found), _) => !found && (chainKeys c c.node (leafChain c)).contains key

theorem loses_cases {c : Catalog} {key : Key} (h : loses c key = true) :
    ∃ r cache answer cache',
      catalogAudit c c.leafRecords ⟨false, false⟩ .provisionPlan [] = .ok (r, cache) ∧
      catalogSearch c key .provisionPlan cache = .ok (answer, cache') ∧ answer.2.2 = false ∧
      key ∈ chainKeys c c.node (leafChain c) := by
  rw [loses] at h
  match haudit : catalogAudit c c.leafRecords ⟨false, false⟩ .provisionPlan [] with
  | .error why =>
    rw [haudit] at h
    cases h
  | .ok (r, cache) =>
    rw [haudit] at h
    dsimp only at h
    match hsearch : catalogSearch c key .provisionPlan cache with
    | .error why =>
      rw [hsearch] at h
      cases h
    | .ok ((leaf, position, found), cache') =>
      rw [hsearch] at h
      dsimp only at h
      rw [Bool.and_eq_true, Bool.not_eq_true', List.contains_iff_mem] at h
      exact ⟨r, cache, _, cache', rfl, hsearch, h.1, h.2⟩

theorem misfiled_loses :
    ∃ c, catalogOpen misfiled .provisionPlan = .ok c ∧ loses c (toLex (18, [])) = true := by
  have h : (match catalogOpen misfiled .provisionPlan with
      | .error _ => false
      | .ok c => loses c (toLex (18, []))) = true := by decide +kernel
  match hopen : catalogOpen misfiled .provisionPlan with
  | .error why =>
    rw [hopen] at h
    cases h
  | .ok c =>
    rw [hopen] at h
    exact ⟨c, rfl, h⟩

/-- The audit accepts the misfiled leaf, and the thread 18 is then not found. -/
theorem misfiled_search_wrong :
    ∃ c r cache, catalogOpen misfiled .provisionPlan = .ok c ∧
      catalogAudit c c.leafRecords ⟨false, false⟩ .provisionPlan [] = .ok (r, cache) ∧
      ¬∀ key, ∃ answer cache', catalogSearch c key .provisionPlan cache = .ok (answer, cache') ∧
        AnswersRightly c key answer := by
  obtain ⟨c, hopen, h⟩ := misfiled_loses
  obtain ⟨r, cache, answer, cache', haudit, hsearch, hfound, hkey⟩ := loses_cases h
  refine ⟨c, r, cache, hopen, haudit, fun hright => ?_⟩
  obtain ⟨_, _, hanswer, hright⟩ := hright (toLex (18, []))
  rw [hsearch] at hanswer
  cases hanswer
  rw [hright.found_iff.mpr hkey] at hfound
  cases hfound

theorem audited_search_rightly_iff_misfiled :
    ∃ c r cache, catalogOpen misfiled .provisionPlan = .ok c ∧
      catalogAudit c c.leafRecords ⟨false, false⟩ .provisionPlan [] = .ok (r, cache) ∧
      ((∀ key, ∃ answer cache', catalogSearch c key .provisionPlan cache = .ok (answer, cache') ∧
        AnswersRightly c key answer) ↔ WellRouted c) := by
  obtain ⟨c, hopen, h⟩ := misfiled_loses
  obtain ⟨r, cache, _, _, haudit, _, _, _⟩ := loses_cases h
  exact ⟨c, r, cache, hopen, haudit,
    audited_search_rightly_iff c c.leafRecords ⟨false, false⟩ .provisionPlan r cache haudit⟩

end S5LBox.Rootfs
