import S5LBox.Firmware.DeviceTreeFormat

/-!
# What the reader of device trees finds

`dt_parse` accepts the blobs that begin with a tree. In an accepted blob, what is looked up is what a
search of the tree finds, but a component of a path that has 32 octets or more is never found.

## Main definitions

* `Property.Named`, `Tree.nodeName`: the names that are compared.
* `Tree.findProperty`, `Tree.findChild`, `Tree.findPath`: the searches of a tree, which say where in
  the blob it is found.
* `Occurs`: a node of a tree and its place.

## Main results

* `dtParse_eq_ok`: which blobs are accepted.
* `dtProperty_eq`, `dtChild_eq`, `dtPath_eq`: the lookups are searches.
-/

namespace S5LBox.Firmware.DeviceTree

open TerminatedText (text text_text text_eq_iff sameUpTo sameUpTo_iff components
  components_dropWhile components_eq components_nil)

/-! ### Searches -/

/-- The name of a property is a given one, cut to the length of the field. -/
def Property.Named (p : Property) (name : List Byte) : Prop :=
  text p.name = (text name).take 32

instance (p : Property) (name : List Byte) : Decidable (p.Named name) :=
  inferInstanceAs (Decidable (_ = _))

/-- A sequence of properties with their places. -/
def propsAt : Nat → List Property → List (Nat × Property)
  | _, [] => []
  | off, p :: ps => (off, p) :: propsAt (off + p.size) ps

/-- Nodes beside each other with their places. -/
def Forest.nodesAt : Nat → Forest → List (Nat × Tree)
  | _, .nil => []
  | off, .node props children next =>
    (off, ⟨props, children⟩) :: next.nodesAt (off + (Tree.mk props children).size)

namespace Tree

/-- The first property with a name. -/
def findProperty (t : Tree) (off : Nat) (name : List Byte) : Option (Nat × Property) :=
  (propsAt (off + 8) t.props).find? fun p => p.2.Named name

/-- The text in the property with the name of the node. -/
def nodeName (t : Tree) : Option (List Byte) :=
  (t.props.find? fun p => p.Named nameKey).map fun p => text p.value

/-- The children with their places. -/
def childrenAt (t : Tree) (off : Nat) : List (Nat × Tree) :=
  t.children.nodesAt (off + 8 + sizeProps t.props)

/-- The first child with a name. -/
def findChild (t : Tree) (off : Nat) (name : List Byte) : Option (Nat × Tree) :=
  (t.childrenAt off).find? fun c => c.2.nodeName = some name

/-- The node at the end of a path, which takes the first child for every component. -/
def findPath (t : Tree) (off : Nat) (path : List (List Byte)) : Option (Nat × Tree) :=
  path.foldlM (fun (u : Nat × Tree) name => u.2.findChild u.1 name) (off, t)

/-- The `dt_node_t` of a tree at a place. -/
def nodeAt (t : Tree) (off : Nat) : Node :=
  ⟨off, t.props.length, t.children.count, off + 8⟩

end Tree

/-- A node of a tree and its place. -/
inductive Occurs (t : Tree) : Nat → Tree → Prop
  | root : Occurs t 0 t
  | child {off o : Nat} {u c : Tree} : Occurs t off u → (o, c) ∈ u.childrenAt off → Occurs t o c

/-- A tree is at a place of a blob, at a depth that the functions pass. -/
structure Lies (blob : List Byte) (off : Nat) (t : Tree) : Prop where
  aligned : 4 ∣ off
  countsFit : t.CountsFit
  depth_le : t.depth ≤ dtMaxDepth
  bytes : t.encode <+: blob.drop off

variable {dt : Dt} {off : Nat} {name : List Byte} {t : Tree}

theorem Lies.readNode_eq (h : Lies dt.blob off t) : readNode dt off = some (t.nodeAt off) :=
  readNode_eq_some.2 ⟨(Tree.encode_prefix.1 h.bytes).1, h.countsFit.1.1, h.countsFit.1.2, rfl, rfl⟩

theorem Lies.skipNode_eq (h : Lies dt.blob off t) : skipNode dt off 0 = some (off + t.size) :=
  (skipLevels_eq_some h.aligned).2 ⟨t, h.countsFit, Nat.lt_succ_of_le h.depth_le, h.bytes, rfl⟩

/-- What holds of nodes beside each other holds of each of them. -/
theorem Forest.lies_of_mem {f : Forest} {o : Nat} {c : Tree} (h : 4 ∣ off) (hfits : f.CountsFit)
    (hlevels : f.levels ≤ dtMaxDepth) (hf : f.encode <+: dt.blob.drop off)
    (hc : (o, c) ∈ f.nodesAt off) : Lies dt.blob o c := by
  induction f generalizing off with
  | nil => cases hc
  | node props children next _ ih =>
    obtain ⟨ht, hnext⟩ := Forest.encode_prefix.1 hf
    obtain ⟨hdepth, hbeside⟩ := max_le_iff.1 hlevels
    obtain heq | hc := List.mem_cons.1 hc
    · obtain ⟨rfl, rfl⟩ := Prod.mk.inj heq
      exact ⟨h, ⟨hfits.1, hfits.2.1⟩, Nat.le_of_succ_le hdepth, ht⟩
    · exact ih (Nat.dvd_add h (Tree.four_dvd_size _)) hfits.2.2 hbeside hnext hc

theorem Lies.child {o : Nat} {c : Tree} (h : Lies dt.blob off t) (hc : (o, c) ∈ t.childrenAt off) :
    Lies dt.blob o c :=
  Forest.lies_of_mem
    (Nat.dvd_add (Nat.dvd_add h.aligned (by decide)) (four_dvd_sizeProps t.props))
    h.countsFit.2 h.depth_le (Tree.encode_prefix.1 h.bytes).2.2 hc

theorem Occurs.lies {u : Tree} (h : Lies dt.blob 0 t) (hu : Occurs t off u) :
    Lies dt.blob off u := by
  induction hu with
  | root => exact h
  | child _ hc ih => exact ih.child hc

/-! ### Lookups -/

theorem sameUpTo_name {p : Property} (h : p.encode <+: dt.blob.drop off) :
    sameUpTo (dt.blob.drop off) name dtPropNameLen = true ↔ p.Named name := by
  obtain ⟨rest, h⟩ := h
  rw [sameUpTo_iff, text, List.take_takeWhile, Property.take_name h.symm]
  exact Iff.rfl

theorem take_value {p : Property} (h : p.encode <+: dt.blob.drop off) :
    (dt.blob.drop (off + propHeader)).take p.value.length = p.value := by
  obtain ⟨rest, h⟩ := h
  rw [← List.drop_drop, Property.drop_header h.symm, List.take_left]

theorem value_fits {p : Property} (h : p.encode <+: dt.blob.drop off) :
    dt.Fits (off + propHeader) p.value.length := by
  have hlen := add_length_le
    (by rw [p.length_encode, Property.size]; exact Nat.add_pos_left (by decide) _) h
  have hheader : propHeader = 36 := rfl
  rw [p.length_encode, Property.size] at hlen
  rw [Dt.Fits]
  omega

/-- The loop over the properties finds the first one with the name. -/
theorem propertyLoop_eq {ps : List Property} (h : 4 ∣ off)
    (hps : encodeProps ps <+: dt.blob.drop off) :
    propertyLoop dt name ps.length off =
      match (propsAt off ps).find? fun p => p.2.Named name with
      | none => .error .notFound
      | some (o, p) => .ok (o + propHeader, p.value.length) := by
  induction ps generalizing off with
  | nil => rfl
  | cons p ps ih =>
    obtain ⟨hp, hps⟩ := append_prefix_drop.1 hps
    rw [p.length_encode] at hps
    have hfits := value_fits hp
    have hheader : dt.Fits off propHeader := Nat.le_of_add_right_le hfits
    rw [List.length_cons, propertyLoop, if_neg (not_not.2 hheader), propsAt]
    by_cases hname : p.Named name
    · obtain ⟨rest, hrest⟩ := hp
      rw [if_pos ((sameUpTo_name ⟨rest, hrest⟩).2 hname), List.find?_cons,
        decide_eq_true hname, ← List.drop_drop]
      dsimp only
      rw [Property.rd32_word hrest.symm, ← p.value_length, if_neg (not_not.2 hfits)]
    · rw [if_neg (mt (sameUpTo_name hp).1 hname), List.find?_cons, decide_eq_false hname,
        (skipProperty_eq_some h).2 ⟨p, hp, rfl⟩]
      exact ih (Nat.dvd_add h p.four_dvd_size) hps

theorem dtProperty_eq (h : Lies dt.blob off t) :
    dtProperty dt (t.nodeAt off) name =
      match t.findProperty off name with
      | none => .error .notFound
      | some (o, p) => .ok (o + propHeader, p.value.length) :=
  propertyLoop_eq (Nat.dvd_add h.aligned (by decide)) (Tree.encode_prefix.1 h.bytes).2.1

/-- What is found among properties is one of them, at its place. -/
theorem prefix_of_mem_propsAt {ps : List Property} {o : Nat} {p : Property}
    (hps : encodeProps ps <+: dt.blob.drop off) (h : (o, p) ∈ propsAt off ps) :
    p.encode <+: dt.blob.drop o := by
  induction ps generalizing off with
  | nil => cases h
  | cons q ps ih =>
    obtain ⟨hq, hps⟩ := append_prefix_drop.1 hps
    rw [q.length_encode] at hps
    obtain heq | h := List.mem_cons.1 h
    · obtain ⟨rfl, rfl⟩ := Prod.mk.inj heq
      exact hq
    · exact ih hps h

theorem map_snd_propsAt (off : Nat) (ps : List Property) :
    (propsAt off ps).map Prod.snd = ps := by
  induction ps generalizing off with
  | nil => rfl
  | cons p ps ih => rw [propsAt, List.map_cons, ih]

theorem nodeName_eq (off : Nat) (t : Tree) :
    t.nodeName = (t.findProperty off nameKey).map fun p => text p.2.value := by
  rw [Tree.nodeName, ← map_snd_propsAt (off + 8) t.props, List.find?_map, Option.map_map]
  rfl

/-- The test of a child compares its name. -/
theorem isNamed_eq (h : Lies dt.blob off t) :
    isNamed dt (t.nodeAt off) name = decide (t.nodeName = some (text name)) := by
  rw [isNamed, dtProperty_eq h, nodeName_eq off]
  cases hfind : t.findProperty off nameKey with
  | none => rfl
  | some found =>
    obtain ⟨o, p⟩ := found
    have hp : p.encode <+: dt.blob.drop o :=
      prefix_of_mem_propsAt (Tree.encode_prefix.1 h.bytes).2.1 (List.mem_of_find?_eq_some hfind)
    obtain ⟨rest, hrest⟩ := hp
    have hget : dt.blob.getD (o + propHeader + (text name).length) 0 =
        (p.value ++ (p.padding ++ rest)).getD (text name).length 0 := by
      rw [← Property.drop_header hrest.symm, List.drop_drop, List.getD_eq_getElem?_getD,
        List.getD_eq_getElem?_getD, List.getElem?_drop]
    rw [Bool.eq_iff_iff, decide_eq_true_iff, Option.map_some, Option.some.injEq]
    dsimp only
    rw [hget, ← List.drop_drop, Property.drop_header hrest.symm, Bool.and_eq_true,
      Bool.and_eq_true, Bool.or_eq_true, decide_eq_true_iff, beq_iff_eq, beq_iff_eq]
    exact text_eq_iff

/-- The loop over the children finds the first one with the name. -/
theorem childLoop_eq {f : Forest} (h : 4 ∣ off) (hfits : f.CountsFit)
    (hlevels : f.levels ≤ dtMaxDepth) (hf : f.encode <+: dt.blob.drop off) :
    childLoop dt name f.count off =
      match (f.nodesAt off).find? fun c => c.2.nodeName = some (text name) with
      | none => .error .notFound
      | some (o, c) => .ok (c.nodeAt o) := by
  induction f generalizing off with
  | nil => rfl
  | node props children next _ ih =>
    obtain ⟨ht, hnext⟩ := Forest.encode_prefix.1 hf
    obtain ⟨hdepth, hbeside⟩ := max_le_iff.1 hlevels
    have hlies : Lies dt.blob off ⟨props, children⟩ :=
      ⟨h, ⟨hfits.1, hfits.2.1⟩, Nat.le_of_succ_le hdepth, ht⟩
    rw [Forest.count, childLoop, hlies.readNode_eq, Forest.nodesAt, List.find?_cons]
    dsimp only
    rw [isNamed_eq hlies, hlies.skipNode_eq]
    by_cases hname : (Tree.mk props children).nodeName = some (text name)
    · rw [decide_eq_true hname]
      rfl
    · rw [decide_eq_false hname]
      exact ih (Nat.dvd_add h (Tree.four_dvd_size _)) hfits.2.2 hbeside hnext

theorem dtChild_eq (h : Lies dt.blob off t) :
    dtChild dt (t.nodeAt off) name =
      match t.findChild off (text name) with
      | none => .error .notFound
      | some (o, c) => .ok (c.nodeAt o) := by
  obtain ⟨-, hps, hf⟩ := Tree.encode_prefix.1 h.bytes
  have h8 : 4 ∣ off + 8 := Nat.dvd_add h.aligned (by decide)
  have hskip : skipEach (skipProperty dt) t.props.length (off + 8) =
      some (off + 8 + sizeProps t.props) := (skipProperties_eq_some h8).2 ⟨_, rfl, hps, rfl⟩
  rw [dtChild, Tree.nodeAt, hskip]
  exact childLoop_eq (Nat.dvd_add h8 (four_dvd_sizeProps t.props)) h.countsFit.2 h.depth_le hf

theorem Tree.findPath_nil (t : Tree) (off : Nat) : t.findPath off [] = some (off, t) := rfl

theorem Tree.findPath_cons (t : Tree) (off : Nat) (name : List Byte) (path : List (List Byte)) :
    t.findPath off (name :: path) =
      (t.findChild off name).bind fun u => u.2.findPath u.1 path := rfl

/-- The loop over a path takes a child for every component, and none for a long component. -/
theorem pathLoop_eq {p : List Byte} (h : Lies dt.blob off t) (hzero : ∀ x ∈ p, x ≠ 0)
    (hslash : ∀ x ∈ p.head?, x ≠ slash) :
    pathLoop dt p (t.nodeAt off) =
      if ∀ c ∈ components slash p, c.length < dtPropNameLen then
        match t.findPath off (components slash p) with
        | none => .error .notFound
        | some (o, c) => .ok (c.nodeAt o)
      else .error .notFound := by
  induction hn : p.length using Nat.strong_induction_on generalizing p off t with
  | _ n ih =>
    rw [pathLoop]
    by_cases hnil : p = []
    · rw [if_pos hnil, hnil, components_nil, if_pos (by simp), Tree.findPath_nil]
    · rw [if_neg hnil]
      have hname := TerminatedText.takeWhile_ne_nil hnil hslash
      have hcomponents := components_eq hname
      have hle : (p.takeWhile (· ≠ slash)).length ≤ p.length :=
        (List.takeWhile_prefix _).length_le
      have hdrop := TerminatedText.drop_takeWhile slash p
      have hless := length_rest_lt (List.length_pos_of_ne_nil hname) hle
      have htext : text (p.takeWhile (· ≠ slash)) = p.takeWhile (· ≠ slash) :=
        TerminatedText.text_of_forall fun x hx => hzero x ((List.takeWhile_prefix _).subset hx)
      dsimp only
      by_cases hlong : dtPropNameLen ≤ (p.takeWhile (· ≠ slash)).length
      · rw [dif_pos (Or.inr hlong), if_neg]
        intro hshort
        have hfirst := hshort (p.takeWhile (· ≠ slash)) (by
          rw [hcomponents]
          exact List.mem_cons_self ..)
        exact absurd hfirst (Nat.not_lt.2 hlong)
      · rw [dif_neg (by
          rintro (hempty | hlong')
          · exact hname (List.length_eq_zero_iff.1 hempty)
          · exact hlong hlong'), dtChild_eq h, htext]
        rw [hdrop] at hless ⊢
        have hsub : ∀ x ∈ (p.dropWhile (· ≠ slash)).dropWhile (· == slash), x ∈ p := fun x hx =>
          (List.dropWhile_suffix _).subset ((List.dropWhile_suffix _).subset hx)
        cases hchild : t.findChild off (p.takeWhile (· ≠ slash)) with
        | none =>
          rw [hcomponents, Tree.findPath_cons, hchild]
          exact (ite_self _).symm
        | some c =>
          have hc : Lies dt.blob c.1 c.2 := h.child (List.mem_of_find?_eq_some hchild)
          have hrest := ih _ (hn ▸ hless) hc (fun x hx => hzero x (hsub x hx))
            (TerminatedText.head?_dropWhile_sep _) rfl
          rw [components_dropWhile] at hrest
          rw [hcomponents, Tree.findPath_cons, hchild]
          refine hrest.trans (if_congr ?_ rfl rfl)
          rw [List.forall_mem_cons]
          exact (and_iff_right (Nat.not_le.1 hlong)).symm

theorem dtPath_eq (h : Lies dt.blob off t) (path : List Byte) :
    dtPath dt (t.nodeAt off) path =
      if ∀ c ∈ components slash (text path), c.length < dtPropNameLen then
        match t.findPath off (components slash (text path)) with
        | none => .error .notFound
        | some (o, c) => .ok (c.nodeAt o)
      else .error .notFound := by
  have hloop := pathLoop_eq (p := (text path).dropWhile (· == slash)) h
    (fun x hx => TerminatedText.ne_zero_of_mem_text ((List.dropWhile_suffix _).subset hx))
    (TerminatedText.head?_dropWhile_sep _)
  rwa [components_dropWhile] at hloop

/-! ### Accepted blobs -/

/-- A blob begins with a tree that is not too deep. -/
structure Begins (blob : List Byte) (t : Tree) : Prop where
  countsFit : t.CountsFit
  depth_le : t.depth ≤ dtMaxDepth
  bytes : t.encode <+: blob

theorem Begins.lies {blob : List Byte} (h : Begins blob t) : Lies blob 0 t :=
  ⟨Nat.dvd_zero 4, h.countsFit, h.depth_le, h.bytes⟩

theorem Begins.dtParse_eq {blob : List Byte} (h : Begins blob t) :
    dtParse (some blob) = .ok (⟨blob⟩, t.nodeAt 0) := by
  have hlies : Lies (Dt.mk blob).blob 0 t := h.lies
  have hlen : ¬blob.length < nodeHeader := by
    have hle := h.bytes.length_le
    rw [t.length_encode, Tree.size] at hle
    exact Nat.not_lt.2 (Nat.le_of_add_right_le (Nat.le_of_add_right_le hle))
  rw [dtParse, if_neg hlen, hlies.skipNode_eq, hlies.readNode_eq]

/-- The parser accepts the blobs that begin with a tree. -/
theorem dtParse_eq_ok {blob : List Byte} :
    (∃ r, dtParse (some blob) = .ok r) ↔ ∃ t, Begins blob t := by
  constructor
  · rintro ⟨r, hr⟩
    rw [dtParse] at hr
    split_ifs at hr
    cases hskip : skipNode ⟨blob⟩ 0 0 with
    | none =>
      rw [hskip] at hr
      cases hr
    | some e =>
      obtain ⟨t, hfits, hdepth, ht, -⟩ := (skipLevels_eq_some (Nat.dvd_zero 4)).1 hskip
      exact ⟨t, hfits, Nat.le_of_lt_succ hdepth, ht⟩
  · rintro ⟨t, ht⟩
    exact ⟨_, ht.dtParse_eq⟩

/-- A blob is accepted if it begins with a tree, and what is looked up at a node of the tree is what
a search of the tree finds, with its bytes in the blob. A path with a component that does not fit
into a name field with its zero is not found. -/
theorem lookups_are_searches (blob : List Byte) :
    ((∃ r, dtParse (some blob) = .ok r) ↔ ∃ t, Begins blob t) ∧
      ∀ t, Begins blob t → dtParse (some blob) = .ok (⟨blob⟩, t.nodeAt 0) ∧
        ∀ off u, Occurs t off u → u.encode <+: blob.drop off ∧
          (∀ name, dtProperty ⟨blob⟩ (u.nodeAt off) name =
            match u.findProperty off name with
            | none => .error .notFound
            | some (o, p) => .ok (o + propHeader, p.value.length)) ∧
          (∀ name o p, u.findProperty off name = some (o, p) →
            (blob.drop (o + propHeader)).take p.value.length = p.value) ∧
          (∀ name, dtChild ⟨blob⟩ (u.nodeAt off) name =
            match u.findChild off (text name) with
            | none => .error .notFound
            | some (o, c) => .ok (c.nodeAt o)) ∧
          ∀ path, dtPath ⟨blob⟩ (u.nodeAt off) path =
            if ∀ c ∈ components slash (text path), c.length < dtPropNameLen then
              match u.findPath off (components slash (text path)) with
              | none => .error .notFound
              | some (o, c) => .ok (c.nodeAt o)
            else .error .notFound := by
  refine ⟨dtParse_eq_ok, fun t ht => ⟨ht.dtParse_eq, fun off u hu => ?_⟩⟩
  have hroot : Lies (Dt.mk blob).blob 0 t := ht.lies
  have hlies : Lies (Dt.mk blob).blob off u := Occurs.lies hroot hu
  refine ⟨hlies.bytes, fun name => dtProperty_eq hlies, fun name o p hfind => ?_,
    fun name => dtChild_eq hlies, fun path => dtPath_eq hlies path⟩
  have hvalue : p.encode <+: (Dt.mk blob).blob.drop o :=
    prefix_of_mem_propsAt (Tree.encode_prefix.1 hlies.bytes).2.1 (List.mem_of_find?_eq_some hfind)
  exact take_value hvalue

/-- A root with a child whose name has as many octets as a name field. -/
def longNamed : Tree where
  props := []
  children := .node [⟨nameKey ++ List.replicate 28 0, 32, List.replicate 32 0x61, [],
    rfl, by decide, rfl, rfl⟩] .nil .nil

/-- The child is there, and its path is not found. -/
theorem long_component_not_found :
    Begins longNamed.encode longNamed ∧
      (longNamed.findPath 0 (components slash (text (List.replicate 32 0x61)))).isSome = true ∧
      dtPath ⟨longNamed.encode⟩ (longNamed.nodeAt 0) (List.replicate 32 0x61) =
        .error .notFound := by
  have hbegins : Begins longNamed.encode longNamed :=
    ⟨⟨by decide, ⟨by decide, by decide⟩, trivial, trivial⟩, by decide, List.prefix_rfl⟩
  have hlies : Lies (Dt.mk longNamed.encode).blob 0 longNamed := hbegins.lies
  refine ⟨hbegins, by decide, ?_⟩
  rw [dtPath_eq hlies, if_neg (by decide)]

end S5LBox.Firmware.DeviceTree
