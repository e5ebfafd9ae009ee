import S5LBox.Firmware.DeviceTree

/-!
# Flattened device trees

A node is its counts, its properties and the nodes below it, one behind the other. A property is its
name field, its length word, its value and the padding up to a multiple of four.

## Main definitions

* `Property`, `Forest`, `Tree`: what a blob stands for, and its bytes.
* `Forest.Holds`, `Tree.Holds`: a place in a blob holds these nodes.

## Main results

* `skipProperty_eq_some`, `skipLevels_eq_some`: what the skipping functions pass is a property and a
  tree, and they pass every one.
-/

namespace S5LBox.Firmware.DeviceTree

open LittleEndian (decode_take_encode encode_decode_take decode_take_lt)
open TerminatedText (text)

/-! ### Properties -/

/-- A property. The highest bit of its length word is a flag. -/
structure Property where
  name : List Byte
  word : Nat
  value : List Byte
  padding : List Byte
  name_length : name.length = 32
  word_lt : word < 2 ^ 32
  value_length : value.length = word % 2 ^ 31
  padding_length : value.length + padding.length = (value.length + 3) / 4 * 4

namespace Property

/-- The size of a property. -/
def size (p : Property) : Nat := 36 + (p.value.length + 3) / 4 * 4

/-- The bytes of a property. -/
def encode (p : Property) : List Byte :=
  p.name ++ (LittleEndian.encode 4 p.word ++ (p.value ++ p.padding))

@[simp]
theorem length_encode (p : Property) : p.encode.length = p.size := by
  rw [encode, List.length_append, List.length_append, List.length_append,
    LittleEndian.length_encode, p.name_length, p.padding_length, size]
  omega

theorem four_dvd_size (p : Property) : 4 ∣ p.size :=
  Nat.dvd_add (by decide) (Nat.dvd_mul_left ..)

variable {p : Property} {l rest : List Byte}

theorem take_name (h : l = p.encode ++ rest) : l.take 32 = p.name := by
  rw [h, encode, List.append_assoc, List.take_left' p.name_length]

theorem drop_name (h : l = p.encode ++ rest) :
    l.drop 32 = LittleEndian.encode 4 p.word ++ (p.value ++ (p.padding ++ rest)) := by
  rw [h, encode, List.append_assoc, List.drop_left' p.name_length, List.append_assoc,
    List.append_assoc]

theorem rd32_word (h : l = p.encode ++ rest) : rd32 (l.drop 32) = p.word := by
  rw [drop_name h]
  exact decode_take_encode p.word_lt _

theorem drop_header (h : l = p.encode ++ rest) : l.drop 36 = p.value ++ (p.padding ++ rest) := by
  have hdrop := congrArg (List.drop 4) (drop_name h)
  rwa [List.drop_drop, List.drop_left' (LittleEndian.length_encode 4 _)] at hdrop

/-- A property is at the front of a list that is long enough. -/
theorem exists_of_length (h : 36 ≤ l.length)
    (hvalue : 36 + (rd32 (l.drop 32) % 2 ^ 31 + 3) / 4 * 4 ≤ l.length) :
    ∃ p : Property, p.encode <+: l ∧ p.value.length = rd32 (l.drop 32) % 2 ^ 31 := by
  have hword := decode_take_lt 4 (l.drop 32)
  have hfield : LittleEndian.encode 4 (rd32 (l.drop 32)) ++ (l.drop 32).drop 4 = l.drop 32 :=
    encode_decode_take (by rw [List.length_drop]; omega)
  rw [List.drop_drop] at hfield
  generalize hn : rd32 (l.drop 32) % 2 ^ 31 = n at hvalue
  have hlen : ((l.drop 36).take n).length = n := by
    rw [List.length_take_of_le]
    rw [List.length_drop]
    omega
  have hpad : (((l.drop 36).drop n).take ((n + 3) / 4 * 4 - n)).length =
      (n + 3) / 4 * 4 - n := by
    rw [List.length_take_of_le]
    rw [List.length_drop, List.length_drop]
    omega
  refine ⟨⟨l.take 32, rd32 (l.drop 32), (l.drop 36).take n,
    ((l.drop 36).drop n).take ((n + 3) / 4 * 4 - n), List.length_take_of_le (by omega), hword,
    by rw [hlen, hn], by rw [hlen, hpad]; omega⟩, ?_, hlen⟩
  refine ⟨((l.drop 36).drop n).drop ((n + 3) / 4 * 4 - n), ?_⟩
  rw [encode, List.append_assoc, List.append_assoc, List.append_assoc, List.take_append_drop,
    List.take_append_drop, hfield, List.take_append_drop]

end Property

/-- The bytes of a sequence of properties. -/
def encodeProps (ps : List Property) : List Byte := ps.flatMap Property.encode

/-- The size of a sequence of properties. -/
def sizeProps (ps : List Property) : Nat := (ps.map Property.size).sum

@[simp]
theorem length_encodeProps (ps : List Property) : (encodeProps ps).length = sizeProps ps := by
  rw [encodeProps, List.length_flatMap, sizeProps]
  exact congrArg List.sum (List.map_congr_left fun p _ => p.length_encode)

theorem sizeProps_cons (p : Property) (ps : List Property) :
    sizeProps (p :: ps) = p.size + sizeProps ps := by
  rw [sizeProps, List.map_cons, List.sum_cons, sizeProps]

theorem four_dvd_sizeProps (ps : List Property) : 4 ∣ sizeProps ps := by
  induction ps with
  | nil => exact Nat.dvd_zero 4
  | cons p ps ih =>
    rw [sizeProps_cons]
    exact Nat.dvd_add p.four_dvd_size ih

/-! ### Nodes -/

/-- Nodes beside each other: the first one with its properties and the nodes below it, and the
others. -/
inductive Forest
  | nil
  | node (props : List Property) (children next : Forest)

/-- A node and what is below it. -/
structure Tree where
  props : List Property
  children : Forest

namespace Forest

/-- The count of the nodes beside each other. -/
def count : Forest → Nat
  | nil => 0
  | node _ _ next => next.count + 1

/-- The count of the levels. -/
def levels : Forest → Nat
  | nil => 0
  | node _ children next => max (children.levels + 1) next.levels

/-- The counts fit into their fields. -/
def CountsFit : Forest → Prop
  | nil => True
  | node props children next =>
    (props.length < 2 ^ 32 ∧ children.count < 2 ^ 32) ∧ children.CountsFit ∧ next.CountsFit

/-- The bytes. -/
def encode : Forest → List Byte
  | nil => []
  | node props children next =>
    LittleEndian.encode 4 props.length ++ (LittleEndian.encode 4 children.count ++
      (encodeProps props ++ (children.encode ++ next.encode)))

/-- The size. -/
def size : Forest → Nat
  | nil => 0
  | node props children next => 8 + sizeProps props + children.size + next.size

@[simp]
theorem length_encode (f : Forest) : f.encode.length = f.size := by
  induction f with
  | nil => rfl
  | node props children next ihc ihn =>
    simp only [encode, List.length_append, LittleEndian.length_encode, length_encodeProps, ihc,
      ihn, size]
    omega

theorem four_dvd_size (f : Forest) : 4 ∣ f.size := by
  induction f with
  | nil => exact Nat.dvd_zero 4
  | node props children next ihc ihn =>
    exact Nat.dvd_add (Nat.dvd_add (Nat.dvd_add (by decide) (four_dvd_sizeProps props)) ihc) ihn

end Forest

namespace Tree

/-- The depth of a tree, which is 0 for a node alone. -/
def depth (t : Tree) : Nat := t.children.levels

/-- The counts fit into their fields. -/
def CountsFit (t : Tree) : Prop :=
  (t.props.length < 2 ^ 32 ∧ t.children.count < 2 ^ 32) ∧ t.children.CountsFit

/-- The bytes of a tree. -/
def encode (t : Tree) : List Byte :=
  LittleEndian.encode 4 t.props.length ++ (LittleEndian.encode 4 t.children.count ++
    (encodeProps t.props ++ t.children.encode))

/-- The size of a tree. -/
def size (t : Tree) : Nat := 8 + sizeProps t.props + t.children.size

@[simp]
theorem length_encode (t : Tree) : t.encode.length = t.size := by
  simp only [encode, List.length_append, LittleEndian.length_encode, length_encodeProps,
    Forest.length_encode, size]
  omega

theorem four_dvd_size (t : Tree) : 4 ∣ t.size :=
  Nat.dvd_add (Nat.dvd_add (by decide) (four_dvd_sizeProps t.props)) t.children.four_dvd_size

end Tree

theorem Forest.encode_node (props : List Property) (children next : Forest) :
    (Forest.node props children next).encode = (Tree.mk props children).encode ++ next.encode := by
  rw [Forest.encode, Tree.encode, List.append_assoc, List.append_assoc, List.append_assoc]

theorem Forest.size_node (props : List Property) (children next : Forest) :
    (Forest.node props children next).size = (Tree.mk props children).size + next.size := rfl

/-! ### Skipping -/

/-- Two pieces at a place. -/
theorem append_prefix_drop {a b l : List Byte} {off : Nat} :
    a ++ b <+: l.drop off ↔ a <+: l.drop off ∧ b <+: l.drop (off + a.length) := by
  constructor
  · rintro ⟨rest, h⟩
    rw [List.append_assoc] at h
    refine ⟨⟨_, h⟩, rest, ?_⟩
    rw [← List.drop_drop, ← h, List.drop_left]
  · rintro ⟨⟨rest, h⟩, rest', h'⟩
    rw [← List.drop_drop, ← h, List.drop_left] at h'
    exact ⟨rest', by rw [List.append_assoc, h', h]⟩

theorem add_length_le {a l : List Byte} {off : Nat} (hpos : 0 < a.length) (h : a <+: l.drop off) :
    off + a.length ≤ l.length := by
  have hle := h.length_le
  rw [List.length_drop] at hle
  omega

variable {dt : Dt} {off e n levels : Nat}

theorem align4_add (h : 4 ∣ off) : align4 (off + propHeader + n) = off + (36 + (n + 3) / 4 * 4) := by
  have hheader : propHeader = 36 := rfl
  rw [align4]
  omega

/-- What is passed as a property is one. -/
theorem skipProperty_eq_some (h : 4 ∣ off) :
    skipProperty dt off = some e ↔
      ∃ p : Property, p.encode <+: dt.blob.drop off ∧ e = off + p.size := by
  have hheader : propHeader = 36 := rfl
  have hname : dtPropNameLen = 32 := rfl
  rw [skipProperty, List.drop_drop.symm, hname]
  constructor
  · intro hskip
    by_cases hfits : dt.Fits off propHeader
    · rw [if_neg (not_not.2 hfits)] at hskip
      dsimp only at hskip
      rw [align4_add h] at hskip
      rw [Dt.Fits] at hfits
      split_ifs at hskip with hlong
      obtain ⟨p, hp, hvalue⟩ := Property.exists_of_length (l := dt.blob.drop off)
        (by rw [List.length_drop]; omega) (by rw [List.length_drop]; omega)
      refine ⟨p, hp, ?_⟩
      rw [Property.size, hvalue]
      exact (Option.some.inj hskip).symm
    · rw [if_pos hfits] at hskip
      cases hskip
  · rintro ⟨p, ⟨rest, hp⟩, rfl⟩
    have hsize : 36 ≤ p.size := Nat.le_add_right ..
    have hlen := add_length_le (by rw [p.length_encode]; omega) ⟨rest, hp⟩
    rw [p.length_encode] at hlen
    rw [if_neg (not_not.2 (by rw [Dt.Fits]; omega))]
    dsimp only
    rw [Property.rd32_word hp.symm, ← p.value_length, align4_add h, ← Property.size,
      if_neg (Nat.not_lt.2 hlen)]

theorem skipProperties_eq_some (h : 4 ∣ off) :
    skipEach (skipProperty dt) n off = some e ↔
      ∃ ps : List Property, ps.length = n ∧ encodeProps ps <+: dt.blob.drop off ∧
        e = off + sizeProps ps := by
  induction n generalizing off with
  | zero =>
    constructor
    · intro hskip
      exact ⟨[], rfl, List.nil_prefix, (Option.some.inj hskip).symm⟩
    · rintro ⟨ps, hps, -, rfl⟩
      obtain rfl := List.length_eq_zero_iff.1 hps
      rfl
  | succ n ih =>
    rw [skipEach, Option.bind_eq_some_iff]
    constructor
    · rintro ⟨e', hskip, hrest⟩
      obtain ⟨p, hp, rfl⟩ := (skipProperty_eq_some h).1 hskip
      obtain ⟨ps, rfl, hps, rfl⟩ := (ih (Nat.dvd_add h p.four_dvd_size)).1 hrest
      refine ⟨p :: ps, rfl, ?_, by rw [sizeProps_cons, Nat.add_assoc]⟩
      exact append_prefix_drop.2 ⟨hp, by rwa [p.length_encode]⟩
    · rintro ⟨ps, hlen, hps, rfl⟩
      obtain ⟨p, ps, rfl⟩ := List.exists_cons_of_length_eq_add_one hlen
      obtain ⟨hp, hps⟩ := append_prefix_drop.1 hps
      rw [p.length_encode] at hps
      refine ⟨off + p.size, (skipProperty_eq_some h).2 ⟨p, hp, rfl⟩, ?_⟩
      refine (ih (Nat.dvd_add h p.four_dvd_size)).2 ⟨ps, Nat.succ.inj hlen, hps, ?_⟩
      rw [sizeProps_cons, Nat.add_assoc]

/-- What a node header says. -/
theorem readNode_eq_some {node : Node} :
    readNode dt off = some node ↔
      (LittleEndian.encode 4 node.nProps ++ LittleEndian.encode 4 node.nChildren) <+:
          dt.blob.drop off ∧
        node.nProps < 2 ^ 32 ∧ node.nChildren < 2 ^ 32 ∧ node.offset = off ∧
          node.propsOff = off + 8 := by
  rw [readNode, List.drop_drop.symm]
  constructor
  · intro hread
    split_ifs at hread with hfits
    obtain rfl := Option.some.inj hread
    rw [Dt.Fits] at hfits
    have hheader : nodeHeader = 8 := rfl
    have hfirst : LittleEndian.encode 4 (rd32 (dt.blob.drop off)) ++ (dt.blob.drop off).drop 4 =
        dt.blob.drop off := encode_decode_take (by rw [List.length_drop]; omega)
    have hsecond : LittleEndian.encode 4 (rd32 ((dt.blob.drop off).drop 4)) ++
        ((dt.blob.drop off).drop 4).drop 4 = (dt.blob.drop off).drop 4 :=
      encode_decode_take (by rw [List.length_drop, List.length_drop]; omega)
    exact ⟨⟨_, by rw [List.append_assoc, hsecond, hfirst]⟩, decode_take_lt 4 _,
      decode_take_lt 4 _, rfl, rfl⟩
  · rintro ⟨⟨rest, hp⟩, hprops, hchildren, hoff, hpropsOff⟩
    obtain ⟨offset, nProps, nChildren, propsOff⟩ := node
    dsimp only at hp hprops hchildren hoff hpropsOff
    have hlen := add_length_le (by simp) ⟨rest, hp⟩
    simp only [List.length_append, LittleEndian.length_encode] at hlen
    rw [List.append_assoc] at hp
    have hsecond : (dt.blob.drop off).drop 4 = LittleEndian.encode 4 nChildren ++ rest := by
      rw [← hp, List.drop_left' (LittleEndian.length_encode 4 _)]
    have hfits : dt.Fits off nodeHeader := hlen
    rw [if_neg (not_not.2 hfits), hsecond, ← hp, rd32, rd32, decode_take_encode hprops,
      decode_take_encode hchildren, hoff, hpropsOff]

theorem Tree.encode_prefix {t : Tree} :
    t.encode <+: dt.blob.drop off ↔
      (LittleEndian.encode 4 t.props.length ++ LittleEndian.encode 4 t.children.count) <+:
          dt.blob.drop off ∧
        encodeProps t.props <+: dt.blob.drop (off + 8) ∧
          t.children.encode <+: dt.blob.drop (off + 8 + sizeProps t.props) := by
  have hlen : (LittleEndian.encode 4 t.props.length ++
      LittleEndian.encode 4 t.children.count).length = 8 := by
    rw [List.length_append, LittleEndian.length_encode, LittleEndian.length_encode]
  rw [Tree.encode, ← List.append_assoc, append_prefix_drop, hlen]
  exact and_congr_right fun _ => append_prefix_drop.trans (by rw [length_encodeProps])

theorem Forest.encode_prefix {props : List Property} {children next : Forest} :
    (Forest.node props children next).encode <+: dt.blob.drop off ↔
      (Tree.mk props children).encode <+: dt.blob.drop off ∧
        next.encode <+: dt.blob.drop (off + (Tree.mk props children).size) := by
  rw [Forest.encode_node, append_prefix_drop, Tree.length_encode]

/-- What is passed as nodes beside each other is that, if what is passed as one node is one. -/
theorem skipNodes_eq_some
    (hnode : ∀ {off e}, 4 ∣ off → (skipLevels dt levels off = some e ↔
      ∃ t : Tree, t.CountsFit ∧ t.depth < levels ∧ t.encode <+: dt.blob.drop off ∧
        e = off + t.size)) (h : 4 ∣ off) :
    skipEach (skipLevels dt levels) n off = some e ↔
      ∃ f : Forest, f.count = n ∧ f.CountsFit ∧ f.levels ≤ levels ∧
        f.encode <+: dt.blob.drop off ∧ e = off + f.size := by
  induction n generalizing off with
  | zero =>
    constructor
    · intro hskip
      exact ⟨.nil, rfl, trivial, Nat.zero_le _, List.nil_prefix, (Option.some.inj hskip).symm⟩
    · rintro ⟨f, hf, -, -, -, rfl⟩
      cases f with
      | nil => rfl
      | node props children next => exact absurd hf (Nat.succ_ne_zero _)
  | succ n ih =>
    rw [skipEach, Option.bind_eq_some_iff]
    constructor
    · rintro ⟨e', hskip, hrest⟩
      obtain ⟨t, hfit, hdepth, ht, rfl⟩ := (hnode h).1 hskip
      obtain ⟨f, rfl, hfits, hlevels, hf, rfl⟩ := (ih (Nat.dvd_add h t.four_dvd_size)).1 hrest
      refine ⟨.node t.props t.children f, rfl, ⟨hfit.1, hfit.2, hfits⟩,
        max_le hdepth hlevels, Forest.encode_prefix.2 ⟨ht, hf⟩, ?_⟩
      rw [Forest.size_node, Nat.add_assoc]
    · rintro ⟨f, hcount, hfits, hlevels, hf, rfl⟩
      cases f with
      | nil => exact absurd hcount.symm (Nat.succ_ne_zero _)
      | node props children next =>
        obtain ⟨ht, hnext⟩ := Forest.encode_prefix.1 hf
        obtain ⟨hdepth, hbeside⟩ := max_le_iff.1 hlevels
        refine ⟨off + (Tree.mk props children).size, (hnode h).2 ⟨⟨props, children⟩,
          ⟨hfits.1, hfits.2.1⟩, hdepth, ht, rfl⟩, ?_⟩
        refine (ih (Nat.dvd_add h (Tree.four_dvd_size _))).2 ⟨next, Nat.succ.inj hcount,
          hfits.2.2, hbeside, hnext, ?_⟩
        rw [Forest.size_node, Nat.add_assoc]

/-- What is passed as a node is a tree. -/
theorem skipLevels_eq_some (h : 4 ∣ off) :
    skipLevels dt levels off = some e ↔
      ∃ t : Tree, t.CountsFit ∧ t.depth < levels ∧ t.encode <+: dt.blob.drop off ∧
        e = off + t.size := by
  induction levels generalizing off e with
  | zero =>
    constructor
    · intro hskip
      cases hskip
    · rintro ⟨t, -, hdepth, -⟩
      exact absurd hdepth (Nat.not_lt_zero _)
  | succ levels ih =>
    have h8 : 4 ∣ off + 8 := Nat.dvd_add h (by decide)
    rw [skipLevels]
    constructor
    · intro hskip
      cases hread : readNode dt off with
      | none =>
        rw [hread] at hskip
        cases hskip
      | some node =>
        obtain ⟨hheader, hprops, hchildren, -, hoff⟩ := readNode_eq_some.1 hread
        rw [hread] at hskip
        dsimp only at hskip
        rw [hoff] at hskip
        obtain ⟨e', hskip, hrest⟩ := Option.bind_eq_some_iff.1 hskip
        obtain ⟨ps, hlen, hps, rfl⟩ := (skipProperties_eq_some h8).1 hskip
        obtain ⟨f, hcount, hfits, hlevels, hf, rfl⟩ :=
          (skipNodes_eq_some ih (Nat.dvd_add h8 (four_dvd_sizeProps ps))).1 hrest
        rw [← hlen, ← hcount] at hheader
        refine ⟨⟨ps, f⟩, ⟨⟨hlen ▸ hprops, hcount ▸ hchildren⟩, hfits⟩, Nat.lt_succ_of_le hlevels,
          Tree.encode_prefix.2 ⟨hheader, hps, hf⟩, ?_⟩
        rw [Tree.size, Nat.add_assoc, Nat.add_assoc, Nat.add_assoc]
    · rintro ⟨t, hfit, hdepth, ht, rfl⟩
      obtain ⟨hheader, hps, hf⟩ := Tree.encode_prefix.1 ht
      have hread : readNode dt off = some ⟨off, t.props.length, t.children.count, off + 8⟩ :=
        readNode_eq_some.2 ⟨hheader, hfit.1.1, hfit.1.2, rfl, rfl⟩
      rw [hread]
      refine Option.bind_eq_some_iff.2 ⟨off + 8 + sizeProps t.props,
        (skipProperties_eq_some h8).2 ⟨t.props, rfl, hps, rfl⟩, ?_⟩
      refine (skipNodes_eq_some ih (Nat.dvd_add h8 (four_dvd_sizeProps t.props))).2
        ⟨t.children, rfl, hfit.2, Nat.le_of_lt_succ hdepth, hf, ?_⟩
      rw [Tree.size]
      omega

end S5LBox.Firmware.DeviceTree
