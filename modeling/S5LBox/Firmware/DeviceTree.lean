import S5LBox.Arm.Cpu
import S5LBox.Lib.LittleEndian
import S5LBox.Lib.TerminatedText

/-!
# The reader of device trees

`devicetree.c`. A pointer into the blob is an offset, the `0` of the functions that skip is `none`,
and a string is what its pointer shows, with a zero behind its end.

## Main definitions

* `skipProperty`, `skipNode`: the end of a property and of a node.
* `dtParse`, `dtProperty`, `dtChild`, `dtPath`.
-/

namespace S5LBox.Firmware.DeviceTree

open TerminatedText (text sameUpTo)

/-- `DT_PROP_NAME_LEN`. -/
abbrev dtPropNameLen : Nat := 32

/-- `DT_MAX_DEPTH`. -/
abbrev dtMaxDepth : Nat := 32

/-- `PROP_HEADER`. -/
abbrev propHeader : Nat := dtPropNameLen + 4

/-- `NODE_HEADER`. -/
abbrev nodeHeader : Nat := 8

/-- The errors of `dt_status_t`. -/
inductive Error
  | truncated
  | tooDeep
  | notFound
  deriving DecidableEq, Repr

/-- `dt_t`. Its `len` is the length of the blob. -/
structure Dt where
  blob : List Byte

/-- `dt_node_t`. -/
structure Node where
  offset : Nat
  nProps : Nat
  nChildren : Nat
  propsOff : Nat
  deriving DecidableEq, Repr

/-- `rd32`. -/
def rd32 (p : List Byte) : Nat := LittleEndian.decode (p.take 4)

/-- `align4`. -/
def align4 (v : Nat) : Nat := (v + 3) / 4 * 4

variable (dt : Dt)

/-- `fits`. -/
abbrev Dt.Fits (off need : Nat) : Prop := off + need ≤ dt.blob.length

/-- `read_node`, which fails with `DT_ERR_TRUNCATED` only. -/
def readNode (off : Nat) : Option Node :=
  if ¬dt.Fits off nodeHeader then none
  else some {
    offset := off
    nProps := rd32 (dt.blob.drop off)
    nChildren := rd32 (dt.blob.drop (off + 4))
    propsOff := off + nodeHeader }

/-- `skip_property`. -/
def skipProperty (off : Nat) : Option Nat :=
  if ¬dt.Fits off propHeader then none
  else
    let len := rd32 (dt.blob.drop (off + dtPropNameLen)) % 2 ^ 31
    let next := align4 (off + propHeader + len)
    if dt.blob.length < next then none else some next

/-- A loop that skips `n` things one after the other. -/
def skipEach (skip : Nat → Option Nat) : Nat → Nat → Option Nat
  | 0, cur => some cur
  | n + 1, cur => (skip cur).bind (skipEach skip n)

/-- `skip_node`, with the count of levels that `DT_MAX_DEPTH` leaves. -/
def skipLevels : Nat → Nat → Option Nat
  | 0, _ => none
  | levels + 1, off =>
    match readNode dt off with
    | none => none
    | some n =>
      (skipEach (skipProperty dt) n.nProps n.propsOff).bind
        (skipEach (skipLevels levels) n.nChildren)

/-- `skip_node`. -/
def skipNode (off depth : Nat) : Option Nat := skipLevels dt (dtMaxDepth + 1 - depth) off

/-- `dt_parse`, with the blob that it stores. -/
def dtParse (blob : Option (List Byte)) : Except Error (Dt × Node) :=
  match blob with
  | none => .error .truncated
  | some blob =>
    if blob.length < nodeHeader then .error .truncated
    else
      match skipNode ⟨blob⟩ 0 0, readNode ⟨blob⟩ 0 with
      | some _, some root => .ok (⟨blob⟩, root)
      | _, _ => .error .truncated

/-- The loop of `dt_property`. -/
def propertyLoop (name : List Byte) : Nat → Nat → Except Error (Nat × Nat)
  | 0, _ => .error .notFound
  | n + 1, cur =>
    if ¬dt.Fits cur propHeader then .error .truncated
    else if sameUpTo (dt.blob.drop cur) name dtPropNameLen then
      let plen := rd32 (dt.blob.drop (cur + dtPropNameLen)) % 2 ^ 31
      if ¬dt.Fits (cur + propHeader) plen then .error .truncated
      else .ok (cur + propHeader, plen)
    else
      match skipProperty dt cur with
      | none => .error .truncated
      | some cur => propertyLoop name n cur

/-- `dt_property`: where the value is and how long it is. -/
def dtProperty (node : Node) (name : List Byte) : Except Error (Nat × Nat) :=
  propertyLoop dt name node.nProps node.propsOff

/-- `"name"`. -/
def nameKey : List Byte := [0x6e, 0x61, 0x6d, 0x65]

/-- The test of a child in `dt_child`. -/
def isNamed (child : Node) (name : List Byte) : Bool :=
  match dtProperty dt child nameKey with
  | .ok (v, n) =>
    let want := (text name).length
    decide (want ≤ n) && (sameUpTo (dt.blob.drop v) name want &&
      (n == want || dt.blob.getD (v + want) 0 == 0))
  | .error _ => false

/-- The loop of `dt_child` over the children. -/
def childLoop (name : List Byte) : Nat → Nat → Except Error Node
  | 0, _ => .error .notFound
  | n + 1, cur =>
    match readNode dt cur with
    | none => .error .truncated
    | some child =>
      if isNamed dt child name then .ok child
      else
        match skipNode dt cur 0 with
        | none => .error .truncated
        | some cur => childLoop name n cur

/-- `dt_child`. -/
def dtChild (parent : Node) (name : List Byte) : Except Error Node :=
  match skipEach (skipProperty dt) parent.nProps parent.propsOff with
  | none => .error .truncated
  | some cur => childLoop dt name parent.nChildren cur

/-- `'/'`. -/
abbrev slash : Byte := 0x2f

theorem length_rest_lt {p : List Byte} {n : Nat} (hn : 0 < n) (hle : n ≤ p.length) :
    ((p.drop n).dropWhile (· == slash)).length < p.length := by
  have hrest := (List.dropWhile_suffix (l := p.drop n) (· == slash)).length_le
  rw [List.length_drop] at hrest
  omega

/-- The loop of `dt_path`, at what is left of the path. -/
def pathLoop (p : List Byte) (cur : Node) : Except Error Node :=
  if p = [] then .ok cur
  else
    let name := p.takeWhile (· ≠ slash)
    if _h : name.length = 0 ∨ dtPropNameLen ≤ name.length then .error .notFound
    else
      match dtChild dt cur name with
      | .error e => .error e
      | .ok child => pathLoop ((p.drop name.length).dropWhile (· == slash)) child
termination_by p.length
decreasing_by
  have hname : name.length ≤ p.length := (List.takeWhile_prefix _).length_le
  exact length_rest_lt (Nat.pos_of_ne_zero fun h => _h (Or.inl h)) hname

/-- `dt_path`. -/
def dtPath (root : Node) (path : List Byte) : Except Error Node :=
  pathLoop dt ((text path).dropWhile (· == slash)) root

end S5LBox.Firmware.DeviceTree
