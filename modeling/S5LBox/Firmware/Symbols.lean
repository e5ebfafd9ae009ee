import S5LBox.Lib.BinarySearch
import S5LBox.Lib.LittleEndian
import S5LBox.Lib.Scan
import S5LBox.Lib.TerminatedText
import S5LBox.Arm.Cpu

/-!
# Symbols of a kernel cache

`ksyms.c`, and from `macho.c` the parser that it rests on. A pointer into the text of the property
list is what is left of it from there on. What a refused image leaves in the tables is left out,
and so are the texts of refusals. `qsort` leaves the order of equal elements open, so that it is a
parameter.

## Main definitions

* `machoParse`: the segments and the symbol table of an image.
* `readTag`, `scan`, `prelinkLoad`: the property list of the prelinked extensions.
* `ksymsLoad`, `ksymsKextAt`, `ksymsResolve`.
-/

namespace S5LBox.Firmware.Symbols

open BinarySearch (search)
open Scan (printed padded valueOf digitValue)
open TerminatedText (text)

/-- The octets of a text. -/
def octets (s : String) : List Byte := s.toList.map fun c => BitVec.ofNat 8 c.toNat

/-- Octets as a text. -/
def shown (bytes : List Byte) : String := String.ofList (bytes.map fun b => Char.ofNat b.toNat)

/-- `rd32`, at an offset. -/
def rd32 (buf : List Byte) (off : Nat) : Nat := LittleEndian.decode ((buf.drop off).take 4)

/-! ### Images -/

/-- `macho_segment_t`. -/
structure Segment where
  name : List Byte
  vmaddr : Nat
  vmsize : Nat
  fileoff : Nat
  filesize : Nat

/-- The symbol table of a `macho_t`. -/
structure Symtab where
  symoff : Nat
  nsyms : Nat
  stroff : Nat
  strsize : Nat

/-- `macho_t`, as far as it is read. -/
structure Macho where
  segments : List Segment := []
  symtab : Option Symtab := none
  hasUuid : Bool := false

/-- One load command of `macho_parse`. -/
def machoCommand (buf : List Byte) (off cmdsize : Nat) (m : Macho) : Option Macho :=
  let cmd := rd32 buf off
  if cmd = 0x01 then
    let s : Segment := {
      name := (buf.drop (off + 8)).take 16
      vmaddr := rd32 buf (off + 24)
      vmsize := rd32 buf (off + 28)
      fileoff := rd32 buf (off + 32)
      filesize := rd32 buf (off + 36) }
    if cmdsize < 56 ∨ 56 + rd32 buf (off + 48) * 68 ≠ cmdsize ∨ 16 ≤ m.segments.length ∨
        buf.length < s.fileoff + s.filesize ∨ s.vmsize < s.filesize ∨
        s.vmsize ≠ 0 ∧ 0xffffffff < s.vmaddr + s.vmsize then none
    else some { m with segments := m.segments ++ [s] }
  else if cmd = 0x02 then
    let t : Symtab := {
      symoff := rd32 buf (off + 8)
      nsyms := rd32 buf (off + 12)
      stroff := rd32 buf (off + 16)
      strsize := rd32 buf (off + 20) }
    if cmdsize < 24 ∨ buf.length < t.symoff + t.nsyms * 12 ∨ buf.length < t.stroff + t.strsize then
      none
    else some { m with symtab := some t }
  else if cmd = 0x1b then
    if cmdsize ≠ 24 ∨ m.hasUuid then none else some { m with hasUuid := true }
  else some m

/-- The loop of `macho_parse` over the load commands. -/
def machoCommands (buf : List Byte) (cmdsEnd : Nat) : Nat → Nat → Macho → Option (Nat × Macho)
  | 0, off, m => some (off, m)
  | n + 1, off, m =>
    let cmdsize := rd32 buf (off + 4)
    if cmdsEnd < off + 8 ∨ cmdsize < 8 ∨ cmdsEnd < off + cmdsize then none
    else machoCommand buf off cmdsize m >>= machoCommands buf cmdsEnd n (off + cmdsize)

/-- `macho_parse`. -/
def machoParse (buf : List Byte) : Option Macho :=
  if buf.length < 28 ∨ rd32 buf 0 ≠ 0xfeedface ∨ rd32 buf 4 ≠ 12 ∨
      buf.length < 28 + rd32 buf 20 then none
  else do
    let (off, m) ← machoCommands buf (28 + rd32 buf 20) (rd32 buf 16) 28 {}
    if off ≠ 28 + rd32 buf 20 then none else some m

/-- `macho_segment`. -/
def machoSegment (m : Macho) (name : String) : Option Segment :=
  m.segments.find? fun s => text s.name = octets name

/-! ### Tables -/

/-- `ksyms_status_t`, without `KSYMS_OK`. -/
inductive Status
  | macho | noSymtab | noPrelink | plist | tooMany | noMem
  deriving DecidableEq

/-- `ksym_t`. -/
structure Ksym where
  value : Nat
  name : List Byte

/-- `kext_t`. -/
structure Kext where
  bundle : List Byte := []
  addr : Nat := 0
  size : Nat := 0
  kmodInfo : Nat := 0
  hasExec : Bool := false
  deriving DecidableEq

/-- `ksyms_t` after an image has been accepted. -/
structure Ksyms where
  sym : List Ksym
  kext : List Kext
  nkextExec : Nat
  prelinkLo : Nat
  prelinkHi : Nat
  detail : String

/-- `qsort`, with what its comparison returns. -/
abbrev Qsort := (α : Type) → (α → α → Int) → List α → List α

/-- `ksym_cmp`. -/
def ksymCmp (x y : Ksym) : Int := if x.value < y.value then -1 else if y.value < x.value then 1 else 0

/-- `kext_cmp`. -/
def kextCmp (x y : Kext) : Int :=
  if x.hasExec ≠ y.hasExec then if x.hasExec then -1 else 1
  else if x.addr ≠ y.addr then if x.addr < y.addr then -1 else 1
  else 0

/-- The symbol of an entry of the table, if it counts. -/
def symbolAt (img : List Byte) (t : Symtab) (k : Nat) : Option Ksym :=
  let e := t.symoff + k * 12
  let strx := rd32 img e
  let type := (img.getD (e + 4) 0).toNat
  let val := rd32 img (e + 8)
  let name := (img.drop (t.stroff + strx)).take (t.strsize - strx)
  if type &&& 0x0e ≠ 0x0e ∨ val = 0 ∨ t.strsize ≤ strx ∨ 0 ∉ name then none
  else some ⟨val, text name⟩

/-- `symtab_load`. -/
def symtabLoad (qsort : Qsort) (memory : Bool) (img : List Byte) (m : Macho) :
    Except Status (List Ksym) :=
  match m.symtab with
  | none => .error .noSymtab
  | some t =>
    if t.nsyms = 0 then .error .noSymtab
    else if memory = false then .error .noMem
    else
      let sym := qsort Ksym ksymCmp ((List.range t.nsyms).filterMap (symbolAt img t))
      if sym = [] then .error .noSymtab else .ok sym

/-! ### Tags -/

/-- `tag_t`. -/
structure Tag where
  name : List Byte
  closing : Bool
  selfclose : Bool
  id : Option Nat
  idref : Option Nat
  after : List Byte

/-- `is_namechar`. -/
def isNamechar (c : Byte) : Bool :=
  (0x61 ≤ c ∧ c ≤ 0x7a) ∨ (0x41 ≤ c ∧ c ≤ 0x5a) ∨ (0x30 ≤ c ∧ c ≤ 0x39) ∨ c = 0x5f ∨ c = 0x2d ∨
    c = 0x3a

/-- The characters between tags and between attributes. -/
def isSpace (c : Byte) : Bool := c = 0x20 ∨ c = 0x0a ∨ c = 0x0d ∨ c = 0x09

/-- `memchr`: what is in front of a character, and what is behind it. -/
def upTo (c : Byte) (l : List Byte) : Except Status (List Byte × List Byte) :=
  match l.dropWhile (· ≠ c) with
  | [] => .error .plist
  | _ :: rest => .ok (l.takeWhile (· ≠ c), rest)

theorem bind_eq_ok {ε α β : Type} {x : Except ε α} {f : α → Except ε β} {b : β} :
    x >>= f = .ok b ↔ ∃ a, x = .ok a ∧ f a = .ok b := by
  cases x with
  | error e => exact ⟨nofun, nofun⟩
  | ok a =>
    constructor
    · exact fun h => ⟨a, rfl, h⟩
    · rintro ⟨_, ⟨rfl⟩, h⟩
      exact h

theorem length_of_upTo {c : Byte} {l : List Byte} {r : List Byte × List Byte}
    (h : upTo c l = .ok r) : r.2.length < l.length := by
  have hle := (List.dropWhile_suffix (l := l) (· ≠ c)).length_le
  rw [upTo] at h
  split at h
  · cases h
  · rename_i heq
    cases h
    rw [heq, List.length_cons] at hle
    exact hle

/-- One attribute: its name and value, and what is behind it. -/
def readAttribute (s : List Byte) : Except Status (List Byte × List Byte × List Byte) :=
  match s.dropWhile isNamechar with
  | 0x3d :: 0x22 :: rest =>
    if s.takeWhile isNamechar = [] then .error .plist
    else do
      let (value, rest) ← upTo 0x22 rest
      .ok (s.takeWhile isNamechar, value, rest)
  | _ => .error .plist

theorem length_of_readAttribute {s : List Byte} {r : List Byte × List Byte × List Byte}
    (h : readAttribute s = .ok r) : r.2.2.length < s.length := by
  have hle := (List.dropWhile_suffix (l := s) isNamechar).length_le
  rw [readAttribute] at h
  split at h
  · rename_i heq
    split_ifs at h
    obtain ⟨⟨value, rest⟩, hup, h⟩ := bind_eq_ok.1 h
    cases h
    have hlt := length_of_upTo hup
    rw [heq, List.length_cons, List.length_cons] at hle
    dsimp only at hlt ⊢
    omega
  · cases h

/-- The loop of `read_tag` over the attributes: the values of `ID` and of `IDREF`. -/
def readAttributes (s : List Byte) (id idref : Option Nat) :
    Except Status (Option Nat × Option Nat) :=
  let s' := s.dropWhile isSpace
  if s' = [] ∨ s'.head? = some 0x2f then .ok (id, idref)
  else
    match h : readAttribute s' with
    | .error e => .error e
    | .ok (name, value, rest) =>
      have : rest.length < s.length := Nat.lt_of_lt_of_le (length_of_readAttribute h)
        (List.dropWhile_suffix _).length_le
      let numeric := value ≠ [] ∧ value.all (fun c => 0x30 ≤ c ∧ c ≤ 0x39)
      let n := valueOf 10 value % 2 ^ 32
      if name = octets "ID" then
        if numeric then readAttributes rest (some n) idref else .error .plist
      else if name = octets "IDREF" then
        if numeric then readAttributes rest id (some n) else .error .plist
      else readAttributes rest id idref
termination_by s.length

/-- Whether there is a slash in front, and what is behind it. -/
def closingOf : List Byte → Bool × List Byte
  | 0x2f :: s => (true, s)
  | s => (false, s)

/-- `read_tag`, at a `<`. -/
def readTag (p : List Byte) : Except Status Tag := do
  let (front, after) ← upTo 0x3e p
  let (closing, s) := closingOf (front.drop 1)
  if s.takeWhile isNamechar = [] then .error .plist
  else
    let (id, idref) ← readAttributes (s.dropWhile isNamechar) none none
    .ok ⟨s.takeWhile isNamechar, closing, front.getLast? = some 0x2f, id, idref, after⟩

theorem length_of_readTag {p : List Byte} {t : Tag} (h : readTag p = .ok t) :
    t.after.length < p.length := by
  obtain ⟨⟨front, after⟩, hup, h⟩ := bind_eq_ok.1 h
  dsimp only at h
  split_ifs at h
  obtain ⟨⟨id, idref⟩, -, h⟩ := bind_eq_ok.1 h
  cases h
  exact length_of_upTo hup

/-! ### The property list -/

/-- What is open: `<dict>`, `<array>` or `<plist>`. -/
inductive Container
  | dict | array | plist
  deriving DecidableEq

/-- The name of an element. -/
def Container.name : Container → String
  | .dict => "dict"
  | .array => "array"
  | .plist => "plist"

/-- The variables of `prelink_load`. -/
structure Context where
  stack : List Container := []
  rootSp : Option Nat := none
  cur : Kext := {}
  inKext : Bool := false
  gotExec : Bool := false
  gotSize : Bool := false
  pending : Option (List Byte) := none
  ids : List (Nat × List Byte) := []

/-- The variables and the table that is filled. -/
structure Scanner where
  context : Context := {}
  kext : List Kext := []
  nkextExec : Nat := 0

/-- `KSYMS_MAX_KEXTS`. -/
def maxKexts : Nat := 256

/-- `KSYMS_MAX_IDS`. -/
def maxIds : Nat := 1024

/-- `KSYMS_BUNDLE_MAX`. -/
def bundleMax : Nat := 96

/-- The end of the dictionary of an extension: it is checked and filed. -/
def fileKext (lo hi : Nat) (s : Scanner) : Except Status Scanner :=
  let c := s.context
  let cur : Kext := { c.cur with hasExec := c.gotExec && c.gotSize && c.cur.size != 0 }
  if cur.bundle = [] ∨ c.gotExec ≠ c.gotSize ∨
      cur.hasExec ∧ (cur.addr < lo ∨ hi < cur.addr + cur.size) then .error .plist
  else if maxKexts ≤ s.kext.length then .error .tooMany
  else .ok {
    context := { c with
      cur := {}
      gotExec := false
      gotSize := false
      inKext := false
      pending := none }
    kext := s.kext ++ [cur]
    nkextExec := s.nkextExec + cur.hasExec.toNat }

/-- A closing tag. -/
def closeTag (lo hi : Nat) (t : Tag) (s : Scanner) : Except Status Scanner :=
  match s.context.stack with
  | [] => .error .plist
  | want :: stack =>
    let s' := { s with context := { s.context with stack } }
    if t.name ≠ octets want.name then .error .plist
    else if s.context.inKext ∧ s.context.rootSp = some stack.length then fileKext lo hi s'
    else .ok s'

/-- A container is opened. -/
def openTag (kind : Container) (c : Context) : Except Status Context :=
  let sp := c.stack.length
  let c := if kind = .array ∧ c.rootSp = none then { c with rootSp := some (sp + 1) } else c
  let c := if kind = .dict ∧ c.rootSp = some sp then
    { c with inKext := true, gotExec := false, gotSize := false, cur := {} } else c
  if 64 ≤ sp then .error .plist
  else .ok { c with
    stack := kind :: c.stack
    pending := if kind = .plist then c.pending else none }

/-- `id_put`. -/
def idPut (id : Nat) (val : List Byte) (c : Context) : Except Status Context :=
  if maxIds ≤ c.ids.length then .error .tooMany else .ok { c with ids := c.ids ++ [(id, val)] }

/-- `id_get`. -/
def idGet (id : Nat) (c : Context) : Except Status (List Byte) :=
  match c.ids.find? fun x => x.1 = id with
  | some (_, val) => .ok val
  | none => .error .plist

/-- The loop of `parse_int`. -/
def parseDigits (base : Nat) : List Byte → Nat → Except Status Nat
  | [], v => .ok v
  | c :: rest, v =>
    let digit := if 0x41 ≤ c ∧ c ≤ 0x46 then digitValue (c + 0x20) else digitValue c
    match digit.filter (· < base) with
    | none => .error .plist
    | some d => if 0xffffffff < v * base + d then .error .plist else parseDigits base rest (v * base + d)

/-- `parse_int`. -/
def parseInt (val : List Byte) : Except Status Nat :=
  let hex := 2 < val.length ∧ val.head? = some 0x30 ∧
    (val[1]? = some 0x78 ∨ val[1]? = some 0x58)
  let digits := if hex then val.drop 2 else val
  if digits = [] then .error .plist else parseDigits (if hex then 16 else 10) digits 0

/-- A value for a key of an extension. -/
def setKey (key val : List Byte) (t : Tag) (c : Context) : Except Status Context :=
  if key = octets "CFBundleIdentifier" then
    if (t.name ≠ octets "string" ∧ t.idref = none) ∨ bundleMax ≤ val.length ∨
        val.any (fun b => !isNamechar b && b != 0x2e && b != 0x2b) then .error .plist
    else .ok { c with cur := { c.cur with bundle := val } }
  else if key = octets "_PrelinkExecutable" then
    (parseInt val).map fun addr => { c with cur := { c.cur with addr }, gotExec := true }
  else if key = octets "_PrelinkExecutableSize" then
    (parseInt val).map fun size => { c with cur := { c.cur with size }, gotSize := true }
  else if key = octets "_PrelinkKmodInfo" then
    (parseInt val).map fun kmodInfo => { c with cur := { c.cur with kmodInfo } }
  else if key = octets "_PrelinkExecutableLoadAddr" then .error .plist
  else .ok c

/-- A text up to the next tag, and that tag. -/
def readText (after : List Byte) : Except Status (List Byte × Tag) := do
  let (val, rest) ← upTo 0x3c after
  let c ← readTag (0x3c :: rest)
  .ok (val, c)

/-- `<key>`. -/
def keyTag (t : Tag) (c : Context) : Except Status (Context × List Byte) :=
  if t.selfclose then .error .plist
  else do
    let (key, closing) ← readText t.after
    let pending := if c.inKext ∧ c.rootSp.map (· + 1) = some c.stack.length ∧ key.length < 64 then
      some key else none
    if !closing.closing || closing.name ≠ octets "key" then .error .plist
    else .ok ({ c with pending }, closing.after)

/-- The names of the elements with a text. -/
def textual : List String := ["string", "integer", "data", "real", "date"]

/-- The text of an element with its end: the value, and what is behind it. -/
def leafText (t : Tag) : Except Status (List Byte × List Byte) :=
  if t.selfclose then .ok ([], t.after)
  else do
    let (val, closing) ← readText t.after
    if t.name ∉ textual.map octets then .ok ([], closing.after)
    else if !closing.closing || closing.name ≠ t.name then .error .plist
    else .ok (val, closing.after)

/-- The value of an element with an `ID` is kept. -/
def storeId (t : Tag) (val : List Byte) (c : Context) : Except Status Context :=
  match t.id with
  | some id => if t.name ∈ textual.map octets then idPut id val c else .ok c
  | none => .ok c

/-- An element that is no container. -/
def leafTag (t : Tag) (c : Context) : Except Status (Context × List Byte) :=
  if t.name ∉ ("true" :: "false" :: textual).map octets then .error .plist
  else do
    let (val, after) ← leafText t
    let c ← storeId t val c
    let val ← t.idref.elim (.ok val) fun id => idGet id c
    -- The key in front of the element gets its value.
    let c ← c.pending.elim (.ok c) fun key => setKey key val t { c with pending := none }
    .ok (c, after)

/-- A tag that closes nothing, and what is behind it. -/
def contextTag (t : Tag) (c : Context) : Except Status (Context × List Byte) :=
  if t.name = octets "key" then keyTag t c
  else if t.name = octets "plist" then
    if t.selfclose then .ok (c, t.after) else return (← openTag .plist c, t.after)
  else if t.name = octets "dict" ∨ t.name = octets "array" then
    if t.selfclose then .ok ({ c with pending := none }, t.after)
    else return (← openTag (if t.name = octets "dict" then .dict else .array) c, t.after)
  else leafTag t c

/-- A tag of `prelink_load`, and what is behind it. -/
def scanTag (lo hi : Nat) (t : Tag) (s : Scanner) : Except Status (Scanner × List Byte) :=
  if t.closing then return (← closeTag lo hi t s, t.after)
  else do
    let (context, after) ← contextTag t s.context
    return ({ s with context }, after)

/-- One turn of the loop of `prelink_load`, at a character that is no space. -/
def scanOne (lo hi : Nat) (p : List Byte) (s : Scanner) : Except Status (Scanner × List Byte) :=
  if p.head? ≠ some 0x3c then .error .plist
  else if p[1]? = some 0x3f ∨ p[1]? = some 0x21 then
    if 4 < p.length ∧ p.take 4 = octets "<!--" then .error .plist
    else return (s, (← upTo 0x3e p).2)
  else do scanTag lo hi (← readTag p) s

theorem length_of_readText {after val : List Byte} {c : Tag}
    (h : readText after = .ok (val, c)) : c.after.length < after.length := by
  obtain ⟨⟨val', rest⟩, hup, h⟩ := bind_eq_ok.1 h
  obtain ⟨c', hc, h⟩ := bind_eq_ok.1 h
  cases h
  have hlt := length_of_upTo hup
  have hc := length_of_readTag hc
  rw [List.length_cons] at hc
  dsimp only at hlt
  omega

theorem length_of_contextTag {t : Tag} {c c' : Context} {after : List Byte}
    (h : contextTag t c = .ok (c', after)) : after.length ≤ t.after.length := by
  rw [contextTag] at h
  split_ifs at h
  · rw [keyTag] at h
    split_ifs at h
    obtain ⟨⟨key, closing⟩, htext, h⟩ := bind_eq_ok.1 h
    dsimp only at h
    split at h
    · cases h
    · cases h
      exact Nat.le_of_lt (length_of_readText htext)
  · cases h
    exact Nat.le_refl _
  · obtain ⟨c₁, -, h⟩ := bind_eq_ok.1 h
    cases h
    exact Nat.le_refl _
  · cases h
    exact Nat.le_refl _
  · obtain ⟨c₁, -, h⟩ := bind_eq_ok.1 h
    cases h
    exact Nat.le_refl _
  · obtain ⟨c₁, -, h⟩ := bind_eq_ok.1 h
    cases h
    exact Nat.le_refl _
  · rw [leafTag] at h
    split_ifs at h
    obtain ⟨⟨val, after'⟩, htext, h⟩ := bind_eq_ok.1 h
    obtain ⟨c₁, -, h⟩ := bind_eq_ok.1 h
    obtain ⟨val', -, h⟩ := bind_eq_ok.1 h
    obtain ⟨c₂, -, h⟩ := bind_eq_ok.1 h
    cases h
    rw [leafText] at htext
    split_ifs at htext
    · cases htext
      exact Nat.le_refl _
    · obtain ⟨⟨val', closing⟩, hc, htext⟩ := bind_eq_ok.1 htext
      dsimp only at htext
      split at htext
      · cases htext
      · cases htext
        exact Nat.le_of_lt (length_of_readText hc)
    · obtain ⟨⟨val', closing⟩, hc, htext⟩ := bind_eq_ok.1 htext
      cases htext
      exact Nat.le_of_lt (length_of_readText hc)

theorem length_of_scanOne {lo hi : Nat} {p after : List Byte} {s s' : Scanner}
    (h : scanOne lo hi p s = .ok (s', after)) : after.length < p.length := by
  rw [scanOne] at h
  split_ifs at h
  · obtain ⟨r, hup, h⟩ := bind_eq_ok.1 h
    cases h
    exact length_of_upTo hup
  · obtain ⟨t, ht, h⟩ := bind_eq_ok.1 h
    refine Nat.lt_of_le_of_lt ?_ (length_of_readTag ht)
    rw [scanTag] at h
    split_ifs at h
    · obtain ⟨s₁, -, h⟩ := bind_eq_ok.1 h
      cases h
      exact Nat.le_refl _
    · obtain ⟨⟨c, after'⟩, hc, h⟩ := bind_eq_ok.1 h
      cases h
      exact length_of_contextTag hc

/-- The loop of `prelink_load`. -/
def scan (lo hi : Nat) (p : List Byte) (s : Scanner) : Except Status Scanner :=
  let p' := p.dropWhile isSpace
  if p' = [] then .ok s
  else
    match h : scanOne lo hi p' s with
    | .error e => .error e
    | .ok (s', after) =>
      have : after.length < p.length := Nat.lt_of_lt_of_le (length_of_scanOne h)
        (List.dropWhile_suffix _).length_le
      scan lo hi after s'
termination_by p.length

/-- `0x%08x`. -/
def address (n : Nat) : String := "0x" ++ shown (padded 8 16 n)

/-- The warning about the first extension that reaches into the next one. -/
def overlapWarning : List Kext → String
  | a :: b :: rest =>
    if b.addr < a.addr + a.size then
      "WARNING: " ++ shown (a.bundle.take 63) ++ "@" ++ address a.addr ++ "+0x" ++
        shown (printed 16 a.size) ++ " overlaps " ++ shown (b.bundle.take 63) ++ "@" ++
        address b.addr ++ "; addresses in the overlap are attributed to the first"
    else overlapWarning (b :: rest)
  | _ => ""

/-- What `prelink_load` leaves in the table. -/
structure Prelink where
  kext : List Kext
  nkextExec : Nat
  lo : Nat
  hi : Nat
  detail : String

/-- `prelink_load`. -/
def prelinkLoad (qsort : Qsort) (img : List Byte) (m : Macho) : Except Status Prelink :=
  match (machoSegment m "__PRELINK_INFO").filter (·.filesize ≠ 0),
    (machoSegment m "__PRELINK_TEXT").filter (·.vmsize ≠ 0) with
  | none, _ => .error .noPrelink
  | some _, none => .error .plist
  | some info, some seg => do
    let lo := seg.vmaddr
    let hi := seg.vmaddr + seg.vmsize
    let s ← scan lo hi (text ((img.drop info.fileoff).take info.filesize)) {}
    if s.context.stack ≠ [] ∨ s.context.rootSp = none ∨ s.nkextExec = 0 then .error .plist
    else
      let kext := qsort Kext kextCmp s.kext
      .ok ⟨kext, s.nkextExec, lo, hi, overlapWarning (kext.take s.nkextExec)⟩

/-- `ksyms_load`: the tables of an image for which it returns `KSYMS_OK`. -/
def ksymsLoad (qsort : Qsort) (memory : Bool) (img : List Byte) : Except Status Ksyms :=
  match machoParse img with
  | none => .error .macho
  | some m =>
    match symtabLoad qsort memory img m, prelinkLoad qsort img m with
    | .ok sym, .ok t => .ok ⟨sym, t.kext, t.nkextExec, t.lo, t.hi, t.detail⟩
    | .error e, .error _ => .error e
    | .ok _, .error e => .error e
    | .error e, .ok _ => .error e

/-! ### Lookups -/

/-- An address without its Thumb bit. -/
def untagged (addr : Word) : Nat := (addr &&& ~~~1).toNat

/-- `ksyms_kext_at`. -/
def ksymsKextAt (ks : Ksyms) (addr : Word) : Option Kext :=
  let a := untagged addr
  match search (fun i => (ks.kext.getD i {}).addr ≤ a) 0 ks.nkextExec with
  | 0 => none
  | i + 1 =>
    let k := ks.kext.getD i {}
    if a < k.addr + k.size then some k else none

/-- `KSYMS_MAX_SYM_SPAN`. -/
def maxSymSpan : Nat := 0x8000

/-- `"%s+0x%x"`. -/
def plus (name : List Byte) (n : Nat) : List Byte := name ++ octets "+0x" ++ printed 16 n

/-- `snprintf` into a buffer of `bufsz` octets: the string that it holds then. A buffer of no octets
is left alone. -/
def snprintf (bufsz : Nat) (text : List Byte) : Option (List Byte) :=
  if bufsz = 0 then none else some (text.take (bufsz - 1))

/-- `ksyms_resolve`: what it prints into the buffer of the caller. -/
def ksymsResolve (ks : Ksyms) (addr : Word) (bufsz : Nat) : Option (List Byte) :=
  let a := untagged addr
  match ksymsKextAt ks addr with
  | some k => snprintf bufsz (plus k.bundle (a - k.addr))
  | none =>
    if ks.prelinkHi ≠ 0 ∧ ks.prelinkLo ≤ a ∧ a < ks.prelinkHi then
      snprintf bufsz (plus (octets "__PRELINK_TEXT") (a - ks.prelinkLo))
    else
      match search (fun i => (ks.sym.getD i ⟨0, []⟩).value ≤ a) 0 ks.sym.length with
      | 0 => snprintf bufsz (octets "?")
      | i + 1 =>
        let s := ks.sym.getD i ⟨0, []⟩
        if maxSymSpan < a - s.value then snprintf bufsz (octets "?")
        else if a - s.value ≠ 0 then snprintf bufsz (plus s.name (a - s.value))
        else snprintf bufsz s.name

end S5LBox.Firmware.Symbols
