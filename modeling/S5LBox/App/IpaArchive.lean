import S5LBox.Firmware.Zip
import S5LBox.Lib.Chains

/-!
# The inspection of an application archive

`VMIPAArchive.c` walks a ZIP archive, keeps the entries of its one application, and resolves the
symbolic links among them. Extraction is a parameter: what it gives for an entry, or the text of its
failure.

## Main definitions

* `vmIpaSafePath`: the names that are accepted.
* `visit`: what is done with an entry.
* `validateLinks`: the checks over all entries, and the resolution of links.
* `vmIpaArchiveOpen`: the inspection.
-/

namespace S5LBox.App.Ipa

open Reading Firmware Chains

/-! ### Names -/

/-- The octets of a text. -/
def ascii (text : String) : List Byte := text.toList.map fun c => BitVec.ofNat 8 c.toNat

/-- A part of a path that is empty, or one or two dots. -/
def badPart (part : List Byte) : Bool := part = [] ∨ part = [0x2e] ∨ part = [0x2e, 0x2e]

/-- A character that is refused. -/
def badChar (c : Byte) : Bool := c.toNat < 32 ∨ c.toNat > 126 ∨ c = 0x5c ∨ c = 0x3a

/-- The loop of `vm_ipa_safe_path`, with the part that it is in. -/
def safeFrom : List Byte → List Byte → Bool
  | [], part => !badPart part
  | c :: p, part =>
    if badChar c then false
    else if c = 0x2f then !badPart part && (p = [] || safeFrom p [])
    else safeFrom p (part ++ [c])

/-- `vm_ipa_safe_path`. -/
def vmIpaSafePath (path : List Byte) : Bool :=
  path ≠ [] && path.head? ≠ some 0x2f && safeFrom path []

/-- `vm_ipa_entry_is_symlink`. -/
def vmIpaEntryIsSymlink (e : Entry) : Bool := e.unixMode &&& 0o170000 = 0o120000

/-- `path_lower`. -/
def pathLower (c : Byte) : Byte := if 0x41 ≤ c.toNat ∧ c.toNat ≤ 0x5a then c + 0x20 else c

/-- `path_prefix`, over the whole of the first name. -/
def pathPrefix : List Byte → List Byte → Bool
  | [], _ => true
  | _ :: _, [] => false
  | x :: a, y :: b => pathLower x = pathLower y && pathPrefix a b

/-- A slash at the end does not count. -/
def trimSlash (name : List Byte) : List Byte :=
  if name.getLast? = some 0x2f then name.dropLast else name

/-- Two names that are the same but for the case of letters. -/
def sameName (a b : List Byte) : Bool :=
  (trimSlash a).map pathLower = (trimSlash b).map pathLower

/-! ### The walk -/

/-- `VM_IPA_MAX_FILES`. -/
def maxFiles : Nat := 4096

/-- `VM_IPA_MAX_BYTES`. -/
def maxBytes : Nat := 256 * 1024 * 1024

/-- `VM_IPA_MAX_FILE_BYTES`. -/
def maxFileBytes : Nat := 128 * 1024 * 1024

/-- `vm_ipa_archive_t`. -/
structure Plan where
  files : List Entry
  contentIndices : List Nat
  infoIndex : Option Nat
  unpackedBytes : Nat
  appRoot : List Byte
  deriving DecidableEq

/-- `walk_t`. -/
structure Walk where
  plan : Plan
  error : Option String

/-- The name up to the slash after that of the application. -/
def rootOf (name : List Byte) : List Byte := name.take 8 ++ (name.drop 8).takeWhile (· ≠ 0x2f)

/-- The checks of `visit` on an entry of the application, with the rest of its name from the slash
on. -/
def refusal (plan : Plan) (e : Entry) (rest : List Byte) : Option String :=
  let type := e.unixMode &&& 0o170000
  if type ≠ 0 ∧ type ≠ 0o100000 ∧ type ≠ 0o040000 ∧ type ≠ 0o120000 ∨
      type = 0o040000 ∧ e.isDirectory = false ∨
      (type = 0o100000 ∨ type = 0o120000) ∧ e.isDirectory = true then
    some "The IPA contains a special file or inconsistent file type."
  else if rest.length ≤ 1 ∧ e.isDirectory = false then some "The app bundle is not a directory."
  else if plan.files.length = maxFiles ∨ e.uncompressedSize > maxFileBytes ∨
      e.uncompressedSize > maxBytes - plan.unpackedBytes ∨
      e.isDirectory = true ∧ e.uncompressedSize ≠ 0 then
    some "The IPA exceeds the supported size or file-count limit."
  else if plan.files.any fun f => sameName f.name e.name then
    some "The IPA contains conflicting or duplicate paths."
  else none

/-- An entry is kept. -/
def Plan.push (plan : Plan) (e : Entry) (rest : List Byte) : Plan :=
  { plan with
    files := plan.files ++ [e]
    infoIndex := if rest = ascii "/Info.plist" ∧ e.isDirectory = false then some plan.files.length
      else plan.infoIndex
    unpackedBytes := plan.unpackedBytes + e.uncompressedSize }

/-- `visit`. -/
def visit (s : Walk) (e : Entry) (_index : Nat) : Walk × Bool :=
  if vmIpaSafePath e.name = false then
    (⟨s.plan, some "The IPA contains an unsafe or unsupported filename."⟩, false)
  else if e.name.take 8 ≠ ascii "Payload/" ∨ e.name.length = 8 then (s, true)
  else
    let root := rootOf e.name
    let rest := e.name.drop root.length
    if root.length < 13 ∨ root.drop (root.length - 4) ≠ ascii ".app" then
      (⟨s.plan, some "Payload must contain exactly one .app bundle."⟩, false)
    else if s.plan.appRoot ≠ [] ∧ s.plan.appRoot ≠ root then
      (⟨s.plan, some "An IPA containing multiple apps is not supported."⟩, false)
    else
      let plan := { s.plan with appRoot := root }
      match refusal plan e rest with
      | some text => (⟨plan, some text⟩, false)
      | none => (⟨plan.push e rest, s.error⟩, true)

/-! ### Links -/

/-- What the inspection calls for: memory, and the extraction of an entry into a buffer of
`VMFW_ZIP_MAX_NAME` octets but one. -/
structure Host where
  filesMemory : Bool
  indicesMemory : Bool
  extract : Entry → Except String (List Byte)

/-- One of the entries that is not a directory is used as one. -/
def usedAsParent (files : List Entry) : Bool :=
  files.zipIdx.any fun (a, i) => !a.isDirectory && files.zipIdx.any fun (b, j) =>
    i ≠ j && pathPrefix a.name b.name && b.name[a.name.length]? = some 0x2f

/-- The name up to the last slash. -/
def parentOf (name : List Byte) : List Byte := (name.reverse.dropWhile (· ≠ 0x2f)).reverse

/-- The entry that a link leads to. -/
def resolve (extract : Entry → Except String (List Byte)) (files : List Entry)
    (appRoot : List Byte) (e : Entry) : Except String Nat :=
  if e.uncompressedSize = 0 ∨ e.uncompressedSize ≥ vmfwZipMaxName then
    .error "The IPA contains an empty or oversized symbolic link."
  else
    match extract e with
    | .error text => .error text
    | .ok target =>
      if target.length ≠ e.uncompressedSize ∨ (0 : Byte) ∈ target ∨ vmIpaSafePath target = false ∨
          target.getLast? = some 0x2f then
        .error "IPA links must use relative file paths inside the app, without dot components."
      else if (parentOf e.name).length ≤ appRoot.length ∨
          (parentOf e.name).length + target.length ≥ vmfwZipMaxName then
        .error "The IPA contains an invalid symbolic link path."
      else
        match files.findIdx? fun f => parentOf e.name ++ target = f.name with
        | none => .error "The IPA contains a missing target or unsupported directory link."
        | some destination =>
          if (files[destination]?).any Entry.isDirectory then
            .error "The IPA contains a missing target or unsupported directory link."
          else .ok destination

/-- The entry after a link, by the map of the moment. -/
def nextLink (files : List Entry) (content : List Nat) (i : Nat) : Option Nat :=
  if (files[i]?).any vmIpaEntryIsSymlink then some (content.getD i 0) else none

/-- The last loop of `validate_links`, whose inner loop is let go round `fuel` times at most. -/
def collapse (files : List Entry) (fuel : Nat) : List Nat → List Nat → Option (List Nat)
  | [], content => some content
  | i :: is, content =>
    match chase (nextLink files content) fuel i with
    | none => none
    | some current => collapse files fuel is (content.set i current)

/-- `validate_links`, which gives the map. It is `none` where the last loop has not come to its
end. -/
def validateLinks (host : Host) (fuel : Nat) (plan : Plan) : Option (Except String Plan) :=
  if usedAsParent plan.files then
    some (.error "The IPA uses a file or symbolic link as a parent directory.")
  else if host.indicesMemory = false then some (.error "Not enough memory to inspect IPA links.")
  else
    match plan.files.zipIdx.mapM fun (e, i) =>
      if vmIpaEntryIsSymlink e then resolve host.extract plan.files plan.appRoot e
      else .ok i with
    | .error text => some (.error text)
    | .ok content =>
      -- The loop that gives up past 16 hops.
      if (List.range plan.files.length).any fun i =>
          (chase (nextLink plan.files content) 16 i).isNone then
        some (.error "The IPA contains a symbolic link cycle or a chain longer than 16 links.")
      else
        (collapse plan.files fuel (List.range plan.files.length) content).map fun content =>
          .ok { plan with contentIndices := content }

/-- `vm_ipa_archive_open`. -/
def vmIpaArchiveOpen (host : Host) (z : Zip) (fuel : Nat) :
    Reader Empty Byte (Option (Except String Plan)) :=
  if host.filesMemory = false then pure (some (.error "Not enough memory to inspect this IPA."))
  else do
    let (s, status) ← vmfwZipIterate z visit ⟨⟨[], [], none, 0, []⟩, none⟩
    match s.error, status, s.plan.infoIndex with
    | some text, _, _ => pure (some (.error text))
    | none, .error st, _ => pure (some (.error st.strerror))
    | none, .ok (), none => pure (some (.error "No Payload/*.app/Info.plist was found."))
    | none, .ok (), some _ => pure (validateLinks host fuel s.plan)

end S5LBox.App.Ipa
