import S5LBox.Arm.Cpu
import S5LBox.Lib.ShellWords

/-!
# Package records and the install script

`VMGuestPackageManifest.c` validates the records of packages that the guest is to install, and
`VMGuestRootfsPlan.c` writes their file names into the script that installs them.

## Main definitions

* `packageToken`: the check on a name or a version.
* `validateEntry`: the checks on a record.
* `planInstallLines`: the part of `plan_build_script` that writes the install lines.
-/

namespace S5LBox.App.Packages

/-! ### Records -/

/-- A text of C, which ends before its first zero. -/
structure CString where
  chars : List Byte
  noNul : 0 ∉ chars
  deriving DecidableEq

/-- The octets of a text. -/
def octets (text : String) : List Byte := text.toList.map fun c => BitVec.ofNat 8 c.toNat

/-- `VM_GUEST_PACKAGE_INSTALL`. -/
def roleInstall : BitVec 32 := 1

/-- `VM_GUEST_PACKAGE_FOUNDATION`. -/
def roleFoundation : BitVec 32 := 2

/-- `VM_GUEST_PACKAGE_APT_CACHE_TOOL`. -/
def roleAptCacheTool : BitVec 32 := 4

/-- `VM_GUEST_PACKAGE_APPSYNC`. -/
def roleAppsync : BitVec 32 := 8

/-- `vm_guest_package_t`. A pointer may be null. -/
structure Package where
  package : Option CString
  version : Option CString
  filename : Option CString
  sourceUrl : Option CString
  size : BitVec 64
  sha256Hex : Option CString
  roles : BitVec 32

/-- The characters behind a pointer. -/
def text : Option CString → List Byte
  | none => []
  | some s => s.chars

/-- The record has one of the roles. -/
def Package.has (p : Package) (role : BitVec 32) : Bool := p.roles &&& role ≠ 0

/-- `PACKAGE_ARCHIVE_BASE`. -/
def packageArchiveBase : List Byte := octets "https://apt.saurik.com/cydia-3.7/debs/"

/-- The fields of `APPSYNC` that records are compared with. -/
structure Appsync where
  package : List Byte := octets "us.hackulo.appsync31"
  version : List Byte := octets "1.0.2"
  filename : List Byte := octets "us.hackulo.appsync31_1.0.2_iphoneos-arm.deb"
  sourceUrl : List Byte := octets "https://ios3.party/debs/appsync31-1.0.2.deb"

/-- `APPSYNC`. -/
def appsync : Appsync := {}

/-! ### Validation -/

/-- One round of the loop of `package_token`: the character is accepted. -/
def tokenChar (packageName : Bool) (c : Byte) : Bool :=
  let lower := 0x61 ≤ c.toNat ∧ c.toNat ≤ 0x7a
  let upper := 0x41 ≤ c.toNat ∧ c.toNat ≤ 0x5a
  let alpha : Bool := if packageName then lower else upper ∨ lower
  let digit : Bool := 0x30 ≤ c.toNat ∧ c.toNat ≤ 0x39
  !(!alpha && !digit && c ≠ 0x2e && c ≠ 0x2b && c ≠ 0x2d &&
    (!packageName && c ≠ 0x3a && c ≠ 0x7e))

/-- `package_token`. -/
def packageToken (s : Option CString) (packageName : Bool) : Bool :=
  match s with
  | none => false
  | some s => s.chars ≠ [] && s.chars.length ≤ 63 && s.chars.all (tokenChar packageName)

/-- `package_hex_value(c) >= 0`. -/
def hexDigit (c : Byte) : Bool :=
  (0x30 ≤ c.toNat ∧ c.toNat ≤ 0x39) ∨ (0x61 ≤ c.toNat ∧ c.toNat ≤ 0x66)

/-- The file name that a record must have. -/
def expectedFilename (p : Package) : List Byte :=
  text p.package ++ octets "_" ++ text p.version ++ octets "_iphoneos-arm.deb"

/-- A refusal: the message, and the package it is about. -/
structure Reason where
  package : Option (List Byte) := none
  message : String

/-- The roles of a record contradict each other. -/
def badRoles (p : Package) : Bool :=
  let installed := p.has roleInstall
  let cacheTool := p.has roleAptCacheTool
  p.roles &&& ~~~(roleInstall ||| roleFoundation ||| roleAptCacheTool ||| roleAppsync) ≠ 0 ||
    installed = cacheTool || (p.has roleFoundation && !installed) ||
    (p.has roleAppsync && (!installed || p.has roleFoundation ||
      text p.package ≠ appsync.package || text p.version ≠ appsync.version))

/-- `vm_guest_package_validate_entry`. -/
def validateEntry (package : Option Package) : Except Reason Unit :=
  match package with
  | none => .error { message := "package record is missing" }
  | some p =>
    let name := some (text p.package)
    if !packageToken p.package true || !packageToken p.version false then
      .error { message := "invalid package/version token" }
    else if p.filename = none ∨ p.sourceUrl = none ∨ p.sha256Hex = none ∨ p.size = 0 then
      .error { package := name, message := "has incomplete metadata" }
    else if (expectedFilename p).length = 0 ∨ 192 ≤ (expectedFilename p).length ∨
        text p.filename ≠ expectedFilename p then
      .error { package := name, message := "has a mismatched filename" }
    else
      let url := text p.sourceUrl
      let saurikSource := url.take packageArchiveBase.length = packageArchiveBase ∧
        url.drop packageArchiveBase.length = text p.filename
      let appsyncSource := url = appsync.sourceUrl ∧ text p.package = appsync.package ∧
        text p.version = appsync.version ∧ text p.filename = appsync.filename
      if ¬saurikSource ∧ ¬appsyncSource then
        .error { package := name, message := "is not on the pinned HTTPS archive" }
      else if (text p.sha256Hex).length ≠ 64 then
        .error { package := name, message := "has a non-64-byte digest" }
      else if (text p.sha256Hex).all hexDigit = false then
        .error { package := name, message := "has a non-lowercase digest" }
      else if badRoles p then .error { package := name, message := "has invalid install roles" }
      else .ok ()

/-- The record is accepted. -/
def Accepted (p : Package) : Prop := validateEntry (some p) = .ok ()

/-! ### The script -/

/-- `PLAN_SCRIPT_CAPACITY`. -/
abbrev planScriptCapacity : Nat := 24576

/-- `plan_script_append`. -/
def planScriptAppend (script : List Byte) (s : List Byte) : Option (List Byte) :=
  if planScriptCapacity - script.length < s.length + 1 then none else some (script ++ s)

/-- `plan_script_package`. -/
def planScriptPackage (script : List Byte) (p : Package) : Option (List Byte) := do
  let script ← planScriptAppend script (octets "install_one \"$packages/")
  let script ← planScriptAppend script (text p.filename)
  planScriptAppend script (octets "\" || exit 1\n")

/-- The records of a pass: the foundation in the first, the others in the second. -/
def ofPass (pass : Nat) (p : Package) : Bool :=
  p.has roleInstall && !p.has roleAppsync && (p.has roleFoundation == (pass == 0))

/-- One pass of `plan_build_script` over the records. -/
def planPass (pass : Nat) (script : List Byte) : List Package → Option (List Byte)
  | [] => some script
  | p :: ps =>
    if ofPass pass p then (planScriptPackage script p).bind fun script => planPass pass script ps
    else planPass pass script ps

/-- The two passes of `plan_build_script` that write the install lines behind its header. -/
def planInstallLines (script : List Byte) (inputs : List Package) : Option (List Byte) :=
  (planPass 0 script inputs).bind fun script => planPass 1 script inputs

end S5LBox.App.Packages
