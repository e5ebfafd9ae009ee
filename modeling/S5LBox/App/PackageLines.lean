import S5LBox.App.GuestPackages

/-!
# The install lines of accepted records

The check on a version lets through the characters that it is meant to; the check on a name, whose
last condition cannot hold for a name, lets through every character. Where the names have only the
characters of package names, each install line is read by a shell as the fixed commands with one
literal word, which names a file in the directory of packages.

## Main results

* `accepted_version`, `accepted_filename`: what is known of an accepted record.
* `parse_installLines`: how a shell reads the lines.
* `entries_harmless_iff`: when accepted records do no harm.
-/

namespace S5LBox.App.Packages

open ShellWords

/-! ### Characters -/

/-- `[a-z0-9.+-]`. -/
def isPackageChar (c : Byte) : Bool :=
  (0x61 ≤ c.toNat ∧ c.toNat ≤ 0x7a) ∨ (0x30 ≤ c.toNat ∧ c.toNat ≤ 0x39) ∨
    c = 0x2e ∨ c = 0x2b ∨ c = 0x2d

/-- `[A-Za-z0-9.+:~-]`. -/
def isVersionChar (c : Byte) : Bool :=
  isPackageChar c ∨ (0x41 ≤ c.toNat ∧ c.toNat ≤ 0x5a) ∨ c = 0x3a ∨ c = 0x7e

/-- A slash, a quote, whitespace, or a character with a meaning for a shell: one of
`|&;<>()$*?[` and the backquote and the backslash. -/
def isMeta (c : Byte) : Bool :=
  c ∈ octets "/\"' \t\n\r|&;<>()$*?[`\\" ∨ c = 0x0b ∨ c = 0x0c

theorem tokenChar_version : ∀ c : Byte, tokenChar false c = isVersionChar c := by decide

theorem isMeta_of_isVersionChar : ∀ c : Byte, isVersionChar c = true → isMeta c = false := by
  decide

theorem isVersionChar_of_isPackageChar {c : Byte} (h : isPackageChar c = true) :
    isVersionChar c = true := decide_eq_true (.inl h)

theorem isSpecial_of_isMeta : ∀ c : Byte, isMeta c = false → isSpecial c = false := by decide

/-! ### Accepted records -/

/-- A text of the length of a token. -/
structure TokenLength (s : List Byte) : Prop where
  ne_nil : s ≠ []
  le : s.length ≤ 63

/-- What a validated record is to be. -/
structure Clean (p : Package) : Prop where
  package : ∀ c ∈ text p.package, isPackageChar c = true
  package_length : TokenLength (text p.package)
  version : ∀ c ∈ text p.version, isVersionChar c = true
  version_length : TokenLength (text p.version)
  filename : ∀ c ∈ text p.filename, isMeta c = false

theorem of_packageToken {s : Option CString} {name : Bool} (h : packageToken s name = true) :
    TokenLength (text s) ∧ ∀ c ∈ text s, tokenChar name c = true := by
  cases s with
  | none => exact absurd h nofun
  | some s =>
    simp only [packageToken, Bool.and_eq_true, decide_eq_true_eq, List.all_eq_true] at h
    exact ⟨⟨h.1.1, h.1.2⟩, h.2⟩

variable {p : Package}

theorem Accepted.tokens (h : Accepted p) :
    packageToken p.package true = true ∧ packageToken p.version false = true := by
  rw [Accepted, validateEntry] at h
  by_cases htokens : (!packageToken p.package true || !packageToken p.version false) = true
  · rw [if_pos htokens] at h
    exact absurd h nofun
  · simpa using htokens

theorem Accepted.filename (h : Accepted p) :
    text p.filename = expectedFilename p := by
  by_contra hne
  rw [Accepted, validateEntry] at h
  dsimp only at h
  split_ifs at h with h₁ h₂ h₃ h₄ h₅ h₆ h₇
  exact h₃ (.inr (.inr hne))

/-- The version of an accepted record, and the lengths of its tokens. -/
theorem accepted_version (h : Accepted p) : TokenLength (text p.package) ∧
    TokenLength (text p.version) ∧ ∀ c ∈ text p.version, isVersionChar c = true := by
  obtain ⟨hpackage, hversion⟩ := h.tokens
  obtain ⟨hlength, hchars⟩ := of_packageToken hversion
  exact ⟨(of_packageToken hpackage).1, hlength, fun c hc => tokenChar_version c ▸ hchars c hc⟩

/-- The file name of an accepted record whose name is one. -/
theorem accepted_filename (h : Accepted p) (hname : ∀ c ∈ text p.package, isPackageChar c = true) :
    ∀ c ∈ text p.filename, isMeta c = false := by
  have hfixed : (∀ c ∈ octets "_", isMeta c = false) ∧
      ∀ c ∈ octets "_iphoneos-arm.deb", isMeta c = false := by decide
  intro c hc
  rw [h.filename, expectedFilename] at hc
  rcases List.mem_append.1 hc with hc | hc
  · rcases List.mem_append.1 hc with hc | hc
    · rcases List.mem_append.1 hc with hc | hc
      · exact isMeta_of_isVersionChar c (isVersionChar_of_isPackageChar (hname c hc))
      · exact hfixed.1 c hc
    · exact isMeta_of_isVersionChar c ((accepted_version h).2.2 c hc)
  · exact hfixed.2 c hc

/-! ### Install lines -/

/-- The install line of a record. -/
def installLine (p : Package) : List Byte :=
  octets "install_one \"$packages/" ++ text p.filename ++ octets "\" || exit 1\n"

/-- The records in the order of their lines. -/
def installed (inputs : List Package) : List Package :=
  inputs.filter (ofPass 0) ++ inputs.filter (ofPass 1)

theorem planScriptAppend_eq {script s script' : List Byte}
    (h : planScriptAppend script s = some script') : script' = script ++ s := by
  rw [planScriptAppend] at h
  split_ifs at h
  exact (Option.some.inj h).symm

variable {script script' : List Byte}

theorem planScriptPackage_eq (h : planScriptPackage script p = some script') :
    script' = script ++ installLine p := by
  obtain ⟨s₁, h₁, h⟩ := Option.bind_eq_some_iff.1 h
  obtain ⟨s₂, h₂, h₃⟩ := Option.bind_eq_some_iff.1 h
  rw [planScriptAppend_eq h₃, planScriptAppend_eq h₂, planScriptAppend_eq h₁, installLine,
    List.append_assoc, List.append_assoc, List.append_assoc]

theorem planPass_eq {pass : Nat} {inputs : List Package}
    (h : planPass pass script inputs = some script') :
    script' = script ++ ((inputs.filter (ofPass pass)).map installLine).flatten := by
  induction inputs generalizing script with
  | nil => rw [← Option.some.inj h]; exact (List.append_nil _).symm
  | cons p ps ih =>
    rw [planPass] at h
    by_cases hp : ofPass pass p = true
    · rw [if_pos hp] at h
      obtain ⟨s, hs, h⟩ := Option.bind_eq_some_iff.1 h
      rw [ih h, planScriptPackage_eq hs, List.filter_cons_of_pos hp, List.map_cons,
        List.flatten_cons, List.append_assoc]
    · rw [if_neg hp] at h
      rw [ih h, List.filter_cons_of_neg hp]

/-- What the passes write: the lines of the installed records. -/
theorem planInstallLines_eq {inputs : List Package}
    (h : planInstallLines script inputs = some script') :
    script' = script ++ ((installed inputs).map installLine).flatten := by
  obtain ⟨s, h₀, h₁⟩ := Option.bind_eq_some_iff.1 h
  rw [planPass_eq h₁, planPass_eq h₀, installed, List.map_append, List.flatten_append,
    List.append_assoc]

/-! ### How a shell reads them -/

/-- The word of a file in the directory of packages. -/
def fileWord (file : List Byte) : ShellWords.Word :=
  .parameter (octets "packages") :: (octets "/" ++ file).map .literal

/-- `install_one` of a file, or the end of the script. -/
def installCommand (file : List Byte) : AndOr :=
  [(.first, [bare (octets "install_one"), fileWord file]),
    (.or, [bare (octets "exit"), bare (octets "1")])]

/-- The tokens of an install line. -/
def installTokens (file : List Byte) : List Token :=
  [.word (bare (octets "install_one")), .word (fileWord file), .operator (octets "||"),
    .word (bare (octets "exit")), .word (bare (octets "1")), .operator (octets "\n")]

theorem run_opening (toks : List Token) :
    run ⟨.plain, none, toks⟩ (octets "install_one \"$packages/") =
      some ⟨.double, some (fileWord []), toks ++ [.word (bare (octets "install_one"))]⟩ := rfl

theorem run_closing (toks : List Token) (w : ShellWords.Word) :
    run ⟨.double, some w, toks⟩ (octets "\" || exit 1\n") =
      some ⟨.plain, none, toks ++ [.word w] ++ [.operator (octets "||")] ++
        [.word (bare (octets "exit"))] ++ [.word (bare (octets "1"))] ++
        [.operator (octets "\n")]⟩ := rfl

theorem run_installLine (toks : List Token) (hp : ∀ c ∈ text p.filename, isMeta c = false) :
    run ⟨.plain, none, toks⟩ (installLine p) =
      some ⟨.plain, none, toks ++ installTokens (text p.filename)⟩ := by
  have hspecial : ∀ c ∈ text p.filename, isSpecial c = false :=
    fun c hc => isSpecial_of_isMeta c (hp c hc)
  have hword : fileWord [] ++ (text p.filename).map .literal = fileWord (text p.filename) := by
    rw [fileWord, fileWord, List.append_nil, List.map_append, List.cons_append]
  rw [installLine, run_append, run_append, run_opening, Option.bind_some, run_literals hspecial,
    Option.bind_some, hword, run_closing, installTokens]
  simp only [List.append_assoc, List.cons_append, List.nil_append]

theorem run_installLines (toks : List Token) {ps : List Package}
    (hps : ∀ p ∈ ps, ∀ c ∈ text p.filename, isMeta c = false) :
    run ⟨.plain, none, toks⟩ (ps.map installLine).flatten =
      some ⟨.plain, none, toks ++ (ps.map fun p => installTokens (text p.filename)).flatten⟩ := by
  induction ps generalizing toks with
  | nil => rw [List.map_nil, List.flatten_nil, List.map_nil, List.flatten_nil, List.append_nil]; rfl
  | cons p ps ih =>
    obtain ⟨hp, hps⟩ := List.forall_mem_cons.1 hps
    rw [List.map_cons, List.flatten_cons, run_append, run_installLine toks hp, Option.bind_some,
      ih _ hps, List.map_cons, List.flatten_cons, List.append_assoc]

theorem andOrs_installTokens (file : List Byte) (ts : List Token) :
    andOrs (installTokens file ++ ts) [] .first [] =
      (andOrs ts [] .first []).map (List.cons (installCommand file)) := rfl

/-- How a shell reads install lines. -/
theorem parse_installLines {ps : List Package}
    (hps : ∀ p ∈ ps, ∀ c ∈ text p.filename, isMeta c = false) :
    parse (ps.map installLine).flatten =
      some (ps.map fun p => installCommand (text p.filename)) := by
  have hlists : andOrs (ps.map fun p => installTokens (text p.filename)).flatten [] .first [] =
      some (ps.map fun p => installCommand (text p.filename)) := by
    clear hps
    induction ps with
    | nil => rfl
    | cons p ps ih =>
      rw [List.map_cons, List.flatten_cons, andOrs_installTokens, ih, Option.map_some,
        List.map_cons]
  rw [parse, tokens, run_installLines [] hps]
  exact hlists

/-! ### What accepted records do -/

/-- The word of the command is literal but for the directory, and names a file directly in it. -/
structure Inside (file : List Byte) : Prop where
  expansion : ∀ env, expansion env (fileWord file) = env (octets "packages") ++ octets "/" ++ file
  quoted : ∀ piece ∈ fileWord file, ∀ c, piece ≠ .plain c
  slash : ∀ c ∈ file, c ≠ 0x2f
  ne_dots : file ≠ [] ∧ file ≠ octets "." ∧ file ≠ octets ".."

/-- The records do no harm: each is clean, and the lines that are written for them, whatever
precedes them, are read by a shell as one command each, with a file of the directory of packages
as its only argument. -/
structure Harmless (inputs : List Package) : Prop where
  clean : ∀ p ∈ inputs, Clean p
  lines : ∀ script script', planInstallLines script inputs = some script' →
    ∃ lines, script' = script ++ lines ∧
      parse lines = some ((installed inputs).map fun p => installCommand (text p.filename))
  inside : ∀ p ∈ inputs, Inside (text p.filename)

theorem expansion_literals (env : List Byte → List Byte) (s : List Byte) :
    expansion env (s.map .literal) = s := by
  rw [expansion, List.flatMap_map]
  exact List.flatMap_singleton' s

theorem inside_of_accepted (h : Accepted p) (hfile : ∀ c ∈ text p.filename, isMeta c = false) :
    Inside (text p.filename) where
  expansion env := by
    have hsplit : expansion env (fileWord (text p.filename)) =
        env (octets "packages") ++ expansion env ((octets "/" ++ text p.filename).map .literal) :=
      rfl
    rw [hsplit, expansion_literals, List.append_assoc]
  quoted piece hpiece c hc := by
    rcases List.mem_cons.1 hpiece with rfl | hpiece
    · exact absurd hc nofun
    · obtain ⟨_, _, rfl⟩ := List.mem_map.1 hpiece
      exact absurd hc nofun
  slash c hc heq := by
    have hmeta := hfile c hc
    rw [heq] at hmeta
    exact absurd hmeta (by decide)
  ne_dots := by
    have hlen : 17 ≤ (text p.filename).length := by
      have hfixed : (octets "_iphoneos-arm.deb").length = 17 := by decide
      rw [h.filename, expectedFilename, List.length_append, hfixed]
      exact Nat.le_add_left _ _
    refine ⟨fun heq => ?_, fun heq => ?_, fun heq => ?_⟩ <;>
      exact absurd (heq ▸ hlen) (by decide)

/-- A record of a package to be installed. -/
def record (name version : String) : Package :=
  let cstring (s : List Byte) : CString := ⟨s.filter (· ≠ 0), by simp⟩
  let file := octets name ++ octets "_" ++ octets version ++ octets "_iphoneos-arm.deb"
  { package := some (cstring (octets name))
    version := some (cstring (octets version))
    filename := some (cstring file)
    sourceUrl := some (cstring (packageArchiveBase ++ file))
    size := 1
    sha256Hex := some (cstring (List.replicate 64 0x30))
    roles := roleInstall }

/-- Accepted records do no harm exactly if their names consist of the characters of package names.
To do no harm is that every record is clean, that the lines that the plan writes for the records,
whatever precedes them in the script, are read by a shell as one command for each package that is
installed, with its file as the only argument, and that this file lies in the directory of packages.
The records are accepted by checks of the fields, which leave the characters of the name open. -/
theorem entries_harmless_iff (inputs : List Package) (h : ∀ p ∈ inputs, Accepted p) :
    Harmless inputs ↔ ∀ p ∈ inputs, ∀ c ∈ text p.package, isPackageChar c = true := by
  refine ⟨fun hharmless p hp => (hharmless.clean p hp).package, fun hnames => ?_⟩
  have hfile : ∀ p ∈ inputs, ∀ c ∈ text p.filename, isMeta c = false :=
    fun p hp => accepted_filename (h p hp) (hnames p hp)
  refine ⟨fun p hp => ?_, fun script script' hscript => ?_,
    fun p hp => inside_of_accepted (h p hp) (hfile p hp)⟩
  · obtain ⟨hname, hversion, hchars⟩ := accepted_version (h p hp)
    exact ⟨hnames p hp, hname, hchars, hversion, hfile p hp⟩
  · refine ⟨_, planInstallLines_eq hscript, parse_installLines fun p hp => ?_⟩
    rcases List.mem_append.1 hp with hp | hp
    · exact hfile p (List.mem_of_mem_filter hp)
    · exact hfile p (List.mem_of_mem_filter hp)

theorem entries_harmless_record : Harmless [record "base" "1-3"] := by
  have haccepted : Accepted (record "base" "1-3") := rfl
  refine (entries_harmless_iff [record "base" "1-3"] fun p hp => ?_).2 fun p hp => ?_
  · exact List.mem_singleton.1 hp ▸ haccepted
  · exact List.mem_singleton.1 hp ▸ by decide

/-- A name that closes the quotes puts a command of its own into the script. -/
theorem injected_record : Accepted (record "a\";reboot;\"" "1") ∧
    ¬Harmless [record "a\";reboot;\"" "1"] ∧
    parse (installLine (record "a\";reboot;\"" "1")) =
      some [[(.first, [bare (octets "install_one"), fileWord (octets "a")])],
        [(.first, [bare (octets "reboot")])],
        [(.first, [(octets "_1_iphoneos-arm.deb").map .literal]),
          (.or, [bare (octets "exit"), bare (octets "1")])]] := by
  refine ⟨rfl, fun h => ?_, by decide⟩
  have hchar := (h.clean _ (List.mem_singleton_self _)).package 0x22
  exact absurd (hchar (by decide)) (by decide)

end S5LBox.App.Packages
