import S5LBox.App.IpaArchive

/-!
# Sound inspection

What an accepted application archive is known to be: its names stay below the root of the
application, no two are the same and none goes through a file, and its links end in regular files.

## Main definitions

* `Sound`: what is known of an accepted archive.
* `Leads`: one link, resolved from its own directory by exact spelling.

## Main results

* `Kept`, `visit_keeps`: the invariant of the walk.
* `collapse_ends`: the map that comes out leads to the ends of the chains.
* `ipa_sound`: an inspection ends, and what it accepts is sound.
-/

namespace S5LBox.App.Ipa

open Reading Firmware Chains

/-! ### The entries of a walk -/

/-- A directory is an entry whose name ends in a slash. -/
def Genuine (e : Entry) : Prop := e.isDirectory = true ↔ e.name.getLast? = some 0x2f

variable {add : Nat → Nat → Nat} {z : Zip}

theorem genuine_entryOf (hdr name : List Byte) : Genuine (entryOf hdr name) := by
  rw [Genuine, entryOf]
  exact decide_eq_true_iff

theorem refuse_any (wrong : Prop) [Decidable wrong] (st : ZipStatus) :
    Reader.Reads (fun _ _ => True) (fun _ => True) (refuse wrong st) := by
  rw [refuse]
  exact .either trivial trivial

theorem readExact_any (size off len : Nat) :
    Reader.Reads (fun _ _ => True) (fun _ => True) (readExact size off len) := by
  rw [readExact]
  refine .either trivial <| .either trivial ?_
  exact ⟨trivial, fun got => .either trivial trivial⟩

variable {e : Entry}

theorem applyZip64Extra_genuine {size extraOff extraLen off : Nat} {nu nc no : Bool}
    (he : Genuine e) : Reader.Reads (fun _ _ => True) Genuine
      (applyZip64Extra add size extraOff extraLen e nu nc no off) := by
  fun_induction applyZip64Extra add size extraOff extraLen e nu nc no off with
  | case1 off h ih =>
    refine .bind (readExact_any _ _ _) fun hdr _ => ?_
    refine .ite (fun _ => trivial) fun hfit => .either ?_ <| ih hdr hfit
    exact .bind (refuse_any _ _) fun _ _ => .bind (readExact_any _ _ _) fun _ _ => he
  | case2 off h => trivial

theorem entryAt_genuine (finish off : Nat) : Reader.Reads (fun _ _ => True)
    (fun r => Genuine r.1) (entryAt add z finish off) := by
  rw [entryAt]
  refine .bind (refuse_any _ _) fun _ _ => .bind (readExact_any _ _ _) fun hdr _ => ?_
  refine .bind (refuse_any _ _) fun _ _ => .bind (refuse_any _ _) fun _ _ => ?_
  refine .bind (refuse_any _ _) fun _ _ => .bind (refuse_any _ _) fun _ _ => ?_
  refine .bind (readExact_any _ _ _) fun name _ => .bind (refuse_any _ _) fun _ _ => ?_
  have hexplain : Reader.Reads (fun _ _ => True) Genuine (explain add z.size
      (add (add off centralMinSize) (rd16 (hdr.drop 28))) (rd16 (hdr.drop 30))
      (entryOf hdr name)) := by
    rw [explain]
    exact .ite (fun _ => applyZip64Extra_genuine (genuine_entryOf hdr name))
      fun _ => genuine_entryOf hdr name
  exact .bind hexplain fun _ he => .bind (refuse_any _ _) fun _ _ => he

/-- What every visit of an entry keeps holds at the end of the walk. -/
theorem walk_keeps {γ : Type} {I : γ → Prop} {visit : γ → Entry → Nat → γ × Bool}
    (hvisit : ∀ s e i, Genuine e → I s → I (visit s e i).1) {finish : Nat} (left i off : Nat)
    {s : γ} (hs : I s) : Reader.Reads (fun _ _ => True) (fun r => I r.1)
      (walk add z visit finish left i off s) := by
  induction left generalizing i off s with
  | zero => exact hs
  | succ left ih =>
    refine .bind (entryAt_genuine finish off).attempt fun r hr => ?_
    cases r with
    | error st => exact hs
    | ok r =>
      have hnext := hvisit s r.1 i (hr r rfl) hs
      exact .either (ih _ _ hnext) hnext

/-! ### Names -/

/-- A name below the root: its parts are neither empty nor dots. -/
def SafeName (name : List Byte) : Prop :=
  ∀ part ∈ (trimSlash name).splitOn 0x2f, part ≠ [] ∧ part ≠ [0x2e] ∧ part ≠ [0x2e, 0x2e]

theorem badPart_eq_false {part : List Byte} :
    badPart part = false ↔ part ≠ [] ∧ part ≠ [0x2e] ∧ part ≠ [0x2e, 0x2e] := by
  simp [badPart]

theorem trimSlash_append_cons {a p : List Byte} (hp : p ≠ []) :
    trimSlash (a ++ 0x2f :: p) = a ++ 0x2f :: trimSlash p := by
  have hlast : (a ++ 0x2f :: p).getLast? = p.getLast? := by
    rw [List.getLast?_append_of_ne_nil _ (List.cons_ne_nil _ _), List.getLast?_cons_of_ne_nil hp]
  rw [trimSlash, trimSlash, hlast]
  split
  · rw [List.dropLast_append_of_ne_nil (List.cons_ne_nil _ _), List.dropLast_cons_of_ne_nil hp]
  · rfl

theorem trimSlash_of_not_mem {a : List Byte} (h : (0x2f : Byte) ∉ a) : trimSlash a = a :=
  if_neg fun hlast => h (List.mem_of_getLast? hlast)

theorem safeFrom_parts {p part : List Byte} (h : safeFrom p part = true)
    (hpart : (0x2f : Byte) ∉ part) :
    ∀ q ∈ (trimSlash (part ++ p)).splitOn 0x2f, badPart q = false := by
  fun_induction safeFrom p part with
  | case1 part =>
    rw [List.append_nil, trimSlash_of_not_mem hpart, List.splitOn_eq_singleton hpart]
    exact List.forall_mem_singleton.2 (Bool.not_eq_true' _ ▸ h)
  | case2 => exact absurd h Bool.false_ne_true
  | case3 p part hc ih =>
    obtain ⟨hgood, hrest⟩ := Bool.and_eq_true_iff.1 h
    have hgood' : badPart part = false := Bool.not_eq_true' _ ▸ hgood
    obtain hnil | hrest := Bool.or_eq_true_iff.1 hrest
    · have htrim : trimSlash (part ++ [0x2f]) = part := by
        rw [trimSlash, if_pos (by simp), List.dropLast_concat]
      rw [of_decide_eq_true hnil, htrim, List.splitOn_eq_singleton hpart]
      exact List.forall_mem_singleton.2 hgood'
    · have hne : p ≠ [] := by
        rintro rfl
        exact absurd hrest Bool.false_ne_true
      rw [trimSlash_append_cons hne, List.splitOn_append_cons_self_of_not_mem hpart]
      exact List.forall_mem_cons.2 ⟨hgood', ih hrest List.not_mem_nil⟩
  | case4 c p part hbad hc ih =>
    have hmem : (0x2f : Byte) ∉ part ++ [c] := fun hmem =>
      (List.mem_append.1 hmem).elim hpart fun h => hc (List.mem_singleton.1 h).symm
    rw [List.append_cons]
    exact ih h hmem

theorem safeName_of_safePath {name : List Byte} (h : vmIpaSafePath name = true) :
    SafeName name := by
  rw [vmIpaSafePath, Bool.and_eq_true] at h
  exact fun q hq => badPart_eq_false.1 (safeFrom_parts h.2 List.not_mem_nil q hq)

theorem pathLower_eq_slash {c : Byte} (h : pathLower c = 0x2f) : c = 0x2f := by
  have hall : ∀ c : Byte, pathLower c = 0x2f → c = 0x2f := by decide
  exact hall c h

theorem pathPrefix_of_isPrefix {a b : List Byte} (h : a.map pathLower <+: b.map pathLower) :
    pathPrefix a b = true := by
  induction a generalizing b with
  | nil => rfl
  | cons x a ih =>
    cases b with
    | nil => exact absurd (List.prefix_nil.1 h) (List.cons_ne_nil _ _)
    | cons y b =>
      obtain ⟨hhead, htail⟩ := List.cons_prefix_cons.1 h
      rw [pathPrefix, Bool.and_eq_true]
      exact ⟨decide_eq_true hhead, ih htail⟩

/-- A name is a directory above another, whatever the case of letters. -/
def Above (a b : List Byte) : Prop := a.map pathLower ++ [0x2f] <+: b.map pathLower

theorem above_checks {a b : List Byte} (h : Above a b) :
    pathPrefix a b = true ∧ b[a.length]? = some 0x2f := by
  refine ⟨pathPrefix_of_isPrefix ((List.prefix_append _ _).trans h), ?_⟩
  obtain ⟨rest, hrest⟩ := h
  have hget := congrArg (·[a.length]?) hrest
  have hlen : (a.map pathLower).length = a.length := List.length_map _
  rw [List.append_assoc, List.getElem?_append_right (by rw [hlen]), hlen, Nat.sub_self,
    List.getElem?_map] at hget
  obtain ⟨c, hc, hslash⟩ := Option.map_eq_some_iff.1 hget.symm
  rw [hc, pathLower_eq_slash hslash]

theorem not_above_of_not_used {files : List Entry} (h : usedAsParent files = false) {i j : Nat}
    {a b : Entry} (hij : i ≠ j) (ha : files[i]? = some a) (hb : files[j]? = some b)
    (hfile : a.isDirectory = false) : ¬Above a.name b.name := by
  intro habove
  obtain ⟨hlead, hslash⟩ := above_checks habove
  have ha' : (a, i) ∈ files.zipIdx := List.mem_zipIdx_iff_getElem?.2 ha
  have hb' : (b, j) ∈ files.zipIdx := List.mem_zipIdx_iff_getElem?.2 hb
  have hall := List.any_eq_false.1 h _ ha'
  simp only [hfile, Bool.not_false, Bool.true_and] at hall
  have hpair := List.any_eq_false.1 (Bool.not_eq_true _ ▸ hall) _ hb'
  simp [hij, hlead, hslash] at hpair

/-! ### The invariant of the walk -/

/-- What is known of the entries that are kept. -/
structure Kept (p : Plan) : Prop where
  safe : ∀ e ∈ p.files, vmIpaSafePath e.name = true
  inside : ∀ e ∈ p.files, p.appRoot ++ [0x2f] <+: e.name
  nodup : (p.files.map fun e => (trimSlash e.name).map pathLower).Nodup
  typed : ∀ e ∈ p.files, vmIpaEntryIsSymlink e = true → e.isDirectory = false
  root : p.appRoot = [] → p.files = []

theorem rootOf_append (name : List Byte) :
    ∃ rest, name = rootOf name ++ rest ∧ (rest = [] ∨ ∃ r, rest = 0x2f :: r) := by
  refine ⟨(name.drop 8).dropWhile (· ≠ 0x2f), ?_, ?_⟩
  · rw [rootOf, List.append_assoc, List.takeWhile_append_dropWhile, List.take_append_drop]
  · have hhead := List.head?_dropWhile_not (fun c : Byte => decide (c ≠ 0x2f)) (name.drop 8)
    cases hrest : (name.drop 8).dropWhile (· ≠ 0x2f) with
    | nil => exact .inl rfl
    | cons c r =>
      rw [hrest] at hhead
      exact .inr ⟨r, by rw [not_not.1 (of_decide_eq_false hhead)]⟩

theorem getLast?_rootOf {name : List Byte} (h : 8 < (rootOf name).length) :
    (rootOf name).getLast? ≠ some 0x2f := by
  have hne : (name.drop 8).takeWhile (· ≠ 0x2f) ≠ [] := by
    intro hnil
    rw [rootOf, hnil, List.append_nil] at h
    exact absurd h (Nat.not_lt.2 (List.length_take_le _ _))
  intro hlast
  rw [rootOf, List.getLast?_append_of_ne_nil _ hne] at hlast
  have hmem := List.all_eq_true.1 List.all_takeWhile _ (List.mem_of_getLast? hlast)
  exact absurd rfl (of_decide_eq_true hmem)

/-- An entry that is not refused. -/
theorem refusal_eq_none {plan : Plan} {rest : List Byte} (h : refusal plan e rest = none) :
    (vmIpaEntryIsSymlink e = true → e.isDirectory = false) ∧
      (e.isDirectory = false → 1 < rest.length) ∧
      ∀ f ∈ plan.files, sameName f.name e.name = false := by
  rw [refusal] at h
  split_ifs at h with htype hdir hsize hsame
  refine ⟨fun hlink => ?_, fun hfile => ?_, fun f hf => ?_⟩
  · by_contra hisdir
    exact htype (.inr (.inr ⟨.inr (of_decide_eq_true hlink), Bool.not_eq_false _ ▸ hisdir⟩))
  · by_contra hshort
    exact hdir ⟨Nat.not_lt.1 hshort, hfile⟩
  · by_contra hequal
    exact hsame (List.any_eq_true.2 ⟨f, hf, Bool.not_eq_false _ ▸ hequal⟩)

/-- The root may be set while there are no entries. -/
theorem Kept.withRoot {p : Plan} {root : List Byte} (h : Kept p)
    (hroot : p.files = [] ∨ p.appRoot = root) (hne : root ≠ []) :
    Kept { p with appRoot := root } := by
  obtain hnil | rfl := hroot
  · have hnone {e : Entry} (he : e ∈ p.files) : False := by
      rw [hnil] at he
      exact List.not_mem_nil he
    exact ⟨fun e he => (hnone he).elim, fun e he => (hnone he).elim, by
      change (p.files.map _).Nodup
      rw [hnil]
      exact List.nodup_nil, fun e he => (hnone he).elim, fun hroot => absurd hroot hne⟩
  · exact h

/-- An entry below the root that is new may be kept. -/
theorem Kept.push {p : Plan} {rest : List Byte} (h : Kept p) (hsafe : vmIpaSafePath e.name = true)
    (hinside : p.appRoot ++ [0x2f] <+: e.name)
    (hnew : ∀ f ∈ p.files, sameName f.name e.name = false)
    (htyped : vmIpaEntryIsSymlink e = true → e.isDirectory = false) (hroot : p.appRoot ≠ []) :
    Kept (p.push e rest) := by
  have hall {P : Entry → Prop} (hold : ∀ f ∈ p.files, P f) (he : P e) :
      ∀ f ∈ p.files ++ [e], P f := fun f hf =>
    (List.mem_append.1 hf).elim (hold f) fun hf => List.mem_singleton.1 hf ▸ he
  refine ⟨hall h.safe hsafe, hall h.inside hinside, ?_, hall h.typed htyped,
    fun hnil => absurd hnil hroot⟩
  change ((p.files ++ [e]).map _).Nodup
  rw [List.map_append]
  refine List.nodup_append'.2 ⟨h.nodup, List.nodup_singleton _, ?_⟩
  refine List.disjoint_singleton.2 fun hmem => ?_
  obtain ⟨f, hf, hsame⟩ := List.mem_map.1 hmem
  exact Bool.false_ne_true ((hnew f hf).symm.trans (decide_eq_true hsame))

theorem visit_keeps {s : Walk} (i : Nat) (he : Genuine e) (h : Kept s.plan) :
    Kept (visit s e i).1.plan := by
  rw [visit]
  split_ifs with hsafe hpayload
  · exact h
  · exact h
  · dsimp only
    split_ifs with hroot hother
    · exact h
    · exact h
    · have hsame : s.plan.files = [] ∨ s.plan.appRoot = rootOf e.name := by
        by_cases hempty : s.plan.appRoot = []
        · exact .inl (h.root hempty)
        · exact .inr (not_not.1 fun hne => hother ⟨hempty, hne⟩)
      have hlen := Nat.not_lt.1 fun hshort => hroot (.inl hshort)
      have hne : rootOf e.name ≠ [] := List.ne_nil_of_length_pos (by omega)
      have hkept := h.withRoot hsame hne
      cases hrefusal : refusal { s.plan with appRoot := rootOf e.name } e
        (e.name.drop (rootOf e.name).length) with
      | some text => exact hkept
      | none =>
        obtain ⟨htyped, hrest, hnew⟩ := refusal_eq_none hrefusal
        refine hkept.push (Bool.not_eq_false _ ▸ hsafe) ?_ hnew htyped hne
        obtain ⟨rest, hname, hslash⟩ := rootOf_append e.name
        have hdrop : e.name.drop (rootOf e.name).length = rest :=
          (congrArg (List.drop _) hname).trans List.drop_left
        obtain rfl | ⟨r, rfl⟩ := hslash
        · rw [List.append_nil] at hname
          have hfile : e.isDirectory = false := by
            refine Bool.not_eq_true _ ▸ fun hdir => ?_
            have hlast := he.1 hdir
            rw [hname] at hlast
            exact getLast?_rootOf (by omega) hlast
          have hlong := hrest hfile
          rw [hdrop] at hlong
          exact absurd hlong (Nat.not_lt_zero _)
        · exact ⟨r, by rw [List.append_assoc]; exact hname.symm⟩

/-! ### Links -/

variable {extract : Entry → Except String (List Byte)} {files : List Entry} {appRoot : List Byte}

/-- A link leads to the entry whose name is spelt as its target, from the directory of the link. -/
def Leads (extract : Entry → Except String (List Byte)) (files : List Entry) (i j : Nat) : Prop :=
  ∃ e f target, files[i]? = some e ∧ vmIpaEntryIsSymlink e = true ∧ extract e = .ok target ∧
    files[j]? = some f ∧ f.name = parentOf e.name ++ target

/-- An entry that is a file and not a link. -/
def Regular (files : List Entry) (i : Nat) : Prop :=
  ∃ e, files[i]? = some e ∧ e.isDirectory = false ∧ vmIpaEntryIsSymlink e = false

theorem resolve_eq_ok {j : Nat} (h : resolve extract files appRoot e = .ok j) :
    ∃ f target, extract e = .ok target ∧ files[j]? = some f ∧
      f.name = parentOf e.name ++ target ∧ f.isDirectory = false := by
  rw [resolve.eq_def] at h
  split_ifs at h
  cases htarget : extract e with
  | error text =>
    rw [htarget] at h
    exact absurd h nofun
  | ok target =>
    rw [htarget] at h
    dsimp only at h
    split_ifs at h
    split at h
    · exact absurd h nofun
    · rename_i destination hfind
      split_ifs at h with hdir
      obtain rfl := Except.ok.inj h
      obtain ⟨hlt, hname, -⟩ := List.findIdx?_eq_some_iff_getElem.1 hfind
      have hget : files[destination]? = some files[destination] := List.getElem?_eq_getElem hlt
      rw [hget, Option.any_some, Bool.not_eq_true] at hdir
      exact ⟨_, target, rfl, hget, (of_decide_eq_true hname).symm, hdir⟩

/-- The map of links as it is first. -/
def FirstMap (extract : Entry → Except String (List Byte)) (files : List Entry)
    (content : List Nat) : Prop :=
  content.length = files.length ∧ ∀ i e, files[i]? = some e → ∃ c, content[i]? = some c ∧
    (vmIpaEntryIsSymlink e = true → Leads extract files i c ∧
      (∃ f, files[c]? = some f ∧ f.isDirectory = false)) ∧
    (vmIpaEntryIsSymlink e = false → c = i)

/-- What a loop that may fail has made of every element. -/
theorem mapM_ok {α β ε : Type} {f : α → Except ε β} {l : List α} {r : List β}
    (h : l.mapM f = .ok r) : r.length = l.length ∧
      ∀ (i : Nat) (a : α), l[i]? = some a → ∃ b, r[i]? = some b ∧ f a = .ok b := by
  induction l generalizing r with
  | nil =>
    obtain rfl := Except.ok.inj h
    exact ⟨rfl, fun _ _ h => absurd h nofun⟩
  | cons a l ih =>
    rw [List.mapM_cons] at h
    cases ha : f a with
    | error e =>
      rw [ha] at h
      exact absurd h nofun
    | ok b =>
      rw [ha] at h
      cases hl : l.mapM f with
      | error e =>
        rw [hl] at h
        exact absurd h nofun
      | ok bs =>
        rw [hl] at h
        obtain rfl := Except.ok.inj h
        obtain ⟨hlen, hget⟩ := ih hl
        refine ⟨congrArg Nat.succ hlen, fun i a' hi => ?_⟩
        cases i with
        | zero =>
          obtain rfl := Option.some.inj hi
          exact ⟨b, rfl, ha⟩
        | succ i => exact hget i a' hi

variable {content : List Nat}

theorem firstMap_of_resolve {content : List Nat}
    (h : files.zipIdx.mapM (fun (e, i) => if vmIpaEntryIsSymlink e then
      resolve extract files appRoot e else .ok i) = .ok content) :
    FirstMap extract files content := by
  obtain ⟨hlen, hget⟩ := mapM_ok h
  refine ⟨hlen.trans List.length_zipIdx, fun i e he => ?_⟩
  have hpair : files.zipIdx[i]? = some (e, i) := by
    rw [List.getElem?_zipIdx, he, Option.map_some, Nat.zero_add]
  obtain ⟨c, hc, hresolved⟩ := hget i (e, i) hpair
  dsimp only at hresolved
  refine ⟨c, hc, fun hlink => ?_, fun hlink => ?_⟩
  · rw [if_pos hlink] at hresolved
    obtain ⟨f, target, htarget, hf, hname, hdir⟩ := resolve_eq_ok hresolved
    exact ⟨⟨e, f, target, he, hlink, htarget, hf, hname⟩, f, hf, hdir⟩
  · rw [hlink, if_neg Bool.false_ne_true] at hresolved
    exact (Except.ok.inj hresolved).symm

theorem nextLink_eq_some {i c : Nat} :
    nextLink files content i = some c ↔
      ∃ e, files[i]? = some e ∧ vmIpaEntryIsSymlink e = true ∧ content.getD i 0 = c := by
  rw [nextLink]
  cases files[i]? with
  | none => simp
  | some e => simp

theorem nextLink_eq_none {i : Nat} (he : files[i]? = some e) (h : nextLink files content i = none) :
    vmIpaEntryIsSymlink e = false := by
  rw [nextLink, he, Option.any_some] at h
  split_ifs at h with hlink
  exact Bool.not_eq_true _ ▸ hlink

/-- The end of a chain of links is a regular file. -/
theorem regular_of_ends {i j : Nat} (hmap : FirstMap extract files content)
    (he : files[i]? = some e) (hlink : vmIpaEntryIsSymlink e = true)
    (hends : Ends (nextLink files content) i j) :
    Relation.ReflTransGen (Leads extract files) i j ∧ Regular files j := by
  obtain ⟨hchain, hend⟩ := hends
  have hstart : vmIpaEntryIsSymlink e = true ∨ e.isDirectory = false := .inl hlink
  clear hlink
  induction hchain using Relation.ReflTransGen.head_induction_on generalizing e with
  | refl =>
    have hlink := nextLink_eq_none he hend
    exact ⟨.refl, e, he, hstart.resolve_left (Bool.not_eq_true _ ▸ hlink), hlink⟩
  | head hstep _ ih =>
    obtain ⟨e', he', hlink, hnext⟩ := nextLink_eq_some.1 hstep
    obtain rfl := Option.some.inj (he.symm.trans he')
    obtain ⟨c, hc, hleads, -⟩ := hmap.2 _ e he
    obtain ⟨hlead, f, hf, hdir⟩ := hleads hlink
    rw [List.getD_eq_getElem?_getD, hc, Option.getD_some] at hnext
    subst hnext
    obtain ⟨hrest, hregular⟩ := ih hf (.inr hdir)
    exact ⟨.head hlead hrest, hregular⟩

/-! ### The last loop -/

/-- Ends have taken the place of successors. -/
def Shortened (files : List Entry) (first content : List Nat) : Prop :=
  ∀ i, nextLink files content i = nextLink files first i ∨ nextLink files first i ≠ none ∧
    ∃ j, nextLink files content i = some j ∧ Ends (nextLink files first) i j

theorem Shortened.set {first content : List Nat} {i j : Nat}
    (h : Shortened files first content) (hi : i < content.length)
    (hends : Ends (nextLink files first) i j) :
    Shortened files first (content.set i j) := by
  intro k
  by_cases hk : i = k
  · subst hk
    by_cases hlink : (files[i]?).any vmIpaEntryIsSymlink = true
    · right
      rw [nextLink, nextLink, if_pos hlink, if_pos hlink]
      refine ⟨nofun, j, ?_, hends⟩
      rw [List.getD_eq_getElem?_getD, List.getElem?_set_self hi, Option.getD_some]
    · left
      rw [nextLink, nextLink, if_neg hlink, if_neg hlink]
  · have hsame : nextLink files (content.set i j) k = nextLink files content k := by
      rw [nextLink, nextLink, List.getD_eq_getElem?_getD, List.getD_eq_getElem?_getD,
        List.getElem?_set_ne hk]
    rw [hsame]
    exact h k

theorem collapse_other {content last : List Nat} {fuel i : Nat} {is : List Nat} (hi : i ∉ is)
    (h : collapse files fuel is content = some last) : last[i]? = content[i]? := by
  induction is generalizing content with
  | nil => rw [Option.some.inj h]
  | cons k is ih =>
    obtain ⟨hne, hi⟩ := List.ne_and_not_mem_of_not_mem_cons hi
    rw [collapse] at h
    split at h
    · exact absurd h nofun
    · rw [ih hi h, List.getElem?_set_ne hne.symm]

/-- The map that comes out leads to the ends of the chains. -/
theorem collapse_ends {first content : List Nat} {fuel : Nat} {is : List Nat}
    (hfirst : ∀ i ∈ is, ∃ j, chase (nextLink files first) 16 i = some j)
    (h : Shortened files first content) (hlen : ∀ i ∈ is, i < content.length) :
    (16 ≤ fuel → (collapse files fuel is content).isSome = true) ∧
      ∀ last, collapse files fuel is content = some last → ∀ i ∈ is, ∃ j, last[i]? = some j ∧
        Ends (nextLink files first) i j := by
  induction is generalizing content with
  | nil => exact ⟨fun _ => rfl, nofun⟩
  | cons i is ih =>
    obtain ⟨⟨e, he⟩, hrest⟩ := List.forall_mem_cons.1 hfirst
    obtain ⟨hi, hlen⟩ := List.forall_mem_cons.1 hlen
    have hends := ends_of_chase he
    have hchase := chase_shortcut h he
    have hnext {j : Nat} (hj : Ends (nextLink files first) i j) :=
      ih hrest (h.set hi hj) fun k hk => by
        rw [List.length_set]
        exact hlen k hk
    rw [collapse]
    split
    · rename_i hnone
      refine ⟨fun hfuel => ?_, nofun⟩
      exact absurd ((chase_mono hfuel hchase).symm.trans hnone) nofun
    · rename_i current hcurrent
      have hsame : current = e := by
        have hmax := chase_mono (Nat.le_max_left 16 fuel) hchase
        exact Option.some.inj ((chase_mono (Nat.le_max_right 16 fuel) hcurrent).symm.trans hmax)
      subst hsame
      obtain ⟨hdone, hlast⟩ := hnext hends
      refine ⟨hdone, fun last h => List.forall_mem_cons.2 ⟨?_, hlast last h⟩⟩
      by_cases hmem : i ∈ is
      · exact hlast last h i hmem
      · exact ⟨current, (collapse_other hmem h).trans (List.getElem?_set_self hi), hends⟩

/-- Names that differ name one entry. -/
theorem leads_next {i j : Nat}
    (hdistinct : (files.map fun e => (trimSlash e.name).map pathLower).Nodup)
    (hmap : FirstMap extract files content) (h : Leads extract files i j) :
    nextLink files content i = some j := by
  obtain ⟨e, f, target, he, hlink, htarget, hf, hname⟩ := h
  obtain ⟨c, hc, hleads, -⟩ := hmap.2 i e he
  obtain ⟨⟨e', f', target', he', -, htarget', hf', hname'⟩, -⟩ := hleads hlink
  obtain rfl := Option.some.inj (he.symm.trans he')
  obtain rfl := Except.ok.inj (htarget.symm.trans htarget')
  have hsame : f.name = f'.name := hname.trans hname'.symm
  have hcj : c = j := by
    have hj := (List.getElem?_eq_some_iff.1 hf).1
    refine ((List.getElem?_inj (by rwa [List.length_map]) hdistinct).1 ?_).symm
    rw [List.getElem?_map, List.getElem?_map, hf, hf', Option.map_some, Option.map_some, hsame]
  rw [nextLink_eq_some]
  exact ⟨e, he, hlink, by rw [List.getD_eq_getElem?_getD, hc, Option.getD_some, hcj]⟩

theorem ends_of_leads {i j : Nat}
    (hdistinct : (files.map fun e => (trimSlash e.name).map pathLower).Nodup)
    (hmap : FirstMap extract files content) (h : Relation.ReflTransGen (Leads extract files) i j)
    (hj : Regular files j) :
    Ends (nextLink files content) i j := by
  refine ⟨Relation.ReflTransGen.mono (fun _ _ => leads_next hdistinct hmap) i j h, ?_⟩
  obtain ⟨e, he, -, hlink⟩ := hj
  rw [nextLink, he, Option.any_some, hlink, if_neg Bool.false_ne_true]

/-! ### What is accepted -/

/-- What is known of an accepted archive. -/
structure Sound (extract : Entry → Except String (List Byte)) (p : Plan) : Prop where
  safe : ∀ e ∈ p.files, SafeName e.name
  inside : ∀ e ∈ p.files, p.appRoot ++ [0x2f] <+: e.name
  distinct : (p.files.map fun e => (trimSlash e.name).map pathLower).Nodup
  notAbove : ∀ (i j : Nat) (a b : Entry), i ≠ j → p.files[i]? = some a → p.files[j]? = some b →
    a.isDirectory = false → ¬Above a.name b.name
  links : ∀ (i : Nat) (e : Entry), p.files[i]? = some e → vmIpaEntryIsSymlink e = true →
    ∃ j, p.contentIndices[i]? = some j ∧ ∀ k,
      Relation.ReflTransGen (Leads extract p.files) i k ∧ Regular p.files k ↔ k = j
  others : ∀ (i : Nat) (e : Entry), p.files[i]? = some e → vmIpaEntryIsSymlink e = false →
    p.contentIndices[i]? = some i

/-- What `validate_links` accepts is sound, and it comes to an end. -/
theorem validateLinks_sound (host : Host) (fuel : Nat) {plan : Plan} (h : Kept plan) :
    (16 ≤ fuel → (validateLinks host fuel plan).isSome = true) ∧
      ∀ p, validateLinks host fuel plan = some (.ok p) → Sound host.extract p := by
  rw [validateLinks.eq_def]
  split_ifs with hparent hmemory
  · exact ⟨fun _ => rfl, fun p hp => absurd hp nofun⟩
  · exact ⟨fun _ => rfl, fun p hp => absurd hp nofun⟩
  · split
    · exact ⟨fun _ => rfl, fun p hp => absurd hp nofun⟩
    · rename_i content hcontent
      have hmap := firstMap_of_resolve hcontent
      split_ifs with hlong
      · exact ⟨fun _ => rfl, fun p hp => absurd hp nofun⟩
      · have hfirst : ∀ i ∈ List.range plan.files.length,
            ∃ j, chase (nextLink plan.files content) 16 i = some j := by
          intro i hi
          refine Option.isSome_iff_exists.1 ?_
          rw [← Option.not_isNone, Bool.not_eq_true']
          exact Bool.not_eq_true _ ▸ fun hnone => hlong (List.any_eq_true.2 ⟨i, hi, hnone⟩)
        have hlen : ∀ i ∈ List.range plan.files.length, i < content.length := fun i hi =>
          hmap.1.symm ▸ List.mem_range.1 hi
        obtain ⟨hdone, hlast⟩ := collapse_ends hfirst (fun _ => .inl rfl) hlen
        constructor
        · intro hfuel
          rw [Option.isSome_map]
          exact hdone hfuel
        · intro p hp
          obtain ⟨last, hcollapse, hp⟩ := Option.map_eq_some_iff.1 hp
          obtain rfl := Except.ok.inj hp
          have hends := hlast last hcollapse
          have hin {i : Nat} {e : Entry} (he : plan.files[i]? = some e) :
              i ∈ List.range plan.files.length :=
            List.mem_range.2 (List.getElem?_eq_some_iff.1 he).1
          refine ⟨fun e he => safeName_of_safePath (h.safe e he), h.inside, h.nodup,
            fun i j a b => not_above_of_not_used (Bool.not_eq_true _ ▸ hparent), ?_, ?_⟩
          · intro i e he hlink
            obtain ⟨j, hj, hend⟩ := hends i (hin he)
            refine ⟨j, hj, fun k => ⟨fun hk => ?_, fun hk => ?_⟩⟩
            · exact (ends_of_leads h.nodup hmap hk.1 hk.2).unique hend
            · exact hk ▸ regular_of_ends hmap he hlink hend
          · intro i e he hlink
            obtain ⟨j, hj, hend⟩ := hends i (hin he)
            have hself : Ends (nextLink plan.files content) i i := by
              refine ⟨.refl, ?_⟩
              rw [nextLink, he, Option.any_some, hlink, if_neg Bool.false_ne_true]
            exact hend.unique hself ▸ hj

/-- An inspection comes to an end for every archive, whatever it reads from it: sixteen rounds of the
last loop over the links are always enough, also where the links of the archive lead in circles. What
it accepts is sound:

* no part of a name is empty or is one or two dots, so that none is absolute or leads upwards;
* all names are below the one bundle of the application, and no two are the same but for the case
  of letters;
* no file and no link is above another entry, in any case of letters;
* from each link the targets lead to just one entry that is a file and no link, the content of the
  link; every other entry is its own content. -/
theorem ipa_sound (host : Host) (z : Zip) (pread : Nat → Nat → List Byte) :
    (∀ fuel, 16 ≤ fuel → ∃ r, (vmIpaArchiveOpen host z fuel).run pread = .ok (some r)) ∧
      ∀ fuel p, (vmIpaArchiveOpen host z fuel).run pread = .ok (some (.ok p)) →
        Sound host.extract p := by
  have hstart : Kept ⟨[], [], none, 0, []⟩ :=
    ⟨fun _ h => absurd h List.not_mem_nil, fun _ h => absurd h List.not_mem_nil, List.nodup_nil,
      fun _ h => absurd h List.not_mem_nil, fun _ => rfl⟩
  have hwalk : Reader.Reads (fun _ _ => True) (fun r => Kept r.1.plan)
      (vmfwZipIterate z visit ⟨⟨[], [], none, 0, []⟩, none⟩) :=
    walk_keeps (I := fun s : Walk => Kept s.plan) (fun _ _ i he h => visit_keeps i he h) _ _ _
      hstart
  have hopen (fuel : Nat) : ∃ r, (vmIpaArchiveOpen host z fuel).run pread = .ok r ∧
      (16 ≤ fuel → r.isSome = true) ∧ ∀ p, r = some (.ok p) → Sound host.extract p := by
    rw [vmIpaArchiveOpen]
    split_ifs with hmemory
    · exact ⟨_, rfl, fun _ => rfl, fun p hp => by cases hp⟩
    · rw [Reader.run_bind]
      cases hrun : (vmfwZipIterate z visit ⟨⟨[], [], none, 0, []⟩, none⟩).run pread with
      | error e => exact e.elim
      | ok walked =>
        obtain ⟨s, status⟩ := walked
        have hkept : Kept s.plan := hwalk.run pread hrun
        obtain ⟨hdone, hsound⟩ := validateLinks_sound host fuel hkept
        change ∃ r, Reader.run pread _ = .ok r ∧ _
        dsimp only
        split
        · exact ⟨_, rfl, fun _ => rfl, fun p hp => by cases hp⟩
        · exact ⟨_, rfl, fun _ => rfl, fun p hp => by cases hp⟩
        · exact ⟨_, rfl, fun _ => rfl, fun p hp => by cases hp⟩
        · exact ⟨_, rfl, hdone, hsound⟩
  constructor
  · intro fuel hfuel
    obtain ⟨r, hr, hsome, -⟩ := hopen fuel
    obtain ⟨r, rfl⟩ := Option.isSome_iff_exists.1 (hsome hfuel)
    exact ⟨r, hr⟩
  · intro fuel p hp
    obtain ⟨r, hr, -, hsound⟩ := hopen fuel
    exact hsound p (Except.ok.inj (hr.symm.trans hp))

/-- The record of an entry in the directory. -/
def directoryEntry (mode size : Nat) (name : List Byte) : List Byte :=
  [0x50, 0x4b, 0x01, 0x02, 0x14, 0x03] ++ List.replicate 18 0 ++ [BitVec.ofNat 8 size, 0, 0, 0] ++
    [BitVec.ofNat 8 name.length] ++ List.replicate 11 0 ++
    [BitVec.ofNat 8 mode, BitVec.ofNat 8 (mode / 2 ^ 8)] ++ List.replicate 4 0 ++ name

/-- The directory of an application with a link to a link to its property list. -/
def linkedArchive : List Byte :=
  directoryEntry 0o120777 1 (ascii "Payload/A.app/a") ++
    directoryEntry 0o120777 10 (ascii "Payload/A.app/b") ++
    directoryEntry 0o100644 3 (ascii "Payload/A.app/Info.plist")

def linkedZip : Zip where
  entryCount := 3
  cdSize := linkedArchive.length
  cdOffset := 0
  size := linkedArchive.length

/-- The targets of the two links, by their lengths. -/
def linkedHost : Host where
  filesMemory := true
  indicesMemory := true
  extract e := .ok (ascii (if e.uncompressedSize = 1 then "b" else "Info.plist"))

def linkedPlan : Plan where
  files := [
    ⟨ascii "Payload/A.app/a", 0, 1, 0, 0, 0, false, 0o120777⟩,
    ⟨ascii "Payload/A.app/b", 0, 10, 0, 0, 0, false, 0o120777⟩,
    ⟨ascii "Payload/A.app/Info.plist", 0, 3, 0, 0, 0, false, 0o100644⟩]
  contentIndices := [2, 2, 2]
  infoIndex := some 2
  unpackedBytes := 14
  appRoot := ascii "Payload/A.app"

theorem linkedArchive_accepted :
    (vmIpaArchiveOpen linkedHost linkedZip 16).run
      (fun off n => (linkedArchive.drop off).take n) = .ok (some (.ok linkedPlan)) := by
  decide +kernel

/-- The archive is accepted, and the first link leads through the second to the property list. -/
theorem ipa_sound_linked :
    Sound linkedHost.extract linkedPlan ∧
      ∀ k, Relation.ReflTransGen (Leads linkedHost.extract linkedPlan.files) 0 k ∧
        Regular linkedPlan.files k ↔ k = 2 := by
  have hsound : Sound linkedHost.extract linkedPlan :=
    (ipa_sound linkedHost linkedZip _).2 16 linkedPlan linkedArchive_accepted
  refine ⟨hsound, ?_⟩
  obtain ⟨j, hj, hends⟩ := hsound.links 0 _ rfl (by decide +kernel)
  obtain rfl : 2 = j := Option.some.inj hj
  exact hends

end S5LBox.App.Ipa
