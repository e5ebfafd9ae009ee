import S5LBox.Firmware.Symbols

/-!
# What an address is attributed to

## Main results

* `Loaded`: how the tables of an accepted image are ordered.
* `Loaded.kextAt`: the extent that is looked at starts last.
* `attribution`: an address is named after the extent it lies in.
-/

namespace S5LBox.Firmware.Symbols

open BinarySearch (search search_last)

/-- `qsort` puts what is there in order, where the comparison is one of a total preorder. -/
structure Sorts (qsort : Qsort) : Prop where
  perm : ∀ α cmp l, (qsort α cmp l).Perm l
  ordered : ∀ α (cmp : α → α → Int) l, (∀ x y, cmp x y ≤ 0 ∨ cmp y x ≤ 0) →
    (∀ x y z, cmp x y ≤ 0 → cmp y z ≤ 0 → cmp x z ≤ 0) →
    (qsort α cmp l).Pairwise fun x y => cmp x y ≤ 0

theorem ksymCmp_le {x y : Ksym} : ksymCmp x y ≤ 0 ↔ x.value ≤ y.value := by
  rw [ksymCmp]
  split_ifs <;> omega

theorem kextCmp_le {x y : Kext} : kextCmp x y ≤ 0 ↔
    (x.hasExec = y.hasExec ∧ x.addr ≤ y.addr) ∨ (x.hasExec = true ∧ y.hasExec = false) := by
  rw [kextCmp]
  cases x.hasExec <;> cases y.hasExec <;> simp <;> split_ifs <;> omega

/-- Where those that satisfy a predicate come first, they are in front of their number. -/
theorem take_countP {α : Type*} {p : α → Bool} {l : List α}
    (hl : l.Pairwise fun x y => p y → p x) : l.take (l.countP p) = l.filter p := by
  induction l with
  | nil => rfl
  | cons x l ih =>
    rw [List.pairwise_cons] at hl
    by_cases hx : p x
    · rw [List.countP_cons_of_pos hx, List.filter_cons_of_pos hx, List.take_succ_cons, ih hl.2]
    · have hnone : ∀ y ∈ x :: l, ¬ p y := by
        intro y hy hpy
        obtain rfl | hy := List.mem_cons.1 hy
        · exact hx hpy
        · exact hx (hl.1 y hy hpy)
      rw [List.countP_eq_zero.2 hnone, List.filter_eq_nil_iff.2 hnone, List.take_zero]

/-- What the tables of an accepted image satisfy. -/
structure Loaded (ks : Ksyms) : Prop where
  sym : ks.sym.Pairwise fun x y => x.value ≤ y.value
  kext : ks.kext.Pairwise fun x y => kextCmp x y ≤ 0
  count : ks.nkextExec = ks.kext.countP (·.hasExec)
  size : ∀ k ∈ ks.kext, k.hasExec → k.size ≠ 0
  detail : ks.detail = overlapWarning (ks.kext.take ks.nkextExec)

variable {qsort : Qsort} {memory : Bool} {img : List Byte} {ks : Ksyms}

theorem symtabLoad_ordered (hq : Sorts qsort) {m : Macho} {sym : List Ksym}
    (h : symtabLoad qsort memory img m = .ok sym) :
    sym.Pairwise fun x y => x.value ≤ y.value := by
  rw [symtabLoad] at h
  split at h
  · cases h
  · dsimp only at h
    split_ifs at h
    cases h
    refine (hq.ordered _ ksymCmp _ ?_ ?_).imp fun hle => ksymCmp_le.1 hle
    · intro x y
      rw [ksymCmp_le, ksymCmp_le]
      exact Nat.le_total _ _
    · intro x y z
      rw [ksymCmp_le, ksymCmp_le, ksymCmp_le]
      exact Nat.le_trans

/-- The extensions with code are counted, and none of them is empty. -/
def Counts (s : Scanner) : Prop :=
  s.nkextExec = s.kext.countP (·.hasExec) ∧ ∀ k ∈ s.kext, k.hasExec → k.size ≠ 0

section Scanning

variable {lo hi : Nat} {p after : List Byte} {t : Tag} {s s' : Scanner}

theorem fileKext_counts (hs : Counts s) (h : fileKext lo hi s = .ok s') : Counts s' := by
  rw [fileKext] at h
  dsimp only at h
  split_ifs at h
  cases h
  have hone : ∀ b : Bool, b.toNat = if b then 1 else 0 := by decide
  constructor
  · dsimp only
    rw [List.countP_append, hs.1, List.countP_singleton, hone]
  · intro k hk hexec
    obtain hk | rfl := (List.mem_append.1 hk).imp_right List.mem_singleton.1
    · exact hs.2 k hk hexec
    · simp only [Bool.and_eq_true, bne_iff_ne] at hexec
      exact hexec.2

theorem closeTag_counts (hs : Counts s) (h : closeTag lo hi t s = .ok s') : Counts s' := by
  have hstack : ∀ context, Counts { s with context } := fun _ => hs
  rw [closeTag] at h
  split at h
  · cases h
  · dsimp only at h
    split_ifs at h
    · exact fileKext_counts (hstack _) h
    · cases h
      exact hs

theorem scanOne_counts (hs : Counts s) (h : scanOne lo hi p s = .ok (s', after)) : Counts s' := by
  rw [scanOne] at h
  split_ifs at h
  · obtain ⟨r, -, h⟩ := bind_eq_ok.1 h
    cases h
    exact hs
  · obtain ⟨t, -, h⟩ := bind_eq_ok.1 h
    rw [scanTag] at h
    split_ifs at h
    · obtain ⟨s₁, hclose, h⟩ := bind_eq_ok.1 h
      cases h
      exact closeTag_counts hs hclose
    · obtain ⟨c, -, h⟩ := bind_eq_ok.1 h
      cases h
      exact hs

theorem scan_counts (hs : Counts s) (h : scan lo hi p s = .ok s') : Counts s' := by
  fun_induction scan lo hi p s with
  | case1 p s p' hp =>
    cases h
    exact hs
  | case2 p s p' hp e he => cases h
  | case3 p s p' hp s₁ after hone hlt ih => exact ih (scanOne_counts hs hone) h

end Scanning

theorem ordered_kextCmp (hq : Sorts qsort) (l : List Kext) :
    (qsort Kext kextCmp l).Pairwise fun x y => kextCmp x y ≤ 0 := by
  apply hq.ordered
  · intro x y
    rw [kextCmp_le, kextCmp_le]
    cases x.hasExec <;> cases y.hasExec <;> simp <;> omega
  · intro x y z
    rw [kextCmp_le, kextCmp_le, kextCmp_le]
    cases x.hasExec <;> cases y.hasExec <;> cases z.hasExec <;> simp <;> omega

theorem prelinkLoad_spec (hq : Sorts qsort) {m : Macho} {t : Prelink}
    (h : prelinkLoad qsort img m = .ok t) :
    (t.kext.Pairwise fun x y => kextCmp x y ≤ 0) ∧ t.nkextExec = t.kext.countP (·.hasExec) ∧
      (∀ k ∈ t.kext, k.hasExec → k.size ≠ 0) ∧
      t.detail = overlapWarning (t.kext.take t.nkextExec) := by
  rw [prelinkLoad] at h
  split at h
  · cases h
  · cases h
  · obtain ⟨s, hscan, h⟩ := bind_eq_ok.1 h
    split_ifs at h
    cases h
    have hcounts : Counts s := scan_counts ⟨rfl, fun k hk => absurd hk List.not_mem_nil⟩ hscan
    have hperm := hq.perm Kext kextCmp s.kext
    refine ⟨ordered_kextCmp hq _, ?_, ?_, rfl⟩
    · rw [hperm.countP_eq]
      exact hcounts.1
    · intro k hk
      exact hcounts.2 k (hperm.mem_iff.1 hk)

theorem ksymsLoad_loaded (hq : Sorts qsort) (h : ksymsLoad qsort memory img = .ok ks) :
    Loaded ks := by
  rw [ksymsLoad] at h
  split at h
  · cases h
  · split at h
    · rename_i hsym ht
      cases h
      obtain ⟨hkext, hcount, hsize, hdetail⟩ := prelinkLoad_spec hq ht
      exact ⟨symtabLoad_ordered hq hsym, hkext, hcount, hsize, hdetail⟩
    · cases h
    · cases h
    · cases h

/-! ### Extents -/

/-- The extension is one of those with code. -/
def Executable (ks : Ksyms) (k : Kext) : Prop := k ∈ ks.kext ∧ k.hasExec

/-- The address lies in the extent. -/
def Kext.Contains (k : Kext) (a : Nat) : Prop := k.addr ≤ a ∧ a < k.addr + k.size

theorem Loaded.mem_take (h : Loaded ks) {k : Kext} :
    k ∈ ks.kext.take ks.nkextExec ↔ Executable ks k := by
  have hfirst : ks.kext.Pairwise fun x y => y.hasExec → x.hasExec := by
    refine h.kext.imp fun {x y} hle hy => ?_
    obtain ⟨heq, -⟩ | ⟨hx, -⟩ := kextCmp_le.1 hle
    · rw [heq]
      exact hy
    · exact hx
  rw [h.count, take_countP hfirst, List.mem_filter]
  rfl

theorem Loaded.ordered (h : Loaded ks) :
    (ks.kext.take ks.nkextExec).Pairwise fun x y => x.addr ≤ y.addr := by
  refine (h.kext.sublist (List.take_sublist _ _)).imp_of_mem fun {x y} hx hy hle => ?_
  obtain ⟨-, haddr⟩ | ⟨-, hnot⟩ := kextCmp_le.1 hle
  · exact haddr
  · exact absurd (h.mem_take.1 hy).2 (by rw [hnot]; decide)

/-- The extent that is looked at is the last that starts at or before the address. -/
theorem Loaded.kextAt (h : Loaded ks) (addr : Word) :
    ((∀ k, Executable ks k → untagged addr < k.addr) ∧ ksymsKextAt ks addr = none) ∨
      ∃ k, Executable ks k ∧ k.addr ≤ untagged addr ∧
        (∀ k', Executable ks k' → k'.addr ≤ untagged addr → k'.addr ≤ k.addr) ∧
        ksymsKextAt ks addr = if untagged addr < k.addr + k.size then some k else none := by
  have hn : ks.nkextExec ≤ ks.kext.length := h.count ▸ List.countP_le_length
  have hlast := search_last (a := untagged addr) (d := {}) hn h.ordered
  rw [ksymsKextAt]
  dsimp only
  generalize search _ 0 ks.nkextExec = r at hlast ⊢
  cases r with
  | zero => exact .inl ⟨fun k hk => hlast k (h.mem_take.2 hk), rfl⟩
  | succ i =>
    obtain ⟨hmem, hle, hmax⟩ := hlast
    exact .inr ⟨_, h.mem_take.1 hmem, hle, fun k' hk' => hmax k' (h.mem_take.2 hk'), rfl⟩

/-- Without the warning no extent reaches into a later one. -/
theorem overlapWarning_eq_empty {l : List Kext} (h : overlapWarning l = "") :
    l.Pairwise fun a b => a.addr + a.size ≤ b.addr := by
  have htrans : IsTrans Kext fun a b => a.addr + a.size ≤ b.addr := ⟨fun a b c => by omega⟩
  rw [← List.isChain_iff_pairwise]
  fun_induction overlapWarning l with
  | case1 a b rest hlt => simp [String.append_eq_empty_iff] at h
  | case2 a b rest hlt ih => exact .cons_cons (Nat.le_of_not_lt hlt) (ih h)
  | case3 l hl =>
    match l with
    | [] => exact .nil
    | [a] => exact .singleton a
    | a :: b :: rest => exact absurd rfl (hl a b rest)

/-- No extent that starts later starts at or before the address. -/
def Clear (ks : Ksyms) (k : Kext) (a : Nat) : Prop :=
  ∀ k', Executable ks k' → k.addr ≤ k'.addr → k'.addr ≤ a → k' = k

theorem Loaded.clear (h : Loaded ks) (hdetail : ks.detail = "") {k : Kext} {a : Nat}
    (hk : Executable ks k) (ha : k.Contains a) : Clear ks k a := by
  intro k' hk' hle hle'
  have hapart := overlapWarning_eq_empty (h.detail.symm.trans hdetail)
  obtain ⟨i, hi, rfl⟩ := List.mem_iff_getElem.1 (h.mem_take.2 hk)
  obtain ⟨j, hj, rfl⟩ := List.mem_iff_getElem.1 (h.mem_take.2 hk')
  have hsize := h.size _ hk'.1 hk'.2
  have hpair := List.pairwise_iff_getElem.1 hapart
  obtain hlt | rfl | hlt := Nat.lt_trichotomy i j
  · have hij := hpair i j hi hj hlt
    have hin := ha.2
    omega
  · rfl
  · have hji := hpair j i hj hi hlt
    omega

/-! ### Symbols -/

/-- The text of a symbol and how far behind it an address is. -/
def nameAt (s : Ksym) (a : Nat) : List Byte :=
  if a - s.value ≠ 0 then plus s.name (a - s.value) else s.name

/-- A text names the greatest symbol that is not above an address, within the span, as far as there
is room for its name. -/
def Names (ks : Ksyms) (a bufsz : Nat) (r : Option (List Byte)) : Prop :=
  (∃ s ∈ ks.sym, s.value ≤ a ∧ a - s.value ≤ maxSymSpan ∧
    (∀ s' ∈ ks.sym, s'.value ≤ a → s'.value ≤ s.value) ∧ r = snprintf bufsz (nameAt s a)) ∨
  ((∀ s ∈ ks.sym, s.value ≤ a → maxSymSpan < a - s.value) ∧ r = snprintf bufsz (octets "?"))

/-- `ksyms_resolve`, with the symbol that is found. -/
theorem Loaded.names (h : Loaded ks) {addr : Word} {bufsz : Nat} (hnone : ksymsKextAt ks addr = none)
    (hout : ¬ (ks.prelinkLo ≤ untagged addr ∧ untagged addr < ks.prelinkHi)) :
    Names ks (untagged addr) bufsz (ksymsResolve ks addr bufsz) := by
  have hsym : (ks.sym.take ks.sym.length).Pairwise fun x y => x.value ≤ y.value := by
    rw [List.take_length]
    exact h.sym
  have hlast := search_last (f := Ksym.value) (a := untagged addr) (d := ⟨0, []⟩) (Nat.le_refl _) hsym
  rw [List.take_length] at hlast
  rw [ksymsResolve, hnone]
  dsimp only
  rw [if_neg fun hin => hout hin.2]
  generalize search _ 0 ks.sym.length = r at hlast ⊢
  cases r with
  | zero => exact .inr ⟨fun s hs hle => absurd hle (Nat.not_le.2 (hlast s hs)), rfl⟩
  | succ i =>
    obtain ⟨hmem, hle, hmax⟩ := hlast
    dsimp only
    split_ifs with hspan hzero
    · refine .inr ⟨fun s hs hsa => ?_, rfl⟩
      have hbelow := hmax s hs hsa
      omega
    · exact .inl ⟨_, hmem, hle, Nat.le_of_not_lt hspan, hmax, by rw [nameAt, if_pos hzero]⟩
    · exact .inl ⟨_, hmem, hle, Nat.le_of_not_lt hspan, hmax, by rw [nameAt, if_neg hzero]⟩

/-! ### Main results -/

/-- What an address is attributed to: only an extent that it lies in, and that extent wherever no
later one starts at or before the address, which is so for all of them where no overlap is reported.
What is printed for the address, as far as the buffer goes, is the name of that extension with the
offset in it; otherwise the offset in the region of the extensions; and outside of that region the
greatest symbol at or below the address. -/
structure Attributed (ks : Ksyms) (addr : Word) (bufsz : Nat) : Prop where
  sound : ∀ k, ksymsKextAt ks addr = some k → Executable ks k ∧ k.Contains (untagged addr)
  found : ∀ k, Executable ks k → k.Contains (untagged addr) → Clear ks k (untagged addr) →
    ksymsKextAt ks addr = some k
  exact : ks.detail = "" → ∀ k, ksymsKextAt ks addr = some k ↔
    Executable ks k ∧ k.Contains (untagged addr)
  extension : ∀ k, ksymsKextAt ks addr = some k →
    ksymsResolve ks addr bufsz = snprintf bufsz (plus k.bundle (untagged addr - k.addr))
  otherwise : ksymsKextAt ks addr = none →
    if ks.prelinkLo ≤ untagged addr ∧ untagged addr < ks.prelinkHi then
      ksymsResolve ks addr bufsz =
        snprintf bufsz (plus (octets "__PRELINK_TEXT") (untagged addr - ks.prelinkLo))
    else Names ks (untagged addr) bufsz (ksymsResolve ks addr bufsz)

/-- Of an image that is accepted, whatever sorts its tables, every address is attributed so, and
printed so into a buffer of any size. -/
theorem attribution (hq : Sorts qsort) (h : ksymsLoad qsort memory img = .ok ks) (addr : Word)
    (bufsz : Nat) : Attributed ks addr bufsz := by
  have hks := ksymsLoad_loaded hq h
  have hsound : ∀ k, ksymsKextAt ks addr = some k →
      Executable ks k ∧ k.Contains (untagged addr) := by
    intro k hk
    obtain ⟨-, hnone⟩ | ⟨k', hexec, hle, -, heq⟩ := hks.kextAt addr
    · rw [hnone] at hk
      cases hk
    · rw [heq] at hk
      split_ifs at hk with hlt
      cases hk
      exact ⟨hexec, hle, hlt⟩
  have hfound : ∀ k, Executable ks k → k.Contains (untagged addr) → Clear ks k (untagged addr) →
      ksymsKextAt ks addr = some k := by
    intro k hexec hin hclear
    obtain ⟨hnone, -⟩ | ⟨k', hexec', hle, hmax, heq⟩ := hks.kextAt addr
    · exact absurd hin.1 (Nat.not_le.2 (hnone k hexec))
    · obtain rfl := hclear k' hexec' (hmax k hexec hin.1) hle
      rw [heq, if_pos hin.2]
  refine ⟨hsound, hfound, fun hdetail k => ⟨hsound k, fun hk => ?_⟩, fun k hk => ?_, fun hnone => ?_⟩
  · exact hfound k hk.1 hk.2 (hks.clear hdetail hk.1 hk.2)
  · rw [ksymsResolve, hk]
  · split_ifs with hin
    · rw [ksymsResolve, hnone]
      exact if_pos ⟨by omega, hin⟩
    · exact hks.names hnone hin

/-- Words as they are in an image. -/
def words (l : List Nat) : List Byte := l.flatMap (LittleEndian.encode 4)

/-- A segment that has no sections. -/
def segmentCommand (name : String) (vmaddr vmsize fileoff filesize : Nat) : List Byte :=
  words [0x01, 56] ++ octets name ++ List.replicate (16 - name.length) 0 ++
    words [vmaddr, vmsize, fileoff, filesize, 0, 0, 0, 0]

/-- The dictionary of an extension. -/
def extension (bundle addr size : String) : String :=
  "<dict><key>CFBundleIdentifier</key><string>" ++ bundle ++
    "</string><key>_PrelinkExecutable</key><integer>" ++ addr ++
    "</integer><key>_PrelinkExecutableSize</key><integer>" ++ size ++ "</integer></dict>"

/-- An image with one symbol and those extensions. -/
def image (extensions : String) : List Byte :=
  let plist := octets ("<array>" ++ extensions ++ "</array>")
  words [0xfeedface, 12, 0, 2, 3, 136, 0] ++
    segmentCommand "__PRELINK_TEXT" 0x1000 0x1000 0 0 ++
    segmentCommand "__PRELINK_INFO" 0 plist.length 178 plist.length ++
    words [0x02, 24, 164, 1, 176, 2] ++ words [0, 0x0e, 0x800] ++ octets "k" ++ [0] ++ plist

/-- A `qsort`. -/
def insertionSorted : Qsort := fun _ cmp l => l.insertionSort fun x y => cmp x y ≤ 0

theorem sorts_insertionSorted : Sorts insertionSorted where
  perm _ _ l := List.perm_insertionSort _ l
  ordered _ cmp l htotal htrans :=
    have : Std.Total fun x y => cmp x y ≤ 0 := ⟨htotal⟩
    have : IsTrans _ fun x y => cmp x y ≤ 0 := ⟨htrans⟩
    List.pairwise_insertionSort _ l

/-- The image of an extension with another one in it. -/
def nested : List Byte := image (extension "a" "0x1000" "0x1000" ++ extension "b" "0x1100" "0x10")

theorem attribution_inner : ∃ ks, ksymsLoad insertionSorted true nested = .ok ks ∧
    Attributed ks 0x1105 192 := by
  have hloads : (ksymsLoad insertionSorted true nested).toOption.isSome := by decide +kernel
  cases hks : ksymsLoad insertionSorted true nested with
  | error e =>
    rw [hks] at hloads
    cases hloads
  | ok ks => exact ⟨ks, rfl, attribution sorts_insertionSorted hks 0x1105 192⟩

end S5LBox.Firmware.Symbols
