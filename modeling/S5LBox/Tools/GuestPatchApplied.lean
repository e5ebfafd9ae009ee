import S5LBox.Tools.GuestPatch
import Mathlib.Data.List.Find

/-!
# A manifest of patches is applied as a whole or not at all

What a manifest asks for is stated over the addresses of its bytes: each has a virtual address of
32 bits, and the mapping of the manifest takes it into the RAM. A manifest that can be applied is
one whose entries change something, share no byte, and expect what the RAM holds. The checks accept
exactly these; what is written afterwards lies in the entries alone, so that reading it back
succeeds.

## Main definitions

* `Applicable c ram m`: the manifest can be applied.
* `Patched c m ram ram'`: `ram'` is `ram` with the entries written.

## Main results

* `validate_ok`: what the checks accept.
* `patch_all_or_nothing`: what becomes of the RAM.
* `patch_reversible`: what was applied is taken back.
-/

namespace S5LBox.Tools.GuestPatch

/-! ### What is asked for -/

/-- The byte at the virtual address is mapped into the RAM. -/
structure Mapped (m : Manifest) (ramSize va : Nat) : Prop where
  address : va < guestAddressSpaceSize
  base : m.virtBase.toNat ≤ va
  inside : m.ramBase.toNat + (va - m.virtBase.toNat) < m.ramBase.toNat + ramSize

/-- The entry has a permitted length, lies in the RAM and changes something. -/
structure Fits (m : Manifest) (ramSize : Nat) (e : Entry) : Prop where
  pos : 0 < e.length.toNat
  le : e.length.toNat ≤ maxBytes
  mapped : ∀ k < e.length.toNat, Mapped m ramSize (e.virtualAddress.toNat + k)
  changes : ∃ k < e.length.toNat, byteAt e.expected k ≠ byteAt e.replacement k

/-- Where the entry lies in the RAM. -/
def offset (m : Manifest) (e : Entry) : Nat := e.virtualAddress.toNat - m.virtBase.toNat

/-- The entries share no address. -/
def Apart (e f : Entry) : Prop :=
  ∀ k < e.length.toNat, ∀ l < f.length.toNat,
    e.virtualAddress.toNat + k ≠ f.virtualAddress.toNat + l

/-- The manifest can be applied. -/
structure Applicable (c : Caller) (ram : List Byte) (m : Manifest) : Prop where
  manifest : c.manifest ram = some m
  hasRam : m.hasRam = true
  hasEntries : m.hasEntries = true
  nonempty : 0 < ram.length
  aperture : m.ramBase.toNat + ram.length ≤ guestAddressSpaceSize
  count_pos : 0 < m.entryCount
  count_le : m.entryCount ≤ maxEntries
  fits : ∀ i < m.entryCount, Fits m ram.length (c.entry ram i)
  apart : ∀ i < m.entryCount, ∀ j < m.entryCount, i ≠ j → Apart (c.entry ram i) (c.entry ram j)
  expected : ∀ i < m.entryCount, ∀ k < (c.entry ram i).length.toNat,
    ram[offset m (c.entry ram i) + k]? = some (byteAt (c.entry ram i).expected k)

/-- The RAM with the entries of the manifest written. -/
structure Patched (c : Caller) (m : Manifest) (ram ram' : List Byte) : Prop where
  length : ram'.length = ram.length
  inside : ∀ i < m.entryCount, ∀ k < (c.entry ram i).length.toNat,
    ram'[offset m (c.entry ram i) + k]? = some (byteAt (c.entry ram i).replacement k)
  outside : ∀ x, (∀ i < m.entryCount, ∀ k < (c.entry ram i).length.toNat,
    x ≠ offset m (c.entry ram i) + k) → ram'[x]? = ram[x]?

/-! ### No computation wraps -/

/-- The arithmetic of numbers. -/
abbrev plain : WordArith := ⟨(· + ·), (· - ·)⟩

/-- What is kept of an entry. -/
def planned (m : Manifest) (e : Entry) : PlanEntry where
  virtualAddress := e.virtualAddress.toNat
  physicalAddress := m.ramBase.toNat + offset m e
  ramOffset := offset m e
  length := e.length.toNat
  expected := e.expected
  replacement := e.replacement

variable {plan : List PlanEntry}

section Exact

variable {A : WordArith} (hA : A.Exact 64) {m : Manifest} {n : Nat}
include hA

theorem planEntry_exact (hn : m.ramBase.toNat + n ≤ guestAddressSpaceSize) (i : Nat) (e : Entry) :
    planEntry A m n i e = planEntry plain m n i e := by
  have hva := e.virtualAddress.isLt
  have hlen := e.length.isLt
  have hspace : guestAddressSpaceSize = 2 ^ 32 := rfl
  rw [planEntry, planEntry]
  dsimp only
  by_cases hlength : e.length.toNat = 0 ∨ maxBytes < e.length.toNat
  · rw [if_pos hlength, if_pos hlength]
  rw [if_neg hlength, if_neg hlength]
  by_cases hbase : e.virtualAddress.toNat < m.virtBase.toNat
  · rw [if_pos hbase, if_pos hbase]
  rw [if_neg hbase, if_neg hbase]
  have hend : A.add e.virtualAddress.toNat e.length.toNat = _ := hA.add (by omega)
  have hsub : A.sub e.virtualAddress.toNat m.virtBase.toNat = _ := hA.sub (by omega) (by omega)
  have hpa : A.add m.ramBase.toNat (e.virtualAddress.toNat - m.virtBase.toNat) = _ :=
    hA.add (by omega)
  have hpaEnd : A.add (m.ramBase.toNat + (e.virtualAddress.toNat - m.virtBase.toNat))
      e.length.toNat = _ := hA.add (by omega)
  have hram : A.add m.ramBase.toNat n = _ := hA.add (by omega)
  have hoff : A.sub (m.ramBase.toNat + (e.virtualAddress.toNat - m.virtBase.toNat))
      m.ramBase.toNat = _ := hA.sub (by omega) (by omega)
  rw [hend, hsub, hpa, hpaEnd, hram, hoff]
  -- what is left of `A` names the byte that fails
  split_ifs <;> simp (disch := omega) only [hA.add, hA.sub]

theorem buildPlan_exact (hn : m.ramBase.toNat + n ≤ guestAddressSpaceSize) (entry : Nat → Entry)
    (i k : Nat) : buildPlan A m n entry i k = buildPlan plain m n entry i k := by
  induction k generalizing i with
  | zero => rfl
  | succ k ih => rw [buildPlan, buildPlan, planEntry_exact hA hn, ih]

/-- The addresses of an entry of the plan are small. -/
structure Small (p : PlanEntry) : Prop where
  virtual : p.virtualAddress < 2 ^ 32
  physical : p.physicalAddress < 2 ^ 33
  length : p.length < 2 ^ 32

theorem overlaps_exact {p q : PlanEntry} (hp : Small p) (hq : Small q) :
    overlaps A p q ↔ overlaps plain p q := by
  have hp₁ := hp.virtual
  have hp₂ := hp.length
  have hq₁ := hq.virtual
  have hq₂ := hq.length
  rw [overlaps, overlaps, hA.add (by omega), hA.add (by omega)]

theorem checkPairs_exact {before plan : List PlanEntry} (hbefore : ∀ p ∈ before, Small p)
    (hplan : ∀ p ∈ plan, Small p) (i : Nat) :
    checkPairs A before i plan = checkPairs plain before i plan := by
  induction plan generalizing before i with
  | nil => rfl
  | cons p ps ih =>
    obtain ⟨hp, hps⟩ := List.forall_mem_cons.1 hplan
    have hfind : (before.find? fun q => overlaps A p q) =
        before.find? fun q => overlaps plain p q :=
      List.find?_congr fun q hq => decide_eq_decide.2 (overlaps_exact hA hp (hbefore q hq))
    rw [checkPairs, checkPairs, hfind]
    cases hfound : before.find? fun q => overlaps plain p q with
    | none =>
      refine ih (fun q hq => ?_) hps (i + 1)
      rcases List.mem_append.1 hq with hq | hq
      · exact hbefore q hq
      · exact List.mem_singleton.1 hq ▸ hp
    | some q =>
      have hq := hbefore q (List.mem_of_find?_eq_some hfound)
      have hp₁ := hp.virtual
      have hp₂ := hp.physical
      have hq₁ := hq.virtual
      simp (disch := omega) only [hA.add, hA.sub]

theorem checkBytes_exact (bytes : PlanEntry → Vector Byte maxBytes) (status : Status)
    (ram : List Byte) (hplan : ∀ p ∈ plan, Small p) (i : Nat) :
    checkBytes A bytes status ram i plan = checkBytes plain bytes status ram i plan := by
  induction plan generalizing i with
  | nil => rfl
  | cons p ps ih =>
    obtain ⟨hp, hps⟩ := List.forall_mem_cons.1 hplan
    rw [checkBytes, checkBytes]
    cases hfound : mismatch bytes ram p with
    | none => exact ih hps (i + 1)
    | some k =>
      have hk : k < p.length := List.mem_range.1 (List.mem_of_find?_eq_some hfound)
      have hp₁ := hp.virtual
      have hp₂ := hp.physical
      have hp₃ := hp.length
      simp (disch := omega) only [hA.add]

end Exact

/-! ### What the checks accept -/

variable {p : PlanEntry}

section Checks

variable {m : Manifest} {n : Nat}

theorem entryChangesBytes_iff (e : Entry) : entryChangesBytes e = true ↔
    ∃ k < e.length.toNat, byteAt e.expected k ≠ byteAt e.replacement k := by
  simp [entryChangesBytes]

/-- An entry is kept exactly if it fits. -/
theorem planEntry_ok (hn : m.ramBase.toNat + n ≤ guestAddressSpaceSize) {i : Nat} {e : Entry} :
    planEntry plain m n i e = .ok p ↔ Fits m n e ∧ p = planned m e := by
  have hspace : guestAddressSpaceSize = 2 ^ 32 := rfl
  constructor
  · intro h
    rw [planEntry] at h
    dsimp only at h
    split_ifs at h with hlength hbase hover hphys hram hchange
    obtain rfl := Except.ok.inj h
    refine ⟨⟨by omega, by omega, fun k hk => ⟨by omega, by omega, by omega⟩, ?_⟩, ?_⟩
    · exact (entryChangesBytes_iff e).1 (Bool.not_eq_false _ ▸ hchange)
    · rw [planned, offset, Nat.add_sub_cancel_left]
  · rintro ⟨⟨hpos, hle, hmapped, hchanges⟩, rfl⟩
    have hfirst := hmapped 0 hpos
    have hlast := hmapped (e.length.toNat - 1) (by omega)
    have h₁ := hfirst.base
    have h₂ := hlast.address
    have h₃ := hlast.inside
    have hchange : ¬entryChangesBytes e = false :=
      Bool.not_eq_false _ ▸ (entryChangesBytes_iff e).2 hchanges
    rw [planEntry]
    dsimp only
    rw [if_neg (by omega), if_neg (by omega), if_neg (by omega), if_neg (by omega),
      if_neg (by omega), if_neg hchange, Nat.add_sub_cancel_left]
    rfl

theorem buildPlan_ok (hn : m.ramBase.toNat + n ≤ guestAddressSpaceSize) {entry : Nat → Entry}
    {i k : Nat} : buildPlan plain m n entry i k = .ok plan ↔
      (∀ j < k, Fits m n (entry (i + j))) ∧
        plan = (List.range k).map fun j => planned m (entry (i + j)) := by
  induction k generalizing i plan with
  | zero =>
    rw [buildPlan, Except.ok.injEq]
    exact ⟨fun h => ⟨fun j hj => absurd hj (Nat.not_lt_zero j), h.symm⟩, fun h => h.2.symm⟩
  | succ k ih =>
    have hshift (j : Nat) : i + (j + 1) = i + 1 + j := by omega
    have hmap : ((List.range k).map fun j => planned m (entry (i + (j + 1)))) =
        (List.range k).map fun j => planned m (entry (i + 1 + j)) :=
      List.map_congr_left fun j _ => congrArg (fun x => planned m (entry x)) (hshift j)
    have hall : (∀ j < k + 1, Fits m n (entry (i + j))) ↔
        Fits m n (entry i) ∧ ∀ j < k, Fits m n (entry (i + 1 + j)) := by
      rw [Nat.forall_lt_succ_left]
      exact and_congr Iff.rfl (forall₂_congr fun j _ => by rw [hshift])
    rw [buildPlan, List.range_succ_eq_map, List.map_cons, List.map_map, hall]
    change _ ↔ _ ∧ plan = planned m (entry i) ::
      (List.range k).map fun j => planned m (entry (i + (j + 1)))
    rw [hmap]
    constructor
    · intro h
      cases hp : planEntry plain m n i (entry i) with
      | error r => exact absurd (hp ▸ h) nofun
      | ok p =>
        cases hps : buildPlan plain m n entry (i + 1) k with
        | error r => exact absurd (hp ▸ hps ▸ h) nofun
        | ok ps =>
          simp only [hp, hps] at h
          obtain ⟨hfit, rfl⟩ := (planEntry_ok hn).1 hp
          obtain ⟨hfits, rfl⟩ := ih.1 hps
          exact ⟨⟨hfit, hfits⟩, (Except.ok.inj h).symm⟩
    · rintro ⟨⟨hfit, hfits⟩, rfl⟩
      rw [(planEntry_ok hn).2 ⟨hfit, rfl⟩, ih.2 ⟨hfits, rfl⟩]

theorem small_of_buildPlan (hn : m.ramBase.toNat + n ≤ guestAddressSpaceSize) {entry : Nat → Entry}
    {k : Nat} (h : buildPlan plain m n entry 0 k = .ok plan) : ∀ p ∈ plan, Small p := by
  have hspace : guestAddressSpaceSize = 2 ^ 32 := rfl
  obtain ⟨hfits, rfl⟩ := (buildPlan_ok hn).1 h
  intro p hp
  obtain ⟨j, hj, rfl⟩ := List.mem_map.1 hp
  have hva := (entry (0 + j)).virtualAddress.isLt
  have hlen := (entry (0 + j)).length.isLt
  refine ⟨hva, ?_, hlen⟩
  dsimp only [planned, offset]
  omega

theorem checkPairs_ok {before plan : List PlanEntry} {i : Nat}
    (hbefore : before.Pairwise fun p q => ¬overlaps plain q p) :
    checkPairs plain before i plan = .ok () ↔
      (before ++ plan).Pairwise fun p q => ¬overlaps plain q p := by
  induction plan generalizing before i with
  | nil =>
    rw [List.append_nil]
    exact ⟨fun _ => hbefore, fun _ => rfl⟩
  | cons p ps ih =>
    have hsplit : before ++ p :: ps = before ++ [p] ++ ps := by
      rw [List.append_assoc, List.singleton_append]
    rw [checkPairs, hsplit]
    cases hfound : before.find? fun q => overlaps plain p q with
    | some q =>
      refine ⟨fun h => absurd h nofun, fun h => ?_⟩
      have hq := List.mem_of_find?_eq_some hfound
      have hsome := List.find?_some hfound
      have hover : overlaps plain p q := of_decide_eq_true hsome
      have hpair := (List.pairwise_append.1 (List.pairwise_append.1 h).1).2.2
      exact absurd hover (hpair q hq p (List.mem_singleton_self p))
    | none =>
      refine ih (List.pairwise_append.2 ⟨hbefore, List.pairwise_singleton _ _, ?_⟩)
      intro q hq p' hp'
      obtain rfl := List.mem_singleton.1 hp'
      exact of_decide_eq_false (Bool.not_eq_true _ ▸ List.find?_eq_none.1 hfound q hq)

theorem mismatch_none {bytes : PlanEntry → Vector Byte maxBytes} {ram : List Byte}
    (hp : p.ramOffset + p.length ≤ ram.length) : mismatch bytes ram p = none ↔
      ∀ k < p.length, ram[p.ramOffset + k]? = some (byteAt (bytes p) k) := by
  rw [mismatch, List.find?_eq_none]
  refine ⟨fun h k hk => ?_, fun h k hk => ?_⟩
  · have heq := h k (List.mem_range.2 hk)
    rw [decide_not, Bool.not_eq_true, Bool.not_eq_false', decide_eq_true_eq] at heq
    rw [← heq, List.getD_eq_getElem?_getD, List.getElem?_eq_getElem (by omega), Option.getD_some]
  · rw [List.getD_eq_getElem?_getD, h k (List.mem_range.1 hk)]
    simp

theorem checkBytes_ok {bytes : PlanEntry → Vector Byte maxBytes} {status : Status} {ram : List Byte}
    {i : Nat} (hplan : ∀ p ∈ plan, p.ramOffset + p.length ≤ ram.length) :
    checkBytes plain bytes status ram i plan = .ok () ↔
      ∀ p ∈ plan, ∀ k < p.length, ram[p.ramOffset + k]? = some (byteAt (bytes p) k) := by
  induction plan generalizing i with
  | nil => exact ⟨fun _ p hp => absurd hp List.not_mem_nil, fun _ => rfl⟩
  | cons p ps ih =>
    obtain ⟨hp, hps⟩ := List.forall_mem_cons.1 hplan
    rw [checkBytes, List.forall_mem_cons, ← mismatch_none hp, ← ih hps]
    cases mismatch bytes ram p with
    | none => exact ⟨fun h => ⟨rfl, h⟩, fun h => h.2⟩
    | some k => exact ⟨fun h => absurd h nofun, fun h => absurd h.1 nofun⟩

end Checks

/-! ### What is written -/

section Store

variable {bytes : PlanEntry → Vector Byte maxBytes} {ram : List Byte}

/-- The first `n` bytes of an entry written. -/
theorem length_written (p : PlanEntry) (n : Nat) :
    ((List.range n).foldl
      (fun ram k => ram.set (p.ramOffset + k) (byteAt (bytes p) k)) ram).length = ram.length := by
  induction n with
  | zero => rfl
  | succ n ih =>
    rw [List.range_succ, List.foldl_append, List.foldl_cons, List.foldl_nil, List.length_set, ih]

theorem length_storeEntry : (storeEntry bytes ram p).length = ram.length :=
  length_written p p.length

theorem getElem?_written (x : Nat) {n : Nat} (hn : p.ramOffset + n ≤ ram.length) :
    ((List.range n).foldl
      (fun ram k => ram.set (p.ramOffset + k) (byteAt (bytes p) k)) ram)[x]? =
      if p.ramOffset ≤ x ∧ x < p.ramOffset + n then some (byteAt (bytes p) (x - p.ramOffset))
      else ram[x]? := by
  induction n with
  | zero =>
    rw [if_neg (by omega)]
    rfl
  | succ n ih =>
    rw [List.range_succ, List.foldl_append, List.foldl_cons, List.foldl_nil,
      List.getElem?_set, ih (by omega), length_written]
    by_cases hx : p.ramOffset + n = x
    · rw [if_pos hx, if_pos (by omega), if_pos (by omega), ← hx, Nat.add_sub_cancel_left]
    · rw [if_neg hx]
      exact if_congr (by omega) rfl rfl

theorem getElem?_storeEntry (hp : p.ramOffset + p.length ≤ ram.length) (x : Nat) :
    (storeEntry bytes ram p)[x]? = if p.ramOffset ≤ x ∧ x < p.ramOffset + p.length
      then some (byteAt (bytes p) (x - p.ramOffset)) else ram[x]? :=
  getElem?_written x hp

theorem length_store (plan : List PlanEntry) : (store bytes ram plan).length = ram.length := by
  induction plan generalizing ram with
  | nil => rfl
  | cons p ps ih => exact Eq.trans ih length_storeEntry

/-- What lies in no entry is left alone. -/
theorem getElem?_store_outside {x : Nat} (hplan : ∀ p ∈ plan, p.ramOffset + p.length ≤ ram.length)
    (hx : ∀ p ∈ plan, ¬(p.ramOffset ≤ x ∧ x < p.ramOffset + p.length)) :
    (store bytes ram plan)[x]? = ram[x]? := by
  induction plan generalizing ram with
  | nil => rfl
  | cons p ps ih =>
    obtain ⟨hp, hps⟩ := List.forall_mem_cons.1 hplan
    obtain ⟨hxp, hxs⟩ := List.forall_mem_cons.1 hx
    have hrest : (store bytes (storeEntry bytes ram p) ps)[x]? = (storeEntry bytes ram p)[x]? :=
      ih (fun q hq => by
        rw [length_storeEntry]
        exact hps q hq) hxs
    exact hrest.trans ((getElem?_storeEntry hp x).trans (if_neg hxp))

/-- No two entries of the plan share a byte of the RAM. -/
def Separate (p q : PlanEntry) : Prop :=
  p.ramOffset + p.length ≤ q.ramOffset ∨ q.ramOffset + q.length ≤ p.ramOffset

/-- What lies in an entry is its byte. -/
theorem getElem?_store_inside {k : Nat} (hplan : ∀ p ∈ plan, p.ramOffset + p.length ≤ ram.length)
    (hsep : plan.Pairwise Separate) (hp : p ∈ plan) (hk : k < p.length) :
    (store bytes ram plan)[p.ramOffset + k]? = some (byteAt (bytes p) k) := by
  induction plan generalizing ram with
  | nil => exact absurd hp List.not_mem_nil
  | cons q qs ih =>
    obtain ⟨hq, hqs⟩ := List.forall_mem_cons.1 hplan
    obtain ⟨hsepq, hseps⟩ := List.pairwise_cons.1 hsep
    have hqs' : ∀ p ∈ qs, p.ramOffset + p.length ≤ (storeEntry bytes ram q).length := by
      rw [length_storeEntry]
      exact hqs
    rcases List.mem_cons.1 hp with rfl | hp
    · have hout : ∀ q ∈ qs,
          ¬(q.ramOffset ≤ p.ramOffset + k ∧ p.ramOffset + k < q.ramOffset + q.length) := by
        intro q hq hin
        have hdisj := hsepq q hq
        rw [Separate] at hdisj
        omega
      have hrest : (store bytes (storeEntry bytes ram p) qs)[p.ramOffset + k]? =
          (storeEntry bytes ram p)[p.ramOffset + k]? := getElem?_store_outside hqs' hout
      refine hrest.trans ((getElem?_storeEntry hq _).trans ?_)
      rw [if_pos (by omega), Nat.add_sub_cancel_left]
    · exact ih hqs' hseps hp

end Store

/-! ### The whole -/

theorem overlaps_planned (m : Manifest) {e f : Entry} (he : 0 < e.length.toNat)
    (hf : 0 < f.length.toNat) :
    ¬overlaps plain (planned m f) (planned m e) ↔ Apart e f := by
  rw [overlaps, Apart]
  dsimp only [planned, plain]
  constructor
  · intro h k hk l hl heq
    omega
  · rintro h ⟨hfe, hef⟩
    rcases Nat.le_total e.virtualAddress.toNat f.virtualAddress.toNat with hle | hle
    · exact h (f.virtualAddress.toNat - e.virtualAddress.toNat) (by omega) 0 hf (by omega)
    · exact h 0 he (e.virtualAddress.toNat - f.virtualAddress.toNat) (by omega) (by omega)

theorem Apart.symm {e f : Entry} (h : Apart e f) : Apart f e :=
  fun k hk l hl heq => h l hl k hk heq.symm

theorem Fits.inside {m : Manifest} {n : Nat} {e : Entry} (h : Fits m n e) :
    m.virtBase.toNat ≤ e.virtualAddress.toNat ∧ offset m e + e.length.toNat ≤ n := by
  have hpos := h.pos
  have hfirst := (h.mapped 0 hpos).base
  have hlast := (h.mapped (e.length.toNat - 1) (by omega)).inside
  rw [offset]
  omega

/-- The plan of a manifest. -/
def planOf (c : Caller) (ram : List Byte) (m : Manifest) : List PlanEntry :=
  (List.range m.entryCount).map fun j => planned m (c.entry ram j)

theorem mem_planOf {c : Caller} {ram : List Byte} {m : Manifest} :
    p ∈ planOf c ram m ↔ ∃ j < m.entryCount, p = planned m (c.entry ram j) := by
  rw [planOf, List.mem_map]
  exact exists_congr fun j => and_congr List.mem_range eq_comm

theorem pairwise_planOf {c : Caller} {ram : List Byte} {m : Manifest}
    {R : PlanEntry → PlanEntry → Prop} : (planOf c ram m).Pairwise R ↔
      ∀ i j, i < j → j < m.entryCount →
        R (planned m (c.entry ram i)) (planned m (c.entry ram j)) := by
  rw [planOf, List.pairwise_map, List.pairwise_iff_getElem]
  simp only [List.length_range, List.getElem_range]
  exact ⟨fun h i j hij hj => h i j (by omega) hj hij, fun h i j _ hj hij => h i j hij hj⟩

section Whole

variable {c : Caller} {ram : List Byte} {m : Manifest}

theorem Applicable.inside (h : Applicable c ram m) :
    ∀ p ∈ planOf c ram m, p.ramOffset + p.length ≤ ram.length := by
  intro p hp
  obtain ⟨j, hj, rfl⟩ := mem_planOf.1 hp
  exact (h.fits j hj).inside.2

theorem Applicable.separate (h : Applicable c ram m) : (planOf c ram m).Pairwise Separate := by
  refine pairwise_planOf.2 fun i j hij hj => ?_
  have hi := h.fits i (hij.trans hj)
  have hj' := h.fits j hj
  have hi₁ := hi.inside.1
  have hj₁ := hj'.inside.1
  have hapart := (overlaps_planned m hi.pos hj'.pos).2 (h.apart i (hij.trans hj) j hj hij.ne)
  rw [overlaps] at hapart
  rw [Separate]
  dsimp only [planned, offset, plain] at hapart ⊢
  omega

theorem pairs_iff (hfits : ∀ i < m.entryCount, Fits m ram.length (c.entry ram i)) :
    checkPairs plain [] 0 (planOf c ram m) = .ok () ↔
      ∀ i < m.entryCount, ∀ j < m.entryCount, i ≠ j → Apart (c.entry ram i) (c.entry ram j) := by
  rw [checkPairs_ok List.Pairwise.nil, List.nil_append, pairwise_planOf]
  have hpos (i : Nat) (hi : i < m.entryCount) := (hfits i hi).pos
  constructor
  · intro h i hi j hj hij
    rcases Nat.lt_or_gt_of_ne hij with hlt | hlt
    · exact (overlaps_planned m (hpos i hi) (hpos j hj)).1 (h i j hlt hj)
    · exact ((overlaps_planned m (hpos j hj) (hpos i hi)).1 (h j i hlt hi)).symm
  · intro h i j hij hj
    have hi := hij.trans hj
    exact (overlaps_planned m (hpos i hi) (hpos j hj)).2 (h i hi j hj hij.ne)

theorem bytes_iff {bytes : PlanEntry → Vector Byte maxBytes} {status : Status} {ram' : List Byte}
    (hlen : ram'.length = ram.length)
    (hfits : ∀ i < m.entryCount, Fits m ram.length (c.entry ram i)) :
    checkBytes plain bytes status ram' 0 (planOf c ram m) = .ok () ↔
      ∀ i < m.entryCount, ∀ k < (c.entry ram i).length.toNat,
        ram'[offset m (c.entry ram i) + k]? =
          some (byteAt (bytes (planned m (c.entry ram i))) k) := by
  have hinside : ∀ p ∈ planOf c ram m, p.ramOffset + p.length ≤ ram'.length := by
    intro p hp
    obtain ⟨j, hj, rfl⟩ := mem_planOf.1 hp
    exact hlen ▸ (hfits j hj).inside.2
  rw [checkBytes_ok hinside]
  constructor
  · exact fun h i hi => h _ (mem_planOf.2 ⟨i, hi, rfl⟩)
  · intro h p hp
    obtain ⟨j, hj, rfl⟩ := mem_planOf.1 hp
    exact h j hj

/-- The checks accept what can be applied. -/
theorem validate_ok : validate plain c ram = .ok plan ↔
    ∃ m, Applicable c ram m ∧ plan = planOf c ram m := by
  constructor
  · intro h
    rw [validate] at h
    cases hm : c.manifest ram with
    | none => exact absurd (hm ▸ h) nofun
    | some m =>
      simp only [hm] at h
      split_ifs at h with hnull hgeom hcount
      have hn : m.ramBase.toNat + ram.length ≤ guestAddressSpaceSize := by omega
      cases hbuild : buildPlan plain m ram.length (c.entry ram) 0 m.entryCount with
      | error r => exact absurd (hbuild ▸ h) nofun
      | ok plan' =>
        simp only [hbuild] at h
        obtain ⟨hfits, hplan⟩ := (buildPlan_ok hn).1 hbuild
        simp only [Nat.zero_add] at hfits hplan
        obtain rfl : plan' = planOf c ram m := hplan
        cases hpairs : checkPairs plain [] 0 (planOf c ram m) with
        | error r => exact absurd (hpairs ▸ h) nofun
        | ok =>
          simp only [hpairs] at h
          cases hbytes : checkBytes plain PlanEntry.expected .expectedMismatch ram 0
              (planOf c ram m) with
          | error r => exact absurd (hbytes ▸ h) nofun
          | ok =>
            simp only [hbytes] at h
            refine ⟨m, ⟨hm, ?_, ?_, by omega, hn, by omega, by omega, hfits,
              (pairs_iff hfits).1 hpairs, (bytes_iff rfl hfits).1 hbytes⟩,
              (Except.ok.inj h).symm⟩
            · exact Bool.not_eq_false _ ▸ fun hf => hnull (.inl hf)
            · exact Bool.not_eq_false _ ▸ fun hf => hnull (.inr hf)
  · rintro ⟨m, h, rfl⟩
    have h₁ := h.nonempty
    have h₂ := h.aperture
    have h₃ := h.count_pos
    have h₄ := h.count_le
    have hspace : guestAddressSpaceSize = 2 ^ 32 := rfl
    have hbuild : buildPlan plain m ram.length (c.entry ram) 0 m.entryCount =
        .ok (planOf c ram m) := by
      refine (buildPlan_ok h₂).2 ?_
      simp only [Nat.zero_add]
      exact ⟨h.fits, rfl⟩
    rw [validate, h.manifest]
    dsimp only
    rw [if_neg (by rw [h.hasRam, h.hasEntries]; decide), if_neg (by omega), if_neg (by omega),
      hbuild]
    dsimp only
    rw [(pairs_iff h.fits).2 h.apart]
    dsimp only
    rw [(bytes_iff rfl h.fits).2 h.expected]

theorem validate_exact {A : WordArith} (hA : A.Exact 64) :
    validate A c ram = validate plain c ram := by
  have hspace : guestAddressSpaceSize = 2 ^ 32 := rfl
  rw [validate, validate]
  cases c.manifest ram with
  | none => rfl
  | some m =>
    dsimp only
    by_cases hnull : m.hasRam = false ∨ m.hasEntries = false
    · rw [if_pos hnull, if_pos hnull]
    rw [if_neg hnull, if_neg hnull]
    have hgeom : (ram.length = 0 ∨ guestAddressSpaceSize ≤ m.ramBase.toNat ∨
          A.sub guestAddressSpaceSize m.ramBase.toNat < ram.length) ↔
        (ram.length = 0 ∨ guestAddressSpaceSize ≤ m.ramBase.toNat ∨
          guestAddressSpaceSize - m.ramBase.toNat < ram.length) := by
      by_cases hbase : guestAddressSpaceSize ≤ m.ramBase.toNat
      · exact ⟨fun _ => .inr (.inl hbase), fun _ => .inr (.inl hbase)⟩
      · rw [hA.sub (by omega) (by omega)]
    rw [if_congr hgeom rfl rfl]
    by_cases hg : ram.length = 0 ∨ guestAddressSpaceSize ≤ m.ramBase.toNat ∨
        guestAddressSpaceSize - m.ramBase.toNat < ram.length
    · rw [if_pos hg, if_pos hg]
    rw [if_neg hg, if_neg hg]
    have hn : m.ramBase.toNat + ram.length ≤ guestAddressSpaceSize := by omega
    rw [buildPlan_exact hA hn]
    cases hbuild : buildPlan plain m ram.length (c.entry ram) 0 m.entryCount with
    | error r => rfl
    | ok plan =>
      have hsmall := small_of_buildPlan hn hbuild
      dsimp only
      rw [checkPairs_exact hA (fun p hp => absurd hp List.not_mem_nil) hsmall,
        checkBytes_exact hA _ _ _ hsmall]

end Whole

/-! ### Refusals say why -/

section Refusals

variable {A : WordArith} {r : Report}

theorem planEntry_error {m : Manifest} {n i : Nat} {e : Entry}
    (h : planEntry A m n i e = .error r) : r.status ≠ .ok := by
  rw [planEntry] at h
  dsimp only at h
  split_ifs at h <;> exact Except.error.inj h ▸ nofun

theorem buildPlan_error {m : Manifest} {n i k : Nat} {entry : Nat → Entry}
    (h : buildPlan A m n entry i k = .error r) : r.status ≠ .ok := by
  induction k generalizing i with
  | zero => exact absurd h nofun
  | succ k ih =>
    rw [buildPlan] at h
    cases hp : planEntry A m n i (entry i) with
    | error r' => exact planEntry_error (hp.trans (congrArg _ (Except.error.inj (hp ▸ h))))
    | ok p =>
      simp only [hp] at h
      cases hps : buildPlan A m n entry (i + 1) k with
      | error r' => exact ih (hps.trans (congrArg _ (Except.error.inj (hps ▸ h))))
      | ok ps => exact absurd (hps ▸ h) nofun

theorem checkPairs_error {before plan : List PlanEntry} {i : Nat}
    (h : checkPairs A before i plan = .error r) : r.status ≠ .ok := by
  induction plan generalizing before i with
  | nil => exact absurd h nofun
  | cons p ps ih =>
    rw [checkPairs] at h
    cases hq : before.find? fun q => overlaps A p q with
    | none => exact ih (hq ▸ h)
    | some q =>
      simp only [hq] at h
      exact Except.error.inj h ▸ nofun

theorem checkBytes_error {bytes : PlanEntry → Vector Byte maxBytes} {status : Status}
    (hstatus : status ≠ .ok) {ram : List Byte} {i : Nat}
    (h : checkBytes A bytes status ram i plan = .error r) : r.status ≠ .ok := by
  induction plan generalizing i with
  | nil => exact absurd h nofun
  | cons p ps ih =>
    rw [checkBytes] at h
    cases hk : mismatch bytes ram p with
    | none => exact ih (hk ▸ h)
    | some k =>
      simp only [hk] at h
      exact Except.error.inj h ▸ hstatus

theorem validate_error {c : Caller} {ram : List Byte} (h : validate A c ram = .error r) :
    r.status ≠ .ok := by
  rw [validate] at h
  cases hm : c.manifest ram with
  | none =>
    simp only [hm] at h
    exact Except.error.inj h ▸ nofun
  | some m =>
    simp only [hm] at h
    split_ifs at h with hnull hgeom hcount
    · exact Except.error.inj h ▸ nofun
    · exact Except.error.inj h ▸ nofun
    · exact Except.error.inj h ▸ nofun
    · cases hbuild : buildPlan A m ram.length (c.entry ram) 0 m.entryCount with
      | error r' =>
        exact buildPlan_error (hbuild.trans (congrArg _ (Except.error.inj (hbuild ▸ h))))
      | ok plan =>
        simp only [hbuild] at h
        cases hpairs : checkPairs A [] 0 plan with
        | error r' =>
          exact checkPairs_error (hpairs.trans (congrArg _ (Except.error.inj (hpairs ▸ h))))
        | ok =>
          simp only [hpairs] at h
          cases hbytes : checkBytes A PlanEntry.expected .expectedMismatch ram 0 plan with
          | error r' =>
            have hne : Status.expectedMismatch ≠ .ok := nofun
            exact checkBytes_error hne
              (hbytes.trans (congrArg _ (Except.error.inj (hbytes ▸ h))))
          | ok => exact absurd (hbytes ▸ h) nofun

end Refusals

section Applied

variable {c : Caller} {ram : List Byte} {m : Manifest}

/-- The entries are written, and nothing else. -/
theorem patched_of_applicable (h : Applicable c ram m) :
    Patched c m ram (store PlanEntry.replacement ram (planOf c ram m)) where
  length := length_store _
  inside i hi k hk :=
    getElem?_store_inside h.inside h.separate (mem_planOf.2 ⟨i, hi, rfl⟩) hk
  outside x hx := by
    refine getElem?_store_outside h.inside fun p hp hin => ?_
    obtain ⟨j, hj, rfl⟩ := mem_planOf.1 hp
    dsimp only [planned] at hin
    exact hx j hj (x - offset m (c.entry ram j)) (by omega) (by omega)

/-- What can be applied is applied: reading back what has been written finds it. -/
theorem apply_of_applicable (h : Applicable c ram m) : guestPatchApply plain true c ram =
    ({ status := .ok }, store PlanEntry.replacement ram (planOf c ram m)) := by
  have hverify : checkBytes plain PlanEntry.replacement .verifyMismatch
      (store PlanEntry.replacement ram (planOf c ram m)) 0 (planOf c ram m) = .ok () :=
    (bytes_iff (length_store (planOf c ram m)) h.fits).2 (patched_of_applicable h).inside
  rw [guestPatchApply, if_neg (by decide), validate_ok.2 ⟨m, h, rfl⟩]
  dsimp only
  rw [hverify]

theorem apply_of_not_applicable (h : ∀ m, ¬Applicable c ram m) {hasReport : Bool} :
    (guestPatchApply plain hasReport c ram).1.status ≠ .ok ∧
      (guestPatchApply plain hasReport c ram).2 = ram := by
  rw [guestPatchApply]
  cases hasReport with
  | false => exact ⟨nofun, rfl⟩
  | true =>
    cases hv : validate plain c ram with
    | error r => exact ⟨validate_error hv, rfl⟩
    | ok plan =>
      obtain ⟨m, hm, -⟩ := validate_ok.1 hv
      exact absurd hm (h m)

theorem apply_exact {A : WordArith} (hA : A.Exact 64) (hasReport : Bool) :
    guestPatchApply A hasReport c ram = guestPatchApply plain hasReport c ram := by
  rw [guestPatchApply, guestPatchApply]
  cases hasReport with
  | false => rfl
  | true =>
    rw [if_neg (by decide), if_neg (by decide), validate_exact hA]
    cases hv : validate plain c ram with
    | error r => rfl
    | ok plan =>
      obtain ⟨m, h, rfl⟩ := validate_ok.1 hv
      have hsmall : ∀ p ∈ planOf c ram m, Small p := by
        intro p hp
        obtain ⟨j, hj, rfl⟩ := mem_planOf.1 hp
        have hspace : guestAddressSpaceSize = 2 ^ 32 := rfl
        have hap := h.aperture
        have hva := (c.entry ram j).virtualAddress.isLt
        refine ⟨hva, ?_, (c.entry ram j).length.isLt⟩
        dsimp only [planned, offset]
        omega
      dsimp only
      rw [checkBytes_exact hA _ _ _ hsmall]

/-- A manifest is applied exactly if it can be: then the RAM has the bytes of its entries and is
otherwise as it was, and in every other case it is unchanged. No sum or difference that the outcome
depends on wraps. -/
theorem patch_all_or_nothing (c : Caller) (ram : List Byte) :
    ((guestPatchApply (.word 64) true c ram).1.status = .ok ↔ ∃ m, Applicable c ram m) ∧
      (∀ m, Applicable c ram m → Patched c m ram (guestPatchApply (.word 64) true c ram).2) ∧
      (∀ hasReport, (guestPatchApply (.word 64) hasReport c ram).1.status ≠ .ok →
        (guestPatchApply (.word 64) hasReport c ram).2 = ram) ∧
      ∀ A : WordArith, A.Exact 64 → ∀ hasReport,
        guestPatchApply A hasReport c ram = guestPatchApply (.word 64) hasReport c ram := by
  have hword (hasReport : Bool) : guestPatchApply (.word 64) hasReport c ram =
      guestPatchApply plain hasReport c ram := apply_exact (WordArith.word_exact 64) hasReport
  simp only [hword]
  refine ⟨⟨fun h => ?_, fun ⟨m, h⟩ => ?_⟩, fun m h => ?_, fun hasReport h => ?_,
    fun A hA hasReport => apply_exact hA hasReport⟩
  · by_contra hnone
    exact (apply_of_not_applicable fun m h => hnone ⟨m, h⟩).1 h
  · rw [apply_of_applicable h]
  · rw [apply_of_applicable h]
    exact patched_of_applicable h
  · by_cases happ : ∃ m, Applicable c ram m
    · obtain ⟨m, happ⟩ := happ
      cases hasReport with
      | false => rfl
      | true => exact absurd (congrArg (·.1.status) (apply_of_applicable happ)) h
    · exact (apply_of_not_applicable fun m h => happ ⟨m, h⟩).2

end Applied

/-! ### Taking a patch back -/

section Reversed

/-- The entry with the bytes that it expects and those that it writes exchanged. -/
def Entry.reversed (e : Entry) : Entry :=
  { e with expected := e.replacement, replacement := e.expected }

variable {c undo : Caller} {ram ram' : List Byte} {m : Manifest}

/-- What has been applied can be taken back. -/
theorem Applicable.reversed (h : Applicable c ram m) (hp : Patched c m ram ram')
    (hm : undo.manifest ram' = some m) (he : ∀ i, undo.entry ram' i = (c.entry ram i).reversed) :
    Applicable undo ram' m where
  manifest := hm
  hasRam := h.hasRam
  hasEntries := h.hasEntries
  nonempty := hp.length ▸ h.nonempty
  aperture := hp.length ▸ h.aperture
  count_pos := h.count_pos
  count_le := h.count_le
  fits i hi := by
    have hfits := h.fits i hi
    obtain ⟨k, hk, hne⟩ := hfits.changes
    rw [he, hp.length]
    exact ⟨hfits.pos, hfits.le, hfits.mapped, k, hk, hne.symm⟩
  apart i hi j hj hij := by
    rw [he, he]
    exact h.apart i hi j hj hij
  expected i hi := by
    rw [he]
    exact hp.inside i hi

/-- Both ways together change nothing. -/
theorem Applicable.taken_back {ram'' : List Byte} (h : Applicable c ram m)
    (hp : Patched c m ram ram') (he : ∀ i, undo.entry ram' i = (c.entry ram i).reversed)
    (hback : Patched undo m ram' ram'') : ram'' = ram := by
  refine List.ext_getElem? fun x => ?_
  by_cases hx : ∀ i < m.entryCount, ∀ k < (c.entry ram i).length.toNat,
      x ≠ offset m (c.entry ram i) + k
  · rw [← hp.outside x hx]
    refine hback.outside x fun i hi => ?_
    rw [he]
    exact hx i hi
  · push Not at hx
    obtain ⟨i, hi, k, hk, rfl⟩ := hx
    have hbyte := hback.inside i hi k
    rw [he] at hbyte
    exact (hbyte hk).trans (h.expected i hi k hk).symm

/-- A patch that was applied can be taken back, and cannot be applied twice. For any entries, also
where the manifest itself lies in the RAM that is patched: the manifest with the bytes of each entry
exchanged is applied to the patched RAM and gives the RAM from before, octet by octet; and the same
manifest is refused on the patched RAM and leaves it as it is. -/
theorem patch_reversible (h : guestPatchApply (.word 64) true c ram = ({ status := .ok }, ram')) :
    (∀ undo : Caller, undo.manifest ram' = c.manifest ram →
      (∀ i, undo.entry ram' i = (c.entry ram i).reversed) →
        guestPatchApply (.word 64) true undo ram' = ({ status := .ok }, ram)) ∧
      ∀ again : Caller, again.manifest ram' = c.manifest ram →
        (∀ i, again.entry ram' i = c.entry ram i) →
          (guestPatchApply (.word 64) true again ram').1.status ≠ .ok ∧
            (guestPatchApply (.word 64) true again ram').2 = ram' := by
  have hexact := WordArith.word_exact 64
  rw [apply_exact hexact] at h
  have hany : ∃ m, Applicable c ram m := by
    by_contra hnone
    exact (apply_of_not_applicable fun m h => hnone ⟨m, h⟩).1 (congrArg (·.1.status) h)
  obtain ⟨m, happ⟩ := hany
  obtain rfl := congrArg Prod.snd ((apply_of_applicable happ).symm.trans h)
  have hp := patched_of_applicable happ
  refine ⟨fun undo hm he => ?_, fun again hm he => ?_⟩
  · have hundo := happ.reversed hp (hm.trans happ.manifest) he
    rw [apply_exact hexact, apply_of_applicable hundo,
      happ.taken_back hp he (patched_of_applicable hundo)]
  · rw [apply_exact hexact]
    refine apply_of_not_applicable fun m' h' => ?_
    obtain rfl : m = m' :=
      Option.some.inj (happ.manifest.symm.trans (hm.symm.trans h'.manifest))
    -- an entry changes a byte, which is no longer the one it expects
    obtain ⟨k, hk, hne⟩ := (happ.fits 0 happ.count_pos).changes
    have hexpected := h'.expected 0 happ.count_pos k
    rw [he] at hexpected
    exact hne (Option.some.inj ((hexpected hk).symm.trans (hp.inside 0 happ.count_pos k hk)))

/-- A manifest of two entries, outside of the memory: one byte, and two bytes behind a gap. -/
def twoPatches (before after before' after' : Byte) : Caller where
  manifest _ := some ⟨true, 0, 0, true, 2⟩
  entry _ i :=
    if i = 0 then ⟨0, 1, .replicate _ before, .replicate _ after⟩
    else ⟨2, 2, .replicate _ before', .replicate _ after'⟩

/-- Both entries are written, both are taken back, and neither is written a second time. -/
theorem patch_reversible_byte :
    guestPatchApply (.word 64) true (twoPatches 7 9 1 3) [7, 5, 1, 1] =
        ({ status := .ok }, [9, 5, 3, 3]) ∧
      guestPatchApply (.word 64) true (twoPatches 9 7 3 1) [9, 5, 3, 3] =
        ({ status := .ok }, [7, 5, 1, 1]) ∧
      (guestPatchApply (.word 64) true (twoPatches 7 9 1 3) [9, 5, 3, 3]).1.status ≠ .ok ∧
      (guestPatchApply (.word 64) true (twoPatches 7 9 1 3) [9, 5, 3, 3]).2 = [9, 5, 3, 3] := by
  have h : guestPatchApply (.word 64) true (twoPatches 7 9 1 3) [7, 5, 1, 1] =
      ({ status := .ok }, [9, 5, 3, 3]) := rfl
  obtain ⟨hundo, hagain⟩ := patch_reversible h
  have hreversed (i : Nat) : (twoPatches 9 7 3 1).entry [9, 5, 3, 3] i =
      ((twoPatches 7 9 1 3).entry [7, 5, 1, 1] i).reversed := by
    simp only [twoPatches]
    split <;> rfl
  exact ⟨h, hundo (twoPatches 9 7 3 1) rfl hreversed, hagain (twoPatches 7 9 1 3) rfl fun _ => rfl⟩

end Reversed

end S5LBox.Tools.GuestPatch
