import S5LBox.Firmware.Zip

/-!
# Opening an archive

Over a file, the scan finds the last end-of-directory signature that leaves room for a record,
wherever the windows happen to end, and what is opened is the directory that the record there
names. What a record names is stated as the format has it, on the octets of the file.

## Main definitions

* `IsLastEocd f p`: where the record of the archive `f` begins.
* `Names f p d`: the record at `p` names the directory `d`.

## Main results

* `vmfwZipOpen_last`: opening an archive is reading the record at its last signature.
* `readEocd_eq_ok_iff`: the archives that can be opened.
-/

namespace S5LBox.Firmware

open Reading

variable {f : List Byte} {p : Nat}

/-! ### Reading numbers in a file -/

theorem octet_take {p : List Byte} {i k : Nat} (h : i < k) : octet (p.take k) i = octet p i := by
  rw [octet, octet, List.getD_eq_getElem?_getD, List.getD_eq_getElem?_getD,
    List.getElem?_take_of_lt h]

theorem rd16_take {p : List Byte} {k : Nat} (h : 2 ≤ k) : rd16 (p.take k) = rd16 p := by
  rw [rd16, rd16, octet_take (by omega), octet_take (by omega)]

theorem rd32_take {p : List Byte} {k : Nat} (h : 4 ≤ k) : rd32 (p.take k) = rd32 p := by
  rw [rd32, rd32, octet_take (by omega), octet_take (by omega), octet_take (by omega),
    octet_take (by omega)]

theorem rd64_take {p : List Byte} {k : Nat} (h : 8 ≤ k) : rd64 (p.take k) = rd64 p := by
  rw [rd64, rd64, rd32_take (by omega), List.drop_take, rd32_take (by omega)]

theorem rd16_serve {off len i : Nat} (h : i + 2 ≤ len) :
    rd16 ((serve f off len).drop i) = rd16 (f.drop (off + i)) := by
  rw [drop_serve, serve, rd16_take (by omega)]

theorem rd32_serve {off len i : Nat} (h : i + 4 ≤ len) :
    rd32 ((serve f off len).drop i) = rd32 (f.drop (off + i)) := by
  rw [drop_serve, serve, rd32_take (by omega)]

theorem rd64_serve {off len i : Nat} (h : i + 8 ≤ len) :
    rd64 ((serve f off len).drop i) = rd64 (f.drop (off + i)) := by
  rw [drop_serve, serve, rd64_take (by omega)]

/-! ### Running a reader -/

theorem run_refuse (pread : Nat → Nat → List Byte) (wrong : Prop) [Decidable wrong]
    (st : ZipStatus) :
    (refuse wrong st).run pread = if wrong then .error st else .ok () := by
  rw [refuse, Reader.run_ite]
  rfl

theorem refuse_bind_eq_ok {wrong : Prop} [Decidable wrong] {st : ZipStatus} {α : Type}
    {k : Unit → Except ZipStatus α} {a : α} :
    (((if wrong then .error st else .ok ()) : Except ZipStatus Unit) >>= k) = .ok a ↔
      ¬wrong ∧ k () = .ok a := by
  by_cases h : wrong
  · rw [if_pos h]
    exact iff_of_false nofun fun ⟨hn, _⟩ => hn h
  · rw [if_neg h]
    exact ⟨fun hk => ⟨h, hk⟩, fun hk => hk.2⟩

theorem ok_bind {α β : Type} (a : α) (k : α → Except ZipStatus β) :
    ((.ok a : Except ZipStatus α) >>= k) = k a := rfl

/-- A file hands over every piece of itself. -/
theorem run_readExact {off len : Nat} (h : off + len ≤ f.length) :
    (readExact f.length off len).run (serve f) = .ok (serve f off len) := by
  rw [readExact]
  by_cases h0 : len = 0
  · rw [if_pos h0, Reader.run_pure, serve, h0, List.take_zero]
  · rw [if_neg h0, if_neg (by omega), Reader.run, if_pos (length_serve h)]
    rfl

/-! ### The scan -/

/-- An end-of-directory signature that leaves room for a record. -/
def IsEocd (f : List Byte) (p : Nat) : Prop :=
  p + eocdSize ≤ f.length ∧ rd32 (f.drop p) = sigEocd

/-- The last such signature, no further from the end than the longest comment has it. -/
structure IsLastEocd (f : List Byte) (p : Nat) : Prop where
  isEocd : IsEocd f p
  near : f.length ≤ p + eocdMaxScan
  last : ∀ q, p < q → ¬IsEocd f q

theorem IsLastEocd.unique {q : Nat} (hp : IsLastEocd f p) (hq : IsLastEocd f q) : p = q := by
  rcases Nat.lt_trichotomy p q with h | h | h
  · exact absurd hq.isEocd (hp.last q h)
  · exact h
  · exact absurd hp.isEocd (hq.last p h)

theorem add64_of_lt {a b : Nat} (h : a + b < 2 ^ 64) : add64 a b = a + b := Nat.mod_eq_of_lt h

/-- The inner loop finds the last signature that begins in its part of the window. -/
theorem lastEocd_spec (start chunk n : Nat) (hf : f.length < 2 ^ 63)
    (hc : start + chunk ≤ f.length) (hn : n + 3 ≤ chunk) :
    match lastEocd f.length start (serve f start chunk) n with
    | some p => (start ≤ p ∧ IsEocd f p) ∧ ∀ q, p < q → q < start + n → ¬IsEocd f q
    | none => ∀ q, start ≤ q → q < start + n → ¬IsEocd f q := by
  induction n with
  | zero =>
    intro q h1 h2
    omega
  | succ n ih =>
    have ih := ih (by omega)
    have hadd : add64 start n = start + n := add64_of_lt (by omega)
    have hadd' : add64 (start + n) eocdSize = start + n + eocdSize :=
      add64_of_lt (by simp only [eocdSize]; omega)
    have hsig : rd32 ((serve f start chunk).drop n) = rd32 (f.drop (start + n)) :=
      rd32_serve (by omega)
    -- The signature at the end of the part, or one that begins before it.
    have hskip : ¬IsEocd f (start + n) →
        match lastEocd f.length start (serve f start chunk) n with
        | some p => (start ≤ p ∧ IsEocd f p) ∧ ∀ q, p < q → q < start + (n + 1) → ¬IsEocd f q
        | none => ∀ q, start ≤ q → q < start + (n + 1) → ¬IsEocd f q := by
      intro hno
      cases hl : lastEocd f.length start (serve f start chunk) n with
      | some p =>
        rw [hl] at ih
        refine ⟨ih.1, fun q h1 h2 => ?_⟩
        rcases Nat.lt_or_ge q (start + n) with h | h
        · exact ih.2 q h1 h
        · rwa [show q = start + n by omega]
      | none =>
        rw [hl] at ih
        intro q h1 h2
        rcases Nat.lt_or_ge q (start + n) with h | h
        · exact ih q h1 h
        · rwa [show q = start + n by omega]
    rw [lastEocd, hadd, hadd', hsig]
    by_cases hroom : start + n + eocdSize > f.length
    · rw [if_pos hroom]
      exact hskip fun h => absurd h.1 (by omega)
    · rw [if_neg hroom]
      by_cases heq : rd32 (f.drop (start + n)) = sigEocd
      · rw [if_pos heq]
        refine ⟨⟨Nat.le_add_right _ _, by omega, heq⟩, fun q h1 h2 => ?_⟩
        omega
      · rw [if_neg heq]
        exact hskip fun h => heq h.2

/-- What the scan has to find out about a file from an offset on. -/
def Scanned (f : List Byte) (scanStart : Nat) : Except ZipStatus Nat → Prop
  | .ok p => (scanStart ≤ p ∧ IsEocd f p) ∧ ∀ q, p < q → ¬IsEocd f q
  | .error st => st = .notZip ∧ ∀ q, scanStart ≤ q → ¬IsEocd f q

/-- The windows overlap by enough: nothing that the scan has passed is a signature. -/
theorem scan_spec (scanStart winEnd : Nat) (hf : f.length < 2 ^ 63) (hs : scanStart ≤ winEnd)
    (hw : winEnd ≤ f.length) (hpast : ∀ q, winEnd < q + 4 → ¬IsEocd f q) :
    Scanned f scanStart ((scan f.length scanStart winEnd).run (serve f)) := by
  rw [scan]
  by_cases hc : min (winEnd - scanStart) window < 4
  · rw [dif_pos hc]
    refine ⟨rfl, fun q hq => hpast q ?_⟩
    simp only [window] at hc
    omega
  · rw [dif_neg hc]
    have hmin : min (winEnd - scanStart) window ≤ winEnd - scanStart := Nat.min_le_left _ _
    generalize hchunk : min (winEnd - scanStart) window = chunk at hc hmin ⊢
    have hspec := lastEocd_spec (winEnd - chunk) chunk (chunk - 3) hf
      (by omega) (by omega)
    rw [Reader.run_bind, run_readExact (by omega), ok_bind]
    cases hl : lastEocd f.length (winEnd - chunk) (serve f (winEnd - chunk) chunk)
        (chunk - 3) with
    | some p =>
      rw [hl] at hspec
      refine ⟨⟨by omega, hspec.1.2⟩, fun q hq => ?_⟩
      rcases Nat.lt_or_ge q (winEnd - chunk + (chunk - 3)) with h | h
      · exact hspec.2 q hq h
      · exact hpast q (by omega)
    | none =>
      rw [hl] at hspec
      have hpast' : ∀ q, winEnd - chunk ≤ q → ¬IsEocd f q := by
        intro q hq
        rcases Nat.lt_or_ge q (winEnd - chunk + (chunk - 3)) with h | h
        · exact hspec q hq h
        · exact hpast q (by omega)
      dsimp only
      by_cases hstart : winEnd - chunk = scanStart
      · rw [if_pos hstart]
        exact ⟨rfl, fun q hq => hpast' q (by omega)⟩
      · rw [if_neg hstart]
        refine scan_spec _ _ hf ?_ ?_ fun q hq => hpast' q ?_ <;> simp only [overlap] at * <;> omega
termination_by winEnd
decreasing_by
  simp only [overlap]
  omega

/-- Opening an archive is reading the record at its last signature. -/
theorem vmfwZipOpen_last (hf : f.length < 2 ^ 63) :
    (∃ p, IsLastEocd f p ∧
      (vmfwZipOpen f.length).run (serve f) = (readEocd f.length p).run (serve f)) ∨
    ((∀ p, f.length ≤ p + eocdMaxScan → ¬IsEocd f p) ∧
      (vmfwZipOpen f.length).run (serve f) = .error .notZip) := by
  rw [vmfwZipOpen]
  by_cases hsize : f.length < eocdSize
  · rw [if_pos hsize]
    exact Or.inr ⟨fun p _ h => absurd h.1 (by omega), rfl⟩
  · rw [if_neg hsize, Reader.run_bind]
    have hspec := scan_spec (f.length - min f.length eocdMaxScan) f.length hf
      (Nat.sub_le _ _) (Nat.le_refl f.length)
      fun q hq h => absurd h.1 (by simp only [eocdSize]; omega)
    cases hr : (scan f.length (f.length - min f.length eocdMaxScan) f.length).run (serve f) with
    | ok p =>
      rw [hr] at hspec
      have hstart := hspec.1.1
      exact Or.inl ⟨p, ⟨hspec.1.2, by omega, hspec.2⟩, rfl⟩
    | error st =>
      rw [hr] at hspec
      refine Or.inr ⟨fun p hp => hspec.2 p (by omega), ?_⟩
      rw [hspec.1]
      rfl

/-! ### The record -/

/-- The directory that the fields of the record itself describe. -/
def classicAt (f : List Byte) (p : Nat) : Directory :=
  ⟨rd16 (f.drop (p + 10)), rd32 (f.drop (p + 12)), rd32 (f.drop (p + 16))⟩

/-- The record is that of an archive on one disk. -/
def OneDisk (f : List Byte) (p : Nat) : Prop :=
  (rd16 (f.drop (p + 4)) = 0 ∧ rd16 (f.drop (p + 6)) = 0) ∧
    rd16 (f.drop (p + 8)) = rd16 (f.drop (p + 10))

/-- A ZIP64 locator stands right before the record. -/
def HasLocator (f : List Byte) (p : Nat) : Prop :=
  eocd64LocSize ≤ p ∧ rd32 (f.drop (p - eocd64LocSize)) = sigEocd64Loc

instance : Decidable (HasLocator f p) := inferInstanceAs (Decidable (_ ∧ _))

/-- Where the ZIP64 record is, by the locator before the record at `p`. -/
def zip64Offset (f : List Byte) (p : Nat) : Nat := rd64 (f.drop (p - eocd64LocSize + 8))

/-- The directory that the ZIP64 record at `r` describes. -/
def zip64At (f : List Byte) (r : Nat) : Directory :=
  ⟨rd64 (f.drop (r + 32)), rd64 (f.drop (r + 40)), rd64 (f.drop (r + 48))⟩

/-- The locator leads to a ZIP64 record of an archive on one disk. -/
structure LeadsTo (f : List Byte) (p r : Nat) : Prop where
  first : rd32 (f.drop (p - eocd64LocSize + 4)) = 0
  disks : rd32 (f.drop (p - eocd64LocSize + 16)) ≤ 1
  room : r + eocd64MinSize ≤ f.length
  sig : rd32 (f.drop r) = sigEocd64
  here : rd32 (f.drop (r + 16)) = 0 ∧ rd32 (f.drop (r + 20)) = 0
  count : (zip64At f r).entryCount ≤ 0xffffffff

/-- The record at an offset names a directory, as the format has it. -/
inductive Names (f : List Byte) (p : Nat) : Directory → Prop
  | classic : OneDisk f p → ¬HasLocator f p → ¬(classicAt f p).sentinel →
      Names f p (classicAt f p)
  | zip64 : OneDisk f p → HasLocator f p → LeadsTo f p (zip64Offset f p) →
      Names f p (zip64At f (zip64Offset f p))

/-- A ZIP64 record repeats a value that stands for itself in the record before the comment. -/
def RepeatsSentinel (f : List Byte) (p : Nat) (d : Directory) : Prop :=
  HasLocator f p ∧ (classicAt f p).sentinel ∧ d.sentinel

/-- The directory lies in the file and has room for its entries. -/
def Directory.Fits (d : Directory) (f : List Byte) : Prop :=
  d.cdOffset + d.cdSize ≤ f.length ∧ d.entryCount * centralMinSize ≤ d.cdSize

/-- `read_zip64` without a locator. -/
theorem readZip64_of_not (hp : p ≤ f.length) (h : ¬HasLocator f p) (d : Directory) :
    (readZip64 f.length p d).run (serve f) = .ok d := by
  rw [readZip64]
  by_cases hroom : p < eocd64LocSize
  · rw [if_pos hroom]
    rfl
  · have hread : (readExact f.length (p - eocd64LocSize) eocd64LocSize).run (serve f) = _ :=
      run_readExact (by omega)
    have hsig : rd32 (serve f (p - eocd64LocSize) eocd64LocSize) ≠ sigEocd64Loc := by
      rw [serve, rd32_take (by decide)]
      exact fun hs => h ⟨by omega, hs⟩
    rw [if_neg hroom, Reader.run_bind, hread, ok_bind, if_pos hsig]
    rfl

/-- `read_zip64` with one. -/
theorem readZip64_eq_ok_iff (hp : p ≤ f.length) (h : HasLocator f p) (c d : Directory) :
    (readZip64 f.length p c).run (serve f) = .ok d ↔
      LeadsTo f p (zip64Offset f p) ∧ d = zip64At f (zip64Offset f p) := by
  have hroom : ¬p < eocd64LocSize := by have := h.1; omega
  have hsig : ¬rd32 (serve f (p - eocd64LocSize) eocd64LocSize) ≠ sigEocd64Loc := by
    rw [serve, rd32_take (by decide)]
    exact fun hs => hs h.2
  rw [readZip64, if_neg hroom, Reader.run_bind, run_readExact (by omega), ok_bind, if_neg hsig]
  simp (disch := decide) only [Reader.run_bind, run_refuse, refuse_bind_eq_ok, rd32_serve,
    rd64_serve, Reader.run_pure]
  rw [← zip64Offset]
  by_cases hrec : zip64Offset f p + eocd64MinSize ≤ f.length
  · rw [run_readExact hrec, ok_bind]
    have hzero : rd32 (serve f (zip64Offset f p) eocd64MinSize) = rd32 (f.drop (zip64Offset f p)) :=
      rd32_take (by decide)
    simp (disch := decide) only [refuse_bind_eq_ok, hzero, rd32_serve, rd64_serve]
    constructor
    · rintro ⟨h1, h2, _, h4, h5, h6, h7⟩
      exact ⟨⟨by omega, by omega, hrec, by omega, by omega, Nat.le_of_not_lt h6⟩,
        (Except.ok.inj h7).symm⟩
    · rintro ⟨hl, rfl⟩
      have hcount := hl.count
      have hdisks := hl.disks
      exact ⟨fun hn => hn hl.first, by omega, by omega, fun hn => hn hl.sig,
        fun hn => hn.elim (fun hn => hn hl.here.1) fun hn => hn hl.here.2,
        Nat.not_lt_of_le hcount, rfl⟩
  · refine iff_of_false (fun hn => ?_) fun hn => hrec hn.1.room
    have hn := hn.2.2.1
    omega

/-- The record at an offset is read as the format has it, but for a repeated sentinel. -/
theorem readEocd_eq_ok_iff (hp : p + eocdSize ≤ f.length) (z : Zip) :
    (readEocd f.length p).run (serve f) = .ok z ↔
      ∃ d, Names f p d ∧ ¬RepeatsSentinel f p d ∧ d.Fits f ∧ z = { d with size := f.length } := by
  rw [readEocd, Reader.run_bind, run_readExact hp, ok_bind]
  simp (disch := decide) only [Reader.run_bind, run_refuse, refuse_bind_eq_ok, rd16_serve,
    rd32_serve, Reader.run_pure]
  rw [← classicAt]
  have hone : OneDisk f p ↔ ¬(rd16 (f.drop (p + 4)) ≠ 0 ∨ rd16 (f.drop (p + 6)) ≠ 0) ∧
      ¬rd16 (f.drop (p + 8)) ≠ rd16 (f.drop (p + 10)) := by
    simp only [OneDisk, ne_eq, not_or, not_not]
  rw [← and_assoc, ← hone]
  by_cases hl : HasLocator f p
  · cases hr : (readZip64 f.length p (classicAt f p)).run (serve f) with
    | error st =>
      refine iff_of_false (fun h => nomatch h.2) ?_
      rintro ⟨d, hd, -⟩
      cases hd with
      | classic _ hn _ => exact hn hl
      | zip64 _ _ hlead =>
        rw [(readZip64_eq_ok_iff (by omega) hl _ _).2 ⟨hlead, rfl⟩] at hr
        cases hr
    | ok d =>
      obtain ⟨hlead, rfl⟩ := (readZip64_eq_ok_iff (by omega) hl _ _).1 hr
      simp only [ok_bind, refuse_bind_eq_ok]
      constructor
      · rintro ⟨h1, hs, h2, h3, h4⟩
        exact ⟨_, .zip64 h1 hl hlead, fun h => hs h.2, ⟨by omega, by omega⟩,
          (Except.ok.inj h4).symm⟩
      · rintro ⟨d, hd, hs, hfit, rfl⟩
        cases hd with
        | classic _ hn _ => exact absurd hl hn
        | zip64 h1 _ _ =>
          have hroom := hfit.1
          have hcount := hfit.2
          exact ⟨h1, fun h => hs ⟨hl, h⟩, by omega, by omega, rfl⟩
  · rw [readZip64_of_not (by omega) hl]
    simp only [ok_bind, refuse_bind_eq_ok, and_self]
    constructor
    · rintro ⟨h1, hs, h2, h3, h4⟩
      exact ⟨_, .classic h1 hl hs, fun h => hl h.1, ⟨by omega, by omega⟩,
        (Except.ok.inj h4).symm⟩
    · rintro ⟨d, hd, -, hfit, rfl⟩
      cases hd with
      | zip64 _ hn _ => exact absurd hn hl
      | classic h1 _ hs =>
        have hroom := hfit.1
        have hcount := hfit.2
        exact ⟨h1, hs, by omega, by omega, rfl⟩

/-- A repeated sentinel is taken for a missing ZIP64 record. -/
theorem readEocd_repeats {d : Directory} (hp : p + eocdSize ≤ f.length) (hd : Names f p d)
    (hs : RepeatsSentinel f p d) : (readEocd f.length p).run (serve f) = .error .zip64 := by
  cases hd with
  | classic _ hn _ => exact absurd hs.1 hn
  | zip64 hone hl hlead =>
    rw [readEocd, Reader.run_bind, run_readExact hp, ok_bind]
    simp (disch := decide) only [Reader.run_bind, run_refuse, rd16_serve, rd32_serve]
    rw [← classicAt, if_neg (by simp only [hone.1, ne_eq, not_true, or_self, not_false_iff]),
      ok_bind, if_neg (fun hn => hn hone.2), ok_bind,
      (readZip64_eq_ok_iff (by omega) hl _ _).2 ⟨hlead, rfl⟩, ok_bind, if_pos hs.2]
    rfl

/-- The archives that can be opened. -/
theorem vmfwZipOpen_eq_ok_iff (hf : f.length < 2 ^ 63) (z : Zip) :
    (vmfwZipOpen f.length).run (serve f) = .ok z ↔
      ∃ p d, IsLastEocd f p ∧ Names f p d ∧ ¬RepeatsSentinel f p d ∧ d.Fits f ∧
        z = { d with size := f.length } := by
  rcases vmfwZipOpen_last hf with ⟨p, hp, hopen⟩ | ⟨hno, hopen⟩
  · rw [hopen, readEocd_eq_ok_iff hp.isEocd.1]
    constructor
    · rintro ⟨d, hd⟩
      exact ⟨p, d, hp, hd⟩
    · rintro ⟨q, d, hq, hd⟩
      rw [hp.unique hq]
      exact ⟨d, hd⟩
  · rw [hopen]
    refine iff_of_false nofun ?_
    rintro ⟨p, _, hp, _⟩
    exact hno p hp.near hp.isEocd

theorem vmfwZipOpen_fits (hf : f.length < 2 ^ 63) {z : Zip}
    (h : (vmfwZipOpen f.length).run (serve f) = .ok z) :
    z.size = f.length ∧ z.cdOffset + z.cdSize ≤ f.length := by
  obtain ⟨_, d, _, _, _, hfit, rfl⟩ := (vmfwZipOpen_eq_ok_iff hf z).1 h
  exact ⟨rfl, hfit.1⟩

end S5LBox.Firmware
