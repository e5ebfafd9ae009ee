import S5LBox.Lib.RunScan
import S5LBox.Rootfs.Node

/-!
# The allocation of blocks

`catalog_bitmap_alloc` looks for consecutive free blocks in one pass that starts at the hint of the
volume and wraps at its end, and takes the first run that is long enough. The pass never puts
together the blocks before the hint with those from the hint on.

## Main definitions

* `VolumeMap`: the bitmap of the volume, with its counts.
* `catalogBitmapAlloc`: the allocation.
* `AllocatesRightly`: an allocation that is sound and complete.

## Main results

* `catalogBitmapAlloc_exact`: when it is.
-/

namespace S5LBox.Rootfs

open Octets RunScan

/-- The part of `catalog_ctx_t` that an allocation reads and writes. -/
structure VolumeMap where
  bitmap : Buffer
  bitmapDirty : Bool
  totalBlocks : Word
  freeBlocks : Word
  nextAlloc : Word
  deriving DecidableEq

/-- `ROOTFS_WORK_PROVISION_NO_SPACE`. -/
def noSpace : Status := .step 33

/-- `catalog_bitmap_test`: the block is in use, or past the bitmap. -/
def catalogBitmapTest (v : VolumeMap) (block : Nat) : Bool :=
  if v.bitmap.length ≤ block / 8 then true
  else (v.bitmap.getD (block / 8) 0).getLsbD (7 - block % 8)

/-- The bitmap with a block in use. -/
def markBlock (bitmap : Buffer) (block : Nat) : Buffer :=
  bitmap.set (block / 8) (bitmap.getD (block / 8) 0 ||| (1#8 <<< (7 - block % 8)))

/-- The bitmap with a run of blocks in use. -/
def markRun (bitmap : Buffer) (start count : Nat) : Buffer :=
  (List.range count).foldl (fun b index => markBlock b ((start + index) % 2 ^ 32)) bitmap

/-- Where the pass starts. -/
def VolumeMap.cursor (v : VolumeMap) : Nat :=
  if v.nextAlloc < v.totalBlocks then v.nextAlloc.toNat else 0

/-- The pass, with `left` blocks to go. A run starts over at block zero. -/
def allocScan (v : VolumeMap) (count : Nat) : (left scanned runStart run : Nat) → Option Nat
  | 0, _, _, _ => none
  | left + 1, scanned, runStart, run =>
    let total := v.totalBlocks.toNat
    let sum := (v.cursor + scanned) % 2 ^ 64
    let block := (if total ≤ sum then sum - total else sum) % 2 ^ 32
    let run := if total ≤ sum ∧ sum - total = 0 then 0 else run
    if catalogBitmapTest v block then allocScan v count left (scanned + 1) runStart 0
    else
      let runStart := if run = 0 then block else runStart
      if run + 1 = count then some runStart
      else allocScan v count left (scanned + 1) runStart (run + 1)

/-- The map with a run of blocks allocated. -/
def VolumeMap.allocated (v : VolumeMap) (start : Nat) (count : Word) : VolumeMap :=
  let next := (start + count.toNat) % 2 ^ 32
  { v with
    bitmap := markRun v.bitmap start count.toNat
    bitmapDirty := true
    freeBlocks := v.freeBlocks - count
    nextAlloc := if next < v.totalBlocks.toNat then BitVec.ofNat 32 next else 0 }

/-- `catalog_bitmap_alloc`. -/
def catalogBitmapAlloc (v : VolumeMap) (count : Word) (stage : Stage) :
    Except Failure Nat × VolumeMap :=
  if count = 0 ∨ count > v.freeBlocks then
    (.error ⟨noSpace, stage, 0,
      s!"{count.toNat} allocation blocks requested, {v.freeBlocks.toNat} free; the stock volume ships freeBlocks = 0, so growth_bytes must be set"⟩, v)
  else
    match allocScan v count.toNat v.totalBlocks.toNat 0 0 0 with
    | some start => (.ok start, v.allocated start count)
    | none =>
      (.error ⟨noSpace, stage, 0,
        s!"no run of {count.toNat} contiguous free allocation blocks exists"⟩, v)

/-! ### The pass -/

variable {v : VolumeMap} {count : Nat}

/-- A block that is free. -/
def VolumeMap.free (v : VolumeMap) (block : Nat) : Bool := !catalogBitmapTest v block

theorem VolumeMap.cursor_le (v : VolumeMap) : v.cursor ≤ v.totalBlocks.toNat := by
  unfold VolumeMap.cursor
  split_ifs with h
  · exact Nat.le_of_lt (BitVec.lt_def.mp h)
  · exact Nat.zero_le _

/-- One step of the pass at a block, with the run that goes on there. -/
theorem allocScan_step {left scanned runStart run : Nat} (block went : Nat)
    (hblock : (if v.totalBlocks.toNat ≤ (v.cursor + scanned) % 2 ^ 64 then
      (v.cursor + scanned) % 2 ^ 64 - v.totalBlocks.toNat else (v.cursor + scanned) % 2 ^ 64) %
        2 ^ 32 = block)
    (hrun : (if v.totalBlocks.toNat ≤ (v.cursor + scanned) % 2 ^ 64 ∧
      (v.cursor + scanned) % 2 ^ 64 - v.totalBlocks.toNat = 0 then 0 else run) = went) :
    allocScan v count (left + 1) scanned runStart run =
      if v.free block then
        if went + 1 = count then some (if went = 0 then block else runStart)
        else allocScan v count left (scanned + 1) (if went = 0 then block else runStart) (went + 1)
      else allocScan v count left (scanned + 1) runStart 0 := by
  rw [allocScan, hblock, hrun, VolumeMap.free]
  cases catalogBitmapTest v block <;> rfl

/-- Past the end of the volume, the pass is a scan from block zero on. -/
theorem allocScan_wrapped {left scanned runStart run : Nat} (pos : Nat)
    (hpos : v.cursor + scanned = v.totalBlocks.toNat + pos) (hleft : pos + left = v.cursor)
    (hrun : pos ≠ 0 → run ≠ 0 → runStart = pos - run) :
    allocScan v count left scanned runStart run =
      firstRun v.free count left pos (if pos = 0 then 0 else run) := by
  induction left generalizing scanned runStart run pos with
  | zero => rfl
  | succ left ih =>
    have htotal := v.totalBlocks.isLt
    have hcursor := v.cursor_le
    have hsum : (v.cursor + scanned) % 2 ^ 64 = v.totalBlocks.toNat + pos := by
      rw [hpos]
      exact Nat.mod_eq_of_lt (by omega)
    have hpos' : v.cursor + (scanned + 1) = v.totalBlocks.toNat + (pos + 1) := by omega
    rw [allocScan_step pos (if pos = 0 then 0 else run)
      (by rw [hsum, if_pos (Nat.le_add_right _ _), Nat.add_sub_cancel_left]
          exact Nat.mod_eq_of_lt (by omega))
      (by rw [hsum, Nat.add_sub_cancel_left]
          exact if_congr (and_iff_right (Nat.le_add_right _ _)) rfl rfl), firstRun]
    generalize hwent : (if pos = 0 then 0 else run) = went
    have hstart : (if went = 0 then pos else runStart) = pos - went := by
      by_cases hzero : went = 0
      · rw [if_pos hzero, hzero, Nat.sub_zero]
      · rw [if_neg hzero]
        by_cases hp : pos = 0
        · rw [if_pos hp] at hwent
          exact absurd hwent.symm hzero
        · rw [if_neg hp] at hwent
          rw [← hwent] at hzero ⊢
          exact hrun hp hzero
    rw [hstart]
    by_cases hfree : v.free pos
    · rw [if_pos hfree, if_pos hfree]
      by_cases hfull : went + 1 = count
      · rw [if_pos hfull, if_pos hfull]
      · rw [if_neg hfull, if_neg hfull, ih (pos + 1) hpos' (by omega) (fun _ _ => by omega),
          if_neg (Nat.succ_ne_zero pos)]
    · rw [if_neg hfree, if_neg hfree, ih (pos + 1) hpos' (by omega) (fun _ h => absurd rfl h),
        if_neg (Nat.succ_ne_zero pos)]

/-- Up to the end of the volume, the pass is a scan from the cursor on, and then it wraps. -/
theorem allocScan_ahead {left scanned runStart run pos : Nat}
    (hpos : v.cursor + scanned = pos) (hleft : scanned + left = v.totalBlocks.toNat)
    (hle : pos ≤ v.totalBlocks.toNat) (hrun : run ≠ 0 → runStart = pos - run) :
    allocScan v count left scanned runStart run =
      (firstRun v.free count (v.totalBlocks.toNat - pos) pos run).or
        (firstRun v.free count v.cursor 0 0) := by
  have htotal := v.totalBlocks.isLt
  induction left generalizing scanned runStart run pos with
  | zero =>
    have hcursor : v.cursor = 0 := by omega
    have hend : v.totalBlocks.toNat - pos = 0 := by omega
    rw [hcursor, hend]
    rfl
  | succ left ih =>
    obtain hlt | rfl := Nat.lt_or_eq_of_le hle
    · obtain ⟨rest, hrest⟩ : ∃ rest, v.totalBlocks.toNat - pos = rest + 1 :=
        ⟨v.totalBlocks.toNat - pos - 1, by omega⟩
      have hsum : (v.cursor + scanned) % 2 ^ 64 = pos := by
        rw [hpos]
        exact Nat.mod_eq_of_lt (by omega)
      have hnot : ¬v.totalBlocks.toNat ≤ pos := Nat.not_le_of_lt hlt
      have hrest' : v.totalBlocks.toNat - (pos + 1) = rest := by omega
      have hstart : (if run = 0 then pos else runStart) = pos - run := by
        by_cases hzero : run = 0
        · rw [if_pos hzero, hzero, Nat.sub_zero]
        · rw [if_neg hzero, hrun hzero]
      rw [allocScan_step pos run
        (by rw [hsum, if_neg hnot]
            exact Nat.mod_eq_of_lt (by omega))
        (by rw [hsum, if_neg fun hin => hnot hin.1]), hstart, hrest, firstRun]
      by_cases hfree : v.free pos
      · rw [if_pos hfree, if_pos hfree]
        by_cases hfull : run + 1 = count
        · rw [if_pos hfull, if_pos hfull]
          rfl
        · rw [if_neg hfull, if_neg hfull,
            ih (show v.cursor + (scanned + 1) = pos + 1 by omega) (by omega) hlt
              (fun _ => by omega), hrest']
      · rw [if_neg hfree, if_neg hfree,
          ih (show v.cursor + (scanned + 1) = pos + 1 by omega) (by omega) hlt
            (fun h => absurd rfl h), hrest']
    · rw [allocScan_wrapped 0 hpos (by omega) (fun h => absurd rfl h), if_pos rfl,
        Nat.sub_self]
      have hcursor : left + 1 = v.cursor := by omega
      rw [hcursor]
      rfl

theorem allocScan_eq (v : VolumeMap) (count : Nat) :
    allocScan v count v.totalBlocks.toNat 0 0 0 =
      (firstRun v.free count (v.totalBlocks.toNat - v.cursor) v.cursor 0).or
        (firstRun v.free count v.cursor 0 0) :=
  allocScan_ahead rfl (Nat.zero_add _) v.cursor_le fun h => absurd rfl h

/-! ### The bitmap -/

theorem markBlock_length (bitmap : Buffer) (block : Nat) :
    (markBlock bitmap block).length = bitmap.length := List.length_set

theorem markRun_succ (bitmap : Buffer) (start count : Nat) :
    markRun bitmap start (count + 1) =
      markBlock (markRun bitmap start count) ((start + count) % 2 ^ 32) := by
  rw [markRun, List.range_succ, List.foldl_append]
  rfl

theorem markRun_length (bitmap : Buffer) (start count : Nat) :
    (markRun bitmap start count).length = bitmap.length := by
  induction count with
  | zero => rfl
  | succ count ih => rw [markRun_succ, markBlock_length, ih]

/-- The bit of a block. -/
def blockBit (bitmap : Buffer) (block : Nat) : Bool :=
  (bitmap.getD (block / 8) 0).getLsbD (7 - block % 8)

theorem blockBit_markBlock {bitmap : Buffer} {block : Nat} (h : block / 8 < bitmap.length)
    (b : Nat) : blockBit (markBlock bitmap block) b = (blockBit bitmap b || decide (b = block)) := by
  unfold blockBit markBlock
  by_cases hbyte : b / 8 = block / 8
  · rw [hbyte, List.getD_eq_getElem?_getD, List.getElem?_set_self h, Option.getD_some,
      BitVec.getLsbD_or]
    congr 1
    rw [BitVec.getLsbD_shiftLeft, BitVec.getLsbD_one, Bool.eq_iff_iff]
    simp only [Bool.and_eq_true, Bool.not_eq_true', decide_eq_true_eq, decide_eq_false_iff_not]
    omega
  · rw [List.getD_eq_getElem?_getD, List.getElem?_set_ne (Ne.symm hbyte),
      ← List.getD_eq_getElem?_getD]
    have hne : b ≠ block := fun h => hbyte (congrArg (· / 8) h)
    rw [decide_eq_false hne, Bool.or_false]

theorem blockBit_markRun {bitmap : Buffer} {start count : Nat} (hword : start + count < 2 ^ 32)
    (h : ∀ i < count, (start + i) / 8 < bitmap.length) (b : Nat) :
    blockBit (markRun bitmap start count) b =
      (blockBit bitmap b || decide (start ≤ b ∧ b < start + count)) := by
  induction count with
  | zero =>
    have hout : ¬(start ≤ b ∧ b < start + 0) := by omega
    rw [decide_eq_false hout, Bool.or_false]
    rfl
  | succ count ih =>
    have hlast : (start + count) % 2 ^ 32 = start + count := Nat.mod_eq_of_lt (by omega)
    have hbyte : (start + count) / 8 < (markRun bitmap start count).length := by
      rw [markRun_length]
      exact h count (Nat.lt_succ_self count)
    rw [markRun_succ, hlast, blockBit_markBlock hbyte,
      ih (by omega) (fun i hi => h i (Nat.lt_succ_of_lt hi)), Bool.or_assoc]
    congr 1
    rw [Bool.eq_iff_iff]
    simp only [Bool.or_eq_true, decide_eq_true_eq]
    omega

theorem inBitmap_of_free {block : Nat} (h : v.free block = true) :
    block / 8 < v.bitmap.length := by
  by_contra hout
  rw [VolumeMap.free, catalogBitmapTest, if_pos (Nat.le_of_not_lt hout)] at h
  cases h

/-! ### The allocation -/

/-- A run of free blocks of the volume. -/
def VolumeMap.FreeBlocks (v : VolumeMap) (start count : Nat) : Prop :=
  FreeRun v.free start count ∧ start + count ≤ v.totalBlocks.toNat

/-- An allocation that is sound and complete: it finds a run of free blocks when there is one, it
takes the run that it returns and nothing else, and a failure changes nothing. -/
structure AllocatesRightly (v : VolumeMap) (count : Word) (stage : Stage) : Prop where
  found : (∃ start, v.FreeBlocks start count.toNat) →
    ∃ start, (catalogBitmapAlloc v count stage).1 = .ok start
  taken : ∀ start, (catalogBitmapAlloc v count stage).1 = .ok start →
    let v' := (catalogBitmapAlloc v count stage).2
    v.FreeBlocks start count.toNat ∧
      (∀ block, catalogBitmapTest v' block =
        (catalogBitmapTest v block ||
          decide (start ≤ block ∧ block < start + count.toNat))) ∧
      v'.freeBlocks = v.freeBlocks - count ∧ v'.totalBlocks = v.totalBlocks ∧
      v'.nextAlloc < v'.totalBlocks
  kept : ∀ why, (catalogBitmapAlloc v count stage).1 = .error why →
    (catalogBitmapAlloc v count stage).2 = v

section Alloc

variable {n : Word} {stage : Stage} {start : Nat}

theorem catalogBitmapAlloc_some (stage : Stage) (hpos : 0 < n) (hle : n ≤ v.freeBlocks)
    (h : allocScan v n.toNat v.totalBlocks.toNat 0 0 0 = some start) :
    catalogBitmapAlloc v n stage = (.ok start, v.allocated start n) := by
  have hcount : ¬(n = 0 ∨ n > v.freeBlocks) :=
    not_or.mpr ⟨(BitVec.ne_of_lt hpos).symm, BitVec.not_lt.mpr hle⟩
  rw [catalogBitmapAlloc, if_neg hcount, h]

theorem catalogBitmapAlloc_none (stage : Stage) (hpos : 0 < n) (hle : n ≤ v.freeBlocks)
    (h : allocScan v n.toNat v.totalBlocks.toNat 0 0 0 = none) :
    catalogBitmapAlloc v n stage =
      (.error ⟨noSpace, stage, 0,
        s!"no run of {n.toNat} contiguous free allocation blocks exists"⟩, v) := by
  have hcount : ¬(n = 0 ∨ n > v.freeBlocks) :=
    not_or.mpr ⟨(BitVec.ne_of_lt hpos).symm, BitVec.not_lt.mpr hle⟩
  rw [catalogBitmapAlloc, if_neg hcount, h]

/-- What the pass finds, on either side of the cursor. -/
theorem allocScan_sound {count : Nat} (hcount : 0 < count)
    (h : allocScan v count v.totalBlocks.toNat 0 0 0 = some start) :
    v.FreeBlocks start count := by
  have hcursor := v.cursor_le
  rw [allocScan_eq, Option.or_eq_some_iff] at h
  rcases h with h | ⟨-, h⟩
  · obtain ⟨hrun, -, hhigh⟩ := firstRun_sound (Counted.zero hcount _) h
    exact ⟨hrun, by omega⟩
  · obtain ⟨hrun, -, hhigh⟩ := firstRun_sound (Counted.zero hcount _) h
    exact ⟨hrun, by omega⟩

theorem allocScan_isSome_iff {count : Nat} (hcount : 0 < count) :
    (allocScan v count v.totalBlocks.toNat 0 0 0).isSome ↔
      ∃ start, v.FreeBlocks start count ∧ (v.cursor ≤ start ∨ start + count ≤ v.cursor) := by
  have hcursor := v.cursor_le
  rw [allocScan_eq, Option.isSome_or, Bool.or_eq_true, firstRun_isSome_iff hcount,
    firstRun_isSome_iff hcount]
  constructor
  · rintro (⟨s, hrun, hlow, hhigh⟩ | ⟨s, hrun, hlow, hhigh⟩)
    · exact ⟨s, ⟨hrun, by omega⟩, .inl hlow⟩
    · exact ⟨s, ⟨hrun, by omega⟩, .inr (by omega)⟩
  · rintro ⟨s, ⟨hrun, hhigh⟩, hside | hside⟩
    · exact .inl ⟨s, hrun, hside, by omega⟩
    · exact .inr ⟨s, hrun, Nat.zero_le _, by omega⟩

theorem catalogBitmapTest_allocated (h : v.FreeBlocks start n.toNat) (block : Nat) :
    catalogBitmapTest (v.allocated start n) block =
      (catalogBitmapTest v block || decide (start ≤ block ∧ block < start + n.toNat)) := by
  have htotal := v.totalBlocks.isLt
  obtain ⟨hfree, hend⟩ := h
  have hbits : blockBit (markRun v.bitmap start n.toNat) block =
      (blockBit v.bitmap block || decide (start ≤ block ∧ block < start + n.toNat)) :=
    blockBit_markRun (by omega) (fun i hi => inBitmap_of_free (hfree i hi)) block
  have hlength : (v.allocated start n).bitmap.length = v.bitmap.length := markRun_length _ _ _
  rw [catalogBitmapTest, catalogBitmapTest]
  by_cases hout : v.bitmap.length ≤ block / 8
  · rw [if_pos (by rwa [hlength]), if_pos hout]
    rfl
  · rw [if_neg (by rwa [hlength]), if_neg hout]
    exact hbits

theorem VolumeMap.allocated_nextAlloc (hpos : 0 < n) (h : start + n.toNat ≤ v.totalBlocks.toNat) :
    (v.allocated start n).nextAlloc < v.totalBlocks := by
  have htotal := v.totalBlocks.isLt
  have hn : 0 < n.toNat := BitVec.lt_def.mp hpos
  have hmod : (start + n.toNat) % 2 ^ 32 = start + n.toNat ∨ (start + n.toNat) % 2 ^ 32 = 0 := by
    omega
  rw [BitVec.lt_def]
  dsimp only [VolumeMap.allocated]
  split_ifs with hin
  · rw [BitVec.toNat_ofNat, Nat.mod_eq_of_lt (by omega)]
    exact hin
  · change 0 < v.totalBlocks.toNat
    omega

/-- An allocation is sound and complete exactly when a run of free blocks, if there is one, is also
there on one side of the cursor. Sound and complete: it finds a run where there is one, what it
returns were free blocks of the volume, it takes those and no others, with the count of free blocks
and the cursor following, and a failure changes nothing. The search goes from the cursor to the end
and then from the start to the cursor, so that the one run it misses is one that the cursor cuts in
two. -/
theorem catalogBitmapAlloc_exact (v : VolumeMap) (n : Word) (stage : Stage) (hpos : 0 < n)
    (hle : n ≤ v.freeBlocks) :
    AllocatesRightly v n stage ↔
      ((∃ start, v.FreeBlocks start n.toNat) →
        ∃ start, v.FreeBlocks start n.toNat ∧
          (v.cursor ≤ start ∨ start + n.toNat ≤ v.cursor)) := by
  have hn : 0 < n.toNat := BitVec.lt_def.mp hpos
  cases hscan : allocScan v n.toNat v.totalBlocks.toNat 0 0 0 with
  | none =>
    have hfailed := catalogBitmapAlloc_none stage hpos hle hscan
    have hnone := not_iff_not.mpr (allocScan_isSome_iff (v := v) hn)
    rw [hscan] at hnone
    constructor
    · intro h hrun
      obtain ⟨start, hstart⟩ := h.found hrun
      rw [hfailed] at hstart
      cases hstart
    · intro h
      refine ⟨fun hrun => absurd (h hrun) (hnone.mp Bool.false_ne_true), ?_, ?_⟩
      · intro start hstart
        rw [hfailed] at hstart
        cases hstart
      · intro why _
        rw [hfailed]
  | some start =>
    have hdone := catalogBitmapAlloc_some stage hpos hle hscan
    have hfree := allocScan_sound hn hscan
    have hside := (allocScan_isSome_iff (v := v) hn).mp (by rw [hscan]; rfl)
    refine iff_of_true ⟨?_, ?_, ?_⟩ fun _ => hside
    · exact fun _ => ⟨start, by rw [hdone]⟩
    · intro start' hstart'
      rw [hdone] at hstart' ⊢
      cases hstart'
      exact ⟨hfree, catalogBitmapTest_allocated hfree, rfl, rfl,
        VolumeMap.allocated_nextAlloc hpos hfree.2⟩
    · intro why hwhy
      rw [hdone] at hwhy
      cases hwhy

/-- A volume of eight blocks, of which the first two are free. -/
def straddled (nextAlloc : Word) : VolumeMap := ⟨[0x3f], false, 8, 2, nextAlloc⟩

theorem catalogBitmapAlloc_exact_ahead : AllocatesRightly (straddled 0) 2 .provisionWrite := by
  rw [catalogBitmapAlloc_exact (straddled 0) 2 .provisionWrite (by decide) (by decide)]
  exact fun _ => ⟨0, ⟨by decide, by decide⟩, .inl (by decide)⟩

/-- With the hint in the middle of the only run, there is said to be none. -/
theorem catalogBitmapAlloc_missesRun :
    ¬∀ (v : VolumeMap) (n : Word) (stage : Stage), 0 < n → n ≤ v.freeBlocks →
      AllocatesRightly v n stage := by
  intro h
  obtain ⟨start, hstart⟩ := (h (straddled 1) 2 .provisionWrite (by decide) (by decide)).found
    ⟨0, by decide, by decide⟩
  have hfailed : (catalogBitmapAlloc (straddled 1) 2 .provisionWrite).1.isOk = false := by decide
  rw [hstart] at hfailed
  cases hfailed

end Alloc

end S5LBox.Rootfs
