import S5LBox.Arm.Mmu

/-!
# The walk and the block of its address

The walk reads its virtual address through the number of its 1 KB block only, apart from the
offset that it copies into the physical address, and it reads the translation registers of the
stamp only. The verdict of a walk is therefore a function of the block, the access kind, the
privilege, the stamp and the two descriptor words, and the tag of the translation cache names
the first three.

## Main definitions

* `mmuVerdict`: the outcome of a walk over given descriptors.
* `TablesSteady`: the descriptors a walk reads now are those of every bus state of an era.

## Main results

* `mmuVerdict_block`, `mmuVerdict_stamp`: what the verdict depends on.
* `mmuTlbTag_injective`: the tag determines the block, the access kind and the privilege.
* `mmuWalk_verdict`, `mmuVerdict_steady`: the walk is its verdict, and over steady tables the
  descriptors may come from any states of the era.
-/

namespace S5LBox

open Blocks

/-! ### The walk depends on the block of its address -/

section Block

variable {va va' : Word}

theorem mmuUseTtbr0_block (p : Cp15) (h : SameBlock 10 va va') :
    mmuUseTtbr0 p va = mmuUseTtbr0 p va' := by
  have hn : (p.ttbcr &&& 7).toNat ≤ 7 := by
    rw [BitVec.toNat_and]
    exact Nat.and_le_right
  simp only [mmuUseTtbr0]
  rw [h.shiftRight (by omega : 10 ≤ 32 - (p.ttbcr &&& 7).toNat)]

theorem mmuL1Addr_block (p : Cp15) (h : SameBlock 10 va va') :
    mmuL1Addr p va = mmuL1Addr p va' := by
  simp only [mmuL1Addr, mmuUseTtbr0_block p h, h.shiftRight (by omega : 10 ≤ 20)]

theorem mmuWalkDisabled_block (p : Cp15) (h : SameBlock 10 va va') :
    mmuWalkDisabled p va = mmuWalkDisabled p va' := by
  simp only [mmuWalkDisabled, mmuUseTtbr0_block p h]

theorem mmuL2Addr_block (l1 : Word) (h : SameBlock 10 va va') :
    mmuL2Addr l1 va = mmuL2Addr l1 va' := by
  simp only [mmuL2Addr, h.shiftRight (by omega : 10 ≤ 12)]

theorem mmuL2Ap_block (xp : Bool) (l2 : Word) (h : SameBlock 10 va va') :
    mmuL2Ap xp va l2 = mmuL2Ap xp va' l2 := by
  simp only [mmuL2Ap, h.shiftRight (by omega : 10 ≤ 14), h.shiftRight (by omega : 10 ≤ 10)]

end Block

/-- The physical address for the offset of `va` in the block that `pa` was computed for. -/
def moveOffset (va pa : Word) : Word := (pa &&& ~~~0x3ff) ||| (va &&& 0x3ff)

/-- The same for the outcome of a classification. -/
def WalkResult.moveTo (va : Word) : WalkResult → WalkResult
  | .mapped pa => .mapped (moveOffset va pa)
  | r => r

/-- The frame of every page size is at least 4 KB, so that the offset in the block is copied. -/
theorem moveOffset_splice {va va' : Word} (h : SameBlock 10 va va') {n : Nat} (hn : 10 ≤ n)
    {frame offset : Word} (hf : frame = ~~~lowMask 32 n) (ho : offset = lowMask 32 n) (x : Word) :
    moveOffset va ((x &&& frame) ||| (va' &&& offset)) = (x &&& frame) ||| (va &&& offset) := by
  subst hf ho
  exact h.splice hn x

section Decode

variable {va va' : Word} (p : Cp15) (acc : ArmAccess) (priv : Bool)

theorem mmuL1Decode_block (l1 : Word) (h : SameBlock 10 va va') :
    mmuL1Decode p va acc priv l1 = (mmuL1Decode p va' acc priv l1).moveTo va := by
  simp only [mmuL1Decode]
  split_ifs
  all_goals simp only [WalkResult.moveTo]
  · rw [moveOffset_splice h (n := 24) (by omega) (by decide) (by decide)]
  · rw [moveOffset_splice h (n := 20) (by omega) (by decide) (by decide)]

theorem mmuL2Decode_block (domain l2 : Word) (h : SameBlock 10 va va') :
    mmuL2Decode p va acc priv domain l2 = (mmuL2Decode p va' acc priv domain l2).moveTo va := by
  simp only [mmuL2Decode, mmuL2Ap_block _ l2 h]
  split_ifs
  all_goals simp only [WalkResult.moveTo]
  · rw [moveOffset_splice h (n := 16) (by omega) (by decide) (by decide)]
  · rw [moveOffset_splice h (n := 12) (by omega) (by decide) (by decide)]

end Decode

/-! ### The verdict of a walk -/

/-- The verdict of a walk that reads the descriptors `l1` and `l2`. -/
def mmuVerdict (p : Cp15) (va : Word) (acc : ArmAccess) (priv : Bool) (l1 l2 : Word) :
    WalkResult :=
  if mmuWalkDisabled p va then
    .fault (fsrMake armFsrSectionTranslation 0 (acc == .write))
  else
    match mmuL1Decode p va acc priv l1 with
    | .coarse domain => mmuL2Decode p va acc priv domain l2
    | result => result

theorem mmuVerdict_block {va va' : Word} (p : Cp15) (acc : ArmAccess) (priv : Bool)
    (l1 l2 : Word) (h : SameBlock 10 va va') :
    mmuVerdict p va acc priv l1 l2 = (mmuVerdict p va' acc priv l1 l2).moveTo va := by
  simp only [mmuVerdict, mmuWalkDisabled_block p h, mmuL1Decode_block p acc priv l1 h]
  split
  · rfl
  · cases mmuL1Decode p va' acc priv l1 with
    | fault fsr => rfl
    | mapped pa => rfl
    | coarse domain => exact mmuL2Decode_block p acc priv domain l2 h

/-- The walk reads the translation registers of the stamp only. -/
theorem mmuVerdict_stamp {p p' : Cp15} (h : p.stamp = p'.stamp) (va : Word) (acc : ArmAccess)
    (priv : Bool) (l1 l2 : Word) :
    mmuVerdict p va acc priv l1 l2 = mmuVerdict p' va acc priv l1 l2 := by
  cases p
  cases p'
  simp only [Cp15.stamp, TlbStamp.mk.injEq] at h
  obtain ⟨rfl, rfl, rfl, rfl, rfl, rfl⟩ := h
  rfl

theorem mmuL1Addr_stamp {p p' : Cp15} (h : p.stamp = p'.stamp) (va : Word) :
    mmuL1Addr p va = mmuL1Addr p' va := by
  cases p
  cases p'
  simp only [Cp15.stamp, TlbStamp.mk.injEq] at h
  obtain ⟨rfl, rfl, rfl, rfl, rfl, rfl⟩ := h
  rfl

/-- A final outcome is an address or a fault with a status. -/
def WalkResult.Final : WalkResult → Prop
  | .fault fsr => fsr ≠ 0
  | .mapped _ => True
  | .coarse _ => False

theorem fsrMake_ne_zero {status : Word} (h : status &&& 0xf ≠ 0) (domain : Word) (write : Bool) :
    fsrMake status domain write ≠ 0 := by
  intro h0
  rw [fsrMake, BitVec.or_assoc] at h0
  have h0 := BitVec.or_eq_zero_iff.mp h0
  exact h h0.1

theorem mmuL1Decode_final (p : Cp15) (va : Word) (acc : ArmAccess) (priv : Bool) (l1 : Word) :
    (mmuL1Decode p va acc priv l1).Final ∨ ∃ domain, mmuL1Decode p va acc priv l1 = .coarse domain
    := by
  simp only [mmuL1Decode]
  split_ifs
  all_goals first
    | exact .inl (fsrMake_ne_zero (by decide) _ _)
    | exact .inl trivial
    | exact .inr ⟨_, rfl⟩

theorem mmuL2Decode_final (p : Cp15) (va : Word) (acc : ArmAccess) (priv : Bool)
    (domain l2 : Word) : (mmuL2Decode p va acc priv domain l2).Final := by
  simp only [mmuL2Decode]
  split_ifs
  all_goals first
    | exact fsrMake_ne_zero (by decide) _ _
    | exact trivial

theorem mmuVerdict_final (p : Cp15) (va : Word) (acc : ArmAccess) (priv : Bool) (l1 l2 : Word) :
    (mmuVerdict p va acc priv l1 l2).Final := by
  simp only [mmuVerdict]
  split
  · exact fsrMake_ne_zero (by decide) _ _
  · rcases mmuL1Decode_final p va acc priv l1 with hfinal | ⟨domain, hcoarse⟩
    · revert hfinal
      cases mmuL1Decode p va acc priv l1 with
      | fault fsr => exact id
      | mapped pa => exact id
      | coarse domain => exact False.elim
    · rw [hcoarse]
      exact mmuL2Decode_final p va acc priv domain l2

/-! ### The tag -/

theorem mmuTlbTag_shiftRight (va : Word) (acc : ArmAccess) (priv : Bool) :
    mmuTlbTag va acc priv >>> 3 = va >>> 10 := by
  have hlow : ((acc.code <<< 1) ||| (if priv then (1 : Word) else 0)) >>> 3 = 0#32 := by
    cases acc <;> cases priv <;> rfl
  rw [mmuTlbTag, BitVec.or_assoc, BitVec.ushiftRight_or_distrib, hlow, BitVec.or_zero]
  apply BitVec.eq_of_getLsbD_eq
  intro i hi
  simp only [BitVec.getLsbD_ushiftRight, BitVec.getLsbD_shiftLeft]
  by_cases h : 3 + i < 32
  · simp [h]
  · have hva : va.getLsbD (10 + i) = false := BitVec.getLsbD_of_ge _ _ (by omega)
    simp [h, hva]

theorem mmuTlbTag_low (va : Word) (acc : ArmAccess) (priv : Bool) :
    mmuTlbTag va acc priv &&& 7#32 = (acc.code <<< 1) ||| (if priv then (1 : Word) else 0) := by
  have hlow : ((acc.code <<< 1) ||| (if priv then (1 : Word) else 0)) &&& 7#32 =
      (acc.code <<< 1) ||| (if priv then (1 : Word) else 0) := by
    cases acc <;> cases priv <;> rfl
  have hhigh : ((va >>> 10) <<< 3) &&& 7#32 = 0#32 := by
    apply BitVec.eq_of_getLsbD_eq
    intro i hi
    simp only [show 7#32 = lowMask 32 3 by decide, BitVec.getLsbD_and,
      BitVec.getLsbD_shiftLeft, getLsbD_lowMask]
    by_cases h : i < 3 <;> simp [h]
  rw [mmuTlbTag, BitVec.or_assoc, BitVec.and_or_distrib_right, hhigh, hlow, BitVec.zero_or]

/-- The tag determines the block, the access kind and the privilege. -/
theorem mmuTlbTag_injective {va va' : Word} {acc acc' : ArmAccess} {priv priv' : Bool}
    (h : mmuTlbTag va acc priv = mmuTlbTag va' acc' priv') :
    SameBlock 10 va va' ∧ acc = acc' ∧ priv = priv' := by
  refine ⟨?_, ?_⟩
  · rw [SameBlock, ← mmuTlbTag_shiftRight va acc priv, h, mmuTlbTag_shiftRight]
  · have hlow := mmuTlbTag_low va acc priv
    rw [h, mmuTlbTag_low] at hlow
    revert hlow
    cases acc <;> cases acc' <;> cases priv <;> cases priv' <;> decide

/-! ### Walks over an era -/

section Walks

variable {σ : Type} (B : ArmBus σ)

/-- The first-level descriptor that a walk reads. -/
def mmuFetchL1 (p : Cp15) (va : Word) (b : σ) : Word × σ := B.read32 b (mmuL1Addr p va)

/-- The second-level descriptor that a walk reads next. -/
def mmuFetchL2 (p : Cp15) (va : Word) (b : σ) : Word × σ :=
  B.read32 (mmuFetchL1 B p va b).2 (mmuL2Addr (mmuFetchL1 B p va b).1 va)

/-- The descriptors that a walk from the bus state `b` reads are those of every bus state of
the era. -/
def TablesSteady (p : Cp15) (va : Word) (era : List σ) (b : σ) : Prop :=
  ∀ b' ∈ era,
    (B.read32 b' (mmuL1Addr p va)).1 = (mmuFetchL1 B p va b).1 ∧
      ((mmuFetchL1 B p va b).1 &&& 3 = 1 →
        (B.read32 b' (mmuL2Addr (mmuFetchL1 B p va b).1 va)).1 = (mmuFetchL2 B p va b).1)

variable (p : Cp15) (va : Word) (acc : ArmAccess) (priv : Bool) (pa : Word) (b : σ)

theorem mmuWalk_verdict (hM : p.sctlr &&& armSctlrM ≠ 0) :
    (mmuWalk B p va acc priv pa b).1 =
      (mmuVerdict p va acc priv (mmuFetchL1 B p va b).1 (mmuFetchL2 B p va b).1).out pa := by
  simp only [mmuWalk, if_neg hM, mmuVerdict, mmuFetchL1, mmuFetchL2]
  split
  · rfl
  · cases mmuL1Decode p va acc priv (B.read32 b (mmuL1Addr p va)).1 <;> rfl

/-- The two bits of the descriptor type. -/
theorem descriptorType_cases (l : Word) :
    l &&& 3 = 0 ∨ l &&& 3 = 1 ∨ l &&& 3 = 2 ∨ l &&& 3 = 3 := by
  have hle : (l &&& 3).toNat ≤ 3 := by
    rw [BitVec.toNat_and]
    exact Nat.and_le_right
  have hcases : (l &&& 3).toNat = 0 ∨ (l &&& 3).toNat = 1 ∨ (l &&& 3).toNat = 2 ∨
      (l &&& 3).toNat = 3 := by omega
  rcases hcases with h | h | h | h
  · exact .inl (BitVec.eq_of_toNat_eq h)
  · exact .inr (.inl (BitVec.eq_of_toNat_eq h))
  · exact .inr (.inr (.inl (BitVec.eq_of_toNat_eq h)))
  · exact .inr (.inr (.inr (BitVec.eq_of_toNat_eq h)))

theorem mmuL1Decode_coarse {l1 domain : Word} (h : mmuL1Decode p va acc priv l1 = .coarse domain) :
    l1 &&& 3 = 1 := by
  simp only [mmuL1Decode] at h
  rcases descriptorType_cases l1 with h0 | h1 | h2 | h3
  · rw [if_pos h0] at h
    cases h
  · exact h1
  · split_ifs at h
  · rw [if_pos h3] at h
    split_ifs at h

/-- The second-level descriptor counts only behind a pointer to a second-level table. -/
theorem mmuVerdict_l2 {l1 : Word} (h : l1 &&& 3 ≠ 1) (l2 l2' : Word) :
    mmuVerdict p va acc priv l1 l2 = mmuVerdict p va acc priv l1 l2' := by
  simp only [mmuVerdict]
  split
  · rfl
  · cases hd : mmuL1Decode p va acc priv l1 with
    | fault fsr => rfl
    | mapped pa => rfl
    | coarse domain => exact absurd (mmuL1Decode_coarse p va acc priv hd) h

/-- The verdict over steady tables is the one over descriptors of any states of the era. -/
theorem mmuVerdict_steady {era : List σ} (h : TablesSteady B p va era b) {b₁ b₂ : σ}
    (h₁ : b₁ ∈ era) (h₂ : b₂ ∈ era) :
    let l1 := (B.read32 b₁ (mmuL1Addr p va)).1
    mmuVerdict p va acc priv l1 (B.read32 b₂ (mmuL2Addr l1 va)).1 =
      mmuVerdict p va acc priv (mmuFetchL1 B p va b).1 (mmuFetchL2 B p va b).1 := by
  simp only [(h b₁ h₁).1]
  by_cases hcoarse : (mmuFetchL1 B p va b).1 &&& 3 = 1
  · rw [(h b₂ h₂).2 hcoarse]
  · exact mmuVerdict_l2 p va acc priv hcoarse _ _

end Walks

end S5LBox
