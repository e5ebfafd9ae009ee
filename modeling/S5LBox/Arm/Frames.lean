import S5LBox.Arm.Step

/-!
# What ordinary instructions leave alone

An instruction that touches neither memory nor the privileged state writes live registers, the
flags, the GE and T bits and the VFP registers. `ArmCpu.plain` erases these, so that two cores
with the same plain part agree on everything else: the mode and the interrupt masks, every bank,
CP15, the caches and the abort latch. An ordinary instruction completes and keeps the plain part,
or is refused and keeps the core.

## Main definitions

* `ArmCpu.plain`: the core without what ordinary instructions write.
* `Ordinary`: the two outcomes of an ordinary instruction.

## Main results

* one lemma for each instruction group, such as `ordinary_execMedia` and `ordinary_vfpDp`.
-/

namespace S5LBox

open Blocks

/-- The bits of the status register that ordinary instructions keep: E, A, I, F and the mode. -/
def armCpsrKept : Word := 0x3df

/-- The core without what ordinary instructions write. -/
def ArmCpu.plain (c : ArmCpu) : ArmCpu :=
  { c with
    r := fun _ => 0
    cpsr := c.cpsr &&& armCpsrKept
    vfpS := fun _ => 0
    vfpFpscr := 0 }

/-- An ordinary instruction completes and keeps the plain part, or is refused and keeps the
core. -/
inductive Ordinary (c : ArmCpu) : ArmStatus → ArmCpu → Prop
  | ok {c' : ArmCpu} (h : c'.plain = c.plain) : Ordinary c .ok c'
  | refused : Ordinary c .undefined c

namespace Ordinary

variable {c c' : ArmCpu} {st : ArmStatus}

theorem plain (h : Ordinary c st c') : c'.plain = c.plain := by
  cases h with
  | ok h => exact h
  | refused => rfl

theorem ite {p : Prop} [Decidable p] {x y : ArmStatus × ArmCpu} (hx : Ordinary c x.1 x.2)
    (hy : Ordinary c y.1 y.2) : Ordinary c (if p then x else y).1 (if p then x else y).2 := by
  split
  · exact hx
  · exact hy

end Ordinary

/-! ### Small updates -/

section Updates

variable (c : ArmCpu)

@[simp]
theorem plain_setR (n : RegNo) (v : Word) : (c.setR n v).plain = c.plain := rfl

theorem plain_setCpsr {v : Word} (h : v &&& armCpsrKept = c.cpsr &&& armCpsrKept) :
    (c.setCpsr v).plain = c.plain := by
  simp only [ArmCpu.plain, ArmCpu.setCpsr, h]

theorem plain_setFlag {m : Word} (h : m &&& armCpsrKept = 0#32) (on : Bool) :
    (c.setFlag m on).plain = c.plain := by
  cases on
  · exact plain_setCpsr c (and_not_and_of_disjoint h)
  · exact plain_setCpsr c (or_and_of_disjoint h)

@[simp]
theorem plain_setN (on : Bool) : (c.setFlag armCpsrN on).plain = c.plain :=
  plain_setFlag c (by decide) on

@[simp]
theorem plain_setZ (on : Bool) : (c.setFlag armCpsrZ on).plain = c.plain :=
  plain_setFlag c (by decide) on

@[simp]
theorem plain_setC (on : Bool) : (c.setFlag armCpsrC on).plain = c.plain :=
  plain_setFlag c (by decide) on

@[simp]
theorem plain_setV (on : Bool) : (c.setFlag armCpsrV on).plain = c.plain :=
  plain_setFlag c (by decide) on

@[simp]
theorem plain_setQ : (c.setCpsr (c.cpsr ||| armCpsrQ)).plain = c.plain :=
  plain_setCpsr c (or_and_of_disjoint (by decide))

@[simp]
theorem plain_setT : (c.setCpsr (c.cpsr ||| armCpsrT)).plain = c.plain :=
  plain_setCpsr c (or_and_of_disjoint (by decide))

@[simp]
theorem plain_clearT : (c.setCpsr (c.cpsr &&& ~~~armCpsrT)).plain = c.plain :=
  plain_setCpsr c (and_not_and_of_disjoint (by decide))

@[simp]
theorem plain_vfpSetS (n : Nat) (v : Word) : (vfpSetS c n v).plain = c.plain := rfl

@[simp]
theorem plain_vfpSetD (n : Nat) (v : BitVec 64) : (vfpSetD c n v).plain = c.plain := rfl

@[simp]
theorem plain_setFpscr (v : Word) : ({ c with vfpFpscr := v } : ArmCpu).plain = c.plain := rfl

end Updates

/-! ### The shifter, the flags and the multiplies -/

section Alu

variable (c : ArmCpu)

@[simp]
theorem plain_aluAdd (a b cin : Word) (set : Bool) : (aluAdd c a b cin set).2.plain = c.plain := by
  rw [aluAdd]
  split <;> simp

@[simp]
theorem plain_aluSub (a b cin : Word) (set : Bool) : (aluSub c a b cin set).2.plain = c.plain :=
  plain_aluAdd c a _ cin set

@[simp]
theorem plain_aluLogicFlags (r : Word) (carry set : Bool) :
    (aluLogicFlags c r carry set).plain = c.plain := by
  rw [aluLogicFlags]
  split <;> simp

@[simp]
theorem plain_aluOp (opcode : Nat) (a op2 : Word) (carry S : Bool) :
    (aluOp c opcode a op2 carry S).2.plain = c.plain := by
  simp only [aluOp]
  split <;> simp

@[simp]
theorem plain_execBranch (pc insn : Word) : (execBranch pc insn c).2.plain = c.plain := by
  simp only [execBranch]
  split <;> rfl

theorem ordinary_execMultiply (pc insn : Word) :
    Ordinary c (execMultiply pc insn c).1 (execMultiply pc insn c).2 := by
  refine .ok ?_
  simp only [execMultiply]
  split_ifs <;> simp

theorem ordinary_execMultiplyLong (pc insn : Word) :
    Ordinary c (execMultiplyLong pc insn c).1 (execMultiplyLong pc insn c).2 := by
  refine .ite .refused (.ok ?_)
  split_ifs <;> simp

@[simp]
theorem plain_dspAccumulateWord (product : Int) (accumulator : Word) :
    (dspAccumulateWord c product accumulator).2.plain = c.plain := by
  simp only [dspAccumulateWord]
  split <;> simp

theorem ordinary_execDspMultiply (insn : Word) :
    Ordinary c (execDspMultiply insn c).1 (execDspMultiply insn c).2 :=
  .ite (.ite .refused (.ok (plain_dspAccumulateWord c _ _))) <|
  .ite (.ite .refused (.ok (plain_dspAccumulateWord c _ _))) <|
  .ite (.ite .refused (.ok rfl)) <|
  .ite (.ite .refused (.ok rfl)) <|
  .ite (.ite .refused (.ok rfl)) .refused

end Alu

/-! ### Media -/

section Media

variable (c : ArmCpu) (pc insn : Word)

theorem ordinary_mediaExtend : Ordinary c (mediaExtend pc insn c).1 (mediaExtend pc insn c).2 := by
  refine .ite .refused (.ite (.ok rfl) ?_)
  generalize (if (field insn 20).toNat = 10 then _ else _ : Option Word) = res
  cases res with
  | none => exact .refused
  | some res => exact .ok rfl

theorem ordinary_mediaReverse (op : Word → Word) :
    Ordinary c (mediaReverse op pc insn c).1 (mediaReverse op pc insn c).2 :=
  .ite .refused (.ok rfl)

/-- The GE bits lie above the bits that are kept. -/
theorem plain_setGe (d : ArmCpu) (ge : Word) :
    (d.setCpsr ((d.cpsr &&& ~~~(0x000f0000 : Word)) ||| ((ge &&& 0xf) <<< 16))).plain =
      d.plain := by
  apply plain_setCpsr
  have hge : ((ge &&& 0xf) <<< 16) &&& armCpsrKept = 0#32 := by
    ext i hi
    have hlow : 10 ≤ i → armCpsrKept.getLsbD i = false := by
      revert i
      decide
    simp only [BitVec.getElem_and, BitVec.getElem_shiftLeft, BitVec.getElem_zero]
    by_cases h16 : i < 16
    · simp [h16]
    · simp [← BitVec.getLsbD_eq_getElem, hlow (by omega)]
  rw [or_and_of_disjoint hge]
  exact and_not_and_of_disjoint (by decide)

theorem ordinary_mediaParallel :
    Ordinary c (mediaParallel pc insn c).1 (mediaParallel pc insn c).2 := by
  simp only [mediaParallel]
  split_ifs
  all_goals first
    | exact .refused
    | exact .ok rfl
    | exact .ok (plain_setGe (c.setR _ _) _)

theorem ordinary_mediaDivide : Ordinary c (mediaDivide insn c).1 (mediaDivide insn c).2 := by
  simp only [mediaDivide]
  split_ifs
  all_goals first
    | exact .refused
    | exact .ok rfl

theorem ordinary_mediaPack : Ordinary c (mediaPack pc insn c).1 (mediaPack pc insn c).2 :=
  .ite .refused (.ite (.ok rfl) (.ok rfl))

theorem ordinary_mediaSelect : Ordinary c (mediaSelect pc insn c).1 (mediaSelect pc insn c).2 :=
  .ite .refused (.ok rfl)

theorem ordinary_mediaDual : Ordinary c (mediaDual pc insn c).1 (mediaDual pc insn c).2 := by
  refine .ite .refused (.ok ?_)
  split_ifs <;> simp

theorem ordinary_mediaDualLong :
    Ordinary c (mediaDualLong pc insn c).1 (mediaDualLong pc insn c).2 :=
  .ite .refused (.ok rfl)

theorem ordinary_mediaTopMultiply :
    Ordinary c (mediaTopMultiply pc insn c).1 (mediaTopMultiply pc insn c).2 :=
  .ite .refused <| .ite .refused <| .ite .refused (.ok rfl)

theorem ordinary_mediaAbsDiff :
    Ordinary c (mediaAbsDiff pc insn c).1 (mediaAbsDiff pc insn c).2 :=
  .ite .refused (.ok rfl)

theorem plain_noteSaturation (d : ArmCpu) (saturated : Bool) :
    (if saturated then d.setCpsr (d.cpsr ||| armCpsrQ) else d).plain = d.plain := by
  split <;> simp

theorem ordinary_mediaSaturate :
    Ordinary c (mediaSaturate pc insn c).1 (mediaSaturate pc insn c).2 :=
  .ite .refused (.ok (plain_noteSaturation (c.setR _ _) _))

theorem ordinary_mediaSaturate16 :
    Ordinary c (mediaSaturate16 pc insn c).1 (mediaSaturate16 pc insn c).2 :=
  .ite .refused (.ok (plain_noteSaturation (c.setR _ _) _))

theorem ordinary_execMedia : Ordinary c (execMedia pc insn c).1 (execMedia pc insn c).2 :=
  .ite (ordinary_mediaExtend c pc insn) <|
  .ite (ordinary_mediaReverse c pc insn revWord) <|
  .ite (ordinary_mediaReverse c pc insn rev16Word) <|
  .ite (ordinary_mediaReverse c pc insn revshWord) <|
  .ite (ordinary_mediaParallel c pc insn) <|
  .ite (ordinary_mediaDivide c insn) <|
  .ite (ordinary_mediaPack c pc insn) <|
  .ite (ordinary_mediaSelect c pc insn) <|
  .ite (ordinary_mediaDual c pc insn) <|
  .ite (ordinary_mediaDualLong c pc insn) <|
  .ite (ordinary_mediaTopMultiply c pc insn) <|
  .ite (ordinary_mediaAbsDiff c pc insn) <|
  .ite (ordinary_mediaSaturate c pc insn) <|
  .ite (ordinary_mediaSaturate16 c pc insn) .refused

end Media

/-! ### The VFP unit -/

section Vfp

variable (fpu : HostFpu) (c : ArmCpu) (insn : Word)

theorem plain_foldl {α : Type} {f : ArmCpu → α → ArmCpu} (hf : ∀ c a, (f c a).plain = c.plain)
    (as : List α) : (as.foldl f c).plain = c.plain := by
  induction as generalizing c with
  | nil => rfl
  | cons a as ih => exact (ih (f c a)).trans (hf c a)

theorem ordinary_commitLanes {α : Type} {set : ArmCpu → Nat → α → ArmCpu}
    (hset : ∀ c n v, (set c n v).plain = c.plain) (shape : VfpShortVector) (rd : Nat)
    (f : Nat → Word → α × Word) :
    Ordinary c (commitLanes c set shape rd f).1 (commitLanes c set shape rd f).2 :=
  .ite .refused
    (.ok ((plain_setFpscr _ _).trans (plain_foldl c (fun c (r : Nat × α) => hset c _ r.2) _)))

/-- A short-vector operation is ordinary, whatever its shape. -/
theorem ordinary_shaped {α : Type} {set : ArmCpu → Nat → α → ArmCpu}
    (hset : ∀ c n v, (set c n v).plain = c.plain) (shape : Option VfpShortVector) (rd : Nat)
    (f : VfpShortVector → Nat → Word → α × Word) {x : ArmStatus × ArmCpu}
    (hx : x = match shape with
      | none => (ArmStatus.undefined, c)
      | some shape => commitLanes c set shape rd (f shape)) : Ordinary c x.1 x.2 := by
  subst hx
  cases shape with
  | none => exact .refused
  | some shape => exact ordinary_commitLanes c hset shape rd (f shape)

theorem ordinary_vfpDpArith (op : Nat) :
    Ordinary c (vfpDpArith fpu insn op c).1 (vfpDpArith fpu insn op c).2 := by
  simp only [vfpDpArith]
  cases arithKind op (bit insn 6) with
  | none => exact .refused
  | some kind =>
    exact .ite .refused <|
      .ite (.ite .refused (ordinary_shaped c plain_vfpSetD _ _ _ rfl))
        (ordinary_shaped c plain_vfpSetS _ _ _ rfl)

theorem ordinary_vfpDpUnary : Ordinary c (vfpDpUnary fpu insn c).1 (vfpDpUnary fpu insn c).2 :=
  .ite .refused <|
    .ite (.ite .refused (ordinary_shaped c plain_vfpSetD _ _ _ rfl))
      (ordinary_shaped c plain_vfpSetS _ _ _ rfl)

theorem ordinary_vfpDpCompare :
    Ordinary c (vfpDpCompare fpu insn c).1 (vfpDpCompare fpu insn c).2 :=
  .ite .refused <| .ite .refused <|
    .ite (.ite .refused (.ok rfl)) (.ok rfl)

theorem ordinary_vfpDpPrecision :
    Ordinary c (vfpDpPrecision fpu insn c).1 (vfpDpPrecision fpu insn c).2 :=
  .ite .refused <| .ite .refused <|
    .ite (.ite .refused (.ite .refused (.ok rfl)))
      (.ite .refused (.ok rfl))

theorem ordinary_vfpDpFromInt :
    Ordinary c (vfpDpFromInt fpu insn c).1 (vfpDpFromInt fpu insn c).2 :=
  .ite (.ite .refused (.ok rfl)) (.ite .refused (.ok rfl))

theorem ordinary_vfpDpToInt : Ordinary c (vfpDpToInt fpu insn c).1 (vfpDpToInt fpu insn c).2 :=
  .ite .refused (.ite (.ite .refused (.ok rfl)) (.ok rfl))

theorem ordinary_vfpDpOther : Ordinary c (vfpDpOther fpu insn c).1 (vfpDpOther fpu insn c).2 := by
  rw [vfpDpOther]
  split
  case h_1 | h_2 => exact ordinary_vfpDpUnary fpu c insn
  case h_3 | h_4 => exact ordinary_vfpDpCompare fpu c insn
  case h_5 => exact ordinary_vfpDpPrecision fpu c insn
  case h_6 => exact ordinary_vfpDpFromInt fpu c insn
  case h_7 | h_8 => exact ordinary_vfpDpToInt fpu c insn
  case h_9 => exact .refused

theorem ordinary_vfpDp : Ordinary c (vfpDp fpu insn c).1 (vfpDp fpu insn c).2 :=
  .ite (.ite (ordinary_vfpDpOther fpu c insn) .refused)
    (ordinary_vfpDpArith fpu c insn _)

theorem ordinary_vfpXfer64 : Ordinary c (vfpXfer64 insn c).1 (vfpXfer64 insn c).2 :=
  .ite .refused <| .ite .refused <|
    .ite (.ite .refused (.ite (.ok rfl) (.ok rfl)))
      (.ite .refused (.ite (.ok rfl) (.ok rfl)))

theorem ordinary_vfpVmrs (vn rt : RegNo) : Ordinary c (vfpVmrs vn rt c).1 (vfpVmrs vn rt c).2 := by
  have hmask : (0x0fffffff : Word) = ~~~0xf0000000 := by decide
  have hflags : ∀ v : Word,
      (c.setCpsr ((c.cpsr &&& 0x0fffffff) ||| (v &&& 0xf0000000))).plain = c.plain := by
    intro v
    apply plain_setCpsr
    rw [hmask]
    exact merge_and_of_disjoint (by decide)
  simp only [vfpVmrs]
  split_ifs
  all_goals first
    | exact .refused
    | exact .ok rfl
    | exact .ok (hflags _)

theorem ordinary_vfpMoveSingle (L : Bool) (rt : RegNo) (sn : Nat) :
    Ordinary c (vfpMoveSingle L rt sn c).1 (vfpMoveSingle L rt sn c).2 :=
  .ite .refused (.ite (.ok rfl) (.ok rfl))

/-- A transfer between a core register and the VFP unit is ordinary, is refused with the guest's
exception, or writes FPEXC, which is out of reach of User mode. -/
theorem vfpXfer32_cases :
    Ordinary c (vfpXfer32 insn c).1 (vfpXfer32 insn c).2 ∨
      vfpXfer32 insn c = (.guestUndefined, c) ∨
        c.mode ≠ armModeUsr ∧ ∃ v, vfpXfer32 insn c = (.ok, { c with vfpFpexc := v }) := by
  simp only [vfpXfer32]
  split_ifs with _ _ _ _ _ _ _ _ hfpexc _ hL
  all_goals first
    | exact .inl .refused
    | exact .inl (ordinary_vfpMoveSingle c _ _ _)
    | exact .inr (.inl rfl)
    | exact .inl (ordinary_vfpVmrs c _ _)
    | skip
  simp only [vfpVmsr]
  split_ifs with _ _ hvn
  · exact .inl .refused
  · exact .inl (.ok rfl)
  · exact .inr (.inr ⟨fun hmode => hfpexc ⟨hvn, hmode⟩, _, rfl⟩)
  · exact .inl .refused

end Vfp

/-! ### Thumb -/

section Thumb

variable (c : ArmCpu) (pc insn next : Word)

@[simp]
theorem plain_thumbLogic (rd : RegNo) (res : Word) (carry : Bool) :
    (thumbLogic rd res carry c).plain = c.plain := plain_aluLogicFlags (c.setR rd res) res carry true

@[simp]
theorem plain_writeResult (rd : RegNo) (r : Word × ArmCpu) : (writeResult rd r).plain = r.2.plain :=
  rfl

@[simp]
theorem plain_thumbShiftAdd : (thumbShiftAdd insn c).plain = c.plain := by
  simp only [thumbShiftAdd]
  split_ifs <;> simp

@[simp]
theorem plain_thumbImmediate : (thumbImmediate insn c).plain = c.plain := by
  simp only [thumbImmediate]
  split <;> simp

@[simp]
theorem plain_thumbAlu : (thumbAlu insn c).plain = c.plain := by
  simp only [thumbAlu]
  split <;> simp

theorem ordinary_thumbHiReg :
    Ordinary c (thumbHiReg pc insn next c).1.1 (thumbHiReg pc insn next c).2 := by
  simp only [thumbHiReg]
  split <;> split_ifs
  all_goals first
    | exact .refused
    | exact .ok (by simp)

@[simp]
theorem plain_thumbAddress : (thumbAddress pc insn c).plain = c.plain := rfl

@[simp]
theorem plain_thumbExtend : (thumbExtend insn c).plain = c.plain := rfl

theorem ordinary_thumbReverse : Ordinary c (thumbReverse insn c).1 (thumbReverse insn c).2 := by
  simp only [thumbReverse]
  split
  case h_1 | h_2 | h_3 => exact .ok rfl
  case h_4 => exact .refused

@[simp]
theorem plain_thumbBranch : (Exec.thumbBranch pc insn c).2.plain = c.plain := by
  simp only [Exec.thumbBranch]
  split_ifs <;> simp

@[simp]
theorem plain_thumbBl : (Exec.thumbBl pc insn next c).2.plain = c.plain := by
  simp only [Exec.thumbBl]
  split_ifs <;> rfl

end Thumb

/-! ### Transfers -/

section Transfers

variable (c : ArmCpu)

@[simp]
theorem plain_interwork (val : Word) : (interwork c val).2.plain = c.plain := by
  simp only [interwork]
  split_ifs <;> simp

@[simp]
theorem plain_commitList (vs : List (RegNo × Word)) :
    (Exec.commitList ArmCpu.setR vs c).plain = c.plain :=
  plain_foldl c (fun c (v : RegNo × Word) => plain_setR c v.1 v.2) vs

@[simp]
theorem plain_writeBase (t : Exec.BlockTransfer) : (t.writeBase c).plain = c.plain := by
  rw [Exec.BlockTransfer.writeBase]
  split_ifs <;> rfl

end Transfers

end S5LBox
