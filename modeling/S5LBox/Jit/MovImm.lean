import S5LBox.Jit.BitmaskImm

/-!
# Constants in a register

`a64_mov_imm` puts a constant into a register of the target, sixteen bits at a time: one instruction
makes a part of it and the rest zeros, or ones, and others replace the parts that are not. The
emitter drops what its buffer has no room for and what cannot be encoded, and remembers that it has.

## Main definitions

* `A64Emit`, `a64Word`, `movewide`: the emitter.
* `a64MovImm`, `a64MovImmWords`: the constant and the number of instructions.
* `moveWide`, `run`: what the target does.

## Main results

* `run_sequence`: the register after the instructions.
* `immediates_exact`: both encoders.
-/

namespace S5LBox.Jit

open BitRuns

/-! ### The emitter -/

/-- `a64_emit_t`, with the words emitted so far. -/
structure A64Emit where
  words : List (BitVec 32)
  cap : Nat
  overflow : Bool
  bad : Bool

/-- `a64_word`. -/
def a64Word (e : A64Emit) (w : BitVec 32) : A64Emit :=
  if e.words.length ≥ e.cap then { e with overflow := true }
  else { e with words := e.words ++ [w] }

/-- The layout of a move of sixteen bits. -/
def moveWord (sf : Bool) (opc rd imm16 hw : Nat) : BitVec 32 :=
  BitVec.ofNat 32
    (sf.toNat <<< 31 ||| opc <<< 29 ||| 0x25 <<< 23 ||| hw <<< 21 ||| imm16 <<< 5 ||| rd)

/-- `movewide`, which refuses to encode rather than truncate. -/
def movewide (e : A64Emit) (sf : Bool) (opc rd imm16 shift : Nat) : A64Emit :=
  if ¬rd < 32 then { e with bad := true }
  else if imm16 > 0xffff then { e with bad := true }
  else if shift &&& 15 ≠ 0 ∨ shift > 48 then { e with bad := true }
  else if sf = false ∧ shift > 16 then { e with bad := true }
  else a64Word e (moveWord sf opc rd imm16 (shift / 16))

/-- `a64_movn`. -/
def a64Movn (e : A64Emit) (sf : Bool) (rd imm16 shift : Nat) : A64Emit :=
  movewide e sf 0 rd imm16 shift

/-- `a64_movz`. -/
def a64Movz (e : A64Emit) (sf : Bool) (rd imm16 shift : Nat) : A64Emit :=
  movewide e sf 2 rd imm16 shift

/-- `a64_movk`. -/
def a64Movk (e : A64Emit) (sf : Bool) (rd imm16 shift : Nat) : A64Emit :=
  movewide e sf 3 rd imm16 shift

/-- `nhalf`. -/
def nhalf (sf : Bool) : Nat := if sf then 4 else 2

/-- What `mov_imm_plan` works out of a constant. -/
structure MovPlan where
  useMovn : Bool
  baseHalf : Nat
  halves : Nat → BitVec 64
  count : Nat

/-- What the base instruction leaves in the other parts. -/
def MovPlan.skip (p : MovPlan) : BitVec 64 := if p.useMovn then 0xffff#64 else 0#64

/-- The part that the base instruction covers, and the number of instructions: where no part needs
one there is the base instruction alone. -/
def planBase (sf useMovn : Bool) (halves : Nat → BitVec 64) : MovPlan :=
  let skip := if useMovn then 0xffff#64 else 0#64
  match (List.range (nhalf sf)).filter fun i => halves i ≠ skip with
  | [] => ⟨useMovn, 0, halves, 1⟩
  | base :: rest => ⟨useMovn, base, halves, rest.length + 1⟩

/-- `mov_imm_plan`. -/
def movImmPlan (sf : Bool) (value : BitVec 64) : MovPlan :=
  let value := if sf = false then value &&& 0xffffffff#64 else value
  let halves (i : Nat) := value >>> (16 * i) &&& 0xffff#64
  let zeros := (List.range (nhalf sf)).countP fun i => halves i = 0#64
  let ones := (List.range (nhalf sf)).countP fun i => halves i = 0xffff#64
  planBase sf (ones > zeros) halves

/-- `a64_mov_imm_words`. -/
def a64MovImmWords (sf : Bool) (value : BitVec 64) : Nat := (movImmPlan sf value).count

/-- `a64_mov_imm`. -/
def a64MovImm (e : A64Emit) (sf : Bool) (rd : Nat) (value : BitVec 64) : A64Emit :=
  let p := movImmPlan sf value
  let e :=
    if p.useMovn then
      a64Movn e sf rd (~~~p.halves p.baseHalf &&& 0xffff#64).toNat (p.baseHalf * 16)
    else a64Movz e sf rd (p.halves p.baseHalf).toNat (p.baseHalf * 16)
  (List.range (nhalf sf)).foldl (fun e i =>
    if i = p.baseHalf ∨ p.halves i = p.skip then e
    else a64Movk e sf rd (p.halves i).toNat (i * 16)) e

/-! ### What the target does -/

/-- The general registers. The register 31 of a move is the zero register. -/
abbrev Registers := Nat → BitVec 64

/-- The contents of a register. -/
def readX (x : Registers) (r : Nat) : BitVec 64 := if r = 31 then 0#64 else x r

/-- A register is written. What is written to the zero register is discarded. -/
def writeX (x : Registers) (r : Nat) (v : BitVec 64) : Registers :=
  if r = 31 then x else Function.update x r v

/-- The bits of a register that an instruction of its width writes. -/
def narrow (sf : Bool) (v : BitVec 64) : BitVec 64 := if sf then v else v &&& 0xffffffff#64

/-- Sixteen bits of a word are replaced. -/
def replaceHalf (v : BitVec 64) (hw imm16 : Nat) : BitVec 64 :=
  (v &&& ~~~(0xffff#64 <<< (16 * hw))) ||| BitVec.ofNat 64 imm16 <<< (16 * hw)

/-- MOVN, MOVZ and MOVK. -/
def moveWide (w : BitVec 32) (x : Registers) : Option Registers :=
  let sf := w.toNat.testBit 31
  let opc := w.toNat >>> 29 &&& 3
  let hw := w.toNat >>> 21 &&& 3
  let imm16 := w.toNat >>> 5 &&& 0xffff
  let rd := w.toNat &&& 31
  if w.toNat >>> 23 &&& 0x3f ≠ 0x25 ∨ opc = 1 ∨ (sf = false ∧ hw ≥ 2) then none
  else
    let result := replaceHalf (if opc = 3 then readX x rd else 0#64) hw imm16
    some (writeX x rd (narrow sf (if opc = 0 then ~~~result else result)))

/-- Instructions, one after the other. -/
def run : List (BitVec 32) → Registers → Option Registers
  | [], x => some x
  | w :: ws, x => (moveWide w x).bind (run ws)

/-! ### One instruction -/

variable {sf : Bool} {opc rd imm16 hw : Nat}

theorem toNat_moveWord (sf : Bool) (hopc : opc < 4) (hrd : rd < 32) (himm : imm16 < 2 ^ 16)
    (hhw : hw < 4) : (moveWord sf opc rd imm16 hw).toNat =
      sf.toNat * 2 ^ 31 + opc * 2 ^ 29 + 0x25 * 2 ^ 23 + hw * 2 ^ 21 + imm16 * 2 ^ 5 + rd := by
  have hsf : sf.toNat ≤ 1 := sf.toNat_le
  rw [moveWord, Nat.shiftLeft_eq, Nat.shiftLeft_eq, Nat.shiftLeft_eq, Nat.shiftLeft_eq,
    Nat.shiftLeft_eq, or_eq_add (k := 31) (y := opc * 2 ^ 29) (by omega) (by omega),
    or_eq_add (k := 29) (y := 0x25 * 2 ^ 23) (by omega) (by omega),
    or_eq_add (k := 23) (y := hw * 2 ^ 21) (by omega) (by omega),
    or_eq_add (k := 21) (y := imm16 * 2 ^ 5) (by omega) (by omega),
    or_eq_add (k := 5) (y := rd) (by omega) hrd, BitVec.toNat_ofNat, Nat.mod_eq_of_lt (by omega)]

/-- The target does what the word was made for. -/
theorem moveWide_moveWord (x : Registers) (hopc : opc < 4) (hmov : opc ≠ 1) (hrd : rd < 32)
    (himm : imm16 < 2 ^ 16) (hhw : hw < nhalf sf) :
    moveWide (moveWord sf opc rd imm16 hw) x = some (writeX x rd (narrow sf
      (if opc = 0 then ~~~replaceHalf 0#64 hw imm16
        else replaceHalf (if opc = 3 then readX x rd else 0#64) hw imm16))) := by
  have hhw4 : hw < 4 := hhw.trans_le (by cases sf <;> decide)
  have hsf : sf.toNat ≤ 1 := sf.toNat_le
  have hword := toNat_moveWord sf hopc hrd himm hhw4
  have hand3 (y : Nat) : y &&& 3 = y % 4 := Nat.and_two_pow_sub_one_eq_mod y 2
  have hand31 (y : Nat) : y &&& 31 = y % 32 := Nat.and_two_pow_sub_one_eq_mod y 5
  have hand63 (y : Nat) : y &&& 0x3f = y % 64 := Nat.and_two_pow_sub_one_eq_mod y 6
  have hand16 (y : Nat) : y &&& 0xffff = y % 65536 := Nat.and_two_pow_sub_one_eq_mod y 16
  have hopc' : (moveWord sf opc rd imm16 hw).toNat >>> 29 &&& 3 = opc := by
    rw [hword, Nat.shiftRight_eq_div_pow, hand3]
    omega
  have hhw' : (moveWord sf opc rd imm16 hw).toNat >>> 21 &&& 3 = hw := by
    rw [hword, Nat.shiftRight_eq_div_pow, hand3]
    omega
  have himm' : (moveWord sf opc rd imm16 hw).toNat >>> 5 &&& 0xffff = imm16 := by
    rw [hword, Nat.shiftRight_eq_div_pow, hand16]
    omega
  have hrd' : (moveWord sf opc rd imm16 hw).toNat &&& 31 = rd := by
    rw [hword, hand31]
    omega
  have hfixed : (moveWord sf opc rd imm16 hw).toNat >>> 23 &&& 0x3f = 0x25 := by
    rw [hword, Nat.shiftRight_eq_div_pow, hand63]
    omega
  have hsf' : (moveWord sf opc rd imm16 hw).toNat.testBit 31 = sf := by
    rw [hword, Nat.testBit_eq_decide_div_mod_eq]
    cases sf with
    | true => exact decide_eq_true (by rw [Bool.toNat_true]; omega)
    | false => exact decide_eq_false (by rw [Bool.toNat_false]; omega)
  have hallowed : ¬(0x25 ≠ 0x25 ∨ opc = 1 ∨ sf = false ∧ hw ≥ 2) := by
    rintro (hne | hone | ⟨rfl, hge⟩)
    · exact hne rfl
    · exact hmov hone
    · exact absurd hhw (Nat.not_lt.mpr hge)
  rw [moveWide, hopc', hhw', himm', hrd', hfixed, hsf']
  dsimp only
  rw [if_neg hallowed]
  by_cases hzero : opc = 0
  · rw [hzero]
    rfl
  · rw [if_neg hzero, if_neg hzero]

/-! ### The bits of a register -/

variable {v value : BitVec 64} {i j r : Nat} {x : Registers}

@[simp]
theorem writeX_writeX (x : Registers) (r : Nat) (u v : BitVec 64) :
    writeX (writeX x r u) r v = writeX x r v := by
  rw [writeX, writeX, writeX]
  split_ifs
  · rfl
  · exact Function.update_idem ..

theorem readX_writeX (hr : r ≠ 31) : readX (writeX x r v) r = v := by
  rw [readX, writeX, if_neg hr, if_neg hr, Function.update_self]

theorem getLsbD_narrow (hi : i < 64) :
    (narrow sf v).getLsbD i = (v.getLsbD i && decide (i < regsize sf)) := by
  rw [← getLsbD_elementMask (regsize_le sf) hi, ← BitVec.getLsbD_and]
  cases sf with
  | true =>
    have hall : decide (i < regsize true) = true := decide_eq_true hi
    rw [BitVec.getLsbD_and, getLsbD_elementMask (regsize_le true) hi, hall, Bool.and_true]
    rfl
  | false => rfl

theorem getLsbD_low16 (hi : i < 64) : (0xffff#64).getLsbD i = decide (i < 16) :=
  getLsbD_elementMask (by decide : 16 ≤ 64) hi

theorem getLsbD_replaceHalf (himm : imm16 < 2 ^ 16) (hi : i < 64) :
    (replaceHalf v hw imm16).getLsbD i =
      if i / 16 = hw then imm16.testBit (i % 16) else v.getLsbD i := by
  have himm' : (BitVec.ofNat 64 imm16).getLsbD (i - 16 * hw) = imm16.testBit (i - 16 * hw) := by
    rw [BitVec.getLsbD_ofNat, decide_eq_true (by omega), Bool.true_and]
  rw [replaceHalf, BitVec.getLsbD_or, BitVec.getLsbD_and, BitVec.getLsbD_not,
    BitVec.getLsbD_shiftLeft, BitVec.getLsbD_shiftLeft, getLsbD_low16 (by omega), himm',
    decide_eq_true hi, Bool.true_and, Bool.true_and]
  by_cases hbelow : i < 16 * hw
  · rw [if_neg (by omega), decide_eq_true hbelow]
    simp
  · rw [decide_eq_false hbelow]
    by_cases hin : i - 16 * hw < 16
    · rw [if_pos (by omega), decide_eq_true hin, show i - 16 * hw = i % 16 by omega]
      simp
    · have hhigh : imm16.testBit (i - 16 * hw) = false :=
        Nat.testBit_lt_two_pow (himm.trans_le (Nat.pow_le_pow_right (by decide) (by omega)))
      rw [if_neg (by omega), decide_eq_false hin, hhigh]
      simp

/-! ### The sequence -/

/-- A move of sixteen bits that is not refused. -/
theorem movewide_eq (e : A64Emit) (hrd : rd < 32) (himm : imm16 < 2 ^ 16) (hi : i < nhalf sf) :
    movewide e sf opc rd imm16 (i * 16) = a64Word e (moveWord sf opc rd imm16 i) := by
  have hi4 : i < 4 := hi.trans_le (by cases sf <;> decide)
  have hlow : i * 16 &&& 15 = 0 :=
    (Nat.and_two_pow_sub_one_eq_mod _ 4).trans (Nat.mul_mod_left i 16)
  have hshort : ¬(sf = false ∧ i * 16 > 16) := by
    rintro ⟨rfl, hmore⟩
    change i < 2 at hi
    omega
  rw [movewide, if_neg (not_not.mpr hrd), if_neg (by omega), if_neg (by omega), if_neg hshort,
    Nat.mul_div_cancel i (by decide)]

/-- Words that there is room for. -/
theorem foldl_a64Word (ws : List (BitVec 32)) (e : A64Emit)
    (hroom : e.words.length + ws.length ≤ e.cap) :
    ws.foldl a64Word e = { e with words := e.words ++ ws } := by
  induction ws generalizing e with
  | nil => simp
  | cons w ws ih =>
    rw [List.length_cons] at hroom
    rw [List.foldl_cons, a64Word, if_neg (by omega), ih]
    · simp
    · dsimp only
      rw [List.length_append, List.length_singleton]
      omega

theorem overflow_foldl (ws : List (BitVec 32)) (e : A64Emit) (h : e.overflow = true) :
    (ws.foldl a64Word e).overflow = true := by
  induction ws generalizing e with
  | nil => exact h
  | cons w ws ih =>
    refine ih _ ?_
    rw [a64Word]
    split_ifs
    · rfl
    · exact h

/-- Words that there is no room for are missed. -/
theorem foldl_a64Word_overflow {ws : List (BitVec 32)} (hws : ws ≠ []) (e : A64Emit)
    (hroom : e.cap < e.words.length + ws.length) : (ws.foldl a64Word e).overflow = true := by
  induction ws generalizing e with
  | nil => exact absurd rfl hws
  | cons w ws ih =>
    rw [List.length_cons] at hroom
    rw [List.foldl_cons, a64Word]
    split_ifs with hfull
    · exact overflow_foldl ws _ rfl
    · refine ih ?_ _ ?_
      · rintro rfl
        rw [List.length_nil] at hroom
        omega
      · dsimp only
        rw [List.length_append, List.length_singleton]
        omega

namespace MovPlan

/-- The parts that MOVK replaces. -/
def rest (p : MovPlan) (sf : Bool) : List Nat :=
  (List.range (nhalf sf)).filter fun i => ¬(i = p.baseHalf ∨ p.halves i = p.skip)

/-- The base instruction. -/
def base (p : MovPlan) (sf : Bool) (rd : Nat) : BitVec 32 :=
  if p.useMovn then moveWord sf 0 rd (~~~p.halves p.baseHalf &&& 0xffff#64).toNat p.baseHalf
  else moveWord sf 2 rd (p.halves p.baseHalf).toNat p.baseHalf

/-- The instructions. -/
def sequence (p : MovPlan) (sf : Bool) (rd : Nat) : List (BitVec 32) :=
  p.base sf rd :: (p.rest sf).map fun i => moveWord sf 3 rd (p.halves i).toNat i

end MovPlan

theorem filter_or (halves : Nat → BitVec 64) (skip : BitVec 64) (b : Nat) (l : List Nat) :
    l.filter (fun i => ¬(i = b ∨ halves i = skip)) =
      (l.filter fun i => halves i ≠ skip).filter fun i => i ≠ b := by
  rw [List.filter_filter]
  exact List.filter_congr fun i _ => by simp

/-- The base instruction and the others are as many as have been counted. -/
theorem planBase_spec (sf useMovn : Bool) (halves : Nat → BitVec 64) :
    (planBase sf useMovn halves).baseHalf < nhalf sf ∧
      ((planBase sf useMovn halves).rest sf).length + 1 = (planBase sf useMovn halves).count ∧
      (planBase sf useMovn halves).halves = halves := by
  have hnodup : (List.range (nhalf sf)).Nodup := List.nodup_range
  rw [MovPlan.rest, filter_or, MovPlan.skip]
  cases hwanted : (List.range (nhalf sf)).filter
      fun i => halves i ≠ if useMovn then 0xffff#64 else 0#64 with
  | nil =>
    have hplan : planBase sf useMovn halves = ⟨useMovn, 0, halves, 1⟩ := by
      rw [planBase, hwanted]
    rw [hplan]
    dsimp only
    rw [hwanted]
    exact ⟨by cases sf <;> decide, rfl, rfl⟩
  | cons base rest =>
    have hplan : planBase sf useMovn halves = ⟨useMovn, base, halves, rest.length + 1⟩ := by
      rw [planBase, hwanted]
    have hmem : base ∈ (List.range (nhalf sf)).filter
        fun i => halves i ≠ if useMovn then 0xffff#64 else 0#64 := by
      rw [hwanted]
      exact List.mem_cons_self
    have hother := (List.nodup_cons.mp (hwanted ▸ hnodup.filter _)).1
    rw [hplan]
    dsimp only
    rw [hwanted, List.filter_cons_of_neg (by simp), List.filter_eq_self.mpr]
    · exact ⟨List.mem_range.mp (List.mem_of_mem_filter hmem), rfl, rfl⟩
    · exact fun i hi => decide_eq_true fun heq => hother (heq ▸ hi)

theorem halves_movImmPlan (sf : Bool) (value : BitVec 64) (i : Nat) :
    (movImmPlan sf value).halves i = narrow sf value >>> (16 * i) &&& 0xffff#64 := by
  rw [movImmPlan, (planBase_spec ..).2.2]
  cases sf <;> rfl

theorem toNat_and_lt (v : BitVec 64) : (v &&& 0xffff#64).toNat < 2 ^ 16 := by
  rw [BitVec.toNat_and]
  exact Nat.and_le_right.trans_lt (by decide)

theorem testBit_and (v : BitVec 64) {k : Nat} (hk : k < 16) :
    (v &&& 0xffff#64).toNat.testBit k = v.getLsbD k := by
  have hone : (0xffff#64).getLsbD k = true :=
    (getLsbD_low16 (by omega)).trans (decide_eq_true hk)
  rw [BitVec.testBit_toNat, BitVec.getLsbD_and, hone, Bool.and_true]

theorem testBit_half (v : BitVec 64) (i : Nat) {k : Nat} (hk : k < 16) :
    (v >>> (16 * i) &&& 0xffff#64).toNat.testBit k = v.getLsbD (16 * i + k) := by
  rw [testBit_and _ hk, BitVec.getLsbD_ushiftRight]

/-- The emitter emits the sequence. -/
theorem a64MovImm_eq (e : A64Emit) (hrd : rd < 32) (value : BitVec 64) :
    a64MovImm e sf rd value = ((movImmPlan sf value).sequence sf rd).foldl a64Word e := by
  have hbase : (movImmPlan sf value).baseHalf < nhalf sf := (planBase_spec ..).1
  have hhalves := halves_movImmPlan sf value
  rw [a64MovImm]
  generalize movImmPlan sf value = p at *
  have hhalf (i : Nat) : (p.halves i).toNat < 2 ^ 16 := by
    rw [hhalves]
    exact toNat_and_lt _
  have hnot : (~~~p.halves p.baseHalf &&& 0xffff#64).toNat < 2 ^ 16 := toNat_and_lt _
  have hfirst : (if p.useMovn then
      a64Movn e sf rd (~~~p.halves p.baseHalf &&& 0xffff#64).toNat (p.baseHalf * 16)
      else a64Movz e sf rd (p.halves p.baseHalf).toNat (p.baseHalf * 16)) =
      a64Word e (p.base sf rd) := by
    rw [MovPlan.base]
    split_ifs
    · exact movewide_eq e hrd hnot hbase
    · exact movewide_eq e hrd (hhalf _) hbase
  rw [hfirst, MovPlan.sequence, List.foldl_cons, List.foldl_map, MovPlan.rest, List.foldl_filter]
  refine List.foldl_ext _ _ _ fun e i hi => ?_
  by_cases hskip : i = p.baseHalf ∨ p.halves i = p.skip
  · rw [if_pos hskip, if_neg (fun h => absurd hskip (of_decide_eq_true h))]
  · rw [if_neg hskip, if_pos (decide_eq_true hskip)]
    exact movewide_eq e hrd (hhalf i) (List.mem_range.mp hi)

/-- The register after MOVK of some parts. -/
theorem run_movk (hrd : rd < 32) (halves : Nat → BitVec 64)
    (hhalf : ∀ i, (halves i).toNat < 2 ^ 16) {is : List Nat} (his : ∀ i ∈ is, i < nhalf sf)
    (x : Registers) (v : BitVec 64) :
    run (is.map fun i => moveWord sf 3 rd (halves i).toNat i) (writeX x rd v) = some (writeX x rd
      (is.foldl (fun v i => narrow sf (replaceHalf v i (halves i).toNat)) v)) := by
  induction is generalizing v with
  | nil => rfl
  | cons i is ih =>
    obtain ⟨hi, his⟩ := List.forall_mem_cons.mp his
    have hmove := moveWide_moveWord (writeX x rd v) (by decide : 3 < 4) (by decide) hrd (hhalf i) hi
    rw [List.map_cons, run, hmove, Option.bind_some, List.foldl_cons, ← ih his, writeX_writeX]
    by_cases hzero : rd = 31
    · subst hzero
      rfl
    · rw [readX_writeX hzero]
      rfl

/-- The bits beyond the width of a register are clear. -/
def Narrow (sf : Bool) (v : BitVec 64) : Prop := ∀ i, regsize sf ≤ i → v.getLsbD i = false

theorem narrow_narrow (sf : Bool) (v : BitVec 64) : Narrow sf (narrow sf v) := by
  intro i hge
  by_cases hi : i < 64
  · rw [getLsbD_narrow hi, decide_eq_false (Nat.not_lt.mpr hge), Bool.and_false]
  · exact BitVec.getLsbD_of_ge _ i (Nat.not_lt.mp hi)

theorem Narrow.and_decide (h : Narrow sf v) (i : Nat) :
    (v.getLsbD i && decide (i < regsize sf)) = v.getLsbD i := by
  by_cases hin : i < regsize sf
  · rw [decide_eq_true hin, Bool.and_true]
  · rw [h i (Nat.not_lt.mp hin), Bool.false_and]

/-- The bits of the register after them. -/
theorem getLsbD_movk {u : BitVec 64} (hu : Narrow sf u) {is : List Nat} (hv : Narrow sf v)
    (hi : i < 64) : (is.foldl (fun v j => narrow sf
      (replaceHalf v j (u >>> (16 * j) &&& 0xffff#64).toNat)) v).getLsbD i =
      if i / 16 ∈ is then u.getLsbD i else v.getLsbD i := by
  induction is generalizing v with
  | nil => rfl
  | cons j is ih =>
    rw [List.foldl_cons, ih (narrow_narrow sf _), getLsbD_narrow hi,
      getLsbD_replaceHalf (toNat_and_lt _) hi, testBit_half _ _ (Nat.mod_lt i (by decide))]
    by_cases hrest : i / 16 ∈ is
    · rw [if_pos hrest, if_pos (List.mem_cons_of_mem j hrest)]
    · rw [if_neg hrest]
      by_cases hj : i / 16 = j
      · rw [if_pos hj, if_pos (hj ▸ List.mem_cons_self), ← hj, Nat.div_add_mod, hu.and_decide]
      · rw [if_neg hj, if_neg fun hmem => (List.mem_cons.mp hmem).elim hj hrest, hv.and_decide]

/-- The bits of the register after the base instruction. -/
def baseValue (sf : Bool) (p : MovPlan) : BitVec 64 :=
  narrow sf (if p.useMovn then
    ~~~replaceHalf 0#64 p.baseHalf (~~~p.halves p.baseHalf &&& 0xffff#64).toNat
    else replaceHalf 0#64 p.baseHalf (p.halves p.baseHalf).toNat)

variable {p : MovPlan} {u : BitVec 64}

theorem run_base (hrd : rd < 32) (hbase : p.baseHalf < nhalf sf)
    (hhalf : (p.halves p.baseHalf).toNat < 2 ^ 16) (x : Registers) :
    moveWide (p.base sf rd) x = some (writeX x rd (baseValue sf p)) := by
  rw [MovPlan.base, baseValue]
  split_ifs
  · exact moveWide_moveWord x (by decide) (by decide) hrd (toNat_and_lt _) hbase
  · exact moveWide_moveWord x (by decide) (by decide) hrd hhalf hbase

theorem getLsbD_baseValue (hhalves : ∀ i, p.halves i = u >>> (16 * i) &&& 0xffff#64)
    (hi : i < 64) : (baseValue sf p).getLsbD i =
      ((if i / 16 = p.baseHalf then u.getLsbD i else p.useMovn) && decide (i < regsize sf)) := by
  have hmod : i % 16 < 16 := Nat.mod_lt i (by decide)
  rw [baseValue, getLsbD_narrow hi]
  congr 1
  by_cases hmovn : p.useMovn = true
  · have hnot : (~~~p.halves p.baseHalf &&& 0xffff#64).toNat.testBit (i % 16) =
        !u.getLsbD (16 * p.baseHalf + i % 16) := by
      rw [testBit_and _ hmod, BitVec.getLsbD_not, decide_eq_true (by omega), Bool.true_and,
        ← BitVec.testBit_toNat, hhalves, testBit_half _ _ hmod]
    rw [if_pos hmovn, BitVec.getLsbD_not, decide_eq_true hi, Bool.true_and,
      getLsbD_replaceHalf (toNat_and_lt _) hi, hnot, BitVec.getLsbD_zero, hmovn]
    by_cases hat : i / 16 = p.baseHalf
    · rw [if_pos hat, if_pos hat, Bool.not_not, ← hat, Nat.div_add_mod]
    · rw [if_neg hat, if_neg hat, Bool.not_false]
  · rw [if_neg hmovn, hhalves, getLsbD_replaceHalf (toNat_and_lt _) hi, testBit_half _ _ hmod,
      BitVec.getLsbD_zero, Bool.eq_false_iff.mpr hmovn]
    by_cases hat : i / 16 = p.baseHalf
    · rw [if_pos hat, if_pos hat, ← hat, Nat.div_add_mod]
    · rw [if_neg hat, if_neg hat]

/-- The register after the sequence. -/
theorem run_sequence (hrd : rd < 32) (value : BitVec 64) (x : Registers) :
    run ((movImmPlan sf value).sequence sf rd) x = some (writeX x rd (narrow sf value)) := by
  have hbase : (movImmPlan sf value).baseHalf < nhalf sf := (planBase_spec ..).1
  have hhalves := halves_movImmPlan sf value
  generalize movImmPlan sf value = p at *
  have hhalf (i : Nat) : (p.halves i).toNat < 2 ^ 16 := by
    rw [hhalves]
    exact toNat_and_lt _
  have hrest : ∀ i ∈ p.rest sf, i < nhalf sf := fun i hi =>
    List.mem_range.mp (List.mem_of_mem_filter hi)
  rw [MovPlan.sequence, run, run_base hrd hbase (hhalf _), Option.bind_some,
    run_movk hrd p.halves hhalf hrest]
  refine congrArg (fun v => some (writeX x rd v)) (BitVec.eq_of_getLsbD_eq fun i hi => ?_)
  simp only [hhalves]
  have hfirst : Narrow sf (baseValue sf p) := narrow_narrow sf _
  rw [getLsbD_movk (narrow_narrow sf value) hfirst hi, getLsbD_baseValue hhalves hi]
  by_cases hin : i / 16 ∈ p.rest sf
  · rw [if_pos hin]
  · rw [if_neg hin]
    by_cases hat : i / 16 = p.baseHalf
    · rw [if_pos hat, (narrow_narrow sf value).and_decide]
    · rw [if_neg hat]
      by_cases hreg : i < regsize sf
      · have hpart : i / 16 < nhalf sf := by
          cases sf with
          | true => exact Nat.div_lt_of_lt_mul hreg
          | false => exact Nat.div_lt_of_lt_mul hreg
        have hskip : p.halves (i / 16) = p.skip := by
          by_contra hne
          exact hin (List.mem_filter.mpr ⟨List.mem_range.mpr hpart,
            decide_eq_true fun h => h.elim hat hne⟩)
        have hbit := testBit_half (narrow sf value) (i / 16) (Nat.mod_lt i (by decide : 0 < 16))
        rw [← hhalves, hskip, Nat.div_add_mod, MovPlan.skip] at hbit
        rw [decide_eq_true hreg, Bool.and_true, ← hbit, BitVec.testBit_toNat]
        by_cases hmovn : p.useMovn = true
        · rw [if_pos hmovn, hmovn]
          have hmod : i % 16 < 16 := Nat.mod_lt i (by decide)
          exact ((getLsbD_low16 (by omega)).trans (decide_eq_true hmod)).symm
        · rw [if_neg hmovn, BitVec.getLsbD_zero, Bool.eq_false_iff.mpr hmovn]
      · rw [decide_eq_false hreg, Bool.and_false,
          (narrow_narrow sf value) i (Nat.not_lt.mp hreg)]

/-- The encoder of logical immediates finds an encoding for exactly these, and the target reads the
constant from it. The instructions that put a constant into a register are as many as are
announced, they leave the constant there, and they are all emitted or the emitter knows better. -/
theorem immediates_exact (sf : Bool) (value : BitVec 64) :
    ((a64BitmaskImm sf value).isSome ↔ LogicalImmediate (regsize sf) value.toNat) ∧
    (∀ enc, a64BitmaskImm sf value = some enc →
      enc < 2 ^ 13 ∧ decodeLogicalImm sf enc = some value.toNat) ∧
    ∀ rd < 32, ∃ ws, ws.length = a64MovImmWords sf value ∧
      (∀ x, run ws x = some (writeX x rd (narrow sf value))) ∧
      ∀ e : A64Emit, if e.words.length + a64MovImmWords sf value ≤ e.cap then
        a64MovImm e sf rd value = { e with words := e.words ++ ws }
        else (a64MovImm e sf rd value).overflow = true := by
  refine ⟨⟨fun h => ?_, isSome_a64BitmaskImm⟩, fun enc h => (decode_a64BitmaskImm h).2,
    fun rd hrd => ?_⟩
  · obtain ⟨enc, henc⟩ := Option.isSome_iff_exists.mp h
    exact (decode_a64BitmaskImm henc).1
  · have hlen : ((movImmPlan sf value).sequence sf rd).length = a64MovImmWords sf value := by
      rw [MovPlan.sequence, List.length_cons, List.length_map]
      exact (planBase_spec ..).2.1
    refine ⟨_, hlen, run_sequence hrd value, fun e => ?_⟩
    rw [a64MovImm_eq e hrd value, ← hlen]
    split_ifs with hroom
    · exact foldl_a64Word _ e hroom
    · exact foldl_a64Word_overflow (List.cons_ne_nil _ _) e (Nat.not_le.mp hroom)

end S5LBox.Jit
