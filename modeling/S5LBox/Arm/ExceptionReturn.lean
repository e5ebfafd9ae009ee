import S5LBox.Arm.Banking

/-!
# Exception entry and exception returns over the register map

What exception entry and each of the exception returns write to the architectural registers, the
run of any sequence of them with mode changes and user-bank and saved-status accesses, and the
round trip of an entry and a return.

## Main definitions

* `FlagsOnly`: a step that changes nothing but the condition, saturation and GE flags.
* `BankOp`, `bankRun`, `bankLog`: runs of banking operations and the writes they make.
* `ReturnSequence`: the architectural returns from an exception.

## Main results

* `takeException_spec`: exception entry writes the link register and the saved status register
  of the handler's bank.
* `bankRun_regMap`: after a run every architectural register holds the last value written to it.
* `takeException_return`: an entry followed by a return gives back what was interrupted.
-/

namespace S5LBox

open Blocks WriteLog

/-! ### Flags and the mode field -/

/-- The control bits of the status register: E, A, I, F, T and the mode. -/
def armCpsrControl : Word := 0x3ff

/-- Nothing but flags outside of the control bits changes. -/
def FlagsOnly (c c' : ArmCpu) : Prop :=
  ∃ v, c' = c.setCpsr v ∧ v &&& armCpsrControl = c.cpsr &&& armCpsrControl

namespace FlagsOnly

variable {c c' c'' : ArmCpu}

theorem refl (c : ArmCpu) : FlagsOnly c c := ⟨c.cpsr, rfl, rfl⟩

theorem trans (h : FlagsOnly c c') (h' : FlagsOnly c' c'') : FlagsOnly c c'' := by
  obtain ⟨v, rfl, hv⟩ := h
  obtain ⟨v', rfl, hv'⟩ := h'
  exact ⟨v', rfl, hv'.trans hv⟩

theorem setFlag (h : FlagsOnly c c') {m : Word} (hm : m &&& armCpsrControl = 0#32) (on : Bool) :
    FlagsOnly c (c'.setFlag m on) := by
  refine h.trans ⟨_, rfl, ?_⟩
  cases on
  · exact and_not_and_of_disjoint hm
  · exact or_and_of_disjoint hm

theorem mode (h : FlagsOnly c c') : c'.mode = c.mode := by
  obtain ⟨v, rfl, hv⟩ := h
  have hmask : armCpsrControl &&& armCpsrModeMask = armCpsrModeMask := by decide
  have hmode : v &&& armCpsrControl &&& armCpsrModeMask =
      c.cpsr &&& armCpsrControl &&& armCpsrModeMask := by rw [hv]
  rwa [BitVec.and_assoc, BitVec.and_assoc, hmask] at hmode

theorem bank (h : FlagsOnly c c') : c'.bank = c.bank := armBankOfMode_congr h.mode

theorem regMap (h : FlagsOnly c c') : c'.regMap = c.regMap := by
  have hbank := h.bank
  obtain ⟨v, rfl, -⟩ := h
  exact regMap_setCpsr c hbank

end FlagsOnly

section Alu

variable (c : ArmCpu)

theorem aluAdd_flags (a b cin : Word) (set : Bool) : FlagsOnly c (aluAdd c a b cin set).2 := by
  rw [aluAdd]
  split
  · exact ((((FlagsOnly.refl c).setFlag (by decide) _).setFlag (by decide) _).setFlag (by decide)
      _).setFlag (by decide) _
  · exact FlagsOnly.refl c

theorem aluLogicFlags_flags (r : Word) (carry set : Bool) :
    FlagsOnly c (aluLogicFlags c r carry set) := by
  rw [aluLogicFlags]
  split
  · exact (((FlagsOnly.refl c).setFlag (by decide) _).setFlag (by decide) _).setFlag (by decide) _
  · exact FlagsOnly.refl c

theorem aluOp_flags (opcode : Nat) (a op2 : Word) (carry S : Bool) :
    FlagsOnly c (aluOp c opcode a op2 carry S).2 := by
  have hlogic : ∀ r set, FlagsOnly c (r, aluLogicFlags c r carry set).2 :=
    fun r set => aluLogicFlags_flags c r carry set
  simp only [aluOp]
  split
  all_goals first
    | exact hlogic _ _
    | exact aluAdd_flags c _ _ _ _

end Alu

/-! ### Entry -/

/-- A step that keeps the live registers, the parking places and the mode keeps the map. -/
theorem regMap_congr {c c' : ArmCpu} (hr : c'.r = c.r) (hparked : c'.parked = c.parked)
    (hmode : c'.mode = c.mode) : c'.regMap = c.regMap := by
  funext k
  have hbank : c'.bank = c.bank := armBankOfMode_congr hmode
  simp only [ArmCpu.regMap, hbank, hr, hparked]

theorem setFlag_mode (c : ArmCpu) {m : Word} (h : m &&& armCpsrModeMask = 0#32) (on : Bool) :
    (c.setFlag m on).mode = c.mode := by
  cases on
  · exact and_not_and_of_disjoint h
  · exact or_and_of_disjoint h

/-- The end of exception entry, once the handler's bank is live: the masks, the instruction set,
the endianness and the monitor. -/
def maskException (c : ArmCpu) (vector : Word) (maskFiq : Bool) : ArmCpu :=
  let c := c.setCpsr (c.cpsr ||| armCpsrI)
  let c := if maskFiq then c.setCpsr (c.cpsr ||| armCpsrF) else c
  let c :=
    if vector = armVecPrefetch ∨ vector = armVecDataAbort ∨ vector = armVecIrq ∨
        vector = armVecFiq then c.setCpsr (c.cpsr ||| armCpsrA)
    else c
  let c := c.setCpsr (c.cpsr &&& ~~~armCpsrT)
  let c := c.setFlag armCpsrE (c.cp15.sctlr &&& armSctlrEE != 0)
  { c with exclValid := false }

theorem maskException_mode (c : ArmCpu) (vector : Word) (maskFiq : Bool) :
    (maskException c vector maskFiq).mode = c.mode := by
  have hor : ∀ x : Word, (x ||| armCpsrI) &&& armCpsrModeMask = x &&& armCpsrModeMask ∧
      (x ||| armCpsrF) &&& armCpsrModeMask = x &&& armCpsrModeMask ∧
        (x ||| armCpsrA) &&& armCpsrModeMask = x &&& armCpsrModeMask := fun x =>
    ⟨or_and_of_disjoint (by decide), or_and_of_disjoint (by decide),
      or_and_of_disjoint (by decide)⟩
  have hT : ∀ x : Word, (x &&& ~~~armCpsrT) &&& armCpsrModeMask = x &&& armCpsrModeMask :=
    fun x => and_not_and_of_disjoint (by decide)
  refine (setFlag_mode _ (by decide) _).trans ?_
  simp only [ArmCpu.mode, ArmCpu.setCpsr, hT]
  split_ifs <;> simp only [hor]

theorem maskException_frame (c : ArmCpu) (vector : Word) (maskFiq : Bool) :
    (maskException c vector maskFiq).r = c.r ∧
      (maskException c vector maskFiq).parked = c.parked := by
  simp only [maskException, ArmCpu.setFlag, ArmCpu.setCpsr]
  constructor
  · split_ifs <;> rfl
  · funext k
    split_ifs <;> rfl

theorem takeException_eq (c : ArmCpu) (vector mode ret : Word) (maskFiq : Bool) :
    (takeException c vector mode ret maskFiq).1 =
      maskException
        (({ armSetMode c mode with
            spsr := Function.update (armSetMode c mode).spsr (armBankOfMode mode) c.cpsr } :
              ArmCpu).setR 14 ret) vector maskFiq := rfl

/-- Exception entry makes the handler's bank live and writes its link register and its saved
status register. -/
theorem takeException_spec (c : ArmCpu) (vector : Word) {mode : Word} (h : armModeIsValid mode)
    (ret : Word) (maskFiq : Bool) :
    (takeException c vector mode ret maskFiq).1.bank = armBankOfMode mode ∧
      (takeException c vector mode ret maskFiq).1.regMap =
        writeAll c.regMap
          [(.spsr (armBankOfMode mode), c.cpsr), (.lr (armBankOfMode mode), ret)] := by
  rw [takeException_eq]
  have hbank := armSetMode_bank c mode h
  constructor
  · exact (armBankOfMode_congr (maskException_mode _ vector maskFiq)).trans hbank
  · obtain ⟨hr, hparked⟩ := maskException_frame
      (({ armSetMode c mode with
          spsr := Function.update (armSetMode c mode).spsr (armBankOfMode mode) c.cpsr } :
            ArmCpu).setR 14 ret) vector maskFiq
    have hlr : ∀ b, archReg b 14 = .lr b := by
      intro b
      cases b <;> decide
    rw [regMap_congr hr hparked (maskException_mode _ vector maskFiq), regMap_setR,
      regMap_setSpsr, regMap_armSetMode]
    simp only [writeAll]
    rw [← hlr (armBankOfMode mode), ← hbank]

/-! ### Returns -/

theorem restoreCpsr_bank (c : ArmCpu) (s : Word) :
    (restoreCpsr c s).bank = (armSetMode c s).bank :=
  armBankOfMode_congr <| by
    simp only [restoreCpsr, ArmCpu.setCpsr]
    rw [BitVec.or_comm, merge_and]

theorem regMap_restoreCpsr (c : ArmCpu) (s : Word) : (restoreCpsr c s).regMap = c.regMap := by
  exact (regMap_setCpsr _ (restoreCpsr_bank c s)).trans (regMap_armSetMode c s)

theorem restoreCpsr_cpsr (c : ArmCpu) {s : Word} (h : armModeIsValid s) :
    (restoreCpsr c s).cpsr = s := by
  simp only [restoreCpsr, ArmCpu.setCpsr]
  rw [armSetMode_cpsr c s h, merge_and, and_or_and_not]

theorem regMap_writePc (c : ArmCpu) (res : Word) (S : Bool) :
    (writePc c res S).2.regMap = c.regMap := by
  simp only [writePc]
  split_ifs
  · exact regMap_restoreCpsr c _
  · rfl

theorem regMap_commitReturn (vs : List (RegNo × Word)) (next : Word) (c : ArmCpu) :
    (Exec.commitReturn vs next c).2.regMap = c.regMap := by
  simp only [Exec.commitReturn]
  cases Exec.loadedPc vs <;> exact regMap_restoreCpsr c _

/-- The commit of loaded values writes each register of the list in the present bank. -/
theorem regMap_commitList (vs : List (RegNo × Word)) (c : ArmCpu) :
    (Exec.commitList ArmCpu.setR vs c).cpsr = c.cpsr ∧
      (Exec.commitList ArmCpu.setR vs c).regMap =
        writeAll c.regMap (vs.map fun v => (archReg c.bank v.1, v.2)) := by
  induction vs generalizing c with
  | nil => exact ⟨rfl, rfl⟩
  | cons v vs ih =>
    obtain ⟨hcpsr, hmap⟩ := ih (c.setR v.1 v.2)
    refine ⟨hcpsr, hmap.trans ?_⟩
    rw [regMap_setR]
    rfl

/-- MSR to the current status register writes no register. -/
theorem regMap_msrCpsr (c : ArmCpu) (mask val : Word) :
    (msrCpsr c mask val).2.regMap = c.regMap := by
  simp only [msrCpsr]
  generalize (if armBankOfMode c.cpsr = .usr ∧ c.mode = armModeUsr then mask &&& 0xff000000
    else mask) = mask
  split_ifs with _ hmode
  · rfl
  · exact regMap_restoreCpsr c _
  · apply regMap_setCpsr
    apply armBankOfMode_congr
    by_cases hmask : mask &&& 0x1f = 0
    · exact merge_and_of_disjoint hmask
    · by_contra hne
      exact hmode ⟨hmask, hne⟩

/-- A data-processing instruction with S set and the program counter as its destination is
refused, compares, or returns. -/
theorem execDataProcessing_cases (pc insn next : Word) (c : ArmCpu) (hS : bit insn 20)
    (hrd : field insn 12 = 15) :
    execDataProcessing pc insn next c = ((.undefined, next), c) ∨
      (∃ c', FlagsOnly c c' ∧ execDataProcessing pc insn next c = ((.ok, next), c')) ∨
      ∃ res c', FlagsOnly c c' ∧ c.bank ≠ .usr ∧ armModeIsValid (c.spsr c.bank) ∧
        execDataProcessing pc insn next c =
          ((.ok, (writePc (c'.setR 15 res) res true).1), (writePc (c'.setR 15 res) res true).2) := by
  simp only [execDataProcessing, hS, hrd, if_true]
  split_ifs with hv7 hmisc hshift hret hwrites
  · exact .inl rfl
  · exact absurd trivial hmisc.2.2
  · exact .inl rfl
  · exact .inl rfl
  · refine .inr (.inr ⟨_, _, aluOp_flags c .., ?_, ?_, rfl⟩)
    · exact fun h => hret ⟨hwrites, trivial, trivial, .inl h⟩
    · by_contra h
      exact hret ⟨hwrites, trivial, trivial, .inr h⟩
  · exact .inr (.inl ⟨_, aluOp_flags c .., rfl⟩)

/-! ### Runs -/

/-- The operations on modes and banked registers. -/
inductive BankOp
  | setMode (mode : Word)
  | exception (vector : Word) (mode : { m : Word // armModeIsValid m }) (ret : Word)
      (maskFiq : Bool)
  | write (n : RegNo) (v : Word)
  | readUser (pc : Word) (n : RegNo)
  | writeUser (n : RegNo) (v : Word)
  | writeSpsr (v : Word)
  | msr (mask val : Word)
  | dataProcessingReturn (pc insn next : Word) (hS : bit insn 20) (hrd : field insn 12 = 15)
  | ldmReturn (t : Exec.BlockTransfer) (vs : List (RegNo × Word)) (next : Word)
  | rfe (insn wb newPc newCpsr : Word)

namespace BankOp

/-- The operation on the core. -/
def run : BankOp → ArmCpu → ArmCpu
  | setMode mode, c => armSetMode c mode
  | exception vector mode ret maskFiq, c => (takeException c vector mode ret maskFiq).1
  | write n v, c => c.setR n v
  | readUser _ _, c => c
  | writeUser n v, c => regWriteUser c n v
  | writeSpsr v, c => { c with spsr := Function.update c.spsr c.bank v }
  | msr mask val, c => (msrCpsr c mask val).2
  | dataProcessingReturn pc insn next _ _, c => (execDataProcessing pc insn next c).2
  | ldmReturn t vs next, c =>
    (Exec.commitReturn vs next (t.writeBase (Exec.commitList ArmCpu.setR vs c))).2
  | rfe insn wb newPc newCpsr, c => Exec.commitRfe insn wb newPc newCpsr c

/-- The registers that the operation writes, in order. A return leaves its target in the program
counter. -/
def writes : BankOp → ArmCpu → List (ArchReg × Word)
  | setMode _, _ => []
  | exception _ mode ret _, c =>
    [(.spsr (armBankOfMode mode), c.cpsr), (.lr (armBankOfMode mode), ret)]
  | write n v, c => [(archReg c.bank n, v)]
  | readUser _ _, _ => []
  | writeUser n v, _ => [(archReg .usr n, v)]
  | writeSpsr v, c => [(.spsr c.bank, v)]
  | msr _ _, _ => []
  | dataProcessingReturn pc insn next _ _, c =>
    [(.pc, (execDataProcessing pc insn next c).2.r 15)]
  | ldmReturn t vs _, c =>
    (vs.map fun v => (archReg c.bank v.1, v.2)) ++
      if t.writeback ∧ ¬ bit t.list t.rn.toNat then [(archReg c.bank t.rn, t.wb)] else []
  | rfe insn wb newPc newCpsr, c =>
    (if bit insn 21 then [(archReg c.bank (field insn 16), wb)] else []) ++
      [(.pc, (Exec.commitRfe insn wb newPc newCpsr c).r 15)]

/-- A map that a write of the program counter gives is the one that a write of its own contents
gives. -/
private theorem eq_update_pc {m : ArchReg → Word} {c : ArmCpu}
    (h : ∃ v, c.regMap = Function.update m .pc v) :
    c.regMap = Function.update m .pc (c.r 15) := by
  obtain ⟨v, h⟩ := h
  have hv : c.r 15 = v := by
    rw [r_eq_regMap, archReg_15, h, Function.update_self]
  rw [h, hv]

/-- Each operation writes the registers it says, and no other. -/
theorem regMap_run (op : BankOp) (c : ArmCpu) :
    (op.run c).regMap = writeAll c.regMap (op.writes c) := by
  cases op with
  | setMode mode => exact regMap_armSetMode c mode
  | exception vector mode ret maskFiq =>
    exact (takeException_spec c vector mode.2 ret maskFiq).2
  | write n v => exact regMap_setR c n v
  | readUser pc n => rfl
  | writeUser n v => exact regMap_regWriteUser c n v
  | writeSpsr v => exact regMap_setSpsr c c.bank v
  | msr mask val => exact regMap_msrCpsr c mask val
  | dataProcessingReturn pc insn next hS hrd =>
    have hself := Function.update_eq_self ArchReg.pc c.regMap
    apply eq_update_pc
    rcases execDataProcessing_cases pc insn next c hS hrd with h | ⟨c', hc', h⟩ |
      ⟨res, c', hc', -, -, h⟩
    · exact ⟨_, by rw [run, h]; exact hself.symm⟩
    · exact ⟨_, by rw [run, h, hc'.regMap]; exact hself.symm⟩
    · exact ⟨res, by rw [run, h, regMap_writePc, regMap_setR, archReg_15, hc'.regMap]⟩
  | ldmReturn t vs next =>
    obtain ⟨hcpsr, hmap⟩ := regMap_commitList vs c
    simp only [run, writes, regMap_commitReturn, writeAll_append, ← hmap]
    have hbank : (Exec.commitList ArmCpu.setR vs c).bank = c.bank := congrArg armBankOfMode hcpsr
    simp only [Exec.BlockTransfer.writeBase]
    split_ifs
    · rw [regMap_setR, hbank]
      rfl
    · rfl
  | rfe insn wb newPc newCpsr =>
    rw [run, writes, writeAll_append]
    apply eq_update_pc
    let base := if bit insn 21 then c.setR (field insn 16) wb else c
    have hbase : base.regMap =
        writeAll c.regMap (if bit insn 21 then [(archReg c.bank (field insn 16), wb)] else []) := by
      simp only [base]
      split_ifs
      · exact regMap_setR c _ _
      · rfl
    refine ⟨newPc &&& pcMask (restoreCpsr base newCpsr).cpsr, ?_⟩
    rw [← hbase, ← regMap_restoreCpsr base newCpsr, ← archReg_15 (restoreCpsr base newCpsr).bank]
    exact regMap_setR _ _ _

end BankOp

/-- A run of operations. -/
def bankRun : List BankOp → ArmCpu → ArmCpu
  | [], c => c
  | op :: ops, c => bankRun ops (op.run c)

/-- The writes of a run, in order. -/
def bankLog : List BankOp → ArmCpu → List (ArchReg × Word)
  | [], _ => []
  | op :: ops, c => op.writes c ++ bankLog ops (op.run c)

/-- After a run every architectural register holds the last value written to it. -/
theorem bankRun_regMap (ops : List BankOp) (c : ArmCpu) (k : ArchReg) :
    (bankRun ops c).regMap k = (lastWritten k (bankLog ops c)).getD (c.regMap k) := by
  rw [← writeAll_apply]
  induction ops generalizing c with
  | nil => rfl
  | cons op ops ih => rw [bankRun, ih, bankLog, writeAll_append, op.regMap_run]

/-! ### Entry followed by a return -/

/-- The architectural returns: MOVS and SUBS from the link register, LDM with S and the program
counter, and RFE. The last two come with the values that they have loaded. -/
inductive ReturnSequence
  | movs (pc next : Word)
  | subs (pc next : Word) (off : Byte)
  | ldm (t : Exec.BlockTransfer) (vs : List (RegNo × Word)) (next target : Word)
  | rfe (insn wb target : Word)

namespace ReturnSequence

/-- The encoding of SUBS to the program counter from the link register. -/
def subsInsn (off : Byte) : Word := 0xe25ef000 ||| off.setWidth 32

/-- The encoding of MOVS to the program counter from the link register. -/
def movsInsn : Word := 0xe1b0f00e

/-- The next program counter and the core after the return. -/
def run : ReturnSequence → ArmCpu → Word × ArmCpu
  | movs pc next, c =>
    ((execDataProcessing pc movsInsn next c).1.2, (execDataProcessing pc movsInsn next c).2)
  | subs pc next off, c =>
    ((execDataProcessing pc (subsInsn off) next c).1.2,
      (execDataProcessing pc (subsInsn off) next c).2)
  | ldm t vs next _, c =>
    Exec.commitReturn vs next (t.writeBase (Exec.commitList ArmCpu.setR vs c))
  | rfe insn wb target, c =>
    ((Exec.commitRfe insn wb target (c.spsr c.bank) c).r 15,
      Exec.commitRfe insn wb target (c.spsr c.bank) c)

/-- The address that the return goes to. -/
def target : ReturnSequence → ArmCpu → Word
  | movs _ _, c => c.r 14
  | subs _ _ off, c => c.r 14 - off.setWidth 32
  | ldm _ _ _ target, _ => target
  | rfe _ _ target, _ => target

/-- What the return loads is what was saved: the registers keep their values, and the stack
pointer comes back to where it was. -/
def Reloads : ReturnSequence → ArmCpu → Prop
  | movs _ _, _ => True
  | subs _ _ _, _ => True
  | ldm t vs _ target, c =>
    Exec.loadedPc vs = some target ∧ (∀ v ∈ vs, v.1 ≠ 15 → v.2 = c.r v.1) ∧
      (t.writeback → t.wb = c.r t.rn)
  | rfe insn wb _, c => bit insn 21 → wb = c.r (field insn 16)

end ReturnSequence

section Return

variable {c : ArmCpu}

/-- A return in an exception mode whose saved status register holds `s` restores `s`, goes to
`target`, and changes no register of any bank. -/
structure Returns (c : ArmCpu) (s target : Word) (out : Word × ArmCpu) : Prop where
  cpsr : out.2.cpsr = s
  pc : out.1 = target &&& pcMask s
  regMap : ∀ k, k ≠ .pc → out.2.regMap k = c.regMap k

theorem writePc_return (c : ArmCpu) (hbank : c.bank ≠ .usr) (res : Word) :
    writePc c res true =
      (res &&& pcMask (restoreCpsr c (c.spsr c.bank)).cpsr, restoreCpsr c (c.spsr c.bank)) := by
  have htaken : (true : Bool) = true ∧ armBankOfMode c.cpsr ≠ .usr := ⟨rfl, hbank⟩
  rw [writePc, if_pos htaken]

/-- The return of a data-processing instruction. -/
theorem returns_writePc {c' : ArmCpu} (h : FlagsOnly c c') (hbank : c.bank ≠ .usr)
    (hvalid : armModeIsValid (c.spsr c.bank)) (res : Word) :
    Returns c (c.spsr c.bank) res (writePc (c'.setR 15 res) res true) := by
  have hcur : (c'.setR 15 res).bank = c.bank := h.bank
  have hspsr : (c'.setR 15 res).spsr = c.spsr := by
    obtain ⟨v, rfl, -⟩ := h
    rfl
  have htaken : (c'.setR 15 res).bank ≠ .usr := hcur ▸ hbank
  rw [writePc_return _ htaken, hspsr, hcur]
  refine ⟨restoreCpsr_cpsr _ hvalid, by rw [restoreCpsr_cpsr _ hvalid], fun k hk => ?_⟩
  rw [regMap_restoreCpsr, regMap_setR, archReg_15, Function.update_of_ne hk, h.regMap]

/-- The data-processing returns: the instruction writes the program counter, and is accepted. -/
theorem execDataProcessing_return (pc insn next : Word) (hbank : c.bank ≠ .usr)
    (hvalid : armModeIsValid (c.spsr c.bank)) (hS : bit insn 20) (hrd : field insn 12 = 15)
    (hmov : insn &&& 0x0fb00000 ≠ 0x03000000)
    (hop : (field insn 21).toNat < 8 ∨ 12 ≤ (field insn 21).toNat)
    (hshift : ¬ (insn &&& (1 <<< 25) = 0 ∧ insn &&& (1 <<< 4) ≠ 0)) :
    let op2 := dpOperand2 c pc insn (c.getFlag armCpsrC)
    let res := (aluOp c (field insn 21).toNat (regRead c pc (field insn 16)) op2.1 op2.2 true).1
    Returns c (c.spsr c.bank) res
      ((execDataProcessing pc insn next c).1.2, (execDataProcessing pc insn next c).2) := by
  have hrefused : ¬ (c.bank = .usr ∨ ¬ armModeIsValid (c.spsr c.bank)) := by
    rintro (h | h)
    · exact hbank h
    · exact h hvalid
  simp only [execDataProcessing, hS, hrd, if_true]
  split_ifs with hv7 hmisc hreg hret
  · exact absurd hv7.2 hmov
  · exact absurd trivial hmisc.2.2
  · exact absurd ⟨hreg.1, hreg.2.1⟩ hshift
  · exact absurd hret.2.2.2 hrefused
  · exact returns_writePc (aluOp_flags c ..) hbank hvalid _

theorem returns_movs (hbank : c.bank ≠ .usr) (hvalid : armModeIsValid (c.spsr c.bank))
    (pc next : Word) :
    Returns c (c.spsr c.bank) (c.r 14) ((ReturnSequence.movs pc next).run c) :=
  execDataProcessing_return pc ReturnSequence.movsInsn next hbank hvalid (by decide) (by decide)
    (by decide) (by decide) (by decide)

/-- The sum of `aluAdd` is the sum of words. -/
theorem aluAdd_fst (c : ArmCpu) (a b cin : Word) (set : Bool) :
    (aluAdd c a b cin set).1 = a + b + cin := by
  have hsum : (a.setWidth 64 + b.setWidth 64 + cin.setWidth 64 : BitVec 64).setWidth 32 =
      a + b + cin := by
    apply BitVec.eq_of_toNat_eq
    simp only [BitVec.toNat_setWidth, BitVec.toNat_add]
    omega
  rw [aluAdd]
  split <;> exact hsum

theorem aluSub_fst (c : ArmCpu) (a b : Word) (set : Bool) : (aluSub c a b 1 set).1 = a - b := by
  rw [aluSub, aluAdd_fst, BitVec.add_assoc, BitVec.sub_eq_add_neg, BitVec.neg_eq_not_add]
  rfl

theorem returns_subs (hbank : c.bank ≠ .usr) (hvalid : armModeIsValid (c.spsr c.bank))
    (pc next : Word) (off : Byte) :
    Returns c (c.spsr c.bank) (c.r 14 - off.setWidth 32)
      ((ReturnSequence.subs pc next off).run c) := by
  have hfields : ∀ off : Byte,
      bit (ReturnSequence.subsInsn off) 20 ∧ field (ReturnSequence.subsInsn off) 12 = 15 ∧
        ReturnSequence.subsInsn off &&& 0x0fb00000 ≠ 0x03000000 ∧
          field (ReturnSequence.subsInsn off) 21 = 2 ∧
            field (ReturnSequence.subsInsn off) 16 = 14 ∧
              bit (ReturnSequence.subsInsn off) 25 ∧
                field (ReturnSequence.subsInsn off) 8 = 0 ∧
                  ReturnSequence.subsInsn off &&& 0xff = off.setWidth 32 ∧
                    ReturnSequence.subsInsn off &&& (1 <<< 25) ≠ 0 := by decide
  obtain ⟨hS, hrd, hmov, hop, hrn, hI, hrot, himm, hI'⟩ := hfields off
  have hret := execDataProcessing_return pc (ReturnSequence.subsInsn off) next hbank hvalid hS hrd
    hmov (.inl (by rw [hop]; decide)) (fun h => hI' h.1)
  have hop2 : dpOperand2 c pc (ReturnSequence.subsInsn off) (c.getFlag armCpsrC) =
      (off.setWidth 32, c.getFlag armCpsrC) := by
    simp only [dpOperand2, if_pos hI, hrot, himm]
    rfl
  have hsub : (aluOp c (2 : RegNo).toNat (c.r 14) (off.setWidth 32) (c.getFlag armCpsrC) true).1 =
      c.r 14 - off.setWidth 32 := aluSub_fst c _ _ _
  simp only [hop2, hop, hrn] at hret
  exact hsub ▸ hret

/-- Reloading registers with what they hold changes no register but the program counter. -/
theorem reload_commitList {vs : List (RegNo × Word)} (h : ∀ v ∈ vs, v.1 ≠ 15 → v.2 = c.r v.1)
    {k : ArchReg} (hk : k ≠ .pc) :
    (Exec.commitList ArmCpu.setR vs c).regMap k = c.regMap k := by
  rw [(regMap_commitList vs c).2]
  apply writeAll_of_forall
  intro w hw hkey
  obtain ⟨v, hv, rfl⟩ := List.mem_map.mp hw
  have h15 : v.1 ≠ 15 := by
    intro h15
    rw [← hkey, h15, archReg_15] at hk
    exact hk rfl
  rw [← hkey, h v hv h15, r_eq_regMap]

/-- Writing back the value that a register holds changes no register. -/
theorem regMap_setR_self {d : ArmCpu} (hbank : d.bank = c.bank) {n : RegNo} {v : Word}
    (hv : v = c.r n) {k : ArchReg} (hk : d.regMap k = c.regMap k) :
    (d.setR n v).regMap k = c.regMap k := by
  rw [regMap_setR, hbank]
  by_cases hkn : k = archReg c.bank n
  · rw [hkn, Function.update_self, hv, r_eq_regMap]
  · rw [Function.update_of_ne hkn, hk]

/-- A restore from the saved status register, in a core that agrees with `c` on every register
but the program counter. -/
theorem returns_restoreCpsr (hvalid : armModeIsValid (c.spsr c.bank)) {d : ArmCpu}
    (hbank : d.bank = c.bank) (hd : ∀ k, k ≠ .pc → d.regMap k = c.regMap k) (target : Word) :
    Returns c (c.spsr c.bank) target
      (target &&& pcMask (restoreCpsr d (d.spsr d.bank)).cpsr, restoreCpsr d (d.spsr d.bank)) := by
  have hspsr : d.spsr d.bank = c.spsr c.bank := by
    rw [hbank]
    exact hd (.spsr c.bank) nofun
  rw [hspsr]
  refine ⟨restoreCpsr_cpsr d hvalid, by rw [restoreCpsr_cpsr d hvalid], fun k hk => ?_⟩
  rw [regMap_restoreCpsr, hd k hk]

theorem returns_ldm (hvalid : armModeIsValid (c.spsr c.bank)) (t : Exec.BlockTransfer)
    (vs : List (RegNo × Word)) (next target : Word)
    (h : (ReturnSequence.ldm t vs next target).Reloads c) :
    Returns c (c.spsr c.bank) target ((ReturnSequence.ldm t vs next target).run c) := by
  obtain ⟨hpc, hvs, hwb⟩ := h
  have hbank : (Exec.commitList ArmCpu.setR vs c).bank = c.bank :=
    congrArg armBankOfMode (regMap_commitList vs c).1
  simp only [ReturnSequence.run, Exec.commitReturn, hpc]
  apply returns_restoreCpsr hvalid
  · rw [Exec.BlockTransfer.writeBase]
    split_ifs <;> exact hbank
  · intro k hk
    rw [Exec.BlockTransfer.writeBase]
    split_ifs with hwrite
    · exact regMap_setR_self hbank (hwb hwrite.1) (reload_commitList hvs hk)
    · exact reload_commitList hvs hk

theorem returns_rfe (hvalid : armModeIsValid (c.spsr c.bank)) (insn wb target : Word)
    (h : (ReturnSequence.rfe insn wb target).Reloads c) :
    Returns c (c.spsr c.bank) target ((ReturnSequence.rfe insn wb target).run c) := by
  let base := if bit insn 21 then c.setR (field insn 16) wb else c
  have hbase : ∀ k, k ≠ .pc → base.regMap k = c.regMap k := by
    intro k hk
    simp only [base]
    split_ifs with hW
    · exact regMap_setR_self rfl (h hW) rfl
    · rfl
  have hrun : (ReturnSequence.rfe insn wb target).run c =
      (target &&& pcMask (restoreCpsr base (c.spsr c.bank)).cpsr,
        (restoreCpsr base (c.spsr c.bank)).setR 15
          (target &&& pcMask (restoreCpsr base (c.spsr c.bank)).cpsr)) := by
    refine Prod.ext ?_ rfl
    simp only [ReturnSequence.run, Exec.commitRfe, ArmCpu.setR, Function.update_self]
    rfl
  rw [hrun]
  refine ⟨restoreCpsr_cpsr base hvalid, by rw [restoreCpsr_cpsr base hvalid], fun k hk => ?_⟩
  rw [regMap_setR, archReg_15, Function.update_of_ne hk, regMap_restoreCpsr, hbase k hk]

/-- Every return sequence returns. -/
theorem ReturnSequence.returns (hbank : c.bank ≠ .usr) (hvalid : armModeIsValid (c.spsr c.bank))
    (seq : ReturnSequence) (h : seq.Reloads c) :
    Returns c (c.spsr c.bank) (seq.target c) (seq.run c) := by
  cases seq with
  | movs pc next => exact returns_movs hbank hvalid pc next
  | subs pc next off => exact returns_subs hbank hvalid pc next off
  | ldm t vs next target => exact returns_ldm hvalid t vs next target h
  | rfe insn wb target => exact returns_rfe hvalid insn wb target h

end Return

/-- Exception entry from a valid mode followed by a return restores the interrupted status
register, goes to the return target, and keeps every register but the program counter and the
link and saved status registers of the handler's bank. -/
theorem takeException_return {c : ArmCpu} (hvalid : armModeIsValid c.cpsr) (vector : Word)
    {mode : Word} (hmode : armModeIsValid mode) (hbank : armBankOfMode mode ≠ .usr) (ret : Word)
    (maskFiq : Bool) (seq : ReturnSequence)
    (hseq : seq.Reloads (takeException c vector mode ret maskFiq).1) :
    let entry := (takeException c vector mode ret maskFiq).1
    let out := seq.run entry
    entry.r 14 = ret ∧ out.2.cpsr = c.cpsr ∧ out.1 = seq.target entry &&& pcMask c.cpsr ∧
      ∀ k, k ≠ .pc → k ≠ .lr (armBankOfMode mode) → k ≠ .spsr (armBankOfMode mode) →
        out.2.regMap k = c.regMap k := by
  intro entry out
  obtain ⟨hentry, hmap⟩ := takeException_spec c vector hmode ret maskFiq
  have hlr : entry.r 14 = ret := by
    have h14 : archReg (armBankOfMode mode) 14 = .lr (armBankOfMode mode) := by
      cases armBankOfMode mode <;> decide
    rw [r_eq_regMap, hentry, h14, hmap, writeAll, writeAll, writeAll, Function.update_self]
  have hspsr : entry.spsr entry.bank = c.cpsr := by
    have hne : ArchReg.spsr (armBankOfMode mode) ≠ .lr (armBankOfMode mode) := by rintro ⟨⟩
    have hsaved : entry.regMap (.spsr (armBankOfMode mode)) = c.cpsr := by
      rw [hmap, writeAll, writeAll, writeAll, Function.update_of_ne hne, Function.update_self]
    rw [hentry]
    exact hsaved
  have hout := ReturnSequence.returns (hentry ▸ hbank) (hspsr ▸ hvalid) seq hseq
  rw [hspsr] at hout
  refine ⟨hlr, hout.cpsr, hout.pc, fun k hpc hlr hsp => ?_⟩
  rw [hout.regMap k hpc, hmap, writeAll, writeAll, writeAll, Function.update_of_ne hlr,
    Function.update_of_ne hsp]

theorem archReg_eq_pc {b : ArmBank} {n : RegNo} (h : archReg b n = .pc) : n = 15 :=
  archReg_injective (h.trans (archReg_15 b).symm)

theorem archReg_eq_lr {b b' : ArmBank} {n : RegNo} (h : archReg b n = .lr b') :
    n = 14 ∧ b = b' := by
  revert n
  cases b <;> cases b' <;> decide

theorem archReg_ne_spsr (b b' : ArmBank) (n : RegNo) : archReg b n ≠ .spsr b' := by
  revert n
  cases b <;> cases b' <;> decide

end S5LBox
