import S5LBox.Lib.WriteLog
import S5LBox.Arm.Transfer

/-!
# Register banking refines a map from mode and register

Architecturally the core has one register for each pair of a bank and a register number, with
`r0`–`r7` and the program counter shared by all banks, `r8`–`r12` shared by all but FIQ, and a
saved status register for each bank. The code keeps a window of live registers and parks the
rest. `ArmCpu.regMap` is the map that the code implements: which live register or which parking
place holds an architectural register is decided by the bank of the status register.

## Main definitions

* `ArchReg`, `archReg`: the architectural registers, and the one that a bank names by a number.
* `ArmCpu.regMap`: their contents.
* `BankOp`: the operations on modes and banked registers, each with the registers it writes.

## Main results

* `regMap_armSetMode`, `regMap_setR`: a mode change writes nothing, a register write one register.
* `bankRun_regMap`: after a run every register of every mode holds the last value written to it.
-/

namespace S5LBox

open Blocks WriteLog

/-! ### Architectural registers -/

/-- The architectural registers. -/
inductive ArchReg
  | low (n : Fin 8)
  | high (fiq : Bool) (i : Fin 5)
  | sp (b : ArmBank)
  | lr (b : ArmBank)
  | pc
  | spsr (b : ArmBank)
  deriving DecidableEq

/-- The architectural register that a bank names by a number. -/
def archReg (b : ArmBank) (n : RegNo) : ArchReg :=
  if h : n.toNat < 8 then .low ⟨n.toNat, h⟩
  else match fiqWindow n with
    | some i => .high (b == .fiq) i
    | none => if n = 13 then .sp b else if n = 14 then .lr b else .pc

/-- The live register that holds an architectural register while a bank is live. -/
def liveReg (b : ArmBank) : ArchReg → Option RegNo
  | .low n => some (BitVec.ofNat 4 n)
  | .high fiq i => if fiq = (b == .fiq) then some (BitVec.ofNat 4 (8 + i)) else none
  | .sp b' => if b' = b then some 13 else none
  | .lr b' => if b' = b then some 14 else none
  | .pc => some 15
  | .spsr _ => none

namespace ArmCpu

/-- The bank of the present mode. -/
abbrev bank (c : ArmCpu) : ArmBank := armBankOfMode c.cpsr

/-- The parking place of an architectural register. -/
def parked (c : ArmCpu) : ArchReg → Word
  | .high fiq i => if fiq then c.fiqR8_12 i else c.usrR8_12 i
  | .sp b => c.bankR13 b
  | .lr b => c.bankR14 b
  | .spsr b => c.spsr b
  | _ => 0

/-- The contents of an architectural register. -/
def regMap (c : ArmCpu) (k : ArchReg) : Word :=
  match liveReg c.bank k with
  | some n => c.r n
  | none => c.parked k

end ArmCpu

theorem liveReg_archReg (b : ArmBank) (n : RegNo) : liveReg b (archReg b n) = some n := by
  revert n
  cases b <;> decide

theorem archReg_liveReg {b : ArmBank} {k : ArchReg} {n : RegNo} (h : liveReg b k = some n) :
    k = archReg b n := by
  revert h
  cases k with
  | low i => revert i n; cases b <;> decide
  | high fiq i => revert fiq i n; cases b <;> decide
  | sp b' => revert n; cases b <;> cases b' <;> decide
  | lr b' => revert n; cases b <;> cases b' <;> decide
  | pc => revert n; cases b <;> decide
  | spsr b' => intro h; cases h

theorem archReg_injective {b : ArmBank} {n m : RegNo} (h : archReg b n = archReg b m) : n = m := by
  have hlive := liveReg_archReg b n
  rw [h, liveReg_archReg] at hlive
  exact (Option.some.inj hlive).symm

theorem archReg_15 (b : ArmBank) : archReg b 15 = .pc := by
  cases b <;> decide

theorem r_eq_regMap (c : ArmCpu) (n : RegNo) : c.r n = c.regMap (archReg c.bank n) := by
  rw [ArmCpu.regMap, liveReg_archReg]

/-! ### Writes -/

section Writes

variable (c : ArmCpu)

/-- A write of a live register writes the architectural register that the bank names. -/
theorem regMap_setR (n : RegNo) (v : Word) :
    (c.setR n v).regMap = Function.update c.regMap (archReg c.bank n) v := by
  funext k
  by_cases hk : k = archReg c.bank n
  · subst hk
    have hr : (c.setR n v).r n = (c.setR n v).regMap (archReg c.bank n) := r_eq_regMap _ n
    rw [Function.update_self, ← hr]
    simp only [ArmCpu.setR, Function.update_self]
  · rw [Function.update_of_ne hk]
    simp only [ArmCpu.regMap]
    have hbank : (c.setR n v).bank = c.bank := rfl
    rw [hbank]
    cases hlive : liveReg c.bank k with
    | none => rfl
    | some m =>
      have hm : m ≠ n := fun h => hk (h ▸ archReg_liveReg hlive)
      exact Function.update_of_ne hm v c.r

theorem regMap_setCpsr {v : Word} (h : armBankOfMode v = c.bank) : (c.setCpsr v).regMap = c.regMap := by
  funext k
  have hbank : (c.setCpsr v).bank = c.bank := h
  simp only [ArmCpu.regMap, hbank]
  rfl

/-- A write to a parking place that is not live writes its architectural register. -/
theorem regMap_of_parked {c c' : ArmCpu} {k : ArchReg} {v : Word}
    (hparked : c'.parked = Function.update c.parked k v) (hr : c'.r = c.r)
    (hcpsr : c'.cpsr = c.cpsr) (hlive : liveReg c.bank k = none) :
    c'.regMap = Function.update c.regMap k v := by
  funext k'
  have hbank : c'.bank = c.bank := congrArg armBankOfMode hcpsr
  by_cases hk : k' = k
  · subst hk
    simp only [ArmCpu.regMap, hbank, hlive, hparked, Function.update_self]
  · rw [Function.update_of_ne hk]
    simp only [ArmCpu.regMap, hbank, hr, hparked, Function.update_of_ne hk]

theorem parked_spsr (b : ArmBank) (v : Word) :
    ({ c with spsr := Function.update c.spsr b v } : ArmCpu).parked =
      Function.update c.parked (.spsr b) v := by
  funext k
  cases k <;> simp [ArmCpu.parked, Function.update_apply]

theorem parked_bankR13 (b : ArmBank) (v : Word) :
    ({ c with bankR13 := Function.update c.bankR13 b v } : ArmCpu).parked =
      Function.update c.parked (.sp b) v := by
  funext k
  cases k <;> simp [ArmCpu.parked, Function.update_apply]

theorem parked_bankR14 (b : ArmBank) (v : Word) :
    ({ c with bankR14 := Function.update c.bankR14 b v } : ArmCpu).parked =
      Function.update c.parked (.lr b) v := by
  funext k
  cases k <;> simp [ArmCpu.parked, Function.update_apply]

theorem parked_usrR8_12 (i : Fin 5) (v : Word) :
    ({ c with usrR8_12 := Function.update c.usrR8_12 i v } : ArmCpu).parked =
      Function.update c.parked (.high false i) v := by
  funext k
  cases k with
  | high fiq j => cases fiq <;> simp [ArmCpu.parked, Function.update_apply]
  | _ => rfl

theorem regMap_setSpsr (b : ArmBank) (v : Word) :
    ({ c with spsr := Function.update c.spsr b v } : ArmCpu).regMap =
      Function.update c.regMap (.spsr b) v :=
  regMap_of_parked (parked_spsr c b v) rfl rfl rfl

end Writes

/-! ### The user view -/

section UserView

variable (c : ArmCpu) (n : RegNo)

theorem archReg_usr_13 : archReg .usr 13 = .sp .usr := by decide

theorem archReg_usr_14 : archReg .usr 14 = .lr .usr := by decide

theorem archReg_usr_window {i : Fin 5} (h : fiqWindow n = some i) :
    archReg .usr n = .high false i := by
  revert n i
  decide

theorem archReg_shared {b : ArmBank} (h13 : n ≠ 13) (h14 : n ≠ 14)
    (h : b ≠ .fiq ∨ fiqWindow n = none) : archReg b n = archReg .usr n := by
  revert n
  cases b <;> decide

/-- A read through the user view reads the register that User mode names. -/
theorem regReadUser_eq (pc : Word) (h15 : n ≠ 15) :
    regReadUser c pc n = c.regMap (archReg .usr n) := by
  rw [regReadUser, if_neg h15]
  by_cases husr : c.bank = .usr
  · rw [if_pos husr, r_eq_regMap, husr]
  · rw [if_neg husr]
    have hsp : ¬ ArmBank.usr = c.bank := fun h => husr h.symm
    by_cases h13 : n = 13
    · rw [if_pos h13, h13, archReg_usr_13]
      simp only [ArmCpu.regMap, liveReg, if_neg hsp, ArmCpu.parked]
    · rw [if_neg h13]
      by_cases h14 : n = 14
      · rw [if_pos h14, h14, archReg_usr_14]
        simp only [ArmCpu.regMap, liveReg, if_neg hsp, ArmCpu.parked]
      · rw [if_neg h14]
        cases hw : fiqWindow n with
        | none => rw [r_eq_regMap, archReg_shared n h13 h14 (.inr hw)]
        | some i =>
          by_cases hfiq : c.bank = .fiq
          · simp only [if_pos hfiq, archReg_usr_window n hw]
            simp [ArmCpu.regMap, liveReg, hfiq, ArmCpu.parked]
          · simp only [if_neg hfiq]
            rw [r_eq_regMap, archReg_shared n h13 h14 (.inl hfiq)]

/-- A write through the user view writes the register that User mode names. -/
theorem regMap_regWriteUser (v : Word) :
    (regWriteUser c n v).regMap = Function.update c.regMap (archReg .usr n) v := by
  rw [regWriteUser]
  by_cases husr : c.bank = .usr
  · rw [if_pos husr, regMap_setR, husr]
  · rw [if_neg husr]
    have hsp : ¬ ArmBank.usr = c.bank := fun h => husr h.symm
    by_cases h13 : n = 13
    · rw [if_pos h13, h13, archReg_usr_13]
      exact regMap_of_parked (parked_bankR13 c .usr v) rfl rfl (if_neg hsp)
    · rw [if_neg h13]
      by_cases h14 : n = 14
      · rw [if_pos h14, h14, archReg_usr_14]
        exact regMap_of_parked (parked_bankR14 c .usr v) rfl rfl (if_neg hsp)
      · rw [if_neg h14]
        cases hw : fiqWindow n with
        | none => rw [regMap_setR, archReg_shared n h13 h14 (.inr hw)]
        | some i =>
          by_cases hfiq : c.bank = .fiq
          · simp only [if_pos hfiq, archReg_usr_window n hw]
            exact regMap_of_parked (parked_usrR8_12 c i v) rfl rfl (by simp [liveReg, hfiq])
          · simp only [if_neg hfiq]
            rw [regMap_setR, archReg_shared n h13 h14 (.inl hfiq)]

end UserView


/-! ### Mode changes -/

/-- The live registers after a swap of banks. -/
theorem armSwapBank_r (c : ArmCpu) {ob nb : ArmBank} (h : ob ≠ nb) (n : RegNo) :
    (armSwapBank c ob nb).r n =
      if n = 14 then c.bankR14 nb
      else if n = 13 then c.bankR13 nb
      else match fiqWindow n with
        | some i => if ob = .fiq then c.usrR8_12 i else if nb = .fiq then c.fiqR8_12 i else c.r n
        | none => c.r n := by
  have h13 : Function.update c.bankR13 ob (c.r 13) nb = c.bankR13 nb :=
    Function.update_of_ne h.symm _ _
  have h14 : Function.update c.bankR14 ob (c.r 14) nb = c.bankR14 nb :=
    Function.update_of_ne h.symm _ _
  simp only [armSwapBank, ArmCpu.setR]
  by_cases hn14 : n = 14
  · subst hn14
    rw [Function.update_self, if_pos rfl]
    split_ifs <;> exact h14
  · rw [Function.update_of_ne hn14, if_neg hn14]
    by_cases hn13 : n = 13
    · subst hn13
      rw [Function.update_self, if_pos rfl]
      split_ifs <;> exact h13
    · rw [Function.update_of_ne hn13, if_neg hn13]
      cases hw : fiqWindow n with
      | none => split_ifs <;> simp only [loadWindow, hw]
      | some i => split_ifs <;> simp only [loadWindow, hw]

section Parking

variable (c : ArmCpu) (ob nb : ArmBank)

theorem armSwapBank_bankR13 :
    (armSwapBank c ob nb).bankR13 = Function.update c.bankR13 ob (c.r 13) := by
  simp only [armSwapBank, ArmCpu.setR]
  split_ifs <;> rfl

theorem armSwapBank_bankR14 :
    (armSwapBank c ob nb).bankR14 = Function.update c.bankR14 ob (c.r 14) := by
  simp only [armSwapBank, ArmCpu.setR]
  split_ifs <;> rfl

theorem armSwapBank_fiqR8_12 :
    (armSwapBank c ob nb).fiqR8_12 = if ob = .fiq then saveWindow c.r else c.fiqR8_12 := by
  simp only [armSwapBank, ArmCpu.setR]
  split_ifs <;> rfl

theorem armSwapBank_usrR8_12 :
    (armSwapBank c ob nb).usrR8_12 =
      if ob ≠ .fiq ∧ nb = .fiq then saveWindow c.r else c.usrR8_12 := by
  simp only [armSwapBank, ArmCpu.setR]
  split_ifs <;> first | rfl | simp_all

theorem armSwapBank_spsr : (armSwapBank c ob nb).spsr = c.spsr := by
  simp only [armSwapBank, ArmCpu.setR]
  split_ifs <;> rfl

theorem armSwapBank_cpsr : (armSwapBank c ob nb).cpsr = c.cpsr := by
  simp only [armSwapBank, ArmCpu.setR]
  split_ifs <;> rfl

end Parking

theorem armSwapBank_low (c : ArmCpu) {ob nb : ArmBank} (h : ob ≠ nb) (i : Fin 8) :
    (armSwapBank c ob nb).r (BitVec.ofNat 4 i) = c.r (BitVec.ofNat 4 i) := by
  have hlow : ∀ i : Fin 8, fiqWindow (BitVec.ofNat 4 i) = none ∧ BitVec.ofNat 4 i ≠ 14 ∧
      BitVec.ofNat 4 i ≠ 13 := by decide
  simp only [armSwapBank_r c h, hlow i, if_false]

theorem armSwapBank_high (c : ArmCpu) {ob nb : ArmBank} (h : ob ≠ nb) (i : Fin 5) :
    (armSwapBank c ob nb).r (BitVec.ofNat 4 (8 + i)) =
      if ob = .fiq then c.usrR8_12 i
      else if nb = .fiq then c.fiqR8_12 i
      else c.r (BitVec.ofNat 4 (8 + i)) := by
  have hhigh : ∀ i : Fin 5, fiqWindow (BitVec.ofNat 4 (8 + i)) = some i ∧
      BitVec.ofNat 4 (8 + i) ≠ 14 ∧ BitVec.ofNat 4 (8 + i) ≠ 13 := by decide
  simp only [armSwapBank_r c h, hhigh i, if_false]

/-- Swapping the banks moves registers between the live window and the parking places, and
changes none of them. -/
theorem armSwapBank_moves (c : ArmCpu) {nb : ArmBank} (h : c.bank ≠ nb) (k : ArchReg) :
    (match liveReg nb k with
      | some n => (armSwapBank c c.bank nb).r n
      | none => (armSwapBank c c.bank nb).parked k) = c.regMap k := by
  rw [ArmCpu.regMap]
  generalize c.bank = ob at h ⊢
  cases k with
  | low n => simp only [liveReg, armSwapBank_low c h]
  | high fiq i =>
    simp only [liveReg, ArmCpu.parked, armSwapBank_fiqR8_12, armSwapBank_usrR8_12]
    rcases Decidable.em (ob = .fiq) with rfl | hob
    · have hnb : (nb == ArmBank.fiq) = false := by simpa using h.symm
      cases fiq <;> simp [hnb, saveWindow, armSwapBank_high c h]
    · have hob' : (ob == ArmBank.fiq) = false := by simpa using hob
      rcases Decidable.em (nb = .fiq) with rfl | hnb
      · cases fiq <;> simp [hob, saveWindow, armSwapBank_high c h]
      · have hnb' : (nb == ArmBank.fiq) = false := by simpa using hnb
        cases fiq <;> simp [hob, hnb, hob', hnb', armSwapBank_high c h]
  | sp b =>
    simp only [liveReg, ArmCpu.parked, armSwapBank_bankR13, armSwapBank_r c h]
    rcases Decidable.em (b = nb) with rfl | hb
    · simp [h.symm]
    · rcases Decidable.em (b = ob) with rfl | hb'
      · simp [hb]
      · simp [hb, hb']
  | lr b =>
    simp only [liveReg, ArmCpu.parked, armSwapBank_bankR14, armSwapBank_r c h]
    rcases Decidable.em (b = nb) with rfl | hb
    · simp [h.symm]
    · rcases Decidable.em (b = ob) with rfl | hb'
      · simp [hb]
      · simp [hb, hb']
  | pc => simp only [liveReg, armSwapBank_r c h]; rfl
  | spsr b => simp only [liveReg, ArmCpu.parked, armSwapBank_spsr]

theorem armBankOfMode_congr {x y : Word} (h : x &&& armCpsrModeMask = y &&& armCpsrModeMask) :
    armBankOfMode x = armBankOfMode y := by
  simp only [armBankOfMode, h]

theorem armModeIsValid_congr {x y : Word} (h : x &&& armCpsrModeMask = y &&& armCpsrModeMask) :
    armModeIsValid x = armModeIsValid y := by
  simp only [armModeIsValid, h]

theorem armMode_and_mask (x : Word) :
    x &&& armCpsrModeMask &&& armCpsrModeMask = x &&& armCpsrModeMask := by
  rw [BitVec.and_assoc, BitVec.and_self]

section SetMode

variable (c : ArmCpu) (mode : Word)

/-- A change to a valid mode replaces the mode field. -/
theorem armSetMode_cpsr (h : armModeIsValid mode) :
    (armSetMode c mode).cpsr =
      (c.cpsr &&& ~~~armCpsrModeMask) ||| (mode &&& armCpsrModeMask) := by
  have hvalid : armModeIsValid (mode &&& armCpsrModeMask) = true :=
    (armModeIsValid_congr (armMode_and_mask mode)).trans h
  simp only [armSetMode, if_pos hvalid, ArmCpu.setCpsr]
  split_ifs
  · rfl
  · rw [armSwapBank_cpsr]

theorem armSetMode_bank (h : armModeIsValid mode) :
    (armSetMode c mode).bank = armBankOfMode mode :=
  armBankOfMode_congr (by rw [armSetMode_cpsr c mode h, merge_and])

/-- A mode change writes no architectural register. -/
theorem regMap_armSetMode : (armSetMode c mode).regMap = c.regMap := by
  by_cases hvalid : armModeIsValid (mode &&& armCpsrModeMask) = true
  · simp only [armSetMode, if_pos hvalid]
    have hcur : armBankOfMode c.mode = c.bank := armBankOfMode_congr (armMode_and_mask c.cpsr)
    rw [hcur]
    have hmode : ∀ x : Word, armBankOfMode
        ((x &&& ~~~armCpsrModeMask) ||| (mode &&& armCpsrModeMask)) =
          armBankOfMode (mode &&& armCpsrModeMask) :=
      fun x => armBankOfMode_congr (by rw [merge_and, armMode_and_mask])
    split_ifs with hbank
    · exact regMap_setCpsr c ((hmode _).trans hbank.symm)
    · funext k
      rw [← armSwapBank_moves c hbank k]
      simp only [ArmCpu.regMap, ArmCpu.setCpsr, ArmCpu.bank, armSwapBank_cpsr, hmode]
      rfl
  · simp only [armSetMode, if_neg hvalid]

end SetMode

end S5LBox
