import S5LBox.Arm.Cpu
import S5LBox.Lib.SingleBit

/-!
# The GPIO interrupt controller

`gpioic.c`: seven groups of 32 lines. The guest selects for each line whether it is an edge or a
level line and which level asserts it, and clears the pending latch with ones. A level line is
looked at again whenever a register or the wire on it moves; an edge line latches when its wire
rises.

## Main definitions

* `S5lGpioic`: the controller; `s5lGpioicWrite`, `s5lGpioicSetLine`: its two sides.
* `asserting`: a level line whose wire equals its selected polarity.

## Main results

* `GpioicOp.stepLatches`: what one access or one change of a wire latches.
* `latchedAt_run`: the lines that assert are pending after any run.
-/

namespace S5LBox.Soc

/-! ### The controller -/

abbrev gpioicGroups : Nat := 7
def gpioicLines : Nat := gpioicGroups * 32

def gpioicIntlevel : Word := 0x80
def gpioicIntstat : Word := 0xa0
def gpioicInten : Word := 0xc0
def gpioicInttype : Word := 0xe0

def gpioicUnknownOff : Nat := 8

/-- A word for each group. -/
abbrev Bank : Type := Fin gpioicGroups → Word

/-- `s5l_gpioic_t`. -/
structure S5lGpioic where
  level : Bank := fun _ => 0
  stat : Bank := fun _ => 0
  en : Bank := fun _ => 0
  type : Bank := fun _ => 0
  /-- What the board drives. -/
  raw : Bank := fun _ => 0
  /-- The lines with a device on the end of them. -/
  driven : Bank := fun _ => 0
  unknownReads : BitVec 64 := 0
  unknownWrites : BitVec 64 := 0
  unknownOff : List Word := []

/-- `s5l_gpioic_reset`. -/
def s5lGpioicReset : S5lGpioic := {}

/-- `note_unknown`. -/
def noteUnknown (g : S5lGpioic) (off : Word) : S5lGpioic :=
  if off ∈ g.unknownOff then g
  else if g.unknownOff.length < gpioicUnknownOff then
    { g with unknownOff := g.unknownOff ++ [off] }
  else g

/-- `decode`: the group of an offset within one bank. -/
def decode (off base : Word) : Option (Fin gpioicGroups) :=
  if off < base then none
  else
    let rel := off - base
    if rel &&& 3 ≠ 0 then none
    else
      let idx := rel >>> 2
      if h : idx.toNat < gpioicGroups then some ⟨idx.toNat, h⟩ else none

/-- `relatch_level`. -/
def relatchLevel (g : S5lGpioic) (group : Fin gpioicGroups) : S5lGpioic :=
  { g with
    stat := Function.update g.stat group
      (g.stat group ||| (~~~(g.raw group ^^^ g.level group) &&& g.type group &&&
        g.driven group &&& g.en group)) }

/-- `s5l_gpioic_read`. -/
def s5lGpioicRead (g : S5lGpioic) (off : Word) : Word × S5lGpioic :=
  match decode off gpioicIntlevel, decode off gpioicIntstat, decode off gpioicInten,
    decode off gpioicInttype with
  | some group, _, _, _ => (g.level group, g)
  | none, some group, _, _ => (g.stat group, g)
  | none, none, some group, _ => (g.en group, g)
  | none, none, none, some group => (g.type group, g)
  | none, none, none, none =>
    (0, noteUnknown { g with unknownReads := g.unknownReads + 1 } off)

/-- `s5l_gpioic_write`. -/
def s5lGpioicWrite (g : S5lGpioic) (off val : Word) : S5lGpioic :=
  match decode off gpioicIntlevel, decode off gpioicIntstat, decode off gpioicInten,
    decode off gpioicInttype with
  | some group, _, _, _ =>
    relatchLevel { g with level := Function.update g.level group val } group
  | none, some group, _, _ =>
    -- Ones clear; a level line that is still asserting is pending again at once.
    relatchLevel { g with stat := Function.update g.stat group (g.stat group &&& ~~~val) } group
  | none, none, some group, _ =>
    relatchLevel { g with en := Function.update g.en group val } group
  | none, none, none, some group =>
    relatchLevel { g with type := Function.update g.type group val } group
  | none, none, none, none =>
    noteUnknown { g with unknownWrites := g.unknownWrites + 1 } off

/-- The bit of a line in the word of its group. -/
def lineBit (line : Nat) : Word := BitVec.twoPow 32 (line % 32)

/-- The group of a line. -/
def lineGroup (line : Nat) (h : line < gpioicLines) : Fin gpioicGroups :=
  ⟨line / 32, Nat.div_lt_of_lt_mul (by rwa [Nat.mul_comm])⟩

/-- The controller with the wire of a line at a level. -/
def driveWire (g : S5lGpioic) (group : Fin gpioicGroups) (bit : Word) (level : Bool) : S5lGpioic :=
  { g with
    raw := Function.update g.raw group
      (if level then g.raw group ||| bit else g.raw group &&& ~~~bit)
    driven := Function.update g.driven group (g.driven group ||| bit) }

/-- `s5l_gpioic_set_line`. -/
def s5lGpioicSetLine (g : S5lGpioic) (line : Nat) (level : Bool) : S5lGpioic :=
  if h : line < gpioicLines then
    let group := lineGroup line h
    let bit := lineBit line
    let was := g.raw group &&& bit != 0
    let first := g.driven group &&& bit == 0
    let g := driveWire g group bit level
    if g.type group &&& bit ≠ 0 then
      if level != was || first then relatchLevel g group else g
    else if level && !was then
      { g with stat := Function.update g.stat group (g.stat group ||| bit) }
    else g
  else g

/-- The bit of a line in a bank; a line that is not there has none. -/
def bankBit (bank : Bank) (line : Nat) : Bool :=
  if h : line < gpioicLines then bank (lineGroup line h) &&& lineBit line != 0 else false

/-- `s5l_gpioic_line`. -/
def s5lGpioicLine (g : S5lGpioic) (line : Nat) : Bool := bankBit g.raw line

/-- `s5l_gpioic_pending`. -/
def s5lGpioicPending (g : S5lGpioic) (line : Nat) : Bool := bankBit g.stat line

/-! ### Lines of a group -/

variable {g : S5lGpioic} {k : Fin gpioicGroups} {i : Nat}

/-- An enabled level line, with a device on it, whose wire equals its selected polarity. -/
def asserting (g : S5lGpioic) (k : Fin gpioicGroups) (i : Nat) : Bool :=
  bit (g.raw k) i == bit (g.level k) i && bit (g.type k) i && bit (g.driven k) i && bit (g.en k) i

/-- The lines of a group that assert are pending. -/
def LatchedAt (g : S5lGpioic) (k : Fin gpioicGroups) : Prop :=
  ∀ i < 32, asserting g k i → bit (g.stat k) i

theorem bit_relatchLevel (g : S5lGpioic) (k : Fin gpioicGroups) (hi : i < 32) :
    bit ((relatchLevel g k).stat k) i = (bit (g.stat k) i || asserting g k i) := by
  have hsame (a b : Bool) : (!(a ^^ b)) = (a == b) := by
    cases a <;> cases b <;> rfl
  have hstat : (relatchLevel g k).stat k = g.stat k ||| (~~~(g.raw k ^^^ g.level k) &&&
      g.type k &&& g.driven k &&& g.en k) := Function.update_self _ _ _
  rw [hstat]
  simp only [BitVec.getLsbD_or, BitVec.getLsbD_and, BitVec.getLsbD_not, BitVec.getLsbD_xor, hi,
    decide_true, Bool.true_and, asserting, hsame]

theorem relatchLevel_stat_of_ne (g : S5lGpioic) {k j : Fin gpioicGroups} (h : j ≠ k) :
    (relatchLevel g k).stat j = g.stat j := Function.update_of_ne h _ _

theorem asserting_relatchLevel (g : S5lGpioic) (k j : Fin gpioicGroups) :
    asserting (relatchLevel g k) j = asserting g j := rfl

/-- After a group has been looked at its asserting lines are pending. -/
theorem latchedAt_relatchLevel (g : S5lGpioic) (h : ∀ j ≠ k, LatchedAt g j) (j : Fin gpioicGroups) :
    LatchedAt (relatchLevel g k) j := by
  intro i hi hassert
  rw [asserting_relatchLevel] at hassert
  by_cases hj : j = k
  · rw [hj] at hassert ⊢
    rw [bit_relatchLevel g k hi, hassert, Bool.or_true]
  · rw [relatchLevel_stat_of_ne g hj]
    exact h j hj i hi hassert

/-- A line that looking again makes pending is asserting. -/
theorem asserting_of_relatchLevel {j : Fin gpioicGroups} (hi : i < 32)
    (h : bit ((relatchLevel g k).stat j) i = true) (hbefore : bit (g.stat j) i = false) :
    asserting (relatchLevel g k) j i = true := by
  rw [asserting_relatchLevel]
  by_cases hj : j = k
  · rw [hj] at h hbefore ⊢
    rwa [bit_relatchLevel g k hi, hbefore, Bool.false_or] at h
  · rw [relatchLevel_stat_of_ne g hj, hbefore] at h
    exact absurd h Bool.false_ne_true

theorem mod_lt_word (line : Nat) : line % 32 < 32 := Nat.mod_lt _ (by decide)

theorem and_lineBit_ne_zero (w : Word) (line : Nat) :
    w &&& lineBit line ≠ 0 ↔ bit w (line % 32) = true :=
  SingleBit.and_twoPow_ne_zero w (mod_lt_word line)

theorem bne_lineBit (w : Word) (line : Nat) : (w &&& lineBit line != 0) = bit w (line % 32) := by
  rw [Bool.eq_iff_iff, bne_iff_ne, and_lineBit_ne_zero]

theorem beq_lineBit (w : Word) (line : Nat) : (w &&& lineBit line == 0) = !bit w (line % 32) := by
  rw [← bne_lineBit]
  exact (Bool.not_not _).symm

theorem bankBit_eq (bank : Bank) {line : Nat} (h : line < gpioicLines) :
    bankBit bank line = bit (bank (lineGroup line h)) (line % 32) := by
  rw [bankBit, dif_pos h, bne_lineBit]

/-- A level line is looked at again when its wire has moved. -/
theorem s5lGpioicSetLine_level {line : Nat} (h : line < gpioicLines) (level : Bool)
    (htype : bit (g.type (lineGroup line h)) (line % 32) = true) :
    s5lGpioicSetLine g line level =
      if level != bit (g.raw (lineGroup line h)) (line % 32) ||
          !bit (g.driven (lineGroup line h)) (line % 32) then
        relatchLevel (driveWire g (lineGroup line h) (lineBit line) level) (lineGroup line h)
      else driveWire g (lineGroup line h) (lineBit line) level := by
  rw [s5lGpioicSetLine, dif_pos h, ← bne_lineBit, ← beq_lineBit]
  exact if_pos ((and_lineBit_ne_zero _ _).mpr htype)

/-- An edge line latches when its wire rises. -/
theorem s5lGpioicSetLine_edge {line : Nat} (h : line < gpioicLines) (level : Bool)
    (htype : bit (g.type (lineGroup line h)) (line % 32) = false) :
    s5lGpioicSetLine g line level =
      if level && !bit (g.raw (lineGroup line h)) (line % 32) then
        { driveWire g (lineGroup line h) (lineBit line) level with
          stat := Function.update g.stat (lineGroup line h)
            (g.stat (lineGroup line h) ||| lineBit line) }
      else driveWire g (lineGroup line h) (lineBit line) level := by
  rw [s5lGpioicSetLine, dif_pos h, ← bne_lineBit]
  refine if_neg fun hlevel => ?_
  exact absurd ((and_lineBit_ne_zero _ _).mp hlevel) (Bool.eq_false_iff.mp htype)

/-! ### Steps of the controller -/

/-- An access of the guest, or a change of a wire. -/
inductive GpioicOp where
  | write (off val : Word)
  | setLine (line : Nat) (level : Bool)

def GpioicOp.apply (g : S5lGpioic) : GpioicOp → S5lGpioic
  | .write off val => s5lGpioicWrite g off val
  | .setLine line level => s5lGpioicSetLine g line level

/-- The wire of an edge line rises. -/
def RisingEdge (g : S5lGpioic) (k : Fin gpioicGroups) (i : Nat) (op : GpioicOp) : Prop :=
  ∃ (line : Nat) (h : line < gpioicLines), op = .setLine line true ∧ k = lineGroup line h ∧
    i = line % 32 ∧ bit (g.type k) i = false ∧ bit (g.raw k) i = false

/-- What a step keeps and what it latches. -/
structure StepLatches (g : S5lGpioic) (op : GpioicOp) (g' : S5lGpioic) : Prop where
  latched : (∀ k, LatchedAt g k) → ∀ k, LatchedAt g' k
  only : ∀ k i, i < 32 → bit (g'.stat k) i = true → bit (g.stat k) i = false →
    asserting g' k i = true ∨ RisingEdge g k i op

/-- Only the words of group `k` have moved, and no line has become pending. -/
structure GroupMoved (g g' : S5lGpioic) (k : Fin gpioicGroups) : Prop where
  asserting_eq : ∀ j ≠ k, asserting g' j = asserting g j
  stat_eq : ∀ j ≠ k, g'.stat j = g.stat j
  fewer : ∀ i, bit (g'.stat k) i = true → bit (g.stat k) i = true

/-- A step that moves one group and looks at it again. -/
theorem GroupMoved.relatch {g' : S5lGpioic} (h : GroupMoved g g' k) (op : GpioicOp) :
    StepLatches g op (relatchLevel g' k) where
  latched hall := latchedAt_relatchLevel g' fun j hj => by
    rw [LatchedAt, h.asserting_eq j hj, h.stat_eq j hj]
    exact hall j
  only j i hi hafter hbefore := by
    refine .inl (asserting_of_relatchLevel hi hafter ?_)
    by_cases hj : j = k
    · rw [hj] at hbefore ⊢
      exact Bool.eq_false_iff.mpr fun hbit => Bool.eq_false_iff.mp hbefore (h.fewer i hbit)
    · rwa [h.stat_eq j hj]

/-- A step that leaves what asserts, and that latches at most the line of a rising edge. -/
theorem StepLatches.of_asserting {g' : S5lGpioic} {op : GpioicOp}
    (hassert : ∀ j i, i < 32 → asserting g' j i = asserting g j i)
    (hmore : ∀ j i, bit (g.stat j) i = true → bit (g'.stat j) i = true)
    (honly : ∀ j i, i < 32 → bit (g'.stat j) i = true → bit (g.stat j) i = false →
      RisingEdge g j i op) : StepLatches g op g' where
  latched hall j i hi h := hmore j i (hall j i hi ((hassert j i hi).symm.trans h))
  only j i hi hafter hbefore := .inr (honly j i hi hafter hbefore)

theorem asserting_noteUnknown (off : Word) : asserting (noteUnknown g off) = asserting g := by
  rw [noteUnknown]
  split_ifs <;> rfl

theorem stat_noteUnknown (off : Word) : (noteUnknown g off).stat = g.stat := by
  rw [noteUnknown]
  split_ifs <;> rfl

theorem asserting_update {g' : S5lGpioic} {j : Fin gpioicGroups} (hlevel : g'.level j = g.level j)
    (htype : g'.type j = g.type j) (hen : g'.en j = g.en j) (hraw : g'.raw j = g.raw j)
    (hdriven : g'.driven j = g.driven j) : asserting g' j = asserting g j := by
  funext i
  rw [asserting, asserting, hlevel, htype, hen, hraw, hdriven]

theorem stepLatches_write (g : S5lGpioic) (off val : Word) :
    StepLatches g (.write off val) (s5lGpioicWrite g off val) := by
  rw [s5lGpioicWrite]
  split
  · case _ group _ =>
    refine GroupMoved.relatch ?_ _
    refine ⟨fun j hj => ?_, fun j _ => rfl, fun i h => h⟩
    exact asserting_update (Function.update_of_ne hj _ _) rfl rfl rfl rfl
  · case _ group _ _ =>
    refine GroupMoved.relatch ?_ _
    refine ⟨fun j _ => rfl, fun j hj => Function.update_of_ne hj _ _, fun i h => ?_⟩
    change bit (Function.update g.stat group (g.stat group &&& ~~~val) group) i = true at h
    rw [Function.update_self, bit, BitVec.getLsbD_and, Bool.and_eq_true] at h
    exact h.1
  · case _ group _ _ _ =>
    refine GroupMoved.relatch ?_ _
    refine ⟨fun j hj => ?_, fun j _ => rfl, fun i h => h⟩
    exact asserting_update rfl rfl (Function.update_of_ne hj _ _) rfl rfl
  · case _ group _ _ _ _ =>
    refine GroupMoved.relatch ?_ _
    refine ⟨fun j hj => ?_, fun j _ => rfl, fun i h => h⟩
    exact asserting_update rfl (Function.update_of_ne hj _ _) rfl rfl rfl
  · refine .of_asserting (fun j i _ => ?_) (fun j i h => ?_) fun j i _ hafter hbefore => ?_
    · rw [asserting_noteUnknown]
      rfl
    · rwa [stat_noteUnknown]
    · rw [stat_noteUnknown] at hafter
      exact absurd (hafter.symm.trans hbefore) (by decide)

/-! ### Changes of a wire -/

section Wire

variable {line : Nat} {level : Bool}

theorem bit_raw_driveWire (g : S5lGpioic) (k : Fin gpioicGroups) (line : Nat) (level : Bool)
    (i : Nat) : bit ((driveWire g k (lineBit line) level).raw k) i =
      if line % 32 = i then level else bit (g.raw k) i := by
  have hraw : (driveWire g k (lineBit line) level).raw k =
      if level then g.raw k ||| lineBit line else g.raw k &&& ~~~lineBit line :=
    Function.update_self _ _ _
  rw [hraw, lineBit]
  cases level with
  | true =>
    rw [if_pos rfl, bit, SingleBit.getLsbD_or_twoPow _ (mod_lt_word line)]
    by_cases h : line % 32 = i <;> simp [h]
  | false =>
    rw [if_neg Bool.false_ne_true, bit, SingleBit.getLsbD_and_not_twoPow _ (mod_lt_word line)]
    by_cases h : line % 32 = i <;> simp [h]

theorem bit_driven_driveWire (g : S5lGpioic) (k : Fin gpioicGroups) (line : Nat) (level : Bool)
    (i : Nat) : bit ((driveWire g k (lineBit line) level).driven k) i =
      (bit (g.driven k) i || decide (line % 32 = i)) := by
  have hdriven : (driveWire g k (lineBit line) level).driven k = g.driven k ||| lineBit line :=
    Function.update_self _ _ _
  rw [hdriven, lineBit, bit, SingleBit.getLsbD_or_twoPow _ (mod_lt_word line)]

theorem asserting_driveWire_of_ne {j : Fin gpioicGroups} (h : j ≠ k) :
    asserting (driveWire g k (lineBit line) level) j = asserting g j := by
  have hraw : (driveWire g k (lineBit line) level).raw j = g.raw j :=
    Function.update_of_ne h _ _
  have hdriven : (driveWire g k (lineBit line) level).driven j = g.driven j :=
    Function.update_of_ne h _ _
  exact asserting_update rfl rfl rfl hraw hdriven

/-- Driving a wire to the level that it has changes nothing. -/
theorem asserting_driveWire_same (hdriven : bit (g.driven k) (line % 32) = true)
    (hraw : bit (g.raw k) (line % 32) = level) (j : Fin gpioicGroups) (i : Nat) :
    asserting (driveWire g k (lineBit line) level) j i = asserting g j i := by
  by_cases hj : j = k
  · rw [hj, asserting, asserting, bit_raw_driveWire, bit_driven_driveWire]
    by_cases hi : line % 32 = i
    · rw [← hi, if_pos rfl, decide_eq_true rfl, Bool.or_true, hdriven, hraw]
      rfl
    · rw [if_neg hi, decide_eq_false hi, Bool.or_false]
      rfl
  · rw [asserting_driveWire_of_ne hj]

/-- An edge line never asserts. -/
theorem asserting_driveWire_edge (htype : bit (g.type k) (line % 32) = false)
    (j : Fin gpioicGroups) (i : Nat) :
    asserting (driveWire g k (lineBit line) level) j i = asserting g j i := by
  by_cases hj : j = k
  · rw [hj, asserting, asserting, bit_raw_driveWire, bit_driven_driveWire]
    by_cases hi : line % 32 = i
    · have hedge : bit ((driveWire g k (lineBit line) level).type k) (line % 32) = false := htype
      rw [← hi, hedge, htype, Bool.and_false, Bool.false_and, Bool.false_and, Bool.and_false,
        Bool.false_and, Bool.false_and]
    · rw [if_neg hi, decide_eq_false hi, Bool.or_false]
      rfl
  · rw [asserting_driveWire_of_ne hj]

end Wire

theorem stepLatches_setLine (g : S5lGpioic) (line : Nat) (level : Bool) :
    StepLatches g (.setLine line level) (s5lGpioicSetLine g line level) := by
  by_cases hline : line < gpioicLines
  · by_cases hlevel : bit (g.type (lineGroup line hline)) (line % 32) = true
    · rw [s5lGpioicSetLine_level hline level hlevel]
      split_ifs with hmoved
      · refine GroupMoved.relatch ?_ _
        exact ⟨fun j hj => asserting_driveWire_of_ne hj, fun _ _ => rfl, fun _ h => h⟩
      · rw [Bool.or_eq_true, not_or, Bool.not_eq_true, Bool.not_eq_true, bne_eq_false_iff_eq,
          Bool.not_eq_false'] at hmoved
        refine .of_asserting (fun j i _ => ?_) (fun _ _ h => h) fun j i _ hafter hbefore =>
          absurd (hafter.symm.trans hbefore) (by decide)
        exact asserting_driveWire_same hmoved.2 hmoved.1.symm j i
    · rw [Bool.not_eq_true] at hlevel
      rw [s5lGpioicSetLine_edge hline level hlevel]
      generalize hgroup : lineGroup line hline = k at hlevel ⊢
      split_ifs with hrise
      · rw [Bool.and_eq_true, Bool.not_eq_true'] at hrise
        have hbit (j : Fin gpioicGroups) (i : Nat) :
            bit (Function.update g.stat k (g.stat k ||| lineBit line) j) i =
              (bit (g.stat j) i || decide (j = k) && decide (line % 32 = i)) := by
          by_cases hj : j = k
          · rw [hj, Function.update_self, lineBit, bit,
              SingleBit.getLsbD_or_twoPow _ (mod_lt_word line), decide_eq_true rfl, Bool.true_and]
          · rw [Function.update_of_ne hj, decide_eq_false hj, Bool.false_and, Bool.or_false]
        refine .of_asserting (fun j i _ => ?_) (fun j i h => ?_) fun j i _ hafter hbefore => ?_
        · exact asserting_driveWire_edge hlevel j i
        · exact (hbit j i).trans (by rw [h, Bool.true_or])
        · -- The one line that becomes pending is the one whose wire has risen.
          have hline' := (hbit j i).symm.trans hafter
          rw [hbefore, Bool.false_or, Bool.and_eq_true, decide_eq_true_eq, decide_eq_true_eq]
            at hline'
          obtain ⟨rfl, rfl⟩ := hline'
          exact ⟨line, hline, by rw [hrise.1], hgroup.symm, rfl, hlevel, hrise.2⟩
      · refine .of_asserting (fun j i _ => ?_) (fun _ _ h => h) fun j i _ hafter hbefore =>
          absurd (hafter.symm.trans hbefore) (by decide)
        exact asserting_driveWire_edge hlevel j i
  · rw [s5lGpioicSetLine, dif_neg hline]
    exact .of_asserting (fun _ _ _ => rfl) (fun _ _ h => h) fun j i _ hafter hbefore =>
      absurd (hafter.symm.trans hbefore) (by decide)

theorem GpioicOp.stepLatches (op : GpioicOp) (g : S5lGpioic) : StepLatches g op (op.apply g) := by
  cases op with
  | write off val => exact stepLatches_write g off val
  | setLine line level => exact stepLatches_setLine g line level

/-! ### Runs of the controller -/

/-- The controller after some accesses and changes. -/
def runGpioic (ops : List GpioicOp) (g : S5lGpioic) : S5lGpioic :=
  ops.foldl (fun g op => op.apply g) g

theorem latchedAt_reset (k : Fin gpioicGroups) : LatchedAt s5lGpioicReset k := by
  intro i _ h
  simp [asserting, s5lGpioicReset] at h

theorem latchedAt_run (ops : List GpioicOp) (h : ∀ k, LatchedAt g k) (k : Fin gpioicGroups) :
    LatchedAt (runGpioic ops g) k := by
  induction ops generalizing g with
  | nil => exact h k
  | cons op ops ih => exact ih ((op.stepLatches g).latched h)

end S5LBox.Soc
