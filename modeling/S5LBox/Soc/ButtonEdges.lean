import S5LBox.Soc.Buttons

/-!
# Each accepted transition of a button is one interrupt

The controller is seen through one line at a time: its six bits. The guest's handler serves a line
that is pending by turning its polarity and then acknowledging it. Between the two the line is
pending and does not assert; outside of the two it is pending where its wire equals its polarity.
The host moves a wire only where its line is not pending.

## Main definitions

* `LineView`, `view`: one line of the controller.
* `ButtonStep`: a call of the host or a step of a handler.

## Main results

* `Step.serves`: what one step does to a button.
* `gpio_interrupts`: no interrupt is lost, and each accepted transition is one.
-/

namespace S5LBox.Soc

/-! ### One line -/

/-- The bits of one line. -/
structure LineView where
  level : Bool
  stat : Bool
  en : Bool
  type : Bool
  raw : Bool
  driven : Bool
  deriving DecidableEq

/-- The line, looked at again. -/
def LineView.relatch (v : LineView) : LineView :=
  { v with stat := v.stat || (v.raw == v.level && v.type && v.driven && v.en) }

/-- One line of the controller. -/
def view (g : S5lGpioic) (k : Fin gpioicGroups) (i : Nat) : LineView :=
  { level := bit (g.level k) i
    stat := bit (g.stat k) i
    en := bit (g.en k) i
    type := bit (g.type k) i
    raw := bit (g.raw k) i
    driven := bit (g.driven k) i }

variable {g : S5lGpioic} {k : Fin gpioicGroups} {i line : Nat}

theorem view_relatchLevel (g : S5lGpioic) (k : Fin gpioicGroups) (hi : i < 32) :
    view (relatchLevel g k) k i = (view g k i).relatch := by
  have hstat := bit_relatchLevel g k hi
  rw [view, hstat]
  rfl

/-- A line whose bits are not moved is at most looked at again. -/
def Undisturbed (v v' : LineView) : Prop := v' = v ∨ v' = v.relatch

theorem view_driveWire_self (g : S5lGpioic) (k : Fin gpioicGroups) (line : Nat) (level : Bool) :
    view (driveWire g k (lineBit line) level) k (line % 32) =
      { view g k (line % 32) with raw := level, driven := true } := by
  rw [view, bit_raw_driveWire, bit_driven_driveWire, if_pos rfl, decide_eq_true rfl, Bool.or_true]
  rfl

theorem view_driveWire_of_ne (g : S5lGpioic) (k : Fin gpioicGroups) (level : Bool)
    (h : line % 32 ≠ i) : view (driveWire g k (lineBit line) level) k i = view g k i := by
  rw [view, bit_raw_driveWire, bit_driven_driveWire, if_neg h, decide_eq_false h, Bool.or_false]
  rfl

/-- A level line that is driven, seen after its wire has moved. -/
theorem view_setLine_self (h : line < gpioicLines) (level : Bool)
    (htype : bit (g.type (lineGroup line h)) (line % 32) = true)
    (hmoved : level ≠ bit (g.raw (lineGroup line h)) (line % 32)) :
    view (s5lGpioicSetLine g line level) (lineGroup line h) (line % 32) =
      { view g (lineGroup line h) (line % 32) with raw := level, driven := true }.relatch := by
  rw [s5lGpioicSetLine_level h level htype, bne_iff_ne.mpr hmoved, Bool.true_or, if_pos rfl,
    view_relatchLevel _ _ (mod_lt_word line), view_driveWire_self]

/-- Another line of the group, seen after a wire has been set. -/
theorem view_setLine_of_ne (h : line < gpioicLines) (level : Bool) (hi : i < 32)
    (hne : line % 32 ≠ i) :
    Undisturbed (view g (lineGroup line h) i)
      (view (s5lGpioicSetLine g line level) (lineGroup line h) i) := by
  have hdrive := view_driveWire_of_ne g (lineGroup line h) level hne
  by_cases htype : bit (g.type (lineGroup line h)) (line % 32) = true
  · rw [s5lGpioicSetLine_level h level htype]
    split_ifs with _
    · exact .inr (by rw [view_relatchLevel _ _ hi, hdrive])
    · exact .inl hdrive
  · rw [s5lGpioicSetLine_edge h level (Bool.eq_false_iff.mpr htype)]
    split_ifs with _
    · refine .inl (Eq.trans ?_ hdrive)
      have hstat : bit (Function.update g.stat (lineGroup line h)
          (g.stat (lineGroup line h) ||| lineBit line) (lineGroup line h)) i =
            bit (g.stat (lineGroup line h)) i := by
        rw [Function.update_self, lineBit, bit, SingleBit.getLsbD_or_twoPow _ (mod_lt_word line),
          decide_eq_false hne, Bool.or_false]
      exact congrArg (fun b => { view (driveWire g (lineGroup line h) (lineBit line) level)
        (lineGroup line h) i with stat := b }) hstat
    · exact .inl hdrive

/-! ### The handler, on one line -/

theorem decode_level : ∀ k : Fin gpioicGroups,
    decode (gpioicIntlevel + BitVec.ofNat 32 (4 * k)) gpioicIntlevel = some k := by decide

theorem decode_stat : ∀ k : Fin gpioicGroups,
    decode (gpioicIntstat + BitVec.ofNat 32 (4 * k)) gpioicIntlevel = none ∧
      decode (gpioicIntstat + BitVec.ofNat 32 (4 * k)) gpioicIntstat = some k := by decide

theorem handlerFlip_eq (g : S5lGpioic) (h : line < gpioicLines) :
    handlerFlip g line = relatchLevel { g with
      level := Function.update g.level (lineGroup line h)
        (g.level (lineGroup line h) ^^^ lineBit line) } (lineGroup line h) := by
  have hdecode : decode (gpioicIntlevel + BitVec.ofNat 32 (4 * (line / 32))) gpioicIntlevel =
      some (lineGroup line h) := decode_level (lineGroup line h)
  rw [handlerFlip, s5lGpioicRead, s5lGpioicWrite, hdecode]

theorem handlerAck_eq (g : S5lGpioic) (h : line < gpioicLines) :
    handlerAck g line = relatchLevel { g with
      stat := Function.update g.stat (lineGroup line h)
        (g.stat (lineGroup line h) &&& ~~~lineBit line) } (lineGroup line h) := by
  have hdecode : decode (gpioicIntstat + BitVec.ofNat 32 (4 * (line / 32))) gpioicIntlevel = none ∧
      decode (gpioicIntstat + BitVec.ofNat 32 (4 * (line / 32))) gpioicIntstat =
        some (lineGroup line h) := decode_stat (lineGroup line h)
  rw [handlerAck, s5lGpioicWrite, hdecode.1, hdecode.2]

theorem view_handlerFlip (g : S5lGpioic) (h : line < gpioicLines) (hi : i < 32) :
    view (handlerFlip g line) (lineGroup line h) i =
      { view g (lineGroup line h) i with
        level := (view g (lineGroup line h) i).level ^^ decide (line % 32 = i) }.relatch := by
  have hlevel : bit (Function.update g.level (lineGroup line h)
      (g.level (lineGroup line h) ^^^ lineBit line) (lineGroup line h)) i =
        (bit (g.level (lineGroup line h)) i ^^ decide (line % 32 = i)) := by
    rw [Function.update_self, lineBit, bit, SingleBit.getLsbD_xor_twoPow _ (mod_lt_word line)]
  rw [handlerFlip_eq g h, view_relatchLevel _ _ hi]
  exact congrArg (fun b => { view g (lineGroup line h) i with level := b }.relatch) hlevel

theorem view_handlerAck (g : S5lGpioic) (h : line < gpioicLines) (hi : i < 32) :
    view (handlerAck g line) (lineGroup line h) i =
      { view g (lineGroup line h) i with
        stat := (view g (lineGroup line h) i).stat && !decide (line % 32 = i) }.relatch := by
  have hstat : bit (Function.update g.stat (lineGroup line h)
      (g.stat (lineGroup line h) &&& ~~~lineBit line) (lineGroup line h)) i =
        (bit (g.stat (lineGroup line h)) i && !decide (line % 32 = i)) := by
    rw [Function.update_self, lineBit, bit, SingleBit.getLsbD_and_not_twoPow _ (mod_lt_word line)]
  rw [handlerAck_eq g h, view_relatchLevel _ _ hi]
  exact congrArg (fun b => { view g (lineGroup line h) i with stat := b }.relatch) hstat

/-! ### The board with its handlers -/

/-- The board, and the lines that the handler has flipped and not yet acknowledged. -/
structure Served where
  board : Board
  flipped : Fin buttonCount → Bool := fun _ => false

/-- A call of the host, or a step of the handler of a button. -/
inductive ButtonStep where
  | set (which : Nat) (pressed : Bool)
  | flip (which : Fin buttonCount)
  | ack (which : Fin buttonCount)

/-- The handler takes a line that is pending, and acknowledges what it has flipped. -/
inductive Step : Served → ButtonStep → Served → Prop where
  | set (s : Served) (which : Nat) (pressed : Bool) :
      Step s (.set which pressed) { s with board := (s5lButtonsSet s.board which pressed).2 }
  | flip (s : Served) (which : Fin buttonCount)
      (hpending : s5lGpioicPending s.board.gpioic (wiring which).line = true)
      (hidle : s.flipped which = false) :
      Step s (.flip which)
        { board := { s.board with gpioic := handlerFlip s.board.gpioic (wiring which).line }
          flipped := Function.update s.flipped which true }
  | ack (s : Served) (which : Fin buttonCount) (hflipped : s.flipped which = true) :
      Step s (.ack which)
        { board := { s.board with gpioic := handlerAck s.board.gpioic (wiring which).line }
          flipped := Function.update s.flipped which false }

/-- The boards that calls and handlers come to. -/
def Reaches : Served → Served → Prop :=
  Relation.ReflTransGen fun s s' => ∃ step, Step s step s'

/-- The call moves the switch. -/
def Accepted (s : Served) (which : Fin buttonCount) (step : ButtonStep) : Prop :=
  ∃ pressed, step = .set which pressed ∧ s5lButtonsHeld s.board.buttons which ≠ pressed ∧
    (s5lButtonsSet s.board which pressed).1 = true

/-! ### The invariant of one button -/

theorem line_lt (w : Fin buttonCount) : (wiring w).line < gpioicLines := by
  revert w
  decide

theorem lineGroup_wiring : ∀ w w' : Fin buttonCount,
    lineGroup (wiring w).line (line_lt w) = lineGroup (wiring w').line (line_lt w') := by
  decide

theorem wiring_mod_ne : ∀ w w' : Fin buttonCount, w ≠ w' →
    (wiring w).line % 32 ≠ (wiring w').line % 32 := by
  decide

theorem s5lButtonLevel_not (w : Fin buttonCount) (pressed : Bool) :
    s5lButtonLevel w (!pressed) = !s5lButtonLevel w pressed := by
  rw [s5lButtonLevel, s5lButtonLevel]
  cases pressed <;> cases (wiring w).activeHigh != (wiring w).inverts <;> rfl

theorem s5lButtonLevel_inj (w : Fin buttonCount) {p q : Bool}
    (h : s5lButtonLevel w p = s5lButtonLevel w q) : p = q := by
  revert h
  rw [s5lButtonLevel, s5lButtonLevel]
  cases (wiring w).activeHigh != (wiring w).inverts <;> cases p <;> cases q <;> decide

/-- The line of a button. -/
def buttonView (g : S5lGpioic) (w : Fin buttonCount) : LineView :=
  view g (lineGroup (wiring w).line (line_lt w)) ((wiring w).line % 32)

/-- The line is armed, its wire is where the switch is, and it is pending where its wire equals its
polarity; or the handler has flipped it and not yet acknowledged it. -/
structure LineInv (w : Fin buttonCount) (v : LineView) (held flipped : Bool) : Prop where
  en : v.en = true
  type : v.type = true
  driven : v.driven = true
  wire : v.raw = s5lButtonLevel w held
  idle : flipped = false → v.stat = (v.raw == v.level)
  served : flipped = true → v.stat = true ∧ v.level = !v.raw

section LineInv

variable {w : Fin buttonCount} {v v' : LineView} {held flipped : Bool}

/-- Looking again at the line finds nothing. -/
theorem LineInv.relatch (h : LineInv w v held flipped) : v.relatch = v := by
  have hstat : (v.stat || (v.raw == v.level && v.type && v.driven && v.en)) = v.stat := by
    rw [h.en, h.type, h.driven, Bool.and_true, Bool.and_true, Bool.and_true]
    cases flipped with
    | false => rw [h.idle rfl, Bool.or_self]
    | true => rw [(h.served rfl).1, Bool.true_or]
  rw [LineView.relatch, hstat]

theorem LineInv.undisturbed (h : LineInv w v held flipped) (hv : Undisturbed v v') : v' = v :=
  hv.elim id fun hv => hv.trans h.relatch

/-- The switch moves while its line is not pending. -/
theorem LineInv.moved (h : LineInv w v held flipped) (hstat : v.stat = false) (pressed : Bool)
    (hpressed : held ≠ pressed) :
    LineInv w { v with raw := s5lButtonLevel w pressed, driven := true }.relatch pressed flipped ∧
      { v with raw := s5lButtonLevel w pressed, driven := true }.relatch.stat = true := by
  have hidle : flipped = false := by
    cases flipped with
    | false => rfl
    | true => exact absurd (hstat.symm.trans (h.served rfl).1) (by decide)
  -- The wire is away from the polarity, and comes to it.
  have hlevel : s5lButtonLevel w pressed = v.level := by
    have haway := h.idle hidle
    have hmoved : pressed = !held := by
      cases held <;> cases pressed <;> first | rfl | exact absurd rfl hpressed
    rw [hstat, h.wire] at haway
    rw [hmoved, s5lButtonLevel_not]
    revert haway
    cases s5lButtonLevel w held <;> cases v.level <;> decide
  have hassert : (v.stat || (s5lButtonLevel w pressed == v.level && v.type && true && v.en)) =
      true := by
    rw [hlevel, h.type, h.en, beq_self_eq_true]
    exact Bool.or_true _
  refine ⟨⟨h.en, h.type, rfl, rfl, fun _ => ?_, fun hserved => ?_⟩, hassert⟩
  · exact hassert.trans (beq_iff_eq.mpr hlevel).symm
  · exact absurd (hidle.symm.trans hserved) (by decide)

/-- The handler takes the line. -/
theorem LineInv.flip (h : LineInv w v held false) (hstat : v.stat = true) :
    LineInv w { v with level := v.level ^^ true }.relatch held true := by
  have hlevel : v.raw = v.level := beq_iff_eq.mp ((h.idle rfl).symm.trans hstat)
  refine ⟨h.en, h.type, h.driven, h.wire, fun hidle => absurd hidle (by decide), fun _ => ?_⟩
  refine ⟨Bool.or_eq_true_iff.mpr (.inl hstat), ?_⟩
  change (v.level ^^ true) = !v.raw
  rw [hlevel, Bool.xor_true]

/-- The handler acknowledges the line, and it is not pending. -/
theorem LineInv.ack (h : LineInv w v held true) :
    LineInv w { v with stat := v.stat && false }.relatch held false ∧
      { v with stat := v.stat && false }.relatch.stat = false := by
  have haway : (v.raw == v.level) = false := by
    rw [(h.served rfl).2]
    cases v.raw <;> rfl
  have hstat : (v.stat && false || (v.raw == v.level && v.type && v.driven && v.en)) = false := by
    rw [haway, Bool.and_false]
    rfl
  refine ⟨⟨h.en, h.type, h.driven, h.wire, fun _ => hstat.trans haway.symm, ?_⟩, hstat⟩
  exact fun hserved => absurd hserved (by decide)

end LineInv

/-! ### Steps of the board -/

variable {s s' : Served} {w : Fin buttonCount}

/-- The invariant of a button of the board. -/
def ButtonInv (s : Served) (w : Fin buttonCount) : Prop :=
  LineInv w (buttonView s.board.gpioic w) (s5lButtonsHeld s.board.buttons w) (s.flipped w)

theorem ButtonInv.of_flipped {flipped : Bool} (hflipped : s.flipped w = flipped)
    (h : LineInv w (buttonView s.board.gpioic w) (s5lButtonsHeld s.board.buttons w) flipped) :
    ButtonInv s w := by
  rwa [ButtonInv, hflipped]

theorem pending_eq (g : S5lGpioic) (w : Fin buttonCount) :
    s5lGpioicPending g (wiring w).line = (buttonView g w).stat := bankBit_eq g.stat (line_lt w)

theorem held_eq (b : S5lButtons) (w : Fin buttonCount) :
    s5lButtonsHeld b w = b.pressed.getLsbD w := by
  have hw : (w : Nat) < 8 := lt_trans w.isLt (by decide)
  rw [s5lButtonsHeld, Bool.eq_iff_iff, bne_iff_ne]
  exact SingleBit.and_twoPow_ne_zero b.pressed hw

/-- The switches after one has been moved. -/
theorem held_moved (b : S5lButtons) (w' w : Fin buttonCount) (pressed : Bool) (sets edges) :
    s5lButtonsHeld { b with
      pressed := if pressed then b.pressed ||| BitVec.twoPow 8 w' else
        b.pressed &&& ~~~BitVec.twoPow 8 w'
      sets := sets
      edges := edges } w = if w' = w then pressed else s5lButtonsHeld b w := by
  have hw : (w' : Nat) < 8 := lt_trans w'.isLt (by decide)
  rw [held_eq, held_eq]
  cases pressed with
  | true =>
    rw [if_pos rfl, SingleBit.getLsbD_or_twoPow _ hw]
    by_cases h : w' = w <;> simp [h, Fin.val_inj]
  | false =>
    rw [if_neg Bool.false_ne_true, SingleBit.getLsbD_and_not_twoPow _ hw]
    by_cases h : w' = w <;> simp [h, Fin.val_inj]

theorem buttonView_setLine_of_ne (g : S5lGpioic) {w' : Fin buttonCount} (h : w' ≠ w)
    (level : Bool) :
    Undisturbed (buttonView g w) (buttonView (s5lGpioicSetLine g (wiring w').line level) w) := by
  rw [buttonView, buttonView, lineGroup_wiring w w']
  exact view_setLine_of_ne (line_lt w') level (mod_lt_word _) (wiring_mod_ne w' w h)

theorem buttonView_flip_of_ne (g : S5lGpioic) {w' : Fin buttonCount} (h : w' ≠ w) :
    Undisturbed (buttonView g w) (buttonView (handlerFlip g (wiring w').line) w) := by
  rw [buttonView, buttonView, lineGroup_wiring w w']
  refine .inr ((view_handlerFlip g (line_lt w') (mod_lt_word _)).trans ?_)
  rw [decide_eq_false (wiring_mod_ne w' w h), Bool.xor_false]

theorem buttonView_ack_of_ne (g : S5lGpioic) {w' : Fin buttonCount} (h : w' ≠ w) :
    Undisturbed (buttonView g w) (buttonView (handlerAck g (wiring w').line) w) := by
  rw [buttonView, buttonView, lineGroup_wiring w w']
  refine .inr ((view_handlerAck g (line_lt w') (mod_lt_word _)).trans ?_)
  rw [decide_eq_false (wiring_mod_ne w' w h), Bool.not_false, Bool.and_true]

theorem buttonView_flip_self (g : S5lGpioic) (w : Fin buttonCount) :
    buttonView (handlerFlip g (wiring w).line) w =
      { buttonView g w with level := (buttonView g w).level ^^ true }.relatch := by
  rw [buttonView, view_handlerFlip g (line_lt w) (mod_lt_word _), decide_eq_true rfl]
  rfl

theorem buttonView_ack_self (g : S5lGpioic) (w : Fin buttonCount) :
    buttonView (handlerAck g (wiring w).line) w =
      { buttonView g w with stat := (buttonView g w).stat && false }.relatch := by
  rw [buttonView, view_handlerAck g (line_lt w) (mod_lt_word _), decide_eq_true rfl, Bool.not_true]
  rfl

/-- The call moves the switch, whose line is not pending. -/
structure Moves (b : Board) (which : Nat) (pressed : Bool) (r : Bool × Board)
    (w : Fin buttonCount) : Prop where
  which_eq : which = w
  held : s5lButtonsHeld b.buttons w ≠ pressed
  pending : s5lGpioicPending b.gpioic (wiring w).line = false
  accepted : r.1 = true
  gpioic : r.2.gpioic = s5lGpioicSetLine b.gpioic (wiring w).line (s5lButtonLevel w pressed)
  held_after : ∀ w', s5lButtonsHeld r.2.buttons w' =
    if w = w' then pressed else s5lButtonsHeld b.buttons w'

/-- The call leaves the switches and the wires. -/
structure Leaves (b : Board) (which : Nat) (pressed : Bool) (r : Bool × Board) : Prop where
  gpioic : r.2.gpioic = b.gpioic
  gpio : r.2.gpio = b.gpio
  pressed_eq : r.2.buttons.pressed = b.buttons.pressed
  held : r.1 = true → ∀ w : Fin buttonCount, which = w → s5lButtonsHeld b.buttons w = pressed

/-- What a call of the host does. -/
theorem s5lButtonsSet_cases (b : Board) (which : Nat) (pressed : Bool) :
    (∃ w, Moves b which pressed (s5lButtonsSet b which pressed) w) ∨
      Leaves b which pressed (s5lButtonsSet b which pressed) := by
  have hrefused {P : Prop} (h : false = true) : P := absurd h Bool.false_ne_true
  by_cases hwhich : which < buttonCount
  · rw [s5lButtonsSet, dif_pos hwhich]
    dsimp only
    by_cases hheld : s5lButtonsHeld b.buttons ⟨which, hwhich⟩ = pressed
    · rw [if_pos hheld]
      refine .inr ⟨rfl, rfl, rfl, fun _ w hw => ?_⟩
      have hw' : (⟨which, hwhich⟩ : Fin buttonCount) = w := Fin.eq_of_val_eq hw
      rwa [← hw']
    rw [if_neg hheld]
    by_cases hdisabled : (!bankBit b.gpioic.en (wiring ⟨which, hwhich⟩).line) = true
    · rw [if_pos hdisabled]
      exact .inr ⟨rfl, rfl, rfl, fun h => hrefused h⟩
    rw [if_neg hdisabled]
    by_cases hpending : s5lGpioicPending b.gpioic (wiring ⟨which, hwhich⟩).line = true
    · rw [if_pos hpending]
      exact .inr ⟨rfl, rfl, rfl, fun h => hrefused h⟩
    · rw [if_neg hpending]
      refine .inl ⟨⟨which, hwhich⟩, rfl, hheld, Bool.eq_false_iff.mpr hpending, rfl, rfl, ?_⟩
      exact fun w' => held_moved b.buttons ⟨which, hwhich⟩ w' pressed _ _
  · rw [s5lButtonsSet, dif_neg hwhich]
    exact .inr ⟨rfl, rfl, rfl, fun h => hrefused h⟩

/-- What a step does to a button. -/
structure Serves (s : Served) (w : Fin buttonCount) (step : ButtonStep) (s' : Served) : Prop where
  inv : ButtonInv s' w
  latches : s5lGpioicPending s.board.gpioic (wiring w).line = false ∧
    s5lGpioicPending s'.board.gpioic (wiring w).line = true ↔ Accepted s w step
  acked : step = .ack w → s5lGpioicPending s'.board.gpioic (wiring w).line = false

/-- A step that leaves the line and the switch. -/
theorem Serves.of_same {step : ButtonStep} (hi : ButtonInv s w)
    (hview : buttonView s'.board.gpioic w = buttonView s.board.gpioic w)
    (hheld : s5lButtonsHeld s'.board.buttons w = s5lButtonsHeld s.board.buttons w)
    (hflipped : s'.flipped w = s.flipped w) (haccepted : ¬Accepted s w step)
    (hack : step ≠ .ack w) : Serves s w step s' where
  inv := by rwa [ButtonInv, hview, hheld, hflipped]
  latches := by
    rw [pending_eq, pending_eq, hview]
    exact iff_of_false (fun h => absurd (h.1.symm.trans h.2) (by decide)) haccepted
  acked h := absurd h hack

theorem Step.serves {step : ButtonStep} (h : Step s step s') (hi : ButtonInv s w) :
    Serves s w step s' := by
  cases h with
  | set which pressed =>
    obtain ⟨w', hmoves⟩ | hleaves := s5lButtonsSet_cases s.board which pressed
    · by_cases hw : w' = w
      · rw [hw] at hmoves
        have hpending := hmoves.pending
        rw [pending_eq] at hpending
        have haccepted : Accepted s w (.set which pressed) :=
          ⟨pressed, by rw [hmoves.which_eq], hmoves.held, hmoves.which_eq ▸ hmoves.accepted⟩
        have hview : buttonView (s5lButtonsSet s.board which pressed).2.gpioic w =
            { buttonView s.board.gpioic w with
              raw := s5lButtonLevel w pressed, driven := true }.relatch := by
          rw [hmoves.gpioic, buttonView]
          refine view_setLine_self (line_lt w) _ hi.type fun hraw => hmoves.held ?_
          exact (s5lButtonLevel_inj w (hraw.trans hi.wire)).symm
        obtain ⟨hinv, hstat⟩ := hi.moved hpending pressed hmoves.held
        rw [← hview] at hinv hstat
        refine ⟨?_, iff_of_true ⟨hmoves.pending, ?_⟩ haccepted, fun h => ButtonStep.noConfusion h⟩
        · rw [ButtonInv, hmoves.held_after, if_pos rfl]
          exact hinv
        · rw [pending_eq]
          exact hstat
      · refine .of_same hi ?_ ?_ rfl ?_ (fun h => ButtonStep.noConfusion h)
        · rw [hmoves.gpioic]
          exact hi.undisturbed (buttonView_setLine_of_ne _ hw _)
        · exact (hmoves.held_after w).trans (if_neg hw)
        · rintro ⟨_, hstep, -⟩
          cases hstep
          exact hw (Fin.eq_of_val_eq hmoves.which_eq).symm
    · refine .of_same hi ?_ ?_ rfl ?_ (fun h => ButtonStep.noConfusion h)
      · rw [hleaves.gpioic]
      · rw [s5lButtonsHeld, hleaves.pressed_eq]
        rfl
      · rintro ⟨_, hstep, hheld, haccepted⟩
        cases hstep
        exact hheld (hleaves.held haccepted w rfl)
  | flip which hpending hidle =>
    have hnot : ¬Accepted s w (.flip which) := fun ⟨_, hstep, _⟩ => ButtonStep.noConfusion hstep
    by_cases hw : which = w
    · rw [hw] at hpending hidle hnot ⊢
      rw [pending_eq] at hpending
      have hinv := hi
      rw [ButtonInv, hidle] at hinv
      have hflip := hinv.flip hpending
      rw [← buttonView_flip_self] at hflip
      refine ⟨.of_flipped (Function.update_self _ _ _) hflip, iff_of_false (fun h => ?_) hnot,
        fun h => ButtonStep.noConfusion h⟩
      · rw [pending_eq] at h
        exact absurd (h.1.symm.trans hpending) (by decide)
    · refine .of_same hi ?_ rfl (Function.update_of_ne (Ne.symm hw) _ _) hnot ?_
      · exact hi.undisturbed (buttonView_flip_of_ne _ hw)
      · exact fun h => ButtonStep.noConfusion h
  | ack which hflipped =>
    have hnot : ¬Accepted s w (.ack which) := fun ⟨_, hstep, _⟩ => ButtonStep.noConfusion hstep
    by_cases hw : which = w
    · rw [hw] at hflipped hnot ⊢
      have hinv := hi
      rw [ButtonInv, hflipped] at hinv
      obtain ⟨hack, hstat⟩ := hinv.ack
      rw [← buttonView_ack_self] at hack hstat
      refine ⟨.of_flipped (Function.update_self _ _ _) hack, iff_of_false (fun h => ?_) hnot,
        fun _ => ?_⟩
      · rw [pending_eq, pending_eq] at h
        exact absurd (hstat.symm.trans h.2) (by decide)
      · rw [pending_eq]
        exact hstat
    · refine .of_same hi ?_ rfl (Function.update_of_ne (Ne.symm hw) _ _) hnot ?_
      · exact hi.undisturbed (buttonView_ack_of_ne _ hw)
      · exact fun h => hw (ButtonStep.ack.inj h)

/-! ### Runs -/

theorem Reaches.buttonInv (h : Reaches s s') (hi : ButtonInv s w) : ButtonInv s' w := by
  induction h with
  | refl => exact hi
  | tail _ hstep ih =>
    obtain ⟨step, hstep⟩ := hstep
    exact (hstep.serves ih).inv

/-- The line of a level interrupt asserts: a device drives it, it is enabled, and its wire equals
its polarity. -/
def Asserts (g : S5lGpioic) (line : Nat) : Prop :=
  bankBit g.type line = true ∧ bankBit g.driven line = true ∧ bankBit g.en line = true ∧
    s5lGpioicLine g line = bankBit g.level line

/-- The wire of an edge line rises. -/
def Rises (g : S5lGpioic) (line : Nat) (op : GpioicOp) : Prop :=
  op = .setLine line true ∧ bankBit g.type line = false ∧ s5lGpioicLine g line = false

/-- The line of a button is armed, presents its switch, and is idle. -/
structure ArmedIdle (s : Served) (w : Fin buttonCount) : Prop where
  en : bankBit s.board.gpioic.en (wiring w).line = true
  type : bankBit s.board.gpioic.type (wiring w).line = true
  driven : bankBit s.board.gpioic.driven (wiring w).line = true
  wire : s5lGpioicLine s.board.gpioic (wiring w).line =
    s5lButtonLevel w (s5lButtonsHeld s.board.buttons w)
  idle : s5lGpioicPending s.board.gpioic (wiring w).line = false
  unserved : s.flipped w = false

theorem asserts_iff (g : S5lGpioic) (h : line < gpioicLines) :
    Asserts g line ↔ asserting g (lineGroup line h) (line % 32) = true := by
  rw [Asserts, s5lGpioicLine, asserting, bankBit_eq _ h, bankBit_eq _ h, bankBit_eq _ h,
    bankBit_eq _ h, bankBit_eq _ h, Bool.and_eq_true, Bool.and_eq_true, Bool.and_eq_true,
    beq_iff_eq]
  tauto

/-- In a reachable controller an idle line is away from its polarity. -/
theorem ArmedIdle.buttonInv (h : ArmedIdle s w) (hlatched : ∀ k, LatchedAt s.board.gpioic k) :
    ButtonInv s w := by
  have hline := line_lt w
  have hstat : (buttonView s.board.gpioic w).stat = false :=
    (pending_eq s.board.gpioic w).symm.trans h.idle
  have hen : (buttonView s.board.gpioic w).en = true := (bankBit_eq _ hline).symm.trans h.en
  have htype : (buttonView s.board.gpioic w).type = true := (bankBit_eq _ hline).symm.trans h.type
  have hdriven : (buttonView s.board.gpioic w).driven = true :=
    (bankBit_eq _ hline).symm.trans h.driven
  have haway : ((buttonView s.board.gpioic w).raw == (buttonView s.board.gpioic w).level) =
      false := by
    rw [beq_eq_false_iff_ne]
    intro hlevel
    have hassert : Asserts s.board.gpioic (wiring w).line :=
      ⟨h.type, h.driven, h.en, (bankBit_eq _ hline).trans (hlevel.trans (bankBit_eq _ hline).symm)⟩
    have hpending := hlatched _ _ (mod_lt_word _) ((asserts_iff _ hline).mp hassert)
    exact absurd (hstat.symm.trans hpending) (by decide)
  refine .of_flipped h.unserved ⟨hen, htype, hdriven, ?_, fun _ => hstat.trans haway.symm, ?_⟩
  · exact (bankBit_eq _ hline).symm.trans h.wire
  · exact fun hserved => absurd hserved (by decide)

/-- A level line that asserts is pending in every reachable state, and a line becomes pending by
that or by a rising edge only. From an armed idle line of a button, whatever calls of the host and
steps of the handlers come in between, the line becomes pending exactly where the switch moves, the
acknowledge leaves it not pending, and a refused call leaves the pins and the wires. -/
theorem gpio_interrupts (ops : List GpioicOp) :
    (∀ line < gpioicLines, Asserts (runGpioic ops s5lGpioicReset) line →
      s5lGpioicPending (runGpioic ops s5lGpioicReset) line = true) ∧
    (∀ (op : GpioicOp), ∀ line < gpioicLines,
      s5lGpioicPending (runGpioic ops s5lGpioicReset) line = false →
      s5lGpioicPending (op.apply (runGpioic ops s5lGpioicReset)) line = true →
      Asserts (op.apply (runGpioic ops s5lGpioicReset)) line ∨
        Rises (runGpioic ops s5lGpioicReset) line op) ∧
    ∀ (s : Served) (w : Fin buttonCount), s.board.gpioic = runGpioic ops s5lGpioicReset →
      ArmedIdle s w → ∀ s' step s'', Reaches s s' → Step s' step s'' →
        (s5lGpioicPending s'.board.gpioic (wiring w).line = false ∧
          s5lGpioicPending s''.board.gpioic (wiring w).line = true ↔ Accepted s' w step) ∧
        (step = .ack w → s5lGpioicPending s''.board.gpioic (wiring w).line = false) ∧
        ∀ which pressed, step = .set which pressed →
          (s5lButtonsSet s'.board which pressed).1 = false →
          s''.board.gpioic = s'.board.gpioic ∧ s''.board.gpio = s'.board.gpio := by
  have hlatched : ∀ k, LatchedAt (runGpioic ops s5lGpioicReset) k :=
    latchedAt_run ops latchedAt_reset
  refine ⟨fun line h hassert => ?_, fun op line h hbefore hafter => ?_, ?_⟩
  · rw [s5lGpioicPending, bankBit_eq _ h]
    exact hlatched _ _ (mod_lt_word line) ((asserts_iff _ h).mp hassert)
  · rw [s5lGpioicPending, bankBit_eq _ h] at hbefore hafter
    rw [asserts_iff _ h]
    refine ((op.stepLatches _).only _ _ (mod_lt_word line) hafter hbefore).imp id ?_
    rintro ⟨line', h', rfl, hgroup, hbit, htype, hraw⟩
    have hline : line = line' := by
      have hdiv : line / 32 = line' / 32 := congrArg Fin.val hgroup
      omega
    rw [← hline]
    exact ⟨rfl, (bankBit_eq _ h).trans htype, (bankBit_eq _ h).trans hraw⟩
  · intro s w hboard harmed s' step s'' hreach hstep
    have hinv : ButtonInv s' w :=
      hreach.buttonInv (harmed.buttonInv fun k => hboard ▸ hlatched k)
    have hserves := hstep.serves hinv
    refine ⟨hserves.latches, hserves.acked, fun which pressed hset hrefused => ?_⟩
    cases hset
    cases hstep
    obtain ⟨w', hmoves⟩ | hleaves := s5lButtonsSet_cases s'.board which pressed
    · exact absurd (hrefused.symm.trans hmoves.accepted) (by decide)
    · exact ⟨hleaves.gpioic, hleaves.gpio⟩

/-- The accesses by which the guest arms the line of the home button, released. -/
def armMenu : List GpioicOp :=
  [.setLine 40 false, .write 0xe4 0x100, .write 0x84 0x100, .write 0xc4 0x100]

theorem gpio_interrupts_menu :
    s5lGpioicPending (runGpioic (armMenu ++ [.setLine 40 true]) s5lGpioicReset) 40 = true ∧
    Asserts (runGpioic (armMenu ++ [.setLine 40 true]) s5lGpioicReset) 40 ∧
    s5lGpioicPending (s5lButtonsSet { gpioic := runGpioic armMenu s5lGpioicReset } 1 true).2.gpioic
      40 = true := by
  have hassert : Asserts (runGpioic (armMenu ++ [.setLine 40 true]) s5lGpioicReset) 40 :=
    ⟨rfl, rfl, rfl, rfl⟩
  have harmed : ArmedIdle { board := { gpioic := runGpioic armMenu s5lGpioicReset } } 1 :=
    ⟨rfl, rfl, rfl, rfl, rfl, rfl⟩
  have hpress := (gpio_interrupts armMenu).2.2 _ 1 rfl harmed _ (.set 1 true) _ .refl (.set _ 1 true)
  refine ⟨(gpio_interrupts _).1 40 (by decide) hassert, hassert, ?_⟩
  exact (hpress.1.mpr ⟨true, rfl, by decide, rfl⟩).2

end S5LBox.Soc
