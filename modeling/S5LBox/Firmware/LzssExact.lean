import S5LBox.Firmware.Lzss
import S5LBox.Lib.SingleBit

/-!
# What LZSS decompression computes

A stream is a list of items, eight behind each byte of flags, and its expansion is a stream of
moves through a ring, whose last cells have not been written at first. The decompressor gives as
much of the expansion as there is room for; a back-reference to a cell that has not been written
copies what its stack holds there.

## Main definitions

* `Item`: a literal byte, or a back-reference.
* `items`: the longest list of complete items at the front of a source.
* `Stream`: what an encoder may write for a list of items.
* `expansion`: the bytes of a list of items, by a decoder whose ring is filled up to its start.
* `Exact`: the decompressor gives the expansion, whatever its stack holds.

## Main results

* `loop_eq`: the loop takes the items one after the other.
* `lzss_exact_iff`: where the decompressor is exact.
-/

namespace S5LBox.Firmware.Lzss

open RingCopies (Window Move Cell Written)

/-! ### Items -/

/-- A literal byte, or a back-reference: a place in the ring and a length. -/
inductive Item
  | literal (c : Byte)
  | reference (place length : Nat)

/-- The moves of an item. -/
def Item.moves : Item → List (Move Byte)
  | literal c => [.put c]
  | reference place length => (List.range' place length).map .again

/-- The place that the two bytes of a back-reference name. -/
def placeOf (i j : Byte) : Nat := i.toNat + 256 * (j.toNat / 16)

/-- The length that they name. -/
def lengthOf (j : Byte) : Nat := j.toNat % 16 + 3

/-- The bits of a byte of flags, the least significant first. -/
def bitsOf (f : Byte) : List Bool := (List.range 8).map f.getLsbD

/-- The complete items at the front of a source, behind the flags that are left. -/
def items : List Bool → List Byte → List Item
  | [], f :: src => items (bitsOf f) src
  | true :: bits, c :: src => .literal c :: items bits src
  | false :: bits, i :: j :: src => .reference (placeOf i j) (lengthOf j) :: items bits src
  | _, _ => []

/-- What an encoder may write for a list of items, behind the flags that are left: a byte of flags
for the next eight, of which the last may not be used, and the items. -/
inductive Stream : List Bool → List Item → List Byte → Prop
  | done (bits : List Bool) : Stream bits [] []
  | flags (f : Byte) {its : List Item} {src : List Byte} (h : Stream (bitsOf f) its src)
      (hne : its ≠ []) : Stream [] its (f :: src)
  | literal (c : Byte) {bits : List Bool} {its : List Item} {src : List Byte}
      (h : Stream bits its src) : Stream (true :: bits) (.literal c :: its) (c :: src)
  | reference {place length : Nat} {bits : List Bool} {its : List Item} {src : List Byte}
      (hplace : place < 4096) (hlength : 3 ≤ length ∧ length ≤ 18) (h : Stream bits its src) :
      Stream (false :: bits) (.reference place length :: its)
        (BitVec.ofNat 8 place :: BitVec.ofNat 8 (place / 256 * 16 + (length - 3)) :: src)

/-- The ring of a decoder before the first item: it holds blanks up to where it is written next. -/
def referenceRing : Window (Cell Byte) where
  cells p := if p < 4078 then .stored 0x20 else .unset p
  next := 4078

/-- The moves of the items of a source. -/
def moves (src : List Byte) : List (Move Byte) := (items [] src).flatMap Item.moves

/-- The expansion of a list of moves. -/
def expansion (ms : List (Move Byte)) : List (Cell Byte) :=
  referenceRing.run 4096 (ms.map (Move.map .stored))

/-- The decompressor gives the first bytes of the expansion, of which none comes from a part of the
ring that has not been written, and nothing else has an influence on them. -/
def Exact (dstcap : Nat) (src : List Byte) : Prop :=
  (∀ junk, ∃ out, lzssDecompress junk true dstcap (some src) = some out ∧
    out.map Cell.stored = (expansion (moves src)).take dstcap) ∧
  ∀ junk junk', lzssDecompress junk true dstcap (some src) =
    lzssDecompress junk' true dstcap (some src)

/-! ### The items of a stream -/

theorem placeOf_encoded {place length : Nat} (hplace : place < 4096)
    (hlength : 3 ≤ length ∧ length ≤ 18) :
    placeOf (BitVec.ofNat 8 place) (BitVec.ofNat 8 (place / 256 * 16 + (length - 3))) = place := by
  rw [placeOf, BitVec.toNat_ofNat, BitVec.toNat_ofNat]
  omega

theorem lengthOf_encoded {place length : Nat}
    (hlength : 3 ≤ length ∧ length ≤ 18) :
    lengthOf (BitVec.ofNat 8 (place / 256 * 16 + (length - 3))) = length := by
  rw [lengthOf, BitVec.toNat_ofNat]
  omega

theorem items_nil (bits : List Bool) : items bits [] = [] := by
  cases bits with
  | nil => rfl
  | cons b bits => cases b <;> rfl

/-- The items of what an encoder writes are those that it has written. -/
theorem items_of_stream {bits : List Bool} {its : List Item} {src : List Byte}
    (h : Stream bits its src) : items bits src = its := by
  induction h with
  | done bits => exact items_nil bits
  | flags f h hne ih => exact ih
  | literal c h ih => exact congrArg (_ :: ·) ih
  | reference hplace hlength h ih =>
    rw [items, placeOf_encoded hplace hlength, lengthOf_encoded hlength, ih]

/-! ### Flags -/

/-- The flags before the shift stand for the bits that are left. -/
inductive Flags : BitVec 32 → List Bool → Prop
  | start : Flags 0 []
  | loaded (f : Byte) (j : Nat) (h : j < 8) :
      Flags ((f.setWidth 32 ||| 0xff00) >>> j) ((bitsOf f).drop (j + 1))

theorem getLsbD_loaded (f : Byte) (i : Nat) :
    (f.setWidth 32 ||| 0xff00#32).getLsbD i = (f.getLsbD i || decide (8 ≤ i ∧ i < 16)) := by
  have hmask : 0xff00#32 = (BitVec.allOnes 8).setWidth 32 <<< 8 := by decide
  have habove : 8 ≤ i → f.getLsbD i = false := BitVec.getLsbD_of_ge f i
  rw [hmask, BitVec.getLsbD_or, BitVec.getLsbD_setWidth, BitVec.getLsbD_shiftLeft,
    BitVec.getLsbD_setWidth, BitVec.getLsbD_allOnes]
  grind

theorem drop_bitsOf (f : Byte) {j : Nat} (h : j < 8) :
    (bitsOf f).drop j = f.getLsbD j :: (bitsOf f).drop (j + 1) := by
  have hlength : j < (bitsOf f).length := h
  rw [List.drop_eq_getElem_cons hlength]
  simp only [bitsOf, List.getElem_map, List.getElem_range]

/-- The lowest flag is that of the next item. -/
theorem loaded_bit (f : Byte) {j : Nat} (h : j < 8) :
    ((f.setWidth 32 ||| 0xff00#32) >>> j) &&& 1 ≠ 0 ↔ f.getLsbD j = true := by
  have hbit := SingleBit.and_twoPow_ne_zero ((f.setWidth 32 ||| 0xff00#32) >>> j)
    (show 0 < 32 by decide)
  rw [BitVec.getLsbD_ushiftRight, Nat.add_zero, getLsbD_loaded, decide_eq_false (by omega),
    Bool.or_false] at hbit
  exact hbit

/-- The mark above the flags is there as long as one is left. -/
theorem loaded_mark (f : Byte) {j : Nat} (h : j < 8) :
    ((f.setWidth 32 ||| 0xff00#32) >>> j >>> 1) &&& 0x100 = 0 ↔ j = 7 := by
  have hbit := SingleBit.and_twoPow_eq_zero ((f.setWidth 32 ||| 0xff00#32) >>> j >>> 1)
    (show 8 < 32 by decide)
  rw [BitVec.getLsbD_ushiftRight, BitVec.getLsbD_ushiftRight, getLsbD_loaded,
    BitVec.getLsbD_of_ge f _ (by omega), Bool.false_or, decide_eq_false_iff_not] at hbit
  exact hbit.trans (by omega)

theorem Flags.nil {flags : BitVec 32} (h : Flags flags []) : flags >>> 1 &&& 0x100 = 0 := by
  generalize hbits : ([] : List Bool) = bits at h
  cases h with
  | start => rfl
  | loaded f j h =>
    refine (loaded_mark f h).2 ?_
    have hlength := congrArg List.length hbits
    rw [List.length_drop, bitsOf, List.length_map, List.length_range, List.length_nil] at hlength
    omega

theorem Flags.cons {flags : BitVec 32} {b : Bool} {bits : List Bool}
    (h : Flags flags (b :: bits)) : flags >>> 1 &&& 0x100 ≠ 0 ∧
      (flags >>> 1 &&& 1 ≠ 0 ↔ b = true) ∧ Flags (flags >>> 1) bits := by
  generalize hbits : b :: bits = left at h
  cases h with
  | start => cases hbits
  | loaded f j h =>
    have hlength := congrArg List.length hbits
    rw [List.length_drop, bitsOf, List.length_map, List.length_range, List.length_cons] at hlength
    have hj : j + 1 < 8 := by omega
    rw [drop_bitsOf f hj] at hbits
    obtain ⟨rfl, rfl⟩ := List.cons.inj hbits
    rw [← BitVec.shiftRight_add]
    refine ⟨fun hzero => ?_, loaded_bit f hj, .loaded f (j + 1) hj⟩
    rw [BitVec.shiftRight_add] at hzero
    have hlast := (loaded_mark f h).1 hzero
    omega

/-- The flags behind a byte of them. -/
theorem Flags.load (f : Byte) : ∃ b bits, bitsOf f = b :: bits ∧
    ((f.setWidth 32 ||| 0xff00#32) &&& 1 ≠ 0 ↔ b = true) ∧
      Flags (f.setWidth 32 ||| 0xff00#32) bits := by
  refine ⟨f.getLsbD 0, (bitsOf f).drop 1, drop_bitsOf f (show 0 < 8 by decide), ?_, ?_⟩
  · exact loaded_bit f (show 0 < 8 by decide)
  · exact .loaded f 0 (by decide)

/-! ### The loop -/

/-- The ring of the decompressor. -/
def State.window (s : State) : Window Byte := ⟨s.ring, s.r⟩

/-- The bytes that come out if the flags of `bits` are left. -/
def result (src : List Byte) (dstcap : Nat) (bits : List Bool) (s : State) : List Byte :=
  s.out ++ (s.window.run 4096 ((items bits (src.drop s.pos)).flatMap Item.moves)).take
    (dstcap - s.out.length)

variable {src : List Byte} {dstcap : Nat}

theorem emit_eq {s : State} (h : s.out.length < dstcap) (c : Byte) :
    ∃ t, s.emit dstcap c = some t ∧ t.pos = s.pos ∧ t.flags = s.flags ∧ t.out = s.out ++ [c] ∧
      t.window = s.window.write 4096 c := by
  refine ⟨_, if_pos h, rfl, rfl, rfl, ?_⟩
  exact congrArg (Window.mk _) (Nat.and_two_pow_sub_one_eq_mod (s.r + 1) 12)

/-- The loop of a back-reference copies what there is room for. -/
theorem copy_eq (i count k : Nat) (s : State) (hs : s.out.length ≤ dstcap) :
    ∃ control t, copy dstcap i count k s = some (control, t) ∧
      ((control = .leave ∧ dstcap - s.out.length < count ∧ t.out = s.out ++ (s.window.run 4096
          ((List.range' (i + k) count).map .again)).take (dstcap - s.out.length)) ∨
        control = .proceed ∧ t.pos = s.pos ∧ t.flags = s.flags ∧ count ≤ dstcap - s.out.length ∧
          t.out = s.out ++ s.window.run 4096 ((List.range' (i + k) count).map .again) ∧
          t.window = s.window.after 4096 ((List.range' (i + k) count).map .again)) := by
  induction count generalizing k s with
  | zero => exact ⟨_, _, rfl, Or.inr ⟨rfl, rfl, rfl, Nat.zero_le _, (List.append_nil _).symm, rfl⟩⟩
  | succ count ih =>
    rw [copy]
    by_cases hroom : dstcap ≤ s.out.length
    · rw [if_pos hroom, Nat.sub_eq_zero_of_le hroom, List.take_zero, List.append_nil]
      exact ⟨_, _, rfl, Or.inl ⟨rfl, Nat.succ_pos _, rfl⟩⟩
    have hindex : (i + k) &&& (lzssN - 1) = (i + k) % 4096 :=
      Nat.and_two_pow_sub_one_eq_mod (i + k) 12
    obtain ⟨t, ht, hpos, hflags, hout, hwindow⟩ :=
      emit_eq (Nat.not_le.1 hroom) (s.ring ((i + k) % 4096))
    have hlength : t.out.length = s.out.length + 1 := by
      rw [hout, List.length_append, List.length_singleton]
    obtain ⟨control, u, hu, hcases⟩ := ih (k + 1) t (by omega)
    refine ⟨control, u, ?_, ?_⟩
    · rw [if_neg hroom, hindex, ht]
      exact hu
    have hleft : dstcap - s.out.length = dstcap - t.out.length + 1 := by omega
    have hrun : s.window.run 4096 ((List.range' (i + k) (count + 1)).map .again) =
        s.ring ((i + k) % 4096) ::
          t.window.run 4096 ((List.range' (i + (k + 1)) count).map .again) := by
      rw [hwindow]
      rfl
    have hafter : s.window.after 4096 ((List.range' (i + k) (count + 1)).map .again) =
        t.window.after 4096 ((List.range' (i + (k + 1)) count).map .again) := by
      rw [hwindow]
      rfl
    rw [hrun, hafter, hleft, List.take_succ_cons]
    obtain ⟨hcontrol, hfull, hresult⟩ | ⟨hcontrol, hpos', hflags', hfits, hresult, hlast⟩ := hcases
    · refine Or.inl ⟨hcontrol, by omega, ?_⟩
      rw [hresult, hout, List.append_assoc]
      rfl
    · refine Or.inr ⟨hcontrol, hpos'.trans hpos, hflags'.trans hflags, by omega, ?_, hlast⟩
      rw [hresult, hout, List.append_assoc]
      rfl

/-- The bytes that come out after an item. -/
theorem result_item {s t : State} {bits bits' : List Bool} {it : Item}
    (hitems : items bits (src.drop s.pos) = it :: items bits' (src.drop t.pos))
    (hroom : it.moves.length ≤ dstcap - s.out.length)
    (hout : t.out = s.out ++ s.window.run 4096 it.moves)
    (hwindow : t.window = s.window.after 4096 it.moves) :
    result src dstcap bits s = result src dstcap bits' t := by
  have hleft : dstcap - t.out.length = dstcap - s.out.length - it.moves.length := by
    rw [hout, List.length_append, Window.length_run, Nat.sub_add_eq]
  rw [result, hitems, List.flatMap_cons, Window.take_run_append _ _ hroom, result, hleft, hwindow,
    hout, List.append_assoc]

theorem place_eq (i j : Byte) : i.toNat ||| (j.toNat &&& 0xf0) <<< 4 = placeOf i j := by
  have hmask : ∀ n < 256, n &&& 0xf0 = n / 16 * 16 := by decide +kernel
  have hshift : (j.toNat / 16 * 16) <<< 4 = 2 ^ 8 * (j.toNat / 16) := by
    rw [Nat.shiftLeft_eq]
    omega
  rw [hmask _ j.isLt, hshift, Nat.or_comm, ← Nat.two_pow_add_eq_or_of_lt i.isLt, Nat.add_comm]
  rfl

theorem length_eq (j : Byte) : (j.toNat &&& 0x0f) + lzssThreshold + 1 = lengthOf j :=
  congrArg (· + 3) (Nat.and_two_pow_sub_one_eq_mod j.toNat 4)

theorem result_of_items_nil {s : State} {bits : List Bool}
    (h : items bits (src.drop s.pos) = []) : result src dstcap bits s = s.out := by
  rw [result, h]
  exact (congrArg _ List.take_nil).trans (List.append_nil _)

theorem drop_pos {s : State} {c : Byte} (h : src[s.pos]? = some c) :
    src.drop s.pos = c :: src.drop (s.pos + 1) := by
  obtain ⟨hlt, hget⟩ := List.getElem?_eq_some_iff.1 h
  rw [List.drop_eq_getElem_cons hlt, hget]

/-- An item leaves what comes out, or it is the last. -/
theorem item_eq {s : State} {b : Bool} {bits : List Bool}
    (hb : s.flags &&& 1 ≠ 0 ↔ b = true) (hs : s.out.length ≤ dstcap) :
    ∃ control t, item src dstcap s = some (control, t) ∧
      ((control = .leave ∧ t.out = result src dstcap (b :: bits) s) ∨
        control = .proceed ∧ t.flags = s.flags ∧ t.out.length ≤ dstcap ∧
          src.length - t.pos < src.length - s.pos ∧
          result src dstcap (b :: bits) s = result src dstcap bits t) := by
  cases b with
  | true =>
    rw [item, if_pos (hb.2 rfl), literal]
    by_cases hend : src.length ≤ s.pos
    · refine ⟨_, _, if_pos hend, Or.inl ⟨rfl, (result_of_items_nil ?_).symm⟩⟩
      rw [List.drop_eq_nil_of_le hend, items_nil]
    obtain ⟨c, hc⟩ : ∃ c, src[s.pos]? = some c := ⟨_, List.getElem?_eq_getElem (Nat.not_le.1 hend)⟩
    have hitems : items (true :: bits) (src.drop s.pos) =
        .literal c :: items bits (src.drop (s.pos + 1)) := by
      rw [drop_pos hc, items]
    rw [if_neg hend, hc]
    by_cases hroom : dstcap ≤ s.out.length
    · refine ⟨_, _, if_pos hroom, Or.inl ⟨rfl, ?_⟩⟩
      rw [result, Nat.sub_eq_zero_of_le hroom, List.take_zero, List.append_nil]
    obtain ⟨t, ht, hpos, hflags, hout, hwindow⟩ := emit_eq
      (s := { s with pos := s.pos + 1 }) (Nat.not_le.1 hroom) c
    refine ⟨.proceed, t, (if_neg hroom).trans (by rw [ht]; rfl), Or.inr ⟨rfl, hflags, ?_, ?_, ?_⟩⟩
    · rw [hout, List.length_append]
      exact Nat.not_le.1 hroom
    · rw [hpos]
      exact Nat.sub_succ_lt_self _ _ (Nat.not_le.1 hend)
    · rw [← show t.pos = s.pos + 1 from hpos] at hitems
      exact result_item hitems (Nat.sub_pos_of_lt (Nat.not_le.1 hroom)) hout hwindow
  | false =>
    rw [item, if_neg fun hne => Bool.false_ne_true (hb.1 hne), reference]
    by_cases hend : src.length ≤ s.pos + 1
    · refine ⟨_, _, if_pos hend, Or.inl ⟨rfl, (result_of_items_nil ?_).symm⟩⟩
      have hlength : (src.drop s.pos).length ≤ 1 := by
        rw [List.length_drop]
        omega
      match src.drop s.pos, hlength with
      | [], _ => rfl
      | [_], _ => rfl
    obtain ⟨i, hi⟩ : ∃ c, src[s.pos]? = some c := ⟨_, List.getElem?_eq_getElem (by omega)⟩
    obtain ⟨j, hj⟩ : ∃ c, src[s.pos + 1]? = some c := ⟨_, List.getElem?_eq_getElem (by omega)⟩
    have hitems : items (false :: bits) (src.drop s.pos) =
        .reference (placeOf i j) (lengthOf j) :: items bits (src.drop (s.pos + 2)) := by
      rw [drop_pos hi, drop_pos (s := { s with pos := s.pos + 1 }) hj, items]
    rw [if_neg hend, hi, hj]
    obtain ⟨control, t, ht, hcases⟩ := copy_eq (placeOf i j) (lengthOf j) 0
      { s with pos := s.pos + 2 } hs
    refine ⟨control, t, ?_, ?_⟩
    · rw [← ht, ← place_eq, ← length_eq]
      rfl
    obtain ⟨hcontrol, hfull, hresult⟩ | ⟨hcontrol, hpos, hflags, hfits, hresult, hlast⟩ := hcases
    · refine Or.inl ⟨hcontrol, ?_⟩
      have hlength : dstcap - s.out.length ≤ (s.window.run 4096
          (Item.reference (placeOf i j) (lengthOf j)).moves).length := by
        rw [Window.length_run, Item.moves, List.length_map, List.length_range']
        exact hfull.le
      rw [result, hitems, List.flatMap_cons, Window.run_append,
        List.take_append_of_le_length hlength]
      exact hresult
    · have hgrown : t.out.length = s.out.length + lengthOf j := by
        rw [hresult, List.length_append, Window.length_run, List.length_map, List.length_range']
      have hroom : (Item.reference (placeOf i j) (lengthOf j)).moves.length ≤
          dstcap - s.out.length := by
        rw [Item.moves, List.length_map, List.length_range']
        exact hfits
      refine Or.inr ⟨hcontrol, hflags, ?_, ?_, ?_⟩
      · rw [hgrown]
        exact (Nat.le_sub_iff_add_le' hs).1 hfits
      · rw [hpos]
        dsimp only
        omega
      · rw [← show t.pos = s.pos + 2 from hpos] at hitems
        exact result_item hitems hroom hresult hlast

/-- The loop takes the items one after the other, and it comes to an end. -/
theorem loop_eq {bits : List Bool} {fuel : Nat} {s : State} (hfuel : src.length - s.pos < fuel)
    (hflags : Flags s.flags bits) (hs : s.out.length ≤ dstcap) :
    loop src dstcap fuel s = some (result src dstcap bits s) := by
  induction fuel generalizing bits s with
  | zero => exact absurd hfuel (Nat.not_lt_zero _)
  | succ fuel ih =>
    -- Once there are flags, the loop goes on with an item.
    have hitem : ∀ {u : State} {b : Bool} {bits : List Bool}, loadFlags src s = some (.proceed, u) →
        (u.flags &&& 1 ≠ 0 ↔ b = true) → Flags u.flags bits → u.out.length ≤ dstcap →
          src.length - u.pos ≤ fuel →
            loop src dstcap (fuel + 1) s = some (result src dstcap (b :: bits) u) := by
      intro u b bits hload hb hleft hroom hshort
      have hitem := @item_eq src dstcap u b bits hb hroom
      obtain ⟨control, t, ht, ⟨rfl, hout⟩ | ⟨rfl, hkept, hroom', hless, hsame⟩⟩ := hitem
      · rw [loop, hload, ← hout]
        exact congrArg (Option.bind · _) ht
      · rw [loop, hload, hsame]
        refine (congrArg (Option.bind · _) ht).trans ?_
        exact ih (Nat.lt_of_lt_of_le hless hshort) (by rw [hkept]; exact hleft) hroom'
    cases bits with
    | cons b bits =>
      obtain ⟨hmark, hb, hleft⟩ := hflags.cons
      exact hitem (u := { s with flags := s.flags >>> 1 }) (if_neg hmark) hb hleft hs
        (Nat.le_of_lt_succ hfuel)
    | nil =>
      by_cases hend : src.length ≤ s.pos
      · rw [result_of_items_nil (by rw [List.drop_eq_nil_of_le hend]; rfl), loop, loadFlags]
        dsimp only
        rw [if_pos hflags.nil, if_pos hend]
        rfl
      obtain ⟨f, hf⟩ : ∃ c, src[s.pos]? = some c :=
        ⟨_, List.getElem?_eq_getElem (Nat.not_le.1 hend)⟩
      obtain ⟨b, bits, hbits, hb, hleft⟩ := Flags.load f
      have hload : loadFlags src s = some (.proceed,
          { s with pos := s.pos + 1, flags := f.setWidth 32 ||| 0xff00 }) := by
        rw [loadFlags, if_pos hflags.nil, if_neg hend, hf]
        rfl
      have hitems : items [] (src.drop s.pos) = items (b :: bits) (src.drop (s.pos + 1)) := by
        rw [drop_pos hf, items, hbits]
      rw [hitem hload hb hleft hs (by dsimp only; omega), result, result, hitems]
      rfl

/-! ### Results -/

theorem window_start (junk : Nat → Byte) :
    (start junk).window = referenceRing.map (Cell.fill junk) := by
  refine congrArg (Window.mk · _) (funext fun p => ?_)
  exact (apply_ite (Cell.fill junk) (p < 4078) (.stored 0x20) (.unset p)).symm

/-- The decompressor gives the expansion, with what its stack holds for what is not known. -/
theorem lzssDecompress_eq (junk : Nat → Byte) (dstcap : Nat) (src : List Byte) :
    lzssDecompress junk true dstcap (some src) =
      some (((expansion (moves src)).take dstcap).map (Cell.fill junk)) := by
  have hfill : ((moves src).map (Move.map Cell.stored)).map (Move.map (Cell.fill junk)) =
      moves src := by
    rw [List.map_map]
    refine (List.map_congr_left fun m _ => ?_).trans (List.map_id _)
    cases m <;> rfl
  have hloop := @loop_eq src dstcap [] (src.length + 1) (start junk)
    (Nat.lt_succ_of_le (Nat.sub_le src.length 0)) Flags.start (Nat.zero_le _)
  refine hloop.trans (congrArg some ?_)
  rw [result, List.map_take, expansion, Window.map_run, hfill, ← window_start]
  rfl

theorem take_expansion (ms : List (Move Byte)) (dstcap : Nat) :
    (expansion ms).take dstcap = expansion (ms.take dstcap) := by
  rw [expansion, Window.take_run, ← List.map_take, expansion]

theorem filled_referenceRing : RingCopies.Filled 4096 4078 referenceRing where
  stored _ _ hlt := ⟨0x20, if_pos hlt⟩
  unset _ _ hle := if_neg (Nat.not_lt.2 hle)
  next _ := rfl

instance : Nontrivial Byte := ⟨0, 1, by decide⟩

/-- The decompressor is exact where no back-reference within the room copies a cell that has not
been written. -/
theorem exact_iff (dstcap : Nat) (src : List Byte) :
    Exact dstcap src ↔ Written 4096 4078 ((moves src).take dstcap) := by
  rw [← RingCopies.stored_run_iff (by decide) filled_referenceRing, ← expansion, ← take_expansion]
  constructor
  · intro h
    refine (Cell.determined_iff _).1 fun junk junk' => ?_
    have hsame := h.2 junk junk'
    rw [lzssDecompress_eq, lzssDecompress_eq] at hsame
    exact Option.some.inj hsame
  · intro h
    refine ⟨fun junk => ⟨_, lzssDecompress_eq junk dstcap src, ?_⟩, fun junk junk' => ?_⟩
    · rw [List.map_map]
      refine (List.map_congr_left fun c hc => ?_).trans (List.map_id _)
      obtain ⟨a, rfl⟩ := h c hc
      rfl
    · rw [lzssDecompress_eq, lzssDecompress_eq]
      exact congrArg some ((Cell.determined_iff _).2 h junk junk')

/-- Exactly where no back-reference within the room copies a part of the ring that has not been
written, the decompressor gives the expansion of the complete items, and nothing else has an
influence on it. In any case it comes to an end with as many bytes as there is room for; and what an
encoder writes for a list of bytes it decompresses to that list. -/
theorem lzss_exact_iff (dstcap : Nat) (src : List Byte) :
    (Exact dstcap src ↔ Written 4096 4078 ((moves src).take dstcap)) ∧
    (∀ junk, ∃ out, lzssDecompress junk true dstcap (some src) = some out ∧
      out.length = min dstcap (expansion (moves src)).length) ∧
    ∀ its bytes, Stream [] its src →
      expansion (its.flatMap Item.moves) = bytes.map Cell.stored → bytes.length ≤ dstcap →
        ∀ junk, lzssDecompress junk true dstcap (some src) = some bytes := by
  refine ⟨exact_iff dstcap src, fun junk => ⟨_, lzssDecompress_eq junk dstcap src, ?_⟩,
    fun its bytes hstream hbytes hroom junk => ?_⟩
  · rw [List.length_map, List.length_take]
  · have hfill : (bytes.map Cell.stored).map (Cell.fill junk) = bytes := by
      rw [List.map_map, Cell.fill_comp_stored, List.map_id]
    rw [lzssDecompress_eq, moves, items_of_stream hstream, hbytes, List.map_take, hfill,
      List.take_of_length_le hroom]

/-- A back-reference to the place of the first write, as the first item. -/
theorem not_exact_reference : ¬Exact 1 [0x00, 0xee, 0xf0] := by
  rw [exact_iff]
  decide

end S5LBox.Firmware.Lzss
