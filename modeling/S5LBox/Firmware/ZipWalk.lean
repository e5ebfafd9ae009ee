import S5LBox.Firmware.ZipOpen

/-!
# What the walk reads

Whatever the archive answers, the walk over an open directory asks for pieces of the directory
only, and none of its sums reaches `2 ^ 64`: it is the walk with the addition of numbers.

## Main results

* `entryAt_reads`: an entry is read from its own place in the directory.
* `walk_reads`, `vmfwZipIterate_eq`: so are all entries, with no sum that wraps.
-/

namespace S5LBox.Firmware

open Reading

/-! ### Bounds -/

theorem octet_lt (p : List Byte) (i : Nat) : octet p i < 2 ^ 8 := (p.getD i 0).isLt

theorem rd16_lt (p : List Byte) : rd16 p < 2 ^ 16 := by
  have h0 := octet_lt p 0
  have h1 := octet_lt p 1
  rw [rd16]
  omega

theorem refuse_reads {P : Nat → Nat → Prop} (wrong : Prop) [Decidable wrong] (st : ZipStatus) :
    Reader.Reads P (fun _ => ¬wrong) (refuse wrong st) :=
  .ite (fun _ => .fail st) fun h => .pure h

theorem readExact_reads {P : Nat → Nat → Prop} {size off len : Nat} (h : 0 < len → P off len) :
    Reader.Reads P (fun got => got.length = len) (readExact size off len) := by
  refine .ite (fun h0 => .pure h0.symm) fun h0 => .either (.fail _) ?_
  exact ⟨h (Nat.pos_of_ne_zero h0), fun got => .ite (fun h => .pure h) fun _ => .fail _⟩

/-! ### One entry -/

/-- The pieces of a stretch of a file. -/
def Inside (start finish offset length : Nat) : Prop :=
  start ≤ offset ∧ offset + length ≤ finish

theorem Inside.mono {s s' e e' off len : Nat} (h : Inside s e off len) (hs : s' ≤ s)
    (he : e ≤ e') : Inside s' e' off len :=
  ⟨hs.trans h.1, h.2.trans he⟩

/-- The extra field is read inside the extra area. -/
theorem applyZip64Extra_reads (size extraOff extraLen : Nat) (e : Entry) (nu nc no : Bool)
    (off : Nat) :
    Reader.Reads (Inside extraOff (extraOff + extraLen)) (fun _ => True)
      (applyZip64Extra (· + ·) size extraOff extraLen e nu nc no off) := by
  rw [applyZip64Extra]
  by_cases h : off + 4 ≤ extraLen
  · rw [dif_pos h]
    refine .bind (readExact_reads fun _ => ⟨by omega, by omega⟩) fun hdr _ => ?_
    refine .ite (fun _ => .fail _) fun hlen => .either ?_ ?_
    · refine .bind (refuse_reads _ _) fun _ hwant => ?_
      refine .bind (readExact_reads fun _ => ⟨?_, ?_⟩) fun _ _ => .pure trivial
      · exact Nat.le_add_right_of_le (Nat.le_add_right _ _)
      · omega
    · exact applyZip64Extra_reads size extraOff extraLen e nu nc no _
  · rw [dif_neg h]
    exact .fail _
termination_by extraLen - off

theorem applyZip64Extra_add64 (size : Nat) {extraOff extraLen : Nat} (e : Entry) (nu nc no : Bool)
    (off : Nat) (h : extraOff + extraLen < 2 ^ 64) :
    applyZip64Extra add64 size extraOff extraLen e nu nc no off =
      applyZip64Extra (· + ·) size extraOff extraLen e nu nc no off := by
  rw [applyZip64Extra, applyZip64Extra]
  by_cases hoff : off + 4 ≤ extraLen
  · have hrec := fun len => applyZip64Extra_add64 size e nu nc no (off + (4 + len)) h
    rw [dif_pos hoff, dif_pos hoff]
    simp only [add64_of_lt (show extraOff + off < 2 ^ 64 by omega),
      add64_of_lt (show extraOff + off + 4 < 2 ^ 64 by omega), hrec]
  · rw [dif_neg hoff, dif_neg hoff]
termination_by extraLen - off

/-- An entry is read from its own place in the directory. -/
theorem entryAt_reads (z : Zip) (finish off : Nat) :
    Reader.Reads (Inside off finish) (fun r => off + r.2 ≤ finish)
      (entryAt (· + ·) z finish off) := by
  refine .bind (refuse_reads _ _) fun _ hroom => ?_
  have hroom : ¬off + centralMinSize > finish := hroom
  refine .bind (readExact_reads fun _ => ⟨Nat.le_refl _, by omega⟩) fun hdr _ => ?_
  refine .bind (refuse_reads _ _) fun _ _ => .bind (refuse_reads _ _) fun _ hlen => ?_
  have hlen : ¬off + (centralMinSize + rd16 (hdr.drop 28) + rd16 (hdr.drop 30) +
    rd16 (hdr.drop 32)) > finish := hlen
  refine .bind (refuse_reads _ _) fun _ _ => .bind (refuse_reads _ _) fun _ _ => ?_
  refine .bind (readExact_reads fun _ => ⟨Nat.le_add_right _ _, ?_⟩) fun name _ => ?_
  · change off + centralMinSize + _ ≤ finish
    omega
  refine .bind (refuse_reads _ _) fun _ _ => ?_
  refine Reader.Reads.bind (Q := fun _ => True) ?_ fun e _ => ?_
  · refine Reader.Reads.either ?_ trivial
    refine (applyZip64Extra_reads ..).mono (fun _ _ h => h.mono ?_ ?_) fun _ h => h
    · exact Nat.le_add_right_of_le (Nat.le_add_right _ _)
    · change off + centralMinSize + rd16 (hdr.drop 28) + rd16 (hdr.drop 30) ≤ finish
      omega
  · refine .bind (refuse_reads _ _) fun _ _ => ?_
    exact Nat.le_of_not_lt hlen

theorem entryAt_add64 (z : Zip) (finish : Nat) {off : Nat} (h : off < 2 ^ 63) :
    entryAt add64 z finish off = entryAt (· + ·) z finish off := by
  have hfix : add64 off centralMinSize = off + centralMinSize :=
    add64_of_lt (by simp only [centralMinSize]; omega)
  have hlen (a b c : List Byte) : add64 off (centralMinSize + rd16 a + rd16 b + rd16 c) =
      off + (centralMinSize + rd16 a + rd16 b + rd16 c) := by
    have ha := rd16_lt a
    have hb := rd16_lt b
    have hc := rd16_lt c
    exact add64_of_lt (by simp only [centralMinSize]; omega)
  have hname (a : List Byte) : add64 (off + centralMinSize) (rd16 a) =
      off + centralMinSize + rd16 a := by
    have ha := rd16_lt a
    exact add64_of_lt (by simp only [centralMinSize]; omega)
  have hextra (a b : List Byte) (e : Entry) (nu nc no : Bool) :
      applyZip64Extra add64 z.size (off + centralMinSize + rd16 a) (rd16 b) e nu nc no 0 =
        applyZip64Extra (· + ·) z.size (off + centralMinSize + rd16 a) (rd16 b) e nu nc no 0 := by
    have ha := rd16_lt a
    have hb := rd16_lt b
    exact applyZip64Extra_add64 z.size e nu nc no 0 (by simp only [centralMinSize]; omega)
  simp only [entryAt, explain, hfix, hlen, hname, hextra]

/-! ### The walk -/

variable {γ : Type}

/-- The walk reads inside the directory. -/
theorem walk_reads (z : Zip) (visit : γ → Entry → Nat → γ × Bool) {start finish : Nat}
    (left i off : Nat) (s : γ) (hs : start ≤ off) :
    Reader.Reads (Inside start finish) (fun _ => True)
      (walk (· + ·) z visit finish left i off s) := by
  induction left generalizing i off s with
  | zero => exact trivial
  | succ left ih =>
    have hentry := (entryAt_reads z finish off).mono (fun _ _ h => h.mono hs (Nat.le_refl _))
      fun _ h => h
    refine .bind hentry.attempt fun r hr => ?_
    cases r with
    | error st => exact trivial
    | ok r => exact .either (ih _ _ _ (Nat.le_add_right_of_le hs)) trivial

/-- No sum of the walk wraps. -/
theorem walk_add64 (z : Zip) (visit : γ → Entry → Nat → γ × Bool) {finish : Nat}
    (hf : finish < 2 ^ 63) (left i off : Nat) (s : γ) (ho : off ≤ finish) :
    walk add64 z visit finish left i off s = walk (· + ·) z visit finish left i off s := by
  induction left generalizing i off s with
  | zero => rfl
  | succ left ih =>
    rw [walk, walk, entryAt_add64 z finish (by omega)]
    refine (entryAt_reads z finish off).attempt.bind_congr fun r hr => ?_
    cases r with
    | error st => rfl
    | ok r =>
      have hlen := hr r rfl
      dsimp only
      rw [add64_of_lt (by omega), ih _ _ _ hlen]

variable {f : List Byte} {z : Zip}

/-- The walk over a directory that is open is the one with the addition of numbers. -/
theorem vmfwZipIterate_eq (hf : f.length < 2 ^ 63)
    (h : (vmfwZipOpen f.length).run (serve f) = .ok z) (visit : γ → Entry → Nat → γ × Bool)
    (s : γ) : vmfwZipIterate z visit s = iterateWith (· + ·) z visit s := by
  obtain ⟨-, hfit⟩ := vmfwZipOpen_fits hf h
  rw [vmfwZipIterate, iterateWith, iterateWith, add64_of_lt (by omega)]
  exact walk_add64 z visit (by omega) _ _ _ _ (Nat.le_add_right _ _)

/-- It reads inside that directory, whatever the answers are. -/
theorem vmfwZipIterate_reads (hf : f.length < 2 ^ 63)
    (h : (vmfwZipOpen f.length).run (serve f) = .ok z) (visit : γ → Entry → Nat → γ × Bool)
    (s : γ) : Reader.Reads (Inside z.cdOffset (z.cdOffset + z.cdSize)) (fun _ => True)
      (vmfwZipIterate z visit s) := by
  rw [vmfwZipIterate_eq hf h]
  exact walk_reads z visit _ _ _ _ (Nat.le_refl _)

end S5LBox.Firmware
