import Mathlib.Data.BitVec
import Mathlib.Data.Nat.Digits.Lemmas

/-!
# Formatted input and output

Numbers and words as `printf` writes them and `scanf` reads them, over octets: a conversion skips
blanks, takes the longest item it can, and fails on an empty one. What is made of a number that does
not fit its type is left open, and is a parameter.

## Main definitions

* `printed`, `padded`: a number in a base, and with leading zeros.
* `skipBlanks`, `word`, `number`: the blank directive, `%s` and `%u` or `%x`.

## Main results

* `word_append`, `number_printed`, `number_padded`: what was written is read back.
-/

namespace Scan

/-- An octet. -/
abbrev Octet := BitVec 8

/-! ### Digits -/

/-- The digit of a value below sixteen. -/
def digit (v : Nat) : Octet := BitVec.ofNat 8 (if v < 10 then 0x30 + v else 0x57 + v)

/-- The value of a digit, in either case. -/
def digitValue (c : Octet) : Option Nat :=
  if 0x30 ≤ c.toNat ∧ c.toNat ≤ 0x39 then some (c.toNat - 0x30)
  else if 0x61 ≤ c.toNat ∧ c.toNat ≤ 0x66 then some (c.toNat - 0x57)
  else if 0x41 ≤ c.toNat ∧ c.toNat ≤ 0x46 then some (c.toNat - 0x37)
  else none

/-- A digit of a base. -/
def isDigit (base : Nat) (c : Octet) : Bool := (digitValue c).any (· < base)

/-- The value of a row of digits. -/
def valueOf (base : Nat) (ds : List Octet) : Nat :=
  Nat.ofDigits base (ds.reverse.map fun c => (digitValue c).getD 0)

/-- A number in a base. -/
def printed (base n : Nat) : List Octet :=
  if n = 0 then [digit 0] else ((Nat.digits base n).map digit).reverse

/-- A number in a base, with leading zeros. -/
def padded (width base n : Nat) : List Octet :=
  List.replicate (width - (printed base n).length) (digit 0) ++ printed base n

/-! ### Directives -/

/-- `isspace`. -/
def isBlank (c : Octet) : Bool := c = 0x20 ∨ 0x09 ≤ c.toNat ∧ c.toNat ≤ 0x0d

/-- The blank directive. -/
def skipBlanks (s : List Octet) : List Octet := s.dropWhile isBlank

/-- `%s` with a width. -/
def word (width : Nat) (s : List Octet) : Option (List Octet × List Octet) :=
  let s := skipBlanks s
  let w := (s.take width).takeWhile fun c => !isBlank c
  if w = [] then none else some (w, s.drop w.length)

/-- The sign that a number may have. -/
def sign : List Octet → Bool × List Octet
  | c :: s => if c = 0x2d then (true, s) else if c = 0x2b then (false, s) else (false, c :: s)
  | [] => (false, [])

/-- The prefix that a number in base sixteen may have. -/
def unprefixed : List Octet → List Octet
  | c :: x :: s => if c = 0x30 ∧ (x = 0x78 ∨ x = 0x58) then s else c :: x :: s
  | s => s

/-- `%u` or `%x`, with a width or without, into a type of so many bits. -/
def number (base : Nat) (width : Option Nat) {bits : Nat} (excess : Bool → Nat → BitVec bits)
    (s : List Octet) : Option (BitVec bits × List Octet) :=
  let s := skipBlanks s
  let field := (width.map s.take).getD s
  let (negative, t) := sign field
  let t := if base = 16 then unprefixed t else t
  let ds := t.takeWhile (isDigit base)
  let v := valueOf base ds
  if ds = [] then none
  else
    some (if 2 ^ bits ≤ v then excess negative v else if negative then -BitVec.ofNat bits v else
      BitVec.ofNat bits v, s.drop (field.length - t.length + ds.length))

/-! ### What is written -/

variable {base n : Nat} {s rest w ds : List Octet} {c : Octet}

theorem digitValue_digit {v : Nat} (h : v < 16) : digitValue (digit v) = some v := by
  have hall : ∀ v : Fin 16, digitValue (digit v) = some v.val := by decide
  exact hall ⟨v, h⟩

theorem isDigit_digit {v : Nat} (hbase : base ≤ 16) (h : v < base) :
    isDigit base (digit v) = true := by
  rw [isDigit, digitValue_digit (by omega), Option.any_some]
  exact decide_eq_true h

/-- A digit is neither a blank nor a sign nor the letter of a prefix. -/
theorem of_isDigit (h : isDigit base c = true) :
    isBlank c = false ∧ c ≠ 0x2d ∧ c ≠ 0x2b ∧ c ≠ 0x78 ∧ c ≠ 0x58 := by
  have hall : ∀ c : Octet, (digitValue c).isSome = true →
      isBlank c = false ∧ c ≠ 0x2d ∧ c ≠ 0x2b ∧ c ≠ 0x78 ∧ c ≠ 0x58 := by decide
  refine hall c ?_
  cases hc : digitValue c with
  | none =>
    rw [isDigit, hc] at h
    exact absurd h Bool.false_ne_true
  | some v => rfl

theorem printed_ne_nil (base n : Nat) : printed base n ≠ [] := by
  rw [printed]
  split
  · exact List.cons_ne_nil _ _
  · rename_i hn
    rw [ne_eq, List.reverse_eq_nil_iff, List.map_eq_nil_iff]
    exact Nat.digits_ne_nil_iff_ne_zero.2 hn

theorem isDigit_of_mem_printed (hbase : 2 ≤ base) (hle : base ≤ 16) (hc : c ∈ printed base n) :
    isDigit base c = true := by
  rw [printed] at hc
  split at hc
  · rw [List.mem_singleton.1 hc]
    exact isDigit_digit hle (by omega)
  · obtain ⟨v, hv, rfl⟩ := List.mem_map.1 (List.mem_reverse.1 hc)
    exact isDigit_digit hle (Nat.digits_lt_base hbase hv)

theorem valueOf_printed (hbase : 2 ≤ base) (hle : base ≤ 16) :
    valueOf base (printed base n) = n := by
  rw [valueOf, printed]
  split
  · rename_i hn
    rw [hn]
    rfl
  · rw [List.reverse_reverse, List.map_map]
    have hdigits : (Nat.digits base n).map ((fun c => (digitValue c).getD 0) ∘ digit) =
        Nat.digits base n := by
      refine (List.map_congr_left fun v hv => ?_).trans (List.map_id _)
      rw [Function.comp_apply, digitValue_digit ((Nat.digits_lt_base hbase hv).trans_le hle)]
      rfl
    rw [hdigits, Nat.ofDigits_digits]

theorem length_printed_le {k : Nat} (hbase : 2 ≤ base) (hk : 0 < k) (h : n < base ^ k) :
    (printed base n).length ≤ k := by
  rw [printed]
  split
  · exact hk
  · rw [List.length_reverse, List.length_map]
    exact (Nat.digits_length_le_iff hbase _).2 h

theorem length_padded {width : Nat} (hbase : 2 ≤ base) (hw : 0 < width) (h : n < base ^ width) :
    (padded width base n).length = width := by
  have hle := length_printed_le hbase hw h
  rw [padded, List.length_append, List.length_replicate]
  omega

theorem isDigit_of_mem_padded {width : Nat} (hbase : 2 ≤ base) (hle : base ≤ 16)
    (hc : c ∈ padded width base n) : isDigit base c = true := by
  obtain hzero | hc := List.mem_append.1 hc
  · rw [List.eq_of_mem_replicate hzero]
    exact isDigit_digit hle (by omega)
  · exact isDigit_of_mem_printed hbase hle hc

theorem valueOf_padded {width : Nat} (hbase : 2 ≤ base) (hle : base ≤ 16) :
    valueOf base (padded width base n) = n := by
  have hzero : (digitValue (digit 0)).getD 0 = 0 := rfl
  rw [valueOf, padded, List.reverse_append, List.map_append, List.reverse_replicate,
    List.map_replicate, hzero, Nat.ofDigits_append_replicate_zero]
  exact valueOf_printed hbase hle

/-! ### What is read back -/

@[simp]
theorem skipBlanks_blank (s : List Octet) : skipBlanks (0x20 :: s) = skipBlanks s := rfl

theorem skipBlanks_of_head (h : ∀ c ∈ s.head?, isBlank c = false) : skipBlanks s = s := by
  cases s with
  | nil => rfl
  | cons c s => exact List.dropWhile_cons_of_neg (by rw [h c rfl]; exact Bool.false_ne_true)

theorem takeWhile_of_head {p : Octet → Bool} (h : ∀ c ∈ s.head?, p c = false) :
    s.takeWhile p = [] := by
  cases s with
  | nil => rfl
  | cons c s => exact List.takeWhile_cons_of_neg (by rw [h c rfl]; exact Bool.false_ne_true)

theorem takeWhile_row {p : Octet → Bool} (hw : ∀ c ∈ w, p c = true)
    (hrest : ∀ c ∈ rest.head?, p c = false) : (w ++ rest).takeWhile p = w := by
  rw [List.takeWhile_append_of_pos hw, takeWhile_of_head hrest, List.append_nil]

/-- A word that ends in a blank, or with the text. -/
theorem word_append {width : Nat} (hw : w ≠ []) (hlen : w.length ≤ width)
    (hword : ∀ c ∈ w, isBlank c = false) (hrest : ∀ c ∈ rest.head?, isBlank c = true) :
    word width (w ++ rest) = some (w, rest) := by
  have hskip : skipBlanks (w ++ rest) = w ++ rest := skipBlanks_of_head fun c hc => by
    rw [List.head?_append_of_ne_nil w hw] at hc
    exact hword c (List.mem_of_mem_head? hc)
  have hfield : ((w ++ rest).take width).takeWhile (fun c => !isBlank c) = w := by
    rw [List.take_append, List.take_of_length_le hlen]
    refine takeWhile_row (fun c hc => by rw [hword c hc]; rfl) fun c hc => ?_
    have hhead : c ∈ rest.head? := by
      rw [List.head?_take] at hc
      split at hc
      · exact absurd hc nofun
      · exact hc
    rw [hrest c hhead]
    rfl
  rw [word, hskip, hfield, if_neg hw, List.drop_left]

variable {bits : Nat} {excess : Bool → Nat → BitVec bits} {width : Option Nat}

theorem number_blank : number base width excess (0x20 :: s) = number base width excess s := rfl

theorem sign_of_digit (h : ∀ c ∈ s.head?, isDigit base c = true) : sign s = (false, s) := by
  cases s with
  | nil => rfl
  | cons c s =>
    obtain ⟨_, hminus, hplus, _⟩ := of_isDigit (h c rfl)
    rw [sign, if_neg hminus, if_neg hplus]

/-- Without the letter of a prefix in second place there is no prefix. -/
theorem unprefixed_of_second (h : ∀ c ∈ s[1]?, c ≠ 0x78 ∧ c ≠ 0x58) : unprefixed s = s := by
  match s with
  | [] => rfl
  | [_] => rfl
  | c :: x :: s =>
    obtain ⟨hx, hX⟩ := h x rfl
    exact if_neg fun hprefix => hprefix.2.elim hx hX

/-- A row of digits that the field holds, and the number it is. -/
theorem number_of_field {t : List Octet} (hds : ds ≠ [])
    (hdigits : ∀ c ∈ ds, isDigit base c = true)
    (ht : ∀ c ∈ t.head?, isDigit base c = false ∧ c ≠ 0x78 ∧ c ≠ 0x58)
    (hfield : (width.map (ds ++ rest).take).getD (ds ++ rest) = ds ++ t)
    (hfits : valueOf base ds < 2 ^ bits) :
    number base width excess (ds ++ rest) = some (BitVec.ofNat bits (valueOf base ds), rest) := by
  have hhead (t : List Octet) (c : Octet) (hc : c ∈ (ds ++ t).head?) : isDigit base c = true := by
    rw [List.head?_append_of_ne_nil ds hds] at hc
    exact hdigits c (List.mem_of_mem_head? hc)
  have hskip : skipBlanks (ds ++ rest) = ds ++ rest :=
    skipBlanks_of_head fun c hc => (of_isDigit (hhead rest c hc)).1
  have hlead : unprefixed (ds ++ t) = ds ++ t := by
    refine unprefixed_of_second fun c hc => ?_
    match ds with
    | [] => exact absurd rfl hds
    | [_] =>
      rw [List.singleton_append, List.getElem?_cons_succ, ← List.head?_eq_getElem?] at hc
      exact (ht c hc).2
    | _ :: d :: _ =>
      obtain rfl := Option.some.inj hc
      exact (of_isDigit (hdigits d (by simp))).2.2.2
  have hrow : (ds ++ t).takeWhile (isDigit base) = ds :=
    takeWhile_row hdigits fun c hc => (ht c hc).1
  rw [number]
  dsimp only
  rw [hskip, hfield, sign_of_digit (hhead t)]
  dsimp only
  rw [hlead, ite_self, hrow, if_neg hds, if_neg (Nat.not_le.2 hfits), if_neg Bool.false_ne_true,
    Nat.sub_self, Nat.zero_add, List.drop_left]

/-- What was written as a number in base ten is read back. -/
theorem number_printed (hn : n < 2 ^ bits) (hrest : ∀ c ∈ rest.head?, c = 0x20) :
    number 10 none excess (printed 10 n ++ rest) = some (BitVec.ofNat bits n, rest) := by
  have hvalue := valueOf_printed (n := n) (by decide : 2 ≤ 10) (by decide)
  have hread : number 10 none excess (printed 10 n ++ rest) =
      some (BitVec.ofNat bits (valueOf 10 (printed 10 n)), rest) :=
    number_of_field (t := rest) (printed_ne_nil 10 n)
      (fun c hc => isDigit_of_mem_printed (by decide) (by decide) hc)
      (fun c hc => by rw [hrest c hc]; decide) rfl (by rwa [hvalue])
  rwa [hvalue] at hread

/-- What was written with leading zeros, in base sixteen, is read back with its width. -/
theorem number_padded {k : Nat} (hn : n < 16 ^ k) (hk : 0 < k) (hbits : 16 ^ k ≤ 2 ^ bits) :
    number 16 (some k) excess (padded k 16 n ++ rest) = some (BitVec.ofNat bits n, rest) := by
  have hlen : (padded k 16 n).length = k := length_padded (by decide) hk hn
  have hvalue : valueOf 16 (padded k 16 n) = n := valueOf_padded (by decide) (by decide)
  have hne : padded k 16 n ≠ [] := List.ne_nil_of_length_pos (hlen.symm ▸ hk)
  have hread : number 16 (some k) excess (padded k 16 n ++ rest) =
      some (BitVec.ofNat bits (valueOf 16 (padded k 16 n)), rest) :=
    number_of_field (t := []) hne
      (fun c hc => isDigit_of_mem_padded (by decide) (by decide) hc) nofun
      (by rw [Option.map_some, Option.getD_some, List.append_nil, List.take_left' hlen])
      (by rw [hvalue]; omega)
  rwa [hvalue] at hread

end Scan
