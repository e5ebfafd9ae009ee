import Mathlib.Tactic.Ring
import S5LBox.Arm.Cpu
import S5LBox.Lib.Base64

/-!
# Base64 in a property list

The decoder of `VMFirmwarePlist.c`, and the one of `VMFirmwareDMG.c` that decodes a prefix with it.

## Main definitions

* `vmfwBase64Decode`: the decoder, a loop over the octets of a span.
* `decodeB64Prefix`: the first octets of what a span decodes to.

## Main results

* `vmfwBase64Decode_ok_iff`: the decoder inverts `Base64.encode`.
* `base64_exact`: and when a prefix decodes.
-/

namespace S5LBox.Firmware

open Base64

/-! ### The source -/

/-- `vmfw_plist_status_t`, as far as decoding sets it. -/
inductive PlistStatus
  | tooLong
  | badBase64
  deriving DecidableEq, Repr

/-- `is_ws`. -/
def isWs (c : Byte) : Bool := c = 0x20 ∨ c = 0x09 ∨ c = 0x0d ∨ c = 0x0a

/-- `b64_val`, `none` for -1. -/
def b64Val (c : Byte) : Option Word :=
  if 0x41 ≤ c ∧ c ≤ 0x5a then some (c.setWidth 32 - 0x41)
  else if 0x61 ≤ c ∧ c ≤ 0x7a then some (c.setWidth 32 - 0x61 + 26)
  else if 0x30 ≤ c ∧ c ≤ 0x39 then some (c.setWidth 32 - 0x30 + 52)
  else if c = 0x2b then some 62
  else if c = 0x2f then some 63
  else none

/-- The bits of a group, as `b64_emit` gathers them. -/
def b64Bits (g : List Byte) : Word :=
  g.foldl (fun v c => v <<< 6 ||| (if c = 0x3d then 0 else (b64Val c).getD 0xffffffff)) 0

/-- `b64_emit`: the octets so far with those of a group. -/
def b64Emit (g : List Byte) (pad : Nat) (out : List Byte) (cap : Nat) :
    Except PlistStatus (List Byte) :=
  let v := b64Bits g
  if pad = 1 ∧ v &&& 0xff ≠ 0 then .error .badBase64
  else if pad = 2 ∧ v &&& 0xffff ≠ 0 then .error .badBase64
  else
    let b : List Byte := [v.extractLsb' 16 8, v.extractLsb' 8 8, v.extractLsb' 0 8]
    let want := 3 - pad
    if out.length + want > cap then .error .tooLong
    else .ok (out ++ b.take want)

/-- Where the decoder is: the group so far, the padding so far, and the octets so far. -/
structure B64State where
  grp : List Byte := []
  pad : Nat := 0
  out : List Byte := []
  deriving DecidableEq, Repr

/-- A letter has come in: four of them are a group. -/
def b64Group (cap : Nat) (s : B64State) (c : Byte) : Except PlistStatus B64State :=
  let grp := s.grp ++ [c]
  if grp.length = 4 then do
    let out ← b64Emit grp s.pad s.out cap
    .ok { s with grp := [], out := out }
  else .ok { s with grp := grp }

/-- One turn of the loop of `vmfw_base64_decode`. -/
def b64Step (cap : Nat) (s : B64State) (c : Byte) : Except PlistStatus B64State :=
  if isWs c then .ok s
  else if c = 0x3d then
    if s.pad + 1 > 2 then .error .badBase64 else b64Group cap { s with pad := s.pad + 1 } c
  else if s.pad ≠ 0 then .error .badBase64
  else if b64Val c = none then .error .badBase64
  else b64Group cap s c

/-- `vmfw_base64_decode`, of a span and a buffer that are there. -/
def vmfwBase64Decode (input : List Byte) (cap : Nat) : Except PlistStatus (List Byte) := do
  let s ← input.foldlM (b64Step cap) {}
  if s.grp ≠ [] then .error .badBase64 else .ok s.out

/-- The walk of `decode_b64_prefix`: how many octets it takes to see the letters needed, and how many
it has seen. -/
def b64Walk (need : Nat) : List Byte → Nat → Nat × Nat
  | [], seen => (0, seen)
  | c :: cs, seen =>
    if seen < need then
      let (i, seen) := b64Walk need cs (if isWs c then seen else seen + 1)
      (i + 1, seen)
    else (0, seen)

/-- `decode_b64_prefix`: what is decoded, of a `size_t` many octets wanted. -/
def decodeB64Prefix (b64 : List Byte) (outCap want : Nat) : Except PlistStatus (List Byte) :=
  let groups := (want + 2) % 2 ^ 64 / 3
  let needChars := groups * 4 % 2 ^ 64
  let (i, seen) := b64Walk needChars b64 0
  if seen < needChars then .error .badBase64
  else do
    let out ← vmfwBase64Decode (b64.take i) outCap
    if out.length ≥ want then .ok out else .error .badBase64

/-! ### Letters -/

/-- The letters of a span. -/
def visible (input : List Byte) : List Byte := input.filter fun c => !isWs c

theorem b64Val_eq (c : Byte) : b64Val c = (value c).map (BitVec.ofNat 32) := by
  have hall : ∀ n : Fin 256,
      b64Val (BitVec.ofFin n) = (value (BitVec.ofFin n)).map (BitVec.ofNat 32) := by
    decide +kernel
  exact hall c.toFin

theorem letter_visible {c : Byte} {d : Nat} (h : value c = some d) : isWs c = false ∧ c ≠ pad := by
  have hall : ∀ n : Fin 64, isWs (letter n) = false ∧ letter n ≠ pad := by decide +kernel
  obtain ⟨hlt, rfl⟩ := letter_of_value h
  exact hall ⟨d, hlt⟩

/-- A group gathers six more bits. -/
theorem gather {n d : Nat} (hn : n < 2 ^ 18) (hd : d < 64) :
    BitVec.ofNat 32 n <<< 6 ||| BitVec.ofNat 32 d = BitVec.ofNat 32 (n * 64 + d) := by
  refine BitVec.eq_of_toNat_eq ?_
  rw [BitVec.toNat_or, BitVec.toNat_shiftLeft, BitVec.toNat_ofNat, BitVec.toNat_ofNat,
    BitVec.toNat_ofNat, Nat.mod_eq_of_lt (show n < 2 ^ 32 by omega), Nat.shiftLeft_eq,
    Nat.mod_eq_of_lt (show n * 2 ^ 6 < 2 ^ 32 by omega),
    Nat.mod_eq_of_lt (show d < 2 ^ 32 by omega),
    Nat.mod_eq_of_lt (show n * 64 + d < 2 ^ 32 by omega), Nat.mul_comm n (2 ^ 6),
    ← Nat.two_pow_add_eq_or_of_lt hd, Nat.mul_comm]

/-- The six bits that a letter of a group stands for, or a padding letter in one. -/
def Stands (c : Byte) (d : Nat) : Prop := value c = some d ∨ c = pad ∧ d = 0

theorem Stands.lt {c : Byte} {d : Nat} (h : Stands c d) : d < 64 := by
  rcases h with h | ⟨-, rfl⟩
  · exact (letter_of_value h).1
  · decide

theorem Stands.digit {c : Byte} {d : Nat} (h : Stands c d) :
    (if c = 0x3d then 0 else (b64Val c).getD 0xffffffff) = BitVec.ofNat 32 d := by
  rcases h with h | ⟨rfl, rfl⟩
  · have hpad : c ≠ 0x3d := (letter_visible h).2
    rw [if_neg hpad, b64Val_eq, h]
    rfl
  · rfl

/-- The bits of a group. -/
theorem b64Bits_eq {c₀ c₁ c₂ c₃ : Byte} {d₀ d₁ d₂ d₃ : Nat} (h₀ : Stands c₀ d₀)
    (h₁ : Stands c₁ d₁) (h₂ : Stands c₂ d₂) (h₃ : Stands c₃ d₃) :
    b64Bits [c₀, c₁, c₂, c₃] = BitVec.ofNat 32 (bits d₀ d₁ d₂ d₃) := by
  have hlt₀ := h₀.lt
  have hlt₁ := h₁.lt
  have hlt₂ := h₂.lt
  have hbits : (((0 * 64 + d₀) * 64 + d₁) * 64 + d₂) * 64 + d₃ = bits d₀ d₁ d₂ d₃ := by
    unfold bits
    omega
  have hzero : (0 : Word) = BitVec.ofNat 32 0 := rfl
  rw [b64Bits]
  simp only [List.foldl_cons, List.foldl_nil, h₀.digit, h₁.digit, h₂.digit, h₃.digit]
  rw [hzero, gather (by decide) hlt₀, gather (by omega) hlt₁, gather (by omega) hlt₂,
    gather (by omega) h₃.lt, hbits]

/-- What a group comes to. -/
theorem b64Emit_eq {g : List Byte} {v pad cap : Nat} {out : List Byte} (hv : v < 2 ^ 24)
    (h : b64Bits g = BitVec.ofNat 32 v) : b64Emit g pad out cap =
      if pad = 1 ∧ v % 2 ^ 8 ≠ 0 ∨ pad = 2 ∧ v % 2 ^ 16 ≠ 0 then .error .badBase64
      else if out.length + (3 - pad) > cap then .error .tooLong
      else .ok (out ++ (octets v).take (3 - pad)) := by
  have hnat : (BitVec.ofNat 32 v).toNat = v := by
    rw [BitVec.toNat_ofNat]
    exact Nat.mod_eq_of_lt (by omega)
  have hlow (k : Nat) (hk : k ≤ 24) (m : Word) (hm : m.toNat = 2 ^ k - 1) :
      BitVec.ofNat 32 v &&& m ≠ 0 ↔ v % 2 ^ k ≠ 0 := by
    rw [ne_eq, ne_eq, ← BitVec.toNat_inj, BitVec.toNat_and, hnat, hm,
      Nat.and_two_pow_sub_one_eq_mod]
    rfl
  have hoctet (k : Nat) :
      (BitVec.ofNat 32 v).extractLsb' k 8 = BitVec.ofNat 8 (v / 2 ^ k) := by
    refine BitVec.eq_of_toNat_eq ?_
    rw [BitVec.extractLsb'_toNat, hnat, BitVec.toNat_ofNat, Nat.shiftRight_eq_div_pow]
  have hone : pad = 1 ∧ BitVec.ofNat 32 v &&& 0xff ≠ 0 ↔ pad = 1 ∧ v % 2 ^ 8 ≠ 0 :=
    and_congr_right fun _ => hlow 8 (by decide) 0xff rfl
  have htwo : pad = 2 ∧ BitVec.ofNat 32 v &&& 0xffff ≠ 0 ↔ pad = 2 ∧ v % 2 ^ 16 ≠ 0 :=
    and_congr_right fun _ => hlow 16 (by decide) 0xffff rfl
  rw [b64Emit, h]
  dsimp only
  rw [hoctet, hoctet, hoctet, Nat.pow_zero, Nat.div_one]
  by_cases h₁ : pad = 1 ∧ v % 2 ^ 8 ≠ 0
  · rw [if_pos (hone.mpr h₁), if_pos (.inl h₁)]
  rw [if_neg (hone.not.mpr h₁)]
  by_cases h₂ : pad = 2 ∧ v % 2 ^ 16 ≠ 0
  · rw [if_pos (htwo.mpr h₂), if_pos (.inr h₂)]
  · rw [if_neg (htwo.not.mpr h₂), if_neg (not_or.mpr ⟨h₁, h₂⟩)]
    rfl

/-- A group that comes to something. -/
theorem b64Emit_ok_iff {g : List Byte} {v pad cap : Nat} {out : List Byte} {P : List Byte → Prop}
    (hv : v < 2 ^ 24) (h : b64Bits g = BitVec.ofNat 32 v) :
    (∃ o, b64Emit g pad out cap = .ok o ∧ P o) ↔
      ¬(pad = 1 ∧ v % 2 ^ 8 ≠ 0 ∨ pad = 2 ∧ v % 2 ^ 16 ≠ 0) ∧ out.length + (3 - pad) ≤ cap ∧
        P (out ++ (octets v).take (3 - pad)) := by
  rw [b64Emit_eq hv h]
  split_ifs with hlow hroom
  · refine iff_of_false ?_ fun hno => hno.1 hlow
    rintro ⟨o, ho, -⟩
    cases ho
  · refine iff_of_false ?_ fun hno => absurd hno.2.1 (Nat.not_le_of_lt hroom)
    rintro ⟨o, ho, -⟩
    cases ho
  · constructor
    · rintro ⟨o, ho, hP⟩
      obtain rfl := Except.ok.inj ho
      exact ⟨hlow, Nat.le_of_not_lt hroom, hP⟩
    · exact fun hP => ⟨_, rfl, hP.2.2⟩

/-! ### Groups -/

/-- From a state, the letters lead to the end of a group, with these octets. -/
def Ends (cap : Nat) (s : B64State) (cs out : List Byte) : Prop :=
  ∃ pad, cs.foldlM (b64Step cap) s = .ok ⟨[], pad, out⟩

section Steps

variable {cap k : Nat} {grp out out' : List Byte} {c : Byte} {cs : List Byte}

variable {s : B64State}

theorem ends_nil : Ends cap s [] out' ↔ s.grp = [] ∧ s.out = out' := by
  constructor
  · rintro ⟨pad, h⟩
    obtain rfl := Except.ok.inj h
    exact ⟨rfl, rfl⟩
  · rintro ⟨hgrp, rfl⟩
    exact ⟨s.pad, congrArg Except.ok (by rw [← hgrp])⟩

theorem ends_cons_of_error {e : PlistStatus} (h : b64Step cap s c = .error e) :
    ¬Ends cap s (c :: cs) out' := by
  rintro ⟨pad, hrun⟩
  rw [List.foldlM_cons, h] at hrun
  cases hrun

theorem ends_cons_of_ok {s s' : B64State} (h : b64Step cap s c = .ok s') :
    Ends cap s (c :: cs) out' ↔ Ends cap s' cs out' := by
  rw [Ends, List.foldlM_cons, h]
  rfl

/-- Up to the fourth, a letter joins the group. -/
theorem b64Group_of_lt (h : s.grp.length < 3) :
    b64Group cap s c = .ok { s with grp := s.grp ++ [c] } := by
  have hlen : (s.grp ++ [c]).length ≠ 4 := by
    rw [List.length_append, List.length_singleton]
    omega
  exact if_neg hlen

/-- The fourth letter completes it. -/
theorem ends_group (h : s.grp.length = 3) (hstep : b64Step cap s' c = b64Group cap s c) :
    Ends cap s' (c :: cs) out' ↔
      ∃ o, b64Emit (s.grp ++ [c]) s.pad s.out cap = .ok o ∧ Ends cap ⟨[], s.pad, o⟩ cs out' := by
  have hlen : (s.grp ++ [c]).length = 4 := by
    rw [List.length_append, h]
    rfl
  have hgroup : b64Group cap s c = (b64Emit (s.grp ++ [c]) s.pad s.out cap).bind fun out =>
      .ok { s with grp := [], out := out } := if_pos hlen
  cases hemit : b64Emit (s.grp ++ [c]) s.pad s.out cap with
  | error e =>
    rw [hemit] at hgroup
    refine iff_of_false (ends_cons_of_error (hstep.trans hgroup)) ?_
    rintro ⟨o, ho, -⟩
    cases ho
  | ok o =>
    rw [hemit] at hgroup
    rw [ends_cons_of_ok (hstep.trans hgroup)]
    constructor
    · exact fun h => ⟨o, rfl, h⟩
    · rintro ⟨o', ho, h⟩
      obtain rfl := Except.ok.inj ho
      exact h

theorem step_visible (cap : Nat) (s : B64State) (h : isWs c = false) : b64Step cap s c =
    if c = pad then
      if s.pad + 1 > 2 then .error .badBase64 else b64Group cap { s with pad := s.pad + 1 } c
    else if s.pad ≠ 0 then .error .badBase64
    else if value c = none then .error .badBase64
    else b64Group cap s c := by
  have hval : b64Val c = none ↔ value c = none := by
    rw [b64Val_eq, Option.map_eq_none_iff]
  rw [b64Step, if_neg (by rw [h]; nofun)]
  exact if_congr Iff.rfl rfl (if_congr Iff.rfl rfl (if_congr hval rfl rfl))

theorem step_letter {d : Nat} (h : value c = some d) :
    b64Step cap ⟨grp, 0, out⟩ c = b64Group cap ⟨grp, 0, out⟩ c := by
  obtain ⟨hvisible, hpad⟩ := letter_visible h
  rw [step_visible cap _ hvisible, if_neg hpad, if_neg (not_not.mpr rfl), if_neg (by rw [h]; nofun)]

theorem step_pad (h : k < 2) :
    b64Step cap ⟨grp, k, out⟩ pad = b64Group cap ⟨grp, k + 1, out⟩ pad := by
  have hroom : ¬k + 1 > 2 := by omega
  rw [step_visible cap _ (show isWs pad = false by decide), if_pos rfl]
  exact if_neg hroom

theorem step_other (hvisible : isWs c = false) (hvalue : value c = none) (hpad : c ≠ pad) :
    b64Step cap s c = .error .badBase64 := by
  rw [step_visible cap _ hvisible, if_neg hpad, if_pos hvalue, ite_self]

theorem step_after (hvisible : isWs c = false) (hs : s.pad ≠ 0) (hpad : c ≠ pad) :
    b64Step cap s c = .error .badBase64 := by
  rw [step_visible cap _ hvisible, if_neg hpad, if_pos hs]

theorem step_full (hvisible : isWs c = false) (hs : s.pad = 2) :
    b64Step cap s c = .error .badBase64 := by
  by_cases hpad : c = pad
  · rw [step_visible cap _ hvisible, if_pos hpad, if_pos (by rw [hs]; decide)]
  · exact step_after hvisible (by rw [hs]; decide) hpad

theorem ends_letter (grp : List Byte) {d : Nat} (h : value c = some d) (hgrp : grp.length < 3) :
    Ends cap ⟨grp, 0, out⟩ (c :: cs) out' ↔ Ends cap ⟨grp ++ [c], 0, out⟩ cs out' :=
  ends_cons_of_ok ((step_letter h).trans (b64Group_of_lt hgrp))

theorem ends_pad (k : Nat) (grp : List Byte) (hk : k < 2) (hgrp : grp.length < 3) :
    Ends cap ⟨grp, k, out⟩ (pad :: cs) out' ↔ Ends cap ⟨grp ++ [pad], k + 1, out⟩ cs out' :=
  ends_cons_of_ok ((step_pad hk).trans (b64Group_of_lt hgrp))

theorem ends_after (hvisible : isWs c = false) (hs : s.pad ≠ 0) (hpad : c ≠ pad) :
    ¬Ends cap s (c :: cs) out' :=
  ends_cons_of_error (step_after hvisible hs hpad)

theorem ends_full (hvisible : isWs c = false) (hs : s.pad = 2) :
    ¬Ends cap s (c :: cs) out' :=
  ends_cons_of_error (step_full hvisible hs)

theorem ends_letters₁ {c₀ : Byte} {d₀ : Nat} (h₀ : value c₀ = some d₀) :
    Ends cap ⟨[], 0, out⟩ (c₀ :: cs) out' ↔ Ends cap ⟨[c₀], 0, out⟩ cs out' :=
  ends_letter [] h₀ (show 0 < 3 by decide)

theorem ends_letters₂ {c₀ c₁ : Byte} {d₀ d₁ : Nat} (h₀ : value c₀ = some d₀)
    (h₁ : value c₁ = some d₁) :
    Ends cap ⟨[], 0, out⟩ (c₀ :: c₁ :: cs) out' ↔ Ends cap ⟨[c₀, c₁], 0, out⟩ cs out' :=
  (ends_letters₁ h₀).trans (ends_letter [c₀] h₁ (show 1 < 3 by decide))

theorem ends_letters₃ {c₀ c₁ c₂ : Byte} {d₀ d₁ d₂ : Nat} (h₀ : value c₀ = some d₀)
    (h₁ : value c₁ = some d₁) (h₂ : value c₂ = some d₂) :
    Ends cap ⟨[], 0, out⟩ (c₀ :: c₁ :: c₂ :: cs) out' ↔
      Ends cap ⟨[c₀, c₁, c₂], 0, out⟩ cs out' :=
  (ends_letters₂ h₀ h₁).trans (ends_letter [c₀, c₁] h₂ (show 2 < 3 by decide))

/-- A span that is too short for its group ends nowhere. -/
theorem ends_short (hvisible : ∀ c ∈ cs, isWs c = false) (hpos : 0 < s.grp.length + cs.length)
    (hlt : s.grp.length + cs.length < 4) :
    ¬Ends cap s cs out' := by
  induction cs generalizing s with
  | nil =>
    rw [ends_nil]
    rintro ⟨hgrp, -⟩
    rw [hgrp] at hpos
    exact absurd hpos (by decide)
  | cons c cs ih =>
    have hc := hvisible c (List.mem_cons_self ..)
    rw [List.length_cons] at hlt
    have hjoin (s' : B64State) (hs' : s'.grp = s.grp)
        (hstep : b64Step cap s c = b64Group cap s' c) : ¬Ends cap s (c :: cs) out' := by
      rw [ends_cons_of_ok (hstep.trans (b64Group_of_lt (by rw [hs']; omega)))]
      refine ih (fun c hc => hvisible c (List.mem_cons_of_mem _ hc)) ?_ ?_
      · rw [List.length_append, List.length_singleton]
        omega
      · rw [List.length_append, List.length_singleton, hs']
        omega
    have hall := step_visible cap s hc
    split_ifs at hall
    · exact ends_cons_of_error hall
    · exact hjoin { s with pad := s.pad + 1 } rfl hall
    · exact ends_cons_of_error hall
    · exact ends_cons_of_error hall
    · exact hjoin s rfl hall

/-- Behind a padded group there is nothing. -/
theorem ends_padded (hk : k ≠ 0) (hvisible : ∀ c ∈ cs, isWs c = false) :
    Ends cap ⟨[], k, out⟩ cs out' ↔ cs = [] ∧ out = out' := by
  cases cs with
  | nil =>
    rw [ends_nil]
  | cons c cs =>
    refine iff_of_false (fun h => ?_) (fun h => List.cons_ne_nil _ _ h.1)
    have hc := hvisible c (List.mem_cons_self ..)
    have hrest : ∀ c ∈ cs, isWs c = false := fun c hc => hvisible c (List.mem_cons_of_mem _ hc)
    by_cases hpad : c = pad
    case neg => exact ends_after hc hk hpad h
    by_cases htwo : k = 1
    case neg =>
      have hall := step_visible cap ⟨[], k, out⟩ hc
      rw [if_pos hpad, if_pos (show k + 1 > 2 by omega)] at hall
      exact ends_cons_of_error hall h
    rw [hpad, htwo, ends_pad 1 [] (by decide) (by decide)] at h
    cases cs with
    | nil => exact List.cons_ne_nil _ _ (ends_nil.mp h).1
    | cons c' cs => exact ends_full (hrest c' (List.mem_cons_self ..)) rfl h

end Steps

/-! ### The loop -/

/-- Whitespace makes no difference. -/
theorem foldlM_visible (cap : Nat) (s : B64State) (input : List Byte) :
    input.foldlM (b64Step cap) s = (visible input).foldlM (b64Step cap) s := by
  induction input generalizing s with
  | nil => rfl
  | cons c cs ih =>
    rw [visible, List.filter_cons, List.foldlM_cons]
    by_cases hc : isWs c = true
    · have hstep : b64Step cap s c = .ok s := if_pos hc
      rw [if_neg (by rw [hc]; decide), hstep]
      exact ih s
    · rw [if_pos (by rw [eq_false_of_ne_true hc]; rfl), List.foldlM_cons]
      refine congrArg (b64Step cap s c >>= ·) ?_
      funext s
      exact ih s

section Quanta

variable {cap : Nat} {c₀ c₁ c₂ c₃ : Byte} {d₀ d₁ d₂ : Nat} {rest out out' : List Byte}

/-- A group that has three letters must be the last, filled up with padding, with its low bits zero. -/
theorem ends_three (h₀ : value c₀ = some d₀) (h₁ : value c₁ = some d₁) (h₂ : value c₂ = some d₂)
    (h₃ : value c₃ = none) (hvisible : ∀ c ∈ c₃ :: rest, isWs c = false) :
    Ends cap ⟨[], 0, out⟩ (c₀ :: c₁ :: c₂ :: c₃ :: rest) out' ↔
      (c₃ = pad ∧ rest = [] ∧ d₂ % 4 = 0) ∧
        out' = out ++ (octets (bits d₀ d₁ d₂ 0)).take 2 ∧ out'.length ≤ cap := by
  have hc₃ := hvisible c₃ (List.mem_cons_self ..)
  have hrest : ∀ c ∈ rest, isWs c = false := fun c hc => hvisible c (List.mem_cons_of_mem _ hc)
  rw [ends_letters₃ h₀ h₁ h₂]
  by_cases hpad : c₃ = pad
  case neg =>
    exact iff_of_false (ends_cons_of_error (step_other hc₃ h₃ hpad)) fun hno => hpad hno.1.1
  subst hpad
  have hbits := b64Bits_eq (.inl h₀) (.inl h₁) (.inl h₂) (.inr ⟨rfl, rfl⟩)
  have hlt := bits_lt (letter_of_value h₀).1 (letter_of_value h₁).1 (letter_of_value h₂).1
    (Nat.zero_lt_succ 63)
  have hlow : bits d₀ d₁ d₂ 0 % 2 ^ 8 = 0 ↔ d₂ % 4 = 0 := by
    unfold bits
    omega
  generalize bits d₀ d₁ d₂ 0 = v at hbits hlt hlow ⊢
  rw [ends_group rfl (step_pad (by decide))]
  change (∃ o, b64Emit [c₀, c₁, c₂, pad] 1 out cap = .ok o ∧ _) ↔ _
  rw [b64Emit_ok_iff hlt hbits, ends_padded (show 1 ≠ 0 by decide) hrest, ← hlow]
  constructor
  · rintro ⟨hzero, hroom, hend, rfl⟩
    refine ⟨⟨rfl, hend, ?_⟩, rfl, ?_⟩
    · by_contra hno
      exact hzero (.inl ⟨rfl, hno⟩)
    · rw [List.length_append]
      exact hroom
  · rintro ⟨⟨-, hend, hzero⟩, rfl, hle⟩
    refine ⟨?_, ?_, hend, rfl⟩
    · rintro (⟨-, hno⟩ | ⟨hno, -⟩)
      · exact hno hzero
      · exact absurd hno (by decide)
    · rw [List.length_append] at hle
      exact hle

/-- And so must one of two letters. -/
theorem ends_two (h₀ : value c₀ = some d₀) (h₁ : value c₁ = some d₁) (h₂ : value c₂ = none)
    (hvisible : ∀ c ∈ c₂ :: c₃ :: rest, isWs c = false) :
    Ends cap ⟨[], 0, out⟩ (c₀ :: c₁ :: c₂ :: c₃ :: rest) out' ↔
      (c₂ = pad ∧ c₃ = pad ∧ rest = [] ∧ d₁ % 16 = 0) ∧
        out' = out ++ (octets (bits d₀ d₁ 0 0)).take 1 ∧ out'.length ≤ cap := by
  have hc₂ := hvisible c₂ (List.mem_cons_self ..)
  have hc₃ := hvisible c₃ (List.mem_cons_of_mem _ (List.mem_cons_self ..))
  have hrest : ∀ c ∈ rest, isWs c = false := fun c hc =>
    hvisible c (List.mem_cons_of_mem _ (List.mem_cons_of_mem _ hc))
  rw [ends_letters₂ h₀ h₁]
  by_cases hpad : c₂ = pad
  case neg =>
    exact iff_of_false (ends_cons_of_error (step_other hc₂ h₂ hpad)) fun hno => hpad hno.1.1
  subst hpad
  rw [ends_pad 0 [c₀, c₁] (by decide) (show 2 < 3 by decide)]
  by_cases hpad : c₃ = pad
  case neg =>
    exact iff_of_false (ends_after hc₃ (show 1 ≠ 0 by decide) hpad) fun hno => hpad hno.1.2.1
  subst hpad
  have hbits := b64Bits_eq (.inl h₀) (.inl h₁) (.inr ⟨rfl, rfl⟩) (.inr ⟨rfl, rfl⟩)
  have hlt := bits_lt (letter_of_value h₀).1 (letter_of_value h₁).1 (Nat.zero_lt_succ 63)
    (Nat.zero_lt_succ 63)
  have hlow : bits d₀ d₁ 0 0 % 2 ^ 16 = 0 ↔ d₁ % 16 = 0 := by
    unfold bits
    omega
  generalize bits d₀ d₁ 0 0 = v at hbits hlt hlow ⊢
  rw [ends_group rfl (step_pad (by decide))]
  change (∃ o, b64Emit [c₀, c₁, pad, pad] 2 out cap = .ok o ∧ _) ↔ _
  rw [b64Emit_ok_iff hlt hbits, ends_padded (show 2 ≠ 0 by decide) hrest, ← hlow]
  constructor
  · rintro ⟨hzero, hroom, hend, rfl⟩
    refine ⟨⟨rfl, rfl, hend, ?_⟩, rfl, ?_⟩
    · by_contra hno
      exact hzero (.inr ⟨rfl, hno⟩)
    · rw [List.length_append]
      exact hroom
  · rintro ⟨⟨-, -, hend, hzero⟩, rfl, hle⟩
    refine ⟨?_, ?_, hend, rfl⟩
    · rintro (⟨hno, -⟩ | ⟨-, hno⟩)
      · exact absurd hno (by decide)
      · exact hno hzero
    · rw [List.length_append] at hle
      exact hle

/-- A group of fewer letters, or with padding between them, ends nowhere. -/
theorem not_ends_else (hvisible : ∀ c ∈ c₀ :: c₁ :: c₂ :: c₃ :: rest, isWs c = false)
    (h : value c₀ = none ∨ value c₁ = none ∨ value c₂ = none ∧ value c₃ ≠ none) :
    ¬Ends cap ⟨[], 0, out⟩ (c₀ :: c₁ :: c₂ :: c₃ :: rest) out' := by
  have hc₀ := hvisible c₀ (by simp)
  have hc₁ := hvisible c₁ (by simp)
  have hc₂ := hvisible c₂ (by simp)
  have hc₃ := hvisible c₃ (by simp)
  have hone : 1 ≠ 0 := by decide
  cases h₀ : value c₀ with
  | none =>
    by_cases hpad : c₀ = pad
    case neg => exact ends_cons_of_error (step_other hc₀ h₀ hpad)
    rw [hpad]
    refine mt (ends_pad 0 [] (by decide) (show 0 < 3 by decide)).mp ?_
    by_cases hpad' : c₁ = pad
    case neg => exact ends_after hc₁ hone hpad'
    rw [hpad']
    refine mt (ends_pad 1 [pad] (by decide) (show 1 < 3 by decide)).mp ?_
    exact ends_full hc₂ rfl
  | some d₀ =>
    refine mt (ends_letters₁ h₀).mp ?_
    cases h₁ : value c₁ with
    | none =>
      by_cases hpad : c₁ = pad
      case neg => exact ends_cons_of_error (step_other hc₁ h₁ hpad)
      rw [hpad]
      refine mt (ends_pad 0 [c₀] (by decide) (show 1 < 3 by decide)).mp ?_
      by_cases hpad' : c₂ = pad
      case neg => exact ends_after hc₂ hone hpad'
      rw [hpad']
      refine mt (ends_pad 1 [c₀, pad] (by decide) (show 2 < 3 by decide)).mp ?_
      exact ends_full hc₃ rfl
    | some d₁ =>
      refine mt (ends_letter [c₀] h₁ (show 1 < 3 by decide)).mp ?_
      rw [h₀, h₁] at h
      obtain ⟨h₂, h₃⟩ := (h.resolve_left nofun).resolve_left nofun
      by_cases hpad : c₂ = pad
      case neg => exact ends_cons_of_error (step_other hc₂ h₂ hpad)
      rw [hpad]
      refine mt (ends_pad 0 [c₀, c₁] (by decide) (show 2 < 3 by decide)).mp ?_
      refine ends_after hc₃ hone fun hno => h₃ ?_
      rw [hno, value_pad]

end Quanta

/-- Letters decode where the library decodes them and the octets have room. -/
theorem ends_iff {cap : Nat} {cs out out' : List Byte} (hvisible : ∀ c ∈ cs, isWs c = false)
    (hout : out.length ≤ cap) :
    Ends cap ⟨[], 0, out⟩ cs out' ↔
      ∃ s, decode cs = some s ∧ out' = out ++ s ∧ out'.length ≤ cap := by
  fun_induction decode cs generalizing out with
  | case1 =>
    rw [ends_nil]
    constructor
    · rintro ⟨-, rfl⟩
      exact ⟨[], rfl, (List.append_nil _).symm, hout⟩
    · rintro ⟨s, hs, rfl, -⟩
      obtain rfl := Option.some.inj hs
      exact ⟨rfl, (List.append_nil _).symm⟩
  | case2 c₀ c₁ c₂ c₃ rest d₀ d₁ d₂ d₃ h₃ h₂ h₁ h₀ ih =>
    have hrest : ∀ c ∈ rest, isWs c = false := fun c hc =>
      hvisible c (by simp [hc])
    have hbits := b64Bits_eq (.inl h₀) (.inl h₁) (.inl h₂) (.inl h₃)
    have hlt := bits_lt (letter_of_value h₀).1 (letter_of_value h₁).1 (letter_of_value h₂).1
      (letter_of_value h₃).1
    generalize bits d₀ d₁ d₂ d₃ = v at hbits hlt ⊢
    rw [ends_letters₃ h₀ h₁ h₂, ends_group rfl (step_letter h₃)]
    change (∃ o, b64Emit [c₀, c₁, c₂, c₃] 0 out cap = .ok o ∧ _) ↔ _
    rw [b64Emit_ok_iff hlt hbits]
    constructor
    · rintro ⟨-, hroom, hends⟩
      rw [ih hrest (by rw [List.length_append]; exact hroom)] at hends
      obtain ⟨s, hs, rfl, hle⟩ := hends
      exact ⟨octets v ++ s, by rw [hs]; rfl, List.append_assoc .., hle⟩
    · rintro ⟨s, hs, rfl, hle⟩
      obtain ⟨t, ht, rfl⟩ := Option.map_eq_some_iff.mp hs
      have hroom : out.length + 3 ≤ cap := by
        rw [List.length_append, List.length_append] at hle
        exact (Nat.add_le_add_left (Nat.le_add_right 3 t.length) _).trans hle
      have hnone : ¬(0 = 1 ∧ v % 2 ^ 8 ≠ 0 ∨ 0 = 2 ∧ v % 2 ^ 16 ≠ 0) := by
        rintro (⟨hno, -⟩ | ⟨hno, -⟩) <;> cases hno
      refine ⟨hnone, hroom, ?_⟩
      rw [ih hrest (by rw [List.length_append]; exact hroom)]
      exact ⟨t, ht, (List.append_assoc ..).symm, hle⟩
  | case3 c₀ c₁ c₂ c₃ rest d₀ d₁ d₂ h₃ h₂ h₁ h₀ htail =>
    rw [ends_three h₀ h₁ h₂ h₃ (fun c hc => hvisible c (by simp [hc]))]
    constructor
    · exact fun h => ⟨_, rfl, h.2⟩
    · rintro ⟨s, hs, hout⟩
      obtain rfl := Option.some.inj hs
      exact ⟨htail, hout⟩
  | case4 c₀ c₁ c₂ c₃ rest d₀ d₁ d₂ h₃ h₂ h₁ h₀ htail =>
    rw [ends_three h₀ h₁ h₂ h₃ (fun c hc => hvisible c (by simp [hc]))]
    refine iff_of_false (fun hno => htail hno.1) ?_
    rintro ⟨s, hs, -⟩
    cases hs
  | case5 c₀ c₁ c₂ c₃ rest d₀ d₁ h₃ h₂ h₁ h₀ htail =>
    rw [ends_two h₀ h₁ h₂ (fun c hc => hvisible c (by simp [hc]))]
    constructor
    · exact fun h => ⟨_, rfl, h.2⟩
    · rintro ⟨s, hs, hout⟩
      obtain rfl := Option.some.inj hs
      exact ⟨htail, hout⟩
  | case6 c₀ c₁ c₂ c₃ rest d₀ d₁ h₃ h₂ h₁ h₀ htail =>
    rw [ends_two h₀ h₁ h₂ (fun c hc => hvisible c (by simp [hc]))]
    refine iff_of_false (fun hno => htail hno.1) ?_
    rintro ⟨s, hs, -⟩
    cases hs
  | case7 c₀ c₁ c₂ c₃ rest hfour hthree htwo =>
    refine iff_of_false (not_ends_else hvisible ?_) ?_
    · cases h₀ : value c₀ with
      | none => exact .inl rfl
      | some d₀ =>
        cases h₁ : value c₁ with
        | none => exact .inr (.inl rfl)
        | some d₁ =>
          refine .inr (.inr ?_)
          cases h₂ : value c₂ with
          | none => exact ⟨rfl, fun h₃ => htwo d₀ d₁ h₀ h₁ h₂ h₃⟩
          | some d₂ =>
            cases h₃ : value c₃ with
            | none => exact (hthree d₀ d₁ d₂ h₀ h₁ h₂ h₃).elim
            | some d₃ => exact (hfour d₀ d₁ d₂ d₃ h₀ h₁ h₂ h₃).elim
    · rintro ⟨s, hs, -⟩
      cases hs
  | case8 cs hnil hlong =>
    refine iff_of_false (ends_short hvisible ?_ ?_) ?_
    · rw [List.length_nil, Nat.zero_add]
      exact List.length_pos_of_ne_nil hnil
    · rw [List.length_nil, Nat.zero_add]
      by_contra hno
      rcases cs with _ | ⟨c₀, _ | ⟨c₁, _ | ⟨c₂, _ | ⟨c₃, rest⟩⟩⟩⟩
      · exact hno (by decide)
      · exact hno (show 1 < 4 by decide)
      · exact hno (show 2 < 4 by decide)
      · exact hno (show 3 < 4 by decide)
      · exact hlong c₀ c₁ c₂ c₃ rest rfl
    · rintro ⟨s, hs, -⟩
      cases hs

/-- The decoder accepts the encodings with whitespace anywhere, and needs no more room than for what
they encode. -/
theorem vmfwBase64Decode_ok_iff (input out : List Byte) (cap : Nat) :
    vmfwBase64Decode input cap = .ok out ↔ visible input = encode out ∧ out.length ≤ cap := by
  have hvisible : ∀ c ∈ visible input, isWs c = false := by
    intro c hc
    have hkept := (List.mem_filter.mp hc).2
    rwa [Bool.not_eq_true'] at hkept
  have hrun : vmfwBase64Decode input cap = .ok out ↔
      Ends cap ⟨[], 0, []⟩ (visible input) out := by
    rw [vmfwBase64Decode, foldlM_visible, Ends]
    cases (visible input).foldlM (b64Step cap) ⟨[], 0, []⟩ with
    | error e =>
      refine iff_of_false nofun ?_
      rintro ⟨pad, hpad⟩
      cases hpad
    | ok s =>
      obtain ⟨grp, pad, o⟩ := s
      change (if grp ≠ [] then Except.error PlistStatus.badBase64 else .ok o) = .ok out ↔ _
      by_cases hgrp : grp = []
      · rw [if_neg (not_not.mpr hgrp), hgrp]
        constructor
        · intro h
          obtain rfl := Except.ok.inj h
          exact ⟨pad, rfl⟩
        · rintro ⟨pad', h⟩
          cases h
          rfl
      · rw [if_pos hgrp]
        refine iff_of_false nofun ?_
        rintro ⟨pad', h⟩
        cases h
        exact hgrp rfl
  rw [hrun, ends_iff hvisible (Nat.zero_le cap)]
  constructor
  · rintro ⟨s, hs, rfl, hle⟩
    exact ⟨decode_eq_some_iff.mp hs, hle⟩
  · rintro ⟨hcode, hle⟩
    exact ⟨out, decode_eq_some_iff.mpr hcode, rfl, hle⟩

/-! ### Prefixes -/

/-- The walk takes the octets up to the last letter needed. -/
theorem b64Walk_spec (need : Nat) (cs : List Byte) (seen : Nat) :
    visible (cs.take (b64Walk need cs seen).1) = (visible cs).take (need - seen) ∧
      min need (seen + (visible cs).length) ≤ (b64Walk need cs seen).2 := by
  induction cs generalizing seen with
  | nil => exact ⟨List.take_nil.symm, Nat.min_le_right _ _⟩
  | cons c cs ih =>
    rw [b64Walk]
    split
    case isFalse hdone =>
      have hnone : need - seen = 0 := by omega
      rw [hnone]
      exact ⟨rfl, (Nat.min_le_left _ _).trans (Nat.le_of_not_lt hdone)⟩
    case isTrue hmore =>
      dsimp only
      rw [List.take_succ_cons, visible, visible, List.filter_cons, List.filter_cons]
      by_cases hc : isWs c = true
      · obtain ⟨htake, hseen⟩ := ih seen
        rw [if_pos hc, if_neg (by rw [hc]; decide), if_neg (by rw [hc]; decide)]
        exact ⟨htake, hseen⟩
      · obtain ⟨htake, hseen⟩ := ih (seen + 1)
        have hkept : (!isWs c) = true := by rw [eq_false_of_ne_true hc]; rfl
        have hone : need - seen = need - (seen + 1) + 1 := by omega
        rw [if_neg hc, if_pos hkept, if_pos hkept, hone, List.take_succ_cons, List.length_cons]
        refine ⟨congrArg _ htake, ?_⟩
        rw [visible] at hseen
        omega

/-- What a prefix decodes to, where the whole span decodes to enough. -/
theorem decodeB64Prefix_eq {b64 full : List Byte} {outCap want : Nat} (h : b64.length < 2 ^ 64)
    (hfull : visible b64 = encode full) (hwant : want ≤ full.length) (out : List Byte) :
    decodeB64Prefix b64 outCap want = .ok out ↔
      out = full.take (3 * ((want + 2) / 3)) ∧ out.length ≤ outCap := by
  let groups := (want + 2) / 3
  have hletters : 4 * ((full.length + 2) / 3) ≤ b64.length := by
    rw [← length_encode, ← hfull]
    exact List.length_filter_le ..
  have hgroups : (want + 2) % 2 ^ 64 / 3 = groups := by
    rw [Nat.mod_eq_of_lt (by omega)]
  have hneed : groups * 4 % 2 ^ 64 = 4 * groups := by
    rw [Nat.mul_comm]
    refine Nat.mod_eq_of_lt ?_
    change 4 * ((want + 2) / 3) < 2 ^ 64
    omega
  obtain ⟨htake, hseen⟩ := b64Walk_spec (4 * groups) b64 0
  rw [decodeB64Prefix, hgroups, hneed]
  rcases hwalk : b64Walk (4 * groups) b64 0 with ⟨i, seen⟩
  rw [hwalk] at htake hseen
  have henough : ¬seen < 4 * groups := by
    have hall : 4 * groups ≤ (visible b64).length := by
      rw [hfull, length_encode]
      change 4 * ((want + 2) / 3) ≤ _
      omega
    dsimp only at hseen
    omega
  have hcode : visible (b64.take i) = encode (full.take (3 * groups)) := by
    rw [← take_encode, ← hfull]
    exact htake
  have hlong : want ≤ (full.take (3 * groups)).length := by
    rw [List.length_take]
    change want ≤ min (3 * ((want + 2) / 3)) _
    omega
  have hdecode (out : List Byte) : vmfwBase64Decode (b64.take i) outCap = .ok out ↔
      out = full.take (3 * groups) ∧ out.length ≤ outCap := by
    rw [vmfwBase64Decode_ok_iff, hcode]
    refine and_congr_left' ⟨fun he => ?_, fun he => by rw [he]⟩
    have hsame := congrArg decode he
    rw [decode_encode, decode_encode] at hsame
    exact (Option.some.inj hsame).symm
  dsimp only
  rw [if_neg henough]
  cases hrun : vmfwBase64Decode (b64.take i) outCap with
  | error e =>
    refine iff_of_false nofun fun hno => ?_
    have hok := (hdecode out).mpr hno
    rw [hrun] at hok
    cases hok
  | ok o =>
    obtain ⟨rfl, hle⟩ := (hdecode o).mp hrun
    change (if (full.take (3 * groups)).length ≥ want then Except.ok (full.take (3 * groups))
      else .error PlistStatus.badBase64) = .ok out ↔ _
    rw [if_pos hlong]
    constructor
    · intro hok
      obtain rfl := Except.ok.inj hok
      exact ⟨rfl, hle⟩
    · rintro ⟨rfl, -⟩
      rfl

/-- Decoding inverts the encoding, in as much room as the octets need. Of a span that decodes to
enough octets, and with room for those that are wanted, a prefix decodes to the same octets exactly if
there is room for the octets of its last group as well. -/
theorem base64_exact (b64 : List Byte) (cap : Nat) :
    (∀ out, vmfwBase64Decode b64 cap = .ok out ↔ visible b64 = encode out ∧ out.length ≤ cap) ∧
    ∀ (full : List Byte) (outCap want : Nat), b64.length < 2 ^ 64 →
      vmfwBase64Decode b64 cap = .ok full → want ≤ full.length → want ≤ outCap →
      ((∃ out, decodeB64Prefix b64 outCap want = .ok out ∧ out.take want = full.take want) ↔
        min (3 * ((want + 2) / 3)) full.length ≤ outCap) := by
  refine ⟨fun out => vmfwBase64Decode_ok_iff b64 out cap, ?_⟩
  intro full outCap want hlen hfull hwant _
  have hcode := ((vmfwBase64Decode_ok_iff b64 full cap).mp hfull).1
  have hlength := List.length_take (i := 3 * ((want + 2) / 3)) (l := full)
  constructor
  · rintro ⟨out, hok, -⟩
    obtain ⟨rfl, hle⟩ := (decodeB64Prefix_eq hlen hcode hwant out).mp hok
    rwa [hlength] at hle
  · intro hroom
    refine ⟨_, (decodeB64Prefix_eq hlen hcode hwant _).mpr ⟨rfl, by rwa [hlength]⟩, ?_⟩
    rw [List.take_take, Nat.min_eq_left (by omega)]

/-- The letters of three octets, with a line break in them. -/
theorem base64_exact_man :
    ∃ out, decodeB64Prefix [0x54, 0x57, 0x0a, 0x46, 0x75] 3 2 = .ok out ∧
      out.take 2 = [0x4d, 0x61] :=
  ((base64_exact [0x54, 0x57, 0x0a, 0x46, 0x75] 3).2 [0x4d, 0x61, 0x6e] 3 2 (by decide)
    (by decide +kernel) (by decide) (by decide)).mpr (by decide)

/-- Two octets of them do not decode into room for two. -/
theorem base64_prefix_refused :
    ¬∀ (b64 full : List Byte) (cap outCap want : Nat), b64.length < 2 ^ 64 →
      vmfwBase64Decode b64 cap = .ok full → want ≤ full.length → want ≤ outCap →
      ∃ out, decodeB64Prefix b64 outCap want = .ok out ∧ out.take want = full.take want := by
  intro hall
  obtain ⟨out, hok, -⟩ := hall [0x54, 0x57, 0x46, 0x75] [0x4d, 0x61, 0x6e] 3 2 2 (by decide)
    (by decide +kernel) (by decide) (by decide)
  have hrefused : decodeB64Prefix [0x54, 0x57, 0x46, 0x75] 2 2 = .error .tooLong := by
    decide +kernel
  rw [hrefused] at hok
  cases hok

end S5LBox.Firmware
