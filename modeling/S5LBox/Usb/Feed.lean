import S5LBox.Usb.Mux

/-!
# Frames out of a string of octets

The guest's octets come in packets whose bounds mean nothing. `usb_mux_feed` takes as many of them
at a time as the frame it is in still wants; it is shown here to do what it would do if they came
one by one, so that it does not depend on how the string is cut.

## Main definitions

* `Aligned`: the octets in the receive buffer are the start of a frame and not all of it.
* `feedOctet`: what one octet does.

## Main results

* `usbMuxFeed_eq_foldl`: a string does what its octets do in turn.
* `usbMuxFeed_append`: a string may be cut anywhere.
-/

namespace S5LBox.Usb

open Net

variable {u : Mux} {p q : List Byte}

/-! ### The start of a frame -/

/-- How many octets the frame in the receive buffer has, as far as they can tell. -/
def wanted (r : List Byte) : Nat := if r.length < 8 then 8 else frameLength r

/-- The octets in the receive buffer are the start of a frame and not all of it. -/
def Aligned (u : Mux) : Prop :=
  8 ≤ u.receive.length → headerSize u ≤ frameLength u.receive ∧
    frameLength u.receive ≤ usbMuxRxSize ∧ u.receive.length < frameLength u.receive

theorem aligned_of_nil (h : u.receive = []) : Aligned u := by
  intro h8
  rw [h] at h8
  exact absurd h8 (by decide)

theorem Aligned.lt_wanted (h : Aligned u) : u.receive.length < wanted u.receive := by
  rw [wanted]
  split
  · assumption
  · exact (h (by omega)).2.2

/-- The length of a frame is in its first eight octets. -/
theorem frameLength_append {r : List Byte} (h : 8 ≤ r.length) (q : List Byte) :
    frameLength (r ++ q) = frameLength r := by
  have hget : ∀ k < 8, (r ++ q)[k]? = r[k]? := by
    intro k hk
    exact List.getElem?_append_left (by omega)
  simp only [frameLength, be32, netRd32, List.getD_eq_getElem?_getD, List.getElem?_drop,
    Nat.reduceAdd]
  rw [hget 4 (by omega), hget 5 (by omega), hget 6 (by omega), hget 7 (by omega)]

theorem headerSize_eq (u : Mux) : headerSize u = 16 ∨ headerSize u = 8 := by
  rw [headerSize]
  split
  · exact .inl rfl
  · exact .inr rfl

theorem headerSize_le (u : Mux) : 8 ≤ headerSize u ∧ headerSize u ≤ 16 := by
  have heq := headerSize_eq u
  omega

/-! ### One octet -/

/-- What some more octets of one frame do. -/
def absorb (q : List Byte) (u : Mux) : Mux :=
  let u := { u with receive := u.receive ++ q }
  if 8 ≤ u.receive.length ∧
      (frameLength u.receive < headerSize u ∨ usbMuxRxSize < frameLength u.receive) then
    badLength u
  else if 8 ≤ u.receive.length ∧ u.receive.length = frameLength u.receive then
    { inputFrame u.receive u with receive := [] }
  else u

/-- What one octet does. -/
def feedOctet (u : Mux) (b : Byte) : Mux := if u.stage = .failed then u else absorb [b] u

theorem foldl_feedOctet_failed (h : u.stage = .failed) : p.foldl feedOctet u = u := by
  induction p with
  | nil => rfl
  | cons b p ih => rw [List.foldl_cons, feedOctet, if_pos h, ih]

theorem absorb_append :
    absorb (p ++ q) u = absorb q { u with receive := u.receive ++ p } := by
  simp only [absorb, List.append_assoc, headerSize, badLength, usbMuxCancel]

/-- Octets that do not end a frame are kept. -/
theorem absorb_short (h : Aligned u) (hq : u.receive.length + q.length < wanted u.receive) :
    absorb q u = { u with receive := u.receive ++ q } := by
  rw [wanted] at hq
  simp only [absorb, List.length_append]
  split at hq
  · rw [if_neg (by omega), if_neg (by omega)]
  · obtain ⟨hmin, hmax, -⟩ := h (by omega)
    have hlen := frameLength_append (r := u.receive) (by omega) q
    rw [hlen, if_neg (by rintro ⟨-, hbad | hbad⟩ <;> simp only [headerSize] at hmin hbad <;> omega),
      if_neg (by omega)]

theorem wanted_short (h : Aligned u) (hq : u.receive.length + q.length < wanted u.receive) :
    Aligned { u with receive := u.receive ++ q } ∧
      wanted (u.receive ++ q) = wanted u.receive := by
  rw [wanted] at hq
  simp only [Aligned, wanted, List.length_append]
  split at hq
  · exact ⟨fun h8 => absurd h8 (by omega), by rw [if_pos (by omega), if_pos (by assumption)]⟩
  · obtain ⟨hmin, hmax, -⟩ := h (by omega)
    have hlen := frameLength_append (r := u.receive) (by omega) q
    rw [hlen, if_neg (by omega), if_neg (by omega)]
    exact ⟨fun _ => ⟨hmin, hmax, by omega⟩, rfl⟩

/-- Octets that do not go beyond a frame do what they would do one by one. -/
theorem foldl_feedOctet_eq_absorb (h : Aligned u) (hstage : u.stage ≠ .failed) (hne : q ≠ [])
    (hq : u.receive.length + q.length ≤ wanted u.receive) :
    q.foldl feedOctet u = absorb q u := by
  induction q generalizing u with
  | nil => exact absurd rfl hne
  | cons b q ih =>
    rw [List.foldl_cons, feedOctet, if_neg hstage]
    have hcons : ([b] : List Byte) ++ q = b :: q := rfl
    by_cases hnil : q = []
    · rw [hnil]
      rfl
    have hpos : 0 < q.length := List.length_pos_iff.mpr hnil
    rw [List.length_cons] at hq
    have hone : u.receive.length + [b].length < wanted u.receive := by
      rw [List.length_singleton]
      omega
    obtain ⟨haligned, hwanted⟩ := wanted_short h hone
    rw [absorb_short h hone, ← hcons, absorb_append]
    refine ih haligned hstage hnil ?_
    show (u.receive ++ [b]).length + q.length ≤ wanted (u.receive ++ [b])
    rw [hwanted, List.length_append, List.length_singleton]
    omega

/-- What is kept is again the start of a frame. -/
theorem aligned_absorb
    (hq : u.receive.length + q.length ≤ wanted u.receive) : Aligned (absorb q u) := by
  simp only [absorb]
  split_ifs with hbad hdone
  · exact aligned_of_nil rfl
  · exact aligned_of_nil rfl
  · intro h8
    rw [not_and] at hbad hdone
    have hrange := hbad h8
    have hne := hdone h8
    rw [not_or, Nat.not_lt, Nat.not_lt] at hrange
    refine ⟨hrange.1, hrange.2, ?_⟩
    simp only [List.length_append] at h8 hne ⊢
    rw [wanted] at hq
    split at hq
    case isTrue =>
      have hmin := (headerSize_le { u with receive := u.receive ++ q }).1
      have hfirst := hrange.1
      omega
    case isFalse hlong =>
      have hlen := frameLength_append (r := u.receive) (by omega) q
      rw [hlen] at hne ⊢
      omega

theorem aligned_feedOctet (h : Aligned u) (b : Byte) : Aligned (feedOctet u b) := by
  rw [feedOctet]
  split
  · exact h
  · have hlt := h.lt_wanted
    exact aligned_absorb (by rw [List.length_singleton]; omega)

theorem aligned_foldl (h : Aligned u) : Aligned (p.foldl feedOctet u) := by
  induction p generalizing u with
  | nil => exact h
  | cons b p ih => exact ih (aligned_feedOctet h b)

/-! ### A string -/

/-- A turn of the loop takes what the frame still wants. -/
theorem feedTurn_eq (h : Aligned u) :
    (feedTurn p u).2 = absorb (p.take (wanted u.receive - u.receive.length)) u ∧
      ((feedTurn p u).1 = p.drop (wanted u.receive - u.receive.length) ∨
        (feedTurn p u).1 = [] ∧ (feedTurn p u).2.stage = .failed) := by
  have hrange : 8 ≤ wanted u.receive ∧ wanted u.receive ≤ usbMuxRxSize := by
    rw [wanted]
    split
    · decide
    · have hmin := (headerSize_le u).1
      have hlen := h (by omega)
      omega
  have hlt := h.lt_wanted
  have htake : p.take (min (wanted u.receive - u.receive.length) p.length) =
      p.take (wanted u.receive - u.receive.length) := by
    rw [← List.take_take, List.take_length]
  have hdrop : p.drop (min (wanted u.receive - u.receive.length) p.length) =
      p.drop (wanted u.receive - u.receive.length) := by
    rcases Nat.le_total (wanted u.receive - u.receive.length) p.length with hle | hle
    · rw [Nat.min_eq_left hle]
    · rw [Nat.min_eq_right hle, List.drop_length, List.drop_of_length_le hle]
  have hwanted : (if u.receive.length < 8 then 8 else frameLength u.receive) = wanted u.receive :=
    rfl
  simp only [feedTurn, hwanted]
  rw [if_neg (by omega)]
  simp only [absorb, htake, hdrop]
  split_ifs with hbad hdone
  · exact ⟨rfl, .inr ⟨rfl, rfl⟩⟩
  · exact ⟨rfl, .inl rfl⟩
  · exact ⟨rfl, .inl rfl⟩

theorem feedLoop_eq_foldl {fuel : Nat} (h : Aligned u) (hfuel : p.length < fuel) :
    feedLoop fuel p u = p.foldl feedOctet u := by
  induction fuel generalizing p u with
  | zero => exact absurd hfuel (Nat.not_lt_zero _)
  | succ fuel ih =>
    rw [feedLoop]
    by_cases hp : p = []
    · rw [if_pos (.inl hp), hp]
      rfl
    by_cases hstage : u.stage = .failed
    · rw [if_pos (.inr hstage), foldl_feedOctet_failed hstage]
    rw [if_neg (by simp [hp, hstage])]
    obtain ⟨hturn, hrest⟩ := feedTurn_eq (p := p) h
    have hlt := h.lt_wanted
    generalize hn : wanted u.receive - u.receive.length = n at hturn hrest
    have hpos : 0 < p.length := List.length_pos_iff.mpr hp
    have hle : u.receive.length + (p.take n).length ≤ wanted u.receive := by
      rw [List.length_take]
      omega
    have hne : p.take n ≠ [] := by
      rw [← List.length_pos_iff, List.length_take]
      omega
    have hfold : p.foldl feedOctet u = (p.drop n).foldl feedOctet (absorb (p.take n) u) := by
      rw [← foldl_feedOctet_eq_absorb h hstage hne hle, ← List.foldl_append, List.take_append_drop]
    have haligned := aligned_absorb hle
    dsimp only
    rw [hfold, hturn] at *
    rcases hrest with hrest | ⟨hrest, hfailed⟩
    · rw [hrest]
      refine ih haligned ?_
      rw [List.length_drop]
      omega
    · rw [hrest, foldl_feedOctet_failed hfailed, ih haligned (by simp only [List.length_nil]; omega)]
      rfl

/-- A string does what its octets do in turn. -/
theorem usbMuxFeed_eq_foldl (h : Aligned u) : usbMuxFeed p u = p.foldl feedOctet u := by
  rw [usbMuxFeed]
  split
  case isTrue hstage => rw [foldl_feedOctet_failed hstage]
  case isFalse => exact feedLoop_eq_foldl h (Nat.lt_succ_self _)

theorem aligned_usbMuxFeed (h : Aligned u) : Aligned (usbMuxFeed p u) := by
  rw [usbMuxFeed_eq_foldl h]
  exact aligned_foldl h

theorem usbMuxFeed_append (h : Aligned u) :
    usbMuxFeed q (usbMuxFeed p u) = usbMuxFeed (p ++ q) u := by
  rw [usbMuxFeed_eq_foldl (aligned_usbMuxFeed h), usbMuxFeed_eq_foldl h, usbMuxFeed_eq_foldl h,
    List.foldl_append]

end S5LBox.Usb
