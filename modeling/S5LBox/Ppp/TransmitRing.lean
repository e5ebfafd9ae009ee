import S5LBox.Lib.Runs
import S5LBox.Lib.SerialNumbers
import S5LBox.Ppp.Deframer

/-!
# The transmit ring

Frames are queued whole or not at all, and octets are read one by one. The ring is one of
free-running counters of 32 bits whose size does not divide their range, so what is read is what
was queued in every run in which no frame is queued while it and the octets unread ahead of it lie
across the wrap of the counters and are more than `2 ^ 32 % PPP_TX_RING` octets together. A frame
that is queued there falls on octets that are still unread.

## Main definitions

* `Traffic`: a link, the frames it counted as sent, and the octets read from it.
* `Crosses`: the condition on a frame.

## Main results

* `transmit_ring_delivers`: what is read is what was queued, as long as no frame crosses, and a
  frame overwrites nothing unread exactly when it does not cross.
* `transmit_ring_overwrites`: frames that cross are read back wrong.
-/

namespace S5LBox.Ppp

open FreeRunningRing Runs

/-! ### Counters and contents -/

/-- The octets in the ring. -/
def unread (p : Link) : List Byte := held pppTxRing p.tx p.txTail (txUsed p)

theorem ring_le : pppTxRing ≤ 2 ^ 32 := by decide

theorem txUsed_eq_offset (p : Link) : txUsed p = SerialNumbers.offset p.txTail p.txHead := rfl

theorem txHead_eq (p : Link) : p.txHead = p.txTail + BitVec.ofNat 32 (txUsed p) :=
  (SerialNumbers.start_add_offset p.txTail p.txHead).symm

variable {p : Link}

theorem txFree_of_le (h : txUsed p ≤ pppTxRing) :
    txFree p = pppTxRing - txUsed p := by
  have hring : pppTxRing ≤ 2 ^ 32 := ring_le
  rw [txFree, show pppTxRing + 2 ^ 64 - txUsed p = pppTxRing - txUsed p + 2 ^ 64 by omega,
    Nat.add_mod_right, Nat.mod_eq_of_lt (by omega)]

theorem pppFrame_length {proto : BitVec 16} {info enc : List Byte} {accm : Word} {cap : Nat}
    (h : pppFrame proto info accm cap = some enc) : 0 < enc.length ∧ enc.length ≤ cap := by
  rw [pppFrame_eq, Option.ite_none_right_eq_some] at h
  obtain ⟨⟨-, hcap⟩, ⟨⟩⟩ := h
  exact ⟨by simp [frameOctets], hcap⟩

/-- A frame is refused if it is none or does not fit what is free. -/
theorem txFrame_refused {p : Link} {proto : BitVec 16} {info : List Byte}
    (h : ∀ enc, pppFrame proto info p.txAccm (2 * pppMaxFrame + 2) = some enc →
      txFree p < enc.length) :
    txFrame p proto info =
      { p with stats := { p.stats with txOverflows := p.stats.txOverflows + 1 } } := by
  unfold txFrame
  dsimp only
  split
  · rfl
  · rename_i enc henc
    rw [if_pos (h enc henc)]

/-- The octets of a frame behind the unread ones. -/
def enqueue (p : Link) (frame : BitVec 16 × List Byte) (enc : List Byte) : Link :=
  { p with
    tx := put pppTxRing p.tx p.txHead enc
    txHead := p.txHead + BitVec.ofNat 32 enc.length
    frames := p.frames ++ [frame]
    stats := { p.stats with
      framesOut := p.stats.framesOut + 1
      txBytes := p.stats.txBytes + enc.length } }

/-- A frame that fits what is free is written behind the unread octets. -/
theorem txFrame_queued {proto : BitVec 16} {info enc : List Byte}
    (henc : pppFrame proto info p.txAccm (2 * pppMaxFrame + 2) = some enc)
    (h : enc.length ≤ txFree p) : txFrame p proto info = enqueue p (proto, info) enc := by
  unfold txFrame
  rw [henc]
  exact if_neg (Nat.not_lt.2 h)

theorem txUsed_enqueue {frame : BitVec 16 × List Byte} {enc : List Byte}
    (h : txUsed p + enc.length ≤ pppTxRing) :
    txUsed (enqueue p frame enc) = txUsed p + enc.length :=
  SerialNumbers.offset_add (lt_of_le_of_lt h (by decide))

/-- What is unread is extended by the octets of the frame, if the two fit. -/
theorem unread_enqueue {frame : BitVec 16 × List Byte} {enc : List Byte}
    (h : Fits pppTxRing p.txTail (txUsed p + enc.length)) :
    unread (enqueue p frame enc) = unread p ++ enc := by
  rw [unread, txUsed_enqueue h.1]
  change held pppTxRing (put pppTxRing p.tx p.txHead enc) p.txTail _ = _
  rw [txHead_eq, held_put _ _ h ring_le]
  rfl

/-- One octet more is unread than in the ring behind the first. -/
theorem txUsed_succ (h : p.txHead ≠ p.txTail) :
    txUsed p = txUsed { p with txTail := p.txTail + 1 } + 1 := by
  have hpos : txUsed p ≠ 0 := fun h0 => h (SerialNumbers.offset_eq_zero.1 h0)
  have hlt : txUsed p < 2 ^ 32 := BitVec.isLt _
  have hhead : p.txHead = p.txTail + 1 + BitVec.ofNat 32 (txUsed p - 1) := by
    rw [BitVec.add_assoc, show (1 : Word) = BitVec.ofNat 32 1 from rfl, ← BitVec.ofNat_add,
      show 1 + (txUsed p - 1) = txUsed p by omega]
    exact txHead_eq p
  have hrest : txUsed { p with txTail := p.txTail + 1 } = txUsed p - 1 := by
    rw [txUsed_eq_offset]
    change SerialNumbers.offset (p.txTail + 1) p.txHead = _
    rw [hhead, SerialNumbers.offset_start_add (by omega)]
  omega

theorem unread_cons (h : p.txHead ≠ p.txTail) :
    unread p = p.tx (p.txTail.toNat % pppTxRing) :: unread { p with txTail := p.txTail + 1 } := by
  rw [unread, txUsed_succ h, held_cons]
  rfl

theorem unread_of_eq (h : p.txHead = p.txTail) : unread p = [] := by
  simp [unread, txUsed, h]

/-! ### Traffic -/

/-- A link, the frames it has counted in `frames_out`, how many it was handed, and the octets read
from it. -/
structure Traffic where
  link : Link
  queued : List (List Byte) := []
  offered : Nat := 0
  read : List Byte := []

/-- What the two sides of the ring do. -/
inductive TxOp
  | frame (proto : BitVec 16) (info : List Byte)
  | output (cap : Nat)
  | outputByte

/-- A step of the traffic. A frame is counted if `frames_out` has moved. -/
def step : TxOp → Traffic → Traffic
  | .frame proto info, t =>
    let link := txFrame t.link proto info
    let enc := pppFrame proto info t.link.txAccm (2 * pppMaxFrame + 2)
    { t with
      link := link
      queued :=
        if link.stats.framesOut = t.link.stats.framesOut then t.queued
        else t.queued ++ enc.toList
      offered := t.offered + 1 }
  | .output cap, t =>
    let r := pppOutput t.link cap
    { t with link := r.2, read := t.read ++ r.1 }
  | .outputByte, t =>
    let r := pppOutputByte t.link
    { t with link := r.2, read := t.read ++ r.1.toList }

/-- The traffic before anything was sent. -/
def start (cfg : Config) : Traffic where
  link := (pppInit cfg).toLink

/-- Behind the unread octets, `n` more would lie across the wrap of the counters, and there are
more of them together than the counters and the ring agree on there. -/
def Crosses (p : Link) (n : Nat) : Prop :=
  2 ^ 32 < p.txTail.toNat + (txUsed p + n) ∧ 41408 < txUsed p + n

/-- A step that does not queue a frame that crosses. -/
def Clear (t : Traffic) : TxOp → Prop
  | .frame proto info => ∀ enc,
      pppFrame proto info t.link.txAccm (2 * pppMaxFrame + 2) = some enc →
      txUsed t.link + enc.length ≤ pppTxRing → ¬ Crosses t.link enc.length
  | _ => True

theorem fits_iff_not_crosses {n : Nat} (h : txUsed p + n ≤ pppTxRing) :
    Fits pppTxRing p.txTail (txUsed p + n) ↔ ¬ Crosses p n := by
  have hdvd : ¬ pppTxRing ∣ 2 ^ 32 := by decide
  have hmod : 2 ^ 32 % pppTxRing = 41408 := by decide
  simp only [Fits, Crosses, h, hdvd, hmod, true_and, false_or, not_and_or, Nat.not_lt]

/-! ### What holds along a run -/

/-- What was read and what is unread are the frames that were counted; what is unread lies on
cells of its own; and a frame that was handed over and not counted was counted as an overflow. -/
structure Kept (t : Traffic) : Prop where
  stream : t.read ++ unread t.link = t.queued.flatten
  fits : Fits pppTxRing t.link.txTail (txUsed t.link)
  counted : t.queued.length = t.link.stats.framesOut
  offered : t.offered = t.link.stats.framesOut + t.link.stats.txOverflows

theorem kept_start (cfg : Config) : Kept (start cfg) where
  stream := unread_of_eq rfl
  fits := by
    have hnone : txUsed (start cfg).link = 0 := SerialNumbers.offset_self _
    rw [hnone]
    exact fits_of_le_offset (Nat.zero_le _) (Nat.zero_le _)
  counted := rfl
  offered := rfl

/-- A frame is queued whole behind what is unread, or refused. -/
theorem Kept.frame {t : Traffic} (h : Kept t) (proto : BitVec 16) (info : List Byte)
    (hclear : Clear t (.frame proto info)) : Kept (step (.frame proto info) t) := by
  have hused : txUsed t.link ≤ pppTxRing := h.fits.1
  by_cases hfree : ∃ enc, pppFrame proto info t.link.txAccm (2 * pppMaxFrame + 2) = some enc ∧
      enc.length ≤ txFree t.link
  case neg =>
    have hrefused := txFrame_refused fun enc henc =>
      Nat.lt_of_not_le fun hle => hfree ⟨enc, henc, hle⟩
    refine ⟨?_, ?_, ?_, ?_⟩ <;> simp only [step, hrefused, if_true]
    · exact h.stream
    · exact h.fits
    · exact h.counted
    · rw [h.offered]
      omega
  case pos =>
    obtain ⟨enc, henc, hle⟩ := hfree
    rw [txFree_of_le hused] at hle
    have htotal : txUsed t.link + enc.length ≤ pppTxRing := by omega
    have hfits := (fits_iff_not_crosses htotal).2 (hclear enc henc htotal)
    have hqueued := txFrame_queued henc (by rwa [txFree_of_le hused])
    have hmoved : (enqueue t.link (proto, info) enc).stats.framesOut ≠ t.link.stats.framesOut :=
      Nat.succ_ne_self _
    refine ⟨?_, ?_, ?_, ?_⟩ <;>
      simp only [step, hqueued, henc, if_neg hmoved, Option.toList_some]
    · rw [unread_enqueue hfits, List.flatten_append, List.flatten_singleton, ← h.stream,
        List.append_assoc]
    · rw [txUsed_enqueue htotal]
      exact hfits
    · rw [List.length_append, h.counted]
      rfl
    · rw [h.offered]
      change _ = t.link.stats.framesOut + 1 + t.link.stats.txOverflows
      omega

/-- What reading octets from a link does, as a whole. -/
theorem Kept.output {t : Traffic} (h : Kept t) (cap : Nat) :
    Kept { t with link := (pppOutput t.link cap).2, read := t.read ++ (pppOutput t.link cap).1 } := by
  induction cap generalizing t with
  | zero => simpa [pppOutput] using h
  | succ cap ih =>
    by_cases hempty : t.link.txHead = t.link.txTail
    · simpa [pppOutput, pppOutputByte, hempty] using h
    · have hnext : Kept { t with
          link := { t.link with txTail := t.link.txTail + 1 }
          read := t.read ++ [t.link.tx (t.link.txTail.toNat % pppTxRing)] } := by
        refine ⟨?_, ?_, h.counted, h.offered⟩
        · rw [← h.stream, unread_cons hempty, List.append_assoc]
          rfl
        · have hfits := h.fits
          rw [txUsed_succ hempty] at hfits
          exact hfits.tail
      have hrest := ih hnext
      simpa [pppOutput, pppOutputByte, hempty] using hrest

/-- Every step of the traffic keeps it in order, as long as no frame crosses. -/
theorem Kept.step {t : Traffic} (h : Kept t) (op : TxOp) (hclear : Clear t op) :
    Kept (step op t) := by
  cases op with
  | frame proto info => exact h.frame proto info hclear
  | output cap => exact h.output cap
  | outputByte =>
    have hone := h.output 1
    unfold Ppp.step
    by_cases hempty : t.link.txHead = t.link.txTail
    · simpa [pppOutput, pppOutputByte, hempty] using hone
    · simpa [pppOutput, pppOutputByte, hempty] using hone

/-- In a run in which no frame crosses `2 ^ 32`, what has been read of the ring is a prefix of the
frames that were counted, in order, and with what is unread it is all of them; a frame is counted
once it is in the ring, and each frame that was offered is counted as sent or as lost to a full
ring. For the next frame that fits, the condition is exact: it falls on an octet that is still
unread exactly if it crosses. -/
theorem transmit_ring_delivers (cfg : Config) (t : Traffic)
    (run : Run step Clear (start cfg) t) :
    t.read <+: t.queued.flatten ∧
    t.read ++ unread t.link = t.queued.flatten ∧
    t.queued.length = t.link.stats.framesOut ∧
    t.offered = t.link.stats.framesOut + t.link.stats.txOverflows ∧
    ∀ proto info enc, pppFrame proto info t.link.txAccm (2 * pppMaxFrame + 2) = some enc →
      txUsed t.link + enc.length ≤ pppTxRing →
      ((∀ i < txUsed t.link, ∀ j < enc.length,
          slot pppTxRing t.link.txTail i ≠ slot pppTxRing t.link.txHead j) ↔
        ¬ Crosses t.link enc.length) := by
  have h : Kept t := run.keeps (fun t op hclear ht => Kept.step ht op hclear) (kept_start cfg)
  refine ⟨⟨_, h.stream⟩, h.stream, h.counted, h.offered, fun proto info enc henc htotal => ?_⟩
  have hshort : enc.length ≤ 2 ^ 32 % pppTxRing :=
    (pppFrame_length henc).2.trans (by decide)
  have hself : Fits pppTxRing t.link.txHead enc.length :=
    fits_of_le_offset hshort (by omega)
  rw [txHead_eq] at hself
  rw [← fits_iff_not_crosses htotal, ← not_iff_not,
    ← overwrites_iff h.fits hself htotal ring_le, txHead_eq t.link]
  push Not
  rfl

/-! ### Frames that cross -/

/-- Reading as many octets as there are leaves none. -/
theorem pppOutput_all {n : Nat} (h : txUsed p = n) :
    pppOutput p n = (unread p, { p with txTail := p.txHead }) := by
  induction n generalizing p with
  | zero =>
    have hempty : p.txHead = p.txTail := SerialNumbers.offset_eq_zero.1 h
    rw [pppOutput, unread_of_eq hempty]
    exact congrArg (fun c => (([] : List Byte), { p with txTail := c })) hempty.symm
  | succ n ih =>
    have hne : p.txHead ≠ p.txTail := by
      intro hempty
      rw [txUsed, hempty] at h
      simp at h
    have hrest : txUsed { p with txTail := p.txTail + 1 } = n := by
      rw [txUsed_succ hne] at h
      omega
    rw [pppOutput, pppOutputByte, if_neg hne, unread_cons hne]
    dsimp only
    rw [ih hrest]

/-- The octets of a Terminate-Ack. -/
def termAck : List Byte :=
  [0x7e, 0xff, 0x7d, 0x23, 0xc0, 0x21, 0x7d, 0x26, 0x7d, 0x21, 0x7d, 0x20, 0x7d, 0x24, 0xf0, 0xe2,
    0x7e]

/-- The octets of `n` of them. -/
def termAcks (n : Nat) : List Byte := (List.replicate n termAck).flatten

theorem termAcks_succ (n : Nat) : termAcks (n + 1) = termAcks n ++ termAck := by
  rw [termAcks, List.replicate_succ', List.flatten_append, List.flatten_singleton]
  rfl

@[simp]
theorem length_termAcks (n : Nat) : (termAcks n).length = 17 * n := by
  induction n with
  | zero => rfl
  | succ n ih =>
    rw [termAcks_succ, List.length_append, ih, Nat.mul_succ]
    rfl

theorem getElem?_termAcks (n : Nat) : (termAcks (n + 1))[17 * n + 13]? = some 0x24 := by
  rw [termAcks_succ, List.getElem?_append_right (by simp), length_termAcks,
    Nat.add_sub_cancel_left]
  rfl

/-- What is framed for a Terminate-Ack. -/
def termAckFrame : BitVec 16 × List Byte := (pppProtoLcp, cpOctets pppTermAck 1 [])

/-- What queues a Terminate-Ack. -/
def sendTermAck : TxOp := .frame pppProtoLcp (cpOctets pppTermAck 1 [])

theorem pppFrame_termAck :
    pppFrame pppProtoLcp (cpOctets pppTermAck 1 []) 0xffffffff (2 * pppMaxFrame + 2) =
      some termAck := by
  decide +kernel

/-- A Terminate-Ack is queued where there is room. -/
theorem step_sendTermAck {t : Traffic} (haccm : t.link.txAccm = 0xffffffff)
    (h : txUsed t.link + 17 ≤ pppTxRing) :
    step sendTermAck t =
      { t with
        link := enqueue t.link termAckFrame termAck
        queued := t.queued ++ [termAck]
        offered := t.offered + 1 } := by
  have henc : pppFrame pppProtoLcp (cpOctets pppTermAck 1 []) t.link.txAccm
      (2 * pppMaxFrame + 2) = some termAck := by
    rw [haccm]
    exact pppFrame_termAck
  have hlen : termAck.length = 17 := rfl
  have hqueued : txFrame t.link pppProtoLcp (cpOctets pppTermAck 1 []) =
      enqueue t.link termAckFrame termAck := txFrame_queued henc (by rw [txFree_of_le] <;> omega)
  have hmoved : (enqueue t.link termAckFrame termAck).stats.framesOut ≠ t.link.stats.framesOut :=
    Nat.succ_ne_self _
  simp only [step, sendTermAck, hqueued, henc, if_neg hmoved, Option.toList_some]

/-- One Terminate-Ack, and one octet of it read. -/
theorem transmit_ring_delivers_ack :
    let t := step .outputByte (step sendTermAck (start pppConfigDefault))
    t.read <+: t.queued.flatten ∧ t.read ++ unread t.link = t.queued.flatten := by
  have hclear : Clear (start pppConfigDefault) sendTermAck := by
    rintro enc henc - ⟨hwrap, -⟩
    have hlen : enc.length ≤ 2 * pppMaxFrame + 2 := (pppFrame_length henc).2
    have hnone : txUsed (start pppConfigDefault).link = 0 := rfl
    have htail : (start pppConfigDefault).link.txTail.toNat = 0 := rfl
    rw [hnone, htail] at hwrap
    simp only [pppMaxFrame, pppMruDefault] at hlen
    omega
  have h := transmit_ring_delivers pppConfigDefault _
    (.next TxOp.outputByte (.next sendTermAck .start hclear) trivial)
  exact ⟨h.1, h.2.1⟩

/-- Traffic in which each of `k` Terminate-Acks was read before the next. -/
theorem exists_cycles (cfg : Config) (k : Nat) :
    ∃ t, Run step (fun _ _ => True) (start cfg) t ∧ t.link.txAccm = 0xffffffff ∧
      t.link.txHead = t.link.txTail ∧ t.link.txTail = BitVec.ofNat 32 (17 * k) ∧
      t.read = termAcks k ∧ t.queued = List.replicate k termAck := by
  induction k with
  | zero => exact ⟨start cfg, .start, rfl, rfl, rfl, rfl, rfl⟩
  | succ k ih =>
    obtain ⟨t, run, haccm, hempty, htail, hread, hqueued⟩ := ih
    have hnone : txUsed t.link = 0 := by rw [txUsed_eq_offset, hempty, SerialNumbers.offset_self]
    have hroom : txUsed t.link + 17 ≤ pppTxRing := by
      rw [hnone]
      decide
    have hsent := step_sendTermAck haccm hroom
    have hused : txUsed (enqueue t.link termAckFrame termAck) = 17 := by
      rw [txUsed_enqueue hroom, hnone]
      rfl
    have hunread : unread (enqueue t.link termAckFrame termAck) = termAck := by
      rw [unread_enqueue, unread_of_eq hempty, List.nil_append]
      exact fits_of_le_offset (by rw [hnone]; decide) hroom
    have hnext : BitVec.ofNat 32 (17 * k) + BitVec.ofNat 32 17 = BitVec.ofNat 32 (17 * (k + 1)) := by
      rw [← BitVec.ofNat_add, Nat.mul_succ]
    have hcycle : step (.output 17) (step sendTermAck t) =
        { link := { enqueue t.link termAckFrame termAck with txTail := (enqueue t.link termAckFrame termAck).txHead }
          queued := t.queued ++ [termAck]
          offered := t.offered + 1
          read := t.read ++ termAck } := by
      rw [hsent]
      simp only [step, pppOutput_all hused, hunread]
    refine ⟨_, .next (.output 17) (.next sendTermAck run trivial) trivial, ?_⟩
    rw [hcycle]
    refine ⟨haccm, rfl, ?_, ?_, ?_⟩
    · change t.link.txHead + BitVec.ofNat 32 17 = _
      rw [hempty, htail, hnext]
    · rw [hread, termAcks_succ]
    · rw [hqueued, List.replicate_succ']

/-- Traffic that goes on with `n` Terminate-Acks that nobody reads. -/
theorem exists_burst {s t : Traffic} (run : Run step (fun _ _ => True) s t) (n : Nat)
    (haccm : t.link.txAccm = 0xffffffff) (hempty : t.link.txHead = t.link.txTail)
    (hn : 17 * n ≤ pppTxRing) :
    ∃ u, Run step (fun _ _ => True) s u ∧ u.link.txAccm = 0xffffffff ∧
      u.link.txHead = t.link.txTail + BitVec.ofNat 32 (17 * n) ∧
      u.link.txTail = t.link.txTail ∧
      u.link.tx = put pppTxRing t.link.tx t.link.txTail (termAcks n) ∧
      u.read = t.read ∧ u.queued = t.queued ++ List.replicate n termAck := by
  induction n with
  | zero => exact ⟨t, run, haccm, by simpa using hempty, rfl, rfl, rfl, by simp⟩
  | succ n ih =>
    obtain ⟨u, run', haccm', hhead, htail, htx, hread, hqueued⟩ := ih (by omega)
    have hring : pppTxRing < 2 ^ 32 := by decide
    have hused : txUsed u.link = 17 * n := by
      rw [txUsed_eq_offset, hhead, htail, SerialNumbers.offset_start_add (by omega)]
    refine ⟨_, .next sendTermAck run' trivial, ?_⟩
    rw [step_sendTermAck haccm' (by rw [hused]; omega)]
    refine ⟨haccm', ?_, htail, ?_, hread, ?_⟩
    · change u.link.txHead + BitVec.ofNat 32 17 = _
      rw [hhead, BitVec.add_assoc, ← BitVec.ofNat_add, Nat.mul_succ]
    · change put pppTxRing u.link.tx u.link.txHead termAck = _
      rw [htx, hhead, termAcks_succ, put_append, length_termAcks]
    · rw [hqueued, List.replicate_succ', List.append_assoc]

/-- After `2 ^ 32 - 1` octets that were read, 2436 frames that are not: the first octet read next
is not the flag of the first of them, on whose cell the last one has put another octet. -/
theorem transmit_ring_overwrites :
    ¬ ∀ t, Run step (fun _ _ => True) (start pppConfigDefault) t → t.read <+: t.queued.flatten := by
  intro hall
  obtain ⟨t, run, haccm, hempty, htail, hread, hqueued⟩ := exists_cycles pppConfigDefault 252645135
  obtain ⟨u, run', -, hhead', htail', htx', hread', hqueued'⟩ :=
    exists_burst run 2436 haccm hempty (by decide)
  have hc : t.link.txTail = 0xffffffff := by
    rw [htail]
    rfl
  have hread0 : t.read = t.queued.flatten := by
    rw [hread, hqueued]
    rfl
  -- the octet at offset 41408 falls on the cell of the octet at offset 0, and is the last to do so
  have hsame : slot pppTxRing (0xffffffff : Word) 0 = slot pppTxRing (0xffffffff : Word) 41408 := by
    decide
  have hlast : ∀ j, 41408 < j → j < (termAcks 2436).length →
      slot pppTxRing t.link.txTail j ≠ slot pppTxRing t.link.txTail 41408 := by
    intro j hj hlen
    rw [length_termAcks] at hlen
    rw [hc]
    obtain rfl | rfl | rfl : j = 41409 ∨ j = 41410 ∨ j = 41411 := by omega
    all_goals decide
  have hbyte : u.link.tx (u.link.txTail.toNat % pppTxRing) = 0x24 := by
    have hput := put_slot t.link.tx (termAcks 2436) (by simp) hlast
    rw [htail', htx', ← slot_zero, hc, hsame, ← hc, hput]
    exact (List.getElem_eq_iff _).2 (getElem?_termAcks 2435)
  have hne : u.link.txHead ≠ u.link.txTail := by
    rw [hhead', htail', hc]
    decide
  have hprefix := hall _ (.next .outputByte run' trivial)
  simp only [step, pppOutputByte, if_neg hne, hbyte, Option.toList_some, hread', hread0, hqueued',
    List.flatten_append, List.prefix_append_right_inj] at hprefix
  rw [List.replicate_succ, List.flatten_cons, termAck, List.cons_append,
    List.cons_prefix_cons] at hprefix
  exact absurd hprefix.1 (by decide)

end S5LBox.Ppp
