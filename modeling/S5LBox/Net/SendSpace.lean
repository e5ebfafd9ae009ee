import S5LBox.Net.Steps

/-!
# The send cursors

The three cursors of a flow, `snd_una`, `snd_nxt` and `snd_max`, are sequence numbers and wrap.
They stay within a window that starts at `snd_una` and holds the send buffer and at most one SYN
or FIN, far less than half of the sequence space. So each of them is known by its offset from
`snd_una`, and the comparisons of the code are comparisons of offsets.

## Main definitions

* `Flow.nxtOff`, `Flow.maxOff`: the offsets of the cursors.
* `Flow.ctl`: is a SYN or FIN of ours emitted and not acknowledged?
* `SendSpace`: the invariant of the cursors.

## Main results

* `sendSpace_invariant`: it holds in every run.
* `tcpConsumeAck_eq`: which acknowledgements move anything.
-/

namespace S5LBox.Net

open SerialNumbers

variable {f f' : Flow}

/-! ### Offsets -/

/-- How far the send cursor is past `snd_una`. -/
def Flow.nxtOff (f : Flow) : Nat := offset f.sndUna f.sndNxt

/-- How far the right edge of what has been emitted is past `snd_una`. -/
def Flow.maxOff (f : Flow) : Nat := offset f.sndUna f.sndMax

/-- How far an acknowledgement reaches past `snd_una`. -/
def Flow.ackOff (f : Flow) (ack : Word) : Nat := offset f.sndUna ack

namespace Emission

/-- The segment carries a SYN. -/
def isSyn (e : Emission) : Bool := hasFlag (segFlags e.seg) tcpSyn

/-- The segment carries a FIN. -/
def isFin (e : Emission) : Bool := hasFlag (segFlags e.seg) tcpFin

end Emission

/-- A SYN of ours has been emitted and not acknowledged. -/
def Flow.synOut (f : Flow) : Bool := f.state == .synRcvd && f.history.emitted.any Emission.isSyn

/-- A FIN of ours has been emitted and not acknowledged. -/
def Flow.finOut (f : Flow) : Bool :=
  decide f.state.finOut && f.history.emitted.any Emission.isFin

/-- The sequence numbers that a SYN or a FIN of ours occupies beside the data. -/
def Flow.ctl (f : Flow) : Nat := if f.synOut || f.finOut then 1 else 0

/-! ### The sequence space of a segment -/

/-- How much sequence space a segment occupies. -/
def spaceOf (flags : Byte) (data : List Byte) : Nat :=
  data.length + (if hasFlag flags tcpSyn then 1 else 0) + (if hasFlag flags tcpFin then 1 else 0)

theorem endSeq_eq (flags : Byte) (seq : Word) (data : List Byte) :
    endSeq flags seq data = seq + BitVec.ofNat 32 (spaceOf flags data) := by
  have hbit : ∀ b : Bool, (if b then (1 : Word) else 0) = BitVec.ofNat 32 (if b then 1 else 0) := by
    intro b
    cases b <;> rfl
  rw [endSeq, spaceOf, hbit, hbit, BitVec.ofNat_add, BitVec.ofNat_add]
  simp only [BitVec.add_assoc]

theorem occupies_eq (flags : Byte) (data : List Byte) :
    occupies flags data = decide (0 < spaceOf flags data) := by
  rw [occupies, spaceOf]
  cases data <;> cases hasFlag flags tcpSyn <;> cases hasFlag flags tcpFin <;> simp

theorem netSeqLt_eq {o a b : Word} (ha : offset o a < 2 ^ 31) (hb : offset o b < 2 ^ 31) :
    netSeqLt a b = decide (offset o a < offset o b) := by
  rw [netSeqLt, decide_eq_decide]
  exact before_iff_offset_lt (by omega) (by omega)

/-- An emitted segment carries the right edge to its end. -/
theorem emit_maxOff {flags : Byte} {seq : Word} {data d : List Byte} {k : Nat}
    (hseq : seq = f.sndUna + BitVec.ofNat 32 k) (hk : k + spaceOf flags data < 2 ^ 31)
    (hmax : f.maxOff < 2 ^ 31) :
    (f.emit flags seq data d).maxOff =
      if 0 < spaceOf flags data then max f.maxOff (k + spaceOf flags data) else f.maxOff := by
  have hend : offset f.sndUna (endSeq flags seq data) = k + spaceOf flags data := by
    rw [endSeq_eq, hseq, BitVec.add_assoc, ← BitVec.ofNat_add]
    exact offset_start_add (by omega)
  have hlt : netSeqLt f.sndMax (endSeq flags seq data) =
      decide (f.maxOff < k + spaceOf flags data) := by
    have h := netSeqLt_eq (o := f.sndUna) (a := f.sndMax) (b := endSeq flags seq data) hmax
      (by omega)
    rw [h, hend]
    rfl
  show offset f.sndUna (if occupies flags data && netSeqLt f.sndMax (endSeq flags seq data) then _
    else _) = _
  rw [occupies_eq, hlt]
  by_cases hspace : 0 < spaceOf flags data
  · rw [if_pos hspace]
    by_cases hgrow : f.maxOff < k + spaceOf flags data
    · rw [if_pos (by simp [hspace, hgrow]), hend]
      omega
    · rw [if_neg (by simp [hgrow])]
      show f.maxOff = _
      omega
  · rw [if_neg hspace, if_neg (by simp [hspace])]
    rfl

/-- A segment without sequence space leaves the right edge where it is. -/
theorem emit_bare_sndMax {flags : Byte} (hbare : Bare flags) (seq : Word) (d : List Byte) :
    (f.emit flags seq [] d).sndMax = f.sndMax := by
  have hno : occupies flags [] = false := by
    rw [occupies, hbare.1, hbare.2]
    rfl
  show (if occupies flags [] && _ then _ else _) = _
  rw [hno, Bool.false_and, if_neg Bool.false_ne_true]

/-! ### The invariant -/

/-- Where the right edge `m` of what has been emitted may be beside a buffer of `tx` octets, in
each state of the connection: nothing but the SYN is sent before the handshake, and nothing is
left when the FIN has been acknowledged. -/
def PhaseOk (s : TcpState) (start finSent eof syn fin : Prop) (m tx : Nat) : Prop :=
  match s with
  | .synRcvd => start ∧ ¬finSent ∧ ¬fin ∧ m ≤ 1 ∧ (0 < m → syn)
  | .established | .closeWait => ¬finSent ∧ ¬fin ∧ m ≤ tx
  | .finWait1 | .closing | .lastAck => finSent ∧ eof ∧ m ≤ tx + 1 ∧ (tx < m ↔ fin)
  | .finWait2 | .timeWait | .closed => finSent ∧ eof ∧ tx = 0 ∧ m = 0

/-- The send side of a flow is in order. -/
structure SendSpace (f : Flow) : Prop where
  mss_ge : 64 ≤ f.mss
  mss_le : f.mss ≤ netTcpMssMax
  cwnd_pos : 1 ≤ f.cwnd
  txlen_le : f.txlen ≤ netTcpTxbuf
  nxt_le : f.nxtOff ≤ f.maxOff
  phase : PhaseOk f.state (f.sndUna = f.history.iss) (f.finSent = true) (f.hostEof = true)
    (f.history.emitted.any Emission.isSyn = true) (f.history.emitted.any Emission.isFin = true)
    f.maxOff f.txlen

section Phase

variable {s : TcpState} {start start' finSent eof eof' syn syn' fin fin' : Prop} {m m' tx tx' : Nat}

theorem PhaseOk.mono (h : PhaseOk s start finSent eof syn fin m tx) (hstart : start → start')
    (heof : eof → eof') (hsyn : syn → syn') (hfin : fin ↔ fin') :
    PhaseOk s start' finSent eof' syn' fin' m tx := by
  cases s with
  | synRcvd =>
    obtain ⟨hst, hfs, hf, hle, hs⟩ := h
    exact ⟨hstart hst, hfs, fun hf' => hf (hfin.mpr hf'), hle, fun hpos => hsyn (hs hpos)⟩
  | established | closeWait => exact ⟨h.1, fun hf' => h.2.1 (hfin.mpr hf'), h.2.2⟩
  | finWait1 | closing | lastAck => exact ⟨h.1, heof h.2.1, h.2.2.1, h.2.2.2.trans hfin⟩
  | finWait2 | timeWait | closed => exact ⟨h.1, heof h.2.1, h.2.2⟩

/-- The right edge moves to the end `k` of a segment, which carries the FIN, or stays within the
buffer, or carries the SYN. -/
theorem PhaseOk.edge (h : PhaseOk s start finSent eof syn fin m tx) {k : Nat} (hge : m ≤ m')
    (hm : m' ≤ max m k) (hone : s = .synRcvd → k ≤ 1 ∧ syn')
    (hroom : (fin' ↔ fin) ∧ (k ≤ tx ∨ s = .synRcvd) ∨
      fin' ∧ s.finOut ∧ k = tx + 1 ∧ k ≤ m') :
    PhaseOk s start finSent eof syn' fin' m' tx := by
  cases s with
  | synRcvd =>
    obtain ⟨hst, hfs, hf, hle, -⟩ := h
    obtain ⟨hk, hs⟩ := hone rfl
    rcases hroom with ⟨hfin, -⟩ | ⟨-, hout, -⟩
    · exact ⟨hst, hfs, fun hf' => hf (hfin.mp hf'), le_trans hm (max_le hle hk), fun _ => hs⟩
    · exact absurd hout (by decide)
  | established | closeWait =>
    obtain ⟨hfs, hf, hle⟩ := h
    rcases hroom with ⟨hfin, hroom | hs⟩ | ⟨-, hout, -⟩
    · exact ⟨hfs, fun hf' => hf (hfin.mp hf'), le_trans hm (max_le hle hroom)⟩
    · cases hs
    · exact absurd hout (by decide)
  | finWait1 | closing | lastAck =>
    obtain ⟨hfs, he, hle, hedge⟩ := h
    rcases hroom with ⟨hfin, hroom | hs⟩ | ⟨hf', -, hk, hkm⟩
    · exact ⟨hfs, he, by omega, by rw [hfin, ← hedge]; omega⟩
    · cases hs
    · exact ⟨hfs, he, by omega, ⟨fun _ => hf', fun _ => by omega⟩⟩
  | finWait2 | timeWait | closed =>
    obtain ⟨hfs, he, htx, h0⟩ := h
    rcases hroom with ⟨-, hroom | hs⟩ | ⟨-, hout, -⟩
    · exact ⟨hfs, he, htx, by omega⟩
    · cases hs
    · exact absurd hout (by decide)

/-- The buffer grows, as long as the host has not ended its stream. -/
theorem PhaseOk.grow (h : PhaseOk s start finSent eof syn fin m tx) (heof : ¬eof)
    (htx : tx ≤ tx') : PhaseOk s start finSent eof syn fin m tx' := by
  cases s with
  | synRcvd => exact h
  | established | closeWait => exact ⟨h.1, h.2.1, le_trans h.2.2 htx⟩
  | finWait1 | closing | lastAck | finWait2 | timeWait | closed => exact absurd h.2.1 heof

/-- The right edge is at most one past the buffer, and only for a SYN or a FIN. -/
theorem PhaseOk.le (h : PhaseOk s start finSent eof syn fin m tx) :
    m ≤ tx ∨ m = tx + 1 ∧ (s = .synRcvd ∧ syn ∨ s.finOut ∧ fin) := by
  cases s with
  | synRcvd =>
    obtain ⟨-, -, -, hle, hs⟩ := h
    rcases Nat.lt_or_ge tx m with hlt | hge
    · exact .inr ⟨by omega, .inl ⟨rfl, hs (by omega)⟩⟩
    · exact .inl hge
  | established | closeWait => exact .inl h.2.2
  | finWait1 | closing | lastAck =>
    obtain ⟨-, -, hle, hf⟩ := h
    rcases Nat.lt_or_ge tx m with hlt | hge
    · exact .inr ⟨by omega, .inr ⟨by decide, hf.mp hlt⟩⟩
    · exact .inl hge
  | finWait2 | timeWait | closed => exact .inl (by rw [h.2.2.2]; exact Nat.zero_le _)

end Phase

/-- The right edge is past the buffer only as long as a SYN or a FIN is outstanding. -/
theorem SendSpace.maxOff_le_ctl (h : SendSpace f) : f.maxOff ≤ f.txlen + f.ctl := by
  rw [Flow.ctl]
  rcases h.phase.le with hle | ⟨heq, ⟨hs, hsyn⟩ | ⟨hs, hfin⟩⟩
  · omega
  · have hout : f.synOut = true := by rw [Flow.synOut, hs, hsyn]; rfl
    rw [hout, Bool.true_or, if_pos rfl, heq]
  · have hout : f.finOut = true := by rw [Flow.finOut, hfin, Bool.and_true, decide_eq_true hs]
    rw [hout, Bool.or_true, if_pos rfl, heq]

theorem Flow.ctl_le (f : Flow) : f.ctl ≤ 1 := by
  rw [Flow.ctl]
  split <;> omega

theorem SendSpace.maxOff_le (h : SendSpace f) : f.maxOff ≤ f.txlen + 1 :=
  h.maxOff_le_ctl.trans (Nat.add_le_add_left f.ctl_le _)

theorem SendSpace.maxOff_lt (h : SendSpace f) : f.maxOff < 2 ^ 31 := by
  have hmax := h.maxOff_le
  have htx := h.txlen_le
  rw [netTcpTxbuf] at htx
  omega

/-! ### Congestion window -/

theorem tcpCwndCeiling_pos (h : 64 ≤ f.mss) : 1 ≤ tcpCwndCeiling f := by
  rw [tcpCwndCeiling]
  have hseg : 1 ≤ min (if f.cwndLimit = 0 then netTcpCwndMaxSegments else f.cwndLimit)
      netOutSlots := by
    have hslots : 1 ≤ netOutSlots := by decide
    split
    · exact Nat.le_min.mpr ⟨by decide, hslots⟩
    · omega
  have hmul := Nat.mul_le_mul hseg h
  have htx : 1 ≤ netTcpTxbuf := by decide
  omega

theorem tcpCwndAck_pos (n : Nat) (hmss : 64 ≤ f.mss) (hcwnd : 1 ≤ f.cwnd) :
    1 ≤ tcpCwndAck n f := by
  have hceil := tcpCwndCeiling_pos hmss
  rw [tcpCwndAck]
  dsimp only
  split_ifs <;> omega

/-! ### Moves -/

theorem spaceOf_data (data : List Byte) : spaceOf (tcpAck ||| tcpPsh) data = data.length := rfl

theorem spaceOf_probe (data : List Byte) : spaceOf tcpAck data = data.length := rfl

theorem spaceOf_syn : spaceOf (tcpSyn ||| tcpAck) [] = 1 := rfl

theorem spaceOf_fin : spaceOf (tcpAck ||| tcpFin) [] = 1 := rfl

/-- A change that keeps the cursors, the buffer and what decides their bounds. -/
theorem SendSpace.of_same (h : SendSpace f) (hstate : f'.state = f.state)
    (huna : f'.sndUna = f.sndUna) (hnxt : f'.sndNxt = f.sndNxt) (hmax : f'.sndMax = f.sndMax)
    (hmss : f'.mss = f.mss) (hcwnd : f'.cwnd = f.cwnd) (htx : f'.txbuf = f.txbuf)
    (hfin : f'.finSent = f.finSent) (heof : f.hostEof = true → f'.hostEof = true)
    (hiss : f'.history.iss = f.history.iss)
    (hemitted : ∃ es, f'.history.emitted = f.history.emitted ++ es ∧ es.any Emission.isFin = false) :
    SendSpace f' := by
  have hoff : f'.maxOff = f.maxOff := by rw [Flow.maxOff, huna, hmax, Flow.maxOff]
  have hnoff : f'.nxtOff = f.nxtOff := by rw [Flow.nxtOff, huna, hnxt, Flow.nxtOff]
  have hlen : f'.txlen = f.txlen := by rw [Flow.txlen, htx, Flow.txlen]
  obtain ⟨es, hes, hno⟩ := hemitted
  have hsyn : f.history.emitted.any Emission.isSyn = true →
      f'.history.emitted.any Emission.isSyn = true := by
    intro hp
    rw [hes, List.any_append, hp, Bool.true_or]
  have hfins : f'.history.emitted.any Emission.isFin = f.history.emitted.any Emission.isFin := by
    rw [hes, List.any_append, hno, Bool.or_false]
  refine ⟨hmss ▸ h.mss_ge, hmss ▸ h.mss_le, hcwnd ▸ h.cwnd_pos, hlen ▸ h.txlen_le,
    by rw [hnoff, hoff]; exact h.nxt_le, ?_⟩
  rw [hstate, huna, hfin, hoff, hlen, hiss]
  exact h.phase.mono id heof hsyn (by rw [hfins])

theorem emitted_same (f : Flow) : ∃ es, f.history.emitted = f.history.emitted ++ es ∧
    es.any Emission.isFin = false := ⟨[], (List.append_nil _).symm, rfl⟩

/-- A segment goes out at an offset from `snd_una`, and the send cursor moves no further than the
right edge. The segment carries the FIN behind all data, or it stays within the buffer, or it
carries the SYN. -/
theorem SendSpace.emit (h : SendSpace f) {flags : Byte} {seq nxt : Word} {data d : List Byte}
    {k : Nat} (hseq : seq = f.sndUna + BitVec.ofNat 32 k) (hd : IsSegment d flags seq data)
    (hsyn : f.state = .synRcvd → k + spaceOf flags data ≤ 1 ∧ hasFlag flags tcpSyn = true)
    (hroom : hasFlag flags tcpFin = false ∧ (k + spaceOf flags data ≤ f.txlen ∨ f.state = .synRcvd) ∨
      hasFlag flags tcpFin = true ∧ f.state.finOut ∧ k + spaceOf flags data = f.txlen + 1)
    (hnxt : offset f.sndUna nxt ≤
      if 0 < spaceOf flags data then max f.maxOff (k + spaceOf flags data) else f.maxOff) :
    SendSpace { f.emit flags seq data d with sndNxt := nxt } := by
  have htx : f.txlen ≤ 65536 := h.txlen_le
  have hk : k + spaceOf flags data < 2 ^ 31 := by
    rcases hroom with ⟨-, hroom | hs⟩ | ⟨-, -, hroom⟩
    · omega
    · have hone := (hsyn hs).1
      omega
    · omega
  have hedge := emit_maxOff (d := d) hseq hk h.maxOff_lt
  have hmax : Flow.maxOff { f.emit flags seq data d with sndNxt := nxt } =
      if 0 < spaceOf flags data then max f.maxOff (k + spaceOf flags data) else f.maxOff := hedge
  have hflags : segFlags (Emission.mk d f.history.received.length).seg = flags := hd.flags_eq
  have hlast : ∀ p : Emission → Bool,
      (f.history.emitted ++ [Emission.mk d f.history.received.length]).any p =
        (f.history.emitted.any p || p (Emission.mk d f.history.received.length)) := by
    intro p
    rw [List.any_append, List.any_cons, List.any_nil, Bool.or_false]
  have hisSyn : Emission.isSyn (Emission.mk d f.history.received.length) = hasFlag flags tcpSyn :=
    congrArg (hasFlag · tcpSyn) hflags
  have hisFin : Emission.isFin (Emission.mk d f.history.received.length) = hasFlag flags tcpFin :=
    congrArg (hasFlag · tcpFin) hflags
  have hsyn' := hlast Emission.isSyn
  have hfin' := hlast Emission.isFin
  rw [hisSyn] at hsyn'
  rw [hisFin] at hfin'
  refine ⟨h.mss_ge, h.mss_le, h.cwnd_pos, h.txlen_le, ?_, ?_⟩
  · rw [hmax]
    exact hnxt
  refine h.phase.edge (k := k + spaceOf flags data) ?_ ?_ (fun hs => ?_) ?_
  · rw [hmax]
    split <;> omega
  · rw [hmax]
    split <;> omega
  · obtain ⟨hone, hflag⟩ := hsyn hs
    exact ⟨hone, hsyn'.trans (by rw [hflag, Bool.or_true])⟩
  · rcases hroom with ⟨hno, hroom⟩ | ⟨hflag, hs, hroom⟩
    · have hsame := hfin'.trans (by rw [hno, Bool.or_false])
      exact .inl ⟨Iff.of_eq (congrArg (· = true) hsame), hroom⟩
    · refine .inr ⟨hfin'.trans (by rw [hflag, Bool.or_true]), hs, hroom, ?_⟩
      rw [hmax, if_pos]
      · omega
      · have hspace : (if hasFlag flags tcpFin = true then 1 else 0) = 1 := if_pos hflag
        rw [spaceOf, hspace]
        omega

theorem offset_at {una : Word} {k : Nat} (h : k < 2 ^ 32) :
    offset una (una + BitVec.ofNat 32 k) = k := offset_start_add h

/-- Every move keeps the send side in order. -/
theorem SendSpace.move (hmove : Move f f') (h : SendSpace f) : SendSpace f' := by
  have htx : f.txlen ≤ 65536 := h.txlen_le
  have hstart : f.sndUna = f.sndUna + BitVec.ofNat 32 0 := (BitVec.add_zero _).symm
  cases hmove with
  | quiet => exact h.of_same rfl rfl rfl rfl rfl rfl rfl rfl id rfl (emitted_same _)
  | bare flags seq d hbare hd =>
    refine h.of_same rfl rfl rfl (emit_bare_sndMax hbare seq d) rfl rfl rfl rfl id rfl
      ⟨[⟨d, f.history.received.length⟩], rfl, ?_⟩
    have hno : hasFlag (segFlags (d.drop ipv4HdrLen)) tcpFin = false := by
      rw [hd.flags_eq]
      exact hbare.2
    rw [List.any_cons, List.any_nil, Bool.or_false]
    exact hno
  | syn d hstate hnxt hd =>
    have hseq : f.sndNxt = f.sndUna + BitVec.ofNat 32 0 := hnxt.trans hstart
    refine h.emit hseq hd (fun _ => ⟨le_of_eq spaceOf_syn, rfl⟩) (.inl ⟨rfl, .inr hstate⟩) ?_
    have hone : offset f.sndUna (f.sndNxt + 1) = 1 := by
      rw [hnxt]
      exact offset_at (k := 1) (by omega)
    rw [hone, spaceOf_syn, if_pos (by omega)]
    omega
  | synAgain d hstate hnxt hd =>
    refine h.emit hstart hd (fun _ => ⟨le_of_eq spaceOf_syn, rfl⟩) (.inl ⟨rfl, .inr hstate⟩) ?_
    have hle := h.nxt_le
    rw [Flow.nxtOff] at hle
    show offset f.sndUna f.sndNxt ≤ _
    rw [spaceOf_syn, if_pos (by omega)]
    omega
  | data sent n d hstate hnxt hn hd =>
    have hlen : ((f.txbuf.drop sent).take n).length = n := by
      rw [List.length_take, List.length_drop]
      have htxlen : f.txlen = f.txbuf.length := rfl
      omega
    refine h.emit hnxt hd (fun hs => absurd hs hstate) (.inl ⟨rfl, .inl ?_⟩) ?_
    · rw [spaceOf_data, hlen]
      exact hn
    · have hoff : offset f.sndUna (f.sndNxt + BitVec.ofNat 32 n) = sent + n := by
        rw [hnxt, BitVec.add_assoc, ← BitVec.ofNat_add]
        exact offset_at (by omega)
      have hsent : f.nxtOff = sent := by
        rw [Flow.nxtOff, hnxt]
        exact offset_at (by omega)
      have hle := h.nxt_le
      rw [hoff, spaceOf_data, hlen]
      split <;> omega
  | probe d hstate hnxt htx0 hd =>
    have hlen : (f.txbuf.take 1).length = 1 := by
      rw [List.length_take]
      have htxlen : f.txlen = f.txbuf.length := rfl
      omega
    have hseq : f.sndNxt = f.sndUna + BitVec.ofNat 32 0 := hnxt.trans hstart
    refine h.emit hseq hd (fun hs => absurd hs hstate) (.inl ⟨rfl, .inl ?_⟩) ?_
    · rw [spaceOf_probe, hlen]
      omega
    · rw [hnxt, offset_self]
      exact Nat.zero_le _
  | markFin heof hfin hstate =>
    have hphase := h.phase
    refine ⟨h.mss_ge, h.mss_le, h.cwnd_pos, h.txlen_le, h.nxt_le, ?_⟩
    rcases hstate with hs | hs
    · rw [hs] at hphase
      show PhaseOk (if f.state = .closeWait then .lastAck else .finWait1) _ _ _ _ _ f.maxOff f.txlen
      rw [hs]
      exact ⟨rfl, heof, Nat.le_succ_of_le hphase.2.2,
        ⟨fun hlt => absurd hphase.2.2 (Nat.not_le.mpr hlt), fun hf => absurd hf hphase.2.1⟩⟩
    · rw [hs] at hphase
      show PhaseOk (if f.state = .closeWait then .lastAck else .finWait1) _ _ _ _ _ f.maxOff f.txlen
      rw [hs]
      exact ⟨rfl, heof, Nat.le_succ_of_le hphase.2.2,
        ⟨fun hlt => absurd hphase.2.2 (Nat.not_le.mpr hlt), fun hf => absurd hf hphase.2.1⟩⟩
  | fin d hfin hnxt hstate hd =>
    have hne : f.state ≠ .synRcvd := by
      rintro hs
      rw [hs] at hstate
      exact absurd hstate (by decide)
    refine h.emit hnxt hd (fun hs => absurd hs hne)
      (.inr ⟨rfl, hstate, congrArg (f.txlen + ·) spaceOf_fin⟩) ?_
    have hoff : offset f.sndUna (f.sndNxt + 1) = f.txlen + 1 := by
      rw [hnxt, show (1 : Word) = BitVec.ofNat 32 1 from rfl, BitVec.add_assoc, ← BitVec.ofNat_add]
      exact offset_at (by omega)
    rw [hoff, spaceOf_fin, if_pos (by omega)]
    omega
  | accept => exact h.of_same rfl rfl rfl rfl rfl rfl rfl rfl id rfl (emitted_same _)
  | receive data heof hlen =>
    have hgrow : Flow.txlen { f with
        txbuf := f.txbuf ++ data
        history := { f.history with received := f.history.received ++ data } } =
        f.txlen + data.length := List.length_append
    have hphase := h.phase.grow (by simp [heof]) (Nat.le_add_right f.txlen data.length)
    exact ⟨h.mss_ge, h.mss_le, h.cwnd_pos, le_of_eq_of_le hgrow hlen, h.nxt_le, hgrow ▸ hphase⟩
  | eof => exact h.of_same rfl rfl rfl rfl rfl rfl rfl rfl (fun _ => rfl) rfl (emitted_same _)
  | rewind =>
    refine ⟨h.mss_ge, h.mss_le, Nat.le_trans (by omega) h.mss_ge, h.txlen_le, ?_, h.phase⟩
    show offset f.sndUna f.sndUna ≤ _
    rw [offset_self]
    exact Nat.zero_le _

/-! ### Acknowledgements -/

/-- The acknowledgement lies behind `snd_una`, and not past what has been emitted. -/
def InWindow (f : Flow) (ack : Word) : Prop := 0 < f.ackOff ack ∧ f.ackOff ack ≤ f.maxOff

/-- The FIN is acknowledged with all data. -/
def AcksFin (f : Flow) (ack : Word) : Prop := f.finSent = true ∧ f.txlen < f.ackOff ack

instance (f : Flow) (ack : Word) : Decidable (InWindow f ack) := by
  unfold InWindow; infer_instance

instance (f : Flow) (ack : Word) : Decidable (AcksFin f ack) := by
  unfold AcksFin; infer_instance

/-- An acknowledgement that is not past the right edge lies behind `snd_una` exactly when it is in
the window. -/
theorem netSeqLt_una_iff (h : SendSpace f) {ack : Word} (hpast : netSeqLt f.sndMax ack = false) :
    netSeqLt f.sndUna ack = true ↔ InWindow f ack := by
  have hmax := h.maxOff_lt
  have hwin := mem_window_iff (o := f.sndUna) (e := f.sndMax) (a := ack) (by
    show 2 * f.maxOff < 2 ^ 32
    omega)
  have hnot : ¬Before f.sndMax ack := by simpa [netSeqLt] using hpast
  rw [netSeqLt, decide_eq_true_iff]
  exact ⟨fun hb => hwin.mp ⟨hb, hnot⟩, fun hin => (hwin.mpr hin).1⟩

/-- `tcp_consume_ack` moves something only for an acknowledgement in the window. -/
theorem tcpConsumeAck_eq (h : SendSpace f) {ack : Word} (hpast : netSeqLt f.sndMax ack = false)
    (now : Word) :
    tcpConsumeAck now ack f =
      if InWindow f ack then
        if AcksFin f ack then tcpFinAcked now (f.acknowledge ack) else f.acknowledge ack
      else f := by
  have hiff := netSeqLt_una_iff h hpast
  rw [tcpConsumeAck]
  by_cases hin : InWindow f ack
  · have hle : netSeqLe ack f.sndMax = true := by
      have hmax := h.maxOff_lt
      have hout := hin.2
      have hback := offset_between_of_le (o := f.sndUna) (a := f.sndMax) (b := ack) hout
      rw [netSeqLe, decide_eq_true_iff]
      rcases Nat.eq_or_lt_of_le hout with heq | hlt
      · have hsame : ack = f.sndMax := eq_of_offset_eq heq
        rw [hsame, BitVec.sub_self]
        exact le_of_eq BitVec.toInt_zero
      · have hb : Before ack f.sndMax :=
          (before_iff_offset_lt (o := f.sndUna) (by
            show 2 * f.ackOff ack < 2 ^ 32
            omega) (by
            show 2 * f.maxOff < 2 ^ 32
            omega)).mpr hlt
        exact le_of_lt hb
    rw [hiff.mpr hin, hle, if_pos hin, if_neg (by simp)]
    rfl
  · rw [if_neg hin, if_pos]
    have hno : netSeqLt f.sndUna ack = false := by
      rw [← Bool.not_eq_true]
      exact fun hb => hin (hiff.mp hb)
    rw [hno]
    rfl

/-- The cursors behind an acknowledgement in the window. -/
theorem acknowledge_offsets (h : SendSpace f) {ack : Word} (hin : InWindow f ack) :
    (f.acknowledge ack).maxOff = f.maxOff - f.ackOff ack ∧
      (f.acknowledge ack).nxtOff = f.nxtOff - f.ackOff ack ∧
      (f.acknowledge ack).txlen = f.txlen - f.ackOff ack := by
  have hmax := h.maxOff_lt
  have hnxt := h.nxt_le
  have hle := hin.2
  refine ⟨offset_between_of_le hle, ?_, ?_⟩
  · have hlt : netSeqLt f.sndNxt ack = decide (f.nxtOff < f.ackOff ack) :=
      netSeqLt_eq (o := f.sndUna) (show f.nxtOff < _ by omega) (show f.ackOff ack < _ by omega)
    show offset ack (if netSeqLt f.sndNxt ack then ack else f.sndNxt) = _
    rw [hlt]
    by_cases hbehind : f.nxtOff < f.ackOff ack
    · rw [if_pos (decide_eq_true hbehind), offset_self]
      omega
    · rw [if_neg (by simpa using hbehind)]
      exact offset_between_of_le (Nat.not_lt.mp hbehind)
  · show (f.txbuf.drop (min (f.ackOff ack) f.txlen)).length = _
    rw [List.length_drop]
    show f.txlen - _ = _
    omega

/-- An acknowledgement in the window keeps the send side in order, but for the state. -/
theorem SendSpace.acknowledge (h : SendSpace f) {ack : Word} (hin : InWindow f ack) {s : TcpState}
    {start : Prop}
    (hphase : PhaseOk s start (f.finSent = true) (f.hostEof = true)
      (f.history.emitted.any Emission.isSyn = true) (f.history.emitted.any Emission.isFin = true)
      (f.maxOff - f.ackOff ack) (f.txlen - f.ackOff ack))
    (hf' : f' = { f.acknowledge ack with state := f'.state, closeAt := f'.closeAt })
    (hs : f'.state = s) (hstart : s ≠ .synRcvd) : SendSpace f' := by
  obtain ⟨hmax, hnxt, htx⟩ := acknowledge_offsets h hin
  have hmax' : f'.maxOff = f.maxOff - f.ackOff ack := by rw [hf', ← hmax]; rfl
  have hnxt' : f'.nxtOff = f.nxtOff - f.ackOff ack := by rw [hf', ← hnxt]; rfl
  have htx' : f'.txlen = f.txlen - f.ackOff ack := by rw [hf', ← htx]; rfl
  have hnle := h.nxt_le
  have htle := h.txlen_le
  refine ⟨?_, ?_, ?_, by omega, by omega, ?_⟩
  · rw [hf']
    exact h.mss_ge
  · rw [hf']
    exact h.mss_le
  · rw [hf']
    exact tcpCwndAck_pos _ h.mss_ge h.cwnd_pos
  · rw [hs, hmax', htx', hf']
    cases s with
    | synRcvd => exact absurd rfl hstart
    | _ => exact hphase

/-- What an acknowledgement in the window does to the state of the connection. -/
def ackedState (s : TcpState) (finAcked : Bool) : TcpState :=
  match s, finAcked with
  | .synRcvd, _ => .established
  | .finWait1, true => .finWait2
  | .closing, true => .timeWait
  | .lastAck, true => .closed
  | s, _ => s

/-- The bounds on the right edge behind an acknowledgement that reaches `a` past `snd_una`. -/
theorem PhaseOk.acked {s : TcpState} {start finSent eof syn fin : Prop} {m tx a : Nat}
    [Decidable finSent] (h : PhaseOk s start finSent eof syn fin m tx) (hpos : 0 < a)
    (hle : a ≤ m) : PhaseOk (ackedState s (decide (finSent ∧ tx < a))) True finSent eof syn fin
      (m - a) (tx - a) := by
  cases s with
  | synRcvd => exact ⟨h.2.1, h.2.2.1, by have hone := h.2.2.2.1; omega⟩
  | established | closeWait =>
    rw [decide_eq_false (fun hfin => h.1 hfin.1)]
    exact ⟨h.1, h.2.1, Nat.sub_le_sub_right h.2.2 a⟩
  | finWait1 | closing | lastAck =>
    obtain ⟨hfs, he, hroom, hf⟩ := h
    by_cases hfin : tx < a
    · rw [decide_eq_true ⟨hfs, hfin⟩]
      exact ⟨hfs, he, by omega, by omega⟩
    · rw [decide_eq_false fun hboth => hfin hboth.2]
      exact ⟨hfs, he, by omega, by rw [← hf]; omega⟩
  | finWait2 | timeWait | closed =>
    have h0 := h.2.2.2
    omega

/-- The flow behind an acknowledgement in the window, the handshake being complete. -/
theorem establish_acknowledge (h : SendSpace f) {ack : Word} (hin : InWindow f ack) (now : Word) :
    ∃ closeAt, tcpEstablish
        (if AcksFin f ack then tcpFinAcked now (f.acknowledge ack) else f.acknowledge ack) =
      { f.acknowledge ack with
        state := ackedState f.state (decide (AcksFin f ack)), closeAt := closeAt } := by
  have hphase := h.phase
  by_cases hfin : AcksFin f ack
  · rw [if_pos hfin, decide_eq_true hfin, tcpEstablish, tcpFinAcked]
    have hstate : (f.acknowledge ack).state = f.state := rfl
    rw [hstate]
    cases hs : f.state with
    | synRcvd =>
      rw [hs] at hphase
      exact absurd hfin.1 hphase.2.1
    | established | closeWait =>
      rw [hs] at hphase
      exact absurd hfin.1 hphase.1
    | finWait1 | lastAck => exact ⟨f.closeAt, rfl⟩
    | closing => exact ⟨now + netTcpTimeWaitMs, rfl⟩
    | finWait2 | timeWait | closed =>
      rw [hs] at hphase
      have h0 := hphase.2.2.2
      have hpos := hin.1
      have hle := hin.2
      omega
  · rw [if_neg hfin, decide_eq_false hfin, tcpEstablish]
    have hstate : (f.acknowledge ack).state = f.state := rfl
    rw [hstate]
    have hsame : ∀ (f' : Flow) (s : TcpState), f'.state = s →
        f' = { f' with state := s, closeAt := f'.closeAt } := by
      rintro f' s rfl
      rfl
    refine ⟨f.closeAt, ?_⟩
    cases hs : f.state with
    | synRcvd => rfl
    | _ =>
      rw [if_neg (by rintro ⟨⟩)]
      exact hsame _ _ (hstate.trans hs)

/-- An acceptable acknowledgement completes the handshake, if that is what is missing, and keeps
the send side in order. -/
theorem SendSpace.ack (h : SendSpace f) {g : Segment} (hacc : Acceptable f g) (now : Word) :
    ((tcpConsumeAck now g.ack f).state = .synRcvd →
      (tcpConsumeAck now g.ack f).sndNxt = (tcpConsumeAck now g.ack f).sndUna) ∧
    SendSpace (tcpEstablish (tcpConsumeAck now g.ack f)) := by
  have hiff := netSeqLt_una_iff h hacc.past
  rw [tcpConsumeAck_eq h hacc.past now]
  by_cases hin : InWindow f g.ack
  · rw [if_pos hin]
    obtain ⟨closeAt, heq⟩ := establish_acknowledge h hin now
    have hphase := h.phase.acked hin.1 hin.2
    refine ⟨fun hs => ?_, ?_⟩
    · have hstate : f.state = .synRcvd := by
        split at hs
        · rw [tcpFinAcked] at hs
          split at hs <;> first | exact hs | cases hs
        · exact hs
      have hsyn := h.phase
      rw [hstate] at hsyn
      rw [if_neg fun hfin => hsyn.2.1 hfin.1]
      have hoff := (acknowledge_offsets h hin).2.1
      have hone := hsyn.2.2.2.1
      have hnle := h.nxt_le
      have hpos := hin.1
      exact offset_eq_zero.mp (hoff.trans (by omega))
    · rw [heq]
      refine h.acknowledge hin (s := ackedState f.state (decide (AcksFin f g.ack))) hphase rfl rfl ?_
      cases f.state <;> cases decide (AcksFin f g.ack) <;> rintro ⟨⟩
  · rw [if_neg hin]
    have hstate : f.state ≠ .synRcvd := fun hs => hin (hiff.mp (hacc.handshake hs))
    refine ⟨fun hs => absurd hs hstate, ?_⟩
    rw [tcpEstablish, if_neg hstate]
    exact h

/-- What a segment brings does not concern the send side. -/
theorem SendSpace.deliver (h : SendSpace f) (now : Word) (g : Segment) :
    SendSpace (tcpDeliver now g f) := by
  have hdata : SendSpace (tcpTakeData g f) ∧ (tcpTakeData g f).state = f.state := by
    rw [tcpTakeData]
    split
    · exact ⟨h.of_same rfl rfl rfl rfl rfl rfl rfl rfl id rfl (emitted_same _), rfl⟩
    · exact ⟨h, rfl⟩
  have hrepeat : SendSpace (tcpRepeatFin now g (tcpTakeData g f)) ∧
      (tcpRepeatFin now g (tcpTakeData g f)).state = f.state := by
    rw [tcpRepeatFin]
    split
    · exact ⟨hdata.1.of_same rfl rfl rfl rfl rfl rfl rfl rfl id rfl (emitted_same _), hdata.2⟩
    · exact hdata
  rw [tcpDeliver]
  generalize tcpRepeatFin now g (tcpTakeData g f) = f₁ at hrepeat ⊢
  obtain ⟨h₁, hs₁⟩ := hrepeat
  rw [tcpTakeFin]
  split
  · have hphase := h₁.phase
    dsimp only
    split
    case h_1 hst =>
      rw [hst] at hphase
      exact ⟨h₁.mss_ge, h₁.mss_le, h₁.cwnd_pos, h₁.txlen_le, h₁.nxt_le, hphase⟩
    case h_2 hst =>
      rw [hst] at hphase
      exact ⟨h₁.mss_ge, h₁.mss_le, h₁.cwnd_pos, h₁.txlen_le, h₁.nxt_le, hphase⟩
    case h_3 hst =>
      rw [hst] at hphase
      exact ⟨h₁.mss_ge, h₁.mss_le, h₁.cwnd_pos, h₁.txlen_le, h₁.nxt_le, hphase⟩
    case h_4 => exact h₁.of_same rfl rfl rfl rfl rfl rfl rfl rfl id rfl (emitted_same _)
  · exact h₁

/-- The flow that a SYN opens has nothing in flight. -/
theorem sendSpace_tcpSynFlow {ε : Type} (core core' : NetCore ε) (g : Segment) (gport dport : Port)
    (dstIp : Word) :
    SendSpace (tcpSynFlow core g (freshFlow core' netProtoTcp gport dstIp dport)) := by
  rw [tcpSynFlow]
  dsimp only
  generalize mssOption 536 g.options.length g.options = n
  have hmss : 64 ≤ max (min n netTcpMssMax) 64 := Nat.le_max_right _ _
  have hmax : max (min n netTcpMssMax) 64 ≤ netTcpMssMax :=
    Nat.max_le.mpr ⟨Nat.min_le_right _ _, by decide⟩
  generalize max (min n netTcpMssMax) 64 = mss at hmss hmax
  refine ⟨hmss, hmax, ?_, Nat.zero_le _, ?_, ?_⟩
  · show 1 ≤ tcpInitialCwnd mss
    rw [tcpInitialCwnd]
    omega
  · show offset core.issWalk core.issWalk ≤ offset core.issWalk core.issWalk
    exact le_refl _
  · have hoff : offset core.issWalk core.issWalk = 0 := offset_self _
    exact ⟨rfl, by rintro ⟨⟩, by rintro ⟨⟩, by show offset _ _ ≤ 1; rw [hoff]; omega,
      fun hpos => absurd hpos (by show ¬0 < offset _ _; rw [hoff]; omega)⟩

theorem sendSpace_invariant : FlowInvariant (fun _ _ => True) SendSpace :=
  .of_parts sendSpace_tcpSynFlow (fun _ _ hmove h => h.move hmove) (fun _ _ _ _ _ => trivial)
    (fun now _ _ _ hacc h => h.ack hacc now) fun now g _ _ h => h.deliver now g

end S5LBox.Net
