import S5LBox.Net.AckEffects

/-!
# The stream of the host

What the host sends reaches the guest as a stream: octet `j` of it has the sequence number
`ISS + 1 + j`. The send buffer is the end of what the host has sent, and `snd_una` is the sequence
number of its first octet, once the handshake is complete and until the FIN is acknowledged. So
whatever a segment takes from the buffer it carries at its own sequence number.

This rests on the buffer being empty when the SYN is acknowledged. The code counts the SYN as the
first octet otherwise, and every octet behind it is one sequence number early.

## Main definitions

* `History.Carries`: a segment carries the octets that belong where it carries them.
* `History.Sent`: an octet has been on the wire.
* `HostStream`: the invariant of the send buffer.

## Main results

* `hostStream_invariant`: it holds along a run in which no acknowledgement of a SYN finds octets
  of the host in the buffer.
-/

namespace S5LBox.Net

open SerialNumbers

variable {f f' : Flow}

/-! ### Octets of the stream -/

/-- The sequence number of an octet of the host. -/
def History.seqOf (h : History) (j : Nat) : Word := h.iss + 1 + BitVec.ofNat 32 j

/-- Octet `k` of a segment is octet `j` of the stream, and is where it belongs. -/
structure History.Places (h : History) (e : Emission) (k j : Nat) : Prop where
  seq_eq : h.seqOf j = segSeq e.seg + BitVec.ofNat 32 k
  octet_eq : h.received[j]? = (segPayload e.seg)[k]?

/-- Each octet of an emitted segment is the one of the stream that has its sequence number, among
those that the host had sent by then; of octets a whole sequence space apart it is the last. -/
def History.Carries (h : History) (e : Emission) : Prop :=
  ∀ k < (segPayload e.seg).length, ∃ j < e.heard, e.heard ≤ j + 2 ^ 32 ∧ h.Places e k j

/-- An octet of the host has been on the wire at its sequence number. -/
def History.Sent (h : History) (j : Nat) : Prop :=
  ∃ e ∈ h.emitted, ∃ k < (segPayload e.seg).length, h.Places e k j

/-- How many octets of the host have left the buffer. -/
def Flow.past (f : Flow) : Nat := f.history.received.length - f.txlen

/-- The states in which our FIN has been acknowledged. -/
def TcpState.finAcked (s : TcpState) : Prop := s = .finWait2 ∨ s = .timeWait ∨ s = .closed

instance (s : TcpState) : Decidable s.finAcked := by unfold TcpState.finAcked; infer_instance

/-- The buffer is the end of what the host has sent, and starts at `snd_una`. -/
structure HostStream (f : Flow) : Prop where
  suffix : f.txbuf <:+ f.history.received
  start : f.state = .synRcvd → f.past = 0
  una : f.state ≠ .synRcvd → ¬f.state.finAcked → f.sndUna = f.history.seqOf f.past
  carried : ∀ e ∈ f.history.emitted, f.history.Carries e
  covered : f.state ≠ .synRcvd → ∀ j < f.past + min f.maxOff f.txlen, f.history.Sent j

theorem HostStream.received_length (h : HostStream f) :
    f.history.received.length = f.past + f.txlen := by
  have hle : f.txlen ≤ f.history.received.length := h.suffix.length_le
  rw [Flow.past]
  omega

/-- The octets of the buffer are those of the stream from `past` on. -/
theorem HostStream.getElem?_txbuf (h : HostStream f) (k : Nat) :
    f.txbuf[k]? = f.history.received[f.past + k]? := by
  obtain ⟨gone, hgone⟩ := h.suffix
  have hpast : f.past = gone.length := by
    rw [Flow.past, ← hgone, List.length_append]
    exact Nat.add_sub_cancel _ _
  rw [hpast, ← hgone, List.getElem?_append_right (Nat.le_add_right _ _), Nat.add_sub_cancel_left]

/-- What the host sends later does not change what it has sent. -/
theorem History.Places.mono {h h' : History} {e : Emission} {k j : Nat} (hp : h.Places e k j)
    (hk : k < (segPayload e.seg).length) (hiss : h'.iss = h.iss)
    (hrec : h.received <+: h'.received) : h'.Places e k j := by
  obtain ⟨new, hnew⟩ := hrec
  have hin : j < h.received.length :=
    (List.getElem?_eq_some_iff.mp (hp.octet_eq.trans (List.getElem?_eq_getElem hk))).1
  refine ⟨?_, ?_⟩
  · rw [History.seqOf, hiss]
    exact hp.seq_eq
  · rw [← hnew, List.getElem?_append_left hin]
    exact hp.octet_eq

theorem History.Carries.mono {h h' : History} {e : Emission} (hc : h.Carries e)
    (hiss : h'.iss = h.iss) (hrec : h.received <+: h'.received) : h'.Carries e := by
  intro k hk
  obtain ⟨j, hj, hlast, hp⟩ := hc k hk
  exact ⟨j, hj, hlast, hp.mono hk hiss hrec⟩

theorem History.Sent.mono {h h' : History} {j : Nat} (hs : h.Sent j) (hiss : h'.iss = h.iss)
    (hrec : h.received <+: h'.received) (hemitted : h.emitted ⊆ h'.emitted) : h'.Sent j := by
  obtain ⟨e, he, k, hk, hp⟩ := hs
  exact ⟨e, hemitted he, k, hk, hp.mono hk hiss hrec⟩

theorem History.carries_nil {h : History} {e : Emission} (hnil : segPayload e.seg = []) :
    h.Carries e := by
  intro k hk
  rw [hnil] at hk
  exact absurd hk (Nat.not_lt_zero k)

/-! ### Moves -/

/-- A change that keeps the buffer and `snd_una`, and emits no data. -/
theorem HostStream.of_same (h : HostStream f) (hsyn : f'.state = .synRcvd ↔ f.state = .synRcvd)
    (hfin : f.state.finAcked → f'.state.finAcked) (huna : f'.sndUna = f.sndUna)
    (htx : f'.txbuf = f.txbuf) (hrec : f'.history.received = f.history.received)
    (hiss : f'.history.iss = f.history.iss)
    (hmax : f.state ≠ .synRcvd → min f'.maxOff f.txlen ≤ min f.maxOff f.txlen)
    (hemitted : ∃ es, f'.history.emitted = f.history.emitted ++ es ∧
      ∀ e ∈ es, segPayload e.seg = []) : HostStream f' := by
  obtain ⟨es, hes, hnil⟩ := hemitted
  have hlen : f'.txlen = f.txlen := by rw [Flow.txlen, htx, Flow.txlen]
  have hpast : f'.past = f.past := by rw [Flow.past, hrec, hlen, Flow.past]
  have hpre : f.history.received <+: f'.history.received := hrec ▸ List.prefix_rfl
  refine ⟨by rw [htx, hrec]; exact h.suffix, fun hs => ?_, fun hs hf => ?_, fun e he => ?_,
    fun hs j hj => ?_⟩
  · rw [hpast]
    exact h.start (hsyn.mp hs)
  · rw [huna, hpast, History.seqOf, hiss]
    exact h.una (fun hs' => hs (hsyn.mpr hs')) fun hf' => hf (hfin hf')
  · rw [hes] at he
    rcases List.mem_append.mp he with hold | hnew
    · exact (h.carried e hold).mono hiss hpre
    · exact History.carries_nil (hnil e hnew)
  · have hs' : f.state ≠ .synRcvd := fun hs' => hs (hsyn.mpr hs')
    rw [hpast, hlen] at hj
    have hj' : j < f.past + min f.maxOff f.txlen := Nat.lt_of_lt_of_le hj
      (Nat.add_le_add_left (hmax hs') _)
    exact (h.covered hs' j hj').mono hiss hpre (hes ▸ List.subset_append_left _ _)

theorem no_data (f : Flow) : ∃ es, f.history.emitted = f.history.emitted ++ es ∧
    ∀ e ∈ es, segPayload e.seg = [] := ⟨[], (List.append_nil _).symm, nofun⟩

/-- One segment without data has been emitted. -/
theorem one_bare {flags : Byte} {seq : Word} {d : List Byte} (hd : IsSegment d flags seq []) :
    ∃ es, (f.emit flags seq [] d).history.emitted = f.history.emitted ++ es ∧
      ∀ e ∈ es, segPayload e.seg = [] := by
  refine ⟨[⟨d, f.history.received.length⟩], rfl, fun e he => ?_⟩
  rw [List.mem_singleton.mp he]
  exact hd.payload_eq

/-- Octets of the buffer go out at an offset from `snd_una` that leaves no gap. -/
theorem HostStream.emit (h : HostStream f) (hspace : SendSpace f) {flags : Byte} {seq nxt : Word}
    {d : List Byte} {sent n : Nat} (hstate : f.state ≠ .synRcvd)
    (hseq : seq = f.sndUna + BitVec.ofNat 32 sent) (hn : sent + n ≤ f.txlen)
    (hsent : sent ≤ f.maxOff) (hflags : spaceOf flags ((f.txbuf.drop sent).take n) = n)
    (hd : IsSegment d flags seq ((f.txbuf.drop sent).take n)) :
    HostStream { f.emit flags seq ((f.txbuf.drop sent).take n) d with sndNxt := nxt } := by
  have htx := hspace.txlen_le
  rw [netTcpTxbuf] at htx
  have hmax : Flow.maxOff { f.emit flags seq ((f.txbuf.drop sent).take n) d with sndNxt := nxt } =
      if 0 < n then max f.maxOff (sent + n) else f.maxOff := by
    have hedge := emit_maxOff (d := d) hseq (by rw [hflags]; omega) hspace.maxOff_lt
    rw [hflags] at hedge
    exact hedge
  have hlen : ((f.txbuf.drop sent).take n).length = n := by
    rw [List.length_take, List.length_drop]
    have htxlen : f.txlen = f.txbuf.length := rfl
    omega
  have hall := h.received_length
  -- once the FIN is acknowledged the buffer is empty, so that data has a place in the stream
  have huna : 0 < n → f.sndUna = f.history.seqOf f.past := by
    intro hpos
    refine h.una hstate fun hfin => ?_
    have hphase := hspace.phase
    rcases hfin with hs | hs | hs <;> rw [hs] at hphase <;> have h0 := hphase.2.2.1 <;> omega
  generalize hh' : Flow.history { f.emit flags seq ((f.txbuf.drop sent).take n) d with
    sndNxt := nxt } = h'
  have hrec : h'.received = f.history.received := by rw [← hh']; rfl
  have hiss : h'.iss = f.history.iss := by rw [← hh']; rfl
  have hemitted : h'.emitted = f.history.emitted ++ [⟨d, f.history.received.length⟩] := by
    rw [← hh']; rfl
  have hpre : f.history.received <+: h'.received := hrec ▸ List.prefix_rfl
  have hnew : ∀ k < n, h'.Places ⟨d, f.history.received.length⟩ k (f.past + sent + k) := by
    intro k hk
    have hpay : segPayload (Emission.mk d f.history.received.length).seg =
        (f.txbuf.drop sent).take n := hd.payload_eq
    have hsq : segSeq (Emission.mk d f.history.received.length).seg = seq := hd.seq_eq
    refine ⟨?_, ?_⟩
    · rw [hsq, hseq, huna (by omega), History.seqOf, History.seqOf, hiss, BitVec.ofNat_add,
        BitVec.ofNat_add]
      simp only [BitVec.add_assoc]
    · rw [hpay, hrec, List.getElem?_take, if_pos hk, List.getElem?_drop, h.getElem?_txbuf,
        Nat.add_assoc]
  have hlength : (segPayload (Emission.mk d f.history.received.length).seg).length = n := by
    rw [show segPayload (Emission.mk d f.history.received.length).seg = _ from hd.payload_eq, hlen]
  refine ⟨h.suffix, h.start, h.una, ?_, ?_⟩
  · rw [hh']
    intro e he
    rw [hemitted] at he
    rcases List.mem_append.mp he with hold | hlast
    · exact (h.carried e hold).mono hiss hpre
    · rw [List.mem_singleton.mp hlast]
      intro k hk
      rw [hlength] at hk
      refine ⟨f.past + sent + k, ?_, ?_, hnew k hk⟩
      · show _ < f.history.received.length
        omega
      · show f.history.received.length ≤ _
        omega
  · rw [hh']
    intro _ j hj
    rw [hmax] at hj
    by_cases hold : j < f.past + min f.maxOff f.txlen
    · exact (h.covered hstate j hold).mono hiss hpre (hemitted ▸ List.subset_append_left _ _)
    · have hj' : j < f.past + min (if 0 < n then max f.maxOff (sent + n) else f.maxOff) f.txlen := hj
      have hpos : 0 < n := by
        by_contra h0
        rw [if_neg h0] at hj'
        exact hold hj'
      rw [if_pos hpos] at hj'
      have hplace := hnew (j - (f.past + sent)) (by omega)
      have heq : f.past + sent + (j - (f.past + sent)) = j := by omega
      rw [heq] at hplace
      refine ⟨_, hemitted ▸ List.mem_append_right _ (List.mem_singleton_self _), _, ?_, hplace⟩
      rw [hlength]
      omega

/-- Every move keeps the stream. -/
theorem HostStream.move (hmove : Move f f') (hspace : SendSpace f) (h : HostStream f) :
    HostStream f' := by
  have hstart : f.sndUna = f.sndUna + BitVec.ofNat 32 0 := (BitVec.add_zero _).symm
  cases hmove with
  | quiet => exact h.of_same Iff.rfl id rfl rfl rfl rfl (fun _ => le_rfl) (no_data _)
  | bare flags seq d hbare hd =>
    refine h.of_same Iff.rfl id rfl rfl rfl rfl (fun _ => ?_) (one_bare hd)
    rw [Flow.maxOff, emit_bare_sndMax hbare seq d]
    exact le_rfl
  | syn d hstate hnxt hd =>
    exact h.of_same Iff.rfl id rfl rfl rfl rfl (fun hs => absurd hstate hs) (one_bare hd)
  | synAgain d hstate hnxt hd =>
    exact h.of_same Iff.rfl id rfl rfl rfl rfl (fun hs => absurd hstate hs) (one_bare hd)
  | data sent n d hstate hnxt hn hd =>
    have htx := hspace.txlen_le
    rw [netTcpTxbuf] at htx
    have hsent : f.nxtOff = sent := by
      rw [Flow.nxtOff, hnxt]
      exact offset_at (by omega)
    refine h.emit hspace hstate hnxt hn (hsent ▸ hspace.nxt_le) ?_ hd
    rw [spaceOf_data, List.length_take, List.length_drop]
    have htxlen : f.txlen = f.txbuf.length := rfl
    omega
  | probe d hstate hnxt htx0 hd =>
    have hone : spaceOf tcpAck ((f.txbuf.drop 0).take 1) = 1 := by
      rw [spaceOf_probe, List.length_take, List.length_drop]
      have htxlen : f.txlen = f.txbuf.length := rfl
      omega
    exact h.emit hspace hstate (hnxt.trans hstart) (by omega) (Nat.zero_le _)
      hone hd
  | markFin heof hfin hstate =>
    have hne : f.state ≠ .synRcvd := by rcases hstate with hs | hs <;> rw [hs] <;> decide
    have hne' : (if f.state = .closeWait then TcpState.lastAck else .finWait1) ≠ .synRcvd := by
      split <;> decide
    have hout : ¬f.state.finAcked := by rcases hstate with hs | hs <;> rw [hs] <;> decide
    exact h.of_same (iff_of_false hne' hne) (fun hf => absurd hf hout) rfl rfl rfl rfl
      (fun _ => le_rfl) (no_data _)
  | fin d hfin hnxt hstate hd =>
    refine h.of_same Iff.rfl id rfl rfl rfl rfl (fun _ => ?_) (one_bare hd)
    have htx := hspace.txlen_le
    rw [netTcpTxbuf] at htx
    have hsent : f.nxtOff = f.txlen := by
      rw [Flow.nxtOff, hnxt]
      exact offset_at (by omega)
    have hle := hspace.nxt_le
    omega
  | accept => exact h.of_same Iff.rfl id rfl rfl rfl rfl (fun _ => le_rfl) (no_data _)
  | receive data heof hlen =>
    -- no FIN of ours is out, so that the right edge stays within the old buffer
    have hedge : f.state ≠ .synRcvd → f.maxOff ≤ f.txlen := by
      intro hs
      have hphase := hspace.phase
      have hno : ¬f.hostEof = true := by simp [heof]
      cases hstate : f.state with
      | synRcvd => exact absurd hstate hs
      | established | closeWait =>
        rw [hstate] at hphase
        exact hphase.2.2
      | finWait1 | closing | lastAck | finWait2 | timeWait | closed =>
        rw [hstate] at hphase
        exact absurd hphase.2.1 hno
    have hpast : Flow.past { f with
        txbuf := f.txbuf ++ data
        history := { f.history with received := f.history.received ++ data } } = f.past := by
      show (f.history.received ++ data).length - (f.txbuf ++ data).length = _
      rw [List.length_append, List.length_append, Nat.add_sub_add_right]
      rfl
    have hpre : f.history.received <+: f.history.received ++ data := List.prefix_append _ _
    refine ⟨?_, fun hs => ?_, fun hs hf => ?_, fun e he => ?_, fun hs j hj => ?_⟩
    · obtain ⟨gone, hgone⟩ := h.suffix
      exact ⟨gone, by rw [← List.append_assoc, hgone]⟩
    · rw [hpast]
      exact h.start hs
    · rw [hpast]
      exact h.una hs hf
    · exact (h.carried e he).mono rfl hpre
    · rw [hpast] at hj
      have hmax : f.maxOff ≤ f.txlen := hedge hs
      have hj' : j < f.past + min f.maxOff f.txlen :=
        Nat.lt_of_lt_of_le hj (Nat.add_le_add_left
          (le_trans (Nat.min_le_left _ _) (Nat.le_min.mpr ⟨le_rfl, hmax⟩)) _)
      exact (h.covered hs j hj').mono rfl hpre (List.Subset.refl _)
  | eof => exact h.of_same Iff.rfl id rfl rfl rfl rfl (fun _ => le_rfl) (no_data _)
  | rewind => exact h.of_same Iff.rfl id rfl rfl rfl rfl (fun _ => le_rfl) (no_data _)

/-! ### Acknowledgements -/

/-- The stream behind an acknowledgement in the window, if the one of the SYN finds the buffer
empty. -/
theorem HostStream.acknowledge (h : HostStream f) (hspace : SendSpace f) {ack : Word}
    (hin : InWindow f ack) (hempty : f.state = .synRcvd → f.txbuf = []) {closeAt : Word}
    (hf' : f' = { f.acknowledge ack with
      state := ackedState f.state (decide (AcksFin f ack)), closeAt := closeAt }) :
    HostStream f' := by
  obtain ⟨hmax, -, htx⟩ := acknowledge_offsets hspace hin
  have hpos := hin.1
  have hle := hin.2
  have hall := h.received_length
  have hroom := hspace.maxOff_le
  have hmax' : f'.maxOff = f.maxOff - f.ackOff ack := by rw [hf', ← hmax]; rfl
  have htx' : f'.txlen = f.txlen - f.ackOff ack := by rw [hf', ← htx]; rfl
  have hhist : f'.history = f.history := by rw [hf']; rfl
  have hbuf : f'.txbuf = f.txbuf.drop (min (f.ackOff ack) f.txlen) := by rw [hf']; rfl
  have huna : f'.sndUna = ack := by rw [hf']; rfl
  have hpast : f'.past = f.past + min (f.ackOff ack) f.txlen := by
    rw [Flow.past, hhist, htx', hall]
    omega
  have hne : f'.state ≠ .synRcvd := by
    rw [hf']
    show ackedState _ _ ≠ _
    cases f.state <;> cases decide (AcksFin f ack) <;> nofun
  refine ⟨?_, fun hs => absurd hs hne, fun _ hf => ?_, ?_, fun _ j hj => ?_⟩
  · rw [hbuf, hhist]
    exact (List.drop_suffix _ _).trans h.suffix
  · rw [huna, hpast, hhist]
    by_cases hs : f.state = .synRcvd
    · -- the SYN is all there is to acknowledge
      have hphase := hspace.phase
      rw [hs] at hphase
      have hone : f.ackOff ack = 1 := by
        have hm := hphase.2.2.2.1
        omega
      have hzero : f.txlen = 0 := by
        rw [Flow.txlen, hempty hs]
        rfl
      calc ack = f.sndUna + BitVec.ofNat 32 (f.ackOff ack) := (start_add_offset _ _).symm
        _ = f.history.iss + 1 + BitVec.ofNat 32 0 := by
          rw [hone, hphase.1]
          exact (BitVec.add_zero _).symm
        _ = f.history.seqOf (f.past + min (f.ackOff ack) f.txlen) := by
          rw [h.start hs, hzero, Nat.min_zero, History.seqOf]
    · have hsame : ¬f.state.finAcked ∧ f.ackOff ack ≤ f.txlen := by
        have hstate : f'.state = ackedState f.state (decide (AcksFin f ack)) := by rw [hf']
        rw [hstate] at hf
        have hphase := hspace.phase
        cases hst : f.state with
        | synRcvd => exact absurd hst hs
        | established | closeWait =>
          rw [hst] at hphase
          have hm := hphase.2.2
          exact ⟨by decide, by omega⟩
        | finWait1 | closing | lastAck =>
          rw [hst] at hphase hf
          refine ⟨by decide, ?_⟩
          by_contra hlt
          rw [decide_eq_true ⟨hphase.1, Nat.not_le.mp hlt⟩] at hf
          exact hf (by decide)
        | finWait2 | timeWait | closed =>
          rw [hst] at hphase
          have h0 := hphase.2.2.2
          omega
      calc ack = f.sndUna + BitVec.ofNat 32 (f.ackOff ack) := (start_add_offset _ _).symm
        _ = f.history.seqOf (f.past + min (f.ackOff ack) f.txlen) := by
          rw [h.una hs hsame.1, Nat.min_eq_left hsame.2, History.seqOf, History.seqOf,
            BitVec.ofNat_add, BitVec.add_assoc]
  · rw [hhist]
    exact h.carried
  · rw [hhist]
    rw [hpast, hmax', htx'] at hj
    by_cases hs : f.state = .synRcvd
    · have hzero : f.txlen = 0 := by
        rw [Flow.txlen, hempty hs]
        rfl
      have hstart := h.start hs
      omega
    · exact h.covered hs j (by omega)

/-- An acceptable acknowledgement keeps the stream. -/
theorem HostStream.ack (h : HostStream f) (hspace : SendSpace f) {g : Segment}
    (hacc : Acceptable f g) (hok : SynUnbuffered f g) (now : Word) :
    HostStream (tcpEstablish (tcpConsumeAck now g.ack f)) := by
  rw [tcpConsumeAck_eq hspace hacc.past now]
  by_cases hin : InWindow f g.ack
  · rw [if_pos hin]
    obtain ⟨closeAt, heq⟩ := establish_acknowledge hspace hin now
    exact h.acknowledge hspace hin (fun hs => hok hs hacc) heq
  · have hstate : f.state ≠ .synRcvd := fun hs =>
      hin ((netSeqLt_una_iff hspace hacc.past).mp (hacc.handshake hs))
    rw [if_neg hin, tcpEstablish, if_neg hstate]
    exact h

/-- What a segment brings does not concern the stream of the host. -/
theorem HostStream.deliver (h : HostStream f) (now : Word) (g : Segment) :
    HostStream (tcpDeliver now g f) := by
  have hsame : ∀ {f f' : Flow}, HostStream f → (f'.state = .synRcvd ↔ f.state = .synRcvd) →
      (f.state.finAcked → f'.state.finAcked) → f'.sndUna = f.sndUna → f'.sndMax = f.sndMax →
      f'.txbuf = f.txbuf → f'.history.received = f.history.received →
      f'.history.iss = f.history.iss → f'.history.emitted = f.history.emitted →
      HostStream f' := by
    intro f f' h hsyn hfin huna hmax htx hrec hiss hem
    refine h.of_same hsyn hfin huna htx hrec hiss (fun _ => ?_)
      ⟨[], by rw [hem, List.append_nil], fun _ he => absurd he List.not_mem_nil⟩
    rw [Flow.maxOff, huna, hmax, Flow.maxOff]
  have hdata : HostStream (tcpTakeData g f) := by
    rw [tcpTakeData]
    split
    · exact hsame h Iff.rfl id rfl rfl rfl rfl rfl rfl
    · exact h
  have hrepeat : HostStream (tcpRepeatFin now g (tcpTakeData g f)) := by
    rw [tcpRepeatFin]
    split
    · exact hsame hdata Iff.rfl id rfl rfl rfl rfl rfl rfl
    · exact hdata
  rw [tcpDeliver, tcpTakeFin]
  generalize tcpRepeatFin now g (tcpTakeData g f) = f₁ at hrepeat ⊢
  split
  · dsimp only
    split
    case h_1 hs =>
      exact hsame hrepeat (iff_of_false (by rintro ⟨⟩) fun hs' => by cases hs.symm.trans hs')
        (fun hf => absurd (hs ▸ hf) (by decide)) rfl rfl rfl rfl rfl rfl
    case h_2 hs =>
      exact hsame hrepeat (iff_of_false (by rintro ⟨⟩) fun hs' => by cases hs.symm.trans hs')
        (fun hf => absurd (hs ▸ hf) (by decide)) rfl rfl rfl rfl rfl rfl
    case h_3 hs =>
      exact hsame hrepeat (iff_of_false (by rintro ⟨⟩) fun hs' => by cases hs.symm.trans hs')
        (fun _ => .inr (.inl rfl)) rfl rfl rfl rfl rfl rfl
    case h_4 => exact hsame hrepeat Iff.rfl id rfl rfl rfl rfl rfl rfl
  · exact hrepeat

theorem hostStream_tcpSynFlow {ε : Type} (core core' : NetCore ε) (g : Segment)
    (gport dport : Port) (dstIp : Word) :
    HostStream (tcpSynFlow core g (freshFlow core' netProtoTcp gport dstIp dport)) :=
  ⟨List.suffix_rfl, fun _ => rfl, fun hs => absurd rfl hs, fun _ he => absurd he List.not_mem_nil,
    fun hs => absurd rfl hs⟩

/-- The stream of the host is kept as long as no acknowledgement of a SYN finds octets of the host
in the buffer. -/
theorem hostStream_invariant :
    FlowInvariant SynUnbuffered fun f => SendSpace f ∧ HostStream f :=
  .of_parts
    (fun core core' g gport dport dstIp => ⟨sendSpace_tcpSynFlow core core' g gport dport dstIp,
      hostStream_tcpSynFlow core core' g gport dport dstIp⟩)
    (fun _ _ hmove h => ⟨h.1.move hmove, h.2.move hmove h.1⟩)
    (fun _ _ _ _ hok hs hacc =>
      hok hs ⟨hacc.rst, hacc.syn, hacc.ack, hacc.past, hacc.handshake⟩)
    (fun now _ _ hok hacc h => ⟨(h.1.ack hacc now).1, (h.1.ack hacc now).2,
      h.2.ack h.1 hacc hok now⟩)
    fun now g _ _ h => ⟨h.1.deliver now g, h.2.deliver now g⟩

/-- A flow has kept the stream of the host whole: every emitted octet is the octet of the stream
that belongs at its sequence number, and every octet that has left the buffer has been emitted. -/
structure StreamIntact (f : Flow) : Prop where
  carried : ∀ e ∈ f.history.emitted, f.history.Carries e
  sent : ∀ j < f.past, f.history.Sent j

theorem HostStream.intact (h : HostStream f) : StreamIntact f := by
  refine ⟨h.carried, fun j hj => ?_⟩
  by_cases hs : f.state = .synRcvd
  · rw [h.start hs] at hj
    exact absurd hj (Nat.not_lt_zero j)
  · exact h.covered hs j (Nat.lt_of_lt_of_le hj (Nat.le_add_right _ _))

/-- In a run in which no acknowledgement of a SYN finds octets of the host in the buffer, every flow
keeps the stream of the host whole, while it is in use and when it has been released, for whatever
reason: each octet of each segment that was sent to the guest is the octet of the stream that
belongs at its sequence number, and every octet that has left the send buffer was sent in some
segment. Retransmission, probes and a window that shrinks change nothing about it. -/
theorem hostStream_intact {ε : Type} {ns : NetStack ε} (h : Reached (Meets SynUnbuffered) ns) :
    (∀ i, TcpLive (ns.flow i) → StreamIntact (ns.flow i)) ∧
      ∀ why f, (why, f) ∈ ns.core.released → TcpLive f → StreamIntact f := by
  have hall := hostStream_invariant.reached h
  exact ⟨fun i hlive => (hall.live i hlive).2.intact,
    fun why f hmem hlive => (hall.gone why f hmem hlive).1.2.intact⟩

/-- The two octets of the host go out whole when they come behind the acknowledgement of the
SYN. -/
theorem hostStream_intact_inTime :
    (∀ i, TcpLive (heardInTime.flow i) → StreamIntact (heardInTime.flow i)) ∧
      ∀ why f, (why, f) ∈ heardInTime.core.released → TcpLive f → StreamIntact f := by
  refine hostStream_intact ⟨netConfigDefault, scriptedHost 4096, [[0x41, 0x42]], ?_⟩
  rw [heardInTime, scripted, Runs.follow, List.foldl_cons, List.foldl_cons, List.foldl_nil]
  refine .next _ (.next _ .start ?_) ?_
  · exact fun i g hg => absurd hg (by rw [show Op.segment _ _ = none by decide +kernel]; nofun)
  · have hempty : ∀ i, ((netStep (.input (guestSegment 1000 80 100 0 tcpSyn 8192 []))
        (netInit netConfigDefault (scriptedHost 4096) [[0x41, 0x42]])).flow i).txbuf = [] := by
      decide +kernel
    exact fun i _ _ _ _ => hempty i

/-- The first octet of the host is never emitted when the host has been heard before the SYN is
acknowledged: the second one goes out in its place. -/
theorem hostStream_broken_early :
    ¬∀ ns : NetStack (List (List Byte)), Reached (fun _ _ => True) ns →
      ∀ i, TcpLive (ns.flow i) → StreamIntact (ns.flow i) := by
  intro hall
  have hreach : Reached (fun _ _ => True) (netStep ackSyn heardEarly) := by
    obtain ⟨cfg, eg, ctx, run⟩ := scripted_reached 4096 [[0x41, 0x42]]
      [.input (guestSegment 1000 80 100 0 tcpSyn 8192 []), .tick 1]
    exact ⟨cfg, eg, ctx, .next ackSyn run trivial⟩
  have hintact := hall _ hreach 0 (by rw [TcpLive]; decide +kernel)
  generalize hf : (netStep ackSyn heardEarly).flow 0 = f at hintact
  have hmem : f.history.emitted.getD 1 ⟨[], 0⟩ ∈ f.history.emitted := by rw [← hf]; decide +kernel
  have hpay : segPayload (f.history.emitted.getD 1 ⟨[], 0⟩).seg = [0x42] := by
    rw [← hf]; decide +kernel
  have hseq : segSeq (f.history.emitted.getD 1 ⟨[], 0⟩).seg = f.history.iss + 1 := by
    rw [← hf]; decide +kernel
  have hheard : (f.history.emitted.getD 1 ⟨[], 0⟩).heard = 2 := by rw [← hf]; decide +kernel
  have hrec : f.history.received = [0x41, 0x42] := by rw [← hf]; decide +kernel
  obtain ⟨j, hj, -, hplace⟩ := hintact.carried _ hmem 0 (by rw [hpay]; decide)
  have hoct := hplace.octet_eq
  have hpos := hplace.seq_eq
  rw [hheard] at hj
  rw [hpay, hrec] at hoct
  rw [hseq, History.seqOf] at hpos
  have hj0 : j = 0 := by
    have hzero := (BitVec.add_right_inj _).mp hpos
    have hnat := congrArg BitVec.toNat hzero
    rw [BitVec.toNat_ofNat, Nat.mod_eq_of_lt (by omega)] at hnat
    exact hnat
  rw [hj0] at hoct
  exact absurd hoct (by decide)

end S5LBox.Net
