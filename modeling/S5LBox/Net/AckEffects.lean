import S5LBox.Net.SendSpace

/-!
# What an acknowledgement does

Nothing but an acknowledgement in the window moves `snd_una`, takes octets out of the send buffer
or completes the handshake. What it takes out has been emitted, unless it acknowledges the SYN
while octets of the host are in the buffer: then it counts the SYN as the first of them.

## Main definitions

* `SendOrdered`: the cursors in order, in the arithmetic of the code.
* `SynUnbuffered`: the SYN is acknowledged before the host has sent anything.
* `AckEffect`, `DropsSent`: what a step may do to the send side of a flow.

## Main results

* `Advances.ackEffect`, `Advances.dropsSent`: what one step does to a flow.
* `sendCursors_safe`: the cursors along a run.
-/

namespace S5LBox.Net

open SerialNumbers

variable {ε : Type} {ns : NetStack ε} {f f' f'' : Flow}

/-! ### The order of the cursors -/

/-- Within the lower half of the sequence space the comparison is the one of the offsets. -/
theorem netSeqLe_eq {o a b : Word} (ha : offset o a < 2 ^ 31) (hb : offset o b < 2 ^ 31) :
    netSeqLe a b = decide (offset o a ≤ offset o b) := by
  have hlt : Before a b ↔ offset o a < offset o b := before_iff_offset_lt (by omega) (by omega)
  have hzero : (a - b).toInt = 0 ↔ offset o a = offset o b := by
    constructor
    · intro h
      have hsub : a - b = 0#32 := BitVec.eq_of_toInt_eq h
      rw [← BitVec.sub_add_cancel a b, hsub, BitVec.zero_add]
    · intro h
      rw [eq_of_offset_eq h, BitVec.sub_self]
      rfl
  rw [netSeqLe, decide_eq_decide]
  rw [Before] at hlt
  omega

/-- The cursors of a flow are in order, and the congestion window is open. -/
structure SendOrdered (f : Flow) : Prop where
  una_nxt : netSeqLe f.sndUna f.sndNxt = true
  nxt_max : netSeqLe f.sndNxt f.sndMax = true
  max_end : netSeqLe f.sndMax (f.sndUna + BitVec.ofNat 32 (f.txlen + f.ctl)) = true
  nxt_le : f.nxtOff ≤ f.maxOff
  max_le : f.maxOff ≤ f.txlen + f.ctl
  txlen_le : f.txlen ≤ netTcpTxbuf
  cwnd_pos : 1 ≤ f.cwnd

theorem SendSpace.ordered (h : SendSpace f) : SendOrdered f := by
  have hmax := h.maxOff_lt
  have hnxt : f.nxtOff < 2 ^ 31 := Nat.lt_of_le_of_lt h.nxt_le hmax
  have hend := h.maxOff_le_ctl
  have hctl := f.ctl_le
  have htx := h.txlen_le
  have hroom : f.txlen + f.ctl < 2 ^ 31 := by
    rw [netTcpTxbuf] at htx
    omega
  have hoff : offset f.sndUna (f.sndUna + BitVec.ofNat 32 (f.txlen + f.ctl)) = f.txlen + f.ctl :=
    offset_start_add (by omega)
  refine ⟨?_, ?_, ?_, h.nxt_le, hend, htx, h.cwnd_pos⟩
  · rw [netSeqLe_eq (o := f.sndUna) (by rw [offset_self]; omega) hnxt, offset_self]
    exact decide_eq_true (Nat.zero_le _)
  · rw [netSeqLe_eq (o := f.sndUna) hnxt hmax]
    exact decide_eq_true h.nxt_le
  · rw [netSeqLe_eq (o := f.sndUna) hmax (by rw [hoff]; exact hroom), hoff]
    exact decide_eq_true hend

/-! ### Between two acknowledgements -/

/-- The send side is as it was, but for what the host has added to the buffer. -/
structure Kept (f f' : Flow) : Prop where
  una_eq : f'.sndUna = f.sndUna
  grown : ∃ new, f'.history.received = f.history.received ++ new ∧ f'.txbuf = f.txbuf ++ new
  syn_iff : f'.state = .synRcvd ↔ f.state = .synRcvd

theorem Kept.of_same (huna : f'.sndUna = f.sndUna)
    (hrec : f'.history.received = f.history.received) (htx : f'.txbuf = f.txbuf)
    (hsyn : f'.state = .synRcvd ↔ f.state = .synRcvd) : Kept f f' :=
  ⟨huna, ⟨[], by rw [hrec, List.append_nil], by rw [htx, List.append_nil]⟩, hsyn⟩

theorem Kept.refl (f : Flow) : Kept f f := .of_same rfl rfl rfl Iff.rfl

theorem Kept.trans (h : Kept f f') (h' : Kept f' f'') : Kept f f'' := by
  obtain ⟨new, hrec, htx⟩ := h.grown
  obtain ⟨new', hrec', htx'⟩ := h'.grown
  refine ⟨h'.una_eq.trans h.una_eq, ⟨new ++ new', ?_, ?_⟩, h'.syn_iff.trans h.syn_iff⟩
  · rw [hrec', hrec, List.append_assoc]
  · rw [htx', htx, List.append_assoc]

theorem Move.kept (h : Move f f') : Kept f f' := by
  cases h with
  | receive data => exact ⟨rfl, ⟨data, rfl, rfl⟩, Iff.rfl⟩
  | markFin heof hfin hstate =>
    refine .of_same rfl rfl rfl ?_
    show (if f.state = .closeWait then TcpState.lastAck else .finWait1) = _ ↔ _
    rcases hstate with hs | hs <;> rw [hs] <;> decide
  | _ => exact .of_same rfl rfl rfl Iff.rfl

theorem Moves.kept (h : Moves f f') : Kept f f' := by
  induction h with
  | refl => exact .refl f
  | tail _ hmove ih => exact ih.trans hmove.kept

/-- What a segment brings does not concern the send side. -/
theorem kept_tcpDeliver (now : Word) (g : Segment) (f : Flow) : Kept f (tcpDeliver now g f) := by
  have hdata : Kept f (tcpTakeData g f) := by
    rw [tcpTakeData]
    split <;> exact .of_same rfl rfl rfl Iff.rfl
  have hrepeat : ∀ f, Kept f (tcpRepeatFin now g f) := by
    intro f
    rw [tcpRepeatFin]
    split <;> exact .of_same rfl rfl rfl Iff.rfl
  have hfin : ∀ f, Kept f (tcpTakeFin now g f) := by
    intro f
    rw [tcpTakeFin]
    split
    · dsimp only
      split
      case h_1 hs => exact .of_same rfl rfl rfl (iff_of_false (by rintro ⟨⟩) fun h => by
          cases hs.symm.trans h)
      case h_2 hs => exact .of_same rfl rfl rfl (iff_of_false (by rintro ⟨⟩) fun h => by
          cases hs.symm.trans h)
      case h_3 hs => exact .of_same rfl rfl rfl (iff_of_false (by rintro ⟨⟩) fun h => by
          cases hs.symm.trans h)
      case h_4 => exact .of_same rfl rfl rfl Iff.rfl
    · exact .refl f
  exact (hdata.trans (hrepeat _)).trans (hfin _)

/-! ### One step -/

/-- The send side behind an acknowledgement: the octets up to it are gone, or all there are. -/
structure Acked (ack : Word) (f f' : Flow) : Prop where
  una_eq : f'.sndUna = ack
  shrunk : ∃ new, f'.history.received = f.history.received ++ new ∧
    f'.txbuf = f.txbuf.drop (min (f.ackOff ack) f.txlen) ++ new

theorem Acked.kept {ack : Word} (h : Acked ack f f') (h' : Kept f' f'') : Acked ack f f'' := by
  obtain ⟨new, hrec, htx⟩ := h.shrunk
  obtain ⟨new', hrec', htx'⟩ := h'.grown
  refine ⟨h'.una_eq.trans h.una_eq, ⟨new ++ new', ?_, ?_⟩⟩
  · rw [hrec', hrec, List.append_assoc]
  · rw [htx', htx, List.append_assoc]

variable {arrives : Segment → Prop}

/-- A step keeps the send side of a flow, or it brings an acknowledgement in the window. -/
theorem Advances.kept_or_acked (h : Advances arrives f f') (hf : SendSpace f) :
    Kept f f' ∨ ∃ g, arrives g ∧ Acceptable f g ∧ InWindow f g.ack ∧ Acked g.ack f f' := by
  cases h with
  | moves h => exact .inl h.kept
  | waits now g _ hacc hwait _ =>
    exact absurd hwait (sendSpace_invariant.settled now g f trivial hacc hf)
  | delivers now g hg hacc _ h =>
    have hquiet := Move.quiet f f.handle now g.wnd f.ssthresh f.txShutdown f.needAck f.rtoOn
      f.rtoAt f.rtx f.closeAt
    have hf₁ := hf.move hquiet
    have hafter : Kept (tcpEstablish (tcpConsumeAck now g.ack { f with
        lastMs := now, sndWnd := g.wnd })) f' :=
      ((moves_acked now g f).kept.trans (kept_tcpDeliver now g _)).trans h.kept
    rw [tcpConsumeAck_eq hf₁ hacc.past] at hafter
    by_cases hin : InWindow f g.ack
    · rw [if_pos (show InWindow { f with lastMs := now, sndWnd := g.wnd } g.ack from hin)] at hafter
      obtain ⟨closeAt, heq⟩ := establish_acknowledge hf₁ hin now
      rw [heq] at hafter
      have hack : Acked g.ack f { Flow.acknowledge { f with
          lastMs := now, sndWnd := g.wnd } g.ack with
          state := ackedState f.state (decide (AcksFin f g.ack)), closeAt := closeAt } :=
        ⟨rfl, [], (List.append_nil _).symm, (List.append_nil _).symm⟩
      exact .inr ⟨g, hg, hacc, hin, hack.kept hafter⟩
    · rw [if_neg (show ¬InWindow { f with lastMs := now, sndWnd := g.wnd } g.ack from hin)]
        at hafter
      have hstate : f.state ≠ .synRcvd := fun hs =>
        hin ((netSeqLt_una_iff hf hacc.past).mp (hacc.handshake hs))
      rw [tcpEstablish, if_neg hstate] at hafter
      exact .inl (hquiet.kept.trans hafter)

/-- Something has happened to the send side that only an acknowledgement may do: `snd_una` has
moved, octets are gone from the buffer, or the handshake is complete. -/
def Moved (f f' : Flow) : Prop :=
  f'.sndUna ≠ f.sndUna ∨ ¬f.txbuf <+: f'.txbuf ∨ f.state = .synRcvd ∧ f'.state ≠ .synRcvd

/-- It takes an acknowledgement in the window. -/
def AckEffect (arrives : Segment → Prop) (f f' : Flow) : Prop :=
  Moved f f' → ∃ g, arrives g ∧ hasFlag g.flags tcpAck = true ∧ InWindow f g.ack

theorem Advances.ackEffect (h : Advances arrives f f') (hf : SendSpace f) :
    AckEffect arrives f f' := by
  intro hmoved
  rcases h.kept_or_acked hf with hkept | ⟨g, hg, hacc, hin, -⟩
  · obtain ⟨new, -, htx⟩ := hkept.grown
    rcases hmoved with huna | hlost | ⟨hs, hs'⟩
    · exact absurd hkept.una_eq huna
    · exact absurd ⟨new, htx.symm⟩ hlost
    · exact absurd (hkept.syn_iff.mpr hs) hs'
  · exact ⟨g, hg, hacc.ack, hin⟩

/-- The octets of the send buffer that have been put on the wire. -/
def Flow.sentLen (f : Flow) : Nat := f.maxOff - f.ctl

/-- What is gone from the buffer has been put on the wire. -/
def DropsSent (f f' : Flow) : Prop :=
  ∃ n new, n ≤ f.sentLen ∧ f'.history.received = f.history.received ++ new ∧
    f'.txbuf = f.txbuf.drop n ++ new

/-- The acknowledgement of the SYN finds the send buffer empty. -/
def SynUnbuffered (f : Flow) (g : Segment) : Prop :=
  f.state = .synRcvd → Acceptable f g → f.txbuf = []

/-- Past the handshake the octets that an acknowledgement reaches have been put on the wire. -/
theorem SendSpace.ackOff_le_sentLen (h : SendSpace f) (hstate : f.state ≠ .synRcvd) {ack : Word}
    (hin : InWindow f ack) : min (f.ackOff ack) f.txlen ≤ f.sentLen := by
  have hle := hin.2
  have hphase := h.phase
  have hsyn : f.synOut = false := by
    rw [Flow.synOut, beq_eq_false_iff_ne.mpr hstate, Bool.false_and]
  rw [Flow.sentLen, Flow.ctl, hsyn, Bool.false_or, Flow.finOut]
  cases hs : f.state with
  | synRcvd => exact absurd hs hstate
  | established | closeWait | finWait2 | timeWait | closed =>
    rw [decide_eq_false (by decide), Bool.false_and, if_neg Bool.false_ne_true]
    omega
  | finWait1 | closing | lastAck =>
    rw [hs] at hphase
    obtain ⟨-, -, -, hfin⟩ := hphase
    rw [decide_eq_true (by decide), Bool.true_and]
    split
    case isTrue hout =>
      have hedge := hfin.mpr hout
      omega
    case isFalse => omega

theorem Advances.dropsSent (h : Advances arrives f f') (hf : SendSpace f)
    (hok : ∀ g, arrives g → SynUnbuffered f g) : DropsSent f f' := by
  rcases h.kept_or_acked hf with hkept | ⟨g, hg, hacc, hin, hacked⟩
  · obtain ⟨new, hrec, htx⟩ := hkept.grown
    exact ⟨0, new, Nat.zero_le _, hrec, htx⟩
  · obtain ⟨new, hrec, htx⟩ := hacked.shrunk
    by_cases hstate : f.state = .synRcvd
    · have hempty := hok g hg hstate hacc
      rw [hempty, List.drop_nil] at htx
      exact ⟨0, new, Nat.zero_le _, hrec, by rw [htx, hempty, List.drop_nil]⟩
    · exact ⟨_, new, hf.ackOff_le_sentLen hstate hin, hrec, htx⟩

/-! ### Every step -/

/-- What a step does to each of the TCP flows it finds, those it releases included. A flow that it
opens still waits for the acknowledgement of its SYN, and has lost nothing. -/
structure EachFlow (P : Fin netMaxFlows → Flow → Flow → Prop) (ns ns' : NetStack ε) : Prop where
  live : ∀ i, TcpLive (ns.flow i) → TcpLive (ns'.flow i) → P i (ns.flow i) (ns'.flow i)
  fresh : ∀ i, ¬TcpLive (ns.flow i) → TcpLive (ns'.flow i) →
    (ns'.flow i).state = .synRcvd ∧ (ns'.flow i).txbuf = (ns'.flow i).history.received
  gone : ∀ why f, (why, f) ∈ ns'.core.released → TcpLive f →
    (why, f) ∈ ns.core.released ∨ (∃ i, TcpLive (ns.flow i) ∧ P i (ns.flow i) f) ∨
      f.state = .synRcvd ∧ f.txbuf = f.history.received

theorem Opened.waits (h : Opened f) : f.state = .synRcvd ∧ f.txbuf = f.history.received := by
  obtain ⟨ε, core, core', g, gport, dport, dstIp, hmoves⟩ := h
  have hkept := hmoves.kept
  obtain ⟨new, hrec, htx⟩ := hkept.grown
  exact ⟨hkept.syn_iff.mpr rfl, htx.trans hrec.symm⟩

/-- What holds of every flow that gets on holds of each flow of a step. -/
theorem StepSpec.eachFlow {arrives : Fin netMaxFlows → Segment → Prop} {ns' : NetStack ε}
    {P : Fin netMaxFlows → Flow → Flow → Prop} (h : StepSpec arrives ns ns')
    (hP : ∀ i f', TcpLive (ns.flow i) → Advances (arrives i) (ns.flow i) f' → P i (ns.flow i) f') :
    EachFlow P ns ns' where
  live i hlive hlive' := by
    rcases h.live i hlive' with ⟨-, hadv⟩ | ⟨hunused, -⟩
    · exact hP i _ hlive hadv
    · exact absurd (hunused.symm.trans hlive.1) Bool.false_ne_true
  fresh i hdead hlive' := by
    rcases h.live i hlive' with ⟨hlive, -⟩ | ⟨-, hopen⟩
    · exact absurd hlive hdead
    · exact hopen.waits
  gone why f hmem hlive := by
    rcases h.gone why f hmem hlive with hold | ⟨-, ⟨i, hlive', hadv⟩ | hopen⟩
    · exact .inl hold
    · exact .inr (.inl ⟨i, hlive', hP i f hlive' hadv⟩)
    · exact .inr (.inr hopen.waits)

/-- In every state of a run the cursors are in order, and nothing but an acknowledgement in the
window moves them on. A step takes out of the send buffers only what has been emitted, if no
acknowledgement of a SYN finds octets of the host there. -/
theorem sendCursors_safe (h : Reached (fun _ _ => True) ns) (op : Op ε) :
    (∀ i, TcpLive (ns.flow i) → SendOrdered (ns.flow i)) ∧
      EachFlow (fun i => AckEffect fun g => op.segment ns = some (i, g)) ns (netStep op ns) ∧
      (Meets SynUnbuffered ns op → EachFlow (fun _ => DropsSent) ns (netStep op ns)) := by
  have hspace : ∀ i, TcpLive (ns.flow i) → SendSpace (ns.flow i) :=
    (sendSpace_invariant.reached h.meets_true).live
  refine ⟨fun i hlive => (hspace i hlive).ordered, ?_, fun hok => ?_⟩
  · exact (netStep_spec op ns).eachFlow fun i f' hlive hadv => hadv.ackEffect (hspace i hlive)
  · exact (netStep_spec op ns).eachFlow fun i f' hlive hadv =>
      hadv.dropsSent (hspace i hlive) (hok i)

/-! ### A host that speaks first

A guest connects to a host that sends two octets at once, before the guest has acknowledged the
SYN. -/

/-- A segment from the guest to a host, with its datagram. -/
def guestSegment (gport dport : Port) (seq ack : Word) (flags : Byte) (wnd : BitVec 16)
    (data : List Byte) : List Byte :=
  let guest := netConfigDefault.guestIp
  let host : Word := 0x5db8d822
  let fields := fun checksum => tcpFields gport dport seq ack [] flags wnd checksum data
  let seg := fields (netL4Checksum guest host netProtoTcp (fields 0))
  netBuildIpv4 guest host netProtoTcp 1 seg.length ++ seg

/-- A host that accepts all it is offered, up to a limit, and says what it has been told to say, as
far as there is room. To say nothing is to end the stream. -/
def scriptedHost (limit : Nat) : Egress (List (List Byte)) where
  openFlow := some fun _ _ _ x => (0, x)
  status := none
  send := some fun _ data x => (min data.length limit, x)
  recv := some fun _ cap x => match x with
    | [] => (.wouldBlock, [])
    | [] :: rest => (.eof, rest)
    | data :: rest => if data.length ≤ cap then (.bytes data, rest) else (.wouldBlock, rest)
  shutdownTx := none
  close := none
  resolve := none
  icmpEcho := none
  send_le := by
    rintro f ⟨⟩ h data x
    exact Int.min_le_left _ _
  recv_le := by
    rintro f ⟨⟩ h cap x data hdata
    rcases x with _ | ⟨_ | ⟨octet, more⟩, rest⟩
    · cases hdata
    · cases hdata
    · dsimp only at hdata
      split at hdata
      case isTrue hfits =>
        cases hdata
        exact ⟨List.cons_ne_nil _ _, hfits⟩
      case isFalse => cases hdata

/-- The first initial sequence number of the stack. -/
def firstIss : Word := netConfigDefault.iss + issStride

/-- The stack behind a list of actions, with a host that has the given things to say. -/
def scripted (limit : Nat) (speech : List (List Byte)) (ops : List (Op (List (List Byte)))) :
    NetStack (List (List Byte)) :=
  Runs.follow netStep (netInit netConfigDefault (scriptedHost limit) speech) ops

theorem scripted_reached (limit : Nat) (speech : List (List Byte))
    (ops : List (Op (List (List Byte)))) :
    Reached (fun _ _ => True) (scripted limit speech ops) :=
  ⟨_, _, _, Runs.run_follow _ ops⟩

/-- The host has been heard, and its octets are on their way. -/
def heardInTime : NetStack (List (List Byte)) :=
  scripted 4096 [[0x41, 0x42]] [.input (guestSegment 1000 80 100 0 tcpSyn 8192 []),
    .input (guestSegment 1000 80 101 (firstIss + 1) tcpAck 8192 [])]

/-- The acknowledgement of the SYN and of both octets. -/
def ackData : Op (List (List Byte)) :=
  .input (guestSegment 1000 80 101 (firstIss + 3) tcpAck 8192 [])

theorem sendCursors_safe_ackData :
    (∀ i, TcpLive (heardInTime.flow i) → SendOrdered (heardInTime.flow i)) ∧
      EachFlow (fun i => AckEffect fun g => ackData.segment heardInTime = some (i, g)) heardInTime
        (netStep ackData heardInTime) ∧
      EachFlow (fun _ => DropsSent) heardInTime (netStep ackData heardInTime) := by
  obtain ⟨hord, hack, hdrops⟩ := sendCursors_safe (scripted_reached _ _ _ : Reached _ heardInTime)
    ackData
  have hstate : ∀ i, (heardInTime.flow i).state ≠ .synRcvd := by decide +kernel
  exact ⟨hord, hack, hdrops fun i g _ hs => absurd hs (hstate i)⟩

/-- The host has been heard before the guest has acknowledged the SYN. -/
def heardEarly : NetStack (List (List Byte)) :=
  scripted 4096 [[0x41, 0x42]] [.input (guestSegment 1000 80 100 0 tcpSyn 8192 []), .tick 1]

/-- The acknowledgement of the SYN, and of nothing else. -/
def ackSyn : Op (List (List Byte)) :=
  .input (guestSegment 1000 80 101 (firstIss + 1) tcpAck 8192 [])

/-- The acknowledgement of the SYN takes an octet out of the buffer that has never been emitted. -/
theorem sendCursors_unsafe_synAck :
    ¬∀ ns : NetStack (List (List Byte)), Reached (fun _ _ => True) ns → ∀ op,
      EachFlow (fun _ => DropsSent) ns (netStep op ns) := by
  intro hall
  have hstep := hall heardEarly (scripted_reached _ _ _) ackSyn
  obtain ⟨n, new, hn, -, htx⟩ := hstep.live 0 (by rw [TcpLive]; decide +kernel)
    (by rw [TcpLive]; decide +kernel)
  have hsent : (heardEarly.flow 0).sentLen = 0 := by decide +kernel
  have hbefore : (heardEarly.flow 0).txbuf = [0x41, 0x42] := by decide +kernel
  have hafter : ((netStep ackSyn heardEarly).flow 0).txbuf = [0x42] := by decide +kernel
  have hn0 : n = 0 := by omega
  rw [hafter, hbefore, hn0] at htx
  have hlen := congrArg List.length htx
  simp at hlen

end S5LBox.Net
