import S5LBox.Net.HostStream

/-!
# The stream of the guest

What the guest sends reaches the host as a stream: octet `j` of it has the sequence number
`irs + 1 + j`. A segment is taken in from `rcv_nxt` on, as far as there is room, and never ahead of
it. So whatever segments the guest cuts its stream into, in whatever order they come and however
often, the host gets the stream from its start.

## Main definitions

* `Ledger`: every octet that has been taken in is accepted by the host or in the buffer.
* `Agrees`: a segment agrees with a stream, seen from where the flow is in it.
* `GuestStream`: what has been taken in is the start of the stream, up to `rcv_nxt`.

## Main results

* `guestStream_intact`: it holds along a run whose segments agree with the stream of their flow.
-/

namespace S5LBox.Net

open SerialNumbers

variable {f f' f'' : Flow}

/-! ### What an acknowledgement leaves alone -/

/-- The receive side is as it was. -/
structure RecvKept (f f' : Flow) : Prop where
  irs_eq : f'.irs = f.irs
  rcvNxt_eq : f'.rcvNxt = f.rcvNxt
  rxbuf_eq : f'.rxbuf = f.rxbuf
  history_eq : f'.history = f.history

theorem RecvKept.trans (h : RecvKept f f') (h' : RecvKept f' f'') : RecvKept f f'' :=
  ⟨h'.irs_eq.trans h.irs_eq, h'.rcvNxt_eq.trans h.rcvNxt_eq, h'.rxbuf_eq.trans h.rxbuf_eq,
    h'.history_eq.trans h.history_eq⟩

/-- The acknowledgement of a segment leaves the receive side alone. -/
theorem recvKept_acked (now : Word) (g : Segment) (f : Flow) :
    RecvKept f (tcpEstablish (acked now g f)) := by
  have hest : ∀ f, RecvKept f (tcpEstablish f) := by
    intro f
    rw [tcpEstablish]
    split <;> exact ⟨rfl, rfl, rfl, rfl⟩
  have htimers : ∀ f, RecvKept f (tcpTimers now f) := by
    intro f
    rw [tcpTimers]
    split_ifs <;> exact ⟨rfl, rfl, rfl, rfl⟩
  have hconsume : ∀ f, RecvKept f (tcpConsumeAck now g.ack f) := by
    intro f
    rw [tcpConsumeAck]
    split_ifs
    · exact ⟨rfl, rfl, rfl, rfl⟩
    · rw [tcpFinAcked]
      split <;> exact ⟨rfl, rfl, rfl, rfl⟩
    · exact ⟨rfl, rfl, rfl, rfl⟩
  refine .trans ?_ (hest _)
  have htouch : RecvKept f { f with lastMs := now, sndWnd := g.wnd } := ⟨rfl, rfl, rfl, rfl⟩
  have hread := htouch.trans (hconsume _)
  rw [acked, tcpTakeAck]
  dsimp only
  split
  · exact hread.trans (htimers _)
  · exact hread

/-- What the acknowledgement of a segment makes of the state of the connection. -/
def stateBehind (f : Flow) (ack : Word) : TcpState :=
  if InWindow f ack then ackedState f.state (decide (AcksFin f ack)) else f.state

theorem acked_state (h : SendSpace f) {g : Segment} (hacc : Acceptable f g) (now : Word) :
    (tcpEstablish (acked now g f)).state = stateBehind f g.ack := by
  have htimers : ∀ f, (tcpTimers now f).state = f.state := by
    intro f
    rw [tcpTimers]
    split_ifs <;> rfl
  have hquiet := Move.quiet f f.handle now g.wnd f.ssthresh f.txShutdown f.needAck f.rtoOn f.rtoAt
    f.rtx f.closeAt
  have h₁ := h.move hquiet
  have hest : ∀ f f' : Flow, f'.state = f.state →
      (tcpEstablish f').state = (tcpEstablish f).state := by
    intro f f' hs
    rw [tcpEstablish, tcpEstablish, hs]
    split
    · rfl
    · exact hs
  have hread : (tcpEstablish (acked now g f)).state = (tcpEstablish
      (tcpConsumeAck now g.ack { f with lastMs := now, sndWnd := g.wnd })).state := by
    apply hest
    rw [acked, tcpTakeAck]
    dsimp only
    split
    · exact htimers _
    · rfl
  rw [hread, tcpConsumeAck_eq h₁ hacc.past, stateBehind]
  by_cases hin : InWindow f g.ack
  · obtain ⟨closeAt, heq⟩ := establish_acknowledge h₁ hin now
    rw [if_pos hin, if_pos (show InWindow { f with lastMs := now, sndWnd := g.wnd } g.ack from hin),
      heq]
    rfl
  · have hstate : f.state ≠ .synRcvd := fun hs =>
      hin ((netSeqLt_una_iff h hacc.past).mp (hacc.handshake hs))
    rw [if_neg hin, if_neg (show ¬InWindow { f with lastMs := now, sndWnd := g.wnd } g.ack from hin),
      tcpEstablish, if_neg hstate]

/-! ### The ledger -/

/-- Every octet that has been taken in is accepted by the host or in the buffer. -/
structure Ledger (f : Flow) : Prop where
  taken_eq : f.history.taken = f.history.accepted ++ f.rxbuf
  room : f.rxlen ≤ netTcpRxbuf

theorem Ledger.of_same (h : Ledger f) (hrx : f'.rxbuf = f.rxbuf)
    (htaken : f'.history.taken = f.history.taken)
    (haccepted : f'.history.accepted = f.history.accepted) : Ledger f' :=
  ⟨by rw [htaken, haccepted, hrx]; exact h.taken_eq, by rw [Flow.rxlen, hrx]; exact h.room⟩

theorem Ledger.move (hmove : Move f f') (h : Ledger f) : Ledger f' := by
  cases hmove with
  | accept n =>
    refine ⟨?_, ?_⟩
    · show f.history.taken = f.history.accepted ++ f.rxbuf.take n ++ f.rxbuf.drop n
      rw [List.append_assoc, List.take_append_drop]
      exact h.taken_eq
    · show (f.rxbuf.drop n).length ≤ _
      rw [List.length_drop]
      exact le_trans (Nat.sub_le _ _) h.room
  | _ => exact h.of_same rfl rfl rfl

/-- What is new in a segment fits into the buffer. -/
theorem length_tcpNewData_le (g : Segment) (f : Flow) :
    (tcpNewData g f).length ≤ netTcpRxbuf - f.rxlen := by
  rw [tcpNewData]
  split
  · rw [List.length_take]
    exact Nat.min_le_left _ _
  · exact Nat.zero_le _

theorem Ledger.tcpTakeData (h : Ledger f) (g : Segment) : Ledger (tcpTakeData g f) := by
  rw [Net.tcpTakeData]
  split
  · refine ⟨?_, ?_⟩
    · show f.history.taken ++ tcpNewData g f = f.history.accepted ++ (f.rxbuf ++ tcpNewData g f)
      rw [h.taken_eq, List.append_assoc]
    · show (f.rxbuf ++ tcpNewData g f).length ≤ _
      have hnew := length_tcpNewData_le g f
      have hroom := h.room
      rw [Flow.rxlen] at hnew hroom
      rw [List.length_append]
      omega
  · exact h

theorem recvKept_tcpRepeatFin (now : Word) (g : Segment) (f : Flow) :
    RecvKept f (tcpRepeatFin now g f) ∧ (tcpRepeatFin now g f).state = f.state := by
  rw [tcpRepeatFin]
  split <;> exact ⟨⟨rfl, rfl, rfl, rfl⟩, rfl⟩

theorem tcpTakeFin_octets (now : Word) (g : Segment) (f : Flow) :
    (tcpTakeFin now g f).rxbuf = f.rxbuf ∧ (tcpTakeFin now g f).history = f.history ∧
      (tcpTakeFin now g f).irs = f.irs := by
  rw [tcpTakeFin]
  split
  · dsimp only
    split <;> exact ⟨rfl, rfl, rfl⟩
  · exact ⟨rfl, rfl, rfl⟩

theorem Ledger.deliver (h : Ledger f) (now : Word) (g : Segment) :
    Ledger (tcpDeliver now g f) := by
  rw [tcpDeliver]
  have hdata := h.tcpTakeData g
  have hrepeat := (recvKept_tcpRepeatFin now g (Net.tcpTakeData g f)).1
  have hfin := tcpTakeFin_octets now g (tcpRepeatFin now g (Net.tcpTakeData g f))
  refine hdata.of_same (hfin.1.trans hrepeat.rxbuf_eq) ?_ ?_ <;>
    rw [hfin.2.1, hrepeat.history_eq]

/-- The ledger is right along every run. -/
theorem ledger_invariant : FlowInvariant (fun _ _ => True) fun f => SendSpace f ∧ Ledger f where
  opened core core' g gport dport dstIp :=
    ⟨sendSpace_tcpSynFlow core core' g gport dport dstIp, ⟨rfl, Nat.zero_le _⟩⟩
  move _ _ hmove h := ⟨h.1.move hmove, h.2.move hmove⟩
  settled now g f hok hacc h := sendSpace_invariant.settled now g f hok hacc h.1
  deliver now g f hok hacc h := by
    have hkept := recvKept_acked now g f
    refine ⟨sendSpace_invariant.deliver now g f hok hacc h.1, ?_⟩
    refine Ledger.deliver (h.2.of_same hkept.rxbuf_eq ?_ ?_) now g <;> rw [hkept.history_eq]

/-! ### The stream -/

/-- The sequence number of the octet of the guest that comes next. -/
def Flow.nextOctet (f : Flow) : Word := f.irs + 1 + BitVec.ofNat 32 f.history.taken.length

/-- A segment agrees with a stream, seen from where the flow is in it: each of its octets is the
octet of the stream whose sequence number it has, the one that is nearest to the next octet. -/
def Agrees (s : Nat → Byte) (f : Flow) (g : Segment) : Prop :=
  ∀ k (hk : k < g.payload.length) (j : Nat),
    (j : Int) = f.history.taken.length + (g.seq + BitVec.ofNat 32 k - f.nextOctet).toInt →
      g.payload.get ⟨k, hk⟩ = s j

instance (s : Nat → Byte) (f : Flow) (g : Segment) : Decidable (Agrees s f g) :=
  decidable_of_iff (∀ k : Fin g.payload.length,
      0 ≤ f.history.taken.length + (g.seq + BitVec.ofNat 32 k - f.nextOctet).toInt →
        g.payload.get k = s (f.history.taken.length +
          (g.seq + BitVec.ofNat 32 k - f.nextOctet).toInt).toNat)
    ⟨fun h k hk j hj => by
      have hoct := h ⟨k, hk⟩ (hj ▸ Int.natCast_nonneg j)
      rw [← hj] at hoct
      exact hoct,
    fun h k hk => h k k.isLt _ (Int.toNat_of_nonneg hk)⟩

/-- The sequence number that a FIN of the guest occupies. -/
def finLen (s : TcpState) : Nat := if tcpGuestFinished s then 1 else 0

/-- What has been taken in is the start of the stream, up to `rcv_nxt`. -/
structure GuestStream (s : Nat → Byte) (f : Flow) : Prop where
  octets : f.history.taken = (List.range f.history.taken.length).map s
  rcvNxt_eq : f.rcvNxt =
    f.irs + 1 + BitVec.ofNat 32 (f.history.taken.length + finLen f.state)

variable {s : Nat → Byte} {g : Segment}

theorem GuestStream.of_same (h : GuestStream s f) (hirs : f'.irs = f.irs)
    (hnxt : f'.rcvNxt = f.rcvNxt) (htaken : f'.history.taken = f.history.taken)
    (hfin : tcpGuestFinished f'.state = tcpGuestFinished f.state) : GuestStream s f' := by
  refine ⟨by rw [htaken]; exact h.octets, ?_⟩
  rw [hnxt, hirs, htaken, finLen, hfin]
  exact h.rcvNxt_eq

/-- No move accepts a FIN of the guest. -/
theorem Move.guestFinished (hmove : Move f f') :
    tcpGuestFinished f'.state = tcpGuestFinished f.state := by
  cases hmove with
  | markFin heof hfin hstate =>
    show tcpGuestFinished (if f.state = .closeWait then .lastAck else .finWait1) = _
    rcases hstate with hs | hs <;> rw [hs] <;> rfl
  | _ => rfl

theorem GuestStream.move (hmove : Move f f') (h : GuestStream s f) : GuestStream s f' := by
  have hfin := hmove.guestFinished
  cases hmove <;> exact h.of_same rfl rfl rfl hfin

theorem GuestStream.rcvNxt_open (h : GuestStream s f) (hopen : tcpGuestFinished f.state = false) :
    f.rcvNxt = f.nextOctet := by
  have hfin : finLen f.state = 0 := if_neg (by simp [hopen])
  have heq := h.rcvNxt_eq
  rwa [hfin, Nat.add_zero] at heq

/-- What is new in a segment that agrees with the stream is where the stream goes on. -/
theorem tcpNewData_eq (hagrees : Agrees s f g) (hnxt : f.rcvNxt = f.nextOctet) :
    tcpNewData g f = (List.range' f.history.taken.length (tcpNewData g f).length).map s := by
  rw [tcpNewData]
  split
  case isFalse => rfl
  generalize hoff : (f.rcvNxt - g.seq).toNat = off
  apply List.ext_getElem?
  intro i
  by_cases hi : i < ((g.payload.drop off).take (netTcpRxbuf - f.rxlen)).length
  · rw [List.getElem?_map, List.getElem?_range' hi, List.getElem?_eq_getElem hi]
    have hlen := hi
    rw [List.length_take, List.length_drop] at hlen
    have hroom : netTcpRxbuf = 4096 := rfl
    have hk : off + i < g.payload.length := by omega
    have hpos : g.seq + BitVec.ofNat 32 (off + i) - f.rcvNxt = BitVec.ofNat 32 i := by
      have hgo : f.rcvNxt = g.seq + BitVec.ofNat 32 off := by
        rw [← hoff]
        exact (start_add_offset g.seq f.rcvNxt).symm
      rw [hgo, BitVec.ofNat_add, ← BitVec.add_assoc, BitVec.add_comm (g.seq + BitVec.ofNat 32 off),
        BitVec.add_sub_cancel]
    have hint : (BitVec.ofNat 32 i).toInt = i := by
      rw [BitVec.toInt_eq_toNat_cond, BitVec.toNat_ofNat, Nat.mod_eq_of_lt (by omega),
        if_pos (by omega)]
    have hoct := hagrees (off + i) hk (f.history.taken.length + i)
      (by rw [← hnxt, hpos, hint]; rfl)
    rw [Option.map_some, List.getElem_take, List.getElem_drop, Nat.one_mul, ← hoct]
    rfl
  · rw [List.getElem?_eq_none (Nat.not_lt.mp hi), List.getElem?_eq_none]
    rw [List.length_map, List.length_range']
    exact Nat.not_lt.mp hi

theorem GuestStream.tcpTakeData (h : GuestStream s f) (hagrees : Agrees s f g) :
    GuestStream s (tcpTakeData g f) := by
  rw [Net.tcpTakeData]
  split
  case isFalse => exact h
  case isTrue hopen =>
    have hnxt := h.rcvNxt_open (by simpa using hopen.2)
    have hnew := tcpNewData_eq hagrees hnxt
    have hfin : finLen f.state = 0 := if_neg (by simpa using hopen.2)
    generalize tcpNewData g f = new at hnew ⊢
    have hlen : (f.history.taken ++ new).length = f.history.taken.length + new.length :=
      List.length_append
    refine ⟨?_, ?_⟩
    · show f.history.taken ++ new = (List.range (f.history.taken ++ new).length).map s
      rw [hlen, List.range_eq_range', ← List.range'_append, List.map_append, Nat.zero_add,
        Nat.one_mul, ← hnew, ← List.range_eq_range', ← h.octets]
    · show f.rcvNxt + BitVec.ofNat 32 new.length =
        f.irs + 1 + BitVec.ofNat 32 ((f.history.taken ++ new).length + finLen f.state)
      rw [hlen, hnxt, hfin, Nat.add_zero, BitVec.ofNat_add, Flow.nextOctet, BitVec.add_assoc]

/-- A FIN is accepted behind all octets that it follows. -/
theorem GuestStream.tcpTakeFin (h : GuestStream s f) (now : Word)
    (hstate : f.state ≠ .synRcvd) (hclosed : f.state ≠ .closed) :
    GuestStream s (tcpTakeFin now g f) ∧
      (tcpGuestFinished f.state = false → tcpGuestFinished (tcpTakeFin now g f).state = true →
        hasFlag g.flags tcpFin = true ∧ g.segEnd = f.nextOctet) := by
  rw [Net.tcpTakeFin]
  split
  case isFalse => exact ⟨h, fun hno hyes => absurd (hno.symm.trans hyes) Bool.false_ne_true⟩
  case isTrue hfin =>
    obtain ⟨hflag, hend, hopen⟩ := hfin
    have hnxt := h.rcvNxt_open (by simpa using hopen)
    have hnext : f.rcvNxt + 1 = f.irs + 1 + BitVec.ofNat 32 (f.history.taken.length + 1) := by
      rw [hnxt, BitVec.ofNat_add, ← BitVec.add_assoc]
      rfl
    refine ⟨?_, fun _ _ => ⟨hflag, hend.trans hnxt⟩⟩
    dsimp only
    cases hs : f.state with
    | synRcvd => exact absurd hs hstate
    | closed => exact absurd hs hclosed
    | established | finWait1 | finWait2 => exact ⟨h.octets, hnext⟩
    | closeWait | closing | lastAck | timeWait =>
      rw [hs] at hopen
      exact absurd hopen (by decide)

/-- The FIN of the guest that a segment brings is accepted behind all octets that it follows. -/
def FinInOrder (arrives : Segment → Prop) (f f' : Flow) : Prop :=
  tcpGuestFinished f.state = false → tcpGuestFinished f'.state = true →
    ∃ g, arrives g ∧ hasFlag g.flags tcpFin = true ∧ g.segEnd = f'.nextOctet

theorem tcpTakeData_frame (g : Segment) (f : Flow) :
    (tcpTakeData g f).state = f.state ∧
      (tcpTakeData g f).history.number = f.history.number := by
  rw [tcpTakeData]
  split <;> exact ⟨rfl, rfl⟩

theorem tcpDeliver_number (now : Word) (g : Segment) (f : Flow) :
    (tcpDeliver now g f).history.number = f.history.number := by
  rw [tcpDeliver, (tcpTakeFin_octets now g _).2.1, (recvKept_tcpRepeatFin now g _).1.history_eq]
  exact (tcpTakeData_frame g f).2

/-- A closed flow stays closed, whatever comes. -/
theorem tcpDeliver_closed (now : Word) (g : Segment) (hs : f.state = .closed) :
    (tcpDeliver now g f).state = .closed := by
  have hs₂ : (tcpRepeatFin now g (tcpTakeData g f)).state = .closed :=
    ((recvKept_tcpRepeatFin now g _).2.trans (tcpTakeData_frame g f).1).trans hs
  rw [tcpDeliver, tcpTakeFin]
  split
  · dsimp only
    rw [hs₂]
  · exact hs₂

/-- An acknowledgement accepts no FIN of the guest, but it may close the flow. -/
theorem stateBehind_guestFinished (f : Flow) (ack : Word) :
    stateBehind f ack = .closed ∨
      tcpGuestFinished (stateBehind f ack) = tcpGuestFinished f.state := by
  rw [stateBehind]
  split
  · cases f.state <;> cases decide (AcksFin f ack) <;> decide
  · exact .inr rfl

/-- The stream behind a segment that agrees with it. -/
theorem GuestStream.delivered (h : GuestStream s f) (hspace : SendSpace f)
    (hacc : Acceptable f g) (hagrees : Agrees s f g) (now : Word) :
    (Net.delivered now g f).state = .closed ∨ GuestStream s (Net.delivered now g f) ∧
      FinInOrder (· = g) f (Net.delivered now g f) := by
  have hkept := recvKept_acked now g f
  have hstate := acked_state hspace hacc now
  have hne : (tcpEstablish (acked now g f)).state ≠ .synRcvd := by
    rw [tcpEstablish]
    split
    · rintro ⟨⟩
    case isFalse hs => exact hs
  rw [Net.delivered]
  generalize tcpEstablish (acked now g f) = f₁ at hkept hstate hne ⊢
  rcases stateBehind_guestFinished f g.ack with hs | hfin
  · exact .inl (tcpDeliver_closed now g (hstate.trans hs))
  by_cases hclosed : f₁.state = .closed
  · exact .inl (tcpDeliver_closed now g hclosed)
  rw [← hstate] at hfin
  have h₁ : GuestStream s f₁ :=
    h.of_same hkept.irs_eq hkept.rcvNxt_eq (by rw [hkept.history_eq]) hfin
  have hagrees₁ : Agrees s f₁ g := by
    rw [Agrees, Flow.nextOctet, hkept.history_eq, hkept.irs_eq]
    exact hagrees
  have hdata := h₁.tcpTakeData hagrees₁
  obtain ⟨hrepeat, hs₂⟩ := recvKept_tcpRepeatFin now g (Net.tcpTakeData g f₁)
  have hframe := tcpTakeData_frame g f₁
  have h₂ : GuestStream s (tcpRepeatFin now g (Net.tcpTakeData g f₁)) :=
    hdata.of_same hrepeat.irs_eq hrepeat.rcvNxt_eq (by rw [hrepeat.history_eq])
      (congrArg tcpGuestFinished hs₂)
  have hstate₂ := hs₂.trans hframe.1
  rw [tcpDeliver]
  generalize tcpRepeatFin now g (Net.tcpTakeData g f₁) = f₂ at h₂ hstate₂ ⊢
  obtain ⟨hstream, horder⟩ := h₂.tcpTakeFin (g := g) now (hstate₂ ▸ hne) (hstate₂ ▸ hclosed)
  obtain ⟨-, hhist, hirs⟩ := tcpTakeFin_octets now g f₂
  refine .inr ⟨hstream, fun hno hyes => ?_⟩
  have hno₂ : tcpGuestFinished f₂.state = false := by rw [hstate₂, hfin, hno]
  obtain ⟨hflag, hend⟩ := horder hno₂ hyes
  exact ⟨g, rfl, hflag, by rw [hend, Flow.nextOctet, Flow.nextOctet, hhist, hirs]⟩

/-- The stream of each flow is kept as long as the segments that arrive agree with it. -/
theorem guestStream_invariant (S : Nat → Nat → Byte) :
    FlowInvariant (fun f g => Agrees (S f.history.number) f g) fun f =>
      SendSpace f ∧ (f.state = .closed ∨ GuestStream (S f.history.number) f) where
  opened core core' g gport dport dstIp := by
    refine ⟨sendSpace_tcpSynFlow core core' g gport dport dstIp, .inr ⟨rfl, ?_⟩⟩
    exact (BitVec.add_zero (g.seq + 1)).symm
  move f f' hmove h := by
    have hnumber : f'.history.number = f.history.number := by cases hmove <;> rfl
    refine ⟨h.1.move hmove, ?_⟩
    rw [hnumber]
    exact h.2.imp hmove.stays_closed fun hstream => hstream.move hmove
  settled now g f _ hacc h := sendSpace_invariant.settled now g f trivial hacc h.1
  deliver now g f hok hacc h := by
    refine ⟨sendSpace_invariant.deliver now g f trivial hacc h.1, ?_⟩
    have hnumber : (delivered now g f).history.number = f.history.number :=
      (tcpDeliver_number now g _).trans (by rw [(recvKept_acked now g f).history_eq])
    rw [hnumber]
    rcases h.2 with hs | hstream
    · left
      refine tcpDeliver_closed now g ?_
      rw [acked_state h.1 hacc now, stateBehind, hs]
      split <;> rfl
    · exact (hstream.delivered h.1 hacc hok now).imp_right fun hboth => hboth.1

/-! ### Runs -/

theorem Move.taken_eq (hmove : Move f f') :
    f'.history.taken = f.history.taken ∧ f'.irs = f.irs ∧
      tcpGuestFinished f'.state = tcpGuestFinished f.state := by
  have hfin := hmove.guestFinished
  cases hmove <;> exact ⟨rfl, rfl, hfin⟩

theorem Moves.taken_eq (h : Moves f f') :
    f'.history.taken = f.history.taken ∧ f'.irs = f.irs ∧
      tcpGuestFinished f'.state = tcpGuestFinished f.state := by
  induction h with
  | refl => exact ⟨rfl, rfl, rfl⟩
  | tail _ hmove ih =>
    obtain ⟨htaken, hirs, hfin⟩ := hmove.taken_eq
    exact ⟨htaken.trans ih.1, hirs.trans ih.2.1, hfin.trans ih.2.2⟩

/-- A step accepts the FIN of the guest behind all octets that it follows. -/
theorem Advances.finInOrder {arrives : Segment → Prop} (h : Advances arrives f f')
    (hspace : SendSpace f) (hstream : GuestStream s f) (hok : ∀ g, arrives g → Agrees s f g) :
    FinInOrder arrives f f' := by
  cases h with
  | moves h =>
    intro hno hyes
    exact absurd (hno.symm.trans (h.taken_eq.2.2.symm.trans hyes)) Bool.false_ne_true
  | waits now g _ hacc hwait _ =>
    exact absurd hwait (sendSpace_invariant.settled now g f trivial hacc hspace)
  | delivers now g hg hacc _ h =>
    obtain ⟨htaken, hirs, hfin⟩ := h.taken_eq
    intro hno hyes
    rcases hstream.delivered hspace hacc (hok g hg) now with hs | ⟨-, horder⟩
    · rw [hs] at hfin
      exact absurd (hfin.symm.trans hyes) Bool.false_ne_true
    · obtain ⟨_, rfl, hflag, hend⟩ := horder hno (hfin ▸ hyes)
      exact ⟨_, hg, hflag, by rw [hend, Flow.nextOctet, Flow.nextOctet, htaken, hirs]⟩

/-- The host has been given, or will be given from the buffer, the start of the stream of the
guest up to `rcv_nxt`. -/
structure GuestIntact (s : Nat → Byte) (f : Flow) : Prop where
  octets : f.history.accepted ++ f.rxbuf =
    (List.range (f.history.accepted ++ f.rxbuf).length).map s
  length_eq : BitVec.ofNat 32 (f.history.accepted ++ f.rxbuf).length =
    f.rcvNxt - (f.irs + 1) - BitVec.ofNat 32 (finLen f.state)
  room : f.rxlen ≤ netTcpRxbuf

theorem GuestStream.intact (h : GuestStream s f) (hledger : Ledger f) : GuestIntact s f := by
  refine ⟨hledger.taken_eq ▸ h.octets, ?_, hledger.room⟩
  rw [← hledger.taken_eq, h.rcvNxt_eq, BitVec.ofNat_add, ← BitVec.add_assoc,
    BitVec.add_comm (f.irs + 1)]
  rw [BitVec.add_assoc, BitVec.add_comm (f.irs + 1), ← BitVec.add_assoc, BitVec.add_sub_cancel,
    BitVec.add_sub_cancel]

/-- In a run whose segments agree with the stream of their flow, in any order, overlapping and
repeated, what the host has accepted, followed by the receive buffer, is the start of that stream,
up to the next octet that is expected and without a gap; the buffer never holds more than its size;
and the FIN of the guest is accepted only with a segment that ends where the stream has been
received to. -/
theorem guestStream_intact {ε : Type} {ns : NetStack ε} (S : Nat → Nat → Byte)
    (h : Reached (Meets fun f g => Agrees (S f.history.number) f g) ns) (op : Op ε)
    (hop : Meets (fun f g => Agrees (S f.history.number) f g) ns op) :
    (∀ i, TcpLive (ns.flow i) → GuestIntact (S (ns.flow i).history.number) (ns.flow i)) ∧
      EachFlow (fun i => FinInOrder fun g => op.segment ns = some (i, g)) ns (netStep op ns) := by
  have hall := (guestStream_invariant S).reached h
  have hledger := ledger_invariant.reached h.meets_true
  have hstream : ∀ i, TcpLive (ns.flow i) →
      GuestStream (S (ns.flow i).history.number) (ns.flow i) := fun i hlive =>
    (hall.live i hlive).2.resolve_left (h.noneClosed i hlive)
  refine ⟨fun i hlive => (hstream i hlive).intact (hledger.live i hlive).2, ?_⟩
  exact (netStep_spec op ns).eachFlow fun i f' hlive hadv =>
    hadv.finInOrder (hall.live i hlive).1 (hstream i hlive) (hop i)

/-- A guest that sends the letters from `a` on. -/
def letters (j : Nat) : Byte := BitVec.ofNat 8 (0x61 + j)

/-- A guest has sent its second segment before the first one and then too much, to a host that
accepts one octet at a time. -/
def outOfOrder : NetStack (List (List Byte)) :=
  scripted 1 [] [.input (guestSegment 1000 80 100 0 tcpSyn 8192 []),
    .input (guestSegment 1000 80 103 (firstIss + 1) tcpAck 8192 [0x63, 0x64]),
    .input (guestSegment 1000 80 101 (firstIss + 1) tcpAck 8192 [0x61, 0x62]),
    .input (guestSegment 1000 80 100 (firstIss + 1) tcpAck 8192 [0xff, 0x61, 0x62, 0x63])]

/-- The rest of the stream, and its end. -/
def lastLetters : Op (List (List Byte)) :=
  .input (guestSegment 1000 80 103 (firstIss + 1) (tcpAck ||| tcpFin) 8192 [0x63, 0x64])

theorem guestStream_intact_outOfOrder :
    (∀ i, TcpLive (outOfOrder.flow i) → GuestIntact letters (outOfOrder.flow i)) ∧
      EachFlow (fun i => FinInOrder fun g => lastLetters.segment outOfOrder = some (i, g))
        outOfOrder (netStep lastLetters outOfOrder) := by
  refine guestStream_intact (fun _ => letters) ⟨netConfigDefault, scriptedHost 1, [], ?_⟩
    lastLetters (by decide +kernel)
  rw [outOfOrder, scripted, Runs.follow, List.foldl_cons, List.foldl_cons, List.foldl_cons,
    List.foldl_cons, List.foldl_nil]
  refine .next _ (.next _ (.next _ (.next _ .start ?_) ?_) ?_) ?_ <;> decide +kernel

end S5LBox.Net
