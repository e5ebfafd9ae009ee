import S5LBox.Net.GuestStream

/-!
# The end of a connection

A flow that both sides have closed waits for its time to be over, or is released at once. Neither
`TIME-WAIT` nor `CLOSED` offers the host anything more, so the buffer must be empty on the way in.
The code does not wait for that: a segment that ends the connection may find octets in the buffer,
or bring some itself, and they are lost although they have been acknowledged.

## Main definitions

* `Completes`: a segment ends the connection on both sides.
* `Drained`: it finds nothing in the buffer, and brings nothing.

## Main results

* `orderlyClose_drained`: in a run of such segments no octet of the guest is lost in an orderly
  close.
-/

namespace S5LBox.Net

variable {f f' : Flow} {g : Segment}

/-- The acknowledgement reaches our FIN. -/
def ReachesFin (f : Flow) (ack : Word) : Prop := InWindow f ack ∧ AcksFin f ack

/-- The octets that a segment adds to the buffer of an open flow. -/
def broughtBy (f : Flow) (g : Segment) : List Byte :=
  if tcpGuestFinished f.state then [] else tcpNewData g f

/-- The segment carries the FIN of the guest, and no octet in front of it is missing. -/
def EndsGuest (f : Flow) (g : Segment) : Prop :=
  hasFlag g.flags tcpFin = true ∧
    g.segEnd = f.rcvNxt + BitVec.ofNat 32 (tcpNewData g f).length

/-- With this segment both sides have closed the connection, and know it. -/
def Completes (f : Flow) (g : Segment) : Prop :=
  (f.state = .closing ∨ f.state = .lastAck) ∧ ReachesFin f g.ack ∨
    (f.state = .finWait2 ∨ f.state = .finWait1 ∧ ReachesFin f g.ack) ∧ EndsGuest f g

/-- A segment that ends the connection finds the buffer empty, and leaves it empty. In `LAST-ACK`
the code takes octets in although the guest has finished. -/
def Drained (f : Flow) (g : Segment) : Prop :=
  Acceptable f g → Completes f g →
    f.rxbuf = [] ∧ (f.state ≠ .closing → tcpNewData g f = [])

/-- A flow that is over has nothing left for the host. -/
def Flushed (f : Flow) : Prop := f.state = .timeWait ∨ f.state = .closed → f.rxbuf = []

theorem Flushed.move (hmove : Move f f') (h : Flushed f) : Flushed f' := by
  cases hmove with
  | accept n =>
    intro hs
    show f.rxbuf.drop n = []
    rw [h hs, List.drop_nil]
  | markFin heof hfin hstate =>
    intro hs
    have hno : ¬((if f.state = .closeWait then TcpState.lastAck else .finWait1) = .timeWait ∨
        (if f.state = .closeWait then TcpState.lastAck else .finWait1) = .closed) := by
      split <;> decide
    exact absurd hs hno
  | _ => exact h

theorem tcpNewData_nil (hp : g.payload = []) : tcpNewData g f = [] := by
  rw [tcpNewData, hp, List.drop_nil, List.take_nil, ite_self]

/-- The data that a segment adds to a flow. -/
theorem tcpTakeData_eq (g : Segment) (f : Flow) :
    (tcpTakeData g f).rxbuf = f.rxbuf ++ broughtBy f g ∧
      (tcpTakeData g f).rcvNxt = f.rcvNxt + BitVec.ofNat 32 (broughtBy f g).length := by
  rw [tcpTakeData, broughtBy]
  by_cases hopen : g.payload ≠ [] ∧ !tcpGuestFinished f.state
  · rw [if_pos hopen, if_neg (by simpa using hopen.2)]
    exact ⟨rfl, rfl⟩
  · have hnone : (if tcpGuestFinished f.state then [] else tcpNewData g f) = [] := by
      split
      · rfl
      case isFalse hfin =>
        apply tcpNewData_nil
        by_contra hp
        exact hopen ⟨hp, by simpa using hfin⟩
    rw [if_neg hopen, hnone]
    exact ⟨(List.append_nil _).symm, (BitVec.add_zero _).symm⟩

theorem tcpDeliver_rxbuf (now : Word) (g : Segment) (f : Flow) :
    (tcpDeliver now g f).rxbuf = f.rxbuf ++ broughtBy f g := by
  rw [tcpDeliver, (tcpTakeFin_octets now g _).1, (recvKept_tcpRepeatFin now g _).1.rxbuf_eq]
  exact (tcpTakeData_eq g f).1

/-- A segment ends a connection only through the FIN of the guest. -/
theorem tcpDeliver_over (now : Word) (g : Segment) (f : Flow) :
    (tcpDeliver now g f).state = .timeWait ∨ (tcpDeliver now g f).state = .closed →
      f.state = .timeWait ∨ f.state = .closed ∨ f.state = .finWait2 ∧ EndsGuest f g := by
  obtain ⟨hrepeat, hs⟩ := recvKept_tcpRepeatFin now g (tcpTakeData g f)
  have hstate := hs.trans (tcpTakeData_frame g f).1
  have hnxt := hrepeat.rcvNxt_eq.trans (tcpTakeData_eq g f).2
  rw [tcpDeliver]
  generalize tcpRepeatFin now g (tcpTakeData g f) = f₂ at hstate hnxt ⊢
  rw [tcpTakeFin]
  split
  case isFalse =>
    rw [hstate]
    exact fun hover => hover.imp_right .inl
  case isTrue hfin =>
    obtain ⟨hflag, hend, hopen⟩ := hfin
    rw [hstate] at hopen
    rw [hnxt, broughtBy, if_neg (by simpa using hopen)] at hend
    dsimp only
    rw [hstate]
    cases hst : f.state with
    | finWait2 => exact fun _ => .inr (.inr ⟨rfl, hflag, hend⟩)
    | established | finWait1 => exact fun hover => by rcases hover with hs | hs <;> cases hs
    | _ => exact fun hover => hover.imp_right .inl

/-- An acknowledgement that does not reach our FIN completes the handshake at most. -/
theorem stateBehind_cases (f : Flow) (ack : Word) :
    stateBehind f ack = f.state ∨ stateBehind f ack = .established ∨
      ReachesFin f ack ∧ stateBehind f ack = ackedState f.state true := by
  rw [stateBehind]
  by_cases hin : InWindow f ack
  · rw [if_pos hin]
    by_cases hfin : AcksFin f ack
    · exact .inr (.inr ⟨⟨hin, hfin⟩, by rw [decide_eq_true hfin]⟩)
    · rw [decide_eq_false hfin]
      cases f.state with
      | synRcvd => exact .inr (.inl rfl)
      | _ => exact .inl rfl
  · rw [if_neg hin]
    exact .inl rfl

/-- A segment that meets the condition leaves nothing behind. -/
theorem Flushed.delivered (h : Flushed f) (hspace : SendSpace f) (hacc : Acceptable f g)
    (hok : Drained f g) (hopen : f.state ≠ .closed) (now : Word) :
    Flushed (Net.delivered now g f) := by
  have hkept := recvKept_acked now g f
  have hstate := acked_state hspace hacc now
  intro hover
  rw [Net.delivered] at hover ⊢
  generalize tcpEstablish (acked now g f) = f₁ at hkept hstate hover ⊢
  have hnew : tcpNewData g f₁ = tcpNewData g f := by
    rw [tcpNewData, tcpNewData, Flow.rxlen, hkept.rxbuf_eq, hkept.rcvNxt_eq, Flow.rxlen]
  have hbehind := stateBehind_cases f g.ack
  rw [← hstate] at hbehind
  rw [tcpDeliver_rxbuf, hkept.rxbuf_eq, broughtBy, hnew]
  rcases tcpDeliver_over now g f₁ hover with hs | hs | ⟨hs, hend⟩
  · -- the acknowledgement of our FIN in `CLOSING`, or nothing new
    rw [hs] at hbehind ⊢
    have hrx : f.rxbuf = [] := by
      rcases hbehind with hsame | hno | ⟨hreach, hst⟩
      · exact h (.inl hsame.symm)
      · cases hno
      · cases hf : f.state <;> rw [hf] at hst <;> cases hst
        · exact (hok hacc (.inl ⟨.inl hf, hreach⟩)).1
        · exact h (.inl hf)
    rw [hrx]
    rfl
  · -- the acknowledgement of our FIN in `LAST-ACK`
    rw [hs] at hbehind ⊢
    rcases hbehind with hsame | hno | ⟨hreach, hst⟩
    · exact absurd hsame.symm hopen
    · cases hno
    · cases hf : f.state <;> rw [hf] at hst <;> cases hst
      · exact absurd hf hopen
      · obtain ⟨hrx, hdata⟩ := hok hacc (.inl ⟨.inr hf, hreach⟩)
        rw [hrx, hdata (by rw [hf]; rintro ⟨⟩)]
        rfl
  · -- the FIN of the guest behind the acknowledgement of ours
    have hend' : EndsGuest f g := by
      rw [EndsGuest, ← hnew, ← hkept.rcvNxt_eq]
      exact hend
    have hwait : f.state = .finWait2 ∨ f.state = .finWait1 ∧ ReachesFin f g.ack := by
      rw [hs] at hbehind
      rcases hbehind with hsame | hno | ⟨hreach, hst⟩
      · exact .inl hsame.symm
      · cases hno
      · cases hf : f.state <;> rw [hf] at hst <;> cases hst
        · exact .inr ⟨rfl, hreach⟩
        · exact .inl rfl
    have hne : f.state ≠ .closing := by rcases hwait with hf | ⟨hf, -⟩ <;> rw [hf] <;> rintro ⟨⟩
    obtain ⟨hrx, hdata⟩ := hok hacc (.inr ⟨hwait, hend'⟩)
    rw [hs, hrx, hdata hne]
    rfl

/-- A flow that is over has nothing left for the host, as long as the segments that end a
connection find nothing in the buffer and bring nothing. -/
theorem flushed_invariant : FlowInvariant (fun f g => Drained f g ∧ f.state ≠ .closed)
    fun f => SendSpace f ∧ Ledger f ∧ Flushed f where
  opened core core' g gport dport dstIp :=
    ⟨sendSpace_tcpSynFlow core core' g gport dport dstIp, ⟨rfl, Nat.zero_le _⟩, fun _ => rfl⟩
  move _ _ hmove h := ⟨h.1.move hmove, h.2.1.move hmove, h.2.2.move hmove⟩
  settled now g f _ hacc h := sendSpace_invariant.settled now g f trivial hacc h.1
  deliver now g f hok hacc h := by
    have hledger := ledger_invariant.deliver now g f trivial hacc ⟨h.1, h.2.1⟩
    exact ⟨hledger.1, hledger.2, h.2.2.delivered h.1 hacc hok.1 hok.2 now⟩

/-- In a run in which every segment that ends a connection finds the receive buffer empty and brings
no octets that are new, a flow that is released, for any reason but a reset, has handed to the host
every octet that it has acknowledged to the guest: its buffer is empty, and what the host accepted
is what the flow took in. -/
theorem orderlyClose_drained {ε : Type} {ns : NetStack ε} (h : Reached (Meets Drained) ns) :
    ∀ why f, (why, f) ∈ ns.core.released → TcpLive f → why ≠ .reset →
      f.rxlen = 0 ∧ f.history.accepted = f.history.taken := by
  intro why f hmem hlive hwhy
  obtain ⟨⟨-, hledger, hflushed⟩, hends⟩ :=
    (flushed_invariant.reached h.meets_open).gone why f hmem hlive
  have hrx : f.rxbuf = [] := by
    cases why with
    | reset => exact absurd rfl hwhy
    | closed => exact hflushed (.inr hends)
    | timeWait => exact hflushed (.inl hends)
    | udp => exact hends.elim
  refine ⟨by rw [Flow.rxlen, hrx]; rfl, ?_⟩
  rw [hledger.taken_eq, hrx, List.append_nil]

/-! ### A guest that closes last

The host ends its stream at once, and the guest answers with its own data and FIN. -/

instance (f : Flow) (g : Segment) : Decidable (Acceptable f g) :=
  decidable_of_iff (hasFlag g.flags tcpRst = false ∧ hasFlag g.flags tcpSyn = false ∧
      hasFlag g.flags tcpAck = true ∧ netSeqLt f.sndMax g.ack = false ∧
      (f.state = .synRcvd → netSeqLt f.sndUna g.ack = true))
    ⟨fun h => ⟨h.1, h.2.1, h.2.2.1, h.2.2.2.1, h.2.2.2.2⟩,
      fun h => ⟨h.rst, h.syn, h.ack, h.past, h.handshake⟩⟩

instance (f : Flow) (g : Segment) : Decidable (Completes f g) := by
  unfold Completes ReachesFin EndsGuest; infer_instance

instance (f : Flow) (g : Segment) : Decidable (Drained f g) := by
  unfold Drained; infer_instance

/-- `send` of the egress accepts any number of octets, but never fails. -/
def Egress.NeverFails {ε : Type} (eg : Egress ε) : Prop :=
  ∃ send, eg.send = some send ∧ ∀ h data x, 0 ≤ (send h data x).1

/-- The guest has acknowledged the FIN of the host. -/
def halfClosed : List (Op (List (List Byte))) :=
  [.input (guestSegment 1000 80 100 0 tcpSyn 8192 []),
    .input (guestSegment 1000 80 101 (firstIss + 1) tcpAck 8192 []),
    .input (guestSegment 1000 80 101 (firstIss + 2) tcpAck 8192 [])]

/-- The last data of the guest comes ahead of its FIN. -/
def finLater : List (Op (List (List Byte))) :=
  halfClosed ++ [.input (guestSegment 1000 80 101 (firstIss + 2) tcpAck 8192 [0x61]),
    .input (guestSegment 1000 80 102 (firstIss + 2) (tcpAck ||| tcpFin) 8192 []), .tick 3000]

/-- The last data of the guest comes with its FIN. -/
def finWithData : List (Op (List (List Byte))) :=
  halfClosed ++ [.input (guestSegment 1000 80 101 (firstIss + 2) (tcpAck ||| tcpFin) 8192 [0x61]),
    .tick 3000]

theorem orderlyClose_drained_finLater :
    (∃ why f, (why, f) ∈ (scripted 4096 [[]] finLater).core.released ∧ why ≠ .reset) ∧
      ∀ why f, (why, f) ∈ (scripted 4096 [[]] finLater).core.released → TcpLive f → why ≠ .reset →
        f.rxlen = 0 ∧ f.history.accepted = f.history.taken := by
  refine ⟨⟨.timeWait, ((scripted 4096 [[]] finLater).core.released.map Prod.snd).headD .blank,
    by decide +kernel, nofun⟩, ?_⟩
  refine orderlyClose_drained ⟨netConfigDefault, scriptedHost 4096, [[]], ?_⟩
  rw [scripted, Runs.follow, finLater, halfClosed]
  simp only [List.cons_append, List.nil_append, List.foldl_cons, List.foldl_nil]
  refine .next _ (.next _ (.next _ (.next _ (.next _ (.next _ .start ?_) ?_) ?_) ?_) ?_) ?_ <;>
    decide +kernel

/-- Data that comes with the FIN of the guest is acknowledged and then dropped, although the host
accepts all it is offered. -/
theorem orderlyClose_lossy_finWithData :
    ¬∀ (eg : Egress (List (List Byte))), eg.NeverFails → ∀ cfg ctx ns,
      Runs.Run netStep (fun _ _ => True) (netInit cfg eg ctx) ns →
        ∀ why f, (why, f) ∈ ns.core.released → TcpLive f → why ≠ .reset → f.rxlen = 0 := by
  intro hall
  have hsend : (scriptedHost 4096).NeverFails := by
    refine ⟨_, rfl, fun h data x => ?_⟩
    exact le_min (Int.natCast_nonneg _) (Int.natCast_nonneg _)
  have hempty := hall _ hsend netConfigDefault [[]] _ (Runs.run_follow _ finWithData) .timeWait
    (((scripted 4096 [[]] finWithData).core.released.map Prod.snd).headD .blank)
    (by decide +kernel) (by rw [TcpLive]; decide +kernel) nofun
  exact absurd hempty (by decide +kernel)

end S5LBox.Net
