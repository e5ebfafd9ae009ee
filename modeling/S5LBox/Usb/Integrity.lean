import S5LBox.Usb.Frames

/-!
# Stream integrity

Every action keeps the invariant of a session, the octets of the guest among them, however they
are cut, and follows the frames that they hold. What a receiver that takes the segments of these
frames in order would have is what the service client reads, and what it writes is what such a
receiver at the other end would have.

## Main definitions

* `Reached`: the sessions that actions lead to.
* `Session.guestStream`: the stream that the octets of the guest hold for a connection, as they are
  cut into frames without regard to the receiver.
* `ObeysWindow`: a guest that sends on a connection only what was allowed to it.

## Main results

* `stream_integrity`: the streams of every session, whatever is done with it.
-/

namespace S5LBox.Usb

open Net InOrder Runs

variable {s s' : Session} {c : Channel} {v : Conversation} {g : Segment} {u : Mux}

/-! ### Frames of the guest -/

theorem inputPayload_cases (protocol : Word) (p : List Byte) (u : Mux) :
    (∃ reason, inputPayload protocol p u = usbMuxCancel reason u) ∨
    ((inputPayload protocol p u).channel = u.channel ∧
      (inputPayload protocol p u).nextPort = u.nextPort ∧
      ¬(protocol = 6 ∧ 20 ≤ p.length ∧ p.getD 12 0 >>> 4 = 5)) ∨
    (protocol = 6 ∧ 20 ≤ p.length ∧ p.getD 12 0 >>> 4 = 5) ∧
      inputPayload protocol p u = inputSegment (segmentOf p) u := by
  rw [inputPayload]
  split
  case isTrue =>
    split
    case isTrue => exact .inl ⟨_, rfl⟩
    case isFalse hversion =>
      refine .inr (.inl ⟨rfl, rfl, ?_⟩)
      rintro ⟨rfl, -⟩
      exact hversion (.inl (by decide))
  split
  case isTrue => exact .inl ⟨_, rfl⟩
  split
  case isTrue hone =>
    split
    case isTrue =>
      refine .inr (.inl ⟨rfl, rfl, ?_⟩)
      rintro ⟨hsix, -⟩
      exact absurd (hone.symm.trans hsix) (by decide)
    case isFalse => exact .inl ⟨_, rfl⟩
  split
  case isTrue => exact .inl ⟨_, rfl⟩
  case isFalse hheader =>
    rw [not_or, not_or, not_not, not_not, Nat.not_lt] at hheader
    exact .inr (.inr ⟨hheader, rfl⟩)

theorem inputSegment_nextPort (g : Segment) (u : Mux) :
    (inputSegment g u).nextPort = u.nextPort := by
  rw [inputSegment]
  split <;> rfl

/-- An octet ends the session, or the segment that it brings is taken in. -/
theorem feedOctet_cases (u : Mux) (b : Byte) :
    (feedOctet u b).nextPort = u.nextPort ∧
    ((∃ reason, ∀ i, (feedOctet u b).channel i = cancelChannel reason (u.channel i)) ∨
      (arrivals b u = [] ∧ (feedOctet u b).channel = u.channel) ∨
      ∃ g, arrivals b u = [g] ∧ (feedOctet u b).channel = (inputSegment g u).channel) := by
  rw [feedOctet, arrivals]
  by_cases hstage : u.stage = .failed
  · rw [if_pos hstage, if_neg (by simp [hstage])]
    exact ⟨rfl, .inr (.inl ⟨rfl, rfl⟩)⟩
  rw [if_neg hstage, absorb]
  dsimp only
  generalize u.receive ++ [b] = r
  split
  case isTrue => exact ⟨rfl, .inl ⟨_, fun _ => rfl⟩⟩
  split
  case isFalse hdone =>
    rw [if_neg (fun h => hdone h.2)]
    exact ⟨rfl, .inr (.inl ⟨rfl, rfl⟩)⟩
  case isTrue hdone =>
    rw [if_pos ⟨hstage, hdone⟩, inputFrame]
    have hsize : headerSize { u with receive := r } = headerSize u := rfl
    simp only [hsize]
    split
    case isTrue => exact ⟨rfl, .inl ⟨_, fun _ => rfl⟩⟩
    generalize hu : (if headerSize u = 16 then
      ({ u with receive := r, rxSequence := be16 (r.drop 14) } : Mux)
      else { u with receive := r }) = u₁
    have hchannel : u₁.channel = u.channel ∧ u₁.nextPort = u.nextPort := by
      rw [← hu]
      split <;> exact ⟨rfl, rfl⟩
    have hinput : ∀ g, (inputSegment g u₁).channel = (inputSegment g u).channel := by
      intro g
      simp only [inputSegment, channelOf, hchannel.1]
      split
      · exact hchannel.1
      · simp only [Mux.setChannel, hchannel.1]
    rw [segmentIn]
    rcases inputPayload_cases (be32 r) (r.drop (headerSize u)) u₁ with ⟨reason, heq⟩ |
      ⟨hsame, hnext, hnone⟩ | ⟨hsome, heq⟩
    · rw [heq]
      refine ⟨hchannel.2, .inl ⟨reason, fun i => ?_⟩⟩
      show cancelChannel reason (u₁.channel i) = _
      rw [hchannel.1]
    · rw [if_neg hnone]
      exact ⟨hnext.trans hchannel.2, .inr (.inl ⟨rfl, hsame.trans hchannel.1⟩)⟩
    · rw [if_pos hsome, heq]
      exact ⟨(inputSegment_nextPort _ _).trans hchannel.2, .inr (.inr ⟨_, rfl, hinput _⟩)⟩

/-! ### Segments of the guest -/

/-- A conversation in which one more segment has come. -/
def Conversation.hear (v : Conversation) (g : Segment) : Conversation :=
  { v with arrived := v.arrived ++ [g] }

theorem streamOf_hear (v : Conversation) (g : Segment) :
    streamOf (v.hear g).arrived = take (streamOf v.arrived) g.piece := streamOf_snoc ..

theorem standing_channelError {fault : Fault} : Standing (channelError fault c) v := trivial

/-- A segment with data of a stream in order. -/
theorem Streams.hear (h : Streams c v) (hflags : g.flags = 16 ∨ g.flags = 24)
    (hstate : c.state = .opened) :
    Standing (inputData g { c with sendAcked := g.ack, peerWindow := g.window }) (v.hear g) := by
  obtain ⟨st, hst, hoctets, hnext⟩ := h.incoming
  have hopens : g.piece.opens = false := by
    rcases hflags with hf | hf <;> simp [Segment.piece, hf]
  have hlast : (v.hear g).arrived.getLast? = some g := List.getLast?_concat ..
  have hheard : ∃ g', (v.hear g).arrived.getLast? = some g' ∧ g'.ack = g.ack ∧
      g'.window = g.window := ⟨g, hlast, rfl, rfl⟩
  rw [inputData]
  dsimp only
  split
  case isTrue hseq =>
    split
    case isFalse => exact standing_channelError
    case isTrue =>
      refine Streams.standing ⟨⟨st, ?_, hoctets, hnext⟩, h.outgoing, h.sendNext, h.sent, h.room,
        hheard, h.edges⟩ hstate
      rw [streamOf_hear, hst, take, if_neg (by simp [hopens]), Option.map_some,
        if_neg (fun heq => hseq (heq.trans hnext.symm))]
  case isFalse hseq =>
    rw [not_not] at hseq
    have hextend : streamOf (v.hear g).arrived = some (st.extend g.data) := by
      rw [streamOf_hear, hst, take, if_neg (by simp [hopens]), Option.map_some,
        if_pos (show g.piece.seq = st.next from hseq.trans hnext)]
      rfl
    split
    case isTrue => exact standing_channelError
    case isFalse hroom =>
      split
      case isTrue =>
        refine Streams.standing ⟨⟨_, hextend, ?_, ?_⟩, h.outgoing, h.sendNext, h.sent, ?_, hheard,
          h.edges⟩ hstate
        · show st.octets ++ g.data = v.returned ++ (c.receive ++ g.data)
          rw [hoctets, List.append_assoc]
        · rw [Stream.next_extend, ← hnext]
        · have hold := h.room
          show (c.receive ++ g.data).length ≤ usbMuxRxSize
          rw [List.length_append]
          omega
      case isFalse hnil =>
        rw [not_not] at hnil
        rw [hnil, Stream.extend_nil] at hextend
        exact Streams.standing ⟨⟨st, hextend, hoctets, hnext⟩, h.outgoing, h.sendNext, h.sent,
          h.room, hheard, h.edges⟩ hstate

/-- What a segment of the guest does to a channel agrees with what has passed. -/
theorem Standing.hear (h : Standing c v) (g : Segment) :
    Standing (inputChannel g c) (v.hear g) := by
  rw [inputChannel]
  cases hstate : c.state with
  | closed | closing | error =>
    apply standing_of_not_live
    rintro (hs | hs | hs) <;> rw [hstate] at hs <;> cases hs
  | unused | connect =>
    dsimp only
    split <;> exact standing_channelError
  | opened =>
    have hstreams := h.streams hstate
    dsimp only
    split
    case isTrue => exact standing_channelError
    split
    case isTrue => exact standing_channelError
    case isFalse hflags =>
      split
      case isTrue => exact standing_channelError
      case isFalse =>
        rw [not_and_or, not_not, not_not] at hflags
        have hhear := hstreams.hear hflags hstate
        rw [hstate] at hhear
        exact hhear
  | synSent =>
    rw [Standing, hstate] at h
    dsimp only
    split
    case isTrue => exact standing_channelError
    split
    case isTrue => exact standing_channelError
    case isFalse hopen =>
      rw [not_or, not_not, not_or, not_not, not_not] at hopen
      obtain ⟨hflags, hdata, hack⟩ := hopen
      refine Streams.standing (c := { c with
        sendAcked := g.ack, receiveNext := g.seq + 1, peerWindow := g.window, state := .opened,
        ackPending := true }) ⟨⟨⟨g.seq + 1, []⟩, ?_, ?_, ?_⟩, ?_, ?_, ?_, ?_, ?_, ?_⟩ rfl
      · rw [streamOf_hear, take, if_pos (by simp [Segment.piece, hflags])]
        rfl
      · show [] = v.returned ++ c.receive
        rw [h.returned, h.receive]
        rfl
      · exact (BitVec.add_zero _).symm
      · show _ = some (Stream.mk 1 v.sent)
        rw [h.sent]
        exact h.outgoing
      · show c.sendNext = Stream.next ⟨1, v.sent⟩
        rw [h.sendNext, h.sent]
        rfl
      · show v.sent ++ c.send = v.accepted
        rw [h.sent, h.send, h.accepted]
        rfl
      · show c.receive.length ≤ _
        rw [h.receive]
        exact Nat.zero_le _
      · exact ⟨g, List.getLast?_concat .., rfl, rfl⟩
      · intro e he
        exact le_trans (h.edges e he) (Nat.le_add_left ..)

theorem inputChannel_ports (g : Segment) (c : Channel) :
    (inputChannel g c).localPort = c.localPort ∧ (inputChannel g c).remotePort = c.remotePort := by
  rw [inputChannel]
  split
  case h_5 =>
    split_ifs
    · exact ⟨rfl, rfl⟩
    · exact ⟨rfl, rfl⟩
    · exact ⟨rfl, rfl⟩
    · rw [inputData]
      dsimp only
      split_ifs <;> exact ⟨rfl, rfl⟩
  all_goals first | exact ⟨rfl, rfl⟩ | split_ifs <;> exact ⟨rfl, rfl⟩

/-- No segment brings a channel back. -/
theorem live_of_inputChannel (h : (inputChannel g c).Live) : c.Live := by
  cases hstate : c.state with
  | connect => exact .inl hstate
  | synSent => exact .inr (.inl hstate)
  | opened => exact .inr (.inr hstate)
  | closing | closed | error =>
    simp only [inputChannel, hstate] at h
    exact h
  | unused =>
    simp only [inputChannel, hstate] at h
    split at h <;> rcases h with h | h | h <;> cases h

/-! ### Octets of the guest -/

theorem toward_append (hs : s'.arrived = s.arrived ++ [g]) (p r : Port) :
    s'.toward p r = s.toward p r ++ if g.dport = p ∧ g.sport = r then [g] else [] := by
  rw [Session.toward, Session.toward, hs, List.filter_append]
  split
  case isTrue h => rw [List.filter_cons_of_pos (by simpa using h), List.filter_nil]
  case isFalse h => rw [List.filter_cons_of_neg (by simpa using h), List.filter_nil]

theorem step_feed_octet (h : Aligned s.mux) (b : Byte) :
    s.step (.feed [b]) =
      { s with
        mux := feedOctet s.mux b
        fed := s.fed ++ [b]
        arrived := s.arrived ++ arrivals b s.mux } := by
  rw [Session.step, usbMuxFeed_eq_foldl h, arrivalsOf, arrivalsOf, List.append_nil]
  rfl

theorem step_feed_cons (h : Aligned s.mux) (b : Byte) (p : List Byte) :
    s.step (.feed (b :: p)) = (s.step (.feed [b])).step (.feed p) := by
  have happend := usbMuxFeed_append (p := [b]) (q := p) h
  rw [Session.step, Session.step, Session.step]
  dsimp only
  rw [happend, arrivalsOf, arrivalsOf, arrivalsOf, List.append_nil, List.append_assoc,
    List.append_assoc]
  rfl

/-- A segment of the guest keeps the invariant. -/
theorem Intact.segment (h : Intact s) {u' : Mux} (o : List Byte) (haligned : Aligned u')
    (hnext : u'.nextPort = s.mux.nextPort)
    (hchannel : u'.channel = (inputSegment g s.mux).channel) :
    Intact { s with mux := u', fed := o, arrived := s.arrived ++ [g] } := by
  generalize hs : ({ s with mux := u', fed := o, arrived := s.arrived ++ [g] } : Session) = s'
  have hmux : s'.mux = u' := by rw [← hs]
  have harrived : s'.arrived = s.arrived ++ [g] := by rw [← hs]
  have htoward := toward_append harrived
  have hlogs : s'.accepted = s.accepted ∧ s'.returned = s.returned ∧ s'.emitted = s.emitted := by
    rw [← hs]
    exact ⟨rfl, rfl, rfl⟩
  have hfrom : ∀ p, s'.sentFrom p = s.sentFrom p := fun p => by
    rw [Session.sentFrom, Session.sentFrom, hlogs.2.2]
  have hsent : ∀ p, s'.sent p = s.sent p := fun p => by
    rw [Session.sent, Session.sent, hfrom]
  subst hmux
  rw [inputSegment, channelOf] at hchannel
  cases hfind : (List.finRange usbMuxChannels).find? fun i =>
      (s.mux.channel i).localPort = g.dport ∧ (s.mux.channel i).remotePort = g.sport with
  | none =>
    rw [hfind] at hchannel
    dsimp only at hchannel
    have hskip : ∀ i, s'.toward (s.mux.channel i).localPort (s.mux.channel i).remotePort =
        s.toward (s.mux.channel i).localPort (s.mux.channel i).remotePort := by
      intro i
      have hno := List.find?_eq_none.mp hfind i (List.mem_finRange i)
      rw [htoward, if_neg, List.append_nil]
      rintro ⟨hl, hr⟩
      exact hno (by simp [hl, hr])
    refine h.onChannel 0 haligned hnext (by rw [hchannel]) (fun j _ => by rw [hchannel])
      (fun p _ => ⟨by rw [hlogs.1], by rw [hlogs.2.1], hfrom p⟩) (fun j _ _ => hskip j) ?_ ?_ ?_ ?_
    · rw [hchannel]
      exact h.live 0
    · rw [hsent, hlogs.1]
      exact h.sent _
    · rw [hchannel, Session.conversation, hlogs.1, hlogs.2.1, hskip, hfrom]
      exact h.standing 0
    · rw [hlogs.2.2]
      exact h.windows
  | some i =>
    rw [hfind] at hchannel
    dsimp only at hchannel
    have hmatch := List.find?_some hfind
    rw [decide_eq_true_eq] at hmatch
    have hself : s'.mux.channel i = inputChannel g (s.mux.channel i) := by
      rw [hchannel, setChannel_self]
    obtain ⟨hlocal, hremote⟩ := inputChannel_ports g (s.mux.channel i)
    have hconv : s'.conversation (s'.mux.channel i) =
        (s.conversation (s.mux.channel i)).hear g := by
      rw [hself, Session.conversation, hlocal, hremote, hlogs.1, hlogs.2.1, hfrom, htoward,
        if_pos ⟨hmatch.1.symm, hmatch.2.symm⟩]
      rfl
    refine h.onChannel i haligned hnext (by rw [hself, hlocal])
      (fun j hj => by rw [hchannel, setChannel_of_ne _ _ hj])
      (fun p _ => ⟨by rw [hlogs.1], by rw [hlogs.2.1], hfrom p⟩) ?_ ?_ ?_ ?_ ?_
    · intro j hj hne
      rw [htoward, if_neg, List.append_nil]
      rintro ⟨hport, -⟩
      exact hj (h.distinct j i (hport.symm.trans hmatch.1.symm) hne)
    · rw [hself]
      exact fun hlive => h.live i (live_of_inputChannel hlive)
    · rw [hsent, hlogs.1]
      exact h.sent _
    · rw [hconv, hself]
      exact (h.standing i).hear g
    · rw [hlogs.2.2]
      exact h.windows

/-- So does an octet. -/
theorem Intact.octet (h : Intact s) (b : Byte) : Intact (s.step (.feed [b])) := by
  rw [step_feed_octet h.aligned]
  obtain ⟨hnext, ⟨reason, hcancel⟩ | ⟨hnone, hsame⟩ | ⟨g, hg, hchannel⟩⟩ :=
    feedOctet_cases s.mux b
  · exact h.cancelled (aligned_feedOctet h.aligned b) hnext hcancel rfl rfl rfl
  · rw [hnone, List.append_nil]
    refine h.onChannel 0 (aligned_feedOctet h.aligned b) hnext ?_ ?_ (fun _ _ => ⟨rfl, rfl, rfl⟩)
      (fun _ _ _ => rfl) ?_ (h.sent _) ?_ h.windows
    · rw [hsame]
    · intro j _
      rw [hsame]
    · rw [hsame]
      exact h.live 0
    · rw [hsame]
      exact h.standing 0
  · rw [hg]
    exact h.segment (s.fed ++ [b]) (aligned_feedOctet h.aligned b) hnext hchannel

theorem Intact.feed (h : Intact s) (p : List Byte) : Intact (s.step (.feed p)) := by
  induction p generalizing s with
  | nil =>
    rw [Session.step, usbMuxFeed_eq_foldl h.aligned, arrivalsOf, List.append_nil, List.append_nil]
    exact h
  | cons b p ih =>
    rw [step_feed_cons h.aligned]
    exact ih (h.octet b)

/-- Every action keeps the invariant. -/
theorem intact_step (a : Action) (h : Intact s) : Intact (s.step a) := by
  cases a with
  | connect port => exact h.connect port
  | write i data => exact h.write i data
  | read i capacity => exact h.read i capacity
  | close i => exact h.close i
  | cancel reason => exact h.cancel reason
  | feed data => exact h.feed data
  | output => exact h.output
  | outputComplete =>
    exact ⟨h.aligned.of_same rfl rfl, h.distinct, h.used, h.live, h.fresh, h.sent, h.standing,
      h.windows⟩

/-! ### The frames of the guest -/

/-- A session that goes on follows the frames of the guest, and nothing is open in one that has
ended. -/
structure Followed (s : Session) : Prop where
  framed : s.mux.stage ≠ .failed → ∃ fs, Framed s fs
  ended : Over s.mux

theorem followed_start : Followed .start where
  framed _ := ⟨[], framed_start⟩
  ended h := by cases h

/-- A session that goes on has gone on before. -/
theorem stage_of_feedOctet {b : Byte} (h : (feedOctet u b).stage ≠ .failed) :
    u.stage ≠ .failed := by
  intro hfailed
  rw [feedOctet, if_pos hfailed] at h
  exact h hfailed

theorem Followed.octet (h : Followed s) (haligned : Aligned s.mux) (b : Byte) :
    Followed (s.step (.feed [b])) := by
  rw [step_feed_octet haligned]
  refine ⟨fun hstage => ?_, over_feedOctet h.ended b⟩
  obtain ⟨fs, hfs⟩ := h.framed (stage_of_feedOctet hstage)
  exact hfs.octet b hstage

theorem Followed.feed (h : Followed s) (hintact : Intact s) (p : List Byte) :
    Followed (s.step (.feed p)) := by
  induction p generalizing s with
  | nil =>
    rw [Session.step, usbMuxFeed_eq_foldl hintact.aligned, arrivalsOf, List.append_nil,
      List.append_nil]
    exact h
  | cons b p ih =>
    rw [step_feed_cons hintact.aligned]
    exact ih (h.octet hintact.aligned b) (hintact.octet b)

/-- What ends a session ends it for good. -/
theorem stage_of_step {a : Action} (ha : ∀ data, a ≠ .feed data)
    (h : (s.step a).mux.stage ≠ .failed) : s.mux.stage ≠ .failed := by
  cases a with
  | feed data => exact absurd rfl (ha data)
  | cancel reason => exact absurd rfl h
  | connect port =>
    obtain heq | ⟨-, i, heq⟩ := usbMuxConnect_cases port s.mux
    · rw [Session.step, heq] at h
      exact h
    · rw [Session.step, heq] at h
      exact h
  | write i data =>
    rw [Session.step, usbMuxWrite] at h
    split at h <;> exact h
  | read i capacity =>
    rw [Session.step, usbMuxRead] at h
    split at h <;> exact h
  | close i =>
    rw [Session.step, usbMuxClose] at h
    split at h <;> exact h
  | output =>
    intro hfailed
    apply h
    rw [Session.step, usbMuxOutput, if_pos hfailed]
    exact hfailed
  | outputComplete =>
    intro hfailed
    apply h
    have hsetup : s.mux.stage ≠ .waitSetup := by
      rw [hfailed]
      decide
    rw [Session.step, usbMuxOutputComplete, if_neg hsetup]
    exact hfailed

theorem Followed.step (h : Followed s) (hintact : Intact s) (a : Action) : Followed (s.step a) := by
  by_cases ha : ∀ data, a ≠ .feed data
  · refine ⟨fun hstage => ?_, h.ended.action ha⟩
    obtain ⟨fs, hfs⟩ := h.framed (stage_of_step ha hstage)
    exact ⟨fs, hfs.action ha hstage⟩
  · rw [not_forall] at ha
    obtain ⟨data, hdata⟩ := ha
    rw [not_not] at hdata
    subst hdata
    exact h.feed hintact data

/-- The segments that have arrived are those in the octets of the guest. -/
theorem Followed.arrived_eq (h : Followed s) (hintact : Intact s) (hstage : s.mux.stage ≠ .failed) :
    s.arrived = guestSegments s.fed := by
  obtain ⟨fs, hfs⟩ := h.framed hstage
  exact hfs.arrived_eq hintact.aligned

/-- The segments that an octet adds to those of the guest are the ones that it brings. -/
theorem Followed.added_eq (h : Followed s) (hintact : Intact s) {b : Byte}
    (hstage : (feedOctet s.mux b).stage ≠ .failed) : s.added b = arrivals b s.mux := by
  have hnow := h.arrived_eq hintact (stage_of_feedOctet hstage)
  have hthen := (h.octet hintact.aligned b).arrived_eq (hintact.octet b)
  rw [step_feed_octet hintact.aligned] at hthen
  rw [Session.added, ← hthen hstage, ← hnow, List.drop_left]

/-! ### The window of the guest -/

/-- No channel is blamed for going beyond its window that was not before. -/
def NoneBlamed (old new : Fin usbMuxChannels → Channel) : Prop :=
  ∀ i, (new i).error = some .window → (new i).localPort = (old i).localPort ∧
    (new i).remotePort = (old i).remotePort ∧ (old i).error = some .window

theorem noneBlamed_refl (old : Fin usbMuxChannels → Channel) : NoneBlamed old old :=
  fun _ h => ⟨rfl, rfl, h⟩

theorem noneBlamed_setChannel {i : Fin usbMuxChannels}
    (h : c.error = some .window → c.localPort = (u.channel i).localPort ∧
      c.remotePort = (u.channel i).remotePort ∧ (u.channel i).error = some .window) :
    NoneBlamed u.channel (u.setChannel i c).channel := by
  intro j hj
  by_cases hji : j = i
  · rw [hji, setChannel_self] at hj ⊢
    exact h hj
  · rw [setChannel_of_ne _ _ hji] at hj ⊢
    exact ⟨rfl, rfl, hj⟩

theorem noneBlamed_cancel {reason : String} {old new : Fin usbMuxChannels → Channel}
    (h : ∀ i, new i = cancelChannel reason (old i)) : NoneBlamed old new := by
  intro i hi
  rw [h, cancelChannel] at hi ⊢
  split at hi
  case isTrue hfree =>
    rw [if_pos hfree]
    exact ⟨rfl, rfl, hi⟩
  case isFalse => exact absurd hi (by simp)

/-- Only data that comes next and does not fit is blamed for going beyond the window. -/
theorem inputChannel_window (h : (inputChannel g c).error = some .window) :
    c.error = some .window ∨ c.state = .opened ∧ g.seq = c.receiveNext ∧
      usbMuxRxSize - c.receive.length < g.data.length := by
  by_contra hno
  rw [not_or] at hno
  obtain ⟨hold, hfits⟩ := hno
  have herror : ∀ fault, fault ≠ .window → (channelError fault c).error ≠ some .window := by
    intro fault hne heq
    exact hne (Option.some.inj heq)
  rw [inputChannel] at h
  cases hstate : c.state with
  | closed | closing | error =>
    rw [hstate] at h
    exact hold h
  | unused | connect =>
    rw [hstate] at h
    dsimp only at h
    split at h
    · exact herror .refused (by decide) h
    · exact herror .flags (by decide) h
  | synSent =>
    rw [hstate] at h
    dsimp only at h
    split_ifs at h
    · exact herror .refused (by decide) h
    · exact herror .handshake (by decide) h
    · exact hold h
  | opened =>
    rw [hstate] at h
    dsimp only at h
    split_ifs at h
    · exact herror .refused (by decide) h
    · exact herror .flags (by decide) h
    · exact herror .unsent (by decide) h
    rw [inputData] at h
    dsimp only at h
    split_ifs at h with hseq hdup hroom hdata
    · exact hold h
    · exact absurd h (by simp [channelError])
    · exact hfits ⟨hstate, not_not.mp hseq, hroom⟩
    · exact hold h
    · exact hold h

/-- No channel of the connection is blamed for going beyond its window. -/
def NoOverrun (p r : Port) (s : Session) : Prop :=
  ∀ i, (s.mux.channel i).localPort = p → (s.mux.channel i).remotePort = r →
    (s.mux.channel i).error ≠ some .window

theorem NoOverrun.of_noneBlamed {p r : Port} (h : NoOverrun p r s)
    (hblamed : NoneBlamed s.mux.channel s'.mux.channel) : NoOverrun p r s' := by
  intro i hp hr herror
  obtain ⟨hlocal, hremote, hold⟩ := hblamed i herror
  exact h i (hlocal ▸ hp) (hremote ▸ hr) hold

/-- What lies inside a window that was advertised fits into the buffer. -/
theorem fits_of_inside {i : Fin usbMuxChannels} (h : Intact s)
    (hstate : (s.mux.channel i).state = .opened)
    (hinside : s.Inside (s.mux.channel i).localPort (s.mux.channel i).remotePort g)
    (hdport : g.dport = (s.mux.channel i).localPort)
    (hsport : g.sport = (s.mux.channel i).remotePort)
    (hseq : g.seq = (s.mux.channel i).receiveNext) :
    g.data.length ≤ usbMuxRxSize - (s.mux.channel i).receive.length := by
  have hstreams := (h.standing i).streams hstate
  obtain ⟨st, hst, hoctets, hnext⟩ := hstreams.incoming
  by_cases hne : g.data = []
  · rw [hne]
    exact Nat.zero_le _
  obtain ⟨e, he, hle⟩ := hinside hdport hsport hne st hst
  have hedge := hstreams.edges e he
  rw [hseq, hnext, BitVec.sub_self, BitVec.toInt_zero, hoctets, List.length_append] at hle
  omega

theorem NoOverrun.octet {p r : Port} (h : NoOverrun p r s) (hintact : Intact s)
    (hfollowed : Followed s) (b : Byte) (hinside : ∀ g ∈ s.added b, s.Inside p r g) :
    NoOverrun p r (s.step (.feed [b])) := by
  rw [step_feed_octet hintact.aligned]
  by_cases hfailed : (feedOctet s.mux b).stage = .failed
  · refine h.of_noneBlamed ?_
    by_cases hstage : s.mux.stage = .failed
    · show NoneBlamed s.mux.channel (feedOctet s.mux b).channel
      rw [feedOctet, if_pos hstage]
      exact noneBlamed_refl _
    · obtain ⟨reason, hcancel⟩ := feedOctet_failed hstage hfailed
      exact noneBlamed_cancel hcancel
  rw [hfollowed.added_eq hintact hfailed] at hinside
  obtain ⟨-, ⟨reason, hcancel⟩ | ⟨-, hsame⟩ | ⟨g, hg, hchannel⟩⟩ := feedOctet_cases s.mux b
  · exact h.of_noneBlamed (noneBlamed_cancel hcancel)
  · refine h.of_noneBlamed ?_
    rw [hsame]
    exact noneBlamed_refl _
  · have hin := hinside g (by rw [hg]; exact List.mem_singleton_self g)
    intro i hp hr herror
    dsimp only at hp hr herror
    rw [hchannel, inputSegment] at hp hr herror
    cases hfind : channelOf g s.mux with
    | none =>
      rw [hfind] at hp hr herror
      exact h i hp hr herror
    | some j =>
      rw [hfind] at hp hr herror
      dsimp only at hp hr herror
      by_cases hij : i = j
      · subst hij
        rw [setChannel_self] at hp hr herror
        obtain ⟨hlocal, hremote⟩ := inputChannel_ports g (s.mux.channel i)
        rw [hlocal] at hp
        rw [hremote] at hr
        have hmatch := List.find?_some hfind
        rw [decide_eq_true_eq] at hmatch
        rcases inputChannel_window herror with hold | ⟨hstate, hseq, hlong⟩
        · exact h i hp hr hold
        · rw [← hp, ← hr] at hin
          have hfits := fits_of_inside hintact hstate hin hmatch.1.symm hmatch.2.symm hseq
          omega
      · rw [setChannel_of_ne _ _ hij] at hp hr herror
        exact h i hp hr herror

theorem NoOverrun.feed {p r : Port} (h : NoOverrun p r s) (hintact : Intact s)
    (hfollowed : Followed s) (data : List Byte) (hinside : Session.FeedInside p r data s) : NoOverrun p r (s.step (.feed data)) := by
  induction data generalizing s with
  | nil =>
    rw [Session.step, usbMuxFeed_eq_foldl hintact.aligned]
    exact h
  | cons b data ih =>
    rw [step_feed_cons hintact.aligned]
    exact ih (h.octet hintact hfollowed b hinside.1) (hintact.octet b)
      (hfollowed.octet hintact.aligned b) hinside.2

/-- A guest that sends on a connection only what was allowed to it. -/
def ObeysWindow (p r : Port) (s : Session) : Action → Prop
  | .feed data => s.FeedInside p r data
  | _ => True

theorem noOverrun_step {p r : Port} (a : Action) (hobeys : ObeysWindow p r s a)
    (h : NoOverrun p r s) (hintact : Intact s) (hfollowed : Followed s) :
    NoOverrun p r (s.step a) := by
  cases a with
  | feed data => exact h.feed hintact hfollowed data hobeys
  | cancel reason => exact h.of_noneBlamed (noneBlamed_cancel fun _ => rfl)
  | outputComplete => exact h
  | connect port =>
    rcases usbMuxConnect_cases port s.mux with heq | ⟨-, i, heq⟩
    · rw [Session.step, heq]
      exact h
    · rw [Session.step, heq]
      exact h.of_noneBlamed (noneBlamed_setChannel (u := s.mux) (by rintro ⟨⟩))
  | write i data =>
    refine h.of_noneBlamed ?_
    rw [Session.step, usbMuxWrite]
    dsimp only
    split
    · exact noneBlamed_refl _
    · exact noneBlamed_setChannel fun herror => ⟨rfl, rfl, herror⟩
  | read i capacity =>
    refine h.of_noneBlamed ?_
    rw [Session.step, usbMuxRead]
    dsimp only
    split
    · exact noneBlamed_refl _
    · exact noneBlamed_setChannel fun herror => ⟨rfl, rfl, herror⟩
  | close i =>
    refine h.of_noneBlamed ?_
    rw [Session.step, usbMuxClose]
    dsimp only
    split
    · exact noneBlamed_refl _
    · exact noneBlamed_setChannel fun herror => ⟨rfl, rfl, herror⟩
  | output =>
    refine h.of_noneBlamed ?_
    rcases usbMuxOutput_cases s.mux with ⟨hchannel, -⟩ | ⟨-, i, state, flags, n, k, -, heq⟩
    · show NoneBlamed _ (usbMuxOutput s.mux).2.channel
      rw [hchannel]
      exact noneBlamed_refl _
    · show NoneBlamed _ (usbMuxOutput s.mux).2.channel
      rw [heq]
      show NoneBlamed _ (tcpFrame i state flags n s.mux).channel
      rw [(tcpFrame_eq i state flags n s.mux).1]
      exact noneBlamed_setChannel fun herror => ⟨rfl, rfl, herror⟩

/-! ### Sessions -/

/-- The sessions that actions lead to. -/
def Reached (s : Session) : Prop := Run Session.step (fun _ _ => True) .start s

/-- A segment with no octets but such as have come before, at most a buffer of them back, and with
the acknowledgement of octets that were sent. -/
structure Segment.Repeats (c : Channel) (g : Segment) : Prop where
  flags : g.flags = 16 ∨ g.flags = 24
  ack : ¬c.sendNext - c.sendAcked < g.ack - c.sendAcked
  old : g.data.length ≤ (c.receiveNext - g.seq).toNat
  near : (c.receiveNext - g.seq).toNat ≤ usbMuxRxSize

/-- The stream that the octets of the guest hold for a connection: the octets are cut into frames by
the lengths that the frames tell, and their segments are put together in order. -/
def Session.guestStream (s : Session) (p r : Port) : Option (InOrder.Stream 32 Byte) :=
  streamOf ((guestSegments s.fed).filter fun g => g.dport = p ∧ g.sport = r)

/-- The two streams of a connection are what they should be. -/
structure Faithful (s : Session) (c : Channel) : Prop where
  /-- What was read and what can still be read is the stream that the octets of the guest hold. -/
  incoming : ∃ st, s.guestStream c.localPort c.remotePort = some st ∧
    s.returned c.localPort ++ c.receive = st.octets
  /-- What has come already does nothing when it comes again. -/
  repeated : ∀ g, g.Repeats c → (inputChannel g c).state = .opened ∧
    (inputChannel g c).receive = c.receive ∧ (inputChannel g c).receiveNext = c.receiveNext
  /-- What was sent, in segments that follow one another, and what waits is what was written. -/
  outgoing : s.outgoing c.localPort = some ⟨1, s.sent c.localPort⟩
  accepted : s.sent c.localPort ++ c.send = s.accepted c.localPort

/-- The streams of a session are what they should be. -/
structure Integrity (s : Session) : Prop where
  /-- It does not matter how the octets of the guest are cut. -/
  cut : ∀ p q, usbMuxFeed q (usbMuxFeed p s.mux) = usbMuxFeed (p ++ q) s.mux
  /-- Until the session ends, the segments that have arrived are those in the frames of the guest. -/
  frames : s.mux.stage ≠ .failed → s.arrived = guestSegments s.fed
  faithful : ∀ i, (s.mux.channel i).state = .opened → Faithful s (s.mux.channel i)
  sent : ∀ p, s.sent p <+: s.accepted p
  window : ∀ e ∈ s.emitted, e.WithinWindow
  overrun : ∀ p r, Run Session.step (ObeysWindow p r) .start s → NoOverrun p r s

theorem Reached.intact (h : Reached s) : Intact s :=
  Run.keeps (I := Intact) (fun _ a _ => intact_step a) h intact_start

theorem Reached.followed (h : Reached s) : Followed s := by
  have hboth : Intact s ∧ Followed s := by
    refine Run.keeps (I := fun s => Intact s ∧ Followed s) ?_ h ⟨intact_start, followed_start⟩
    rintro s a - ⟨hintact, hfollowed⟩
    exact ⟨intact_step a hintact, hfollowed.step hintact a⟩
  exact hboth.2

theorem noOverrun_of_obeys {p r : Port} (h : Run Session.step (ObeysWindow p r) .start s) :
    NoOverrun p r s := by
  have hall : Intact s ∧ Followed s ∧ NoOverrun p r s := by
    refine Run.keeps (I := fun s => Intact s ∧ Followed s ∧ NoOverrun p r s) ?_ h
      ⟨intact_start, followed_start, ?_⟩
    · rintro s a hobeys ⟨hintact, hfollowed, hno⟩
      exact ⟨intact_step a hintact, hfollowed.step hintact a,
        noOverrun_step a hobeys hno hintact hfollowed⟩
    · rintro i - - herror
      cases herror
  exact hall.2.2

/-- An open channel takes nothing from a segment that repeats octets. -/
theorem inputChannel_repeats (hstate : c.state = .opened) (h : g.Repeats c) :
    (inputChannel g c).state = .opened ∧ (inputChannel g c).receive = c.receive ∧
      (inputChannel g c).receiveNext = c.receiveNext := by
  have hreset : ¬g.flags &&& 4 ≠ 0 := by
    rcases h.flags with hf | hf <;> rw [hf] <;> decide
  have hkind : ¬(g.flags ≠ 16 ∧ g.flags ≠ 24) := by
    have hflags := h.flags
    tauto
  simp only [inputChannel, hstate]
  rw [if_neg hreset, if_neg hkind, if_neg h.ack, inputData]
  dsimp only
  by_cases hseq : g.seq = c.receiveNext
  · have hdata : g.data = [] := by
      have hold := h.old
      rw [hseq, BitVec.sub_self] at hold
      exact List.length_eq_zero_iff.mp (Nat.le_zero.mp hold)
    have hfits : ¬usbMuxRxSize - c.receive.length < g.data.length := by
      rw [hdata]
      exact Nat.not_lt_zero _
    rw [if_neg (not_not.mpr hseq), if_neg hfits, if_neg (not_not.mpr hdata)]
    exact ⟨rfl, rfl, rfl⟩
  · rw [if_pos hseq, if_pos ⟨h.old, h.near⟩]
    exact ⟨rfl, rfl, rfl⟩

/-- Whatever is done with a peer, the streams are what they should be. It does not matter how the
octets of the guest are cut into calls. Until the session ends the segments that arrive are those of
the frames of the guest, and on an open channel what was read and what can still be read is the
stream of these segments; a segment that repeats octets changes nothing. What was sent on a channel
is, in order, a beginning of what was written, and all of it with what still waits; it never goes
beyond the window that the guest granted last. And a guest whose frames stay inside the windows that
were advertised to it is not blamed for going beyond them. -/
theorem stream_integrity (h : Reached s) : Integrity s where
  cut _ _ := usbMuxFeed_append h.intact.aligned
  frames := h.followed.arrived_eq h.intact
  faithful i hstate := by
    have hstreams := (h.intact.standing i).streams hstate
    obtain ⟨st, hst, hoctets, -⟩ := hstreams.incoming
    have hgoing : s.mux.stage ≠ .failed := fun hfailed => h.followed.ended hfailed i hstate
    have hsegments := h.followed.arrived_eq h.intact hgoing
    rw [Session.conversation, Session.toward, hsegments] at hst
    exact ⟨⟨st, hst, hoctets.symm⟩, fun g hg => inputChannel_repeats hstate hg,
      hstreams.outgoing, hstreams.sent⟩
  sent := h.intact.sent
  window := h.intact.windows
  overrun _ _ := noOverrun_of_obeys

/-- A frame of the guest with a segment, from port 7 to the first connection. -/
def guestFrame (seq ack : Word) (flags : Byte) (data : List Byte) : List Byte :=
  put32 6 ++ put32 (BitVec.ofNat 32 (28 + data.length)) ++
    Segment.octets ⟨7, 1, seq, ack, flags, 1, data⟩

/-- A guest that answers with the first version and then on the first connection, in pieces that
have nothing to do with its frames. -/
def talk : Session :=
  follow Session.step .start [.output, .outputComplete,
    .feed (put32 0 ++ put32 20 ++ put32 1 ++ put32 0), .feed (put32 0),
    .connect 7, .output, .outputComplete, .feed (guestFrame 100 1 18 [] ++ [0, 0, 0]),
    .write 0 [1, 2, 3], .output, .outputComplete,
    .feed ((guestFrame 101 4 24 [4, 5]).drop 3), .read 0 1, .feed (guestFrame 101 4 24 [4, 5])]

theorem stream_integrity_talk : Integrity talk := stream_integrity (run_follow ..)

/-- The second of the octets waits to be read, and the repeated segment has changed nothing. -/
example : (talk.mux.channel 0).state = .opened ∧ (talk.mux.channel 0).receive = [5] ∧
    talk.sent 1 = [1, 2, 3] := by decide +kernel

end S5LBox.Usb
