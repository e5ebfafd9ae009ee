import S5LBox.Usb.Session

/-!
# The streams of a session

What holds of a session whatever is done with it. The octets that the service client has read and
those it can still read are the stream of the guest, as a receiver would have it that takes
segments in order; the octets that were sent and those that wait are what it has written; and no
more is sent than the guest has room for.

## Main definitions

* `Conversation`, `Standing`: what has passed on a connection, and what it says of its channel.
* `Intact`: the invariant of a session.

## Main results

* `intact_step`: every action keeps it.
-/

namespace S5LBox.Usb

open Net InOrder

/-! ### The invariant -/

/-- What has passed on a connection. -/
structure Conversation where
  accepted : List Byte
  returned : List Byte
  arrived : List Segment
  emitted : List Emission

/-- The octets that were sent. -/
def Conversation.sent (v : Conversation) : List Byte := v.emitted.flatMap (·.segment.data)

/-- What has passed on the connection of a channel. -/
def Session.conversation (s : Session) (c : Channel) : Conversation :=
  ⟨s.accepted c.localPort, s.returned c.localPort, s.toward c.localPort c.remotePort,
    s.sentFrom c.localPort⟩

/-- A connection on which nothing has passed. -/
structure Untouched (c : Channel) (v : Conversation) : Prop where
  accepted : v.accepted = []
  returned : v.returned = []
  emitted : v.emitted = []
  receive : c.receive = []
  send : c.send = []
  sendNext : c.sendNext = 0

/-- A connection that is being opened. -/
structure Opening (c : Channel) (v : Conversation) : Prop where
  accepted : v.accepted = []
  returned : v.returned = []
  sent : v.sent = []
  receive : c.receive = []
  send : c.send = []
  outgoing : streamOf (v.emitted.map (·.segment)) = some ⟨1, []⟩
  sendNext : c.sendNext = 1
  edges : ∀ e ∈ v.emitted, e.edge ≤ usbMuxRxSize

/-- A connection with its two streams. -/
structure Streams (c : Channel) (v : Conversation) : Prop where
  incoming : ∃ st, streamOf v.arrived = some st ∧ st.octets = v.returned ++ c.receive ∧
    c.receiveNext = st.next
  outgoing : streamOf (v.emitted.map (·.segment)) = some ⟨1, v.sent⟩
  sendNext : c.sendNext = Stream.next ⟨1, v.sent⟩
  sent : v.sent ++ c.send = v.accepted
  room : c.receive.length ≤ usbMuxRxSize
  heard : ∃ g, v.arrived.getLast? = some g ∧ g.ack = c.sendAcked ∧ g.window = c.peerWindow
  edges : ∀ e ∈ v.emitted, e.edge ≤ v.returned.length + usbMuxRxSize

/-- What has passed on a connection says where its channel stands. -/
def Standing (c : Channel) (v : Conversation) : Prop :=
  match c.state with
  | .connect => Untouched c v
  | .synSent => Opening c v
  | .opened => Streams c v
  | _ => True

/-- The channel is one of a connection that has not failed and was not closed. -/
def Channel.Live (c : Channel) : Prop :=
  c.state = .connect ∨ c.state = .synSent ∨ c.state = .opened

/-- The port will be given to a connection, if any. -/
def Fresh (u : Mux) (p : Port) : Prop := u.nextPort ≠ 0 ∧ u.nextPort ≤ p

/-- The invariant of a session. -/
structure Intact (s : Session) : Prop where
  aligned : Aligned s.mux
  distinct : ∀ i j, (s.mux.channel i).localPort = (s.mux.channel j).localPort →
    (s.mux.channel i).localPort ≠ 0 → i = j
  used : ∀ i, ¬Fresh s.mux (s.mux.channel i).localPort
  live : ∀ i, (s.mux.channel i).Live → (s.mux.channel i).localPort ≠ 0
  fresh : ∀ p, Fresh s.mux p → s.accepted p = [] ∧ s.returned p = [] ∧ s.sentFrom p = []
  sent : ∀ p, s.sent p <+: s.accepted p
  standing : ∀ i, Standing (s.mux.channel i) (s.conversation (s.mux.channel i))
  windows : ∀ e ∈ s.emitted, e.WithinWindow

theorem intact_start : Intact .start where
  aligned := aligned_of_nil rfl
  distinct _ _ _ h := absurd rfl h
  used _ h := by
    have hle : (1 : Port) ≤ 0 := h.2
    exact absurd hle (by decide)
  live _ := by rintro (h | h | h) <;> cases h
  fresh _ _ := ⟨rfl, rfl, rfl⟩
  sent _ := List.nil_prefix
  standing _ := trivial
  windows _ h := absurd h List.not_mem_nil

variable {s s' : Session} {c : Channel} {v : Conversation} {g : Segment}

/-- A channel that does not say anything stands anyhow. -/
theorem standing_of_not_live (h : ¬c.Live) : Standing c v := by
  rw [Standing]
  split
  · exact absurd (.inl ‹_›) h
  · exact absurd (.inr (.inl ‹_›)) h
  · exact absurd (.inr (.inr ‹_›)) h
  · trivial

/-- What is done on one connection says nothing about the others. -/
theorem Intact.onChannel (h : Intact s) (i : Fin usbMuxChannels)
    (haligned : Aligned s'.mux) (hnext : s'.mux.nextPort = s.mux.nextPort)
    (hlocal : (s'.mux.channel i).localPort = (s.mux.channel i).localPort)
    (hother : ∀ j ≠ i, s'.mux.channel j = s.mux.channel j)
    (hlog : ∀ p ≠ (s.mux.channel i).localPort, s'.accepted p = s.accepted p ∧
      s'.returned p = s.returned p ∧ s'.sentFrom p = s.sentFrom p)
    (harrived : ∀ j ≠ i, (s.mux.channel j).localPort ≠ 0 →
      s'.toward (s.mux.channel j).localPort (s.mux.channel j).remotePort =
        s.toward (s.mux.channel j).localPort (s.mux.channel j).remotePort)
    (hlive : (s'.mux.channel i).Live → (s.mux.channel i).localPort ≠ 0)
    (hsent : s'.sent (s.mux.channel i).localPort <+: s'.accepted (s.mux.channel i).localPort)
    (hstanding : Standing (s'.mux.channel i) (s'.conversation (s'.mux.channel i)))
    (hwindows : ∀ e ∈ s'.emitted, e.WithinWindow) : Intact s' := by
  have hports : ∀ j, (s'.mux.channel j).localPort = (s.mux.channel j).localPort := by
    intro j
    by_cases hj : j = i
    · rw [hj, hlocal]
    · rw [hother j hj]
  have hfresh : ∀ p, Fresh s'.mux p ↔ Fresh s.mux p := fun p => by rw [Fresh, Fresh, hnext]
  refine ⟨haligned, ?_, ?_, ?_, ?_, ?_, ?_, hwindows⟩
  · intro j k hjk hne
    rw [hports j, hports k] at hjk
    rw [hports j] at hne
    exact h.distinct j k hjk hne
  · intro j
    rw [hfresh, hports j]
    exact h.used j
  · intro j hj
    rw [hports j]
    by_cases hji : j = i
    · rw [hji] at hj ⊢
      exact hlive hj
    · rw [hother j hji] at hj
      exact h.live j hj
  · intro p hp
    rw [hfresh] at hp
    have hne : p ≠ (s.mux.channel i).localPort := by
      rintro rfl
      exact h.used i hp
    obtain ⟨haccepted, hreturned, hemitted⟩ := hlog p hne
    rw [haccepted, hreturned, hemitted]
    exact h.fresh p hp
  · intro p
    by_cases hp : p = (s.mux.channel i).localPort
    · rw [hp]
      exact hsent
    · obtain ⟨haccepted, -, hemitted⟩ := hlog p hp
      rw [Session.sent, hemitted, haccepted]
      exact h.sent p
  · intro j
    by_cases hji : j = i
    · rw [hji]
      exact hstanding
    rw [hother j hji]
    by_cases hlivej : (s.mux.channel j).Live
    · have hne0 := h.live j hlivej
      have hne : (s.mux.channel j).localPort ≠ (s.mux.channel i).localPort := fun heq =>
        hji (h.distinct j i heq hne0)
      obtain ⟨haccepted, hreturned, hemitted⟩ := hlog _ hne
      have hconv : s'.conversation (s.mux.channel j) = s.conversation (s.mux.channel j) := by
        simp only [Session.conversation, haccepted, hreturned, hemitted, harrived j hji hne0]
      rw [hconv]
      exact h.standing j
    · exact standing_of_not_live hlivej

/-! ### The service client -/

@[simp]
theorem setChannel_self (u : Mux) (i : Fin usbMuxChannels) (c : Channel) :
    (u.setChannel i c).channel i = c := Function.update_self ..

@[simp]
theorem setChannel_of_ne (u : Mux) (c : Channel) {i j : Fin usbMuxChannels} (h : j ≠ i) :
    (u.setChannel i c).channel j = u.channel j := Function.update_of_ne h ..

@[simp]
theorem note_self (log : Port → List Byte) (p : Port) (data : List Byte) :
    Session.note log p data p = log p ++ data := Function.update_self ..

@[simp]
theorem note_of_ne (log : Port → List Byte) (data : List Byte) {p q : Port} (h : q ≠ p) :
    Session.note log p data q = log q := Function.update_of_ne h ..

@[simp]
theorem note_nil (log : Port → List Byte) (p : Port) : Session.note log p [] = log := by
  ext1 q
  by_cases h : q = p
  · rw [h, note_self, List.append_nil]
  · rw [note_of_ne log [] h]

/-- A frame in the receive buffer stays what it is when neither it nor the header size changes. -/
theorem Aligned.of_same {u u' : Mux} (h : Aligned u) (hreceive : u'.receive = u.receive)
    (hversion : u'.version = u.version) : Aligned u' := by
  intro h8
  rw [hreceive] at h8 ⊢
  rw [headerSize, hversion]
  exact h h8

/-- A connection is given a port that no other one has had. -/
theorem usbMuxConnect_cases (port : Port) (u : Mux) :
    (usbMuxConnect port u).2 = u ∨ u.nextPort ≠ 0 ∧ ∃ i, (usbMuxConnect port u).2 =
      { u.setChannel i { Channel.zero with
          localPort := u.nextPort, remotePort := port, state := .connect } with
        nextPort := u.nextPort + 1 } := by
  rw [usbMuxConnect]
  split
  case isTrue => exact .inl rfl
  case isFalse hready =>
    split
    · exact .inl rfl
    case _ i _ => exact .inr ⟨fun h => hready (.inr (.inr h)), i, rfl⟩

theorem Intact.connect (h : Intact s) (port : Port) : Intact (s.step (.connect port)) := by
  rcases usbMuxConnect_cases port s.mux with heq | ⟨hn, i, heq⟩
  · rw [Session.step, heq]
    exact h
  rw [Session.step, heq]
  generalize hc : ({ Channel.zero with
    localPort := s.mux.nextPort, remotePort := port, state := .connect } : Channel) = c
  have hport : c.localPort = s.mux.nextPort := by rw [← hc]
  have hnew : Fresh s.mux s.mux.nextPort := ⟨hn, BitVec.le_refl _⟩
  have hne : ∀ j, (s.mux.channel j).localPort ≠ s.mux.nextPort := fun j hj =>
    h.used j (hj ▸ hnew)
  have hself : ((s.mux.setChannel i c).channel i).localPort = s.mux.nextPort := by
    rw [setChannel_self, hport]
  have hfresh : ∀ p, s.mux.nextPort + 1 ≠ 0 → s.mux.nextPort + 1 ≤ p →
      Fresh s.mux p ∧ p ≠ s.mux.nextPort := by
    intro p hwrap hle
    exact ⟨⟨hn, by bv_omega⟩, by rintro rfl; bv_omega⟩
  refine ⟨h.aligned.of_same rfl rfl, ?_, ?_, ?_, ?_, h.sent, ?_, h.windows⟩
  · intro j k hjk hne0
    dsimp only at hjk hne0
    by_cases hj : j = i <;> by_cases hk : k = i
    · rw [hj, hk]
    · rw [hj, hself, setChannel_of_ne _ _ hk] at hjk
      exact absurd hjk.symm (hne k)
    · rw [hk, hself, setChannel_of_ne _ _ hj] at hjk
      exact absurd hjk (hne j)
    · rw [setChannel_of_ne _ _ hj, setChannel_of_ne _ _ hk] at hjk
      rw [setChannel_of_ne _ _ hj] at hne0
      exact h.distinct j k hjk hne0
  · rintro j ⟨hwrap, hle⟩
    dsimp only at hwrap hle
    obtain ⟨hold, hother⟩ := hfresh _ hwrap hle
    by_cases hj : j = i
    · rw [hj] at hother
      exact hother hself
    · rw [setChannel_of_ne _ _ hj] at hold
      exact h.used j hold
  · intro j hj
    dsimp only at hj ⊢
    by_cases hji : j = i
    · rw [hji, hself]
      exact hn
    · rw [setChannel_of_ne _ _ hji] at hj ⊢
      exact h.live j hj
  · rintro p ⟨hwrap, hle⟩
    exact h.fresh p (hfresh p hwrap hle).1
  · intro j
    dsimp only
    by_cases hji : j = i
    · rw [hji, setChannel_self]
      obtain ⟨haccepted, hreturned, hemitted⟩ := h.fresh _ hnew
      rw [← hport] at haccepted hreturned hemitted
      rw [Standing, ← hc]
      rw [← hc] at haccepted hreturned hemitted
      exact ⟨haccepted, hreturned, hemitted, rfl, rfl, rfl⟩
    · rw [setChannel_of_ne _ _ hji]
      exact h.standing j

theorem Standing.streams (h : Standing c v) (hstate : c.state = .opened) : Streams c v := by
  rw [Standing, hstate] at h
  exact h

theorem Streams.standing (h : Streams c v) (hstate : c.state = .opened) : Standing c v := by
  rw [Standing, hstate]
  exact h

theorem Intact.write (h : Intact s) (i : Fin usbMuxChannels) (data : List Byte) :
    Intact (s.step (.write i data)) := by
  rw [Session.step, usbMuxWrite]
  split
  case isTrue =>
    simp only [List.take_zero, note_nil]
    exact h
  case isFalse hready =>
    have hstate : (s.mux.channel i).state = .opened := by
      by_contra hne
      exact hready (.inr hne)
    generalize min data.length (usbMuxTxSize - (s.mux.channel i).send.length) = n
    have hstreams := (h.standing i).streams hstate
    refine h.onChannel i (h.aligned.of_same rfl rfl) rfl ?_ ?_ ?_ ?_ ?_ ?_ ?_ h.windows
    · dsimp only
      rw [setChannel_self]
    · intro j hj
      exact setChannel_of_ne _ _ hj
    · intro p hp
      exact ⟨note_of_ne _ _ hp, rfl, rfl⟩
    · intro j _ _
      rfl
    · intro _
      exact h.live i (.inr (.inr hstate))
    · dsimp only
      rw [note_self]
      exact (h.sent _).trans (List.prefix_append ..)
    · dsimp only
      rw [setChannel_self]
      refine Streams.standing ?_ hstate
      refine ⟨hstreams.incoming, hstreams.outgoing, hstreams.sendNext, ?_, hstreams.room,
        hstreams.heard, hstreams.edges⟩
      show (s.conversation (s.mux.channel i)).sent ++ ((s.mux.channel i).send ++ data.take n) =
        Session.note s.accepted _ (data.take n) _
      rw [note_self, ← List.append_assoc, hstreams.sent]
      rfl

theorem Intact.read (h : Intact s) (i : Fin usbMuxChannels) (capacity : Nat) :
    Intact (s.step (.read i capacity)) := by
  rw [Session.step, usbMuxRead]
  generalize min capacity (s.mux.channel i).receive.length = n
  split
  case isTrue =>
    simp only [note_nil]
    exact h
  case isFalse =>
    refine h.onChannel i (h.aligned.of_same rfl rfl) rfl ?_ ?_ ?_ ?_ ?_ ?_ ?_ h.windows
    · dsimp only
      rw [setChannel_self]
    · intro j hj
      exact setChannel_of_ne _ _ hj
    · intro p hp
      exact ⟨rfl, note_of_ne _ _ hp, rfl⟩
    · intro j _ _
      rfl
    · dsimp only
      rw [setChannel_self]
      exact h.live i
    · exact h.sent _
    · dsimp only
      rw [setChannel_self]
      have hold := h.standing i
      rw [Standing] at hold ⊢
      dsimp only
      cases hstate : (s.mux.channel i).state with
      | connect =>
        rw [hstate] at hold
        refine ⟨hold.accepted, ?_, hold.emitted, ?_, hold.send, hold.sendNext⟩
        · show Session.note s.returned _ _ _ = []
          rw [note_self, hold.receive, List.take_nil, List.append_nil]
          exact hold.returned
        · show (s.mux.channel i).receive.drop n = []
          rw [hold.receive, List.drop_nil]
      | synSent =>
        rw [hstate] at hold
        refine ⟨hold.accepted, ?_, hold.sent, ?_, hold.send, hold.outgoing, hold.sendNext,
          hold.edges⟩
        · show Session.note s.returned _ _ _ = []
          rw [note_self, hold.receive, List.take_nil, List.append_nil]
          exact hold.returned
        · show (s.mux.channel i).receive.drop n = []
          rw [hold.receive, List.drop_nil]
      | opened =>
        rw [hstate] at hold
        obtain ⟨st, hst, hoctets, hnext⟩ := hold.incoming
        refine ⟨⟨st, hst, ?_, hnext⟩, hold.outgoing, hold.sendNext, hold.sent, ?_, hold.heard, ?_⟩
        · show st.octets = Session.note s.returned _ _ _ ++ (s.mux.channel i).receive.drop n
          rw [note_self, List.append_assoc, List.take_append_drop]
          exact hoctets
        · show ((s.mux.channel i).receive.drop n).length ≤ _
          rw [List.length_drop]
          exact le_trans (Nat.sub_le ..) hold.room
        · intro e he
          refine le_trans (hold.edges e he) (Nat.add_le_add_right ?_ _)
          show (s.returned _).length ≤ (Session.note s.returned _ _ _).length
          rw [note_self, List.length_append]
          exact Nat.le_add_right ..
      | unused | closing | closed | error => trivial

theorem Intact.close (h : Intact s) (i : Fin usbMuxChannels) : Intact (s.step (.close i)) := by
  rw [Session.step, usbMuxClose]
  split
  case isTrue => exact h
  case isFalse =>
    refine h.onChannel i (h.aligned.of_same rfl rfl) rfl ?_ ?_ ?_ ?_ ?_ ?_ ?_ h.windows
    · dsimp only
      rw [setChannel_self]
    · intro j hj
      exact setChannel_of_ne _ _ hj
    · intro p _
      exact ⟨rfl, rfl, rfl⟩
    · intro j _ _
      rfl
    · dsimp only
      rw [setChannel_self]
      split <;> rintro (h | h | h) <;> cases h
    · exact h.sent _
    · dsimp only
      rw [setChannel_self]
      apply standing_of_not_live
      split <;> rintro (h | h | h) <;> cases h

theorem cancelChannel_not_live (reason : String) (c : Channel) :
    ¬(cancelChannel reason c).Live := by
  rw [cancelChannel]
  split
  case isTrue hfree =>
    simp only [Channel.free, decide_eq_true_eq] at hfree
    rintro (h | h | h) <;> rw [h] at hfree <;> exact absurd hfree (by decide)
  case isFalse => rintro (h | h | h) <;> cases h

theorem cancelChannel_localPort (reason : String) (c : Channel) :
    (cancelChannel reason c).localPort = c.localPort := by
  rw [cancelChannel]
  split <;> rfl

/-- A peer that is given up leaves no connection that could be wrong. -/
theorem Intact.cancelled (h : Intact s) {reason : String} (haligned : Aligned s'.mux)
    (hnext : s'.mux.nextPort = s.mux.nextPort)
    (hchannel : ∀ i, s'.mux.channel i = cancelChannel reason (s.mux.channel i))
    (haccepted : s'.accepted = s.accepted) (hreturned : s'.returned = s.returned)
    (hemitted : s'.emitted = s.emitted) : Intact s' := by
  have hports : ∀ i, (s'.mux.channel i).localPort = (s.mux.channel i).localPort := by
    intro i
    rw [hchannel, cancelChannel_localPort]
  have hlive : ∀ i, ¬(s'.mux.channel i).Live := by
    intro i
    rw [hchannel]
    exact cancelChannel_not_live _ _
  have hfrom : ∀ p, s'.sentFrom p = s.sentFrom p := fun p => by
    rw [Session.sentFrom, Session.sentFrom, hemitted]
  refine ⟨haligned, ?_, ?_, fun i hi => absurd hi (hlive i), ?_, ?_,
    fun i => standing_of_not_live (hlive i), hemitted ▸ h.windows⟩
  · intro i j
    rw [hports, hports]
    exact h.distinct i j
  · intro i
    rw [Fresh, hnext, hports]
    exact h.used i
  · intro p hp
    rw [Fresh, hnext] at hp
    rw [haccepted, hreturned, hfrom]
    exact h.fresh p hp
  · intro p
    rw [Session.sent, hfrom, haccepted]
    exact h.sent p

theorem Intact.cancel (h : Intact s) (reason : String) : Intact (s.step (.cancel reason)) :=
  h.cancelled (aligned_of_nil rfl) rfl (fun _ => rfl) rfl rfl rfl

/-! ### Sending -/

/-- The segments that can be sent for a channel, with the state that it goes on in. -/
inductive Sends (c : Channel) : ChannelState → Byte → Nat → Prop
  | opening (h : c.state = .connect) : Sends c .synSent 2 0
  | closing (h : c.state = .closing) : Sends c .closed 4 0
  | data {n : Nat} (h : c.state = .opened) (hsend : n ≤ c.send.length) (hroom : n ≤ c.available) :
      Sends c .opened 16 n

theorem serve_cases (i : Fin usbMuxChannels) (u : Mux) :
    serve i u = u ∨ ∃ state flags n, Sends (u.channel i) state flags n ∧
      serve i u = tcpFrame i state flags n u := by
  rw [serve]
  cases hstate : (u.channel i).state with
  | connect => exact .inr ⟨_, _, _, .opening hstate, rfl⟩
  | closing => exact .inr ⟨_, _, _, .closing hstate, rfl⟩
  | opened =>
    dsimp only
    split
    · refine .inr ⟨_, _, _, .data hstate ?_ ?_, rfl⟩
      · exact le_trans (Nat.min_le_left ..) (Nat.min_le_left ..)
      · exact Nat.min_le_right ..
    · exact .inl rfl
  | unused | synSent | closed | error => exact .inl rfl

theorem frame_transmit_ne_nil (protocol : Word) (payload : List Byte) (u : Mux) :
    (frame protocol payload u).transmit ≠ [] := by
  rw [frame]
  split <;> exact List.cons_ne_nil _ _

/-- Besides the channel that is served, only what is on its way changes. -/
theorem tcpFrame_eq (i : Fin usbMuxChannels) (state : ChannelState) (flags : Byte) (n : Nat)
    (u : Mux) :
    (tcpFrame i state flags n u).channel =
        (u.setChannel i { (u.channel i).sent flags n with state := state }).channel ∧
      (tcpFrame i state flags n u).receive = u.receive ∧
      (tcpFrame i state flags n u).version = u.version ∧
      (tcpFrame i state flags n u).nextPort = u.nextPort := by
  rw [tcpFrame, frame]
  split <;> exact ⟨rfl, rfl, rfl, rfl⟩

theorem serveFirst_cases (is : List (Fin usbMuxChannels)) {u : Mux} (h : u.transmit = []) :
    serveFirst is u = u ∨ ∃ i state flags n k, Sends (u.channel i) state flags n ∧
      serveFirst is u = { tcpFrame i state flags n u with roundRobin := k } := by
  induction is with
  | nil => exact .inl rfl
  | cons i is ih =>
    rw [serveFirst]
    rcases serve_cases i u with heq | ⟨state, flags, n, hsends, heq⟩
    · rw [heq, if_neg (not_not_intro h)]
      exact ih
    · have hsent : (tcpFrame i state flags n u).transmit ≠ [] := frame_transmit_ne_nil 6 _ u
      rw [heq, if_pos hsent]
      exact .inr ⟨i, state, flags, n, _, hsends, rfl⟩

/-- A frame that is sent next is one of the negotiation, or it holds a segment of a channel. -/
theorem usbMuxOutput_cases (u : Mux) :
    let r := usbMuxOutput u
    (r.2.channel = u.channel ∧ r.2.receive = u.receive ∧ r.2.version = u.version ∧
      r.2.nextPort = u.nextPort ∧
      (u.transmit = [] → segmentIn (headerSize u) r.1 = none)) ∨
    u.transmit = [] ∧ ∃ i state flags n k, Sends (u.channel i) state flags n ∧
      r = ((tcpFrame i state flags n u).transmit,
        { tcpFrame i state flags n u with roundRobin := k }) := by
  have hnone : ∀ h, segmentIn h [] = none := fun h => by
    rw [segmentIn, List.drop_nil]
    exact if_neg (by decide)
  have hframe : ∀ protocol payload (u : Mux), (frame protocol payload u).channel = u.channel ∧
      (frame protocol payload u).receive = u.receive ∧
      (frame protocol payload u).version = u.version ∧
      (frame protocol payload u).nextPort = u.nextPort := by
    intro protocol payload u
    rw [frame]
    split <;> exact ⟨rfl, rfl, rfl, rfl⟩
  have hprotocol : ∀ h protocol payload (u : Mux), protocol ≠ 6 →
      segmentIn h (frame protocol payload u).transmit = none := by
    intro h protocol payload u hne
    have hread : be32 (frame protocol payload u).transmit = protocol := by
      rw [frame]
      split <;> exact netRd32_netWr32 protocol []
    rw [segmentIn, hread]
    exact if_neg fun hsix => hne hsix.1
  rw [usbMuxOutput]
  split
  case isTrue => exact .inl ⟨rfl, rfl, rfl, rfl, fun _ => hnone _⟩
  split
  case isTrue hbusy => exact .inl ⟨rfl, rfl, rfl, rfl, fun h => absurd h hbusy⟩
  case isFalse hidle =>
    rw [not_not] at hidle
    cases hstage : u.stage with
    | sendVersion =>
      obtain ⟨hchannel, hreceive, hversion, hnext⟩ := hframe 0 (put32 2 ++ put32 0 ++ put32 0) u
      exact .inl ⟨hchannel, hreceive, hversion, hnext, fun _ => hprotocol _ 0 _ u (by decide)⟩
    | sendSetup =>
      obtain ⟨hchannel, hreceive, hversion, hnext⟩ :=
        hframe 2 [7] { u with stage := .sendSetup, txSequence := 0, rxSequence := 0xffff }
      exact .inl ⟨hchannel, hreceive, hversion, hnext, fun _ => hprotocol _ 2 _ _ (by decide)⟩
    | active =>
      dsimp only
      rcases serveFirst_cases ((List.finRange usbMuxChannels).map fun k => u.roundRobin + k) hidle
        with heq | ⟨i, state, flags, n, k, hsends, heq⟩
      · rw [heq, hidle]
        exact .inl ⟨rfl, rfl, rfl, rfl, fun _ => hnone _⟩
      · rw [heq]
        exact .inr ⟨hidle, i, state, flags, n, k, hsends, rfl⟩
    | waitVersion | waitSetup | failed =>
      dsimp only
      rw [hidle]
      exact .inl ⟨rfl, rfl, rfl, rfl, fun _ => hnone _⟩

/-- What was sent on a connection, when one more segment is sent. -/
theorem sentFrom_snoc {e : Emission} (h : s'.emitted = s.emitted ++ [e]) (p : Port) :
    s'.sentFrom p = s.sentFrom p ++ if e.segment.sport = p then [e] else [] := by
  rw [Session.sentFrom, Session.sentFrom, h, List.filter_append]
  by_cases hp : e.segment.sport = p
  · rw [if_pos hp, List.filter_cons_of_pos (by simpa using hp), List.filter_nil]
  · rw [if_neg hp, List.filter_cons_of_neg (by simpa using hp), List.filter_nil]

theorem streamOf_snoc (gs : List Segment) (g : Segment) :
    streamOf (gs ++ [g]) = take (streamOf gs) g.piece := by
  rw [streamOf, List.map_append, List.map_singleton, reassemble_snoc]
  rfl

/-- Nothing is sent that goes beyond the window. -/
theorem withinWindow_of_available {n : Nat} (hroom : n ≤ c.available) {e : Emission}
    (hseq : e.segment.seq = c.sendNext) (hlen : e.segment.data.length ≤ n)
    (hheard : ∃ g, e.before.getLast? = some g ∧ g.ack = c.sendAcked ∧ g.window = c.peerWindow) :
    e.WithinWindow := by
  intro hne
  obtain ⟨g, hlast, hack, hwindow⟩ := hheard
  refine ⟨g, hlast, ?_⟩
  have hpos : 0 < e.segment.data.length := List.length_pos_iff.mpr hne
  have hgrant : c.peerWindow.toNat = g.wnd.toNat * 256 := by
    have hlt := g.wnd.isLt
    rw [← hwindow, Segment.window, BitVec.toNat_shiftLeft, BitVec.toNat_setWidth,
      Nat.shiftLeft_eq, Nat.mod_eq_of_lt (by omega), Nat.mod_eq_of_lt (by omega)]
  rw [Channel.available] at hroom
  split at hroom
  case isFalse => omega
  case isTrue hflight =>
    rw [hseq, hack, ← hgrant]
    generalize e.segment.data.length = k at hlen hpos
    have hsum : c.sendNext + BitVec.ofNat 32 k - c.sendAcked =
        c.sendNext - c.sendAcked + BitVec.ofNat 32 k := by
      rw [BitVec.sub_eq_add_neg, BitVec.sub_eq_add_neg, BitVec.add_assoc, BitVec.add_assoc,
        BitVec.add_comm (BitVec.ofNat 32 k)]
    rw [hsum]
    generalize c.sendNext - c.sendAcked = flight at hflight hroom
    generalize c.peerWindow = window at hflight hroom
    rw [BitVec.lt_def] at hflight
    rw [BitVec.toNat_sub_of_le (BitVec.le_def.mpr (Nat.le_of_lt hflight))] at hroom
    have hlt := window.isLt
    rw [BitVec.toNat_add, BitVec.toNat_ofNat, Nat.mod_eq_of_lt (b := 2 ^ 32) (by omega),
      Nat.mod_eq_of_lt (by omega)]
    omega

/-- The window of a segment ends where the room of the channel does, rounded down. -/
theorem edge_le {e : Emission} {flags : Byte} {n k : Nat}
    (hsegment : e.segment = c.segment flags n) (hroom : c.receive.length ≤ usbMuxRxSize)
    (hreceived : e.received ≤ k + c.receive.length) : e.edge ≤ k + usbMuxRxSize := by
  have hwnd : e.segment.wnd.toNat * 256 ≤ usbMuxRxSize - c.receive.length := by
    rw [hsegment, Channel.segment]
    dsimp only
    rw [BitVec.toNat_ofNat, Nat.shiftRight_eq_div_pow]
    have hmod := Nat.mod_le ((usbMuxRxSize - c.receive.length) / 2 ^ 8) (2 ^ 16)
    omega
  rw [Emission.edge]
  omega

theorem piece_segment (c : Channel) (flags : Byte) (n : Nat) :
    (c.segment flags n).piece = ⟨c.sendNext, flags &&& 2 ≠ 0, c.send.take n⟩ := rfl

/-- A conversation in which one more segment was sent. -/
def Conversation.send (v : Conversation) (g : Segment) : Conversation :=
  { v with emitted := v.emitted ++ [⟨g, v.arrived⟩] }

theorem Conversation.sent_send (v : Conversation) (g : Segment) :
    (v.send g).sent = v.sent ++ g.data := by
  rw [Conversation.sent, Conversation.send, List.flatMap_append, List.flatMap_singleton]
  rfl

/-- Sending keeps what a connection says of its channel. -/
theorem Standing.sends {state : ChannelState} {flags : Byte} {n : Nat} (h : Standing c v)
    (hsends : Sends c state flags n) :
    Standing { c.sent flags n with state := state } (v.send (c.segment flags n)) := by
  have houtgoing : streamOf ((v.send (c.segment flags n)).emitted.map (·.segment)) =
      take (streamOf (v.emitted.map (·.segment))) (c.segment flags n).piece := by
    rw [Conversation.send, List.map_append, List.map_singleton, streamOf_snoc]
  have hedges : ∀ k, (∀ e ∈ v.emitted, e.edge ≤ k + usbMuxRxSize) →
      c.receive.length ≤ usbMuxRxSize →
      Emission.received ⟨c.segment flags n, v.arrived⟩ ≤ k + c.receive.length →
      ∀ e ∈ (v.send (c.segment flags n)).emitted, e.edge ≤ k + usbMuxRxSize := by
    intro k hold hroom hreceived e he
    rcases List.mem_append.mp he with he | he
    · exact hold e he
    · rw [List.mem_singleton] at he
      rw [he]
      exact edge_le rfl hroom hreceived
  cases hsends with
  | closing hstate => trivial
  | opening hstate =>
    rw [Standing, hstate] at h
    have hsent : (v.send (c.segment 2 0)).sent = [] := by
      rw [Conversation.sent_send, Conversation.sent, h.emitted]
      rfl
    refine ⟨h.accepted, h.returned, hsent, h.receive, ?_, ?_, ?_, ?_⟩
    · show c.send.drop 0 = []
      rw [h.send, List.drop_nil]
    · rw [houtgoing, piece_segment, take, if_pos (by simp), h.sendNext]
      rfl
    · show c.sendNext + BitVec.ofNat 32 0 + 1 = 1
      rw [h.sendNext]
      rfl
    · have hall := hedges 0 (by rw [h.emitted]; nofun) (by rw [h.receive]; exact Nat.zero_le _)
        (le_of_eq_of_le (if_pos (by simp [Channel.segment])) (Nat.zero_le _))
      simpa only [Nat.zero_add] using hall
  | data hstate hlen hroom =>
    have hstreams := h.streams hstate
    obtain ⟨st, hst, hoctets, hnext⟩ := hstreams.incoming
    have htake : (c.send.take n).length = n := by
      rw [List.length_take]
      omega
    have hsent := Conversation.sent_send v (c.segment 16 n)
    refine Streams.standing ⟨⟨st, hst, hoctets, hnext⟩, ?_, ?_, ?_, hstreams.room, hstreams.heard,
      ?_⟩ rfl
    · rw [houtgoing, hstreams.outgoing, hsent, piece_segment, hstreams.sendNext, take,
        if_neg (by simp), Option.map_some, if_pos rfl]
      rfl
    · show c.sendNext + BitVec.ofNat 32 n + 0#32 = _
      rw [hsent, hstreams.sendNext, BitVec.add_zero]
      have hext := Stream.next_extend (⟨1, v.sent⟩ : Stream 32 Byte) (c.send.take n)
      rw [htake] at hext
      exact hext.symm
    · rw [hsent, List.append_assoc]
      show v.sent ++ (c.send.take n ++ c.send.drop n) = v.accepted
      rw [List.take_append_drop]
      exact hstreams.sent
    · refine hedges _ hstreams.edges hstreams.room ?_
      show (if (16 : Byte) &&& 2 ≠ 0 then 0 else ((streamOf v.arrived).map _).getD 0) ≤ _
      rw [if_neg (by decide), hst, Option.map_some, Option.getD_some, hoctets, List.length_append]
      exact le_refl _

/-- No more is sent than was written, and not beyond the window. -/
theorem Standing.bounded {state : ChannelState} {flags : Byte} {n : Nat} (h : Standing c v)
    (hsends : Sends c state flags n) (hsent : v.sent <+: v.accepted) :
    (v.send (c.segment flags n)).sent <+: v.accepted ∧
      Emission.WithinWindow ⟨c.segment flags n, v.arrived⟩ := by
  rw [Conversation.sent_send]
  cases hsends with
  | opening | closing =>
    refine ⟨?_, fun hne => absurd (List.take_zero (l := c.send)) hne⟩
    show v.sent ++ c.send.take 0 <+: v.accepted
    rw [List.take_zero, List.append_nil]
    exact hsent
  | data hstate hlen hroom =>
    have hstreams := h.streams hstate
    refine ⟨?_, withinWindow_of_available hroom rfl (List.length_take_le ..) hstreams.heard⟩
    rw [← hstreams.sent]
    exact List.prefix_append_right_inj _ |>.mpr (List.take_prefix ..)

theorem Intact.output (h : Intact s) : Intact (s.step .output) := by
  rw [Session.step]
  rcases usbMuxOutput_cases s.mux with ⟨hchannel, hreceive, hversion, hnext, hnone⟩ |
    ⟨hidle, i, state, flags, n, k, hsends, heq⟩
  · have hlog : (if s.mux.transmit = [] then
        (segmentIn (headerSize s.mux) (usbMuxOutput s.mux).1).toList else []) = [] := by
      split
      case isTrue hidle => rw [hnone hidle, Option.toList_none]
      case isFalse => rfl
    simp only [hlog, List.map_nil, List.append_nil]
    refine h.onChannel 0 (h.aligned.of_same hreceive hversion) hnext ?_ ?_
      (fun p _ => ⟨rfl, rfl, rfl⟩) (fun j _ _ => rfl) ?_ (h.sent _) ?_ h.windows
    · rw [hchannel]
    · intro j _
      rw [hchannel]
    · rw [hchannel]
      exact h.live 0
    · rw [hchannel]
      exact h.standing 0
  · have hseg : segmentIn (headerSize s.mux) (tcpFrame i state flags n s.mux).transmit =
        some ((s.mux.channel i).segment flags n) :=
      segmentIn_frame ((s.mux.channel i).segment flags n) s.mux
    rw [heq]
    simp only [hidle, hseg, if_true, Option.toList_some, List.map_singleton]
    generalize hg : (s.mux.channel i).segment flags n = g
    have hsport : g.sport = (s.mux.channel i).localPort := by rw [← hg]; rfl
    have hdport : g.dport = (s.mux.channel i).remotePort := by rw [← hg]; rfl
    generalize hs : (⟨{ tcpFrame i state flags n s.mux with roundRobin := k }, s.fed, s.arrived,
      s.emitted ++ [⟨g, s.toward g.sport g.dport⟩], s.accepted, s.returned⟩ : Session) = s'
    have hemitted : s'.emitted = s.emitted ++ [⟨g, s.toward g.sport g.dport⟩] := by rw [← hs]
    have hfrom := sentFrom_snoc hemitted
    rw [← hs] at hfrom ⊢
    obtain ⟨hchannel, hreceive, hversion, hnext⟩ := tcpFrame_eq i state flags n s.mux
    have hself := (congrFun hchannel i).trans (setChannel_self ..)
    have hold := h.standing i
    have hnew := hold.sends hsends
    have hbounded := hold.bounded hsends (h.sent _)
    rw [hg] at hnew hbounded
    have hconv : Session.conversation ⟨{ tcpFrame i state flags n s.mux with roundRobin := k },
        s.fed, s.arrived, s.emitted ++ [⟨g, s.toward g.sport g.dport⟩], s.accepted, s.returned⟩
        (s.mux.channel i) = (s.conversation (s.mux.channel i)).send g := by
      rw [Session.conversation, hfrom, if_pos hsport, hsport, hdport]
      rfl
    refine h.onChannel i (h.aligned.of_same hreceive hversion) hnext ?_ ?_ ?_ ?_ ?_ ?_ ?_ ?_
    · show ((tcpFrame i state flags n s.mux).channel i).localPort = _
      rw [hself]
      rfl
    · intro j hj
      exact (congrFun hchannel j).trans (setChannel_of_ne _ _ hj)
    · intro p hp
      refine ⟨rfl, rfl, ?_⟩
      rw [hfrom, if_neg (fun hp' => hp (hp'.symm.trans hsport)), List.append_nil]
    · intro j _ _
      rfl
    · show Channel.Live ((tcpFrame i state flags n s.mux).channel i) → _
      rw [hself]
      intro hlive
      cases hsends with
      | opening hstate => exact h.live i (.inl hstate)
      | closing => rcases hlive with hs | hs | hs <;> cases hs
      | data hstate => exact h.live i (.inr (.inr hstate))
    · have hprefix := hbounded.1
      rw [← hconv] at hprefix
      exact hprefix
    · show Standing ((tcpFrame i state flags n s.mux).channel i) (Session.conversation _
        ((tcpFrame i state flags n s.mux).channel i))
      rw [hself]
      rw [← hconv] at hnew
      exact hnew
    · intro e he
      rcases List.mem_append.mp he with he | he
      · exact h.windows e he
      · rw [List.mem_singleton.mp he, hsport, hdport]
        exact hbounded.2

end S5LBox.Usb
