import S5LBox.Lib.InOrder
import S5LBox.Lib.Runs
import S5LBox.Usb.Feed

/-!
# Sessions

A session is the peer together with what has passed between it and its two sides: the segments
that have come from the guest and those that were sent to it, and for every connection the octets
that the service client wrote and read. A connection is known by its local port, which is given
to no other one.

## Main definitions

* `Session`, `Action`, `Session.step`: a peer with its history, and what can be done with it.
* `framesOf`, `guestSegments`: the frames and the segments that a string of octets holds, however it
  is received.
* `Session.incoming`, `Session.outgoing`: the streams that the segments of a connection bring to a
  receiver that takes them in order.
* `Emission.edge`: where the window that a segment advertised ends.
-/

namespace S5LBox.Usb

open Net InOrder

/-! ### Segments in frames -/

/-- The stream segment that a frame holds. -/
def segmentIn (h : Nat) (r : List Byte) : Option Segment :=
  let p := r.drop h
  if be32 r = 6 ∧ 20 ≤ p.length ∧ p.getD 12 0 >>> 4 = 5 then some (segmentOf p) else none

theorem segmentOf_octets (g : Segment) : segmentOf g.octets = g := by
  have h16 : ∀ (v : BitVec 16), v.extractLsb' 8 8 ++ v.extractLsb' 0 8 = v := by
    intro v
    ext i hi
    simp only [BitVec.getElem_append, BitVec.getElem_extractLsb']
    split_ifs <;> grind
  have h32 : ∀ v : Word, v.extractLsb' 24 8 ++ v.extractLsb' 16 8 ++ v.extractLsb' 8 8 ++
      v.extractLsb' 0 8 = v := fun v => netRd32_netWr32 v []
  obtain ⟨sport, dport, seq, ack, flags, wnd, data⟩ := g
  have hread : segmentOf (Segment.octets ⟨sport, dport, seq, ack, flags, wnd, data⟩) =
      ⟨sport.extractLsb' 8 8 ++ sport.extractLsb' 0 8, dport.extractLsb' 8 8 ++ dport.extractLsb' 0 8,
        seq.extractLsb' 24 8 ++ seq.extractLsb' 16 8 ++ seq.extractLsb' 8 8 ++ seq.extractLsb' 0 8,
        ack.extractLsb' 24 8 ++ ack.extractLsb' 16 8 ++ ack.extractLsb' 8 8 ++ ack.extractLsb' 0 8,
        flags, wnd.extractLsb' 8 8 ++ wnd.extractLsb' 0 8, data⟩ := rfl
  rw [hread, h16, h16, h16, h32, h32]

@[simp]
theorem length_octets (g : Segment) : g.octets.length = 20 + g.data.length := by
  rw [Segment.octets, List.length_append]
  rfl

/-- A frame holds the segment that was put in it. -/
theorem segmentIn_frame (g : Segment) (u : Mux) :
    segmentIn (headerSize u) (frame 6 g.octets u).transmit = some g := by
  have hframe : ∃ header, header.length = headerSize u ∧
      (frame 6 g.octets u).transmit = header ++ g.octets ∧ be32 (header ++ g.octets) = 6 := by
    rcases headerSize_eq u with h | h <;> rw [frame, h]
    · exact ⟨_, rfl, rfl, netRd32_netWr32 6 []⟩
    · exact ⟨_, rfl, rfl, netRd32_netWr32 6 []⟩
  obtain ⟨header, hlen, htransmit, hprotocol⟩ := hframe
  have hoffset : g.octets.getD 12 0 >>> 4 = 5 := by
    show ((5 : Byte) <<< 4) >>> 4 = 5
    decide
  rw [htransmit, segmentIn]
  simp only [List.drop_left' hlen]
  rw [if_pos ⟨hprotocol, by rw [length_octets]; omega, hoffset⟩, segmentOf_octets]

/-! ### Frames of the guest -/

/-- The frames that a string of octets is made of, as far as they are whole: each one tells its own
length. -/
def framesOf (o : List Byte) : List (List Byte) :=
  if _h : 8 ≤ o.length ∧ 8 ≤ frameLength o ∧ frameLength o ≤ o.length then
    o.take (frameLength o) :: framesOf (o.drop (frameLength o))
  else []
termination_by o.length
decreasing_by
  rw [List.length_drop]
  omega

/-- How long the headers are behind the first frame, in which the guest tells its version. -/
def guestHeader (first : List Byte) : Nat := if be32 (first.drop 8) = 2 then 16 else 8

/-- The segments in the frames of the guest. -/
def segmentsOf : List (List Byte) → List Segment
  | [] => []
  | first :: rest => rest.flatMap fun r => (segmentIn (guestHeader first) r).toList

/-- The segments that the octets of the guest hold. -/
def guestSegments (o : List Byte) : List Segment := segmentsOf (framesOf o)

/-- The segments that an octet brings, the one of the frame that it ends. -/
def arrivals (b : Byte) (u : Mux) : List Segment :=
  let r := u.receive ++ [b]
  if u.stage ≠ .failed ∧ 8 ≤ r.length ∧ r.length = frameLength r then
    (segmentIn (headerSize u) r).toList
  else []

/-- The segments that a string of octets brings. -/
def arrivalsOf : List Byte → Mux → List Segment
  | [], _ => []
  | b :: p, u => arrivals b u ++ arrivalsOf p (usbMuxFeed [b] u)

/-! ### Sessions -/

/-- A segment that was sent, and what had come from the guest on its connection by then. -/
structure Emission where
  segment : Segment
  before : List Segment
  deriving DecidableEq

/-- A peer, and what has passed between it and its two sides: the octets of the guest, its segments
that have arrived, those that were sent to it, and what the service client wrote and read. -/
structure Session where
  mux : Mux
  fed : List Byte
  arrived : List Segment
  emitted : List Emission
  accepted : Port → List Byte
  returned : Port → List Byte

/-- What can be done with a peer. -/
inductive Action
  | connect (port : Port)
  | write (i : Fin usbMuxChannels) (data : List Byte)
  | read (i : Fin usbMuxChannels) (capacity : Nat)
  | close (i : Fin usbMuxChannels)
  | cancel (reason : String)
  | feed (data : List Byte)
  | output
  | outputComplete

namespace Session

/-- A session that has just begun. -/
def start : Session := ⟨usbMuxInit, [], [], [], fun _ => [], fun _ => []⟩

/-- What the guest has sent on a connection. -/
def toward (s : Session) (p r : Port) : List Segment :=
  s.arrived.filter fun g => g.dport = p ∧ g.sport = r

/-- What was sent to the guest on a connection. -/
def sentFrom (s : Session) (p : Port) : List Emission :=
  s.emitted.filter fun e => e.segment.sport = p

/-- The octets that were sent to the guest on a connection. -/
def sent (s : Session) (p : Port) : List Byte := (s.sentFrom p).flatMap (·.segment.data)

/-- Adds to what has passed on a connection. -/
def note (log : Port → List Byte) (p : Port) (data : List Byte) : Port → List Byte :=
  Function.update log p (log p ++ data)

/-- One action. -/
def step (a : Action) (s : Session) : Session :=
  match a with
  | .connect port => { s with mux := (usbMuxConnect port s.mux).2 }
  | .write i data =>
    let r := usbMuxWrite i data s.mux
    { s with
      mux := r.2
      accepted := note s.accepted (s.mux.channel i).localPort (data.take r.1) }
  | .read i capacity =>
    let r := usbMuxRead i capacity s.mux
    { s with mux := r.2, returned := note s.returned (s.mux.channel i).localPort r.1 }
  | .close i => { s with mux := usbMuxClose i s.mux }
  | .cancel reason => { s with mux := usbMuxCancel reason s.mux }
  | .feed data =>
    { s with
      mux := usbMuxFeed data s.mux
      fed := s.fed ++ data
      arrived := s.arrived ++ arrivalsOf data s.mux }
  | .output =>
    let r := usbMuxOutput s.mux
    let new := if s.mux.transmit = [] then (segmentIn (headerSize s.mux) r.1).toList else []
    { s with
      mux := r.2
      emitted := s.emitted ++ new.map fun g => ⟨g, s.toward g.sport g.dport⟩ }
  | .outputComplete => { s with mux := usbMuxOutputComplete s.mux }

end Session

/-! ### Streams and windows -/

/-- A segment as a piece of its stream. -/
def Segment.piece (g : Segment) : InOrder.Segment 32 Byte := ⟨g.seq, g.flags &&& 2 ≠ 0, g.data⟩

/-- The stream that segments bring to a receiver that takes them in order. -/
def streamOf (gs : List Segment) : Option (Stream 32 Byte) := reassemble (gs.map Segment.piece)

/-- The stream of the guest on a connection. -/
def Session.incoming (s : Session) (p r : Port) : Option (Stream 32 Byte) := streamOf (s.toward p r)

/-- The stream of the service client on a connection. -/
def Session.outgoing (s : Session) (p : Port) : Option (Stream 32 Byte) :=
  streamOf ((s.sentFrom p).map (·.segment))

/-- How much of the stream of the guest had come when a segment was sent. The stream begins after
the segment that opens the connection. -/
def Emission.received (e : Emission) : Nat :=
  if e.segment.flags &&& 2 ≠ 0 then 0
  else ((streamOf e.before).map fun st => st.octets.length).getD 0

/-- Where the window that a segment advertised ends in the stream of the guest. -/
def Emission.edge (e : Emission) : Nat := e.received + e.segment.wnd.toNat * 256

/-- The data of a segment does not go beyond the window that the guest had granted last. -/
def Emission.WithinWindow (e : Emission) : Prop :=
  e.segment.data ≠ [] → ∃ g, e.before.getLast? = some g ∧
    (e.segment.seq + BitVec.ofNat 32 e.segment.data.length - g.ack).toNat ≤ g.wnd.toNat * 256

/-- The data of a segment of the guest lies inside a window that was advertised to it. The octets
are those nearest to what comes next among all that have the sequence numbers of the segment. -/
def Session.Inside (p r : Port) (s : Session) (g : Segment) : Prop :=
  g.dport = p → g.sport = r → g.data ≠ [] → ∀ st, s.incoming p r = some st →
    ∃ e ∈ s.sentFrom p,
      (st.octets.length : Int) + (g.seq - st.next).toInt + g.data.length ≤ e.edge

/-- The segments that an octet adds to those of the guest. -/
def Session.added (b : Byte) (s : Session) : List Segment :=
  (guestSegments (s.fed ++ [b])).drop (guestSegments s.fed).length

/-- All data of a connection that a string of octets adds lies inside windows that were
advertised. -/
def Session.FeedInside (p r : Port) : List Byte → Session → Prop
  | [], _ => True
  | b :: data, s =>
    (∀ g ∈ s.added b, s.Inside p r g) ∧ FeedInside p r data (s.step (.feed [b]))

end S5LBox.Usb
