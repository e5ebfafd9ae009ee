import S5LBox.Net.Wire

/-!
# The usbmux peer

The host end of the multiplexer in `usb_mux.c`: four byte streams over one pair of bulk endpoints,
each with the sequence numbers and windows of TCP. What the guest sends comes in as a string of
octets cut into frames by a length in their header, and one frame at a time is sent.

A buffer with its fill count is the list of its octets.
-/

namespace S5LBox.Usb

open Net

/-! ### Constants and data -/

/-- `USB_MUX_CHANNELS`. -/
abbrev usbMuxChannels : Nat := 4

instance neZeroChannels : NeZero (3 + 1) := ⟨Nat.succ_ne_zero 3⟩

/-- `USB_MUX_RX_SIZE`. -/
def usbMuxRxSize : Nat := 65536

/-- `USB_MUX_TX_SIZE`. -/
def usbMuxTxSize : Nat := 16384

/-- `usb_mux_state_t`. -/
inductive ChannelState
  | unused | connect | synSent | opened | closing | closed | error
  deriving DecidableEq

/-- What `channel->error` says went wrong. -/
inductive Fault
  | refused | handshake | flags | unsent | outOfOrder | window
  | cancelled (reason : String)
  deriving DecidableEq

/-- `usb_mux_channel_t`. -/
structure Channel where
  state : ChannelState
  localPort : Port
  remotePort : Port
  sendNext : Word
  sendAcked : Word
  receiveNext : Word
  peerWindow : Word
  ackPending : Bool
  error : Option Fault
  receive : List Byte
  send : List Byte
  deriving DecidableEq

/-- A channel of zeroes. -/
def Channel.zero : Channel := ⟨.unused, 0, 0, 0, 0, 0, 0, false, none, [], []⟩

/-- The stages of `usb_mux_t`. -/
inductive Stage
  | sendVersion | waitVersion | sendSetup | waitSetup | active | failed
  deriving DecidableEq

/-- `usb_mux_t`. The frame that is being sent is empty when there is none. -/
structure Mux where
  version : Word
  stage : Stage
  roundRobin : Fin usbMuxChannels
  receive : List Byte
  transmit : List Byte
  txSequence : BitVec 16
  rxSequence : BitVec 16
  nextPort : Port
  error : Option String
  channel : Fin usbMuxChannels → Channel

/-- Replaces a channel. -/
def Mux.setChannel (u : Mux) (i : Fin usbMuxChannels) (c : Channel) : Mux :=
  { u with channel := Function.update u.channel i c }

/-- `be16`. -/
def be16 (p : List Byte) : BitVec 16 := netRd16 p 0

/-- `be32`. -/
def be32 (p : List Byte) : Word := netRd32 p 0

/-- `put16`. -/
def put16 (v : BitVec 16) : List Byte := netWr16 v

/-- `put32`. -/
def put32 (v : Word) : List Byte := netWr32 v

/-- `header_size`. -/
def headerSize (u : Mux) : Nat := if u.version = 2 then 16 else 8

/-! ### The service client -/

/-- `usb_mux_init`. -/
def usbMuxInit : Mux :=
  ⟨0, .sendVersion, 0, [], [], 0, 0, 1, none, fun _ => .zero⟩

/-- `usb_mux_ready`. -/
def usbMuxReady (u : Mux) : Bool := u.stage = .active

/-- The slot of a channel can be taken for another one. -/
def Channel.free (c : Channel) : Bool := c.state = .unused ∨ c.state = .closed

/-- What `usb_mux_cancel` does to a channel. -/
def cancelChannel (reason : String) (c : Channel) : Channel :=
  if c.free then c else { c with state := .error, error := some (.cancelled reason) }

/-- `usb_mux_cancel`. -/
def usbMuxCancel (reason : String) (u : Mux) : Mux :=
  { u with
    stage := .failed
    error := some reason
    transmit := []
    receive := []
    channel := fun i => cancelChannel reason (u.channel i) }

/-- `usb_mux_connect`: the index of the channel, if there is one. -/
def usbMuxConnect (port : Port) (u : Mux) : Option (Fin usbMuxChannels) × Mux :=
  if ¬usbMuxReady u ∨ port = 0 ∨ u.nextPort = 0 then (none, u)
  else
    match (List.finRange usbMuxChannels).find? fun i => (u.channel i).free with
    | none => (none, u)
    | some i =>
      let c := { Channel.zero with
        localPort := u.nextPort, remotePort := port, state := .connect }
      (some i, { u.setChannel i c with nextPort := u.nextPort + 1 })

/-- `usb_mux_write`: how many octets are accepted. -/
def usbMuxWrite (i : Fin usbMuxChannels) (data : List Byte) (u : Mux) : Nat × Mux :=
  let c := u.channel i
  if ¬usbMuxReady u ∨ c.state ≠ .opened then (0, u)
  else
    let size := min data.length (usbMuxTxSize - c.send.length)
    (size, u.setChannel i { c with send := c.send ++ data.take size })

/-- `usb_mux_read`: the octets that are returned. -/
def usbMuxRead (i : Fin usbMuxChannels) (capacity : Nat) (u : Mux) : List Byte × Mux :=
  let c := u.channel i
  let n := min capacity c.receive.length
  if n = 0 then ([], u)
  else
    (c.receive.take n, u.setChannel i { c with
      receive := c.receive.drop n
      -- The room that is free again is told to the guest.
      ackPending := if c.state = .opened then true else c.ackPending })

/-- `usb_mux_close`. -/
def usbMuxClose (i : Fin usbMuxChannels) (u : Mux) : Mux :=
  let c := u.channel i
  if c.free then u
  else u.setChannel i { c with
    send := []
    receive := []
    state := if usbMuxReady u then .closing else .closed }

/-! ### Sending -/

/-- `frame`, with the payload that its caller puts behind the header. -/
def frame (protocol : Word) (payload : List Byte) (u : Mux) : Mux :=
  let size := headerSize u + payload.length
  let header := put32 protocol ++ put32 (BitVec.ofNat 32 size)
  if headerSize u = 16 then
    { u with
      transmit := header ++ put32 0xfeedface ++ put16 u.txSequence ++ put16 u.rxSequence ++ payload
      txSequence := u.txSequence + 1 }
  else { u with transmit := header ++ payload }

/-- The header and the data of a stream segment. -/
structure Segment where
  sport : Port
  dport : Port
  seq : Word
  ack : Word
  flags : Byte
  wnd : BitVec 16
  data : List Byte
  deriving DecidableEq

/-- The octets of a segment. -/
def Segment.octets (g : Segment) : List Byte :=
  put16 g.sport ++ put16 g.dport ++ put32 g.seq ++ put32 g.ack ++ [(5 : Byte) <<< 4, g.flags] ++
    put16 g.wnd ++ [0, 0, 0, 0] ++ g.data

/-- The segment that `tcp_frame` sends for a channel. -/
def Channel.segment (c : Channel) (flags : Byte) (n : Nat) : Segment :=
  { sport := c.localPort
    dport := c.remotePort
    seq := c.sendNext
    ack := c.receiveNext
    flags := flags
    wnd := BitVec.ofNat 16 ((usbMuxRxSize - c.receive.length) >>> 8)
    data := c.send.take n }

/-- What `tcp_frame` does to a channel. -/
def Channel.sent (c : Channel) (flags : Byte) (n : Nat) : Channel :=
  { c with
    send := c.send.drop n
    sendNext := c.sendNext + BitVec.ofNat 32 n + (if flags &&& 2 ≠ 0 then 1 else 0)
    ackPending := false }

/-- `tcp_frame`, for a channel that goes on in a given state. -/
def tcpFrame (i : Fin usbMuxChannels) (state : ChannelState) (flags : Byte) (n : Nat) (u : Mux) :
    Mux :=
  let c := u.channel i
  (frame 6 (c.segment flags n).octets u).setChannel i { c.sent flags n with state := state }

/-- How much of the window of the guest is left. -/
def Channel.available (c : Channel) : Nat :=
  let flight := c.sendNext - c.sendAcked
  if flight < c.peerWindow then (c.peerWindow - flight).toNat else 0

/-- How many octets of a channel are sent next. -/
def sendSize (u : Mux) (c : Channel) : Nat :=
  min (min c.send.length (usbMuxTxSize - headerSize u - 20)) c.available

/-- What `usb_mux_output` does for one channel. -/
def serve (i : Fin usbMuxChannels) (u : Mux) : Mux :=
  let c := u.channel i
  match c.state with
  | .connect => tcpFrame i .synSent 2 0 u
  | .closing => tcpFrame i .closed 4 0 u
  | .opened =>
    if sendSize u c ≠ 0 ∨ c.ackPending then tcpFrame i .opened 16 (sendSize u c) u else u
  | _ => u

/-- The loop of `usb_mux_output` over the channels that are left. -/
def serveFirst : List (Fin usbMuxChannels) → Mux → Mux
  | [], u => u
  | i :: rest, u =>
    let u' := serve i u
    if u'.transmit ≠ [] then { u' with roundRobin := i + 1 } else serveFirst rest u'

/-- `usb_mux_output`: the frame that is being sent. -/
def usbMuxOutput (u : Mux) : List Byte × Mux :=
  if u.stage = .failed then ([], u)
  else
    let u' :=
      if u.transmit ≠ [] then u
      else match u.stage with
        | .sendVersion => { frame 0 (put32 2 ++ put32 0 ++ put32 0) u with stage := .waitVersion }
        | .sendSetup =>
          { frame 2 [7] { u with txSequence := 0, rxSequence := 0xffff } with stage := .waitSetup }
        | .active =>
          serveFirst ((List.finRange usbMuxChannels).map fun k => u.roundRobin + k) u
        | _ => u
    (u'.transmit, u')

/-- `usb_mux_output_complete`. -/
def usbMuxOutputComplete (u : Mux) : Mux :=
  { u with transmit := [], stage := if u.stage = .waitSetup then .active else u.stage }

/-! ### Receiving -/

/-- The segment that the octets behind a header hold. -/
def segmentOf (p : List Byte) : Segment :=
  { sport := be16 p
    dport := be16 (p.drop 2)
    seq := be32 (p.drop 4)
    ack := be32 (p.drop 8)
    flags := p.getD 13 0
    wnd := be16 (p.drop 14)
    data := p.drop 20 }

/-- `channel_error`. -/
def channelError (fault : Fault) (c : Channel) : Channel :=
  { c with error := some fault, state := .error, send := [] }

/-- The window that a segment of the guest grants. -/
def Segment.window (g : Segment) : Word := g.wnd.setWidth 32 <<< 8

/-- What the data of a segment does to an open channel. -/
def inputData (g : Segment) (c : Channel) : Channel :=
  if g.seq ≠ c.receiveNext then
    let behind := (c.receiveNext - g.seq).toNat
    if g.data.length ≤ behind ∧ behind ≤ usbMuxRxSize then { c with ackPending := true }
    else channelError .outOfOrder c
  else if usbMuxRxSize - c.receive.length < g.data.length then channelError .window c
  else if g.data ≠ [] then
    { c with
      receive := c.receive ++ g.data
      receiveNext := c.receiveNext + BitVec.ofNat 32 g.data.length
      ackPending := true }
  else c

/-- What `input_frame` does to the channel of a segment. -/
def inputChannel (g : Segment) (c : Channel) : Channel :=
  match c.state with
  | .closed | .closing | .error => c
  | .synSent =>
    if g.flags &&& 4 ≠ 0 then channelError .refused c
    else if g.flags ≠ 18 ∨ g.data ≠ [] ∨ g.ack ≠ c.sendNext then channelError .handshake c
    else { c with
      sendAcked := g.ack
      receiveNext := g.seq + 1
      peerWindow := g.window
      state := .opened
      ackPending := true }
  | .opened =>
    if g.flags &&& 4 ≠ 0 then channelError .refused c
    else if g.flags ≠ 16 ∧ g.flags ≠ 24 then channelError .flags c
    -- Every octet under way is bounded by the queue and the window.
    else if c.sendNext - c.sendAcked < g.ack - c.sendAcked then channelError .unsent c
    else inputData g { c with sendAcked := g.ack, peerWindow := g.window }
  | .unused | .connect =>
    if g.flags &&& 4 ≠ 0 then channelError .refused c else channelError .flags c

/-- The channel that a segment is for. -/
def channelOf (g : Segment) (u : Mux) : Option (Fin usbMuxChannels) :=
  (List.finRange usbMuxChannels).find? fun i =>
    (u.channel i).localPort = g.dport ∧ (u.channel i).remotePort = g.sport

/-- What `input_frame` does with a stream segment. -/
def inputSegment (g : Segment) (u : Mux) : Mux :=
  match channelOf g u with
  | none => u
  | some i => u.setChannel i (inputChannel g (u.channel i))

/-- What `input_frame` does with what is behind the header. -/
def inputPayload (protocol : Word) (p : List Byte) (u : Mux) : Mux :=
  if u.stage = .waitVersion then
    if protocol ≠ 0 ∨ p.length ≠ 12 ∨ (be32 p ≠ 1 ∧ be32 p ≠ 2) then
      usbMuxCancel "Unsupported guest usbmux version" u
    else { u with version := be32 p, stage := if be32 p = 2 then .sendSetup else .active }
  else if u.stage ≠ .active then usbMuxCancel "Unexpected usbmux negotiation packet" u
  else if protocol = 1 then
    -- The guest was asked for diagnostics. They are no part of any stream.
    if p ≠ [] ∧ (p.getD 0 0 = 5 ∨ p.getD 0 0 = 7) then u
    else usbMuxCancel "Guest reported a usbmux control error" u
  else if protocol ≠ 6 ∨ p.length < 20 ∨ p.getD 12 0 >>> 4 ≠ 5 then
    usbMuxCancel "Invalid usbmux stream header" u
  else inputSegment (segmentOf p) u

/-- `input_frame`. -/
def inputFrame (p : List Byte) (u : Mux) : Mux :=
  let h := headerSize u
  if p.length < h then usbMuxCancel "Truncated usbmux header" u
  else
    let u := if h = 16 then { u with rxSequence := be16 (p.drop 14) } else u
    inputPayload (be32 p) (p.drop h) u

/-- The length that the header of a frame gives. -/
def frameLength (p : List Byte) : Nat := (be32 (p.drop 4)).toNat

/-- The error of a frame whose length cannot be one. -/
def badLength (u : Mux) : Mux := usbMuxCancel "Invalid usbmux packet length" u

/-- One turn of the loop of `usb_mux_feed`, and the octets that are left. -/
def feedTurn (p : List Byte) (u : Mux) : List Byte × Mux :=
  let wanted := if u.receive.length < 8 then 8 else frameLength u.receive
  if wanted < 8 ∨ usbMuxRxSize < wanted ∨ wanted < u.receive.length then ([], badLength u)
  else
    let n := min (wanted - u.receive.length) p.length
    let u := { u with receive := u.receive ++ p.take n }
    if 8 ≤ u.receive.length ∧
        (frameLength u.receive < headerSize u ∨ usbMuxRxSize < frameLength u.receive) then
      ([], badLength u)
    else if 8 ≤ u.receive.length ∧ u.receive.length = frameLength u.receive then
      (p.drop n, { inputFrame u.receive u with receive := [] })
    else (p.drop n, u)

/-- The loop of `usb_mux_feed`. A turn takes an octet, or ends a frame that was complete. -/
def feedLoop : Nat → List Byte → Mux → Mux
  | 0, _, u => u
  | fuel + 1, p, u =>
    if p = [] ∨ u.stage = .failed then u
    else
      let r := feedTurn p u
      feedLoop fuel r.1 r.2

/-- `usb_mux_feed`. -/
def usbMuxFeed (p : List Byte) (u : Mux) : Mux :=
  if u.stage = .failed then u else feedLoop (p.length + 1) p u

end S5LBox.Usb
