import S5LBox.Ppp.Automaton

/-!
# The PPP peer

The rest of `ppp.c`: what becomes of a frame that came in, the deframer, the clock, and the
functions of the interface.

## Main definitions

* `Peer`: a link and its deframer.
* `frameInput`, `pppInputByte`, `pppInput`: what the guest sends comes in.
* `pppTick`, `pppInit`, `pppOpen`, `pppClose`, `pppSendIp`, `pppPhase`: the interface.
* `Action`, `act`: anything a host can do with a peer.
-/

namespace S5LBox.Ppp

/-! ### Frames that came in -/

/-- What the checks at the head of `frame_input` make of the octets between two flags. -/
inductive Unframed
  | short
  | badFcs
  | good (proto : BitVec 16) (info : List Byte)
  deriving DecidableEq, Repr

/-- The checks at the head of `frame_input`: the check sequence, the address and the control if
they are there, and the protocol in one octet or in two. -/
def unframe (f : List Byte) : Unframed :=
  if f.length < 4 then .short
  else if pppFcs16 pppFcsInit f ≠ pppFcsGood then .badFcs
  else
    let f := f.take (f.length - 2)
    let f := if 2 ≤ f.length ∧ f.getD 0 0 = pppAllstations ∧ f.getD 1 0 = pppUi then f.drop 2 else f
    if f.length < 1 then .short
    else if (f.getD 0 0).getLsbD 0 then .good ((f.getD 0 0).setWidth 16) (f.drop 1)
    else if f.length < 2 then .short
    else .good (f.getD 0 0 ++ f.getD 1 0) (f.drop 2)

/-- An IPv4 datagram came in. -/
def ipInput (p : Link) (info : List Byte) : Link :=
  let p := { p with stats := { p.stats with
    ipFramesIn := p.stats.ipFramesIn + 1
    ipBytesIn := p.stats.ipBytesIn + info.length } }
  if p.ipSink ∧ p.ipcp.state = .opened then { p with delivered := p.delivered ++ [info] }
  else { p with stats := { p.stats with ipFramesDropped := p.stats.ipFramesDropped + 1 } }

/-- A frame of a protocol that is not spoken came in. -/
def unknownProto (p : Link) (proto : BitVec 16) (info : List Byte) : Link :=
  let p := { p with stats := { p.stats with unknownProtos := p.stats.unknownProtos + 1 } }
  if p.lcp.state = .opened then
    let rej := [proto.extractLsb' 8 8, proto.extractLsb' 0 8] ++ info.take (pppMruDefault - 2)
    sendNext p .lcp pppProtoRej rej
  else p

/-- The information of a frame goes to its protocol. -/
def dispatch (p : Link) (proto : BitVec 16) (info : List Byte) : Link :=
  if proto = pppProtoLcp then cpInput p .lcp info
  else if proto = pppProtoIpcp then cpInput p .ipcp info
  else if proto = pppProtoIp then ipInput p info
  else unknownProto p proto info

/-- What is counted for the deframer, changed. -/
def count (p : Link) (g : Reception → Reception) : Link :=
  { p with stats := { p.stats with toReception := g p.stats.toReception } }

/-- `frame_input`. -/
def frameInput (p : Link) (f : List Byte) : Link :=
  match unframe f with
  | .short => count p fun s => { s with shortFrames := s.shortFrames + 1 }
  | .badFcs => count p fun s => { s with fcsErrors := s.fcsErrors + 1 }
  | .good proto info =>
    dispatch (count p fun s => { s with framesIn := s.framesIn + 1 }) proto info

/-! ### The deframer -/

/-- `ppp_peer_t`. -/
structure Peer extends Link where
  rxbuf : List Byte := []
  inFrame : Bool := false
  escaped : Bool := false
  overlong : Bool := false

/-- What the flag makes of the octets before it. -/
def endFrame (p : Peer) : Link :=
  if p.escaped then count p.toLink fun s => { s with aborts := s.aborts + 1 }
  else if p.inFrame ∧ p.rxbuf ≠ [] then
    if p.overlong then count p.toLink fun s => { s with longFrames := s.longFrames + 1 }
    else frameInput p.toLink p.rxbuf
  else p.toLink

/-- `ppp_input_byte`. -/
def pppInputByte (p : Peer) (byte : Byte) : Peer :=
  let p := { p with toLink := count p.toLink fun s => { s with rxBytes := s.rxBytes + 1 } }
  if byte = pppFlag then
    { toLink := endFrame p, rxbuf := [], escaped := false, overlong := false, inFrame := true }
  else if !p.inFrame then p
  else if byte = pppEscape then { p with escaped := true }
  else
    let byte := if p.escaped then byte ^^^ pppTrans else byte
    let p := { p with escaped := false }
    if p.rxbuf.length ≥ pppMaxFrame then { p with overlong := true }
    else { p with rxbuf := p.rxbuf ++ [byte] }

/-- `ppp_input`. -/
def pppInput (p : Peer) (bytes : List Byte) : Peer := bytes.foldl pppInputByte p

/-! ### The interface -/

/-- One of the two timers, at a time. -/
def serviceTimer (p : Link) (l : Layer) (nowMs : Word) : Link :=
  if (fsmFor p l).timerRunning ∧ (fsmFor p l).restartAtMs ≤ nowMs then restartTimeout p l else p

/-- `ppp_tick`. -/
def pppTick (p : Link) (nowMs : Word) : Link :=
  if nowMs < p.nowMs then p
  else
    let p := { p with nowMs := nowMs }
    let p := serviceTimer p .lcp nowMs
    serviceTimer p .ipcp nowMs

/-- `ppp_config_default`. -/
def pppConfigDefault : Config where
  localIp := 0x0a000202
  remoteIp := 0x0a00020f
  dns1 := 0x0a000203
  dns2 := 0x0a000203
  magic := 0x5335384c

/-- `ppp_init`. -/
def pppInit (cfg : Config) : Peer where
  cfg := cfg
  ourMagic := cfg.magic
  txAccm := 0xffffffff
  peerMru := BitVec.ofNat 16 pppMruDefault
  peerAsyncmap := 0xffffffff
  lcp := { state := .initial, nextId := 1 }
  ipcp := { state := .initial, nextId := 1 }

/-- `ppp_set_ip_sink`. -/
def pppSetIpSink (p : Link) (installed : Bool) : Link := { p with ipSink := installed }

/-- `ppp_send_ip`. -/
def pppSendIp (p : Link) (pkt : List Byte) : Bool × Link :=
  let overflow := { p with stats := { p.stats with txOverflows := p.stats.txOverflows + 1 } }
  if pkt = [] then (false, p)
  else if p.ipcp.state ≠ .opened then (false, overflow)
  else if pkt.length > p.peerMru.toNat then (false, overflow)
  else
    let q := txFrame p pppProtoIp pkt
    if q.stats.framesOut = p.stats.framesOut then (false, q)
    else
      (true, { q with stats := { q.stats with
        ipFramesOut := q.stats.ipFramesOut + 1
        ipBytesOut := q.stats.ipBytesOut + pkt.length } })

/-- `ppp_open`. -/
def pppOpen (p : Link) : Link :=
  if p.opened then p
  else
    let p := { p with opened := true }
    let p := modFsm p .lcp fun f => { f with reqOpts := pppReqLcpMagic ||| pppReqLcpAsyncmap }
    let p := irc p .lcp pppMaxConfigure
    scr (setState p .lcp .reqSent) .lcp true

/-- `ppp_close`. -/
def pppClose (p : Link) : Link :=
  let p := { p with opened := false }
  let p := if p.lcp.state = .opened then tld p .lcp else p
  if p.lcp.state = .initial ∨ p.lcp.state = .closed then setState p .lcp .closed
  else str (setState (irc p .lcp pppMaxTerminate) .lcp .closing) .lcp

/-- `ppp_phase`. -/
def pppPhase (p : Link) : PppPhase :=
  if p.lcp.state = .closing ∨ p.lcp.state = .stopping then .terminate
  else if p.ipcp.state = .opened then .opened
  else if p.lcp.state = .opened then .network
  else if p.lcp.state = .initial ∨ p.lcp.state = .closed then .dead
  else .establish

/-! ### Everything a host can do -/

/-- A call of the interface. -/
inductive Action
  | open_
  | close
  | tick (nowMs : Word)
  | input (byte : Byte)
  | output (cap : Nat)
  | setIpSink (installed : Bool)
  | sendIp (pkt : List Byte)

/-- What a call does to a peer. -/
def act (a : Action) (p : Peer) : Peer :=
  match a with
  | .open_ => { p with toLink := pppOpen p.toLink }
  | .close => { p with toLink := pppClose p.toLink }
  | .tick nowMs => { p with toLink := pppTick p.toLink nowMs }
  | .input byte => pppInputByte p byte
  | .output cap => { p with toLink := (pppOutput p.toLink cap).2 }
  | .setIpSink installed => { p with toLink := pppSetIpSink p.toLink installed }
  | .sendIp pkt => { p with toLink := (pppSendIp p.toLink pkt).2 }

end S5LBox.Ppp
