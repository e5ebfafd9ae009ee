import S5LBox.Net.Wire

/-!
# Flows, the egress and the output queue

The data of `net.h` that TCP works on, and the functions of `net.c` that it shares with the rest of
the stack. A function of the source that takes the stack and one of its flows is a function of a
`Conn`: that flow, and all of the stack but the flow table. Counters that nothing reads are left
out.

A flow carries its history, which the source does not keep: what the egress has said and accepted
on its behalf and what it has put on the wire. The stack keeps each flow it has released, with the
reason, and each reply of the resolver that it has handed to `net_emit`. No function reads any of
them.
-/

namespace S5LBox.Net

/-! ### Constants -/

def netProtoIcmp : Nat := 1
def netProtoTcp : Nat := 6
def netProtoUdp : Nat := 17
def netMtu : Nat := 1500
def netTcpMssMax : Nat := 1460
def netTcpTxbuf : Nat := 64 * 1024
def netTcpRxbuf : Nat := 4096
def netTcpCwndMaxSegments : Nat := 3
abbrev netMaxFlows : Nat := 24
def netOutSlots : Nat := 32
def netTcpRtoMs : Nat := 1000
def netTcpRtoMaxMs : Nat := 16000
def netTcpRtxMax : Nat := 8
def netTcpTimeWaitMs : Word := 2000
def netUdpIdleMs : Nat := 60000
def netDnsTtl : Word := 60
def netDnsTimeoutMs : Nat := 30000
abbrev netDnsPending : Nat := 4
def netDnsQueryMax : Nat := 271

/-! ### Flows -/

/-- `net_tcp_state_t`. -/
inductive TcpState
  | closed
  | synRcvd
  | established
  | finWait1
  | finWait2
  | closeWait
  | closing
  | lastAck
  | timeWait
  deriving DecidableEq, Repr

/-- A datagram on its way to the guest, and how many octets the egress had handed over for its
flow by then. -/
structure Emission where
  dgram : List Byte
  heard : Nat
  deriving DecidableEq, Repr

namespace Emission

/-- The TCP segment in an emitted datagram. -/
def seg (e : Emission) : List Byte := e.dgram.drop ipv4HdrLen

end Emission

/-- What has happened to a flow. -/
structure History where
  /-- Which of all flows of the stack this is, in the order of their opening. -/
  number : Nat
  /-- Our initial sequence number. -/
  iss : Word
  /-- The segments put on the wire, oldest first. -/
  emitted : List Emission
  /-- All octets that `recv` of the egress has returned. -/
  received : List Byte
  /-- All octets that `send` of the egress has accepted. -/
  accepted : List Byte
  /-- All octets of the guest that have been taken in and acknowledged. -/
  taken : List Byte
  deriving DecidableEq, Repr

/-- `net_flow_t`. The lengths of the two buffers are the lengths of the lists. -/
structure Flow where
  used : Bool
  proto : Nat
  guestPort : Port
  dstIp : Word
  dstPort : Port
  handle : Int
  lastMs : Word
  state : TcpState
  irs : Word
  rcvNxt : Word
  sndUna : Word
  sndNxt : Word
  sndMax : Word
  sndWnd : Nat
  mss : Nat
  cwnd : Nat
  cwndLimit : Nat
  ssthresh : Nat
  finSent : Bool
  hostEof : Bool
  txShutdown : Bool
  needAck : Bool
  rtoOn : Bool
  rtoAt : Word
  rtx : Nat
  closeAt : Word
  txbuf : List Byte
  rxbuf : List Byte
  history : History
  deriving DecidableEq, Repr

/-- A zeroed slot of the flow table, without a handle. -/
def Flow.blank : Flow :=
  { used := false, proto := 0, guestPort := 0, dstIp := 0, dstPort := 0, handle := -1, lastMs := 0
    state := .closed, irs := 0, rcvNxt := 0, sndUna := 0, sndNxt := 0, sndMax := 0, sndWnd := 0
    mss := 0, cwnd := 0, cwndLimit := 0, ssthresh := 0, finSent := false, hostEof := false
    txShutdown := false, needAck := false, rtoOn := false, rtoAt := 0, rtx := 0, closeAt := 0
    txbuf := [], rxbuf := []
    history := ⟨0, 0, [], [], [], []⟩ }

/-- `txlen`. -/
def Flow.txlen (f : Flow) : Nat := f.txbuf.length

/-- `rxlen`. -/
def Flow.rxlen (f : Flow) : Nat := f.rxbuf.length

/-! ### The egress -/

/-- What `recv` of the egress returns: one of `NET_EG_*`, or octets in the buffer. -/
inductive Recv
  | wouldBlock
  | eof
  | error
  | bytes (data : List Byte)

/-- What `status` of the egress returns: `NET_ST_*`. -/
inductive Status
  | pending
  | ready
  | failed

/-- What `resolve` of the egress returns: `NET_RES_*`, an answer with the address. -/
inductive Res
  | ok (ip : Word)
  | pending
  | nxdomain
  | fail

/-- `net_egress_t`: the functions through which everything reaches the host, on the host's own
state `ε`. Each may be missing. `send` accepts at most what it is offered, and `recv` returns at
least one octet and no more than there is room for. -/
structure Egress (ε : Type) where
  openFlow : Option (Nat → Word → Port → ε → Int × ε)
  status : Option (Int → ε → Status × ε)
  send : Option (Int → List Byte → ε → Int × ε)
  recv : Option (Int → Nat → ε → Recv × ε)
  shutdownTx : Option (Int → ε → ε)
  close : Option (Int → ε → ε)
  resolve : Option (List Byte → ε → Res × ε)
  icmpEcho : Option (Word → List Byte → ε → Int × ε)
  send_le : ∀ f ∈ send, ∀ h data x, (f h data x).1 ≤ data.length
  recv_le : ∀ f ∈ recv, ∀ h cap x data, (f h cap x).1 = .bytes data →
    data ≠ [] ∧ data.length ≤ cap

/-- `net_config_t`. -/
structure Config where
  guestIp : Word
  localIp : Word
  dnsIp : Word
  iss : Word
  tcpCwndSegments : Nat
  deriving DecidableEq, Repr

/-- `net_config_default`. -/
def netConfigDefault : Config :=
  { guestIp := 0x0a00020f, localIp := 0x0a000202, dnsIp := 0x0a000203, iss := 0x5335384c
    tcpCwndSegments := 0 }

/-- Why a flow was released. -/
inductive Release
  /-- A reset in either direction. -/
  | reset
  /-- The connection had reached `NET_TCP_CLOSED`. -/
  | closed
  /-- `TIME-WAIT` had expired. -/
  | timeWait
  /-- It carried UDP. -/
  | udp
  deriving DecidableEq, Repr

/-- A reply of the resolver: the port and the query it is for, and the datagram that is handed to
`net_emit`. -/
structure Reply where
  gport : Port
  query : List Byte
  datagram : List Byte
  deriving DecidableEq, Repr

/-- The stack but for its flow table and its pending lookups. The output queue is the list of the
datagrams between `out_tail` and `out_head`, oldest first. -/
structure NetCore (ε : Type) where
  cfg : Config
  eg : Egress ε
  ctx : ε
  nowMs : Word
  issWalk : Word
  ipOut : Nat
  flowsOpen : Nat
  out : List (List Byte)
  released : List (Release × Flow)
  replied : List Reply := []

/-- One flow, and the stack around it. -/
structure Conn (ε : Type) where
  core : NetCore ε
  f : Flow

variable {ε : Type}

/-! ### Output -/

/-- The datagram around a payload. -/
def netDatagram (ns : NetCore ε) (src dst : Word) (proto : Nat) (payload : List Byte) :
    List Byte :=
  netBuildIpv4 src dst proto (BitVec.ofNat 16 (ns.ipOut + 1)) payload.length ++ payload

/-- `net_emit`. There is no result when the datagram exceeds the MTU or the queue is full. -/
def netEmit (src dst : Word) (proto : Nat) (payload : List Byte) (ns : NetCore ε) :
    Option (NetCore ε) :=
  if payload.length + ipv4HdrLen > netMtu then none
  else if ns.out.length ≥ netOutSlots then none
  else some { ns with
    out := ns.out ++ [netDatagram ns src dst proto payload], ipOut := ns.ipOut + 1 }

/-- `net_emit` where the result does not matter. -/
def netEmit' (src dst : Word) (proto : Nat) (payload : List Byte) (ns : NetCore ε) : NetCore ε :=
  (netEmit src dst proto payload ns).getD ns

/-! ### Opening and closing a flow -/

/-- The handle that the egress opens for a flow, negative when it cannot. -/
def egressOpen (c : Conn ε) : Conn ε :=
  match c.core.eg.openFlow with
  | some openFlow =>
    let (handle, ctx) := openFlow c.f.proto c.f.dstIp c.f.dstPort c.core.ctx
    ⟨{ c.core with ctx := ctx }, { c.f with handle := handle }⟩
  | none => { c with f := { c.f with handle := -1 } }

/-- `net_flow_free`. -/
def netFlowFree (why : Release) (c : Conn ε) : Conn ε :=
  if !c.f.used then c
  else
    let ctx := match c.core.eg.close with
      | some close => if 0 ≤ c.f.handle then close c.f.handle c.core.ctx else c.core.ctx
      | none => c.core.ctx
    { core := { c.core with ctx := ctx, released := (why, c.f) :: c.core.released }, f := .blank }

end S5LBox.Net
