import S5LBox.Lib.SerialNumbers
import S5LBox.Net.Flow

/-!
# The TCP that faces the guest

The functions of `tcp.c`. Those that touch a flow and nothing else are functions of the flow; the
others take the flow with the stack around it. The diagnostic counters of the source, among them
the reason of an abort, are left out.
-/

namespace S5LBox.Net

variable {ε : Type}

/-- `net_seq_lt`. -/
def netSeqLt (a b : Word) : Bool := decide (SerialNumbers.Before a b)

/-- `net_seq_le`. -/
def netSeqLe (a b : Word) : Bool := decide ((a - b).toInt ≤ 0)

/-- A segment of the guest that has passed the checks of its header. -/
structure Segment where
  gport : Port
  dport : Port
  seq : Word
  ack : Word
  flags : Byte
  wnd : Nat
  options : List Byte
  payload : List Byte
  deriving DecidableEq, Repr

/-- The sequence number behind the payload of a segment, `seg_end`. -/
def Segment.segEnd (g : Segment) : Word := g.seq + BitVec.ofNat 32 g.payload.length

/-- The checks at the head of `net_tcp_input`, and the fields it goes on with. -/
def tcpSegmentOf (src dst : Word) (seg : List Byte) : Option Segment :=
  if seg.length < tcpHdrLen then none
  else if netL4Checksum src dst netProtoTcp seg ≠ 0 then none
  else if segDoff seg < tcpHdrLen ∨ seg.length < segDoff seg then none
  else some
    { gport := netRd16 seg 0, dport := netRd16 seg 2, seq := segSeq seg, ack := netRd32 seg 8
      flags := segFlags seg, wnd := (netRd16 seg 14).toNat
      options := (seg.take (segDoff seg)).drop tcpHdrLen, payload := segPayload seg }

/-! ### Sending -/

/-- The octets of the segment that `tcp_out` builds. -/
def tcpSegment (ns : NetCore ε) (f : Flow) (flags : Byte) (seq : Word) (data : List Byte) :
    List Byte :=
  let ack := if hasFlag flags tcpAck then f.rcvNxt else 0
  let options := if hasFlag flags tcpSyn then [2, 4] ++ netWr16 (BitVec.ofNat 16 netTcpMssMax)
    else []
  let wnd := BitVec.ofNat 16 (min (netTcpRxbuf - f.rxlen) 0xffff)
  let fields := fun checksum =>
    tcpFields f.dstPort f.guestPort seq ack options flags wnd checksum data
  fields (netL4Checksum f.dstIp ns.cfg.guestIp netProtoTcp (fields 0))

/-- Does a segment occupy sequence space? -/
def occupies (flags : Byte) (data : List Byte) : Bool :=
  !data.isEmpty || hasFlag flags tcpSyn || hasFlag flags tcpFin

/-- The sequence number behind a segment of ours. -/
def endSeq (flags : Byte) (seq : Word) (data : List Byte) : Word :=
  seq + BitVec.ofNat 32 data.length + (if hasFlag flags tcpSyn then 1 else 0) +
    (if hasFlag flags tcpFin then 1 else 0)

/-- What an emitted segment leaves behind in its flow: only a successful emission commits sequence
space. -/
def Flow.emit (f : Flow) (flags : Byte) (seq : Word) (data dgram : List Byte) : Flow :=
  { f with
    sndMax := if occupies flags data && netSeqLt f.sndMax (endSeq flags seq data)
      then endSeq flags seq data else f.sndMax
    needAck := if hasFlag flags tcpAck then false else f.needAck
    history := { f.history with
      emitted := f.history.emitted ++ [⟨dgram, f.history.received.length⟩] } }

/-- `tcp_out`. The result says whether the segment was queued. -/
def tcpOut (flags : Byte) (seq : Word) (data : List Byte) (c : Conn ε) : Bool × Conn ε :=
  let payload := tcpSegment c.core c.f flags seq data
  match netEmit c.f.dstIp c.core.cfg.guestIp netProtoTcp payload c.core with
  | some core => (true, ⟨core, c.f.emit flags seq data
      (netDatagram c.core c.f.dstIp c.core.cfg.guestIp netProtoTcp payload)⟩)
  | none => (false, c)

/-- `tcp_reject`. -/
def tcpReject (dstIp : Word) (g : Segment) (paylen : Nat) (ns : NetCore ε) : NetCore ε :=
  if hasFlag g.flags tcpRst then ns
  else
    let fields := fun checksum =>
      if hasFlag g.flags tcpAck then tcpFields g.dport g.gport g.ack 0 [] tcpRst 0 checksum []
      else tcpFields g.dport g.gport 0
        (g.seq + BitVec.ofNat 32 paylen + (if hasFlag g.flags tcpSyn then 1 else 0) +
          (if hasFlag g.flags tcpFin then 1 else 0)) [] (tcpRst ||| tcpAck) 0 checksum []
    netEmit' dstIp ns.cfg.guestIp netProtoTcp
      (fields (netL4Checksum dstIp ns.cfg.guestIp netProtoTcp (fields 0))) ns

/-- `tcp_abort`. -/
def tcpAbort (c : Conn ε) : Conn ε :=
  netFlowFree .reset (tcpOut (tcpRst ||| tcpAck) c.f.sndNxt [] c).2

/-! ### Timers and windows -/

/-- The loop of `tcp_backoff`. -/
def backoffFrom (ms : Nat) : Nat → Nat
  | 0 => ms
  | n + 1 => if ms < netTcpRtoMaxMs then backoffFrom (2 * ms) n else ms

/-- `tcp_backoff`. -/
def tcpBackoff (rtx : Nat) : Nat := min (backoffFrom netTcpRtoMs rtx) netTcpRtoMaxMs

/-- `tcp_timers`. -/
def tcpTimers (now : Word) (f : Flow) : Flow :=
  let unacked := f.sndNxt != f.sndUna
  let persist := !unacked && f.txlen != 0 && f.sndWnd == 0
  if unacked || persist then
    if f.rtoOn then f
    else { f with rtoOn := true, rtoAt := now + BitVec.ofNat 32 (tcpBackoff f.rtx) }
  else { f with rtoOn := false, rtx := 0 }

/-- `tcp_inflight`. -/
def tcpInflight (f : Flow) : Nat :=
  let n := (f.sndNxt - f.sndUna).toNat
  if f.finSent && f.txlen < n then f.txlen else n

/-- `tcp_initial_cwnd`. -/
def tcpInitialCwnd (mss : Nat) : Nat := min (4 * mss) (max (2 * mss) 4380)

/-- `tcp_cwnd_ceiling`. -/
def tcpCwndCeiling (f : Flow) : Nat :=
  let segments := if f.cwndLimit = 0 then netTcpCwndMaxSegments else f.cwndLimit
  min (min segments netOutSlots * f.mss) netTcpTxbuf

/-- `tcp_cwnd_ack`: the congestion window behind an acknowledgement of data. -/
def tcpCwndAck (acknowledged : Nat) (f : Flow) : Nat :=
  if acknowledged = 0 then f.cwnd
  else
    let increase := if f.cwnd < f.ssthresh then min acknowledged f.mss
      else max (f.mss * f.mss / f.cwnd) 1
    let ceiling := tcpCwndCeiling f
    if f.cwnd ≥ ceiling ∨ increase > ceiling - f.cwnd then ceiling else f.cwnd + increase

/-- `tcp_cwnd_timeout`. -/
def tcpCwndTimeout (f : Flow) : Flow :=
  { f with ssthresh := min (max (tcpInflight f / 2) (2 * f.mss)) (tcpCwndCeiling f), cwnd := f.mss }

/-! ### The pump -/

/-- The loop of `tcp_pump` that sends what the windows allow. Every turn queues a segment or is the
last, so that one turn more than the queue has slots is enough. -/
def tcpPumpData : Nat → Nat → Conn ε → Conn ε
  | 0, _, c => c
  | n + 1, sent, c =>
    if c.f.txlen ≤ sent then c
    else
      let limit := min c.f.sndWnd c.f.cwnd
      if limit ≤ sent then c
      else
        let seg := min (min (c.f.txlen - sent) (limit - sent)) c.f.mss
        match tcpOut (tcpAck ||| tcpPsh) c.f.sndNxt ((c.f.txbuf.drop sent).take seg) c with
        | (false, c) => c
        | (true, c) => tcpPumpData n (sent + seg)
            { c with f := { c.f with sndNxt := c.f.sndNxt + BitVec.ofNat 32 seg } }

/-- The part of `tcp_pump` that commits the FIN to the sequence space when the host has ended its
stream. -/
def tcpMarkFin (f : Flow) : Flow :=
  if f.hostEof ∧ !f.finSent ∧ (f.state = .established ∨ f.state = .closeWait) then
    { f with finSent := true, state := if f.state = .closeWait then .lastAck else .finWait1 }
  else f

/-- The part of `tcp_pump` that sends the FIN, behind all data. -/
def tcpSendFin (c : Conn ε) : Conn ε :=
  if c.f.finSent ∧ c.f.sndNxt = c.f.sndUna + BitVec.ofNat 32 c.f.txlen ∧
      (c.f.state = .finWait1 ∨ c.f.state = .closing ∨ c.f.state = .lastAck) then
    match tcpOut (tcpAck ||| tcpFin) c.f.sndNxt [] c with
    | (true, c) => { c with f := { c.f with sndNxt := c.f.sndNxt + 1 } }
    | (false, c) => c
  else c

/-- A bare acknowledgement, when one is owed. -/
def tcpSendAck (c : Conn ε) : Conn ε :=
  if c.f.needAck then (tcpOut tcpAck c.f.sndNxt [] c).2 else c

/-- `tcp_pump`. -/
def tcpPump (c : Conn ε) : Conn ε :=
  if c.f.state = .synRcvd ∨ c.f.state = .timeWait then c
  else
    let c := tcpPumpData (netOutSlots + 1) (tcpInflight c.f) c
    let c := tcpSendAck (tcpSendFin { c with f := tcpMarkFin c.f })
    { c with f := tcpTimers c.core.nowMs c.f }

/-! ### The tick

A stage of `net_tcp_tick` says whether the tick goes on. -/

/-- `tcp_guest_finished`. -/
def tcpGuestFinished : TcpState → Bool
  | .closeWait | .closing | .lastAck | .timeWait => true
  | _ => false

/-- `TIME-WAIT`: the last acknowledgement, and the end of the flow when the time is over. -/
def tickTimeWait (c : Conn ε) : Conn ε :=
  let c := tcpSendAck c
  if netSeqLt c.core.nowMs c.f.closeAt then c else netFlowFree .timeWait c

/-- What the egress says about the connect, which is done when it cannot say. -/
def egressStatus (c : Conn ε) : Status × Conn ε :=
  match c.core.eg.status with
  | some status =>
    let (st, ctx) := status c.f.handle c.core.ctx
    (st, { c with core := { c.core with ctx := ctx } })
  | none => (.ready, c)

/-- The host connect, which is waited for before the SYN is answered. -/
def tickConnect (c : Conn ε) : Conn ε :=
  match egressStatus c with
  | (.pending, c) => if netSeqLt c.core.nowMs c.f.closeAt then c else tcpAbort c
  | (.failed, c) => tcpAbort c
  | (.ready, c) =>
    match tcpOut (tcpSyn ||| tcpAck) c.f.sndNxt [] c with
    | (false, c) => c
    | (true, c) =>
      { c with f := tcpTimers c.core.nowMs { c.f with sndNxt := c.f.sndNxt + 1 } }

/-- Guest to host. What the socket refuses stays in the buffer. -/
def tickSend (c : Conn ε) : Bool × Conn ε :=
  match c.core.eg.send with
  | none => (true, c)
  | some send =>
    if c.f.rxbuf.isEmpty then (true, c)
    else
      let (w, ctx) := send c.f.handle c.f.rxbuf c.core.ctx
      let c := { c with core := { c.core with ctx := ctx } }
      if w < 0 then (false, tcpAbort c)
      else if w = 0 then (true, c)
      else (true, { c with f := { c.f with
        rxbuf := c.f.rxbuf.drop w.toNat, needAck := true
        history := { c.f.history with
          accepted := c.f.history.accepted ++ c.f.rxbuf.take w.toNat } } })

/-- The half-close of the host socket, when the guest has finished and all of it is flushed. -/
def tickShutdown (c : Conn ε) : Conn ε :=
  if tcpGuestFinished c.f.state ∧ c.f.rxbuf.isEmpty ∧ !c.f.txShutdown then
    let ctx := match c.core.eg.shutdownTx with
      | some shutdownTx => shutdownTx c.f.handle c.core.ctx
      | none => c.core.ctx
    { core := { c.core with ctx := ctx }, f := { c.f with txShutdown := true } }
  else c

/-- The loop that reads from the host. -/
def tickRecvLoop (recv : Int → Nat → ε → Recv × ε) : Nat → Conn ε → Bool × Conn ε
  | 0, c => (true, c)
  | n + 1, c =>
    if netTcpTxbuf ≤ c.f.txlen then (true, c)
    else
      let (r, ctx) := recv c.f.handle (netTcpTxbuf - c.f.txlen) c.core.ctx
      let c := { c with core := { c.core with ctx := ctx } }
      match r with
      | .wouldBlock => (true, c)
      | .eof => (true, { c with f := { c.f with hostEof := true } })
      | .error => (false, tcpAbort c)
      | .bytes data => tickRecvLoop recv n { c with f := { c.f with
          txbuf := c.f.txbuf ++ data
          history := { c.f.history with received := c.f.history.received ++ data } } }

/-- Host to guest, into the space there is. -/
def tickRecv (c : Conn ε) : Bool × Conn ε :=
  match c.core.eg.recv with
  | none => (true, c)
  | some recv => if c.f.hostEof then (true, c) else tickRecvLoop recv 8 c

/-- The timer: giving up, a persist probe, or going back to the start of the flight. -/
def tickTimer (c : Conn ε) : Bool × Conn ε :=
  if !c.f.rtoOn || netSeqLt c.core.nowMs c.f.rtoAt then (true, c)
  else
    let c := { c with f := { c.f with rtoOn := false, rtx := c.f.rtx + 1 } }
    if netTcpRtxMax < c.f.rtx then (false, tcpAbort c)
    else if c.f.sndNxt = c.f.sndUna ∧ c.f.txlen ≠ 0 ∧ c.f.sndWnd = 0 then
      match tcpOut tcpAck c.f.sndNxt (c.f.txbuf.take 1) c with
      | (true, c) => (false, { c with f := tcpTimers c.core.nowMs c.f })
      | (false, c) => (false, c)
    else (true, { c with f := { tcpCwndTimeout c.f with sndNxt := c.f.sndUna } })

/-- `net_tcp_tick`. -/
def netTcpTick (c : Conn ε) : Conn ε :=
  if !c.f.used then c
  else if c.f.state = .timeWait then tickTimeWait c
  else if c.f.state = .closed then netFlowFree .closed c
  else if c.f.state = .synRcvd ∧ c.f.sndNxt = c.f.sndUna then tickConnect c
  else
    match tickSend c with
    | (false, c) => c
    | (true, c) =>
      match tickRecv (tickShutdown c) with
      | (false, c) => c
      | (true, c) =>
        match tickTimer c with
        | (false, c) => c
        | (true, c) =>
          let c := tcpPump c
          if c.f.state = .closed then netFlowFree .closed c else c

/-! ### Input -/

/-- The part of `tcp_consume_ack` that an acknowledged FIN leads to. -/
def tcpFinAcked (now : Word) (f : Flow) : Flow :=
  match f.state with
  | .finWait1 => { f with state := .finWait2 }
  | .closing => { f with state := .timeWait, closeAt := now + netTcpTimeWaitMs }
  | .lastAck => { f with state := .closed }
  | _ => f

/-- The part of `tcp_consume_ack` that moves the cursors and releases acknowledged data. -/
def Flow.acknowledge (f : Flow) (ack : Word) : Flow :=
  let dat := min (ack - f.sndUna).toNat f.txlen
  { f with
    cwnd := tcpCwndAck dat f, txbuf := f.txbuf.drop dat, sndUna := ack
    sndNxt := if netSeqLt f.sndNxt ack then ack else f.sndNxt
    rtx := 0, rtoOn := false }

/-- `tcp_consume_ack`. -/
def tcpConsumeAck (now ack : Word) (f : Flow) : Flow :=
  if !netSeqLt f.sndUna ack || !netSeqLe ack f.sndMax then f
  else if f.finSent ∧ f.txlen < (ack - f.sndUna).toNat then tcpFinAcked now (f.acknowledge ack)
  else f.acknowledge ack

/-- The octets of a segment that the flow takes in: its new tail, as far as there is room. -/
def tcpNewData (g : Segment) (f : Flow) : List Byte :=
  if netSeqLe g.seq f.rcvNxt && netSeqLt f.rcvNxt g.segEnd then
    (g.payload.drop (f.rcvNxt - g.seq).toNat).take (netTcpRxbuf - f.rxlen)
  else []

/-- The part of `net_tcp_input` that takes data in. -/
def tcpTakeData (g : Segment) (f : Flow) : Flow :=
  if g.payload ≠ [] ∧ !tcpGuestFinished f.state then
    { f with
      rxbuf := f.rxbuf ++ tcpNewData g f
      rcvNxt := f.rcvNxt + BitVec.ofNat 32 (tcpNewData g f).length
      needAck := true
      history := { f.history with taken := f.history.taken ++ tcpNewData g f } }
  else f

/-- The part of `net_tcp_input` that repeats the acknowledgement of a FIN. -/
def tcpRepeatFin (now : Word) (g : Segment) (f : Flow) : Flow :=
  if hasFlag g.flags tcpFin ∧ tcpGuestFinished f.state then
    { f with
      needAck := true
      closeAt := if f.state = .timeWait then now + netTcpTimeWaitMs else f.closeAt }
  else f

/-- The part of `net_tcp_input` that accepts the FIN of the guest. -/
def tcpTakeFin (now : Word) (g : Segment) (f : Flow) : Flow :=
  if hasFlag g.flags tcpFin ∧ g.segEnd = f.rcvNxt ∧ !tcpGuestFinished f.state then
    let f := { f with rcvNxt := f.rcvNxt + 1, needAck := true }
    match f.state with
    | .established => { f with state := .closeWait }
    | .finWait1 => { f with state := .closing }
    | .finWait2 => { f with state := .timeWait, closeAt := now + netTcpTimeWaitMs }
    | _ => f
  else f

/-- The part of `net_tcp_input` between the check of the acknowledgement and the test whether the
handshake is complete. -/
def tcpTakeAck (now : Word) (g : Segment) (f : Flow) : Flow :=
  let f := tcpConsumeAck now g.ack { f with sndWnd := g.wnd }
  if f.sndNxt = f.sndUna then tcpTimers now f else f

/-- The handshake is complete. -/
def tcpEstablish (f : Flow) : Flow :=
  if f.state = .synRcvd then { f with state := .established } else f

/-- The part of `net_tcp_input` that takes in what a segment brings. -/
def tcpDeliver (now : Word) (g : Segment) (f : Flow) : Flow :=
  tcpTakeFin now g (tcpRepeatFin now g (tcpTakeData g f))

/-- `net_tcp_input`, on a segment whose flow is known. -/
def tcpInputFlow (g : Segment) (c : Conn ε) : Conn ε :=
  let now := c.core.nowMs
  let c := { c with f := { c.f with lastMs := now } }
  if hasFlag g.flags tcpRst then netFlowFree .reset c
  else if hasFlag g.flags tcpSyn then
    if c.f.state = .synRcvd then
      if c.f.sndNxt ≠ c.f.sndUna then (tcpOut (tcpSyn ||| tcpAck) c.f.sndUna [] c).2 else c
    else tcpAbort c
  else if !hasFlag g.flags tcpAck then c
  else
    let futureAck := netSeqLt c.f.sndMax g.ack
    if c.f.state = .synRcvd ∧ (futureAck ∨ !netSeqLt c.f.sndUna g.ack) then
      { c with core := tcpReject c.f.dstIp g g.payload.length c.core }
    else if futureAck then
      (tcpOut tcpAck c.f.sndNxt [] { c with f := { c.f with needAck := true } }).2
    else
      let f := tcpTakeAck now g c.f
      if f.state = .synRcvd ∧ netSeqLt f.sndUna f.sndNxt then { c with f := f }
      else netTcpTick { c with f := tcpDeliver now g (tcpEstablish f) }

/-- The loop of `tcp_syn` that looks for the MSS option. -/
def mssOption (mss : Nat) : Nat → List Byte → Nat
  | n + 1, kind :: len :: rest =>
    if kind = 0 then mss
    else if kind = 1 then mssOption mss n (len :: rest)
    else if len.toNat < 2 ∨ rest.length + 2 < len.toNat then mss
    else mssOption (if kind = 2 ∧ len = 4 then (netRd16 rest 0).toNat else mss) n
      ((kind :: len :: rest).drop len.toNat)
  | _, _ => mss

/-- The flow that `tcp_syn` sets up in a fresh slot. -/
def tcpSynFlow (ns : NetCore ε) (g : Segment) (f : Flow) : Flow :=
  let mss := max (min (mssOption 536 g.options.length g.options) netTcpMssMax) 64
  let iss := ns.issWalk
  let f := { f with
    irs := g.seq, rcvNxt := g.seq + 1, sndWnd := g.wnd, mss := mss, state := .synRcvd
    cwnd := tcpInitialCwnd mss, cwndLimit := ns.cfg.tcpCwndSegments
    sndUna := iss, sndNxt := iss, sndMax := iss, history := { f.history with iss := iss } }
  { f with ssthresh := tcpCwndCeiling f }

/-- The stride of `iss_walk`. -/
def issStride : Word := 0x9e3779b9

/-- How long the host connect may take. -/
def connectMs : Word := 30000

/-- The stack behind the choice of an initial sequence number. -/
def NetCore.walkIss (core : NetCore ε) : NetCore ε :=
  { core with issWalk := core.issWalk + issStride }

/-- `tcp_syn`, in the slot that has been found for the flow. -/
def tcpSynAt (g : Segment) (c : Conn ε) : Conn ε :=
  let core := c.core.walkIss
  let c := egressOpen ⟨core, tcpSynFlow core g c.f⟩
  if c.f.handle < 0 then
    netFlowFree .reset (tcpOut (tcpRst ||| tcpAck) c.f.sndNxt [] c).2
  else netTcpTick { c with f := { c.f with closeAt := c.core.nowMs + connectMs } }

end S5LBox.Net
