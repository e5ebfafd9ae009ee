import S5LBox.Lib.Runs
import S5LBox.Net.Tcp

/-!
# The stack

The rest of `net.c`: demultiplexing, ICMP echo, the resolver, UDP, the clock and the output queue,
over the table of flows. What a caller may do with a stack that has been set up is an `Op`, and
the history of a stack is a run of them.
-/

namespace S5LBox.Net

open Runs

variable {ε : Type}

/-- `net_dns_pending_t`. -/
structure DnsPending where
  used : Bool
  guestPort : Port
  startedMs : Word
  name : List Byte
  query : List Byte
  deriving DecidableEq, Repr

/-- A zeroed slot. -/
def DnsPending.blank : DnsPending := ⟨false, 0, 0, [], []⟩

/-- `net_stack_t`. -/
structure NetStack (ε : Type) where
  core : NetCore ε
  flow : Fin netMaxFlows → Flow
  dns : Fin netDnsPending → DnsPending

/-- Run a function of one flow on a slot of the table. -/
def NetStack.onFlow (i : Fin netMaxFlows) (g : Conn ε → Conn ε) (ns : NetStack ε) : NetStack ε :=
  let c := g ⟨ns.core, ns.flow i⟩
  { ns with core := c.core, flow := fun j => if j = i then c.f else ns.flow j }

/-! ### The flow table -/

/-- The comparison of `net_flow_find`. -/
def Flow.hasTuple (f : Flow) (proto : Nat) (gport : Port) (dstIp : Word) (dport : Port) : Bool :=
  f.used && f.proto == proto && f.guestPort == gport && f.dstIp == dstIp && f.dstPort == dport

/-- `net_flow_find`. -/
def netFlowFind (proto : Nat) (gport : Port) (dstIp : Word) (dport : Port) (ns : NetStack ε) :
    Option (Fin netMaxFlows) :=
  (List.finRange netMaxFlows).find? fun i => (ns.flow i).hasTuple proto gport dstIp dport

/-- The flow that `net_flow_alloc` fills in. -/
def freshFlow (core : NetCore ε) (proto : Nat) (gport : Port) (dstIp : Word) (dport : Port) :
    Flow :=
  { Flow.blank with
    used := true, proto := proto, guestPort := gport, dstIp := dstIp, dstPort := dport
    lastMs := core.nowMs, history := { Flow.blank.history with number := core.flowsOpen + 1 } }

/-- `net_flow_alloc`. -/
def netFlowAlloc (proto : Nat) (gport : Port) (dstIp : Word) (dport : Port) (ns : NetStack ε) :
    Option (Fin netMaxFlows × NetStack ε) :=
  match (List.finRange netMaxFlows).find? fun i => !(ns.flow i).used with
  | some i => some (i, ns.onFlow i fun c =>
      ⟨{ c.core with flowsOpen := c.core.flowsOpen + 1 }, freshFlow c.core proto gport dstIp dport⟩)
  | none => none

/-! ### ICMP -/

/-- `icmp_input`. -/
def icmpInput (src dst : Word) (p : List Byte) (ns : NetCore ε) : NetCore ε :=
  if p.length < 8 then ns
  else if netChecksum p ≠ 0 then ns
  else if p.getD 0 0 ≠ 8 ∨ p.getD 1 0 ≠ 0 then ns
  else if dst = ns.cfg.localIp ∨ dst = ns.cfg.dnsIp then
    if p.length > netMtu - ipv4HdrLen then ns
    else
      let reply := fun checksum => [0, p.getD 1 0] ++ netWr16 checksum ++ p.drop 4
      netEmit' dst src netProtoIcmp (reply (netChecksum (reply 0))) ns
  else
    match ns.eg.icmpEcho with
    | some icmpEcho => { ns with ctx := (icmpEcho dst p ns.ctx).2 }
    | none => ns

/-! ### The resolver -/

/-- The octets of a label that may be handed to the host. -/
def dnsOctet (c : Byte) : Bool :=
  (0x61 ≤ c && c ≤ 0x7a) || (0x41 ≤ c && c ≤ 0x5a) || (0x30 ≤ c && c ≤ 0x39) || c == 0x2d ||
    c == 0x5f

/-- One more octet of a name, as long as there is room. -/
def dnsPush (cap : Nat) (out : List Byte) (c : Byte) : List Byte :=
  if out.length + 1 < cap then out ++ [c] else out

/-- The loop of `dns_name` over the labels. -/
def dnsLabels (p : List Byte) (cap : Nat) : Nat → Nat → List Byte → Option (Nat × List Byte)
  | 0, _, _ => none
  | n + 1, k, out =>
    if p.length ≤ k then none
    else
      let l := (p.getD k 0).toNat
      if l = 0 then some (k + 1, out)
      else if p.getD k 0 &&& 0xc0 ≠ 0 then none
      else if 63 < l then none
      else if p.length < k + 1 + l then none
      else
        let label := (p.drop (k + 1)).take l
        if !label.all dnsOctet then none
        else if 255 < k + 1 + l then none
        else
          let out := if out.isEmpty then out else dnsPush cap out 0x2e
          dnsLabels p cap n (k + 1 + l) (label.foldl (dnsPush cap) out)

/-- `dns_name`: the length of the name on the wire, and its dotted form. -/
def dnsName (p : List Byte) (cap : Nat) : Option (Nat × List Byte) :=
  match dnsLabels p cap (p.length + 1) 0 [] with
  | some (k, out) => if cap ≤ out.length ∨ out.isEmpty then none else some (k, out)
  | none => none

def dnsQr : BitVec 16 := 0x8000
def dnsAa : BitVec 16 := 0x0400
def dnsRd : BitVec 16 := 0x0100
def dnsRa : BitVec 16 := 0x0080
def dnsRcOk : BitVec 16 := 0
def dnsRcFormerr : BitVec 16 := 1
def dnsRcServfail : BitVec 16 := 2
def dnsRcNxdomain : BitVec 16 := 3
def dnsRcNotimp : BitVec 16 := 4

/-- A UDP datagram with its checksum. -/
def udpDatagram (src dst : Word) (sport dport : Port) (payload : List Byte) : List Byte :=
  let fields := fun checksum => netWr16 sport ++ netWr16 dport ++
    netWr16 (BitVec.ofNat 16 (8 + payload.length)) ++ netWr16 checksum ++ payload
  fields (netL4Checksum src dst netProtoUdp (fields 0))

/-- `dns_reply`. -/
def dnsReply (gport : Port) (q : List Byte) (qend : Nat) (rcode : BitVec 16) (a : Option Word)
    (ns : NetCore ε) : NetCore ε :=
  if qend + 16 + 8 > netMtu - ipv4HdrLen - 8 then ns
  else
    let flags := dnsQr ||| dnsAa ||| dnsRa ||| rcode ||| (netRd16 q 2 &&& dnsRd)
    let answer := match a with
      | some a => netWr16 0xc00c ++ netWr16 1 ++ netWr16 1 ++ netWr32 netDnsTtl ++ netWr16 4 ++
          netWr32 a
      | none => []
    let dns := q.take 2 ++ netWr16 flags ++ netWr16 (if rcode = dnsRcFormerr then 0 else 1) ++
      netWr16 (if a.isSome then 1 else 0) ++ netWr32 0 ++ (q.take qend).drop 12 ++ answer
    let datagram := udpDatagram ns.cfg.dnsIp ns.cfg.guestIp 53 gport dns
    { netEmit' ns.cfg.dnsIp ns.cfg.guestIp netProtoUdp datagram ns with
      replied := ns.replied ++ [⟨gport, q.take qend, datagram⟩] }

/-- `dns_finish`. -/
def dnsFinish (gport : Port) (query : List Byte) (result : Res) (ns : NetCore ε) : NetCore ε :=
  match result with
  | .ok address => dnsReply gport query query.length dnsRcOk (some address) ns
  | .nxdomain => dnsReply gport query query.length dnsRcNxdomain none ns
  | _ => dnsReply gport query query.length dnsRcServfail none ns

/-- The call of `resolve`, which a missing function fails. -/
def netResolve (name : List Byte) (ns : NetCore ε) : Res × NetCore ε :=
  match ns.eg.resolve with
  | some resolve =>
    let (result, ctx) := resolve name ns.ctx
    (result, { ns with ctx := ctx })
  | none => (.fail, ns)

/-- `dns_defer`. -/
def dnsDefer (gport : Port) (query name : List Byte) (ns : NetStack ε) : NetStack ε :=
  if query = [] ∨ netDnsQueryMax < query.length then ns
  else if (List.finRange netDnsPending).any fun i =>
      (ns.dns i).used && (ns.dns i).guestPort == gport && (ns.dns i).query == query then ns
  else
    match (List.finRange netDnsPending).find? fun i => !(ns.dns i).used with
    | some i => { ns with dns := fun j =>
        if j = i then ⟨true, gport, ns.core.nowMs, name.take 255, query⟩ else ns.dns j }
    | none => ns

/-- The work of `dns_tick` on one slot. -/
def dnsTickSlot (ns : NetStack ε) (i : Fin netDnsPending) : NetStack ε :=
  let slot := ns.dns i
  if !slot.used then ns
  else
    let (result, core) := netResolve slot.name ns.core
    let late := !decide ((core.nowMs - slot.startedMs).toNat < netDnsTimeoutMs)
    match result, late with
    | .pending, false => { ns with core := core }
    | result, _ => { ns with
        core := dnsFinish slot.guestPort slot.query result core
        dns := fun j => if j = i then .blank else ns.dns j }

/-- `dns_tick`. -/
def dnsTick (ns : NetStack ε) : NetStack ε := (List.finRange netDnsPending).foldl dnsTickSlot ns

/-- `dns_input`. -/
def dnsInput (gport : Port) (p : List Byte) (ns : NetStack ε) : NetStack ε :=
  let reply := fun qend rcode => { ns with core := dnsReply gport p qend rcode none ns.core }
  if p.length < 12 then ns
  else if netRd16 p 2 &&& dnsQr ≠ 0 then ns
  else if netRd16 p 4 ≠ 1 then reply 12 dnsRcFormerr
  else
    match dnsName (p.drop 12) 256 with
    | none => reply 12 dnsRcFormerr
    | some (nl, name) =>
      if p.length < 12 + nl + 4 then reply 12 dnsRcFormerr
      else
        let qend := 12 + nl + 4
        let qt := netRd16 p (12 + nl)
        let qc := netRd16 p (12 + nl + 2)
        if qc ≠ 1 then reply qend dnsRcNotimp
        else if qt = 28 then reply qend dnsRcOk
        else if qt ≠ 1 then reply qend dnsRcNotimp
        else
          match netResolve name ns.core with
          | (.pending, core) => dnsDefer gport (p.take qend) name { ns with core := core }
          | (result, core) => { ns with core := dnsFinish gport (p.take qend) result core }

/-! ### UDP -/

/-- The call of `send` on a datagram of the guest. -/
def udpSend (payload : List Byte) (c : Conn ε) : Conn ε :=
  let c := { c with f := { c.f with lastMs := c.core.nowMs } }
  match c.core.eg.send with
  | none => c
  | some send =>
    let (w, ctx) := send c.f.handle payload c.core.ctx
    let c := { c with core := { c.core with ctx := ctx } }
    if w < 0 then netFlowFree .udp c else c

/-- The part of `udp_input` that opens a flow, with the datagram that opened it. -/
def udpOpen (payload : List Byte) (c : Conn ε) : Conn ε :=
  let c := egressOpen c
  if c.f.handle < 0 then netFlowFree .udp c else udpSend payload c

/-- `udp_input`. -/
def udpInput (src dst : Word) (p : List Byte) (ns : NetStack ε) : NetStack ε :=
  if p.length < 8 then ns
  else
    let sport := netRd16 p 0
    let dport := netRd16 p 2
    let ulen := (netRd16 p 4).toNat
    if ulen < 8 ∨ p.length < ulen then ns
    else if netRd16 p 6 ≠ 0 ∧ netL4Checksum src dst netProtoUdp (p.take ulen) ≠ 0 then ns
    else
      let pay := (p.take ulen).drop 8
      if dst = ns.core.cfg.dnsIp ∧ dport = 53 then dnsInput sport pay ns
      else
        match netFlowFind netProtoUdp sport dst dport ns with
        | some i => ns.onFlow i (udpSend pay)
        | none =>
          match netFlowAlloc netProtoUdp sport dst dport ns with
          | some (i, ns) => ns.onFlow i (udpOpen pay)
          | none => ns

/-- The loop of `udp_poll`. -/
def udpPollLoop (recv : Int → Nat → ε → Recv × ε) : Nat → Conn ε → Conn ε
  | 0, c => c
  | n + 1, c =>
    let (r, ctx) := recv c.f.handle (netMtu - ipv4HdrLen - 8) c.core.ctx
    let c := { c with core := { c.core with ctx := ctx } }
    match r with
    | .wouldBlock => c
    | .eof | .error => netFlowFree .udp c
    | .bytes data =>
      match netEmit c.f.dstIp c.core.cfg.guestIp netProtoUdp
          (udpDatagram c.f.dstIp c.core.cfg.guestIp c.f.dstPort c.f.guestPort data) c.core with
      | none => c
      | some core => udpPollLoop recv n ⟨core, { c.f with lastMs := c.core.nowMs }⟩

/-- `udp_poll`. -/
def udpPoll (c : Conn ε) : Conn ε :=
  match c.core.eg.recv with
  | some recv => if c.f.handle < 0 then c else udpPollLoop recv 8 c
  | none => c

/-- The work of `net_tick` on a flow that carries UDP. -/
def udpTick (c : Conn ε) : Conn ε :=
  let c := udpPoll c
  if c.f.used ∧ netUdpIdleMs < (c.core.nowMs - c.f.lastMs).toNat then netFlowFree .udp c else c

/-! ### TCP segments -/

/-- `net_tcp_input`. -/
def netTcpInput (src dst : Word) (seg : List Byte) (ns : NetStack ε) : NetStack ε :=
  match tcpSegmentOf src dst seg with
  | none => ns
  | some g =>
    match netFlowFind netProtoTcp g.gport dst g.dport ns with
    | some i => ns.onFlow i (tcpInputFlow g)
    | none =>
      if hasFlag g.flags tcpSyn ∧ !hasFlag g.flags tcpAck ∧ !hasFlag g.flags tcpRst then
        match netFlowAlloc netProtoTcp g.gport dst g.dport ns with
        | some (i, ns) => ns.onFlow i (tcpSynAt g)
        | none => { ns with core := tcpReject dst g 0 ns.core }
      else { ns with core := tcpReject dst g g.payload.length ns.core }

/-! ### Datagrams -/

/-- The header of a datagram of the guest, when it passes the checks of `net_input`: source,
destination, protocol and what the datagram carries. -/
def ipv4Of (cfg : Config) (pkt : List Byte) : Option (Word × Word × Byte × List Byte) :=
  let ihl := (pkt.getD 0 0 &&& 0x0f).toNat * 4
  let total := (netRd16 pkt 2).toNat
  if pkt.length < ipv4HdrLen then none
  else if pkt.getD 0 0 >>> 4 ≠ 4 then none
  else if ihl < ipv4HdrLen ∨ pkt.length < ihl then none
  else if total < ihl ∨ pkt.length < total then none
  else if netChecksum (pkt.take ihl) ≠ 0 then none
  else if netRd16 pkt 6 &&& 0x2000 ≠ 0 ∨ netRd16 pkt 6 &&& 0x1fff ≠ 0 then none
  else if netRd32 pkt 12 ≠ cfg.guestIp then none
  else some (netRd32 pkt 12, netRd32 pkt 16, pkt.getD 9 0, (pkt.take total).drop ihl)

/-- `net_input`. -/
def netInput (pkt : List Byte) (ns : NetStack ε) : NetStack ε :=
  match ipv4Of ns.core.cfg pkt with
  | none => ns
  | some (src, dst, proto, l4) =>
    if proto = 1 then { ns with core := icmpInput src dst l4 ns.core }
    else if proto = 17 then udpInput src dst l4 ns
    else if proto = 6 then netTcpInput src dst l4 ns
    else ns

/-- `net_input_at`. -/
def netInputAt (pkt : List Byte) (now : Word) (ns : NetStack ε) : NetStack ε :=
  netInput pkt (if netSeqLt now ns.core.nowMs then ns
    else { ns with core := { ns.core with nowMs := now } })

/-- `net_output`: the datagram handed over, none when `cap` is too small for it. -/
def netOutput (cap : Nat) (ns : NetStack ε) : List Byte × NetStack ε :=
  match ns.core.out with
  | [] => ([], ns)
  | d :: rest =>
    if cap < d.length then ([], ns) else (d, { ns with core := { ns.core with out := rest } })

/-! ### Time -/

/-- The work of `net_tick` on one slot of the flow table. -/
def netTickSlot (ns : NetStack ε) (i : Fin netMaxFlows) : NetStack ε :=
  if !(ns.flow i).used then ns
  else if (ns.flow i).proto = netProtoUdp then ns.onFlow i udpTick
  else ns.onFlow i netTcpTick

/-- `net_tick`. -/
def netTick (now : Word) (ns : NetStack ε) : NetStack ε :=
  if netSeqLt now ns.core.nowMs then ns
  else
    (List.finRange netMaxFlows).foldl netTickSlot
      (dnsTick { ns with core := { ns.core with nowMs := now } })

/-! ### Runs -/

/-- `net_init`. -/
def netInit (cfg : Config) (eg : Egress ε) (ctx : ε) : NetStack ε :=
  { core := { cfg := cfg, eg := eg, ctx := ctx, nowMs := 0, issWalk := cfg.iss, ipOut := 0
              flowsOpen := 0, out := [], released := [] }
    flow := fun _ => .blank
    dns := fun _ => .blank }

/-- The work of `net_reset` on one slot of the flow table. -/
def resetSlot (ns : NetStack ε) (i : Fin netMaxFlows) : NetStack ε :=
  if (ns.flow i).used then ns.onFlow i (netFlowFree .reset) else ns

/-- `net_reset`: every flow is released, and the stack is set up again. -/
def netReset (ns : NetStack ε) : NetStack ε :=
  let ns := (List.finRange netMaxFlows).foldl resetSlot ns
  netInit ns.core.cfg ns.core.eg ns.core.ctx

/-- What may happen to a stack. -/
inductive Op (ε : Type)
  /-- `net_input`. -/
  | input (pkt : List Byte)
  /-- `net_input_at`. -/
  | inputAt (pkt : List Byte) (now : Word)
  /-- `net_tick`. -/
  | tick (now : Word)
  /-- `net_output`. -/
  | output (cap : Nat)
  /-- The host moves on by itself. -/
  | host (ctx : ε)

/-- One step of a run. -/
def netStep : Op ε → NetStack ε → NetStack ε
  | .input pkt, ns => netInput pkt ns
  | .inputAt pkt now, ns => netInputAt pkt now ns
  | .tick now, ns => netTick now ns
  | .output cap, ns => (netOutput cap ns).2
  | .host ctx, ns => { ns with core := { ns.core with ctx := ctx } }

/-- The states that a run from `net_init` reaches, each of whose steps meets the condition. -/
def Reached (ok : NetStack ε → Op ε → Prop) (ns : NetStack ε) : Prop :=
  ∃ cfg eg ctx, Run netStep ok (netInit cfg eg ctx) ns

end S5LBox.Net
