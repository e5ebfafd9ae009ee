import S5LBox.Net.AckEffects
import S5LBox.Net.Handles

/-!
# Replies over UDP

A poll of a UDP flow asks the egress for a datagram before it knows whether the output queue has
room for it. What has been taken from the egress and finds no room is gone.

## Main definitions

* `udpReady`: the datagrams that the egress has ready for a flow.
* `udpTaken`, `udpQueued`: those that a poll takes, and those that it queues for the guest.
* `polls`: all polls of UDP flows in a run.

## Main results

* `udp_replies_exact`: when no datagram of a flow is lost.
-/

namespace S5LBox.Net

variable {ε : Type}

/-! ### One poll -/

/-- The datagrams that up to `n` calls of `recv` hand over, up to the first call that hands over
none. -/
def readyFrom (recv : Int → Nat → ε → Recv × ε) (handle : Int) : Nat → ε → List (List Byte)
  | 0, _ => []
  | n + 1, x =>
    match recv handle (netMtu - ipv4HdrLen - 8) x with
    | (.bytes data, x) => data :: readyFrom recv handle n x
    | _ => []

/-- The datagrams that the egress has ready for a poll. -/
def udpReady (c : Conn ε) : List (List Byte) :=
  match c.core.eg.recv with
  | some recv => if c.f.handle < 0 then [] else readyFrom recv c.f.handle 8 c.core.ctx
  | none => []

/-- The free slots of the output queue. -/
def NetCore.free (ns : NetCore ε) : Nat := netOutSlots - ns.out.length

/-- The connection with an egress that logs its calls, and nothing in the log. -/
def Conn.withLog (c : Conn ε) : Conn (ε × List Call) where
  core :=
    { cfg := c.core.cfg, eg := c.core.eg.logged, ctx := (c.core.ctx, []), nowMs := c.core.nowMs
      issWalk := c.core.issWalk, ipOut := c.core.ipOut, flowsOpen := c.core.flowsOpen
      out := c.core.out, released := c.core.released }
  f := c.f

/-- The octets that a call has handed over. -/
def Call.received : Call → Option (List Byte)
  | .recv _ (.bytes data) => some data
  | _ => none

/-- The datagrams that `recv` has returned, oldest first. -/
def receivedIn (log : List Call) : List (List Byte) := (log.filterMap Call.received).reverse

/-- The UDP datagram for the guest that carries what the host has said, with its addresses. -/
def udpParcel (c : Conn ε) (data : List Byte) : Word × Word × List Byte :=
  (c.f.dstIp, c.core.cfg.guestIp,
    udpDatagram c.f.dstIp c.core.cfg.guestIp c.f.dstPort c.f.guestPort data)

/-- What a datagram carries, with its addresses. -/
def parcelOf (dgram : List Byte) : Word × Word × List Byte :=
  (netRd32 dgram 12, netRd32 dgram 16, dgram.drop ipv4HdrLen)

/-- What a poll takes from the egress: all that `recv` returns in the course of `udp_poll`. -/
def udpTaken (c : Conn ε) : List (Word × Word × List Byte) :=
  (receivedIn (udpPoll c.withLog).core.ctx.2).map (udpParcel c)

/-- What a poll queues for the guest. -/
def udpQueued (c : Conn ε) : List (Word × Word × List Byte) :=
  ((udpPoll c).core.out.drop c.core.out.length).map parcelOf

theorem parcelOf_netDatagram (ns : NetCore ε) (src dst : Word) (proto : Nat)
    (payload : List Byte) : parcelOf (netDatagram ns src dst proto payload) = (src, dst, payload) := by
  rw [parcelOf, netDatagram, netBuildIpv4]
  generalize netChecksum _ = checksum
  have hsrc := netRd32_netWr32 src (netWr32 dst ++ payload)
  have hdst := netRd32_netWr32 dst payload
  exact Prod.ext hsrc (Prod.ext hdst (List.drop_left' rfl))

/-- A datagram of the host fits, and it is queued when there is a free slot. -/
theorem netEmit_udp {src dst : Word} {sport dport : Port} {data : List Byte} {ns : NetCore ε}
    (hlen : data.length ≤ netMtu - ipv4HdrLen - 8) :
    netEmit src dst netProtoUdp (udpDatagram src dst sport dport data) ns =
      if ns.free = 0 then none
      else some { ns with
        out := ns.out ++ [netDatagram ns src dst netProtoUdp (udpDatagram src dst sport dport data)]
        ipOut := ns.ipOut + 1 } := by
  have hsize : (udpDatagram src dst sport dport data).length = 8 + data.length := by
    simp only [udpDatagram, List.length_append, length_netWr16]
  have hfits : ¬(udpDatagram src dst sport dport data).length + ipv4HdrLen > netMtu := by
    rw [hsize]
    simp only [netMtu, ipv4HdrLen] at hlen ⊢
    omega
  rw [netEmit, if_neg hfits]
  by_cases hroom : ns.out.length ≥ netOutSlots
  · have hnone : ns.free = 0 := Nat.sub_eq_zero_of_le hroom
    rw [if_pos hroom, if_pos hnone]
  · have hsome : ns.free ≠ 0 := by
      rw [NetCore.free]
      omega
    rw [if_neg hroom, if_neg hsome]

/-- `recv` hands over no more than it is asked for. -/
def RecvFits (recv : Int → Nat → ε → Recv × ε) : Prop :=
  ∀ handle cap x data, (recv handle cap x).1 = .bytes data → data.length ≤ cap

theorem netFlowFree_out (why : Release) (c : Conn ε) :
    (netFlowFree why c).core.out = c.core.out := by
  rw [netFlowFree]
  split <;> rfl

variable {recv : Int → Nat → ε → Recv × ε}

/-- A poll queues as many of the datagrams that are ready as there are free slots. -/
theorem udpPollLoop_out (hfits : RecvFits recv) (n : Nat) (c : Conn ε) :
    ∃ new, (udpPollLoop recv n c).core.out = c.core.out ++ new ∧
      new.map parcelOf = ((readyFrom recv c.f.handle n c.core.ctx).take c.core.free).map
        (udpParcel c) := by
  induction n generalizing c with
  | zero => exact ⟨[], (List.append_nil _).symm, by rw [readyFrom, List.take_nil]; rfl⟩
  | succ n ih =>
    rw [udpPollLoop, readyFrom]
    have hle := hfits c.f.handle (netMtu - ipv4HdrLen - 8) c.core.ctx
    generalize recv c.f.handle (netMtu - ipv4HdrLen - 8) c.core.ctx = r at hle ⊢
    obtain ⟨answer, x⟩ := r
    cases answer with
    | wouldBlock => exact ⟨[], (List.append_nil _).symm, by rw [List.take_nil]; rfl⟩
    | eof =>
      exact ⟨[], by rw [List.append_nil]; exact netFlowFree_out _ _, by rw [List.take_nil]; rfl⟩
    | error =>
      exact ⟨[], by rw [List.append_nil]; exact netFlowFree_out _ _, by rw [List.take_nil]; rfl⟩
    | bytes data =>
      dsimp only
      rw [netEmit_udp (hle data rfl)]
      by_cases hfull : c.core.free = 0
      · have hfull' : NetCore.free { c.core with ctx := x } = 0 := hfull
        rw [if_pos hfull', hfull]
        exact ⟨[], (List.append_nil _).symm, rfl⟩
      · have hfull' : NetCore.free { c.core with ctx := x } ≠ 0 := hfull
        rw [if_neg hfull']
        dsimp only
        generalize hd : netDatagram { c.core with ctx := x } c.f.dstIp c.core.cfg.guestIp
          netProtoUdp (udpDatagram c.f.dstIp c.core.cfg.guestIp c.f.dstPort c.f.guestPort data) = d
        obtain ⟨new, hout, hnew⟩ := ih ⟨{ c.core with
          ctx := x, out := c.core.out ++ [d], ipOut := c.core.ipOut + 1 },
          { c.f with lastMs := c.core.nowMs }⟩
        have hfree : NetCore.free { c.core with
            ctx := x, out := c.core.out ++ [d], ipOut := c.core.ipOut + 1 } + 1 = c.core.free := by
          rw [NetCore.free, NetCore.free, List.length_append, List.length_singleton]
          rw [NetCore.free] at hfull
          omega
        refine ⟨d :: new, ?_, ?_⟩
        · rw [hout, List.append_assoc]
          rfl
        · rw [← hfree, List.take_succ_cons, List.map_cons, List.map_cons, hnew, ← hd,
            parcelOf_netDatagram]
          rfl

theorem recvFits_of_egress {eg : Egress ε} (hfun : eg.recv = some recv) : RecvFits recv :=
  fun handle cap x data hdata => (eg.recv_le recv hfun handle cap x data hdata).2

theorem udpQueued_eq (c : Conn ε) :
    udpQueued c = ((udpReady c).take c.core.free).map (udpParcel c) := by
  rw [udpQueued, udpReady, udpPoll]
  cases hfun : c.core.eg.recv with
  | none =>
    dsimp only
    rw [List.drop_length, List.take_nil]
    rfl
  | some recv =>
    dsimp only
    split
    · rw [List.drop_length, List.take_nil]
      rfl
    · obtain ⟨new, hout, hnew⟩ := udpPollLoop_out (recvFits_of_egress hfun) 8 c
      rw [hout, List.drop_left, hnew]

theorem receivedIn_append (calls log : List Call) :
    receivedIn (calls ++ log) = receivedIn log ++ receivedIn calls := by
  rw [receivedIn, List.filterMap_append, List.reverse_append, receivedIn, receivedIn]

/-- The release of a flow hands over nothing. -/
theorem receivedIn_netFlowFree {why : Release} {c : Conn (ε × List Call)}
    (hlogs : c.core.eg.Logs) :
    receivedIn (netFlowFree why c).core.ctx.2 = receivedIn c.core.ctx.2 := by
  rw [netFlowFree]
  split
  · rfl
  · dsimp only
    obtain hfun | ⟨close, hfun⟩ := hlogs.close
    · rw [hfun]
    · rw [hfun]
      dsimp only
      split <;> rfl

/-- A poll takes one datagram more than there are free slots, if there are so many. -/
theorem udpPollLoop_received (hfits : RecvFits recv) (n : Nat) (c : Conn (ε × List Call))
    (hlogs : c.core.eg.Logs) :
    receivedIn (udpPollLoop (fun handle cap x => loggedRecv x recv handle cap) n c).core.ctx.2 =
      receivedIn c.core.ctx.2 ++
        (readyFrom recv c.f.handle n c.core.ctx.1).take (c.core.free + 1) := by
  induction n generalizing c with
  | zero => rw [readyFrom, List.take_nil, List.append_nil]; rfl
  | succ n ih =>
    rw [udpPollLoop, readyFrom]
    dsimp only [loggedRecv]
    have hle := hfits c.f.handle (netMtu - ipv4HdrLen - 8) c.core.ctx.1
    generalize recv c.f.handle (netMtu - ipv4HdrLen - 8) c.core.ctx.1 = r at hle ⊢
    obtain ⟨answer, x⟩ := r
    cases answer with
    | wouldBlock =>
      rw [List.take_nil, List.append_nil]
      rfl
    | eof =>
      rw [List.take_nil, List.append_nil]
      exact receivedIn_netFlowFree hlogs
    | error =>
      rw [List.take_nil, List.append_nil]
      exact receivedIn_netFlowFree hlogs
    | bytes data =>
      dsimp only
      rw [netEmit_udp (hle data rfl), List.take_succ_cons]
      have hone : receivedIn (.recv c.f.handle (.bytes data) :: c.core.ctx.2) =
          receivedIn c.core.ctx.2 ++ [data] :=
        receivedIn_append [.recv c.f.handle (.bytes data)] c.core.ctx.2
      by_cases hfull : c.core.free = 0
      · have hfull' : NetCore.free { c.core with
            ctx := (x, .recv c.f.handle (.bytes data) :: c.core.ctx.2) } = 0 := hfull
        rw [if_pos hfull', hfull, List.take_zero]
        exact hone
      · have hfull' : NetCore.free { c.core with
            ctx := (x, .recv c.f.handle (.bytes data) :: c.core.ctx.2) } ≠ 0 := hfull
        rw [if_neg hfull']
        dsimp only
        generalize netDatagram { c.core with
            ctx := (x, .recv c.f.handle (.bytes data) :: c.core.ctx.2) } c.f.dstIp
          c.core.cfg.guestIp netProtoUdp (udpDatagram c.f.dstIp c.core.cfg.guestIp c.f.dstPort
            c.f.guestPort data) = d
        have hmore := ih ⟨{ c.core with
          ctx := (x, .recv c.f.handle (.bytes data) :: c.core.ctx.2), out := c.core.out ++ [d]
          ipOut := c.core.ipOut + 1 }, { c.f with lastMs := c.core.nowMs }⟩ hlogs
        have hfree : NetCore.free { c.core with
            ctx := (x, .recv c.f.handle (.bytes data) :: c.core.ctx.2), out := c.core.out ++ [d]
            ipOut := c.core.ipOut + 1 } + 1 = c.core.free := by
          rw [NetCore.free, NetCore.free, List.length_append, List.length_singleton]
          rw [NetCore.free] at hfull
          omega
        refine hmore.trans ?_
        rw [hfree, hone, List.append_assoc]
        rfl

theorem udpTaken_eq (c : Conn ε) :
    udpTaken c = ((udpReady c).take (c.core.free + 1)).map (udpParcel c) := by
  rw [udpTaken, udpReady, udpPoll]
  cases hfun : c.core.eg.recv with
  | none =>
    have hfun' : c.withLog.core.eg.recv = none := by
      show c.core.eg.recv.map _ = none
      rw [hfun]
      rfl
    rw [hfun']
    dsimp only
    rw [List.take_nil]
    rfl
  | some recv =>
    have hfun' : c.withLog.core.eg.recv =
        some fun handle cap x => loggedRecv x recv handle cap := by
      show c.core.eg.recv.map _ = _
      rw [hfun]
      rfl
    have hhandle : c.withLog.f.handle = c.f.handle := rfl
    rw [hfun']
    dsimp only
    rw [hhandle]
    split
    · rw [List.take_nil]
      rfl
    · rw [udpPollLoop_received (recvFits_of_egress hfun) 8 c.withLog c.core.eg.logs_logged]
      rfl

/-! ### All polls -/

/-- The polls of UDP flows among the slots that a tick still has to work on. -/
def slotPolls : List (Fin netMaxFlows) → NetStack ε → List (Conn ε)
  | [], _ => []
  | i :: slots, ns =>
    let rest := slotPolls slots (netTickSlot ns i)
    if (ns.flow i).used ∧ (ns.flow i).proto = netProtoUdp then ⟨ns.core, ns.flow i⟩ :: rest
    else rest

/-- The polls of UDP flows in a tick. -/
def tickPolls (now : Word) (ns : NetStack ε) : List (Conn ε) :=
  if netSeqLt now ns.core.nowMs then []
  else slotPolls (List.finRange netMaxFlows)
    (dnsTick { ns with core := { ns.core with nowMs := now } })

/-- The polls of UDP flows in a step. Nothing but a tick polls. -/
def opPolls : Op ε → NetStack ε → List (Conn ε)
  | .tick now, ns => tickPolls now ns
  | _, _ => []

/-- The polls of UDP flows in a run. -/
def polls : List (Op ε) → NetStack ε → List (Conn ε)
  | [], _ => []
  | op :: ops, ns => opPolls op ns ++ polls ops (netStep op ns)

/-- The polls of one flow in a run. -/
def pollsOf (number : Nat) (ops : List (Op ε)) (ns : NetStack ε) : List (Conn ε) :=
  (polls ops ns).filter fun c => c.f.history.number = number

/-- Prefixes that together are as long as the whole are the whole. -/
theorem flatMap_eq_flatMap_iff {α β : Type} {p q : α → List β} (h : ∀ a, q a <+: p a)
    (l : List α) : l.flatMap p = l.flatMap q ↔ ∀ a ∈ l, p a = q a := by
  constructor
  · intro heq
    have hle (l : List α) : (l.flatMap q).length ≤ (l.flatMap p).length := by
      induction l with
      | nil => exact le_rfl
      | cons a l ih =>
        rw [List.flatMap_cons, List.flatMap_cons, List.length_append, List.length_append]
        exact Nat.add_le_add (h a).length_le ih
    have hlen := congrArg List.length heq
    induction l with
    | nil => exact fun _ ha => absurd ha List.not_mem_nil
    | cons a l ih =>
      rw [List.flatMap_cons, List.flatMap_cons] at heq hlen
      rw [List.length_append, List.length_append] at hlen
      have hhead := (h a).length_le
      have htail := hle l
      have hsame : p a = q a := ((h a).eq_of_length (by omega)).symm
      intro b hb
      rcases List.mem_cons.mp hb with rfl | hb
      · exact hsame
      · rw [hsame] at heq
        have hrest := List.append_cancel_left heq
        exact ih hrest (congrArg List.length hrest) b hb
  · intro hall
    exact List.flatMap_congr hall

/-- A poll queues all that it takes exactly when there is a free slot for each datagram that is
ready. -/
theorem udpTaken_eq_udpQueued_iff (c : Conn ε) :
    udpTaken c = udpQueued c ↔ (udpReady c).length ≤ c.core.free := by
  rw [udpTaken_eq, udpQueued_eq]
  constructor
  · intro heq
    have hlen := congrArg List.length heq
    rw [List.length_map, List.length_map, List.length_take, List.length_take] at hlen
    omega
  · intro hroom
    rw [List.take_of_length_le hroom, List.take_of_length_le (Nat.le_succ_of_le hroom)]

theorem udpQueued_prefix (c : Conn ε) : udpQueued c <+: udpTaken c := by
  rw [udpTaken_eq, udpQueued_eq]
  exact (List.take_prefix_take_left (Nat.le_succ _)).map _

/-- In every run, all datagrams that are taken from the egress for a flow are queued for the guest,
once and in order, exactly when every poll of the flow finds a free slot in the output queue for
each datagram that the egress has ready for it. -/
theorem udp_replies_exact (number : Nat) (ops : List (Op ε)) (ns : NetStack ε) :
    (pollsOf number ops ns).flatMap udpTaken = (pollsOf number ops ns).flatMap udpQueued ↔
      ∀ c ∈ pollsOf number ops ns, (udpReady c).length ≤ c.core.free := by
  rw [flatMap_eq_flatMap_iff udpQueued_prefix]
  exact forall₂_congr fun c _ => udpTaken_eq_udpQueued_iff c

/-! ### A reply that is lost

The guest has sent a datagram to a host, and has asked the gateway for an echo until the output
queue is full. The answer of the host comes before the guest has read any of the echoes. -/

/-- The request of an echo from the gateway. -/
def guestPing : List Byte :=
  let fields := fun checksum => [8, 0] ++ netWr16 checksum ++ netWr32 0
  let ping := fields (netChecksum (fields 0))
  netBuildIpv4 netConfigDefault.guestIp netConfigDefault.localIp netProtoIcmp 1 ping.length ++ ping

/-- The run up to the tick that polls the flow. -/
def pingedFull : List (Op (List (List Byte))) :=
  .input (guestDatagram 1000 2000 [1]) :: List.replicate netOutSlots (.input guestPing) ++ [.tick 1]

/-- The answer is taken from the host and never queued. -/
theorem udp_reply_lost : ¬∀ (number : Nat) (ops : List (Op (List (List Byte)))),
    (pollsOf number ops (netInit netConfigDefault (scriptedHost 4096) [[0x41]])).flatMap udpTaken =
      (pollsOf number ops (netInit netConfigDefault (scriptedHost 4096) [[0x41]])).flatMap
        udpQueued := by
  intro hall
  have htaken : ((pollsOf 1 pingedFull
      (netInit netConfigDefault (scriptedHost 4096) [[0x41]])).flatMap udpTaken).length = 1 := by
    decide +kernel
  have hqueued : ((pollsOf 1 pingedFull
      (netInit netConfigDefault (scriptedHost 4096) [[0x41]])).flatMap udpQueued).length = 0 := by
    decide +kernel
  have hlen := congrArg List.length (hall 1 pingedFull)
  omega

end S5LBox.Net
