import S5LBox.Lib.Leases
import S5LBox.Net.Stack

/-!
# The calls of the egress

An egress may keep a log of its calls beside its own state, the newest call first. What the log
says of the handles of flows is a log of leases. A function that is handed a flow in use calls the
egress with the handle of that flow only, and closes it when it releases the flow.

## Main definitions

* `Call`, `Egress.logged`: the calls, and the egress that keeps a log of them.
* `Call.event`: what a call does with a handle.
* `Holding`, `Leaving`: how a function leaves the flow it was handed, and its log.

## Main results

* `netTcpTick_leaving`, `tcpInputFlow_leaving`, `udpTick_leaving`, `udpSend_leaving`.
-/

namespace S5LBox.Net

open Leases

variable {ε : Type}

/-! ### The log -/

/-- A call of the egress. -/
inductive Call
  | openFlow (proto : Nat) (dstIp : Word) (dstPort : Port) (handle : Int)
  | status (handle : Int)
  | send (handle : Int) (data : List Byte)
  | recv (handle : Int) (result : Recv)
  | shutdownTx (handle : Int)
  | close (handle : Int)
  | resolve (name : List Byte)
  | icmpEcho (dstIp : Word) (data : List Byte)

/-- What a call does with a handle. A negative one has not been handed out. -/
def Call.event : Call → Option (Event Int)
  | .openFlow _ _ _ handle => if 0 ≤ handle then some (.acquire handle) else none
  | .status handle => some (.use handle)
  | .send handle _ => some (.use handle)
  | .recv handle _ => some (.use handle)
  | .shutdownTx handle => some (.use handle)
  | .close handle => some (.release handle)
  | .resolve _ => none
  | .icmpEcho _ _ => none

/-- What a log says of the handles. -/
def leases (log : List Call) : List (Event Int) := log.filterMap Call.event

theorem leases_append (calls log : List Call) :
    leases (calls ++ log) = leases calls ++ leases log := List.filterMap_append

section Calls

variable (x : ε × List Call)

def loggedOpen (openFlow : Nat → Word → Port → ε → Int × ε) (proto : Nat) (dstIp : Word)
    (dstPort : Port) : Int × ε × List Call :=
  let r := openFlow proto dstIp dstPort x.1
  (r.1, r.2, .openFlow proto dstIp dstPort r.1 :: x.2)

def loggedStatus (status : Int → ε → Status × ε) (handle : Int) : Status × ε × List Call :=
  let r := status handle x.1
  (r.1, r.2, .status handle :: x.2)

def loggedSend (send : Int → List Byte → ε → Int × ε) (handle : Int) (data : List Byte) :
    Int × ε × List Call :=
  let r := send handle data x.1
  (r.1, r.2, .send handle data :: x.2)

def loggedRecv (recv : Int → Nat → ε → Recv × ε) (handle : Int) (cap : Nat) :
    Recv × ε × List Call :=
  let r := recv handle cap x.1
  (r.1, r.2, .recv handle r.1 :: x.2)

def loggedShutdownTx (shutdownTx : Int → ε → ε) (handle : Int) : ε × List Call :=
  (shutdownTx handle x.1, .shutdownTx handle :: x.2)

def loggedClose (close : Int → ε → ε) (handle : Int) : ε × List Call :=
  (close handle x.1, .close handle :: x.2)

def loggedResolve (resolve : List Byte → ε → Res × ε) (name : List Byte) : Res × ε × List Call :=
  let r := resolve name x.1
  (r.1, r.2, .resolve name :: x.2)

def loggedIcmpEcho (icmpEcho : Word → List Byte → ε → Int × ε) (dstIp : Word) (data : List Byte) :
    Int × ε × List Call :=
  let r := icmpEcho dstIp data x.1
  (r.1, r.2, .icmpEcho dstIp data :: x.2)

end Calls

/-- The egress that keeps a log of its calls. -/
def Egress.logged (eg : Egress ε) : Egress (ε × List Call) where
  openFlow := eg.openFlow.map fun f proto dstIp dstPort x => loggedOpen x f proto dstIp dstPort
  status := eg.status.map fun f handle x => loggedStatus x f handle
  send := eg.send.map fun f handle data x => loggedSend x f handle data
  recv := eg.recv.map fun f handle cap x => loggedRecv x f handle cap
  shutdownTx := eg.shutdownTx.map fun f handle x => loggedShutdownTx x f handle
  close := eg.close.map fun f handle x => loggedClose x f handle
  resolve := eg.resolve.map fun f name x => loggedResolve x f name
  icmpEcho := eg.icmpEcho.map fun f dstIp data x => loggedIcmpEcho x f dstIp data
  send_le := by
    intro f hf h data x
    obtain ⟨g, hg, rfl⟩ := Option.map_eq_some_iff.mp hf
    exact eg.send_le g hg h data x.1
  recv_le := by
    intro f hf h cap x data hdata
    obtain ⟨g, hg, rfl⟩ := Option.map_eq_some_iff.mp hf
    exact eg.recv_le g hg h cap x.1 data hdata

/-- Each function of an egress is missing, or it is one that logs its calls. -/
structure Egress.Logs (eg : Egress (ε × List Call)) : Prop where
  openFlow : eg.openFlow = none ∨
    ∃ f, eg.openFlow = some fun proto dstIp dstPort x => loggedOpen x f proto dstIp dstPort
  status : eg.status = none ∨ ∃ f, eg.status = some fun handle x => loggedStatus x f handle
  send : eg.send = none ∨ ∃ f, eg.send = some fun handle data x => loggedSend x f handle data
  recv : eg.recv = none ∨ ∃ f, eg.recv = some fun handle cap x => loggedRecv x f handle cap
  shutdownTx : eg.shutdownTx = none ∨
    ∃ f, eg.shutdownTx = some fun handle x => loggedShutdownTx x f handle
  close : eg.close = none ∨ ∃ f, eg.close = some fun handle x => loggedClose x f handle
  resolve : eg.resolve = none ∨ ∃ f, eg.resolve = some fun name x => loggedResolve x f name
  icmpEcho : eg.icmpEcho = none ∨
    ∃ f, eg.icmpEcho = some fun dstIp data x => loggedIcmpEcho x f dstIp data

theorem map_none_or_some {α β : Type} (o : Option α) (f : α → β) :
    o.map f = none ∨ ∃ a, o.map f = some (f a) := by
  cases o with
  | none => exact .inl rfl
  | some a => exact .inr ⟨a, rfl⟩

theorem Egress.logs_logged (eg : Egress ε) : eg.logged.Logs where
  openFlow := map_none_or_some eg.openFlow _
  status := map_none_or_some eg.status _
  send := map_none_or_some eg.send _
  recv := map_none_or_some eg.recv _
  shutdownTx := map_none_or_some eg.shutdownTx _
  close := map_none_or_some eg.close _
  resolve := map_none_or_some eg.resolve _
  icmpEcho := map_none_or_some eg.icmpEcho _

/-! ### How a function leaves its flow -/

/-- Whose flow it is, and the handle that it has. -/
def Flow.lease (f : Flow) : Bool × Nat × Port × Word × Port × Int :=
  (f.used, f.proto, f.guestPort, f.dstIp, f.dstPort, f.handle)

theorem Flow.lease_handle {f f' : Flow} (h : f'.lease = f.lease) : f'.handle = f.handle :=
  congrArg (fun t => t.2.2.2.2.2) h

theorem Flow.lease_used {f f' : Flow} (h : f'.lease = f.lease) : f'.used = f.used :=
  congrArg (fun t => t.1) h

variable {c c' c'' : Conn (ε × List Call)}

/-- The flow is kept, and all calls have been made with its handle. -/
structure Holding (c c' : Conn (ε × List Call)) : Prop where
  eg : c'.core.eg = c.core.eg
  lease : c'.f.lease = c.f.lease
  log : ∃ calls : List Call, c'.core.ctx.2 = calls ++ c.core.ctx.2 ∧
    ∀ call ∈ calls, call.event = some (.use c.f.handle)

theorem Holding.of_eq (heg : c'.core.eg = c.core.eg) (hctx : c'.core.ctx = c.core.ctx)
    (hlease : c'.f.lease = c.f.lease) : Holding c c' :=
  ⟨heg, hlease, [], by rw [hctx]; rfl, fun _ hcall => absurd hcall List.not_mem_nil⟩

theorem Holding.refl (c : Conn (ε × List Call)) : Holding c c := .of_eq rfl rfl rfl

theorem holding_call (call : Call) (hcall : call.event = some (.use c.f.handle))
    (heg : c'.core.eg = c.core.eg) (hlog : c'.core.ctx.2 = call :: c.core.ctx.2)
    (hlease : c'.f.lease = c.f.lease) : Holding c c' :=
  ⟨heg, hlease, [call], hlog, fun _ hmem => List.mem_singleton.mp hmem ▸ hcall⟩

theorem Holding.trans (h : Holding c c') (h' : Holding c' c'') : Holding c c'' := by
  obtain ⟨calls, hlog, hcalls⟩ := h.log
  obtain ⟨calls', hlog', hcalls'⟩ := h'.log
  refine ⟨h'.eg.trans h.eg, h'.lease.trans h.lease, calls' ++ calls, ?_, fun call hmem => ?_⟩
  · rw [hlog', hlog, List.append_assoc]
  · rcases List.mem_append.mp hmem with hnew | hold
    · rw [hcalls' call hnew, Flow.lease_handle h.lease]
    · exact hcalls call hold

/-- The flow is kept, or it is released in the end. -/
def Leaving (c c' : Conn (ε × List Call)) : Prop :=
  Holding c c' ∨ ∃ why c₁, Holding c c₁ ∧ c' = netFlowFree why c₁

theorem Holding.leaving (h : Holding c c') : Leaving c c' := .inl h

theorem Holding.free (h : Holding c c') (why : Release) : Leaving c (netFlowFree why c') :=
  .inr ⟨why, c', h, rfl⟩

theorem Holding.then (h : Holding c c') (h' : Leaving c' c'') : Leaving c c'' := by
  obtain hkept | ⟨why, c₁, hkept, rfl⟩ := h'
  · exact .inl (h.trans hkept)
  · exact (h.trans hkept).free why

/-- A stage of the tick: it goes on with its flow, or it ends the tick. -/
def HoldingStage (c : Conn (ε × List Call)) (r : Bool × Conn (ε × List Call)) : Prop :=
  (r.1 = true → Holding c r.2) ∧ (r.1 = false → Leaving c r.2)

theorem HoldingStage.on (h : Holding c c') : HoldingStage c (true, c') := ⟨fun _ => h, nofun⟩

theorem HoldingStage.over (h : Leaving c c') : HoldingStage c (false, c') := ⟨nofun, fun _ => h⟩

theorem Holding.stage {r : Bool × Conn (ε × List Call)} (h : Holding c c')
    (hstage : HoldingStage c' r) : HoldingStage c r :=
  ⟨fun hon => h.trans (hstage.1 hon), fun hover => h.then (hstage.2 hover)⟩

/-! ### Sending -/

theorem netEmit_egress {src dst : Word} {proto : Nat} {p : List Byte}
    {ns ns' : NetCore ε} (h : netEmit src dst proto p ns = some ns') :
    ns'.eg = ns.eg ∧ ns'.ctx = ns.ctx := by
  rw [netEmit] at h
  split_ifs at h
  cases h
  exact ⟨rfl, rfl⟩

theorem netEmit'_egress (src dst : Word) (proto : Nat) (p : List Byte) (ns : NetCore ε) :
    (netEmit' src dst proto p ns).eg = ns.eg ∧ (netEmit' src dst proto p ns).ctx = ns.ctx := by
  rw [netEmit']
  cases h : netEmit src dst proto p ns with
  | none => exact ⟨rfl, rfl⟩
  | some ns' => exact netEmit_egress h

theorem tcpReject_egress (dstIp : Word) (g : Segment) (n : Nat) (ns : NetCore ε) :
    (tcpReject dstIp g n ns).eg = ns.eg ∧ (tcpReject dstIp g n ns).ctx = ns.ctx := by
  rw [tcpReject]
  split
  · exact ⟨rfl, rfl⟩
  · exact netEmit'_egress _ _ _ _ _

theorem tcpOut_egress (flags : Byte) (seq : Word) (data : List Byte) (c : Conn ε) :
    (tcpOut flags seq data c).2.core.eg = c.core.eg ∧
      (tcpOut flags seq data c).2.core.ctx = c.core.ctx := by
  rw [tcpOut]
  cases h : netEmit c.f.dstIp c.core.cfg.guestIp netProtoTcp (tcpSegment c.core c.f flags seq data)
      c.core with
  | none => exact ⟨rfl, rfl⟩
  | some core => exact netEmit_egress h

theorem lease_tcpOut (flags : Byte) (seq : Word) (data : List Byte) (c : Conn ε) :
    (tcpOut flags seq data c).2.f.lease = c.f.lease := by
  rw [tcpOut]
  split <;> rfl

theorem tcpOut_holding (flags : Byte) (seq : Word) (data : List Byte) (c : Conn (ε × List Call)) :
    Holding c (tcpOut flags seq data c).2 :=
  have hframe := tcpOut_egress flags seq data c
  .of_eq hframe.1 hframe.2 (lease_tcpOut flags seq data c)

theorem tcpAbort_leaving (c : Conn (ε × List Call)) : Leaving c (tcpAbort c) :=
  (tcpOut_holding (tcpRst ||| tcpAck) c.f.sndNxt [] c).free .reset

theorem lease_tcpTimers (now : Word) (f : Flow) : (tcpTimers now f).lease = f.lease := by
  rw [tcpTimers]
  split_ifs <;> rfl

theorem tcpPumpData_holding (n sent : Nat) (c : Conn (ε × List Call)) :
    Holding c (tcpPumpData n sent c) := by
  induction n generalizing sent c with
  | zero => exact .refl c
  | succ n ih =>
    rw [tcpPumpData]
    dsimp only
    split_ifs with hall
    · exact .refl c
    · exact .refl c
    generalize min (min (c.f.txlen - sent) (min c.f.sndWnd c.f.cwnd - sent)) c.f.mss = seg
    have hout := tcpOut_holding (tcpAck ||| tcpPsh) c.f.sndNxt ((c.f.txbuf.drop sent).take seg) c
    rcases h : tcpOut (tcpAck ||| tcpPsh) c.f.sndNxt ((c.f.txbuf.drop sent).take seg) c with
      ⟨_ | _, c₁⟩
    · rw [h] at hout
      exact hout
    · rw [h] at hout
      have hmoved : Holding c₁ { c₁ with f :=
          { c₁.f with sndNxt := c₁.f.sndNxt + BitVec.ofNat 32 seg } } := .of_eq rfl rfl rfl
      exact (Holding.trans hout hmoved).trans (ih (sent + seg) _)

theorem lease_tcpMarkFin (f : Flow) : (tcpMarkFin f).lease = f.lease := by
  rw [tcpMarkFin]
  split <;> rfl

theorem tcpSendFin_holding (c : Conn (ε × List Call)) : Holding c (tcpSendFin c) := by
  rw [tcpSendFin]
  split
  · have hout := tcpOut_holding (tcpAck ||| tcpFin) c.f.sndNxt [] c
    rcases h : tcpOut (tcpAck ||| tcpFin) c.f.sndNxt [] c with ⟨_ | _, c₁⟩
    · rw [h] at hout
      exact hout
    · rw [h] at hout
      exact hout.trans (.of_eq rfl rfl rfl)
  · exact .refl c

theorem tcpSendAck_holding (c : Conn (ε × List Call)) : Holding c (tcpSendAck c) := by
  rw [tcpSendAck]
  split
  · exact tcpOut_holding _ _ _ c
  · exact .refl c

theorem tcpPump_holding (c : Conn (ε × List Call)) : Holding c (tcpPump c) := by
  rw [tcpPump]
  split
  · exact .refl c
  · have hdata := tcpPumpData_holding (netOutSlots + 1) (tcpInflight c.f) c
    generalize tcpPumpData (netOutSlots + 1) (tcpInflight c.f) c = c₁ at hdata ⊢
    have hmark : Holding c₁ { c₁ with f := tcpMarkFin c₁.f } :=
      .of_eq rfl rfl (lease_tcpMarkFin c₁.f)
    have hsent := (tcpSendFin_holding { c₁ with f := tcpMarkFin c₁.f }).trans
      (tcpSendAck_holding _)
    exact ((hdata.trans hmark).trans hsent).trans (.of_eq rfl rfl (lease_tcpTimers _ _))

/-! ### Calls without a handle -/

/-- The egress has been called for no flow. -/
structure NoLease (core core' : NetCore (ε × List Call)) : Prop where
  eg : core'.eg = core.eg
  log : ∃ calls, core'.ctx.2 = calls ++ core.ctx.2 ∧ leases calls = []

section NoLease

variable {core core' core'' : NetCore (ε × List Call)}

theorem NoLease.of_eq (h : core'.eg = core.eg ∧ core'.ctx = core.ctx) : NoLease core core' :=
  ⟨h.1, [], by rw [h.2]; rfl, rfl⟩

theorem NoLease.refl (core : NetCore (ε × List Call)) : NoLease core core := .of_eq ⟨rfl, rfl⟩

theorem NoLease.trans (h : NoLease core core') (h' : NoLease core' core'') :
    NoLease core core'' := by
  obtain ⟨calls, hlog, hnone⟩ := h.log
  obtain ⟨calls', hlog', hnone'⟩ := h'.log
  refine ⟨h'.eg.trans h.eg, calls' ++ calls, ?_, ?_⟩
  · rw [hlog', hlog, List.append_assoc]
  · rw [leases_append, hnone, hnone']
    rfl

theorem dnsReply_egress (gport : Port) (q : List Byte) (qend : Nat) (rcode : BitVec 16)
    (a : Option Word) (ns : NetCore ε) :
    (dnsReply gport q qend rcode a ns).eg = ns.eg ∧
      (dnsReply gport q qend rcode a ns).ctx = ns.ctx := by
  unfold dnsReply
  split
  · exact ⟨rfl, rfl⟩
  · exact netEmit'_egress _ _ _ _ _

theorem dnsFinish_egress (gport : Port) (q : List Byte) (r : Res) (ns : NetCore ε) :
    (dnsFinish gport q r ns).eg = ns.eg ∧ (dnsFinish gport q r ns).ctx = ns.ctx := by
  cases r <;> exact dnsReply_egress _ _ _ _ _ _

theorem netResolve_noLease (hlogs : core.eg.Logs) (name : List Byte) :
    NoLease core (netResolve name core).2 := by
  obtain hfun | ⟨resolve, hfun⟩ := hlogs.resolve
  · rw [netResolve, hfun]
    exact .refl core
  · rw [netResolve, hfun]
    exact ⟨rfl, [.resolve name], rfl, rfl⟩

theorem icmpInput_noLease (hlogs : core.eg.Logs) (src dst : Word) (p : List Byte) :
    NoLease core (icmpInput src dst p core) := by
  rw [icmpInput]
  split_ifs
  · exact .refl core
  · exact .refl core
  · exact .refl core
  · exact .refl core
  · exact .of_eq (netEmit'_egress _ _ _ _ _)
  · obtain hfun | ⟨icmpEcho, hfun⟩ := hlogs.icmpEcho
    · rw [hfun]
      exact .refl core
    · rw [hfun]
      exact ⟨rfl, [.icmpEcho dst p], rfl, rfl⟩

end NoLease

/-! ### The tick -/

section Logged

theorem egressStatus_holding (heg : c.core.eg.Logs) : Holding c (egressStatus c).2 := by
  obtain hfun | ⟨status, hfun⟩ := heg.status
  · rw [egressStatus, hfun]
    exact .refl c
  · rw [egressStatus, hfun]
    exact holding_call (.status c.f.handle) rfl rfl rfl rfl

theorem tickTimeWait_leaving (c : Conn (ε × List Call)) : Leaving c (tickTimeWait c) := by
  have hack := tcpSendAck_holding c
  rw [tickTimeWait]
  split
  · exact hack.leaving
  · exact hack.free .timeWait

theorem tickConnect_leaving (heg : c.core.eg.Logs) : Leaving c (tickConnect c) := by
  have hstatus := egressStatus_holding heg
  rw [tickConnect]
  generalize egressStatus c = r at hstatus ⊢
  rcases r with ⟨_ | _ | _, c₁⟩
  · dsimp only at hstatus ⊢
    split
    · exact hstatus.leaving
    · exact hstatus.then (tcpAbort_leaving c₁)
  · have hout := tcpOut_holding (tcpSyn ||| tcpAck) c₁.f.sndNxt [] c₁
    dsimp only at hstatus ⊢
    generalize tcpOut (tcpSyn ||| tcpAck) c₁.f.sndNxt [] c₁ = r at hout ⊢
    rcases r with ⟨_ | _, c₂⟩
    · exact (hstatus.trans hout).leaving
    · have htimers : Holding c₂ { c₂ with
          f := tcpTimers c₂.core.nowMs { c₂.f with sndNxt := c₂.f.sndNxt + 1 } } :=
        .of_eq rfl rfl (lease_tcpTimers _ _)
      exact ((hstatus.trans hout).trans htimers).leaving
  · exact hstatus.then (tcpAbort_leaving c₁)

theorem tickSend_holding (heg : c.core.eg.Logs) : HoldingStage c (tickSend c) := by
  obtain hfun | ⟨send, hfun⟩ := heg.send
  · rw [tickSend, hfun]
    exact .on (.refl c)
  · rw [tickSend, hfun]
    dsimp only [loggedSend]
    split
    · exact .on (.refl c)
    have hcall : Holding c { c with core := { c.core with
        ctx := ((send c.f.handle c.f.rxbuf c.core.ctx.1).2,
          .send c.f.handle c.f.rxbuf :: c.core.ctx.2) } } :=
      holding_call (.send c.f.handle c.f.rxbuf) rfl rfl rfl rfl
    split
    · exact .over (hcall.then (tcpAbort_leaving _))
    split
    · exact .on hcall
    · exact .on (hcall.trans (.of_eq rfl rfl rfl))

theorem tickShutdown_holding (heg : c.core.eg.Logs) : Holding c (tickShutdown c) := by
  rw [tickShutdown]
  split
  · obtain hfun | ⟨shutdownTx, hfun⟩ := heg.shutdownTx
    · rw [hfun]
      exact .of_eq rfl rfl rfl
    · rw [hfun]
      exact holding_call (.shutdownTx c.f.handle) rfl rfl rfl rfl
  · exact .refl c

theorem tickRecvLoop_holding (recv : Int → Nat → ε → Recv × ε) (n : Nat)
    (c : Conn (ε × List Call)) :
    HoldingStage c (tickRecvLoop (fun handle cap x => loggedRecv x recv handle cap) n c) := by
  induction n generalizing c with
  | zero => exact .on (.refl c)
  | succ n ih =>
    rw [tickRecvLoop]
    split
    · exact .on (.refl c)
    dsimp only [loggedRecv]
    rcases recv c.f.handle (netTcpTxbuf - c.f.txlen) c.core.ctx.1 with ⟨r, x⟩
    have hcall : Holding c { c with core := { c.core with
        ctx := (x, .recv c.f.handle r :: c.core.ctx.2) } } :=
      holding_call (.recv c.f.handle r) rfl rfl rfl rfl
    cases r with
    | wouldBlock => exact .on hcall
    | eof => exact .on (hcall.trans (.of_eq rfl rfl rfl))
    | error => exact .over (hcall.then (tcpAbort_leaving _))
    | bytes data =>
      have htaken : Holding c
          { core := { c.core with ctx := (x, .recv c.f.handle (.bytes data) :: c.core.ctx.2) }
            f := { c.f with
              txbuf := c.f.txbuf ++ data
              history := { c.f.history with received := c.f.history.received ++ data } } } :=
        hcall.trans (.of_eq rfl rfl rfl)
      exact htaken.stage (ih _)

theorem tickRecv_holding (heg : c.core.eg.Logs) : HoldingStage c (tickRecv c) := by
  obtain hfun | ⟨recv, hfun⟩ := heg.recv
  · rw [tickRecv, hfun]
    exact .on (.refl c)
  · rw [tickRecv, hfun]
    dsimp only
    split
    · exact .on (.refl c)
    · exact tickRecvLoop_holding recv 8 c

theorem tickTimer_holding (c : Conn (ε × List Call)) : HoldingStage c (tickTimer c) := by
  rw [tickTimer]
  split
  · exact .on (.refl c)
  have hcount : Holding c { c with f := { c.f with rtoOn := false, rtx := c.f.rtx + 1 } } :=
    .of_eq rfl rfl rfl
  generalize { c with f := { c.f with rtoOn := false, rtx := c.f.rtx + 1 } } = c₁ at hcount ⊢
  dsimp only
  split
  · exact .over (hcount.then (tcpAbort_leaving c₁))
  split
  · have hout := tcpOut_holding tcpAck c₁.f.sndNxt (c₁.f.txbuf.take 1) c₁
    generalize tcpOut tcpAck c₁.f.sndNxt (c₁.f.txbuf.take 1) c₁ = r at hout ⊢
    rcases r with ⟨_ | _, c₂⟩
    · exact .over (hcount.trans hout).leaving
    · have htimers : Holding c₂ { c₂ with f := tcpTimers c₂.core.nowMs c₂.f } :=
        .of_eq rfl rfl (lease_tcpTimers _ _)
      exact .over ((hcount.trans hout).trans htimers).leaving
  · exact .on (hcount.trans (.of_eq rfl rfl rfl))

theorem netTcpTick_leaving (heg : c.core.eg.Logs) : Leaving c (netTcpTick c) := by
  rw [netTcpTick]
  split
  · exact (Holding.refl c).leaving
  split
  · exact tickTimeWait_leaving c
  split
  · exact (Holding.refl c).free .closed
  split
  · exact tickConnect_leaving heg
  have hsend := tickSend_holding heg
  generalize tickSend c = r at hsend ⊢
  rcases r with ⟨_ | _, c₁⟩
  · exact hsend.2 rfl
  have hkept := hsend.1 rfl
  dsimp only at hkept ⊢
  have hshut : Holding c (tickShutdown c₁) :=
    hkept.trans (tickShutdown_holding (hkept.eg ▸ heg))
  have hrecv := hshut.stage (tickRecv_holding (hshut.eg ▸ heg))
  generalize tickRecv (tickShutdown c₁) = r at hrecv ⊢
  rcases r with ⟨_ | _, c₂⟩
  · exact hrecv.2 rfl
  have htimer := Holding.stage (hrecv.1 rfl) (tickTimer_holding c₂)
  dsimp only
  generalize tickTimer c₂ = r at htimer ⊢
  rcases r with ⟨_ | _, c₃⟩
  · exact htimer.2 rfl
  have hpump := (htimer.1 rfl).trans (tcpPump_holding c₃)
  dsimp only at hpump ⊢
  split
  · exact hpump.free .closed
  · exact hpump.leaving

/-! ### Input -/

theorem lease_tcpConsumeAck (now ack : Word) (f : Flow) :
    (tcpConsumeAck now ack f).lease = f.lease := by
  rw [tcpConsumeAck]
  split_ifs
  · rfl
  · rw [tcpFinAcked]
    split <;> rfl
  · rfl

theorem lease_tcpTakeAck (now : Word) (g : Segment) (f : Flow) :
    (tcpTakeAck now g f).lease = f.lease := by
  have hack := lease_tcpConsumeAck now g.ack { f with sndWnd := g.wnd }
  rw [tcpTakeAck]
  split
  · exact (lease_tcpTimers _ _).trans hack
  · exact hack

theorem lease_tcpEstablish (f : Flow) : (tcpEstablish f).lease = f.lease := by
  rw [tcpEstablish]
  split <;> rfl

theorem lease_tcpDeliver (now : Word) (g : Segment) (f : Flow) :
    (tcpDeliver now g f).lease = f.lease := by
  have hdata : (tcpTakeData g f).lease = f.lease := by
    rw [tcpTakeData]
    split <;> rfl
  have hrepeat (f : Flow) : (tcpRepeatFin now g f).lease = f.lease := by
    rw [tcpRepeatFin]
    split <;> rfl
  have hfin (f : Flow) : (tcpTakeFin now g f).lease = f.lease := by
    rw [tcpTakeFin]
    dsimp only
    split
    · split <;> rfl
    · rfl
  rw [tcpDeliver, hfin, hrepeat, hdata]

theorem tcpInputFlow_leaving (heg : c.core.eg.Logs) (g : Segment) :
    Leaving c (tcpInputFlow g c) := by
  have hseen : Holding c { c with f := { c.f with lastMs := c.core.nowMs } } := .of_eq rfl rfl rfl
  rw [tcpInputFlow]
  dsimp only
  split
  · exact hseen.free .reset
  split
  · split
    · split
      · exact (hseen.trans (tcpOut_holding _ _ _ _)).leaving
      · exact hseen.leaving
    · exact hseen.then (tcpAbort_leaving _)
  split
  · exact hseen.leaving
  split
  · have hframe := tcpReject_egress c.f.dstIp g g.payload.length c.core
    have hrejected : Holding c ⟨tcpReject c.f.dstIp g g.payload.length c.core,
        { c.f with lastMs := c.core.nowMs }⟩ := .of_eq hframe.1 hframe.2 rfl
    exact hrejected.leaving
  split
  · have howed : Holding c { c with f := { c.f with lastMs := c.core.nowMs, needAck := true } } :=
      .of_eq rfl rfl rfl
    exact (howed.trans (tcpOut_holding _ _ _ _)).leaving
  have hack := lease_tcpTakeAck c.core.nowMs g { c.f with lastMs := c.core.nowMs }
  split
  · have hwaiting : Holding c ⟨c.core, tcpTakeAck c.core.nowMs g
        { c.f with lastMs := c.core.nowMs }⟩ := .of_eq rfl rfl hack
    exact hwaiting.leaving
  · have hdelivered : Holding c ⟨c.core, tcpDeliver c.core.nowMs g
        (tcpEstablish (tcpTakeAck c.core.nowMs g { c.f with lastMs := c.core.nowMs }))⟩ :=
      .of_eq rfl rfl (((lease_tcpDeliver _ _ _).trans (lease_tcpEstablish _)).trans hack)
    exact hdelivered.then (netTcpTick_leaving heg)

/-! ### UDP -/

theorem udpSend_leaving (heg : c.core.eg.Logs) (payload : List Byte) :
    Leaving c (udpSend payload c) := by
  have hseen : Holding c { c with f := { c.f with lastMs := c.core.nowMs } } := .of_eq rfl rfl rfl
  obtain hfun | ⟨send, hfun⟩ := heg.send
  · rw [udpSend]
    dsimp only
    rw [hfun]
    exact hseen.leaving
  · rw [udpSend]
    dsimp only
    rw [hfun]
    dsimp only [loggedSend]
    have hcall : Holding c ⟨{ c.core with
        ctx := ((send c.f.handle payload c.core.ctx.1).2,
          .send c.f.handle payload :: c.core.ctx.2) }, { c.f with lastMs := c.core.nowMs }⟩ :=
      holding_call (.send c.f.handle payload) rfl rfl rfl rfl
    split
    · exact hcall.free .udp
    · exact hcall.leaving

theorem udpPollLoop_leaving (recv : Int → Nat → ε → Recv × ε) (n : Nat)
    (c : Conn (ε × List Call)) :
    Leaving c (udpPollLoop (fun handle cap x => loggedRecv x recv handle cap) n c) := by
  induction n generalizing c with
  | zero => exact (Holding.refl c).leaving
  | succ n ih =>
    rw [udpPollLoop]
    dsimp only [loggedRecv]
    rcases recv c.f.handle (netMtu - ipv4HdrLen - 8) c.core.ctx.1 with ⟨r, x⟩
    have hcall : Holding c { c with core := { c.core with
        ctx := (x, .recv c.f.handle r :: c.core.ctx.2) } } :=
      holding_call (.recv c.f.handle r) rfl rfl rfl rfl
    cases r with
    | wouldBlock => exact hcall.leaving
    | eof => exact hcall.free .udp
    | error => exact hcall.free .udp
    | bytes data =>
      dsimp only
      split
      · exact hcall.leaving
      case h_2 core hemit =>
        have hsent : Holding c ⟨core, { c.f with lastMs := c.core.nowMs }⟩ :=
          hcall.trans (.of_eq (netEmit_egress hemit).1 (netEmit_egress hemit).2 rfl)
        exact hsent.then (ih _)

theorem udpPoll_leaving (heg : c.core.eg.Logs) : Leaving c (udpPoll c) := by
  obtain hfun | ⟨recv, hfun⟩ := heg.recv
  · rw [udpPoll, hfun]
    exact (Holding.refl c).leaving
  · rw [udpPoll, hfun]
    dsimp only
    split
    · exact (Holding.refl c).leaving
    · exact udpPollLoop_leaving recv 8 c

theorem netFlowFree_used {why : Release} (c : Conn ε) : (netFlowFree why c).f.used = false := by
  rw [netFlowFree]
  split
  case isTrue h => simpa using h
  case isFalse => rfl

theorem udpTick_leaving (heg : c.core.eg.Logs) : Leaving c (udpTick c) := by
  rw [udpTick]
  obtain hkept | ⟨why, c₁, hkept, heq⟩ := udpPoll_leaving heg
  · split
    · exact hkept.free .udp
    · exact hkept.leaving
  · rw [heq, if_neg fun h => Bool.false_ne_true ((netFlowFree_used c₁).symm.trans h.1)]
    exact hkept.free why

end Logged

end S5LBox.Net
