import S5LBox.Net.Moves

/-!
# What a step does to the TCP flows

A step of the stack takes each of its TCP flows along a chain of moves, behind a segment when one
has arrived for it. A flow it releases has got to its end the same way, and a flow that is new has
started with a SYN. This is the one place that looks into `net_input` and `net_tick`; what holds
of every flow is proved from here.

## Main definitions

* `Advances`: how a flow gets on in a step.
* `StepSpec`: what a step does to the flows of the stack.

## Main results

* `netStep_spec`: every step is such a step.
* `Reached.keeps`: an invariant of flows holds in every state of a run.
-/

namespace S5LBox.Net

open Relation Runs

variable {ε : Type} {ns ns' ns'' : NetStack ε} {f f' : Flow}

/-- A flow that carries TCP. -/
def TcpLive (f : Flow) : Prop := f.used = true ∧ f.proto = netProtoTcp

/-- The segment that an action hands to one of the flows. -/
def Op.segment (op : Op ε) (ns : NetStack ε) : Option (Fin netMaxFlows × Segment) :=
  let of := fun pkt => match ipv4Of ns.core.cfg pkt with
    | some (src, dst, 6, l4) =>
      match tcpSegmentOf src dst l4 with
      | some g => (netFlowFind netProtoTcp g.gport dst g.dport ns).map fun i => (i, g)
      | none => none
    | _ => none
  match op with
  | .input pkt => of pkt
  | .inputAt pkt _ => of pkt
  | _ => none

/-- A flow gets on from one state to another, the segments that may arrive being given. -/
inductive Advances (arrives : Segment → Prop) (f f' : Flow) : Prop
  /-- It makes moves. -/
  | moves (h : Moves f f')
  /-- It still waits for the acknowledgement of its SYN. -/
  | waits (now : Word) (g : Segment) (hg : arrives g) (hacc : Acceptable f g)
      (hwait : Unfinished (acked now g f)) (heq : f' = acked now g f)
  /-- It takes in what a segment brings, and makes moves. -/
  | delivers (now : Word) (g : Segment) (hg : arrives g) (hacc : Acceptable f g)
      (hgo : ¬Unfinished (acked now g f)) (h : Moves (delivered now g f) f')

/-- A flow that a SYN has opened, and the moves it has made since. -/
def Opened (f : Flow) : Prop :=
  ∃ (ε : Type) (core core' : NetCore ε) (g : Segment) (gport dport : Port) (dstIp : Word),
    Moves (tcpSynFlow core g (freshFlow core' netProtoTcp gport dstIp dport)) f

theorem Opened.not_closed (h : Opened f) : f.state ≠ .closed := by
  obtain ⟨ε, core, core', g, gport, dport, dstIp, hmoves⟩ := h
  have hstate : TcpState.synRcvd ≠ .closed := nofun
  exact hmoves.keeps (fun _ _ hmove => hmove.not_closed) hstate

/-- What a step does to the flows, the segment that arrives at each being given. A flow that has
been closed is not left in its slot. -/
structure StepSpec (arrives : Fin netMaxFlows → Segment → Prop) (ns ns' : NetStack ε) : Prop where
  live : ∀ i, TcpLive (ns'.flow i) →
    TcpLive (ns.flow i) ∧ Advances (arrives i) (ns.flow i) (ns'.flow i) ∨
      (ns.flow i).used = false ∧ Opened (ns'.flow i)
  closed : ∀ i, TcpLive (ns'.flow i) → (ns'.flow i).state = .closed →
    (ns.flow i).state = .closed
  gone : ∀ why f, (why, f) ∈ ns'.core.released → TcpLive f →
    (why, f) ∈ ns.core.released ∨ EndsAs why f ∧
      ((∃ i, TcpLive (ns.flow i) ∧ Advances (arrives i) (ns.flow i) f) ∨ Opened f)

/-! ### Steps that leave TCP aside -/

/-- A step that changes no TCP flow. -/
structure Aside (ns ns' : NetStack ε) : Prop where
  live : ∀ i, TcpLive (ns'.flow i) → ns'.flow i = ns.flow i
  gone : ∀ why f, (why, f) ∈ ns'.core.released → TcpLive f → (why, f) ∈ ns.core.released

theorem Aside.refl (ns : NetStack ε) : Aside ns ns := ⟨fun _ _ => rfl, fun _ _ h _ => h⟩

theorem Aside.trans (h : Aside ns ns') (h' : Aside ns' ns'') : Aside ns ns'' where
  live i hlive := by
    have heq := h'.live i hlive
    rw [heq] at hlive ⊢
    exact h.live i hlive
  gone why f hmem hlive := h.gone why f (h'.gone why f hmem hlive) hlive

theorem Aside.of_eq (hflow : ns'.flow = ns.flow) (hrel : ns'.core.released = ns.core.released) :
    Aside ns ns' :=
  ⟨fun i _ => congrFun hflow i, fun _ _ h _ => hrel ▸ h⟩

theorem Aside.of_core {core : NetCore ε} (hrel : core.released = ns.core.released) :
    Aside ns { ns with core := core } := .of_eq rfl hrel

variable {k : Conn ε → Conn ε} {i : Fin netMaxFlows}

/-- The work on a slot that carries no TCP behind it and releases none. -/
theorem aside_onFlow {i : Fin netMaxFlows} {k : Conn ε → Conn ε}
    (hlive : ¬TcpLive (k ⟨ns.core, ns.flow i⟩).f)
    (hgone : ∀ why f, (why, f) ∈ (k ⟨ns.core, ns.flow i⟩).core.released → TcpLive f →
      (why, f) ∈ ns.core.released) : Aside ns (ns.onFlow i k) where
  live j hj := by
    rw [NetStack.onFlow] at hj ⊢
    dsimp only at hj ⊢
    split at hj
    · exact absurd hj hlive
    case isFalse hne => rw [if_neg hne]
  gone := hgone

/-! ### Resolver, ICMP and UDP -/

theorem dnsReply_released (gport : Port) (q : List Byte) (qend : Nat) (rcode : BitVec 16)
    (a : Option Word) (core : NetCore ε) :
    (dnsReply gport q qend rcode a core).released = core.released := by
  unfold dnsReply
  split
  · rfl
  · exact netEmit'_released _ _ _ _ _

theorem dnsFinish_released (gport : Port) (q : List Byte) (r : Res) (core : NetCore ε) :
    (dnsFinish gport q r core).released = core.released := by
  cases r <;> exact dnsReply_released _ _ _ _ _ _

theorem netResolve_released (name : List Byte) (core : NetCore ε) :
    (netResolve name core).2.released = core.released := by
  rw [netResolve]
  split <;> rfl

theorem icmpInput_released (src dst : Word) (p : List Byte) (core : NetCore ε) :
    (icmpInput src dst p core).released = core.released := by
  rw [icmpInput]
  split_ifs
  · rfl
  · rfl
  · rfl
  · rfl
  · exact netEmit'_released _ _ _ _ _
  · split <;> rfl

theorem aside_dnsTickSlot (ns : NetStack ε) (i : Fin netDnsPending) :
    Aside ns (dnsTickSlot ns i) := by
  rw [dnsTickSlot]
  have hres := netResolve_released (ns.dns i).name ns.core
  split
  · exact .refl ns
  dsimp only
  generalize netResolve (ns.dns i).name ns.core = r at hres ⊢
  obtain ⟨result, core⟩ := r
  split
  · exact .of_eq rfl hres
  · exact .of_eq rfl ((dnsFinish_released _ _ _ _).trans hres)

theorem aside_dnsTick (ns : NetStack ε) : Aside ns (dnsTick ns) := by
  rw [dnsTick]
  generalize List.finRange netDnsPending = slots
  induction slots generalizing ns with
  | nil => exact .refl ns
  | cons i slots ih => exact (aside_dnsTickSlot ns i).trans (ih _)

theorem aside_dnsInput (gport : Port) (p : List Byte) (ns : NetStack ε) :
    Aside ns (dnsInput gport p ns) := by
  have hreply : ∀ qend rcode, Aside ns { ns with
      core := dnsReply gport p qend rcode none ns.core } := fun _ _ =>
    .of_core (dnsReply_released _ _ _ _ _ _)
  rw [dnsInput]
  dsimp only
  split
  · exact .refl ns
  split
  · exact .refl ns
  split
  · exact hreply _ _
  split
  · exact hreply _ _
  case h_2 nl name _ =>
    have hres := netResolve_released name ns.core
    split
    · exact hreply _ _
    split
    · exact hreply _ _
    split
    · exact hreply _ _
    split
    · exact hreply _ _
    generalize netResolve name ns.core = r at hres ⊢
    obtain ⟨result, core⟩ := r
    cases result with
    | pending =>
      dsimp only
      rw [dnsDefer]
      split
      · exact .of_eq rfl hres
      split
      · exact .of_eq rfl hres
      split
      · exact .of_eq rfl hres
      · exact .of_eq rfl hres
    | _ => exact .of_eq rfl ((dnsFinish_released _ _ _ _).trans hres)

/-- A connection that carries no TCP, along a function that releases none. -/
def ConnAside (c c' : Conn ε) : Prop :=
  c'.f.proto ≠ netProtoTcp ∧ ∀ why f, (why, f) ∈ c'.core.released → TcpLive f →
    (why, f) ∈ c.core.released

theorem ConnAside.aside (h : ConnAside ⟨ns.core, ns.flow i⟩ (k ⟨ns.core, ns.flow i⟩)) :
    Aside ns (ns.onFlow i k) :=
  aside_onFlow (fun hlive => h.1 hlive.2) h.2

variable {c : Conn ε}

theorem connAside_netFlowFree {why : Release} (h : c.f.proto ≠ netProtoTcp) :
    ConnAside c (netFlowFree why c) := by
  rw [netFlowFree]
  split
  · exact ⟨h, fun _ _ hmem _ => hmem⟩
  · refine ⟨by rintro ⟨⟩, fun why' f hmem hlive => ?_⟩
    rcases List.mem_cons.mp hmem with heq | hmem
    · cases heq
      exact absurd hlive.2 h
    · exact hmem

theorem connAside_udpSend (payload : List Byte) (h : c.f.proto ≠ netProtoTcp) :
    ConnAside c (udpSend payload c) := by
  have hstay : ∀ c' : Conn ε, c'.core.released = c.core.released → c'.f.proto = c.f.proto →
      ConnAside c c' := fun c' hrel hproto => ⟨hproto ▸ h, fun _ _ hmem _ => hrel ▸ hmem⟩
  rw [udpSend]
  dsimp only
  split
  · exact hstay _ rfl rfl
  · split_ifs
    · exact connAside_netFlowFree (c := { core := _, f := { c.f with lastMs := c.core.nowMs } }) h
    · exact hstay _ rfl rfl

theorem connAside_udpOpen (payload : List Byte) (h : c.f.proto ≠ netProtoTcp) :
    ConnAside c (udpOpen payload c) := by
  have hopen : (egressOpen c).f.proto = c.f.proto ∧
      (egressOpen c).core.released = c.core.released := by
    rw [egressOpen]
    split <;> exact ⟨rfl, rfl⟩
  rw [udpOpen]
  rw [ConnAside, ← hopen.2]
  split
  · exact connAside_netFlowFree (hopen.1 ▸ h)
  · exact connAside_udpSend payload (hopen.1 ▸ h)

theorem connAside_udpPollLoop (recv : Int → Nat → ε → Recv × ε) (n : Nat)
    (h : c.f.proto ≠ netProtoTcp) : ConnAside c (udpPollLoop recv n c) := by
  induction n generalizing c with
  | zero => exact ⟨h, fun _ _ hmem _ => hmem⟩
  | succ n ih =>
    rw [udpPollLoop]
    rcases recv c.f.handle (netMtu - ipv4HdrLen - 8) c.core.ctx with ⟨r, ctx⟩
    have hfree : ConnAside c (netFlowFree .udp { c with core := { c.core with ctx := ctx } }) :=
      connAside_netFlowFree (c := { c with core := { c.core with ctx := ctx } }) h
    cases r with
    | wouldBlock => exact ⟨h, fun _ _ hmem _ => hmem⟩
    | eof => exact hfree
    | error => exact hfree
    | bytes data =>
      dsimp only
      split
      · exact ⟨h, fun _ _ hmem _ => hmem⟩
      case h_2 core hemit =>
        have hrel := netEmit_released hemit
        have hnext := ih (c := ⟨core, { c.f with lastMs := c.core.nowMs }⟩) h
        exact ⟨hnext.1, fun why f hmem hlive => by simpa [hrel] using hnext.2 why f hmem hlive⟩

theorem connAside_udpTick (h : c.f.proto ≠ netProtoTcp) :
    ConnAside c (udpTick c) := by
  have hpoll : ConnAside c (udpPoll c) := by
    rw [udpPoll]
    split
    · split
      · exact ⟨h, fun _ _ hmem _ => hmem⟩
      · exact connAside_udpPollLoop _ 8 h
    · exact ⟨h, fun _ _ hmem _ => hmem⟩
  rw [udpTick]
  split
  · have hfree : ConnAside (udpPoll c) (netFlowFree .udp (udpPoll c)) :=
      connAside_netFlowFree hpoll.1
    exact ⟨hfree.1, fun why f hmem hlive => hpoll.2 why f (hfree.2 why f hmem hlive) hlive⟩
  · exact hpoll

/-! ### The flow table -/

theorem netFlowFind_hasTuple {proto : Nat} {gport dport : Port} {dstIp : Word}
    (h : netFlowFind proto gport dstIp dport ns = some i) :
    (ns.flow i).used = true ∧ (ns.flow i).proto = proto := by
  have htuple : (ns.flow i).hasTuple proto gport dstIp dport = true :=
    List.find?_some (p := fun i => (ns.flow i).hasTuple proto gport dstIp dport) h
  simp only [Flow.hasTuple, Bool.and_eq_true, beq_iff_eq] at htuple
  exact ⟨htuple.1.1.1.1, htuple.1.1.1.2⟩

theorem netFlowAlloc_cases {proto : Nat} {gport dport : Port} {dstIp : Word}
    (h : netFlowAlloc proto gport dstIp dport ns = some (i, ns')) :
    (ns.flow i).used = false ∧ ns' = ns.onFlow i fun c =>
      ⟨{ c.core with flowsOpen := c.core.flowsOpen + 1 },
        freshFlow c.core proto gport dstIp dport⟩ := by
  rw [netFlowAlloc] at h
  split at h
  case h_1 j hfind =>
    cases h
    have hunused := List.find?_some (p := fun i => !(ns.flow i).used) hfind
    exact ⟨by simpa using hunused, rfl⟩
  case h_2 => cases h

/-- Work on a slot behind work on the same slot. -/
theorem onFlow_onFlow (i : Fin netMaxFlows) (k l : Conn ε → Conn ε) (ns : NetStack ε) :
    (ns.onFlow i k).onFlow i l = ns.onFlow i fun c => l (k c) := by
  have hslot : (ns.onFlow i k).flow i = (k ⟨ns.core, ns.flow i⟩).f := if_pos rfl
  rw [NetStack.onFlow, hslot]
  unfold NetStack.onFlow
  dsimp only
  congr 1
  funext j
  split <;> rfl

theorem aside_udpInput (src dst : Word) (p : List Byte) (ns : NetStack ε) :
    Aside ns (udpInput src dst p ns) := by
  have hudp : netProtoUdp ≠ netProtoTcp := by decide
  rw [udpInput]
  dsimp only
  split
  · exact .refl ns
  split
  · exact .refl ns
  split
  · exact .refl ns
  split
  · exact aside_dnsInput _ _ ns
  split
  case h_1 i hfind =>
    have hproto := (netFlowFind_hasTuple hfind).2
    exact (connAside_udpSend (c := ⟨ns.core, ns.flow i⟩) _ (hproto ▸ hudp)).aside
  split
  case h_1 i ns' halloc =>
    obtain ⟨-, rfl⟩ := netFlowAlloc_cases halloc
    rw [onFlow_onFlow]
    apply ConnAside.aside
    exact connAside_udpOpen (c := ⟨{ ns.core with flowsOpen := ns.core.flowsOpen + 1 },
      freshFlow ns.core netProtoUdp (netRd16 p 0) dst (netRd16 p 2)⟩) _ hudp
  case h_2 => exact .refl ns

/-! ### TCP -/

variable {arrives : Fin netMaxFlows → Segment → Prop}

/-- What a function does to a connection, seen from the stack. -/
theorem StepSpec.onFlow {arrives : Fin netMaxFlows → Segment → Prop} {i : Fin netMaxFlows}
    {k : Conn ε → Conn ε}
    (hlive : TcpLive (k ⟨ns.core, ns.flow i⟩).f →
      TcpLive (ns.flow i) ∧ Advances (arrives i) (ns.flow i) (k ⟨ns.core, ns.flow i⟩).f ∨
        (ns.flow i).used = false ∧ Opened (k ⟨ns.core, ns.flow i⟩).f)
    (hclosed : TcpLive (k ⟨ns.core, ns.flow i⟩).f → (k ⟨ns.core, ns.flow i⟩).f.state = .closed →
      (ns.flow i).state = .closed)
    (hgone : ∀ why f, (why, f) ∈ (k ⟨ns.core, ns.flow i⟩).core.released → TcpLive f →
      (why, f) ∈ ns.core.released ∨ EndsAs why f ∧
        (TcpLive (ns.flow i) ∧ Advances (arrives i) (ns.flow i) f ∨ Opened f)) :
    StepSpec arrives ns (ns.onFlow i k) where
  live j hj := by
    rw [NetStack.onFlow] at hj ⊢
    dsimp only at hj ⊢
    split
    case isTrue heq =>
      subst heq
      rw [if_pos rfl] at hj
      exact hlive hj
    case isFalse hne =>
      rw [if_neg hne] at hj
      exact .inl ⟨hj, .moves .refl⟩
  closed j hj hs := by
    rw [NetStack.onFlow] at hj hs
    dsimp only at hj hs
    split at hj
    case isTrue heq =>
      subst heq
      rw [if_pos rfl] at hs
      exact hclosed hj hs
    case isFalse hne =>
      rw [if_neg hne] at hs
      exact hs
  gone why f hmem hf := by
    rcases hgone why f hmem hf with hold | ⟨hends, hnew⟩
    · exact .inl hold
    · refine .inr ⟨hends, ?_⟩
      rcases hnew with hadv | hopen
      · exact .inl ⟨i, hadv⟩
      · exact .inr hopen

/-- A step that leaves TCP aside is one. -/
theorem Aside.stepSpec (h : Aside ns ns') :
    StepSpec arrives ns ns' where
  live i hlive := by
    have heq := h.live i hlive
    rw [heq] at hlive ⊢
    exact .inl ⟨hlive, .moves .refl⟩
  closed i hlive hs := h.live i hlive ▸ hs
  gone why f hmem hlive := .inl (h.gone why f hmem hlive)

/-- A flow that was not closed is not closed by moves alone. -/
theorem Ticked.closed {c c' : Conn ε} (h : Ticked c c') (hlive : TcpLive c'.f)
    (hs : c'.f.state = .closed) : c.f.state = .closed := by
  obtain ⟨-, hmoves⟩ | ⟨-, f, -, -, hblank, -⟩ := h
  · by_contra hopen
    exact hmoves.keeps (fun _ _ hmove => hmove.not_closed) hopen hs
  · rw [hblank] at hlive
    exact absurd hlive.1 Bool.false_ne_true

/-- A flow taken along a chain of moves, and released or not, seen from the stack. -/
theorem Ticked.stepSpec {arrives : Fin netMaxFlows → Segment → Prop} {i : Fin netMaxFlows}
    {k : Conn ε → Conn ε} {f₀ : Flow} (htcp : TcpLive (ns.flow i))
    (hadv : ∀ f, Moves f₀ f → Advances (arrives i) (ns.flow i) f)
    (hclosed : TcpLive (k ⟨ns.core, ns.flow i⟩).f → (k ⟨ns.core, ns.flow i⟩).f.state = .closed →
      (ns.flow i).state = .closed)
    (h : Ticked ⟨ns.core, f₀⟩ (k ⟨ns.core, ns.flow i⟩)) : StepSpec arrives ns (ns.onFlow i k) := by
  obtain ⟨hrel, hmoves⟩ | ⟨why, f, hmoves, hends, hblank, hrel⟩ := h
  · refine .onFlow (fun _ => .inl ⟨htcp, hadv _ hmoves⟩) hclosed fun why f hmem _ => .inl ?_
    rwa [hrel] at hmem
  · refine .onFlow (fun hlive => ?_) hclosed fun why' f' hmem _ => ?_
    · rw [hblank] at hlive
      exact absurd hlive.1 nofun
    · rw [hrel] at hmem
      rcases List.mem_cons.mp hmem with heq | hmem
      · cases heq
        exact .inr ⟨hends, .inl ⟨htcp, hadv f hmoves⟩⟩
      · exact .inl hmem

theorem released_withIss (core : NetCore ε) (iss : Word) :
    ({ core with issWalk := iss } : NetCore ε).released = core.released := rfl

/-- Opening the host side leaves the flow going. -/
theorem going_egressOpen {core core' : NetCore ε} (hrel : core'.released = core.released)
    (f : Flow) : Going (⟨core, f⟩ : Conn ε) (egressOpen ⟨core', f⟩) := by
  rw [egressOpen]
  split
  · exact ⟨hrel, (Move.quiet f _ f.lastMs f.sndWnd f.ssthresh f.txShutdown f.needAck f.rtoOn
      f.rtoAt f.rtx f.closeAt).moves⟩
  · exact ⟨hrel, (Move.quiet f (-1) f.lastMs f.sndWnd f.ssthresh f.txShutdown f.needAck f.rtoOn
      f.rtoAt f.rtx f.closeAt).moves⟩

/-- What `tcp_syn` does once it knows what the egress says. -/
theorem ticked_opened (hused : c.f.used) :
    Ticked c (if c.f.handle < 0 then
        netFlowFree .reset (tcpOut (tcpRst ||| tcpAck) c.f.sndNxt [] c).2
      else netTcpTick { c with f := { c.f with closeAt := c.core.nowMs + connectMs } }) := by
  split
  · have hgo := going_tcpOut_bare bare_rstAck c.f.sndNxt c
    exact hgo.then (netFlowFree_ticked (hgo.2.same_tuple.1.trans hused) trivial)
  · generalize c.core.nowMs + connectMs = deadline
    have hclose := (Move.quiet c.f c.f.handle c.f.lastMs c.f.sndWnd c.f.ssthresh c.f.txShutdown
      c.f.needAck c.f.rtoOn c.f.rtoAt c.f.rtx deadline).going
    exact hclose.then (netTcpTick_ticked hused)

/-- A SYN opens the flow in a fresh slot, and the flow goes on from there. -/
theorem tcpSynAt_ticked (g : Segment) (hused : c.f.used) :
    ∃ core : NetCore ε, Ticked ⟨c.core, tcpSynFlow core g c.f⟩ (tcpSynAt g c) := by
  refine ⟨c.core.walkIss, ?_⟩
  rw [tcpSynAt]
  have hrel : c.core.walkIss.released = c.core.released := released_withIss _ _
  have hused' : (tcpSynFlow c.core.walkIss g c.f).used = true := by
    rw [tcpSynFlow]
    exact hused
  have hopen := going_egressOpen hrel (tcpSynFlow c.core.walkIss g c.f)
  exact hopen.then (ticked_opened (hopen.2.same_tuple.1.trans hused'))

theorem stepSpec_netTcpInput {src dst : Word} {l4 : List Byte} {op : Op ε}
    (hseg : op.segment ns = match tcpSegmentOf src dst l4 with
      | some g => (netFlowFind netProtoTcp g.gport dst g.dport ns).map fun i => (i, g)
      | none => none) :
    StepSpec (fun i g => op.segment ns = some (i, g)) ns (netTcpInput src dst l4 ns) := by
  rw [netTcpInput]
  split
  · exact (Aside.refl ns).stepSpec
  case h_2 g hg =>
    rw [hg] at hseg
    dsimp only at hseg
    split
    case h_1 i hfind =>
      rw [hfind] at hseg
      have htcp : TcpLive (ns.flow i) := netFlowFind_hasTuple hfind
      obtain h | ⟨hacc, ⟨hwait, heq⟩ | ⟨hgo, h, hopen⟩⟩ :=
        tcpInputFlow_arrives (c := ⟨ns.core, ns.flow i⟩) g htcp.1
      · exact h.stepSpec htcp (fun f hf => .moves hf) h.closed
      · refine .onFlow (fun _ => .inl ⟨htcp, ?_⟩) (fun _ hs => ?_) fun why f hmem _ => .inl ?_
        · rw [heq]
          exact .waits ns.core.nowMs g hseg hacc hwait rfl
        · rw [heq] at hs
          exact nomatch hwait.1.symm.trans hs
        · rwa [heq] at hmem
      · exact h.stepSpec htcp (fun f hf => .delivers ns.core.nowMs g hseg hacc hgo hf)
          fun hlive hs => absurd hs (hopen hlive.1)
    case h_2 =>
      split
      · split
        case h_1 i ns₁ halloc =>
          obtain ⟨hunused, rfl⟩ := netFlowAlloc_cases halloc
          rw [onFlow_onFlow]
          obtain ⟨core, h⟩ := tcpSynAt_ticked g
            (c := ⟨{ ns.core with flowsOpen := ns.core.flowsOpen + 1 },
              freshFlow ns.core netProtoTcp g.gport dst g.dport⟩) rfl
          have hopened : ∀ f, Moves (tcpSynFlow core g
              (freshFlow ns.core netProtoTcp g.gport dst g.dport)) f → Opened f :=
            fun f hf => ⟨ε, core, ns.core, g, g.gport, g.dport, dst, hf⟩
          obtain ⟨hrel, hmoves⟩ | ⟨why, f, hmoves, hends, hblank, hrel⟩ := h
          · refine .onFlow (fun _ => .inr ⟨hunused, hopened _ hmoves⟩)
              (fun _ hs => absurd hs (hopened _ hmoves).not_closed) fun why f hmem _ => .inl ?_
            rwa [hrel] at hmem
          · refine .onFlow (fun hlive => ?_) (fun hlive => ?_) fun why' f' hmem _ => ?_
            · rw [hblank] at hlive
              exact absurd hlive.1 nofun
            · rw [hblank] at hlive
              exact absurd hlive.1 nofun
            · rw [hrel] at hmem
              rcases List.mem_cons.mp hmem with heq | hmem
              · cases heq
                exact .inr ⟨hends, .inr (hopened _ hmoves)⟩
              · exact .inl hmem
        case h_2 => exact (Aside.of_core (tcpReject_released _ _ _ _)).stepSpec
      · exact (Aside.of_core (tcpReject_released _ _ _ _)).stepSpec

/-- A datagram, at the time it is taken in. -/
theorem stepSpec_netInput {pkt : List Byte} {op : Op ε}
    (hop : op.segment ns = (Op.input pkt).segment ns) :
    StepSpec (fun i g => op.segment ns = some (i, g)) ns (netInput pkt ns) := by
  rw [netInput]
  split
  · exact (Aside.refl ns).stepSpec
  case h_2 src dst proto l4 hip =>
    split
    · exact (Aside.of_core (icmpInput_released _ _ _ _)).stepSpec
    split
    · exact (aside_udpInput _ _ _ ns).stepSpec
    split
    case isTrue htcp =>
      subst htcp
      apply stepSpec_netTcpInput
      rw [hop]
      dsimp only [Op.segment]
      rw [hip]
      rfl
    case isFalse => exact (Aside.refl ns).stepSpec

/-! ### The tick -/

/-- A step in which no segment arrives: every flow makes moves. -/
structure Rolls (ns ns' : NetStack ε) : Prop where
  live : ∀ i, TcpLive (ns'.flow i) → TcpLive (ns.flow i) ∧ Moves (ns.flow i) (ns'.flow i)
  gone : ∀ why f, (why, f) ∈ ns'.core.released → TcpLive f →
    (why, f) ∈ ns.core.released ∨
      EndsAs why f ∧ ∃ i, TcpLive (ns.flow i) ∧ Moves (ns.flow i) f

theorem Aside.rolls (h : Aside ns ns') : Rolls ns ns' where
  live i hlive := by
    have heq := h.live i hlive
    rw [heq] at hlive ⊢
    exact ⟨hlive, .refl⟩
  gone why f hmem hlive := .inl (h.gone why f hmem hlive)

theorem Rolls.trans (h : Rolls ns ns') (h' : Rolls ns' ns'') : Rolls ns ns'' where
  live i hlive := by
    obtain ⟨hlive', hmoves'⟩ := h'.live i hlive
    obtain ⟨hlive₀, hmoves⟩ := h.live i hlive'
    exact ⟨hlive₀, hmoves.trans hmoves'⟩
  gone why f hmem hlive := by
    rcases h'.gone why f hmem hlive with hold | ⟨hends, i, hlive', hmoves'⟩
    · exact h.gone why f hold hlive
    · obtain ⟨hlive₀, hmoves⟩ := h.live i hlive'
      exact .inr ⟨hends, i, hlive₀, hmoves.trans hmoves'⟩

theorem Rolls.stepSpec (h : Rolls ns ns') :
    StepSpec arrives ns ns' where
  live i hlive := by
    obtain ⟨hlive', hmoves⟩ := h.live i hlive
    exact .inl ⟨hlive', .moves hmoves⟩
  closed i hlive hs := by
    by_contra hopen
    exact (h.live i hlive).2.keeps (fun _ _ hmove => hmove.not_closed) hopen hs
  gone why f hmem hlive := by
    rcases h.gone why f hmem hlive with hold | ⟨hends, i, hlive', hmoves⟩
    · exact .inl hold
    · exact .inr ⟨hends, .inl ⟨i, hlive', .moves hmoves⟩⟩

theorem Moves.tcpLive (h : Moves f f') (hlive : TcpLive f') : TcpLive f :=
  ⟨h.same_tuple.1.symm.trans hlive.1, h.same_tuple.2.symm.trans hlive.2⟩

theorem Ticked.rolls (h : Ticked ⟨ns.core, ns.flow i⟩ (k ⟨ns.core, ns.flow i⟩)) :
    Rolls ns (ns.onFlow i k) := by
  refine ⟨fun j hj => ?_, fun why f hmem hlive => ?_⟩
  · rw [NetStack.onFlow] at hj ⊢
    dsimp only at hj ⊢
    split
    case isTrue heq =>
      subst heq
      rw [if_pos rfl] at hj
      obtain ⟨-, hmoves⟩ | ⟨-, f, -, -, hblank, -⟩ := h
      · exact ⟨hmoves.tcpLive hj, hmoves⟩
      · rw [hblank] at hj
        exact absurd hj.1 nofun
    case isFalse hne =>
      rw [if_neg hne] at hj
      exact ⟨hj, .refl⟩
  · obtain ⟨hrel, -⟩ | ⟨why', f', hmoves, hends, -, hrel⟩ := h
    · exact .inl (hrel ▸ hmem)
    · rcases List.mem_cons.mp (hrel ▸ hmem) with heq | hold
      · cases heq
        exact .inr ⟨hends, i, hmoves.tcpLive hlive, hmoves⟩
      · exact .inl hold

theorem rolls_netTickSlot (ns : NetStack ε) (i : Fin netMaxFlows) :
    Rolls ns (netTickSlot ns i) := by
  rw [netTickSlot]
  split
  · exact (Aside.refl ns).rolls
  split
  case isTrue hudp =>
    have hproto : (ns.flow i).proto ≠ netProtoTcp := by
      rw [hudp]
      decide
    exact (connAside_udpTick (c := ⟨ns.core, ns.flow i⟩) hproto).aside.rolls
  case isFalse hused _ =>
    exact (netTcpTick_ticked (c := ⟨ns.core, ns.flow i⟩) (by simpa using hused)).rolls

theorem rolls_netTick (now : Word) (ns : NetStack ε) : Rolls ns (netTick now ns) := by
  rw [netTick]
  split
  · exact (Aside.refl ns).rolls
  have hclock : Aside ns { ns with core := { ns.core with nowMs := now } } := .of_core rfl
  refine (hclock.trans (aside_dnsTick _)).rolls.trans ?_
  generalize dnsTick { ns with core := { ns.core with nowMs := now } } = ns₁
  generalize List.finRange netMaxFlows = slots
  induction slots generalizing ns₁ with
  | nil => exact (Aside.refl ns₁).rolls
  | cons i slots ih => exact (rolls_netTickSlot ns₁ i).trans (ih _)

/-- A segment is handed to a flow in use. -/
theorem Op.segment_live {op : Op ε} {g : Segment} (h : op.segment ns = some (i, g)) :
    TcpLive (ns.flow i) := by
  have hpkt : ∀ pkt, (Op.input pkt).segment ns = some (i, g) → TcpLive (ns.flow i) := by
    intro pkt hseg
    dsimp only [Op.segment] at hseg
    split at hseg
    · split at hseg
      · obtain ⟨j, hfind, hpair⟩ := Option.map_eq_some_iff.mp hseg
        cases hpair
        exact netFlowFind_hasTuple hfind
      · cases hseg
    · cases hseg
  cases op with
  | input pkt => exact hpkt pkt h
  | inputAt pkt now => exact hpkt pkt h
  | tick | output | host => cases h

/-! ### Every step -/

/-- Every action is a step of the flows. -/
theorem netStep_spec (op : Op ε) (ns : NetStack ε) :
    StepSpec (fun i g => op.segment ns = some (i, g)) ns (netStep op ns) := by
  cases op with
  | input pkt => exact stepSpec_netInput rfl
  | inputAt pkt now =>
    rw [netStep, netInputAt]
    split
    · exact stepSpec_netInput rfl
    · have hseg : (Op.inputAt pkt now).segment { ns with core := { ns.core with nowMs := now } } =
          (Op.input pkt).segment { ns with core := { ns.core with nowMs := now } } := rfl
      have hinput := stepSpec_netInput hseg
      exact ⟨hinput.live, hinput.closed, hinput.gone⟩
  | tick now => exact (rolls_netTick now ns).stepSpec
  | output cap =>
    have haside : Aside ns (netOutput cap ns).2 := by
      rw [netOutput]
      split
      · exact .refl ns
      · split
        · exact .refl ns
        · exact .of_core rfl
    exact haside.stepSpec
  | host ctx =>
    have haside : Aside ns (netStep (.host ctx) ns) := .of_eq rfl rfl
    exact haside.stepSpec

/-! ### Invariants of flows -/

/-- A property of flows that a run keeps as long as every segment that arrives meets the
condition `ok` at the flow it arrives at. -/
structure FlowInvariant (ok : Flow → Segment → Prop) (I : Flow → Prop) : Prop where
  opened : ∀ {ε : Type} (core core' : NetCore ε) (g : Segment) (gport dport : Port) (dstIp : Word),
    I (tcpSynFlow core g (freshFlow core' netProtoTcp gport dstIp dport))
  move : ∀ f f', Move f f' → I f → I f'
  settled : ∀ now g f, ok f g → Acceptable f g → I f → ¬Unfinished (acked now g f)
  deliver : ∀ now g f, ok f g → Acceptable f g → I f → I (delivered now g f)

/-- The segment that an action hands to a flow, if any, meets the condition there. -/
def Meets (ok : Flow → Segment → Prop) (ns : NetStack ε) (op : Op ε) : Prop :=
  ∀ i g, op.segment ns = some (i, g) → ok (ns.flow i) g

instance (ok : Flow → Segment → Prop) [∀ f g, Decidable (ok f g)] (ns : NetStack ε) (op : Op ε) :
    Decidable (Meets ok ns op) :=
  decidable_of_iff (∀ p ∈ op.segment ns, ok (ns.flow p.1) p.2)
    ⟨fun h i g hg => h (i, g) hg, fun h p hp => h p.1 p.2 hp⟩

/-- Every TCP flow of the stack has the property, and so has every released one at its end. -/
structure Holds (I : Flow → Prop) (ns : NetStack ε) : Prop where
  live : ∀ i, TcpLive (ns.flow i) → I (ns.flow i)
  gone : ∀ why f, (why, f) ∈ ns.core.released → TcpLive f → I f ∧ EndsAs why f

section Invariant

variable {ok : Flow → Segment → Prop} {I : Flow → Prop}

theorem FlowInvariant.of_opened (hI : FlowInvariant ok I) (h : Opened f) : I f := by
  obtain ⟨ε, core, core', g, gport, dport, dstIp, hmoves⟩ := h
  exact hmoves.keeps hI.move (hI.opened core core' g gport dport dstIp)

theorem FlowInvariant.advance (hI : FlowInvariant ok I) {arrives : Segment → Prop}
    (hok : ∀ g, arrives g → ok f g) (h : Advances arrives f f') (hf : I f) : I f' := by
  cases h with
  | moves h => exact h.keeps hI.move hf
  | waits now g hg hacc hwait _ => exact absurd hwait (hI.settled now g f (hok g hg) hacc hf)
  | delivers now g hg hacc _ h => exact h.keeps hI.move (hI.deliver now g f (hok g hg) hacc hf)

theorem FlowInvariant.step (hI : FlowInvariant ok I) {op : Op ε} (hok : Meets ok ns op)
    (h : Holds I ns) : Holds I (netStep op ns) where
  live i hlive := by
    rcases (netStep_spec op ns).live i hlive with ⟨htcp, hadv⟩ | ⟨-, hopen⟩
    · exact hI.advance (hok i) hadv (h.live i htcp)
    · exact hI.of_opened hopen
  gone why f hmem hlive := by
    rcases (netStep_spec op ns).gone why f hmem hlive with hold | ⟨hends, ⟨i, htcp, hadv⟩ | hopen⟩
    · exact h.gone why f hold hlive
    · exact ⟨hI.advance (hok i) hadv (h.live i htcp), hends⟩
    · exact ⟨hI.of_opened hopen, hends⟩

/-- An invariant holds of all flows in every state that a run reaches. -/
theorem FlowInvariant.reached (hI : FlowInvariant ok I) (h : Reached (Meets ok) ns) :
    Holds I ns := by
  obtain ⟨cfg, eg, ctx, run⟩ := h
  have hinit : Holds I (netInit cfg eg ctx) :=
    ⟨fun _ hlive => absurd hlive.1 Bool.false_ne_true, fun _ _ hmem => absurd hmem List.not_mem_nil⟩
  exact run.keeps (fun s op hok hs => hI.step hok hs) hinit

theorem Reached.meets_true {ok' : NetStack ε → Op ε → Prop} (h : Reached ok' ns) :
    Reached (Meets fun _ _ => True) ns := by
  obtain ⟨cfg, eg, ctx, run⟩ := h
  exact ⟨cfg, eg, ctx, run.mono fun _ _ _ _ _ _ => trivial⟩

/-- No flow in the table is closed. -/
def NoneClosed (ns : NetStack ε) : Prop := ∀ i, TcpLive (ns.flow i) → (ns.flow i).state ≠ .closed

theorem NoneClosed.init (cfg : Config) (eg : Egress ε) (ctx : ε) :
    NoneClosed (netInit cfg eg ctx) :=
  fun _ hlive => absurd hlive.1 Bool.false_ne_true

theorem NoneClosed.step (h : NoneClosed ns) (op : Op ε) : NoneClosed (netStep op ns) := by
  intro i hlive hclosed
  have hspec := netStep_spec op ns
  rcases hspec.live i hlive with ⟨hlive', -⟩ | ⟨-, hopen⟩
  · exact h i hlive' (hspec.closed i hlive hclosed)
  · exact hopen.not_closed hclosed

theorem Reached.noneClosed {ok' : NetStack ε → Op ε → Prop} (h : Reached ok' ns) :
    NoneClosed ns := by
  obtain ⟨cfg, eg, ctx, run⟩ := h
  exact run.keeps (fun _ op _ hs => hs.step op) (.init cfg eg ctx)

/-- Where a segment arrives the flow is not closed. -/
theorem Reached.meets_open (h : Reached (Meets ok) ns) :
    Reached (Meets fun f g => ok f g ∧ f.state ≠ .closed) ns := by
  obtain ⟨cfg, eg, ctx, run⟩ := h
  have hwithin := run.within (I := NoneClosed) (fun _ op _ hs => hs.step op) (.init cfg eg ctx)
  refine ⟨cfg, eg, ctx, hwithin.mono ?_⟩
  rintro s op ⟨hok, hopen⟩ i g hg
  exact ⟨hok i g hg, hopen i (op.segment_live hg)⟩

/-- The timer does not care whether the handshake is complete. -/
theorem moves_tcpEstablish_tcpTimers (now : Word) (f : Flow) :
    Moves (tcpEstablish f) (tcpEstablish (tcpTimers now f)) := by
  have htimers : ∀ (rtoOn : Bool) (rtoAt : Word) (rtx : Nat), Moves (tcpEstablish f)
      (tcpEstablish { f with rtoOn := rtoOn, rtoAt := rtoAt, rtx := rtx }) := by
    intro rtoOn rtoAt rtx
    have hmove := Move.quiet (tcpEstablish f) f.handle f.lastMs f.sndWnd f.ssthresh f.txShutdown
      f.needAck rtoOn rtoAt rtx f.closeAt
    rw [tcpEstablish] at hmove ⊢
    rw [tcpEstablish]
    dsimp only
    split at hmove
    case isTrue hs =>
      rw [if_pos hs, if_pos hs]
      exact hmove.moves
    case isFalse hs =>
      rw [if_neg hs, if_neg hs]
      exact hmove.moves
  rw [tcpTimers]
  split_ifs
  · exact .refl
  · exact htimers true _ f.rtx
  · exact htimers false f.rtoAt 0

/-- Behind the acknowledgement of a segment a flow is where `tcp_consume_ack` has left it. -/
theorem moves_acked (now : Word) (g : Segment) (f : Flow) :
    Moves (tcpEstablish (tcpConsumeAck now g.ack { f with lastMs := now, sndWnd := g.wnd }))
      (tcpEstablish (acked now g f)) := by
  rw [acked, tcpTakeAck]
  dsimp only
  split
  · exact moves_tcpEstablish_tcpTimers now _
  · exact .refl

theorem acked_cursors (now : Word) (g : Segment) (f : Flow) :
    (acked now g f).state =
        (tcpConsumeAck now g.ack { f with lastMs := now, sndWnd := g.wnd }).state ∧
      (acked now g f).sndUna =
        (tcpConsumeAck now g.ack { f with lastMs := now, sndWnd := g.wnd }).sndUna ∧
      (acked now g f).sndNxt =
        (tcpConsumeAck now g.ack { f with lastMs := now, sndWnd := g.wnd }).sndNxt := by
  rw [acked, tcpTakeAck]
  dsimp only
  split
  · rw [tcpTimers]
    split_ifs <;> exact ⟨rfl, rfl, rfl⟩
  · exact ⟨rfl, rfl, rfl⟩

/-- An invariant of flows from what an acknowledgement does and what a delivery does. -/
theorem FlowInvariant.of_parts
    (hopened : ∀ {ε : Type} (core core' : NetCore ε) (g : Segment) (gport dport : Port)
      (dstIp : Word), I (tcpSynFlow core g (freshFlow core' netProtoTcp gport dstIp dport)))
    (hmove : ∀ f f', Move f f' → I f → I f')
    (hok : ∀ f g lastMs sndWnd, ok f g → ok { f with lastMs := lastMs, sndWnd := sndWnd } g)
    (hack : ∀ now g f, ok f g → Acceptable f g → I f →
      ((tcpConsumeAck now g.ack f).state = .synRcvd →
        (tcpConsumeAck now g.ack f).sndNxt = (tcpConsumeAck now g.ack f).sndUna) ∧
      I (tcpEstablish (tcpConsumeAck now g.ack f)))
    (hdeliver : ∀ now g f, f.state ≠ .synRcvd → I f → I (tcpDeliver now g f)) :
    FlowInvariant ok I := by
  have hconsume : ∀ now g f, ok f g → Acceptable f g → I f →
      ¬Unfinished (acked now g f) ∧ I (tcpEstablish (acked now g f)) := by
    intro now g f hg hacc hf
    have hquiet := Move.quiet f f.handle now g.wnd f.ssthresh f.txShutdown f.needAck f.rtoOn f.rtoAt
      f.rtx f.closeAt
    obtain ⟨hsettled, hest⟩ := hack now g { f with lastMs := now, sndWnd := g.wnd }
      (hok f g now g.wnd hg) ⟨hacc.rst, hacc.syn, hacc.ack, hacc.past, hacc.handshake⟩
      (hmove _ _ hquiet hf)
    refine ⟨fun hwait => ?_, (moves_acked now g f).keeps hmove hest⟩
    obtain ⟨hstate, huna, hnxt⟩ := acked_cursors now g f
    obtain ⟨hsyn, hlt⟩ := hwait
    rw [huna, hnxt, hsettled (hstate ▸ hsyn)] at hlt
    simp [netSeqLt, SerialNumbers.Before] at hlt
  refine ⟨hopened, hmove, fun now g f hg hacc hf => (hconsume now g f hg hacc hf).1, ?_⟩
  intro now g f hg hacc hf
  refine hdeliver now g _ ?_ (hconsume now g f hg hacc hf).2
  rw [tcpEstablish]
  split
  · rintro ⟨⟩
  case isFalse h => exact h

end Invariant

end S5LBox.Net
