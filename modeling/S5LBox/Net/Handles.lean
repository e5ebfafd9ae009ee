import S5LBox.Net.EgressLog
import S5LBox.Net.Steps

/-!
# The flow table and its handles

Every flow in use has a handle of its own, which the egress has handed out for it and has not got
back yet, and no two flows in use are for the same connection of the guest.

## Main definitions

* `LifeOp`, `lifeStep`: the steps of a stack that logs its calls, resets among them.
* `HandlesOk`: the table and the log agree.

## Main results

* `handles_once`: they do in every run.
-/

namespace S5LBox.Net

open Leases Runs

variable {ε : Type}

/-! ### One slot -/

/-- The connection that a flow is for. -/
def Flow.tuple (f : Flow) : Nat × Port × Word × Port :=
  (f.proto, f.guestPort, f.dstIp, f.dstPort)

/-- The handle of a flow in use. -/
def Flow.leased (f : Flow) : Option Int := if f.used then some f.handle else none

theorem Flow.leased_of_used {f : Flow} (h : f.used = true) : f.leased = some f.handle := if_pos h

theorem Flow.leased_of_unused {f : Flow} (h : f.used = false) : f.leased = none :=
  if_neg (by rw [h]; exact Bool.false_ne_true)

variable {c c' : Conn (ε × List Call)} {t : Nat × Port × Word × Port}

/-- What a function does to a slot: a change of its handle, and a flow for one connection. -/
structure Turn (t : Nat × Port × Word × Port) (c c' : Conn (ε × List Call)) : Prop where
  eg : c'.core.eg = c.core.eg
  change : ∃ calls, c'.core.ctx.2 = calls ++ c.core.ctx.2 ∧
    Change c.f.leased c'.f.leased (leases calls)
  live : c'.f.used = true → c'.f.tuple = t ∧ 0 ≤ c'.f.handle

/-- Calls that all use one handle. -/
theorem onlyUses_leases {calls : List Call} {h : Int}
    (hcalls : ∀ call ∈ calls, call.event = some (.use h)) : OnlyUses h (leases calls) := by
  intro e he
  obtain ⟨call, hmem, hevent⟩ := List.mem_filterMap.mp he
  rw [hcalls call hmem] at hevent
  exact (Option.some.inj hevent).symm

theorem Flow.tuple_of_lease {f f' : Flow} (h : f'.lease = f.lease) : f'.tuple = f.tuple :=
  congrArg (fun t => (t.2.1, t.2.2.1, t.2.2.2.1, t.2.2.2.2.1)) h

theorem Flow.leased_of_lease {f f' : Flow} (h : f'.lease = f.lease) : f'.leased = f.leased := by
  rw [Flow.leased, Flow.leased, Flow.lease_used h, Flow.lease_handle h]

/-- The release of a flow closes the handle that it has. -/
theorem netFlowFree_closes (why : Release) (hlogs : c.core.eg.Logs)
    (hclose : c.core.eg.close.isSome) (hused : c.f.used = true) (hhandle : 0 ≤ c.f.handle) :
    (netFlowFree why c).core.eg = c.core.eg ∧ (netFlowFree why c).f.used = false ∧
      (netFlowFree why c).core.ctx.2 = .close c.f.handle :: c.core.ctx.2 := by
  obtain hfun | ⟨close, hfun⟩ := hlogs.close
  · rw [hfun] at hclose
    cases hclose
  · rw [netFlowFree, if_neg (by rw [hused]; exact Bool.false_ne_true), hfun]
    refine ⟨rfl, rfl, ?_⟩
    dsimp only
    rw [if_pos hhandle]
    rfl

/-- Without a handle there is nothing to close. -/
theorem netFlowFree_silent (why : Release) (hhandle : c.f.handle < 0) :
    (netFlowFree why c).core.eg = c.core.eg ∧ (netFlowFree why c).f.used = false ∧
      (netFlowFree why c).core.ctx.2 = c.core.ctx.2 := by
  refine ⟨?_, netFlowFree_used c, ?_⟩
  · rw [netFlowFree]
    split <;> rfl
  · rw [netFlowFree]
    split
    · rfl
    · dsimp only
      split
      · rw [if_neg (not_le.mpr hhandle)]
      · rfl

/-- A function that is handed a flow in use keeps it, or releases it in the end. -/
theorem Leaving.turn (h : Leaving c c') (hlogs : c.core.eg.Logs) (hclose : c.core.eg.close.isSome)
    (hused : c.f.used = true) (hhandle : 0 ≤ c.f.handle) : Turn c.f.tuple c c' := by
  obtain hkept | ⟨why, c₁, hkept, rfl⟩ := h
  · obtain ⟨calls, hlog, hcalls⟩ := hkept.log
    refine ⟨hkept.eg, ⟨calls, hlog, ?_⟩, fun _ => ⟨Flow.tuple_of_lease hkept.lease, ?_⟩⟩
    · rw [Flow.leased_of_lease hkept.lease, Flow.leased_of_used hused]
      exact .uses _ _ (onlyUses_leases hcalls)
    · rw [Flow.lease_handle hkept.lease]
      exact hhandle
  · obtain ⟨calls, hlog, hcalls⟩ := hkept.log
    have hsame := Flow.lease_handle hkept.lease
    obtain ⟨heg, hunused, hend⟩ := netFlowFree_closes why (hkept.eg ▸ hlogs)
      (hkept.eg ▸ hclose) ((Flow.lease_used hkept.lease).trans hused) (hsame ▸ hhandle)
    refine ⟨heg.trans hkept.eg, ⟨.close c.f.handle :: calls, ?_, ?_⟩, fun hagain => ?_⟩
    · rw [hend, hlog, hsame]
      rfl
    · rw [Flow.leased_of_used hused, Flow.leased_of_unused hunused]
      exact .ends _ _ (onlyUses_leases hcalls)
    · rw [hunused] at hagain
      cases hagain

/-! ### Opening -/

theorem leases_openFlow (proto : Nat) (dstIp : Word) (dstPort : Port) (handle : Int) :
    leases [.openFlow proto dstIp dstPort handle] =
      if 0 ≤ handle then [.acquire handle] else [] := by
  by_cases hpos : 0 ≤ handle
  · simp only [leases, List.filterMap_cons, Call.event, if_pos hpos, List.filterMap_nil]
  · simp only [leases, List.filterMap_cons, Call.event, if_neg hpos, List.filterMap_nil]

/-- The egress has been asked for a handle: there is none, or the call is in the log. -/
theorem egressOpen_cases (hlogs : c.core.eg.Logs) :
    (egressOpen c).core.eg = c.core.eg ∧ (egressOpen c).f.used = c.f.used ∧
      (egressOpen c).f.tuple = c.f.tuple ∧
      ∃ calls, (egressOpen c).core.ctx.2 = calls ++ c.core.ctx.2 ∧
        leases calls = if 0 ≤ (egressOpen c).f.handle then [.acquire (egressOpen c).f.handle]
          else [] := by
  obtain hfun | ⟨openFlow, hfun⟩ := hlogs.openFlow
  · rw [egressOpen, hfun]
    exact ⟨rfl, rfl, rfl, [], rfl, rfl⟩
  · rw [egressOpen, hfun]
    exact ⟨rfl, rfl, rfl, [.openFlow c.f.proto c.f.dstIp c.f.dstPort
      (openFlow c.f.proto c.f.dstIp c.f.dstPort c.core.ctx.1).1], rfl, leases_openFlow _ _ _ _⟩

/-- A slot that was free is opened, and what follows keeps the flow or releases it. Without a handle
it is released at once. -/
theorem turn_opened {c₀ : Conn (ε × List Call)} {k : Conn (ε × List Call) → Conn (ε × List Call)}
    (heg : c.core.eg = c₀.core.eg) (hlog : c.core.ctx.2 = c₀.core.ctx.2)
    (hfree : c₀.f.used = false) (hused : c.f.used = true) (hlogs : c₀.core.eg.Logs)
    (hclose : c₀.core.eg.close.isSome)
    (hfail : ∀ c, c.f.handle < 0 → ∃ why c₁, c₁.core.eg = c.core.eg ∧
      c₁.core.ctx = c.core.ctx ∧ c₁.f.handle < 0 ∧ k c = netFlowFree why c₁)
    (hgo : ∀ c, c.core.eg.Logs → 0 ≤ c.f.handle → Leaving c (k c)) :
    Turn c.f.tuple c₀ (k (egressOpen c)) := by
  obtain ⟨heg', hused', htuple, calls, hcalls, hleases⟩ := egressOpen_cases (heg ▸ hlogs)
  rw [hlog] at hcalls
  have hlogs' : (egressOpen c).core.eg.Logs := by
    rw [heg', heg]
    exact hlogs
  have hclose' : (egressOpen c).core.eg.close.isSome := by
    rw [heg', heg]
    exact hclose
  rw [← htuple]
  generalize egressOpen c = c₁ at *
  by_cases hhandle : 0 ≤ c₁.f.handle
  · rw [if_pos hhandle] at hleases
    have hturn := (hgo c₁ hlogs' hhandle).turn hlogs' hclose' (hused'.trans hused) hhandle
    obtain ⟨more, hmore, hchange⟩ := hturn.change
    refine ⟨hturn.eg.trans (heg'.trans heg), ⟨more ++ calls, ?_, ?_⟩, hturn.live⟩
    · rw [hmore, hcalls, List.append_assoc]
    · rw [leases_append, hleases, Flow.leased_of_unused hfree]
      rw [Flow.leased_of_used (hused'.trans hused)] at hchange
      exact hchange.opened
  · rw [if_neg hhandle] at hleases
    obtain ⟨why, c₂, heg₂, hctx₂, hneg, hend⟩ := hfail c₁ (not_le.mp hhandle)
    obtain ⟨heg₃, hunused, hlog₃⟩ := netFlowFree_silent why hneg
    rw [hend]
    refine ⟨heg₃.trans (heg₂.trans (heg'.trans heg)), ⟨calls, ?_, ?_⟩, fun hagain => ?_⟩
    · rw [hlog₃, hctx₂, hcalls]
    · rw [hleases, Flow.leased_of_unused hfree, Flow.leased_of_unused hunused]
      exact .idle none
    · rw [hunused] at hagain
      cases hagain

theorem turn_udpOpen {core : NetCore (ε × List Call)} {gport dport : Port} {dstIp : Word}
    (payload : List Byte) (hfree : c.f.used = false) (hlogs : c.core.eg.Logs)
    (hclose : c.core.eg.close.isSome) (heg : core.eg = c.core.eg)
    (hlog : core.ctx.2 = c.core.ctx.2) :
    Turn (netProtoUdp, gport, dstIp, dport) c
      (udpOpen payload ⟨core, freshFlow c.core netProtoUdp gport dstIp dport⟩) := by
  refine turn_opened (c := ⟨core, freshFlow c.core netProtoUdp gport dstIp dport⟩)
    (k := fun c => if c.f.handle < 0 then netFlowFree .udp c else udpSend payload c)
    heg hlog hfree rfl hlogs hclose (fun c hneg => ?_) fun c hlogs hpos => ?_
  · exact ⟨.udp, c, rfl, rfl, hneg, if_pos hneg⟩
  · rw [if_neg (not_lt.mpr hpos)]
    exact udpSend_leaving hlogs payload

theorem lease_tcpSynFlow (core : NetCore ε) (g : Segment) (f : Flow) :
    (tcpSynFlow core g f).lease = f.lease := by
  rw [tcpSynFlow]
  rfl

theorem turn_tcpSynAt {core : NetCore (ε × List Call)} (g : Segment) {gport dport : Port}
    {dstIp : Word} (hfree : c.f.used = false) (hlogs : c.core.eg.Logs)
    (hclose : c.core.eg.close.isSome) (heg : core.eg = c.core.eg)
    (hlog : core.ctx.2 = c.core.ctx.2) :
    Turn (netProtoTcp, gport, dstIp, dport) c
      (tcpSynAt g ⟨core, freshFlow c.core netProtoTcp gport dstIp dport⟩) := by
  have hlease := lease_tcpSynFlow core.walkIss g (freshFlow c.core netProtoTcp gport dstIp dport)
  have htuple : (tcpSynFlow core.walkIss g (freshFlow c.core netProtoTcp gport dstIp dport)).tuple =
      (netProtoTcp, gport, dstIp, dport) := Flow.tuple_of_lease hlease
  have hused : (tcpSynFlow core.walkIss g (freshFlow c.core netProtoTcp gport dstIp dport)).used =
      true := Flow.lease_used hlease
  -- The number that is chosen does not matter, and nothing here should compute it.
  have hany (iss : Word) : ({ core with issWalk := iss } : NetCore (ε × List Call)).eg =
      c.core.eg ∧ ({ core with issWalk := iss } : NetCore (ε × List Call)).ctx.2 = c.core.ctx.2 :=
    ⟨heg, hlog⟩
  have heg' : core.walkIss.eg = c.core.eg := (hany _).1
  have hlog' : core.walkIss.ctx.2 = c.core.ctx.2 := (hany _).2
  rw [tcpSynAt]
  dsimp only
  generalize tcpSynFlow core.walkIss g (freshFlow c.core netProtoTcp gport dstIp dport) = f at *
  rw [← htuple]
  refine turn_opened (c := ⟨core.walkIss, f⟩)
    (k := fun c => if c.f.handle < 0 then
        netFlowFree .reset (tcpOut (tcpRst ||| tcpAck) c.f.sndNxt [] c).2
      else netTcpTick { c with f := { c.f with closeAt := c.core.nowMs + connectMs } })
    heg' hlog' hfree hused hlogs hclose (fun c hneg => ?_) fun c hlogs hpos => ?_
  · have hframe := tcpOut_egress (tcpRst ||| tcpAck) c.f.sndNxt [] c
    have hhandle := Flow.lease_handle (lease_tcpOut (tcpRst ||| tcpAck) c.f.sndNxt [] c)
    exact ⟨.reset, _, hframe.1, hframe.2, hhandle.symm ▸ hneg, if_pos hneg⟩
  · rw [if_neg (not_lt.mpr hpos)]
    generalize c.core.nowMs + connectMs = closeAt
    have hwait : Holding c { c with f := { c.f with closeAt := closeAt } } := .of_eq rfl rfl rfl
    exact hwait.then (netTcpTick_leaving hlogs)

/-! ### The table -/

variable {ns ns' : NetStack (ε × List Call)} {i : Fin netMaxFlows}

/-- The table and the log agree on the handles, and no two flows are for one connection. -/
structure HandlesOk (ns : NetStack (ε × List Call)) : Prop where
  logs : ns.core.eg.Logs
  closes : ns.core.eg.close.isSome
  tracks : Fresh (leases ns.core.ctx.2) →
    Tracks (fun i => (ns.flow i).leased) (leases ns.core.ctx.2)
  handle : ∀ i, (ns.flow i).used = true → 0 ≤ (ns.flow i).handle
  single : ∀ i j, (ns.flow i).used = true → (ns.flow j).used = true →
    (ns.flow i).tuple = (ns.flow j).tuple → i = j

/-- What happens to a slot leaves the table in order, unless it doubles a connection. -/
theorem HandlesOk.turn (h : HandlesOk ns) {k : Conn (ε × List Call) → Conn (ε × List Call)}
    (hturn : Turn t ⟨ns.core, ns.flow i⟩ (k ⟨ns.core, ns.flow i⟩))
    (hfresh : ∀ j, j ≠ i → (ns.flow j).used = true → (ns.flow j).tuple ≠ t) :
    HandlesOk (ns.onFlow i k) := by
  obtain ⟨heg, ⟨calls, hlog, hchange⟩, hlive⟩ := hturn
  rw [NetStack.onFlow]
  generalize k ⟨ns.core, ns.flow i⟩ = c' at heg hlog hchange hlive ⊢
  dsimp only at heg hlog hchange
  constructor
  · dsimp only
    rw [heg]
    exact h.logs
  · dsimp only
    rw [heg]
    exact h.closes
  · intro hnew
    dsimp only at hnew ⊢
    rw [hlog, leases_append] at hnew ⊢
    have htable : (fun j => (if j = i then c'.f else ns.flow j).leased) =
        Function.update (fun j => (ns.flow j).leased) i c'.f.leased := by
      funext j
      by_cases hji : j = i
      · rw [if_pos hji, hji, Function.update_self]
      · rw [if_neg hji, Function.update_of_ne hji]
    rw [htable]
    exact (h.tracks hnew.of_append).change hchange hnew
  · intro j hj
    dsimp only at hj ⊢
    by_cases hji : j = i
    · rw [if_pos hji] at hj ⊢
      exact (hlive hj).2
    · rw [if_neg hji] at hj ⊢
      exact h.handle j hj
  · intro j j' hj hj' hsame
    dsimp only at hj hj' hsame
    by_cases hji : j = i <;> by_cases hji' : j' = i
    · rw [hji, hji']
    · rw [if_pos hji] at hj hsame
      rw [if_neg hji'] at hj' hsame
      exact absurd (hsame.symm.trans (hlive hj).1) (hfresh j' hji' hj')
    · rw [if_neg hji] at hj hsame
      rw [if_pos hji'] at hj' hsame
      exact absurd (hsame.trans (hlive hj').1) (hfresh j hji hj)
    · rw [if_neg hji] at hj hsame
      rw [if_neg hji'] at hj' hsame
      exact h.single j j' hj hj' hsame

/-- So does a function that is handed a flow in use. -/
theorem HandlesOk.leaving (h : HandlesOk ns) {k : Conn (ε × List Call) → Conn (ε × List Call)}
    (hused : (ns.flow i).used = true)
    (hk : ns.core.eg.Logs → Leaving ⟨ns.core, ns.flow i⟩ (k ⟨ns.core, ns.flow i⟩)) :
    HandlesOk (ns.onFlow i k) :=
  h.turn ((hk h.logs).turn h.logs h.closes hused (h.handle i hused)) fun j hji hj hsame =>
    hji (h.single j i hj hused hsame)

/-- Nothing has happened to the flows. -/
theorem HandlesOk.of_noLease (h : HandlesOk ns) (hflow : ns'.flow = ns.flow)
    (hcore : NoLease ns.core ns'.core) : HandlesOk ns' := by
  obtain ⟨heg, calls, hlog, hnone⟩ := hcore
  have hleases : leases ns'.core.ctx.2 = leases ns.core.ctx.2 := by
    rw [hlog, leases_append, hnone, List.nil_append]
  constructor
  · rw [heg]
    exact h.logs
  · rw [heg]
    exact h.closes
  · rw [hleases, hflow]
    exact h.tracks
  · rw [hflow]
    exact h.handle
  · rw [hflow]
    exact h.single

/-! ### Resolver -/

theorem HandlesOk.dnsTickSlot (h : HandlesOk ns) (i : Fin netDnsPending) :
    HandlesOk (dnsTickSlot ns i) := by
  have hres := netResolve_noLease h.logs (ns.dns i).name
  rw [Net.dnsTickSlot]
  split
  · exact h
  dsimp only
  generalize netResolve (ns.dns i).name ns.core = r at hres ⊢
  obtain ⟨result, core⟩ := r
  split
  · exact h.of_noLease rfl hres
  · exact h.of_noLease rfl (hres.trans (.of_eq (dnsFinish_egress _ _ _ _)))

theorem HandlesOk.dnsTick (h : HandlesOk ns) : HandlesOk (dnsTick ns) := by
  rw [Net.dnsTick]
  generalize List.finRange netDnsPending = slots
  induction slots generalizing ns with
  | nil => exact h
  | cons i slots ih => exact ih (h.dnsTickSlot i)

theorem HandlesOk.dnsInput (h : HandlesOk ns) (gport : Port) (p : List Byte) :
    HandlesOk (dnsInput gport p ns) := by
  have hreply (qend : Nat) (rcode : BitVec 16) : HandlesOk { ns with
      core := dnsReply gport p qend rcode none ns.core } :=
    h.of_noLease rfl (.of_eq (dnsReply_egress _ _ _ _ _ _))
  rw [Net.dnsInput]
  dsimp only
  split
  · exact h
  split
  · exact h
  split
  · exact hreply _ _
  split
  · exact hreply _ _
  case h_2 nl name _ =>
    have hres := netResolve_noLease h.logs name
    split
    · exact hreply _ _
    split
    · exact hreply _ _
    split
    · exact hreply _ _
    split
    · exact hreply _ _
    generalize netResolve name ns.core = r at hres ⊢
    obtain ⟨result, core⟩ := r
    cases result with
    | pending =>
      dsimp only
      rw [dnsDefer]
      split
      · exact h.of_noLease rfl hres
      split
      · exact h.of_noLease rfl hres
      split
      · exact h.of_noLease rfl hres
      · exact h.of_noLease rfl hres
    | _ => exact h.of_noLease rfl (hres.trans (.of_eq (dnsFinish_egress _ _ _ _)))

/-! ### Datagrams -/

theorem Flow.hasTuple_iff (f : Flow) (proto : Nat) (gport : Port) (dstIp : Word) (dport : Port) :
    f.hasTuple proto gport dstIp dport = true ↔
      f.used = true ∧ f.tuple = (proto, gport, dstIp, dport) := by
  simp only [Flow.hasTuple, Flow.tuple, Bool.and_eq_true, beq_iff_eq, Prod.mk.injEq, and_assoc]

/-- A connection that is not found is not in the table. -/
theorem tuple_ne_of_netFlowFind {proto : Nat} {gport dport : Port} {dstIp : Word}
    {ns : NetStack ε} (h : netFlowFind proto gport dstIp dport ns = none) (j : Fin netMaxFlows)
    (hj : (ns.flow j).used = true) : (ns.flow j).tuple ≠ (proto, gport, dstIp, dport) := by
  intro hsame
  have hnot := List.find?_eq_none.mp h j (List.mem_finRange j)
  exact hnot (((ns.flow j).hasTuple_iff _ _ _ _).mpr ⟨hj, hsame⟩)

theorem HandlesOk.udpInput (h : HandlesOk ns) (src dst : Word) (p : List Byte) :
    HandlesOk (udpInput src dst p ns) := by
  rw [Net.udpInput]
  split
  · exact h
  dsimp only
  split
  · exact h
  split
  · exact h
  split
  · exact h.dnsInput _ _
  split
  case h_1 i hfind =>
    exact h.leaving (netFlowFind_hasTuple hfind).1 fun hlogs => udpSend_leaving hlogs _
  case h_2 hfind =>
    split
    case h_1 i ns₁ halloc =>
      obtain ⟨hfree, rfl⟩ := netFlowAlloc_cases halloc
      rw [onFlow_onFlow]
      refine h.turn (t := (netProtoUdp, netRd16 p 0, dst, netRd16 p 2)) ?_ fun j _ hj =>
        tuple_ne_of_netFlowFind hfind j hj
      exact turn_udpOpen (c := ⟨ns.core, ns.flow i⟩) _ hfree h.logs h.closes rfl rfl
    case h_2 => exact h

theorem HandlesOk.netTcpInput (h : HandlesOk ns) (src dst : Word) (seg : List Byte) :
    HandlesOk (netTcpInput src dst seg ns) := by
  have hreject (g : Segment) (n : Nat) : HandlesOk { ns with core := tcpReject dst g n ns.core } :=
    h.of_noLease rfl (.of_eq (tcpReject_egress _ _ _ _))
  rw [Net.netTcpInput]
  split
  · exact h
  case h_2 g _ =>
    split
    case h_1 i hfind =>
      exact h.leaving (netFlowFind_hasTuple hfind).1 fun hlogs => tcpInputFlow_leaving hlogs g
    case h_2 hfind =>
      split
      · split
        case h_1 i ns₁ halloc =>
          obtain ⟨hfree, rfl⟩ := netFlowAlloc_cases halloc
          rw [onFlow_onFlow]
          refine h.turn (t := (netProtoTcp, g.gport, dst, g.dport)) ?_ fun j _ hj =>
            tuple_ne_of_netFlowFind hfind j hj
          exact turn_tcpSynAt (c := ⟨ns.core, ns.flow i⟩) g hfree h.logs h.closes rfl rfl
        case h_2 => exact hreject _ _
      · exact hreject _ _

theorem HandlesOk.netInput (h : HandlesOk ns) (pkt : List Byte) : HandlesOk (netInput pkt ns) := by
  rw [Net.netInput]
  split
  · exact h
  split
  · exact h.of_noLease rfl (icmpInput_noLease h.logs _ _ _)
  split
  · exact h.udpInput _ _ _
  split
  · exact h.netTcpInput _ _ _
  · exact h

/-! ### Time -/

theorem HandlesOk.netTickSlot (h : HandlesOk ns) (i : Fin netMaxFlows) :
    HandlesOk (netTickSlot ns i) := by
  rw [Net.netTickSlot]
  split
  · exact h
  case isFalse hused =>
    have hused : (ns.flow i).used = true := by simpa using hused
    split
    · exact h.leaving hused fun hlogs => udpTick_leaving hlogs
    · exact h.leaving hused fun hlogs => netTcpTick_leaving hlogs

theorem HandlesOk.netTick (h : HandlesOk ns) (now : Word) : HandlesOk (netTick now ns) := by
  rw [Net.netTick]
  split
  · exact h
  have hclock : HandlesOk { ns with core := { ns.core with nowMs := now } } :=
    h.of_noLease rfl (.of_eq ⟨rfl, rfl⟩)
  have hdns := hclock.dnsTick
  generalize Net.dnsTick { ns with core := { ns.core with nowMs := now } } = ns₁ at hdns ⊢
  generalize List.finRange netMaxFlows = slots
  induction slots generalizing ns₁ with
  | nil => exact hdns
  | cons i slots ih => exact ih _ (hdns.netTickSlot i)

/-! ### Resetting -/

theorem HandlesOk.resetSlot (h : HandlesOk ns) (i : Fin netMaxFlows) :
    HandlesOk (resetSlot ns i) := by
  rw [Net.resetSlot]
  split
  case isTrue hused => exact h.leaving hused fun _ => (Holding.refl _).free .reset
  case isFalse => exact h

/-- A slot that is released is free, and a slot that is free stays so. -/
theorem resetSlot_free (ns : NetStack ε) (i j : Fin netMaxFlows)
    (h : j = i ∨ (ns.flow j).used = false) : ((resetSlot ns i).flow j).used = false := by
  rw [resetSlot]
  split
  case isTrue hused =>
    rw [NetStack.onFlow]
    dsimp only
    by_cases hji : j = i
    · rw [if_pos hji]
      exact netFlowFree_used _
    · rw [if_neg hji]
      exact h.resolve_left hji
  case isFalse hfree =>
    rcases h with rfl | h
    · simpa using hfree
    · exact h

/-- No handle is acquired on the way. -/
theorem HandlesOk.fresh_resetSlot (h : HandlesOk ns) (i : Fin netMaxFlows)
    (hfresh : Fresh (leases ns.core.ctx.2)) : Fresh (leases (Net.resetSlot ns i).core.ctx.2) := by
  rw [Net.resetSlot]
  split
  case isTrue hused =>
    obtain ⟨-, -, hlog⟩ := netFlowFree_closes (c := ⟨ns.core, ns.flow i⟩) .reset h.logs
      h.closes hused (h.handle i hused)
    show Fresh (leases (netFlowFree .reset ⟨ns.core, ns.flow i⟩).core.ctx.2)
    rw [hlog]
    exact hfresh
  case isFalse => exact hfresh

theorem HandlesOk.resetSlots (h : HandlesOk ns) (slots : List (Fin netMaxFlows)) :
    HandlesOk (slots.foldl Net.resetSlot ns) ∧ (Fresh (leases ns.core.ctx.2) →
      Fresh (leases (slots.foldl Net.resetSlot ns).core.ctx.2)) := by
  induction slots generalizing ns with
  | nil => exact ⟨h, id⟩
  | cons i slots ih =>
    obtain ⟨hok, hfresh⟩ := ih (h.resetSlot i)
    exact ⟨hok, fun hstart => hfresh (h.fresh_resetSlot i hstart)⟩

theorem resetSlots_free (ns : NetStack ε) (slots : List (Fin netMaxFlows)) (j : Fin netMaxFlows)
    (h : j ∈ slots ∨ (ns.flow j).used = false) :
    ((slots.foldl resetSlot ns).flow j).used = false := by
  induction slots generalizing ns with
  | nil => exact h.resolve_left List.not_mem_nil
  | cons i slots ih =>
    refine ih _ ?_
    rcases h with hmem | hfree
    · rcases List.mem_cons.mp hmem with heq | hmem
      · exact .inr (resetSlot_free ns i j (.inl heq))
      · exact .inl hmem
    · exact .inr (resetSlot_free ns i j (.inr hfree))

/-- A stack whose flows have been released may be set up again. -/
theorem HandlesOk.again (h : HandlesOk ns) (hfree : ∀ i, (ns.flow i).used = false) :
    HandlesOk (netInit ns.core.cfg ns.core.eg ns.core.ctx) where
  logs := h.logs
  closes := h.closes
  tracks hfresh := by
    have htable : (fun i => (ns.flow i).leased) = fun _ => none := by
      funext i
      exact Flow.leased_of_unused (hfree i)
    have htracks := h.tracks hfresh
    rw [htable] at htracks
    exact htracks
  handle _ hused := absurd hused Bool.false_ne_true
  single _ _ hused := absurd hused Bool.false_ne_true

theorem HandlesOk.netReset (h : HandlesOk ns) : HandlesOk (netReset ns) ∧
    (Fresh (leases ns.core.ctx.2) → Fresh (leases (Net.netReset ns).core.ctx.2)) := by
  obtain ⟨hreset, hstill⟩ := h.resetSlots (List.finRange netMaxFlows)
  have hfree (i : Fin netMaxFlows) :
      (((List.finRange netMaxFlows).foldl Net.resetSlot ns).flow i).used = false :=
    resetSlots_free ns _ i (.inl (List.mem_finRange i))
  rw [Net.netReset]
  exact ⟨hreset.again hfree, hstill⟩

/-! ### Runs -/

/-- A step of a stack, or its resetting. -/
inductive LifeOp (ε : Type)
  | op (op : Op ε)
  | reset

/-- A step of a stack that logs its calls. The host does not touch the log. -/
def Op.withLog (log : List Call) : Op ε → Op (ε × List Call)
  | .input pkt => .input pkt
  | .inputAt pkt now => .inputAt pkt now
  | .tick now => .tick now
  | .output cap => .output cap
  | .host x => .host (x, log)

def lifeStep : LifeOp ε → NetStack (ε × List Call) → NetStack (ε × List Call)
  | .op op, ns => netStep (op.withLog ns.core.ctx.2) ns
  | .reset, ns => netReset ns

theorem HandlesOk.init {cfg : Config} {eg : Egress ε} {x : ε} (hclose : eg.close.isSome) :
    HandlesOk (netInit cfg eg.logged (x, [])) where
  logs := eg.logs_logged
  closes := by
    show (eg.close.map _).isSome = true
    rw [Option.isSome_map]
    exact hclose
  tracks _ := .init
  handle _ hused := absurd hused Bool.false_ne_true
  single _ _ hused := absurd hused Bool.false_ne_true

theorem HandlesOk.step (h : HandlesOk ns) (op : Op ε) :
    HandlesOk (netStep (op.withLog ns.core.ctx.2) ns) := by
  cases op with
  | input pkt => exact h.netInput pkt
  | inputAt pkt now =>
    show HandlesOk (netInputAt pkt now ns)
    rw [netInputAt]
    split
    · exact h.netInput pkt
    · have hclock : HandlesOk { ns with core := { ns.core with nowMs := now } } :=
        h.of_noLease rfl (.of_eq ⟨rfl, rfl⟩)
      exact hclock.netInput pkt
  | tick now => exact h.netTick now
  | output cap =>
    show HandlesOk (netOutput cap ns).2
    rw [netOutput]
    split
    · exact h
    · split
      · exact h
      · exact h.of_noLease rfl (.of_eq ⟨rfl, rfl⟩)
  | host x => exact h.of_noLease rfl ⟨rfl, [], rfl, rfl⟩

/-- Every run of a stack over an egress that has a `close` keeps its table and its log in order. -/
theorem handlesOk_of_run {cfg : Config} {eg : Egress ε} {x : ε} (hclose : eg.close.isSome)
    (run : Run lifeStep (fun _ _ => True) (netInit cfg eg.logged (x, [])) ns) : HandlesOk ns := by
  refine run.keeps (fun ns op _ h => ?_) (.init hclose)
  cases op with
  | op op => exact h.step op
  | reset => exact h.netReset.1

/-- No two flows in use are for one connection. As long as the egress hands out no handle that it
has not got back, what is called with a handle is called while the handle is out, the handles that
are out are those of the flows in use, each of one flow, and every handle is closed once for each
time it has been handed out, but for those that are out. None is after a reset. -/
theorem handles_once {cfg : Config} {eg : Egress ε} {x : ε} (hclose : eg.close.isSome)
    (run : Run lifeStep (fun _ _ => True) (netInit cfg eg.logged (x, [])) ns)
    (hfresh : Fresh (leases ns.core.ctx.2)) :
    (∀ i j, (ns.flow i).used = true → (ns.flow j).used = true →
        (ns.flow i).tuple = (ns.flow j).tuple → i = j) ∧
      Disciplined (leases ns.core.ctx.2) ∧
      (∀ h, Held h (leases ns.core.ctx.2) ↔
        ∃ i, (ns.flow i).used = true ∧ (ns.flow i).handle = h) ∧
      (∀ i j, (ns.flow i).used = true → (ns.flow j).used = true →
        (ns.flow i).handle = (ns.flow j).handle → i = j) ∧
      (∀ h, (leases ns.core.ctx.2).count (.acquire h) =
        (leases ns.core.ctx.2).count (.release h) +
          if Held h (leases ns.core.ctx.2) then 1 else 0) ∧
      ∀ h, ¬Held h (leases (netReset ns).core.ctx.2) := by
  have hok := handlesOk_of_run hclose run
  have htracks := hok.tracks hfresh
  have hleased (i : Fin netMaxFlows) (h : Int) : (ns.flow i).leased = some h ↔
      (ns.flow i).used = true ∧ (ns.flow i).handle = h := by
    cases hused : (ns.flow i).used with
    | true => simp [Flow.leased_of_used hused]
    | false => simp [Flow.leased_of_unused hused]
  refine ⟨hok.single, htracks.disciplined, fun h => ?_, fun i j hi hj hsame => ?_,
    htracks.disciplined.count_acquire hfresh, fun h hheld => ?_⟩
  · rw [htracks.held h]
    exact exists_congr fun i => hleased i h
  · exact htracks.single i j _ ((hleased i _).mpr ⟨hi, rfl⟩) ((hleased j _).mpr ⟨hj, hsame.symm⟩)
  · have hreset := hok.netReset
    obtain ⟨i, hi⟩ := ((hreset.1.tracks (hreset.2 hfresh)).held h).mp hheld
    exact absurd hi nofun

/-! ### A datagram and a reset -/

/-- A UDP datagram from the guest to a host. -/
def guestDatagram (gport dport : Port) (data : List Byte) : List Byte :=
  let guest := netConfigDefault.guestIp
  let host : Word := 0x5db8d822
  let dgram := udpDatagram guest host gport dport data
  netBuildIpv4 guest host netProtoUdp 1 dgram.length ++ dgram

/-- A host that numbers its handles. -/
def numberingHost (close : Option (Int → Int → Int)) : Egress Int where
  openFlow := some fun _ _ _ x => (x, x + 1)
  status := none
  send := none
  recv := none
  shutdownTx := none
  close := close
  resolve := none
  icmpEcho := none
  send_le := nofun
  recv_le := nofun

/-- A stack that has opened a flow and released it after some time, and has opened two more. -/
@[irreducible]
def openedFlows (close : Option (Int → Int → Int)) : NetStack (Int × List Call) :=
  follow lifeStep (netInit netConfigDefault (numberingHost close).logged (0, []))
    [.op (.input (guestDatagram 1000 2000 [1])), .op (.tick 60001),
      .op (.input (guestDatagram 1000 2000 [1])), .op (.input (guestDatagram 1001 2000 [1]))]

theorem run_openedFlows (close : Option (Int → Int → Int)) :
    Run lifeStep (fun _ _ => True) (netInit netConfigDefault (numberingHost close).logged (0, []))
      (openedFlows close) := by
  unfold openedFlows
  exact run_follow _ _

theorem handles_once_openedFlows :
    (leases (openedFlows (some fun _ x => x)).core.ctx.2).count (.acquire 0) =
        (leases (openedFlows (some fun _ x => x)).core.ctx.2).count (.release 0) ∧
      Held 1 (leases (openedFlows (some fun _ x => x)).core.ctx.2) ∧
      ∀ h, ¬Held h (leases (netReset (openedFlows (some fun _ x => x))).core.ctx.2) := by
  have hfresh : Fresh (leases (openedFlows (some fun _ x => x)).core.ctx.2) := by decide +kernel
  have hclose : (numberingHost (some fun _ x => x)).close.isSome := rfl
  obtain ⟨-, -, hheld, -, hcount, hreset⟩ := handles_once hclose (run_openedFlows _) hfresh
  have hnot : ¬Held 0 (leases (openedFlows (some fun _ x => x)).core.ctx.2) := by decide +kernel
  have hzero := hcount 0
  rw [if_neg hnot] at hzero
  exact ⟨hzero, (hheld 1).mpr ⟨0, by decide +kernel⟩, hreset⟩

/-- Without a `close` to call, nothing is closed. -/
theorem handles_kept : ¬∀ (eg : Egress Int) (ns : NetStack (Int × List Call)),
    Run lifeStep (fun _ _ => True) (netInit netConfigDefault eg.logged (0, [])) ns →
    Fresh (leases ns.core.ctx.2) → ∀ h, ¬Held h (leases (netReset ns).core.ctx.2) := by
  intro hall
  have hfresh : Fresh (leases (openedFlows none).core.ctx.2) := by decide +kernel
  have hheld : Held 0 (leases (netReset (openedFlows none)).core.ctx.2) := by decide +kernel
  exact hall (numberingHost none) _ (run_openedFlows none) hfresh 0 hheld

end S5LBox.Net
