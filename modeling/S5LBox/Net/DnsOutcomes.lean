import S5LBox.Net.Counters
import S5LBox.Net.DnsNames
import S5LBox.Net.Persist

/-!
# What becomes of a lookup

A lookup of the guest is answered at once when the host knows the answer, and waits in a slot when
the host is still looking. A tick asks again for every lookup that waits, and answers it when the
host has an answer or the time is over. A lookup that arrives while it waits already takes no second
slot. But the host is asked for it first, and what the host answers then is handed on at once, with
the slot still waiting.

## Main definitions

* `Lookup`, `Op.asks`: the queries for an address, and the step that brings one.
* `replies`, `turnedAway`: the outcomes of a lookup in a step, from the replies that are handed to
  `net_emit` and from the counters.
* `exactlyOnce`: one outcome and in time, along a run.
* `Undisturbed`: the host keeps looking as long as the guest keeps asking.

## Main results

* `dns_exact`: when there is exactly one outcome.
-/

namespace S5LBox.Net

variable {ε : Type} {ns ns' : NetStack ε}

/-! ### The queries -/

/-- A query for an address: who asks, the message up to the end of its question, and the name. -/
structure Lookup where
  gport : Port
  query : List Byte
  name : List Byte
  deriving DecidableEq, Repr

/-- The payload that a UDP datagram hands to `dns_input`, and the port it comes from. -/
def dnsPayload (cfg : Config) (src dst : Word) (p : List Byte) : Option (Port × List Byte) :=
  let ulen := (netRd16 p 4).toNat
  if p.length < 8 then none
  else if ulen < 8 ∨ p.length < ulen then none
  else if netRd16 p 6 ≠ 0 ∧ netL4Checksum src dst netProtoUdp (p.take ulen) ≠ 0 then none
  else if dst = cfg.dnsIp ∧ netRd16 p 2 = 53 then some (netRd16 p 0, (p.take ulen).drop 8)
  else none

/-- The query in a payload, when `dns_input` accepts it as one for an address: a query with one
question, whose name is in order, for an A record of the Internet. -/
def lookupOf (gport : Port) (p : List Byte) : Option Lookup :=
  if p.length < 12 ∨ netRd16 p 2 &&& dnsQr ≠ 0 ∨ netRd16 p 4 ≠ 1 then none
  else
    match dnsName (p.drop 12) 256 with
    | none => none
    | some (nl, name) =>
      if p.length < 12 + nl + 4 ∨ netRd16 p (12 + nl + 2) ≠ 1 ∨ netRd16 p (12 + nl) ≠ 1 then none
      else some ⟨gport, p.take (12 + nl + 4), name⟩

/-- The lookup in a datagram. -/
def asksOf (cfg : Config) (pkt : List Byte) : Option Lookup :=
  match ipv4Of cfg pkt with
  | some (src, dst, proto, l4) =>
    if proto = 17 then (dnsPayload cfg src dst l4).bind fun (gport, p) => lookupOf gport p
    else none
  | none => none

/-- The lookup that an action brings. -/
def Op.asks (op : Op ε) (ns : NetStack ε) : Option Lookup :=
  match op with
  | .input pkt | .inputAt pkt _ => asksOf ns.core.cfg pkt
  | _ => none

/-- The host is still looking. -/
def Res.isPending : Res → Bool
  | .pending => true
  | _ => false

/-- What `dns_input` does with a lookup. -/
def dnsAsk (q : Lookup) (ns : NetStack ε) : NetStack ε :=
  match netResolve q.name ns.core with
  | (.pending, core) => dnsDefer q.gport q.query q.name { ns with core := core }
  | (result, core) => { ns with core := dnsFinish q.gport q.query result core }

theorem dnsInput_of_lookupOf {gport : Port} {p : List Byte} {q : Lookup}
    (h : lookupOf gport p = some q) : dnsInput gport p ns = dnsAsk q ns := by
  rw [lookupOf] at h
  rw [dnsInput]
  dsimp only
  by_cases hhead : p.length < 12 ∨ netRd16 p 2 &&& dnsQr ≠ 0 ∨ netRd16 p 4 ≠ 1
  · rw [if_pos hhead] at h
    cases h
  rw [if_neg hhead] at h
  simp only [not_or, not_not] at hhead
  obtain ⟨hlen, hqr, hone⟩ := hhead
  rw [if_neg hlen, if_neg (not_not.mpr hqr), if_neg (not_not.mpr hone)]
  cases hname : dnsName (p.drop 12) 256 with
  | none =>
    rw [hname] at h
    cases h
  | some found =>
    obtain ⟨nl, name⟩ := found
    rw [hname] at h
    dsimp only at h ⊢
    by_cases hq : p.length < 12 + nl + 4 ∨ netRd16 p (12 + nl + 2) ≠ 1 ∨ netRd16 p (12 + nl) ≠ 1
    · rw [if_pos hq] at h
      cases h
    rw [if_neg hq] at h
    simp only [not_or, not_not] at hq
    obtain ⟨hroom, hclass, htype⟩ := hq
    cases h
    have haaaa : ¬netRd16 p (12 + nl) = 28 := by
      rw [htype]
      decide
    rw [if_neg hroom, if_neg (not_not.mpr hclass), if_neg haaaa, if_neg (not_not.mpr htype)]
    rfl

theorem dnsInput_dns {gport : Port} {p : List Byte} (h : lookupOf gport p = none) :
    (dnsInput gport p ns).dns = ns.dns := by
  rw [lookupOf] at h
  rw [dnsInput]
  dsimp only
  by_cases hlen : p.length < 12
  · rw [if_pos hlen]
  rw [if_neg hlen]
  by_cases hqr : netRd16 p 2 &&& dnsQr ≠ 0
  · rw [if_pos hqr]
  rw [if_neg hqr]
  by_cases hone : netRd16 p 4 ≠ 1
  · rw [if_pos hone]
  rw [if_neg hone]
  rw [if_neg (not_or.mpr ⟨hlen, not_or.mpr ⟨hqr, hone⟩⟩)] at h
  cases hname : dnsName (p.drop 12) 256 with
  | none => rfl
  | some found =>
    obtain ⟨nl, name⟩ := found
    rw [hname] at h
    dsimp only at h ⊢
    by_cases hroom : p.length < 12 + nl + 4
    · rw [if_pos hroom]
    rw [if_neg hroom]
    by_cases hclass : netRd16 p (12 + nl + 2) ≠ 1
    · rw [if_pos hclass]
    rw [if_neg hclass]
    by_cases haaaa : netRd16 p (12 + nl) = 28
    · rw [if_pos haaaa]
    rw [if_neg haaaa]
    by_cases htype : netRd16 p (12 + nl) ≠ 1
    · rw [if_pos htype]
    · rw [if_neg (not_or.mpr ⟨hroom, not_or.mpr ⟨hclass, htype⟩⟩)] at h
      cases h

theorem onFlow_dns (i : Fin netMaxFlows) (k : Conn ε → Conn ε) (ns : NetStack ε) :
    (ns.onFlow i k).dns = ns.dns := rfl

theorem netFlowAlloc_dns {proto : Nat} {gport dport : Port} {dstIp : Word} {i : Fin netMaxFlows}
    (h : netFlowAlloc proto gport dstIp dport ns = some (i, ns')) : ns'.dns = ns.dns := by
  obtain ⟨-, rfl⟩ := netFlowAlloc_cases h
  rfl

theorem netTcpInput_dns (src dst : Word) (seg : List Byte) (ns : NetStack ε) :
    (netTcpInput src dst seg ns).dns = ns.dns := by
  rw [netTcpInput]
  split
  · rfl
  · split
    · rfl
    · split
      · split
        case h_1 halloc => exact (onFlow_dns _ _ _).trans (netFlowAlloc_dns halloc)
        case h_2 => rfl
      · rfl

theorem udpInput_of_payload {src dst : Word} {l4 p : List Byte} {gport : Port}
    (h : dnsPayload ns.core.cfg src dst l4 = some (gport, p)) :
    udpInput src dst l4 ns = dnsInput gport p ns := by
  rw [dnsPayload] at h
  rw [udpInput]
  dsimp only at h ⊢
  split at h
  · cases h
  case isFalse hshort =>
    rw [if_neg hshort]
    split at h
    · cases h
    case isFalse hulen =>
      rw [if_neg hulen]
      split at h
      · cases h
      case isFalse hsum =>
        rw [if_neg hsum]
        split at h
        case isTrue hdns =>
          cases h
          rw [if_pos hdns]
        case isFalse => cases h

theorem udpInput_dns {src dst : Word} {l4 : List Byte}
    (h : dnsPayload ns.core.cfg src dst l4 = none) : (udpInput src dst l4 ns).dns = ns.dns := by
  rw [dnsPayload] at h
  rw [udpInput]
  dsimp only at h ⊢
  split at h
  case isTrue hshort => rw [if_pos hshort]
  case isFalse hshort =>
    rw [if_neg hshort]
    split at h
    case isTrue hulen => rw [if_pos hulen]
    case isFalse hulen =>
      rw [if_neg hulen]
      split at h
      case isTrue hsum => rw [if_pos hsum]
      case isFalse hsum =>
        rw [if_neg hsum]
        split at h
        · cases h
        case isFalse hdns =>
          rw [if_neg hdns]
          split
          · rfl
          · split
            case h_1 halloc => exact (onFlow_dns _ _ _).trans (netFlowAlloc_dns halloc)
            case h_2 => rfl

/-- A datagram with a lookup. -/
theorem netInput_of_asks {pkt : List Byte} {q : Lookup} (h : asksOf ns.core.cfg pkt = some q) :
    netInput pkt ns = dnsAsk q ns := by
  rw [asksOf] at h
  rw [netInput]
  split at h
  case h_1 src dst proto l4 hip =>
    rw [hip]
    split at h
    case isTrue hudp =>
      subst hudp
      obtain ⟨⟨gport, p⟩, hpay, hq⟩ := Option.bind_eq_some_iff.mp h
      dsimp only
      rw [if_neg (by decide), if_pos rfl, udpInput_of_payload hpay]
      exact dnsInput_of_lookupOf hq
    case isFalse => cases h
  case h_2 => cases h

/-- A datagram without one leaves the lookups alone. -/
theorem netInput_dns {pkt : List Byte} (h : asksOf ns.core.cfg pkt = none) :
    (netInput pkt ns).dns = ns.dns := by
  rw [asksOf] at h
  rw [netInput]
  generalize ipv4Of ns.core.cfg pkt = header at h ⊢
  rcases header with _ | ⟨src, dst, proto, l4⟩
  · rfl
  dsimp only at h ⊢
  by_cases hicmp : proto = 1
  · rw [if_pos hicmp]
  rw [if_neg hicmp]
  by_cases hudp : proto = 17
  · rw [if_pos hudp] at h ⊢
    cases hpay : dnsPayload ns.core.cfg src dst l4 with
    | none => exact udpInput_dns hpay
    | some found =>
      obtain ⟨gport, p⟩ := found
      rw [hpay] at h
      rw [udpInput_of_payload hpay]
      exact dnsInput_dns h
  rw [if_neg hudp]
  by_cases htcp : proto = 6
  · rw [if_pos htcp]
    exact netTcpInput_dns _ _ _ ns
  · rw [if_neg htcp]

/-! ### The slots -/

/-- A lookup waits in a slot. -/
def DnsPending.isFor (s : DnsPending) (q : Lookup) : Bool :=
  s.used && s.guestPort == q.gport && s.query == q.query

/-- How many slots a lookup waits in. -/
def slotsFor (q : Lookup) (ns : NetStack ε) : Nat :=
  (List.finRange netDnsPending).countP fun i => (ns.dns i).isFor q

/-- No lookup waits in two slots. -/
def DnsSingle (ns : NetStack ε) : Prop :=
  ∀ q i j, (ns.dns i).isFor q = true → (ns.dns j).isFor q = true → i = j

/-- A count of what holds in one place at most. -/
theorem countP_finRange {n : Nat} {p : Fin n → Bool} {i : Fin n} (h : ∀ j, p j = true → j = i) :
    (List.finRange n).countP p = if p i then 1 else 0 := by
  obtain ⟨hbefore, hbehind⟩ := not_mem_finRange_split i
  have hnone : ∀ slots : List (Fin n), i ∉ slots → slots.countP p = 0 := by
    intro slots hnot
    refine List.countP_eq_zero.mpr fun j hj hp => ?_
    exact hnot (h j hp ▸ hj)
  rw [finRange_split i, List.countP_append, List.countP_cons, hnone _ hbefore, hnone _ hbehind]
  exact (Nat.zero_add _).trans (Nat.zero_add _)

theorem slotsFor_eq_zero_iff {q : Lookup} :
    slotsFor q ns = 0 ↔ ∀ i, (ns.dns i).isFor q = false := by
  rw [slotsFor, List.countP_eq_zero]
  constructor
  · intro h i
    exact Bool.eq_false_of_not_eq_true (h i (List.mem_finRange i))
  · intro h i _
    rw [h i]
    exact Bool.false_ne_true

theorem slotsFor_eq_one {q : Lookup} {i : Fin netDnsPending} (hsingle : DnsSingle ns)
    (h : (ns.dns i).isFor q = true) : slotsFor q ns = 1 := by
  rw [slotsFor, countP_finRange fun j hj => hsingle q j i hj h, h]
  rfl

theorem DnsPending.isFor_iff {s : DnsPending} {q : Lookup} :
    s.isFor q = true ↔ s.used = true ∧ s.guestPort = q.gport ∧ s.query = q.query := by
  rw [DnsPending.isFor, Bool.and_eq_true, Bool.and_eq_true, beq_iff_eq, beq_iff_eq, and_assoc]

/-- `dns_defer` leaves the slots alone, or puts the lookup into a free one. -/
theorem dnsDefer_cases (q : Lookup) (ns : NetStack ε) :
    dnsDefer q.gport q.query q.name ns = ns ∧ (q.query = [] ∨ netDnsQueryMax < q.query.length ∨
        (∃ i, (ns.dns i).isFor q = true) ∨ ∀ i, (ns.dns i).used = true) ∨
      (q.query ≠ [] ∧ q.query.length ≤ netDnsQueryMax ∧ slotsFor q ns = 0 ∧
        ∃ i, (ns.dns i).used = false ∧ dnsDefer q.gport q.query q.name ns = { ns with
          dns := fun j => if j = i then ⟨true, q.gport, ns.core.nowMs, q.name.take 255, q.query⟩
            else ns.dns j }) := by
  rw [dnsDefer]
  by_cases hlen : q.query = [] ∨ netDnsQueryMax < q.query.length
  · rw [if_pos hlen]
    obtain hempty | hlong := hlen
    · exact .inl ⟨rfl, .inl hempty⟩
    · exact .inl ⟨rfl, .inr (.inl hlong)⟩
  rw [if_neg hlen]
  obtain ⟨hsome, hfits⟩ := not_or.mp hlen
  split
  case isTrue hany =>
    obtain ⟨i, -, hi⟩ := List.any_eq_true.mp hany
    exact .inl ⟨rfl, .inr (.inr (.inl ⟨i, hi⟩))⟩
  case isFalse hnone =>
    have hfree : slotsFor q ns = 0 := by
      rw [slotsFor_eq_zero_iff]
      intro i
      refine Bool.eq_false_of_not_eq_true fun hi => hnone ?_
      exact List.any_eq_true.mpr ⟨i, List.mem_finRange i, hi⟩
    split
    case h_1 i hfind =>
      have hunused := List.find?_some hfind
      rw [Bool.not_eq_true'] at hunused
      exact .inr ⟨hsome, not_lt.mp hfits, hfree, i, hunused, rfl⟩
    case h_2 hfull =>
      refine .inl ⟨rfl, .inr (.inr (.inr fun i => ?_))⟩
      have hused := List.find?_eq_none.mp hfull i (List.mem_finRange i)
      rw [Bool.not_eq_true', Bool.not_eq_false] at hused
      exact hused

theorem DnsSingle.dnsDefer (h : DnsSingle ns) (q : Lookup) :
    DnsSingle (dnsDefer q.gport q.query q.name ns) := by
  obtain ⟨heq, -⟩ | ⟨-, -, hfree, i, -, heq⟩ := dnsDefer_cases q ns
  · rw [heq]
    exact h
  · rw [heq]
    have hother : ∀ q' j, (ns.dns j).isFor q' = true →
        DnsPending.isFor ⟨true, q.gport, ns.core.nowMs, q.name.take 255, q.query⟩ q' = false := by
      intro q' j hj
      refine Bool.eq_false_of_not_eq_true fun hnew => ?_
      obtain ⟨hused, hport, hquery⟩ := DnsPending.isFor_iff.mp hj
      obtain ⟨-, hport', hquery'⟩ := DnsPending.isFor_iff.mp hnew
      have hsame : (ns.dns j).isFor q = true :=
        DnsPending.isFor_iff.mpr ⟨hused, hport.trans hport'.symm, hquery.trans hquery'.symm⟩
      rw [slotsFor_eq_zero_iff.mp hfree j] at hsame
      cases hsame
    intro q' j k hj hk
    dsimp only at hj hk
    split at hj
    case isTrue hji =>
      split at hk
      case isTrue hki => exact hji.trans hki.symm
      case isFalse => exact absurd hj (by rw [hother q' k hk]; exact Bool.false_ne_true)
    case isFalse =>
      split at hk
      case isTrue => exact absurd hk (by rw [hother q' j hj]; exact Bool.false_ne_true)
      case isFalse => exact h q' j k hj hk

/-! ### The tick -/

theorem netResolve_nowMs (name : List Byte) (core : NetCore ε) :
    (netResolve name core).2.nowMs = core.nowMs := by
  rw [netResolve]
  split <;> rfl

theorem dnsFinish_nowMs (gport : Port) (query : List Byte) (result : Res) (core : NetCore ε) :
    (dnsFinish gport query result core).nowMs = core.nowMs := by
  have hemit : ∀ src dst proto payload,
      (netEmit' src dst proto payload core).nowMs = core.nowMs := by
    intro src dst proto payload
    rw [netEmit', netEmit]
    split
    · rfl
    · split <;> rfl
  have hreply : ∀ qend rcode a, (dnsReply gport query qend rcode a core).nowMs = core.nowMs := by
    intro qend rcode a
    unfold dnsReply
    split
    · rfl
    · exact hemit _ _ _ _
  cases result <;> exact hreply _ _ _

theorem dnsTickSlot_nowMs (ns : NetStack ε) (i : Fin netDnsPending) :
    (dnsTickSlot ns i).core.nowMs = ns.core.nowMs := by
  rw [dnsTickSlot]
  split
  · rfl
  · have hres := netResolve_nowMs (ns.dns i).name ns.core
    dsimp only
    generalize netResolve (ns.dns i).name ns.core = r at hres ⊢
    obtain ⟨result, core⟩ := r
    split
    · exact hres
    · exact (dnsFinish_nowMs _ _ _ _).trans hres

theorem dnsTickSlot_dns_of_ne {i j : Fin netDnsPending} (hne : i ≠ j) (ns : NetStack ε) :
    (dnsTickSlot ns j).dns i = ns.dns i := by
  rw [dnsTickSlot]
  split
  · rfl
  · dsimp only
    split
    · rfl
    · exact if_neg hne

theorem foldl_dnsTickSlot_dns {i : Fin netDnsPending} {slots : List (Fin netDnsPending)}
    (hnot : i ∉ slots) (ns : NetStack ε) : (slots.foldl dnsTickSlot ns).dns i = ns.dns i := by
  induction slots generalizing ns with
  | nil => rfl
  | cons j slots ih =>
    obtain ⟨hne, hnot⟩ := not_or.mp (mt List.mem_cons.mpr hnot)
    exact (ih hnot _).trans (dnsTickSlot_dns_of_ne hne ns)

theorem foldl_dnsTickSlot_nowMs (slots : List (Fin netDnsPending)) (ns : NetStack ε) :
    (slots.foldl dnsTickSlot ns).core.nowMs = ns.core.nowMs := by
  induction slots generalizing ns with
  | nil => rfl
  | cons j slots ih => exact (ih _).trans (dnsTickSlot_nowMs ns j)

/-- A slot that `dns_tick` frees has been answered: with what the host says, or with a failure when
the time is over. -/
theorem dnsTickSlot_cases (ns : NetStack ε) (i : Fin netDnsPending)
    (hused : (ns.dns i).used = true) :
    (∃ result core, (netResolve (ns.dns i).name ns.core).2 = core ∧
      dnsTickSlot ns i = { ns with
        core := dnsFinish (ns.dns i).guestPort (ns.dns i).query result core
        dns := fun j => if j = i then .blank else ns.dns j }) ∨
      (dnsTickSlot ns i).dns = ns.dns ∧
        (ns.core.nowMs - (ns.dns i).startedMs).toNat < netDnsTimeoutMs := by
  have hno : ¬(!(ns.dns i).used) = true := by
    rw [hused]
    decide
  have hres := netResolve_nowMs (ns.dns i).name ns.core
  rw [dnsTickSlot]
  dsimp only
  rw [if_neg hno]
  generalize netResolve (ns.dns i).name ns.core = r at hres ⊢
  obtain ⟨result, core⟩ := r
  dsimp only at hres ⊢
  split
  case h_1 hearly =>
    rw [Bool.not_eq_false', decide_eq_true_iff, hres] at hearly
    exact .inr ⟨rfl, hearly⟩
  case h_2 => exact .inl ⟨_, core, rfl, rfl⟩

theorem dnsTick_dns (ns : NetStack ε) (i : Fin netDnsPending) :
    (dnsTick ns).dns i = .blank ∨ (dnsTick ns).dns i = ns.dns i ∧ ((ns.dns i).used = true →
      (ns.core.nowMs - (ns.dns i).startedMs).toNat < netDnsTimeoutMs) := by
  obtain ⟨hbefore, hbehind⟩ := not_mem_finRange_split i
  rw [dnsTick, finRange_split i, List.foldl_append, List.foldl_cons, foldl_dnsTickSlot_dns hbehind]
  have hdns := foldl_dnsTickSlot_dns hbefore ns
  have hnow := foldl_dnsTickSlot_nowMs ((List.finRange netDnsPending).take i) ns
  generalize ((List.finRange netDnsPending).take i).foldl dnsTickSlot ns = ns₁ at hdns hnow ⊢
  rw [← hdns, ← hnow]
  by_cases hused : (ns₁.dns i).used = true
  · obtain ⟨result, core, -, heq⟩ | ⟨heq, hearly⟩ := dnsTickSlot_cases ns₁ i hused
    · rw [heq]
      exact .inl (if_pos rfl)
    · exact .inr ⟨congrFun heq i, fun _ => hearly⟩
  · have hsame : dnsTickSlot ns₁ i = ns₁ := by
      rw [Bool.not_eq_true] at hused
      rw [dnsTickSlot, hused]
      rfl
    rw [hsame]
    exact .inr ⟨rfl, fun h => absurd h hused⟩

theorem netTickSlot_dns (ns : NetStack ε) (i : Fin netMaxFlows) :
    (netTickSlot ns i).dns = ns.dns := by
  rw [netTickSlot]
  split
  · rfl
  · split <;> rfl

theorem foldl_netTickSlot_dns (slots : List (Fin netMaxFlows)) (ns : NetStack ε) :
    (slots.foldl netTickSlot ns).dns = ns.dns := by
  induction slots generalizing ns with
  | nil => rfl
  | cons i slots ih => exact (ih _).trans (netTickSlot_dns ns i)

/-- A tick frees a slot, or leaves it alone because the time is not over. -/
theorem netTick_dns {now : Word} (hnow : netSeqLt now ns.core.nowMs = false)
    (i : Fin netDnsPending) :
    (netTick now ns).dns i = .blank ∨ (netTick now ns).dns i = ns.dns i ∧
      ((ns.dns i).used = true → (now - (ns.dns i).startedMs).toNat < netDnsTimeoutMs) := by
  rw [netTick, hnow, if_neg Bool.false_ne_true, foldl_netTickSlot_dns]
  exact dnsTick_dns { ns with core := { ns.core with nowMs := now } } i

theorem netTick_of_early {now : Word} (hnow : netSeqLt now ns.core.nowMs = true) :
    netTick now ns = ns := by
  rw [netTick, if_pos hnow]

/-! ### One step -/

theorem netResolve_clocked (name : List Byte) (now : Word) (ns : NetStack ε) :
    (netResolve name (ns.clocked now).core).1 = (netResolve name ns.core).1 := by
  rw [NetStack.clocked]
  split
  · rfl
  · rw [netResolve, netResolve]
    dsimp only
    split <;> rfl

theorem clocked_dns (now : Word) (ns : NetStack ε) : (ns.clocked now).dns = ns.dns := by
  rw [NetStack.clocked]
  split <;> rfl

theorem clocked_cfg (now : Word) (ns : NetStack ε) :
    (ns.clocked now).core.cfg = ns.core.cfg := by
  rw [NetStack.clocked]
  split <;> rfl

/-- A lookup that waits no more. -/
theorem dnsAsk_of_answered {q : Lookup} (h : (netResolve q.name ns.core).1.isPending = false) :
    (dnsAsk q ns).dns = ns.dns := by
  rw [dnsAsk]
  generalize netResolve q.name ns.core = r at h ⊢
  obtain ⟨result, core⟩ := r
  cases result with
  | pending => cases h
  | ok | nxdomain | fail => rfl

theorem dnsAsk_of_pending {q : Lookup} (h : (netResolve q.name ns.core).1.isPending = true) :
    ∃ core, core.nowMs = ns.core.nowMs ∧
      dnsAsk q ns = dnsDefer q.gport q.query q.name { ns with core := core } := by
  have hnow := netResolve_nowMs q.name ns.core
  rw [dnsAsk]
  generalize netResolve q.name ns.core = r at h hnow ⊢
  obtain ⟨result, core⟩ := r
  cases result with
  | pending => exact ⟨core, hnow, rfl⟩
  | ok | nxdomain | fail => cases h

theorem DnsSingle.of_dns (h : DnsSingle ns) (hdns : ns'.dns = ns.dns) : DnsSingle ns' := by
  rw [DnsSingle, hdns]
  exact h

theorem DnsSingle.dnsAsk (h : DnsSingle ns) (q : Lookup) : DnsSingle (dnsAsk q ns) := by
  cases hres : (netResolve q.name ns.core).1.isPending with
  | false => exact h.of_dns (dnsAsk_of_answered hres)
  | true =>
    obtain ⟨core, -, heq⟩ := dnsAsk_of_pending hres
    have hcore : DnsSingle { ns with core := core } := h.of_dns rfl
    rw [heq]
    exact hcore.dnsDefer q

theorem DnsSingle.netInput (h : DnsSingle ns) (pkt : List Byte) : DnsSingle (netInput pkt ns) := by
  cases hq : asksOf ns.core.cfg pkt with
  | none => exact h.of_dns (netInput_dns hq)
  | some q =>
    rw [netInput_of_asks hq]
    exact h.dnsAsk q

theorem DnsSingle.step (h : DnsSingle ns) (op : Op ε) : DnsSingle (netStep op ns) := by
  cases op with
  | input pkt => exact h.netInput pkt
  | inputAt pkt now => exact (h.of_dns (clocked_dns now ns)).netInput pkt
  | tick now =>
    rw [netStep]
    cases hnow : netSeqLt now ns.core.nowMs with
    | true =>
      rw [netTick_of_early hnow]
      exact h
    | false =>
      have hkept : ∀ q i, ((netTick now ns).dns i).isFor q = true → (ns.dns i).isFor q = true := by
        intro q i hi
        obtain hblank | ⟨hsame, -⟩ := netTick_dns hnow i
        · rw [hblank] at hi
          cases hi
        · exact hsame ▸ hi
      exact fun q i j hi hj => h q i j (hkept q i hi) (hkept q j hj)
  | output cap =>
    refine h.of_dns ?_
    rw [netStep, netOutput]
    split
    · rfl
    · split <;> rfl
  | host ctx => exact h.of_dns rfl

theorem Reached.dnsSingle {ok : NetStack ε → Op ε → Prop} (h : Reached ok ns) : DnsSingle ns := by
  obtain ⟨cfg, eg, ctx, run⟩ := h
  have hinit : DnsSingle (netInit cfg eg ctx) := by
    intro q i j hi
    cases hi
  exact run.keeps (fun _ op _ hs => hs.step op) hinit

/-! ### What is handed to `net_emit` -/

/-- A reply is one to a lookup. -/
def Reply.isFor (r : Reply) (q : Lookup) : Bool := r.gport == q.gport && r.query == q.query

theorem Reply.isFor_iff {r : Reply} {q : Lookup} :
    r.isFor q = true ↔ r.gport = q.gport ∧ r.query = q.query := by
  rw [Reply.isFor, Bool.and_eq_true, beq_iff_eq, beq_iff_eq]

/-- A datagram for the guest that answers a lookup: it goes to the port that has asked, and its
message has the identifier and the question of the query. -/
def Answers (q : Lookup) (cfg : Config) (datagram : List Byte) : Prop :=
  ∃ message, datagram = udpDatagram cfg.dnsIp cfg.guestIp 53 q.gport message ∧
    message.take 2 = q.query.take 2 ∧ q.query.drop 12 <+: message.drop 12

/-- A lookup whose query is no longer than one with the longest name, and ends with a question for an
A record of the Internet. -/
structure Lookup.Sound (q : Lookup) : Prop where
  le : q.query.length ≤ 272
  question : ∃ nl, q.query.length = 12 + nl + 4 ∧ netRd16 q.query (12 + nl) = 1 ∧
    netRd16 q.query (12 + nl + 2) = 1

theorem Lookup.Sound.le_length {q : Lookup} (h : q.Sound) : 16 ≤ q.query.length := by
  obtain ⟨nl, hlen, -⟩ := h.question
  omega

/-- Between two states, a number of replies to a lookup are handed to `net_emit`, beside replies to
others. Each of them answers it. -/
structure Hands (q : Lookup) (n : Nat) (core core' : NetCore ε) : Prop where
  cfg : core'.cfg = core.cfg
  replied : ∃ rs : List Reply, core'.replied = core.replied ++ rs ∧
    (rs.filter (·.isFor q)).length = n ∧
    ∀ r ∈ rs.filter (·.isFor q), Answers q core.cfg r.datagram

section Hands

variable {q : Lookup} {n m : Nat} {core core' core'' : NetCore ε}

theorem Hands.none (hcfg : core'.cfg = core.cfg) (hreplied : core'.replied = core.replied) :
    Hands q 0 core core' :=
  ⟨hcfg, [], hreplied.trans (List.append_nil _).symm, rfl, fun _ h => absurd h List.not_mem_nil⟩

theorem Hands.of_eq (h : Hands q n core core') (hm : m = n) : Hands q m core core' := hm ▸ h

theorem Hands.trans (h : Hands q n core core') (h' : Hands q m core' core'') :
    Hands q (n + m) core core'' := by
  obtain ⟨hcfg, rs, hrs, hlen, hall⟩ := h
  obtain ⟨hcfg', rs', hrs', hlen', hall'⟩ := h'
  refine ⟨hcfg'.trans hcfg, rs ++ rs', ?_, ?_, ?_⟩
  · rw [hrs', hrs, List.append_assoc]
  · rw [List.filter_append, List.length_append, hlen, hlen']
  · intro r hr
    rw [List.filter_append] at hr
    obtain hr | hr := List.mem_append.mp hr
    · exact hall r hr
    · exact hcfg ▸ hall' r hr

theorem netEmit'_cfg (src dst : Word) (proto : Nat) (payload : List Byte) (core : NetCore ε) :
    (netEmit' src dst proto payload core).cfg = core.cfg := by
  rw [netEmit', netEmit]
  split
  · rfl
  · split <;> rfl

/-- `dns_reply` hands a datagram to `net_emit`, and that answers what it is a reply to. -/
theorem hands_dnsReply (hq : q.Sound) (gport : Port) (p : List Byte) (qend : Nat)
    (rcode : BitVec 16) (a : Option Word) (core : NetCore ε) :
    Hands q (if qend + 16 + 8 ≤ netMtu - ipv4HdrLen - 8 ∧ gport = q.gport ∧ p.take qend = q.query
      then 1 else 0) core (dnsReply gport p qend rcode a core) := by
  unfold dnsReply
  by_cases hlong : qend + 16 + 8 > netMtu - ipv4HdrLen - 8
  · rw [if_pos hlong, if_neg fun h => absurd h.1 (not_le.mpr hlong)]
    exact .none rfl rfl
  rw [if_neg hlong]
  dsimp only
  refine ⟨netEmit'_cfg _ _ _ _ _, [_], rfl, ?_⟩
  by_cases hfor : gport = q.gport ∧ p.take qend = q.query
  · have hone : (if qend + 16 + 8 ≤ netMtu - ipv4HdrLen - 8 ∧ gport = q.gport ∧
        p.take qend = q.query then 1 else 0) = 1 := if_pos ⟨not_lt.mp hlong, hfor⟩
    rw [hone, List.filter_singleton, Reply.isFor_iff.mpr hfor]
    refine ⟨rfl, fun r hr => ?_⟩
    rw [List.mem_singleton.mp hr]
    obtain ⟨rfl, hquery⟩ := hfor
    have hlen := hq.le_length
    have hle : (p.take qend).length = min qend p.length := List.length_take
    have hid : (p.take 2).length = 2 := List.length_take_of_le (by rw [hquery] at hle; omega)
    refine ⟨_, rfl, ?_, ?_⟩
    · rw [List.append_assoc, List.append_assoc, List.append_assoc, List.append_assoc,
        List.append_assoc, List.take_left' hid, ← hquery, List.take_take,
        Nat.min_eq_left (by rw [hquery] at hle; omega)]
    · have hhead (flags qd an : BitVec 16) : (p.take 2 ++ netWr16 flags ++ netWr16 qd ++
          netWr16 an ++ netWr32 0).length = 12 := by
        simp only [List.length_append, length_netWr16, length_netWr32, hid]
      rw [← hquery, List.append_assoc, List.drop_left' (hhead _ _ _)]
      exact List.prefix_append _ _
  · have hnone : (if qend + 16 + 8 ≤ netMtu - ipv4HdrLen - 8 ∧ gport = q.gport ∧
        p.take qend = q.query then 1 else 0) = 0 := if_neg fun h => hfor h.2
    have hother (datagram : List Byte) :
        Reply.isFor ⟨gport, p.take qend, datagram⟩ q = false := by
      rw [← Bool.not_eq_true, Reply.isFor_iff]
      exact hfor
    rw [hnone, List.filter_singleton, hother]
    exact ⟨rfl, fun _ h => absurd h List.not_mem_nil⟩

theorem hands_dnsFinish (hq : q.Sound) (gport : Port) (query : List Byte) (result : Res)
    (core : NetCore ε) : Hands q (if gport = q.gport ∧ query = q.query then 1 else 0) core
      (dnsFinish gport query result core) := by
  have hreply (rcode : BitVec 16) (a : Option Word) :
      Hands q (if gport = q.gport ∧ query = q.query then 1 else 0) core
        (dnsReply gport query query.length rcode a core) := by
    have h := hands_dnsReply hq gport query query.length rcode a core
    rw [List.take_length] at h
    have hroom : query = q.query → query.length + 16 + 8 ≤ netMtu - ipv4HdrLen - 8 := by
      intro hsame
      have hle := hq.le
      rw [hsame, netMtu, ipv4HdrLen]
      omega
    exact h.of_eq (if_congr ⟨fun hall => ⟨hroom hall.2, hall⟩, fun hall => hall.2⟩ rfl rfl)
  cases result with
  | ok address => exact hreply _ _
  | nxdomain | pending | fail => exact hreply _ _

theorem hands_netResolve (name : List Byte) (core : NetCore ε) :
    Hands q 0 core (netResolve name core).2 := by
  rw [netResolve]
  split <;> exact .none rfl rfl

theorem dnsDefer_core (gport : Port) (query name : List Byte) (ns : NetStack ε) :
    (dnsDefer gport query name ns).core = ns.core := by
  rw [dnsDefer]
  split
  · rfl
  split
  · rfl
  split <;> rfl

/-- A lookup is answered at once unless the host is still looking. -/
theorem hands_dnsAsk (hq : q.Sound) (q' : Lookup) (ns : NetStack ε) :
    Hands q (if (q'.gport = q.gport ∧ q'.query = q.query) ∧
      (netResolve q'.name ns.core).1.isPending = false then 1 else 0) ns.core
        (dnsAsk q' ns).core := by
  have hres := hands_netResolve (q := q) q'.name ns.core
  rw [dnsAsk]
  generalize netResolve q'.name ns.core = r at hres ⊢
  obtain ⟨result, core⟩ := r
  have hfinish := hres.trans (hands_dnsFinish hq q'.gport q'.query result core)
  rw [Nat.zero_add] at hfinish
  cases result with
  | pending =>
    rw [if_neg fun h => Bool.noConfusion h.2, dnsDefer_core]
    exact hres
  | ok | nxdomain | fail =>
    exact hfinish.of_eq (if_congr (and_iff_left rfl) rfl rfl)

/-- What is no lookup is not answered like one. -/
theorem hands_dnsInput_none (hq : q.Sound) {gport : Port} {p : List Byte}
    (h : lookupOf gport p = none) (ns : NetStack ε) :
    Hands q 0 ns.core (dnsInput gport p ns).core := by
  obtain ⟨nl', hlen', htype', hclass'⟩ := hq.question
  have hreply (qend : Nat) (rcode : BitVec 16) (hne : p.take qend ≠ q.query) :
      Hands q 0 ns.core (dnsReply gport p qend rcode none ns.core) := by
    have hr := hands_dnsReply hq gport p qend rcode none ns.core
    rwa [if_neg fun hall => hne hall.2.2] at hr
  have hform (rcode : BitVec 16) : Hands q 0 ns.core (dnsReply gport p 12 rcode none ns.core) := by
    refine hreply 12 rcode fun hsame => ?_
    have hle := hq.le_length
    rw [← hsame, List.length_take] at hle
    omega
  rw [lookupOf] at h
  rw [dnsInput]
  dsimp only
  by_cases hlen : p.length < 12
  · rw [if_pos hlen]
    exact .none rfl rfl
  rw [if_neg hlen]
  by_cases hqr : netRd16 p 2 &&& dnsQr ≠ 0
  · rw [if_pos hqr]
    exact .none rfl rfl
  rw [if_neg hqr]
  by_cases hone : netRd16 p 4 ≠ 1
  · rw [if_pos hone]
    exact hform _
  rw [if_neg hone]
  rw [if_neg (not_or.mpr ⟨hlen, not_or.mpr ⟨hqr, hone⟩⟩)] at h
  cases hname : dnsName (p.drop 12) 256 with
  | none => exact hform _
  | some found =>
    obtain ⟨nl, name⟩ := found
    rw [hname] at h
    dsimp only at h ⊢
    by_cases hroom : p.length < 12 + nl + 4
    · rw [if_pos hroom]
      exact hform _
    rw [if_neg hroom]
    -- A reply to the whole question is one to the lookup only if type and class are the same.
    have hother (hq' : netRd16 p (12 + nl + 2) ≠ 1 ∨ netRd16 p (12 + nl) ≠ 1) :
        p.take (12 + nl + 4) ≠ q.query := by
      intro hsame
      have hcut : (p.take (12 + nl + 4)).length = 12 + nl + 4 :=
        List.length_take_of_le (not_lt.mp hroom)
      have hnl : nl' = nl := by
        rw [hsame, hlen'] at hcut
        omega
      subst hnl
      have hat (k : Nat) (hk : k + 1 < 12 + nl' + 4) :
          netRd16 (p.take (12 + nl' + 4)) k = netRd16 p k := by
        rw [netRd16, netRd16, List.getD_eq_getElem?_getD, List.getD_eq_getElem?_getD,
          List.getElem?_take_of_lt (by omega), List.getElem?_take_of_lt hk,
          ← List.getD_eq_getElem?_getD, ← List.getD_eq_getElem?_getD]
      rw [← hsame, hat _ (by omega)] at htype' hclass'
      exact hq'.elim (fun hne => hne hclass') fun hne => hne htype'
    by_cases hclass : netRd16 p (12 + nl + 2) ≠ 1
    · rw [if_pos hclass]
      exact hreply _ _ (hother (.inl hclass))
    rw [if_neg hclass]
    by_cases haaaa : netRd16 p (12 + nl) = 28
    · rw [if_pos haaaa]
      refine hreply _ _ (hother (.inr ?_))
      rw [haaaa]
      decide
    rw [if_neg haaaa]
    by_cases htype : netRd16 p (12 + nl) ≠ 1
    · rw [if_pos htype]
      exact hreply _ _ (hother (.inr htype))
    · rw [if_neg (not_or.mpr ⟨hroom, not_or.mpr ⟨hclass, htype⟩⟩)] at h
      cases h

/-- A tick leaves a slot alone, or it answers the lookup in it and frees it. -/
theorem dnsTickSlot_hands (hq : q.Sound) (ns : NetStack ε) (j : Fin netDnsPending) :
    (dnsTickSlot ns j).dns = ns.dns ∧ Hands q 0 ns.core (dnsTickSlot ns j).core ∨
      (ns.dns j).used = true ∧ (dnsTickSlot ns j).dns j = .blank ∧
        Hands q (if (ns.dns j).guestPort = q.gport ∧ (ns.dns j).query = q.query then 1 else 0)
          ns.core (dnsTickSlot ns j).core := by
  have hres := hands_netResolve (q := q) (ns.dns j).name ns.core
  rw [dnsTickSlot]
  cases hused : (ns.dns j).used with
  | false => exact .inl ⟨rfl, .none rfl rfl⟩
  | true =>
    rw [if_neg (show ¬(!true) = true by decide)]
    dsimp only
    generalize netResolve (ns.dns j).name ns.core = r at hres ⊢
    obtain ⟨result, core⟩ := r
    have hfinish := hres.trans
      (hands_dnsFinish hq (ns.dns j).guestPort (ns.dns j).query result core)
    rw [Nat.zero_add] at hfinish
    dsimp only
    split
    · exact .inl ⟨rfl, hres⟩
    · exact .inr ⟨rfl, if_pos rfl, hfinish⟩

/-- A tick answers the lookup in a slot exactly if it frees the slot. -/
theorem hands_dnsTickSlot (hq : q.Sound) (ns : NetStack ε) (j : Fin netDnsPending) :
    Hands q (if (ns.dns j).isFor q = true ∧ ((dnsTickSlot ns j).dns j).used = false then 1 else 0)
      ns.core (dnsTickSlot ns j).core := by
  obtain ⟨hsame, h⟩ | ⟨hused, hblank, h⟩ := dnsTickSlot_hands hq ns j
  · refine h.of_eq (if_neg fun hall => ?_)
    rw [hsame] at hall
    exact Bool.false_ne_true (hall.2.symm.trans (DnsPending.isFor_iff.mp hall.1).1)
  · refine h.of_eq (if_congr ?_ rfl rfl)
    rw [hblank, DnsPending.isFor_iff, and_iff_right hused]
    exact and_iff_left rfl

theorem isFor_dnsTickSlot {ns : NetStack ε} {j k : Fin netDnsPending}
    (h : (ns.dns k).isFor q = false) : ((dnsTickSlot ns j).dns k).isFor q = false := by
  by_cases hkj : k = j
  · subst hkj
    rw [dnsTickSlot]
    split
    · exact h
    · dsimp only
      split
      · exact h
      · dsimp only
        rw [if_pos rfl]
        rfl
  · rw [dnsTickSlot_dns_of_ne hkj]
    exact h

theorem exists_hands_foldl (hq : q.Sound) (slots : List (Fin netDnsPending)) (ns : NetStack ε) :
    ∃ n, Hands q n ns.core (slots.foldl dnsTickSlot ns).core := by
  induction slots generalizing ns with
  | nil => exact ⟨0, .none rfl rfl⟩
  | cons j slots ih =>
    obtain ⟨n, h⟩ := ih (dnsTickSlot ns j)
    exact ⟨_, (hands_dnsTickSlot hq ns j).trans h⟩

theorem hands_foldl (hq : q.Sound) {slots : List (Fin netDnsPending)} {ns : NetStack ε}
    (h : ∀ j ∈ slots, (ns.dns j).isFor q = false) :
    Hands q 0 ns.core (slots.foldl dnsTickSlot ns).core := by
  induction slots generalizing ns with
  | nil => exact .none rfl rfl
  | cons j slots ih =>
    have hone := hands_dnsTickSlot hq ns j
    have hj := h j List.mem_cons_self
    rw [if_neg fun hall => Bool.false_ne_true (hj.symm.trans hall.1)] at hone
    exact hone.trans (ih fun k hk => isFor_dnsTickSlot (h k (List.mem_cons_of_mem _ hk)))

/-- A tick answers a lookup once if it frees its slot, and not at all otherwise. -/
theorem hands_dnsTick (hq : q.Sound) {ns : NetStack ε} (hsingle : DnsSingle ns)
    {i : Fin netDnsPending} (h : (ns.dns i).isFor q = true) :
    Hands q (if ((dnsTick ns).dns i).used then 0 else 1) ns.core (dnsTick ns).core := by
  obtain ⟨hbefore, hbehind⟩ := not_mem_finRange_split i
  have hother {ns' : NetStack ε} {slots : List (Fin netDnsPending)} (hnot : i ∉ slots)
      (hns' : ∀ j, (ns.dns j).isFor q = false → (ns'.dns j).isFor q = false) :
      ∀ j ∈ slots, (ns'.dns j).isFor q = false := by
    refine fun j hj => hns' j (Bool.eq_false_of_not_eq_true fun hj' => hnot ?_)
    exact hsingle q j i hj' h ▸ hj
  have hkeep (slots : List (Fin netDnsPending)) (ns' : NetStack ε) {j : Fin netDnsPending}
      (hj : (ns'.dns j).isFor q = false) :
      ((slots.foldl dnsTickSlot ns').dns j).isFor q = false := by
    induction slots generalizing ns' with
    | nil => exact hj
    | cons k slots ih => exact ih _ (isFor_dnsTickSlot hj)
  rw [dnsTick, finRange_split i, List.foldl_append, List.foldl_cons, foldl_dnsTickSlot_dns hbehind]
  have hfirst := hands_foldl hq (hother hbefore fun _ hj => hj)
  have hdns := foldl_dnsTickSlot_dns hbefore ns
  have hkept (j : Fin netDnsPending) := hkeep ((List.finRange netDnsPending).take i) ns (j := j)
  generalize ((List.finRange netDnsPending).take i).foldl dnsTickSlot ns = ns₁ at hfirst hdns hkept ⊢
  have hone := hands_dnsTickSlot hq ns₁ i
  have hlast := hands_foldl hq
    (hother hbehind fun _ hj => isFor_dnsTickSlot (j := i) (hkept _ hj))
  rw [hdns, h] at hone
  have hall := (hfirst.trans hone).trans hlast
  rw [Nat.zero_add, Nat.add_zero] at hall
  refine hall.of_eq ?_
  cases ((dnsTickSlot ns₁ i).dns i).used <;> rfl

end Hands

/-! ### Outcomes -/

/-- The same port asks the same question in the same message. -/
def Lookup.Same (q q' : Lookup) : Prop := q.gport = q'.gport ∧ q.query = q'.query

instance (q q' : Lookup) : Decidable (q.Same q') := by unfold Lookup.Same; infer_instance

/-- The host is still looking for the name of a lookup. -/
def NetStack.looking (ns : NetStack ε) (q : Lookup) : Bool :=
  (netResolve q.name ns.core).1.isPending

/-- What a datagram of the guest brings to `dns_input`. -/
def dnsQueryOf (cfg : Config) (pkt : List Byte) : Option (Port × List Byte) :=
  match ipv4Of cfg pkt with
  | some (src, dst, proto, l4) => if proto = 17 then dnsPayload cfg src dst l4 else none
  | none => none

/-- The replies that are handed to `net_emit` between two states. -/
def repliesBetween (core core' : NetCore ε) : List Reply := core'.replied.drop core.replied.length

/-- The replies that a datagram of the guest has handed to `net_emit`. -/
def inputReplies (pkt : List Byte) (ns : NetStack ε) : List Reply :=
  match dnsQueryOf ns.core.cfg pkt with
  | some (gport, p) => repliesBetween ns.core (dnsInput gport p ns).core
  | none => []

/-- The replies that a step has the resolver hand to `net_emit`. -/
def Op.replies (op : Op ε) (ns : NetStack ε) : List Reply :=
  match op with
  | .input pkt => inputReplies pkt ns
  | .inputAt pkt now => inputReplies pkt (ns.clocked now)
  | .tick now =>
    if netSeqLt now ns.core.nowMs then []
    else repliesBetween ns.core
      (dnsTick { ns with core := { ns.core with nowMs := now } }).core
  | _ => []

/-- The replies to a lookup that a step hands to `net_emit`. -/
def replies (q : Lookup) (op : Op ε) (ns : NetStack ε) : List Reply :=
  (op.replies ns).filter (·.isFor q)

/-- The counters that a datagram of the guest increments in `dns_input`. -/
def inputCounts (pkt : List Byte) (ns : NetStack ε) : List Counter :=
  match dnsQueryOf ns.core.cfg pkt with
  | some (gport, p) => dnsInputCounts gport p ns
  | none => []

/-- The counters that a step increments in `dns_input`. -/
def Op.counts (op : Op ε) (ns : NetStack ε) : List Counter :=
  match op with
  | .input pkt => inputCounts pkt ns
  | .inputAt pkt now => inputCounts pkt (ns.clocked now)
  | _ => []

/-- How often a step that brings a lookup counts it in `dns_pending_full`. -/
def turnedAway (q : Lookup) (op : Op ε) (ns : NetStack ε) : Nat :=
  match op.asks ns with
  | some q' => if q'.Same q then (op.counts ns).count .dnsPendingFull else 0
  | none => 0

theorem replies_of_hands {q : Lookup} {n : Nat} {core core' : NetCore ε}
    (h : Hands q n core core') :
    ((repliesBetween core core').filter (·.isFor q)).length = n ∧
      ∀ r ∈ (repliesBetween core core').filter (·.isFor q), Answers q core.cfg r.datagram := by
  obtain ⟨-, rs, hrs, hlen, hall⟩ := h
  rw [repliesBetween, hrs, List.drop_left]
  exact ⟨hlen, hall⟩

/-- A datagram of the guest has a lookup answered if it brings that lookup and the host does not
keep looking. -/
theorem inputReplies_spec {q : Lookup} (hq : q.Sound) (pkt : List Byte) (ns : NetStack ε) :
    ((inputReplies pkt ns).filter (·.isFor q)).length =
        (match asksOf ns.core.cfg pkt with
          | some q' => if q'.Same q ∧ ns.looking q' = false then 1 else 0
          | none => 0) ∧
      ∀ r ∈ (inputReplies pkt ns).filter (·.isFor q), Answers q ns.core.cfg r.datagram := by
  have hasks : asksOf ns.core.cfg pkt =
      (dnsQueryOf ns.core.cfg pkt).bind fun (gport, p) => lookupOf gport p := by
    rw [asksOf, dnsQueryOf]
    split
    · split <;> rfl
    · rfl
  rw [hasks, inputReplies]
  cases dnsQueryOf ns.core.cfg pkt with
  | none => exact ⟨rfl, fun _ h => absurd h List.not_mem_nil⟩
  | some found =>
    obtain ⟨gport, p⟩ := found
    dsimp only [Option.bind_some]
    cases hlookup : lookupOf gport p with
    | none => exact replies_of_hands (hands_dnsInput_none hq hlookup ns)
    | some q' =>
      dsimp only
      rw [dnsInput_of_lookupOf hlookup]
      have h := replies_of_hands (hands_dnsAsk hq q' ns)
      exact ⟨h.1.trans (if_congr Iff.rfl rfl rfl), h.2⟩

theorem looking_clocked (now : Word) (ns : NetStack ε) (q : Lookup) :
    (ns.clocked now).looking q = ns.looking q := by
  rw [NetStack.looking, netResolve_clocked]
  rfl

/-- The replies of all steps but the ticks. -/
theorem length_replies {q : Lookup} (hq : q.Sound) {op : Op ε} (hop : ∀ now, op ≠ .tick now)
    (ns : NetStack ε) : (replies q op ns).length =
      match op.asks ns with
      | some q' => if q'.Same q ∧ ns.looking q' = false then 1 else 0
      | none => 0 := by
  cases op with
  | input pkt => exact (inputReplies_spec hq pkt ns).1
  | inputAt pkt now =>
    have h := (inputReplies_spec hq pkt (ns.clocked now)).1
    rw [clocked_cfg] at h
    simp only [looking_clocked] at h
    exact h
  | tick now => exact absurd rfl (hop now)
  | output | host => rfl

/-- Each reply to a lookup answers it. -/
theorem answers_of_mem_replies {q : Lookup} (hq : q.Sound) {op : Op ε} {ns : NetStack ε} {r : Reply}
    (hr : r ∈ replies q op ns) : Answers q ns.core.cfg r.datagram := by
  cases op with
  | input pkt => exact (inputReplies_spec hq pkt ns).2 r hr
  | inputAt pkt now =>
    rw [← clocked_cfg now ns]
    exact (inputReplies_spec hq pkt (ns.clocked now)).2 r hr
  | tick now =>
    rw [replies, Op.replies] at hr
    split at hr
    · cases hr
    · obtain ⟨n, h⟩ := exists_hands_foldl hq (List.finRange netDnsPending)
        { ns with core := { ns.core with nowMs := now } }
      exact (replies_of_hands h).2 r hr
  | output | host => cases hr

/-- What is counted for a lookup is what is counted for the answer of the host. -/
theorem dnsInputCounts_of_lookup {gport : Port} {p : List Byte} {q : Lookup}
    (h : lookupOf gport p = some q) (ns : NetStack ε) :
    dnsInputCounts gport p ns =
      match netResolve q.name ns.core with
      | (.pending, core) => dnsDeferCounts q.gport q.query { ns with core := core }
      | (result, _) => dnsFinishCounts q.query.length result := by
  rw [lookupOf] at h
  rw [dnsInputCounts]
  dsimp only
  by_cases hhead : p.length < 12 ∨ netRd16 p 2 &&& dnsQr ≠ 0 ∨ netRd16 p 4 ≠ 1
  · rw [if_pos hhead] at h
    cases h
  rw [if_neg hhead] at h
  simp only [not_or, not_not] at hhead
  obtain ⟨hlen, hqr, hone⟩ := hhead
  rw [if_neg hlen, if_neg (not_not.mpr hqr), if_neg (not_not.mpr hone)]
  cases hname : dnsName (p.drop 12) 256 with
  | none =>
    rw [hname] at h
    cases h
  | some found =>
    obtain ⟨nl, name⟩ := found
    rw [hname] at h
    dsimp only at h ⊢
    by_cases hask : p.length < 12 + nl + 4 ∨ netRd16 p (12 + nl + 2) ≠ 1 ∨
        netRd16 p (12 + nl) ≠ 1
    · rw [if_pos hask] at h
      cases h
    rw [if_neg hask] at h
    simp only [not_or, not_not] at hask
    obtain ⟨hroom, hclass, htype⟩ := hask
    cases h
    have haaaa : ¬netRd16 p (12 + nl) = 28 := by
      rw [htype]
      decide
    exact (if_neg hroom).trans <| (if_neg (not_not.mpr hclass)).trans <|
      (if_neg haaaa).trans <| if_neg (not_not.mpr htype)

/-- `dns_pending_full` is counted for a lookup when the host keeps looking and there is neither a
slot for it nor a free one. -/
theorem count_dnsInputCounts {gport : Port} {p : List Byte} {q : Lookup} (hq : q.Sound)
    (h : lookupOf gport p = some q) (ns : NetStack ε) :
    (dnsInputCounts gport p ns).count .dnsPendingFull =
      if ns.looking q = true ∧ q.query.length ≤ netDnsQueryMax ∧ slotsFor q ns = 0 ∧
        ∀ i, (ns.dns i).used = true then 1 else 0 := by
  have hreply (qend : Nat) : (dnsReplyCounts qend).count .dnsPendingFull = 0 := by
    rw [dnsReplyCounts]
    split <;> rfl
  rw [dnsInputCounts_of_lookup h, NetStack.looking]
  generalize netResolve q.name ns.core = r
  obtain ⟨result, core⟩ := r
  cases result with
  | pending =>
    dsimp only
    rw [dnsDeferCounts]
    by_cases hlen : q.query = [] ∨ netDnsQueryMax < q.query.length
    · have hlong : ¬q.query.length ≤ netDnsQueryMax := by
        obtain hempty | hlong := hlen
        · have hle := hq.le_length
          rw [hempty] at hle
          exact absurd hle (by decide)
        · exact not_le.mpr hlong
      rw [if_pos hlen, if_neg fun hall => hlong hall.2.1]
      rfl
    rw [if_neg hlen]
    by_cases hany : ((List.finRange netDnsPending).any fun i =>
        (ns.dns i).used && (ns.dns i).guestPort == q.gport && (ns.dns i).query == q.query) = true
    · rw [if_pos hany, if_neg fun hall => ?_]
      · rfl
      · obtain ⟨i, -, hi⟩ := List.any_eq_true.mp hany
        exact Bool.false_ne_true ((slotsFor_eq_zero_iff.mp hall.2.2.1 i).symm.trans hi)
    rw [if_neg hany]
    have hnone : slotsFor q ns = 0 := by
      rw [slotsFor_eq_zero_iff]
      intro i
      refine Bool.eq_false_of_not_eq_true fun hi => hany ?_
      exact List.any_eq_true.mpr ⟨i, List.mem_finRange i, hi⟩
    cases hfree : (List.finRange netDnsPending).find? fun i => !(ns.dns i).used with
    | some i =>
      have hunused := List.find?_some hfree
      rw [Bool.not_eq_true'] at hunused
      rw [if_neg fun hall => Bool.false_ne_true (hunused.symm.trans (hall.2.2.2 i))]
      rfl
    | none =>
      have hfull (i : Fin netDnsPending) : (ns.dns i).used = true := by
        have hused := List.find?_eq_none.mp hfree i (List.mem_finRange i)
        rwa [Bool.not_eq_true', Bool.not_eq_false] at hused
      exact (if_pos ⟨rfl, not_lt.mp (not_or.mp hlen).2, hnone, hfull⟩).symm
  | ok | nxdomain =>
    rw [if_neg fun hall => Bool.false_ne_true hall.1]
    exact hreply _
  | fail =>
    rw [if_neg fun hall => Bool.false_ne_true hall.1]
    exact (List.count_append ..).trans (congrArg (· + 0) (hreply _))

theorem sound_of_lookupOf {gport : Port} {p : List Byte} {q : Lookup}
    (h : lookupOf gport p = some q) : q.Sound := by
  rw [lookupOf] at h
  split at h
  · cases h
  · split at h
    · cases h
    case h_2 nl name hname =>
      obtain ⟨ls, -, -, hle, heq⟩ := (dnsName_eq_some_iff _ _).mp hname
      have hnl : nl = (nameWire ls).length := congrArg Prod.fst heq
      split at h
      · cases h
      case isFalse hask =>
        simp only [not_or, not_not] at hask
        obtain ⟨hroom, hclass, htype⟩ := hask
        cases h
        have hlen : (p.take (12 + nl + 4)).length = 12 + nl + 4 :=
          List.length_take_of_le (not_lt.mp hroom)
        have hat (k : Nat) (hk : k + 1 < 12 + nl + 4) :
            netRd16 (p.take (12 + nl + 4)) k = netRd16 p k := by
          rw [netRd16, netRd16, List.getD_eq_getElem?_getD, List.getD_eq_getElem?_getD,
            List.getElem?_take_of_lt (by omega), List.getElem?_take_of_lt hk,
            ← List.getD_eq_getElem?_getD, ← List.getD_eq_getElem?_getD]
        refine ⟨?_, nl, hlen, (hat _ (by omega)).trans htype, (hat _ (by omega)).trans hclass⟩
        rw [hlen]
        omega

theorem sound_of_asks {op : Op ε} {q : Lookup} (h : op.asks ns = some q) : q.Sound := by
  have hpkt : ∀ pkt, asksOf ns.core.cfg pkt = some q → q.Sound := by
    intro pkt hq
    rw [asksOf] at hq
    split at hq
    · split at hq
      · obtain ⟨⟨gport, p⟩, -, hp⟩ := Option.bind_eq_some_iff.mp hq
        exact sound_of_lookupOf hp
      · cases hq
    · cases hq
  cases op with
  | input pkt => exact hpkt pkt h
  | inputAt pkt now => exact hpkt pkt h
  | tick | output | host => cases h

theorem count_inputCounts {pkt : List Byte} {q : Lookup} (h : asksOf ns.core.cfg pkt = some q) :
    (inputCounts pkt ns).count .dnsPendingFull =
      if ns.looking q = true ∧ q.query.length ≤ netDnsQueryMax ∧ slotsFor q ns = 0 ∧
        ∀ i, (ns.dns i).used = true then 1 else 0 := by
  rw [asksOf] at h
  rw [inputCounts, dnsQueryOf]
  split at h
  case h_1 src dst proto l4 hip =>
    split at h
    case isTrue hudp =>
      obtain ⟨⟨gport, p⟩, hpay, hp⟩ := Option.bind_eq_some_iff.mp h
      rw [if_pos hudp, hpay]
      exact count_dnsInputCounts (sound_of_lookupOf hp) hp ns
    case isFalse => cases h
  case h_2 => cases h

/-- A lookup is turned away when the host keeps looking, and there is neither a slot for it nor a
free one. -/
theorem turnedAway_eq (q : Lookup) (op : Op ε) (ns : NetStack ε) :
    turnedAway q op ns =
      match op.asks ns with
      | some q' =>
        if q'.Same q ∧ ns.looking q' = true ∧ q'.query.length ≤ netDnsQueryMax ∧
          slotsFor q ns = 0 ∧ ∀ i, (ns.dns i).used = true then 1 else 0
      | none => 0 := by
  have hslots {q' : Lookup} (hsame : q'.Same q) : slotsFor q' ns = slotsFor q ns := by
    have hfor : (fun i => (ns.dns i).isFor q') = fun i => (ns.dns i).isFor q := by
      funext i
      rw [DnsPending.isFor, DnsPending.isFor, hsame.1, hsame.2]
    rw [slotsFor, hfor, slotsFor]
  rw [turnedAway]
  cases hasks : op.asks ns with
  | none => rfl
  | some q' =>
    dsimp only
    by_cases hsame : q'.Same q
    case neg => rw [if_neg hsame, if_neg fun hall => hsame hall.1]
    rw [if_pos hsame, if_congr (and_iff_right hsame) rfl rfl, ← hslots hsame]
    cases op with
    | input pkt => exact count_inputCounts hasks
    | inputAt pkt now =>
      have hclocked : asksOf (ns.clocked now).core.cfg pkt = some q' := by
        rw [clocked_cfg]
        exact hasks
      have h := count_inputCounts hclocked
      rw [looking_clocked, slotsFor, clocked_dns] at h
      exact h
    | tick | output | host => cases hasks

/-- The clock of the stack when an action is taken. -/
def Op.clock (op : Op ε) (ns : NetStack ε) : Word :=
  match op with
  | .inputAt _ now | .tick now => (ns.clocked now).core.nowMs
  | _ => ns.core.nowMs

/-- A tick that comes `NET_DNS_TIMEOUT_MS` or more behind a lookup. -/
def overdue (since : Word) (op : Op ε) (ns : NetStack ε) : Bool :=
  match op with
  | .tick now => !netSeqLt now ns.core.nowMs && decide (netDnsTimeoutMs ≤ (now - since).toNat)
  | _ => false

/-- From the arrival of a lookup on, it waits in one slot until it has its outcome, which is one
reply or being turned away, and it does not wait behind a tick that is overdue. -/
def exactlyOnce (q : Lookup) (since : Word) : List (Op ε) → NetStack ε → Bool
  | [], _ => true
  | op :: ops, ns =>
    match slotsFor q (netStep op ns) with
    | 0 => (replies q op ns).length + turnedAway q op ns == 1
    | 1 => (replies q op ns).length + turnedAway q op ns == 0 && !overdue since op ns &&
        exactlyOnce q since ops (netStep op ns)
    | _ => false

/-- As long as a lookup waits, the host keeps looking whenever the guest asks again. -/
def undisturbed (q : Lookup) : List (Op ε) → NetStack ε → Bool
  | [], _ => true
  | op :: ops, ns =>
    (match op.asks ns with
      | some q' => !decide (q'.Same q) || ns.looking q'
      | none => true) &&
    (slotsFor q (netStep op ns) == 0 || undisturbed q ops (netStep op ns))

/-- A lookup waits in a slot since a point of time. -/
structure Waits (q : Lookup) (since : Word) (i : Fin netDnsPending) (ns : NetStack ε) : Prop where
  isFor : (ns.dns i).isFor q = true
  since : (ns.dns i).startedMs = since

section Waits

variable {q q' : Lookup} {since : Word} {i : Fin netDnsPending}

theorem Waits.of_dns (h : Waits q since i ns) (hdns : ns'.dns i = ns.dns i) :
    Waits q since i ns' := ⟨hdns ▸ h.isFor, hdns ▸ h.since⟩

/-- Another lookup goes to another slot, and the same one to none. -/
theorem Waits.dnsAsk (h : Waits q since i ns) (q' : Lookup) : Waits q since i (dnsAsk q' ns) := by
  refine h.of_dns ?_
  cases hres : (netResolve q'.name ns.core).1.isPending with
  | false => exact congrFun (dnsAsk_of_answered hres) i
  | true =>
    obtain ⟨core, -, heq⟩ := dnsAsk_of_pending hres
    rw [heq]
    obtain ⟨hsame, -⟩ | ⟨-, -, -, j, hunused, hput⟩ := dnsDefer_cases q' { ns with core := core }
    · rw [hsame]
    · rw [hput]
      refine if_neg ?_
      rintro rfl
      exact Bool.false_ne_true (hunused.symm.trans (DnsPending.isFor_iff.mp h.isFor).1)

theorem Waits.netInput (h : Waits q since i ns) (pkt : List Byte) :
    Waits q since i (netInput pkt ns) := by
  cases hq : asksOf ns.core.cfg pkt with
  | none => exact h.of_dns (congrFun (netInput_dns hq) i)
  | some q' =>
    rw [netInput_of_asks hq]
    exact h.dnsAsk q'

/-- Nothing but a tick ends the wait. -/
theorem Waits.step (h : Waits q since i ns) {op : Op ε} (hop : ∀ now, op ≠ .tick now) :
    Waits q since i (netStep op ns) := by
  cases op with
  | input pkt => exact h.netInput pkt
  | inputAt pkt now => exact (h.of_dns (congrFun (clocked_dns now ns) i)).netInput pkt
  | tick now => exact absurd rfl (hop now)
  | output cap =>
    refine h.of_dns ?_
    rw [netStep, netOutput]
    split
    · rfl
    · split <;> rfl
  | host ctx => exact h.of_dns rfl

/-- A waiting lookup is not turned away. -/
theorem Waits.turnedAway_eq_zero (h : Waits q since i ns) (hsingle : DnsSingle ns) (op : Op ε) :
    turnedAway q op ns = 0 := by
  rw [turnedAway_eq]
  split
  · refine if_neg ?_
    rintro ⟨-, -, -, hnone, -⟩
    rw [slotsFor_eq_one hsingle h.isFor] at hnone
    cases hnone
  · rfl

/-- A tick answers a waiting lookup, or it is not overdue. -/
theorem Waits.tick (h : Waits q since i ns) (hsingle : DnsSingle ns) (hq : q.Sound) (now : Word) :
    (slotsFor q (netStep (.tick now) ns) = 0 ∧ (replies q (.tick now) ns).length = 1) ∨
      Waits q since i (netStep (.tick now) ns) ∧ (replies q (.tick now) ns).length = 0 ∧
        overdue since (.tick now) ns = false := by
  rw [overdue]
  cases hnow : netSeqLt now ns.core.nowMs with
  | true =>
    rw [netStep, netTick_of_early hnow, replies, Op.replies, hnow]
    exact .inr ⟨h, rfl, rfl⟩
  | false =>
    have hslots := netTick_dns hnow
    have hreplies : (replies q (.tick now) ns).length =
        if ((netTick now ns).dns i).used then 0 else 1 := by
      have hcore : ({ ns with core := { ns.core with nowMs := now } } : NetStack ε).dns = ns.dns := rfl
      have hhands := (replies_of_hands (hands_dnsTick hq (hsingle.of_dns hcore) h.isFor)).1
      rw [replies, Op.replies, hnow, if_neg Bool.false_ne_true, netTick, hnow,
        if_neg Bool.false_ne_true, foldl_netTickSlot_dns]
      exact hhands
    rw [netStep, hreplies]
    obtain hblank | ⟨hsame, hearly⟩ := hslots i
    · rw [hblank]
      refine .inl ⟨?_, rfl⟩
      rw [slotsFor_eq_zero_iff]
      intro j
      refine Bool.eq_false_of_not_eq_true fun hj => ?_
      obtain hgone | ⟨hkept, -⟩ := hslots j
      · rw [hgone] at hj
        cases hj
      · rw [hkept] at hj
        rw [hsingle q j i hj h.isFor, hblank] at hkept
        rw [hsingle q j i hj h.isFor, ← hkept] at hj
        cases hj
    · have hused := (DnsPending.isFor_iff.mp h.isFor).1
      rw [hsame, hused]
      have hin := hearly hused
      rw [h.since] at hin
      exact .inr ⟨h.of_dns hsame, rfl, decide_eq_false (not_le.mpr hin)⟩

/-- A waiting lookup gets one outcome exactly when the host keeps looking whenever the guest asks
again. -/
theorem Waits.exactlyOnce_eq (h : Waits q since i ns) (hsingle : DnsSingle ns) (hq : q.Sound)
    (ops : List (Op ε)) : exactlyOnce q since ops ns = undisturbed q ops ns := by
  induction ops generalizing ns with
  | nil => rfl
  | cons op ops ih =>
    rw [exactlyOnce, undisturbed, h.turnedAway_eq_zero hsingle op, Nat.add_zero]
    have hstep := hsingle.step op
    by_cases htick : ∃ now, op = .tick now
    · obtain ⟨now, rfl⟩ := htick
      obtain ⟨hnone, hone⟩ | ⟨hwaits, hnone, htime⟩ := h.tick hsingle hq now
      · rw [hnone, hone]
        rfl
      · rw [slotsFor_eq_one hstep hwaits.isFor, hnone, htime, ih hwaits hstep]
        rfl
    · have hwaits := h.step (not_exists.mp htick)
      have htime : overdue since op ns = false := by
        cases op with
        | tick now => exact absurd ⟨now, rfl⟩ htick
        | input | inputAt | output | host => rfl
      have hreplies := length_replies hq (not_exists.mp htick) ns
      rw [slotsFor_eq_one hstep hwaits.isFor, hreplies, htime, ih hwaits hstep]
      cases op.asks ns with
      | none => rfl
      | some q' =>
        dsimp only
        by_cases hsame : q'.Same q
        · rw [decide_eq_true hsame]
          cases hres : ns.looking q' with
          | true =>
            rw [if_neg fun hboth => Bool.false_ne_true hboth.2.symm]
            rfl
          | false =>
            rw [if_pos ⟨hsame, rfl⟩]
            rfl
        · rw [decide_eq_false hsame, if_neg fun hboth => hsame hboth.1]
          rfl

end Waits

/-! ### All runs -/

/-- The step that brings a lookup hands it to the resolver. -/
theorem netStep_of_asks {op : Op ε} {q : Lookup} (h : op.asks ns = some q) :
    (∃ ns₁, netStep op ns = dnsAsk q ns₁ ∧ ns₁.dns = ns.dns ∧ ns₁.looking q = ns.looking q ∧
      ns₁.core.nowMs = op.clock ns) ∧
    (replies q op ns).length = (if ns.looking q = false then 1 else 0) ∧
    ∀ since, overdue since op ns = false := by
  have hsame : q.Same q := ⟨rfl, rfl⟩
  have hreplies (hop : ∀ now, op ≠ .tick now) :
      (replies q op ns).length = if ns.looking q = false then 1 else 0 := by
    rw [length_replies (sound_of_asks h) hop ns, h]
    exact if_congr (and_iff_right hsame) rfl rfl
  cases op with
  | input pkt =>
    exact ⟨⟨ns, netInput_of_asks h, rfl, rfl, rfl⟩, hreplies nofun, fun _ => rfl⟩
  | inputAt pkt now =>
    have hq : asksOf (ns.clocked now).core.cfg pkt = some q := by
      rw [clocked_cfg]
      exact h
    exact ⟨⟨ns.clocked now, netInput_of_asks hq, clocked_dns now ns, looking_clocked now ns q, rfl⟩,
      hreplies nofun, fun _ => rfl⟩
  | tick | output | host => cases h

/-- The reply that ends a lookup is handed to `net_emit`, whatever the result. -/
theorem dnsFinish_emits {q : Lookup} (hq : q.Sound) (result : Res) (core : NetCore ε) :
    ∃ r : Reply, dnsFinish q.gport q.query result core =
        { netEmit' core.cfg.dnsIp core.cfg.guestIp netProtoUdp r.datagram core with
          replied := core.replied ++ [r] } ∧ r.isFor q = true := by
  have hsmall : ¬q.query.length + 16 + 8 > netMtu - ipv4HdrLen - 8 := by
    have hle := hq.le
    rw [netMtu, ipv4HdrLen]
    omega
  have hreply (rcode : BitVec 16) (a : Option Word) :
      ∃ r : Reply, dnsReply q.gport q.query q.query.length rcode a core =
        { netEmit' core.cfg.dnsIp core.cfg.guestIp netProtoUdp r.datagram core with
          replied := core.replied ++ [r] } ∧ r.isFor q = true := by
    unfold dnsReply
    rw [if_neg hsmall]
    refine ⟨⟨q.gport, q.query.take q.query.length, _⟩, rfl, ?_⟩
    exact Reply.isFor_iff.mpr ⟨rfl, List.take_length⟩
  cases result with
  | ok address => exact hreply _ _
  | nxdomain | pending | fail => exact hreply _ _

/-- In every run, a lookup that arrives while it does not wait already gets exactly one outcome, in
time, exactly when the host has an answer at once, or else the name is no longer than names may be
and, if there is a free slot for the lookup, the host keeps looking whenever the guest asks again
while the lookup waits. An outcome is a reply that is handed to `net_emit`, or a count of
`dns_pending_full`. Whatever ends a lookup hands its one reply to `net_emit`; and each reply to it,
in whichever step, goes to the port that has asked, with the identifier and the question. -/
theorem dns_exact (h : Reached (fun _ _ => True) ns) {op : Op ε} {q : Lookup}
    (hq : op.asks ns = some q) (hnew : slotsFor q ns = 0) (ops : List (Op ε)) :
    (exactlyOnce q (op.clock ns) (op :: ops) ns = true ↔
      (ns.looking q = true → q.query.length ≤ netDnsQueryMax ∧
        ((∃ i, (ns.dns i).used = false) → undisturbed q ops (netStep op ns) = true))) ∧
    (∀ result core, ∃ r : Reply, dnsFinish q.gport q.query result (core : NetCore ε) =
        { netEmit' core.cfg.dnsIp core.cfg.guestIp netProtoUdp r.datagram core with
          replied := core.replied ++ [r] } ∧ r.isFor q = true) ∧
    ∀ (op' : Op ε) (ns' : NetStack ε), ∀ r ∈ replies q op' ns',
      Answers q ns'.core.cfg r.datagram := by
  have hsound := sound_of_asks hq
  refine ⟨?_, dnsFinish_emits hsound, fun _ _ _ => answers_of_mem_replies hsound⟩
  obtain ⟨⟨ns₁, hstep, hdns, hlook, hclock⟩, hreplies, htime⟩ := netStep_of_asks hq
  have hturned : turnedAway q op ns = if ns.looking q = true ∧
      q.query.length ≤ netDnsQueryMax ∧ ∀ i, (ns.dns i).used = true then 1 else 0 := by
    have hsame : q.Same q := ⟨rfl, rfl⟩
    rw [turnedAway_eq, hq]
    exact if_congr ⟨fun ⟨_, hlooking, hfits, _, hfull⟩ => ⟨hlooking, hfits, hfull⟩,
      fun ⟨hlooking, hfits, hfull⟩ => ⟨hsame, hlooking, hfits, hnew, hfull⟩⟩ rfl rfl
  have hsingle := h.dnsSingle
  have hslots : ∀ ns' : NetStack ε, ns'.dns = ns.dns → slotsFor q ns' = 0 := by
    intro ns' hsame
    rw [slotsFor, hsame]
    exact hnew
  rw [exactlyOnce, hreplies, hturned, htime]
  cases hlooking : ns.looking q with
  | false =>
    have hnone : slotsFor q (netStep op ns) = 0 := by
      rw [hstep]
      exact hslots _ ((dnsAsk_of_answered (hlook.trans hlooking)).trans hdns)
    rw [hnone]
    exact iff_of_true rfl nofun
  | true =>
    obtain ⟨core, hnow, heq⟩ := dnsAsk_of_pending (hlook.trans hlooking)
    have hsingle₁ : DnsSingle (netStep op ns) := hsingle.step op
    rw [if_neg (show ¬true = false by decide)]
    rw [hstep, heq] at hsingle₁ ⊢
    obtain ⟨hkept, hwhy⟩ | ⟨-, hfits, -, i, hunused, hput⟩ :=
      dnsDefer_cases q { ns₁ with core := core }
    · rw [hkept, hslots { ns₁ with core := core } hdns]
      have hwhy : netDnsQueryMax < q.query.length ∨ ∀ i, (ns.dns i).used = true := by
        obtain hempty | hlong | ⟨i, hi⟩ | hfull := hwhy
        · have hle := hsound.le_length
          rw [hempty] at hle
          exact absurd hle (by decide)
        · exact .inl hlong
        · rw [show ({ ns₁ with core := core } : NetStack ε).dns = ns.dns from hdns,
            slotsFor_eq_zero_iff.mp hnew i] at hi
          cases hi
        · exact .inr (hdns ▸ hfull)
      by_cases hfits : q.query.length ≤ netDnsQueryMax
      · have hfull : ∀ i, (ns.dns i).used = true := hwhy.resolve_left (not_lt.mpr hfits)
        rw [if_pos ⟨rfl, hfits, hfull⟩]
        refine iff_of_true rfl fun _ => ⟨hfits, fun ⟨i, hfree⟩ => ?_⟩
        exact absurd ((hfull i).symm.trans hfree) nofun
      · rw [if_neg fun hall => hfits hall.2.1]
        exact iff_of_false nofun fun hall => hfits (hall rfl).1
    · have hfree : ∃ i, (ns.dns i).used = false := ⟨i, hdns ▸ hunused⟩
      have hwaits : Waits q (op.clock ns) i (dnsDefer q.gport q.query q.name
          { ns₁ with core := core }) := by
        rw [hput]
        refine ⟨?_, ?_⟩
        · dsimp only
          rw [if_pos rfl]
          exact DnsPending.isFor_iff.mpr ⟨rfl, rfl, rfl⟩
        · dsimp only
          rw [if_pos rfl]
          exact hnow.trans hclock
      rw [slotsFor_eq_one hsingle₁ hwaits.isFor, hwaits.exactlyOnce_eq hsingle₁ hsound]
      have hroom : ¬∀ i, (ns.dns i).used = true := by
        intro hfull
        obtain ⟨i, hi⟩ := hfree
        exact absurd ((hfull i).symm.trans hi) nofun
      rw [if_neg fun hall => hroom hall.2.2]
      constructor
      · exact fun hrest _ => ⟨hfits, fun _ => hrest⟩
      · exact fun hall => (hall rfl).2 hfree

/-! ### A lookup that is answered twice

The guest asks twice for a name. The host is still looking when it asks first, and has the answer
when it asks again. -/

/-- A host that looks names up with the given results, one after the other. -/
def lookupHost : Egress (List Res) where
  openFlow := none
  status := none
  send := none
  recv := none
  shutdownTx := none
  close := none
  resolve := some fun _ x => match x with
    | [] => (.fail, [])
    | result :: rest => (result, rest)
  icmpEcho := none
  send_le := nofun
  recv_le := nofun

/-- The query for the address of a name of one label. -/
def guestLookup : Lookup :=
  { gport := 40000
    query := netWr16 7 ++ netWr16 dnsRd ++ netWr16 1 ++ netWr16 0 ++ netWr32 0 ++ [1, 0x61, 0] ++
      netWr16 1 ++ netWr16 1
    name := [0x61] }

/-- The guest asks. -/
def asksHost : Op (List Res) :=
  let guest := netConfigDefault.guestIp
  let resolver := netConfigDefault.dnsIp
  let datagram := udpDatagram guest resolver guestLookup.gport 53 guestLookup.query
  .input (netBuildIpv4 guest resolver netProtoUdp 1 datagram.length ++ datagram)

/-- A host that finds the address while the lookup waits. -/
def lookingUp : NetStack (List Res) := netInit netConfigDefault lookupHost [.pending, .ok 5, .ok 5]

theorem lookingUp_reached : Reached (fun _ _ => True) lookingUp := ⟨_, _, _, .start⟩

theorem lookingUp_asked : asksHost.asks lookingUp = some guestLookup := by decide +kernel

/-- A lookup that waits is answered by the tick, once. -/
theorem dns_exact_lookingUp :
    exactlyOnce guestLookup (asksHost.clock lookingUp) [asksHost, .tick 1] lookingUp = true ∧
    (replies guestLookup (.tick 1) (netStep asksHost lookingUp)).length = 1 ∧
    ∀ r ∈ replies guestLookup (.tick 1) (netStep asksHost lookingUp),
      Answers guestLookup (netStep asksHost lookingUp).core.cfg r.datagram := by
  obtain ⟨hexact, -, hanswers⟩ := dns_exact lookingUp_reached lookingUp_asked (by decide) [.tick 1]
  exact ⟨hexact.mpr fun _ => ⟨by decide, fun _ => by decide +kernel⟩, by decide +kernel,
    hanswers (.tick 1) (netStep asksHost lookingUp)⟩

/-- It is answered when the guest asks again, and once more by the tick. -/
theorem dns_answeredTwice : ¬∀ (ns : NetStack (List Res)) (op : Op (List Res)) (q : Lookup)
    (ops : List (Op (List Res))), Reached (fun _ _ => True) ns → op.asks ns = some q →
      slotsFor q ns = 0 → exactlyOnce q (op.clock ns) (op :: ops) ns = true := by
  intro hall
  have honce := hall lookingUp asksHost guestLookup [asksHost, .tick 1] lookingUp_reached
    lookingUp_asked (by decide)
  have htwice : exactlyOnce guestLookup (asksHost.clock lookingUp) [asksHost, asksHost, .tick 1]
      lookingUp = false := by decide +kernel
  exact Bool.false_ne_true (htwice.symm.trans honce)

end S5LBox.Net
