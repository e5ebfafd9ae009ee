import S5LBox.Ppp.PeerOptions

/-!
# What the assigned address was agreed on

The guest has an address once IPCP is up, and IPCP comes up over a Configure-Request of the guest
that the peer acknowledged. The review of such a request accepts no address but the configured one,
and it accepts a request that names no address as well. Of the configuration the peer sets one
field, its own address, and it takes the value from a Configure-Nak.

## Main definitions

* `Accord`: a peer, with the last request of the guest that it found good, and the last that it
  acknowledged.
* `Addressed`: the condition on a call.

## Main results

* `owing_cpInput`: IPCP comes to where it has answered the guest by a good request alone.
* `assigned_agreed`: for a run.
-/

namespace S5LBox.Ppp

open Runs

/-! ### The configuration -/

theorem aside_cfg : Aside Link.cfg where
  modFsm p l g := by cases l <;> rfl
  ring _ _ _ _ _ _ := rfl
  frame _ _ _ := rfl
  frames _ _ := rfl
  assign _ _ _ := rfl
  host _ _ _ _ _ := rfl

theorem cfg_classifyConfreq (p : Link) (l : Layer) (opts : List Byte) :
    (classifyConfreq p l opts).2.2.cfg = p.cfg := by
  refine reading_classifyConfreq (fun p o => ?_) p opts
  cases l with
  | lcp => simp only [review, lcpReview, apply_ite Prod.snd, apply_ite Link.cfg, ite_self]
  | ipcp => exact cfg_ipcpReview p o

/-- The address that a Nak of our own one leaves us with. -/
def nakedIp (ip : Word) (opts : List Byte) : Word :=
  (wholeOpts opts.length opts).foldl
    (fun ip o => if o.getD 0 0 = ipcpOptAddress ∧ o.length = 6 then getBe32 o 2 else ip) ip

theorem applyOpts_eq_foldl (f : Link → List Byte → Link) (turns : Nat) (p : Link)
    (opts : List Byte) : applyOpts f turns p opts = (wholeOpts turns opts).foldl f p := by
  induction turns generalizing p opts with
  | zero => rfl
  | succ turns ih =>
    rw [applyOpts, wholeOpts]
    cases splitOpt opts with
    | none => rfl
    | some r => exact ih _ _

/-- A Nak sets our own address, and nothing else of the configuration. -/
theorem cfg_applyNak (p : Link) (l : Layer) (opts : List Byte) : (applyNak p l opts).cfg =
    if l = .ipcp then { p.cfg with localIp := nakedIp p.cfg.localIp opts } else p.cfg := by
  cases l with
  | lcp =>
    refine reading_applyOpts (fun p o => ?_) _ _ _
    unfold nakOpt
    dsimp only
    split <;> rfl
  | ipcp =>
    rw [if_pos rfl, applyNak, applyOpts_eq_foldl, nakedIp]
    generalize wholeOpts opts.length opts = os
    induction os generalizing p with
    | nil => rfl
    | cons o os ih =>
      rw [List.foldl_cons, List.foldl_cons, ih, nakOpt]
      by_cases haddress : o.getD 0 0 = ipcpOptAddress ∧ o.length = 6
      · rw [if_pos haddress, if_pos haddress]
      · rw [if_neg haddress, if_neg haddress]

/-! ### Where IPCP has answered the guest -/

/-- IPCP has acknowledged a request of the guest and not asked for another, or the guest has an
address. -/
def Standing.Owing (s : Standing) : Prop :=
  s.state .ipcp = .ackSent ∨ s.state .ipcp = .opened ∨ s.assigned = true

namespace Standing

variable {s : Standing} {l : Layer} {x : PppState}

theorem owing_of_enter (hsent : x ≠ .ackSent) (hopen : x ≠ .opened) (h : (s.enter l x).Owing) :
    s.Owing := by
  cases l with
  | lcp => simpa [Owing] using h
  | ipcp =>
    right; right
    simpa [Owing, hsent, hopen] using h

theorem owing_of_enter_lcp (h : (s.enter .lcp x).Owing) : s.Owing := by
  simpa [Owing] using h

theorem owing_of_rise_lcp (h : (s.rise .lcp).Owing) : s.Owing :=
  owing_of_enter (by decide) (by decide) h

theorem owing_of_fall (h : (s.fall l).Owing) : s.Owing := by
  cases l with
  | lcp =>
    rcases h with h | h | h
    · exact absurd ((s.state_enter_self .ipcp .initial).symm.trans h) (by decide)
    · exact absurd ((s.state_enter_self .ipcp .initial).symm.trans h) (by decide)
    · cases h
  | ipcp =>
    rcases h with h | h | h
    · exact .inl h
    · exact .inr (.inl h)
    · cases h

end Standing

open Standing

section Events

variable (p : Link) (l : Layer) (id : Byte)

theorem owing_rcrRequest {entry : PppState} (h : (rcrRequest p l entry).standing.Owing) :
    p.standing.Owing := by
  rw [standing_rcrRequest] at h
  split_ifs at h
  · exact owing_of_fall h
  · exact h

/-- An answer to a request brings IPCP there only if the request was one of IPCP and was good. -/
theorem owing_rcrAnswer {entry : PppState} {r : CrResult} {resp : List Byte}
    (hr : l = .ipcp → r ≠ .ack) (h : (rcrAnswer p l entry id r resp).standing.Owing) :
    p.standing.Owing := by
  have hspend (q : Link) :
      (modFsm q l fun f => { f with failures := f.failures - 1 }).standing = q.standing :=
    standing_modFsm _ _ _ fun _ => rfl
  have hsend : (sendCp (rcrRequest p l entry) l r.code id resp).standing.Owing →
      p.standing.Owing := by
    rw [standing_sendCp]
    exact owing_rcrRequest p l
  unfold rcrAnswer at h
  dsimp only at h
  split_ifs at h with hack hfail
  · cases l with
    | ipcp => exact absurd hack (hr rfl)
    | lcp =>
      unfold rcrEnter at h
      split at h
      case h_5 =>
        rw [if_pos rfl, standing_tlu, standing_restartStop, standing_setState] at h
        exact hsend (owing_of_enter_lcp (owing_of_rise_lcp h))
      case h_6 => exact hsend h
      all_goals
        rw [standing_setState] at h
        exact hsend (owing_of_enter_lcp h)
  · rw [standing_restartStop, standing_setState] at h
    exact hsend (owing_of_enter (by decide) (by decide) h)
  · unfold rcrEnter at h
    split at h
    case h_5 =>
      rw [if_neg Bool.false_ne_true, hspend] at h
      exact hsend h
    case h_6 =>
      rw [hspend] at h
      exact hsend h
    all_goals
      rw [standing_setState, hspend, if_neg Bool.false_ne_true] at h
      exact hsend (owing_of_enter (by decide) (by decide) h)

theorem owing_evRcr {opts : List Byte}
    (hr : l = .ipcp → (fsmFor p l).state ≠ .initial ∧ (fsmFor p l).state ≠ .closed →
      (classifyConfreq p l opts).1 ≠ .ack)
    (h : (evRcr p l id opts).standing.Owing) : p.standing.Owing := by
  have hquiet := quiet_classifyConfreq p l opts
  unfold evRcr at h
  dsimp only at h
  split_ifs at h with hdown
  · rwa [standing_sta] at h
  · rw [not_or] at hdown
    split at h
    · rename_i heq
      rw [heq] at hquiet
      rwa [← hquiet.standing]
    · rename_i r resp q _ heq
      rw [heq] at hquiet
      rw [← hquiet.standing]
      refine owing_rcrAnswer q l id (fun hl => ?_) h
      have hack := hr hl hdown
      rwa [heq] at hack

theorem owing_evRca (h : (evRca p l id).standing.Owing) : p.standing.Owing := by
  unfold evRca at h
  split_ifs at h
  · exact h
  · split at h
    case h_5 hstate =>
      cases l with
      | lcp =>
        rw [standing_tlu, standing_setState, standing_restartStop, standing_irc] at h
        exact owing_of_enter_lcp (owing_of_rise_lcp h)
      | ipcp => exact .inl hstate
    case h_6 =>
      rw [standing_setState, standing_scr, standing_tld] at h
      exact owing_of_fall (owing_of_enter (by decide) (by decide) h)
    case h_7 => exact h
    case h_3 | h_4 =>
      simp only [standing_setState, standing_irc, standing_scr] at h
      exact owing_of_enter (by decide) (by decide) h
    all_goals rwa [standing_sta] at h

theorem owing_evRcn (h : (evRcn p l id).standing.Owing) : p.standing.Owing := by
  unfold evRcn at h
  split_ifs at h
  · exact h
  · split at h
    case h_5 =>
      rw [standing_setState, standing_scr] at h
      exact owing_of_enter (by decide) (by decide) h
    case h_6 =>
      rw [standing_setState, standing_scr, standing_tld] at h
      exact owing_of_fall (owing_of_enter (by decide) (by decide) h)
    case h_7 => exact h
    all_goals
      simp only [standing_sta, standing_scr, standing_irc] at h
      exact h

theorem owing_evRtr (h : (evRtr p l id).standing.Owing) : p.standing.Owing := by
  have hzrc (q : Link) : (modFsm q l fun f => { f with restarts := 0 }).standing = q.standing :=
    standing_modFsm _ _ _ fun _ => rfl
  unfold evRtr at h
  split at h
  case h_1 =>
    dsimp only at h
    rw [standing_restartStart, standing_setState, standing_sta, hzrc, standing_tld] at h
    exact owing_of_fall (owing_of_enter (by decide) (by decide) h)
  case h_5 => rwa [standing_sta] at h
  all_goals
    rw [standing_setState, standing_sta] at h
    exact owing_of_enter (by decide) (by decide) h

theorem owing_evRta (h : (evRta p l).standing.Owing) : p.standing.Owing := by
  unfold evRta at h
  split at h
  case h_4 =>
    rw [standing_setState, standing_scr, standing_tld] at h
    exact owing_of_fall (owing_of_enter (by decide) (by decide) h)
  case h_5 => exact h
  all_goals
    simp only [standing_setState, standing_restartStop] at h
    exact owing_of_enter (by decide) (by decide) h

theorem owing_evRxj (h : (evRxj p l).standing.Owing) : p.standing.Owing := by
  rw [standing_evRxj] at h
  split_ifs at h
  · exact owing_of_enter_lcp (owing_of_fall h)
  · exact owing_of_enter (by decide) (by decide) h

theorem owing_restartTimeout (h : (restartTimeout p l).standing.Owing) : p.standing.Owing := by
  unfold restartTimeout at h
  dsimp only at h
  split_ifs at h
  · split at h
    case h_6 => rwa [standing_restartStop] at h
    all_goals
      rw [standing_setState, standing_restartStop] at h
      exact owing_of_enter (by decide) (by decide) h
  · split at h
    all_goals
      simp only [standing_restartStart, standing_spendRestart, standing_sendCp, standing_scr,
        standing_restartStop] at h
      exact h

end Events

/-! ### Requests that are found good -/

/-- A Configure-Request of IPCP is found good: the peer negotiates, and accepts every option. -/
def Grants (p : Link) (opts : List Byte) : Prop :=
  (p.ipcp.state ≠ .initial ∧ p.ipcp.state ≠ .closed) ∧ (classifyConfreq p .ipcp opts).1 = .ack

instance (p : Link) (opts : List Byte) : Decidable (Grants p opts) :=
  inferInstanceAs (Decidable (_ ∧ _))

/-- The Configure-Ack that answers a good request is queued. -/
def Answers (p : Link) (id : Byte) (opts : List Byte) : Prop :=
  Queues (rcrRequest (classifyConfreq p .ipcp opts).2.2 .ipcp p.ipcp.state) .ipcp pppConfAck id opts

instance (p : Link) (id : Byte) (opts : List Byte) : Decidable (Answers p id opts) :=
  inferInstanceAs (Decidable (Queues ..))

/-- The options hold the IP-Address option with a value. -/
def Names (ip : Word) (opts : List Byte) : Prop :=
  ∃ o ∈ wholeOpts opts.length opts,
    o.getD 0 0 = ipcpOptAddress ∧ o.length = 6 ∧ getBe32 o 2 = ip

/-- A good request names no address but the configured one. -/
theorem names_of_grants {p : Link} {opts : List Byte} (h : Grants p opts)
    (haddress : ∃ o ∈ wholeOpts opts.length opts, o.getD 0 0 = ipcpOptAddress) :
    Names p.cfg.remoteIp opts := by
  obtain ⟨o, hmem, htype⟩ := haddress
  have hack : (ipcpReview p o).1 = .ack := (wholeOpts_of_ack h.2).1 o hmem
  rw [ipcpReview, if_pos htype] at hack
  split_ifs at hack with hlen hvalue
  exact ⟨o, hmem, htype, not_not.mp hlen, hvalue⟩

/-- A control packet brings IPCP to where it has answered the guest only if it is a good request. -/
theorem owing_cpInput {p : Link} {l : Layer} {pkt : List Byte}
    (hno : l = .ipcp → ∀ hd, cpHeader pkt = some hd → hd.code = pppConfReq → ¬Grants p hd.data)
    (h : (cpInput p l pkt).standing.Owing) : p.standing.Owing := by
  rw [cpInput] at h
  cases hhead : cpHeader pkt with
  | none =>
    rw [hhead] at h
    exact h
  | some hd =>
    rw [hhead] at h
    have hecho : (echo p l hd).standing = p.standing := by
      unfold echo
      split_ifs
      · rfl
      · rfl
      · exact standing_sendCp ..
    dsimp only at h
    split_ifs at h with hreq
    · refine owing_evRcr p l hd.id (fun hl hstate hack => ?_) h
      cases hl
      exact hno rfl hd hhead hreq ⟨hstate, hack⟩
    · exact owing_evRca p l hd.id h
    · rw [← (quiet_applyNak p l hd.data).standing]
      exact owing_evRcn _ l hd.id h
    · exact owing_evRcn p l hd.id h
    · rw [← (quiet_applyRej p l hd.data).standing]
      exact owing_evRcn _ l hd.id h
    · exact owing_evRcn p l hd.id h
    · exact owing_evRtr p l hd.id h
    · exact owing_evRta p l h
    · exact owing_evRxj p l h
    · rwa [hecho] at h
    · exact h
    · rwa [codeReject, standing_sendNext] at h

/-! ### Calls -/

/-- The control packet of IPCP that an octet completes. -/
def ipcpAt (p : Peer) (b : Byte) : Option CpHeader :=
  match completes p b with
  | some (proto, info) => if proto = pppProtoIpcp then cpHeader info else none
  | none => none

/-- The Configure-Request of IPCP that an octet completes. -/
def ipcpRequestAt (p : Peer) (b : Byte) : Option (Byte × List Byte) :=
  match ipcpAt p b with
  | some hd => if hd.code = pppConfReq then some (hd.id, hd.data) else none
  | none => none

/-- An octet that completes a Configure-Request of IPCP queues the Configure-Ack of that request
exactly if it is found good and answered, and no other. -/
theorem acks_of_ipcpRequestAt {p : Peer} {b id : Byte} {opts : List Byte}
    (h : ipcpRequestAt p b = some (id, opts)) : (pppInputByte p b).acks = p.acks ++
      if Grants (atDispatch p) opts ∧ Answers (atDispatch p) id opts then
        [(pppProtoIpcp, cpOctets pppConfAck id opts)]
      else [] := by
  rw [acks_pppInputByte, ackAt]
  rw [ipcpRequestAt, ipcpAt] at h
  cases hc : completes p b with
  | none =>
    rw [hc] at h
    cases h
  | some frame =>
    obtain ⟨proto, info⟩ := frame
    rw [hc] at h
    dsimp only at h ⊢
    by_cases hipcp : proto = pppProtoIpcp
    · have hreq : confreqOf info = some (id, opts) := by
        rw [if_pos hipcp] at h
        exact h
      have hlcp : proto ≠ pppProtoLcp := by
        rw [hipcp]
        decide
      rw [if_neg hlcp, if_pos hipcp, ackTo, hreq]
      congr 1
      exact if_congr ⟨fun h => ⟨⟨h.1, h.2.1⟩, h.2.2⟩, fun h => ⟨h.1.1, h.1.2, h.2⟩⟩ rfl rfl
    · rw [if_neg hipcp] at h
      cases h

/-- An octet brings IPCP to where it has answered the guest only if it completes a good request. -/
theorem owing_pppInputByte {p : Peer} {b : Byte}
    (hno : ∀ id opts, ipcpRequestAt p b = some (id, opts) → ¬Grants (atDispatch p) opts)
    (h : (pppInputByte p b).standing.Owing) : p.standing.Owing := by
  cases hc : completes p b with
  | none => rwa [standing_of_completes_none hc] at h
  | some frame =>
    obtain ⟨proto, info⟩ := frame
    have hne : pppProtoIpcp ≠ pppProtoLcp := by decide
    have hat : (atDispatch p).standing = p.standing := rfl
    rw [toLink_pppInputByte hc, standing_dispatch] at h
    rw [← hat]
    split_ifs at h with hlcp hipcp
    · exact owing_cpInput (fun hl => absurd hl lcp_ne_ipcp) h
    · refine owing_cpInput (fun _ hd hhead hreq => hno hd.id hd.data ?_) h
      rw [ipcpRequestAt, ipcpAt, hc]
      dsimp only
      rw [if_pos hipcp, hhead]
      exact if_pos hreq
    · exact h

/-- No other call does. -/
theorem owing_act {a : Action} (ha : ∀ b, a ≠ .input b) {p : Peer}
    (h : (act a p).standing.Owing) : p.standing.Owing := by
  have hservice (q : Link) (l : Layer) (nowMs : Word)
      (h : (serviceTimer q l nowMs).standing.Owing) : q.standing.Owing := by
    unfold serviceTimer at h
    split at h
    · exact owing_restartTimeout q l h
    · exact h
  cases a with
  | open_ =>
    change (pppOpen p.toLink).standing.Owing at h
    rw [standing_pppOpen] at h
    split_ifs at h
    · exact h
    · exact owing_of_enter_lcp (x := .reqSent) h
  | close =>
    have hclosed : ({ p.standing with opened := false } : Standing).Owing → p.standing.Owing := id
    change (pppClose p.toLink).standing.Owing at h
    rw [standing_pppClose] at h
    dsimp only at h
    split_ifs at h
    · exact hclosed (owing_of_fall (owing_of_enter_lcp h))
    · exact hclosed (owing_of_enter_lcp h)
    · exact hclosed (owing_of_enter_lcp h)
  | tick nowMs =>
    change (pppTick p.toLink nowMs).standing.Owing at h
    unfold pppTick at h
    split at h
    · exact h
    · exact hservice { p.toLink with nowMs := nowMs } .lcp nowMs (hservice _ .ipcp nowMs h)
  | input b => exact absurd rfl (ha b)
  | output cap =>
    change (pppOutput p.toLink cap).2.standing.Owing at h
    rwa [standing_pppOutput] at h
  | setIpSink installed => exact h
  | sendIp pkt =>
    change (pppSendIp p.toLink pkt).2.standing.Owing at h
    rwa [standing_pppSendIp] at h

/-- The configuration behind an octet. -/
theorem cfg_pppInputByte (p : Peer) (b : Byte) : (pppInputByte p b).cfg =
    match ipcpAt p b with
    | some hd =>
      if hd.code = pppConfNak ∧ hd.id = p.ipcp.lastReqId then
        { p.cfg with localIp := nakedIp p.cfg.localIp hd.data }
      else p.cfg
    | none => p.cfg := by
  rw [ipcpAt]
  cases hc : completes p b with
  | none => exact aside_cfg.unframed hc
  | some frame =>
    obtain ⟨proto, info⟩ := frame
    have hreqNak : pppConfNak ≠ pppConfReq := by decide
    have hlcp : (cpInput (atDispatch p) .lcp info).cfg = p.cfg := by
      rw [aside_cfg.cpInput]
      split
      · rfl
      · rw [cfg_classifyConfreq, cfg_applyNak, if_neg lcp_ne_ipcp, ite_self, ite_self, ite_self]
        rfl
    rw [toLink_pppInputByte hc, aside_cfg.dispatch, hlcp]
    dsimp only
    by_cases hipcp : proto = pppProtoIpcp
    · rw [if_neg (by rw [hipcp]; decide), if_pos hipcp, if_pos hipcp, aside_cfg.cpInput]
      cases cpHeader info with
      | none => rfl
      | some hd =>
        dsimp only
        rw [cfg_classifyConfreq, ite_self, cfg_applyNak, if_pos rfl]
        by_cases hnak : hd.code = pppConfNak
        · rw [if_neg (by rw [hnak]; exact hreqNak)]
          rfl
        · have hnak' (last : Byte) : ¬(hd.code = pppConfNak ∧ hd.id = last) := fun hno => hnak hno.1
          rw [if_neg (hnak' _), if_neg (hnak' _), ite_self]
          rfl
    · have hat : (atDispatch p).cfg = p.cfg := rfl
      rw [if_neg hipcp, if_neg hipcp, hat, ite_self]

/-! ### Runs -/

/-- A peer, with the options of the last Configure-Request of IPCP that it found good, and of the
last one whose Configure-Ack it queued. -/
structure Accord where
  peer : Peer
  granted : Option (List Byte) := none
  acked : Option (List Byte) := none

/-- A call. -/
def accord (a : Action) (s : Accord) : Accord where
  peer := act a s.peer
  granted :=
    match a with
    | .input b =>
      match ipcpRequestAt s.peer b with
      | some (_, opts) => if Grants (atDispatch s.peer) opts then some opts else s.granted
      | none => s.granted
    | _ => s.granted
  acked :=
    match a with
    | .input b =>
      match ipcpRequestAt s.peer b with
      | some (id, opts) =>
        if Grants (atDispatch s.peer) opts ∧ Answers (atDispatch s.peer) id opts then some opts
        else s.acked
      | none => s.acked
    | _ => s.acked

/-- A call in which the guest names an address in every request that is found good, and names no
other address than our own in a Nak of our request. -/
def Addressed (s : Accord) : Action → Prop
  | .input b =>
    (∀ id opts, ipcpRequestAt s.peer b = some (id, opts) → Grants (atDispatch s.peer) opts →
      ∃ o ∈ wholeOpts opts.length opts, o.getD 0 0 = ipcpOptAddress) ∧
    ∀ hd, ipcpAt s.peer b = some hd → hd.code = pppConfNak → hd.id = s.peer.ipcp.lastReqId →
      nakedIp s.peer.cfg.localIp hd.data = s.peer.cfg.localIp
  | _ => True

/-- A call in which the Configure-Ack of a request that is found good is queued. -/
def Answered (s : Accord) : Action → Prop
  | .input b => ∀ id opts, ipcpRequestAt s.peer b = some (id, opts) →
      Grants (atDispatch s.peer) opts → Answers (atDispatch s.peer) id opts
  | _ => True

/-- The configuration is the one that was given, and wherever IPCP has answered the guest, the last
request found good names the address. -/
structure Accord.Agreed (cfg : Config) (s : Accord) : Prop where
  kept : s.peer.cfg = cfg
  named : s.peer.standing.Owing → ∃ opts, s.granted = some opts ∧ Names cfg.remoteIp opts

theorem agreed_call {cfg : Config} {s : Accord} {a : Action} (hok : Addressed s a)
    (h : s.Agreed cfg) : (accord a s).Agreed cfg := by
  by_cases ha : ∀ b, a ≠ .input b
  · have hgranted : (accord a s).granted = s.granted := by
      cases a <;> first | rfl | exact absurd rfl (ha _)
    refine ⟨(aside_cfg.act ha s.peer).trans h.kept, fun howing => ?_⟩
    rw [hgranted]
    exact h.named (owing_act ha howing)
  obtain ⟨b, hb⟩ := not_forall.mp ha
  obtain rfl := not_not.mp hb
  obtain ⟨hnamed, hnak⟩ := hok
  have hcfg : (pppInputByte s.peer b).cfg = s.peer.cfg := by
    rw [cfg_pppInputByte]
    cases hat : ipcpAt s.peer b with
    | none => rfl
    | some hd =>
      dsimp only
      split
      case isFalse => rfl
      case isTrue hours => rw [hnak hd hat hours.1 hours.2]
  refine ⟨hcfg.trans h.kept, fun howing => ?_⟩
  have hkept (hno : ∀ id opts, ipcpRequestAt s.peer b = some (id, opts) →
      ¬Grants (atDispatch s.peer) opts) : ∃ opts, s.granted = some opts ∧ Names cfg.remoteIp opts :=
    h.named (owing_pppInputByte hno howing)
  unfold accord
  dsimp only
  cases hreq : ipcpRequestAt s.peer b with
  | none => exact hkept fun id opts hsome => nomatch hreq.symm.trans hsome
  | some r =>
    obtain ⟨id, opts⟩ := r
    dsimp only
    by_cases hgood : Grants (atDispatch s.peer) opts
    · rw [if_pos hgood]
      refine ⟨opts, rfl, ?_⟩
      rw [← h.kept]
      exact names_of_grants (p := atDispatch s.peer) hgood (hnamed id opts hreq hgood)
    · rw [if_neg hgood]
      refine hkept fun id' opts' hsome => ?_
      obtain ⟨rfl, rfl⟩ := Prod.mk.inj (Option.some.inj (hreq.symm.trans hsome))
      exact hgood

/-- With every Configure-Ack queued, the last request found good is the last one acknowledged. -/
theorem acked_call {s : Accord} {a : Action} (hok : Answered s a) (h : s.acked = s.granted) :
    (accord a s).acked = (accord a s).granted := by
  cases a with
  | input b =>
    unfold accord
    dsimp only
    cases hreq : ipcpRequestAt s.peer b with
    | none => exact h
    | some r =>
      obtain ⟨id, opts⟩ := r
      dsimp only
      by_cases hgood : Grants (atDispatch s.peer) opts
      · rw [if_pos hgood, if_pos ⟨hgood, hok id opts hreq hgood⟩]
      · rw [if_neg hgood, if_neg fun hno => hgood hno.1, h]
  | _ => exact h

/-- In every run in which the guest names an address in each request that is found good, and no
other than ours in a Nak, an assigned address is the one that the last good request names, and the
configuration is the one given. With every Configure-Ack queued, that request is the last one
acknowledged. -/
theorem assigned_agreed (cfg : Config) :
    (∀ s, Run accord Addressed ⟨pppInit cfg, none, none⟩ s → s.peer.cfg = cfg ∧
      (s.peer.assigned = true → ∃ opts, s.granted = some opts ∧ Names cfg.remoteIp opts)) ∧
    ∀ s, Run accord (fun s a => Addressed s a ∧ Answered s a) ⟨pppInit cfg, none, none⟩ s →
      s.peer.cfg = cfg ∧
      (s.peer.assigned = true → ∃ opts, s.acked = some opts ∧ Names cfg.remoteIp opts) := by
  have hstart : Accord.Agreed cfg ⟨pppInit cfg, none, none⟩ := by
    refine ⟨rfl, ?_⟩
    rintro (h | h | h) <;> cases h
  have hagreed (s : Accord) (run : Run accord Addressed ⟨pppInit cfg, none, none⟩ s) :
      s.Agreed cfg := run.keeps (fun s a => agreed_call) hstart
  refine ⟨fun s run => ?_, fun s run => ?_⟩
  · have h := hagreed s run
    exact ⟨h.kept, fun hassigned => h.named (.inr (.inr hassigned))⟩
  · have h := hagreed s (run.mono fun s a hok => hok.1)
    have hacked : s.acked = s.granted :=
      run.keeps (I := fun s => s.acked = s.granted) (fun s a hok => acked_call hok.2) rfl
    rw [hacked]
    exact ⟨h.kept, fun hassigned => h.named (.inr (.inr hassigned))⟩

instance (s : Accord) (a : Action) : Decidable (Addressed s a) :=
  match a with
  | .input b =>
    have : Decidable (∀ id opts, ipcpRequestAt s.peer b = some (id, opts) →
        Grants (atDispatch s.peer) opts →
        ∃ o ∈ wholeOpts opts.length opts, o.getD 0 0 = ipcpOptAddress) :=
      decidable_of_iff (∀ r ∈ ipcpRequestAt s.peer b, Grants (atDispatch s.peer) r.2 →
          ∃ o ∈ wholeOpts r.2.length r.2, o.getD 0 0 = ipcpOptAddress)
        ⟨fun h id opts => h (id, opts), fun h r => h r.1 r.2⟩
    have : Decidable (∀ hd, ipcpAt s.peer b = some hd → hd.code = pppConfNak →
        hd.id = s.peer.ipcp.lastReqId →
        nakedIp s.peer.cfg.localIp hd.data = s.peer.cfg.localIp) :=
      inferInstanceAs (Decidable (∀ hd ∈ ipcpAt s.peer b, _))
    inferInstanceAs (Decidable (_ ∧ _))
  | .open_ | .close | .tick _ | .output _ | .setIpSink _ | .sendIp _ => instDecidableTrue

instance (s : Accord) (a : Action) : Decidable (Answered s a) :=
  match a with
  | .input b =>
    decidable_of_iff (∀ r ∈ ipcpRequestAt s.peer b, Grants (atDispatch s.peer) r.2 →
        Answers (atDispatch s.peer) r.1 r.2)
      ⟨fun h id opts => h (id, opts), fun h r => h r.1 r.2⟩
  | .open_ | .close | .tick _ | .output _ | .setIpSink _ | .sendIp _ => instDecidableTrue

/-- The guest that asks for its address. -/
theorem assigned_agreed_negotiation :
    ∃ opts, (follow accord ⟨pppInit pppConfigDefault, none, none⟩ negotiation).acked = some opts ∧
      Names 0x0a00020f opts :=
  ((assigned_agreed pppConfigDefault).2 _ (run_of_admitted (by decide +kernel))).2
    (by decide +kernel)

/-- The guest negotiates LCP, Naks our address with one of its own, and acknowledges the next
request. -/
def renamed : List Action :=
  .open_ :: packets [(.lcp, cpOctets pppConfAck 1 []), (.lcp, cpOctets pppConfReq 1 []),
    (.ipcp, cpOctets pppConfNak 1 ([ipcpOptAddress, 6] ++ putBe32 0x01020304)),
    (.ipcp, cpOctets pppConfAck 2 []), (.ipcp, cpOctets pppConfReq 1 [])]

/-- A request without options is acknowledged and brings the guest its address, and our own becomes
the one of a Nak. -/
theorem assigned_unagreed :
    (¬∀ s, Run accord (fun _ _ => True) ⟨pppInit pppConfigDefault, none, none⟩ s →
      s.peer.assigned = true → ∃ opts, s.acked = some opts ∧ Names s.peer.cfg.remoteIp opts) ∧
    ¬∀ s, Run accord (fun _ _ => True) ⟨pppInit pppConfigDefault, none, none⟩ s →
      s.peer.assigned = true → s.peer.cfg = pppConfigDefault := by
  have run : Run accord (fun _ _ => True) ⟨pppInit pppConfigDefault, none, none⟩
      (follow accord ⟨pppInit pppConfigDefault, none, none⟩ renamed) := run_follow _ _
  have hacked : (follow accord ⟨pppInit pppConfigDefault, none, none⟩ renamed).acked = some [] := by
    decide +kernel
  constructor <;> intro hall
  · obtain ⟨opts, hsome, o, hmem, -⟩ := hall _ run (by decide +kernel)
    obtain rfl := Option.some.inj (hacked.symm.trans hsome)
    cases hmem
  · exact absurd (hall _ run (by decide +kernel)) (by decide +kernel)

end S5LBox.Ppp
