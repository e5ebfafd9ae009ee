import S5LBox.Ppp.Peer

/-!
# The option automaton

The top half of the control protocols of `ppp.c`: the review of Configuration Options, the events
of RFC 1661's automaton, and the dispatch of a control packet to them.

## Main definitions

* `classifyConfreq`: the one answer to a Configure-Request.
* `evRcr`, `evRca`, `evRcn`, `evRtr`, `evRta`: the events of received packets.
* `restartTimeout`: the event of the restart timer.
* `cpInput`: a control packet comes in.
-/

namespace S5LBox.Ppp

/-! ### Configuration options -/

/-- `opt_verdict_t`, a Nak with the option as this side would like to see it. -/
inductive OptVerdict
  | ack
  | nak (opt : List Byte)
  | rej
  deriving DecidableEq, Repr

/-- `lcp_review`, of the octets of one option. -/
def lcpReview (p : Link) (o : List Byte) : OptVerdict × Link :=
  let olen := o.length
  let type := o.getD 0 0
  if type = lcpOptMru then
    if olen ≠ 4 then (.rej, p)
    else
      let mru : BitVec 16 := o.getD 2 0 ++ o.getD 3 0
      if mru.toNat > pppMruDefault then
        let mru := BitVec.ofNat 16 pppMruDefault
        (.nak [lcpOptMru, 4, mru.extractLsb' 8 8, mru.extractLsb' 0 8], p)
      else (.ack, { p with peerMru := mru })
  else if type = lcpOptAsyncmap then
    if olen ≠ 6 then (.rej, p)
    else (.ack, { p with peerAsyncmap := getBe32 o 2 })
  else if type = lcpOptAuth then (.rej, p)
  else if type = lcpOptQuality then (.rej, p)
  else if type = lcpOptMagic then
    if olen ≠ 6 then (.rej, p)
    else
      let m := getBe32 o 2
      if m = p.ourMagic then
        let alt := m ^^^ 0xa5a5a5a5
        let alt := if alt = m then m + 1 else alt
        (.nak ([lcpOptMagic, 6] ++ putBe32 alt), p)
      else (.ack, { p with peerMagic := m, peerMagicValid := true })
  else if type = lcpOptPcomp then
    if olen ≠ 2 then (.rej, p) else (.ack, { p with peerPcomp := true })
  else if type = lcpOptAccomp then
    if olen ≠ 2 then (.rej, p) else (.ack, { p with peerAccomp := true })
  else (.rej, p)

/-- `ipcp_review`, of the octets of one option. -/
def ipcpReview (p : Link) (o : List Byte) : OptVerdict × Link :=
  let olen := o.length
  let type := o.getD 0 0
  if type = ipcpOptAddress then
    if olen ≠ 6 then (.rej, p)
    else if getBe32 o 2 = p.cfg.remoteIp then (.ack, p)
    else (.nak ([ipcpOptAddress, 6] ++ putBe32 p.cfg.remoteIp), p)
  else if type = ipcpOptCompress then (.rej, p)
  else if type = ipcpOptAddresses then (.rej, p)
  else if type = ipcpOptDns1 ∨ type = ipcpOptDns2 then
    if olen ≠ 6 then (.rej, p)
    else
      let p := { p with stats.ipcpDnsRequests := p.stats.ipcpDnsRequests + 1 }
      let haveDns := if type = ipcpOptDns1 then p.cfg.dns1 else p.cfg.dns2
      if getBe32 o 2 = haveDns then
        (.ack, { p with stats.ipcpDnsAcked := p.stats.ipcpDnsAcked + 1 })
      else
        (.nak ([type, 6] ++ putBe32 haveDns),
          { p with stats.ipcpDnsNaked := p.stats.ipcpDnsNaked + 1 })
  else (.rej, p)

/-- The review of one option of a control protocol. -/
def review (p : Link) : Layer → List Byte → OptVerdict × Link
  | .lcp, o => lcpReview p o
  | .ipcp, o => ipcpReview p o

/-- `cr_result_t`. -/
inductive CrResult
  | invalid
  | ack
  | nak
  | rej
  deriving DecidableEq, Repr

/-- The code of the packet that answers a Configure-Request. -/
def CrResult.code : CrResult → Byte
  | .ack => pppConfAck
  | .nak => pppConfNak
  | _ => pppConfRej

/-- The first option of a list and what is behind it, if the list starts with a whole option. -/
def splitOpt (opts : List Byte) : Option (List Byte × List Byte) :=
  match opts with
  | _ :: olen :: _ =>
    if olen < 2 ∨ olen.toNat > opts.length then none
    else some (opts.take olen.toNat, opts.drop olen.toNat)
  | _ => none

/-- The walk of `classify_confreq` over the options, with the rejected and the naked ones so far.
Each turn takes an option of two octets at least, so there are no more turns than octets. -/
def reviewOpts (l : Layer) :
    Nat → Link → List Byte → List Byte → List Byte → Option (List Byte × List Byte) × Link
  | _, p, [], rej, nak => (some (rej, nak), p)
  | 0, p, _, _, _ => (none, p)
  | turns + 1, p, opts, rej, nak =>
    match splitOpt opts with
    | none => (none, p)
    | some (o, rest) =>
      match review p l o with
      | (.ack, p) => reviewOpts l turns p rest rej nak
      | (.nak one, p) =>
        let nak := if nak.length + one.length ≤ pppMruDefault then nak ++ one else nak
        reviewOpts l turns p rest rej nak
      | (.rej, p) =>
        let rej := if rej.length + o.length ≤ pppMruDefault then rej ++ o else rej
        reviewOpts l turns p rest rej nak

/-- `classify_confreq`: the verdict on the options and those of the answer. -/
def classifyConfreq (p : Link) (l : Layer) (opts : List Byte) :
    CrResult × List Byte × Link :=
  match reviewOpts l opts.length p opts [] [] with
  | (none, p) => (.invalid, [], p)
  | (some (rej, nak), p) =>
    if rej ≠ [] then (.rej, rej, p)
    else if nak ≠ [] then (.nak, nak, p)
    else (.ack, opts, p)

/-- The walk of `apply_nak` and `apply_rej`: `act` for each whole option, until there is none. -/
def applyOpts (act : Link → List Byte → Link) : Nat → Link → List Byte → Link
  | 0, p, _ => p
  | turns + 1, p, opts =>
    match splitOpt opts with
    | none => p
    | some (o, rest) => applyOpts act turns (act p o) rest

/-- What a naked option does to the next request. -/
def nakOpt (l : Layer) (p : Link) (o : List Byte) : Link :=
  match l with
  | .lcp =>
    if o.getD 0 0 = lcpOptMagic ∧ o.length = 6 then { p with ourMagic := getBe32 o 2 } else p
  | .ipcp =>
    if o.getD 0 0 = ipcpOptAddress ∧ o.length = 6 then
      { p with cfg.localIp := getBe32 o 2 }
    else p

/-- What a rejected option does to the next request. -/
def rejOpt (l : Layer) (p : Link) (o : List Byte) : Link :=
  let drop (p : Link) (bit : Byte) : Link :=
    modFsm p l fun f => { f with reqOpts := f.reqOpts &&& ~~~bit }
  match l with
  | .lcp =>
    if o.getD 0 0 = lcpOptMagic then drop p pppReqLcpMagic
    else if o.getD 0 0 = lcpOptAsyncmap then drop p pppReqLcpAsyncmap
    else p
  | .ipcp => if o.getD 0 0 = ipcpOptAddress then drop p pppReqIpcpAddress else p

/-- `apply_nak`. -/
def applyNak (p : Link) (l : Layer) (opts : List Byte) : Link :=
  applyOpts (nakOpt l) opts.length p opts

/-- `apply_rej`. -/
def applyRej (p : Link) (l : Layer) (opts : List Byte) : Link :=
  applyOpts (rejOpt l) opts.length p opts

/-! ### What the options leave alone -/

/-- A link that differs from another in neither automaton, but for the options still requested,
nor in its standing, nor in what it has sent and counted of what it received. -/
structure Quiet (p q : Link) : Prop where
  fsm : ∀ l, fsmFor q l = { fsmFor p l with reqOpts := (fsmFor q l).reqOpts }
  standing : q.standing = p.standing
  sent : q.sent = p.sent
  reception : q.stats.toReception = p.stats.toReception

namespace Quiet

variable {p q r : Link}

theorem refl (p : Link) : Quiet p p := ⟨fun _ => rfl, rfl, rfl, rfl⟩

theorem trans (h : Quiet p q) (h' : Quiet q r) : Quiet p r where
  fsm l := by rw [h'.fsm, h.fsm]
  standing := h'.standing.trans h.standing
  sent := h'.sent.trans h.sent
  reception := h'.reception.trans h.reception

theorem state (h : Quiet p q) (l : Layer) : (fsmFor q l).state = (fsmFor p l).state := by
  rw [h.fsm]

theorem lastReqId (h : Quiet p q) (l : Layer) :
    (fsmFor q l).lastReqId = (fsmFor p l).lastReqId := by
  rw [h.fsm]

theorem failures (h : Quiet p q) (l : Layer) :
    (fsmFor q l).failures = (fsmFor p l).failures := by
  rw [h.fsm]

theorem modFsm_reqOpts (p : Link) (l : Layer) (g : Byte → Byte) :
    Quiet p (modFsm p l fun f => { f with reqOpts := g f.reqOpts }) := by
  cases l <;>
    exact ⟨fun l => by cases l <;> rfl, standing_modFsm _ _ _ fun _ => rfl, rfl, rfl⟩

end Quiet

theorem quiet_lcpReview (p : Link) (o : List Byte) : Quiet p (lcpReview p o).2 := by
  unfold lcpReview
  dsimp only
  split_ifs <;> exact ⟨fun _ => rfl, rfl, rfl, rfl⟩

theorem quiet_ipcpReview (p : Link) (o : List Byte) : Quiet p (ipcpReview p o).2 := by
  unfold ipcpReview
  dsimp only
  split_ifs <;> exact ⟨fun _ => rfl, rfl, rfl, rfl⟩

theorem quiet_review (p : Link) (l : Layer) (o : List Byte) : Quiet p (review p l o).2 := by
  cases l
  · exact quiet_lcpReview p o
  · exact quiet_ipcpReview p o

/-- The walk over the options of a Configure-Request is quiet, turn by turn. -/
theorem quiet_reviewOpts (l : Layer) (turns : Nat) (p : Link) (opts rej nak : List Byte) :
    Quiet p (reviewOpts l turns p opts rej nak).2 := by
  induction turns generalizing p opts rej nak with
  | zero => cases opts <;> exact Quiet.refl p
  | succ turns ih =>
    cases opts with
    | nil => exact Quiet.refl p
    | cons b bs =>
      rw [reviewOpts]
      · split
        · exact Quiet.refl p
        · rename_i o rest _
          have hone := quiet_review p l o
          split <;> rename_i hreview <;> rw [hreview] at hone <;> exact hone.trans (ih _ _ _ _)
      · simp

theorem quiet_classifyConfreq (p : Link) (l : Layer) (opts : List Byte) :
    Quiet p (classifyConfreq p l opts).2.2 := by
  have hwalk := quiet_reviewOpts l opts.length p opts [] []
  unfold classifyConfreq
  split
  · rename_i heq
    rwa [heq] at hwalk
  · rename_i heq
    rw [heq] at hwalk
    split_ifs <;> exact hwalk

/-- A walk is quiet if what it does for each option is. -/
theorem quiet_applyOpts {f : Link → List Byte → Link} (hf : ∀ p o, Quiet p (f p o))
    (turns : Nat) (p : Link) (opts : List Byte) : Quiet p (applyOpts f turns p opts) := by
  induction turns generalizing p opts with
  | zero => exact Quiet.refl p
  | succ turns ih =>
    rw [applyOpts]
    split
    · exact Quiet.refl p
    · exact (hf _ _).trans (ih _ _)

theorem quiet_applyNak (p : Link) (l : Layer) (opts : List Byte) : Quiet p (applyNak p l opts) := by
  refine quiet_applyOpts (fun p o => ?_) _ _ _
  unfold nakOpt
  cases l <;> dsimp only <;> split <;> exact ⟨fun _ => rfl, rfl, rfl, rfl⟩

theorem quiet_applyRej (p : Link) (l : Layer) (opts : List Byte) : Quiet p (applyRej p l opts) := by
  refine quiet_applyOpts (fun p o => ?_) _ _ _
  unfold rejOpt
  cases l <;> dsimp only <;> split_ifs <;>
    first
    | exact Quiet.refl p
    | exact Quiet.modFsm_reqOpts p _ fun bits => bits &&& ~~~_

/-! ### The events -/

/-- What `ev_rcr` sends ahead of its answer: a request of its own, from a link that was stopped
or open. -/
def rcrRequest (p : Link) (l : Layer) (entry : PppState) : Link :=
  if entry = .stopped then scr (irc p l pppMaxConfigure) l true
  else if entry = .opened then scr (irc (tld p l) l pppMaxConfigure) l true
  else p

/-- The state `ev_rcr` enters once it has answered. -/
def rcrEnter (p : Link) (l : Layer) (entry : PppState) (good : Bool) : Link :=
  match entry with
  | .stopped | .opened | .reqSent | .ackSent => setState p l (if good then .ackSent else .reqSent)
  | .ackRcvd => if good then tlu (restartStop (setState p l .opened) l) l else p
  | _ => p

/-- `ev_rcr`, once the options are classified. -/
def rcrAnswer (p : Link) (l : Layer) (entry : PppState) (id : Byte) (r : CrResult)
    (resp : List Byte) : Link :=
  let p := sendCp (rcrRequest p l entry) l r.code id resp
  if r = .ack then rcrEnter p l entry true
  else if (fsmFor p l).failures = 0 then restartStop (setState p l .stopped) l
  else rcrEnter (modFsm p l fun f => { f with failures := f.failures - 1 }) l entry false

/-- `ev_rcr`. -/
def evRcr (p : Link) (l : Layer) (id : Byte) (opts : List Byte) : Link :=
  let entry := (fsmFor p l).state
  if entry = .initial ∨ entry = .closed then sta p l id
  else
    match classifyConfreq p l opts with
    | (.invalid, _, p) => p
    | (r, resp, p) => rcrAnswer p l entry id r resp

/-- `ev_rca`. -/
def evRca (p : Link) (l : Layer) (id : Byte) : Link :=
  if id ≠ (fsmFor p l).lastReqId then p
  else
    match (fsmFor p l).state with
    | .closed | .stopped => sta p l id
    | .reqSent => setState (irc p l pppMaxConfigure) l .ackRcvd
    | .ackRcvd => setState (scr p l true) l .reqSent
    | .ackSent =>
      tlu (setState (restartStop (irc p l pppMaxConfigure) l) l .opened) l
    | .opened => setState (scr (tld p l) l true) l .reqSent
    | _ => p

/-- `ev_rcn`. -/
def evRcn (p : Link) (l : Layer) (id : Byte) : Link :=
  if id ≠ (fsmFor p l).lastReqId then p
  else
    match (fsmFor p l).state with
    | .closed | .stopped => sta p l id
    | .reqSent | .ackSent => scr (irc p l pppMaxConfigure) l true
    | .ackRcvd => setState (scr p l true) l .reqSent
    | .opened => setState (scr (tld p l) l true) l .reqSent
    | _ => p

/-- `ev_rtr`. -/
def evRtr (p : Link) (l : Layer) (id : Byte) : Link :=
  match (fsmFor p l).state with
  | .opened =>
    let p := modFsm (tld p l) l fun f => { f with restarts := 0 }
    restartStart (setState (sta p l id) l .stopping) l
  | .reqSent | .ackRcvd | .ackSent => setState (sta p l id) l .reqSent
  | _ => sta p l id

/-- `ev_rta`. -/
def evRta (p : Link) (l : Layer) : Link :=
  match (fsmFor p l).state with
  | .closing => setState (restartStop p l) l .closed
  | .stopping => setState (restartStop p l) l .stopped
  | .ackRcvd => setState p l .reqSent
  | .opened => setState (scr (tld p l) l true) l .reqSent
  | _ => p

/-- A Code-Reject or Protocol-Reject: the event RXJ- of `cp_input`. -/
def evRxj (p : Link) (l : Layer) : Link :=
  let p := restartStop (setState p l .stopped) l
  if l = .lcp then tld p .lcp else p

/-- `restart_timeout`. -/
def restartTimeout (p : Link) (l : Layer) : Link :=
  if (fsmFor p l).restarts = 0 then
    let p := restartStop p l
    match (fsmFor p l).state with
    | .closing => setState p l .closed
    | .stopping | .reqSent | .ackRcvd | .ackSent => setState p l .stopped
    | _ => p
  else
    match (fsmFor p l).state with
    | .closing | .stopping =>
      restartStart (spendRestart (sendCp p l pppTermReq (fsmFor p l).lastReqId []) l) l
    | .reqSent | .ackRcvd | .ackSent => scr p l false
    | _ => restartStop p l

/-! ### Control packets -/

/-- A control packet, taken apart: its code, its identifier, and the octets its length covers. -/
structure CpHeader where
  code : Byte
  id : Byte
  data : List Byte
  deriving DecidableEq, Repr

/-- The checks at the head of `cp_input`: fewer than four octets or a length that does not fit
the frame make a packet invalid, and octets past the length are padding. -/
def cpHeader (pkt : List Byte) : Option CpHeader :=
  let plen := (pkt.getD 2 0 ++ pkt.getD 3 0).toNat
  if pkt.length < 4 ∨ plen < 4 ∨ plen > pkt.length then none
  else some ⟨pkt.getD 0 0, pkt.getD 1 0, (pkt.take plen).drop 4⟩

/-- The answer to an Echo-Request. -/
def echo (p : Link) (l : Layer) (h : CpHeader) : Link :=
  if l ≠ .lcp ∨ (fsmFor p l).state ≠ .opened then p
  else if h.data.length < 4 then p
  else
    let reply := putBe32 p.ourMagic ++ (h.data.take pppMruDefault).drop 4
    let p := sendCp p l pppEchoReply h.id reply
    { p with stats.echoReplies := p.stats.echoReplies + 1 }

/-- `send_cp` with `f->next_id++` for its identifier. -/
def sendNext (p : Link) (l : Layer) (code : Byte) (data : List Byte) : Link :=
  let id := (fsmFor p l).nextId
  sendCp (modFsm p l fun f => { f with nextId := f.nextId + 1 }) l code id data

/-- The answer to a packet of an unknown code: a Code-Reject of what fits of it. -/
def codeReject (p : Link) (l : Layer) (pkt : List Byte) (h : CpHeader) : Link :=
  let p := { p with stats.unknownCodes := p.stats.unknownCodes + 1 }
  sendNext p l pppCodeRej (pkt.take (min (h.data.length + 4) (pppMruDefault - 4)))

/-- `cp_input`. -/
def cpInput (p : Link) (l : Layer) (pkt : List Byte) : Link :=
  match cpHeader pkt with
  | none => p
  | some h =>
    if h.code = pppConfReq then evRcr p l h.id h.data
    else if h.code = pppConfAck then evRca p l h.id
    else if h.code = pppConfNak then
      let p := if h.id = (fsmFor p l).lastReqId then applyNak p l h.data else p
      evRcn p l h.id
    else if h.code = pppConfRej then
      let p := if h.id = (fsmFor p l).lastReqId then applyRej p l h.data else p
      evRcn p l h.id
    else if h.code = pppTermReq then evRtr p l h.id
    else if h.code = pppTermAck then evRta p l
    else if h.code = pppCodeRej ∨ h.code = pppProtoRej then evRxj p l
    else if h.code = pppEchoReq then echo p l h
    else if h.code = pppEchoReply ∨ h.code = pppDiscardReq then p
    else codeReject p l pkt h

end S5LBox.Ppp
