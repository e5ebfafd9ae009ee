import S5LBox.Ppp.Layers

/-!
# What the automata leave alone

Most of the peer is moved by few of its functions: its configuration, and what it was told of the
guest, by the review of options and by nothing else. A reading of a link that looks at neither
automaton, nor at the ring and the counters, nor at the assigned address, is the same before and
behind every step of RFC 1661, and a packet changes it through its options alone. One that looks
at the Configure-Acks in the ring beside changes by the answer to a good request alone.

## Main definitions

* `Apart`: a reading that the automata leave alone, Configure-Acks aside.
* `Aside`: a reading that the automata leave alone.

## Main results

* `Apart.cpInput`, `Aside.cpInput`: what becomes of it as a control packet comes in.
* `Apart.unframed`, `Apart.act`: octets that complete no frame, and all other calls, leave it alone.
-/

namespace S5LBox.Ppp

/-- A frame of a control protocol with a Configure-Ack. -/
def IsConfAck (f : BitVec 16 × List Byte) : Prop :=
  (f.1 = pppProtoLcp ∨ f.1 = pppProtoIpcp) ∧ f.2.getD 0 0 = pppConfAck

instance (f : BitVec 16 × List Byte) : Decidable (IsConfAck f) :=
  inferInstanceAs (Decidable (_ ∧ _))

/-- A reading of a link that looks at neither automaton, nor at what is sent and counted beside
Configure-Acks, nor at the assigned address, nor at what the host sets. -/
structure Apart {α : Type} (φ : Link → α) : Prop where
  modFsm (p : Link) (l : Layer) (g : Fsm → Fsm) : φ (modFsm p l g) = φ p
  ring (p : Link) (tx : Nat → Byte) (head tail : Word) (stats : Stats) (sent : List Packet) :
    φ { p with tx := tx, txHead := head, txTail := tail, stats := stats, sent := sent } = φ p
  frame (p : Link) (f : BitVec 16 × List Byte) (hf : ¬IsConfAck f) :
    φ { p with frames := p.frames ++ [f] } = φ p
  assign (p : Link) (ip : Word) (assigned : Bool) :
    φ { p with assignedIp := ip, assigned := assigned } = φ p
  host (p : Link) (sink opened : Bool) (nowMs : Word) (delivered : List (List Byte)) :
    φ { p with ipSink := sink, opened := opened, nowMs := nowMs, delivered := delivered } = φ p

/-- A reading that does not look at the frames in the ring at all. -/
structure Aside {α : Type} (φ : Link → α) : Prop extends Apart φ where
  frames (p : Link) (fs : List (BitVec 16 × List Byte)) : φ { p with frames := fs } = φ p

/-! ### Walks over options -/

section Walks

variable {α : Type} {φ : Link → α} {l : Layer}

/-- The walk over the options of a request leaves alone what the review of an option does. -/
theorem reading_reviewOpts (hreview : ∀ p o, φ (review p l o).2 = φ p) (turns : Nat) (p : Link)
    (opts rej nak : List Byte) : φ (reviewOpts l turns p opts rej nak).2 = φ p := by
  induction turns generalizing p opts rej nak with
  | zero => cases opts <;> rfl
  | succ turns ih =>
    cases opts with
    | nil => rfl
    | cons b bs =>
      rw [reviewOpts.eq_def]
      dsimp only
      split
      · rfl
      · rename_i o rest _
        have hone := hreview p o
        split <;> rename_i heq <;> rw [heq] at hone <;> exact (ih ..).trans hone

theorem reading_classifyConfreq (hreview : ∀ p o, φ (review p l o).2 = φ p) (p : Link)
    (opts : List Byte) : φ (classifyConfreq p l opts).2.2 = φ p := by
  rw [← reading_reviewOpts hreview opts.length p opts [] [], classifyConfreq]
  split
  · rename_i heq
    rw [heq]
  · rename_i heq
    rw [heq]
    split_ifs <;> rfl

/-- A walk leaves alone what it leaves alone at each option. -/
theorem reading_applyOpts {f : Link → List Byte → Link} (hf : ∀ p o, φ (f p o) = φ p)
    (turns : Nat) (p : Link) (opts : List Byte) : φ (applyOpts f turns p opts) = φ p := by
  induction turns generalizing p opts with
  | zero => rfl
  | succ turns ih =>
    rw [applyOpts]
    split
    · rfl
    · exact (ih ..).trans (hf ..)

end Walks

namespace Apart

variable {α : Type} {φ : Link → α} (h : Apart φ) (p : Link) (l : Layer) (id : Byte)
include h

/-! ### The steps of RFC 1661 -/

theorem setState (x : PppState) : φ (setState p l x) = φ p := h.modFsm ..

theorem restartStart : φ (restartStart p l) = φ p := h.modFsm ..

theorem restartStop : φ (restartStop p l) = φ p := h.modFsm ..

theorem irc (n : Nat) : φ (irc p l n) = φ p := h.modFsm ..

theorem freshId : φ (freshId p l) = φ p := h.modFsm ..

theorem spendRestart : φ (spendRestart p l) = φ p := h.modFsm ..

theorem stats (s : Stats) : φ { p with stats := s } = φ p := h.ring p p.tx p.txHead p.txTail s p.sent

theorem txFrame {proto : BitVec 16} {info : List Byte} (hf : ¬IsConfAck (proto, info)) :
    φ (txFrame p proto info) = φ p := by
  unfold Ppp.txFrame
  dsimp only
  split
  · exact h.stats ..
  · split
    · exact h.stats ..
    · exact (h.ring _ _ _ p.txTail _ p.sent).trans (h.frame p _ hf)

theorem sendCp {code : Byte} (hcode : code ≠ pppConfAck) (data : List Byte) :
    φ (sendCp p l code id data) = φ p := by
  unfold Ppp.sendCp
  split
  · exact h.stats ..
  · have hsent (q : Link) (sent : List Packet) : φ { q with sent := sent } = φ q :=
      h.ring q q.tx q.txHead q.txTail q.stats sent
    exact (hsent _ _).trans (h.txFrame p fun hf => hcode hf.2)

theorem scr (fresh : Bool) : φ (scr p l fresh) = φ p := by
  unfold Ppp.scr
  dsimp only
  rw [h.restartStart, h.spendRestart, h.sendCp _ _ _ (by decide)]
  cases fresh with
  | false => rfl
  | true => exact h.freshId ..

theorem str : φ (str p l) = φ p := by
  unfold Ppp.str
  dsimp only
  rw [h.restartStart, h.spendRestart, h.sendCp _ _ _ (by decide), h.freshId]

theorem sta : φ (sta p l id) = φ p := h.sendCp p l id (by decide) []

theorem tlu : φ (tlu p l) = φ p := by
  cases l with
  | lcp =>
    unfold Ppp.tlu ipcpStart
    dsimp only
    rw [h.scr, h.irc, h.modFsm, h.setState]
  | ipcp => exact h.assign p _ _

theorem tld : φ (tld p l) = φ p := by
  cases l with
  | lcp =>
    have hdown := h.restartStop (Ppp.setState p .ipcp .initial) .ipcp
    rw [h.setState] at hdown
    exact (h.assign _ _ false).trans hdown
  | ipcp => exact h.assign p p.assignedIp false

theorem sendNext {code : Byte} (hcode : code ≠ pppConfAck) (data : List Byte) :
    φ (sendNext p l code data) = φ p := by
  unfold Ppp.sendNext
  rw [h.sendCp _ _ _ hcode, h.modFsm]

/-! ### The events -/

theorem rcrRequest (entry : PppState) : φ (rcrRequest p l entry) = φ p := by
  unfold Ppp.rcrRequest
  split_ifs
  · rw [h.scr, h.irc]
  · rw [h.scr, h.irc, h.tld]
  · rfl

theorem rcrEnter (entry : PppState) (good : Bool) : φ (rcrEnter p l entry good) = φ p := by
  unfold Ppp.rcrEnter
  split
  case h_5 =>
    split_ifs
    · rw [h.tlu, h.restartStop, h.setState]
    · rfl
  case h_6 => rfl
  all_goals exact h.setState ..

/-- The answer to a request is a Configure-Ack behind one of our own, or leaves a reading alone. -/
theorem rcrAnswer (entry : PppState) (r : CrResult) (resp : List Byte) :
    φ (rcrAnswer p l entry id r resp) =
      if r = .ack then φ (Ppp.sendCp (Ppp.rcrRequest p l entry) l pppConfAck id resp) else φ p := by
  have hcode (hr : r ≠ .ack) : r.code ≠ pppConfAck := by
    cases r <;> first | exact absurd rfl hr | decide
  unfold Ppp.rcrAnswer
  dsimp only
  by_cases hr : r = .ack
  · rw [if_pos hr, if_pos hr, h.rcrEnter, hr]
    rfl
  · rw [if_neg hr, if_neg hr]
    split_ifs
    · rw [h.restartStop, h.setState, h.sendCp _ _ _ (hcode hr), h.rcrRequest]
    · rw [h.rcrEnter, h.modFsm, h.sendCp _ _ _ (hcode hr), h.rcrRequest]

/-- A Configure-Request changes a reading by the review of its options and by its Configure-Ack. -/
theorem evRcr (opts : List Byte) : φ (evRcr p l id opts) =
    if (fsmFor p l).state = .initial ∨ (fsmFor p l).state = .closed then φ p
    else if (classifyConfreq p l opts).1 = .ack then
      φ (Ppp.sendCp (Ppp.rcrRequest (classifyConfreq p l opts).2.2 l (fsmFor p l).state) l
        pppConfAck id opts)
    else φ (classifyConfreq p l opts).2.2 := by
  have hresp : (classifyConfreq p l opts).1 = .ack → (classifyConfreq p l opts).2.1 = opts := by
    unfold classifyConfreq
    split
    · exact nofun
    · split_ifs <;> intro hack <;> first | rfl | cases hack
  unfold Ppp.evRcr
  dsimp only
  split
  · exact h.sta ..
  · rcases hclass : classifyConfreq p l opts with ⟨r, resp, q⟩
    rw [hclass] at hresp
    cases r with
    | invalid => rfl
    | ack =>
      obtain rfl : resp = opts := hresp rfl
      rw [h.rcrAnswer, if_pos rfl]
    | nak => exact h.rcrAnswer q l id _ .nak resp
    | rej => exact h.rcrAnswer q l id _ .rej resp

theorem evRca : φ (evRca p l id) = φ p := by
  unfold Ppp.evRca
  split_ifs
  · rfl
  · split
    · exact h.sta ..
    · exact h.sta ..
    · rw [h.setState, h.irc]
    · rw [h.setState, h.scr]
    · rw [h.tlu, h.setState, h.restartStop, h.irc]
    · rw [h.setState, h.scr, h.tld]
    · rfl

theorem evRcn : φ (evRcn p l id) = φ p := by
  unfold Ppp.evRcn
  split_ifs
  · rfl
  · split
    · exact h.sta ..
    · exact h.sta ..
    · rw [h.scr, h.irc]
    · rw [h.scr, h.irc]
    · rw [h.setState, h.scr]
    · rw [h.setState, h.scr, h.tld]
    · rfl

theorem evRtr : φ (evRtr p l id) = φ p := by
  unfold Ppp.evRtr
  split
  · rw [h.restartStart, h.setState, h.sta, h.modFsm, h.tld]
  · rw [h.setState, h.sta]
  · rw [h.setState, h.sta]
  · rw [h.setState, h.sta]
  · exact h.sta ..

theorem evRta : φ (evRta p l) = φ p := by
  unfold Ppp.evRta
  split
  · rw [h.setState, h.restartStop]
  · rw [h.setState, h.restartStop]
  · exact h.setState ..
  · rw [h.setState, h.scr, h.tld]
  · rfl

theorem evRxj : φ (evRxj p l) = φ p := by
  unfold Ppp.evRxj
  dsimp only
  split_ifs
  · rw [h.tld, h.restartStop, h.setState]
  · rw [h.restartStop, h.setState]

theorem restartTimeout : φ (restartTimeout p l) = φ p := by
  unfold Ppp.restartTimeout
  dsimp only
  split_ifs
  · split
    case h_6 => exact h.restartStop ..
    all_goals rw [h.setState, h.restartStop]
  · split
    · rw [h.restartStart, h.spendRestart, h.sendCp _ _ _ (by decide)]
    · rw [h.restartStart, h.spendRestart, h.sendCp _ _ _ (by decide)]
    · exact h.scr ..
    · exact h.scr ..
    · exact h.scr ..
    · exact h.restartStop ..

theorem applyRej (opts : List Byte) : φ (applyRej p l opts) = φ p := by
  refine reading_applyOpts (fun p o => ?_) _ _ _
  unfold rejOpt
  cases l with
  | lcp =>
    dsimp only
    split_ifs
    · exact h.modFsm ..
    · exact h.modFsm ..
    · rfl
  | ipcp =>
    dsimp only
    split_ifs
    · exact h.modFsm ..
    · rfl

theorem echo (hd : CpHeader) : φ (echo p l hd) = φ p := by
  unfold Ppp.echo
  dsimp only
  split_ifs
  · rfl
  · rfl
  · exact (h.stats ..).trans (h.sendCp p l _ (by decide) _)

theorem codeReject (pkt : List Byte) (hd : CpHeader) : φ (codeReject p l pkt hd) = φ p := by
  unfold Ppp.codeReject
  dsimp only
  rw [h.sendNext _ _ (by decide)]
  exact h.stats ..

/-! ### Packets and calls -/

/-- A control packet changes a reading by its options: those of a request by its event, and those
of a Nak of our own request by what they do to it. -/
theorem cpInput (pkt : List Byte) : φ (cpInput p l pkt) =
    match cpHeader pkt with
    | none => φ p
    | some hd =>
      if hd.code = pppConfReq then φ (Ppp.evRcr p l hd.id hd.data)
      else if hd.code = pppConfNak ∧ hd.id = (fsmFor p l).lastReqId then φ (applyNak p l hd.data)
      else φ p := by
  unfold Ppp.cpInput
  cases cpHeader pkt with
  | none => rfl
  | some hd =>
    dsimp only
    by_cases hreq : hd.code = pppConfReq
    · rw [if_pos hreq, if_pos hreq]
    rw [if_neg hreq, if_neg hreq]
    by_cases hack : hd.code = pppConfAck
    · rw [if_pos hack, hack, h.evRca, if_neg fun hno => absurd hno.1 (by decide)]
    rw [if_neg hack]
    by_cases hnak : hd.code = pppConfNak
    · rw [if_pos hnak, h.evRcn]
      by_cases hid : hd.id = (fsmFor p l).lastReqId
      · rw [if_pos hid, if_pos ⟨hnak, hid⟩]
      · rw [if_neg hid, if_neg fun hno => hid hno.2]
    have hnak' : ¬(hd.code = pppConfNak ∧ hd.id = (fsmFor p l).lastReqId) := fun hno => hnak hno.1
    rw [if_neg hnak, if_neg hnak']
    split_ifs
    · exact (h.evRcn ..).trans (h.applyRej ..)
    · exact h.evRcn ..
    · exact h.evRtr ..
    · exact h.evRta ..
    · exact h.evRxj ..
    · exact h.echo ..
    · rfl
    · exact h.codeReject ..

theorem ipInput (info : List Byte) : φ (ipInput p info) = φ p := by
  have hcounted (s : Stats) : φ { p with stats := s, delivered := p.delivered ++ [info] } = φ p :=
    (h.host { p with stats := s } p.ipSink p.opened p.nowMs _).trans (h.stats p s)
  unfold Ppp.ipInput
  dsimp only
  split
  · exact hcounted _
  · exact h.stats p _

theorem unknownProto (proto : BitVec 16) (info : List Byte) :
    φ (unknownProto p proto info) = φ p := by
  unfold Ppp.unknownProto
  dsimp only
  split
  · rw [h.sendNext _ _ (by decide)]
    exact h.stats ..
  · exact h.stats ..

theorem dispatch (proto : BitVec 16) (info : List Byte) : φ (dispatch p proto info) =
    if proto = pppProtoLcp then φ (Ppp.cpInput p .lcp info)
    else if proto = pppProtoIpcp then φ (Ppp.cpInput p .ipcp info)
    else φ p := by
  unfold Ppp.dispatch
  split_ifs
  · rfl
  · rfl
  · exact h.ipInput ..
  · exact h.unknownProto ..

theorem serviceTimer (nowMs : Word) : φ (serviceTimer p l nowMs) = φ p := by
  unfold Ppp.serviceTimer
  split
  · exact h.restartTimeout ..
  · rfl

theorem pppTick (nowMs : Word) : φ (pppTick p nowMs) = φ p := by
  unfold Ppp.pppTick
  split
  · rfl
  · dsimp only
    rw [h.serviceTimer, h.serviceTimer]
    exact h.host p p.ipSink p.opened nowMs p.delivered

theorem pppOpen : φ (pppOpen p) = φ p := by
  unfold Ppp.pppOpen
  split
  · rfl
  · dsimp only
    rw [h.scr, h.setState, h.irc, h.modFsm]
    exact h.host p p.ipSink true p.nowMs p.delivered

theorem pppClose : φ (pppClose p) = φ p := by
  have hclosed : φ { p with opened := false } = φ p := h.host p p.ipSink false p.nowMs p.delivered
  unfold Ppp.pppClose
  dsimp only
  split_ifs
  · rw [h.setState, h.tld]
    exact hclosed
  · rw [h.str, h.setState, h.irc, h.tld]
    exact hclosed
  · rw [h.setState]
    exact hclosed
  · rw [h.str, h.setState, h.irc]
    exact hclosed

theorem pppOutput (cap : Nat) : φ (pppOutput p cap).2 = φ p := by
  induction cap generalizing p with
  | zero => rfl
  | succ cap ih =>
    rw [Ppp.pppOutput, pppOutputByte]
    by_cases hempty : p.txHead = p.txTail
    · rw [if_pos hempty]
    · rw [if_neg hempty]
      exact (ih _).trans (h.ring p p.tx p.txHead _ p.stats p.sent)

theorem pppSendIp (pkt : List Byte) : φ (pppSendIp p pkt).2 = φ p := by
  have hip : ¬IsConfAck (pppProtoIp, pkt) := by
    have hproto : ¬(pppProtoIp = pppProtoLcp ∨ pppProtoIp = pppProtoIpcp) := by decide
    exact fun hf => hproto hf.1
  unfold Ppp.pppSendIp
  dsimp only
  split_ifs
  · rfl
  · exact h.stats ..
  · exact h.stats ..
  · exact h.txFrame p hip
  · exact (h.stats ..).trans (h.txFrame p hip)

/-- An octet that completes no frame leaves a reading alone. -/
theorem unframed {p : Peer} {b : Byte} (hnone : completes p b = none) :
    φ (pppInputByte p b).toLink = φ p.toLink := by
  have hcount (q : Link) (g : Reception → Reception) : φ (count q g) = φ q := h.stats q _
  have hread : φ (count p.toLink fun s => { s with rxBytes := s.rxBytes + 1 }) = φ p.toLink :=
    hcount ..
  unfold completes at hnone
  unfold pppInputByte
  dsimp only
  split_ifs
  · unfold endFrame frameInput
    dsimp only
    split_ifs with hesc hin hlong
    · rw [hcount, hcount]
    · rw [hcount, hcount]
    · cases hframe : unframe p.rxbuf with
      | short =>
        dsimp only
        rw [hcount, hcount]
      | badFcs =>
        dsimp only
        rw [hcount, hcount]
      | good proto info => simp_all
    · exact hcount ..
  all_goals exact hread

/-- Every other call leaves a reading alone. -/
theorem act {a : Action} (ha : ∀ b, a ≠ .input b) (p : Peer) : φ (act a p).toLink = φ p.toLink := by
  cases a with
  | open_ => exact h.pppOpen ..
  | close => exact h.pppClose ..
  | tick nowMs => exact h.pppTick ..
  | input b => exact absurd rfl (ha b)
  | output cap => exact h.pppOutput ..
  | setIpSink installed =>
    exact h.host p.toLink installed p.opened p.nowMs p.delivered
  | sendIp pkt => exact h.pppSendIp ..

end Apart

namespace Aside

variable {α : Type} {φ : Link → α} (h : Aside φ) (p : Link) (l : Layer)
include h

theorem sendAny (code id : Byte) (data : List Byte) : φ (sendCp p l code id data) = φ p := by
  unfold Ppp.sendCp
  split
  · exact h.stats ..
  · rw [txFrame_eq]
    exact (h.ring { p with frames := _ } _ _ p.txTail _ _).trans (h.frames p _)

/-- A control packet changes a reading by its options: those of a request by their review, and those
of a Nak of our own request by what they do to it. -/
theorem cpInput (pkt : List Byte) : φ (cpInput p l pkt) =
    match cpHeader pkt with
    | none => φ p
    | some hd =>
      if hd.code = pppConfReq then
        if (fsmFor p l).state = .initial ∨ (fsmFor p l).state = .closed then φ p
        else φ (classifyConfreq p l hd.data).2.2
      else if hd.code = pppConfNak ∧ hd.id = (fsmFor p l).lastReqId then φ (applyNak p l hd.data)
      else φ p := by
  have hrcr (id : Byte) (opts : List Byte) : φ (evRcr p l id opts) =
      if (fsmFor p l).state = .initial ∨ (fsmFor p l).state = .closed then φ p
      else φ (classifyConfreq p l opts).2.2 := by
    rw [h.evRcr, h.sendAny, h.rcrRequest, ite_self]
  rw [h.toApart.cpInput]
  cases cpHeader pkt with
  | none => rfl
  | some hd =>
    dsimp only
    rw [hrcr]

end Aside

end S5LBox.Ppp
