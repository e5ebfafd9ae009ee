import S5LBox.Lib.Runs
import S5LBox.Ppp.Deframer

/-!
# The order of the two layers

IPCP is to be up only above LCP, the guest is to have an address only while IPCP is up, and nothing
is to be negotiated before the link is opened. Every event of the two automata but one moves their
standing in one of four ways (`Move`), each of which keeps that order. The exception is a
Code-Reject or Protocol-Reject, which stops a layer whatever it is in, and for IPCP without the
going down that LCP has: it keeps the order only where the layer may stop. Opening a link that is
already up while it counts as closed breaks the order as well.

## Main definitions

* `Layered`: the order, of a standing.
* `Orderly`: the condition on a call.

## Main results

* `move_cpInput`, `move_restartTimeout`: what an event does to the standing.
* `layers_ordered`: the order in every run of orderly calls, and that a call keeps it exactly if it
  is orderly.
-/

namespace S5LBox.Ppp

open Runs

/-! ### What an event does to the standing -/

/-- A state in which a layer is neither up nor down for good. -/
def Underway (x : PppState) : Prop := x ≠ .initial ∧ x ≠ .closed ∧ x ≠ .opened

/-- What an event of either automaton can do: nothing; a layer that is underway goes on to another
state, or comes up; a layer that is up goes down. -/
inductive Move (s : Standing) : Standing → Prop
  | stay : Move s s
  | shift (l : Layer) (x : PppState) (hfrom : Underway (s.state l)) (hinit : x ≠ .initial)
      (hopen : x ≠ .opened) : Move s (s.enter l x)
  | up (l : Layer) (hfrom : Underway (s.state l)) : Move s ((s.enter l .opened).rise l)
  | down (l : Layer) (x : PppState) (hfrom : s.state l = .opened) (hinit : x ≠ .initial)
      (hopen : x ≠ .opened) : Move s ((s.fall l).enter l x)

theorem Move.of_eq {s s' : Standing} (h : s' = s) : Move s s' := h ▸ .stay

section Events

variable (p : Link) (l : Layer) (id : Byte)

theorem standing_rcrRequest (entry : PppState) :
    (rcrRequest p l entry).standing =
      if entry = .opened then p.standing.fall l else p.standing := by
  unfold rcrRequest
  by_cases hstop : entry = .stopped
  · simp [hstop]
  · by_cases hopen : entry = .opened <;> simp [hopen, hstop]

/-- The answer to a Configure-Request, once the options are classified. -/
theorem move_rcrAnswer (r : CrResult) (resp : List Byte)
    (h : (fsmFor p l).state ≠ .initial ∧ (fsmFor p l).state ≠ .closed) :
    Move p.standing (rcrAnswer p l (fsmFor p l).state id r resp).standing := by
  have hrequest := standing_rcrRequest p l (fsmFor p l).state
  have hspend : ∀ q : Link,
      (modFsm q l fun f => { f with failures := f.failures - 1 }).standing = q.standing :=
    fun q => standing_modFsm _ _ _ fun _ => rfl
  by_cases hopen : (fsmFor p l).state = .opened
  · rw [if_pos hopen] at hrequest
    have hdown : ∀ x, x ≠ .initial → x ≠ .opened → Move p.standing ((p.standing.fall l).enter l x) :=
      fun x => .down l x hopen
    unfold rcrAnswer
    dsimp only
    rw [hopen] at hrequest ⊢
    split_ifs <;> simp [rcrEnter, hspend, hrequest] <;> exact hdown _ (by decide) (by decide)
  · rw [if_neg hopen] at hrequest
    have hfrom : Underway (p.standing.state l) := ⟨h.1, h.2, hopen⟩
    have hshift : ∀ x, x ≠ .initial → x ≠ .opened → Move p.standing (p.standing.enter l x) :=
      fun x => .shift l x hfrom
    have hup : Move p.standing ((p.standing.enter l .opened).rise l) := .up l hfrom
    unfold rcrAnswer
    dsimp only
    split_ifs
    · unfold rcrEnter
      split <;> simp [hrequest] <;>
        first
        | exact hshift _ (by decide) (by decide)
        | exact hup
        | exact .stay
    · simpa [hrequest] using hshift .stopped (by decide) (by decide)
    · unfold rcrEnter
      split <;> simp [hrequest, hspend] <;>
        first
        | exact hshift _ (by decide) (by decide)
        | exact .stay

theorem move_evRcr (opts : List Byte) : Move p.standing (evRcr p l id opts).standing := by
  have hquiet := quiet_classifyConfreq p l opts
  unfold evRcr
  dsimp only
  split_ifs with hdown
  · exact .of_eq (standing_sta ..)
  · rw [not_or] at hdown
    split
    · rename_i heq
      rw [heq] at hquiet
      exact .of_eq hquiet.standing
    · rename_i r resp q _ heq
      rw [heq] at hquiet
      have hstate := hquiet.state l
      rw [← hstate] at hdown ⊢
      rw [← hquiet.standing]
      exact move_rcrAnswer q l id r resp hdown

theorem move_evRca : Move p.standing (evRca p l id).standing := by
  unfold evRca
  split_ifs
  · exact .stay
  · split <;> rename_i hstate
    case h_7 => exact .stay
    all_goals simp
    case h_3 | h_4 =>
      exact .shift l _ (by simp [Underway, state_standing, hstate]) (by decide) (by decide)
    case h_5 => exact .up l (by simp [Underway, state_standing, hstate])
    case h_6 => exact .down l _ hstate (by decide) (by decide)
    all_goals exact .stay

theorem move_evRcn : Move p.standing (evRcn p l id).standing := by
  unfold evRcn
  split_ifs
  · exact .stay
  · split <;> rename_i hstate
    case h_7 => exact .stay
    all_goals simp
    case h_5 => exact .shift l _ (by simp [Underway, state_standing, hstate]) (by decide) (by decide)
    case h_6 => exact .down l _ hstate (by decide) (by decide)
    all_goals exact .stay

theorem move_evRtr : Move p.standing (evRtr p l id).standing := by
  have hzrc : ∀ q : Link, (modFsm q l fun f => { f with restarts := 0 }).standing = q.standing :=
    fun q => standing_modFsm _ _ _ fun _ => rfl
  unfold evRtr
  split <;> rename_i hstate <;> simp [hzrc]
  case h_1 => exact .down l _ hstate (by decide) (by decide)
  case h_5 => exact .stay
  all_goals
    exact .shift l _ (by simp [Underway, state_standing, hstate]) (by decide) (by decide)

theorem move_evRta : Move p.standing (evRta p l).standing := by
  unfold evRta
  split <;> rename_i hstate
  case h_5 => exact .stay
  all_goals simp
  case h_4 => exact .down l _ hstate (by decide) (by decide)
  all_goals
    exact .shift l _ (by simp [Underway, state_standing, hstate]) (by decide) (by decide)

/-- The restart timer moves only a layer that is underway. -/
theorem move_restartTimeout : Move p.standing (restartTimeout p l).standing := by
  have hstop : (fsmFor (restartStop p l) l).state = (fsmFor p l).state := by simp [restartStop]
  unfold restartTimeout
  dsimp only
  rw [hstop]
  split_ifs <;> split <;> rename_i hstate <;> simp
  all_goals
    first
    | exact .stay
    | exact .shift l _ (by simp [Underway, state_standing, hstate]) (by decide) (by decide)

theorem standing_sendNext (code : Byte) (data : List Byte) :
    (sendNext p l code data).standing = p.standing := by
  rw [sendNext, standing_sendCp]
  exact standing_modFsm _ _ _ fun _ => rfl

/-- A Code-Reject or Protocol-Reject that `cp_input` does not discard. -/
def isReject (pkt : List Byte) : Bool :=
  match cpHeader pkt with
  | none => false
  | some h => h.code = pppCodeRej || h.code = pppProtoRej

theorem cpInput_of_isReject {pkt : List Byte} (h : isReject pkt) :
    cpInput p l pkt = evRxj p l := by
  rw [isReject] at h
  rw [cpInput]
  cases hh : cpHeader pkt with
  | none => simp [hh] at h
  | some hd =>
    simp only [hh, Bool.or_eq_true, decide_eq_true_eq] at h
    dsimp only
    rcases h with h | h <;> simp only [h] <;> rfl

/-- Every packet but a reject makes one of the four moves. -/
theorem move_cpInput {pkt : List Byte} (h : isReject pkt = false) :
    Move p.standing (cpInput p l pkt).standing := by
  rw [isReject] at h
  rw [cpInput]
  cases hh : cpHeader pkt with
  | none => exact .stay
  | some hd =>
    rw [hh] at h
    have hrej : ¬ (hd.code = pppCodeRej ∨ hd.code = pppProtoRej) := by
      simpa using h
    have hquietNak := quiet_applyNak p l hd.data
    have hquietRej := quiet_applyRej p l hd.data
    have hecho : (echo p l hd).standing = p.standing := by
      unfold echo
      split_ifs
      · rfl
      · rfl
      · exact standing_sendCp ..
    dsimp only
    split_ifs
    · exact move_evRcr p l hd.id hd.data
    · exact move_evRca p l hd.id
    · exact hquietNak.standing ▸ move_evRcn (applyNak p l hd.data) l hd.id
    · exact move_evRcn p l hd.id
    · exact hquietRej.standing ▸ move_evRcn (applyRej p l hd.data) l hd.id
    · exact move_evRcn p l hd.id
    · exact move_evRtr p l hd.id
    · exact move_evRta p l
    · exact .of_eq hecho
    · exact .stay
    · exact .of_eq (standing_sendNext ..)

theorem standing_evRxj : (evRxj p l).standing =
    if l = .lcp then (p.standing.enter .lcp .stopped).fall .lcp
    else p.standing.enter .ipcp .stopped := by
  unfold evRxj
  cases l <;> simp

end Events

/-! ### The order of the layers -/

/-- IPCP is up only above LCP and out of the way when LCP is not up, the guest has an address
exactly while IPCP is up, and before the link was first opened LCP is down. -/
structure Layered (s : Standing) (asked : Bool) : Prop where
  assigned : s.assigned ↔ s.state .ipcp = .opened
  above : s.state .ipcp = .opened → s.state .lcp = .opened
  initial : s.state .lcp ≠ .opened → s.state .ipcp = .initial
  asked : asked = false → s.state .lcp = .initial ∨ s.state .lcp = .closed

/-- The order, and that IPCP is started whenever LCP is up. -/
structure Ordered (s : Standing) (asked : Bool) : Prop extends Layered s asked where
  started : s.state .lcp = .opened → s.state .ipcp ≠ .initial

@[simp]
theorem lcp_ne_ipcp : Layer.lcp ≠ Layer.ipcp := by decide

@[simp]
theorem ipcp_ne_lcp : Layer.ipcp ≠ Layer.lcp := by decide

/-- With LCP anywhere but up, the order is IPCP out of the way and no address. -/
theorem ordered_of_down {s : Standing} {asked : Bool} (hlcp : s.state .lcp ≠ .opened)
    (hipcp : s.state .ipcp = .initial) (haddr : s.assigned = false)
    (hasked : asked = false → s.state .lcp = .initial ∨ s.state .lcp = .closed) :
    Ordered s asked where
  assigned := by simp [haddr, hipcp]
  above := by simp [hipcp]
  initial _ := hipcp
  asked := hasked
  started h := absurd h hlcp

/-- With LCP up, the order is IPCP started and an address exactly while it is up. -/
theorem ordered_of_up {s : Standing} {asked : Bool} (hlcp : s.state .lcp = .opened)
    (hipcp : s.state .ipcp ≠ .initial) (haddr : s.assigned ↔ s.state .ipcp = .opened)
    (hasked : asked = true) : Ordered s asked where
  assigned := haddr
  above _ := hlcp
  initial h := absurd hlcp h
  asked h := by rw [hasked] at h; contradiction
  started _ := hipcp

namespace Ordered

variable {s s' : Standing} {asked : Bool}

theorem unassigned (h : Ordered s asked) (hlcp : s.state .lcp ≠ .opened) : s.assigned = false := by
  have hipcp := h.initial hlcp
  have hno := h.assigned
  rw [hipcp] at hno
  simpa using hno

theorem asked_of_lcp (h : Ordered s asked) (hinit : s.state .lcp ≠ .initial)
    (hclosed : s.state .lcp ≠ .closed) : asked = true := by
  cases hasked : asked
  · exact absurd (h.asked hasked) (by simp [hinit, hclosed])
  · rfl

theorem lcp_of_ipcp (h : Ordered s asked) (hipcp : s.state .ipcp ≠ .initial) :
    s.state .lcp = .opened := by
  by_contra hlcp
  exact hipcp (h.initial hlcp)

/-- Whatever an event can do keeps the order. -/
theorem move (h : Ordered s asked) (m : Move s s') : Ordered s' asked := by
  cases m with
  | stay => exact h
  | shift l x hfrom hinit hopen =>
    cases l with
    | lcp =>
      have hasked := h.asked_of_lcp hfrom.1 hfrom.2.1
      refine ordered_of_down ?_ ?_ ?_ ?_
      · simpa using hopen
      · simpa using h.initial hfrom.2.2
      · exact h.unassigned hfrom.2.2
      · simp [hasked]
    | ipcp =>
      have hlcp := h.lcp_of_ipcp hfrom.1
      have haddr : s.assigned = false := by simpa [hfrom.2.2] using h.assigned
      refine ordered_of_up ?_ ?_ ?_ ?_
      · simpa using hlcp
      · simpa using hinit
      · simp [haddr, hopen]
      · exact h.asked_of_lcp (by simp [hlcp]) (by simp [hlcp])
  | up l hfrom =>
    cases l with
    | lcp =>
      have haddr := h.unassigned hfrom.2.2
      refine ordered_of_up ?_ ?_ ?_ ?_
      · simp [Standing.rise]
      · simp [Standing.rise]
      · simp [Standing.rise, haddr]
      · exact h.asked_of_lcp hfrom.1 hfrom.2.1
    | ipcp =>
      have hlcp := h.lcp_of_ipcp hfrom.1
      refine ordered_of_up ?_ ?_ ?_ ?_
      · simpa [Standing.rise] using hlcp
      · simp [Standing.rise]
      · simp [Standing.rise]
      · exact h.asked_of_lcp (by simp [hlcp]) (by simp [hlcp])
  | down l x hfrom hinit hopen =>
    cases l with
    | lcp =>
      have hasked := h.asked_of_lcp (by simp [hfrom]) (by simp [hfrom])
      refine ordered_of_down ?_ ?_ ?_ ?_
      · simpa using hopen
      · simp [Standing.fall]
      · simp [Standing.fall]
      · simp [hasked]
    | ipcp =>
      have hlcp := h.lcp_of_ipcp (by simp [hfrom])
      refine ordered_of_up ?_ ?_ ?_ ?_
      · simpa [Standing.fall] using hlcp
      · simpa using hinit
      · simp [Standing.fall, hopen]
      · exact h.asked_of_lcp (by simp [hlcp]) (by simp [hlcp])

/-- LCP may be rejected once the link has been opened, and not before. -/
theorem reject_lcp :
    (asked = true → Ordered ((s.enter .lcp .stopped).fall .lcp) asked) ∧
    (Layered ((s.enter .lcp .stopped).fall .lcp) asked → asked = true) := by
  constructor
  · intro hasked
    refine ordered_of_down ?_ ?_ ?_ ?_ <;> simp [Standing.fall, hasked]
  · intro hlay
    have hno := hlay.asked
    simp [Standing.fall] at hno
    exact hno

/-- IPCP may be rejected while it is started and not up, and not otherwise. -/
theorem reject_ipcp (h : Ordered s asked) :
    (s.state .lcp = .opened ∧ s.state .ipcp ≠ .opened → Ordered (s.enter .ipcp .stopped) asked) ∧
    (Layered (s.enter .ipcp .stopped) asked →
      s.state .lcp = .opened ∧ s.state .ipcp ≠ .opened) := by
  constructor
  · rintro ⟨hlcp, hipcp⟩
    have haddr : s.assigned = false := by simpa [hipcp] using h.assigned
    refine ordered_of_up ?_ ?_ ?_ ?_
    · simpa using hlcp
    · simp
    · simp [haddr]
    · exact h.asked_of_lcp (by simp [hlcp]) (by simp [hlcp])
  · intro hlay
    have hlcp : s.state .lcp = .opened := by
      by_contra hno
      simpa using hlay.initial (by simpa using hno)
    have hipcp : s.state .ipcp ≠ .opened := by
      intro hup
      have haddr := h.assigned.2 hup
      have hno := hlay.assigned
      simp [haddr] at hno
    exact ⟨hlcp, hipcp⟩

end Ordered

/-! ### What a call does to the standing -/

section Calls

variable (p : Link)

@[simp]
theorem standing_count (g : Reception → Reception) : (count p g).standing = p.standing := rfl

/-- Of all frames that come in, those of the two control protocols alone have a say. -/
theorem standing_dispatch (proto : BitVec 16) (info : List Byte) :
    (dispatch p proto info).standing =
      if proto = pppProtoLcp then (cpInput p .lcp info).standing
      else if proto = pppProtoIpcp then (cpInput p .ipcp info).standing
      else p.standing := by
  have hunknown : (unknownProto p proto info).standing = p.standing := by
    unfold unknownProto
    dsimp only
    split
    · exact standing_sendNext ..
    · rfl
  have hip : (ipInput p info).standing = p.standing := by
    unfold ipInput
    dsimp only
    split <;> rfl
  unfold dispatch
  split_ifs
  · rfl
  · rfl
  · exact hip
  · exact hunknown

theorem standing_txFrame (proto : BitVec 16) (info : List Byte) :
    (txFrame p proto info).standing = p.standing := by
  rw [txFrame_eq]
  rfl

theorem standing_pppSendIp (pkt : List Byte) : (pppSendIp p pkt).2.standing = p.standing := by
  unfold pppSendIp
  dsimp only
  split_ifs
  · rfl
  · rfl
  · rfl
  · exact standing_txFrame ..
  · exact standing_txFrame p pppProtoIp pkt

theorem standing_pppOutput (cap : Nat) : (pppOutput p cap).2.standing = p.standing := by
  induction cap generalizing p with
  | zero => rfl
  | succ cap ih =>
    rw [pppOutput, pppOutputByte]
    by_cases h : p.txHead = p.txTail
    · rw [if_pos h]
    · rw [if_neg h]
      exact ih _

theorem standing_pppSetIpSink (installed : Bool) :
    (pppSetIpSink p installed).standing = p.standing := rfl

theorem move_serviceTimer (l : Layer) (nowMs : Word) :
    Move p.standing (serviceTimer p l nowMs).standing := by
  unfold serviceTimer
  split
  · exact move_restartTimeout p l
  · exact .stay

theorem standing_pppOpen : (pppOpen p).standing =
    if p.opened then p.standing
    else { p.standing.enter .lcp .reqSent with opened := true } := by
  have hopts : ∀ q : Link,
      (modFsm q .lcp fun f => { f with reqOpts := pppReqLcpMagic ||| pppReqLcpAsyncmap }).standing =
        q.standing := fun q => standing_modFsm _ _ _ fun _ => rfl
  unfold pppOpen
  split
  · rfl
  · simp [hopts]
    rfl

theorem standing_pppClose : (pppClose p).standing =
    let s : Standing := { p.standing with opened := false }
    if s.state .lcp = .opened then (s.fall .lcp).enter .lcp .closing
    else if s.state .lcp = .initial ∨ s.state .lcp = .closed then s.enter .lcp .closed
    else s.enter .lcp .closing := by
  unfold pppClose
  dsimp only
  by_cases hopen : p.lcp.state = .opened
  · have hs : p.standing.state .lcp = .opened := hopen
    have htld : (tld { p with opened := false } .lcp).lcp.state = .opened := hopen
    simp [hopen, hs, htld]
    rfl
  · have hs : p.standing.state .lcp ≠ .opened := hopen
    by_cases hdown : p.lcp.state = .initial ∨ p.lcp.state = .closed
    · have hs' : p.standing.state .lcp = .initial ∨ p.standing.state .lcp = .closed := hdown
      simp [hopen, hs, hdown, hs']
      rfl
    · have hs' : ¬ (p.standing.state .lcp = .initial ∨ p.standing.state .lcp = .closed) := hdown
      simp only [hopen, hs, hdown, hs', if_false, standing_str, standing_setState, standing_irc]
      rfl

end Calls

/-- The frame that an octet completes, if its checks are good. -/
def completes (p : Peer) (b : Byte) : Option (BitVec 16 × List Byte) :=
  if b = pppFlag ∧ p.escaped = false ∧ (p.inFrame ∧ p.rxbuf ≠ []) ∧ p.overlong = false then
    match unframe p.rxbuf with
    | .good proto info => some (proto, info)
    | _ => none
  else none

/-- An octet that completes no frame leaves the standing alone. -/
theorem standing_of_completes_none {p : Peer} {b : Byte} (h : completes p b = none) :
    (pppInputByte p b).standing = p.standing := by
  unfold completes at h
  unfold pppInputByte endFrame frameInput
  dsimp only
  split_ifs at h ⊢ <;> first | rfl | (split <;> simp_all)

/-- An octet that completes a frame has it dispatched. -/
theorem standing_of_completes {p : Peer} {b : Byte} {proto : BitVec 16} {info : List Byte}
    (h : completes p b = some (proto, info)) :
    ∃ q : Link, q.standing = p.standing ∧
      (pppInputByte p b).standing = (dispatch q proto info).standing := by
  unfold completes at h
  split at h
  case isFalse => contradiction
  case isTrue hends =>
    obtain ⟨rfl, hesc, hin, hlong⟩ := hends
    split at h
    case h_2 => contradiction
    case h_1 heq =>
      obtain ⟨rfl, rfl⟩ := h
      let q := count p.toLink fun s => { s with rxBytes := s.rxBytes + 1 }
      refine ⟨count q fun s => { s with framesIn := s.framesIn + 1 }, rfl, ?_⟩
      simp [pppInputByte, endFrame, hesc, hin, hlong, frameInput, heq, q]

/-! ### Runs -/

/-- A peer, and whether it was ever asked to open the link. -/
structure Session where
  peer : Peer
  asked : Bool := false

/-- A call. -/
def call (a : Action) (s : Session) : Session where
  peer := act a s.peer
  asked := s.asked || (match a with | .open_ => true | _ => false)

/-- A call after which the layers are in order: no octet completes a Code-Reject or
Protocol-Reject of LCP before the link was first opened, nor one of IPCP unless LCP is up and IPCP
is not; and the link is not opened anew while LCP is up. -/
def Orderly (s : Session) : Action → Prop
  | .open_ => s.peer.opened = true ∨ s.peer.lcp.state ≠ .opened
  | .input b => ∀ proto info, completes s.peer b = some (proto, info) → isReject info →
      (proto = pppProtoLcp → s.asked = true) ∧
      (proto = pppProtoIpcp → s.peer.lcp.state = .opened ∧ s.peer.ipcp.state ≠ .opened)
  | _ => True

/-- The order of a session's layers. -/
def Session.Ordered (s : Session) : Prop := Ppp.Ordered s.peer.standing s.asked

/-- What a control packet does to the order. -/
theorem ordered_cpInput {p : Link} {asked : Bool} (h : Ordered p.standing asked) (l : Layer)
    (info : List Byte) :
    ((isReject info →
        match l with
        | .lcp => asked = true
        | .ipcp => p.lcp.state = .opened ∧ p.ipcp.state ≠ .opened) →
      Ordered (cpInput p l info).standing asked) ∧
    (Layered (cpInput p l info).standing asked → isReject info →
      match l with
      | .lcp => asked = true
      | .ipcp => p.lcp.state = .opened ∧ p.ipcp.state ≠ .opened) := by
  by_cases hrej : isReject info
  · rw [cpInput_of_isReject p l hrej, standing_evRxj]
    cases l with
    | lcp =>
      rw [if_pos rfl]
      exact ⟨fun hok => (Ordered.reject_lcp).1 (hok hrej), fun hlay _ => Ordered.reject_lcp.2 hlay⟩
    | ipcp =>
      rw [if_neg ipcp_ne_lcp]
      exact ⟨fun hok => h.reject_ipcp.1 (hok hrej), fun hlay _ => h.reject_ipcp.2 hlay⟩
  · have hmove := h.move (move_cpInput p l (by simpa using hrej))
    exact ⟨fun _ => hmove, fun _ hyes => absurd hyes hrej⟩

/-- Octets keep the order exactly if they complete no reject out of turn. -/
theorem ordered_input {s : Session} (h : s.Ordered) (b : Byte) :
    (Orderly s (.input b) → Ordered (pppInputByte s.peer b).standing s.asked) ∧
    (Layered (pppInputByte s.peer b).standing s.asked → Orderly s (.input b)) := by
  cases hc : completes s.peer b with
  | none =>
    rw [standing_of_completes_none hc]
    refine ⟨fun _ => h, fun _ proto info hsome => ?_⟩
    rw [hc] at hsome
    contradiction
  | some frame =>
    obtain ⟨proto, info⟩ := frame
    obtain ⟨q, hq, hstanding⟩ := standing_of_completes hc
    have hqord : Ordered q.standing s.asked := hq ▸ h
    have hlcp : q.lcp.state = s.peer.lcp.state := congrFun (congrArg Standing.state hq) .lcp
    have hipcp : q.ipcp.state = s.peer.ipcp.state := congrFun (congrArg Standing.state hq) .ipcp
    have hframe : Orderly s (.input b) ↔ (isReject info →
        (proto = pppProtoLcp → s.asked = true) ∧
        (proto = pppProtoIpcp → q.lcp.state = .opened ∧ q.ipcp.state ≠ .opened)) := by
      rw [hlcp, hipcp]
      constructor
      · exact fun hok => hok proto info hc
      · rintro hok proto' info' hc'
        obtain ⟨rfl, rfl⟩ : proto = proto' ∧ info = info' := by simpa [hc] using hc'
        exact hok
    have hne : pppProtoIpcp ≠ pppProtoLcp := by decide
    rw [hframe, hstanding, standing_dispatch]
    by_cases hpl : proto = pppProtoLcp
    · have hcp := ordered_cpInput hqord .lcp info
      simpa [hpl, hne.symm] using hcp
    · by_cases hpi : proto = pppProtoIpcp
      · have hcp := ordered_cpInput hqord .ipcp info
        simpa [hpi, hne] using hcp
      · simpa [hpl, hpi] using hqord

/-- The clock keeps the order. -/
theorem ordered_tick {p : Link} {asked : Bool} (h : Ordered p.standing asked) (nowMs : Word) :
    Ordered (pppTick p nowMs).standing asked := by
  unfold pppTick
  split
  · exact h
  · have hnow : Ordered ({ p with nowMs := nowMs } : Link).standing asked := h
    exact (hnow.move (move_serviceTimer _ .lcp nowMs)).move (move_serviceTimer _ .ipcp nowMs)

/-- Opening keeps the order exactly if it does not start an LCP that is up afresh. -/
theorem ordered_open {p : Link} {asked : Bool} (h : Ordered p.standing asked) :
    (p.opened = true ∨ p.lcp.state ≠ .opened → Ordered (pppOpen p).standing true) ∧
    (Layered (pppOpen p).standing true → p.opened = true ∨ p.lcp.state ≠ .opened) := by
  rw [standing_pppOpen]
  by_cases hopened : p.opened = true
  · rw [if_pos hopened]
    exact ⟨fun _ => { h with asked := by simp }, fun _ => .inl hopened⟩
  · rw [if_neg hopened]
    constructor
    · intro hok
      have hlcp : p.standing.state .lcp ≠ .opened := hok.resolve_left hopened
      refine ordered_of_down ?_ ?_ ?_ ?_
      · simp [Standing.enter]
      · simpa [Standing.enter] using h.initial hlcp
      · exact h.unassigned hlcp
      · simp
    · intro hlay
      refine .inr fun hlcp => h.started hlcp ?_
      simpa [Standing.enter] using hlay.initial (by simp [Standing.enter])

/-- Closing keeps the order. -/
theorem ordered_close {p : Link} {asked : Bool} (h : Ordered p.standing asked) :
    Ordered (pppClose p).standing asked := by
  have hopened : Ordered { p.standing with opened := false } asked := { h with }
  rw [standing_pppClose]
  dsimp only
  split_ifs with hup hdown
  · exact hopened.move (.down .lcp .closing hup (by decide) (by decide))
  · refine ordered_of_down ?_ ?_ ?_ ?_
    · simp
    · simpa using h.initial hup
    · exact h.unassigned hup
    · simp
  · rw [not_or] at hdown
    exact hopened.move (.shift .lcp .closing ⟨hdown.1, hdown.2, hup⟩ (by decide) (by decide))

/-- A call keeps the layers in order exactly if it is orderly. -/
theorem ordered_call {s : Session} (h : s.Ordered) (a : Action) :
    (Orderly s a → (call a s).Ordered) ∧
    (Layered (call a s).peer.standing (call a s).asked → Orderly s a) := by
  have hs : Ordered s.peer.standing s.asked := h
  unfold Session.Ordered
  cases a with
  | open_ =>
    have hopen := ordered_open h
    simpa [call, act, Orderly] using hopen
  | close => exact ⟨fun _ => by simpa [call, act] using ordered_close h, fun _ => trivial⟩
  | tick nowMs => exact ⟨fun _ => by simpa [call, act] using ordered_tick h nowMs, fun _ => trivial⟩
  | input b =>
    have hinput := ordered_input h b
    simpa [call, act] using hinput
  | output cap =>
    refine ⟨fun _ => ?_, fun _ => trivial⟩
    simpa [call, act, standing_pppOutput] using hs
  | setIpSink installed =>
    refine ⟨fun _ => ?_, fun _ => trivial⟩
    simpa [call, act, standing_pppSetIpSink] using hs
  | sendIp pkt =>
    refine ⟨fun _ => ?_, fun _ => trivial⟩
    simpa [call, act, standing_pppSendIp] using hs

theorem ordered_init (cfg : Config) : Session.Ordered { peer := pppInit cfg } :=
  ordered_of_down (show PppState.initial ≠ .opened by decide) rfl rfl fun _ => .inl rfl

/-- In every run of orderly calls the layers are in order: IPCP is up only above LCP, where the
phase is the one of an open link; the guest has an address exactly while IPCP is up; IPCP is out of
the way while LCP is not up; a datagram is delivered only while both are up; and before the link was
first opened LCP is down. The next call keeps this exactly if it is orderly. -/
theorem layers_ordered (cfg : Config) (s : Session)
    (run : Run call Orderly { peer := pppInit cfg } s) :
    Layered s.peer.standing s.asked ∧
    (pppPhase s.peer.toLink = .opened ↔ s.peer.ipcp.state = .opened) ∧
    (∀ info, (ipInput s.peer.toLink info).delivered ≠ s.peer.delivered →
      s.peer.lcp.state = .opened ∧ s.peer.ipcp.state = .opened) ∧
    ∀ a, Layered (call a s).peer.standing (call a s).asked ↔ Orderly s a := by
  have h : s.Ordered :=
    run.keeps (fun s a hok hs => (ordered_call hs a).1 hok) (ordered_init cfg)
  have habove : s.peer.ipcp.state = .opened → s.peer.lcp.state = .opened := h.above
  refine ⟨h.toLayered, ?_, fun info hdel => ?_, fun a => ?_⟩
  · unfold pppPhase
    constructor
    · split_ifs <;> simp_all
    · intro hup
      simp [hup, habove hup]
  · by_cases hup : s.peer.ipcp.state = .opened
    · exact ⟨habove hup, hup⟩
    · exact absurd (by simp [ipInput, hup]) hdel
  · exact ⟨(ordered_call h a).2, fun hok => ((ordered_call h a).1 hok).toLayered⟩

instance (s : Session) (a : Action) : Decidable (Orderly s a) :=
  match a with
  | .open_ => inferInstanceAs (Decidable (_ ∨ _))
  | .input b =>
    decidable_of_iff (∀ r ∈ completes s.peer b, isReject r.2 →
        (r.1 = pppProtoLcp → s.asked = true) ∧
        (r.1 = pppProtoIpcp → s.peer.lcp.state = .opened ∧ s.peer.ipcp.state ≠ .opened))
      ⟨fun h proto info => h (proto, info), fun h r => h r.1 r.2⟩
  | .close | .tick _ | .output _ | .setIpSink _ | .sendIp _ => instDecidableTrue

/-- The octets of control packets, as calls. -/
def packets (ps : List (Layer × List Byte)) : List Action :=
  (ps.flatMap fun p => frameOctets p.1.proto p.2 0).map .input

/-- The guest takes part in a negotiation up to an assigned address. -/
def negotiation : List Action :=
  .open_ :: packets [(.lcp, cpOctets pppConfAck 1 []), (.lcp, cpOctets pppConfReq 1 []),
    (.ipcp, cpOctets pppConfAck 1 []),
    (.ipcp, cpOctets pppConfReq 1 ([ipcpOptAddress, 6] ++ putBe32 0x0a00020f))]

/-- The guest that negotiates both layers: they come up, and it has its address. -/
theorem layers_ordered_negotiation :
    let s := follow call { peer := pppInit pppConfigDefault } negotiation
    s.peer.lcp.state = .opened ∧ s.peer.ipcp.state = .opened ∧ s.peer.assigned = true ∧
      pppPhase s.peer.toLink = .opened ∧ Layered s.peer.standing s.asked := by
  have hadmitted : Admitted call Orderly { peer := pppInit pppConfigDefault } negotiation := by
    decide +kernel
  have hordered := layers_ordered pppConfigDefault _ (run_of_admitted hadmitted)
  have hup : (follow call { peer := pppInit pppConfigDefault } negotiation).peer.ipcp.state =
    .opened := by decide +kernel
  exact ⟨by decide +kernel, hup, by decide +kernel, hordered.2.1.2 hup, hordered.1⟩

/-- A Code-Reject of LCP before the link is opened leaves LCP stopped, and one of IPCP while it is
up leaves the guest with an address. -/
theorem layers_out_of_order :
    (¬ ∀ s, Run call (fun _ _ => True) { peer := pppInit pppConfigDefault } s → s.asked = false →
      s.peer.lcp.state = .initial ∨ s.peer.lcp.state = .closed) ∧
    ¬ ∀ s, Run call (fun _ _ => True) { peer := pppInit pppConfigDefault } s →
      (s.peer.assigned = true ↔ s.peer.ipcp.state = .opened) := by
  let s0 : Session := { peer := pppInit pppConfigDefault }
  constructor <;> intro hall
  · have hstopped := hall _ (run_follow s0 (packets [(.lcp, cpOctets pppCodeRej 1 [])]))
    exact absurd hstopped (by decide +kernel)
  · have haddr := hall _ (run_follow s0 (negotiation ++ packets [(.ipcp, cpOctets pppCodeRej 1 [])]))
    exact absurd haddr (by decide +kernel)

end S5LBox.Ppp
