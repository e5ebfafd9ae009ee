import S5LBox.Lib.Runs
import S5LBox.Ppp.Deframer

/-!
# The automata and RFC 1661

The state transition table of RFC 1661, section 4.1, for the states of a link whose lower layer is
up, and what the two automata make of the same events. They follow the table, but for a
Configure-Request in Closing and Stopping, which they answer; a Code-Reject or Protocol-Reject in
Closed, Closing and Opened, which always ends in Stopped and sends nothing; a timeout in Ack-Rcvd,
which stays there; and a Configure-Request with options for more than a packet, whose answer they
cannot send.

## Main definitions

* `table`: the RFC's table, as the packets its actions send and the next state.
* `expected`: the table with the stop of Max-Failure.
* `Follows`: where the automata follow it.

## Main results

* `conforms_evRca`, `conforms_evRcn`, `conforms_evRtr`, `conforms_evRta`: the events that always do.
* `conforms_evRxj`, `conforms_restartTimeout`, `conforms_evRcr`: the ones that do not.
* `follows_rfc1661`: each event in each state of the table, along every run.
-/

namespace S5LBox.Ppp

open Runs

/-! ### The table -/

/-- The events of the table that a received packet or the restart timer can be. -/
inductive Event
  | rcrGood
  | rcrBad
  | rca
  | rcn
  | rtr
  | rta
  | rxjBad
  | toGood
  | toBad
  deriving DecidableEq, Repr

/-- The actions of the table that send a packet. -/
inductive Sends
  | scr
  | sca
  | scn
  | str
  | sta
  deriving DecidableEq, Repr

/-- The states the table is given for here. -/
def Tabled (x : PppState) : Prop := x ≠ .initial ∧ x ≠ .starting

/-- RFC 1661, section 4.1: the packets that are sent, in order, and the next state. -/
def table : Event → PppState → List Sends × PppState
  | .rcrGood, .closed => ([.sta], .closed)
  | .rcrGood, .stopped => ([.scr, .sca], .ackSent)
  | .rcrGood, .reqSent => ([.sca], .ackSent)
  | .rcrGood, .ackRcvd => ([.sca], .opened)
  | .rcrGood, .ackSent => ([.sca], .ackSent)
  | .rcrGood, .opened => ([.scr, .sca], .ackSent)
  | .rcrBad, .closed => ([.sta], .closed)
  | .rcrBad, .stopped => ([.scr, .scn], .reqSent)
  | .rcrBad, .reqSent => ([.scn], .reqSent)
  | .rcrBad, .ackRcvd => ([.scn], .ackRcvd)
  | .rcrBad, .ackSent => ([.scn], .reqSent)
  | .rcrBad, .opened => ([.scr, .scn], .reqSent)
  | .rca, .closed => ([.sta], .closed)
  | .rca, .stopped => ([.sta], .stopped)
  | .rca, .reqSent => ([], .ackRcvd)
  | .rca, .ackRcvd => ([.scr], .reqSent)
  | .rca, .ackSent => ([], .opened)
  | .rca, .opened => ([.scr], .reqSent)
  | .rcn, .closed => ([.sta], .closed)
  | .rcn, .stopped => ([.sta], .stopped)
  | .rcn, .reqSent => ([.scr], .reqSent)
  | .rcn, .ackRcvd => ([.scr], .reqSent)
  | .rcn, .ackSent => ([.scr], .ackSent)
  | .rcn, .opened => ([.scr], .reqSent)
  | .rtr, .reqSent | .rtr, .ackRcvd | .rtr, .ackSent => ([.sta], .reqSent)
  | .rtr, .opened => ([.sta], .stopping)
  | .rtr, x => ([.sta], x)
  | .rta, .closing => ([], .closed)
  | .rta, .stopping => ([], .stopped)
  | .rta, .ackRcvd => ([], .reqSent)
  | .rta, .opened => ([.scr], .reqSent)
  | .rxjBad, .closed | .rxjBad, .closing => ([], .closed)
  | .rxjBad, .opened => ([.str], .stopping)
  | .rxjBad, _ => ([], .stopped)
  | .toGood, .closing => ([.str], .closing)
  | .toGood, .stopping => ([.str], .stopping)
  | .toGood, .reqSent | .toGood, .ackRcvd => ([.scr], .reqSent)
  | .toGood, .ackSent => ([.scr], .ackSent)
  | .toBad, .closing => ([], .closed)
  | .toBad, .stopping | .toBad, .reqSent | .toBad, .ackRcvd | .toBad, .ackSent => ([], .stopped)
  | _, x => ([], x)

/-- The table, with the stop of Max-Failure: a layer that has refused too many requests while it
negotiates stops with its last refusal. -/
def expected (e : Event) (f : Fsm) : List Sends × PppState :=
  if e = .rcrBad ∧ f.failures = 0 ∧
      (f.state = .reqSent ∨ f.state = .ackRcvd ∨ f.state = .ackSent) then ([.scn], .stopped)
  else table e f.state

/-! ### The automata -/

/-- What one layer can be handed. -/
inductive Stimulus
  | packet (pkt : List Byte)
  | expiry

/-- What it does with it. -/
def respond (p : Link) (l : Layer) : Stimulus → Link
  | .packet pkt => cpInput p l pkt
  | .expiry => restartTimeout p l

/-- The event of a received Configure-Request. -/
def rcrEvent : CrResult → Option Event
  | .invalid => none
  | .ack => some .rcrGood
  | .nak | .rej => some .rcrBad

/-- The event that a packet or an expiry is, if it is one. Acknowledgements and refusals of a
request that is not outstanding are discarded, as is a request whose options are no options. -/
def eventOf (p : Link) (l : Layer) : Stimulus → Option Event
  | .packet pkt =>
    match cpHeader pkt with
    | none => none
    | some h =>
      if h.code = pppConfReq then rcrEvent (classifyConfreq p l h.data).1
      else if h.code = pppConfAck then
        if h.id = (fsmFor p l).lastReqId then some .rca else none
      else if h.code = pppConfNak ∨ h.code = pppConfRej then
        if h.id = (fsmFor p l).lastReqId then some .rcn else none
      else if h.code = pppTermReq then some .rtr
      else if h.code = pppTermAck then some .rta
      else if h.code = pppCodeRej ∨ h.code = pppProtoRej then some .rxjBad
      else none
  | .expiry => if (fsmFor p l).restarts = 0 then some .toBad else some .toGood

/-- The action that a packet of a code comes from. -/
def kind (code : Byte) : Option Sends :=
  if code = pppConfReq then some .scr
  else if code = pppConfAck then some .sca
  else if code = pppConfNak ∨ code = pppConfRej then some .scn
  else if code = pppTermReq then some .str
  else if code = pppTermAck then some .sta
  else none

/-- What a layer has sent, in the terms of the table. -/
def said (l : Layer) (p : Link) : List (Option Sends) :=
  (p.sent.filter fun s => s.layer = l).map fun s => kind s.code

/-- A link has gone from `p` to `q` as the table says for one of its layers. -/
def Conforms (p q : Link) (l : Layer) (out : List Sends × PppState) : Prop :=
  (fsmFor q l).state = out.2 ∧ said l q = said l p ++ out.1.map some

/-- The options of the answer to a Configure-Request. -/
def answerTo (p : Link) (l : Layer) : Stimulus → List Byte
  | .packet pkt =>
    match cpHeader pkt with
    | none => []
    | some h => (classifyConfreq p l h.data).2.1
  | .expiry => []

/-- Where an automaton follows the table. -/
def Follows (p : Link) (l : Layer) (e : Event) (answer : List Byte) : Prop :=
  let f := fsmFor p l
  match e with
  | .toGood => f.state ≠ .ackRcvd
  | .rxjBad => f.state ≠ .closed ∧ f.state ≠ .closing ∧ f.state ≠ .opened
  | .rcrGood | .rcrBad =>
    if f.state = .closed then True
    else if f.state = .closing ∨ f.state = .stopping then
      ¬ CpFits answer ∧ ¬ (e = .rcrBad ∧ f.failures = 0)
    else CpFits answer
  | _ => True

/-! ### What the steps send -/

section Said

variable (p : Link) (l : Layer)

theorem said_of_sent {p q : Link} (h : q.sent = p.sent) : said l q = said l p := by
  rw [said, h, said]

@[simp]
theorem said_modFsm (l' : Layer) (g : Fsm → Fsm) : said l (modFsm p l' g) = said l p :=
  said_of_sent l (sent_modFsm ..)

@[simp]
theorem said_setState (l' : Layer) (x : PppState) : said l (setState p l' x) = said l p :=
  said_of_sent l (sent_setState ..)

@[simp]
theorem said_restartStart (l' : Layer) : said l (restartStart p l') = said l p :=
  said_of_sent l (sent_restartStart ..)

@[simp]
theorem said_restartStop (l' : Layer) : said l (restartStop p l') = said l p :=
  said_of_sent l (sent_restartStop ..)

@[simp]
theorem said_irc (l' : Layer) (n : Nat) : said l (irc p l' n) = said l p :=
  said_of_sent l (sent_irc ..)

@[simp]
theorem said_freshId (l' : Layer) : said l (freshId p l') = said l p :=
  said_of_sent l (sent_freshId ..)

@[simp]
theorem said_spendRestart (l' : Layer) : said l (spendRestart p l') = said l p :=
  said_of_sent l (sent_spendRestart ..)

@[simp]
theorem said_tld (l' : Layer) : said l (tld p l') = said l p := said_of_sent l (sent_tld ..)

theorem said_sendCp (code id : Byte) (data : List Byte) (h : CpFits data) :
    said l (sendCp p l code id data) = said l p ++ [kind code] := by
  simp [said, sent_sendCp p l code id data h]

theorem said_sendCp_of_not (code id : Byte) (data : List Byte) (h : ¬ CpFits data) :
    said l (sendCp p l code id data) = said l p :=
  said_of_sent l (sent_sendCp_of_not p l code id data h)

theorem said_sendCp_of_ne {l' : Layer} (hne : l' ≠ l) (code id : Byte) (data : List Byte) :
    said l (sendCp p l' code id data) = said l p := by
  by_cases h : CpFits data
  · simp [said, sent_sendCp p l' code id data h, hne]
  · exact said_of_sent l (sent_sendCp_of_not p l' code id data h)

@[simp]
theorem said_sta (id : Byte) : said l (sta p l id) = said l p ++ [some .sta] :=
  said_sendCp p l pppTermAck id [] (by decide)

theorem cpFits_buildConfreq : CpFits (buildConfreq p l) := by
  have hmru : pppMruDefault = 1500 := rfl
  cases l <;> simp only [buildConfreq, CpFits, hmru] <;> split_ifs <;> simp [putBe32]

@[simp]
theorem said_scr (fresh : Bool) : said l (scr p l fresh) = said l p ++ [some .scr] := by
  have hfits := cpFits_buildConfreq p l
  cases fresh <;> simp [scr, said_sendCp _ _ _ _ _ hfits, kind]

/-- What a layer's coming up sends is not its own. -/
@[simp]
theorem said_tlu : said l (tlu p l) = said l p := by
  cases l
  · have hne : Layer.ipcp ≠ Layer.lcp := by decide
    simp [tlu, ipcpStart, scr, said_sendCp_of_ne _ _ hne]
  · rfl

end Said

/-! ### Events that follow the table -/

section Events

variable (p : Link) (l : Layer) (id : Byte)

theorem conforms_iff {p q : Link} {l : Layer} {out : List Sends × PppState} :
    Conforms p q l out ↔ q.standing.state l = out.2 ∧ said l q = said l p ++ out.1.map some :=
  Iff.rfl

@[simp]
theorem state_rise (s : Standing) : (s.rise l).state l = s.state l := by
  cases l <;> rfl

@[simp]
theorem state_fall (s : Standing) : (s.fall l).state l = s.state l := by
  cases l <;> rfl

theorem conforms_evRca (h : id = (fsmFor p l).lastReqId) (hin : Tabled (fsmFor p l).state) :
    Conforms p (evRca p l id) l (table .rca (fsmFor p l).state) := by
  rw [conforms_iff, evRca, if_neg (not_not.2 h)]
  obtain ⟨hinit, hstart⟩ := hin
  unfold table
  cases hstate : (fsmFor p l).state <;> simp_all [state_standing]

theorem conforms_evRcn (h : id = (fsmFor p l).lastReqId) (hin : Tabled (fsmFor p l).state) :
    Conforms p (evRcn p l id) l (table .rcn (fsmFor p l).state) := by
  rw [conforms_iff, evRcn, if_neg (not_not.2 h)]
  obtain ⟨hinit, hstart⟩ := hin
  unfold table
  cases hstate : (fsmFor p l).state <;> simp_all [state_standing]

theorem conforms_evRtr (hin : Tabled (fsmFor p l).state) :
    Conforms p (evRtr p l id) l (table .rtr (fsmFor p l).state) := by
  rw [conforms_iff, evRtr]
  obtain ⟨hinit, hstart⟩ := hin
  unfold table
  cases hstate : (fsmFor p l).state <;> simp_all [state_standing]

theorem conforms_evRta (hin : Tabled (fsmFor p l).state) :
    Conforms p (evRta p l) l (table .rta (fsmFor p l).state) := by
  rw [conforms_iff, evRta]
  obtain ⟨hinit, hstart⟩ := hin
  unfold table
  cases hstate : (fsmFor p l).state <;> simp_all [state_standing]

/-! ### Events that do not always -/

/-- A reject ends in Stopped and sends nothing. -/
theorem conforms_evRxj (hin : Tabled (fsmFor p l).state) :
    Conforms p (evRxj p l) l (table .rxjBad (fsmFor p l).state) ↔
      (fsmFor p l).state ≠ .closed ∧ (fsmFor p l).state ≠ .closing ∧
        (fsmFor p l).state ≠ .opened := by
  have hrej : (evRxj p l).standing.state l = .stopped ∧ said l (evRxj p l) = said l p := by
    unfold evRxj
    cases l <;> simp
  rw [conforms_iff, hrej.1, hrej.2]
  obtain ⟨hinit, hstart⟩ := hin
  unfold table
  cases hstate : (fsmFor p l).state <;> simp_all

/-- The restart timer leaves Ack-Rcvd as it is. -/
theorem conforms_restartTimeout (hin : Tabled (fsmFor p l).state) :
    Conforms p (restartTimeout p l) l
        (table (if (fsmFor p l).restarts = 0 then .toBad else .toGood) (fsmFor p l).state) ↔
      ((fsmFor p l).restarts ≠ 0 → (fsmFor p l).state ≠ .ackRcvd) := by
  have hstop : (fsmFor (restartStop p l) l).state = (fsmFor p l).state := by simp [restartStop]
  have hterm : ∀ id, said l (sendCp p l pppTermReq id []) = said l p ++ [some .str] :=
    fun id => said_sendCp p l pppTermReq id [] (by decide)
  obtain ⟨hinit, hstart⟩ := hin
  rw [conforms_iff]
  unfold restartTimeout
  dsimp only
  rw [hstop]
  by_cases hzero : (fsmFor p l).restarts = 0
  · unfold table
    cases hstate : (fsmFor p l).state <;> simp_all [state_standing]
  · unfold table
    cases hstate : (fsmFor p l).state <;> simp_all [state_standing]

/-! ### The answer to a Configure-Request -/

theorem failures_scr (fresh : Bool) :
    (fsmFor (scr p l fresh) l).failures = (fsmFor p l).failures := by
  cases fresh <;> simp [scr, restartStart, spendRestart, freshId]

/-- A request of its own is ahead of the answer of a link that was stopped or open. -/
theorem said_rcrRequest (entry : PppState) :
    said l (rcrRequest p l entry) =
      said l p ++ if entry = .stopped ∨ entry = .opened then [some .scr] else [] := by
  unfold rcrRequest
  by_cases hstop : entry = .stopped
  · simp [hstop]
  · by_cases hopen : entry = .opened <;> simp [hopen, hstop]

theorem state_rcrRequest (entry : PppState) :
    (rcrRequest p l entry).standing.state l = (fsmFor p l).state := by
  unfold rcrRequest
  split_ifs <;> simp [state_standing]

theorem failures_rcrRequest (entry : PppState) :
    (fsmFor (rcrRequest p l entry) l).failures =
      if entry = .stopped ∨ entry = .opened then pppMaxFailure else (fsmFor p l).failures := by
  unfold rcrRequest
  by_cases hstop : entry = .stopped
  · simp [hstop, failures_scr, irc]
  · by_cases hopen : entry = .opened <;> simp [hopen, hstop, failures_scr, irc]

/-- What is said is the request and, if it can be sent, the answer. -/
theorem said_rcrAnswer (entry : PppState) (r : CrResult) (resp : List Byte) :
    said l (rcrAnswer p l entry id r resp) =
      said l (rcrRequest p l entry) ++ if CpFits resp then [kind r.code] else [] := by
  have henter : ∀ q good, said l (rcrEnter q l entry good) = said l q := by
    intro q good
    unfold rcrEnter
    split
    case h_5 => split <;> simp
    all_goals simp
  have hsent : said l (sendCp (rcrRequest p l entry) l r.code id resp) =
      said l (rcrRequest p l entry) ++ if CpFits resp then [kind r.code] else [] := by
    by_cases hfits : CpFits resp
    · rw [said_sendCp _ _ _ _ _ hfits, if_pos hfits]
    · rw [said_sendCp_of_not _ _ _ _ _ hfits, if_neg hfits, List.append_nil]
  unfold rcrAnswer
  dsimp only
  split_ifs at hsent ⊢ <;> simp [henter, hsent]

/-- The state a link is in behind its answer, whether or not the answer could be sent. -/
theorem state_rcrAnswer (r : CrResult) (resp : List Byte) :
    (rcrAnswer p l (fsmFor p l).state id r resp).standing.state l =
      let entry := (fsmFor p l).state
      if r = .ack then
        if entry = .stopped ∨ entry = .opened ∨ entry = .reqSent ∨ entry = .ackSent then .ackSent
        else if entry = .ackRcvd then .opened
        else entry
      else if (fsmFor p l).failures = 0 ∧ entry ≠ .stopped ∧ entry ≠ .opened then .stopped
      else if entry = .stopped ∨ entry = .opened ∨ entry = .reqSent ∨ entry = .ackSent then .reqSent
      else entry := by
  have hspend : ∀ q : Link,
      (modFsm q l fun f => { f with failures := f.failures - 1 }).standing = q.standing :=
    fun q => standing_modFsm _ _ _ fun _ => rfl
  have hstate := state_rcrRequest p l (fsmFor p l).state
  have hfail := failures_rcrRequest p l (fsmFor p l).state
  have hmax : pppMaxFailure ≠ 0 := by decide
  unfold rcrAnswer
  dsimp only
  rw [fsmFor_sendCp, hfail]
  cases hentry : (fsmFor p l).state <;> rw [hentry] at hstate <;> split_ifs <;>
    simp_all [rcrEnter]

theorem kind_code (r : CrResult) (h : r ≠ .invalid) :
    kind r.code = some (if r = .ack then .sca else .scn) := by
  cases r <;> first | contradiction | rfl

/-- Outside Closed, options that are options are answered. -/
theorem evRcr_eq {opts resp : List Byte} {r : CrResult} {q : Link}
    (hup : ¬ ((fsmFor p l).state = .initial ∨ (fsmFor p l).state = .closed))
    (hclass : classifyConfreq p l opts = (r, resp, q)) (hvalid : r ≠ .invalid) :
    evRcr p l id opts = rcrAnswer q l (fsmFor p l).state id r resp := by
  unfold evRcr
  dsimp only
  rw [if_neg hup, hclass]
  cases r <;> first | contradiction | rfl

/-- A Configure-Request whose options are options. -/
theorem conforms_evRcr {opts : List Byte} {e : Event}
    (he : rcrEvent (classifyConfreq p l opts).1 = some e) (hin : Tabled (fsmFor p l).state) :
    Conforms p (evRcr p l id opts) l (expected e (fsmFor p l)) ↔
      Follows p l e (classifyConfreq p l opts).2.1 := by
  have hquiet := quiet_classifyConfreq p l opts
  obtain ⟨hinit, hstart⟩ := hin
  by_cases hclosed : (fsmFor p l).state = .closed
  · have hevent : e = .rcrGood ∨ e = .rcrBad := by
      cases hr : (classifyConfreq p l opts).1 <;> rw [hr] at he <;> simp_all [rcrEvent]
    rw [conforms_iff, evRcr, if_pos (.inr hclosed)]
    rcases hevent with rfl | rfl <;>
      simp [expected, Follows, table, hclosed, state_standing]
  · obtain ⟨r, resp, q, hclass⟩ : ∃ r resp q, classifyConfreq p l opts = (r, resp, q) :=
      ⟨_, _, _, rfl⟩
    rw [hclass] at he hquiet ⊢
    have hvalid : r ≠ .invalid := by
      rintro rfl
      simp [rcrEvent] at he
    have hup : ¬ ((fsmFor p l).state = .initial ∨ (fsmFor p l).state = .closed) := by
      simp [hinit, hclosed]
    have hstate : (fsmFor p l).state = (fsmFor q l).state := (hquiet.state l).symm
    have hfail : (fsmFor p l).failures = (fsmFor q l).failures := (hquiet.failures l).symm
    have hsaid : said l p = said l q := (said_of_sent l hquiet.sent).symm
    rw [conforms_iff, evRcr_eq p l id hup hclass hvalid, hstate, state_rcrAnswer, said_rcrAnswer,
      said_rcrRequest, kind_code r hvalid, hsaid, ← hstate, ← hfail, List.append_assoc,
      List.append_cancel_left_eq]
    clear hstate hfail hsaid hup hquiet hclass
    have hevent : e = if r = .ack then .rcrGood else .rcrBad := by
      cases r <;> simp_all [rcrEvent]
    by_cases hgood : r = .ack <;> simp only [hgood, if_true, if_false] at hevent ⊢ <;>
      rw [hevent] <;> by_cases hfits : CpFits resp <;> by_cases hzero : (fsmFor p l).failures = 0 <;>
      cases hstate : (fsmFor p l).state <;>
      simp_all [expected, table, Follows]

theorem Quiet.conforms {p q r : Link} {l : Layer} {out : List Sends × PppState} (h : Quiet p q)
    (hq : Conforms q r l out) : Conforms p r l out := by
  rw [Conforms, ← said_of_sent l h.sent]
  exact hq

theorem conforms_refusal {q : Link} (h : Quiet p q) (hid : id = (fsmFor p l).lastReqId)
    (hin : Tabled (fsmFor p l).state) :
    Conforms p (evRcn q l id) l (table .rcn (fsmFor p l).state) := by
  rw [← h.state l] at hin ⊢
  exact h.conforms (conforms_evRcn q l id (by rw [h.lastReqId, hid]) hin)

/-- Each packet and each expiry that is an event of the table, in each of its states. -/
theorem conforms_respond (stim : Stimulus) (e : Event) (hevent : eventOf p l stim = some e)
    (hin : Tabled (fsmFor p l).state) :
    Conforms p (respond p l stim) l (expected e (fsmFor p l)) ↔
      Follows p l e (answerTo p l stim) := by
  have hplain : e ≠ .rcrBad → expected e (fsmFor p l) = table e (fsmFor p l).state := by
    intro hne
    rw [expected, if_neg fun h => hne h.1]
  cases stim with
  | expiry =>
    have htimer := conforms_restartTimeout p l hin
    simp only [eventOf] at hevent
    by_cases hzero : (fsmFor p l).restarts = 0
    · obtain rfl : e = .toBad := by simpa [hzero] using hevent.symm
      rw [hplain (by decide)]
      simpa [hzero, respond, Follows] using htimer
    · obtain rfl : e = .toGood := by simpa [hzero] using hevent.symm
      rw [hplain (by decide)]
      simpa [hzero, respond, Follows] using htimer
  | packet pkt =>
    cases hh : cpHeader pkt with
    | none => simp [eventOf, hh] at hevent
    | some h =>
      simp only [eventOf, hh] at hevent
      simp only [respond, cpInput, answerTo, hh]
      by_cases hreq : h.code = pppConfReq
      · rw [if_pos hreq] at hevent ⊢
        exact conforms_evRcr p l h.id hevent hin
      rw [if_neg hreq] at hevent ⊢
      by_cases hack : h.code = pppConfAck
      · rw [if_pos hack, Option.ite_none_right_eq_some] at hevent
        obtain ⟨hid, ⟨⟩⟩ := hevent
        rw [if_pos hack, hplain (by decide)]
        exact iff_of_true (conforms_evRca p l h.id hid hin) trivial
      rw [if_neg hack] at hevent ⊢
      by_cases hrefuse : h.code = pppConfNak ∨ h.code = pppConfRej
      · rw [if_pos hrefuse, Option.ite_none_right_eq_some] at hevent
        obtain ⟨hid, ⟨⟩⟩ := hevent
        rw [hplain (by decide), if_pos hid, if_pos hid]
        refine iff_of_true ?_ trivial
        split_ifs with hnak hrej
        · exact conforms_refusal p l h.id (quiet_applyNak p l h.data) hid hin
        · exact conforms_refusal p l h.id (quiet_applyRej p l h.data) hid hin
        all_goals exact absurd hrefuse (by simp [hnak, hrej])
      rw [not_or] at hrefuse
      rw [if_neg (not_or.2 hrefuse)] at hevent
      rw [if_neg hrefuse.1, if_neg hrefuse.2]
      by_cases hterm : h.code = pppTermReq
      · rw [if_pos hterm] at hevent ⊢
        obtain ⟨⟩ := hevent
        rw [hplain (by decide)]
        exact iff_of_true (conforms_evRtr p l h.id hin) trivial
      rw [if_neg hterm] at hevent ⊢
      by_cases hta : h.code = pppTermAck
      · rw [if_pos hta] at hevent ⊢
        obtain ⟨⟩ := hevent
        rw [hplain (by decide)]
        exact iff_of_true (conforms_evRta p l hin) trivial
      rw [if_neg hta, Option.ite_none_right_eq_some] at hevent
      obtain ⟨hrej, ⟨⟩⟩ := hevent
      rw [if_neg hta, if_pos hrej, hplain (by decide)]
      exact conforms_evRxj p l hin

end Events

/-! ### Runs -/

/-- At every peer, so along every run, and for each packet and each expiry that is an event of the
table in a state of the table: the next state of the layer and the packets it sends are those of the
table, but for the stop of Max-Failure, exactly where the automata follow it. -/
theorem follows_rfc1661 (p : Peer) (l : Layer) (stim : Stimulus) (e : Event)
    (hevent : eventOf p.toLink l stim = some e) (hin : Tabled (fsmFor p.toLink l).state) :
    Conforms p.toLink (respond p.toLink l stim) l (expected e (fsmFor p.toLink l)) ↔
      Follows p.toLink l e (answerTo p.toLink l stim) :=
  conforms_respond p.toLink l stim e hevent hin

/-- The link is opened and the guest acknowledges the request. -/
def acknowledged : List Action :=
  .open_ :: (frameOctets pppProtoLcp (cpOctets pppConfAck 1 []) 0).map .input

/-- The peer then. -/
def acknowledgedPeer : Peer := follow act (pppInit pppConfigDefault) acknowledged

theorem run_acknowledgedPeer :
    Run act (fun _ _ => True) (pppInit pppConfigDefault) acknowledgedPeer :=
  run_follow _ acknowledged

theorem state_acknowledgedPeer : (fsmFor acknowledgedPeer.toLink .lcp).state = .ackRcvd := by
  decide +kernel

theorem tabled_acknowledgedPeer : Tabled (fsmFor acknowledgedPeer.toLink .lcp).state := by
  rw [state_acknowledgedPeer]
  exact ⟨by decide, by decide⟩

/-- A Terminate-Request of the guest follows the table. -/
theorem follows_rfc1661_rtr :
    Conforms acknowledgedPeer.toLink
      (respond acknowledgedPeer.toLink .lcp (.packet (cpOctets pppTermReq 7 []))) .lcp
      ([.sta], .reqSent) := by
  have hrtr := follows_rfc1661 acknowledgedPeer .lcp
    (.packet (cpOctets pppTermReq 7 [])) .rtr rfl tabled_acknowledgedPeer
  have hrow : expected .rtr (fsmFor acknowledgedPeer.toLink .lcp) = ([.sta], .reqSent) := by
    rw [expected, if_neg (by simp), state_acknowledgedPeer]
    rfl
  rw [hrow] at hrtr
  exact hrtr.2 (by simp [Follows])

/-- The restart timer expires in Ack-Rcvd, and the layer stays there. -/
theorem ack_rcvd_stays :
    ¬ ∀ p : Peer, Run act (fun _ _ => True) (pppInit pppConfigDefault) p →
      ∀ (l : Layer) (stim : Stimulus) (e : Event), eventOf p.toLink l stim = some e →
        Tabled (fsmFor p.toLink l).state →
        Conforms p.toLink (respond p.toLink l stim) l (expected e (fsmFor p.toLink l)) := by
  intro hall
  have hevent : eventOf acknowledgedPeer.toLink .lcp .expiry = some .toGood := by decide +kernel
  have hout := hall _ run_acknowledgedPeer .lcp .expiry .toGood hevent tabled_acknowledgedPeer
  have hstays : (fsmFor (respond acknowledgedPeer.toLink .lcp .expiry) .lcp).state = .ackRcvd := by
    decide +kernel
  have hrow : (expected .toGood (fsmFor acknowledgedPeer.toLink .lcp)).2 = .reqSent := by
    rw [expected, if_neg (by simp), state_acknowledgedPeer]
    rfl
  have hsame := hout.1
  rw [hstays, hrow] at hsame
  exact absurd hsame (by decide)

end S5LBox.Ppp
