import S5LBox.Net.AckEffects
import S5LBox.Net.EgressLog

/-!
# The persist timer

A guest that closes its window with data on the way to it is probed at every expiry of the
retransmission timer. The count of expiries is the one of lost segments. Nothing but an
acknowledgement of data sets it back, so a guest that answers every probe and keeps its window shut
is given up like one that is gone.

## Main definitions

* `Shut`: data is buffered behind a closed window.
* `expired`, `givesUp`: what the timer of a tick does.
* `Episode`: a run in which the window stays shut, and the count of the expiries in it.

## Main results

* `persist_exact`: the tick that gives a flow up.
-/

namespace S5LBox.Net

open SerialNumbers

variable {ε : Type} {f f' f'' : Flow} {c c' : Conn ε}

/-! ### The timer of a tick -/

/-- The connection at which a tick gets to the timer, unless it ends before. -/
def atTimer (c : Conn ε) : Option (Conn ε) :=
  if !c.f.used ∨ c.f.state = .timeWait ∨ c.f.state = .closed ∨
      c.f.state = .synRcvd ∧ c.f.sndNxt = c.f.sndUna then none
  else
    match tickSend c with
    | (false, _) => none
    | (true, c) =>
      match tickRecv (tickShutdown c) with
      | (false, _) => none
      | (true, c) => some c

/-- The timer is on, and its time has come. -/
def timerDue (c : Conn ε) : Bool := c.f.rtoOn && !netSeqLt c.core.nowMs c.f.rtoAt

/-- The timer expires in a tick. -/
def expired (c : Conn ε) : Bool :=
  match atTimer c with
  | some c => timerDue c
  | none => false

/-- The tick aborts the flow for `NET_TCP_ABORT_RETRANSMIT`. -/
def givesUp (c : Conn ε) : Bool :=
  match atTimer c with
  | some c => timerDue c && decide (netTcpRtxMax < c.f.rtx + 1)
  | none => false

/-- The rest of a tick, from the timer on. -/
def tickRest (c : Conn ε) : Conn ε :=
  match tickTimer c with
  | (false, c) => c
  | (true, c) =>
    let c := tcpPump c
    if c.f.state = .closed then netFlowFree .closed c else c

theorem netTcpTick_of_atTimer (h : atTimer c = some c') : netTcpTick c = tickRest c' := by
  rw [atTimer] at h
  split at h
  · cases h
  case isFalse hgo =>
    simp only [not_or, Bool.not_eq_true', Bool.not_eq_false] at hgo
    obtain ⟨hused, htime, hclosed, hconnect⟩ := hgo
    rw [netTcpTick, if_neg (by rw [hused]; decide), if_neg htime, if_neg hclosed, if_neg hconnect]
    generalize tickSend c = r at h ⊢
    rcases r with ⟨_ | _, c₁⟩
    · cases h
    · dsimp only at h ⊢
      generalize tickRecv (tickShutdown c₁) = r at h ⊢
      rcases r with ⟨_ | _, c₂⟩
      · cases h
      · cases h
        rfl

/-- A tick that gives up resets the guest and releases the flow. -/
theorem netTcpTick_of_givesUp (h : givesUp c = true) : ∃ c', netTcpTick c = tcpAbort c' := by
  rw [givesUp] at h
  cases hat : atTimer c with
  | none =>
    rw [hat] at h
    cases h
  | some c₁ =>
    rw [hat] at h
    dsimp only at h
    rw [timerDue, Bool.and_eq_true, Bool.and_eq_true, Bool.not_eq_true', decide_eq_true_iff] at h
    obtain ⟨⟨hon, hdue⟩, hmany⟩ := h
    rw [netTcpTick_of_atTimer hat, tickRest, tickTimer, if_neg (by rw [hon, hdue]; decide)]
    dsimp only
    rw [if_pos hmany]
    exact ⟨_, rfl⟩

/-- The timer of a tick that does `giveUp` where `tickTimer` aborts the flow. -/
def tickTimerWith (giveUp : Conn ε → Conn ε) (c : Conn ε) : Bool × Conn ε :=
  if !c.f.rtoOn || netSeqLt c.core.nowMs c.f.rtoAt then (true, c)
  else
    let c := { c with f := { c.f with rtoOn := false, rtx := c.f.rtx + 1 } }
    if netTcpRtxMax < c.f.rtx then (false, giveUp c)
    else if c.f.sndNxt = c.f.sndUna ∧ c.f.txlen ≠ 0 ∧ c.f.sndWnd = 0 then
      match tcpOut tcpAck c.f.sndNxt (c.f.txbuf.take 1) c with
      | (true, c) => (false, { c with f := tcpTimers c.core.nowMs c.f })
      | (false, c) => (false, c)
    else (true, { c with f := { tcpCwndTimeout c.f with sndNxt := c.f.sndUna } })

/-- `net_tcp_tick` with `giveUp` in the place of the abort for `NET_TCP_ABORT_RETRANSMIT`. -/
def netTcpTickWith (giveUp : Conn ε → Conn ε) (c : Conn ε) : Conn ε :=
  if !c.f.used then c
  else if c.f.state = .timeWait then tickTimeWait c
  else if c.f.state = .closed then netFlowFree .closed c
  else if c.f.state = .synRcvd ∧ c.f.sndNxt = c.f.sndUna then tickConnect c
  else
    match tickSend c with
    | (false, c) => c
    | (true, c) =>
      match tickRecv (tickShutdown c) with
      | (false, c) => c
      | (true, c) =>
        match tickTimerWith giveUp c with
        | (false, c) => c
        | (true, c) =>
          let c := tcpPump c
          if c.f.state = .closed then netFlowFree .closed c else c

theorem netTcpTickWith_tcpAbort (c : Conn ε) : netTcpTickWith tcpAbort c = netTcpTick c := rfl

theorem tickTimerWith_eq (giveUp : Conn ε → Conn ε)
    (h : ¬(timerDue c = true ∧ netTcpRtxMax < c.f.rtx + 1)) :
    tickTimerWith giveUp c = tickTimer c := by
  by_cases hwait : (!c.f.rtoOn || netSeqLt c.core.nowMs c.f.rtoAt) = true
  · rw [tickTimerWith, tickTimer, if_pos hwait, if_pos hwait]
  · have hdue : timerDue c = true := by
      rw [Bool.not_eq_true, Bool.or_eq_false_iff, Bool.not_eq_false'] at hwait
      rw [timerDue, hwait.1, hwait.2]
      rfl
    have hfew : ¬netTcpRtxMax < c.f.rtx + 1 := fun hmany => h ⟨hdue, hmany⟩
    rw [tickTimerWith, tickTimer, if_neg hwait, if_neg hwait]
    exact (if_neg hfew).trans (Eq.symm (if_neg hfew))

/-- A tick that does not give up is the same whatever giving up would do. -/
theorem netTcpTickWith_eq (giveUp : Conn ε → Conn ε) (h : givesUp c = false) :
    netTcpTickWith giveUp c = netTcpTick c := by
  rw [givesUp, atTimer] at h
  rw [netTcpTickWith, netTcpTick]
  split_ifs with hused htime hclosed hconnect
  · rfl
  · rfl
  · rfl
  · rfl
  · rw [if_neg (by simp [hused, htime, hclosed, hconnect])] at h
    generalize tickSend c = r at h ⊢
    rcases r with ⟨_ | _, c₁⟩
    · rfl
    · dsimp only at h ⊢
      generalize tickRecv (tickShutdown c₁) = r at h ⊢
      rcases r with ⟨_ | _, c₂⟩
      · rfl
      · dsimp only at h ⊢
        have hno : ¬(timerDue c₂ = true ∧ netTcpRtxMax < c₂.f.rtx + 1) := by
          rintro ⟨hdue, hmany⟩
          rw [hdue, decide_eq_true hmany] at h
          cases h
        have hsame := tickTimerWith_eq giveUp hno
        generalize tickTimerWith giveUp c₂ = r at hsame ⊢
        subst hsame
        rfl

/-! ### A closed window -/

/-- The states in which data of the host may wait for the guest. -/
def TcpState.carries (s : TcpState) : Prop :=
  s = .established ∨ s = .finWait1 ∨ s = .closeWait ∨ s = .closing ∨ s = .lastAck

instance (s : TcpState) : Decidable s.carries := by unfold TcpState.carries; infer_instance

/-- Data is buffered behind a closed window. -/
structure Shut (f : Flow) : Prop where
  used : f.used = true
  tcp : f.proto = netProtoTcp
  state : f.state.carries
  data : f.txlen ≠ 0
  wnd : f.sndWnd = 0

/-- The window stays shut, and the timer has not been counted. -/
structure Rests (f f' : Flow) : Prop where
  shut : Shut f → Shut f'
  rtx : f'.rtx = f.rtx

theorem Rests.refl (f : Flow) : Rests f f := ⟨id, rfl⟩

theorem Rests.trans (h : Rests f f') (h' : Rests f' f'') : Rests f f'' :=
  ⟨fun hf => h'.shut (h.shut hf), h'.rtx.trans h.rtx⟩

/-- A change of anything else. -/
theorem Rests.of_eq (hused : f'.used = f.used) (htcp : f'.proto = f.proto)
    (hstate : f'.state = f.state) (hdata : f.txlen ≤ f'.txlen) (hwnd : f'.sndWnd = f.sndWnd)
    (hrtx : f'.rtx = f.rtx) : Rests f f' where
  shut h := ⟨hused.trans h.used, htcp.trans h.tcp, hstate.symm ▸ h.state,
    fun hnone => h.data (Nat.eq_zero_of_le_zero (hnone ▸ hdata)), hwnd.trans h.wnd⟩
  rtx := hrtx

theorem tcpAbort_used (c : Conn ε) : (tcpAbort c).f.used = false := netFlowFree_used _

theorem rests_tcpOut (flags : Byte) (seq : Word) (data : List Byte) (c : Conn ε) :
    Rests c.f (tcpOut flags seq data c).2.f := by
  rw [tcpOut]
  split
  · exact .of_eq rfl rfl rfl le_rfl rfl rfl
  · exact .refl c.f

/-- The timer stays on as long as data waits. -/
theorem Shut.tcpTimers_rests (h : Shut f) (now : Word) : Rests f (tcpTimers now f) := by
  have hon : (f.sndNxt != f.sndUna ||
      !(f.sndNxt != f.sndUna) && f.txlen != 0 && f.sndWnd == 0) = true := by
    rw [h.wnd]
    have hdata : (f.txlen != 0) = true := bne_iff_ne.mpr h.data
    rw [hdata]
    cases f.sndNxt != f.sndUna <;> rfl
  rw [tcpTimers]
  rw [if_pos hon]
  split
  · exact .refl f
  · exact .of_eq rfl rfl rfl le_rfl rfl rfl

/-- Nothing is sent into a closed window. -/
theorem Shut.tcpPumpData_eq (h : Shut c.f) (n sent : Nat) : tcpPumpData n sent c = c := by
  cases n with
  | zero => rfl
  | succ n =>
    rw [tcpPumpData]
    dsimp only
    split
    · rfl
    · rw [h.wnd, Nat.zero_min, if_pos (Nat.zero_le sent)]

theorem rests_tcpMarkFin (f : Flow) : Rests f (tcpMarkFin f) := by
  rw [tcpMarkFin]
  split
  · refine ⟨fun h => ⟨h.used, h.tcp, ?_, h.data, h.wnd⟩, rfl⟩
    dsimp only
    split <;> decide
  · exact .refl f

theorem rests_tcpSendFin (c : Conn ε) : Rests c.f (tcpSendFin c).f := by
  rw [tcpSendFin]
  split
  · have hout := rests_tcpOut (tcpAck ||| tcpFin) c.f.sndNxt [] c
    generalize tcpOut (tcpAck ||| tcpFin) c.f.sndNxt [] c = r at hout ⊢
    rcases r with ⟨_ | _, c₁⟩
    · exact hout
    · exact hout.trans (.of_eq rfl rfl rfl le_rfl rfl rfl)
  · exact .refl c.f

theorem rests_tcpSendAck (c : Conn ε) : Rests c.f (tcpSendAck c).f := by
  rw [tcpSendAck]
  split
  · exact rests_tcpOut _ _ _ c
  · exact .refl c.f

theorem Shut.tcpPump_rests (h : Shut c.f) : Rests c.f (tcpPump c).f := by
  rw [tcpPump]
  split
  · exact .refl c.f
  · rw [h.tcpPumpData_eq]
    have hmark := rests_tcpMarkFin c.f
    have hfin := rests_tcpSendFin { c with f := tcpMarkFin c.f }
    have hack := rests_tcpSendAck (tcpSendFin { c with f := tcpMarkFin c.f })
    have hsent := (hmark.trans hfin).trans hack
    exact hsent.trans ((hsent.shut h).tcpTimers_rests _)

/-! ### The stages of a tick -/

/-- A stage that lets the tick go on has left the window shut, or the flow is gone. -/
def GoesOn (f : Flow) (r : Bool × Conn ε) : Prop :=
  if r.1 then Rests f r.2.f else r.2.f.used = false

theorem goesOn_tickSend (c : Conn ε) : GoesOn c.f (tickSend c) := by
  rw [tickSend]
  split
  · exact .refl c.f
  · split
    · exact .refl c.f
    · rename_i send _ _
      generalize send c.f.handle c.f.rxbuf c.core.ctx = r
      obtain ⟨w, ctx⟩ := r
      dsimp only
      split_ifs
      · exact tcpAbort_used _
      · exact .refl c.f
      · exact .of_eq rfl rfl rfl le_rfl rfl rfl

theorem rests_tickShutdown (c : Conn ε) : Rests c.f (tickShutdown c).f := by
  rw [tickShutdown]
  split
  · exact .of_eq rfl rfl rfl le_rfl rfl rfl
  · exact .refl c.f

theorem goesOn_tickRecvLoop (recv : Int → Nat → ε → Recv × ε) (n : Nat) (c : Conn ε) :
    GoesOn c.f (tickRecvLoop recv n c) := by
  induction n generalizing c with
  | zero => exact .refl c.f
  | succ n ih =>
    rw [tickRecvLoop]
    split
    · exact .refl c.f
    · generalize recv c.f.handle (netTcpTxbuf - c.f.txlen) c.core.ctx = r
      obtain ⟨answer, ctx⟩ := r
      cases answer with
      | wouldBlock => exact .refl c.f
      | eof => exact .of_eq rfl rfl rfl le_rfl rfl rfl
      | error => exact tcpAbort_used _
      | bytes data =>
        dsimp only
        have hmore := ih ⟨{ c.core with ctx := ctx }, { c.f with
          txbuf := c.f.txbuf ++ data
          history := { c.f.history with received := c.f.history.received ++ data } }⟩
        generalize tickRecvLoop recv n _ = r at hmore ⊢
        have hgrown : Rests c.f { c.f with
            txbuf := c.f.txbuf ++ data
            history := { c.f.history with received := c.f.history.received ++ data } } :=
          .of_eq rfl rfl rfl (List.prefix_append _ _).length_le rfl rfl
        rcases r with ⟨_ | _, c₁⟩
        · exact hmore
        · exact hgrown.trans hmore

theorem goesOn_tickRecv (c : Conn ε) : GoesOn c.f (tickRecv c) := by
  rw [tickRecv]
  split
  · exact .refl c.f
  · split
    · exact .refl c.f
    · exact goesOn_tickRecvLoop _ 8 c

/-- The tick of a shut flow gets to the timer, or the host has ended the flow. -/
theorem Shut.atTimer_cases (h : Shut c.f) :
    (∃ c', atTimer c = some c' ∧ Rests c.f c'.f) ∨
      atTimer c = none ∧ (netTcpTick c).f.used = false := by
  have htime : c.f.state ≠ .timeWait := by
    intro hs
    exact absurd (hs ▸ h.state) (by decide)
  have hclosed : c.f.state ≠ .closed := by
    intro hs
    exact absurd (hs ▸ h.state) (by decide)
  have hconnect : ¬(c.f.state = .synRcvd ∧ c.f.sndNxt = c.f.sndUna) := by
    rintro ⟨hs, -⟩
    exact absurd (hs ▸ h.state) (by decide)
  have hused : ¬(!c.f.used) = true := by
    rw [h.used]
    decide
  have hgo : ¬((!c.f.used) = true ∨ c.f.state = .timeWait ∨ c.f.state = .closed ∨
      c.f.state = .synRcvd ∧ c.f.sndNxt = c.f.sndUna) := by
    rintro (hno | hno | hno | hno)
    · exact hused hno
    · exact htime hno
    · exact hclosed hno
    · exact hconnect hno
  rw [atTimer, netTcpTick, if_neg hgo, if_neg hused, if_neg htime, if_neg hclosed, if_neg hconnect]
  have hsend := goesOn_tickSend c
  generalize tickSend c = r at hsend ⊢
  rcases r with ⟨_ | _, c₁⟩
  · exact .inr ⟨rfl, hsend⟩
  · dsimp only
    have hrecv := goesOn_tickRecv (tickShutdown c₁)
    generalize tickRecv (tickShutdown c₁) = r at hrecv ⊢
    rcases r with ⟨_ | _, c₂⟩
    · exact .inr ⟨rfl, hrecv⟩
    · exact .inl ⟨c₂, rfl, (Rests.trans hsend (rests_tickShutdown c₁)).trans hrecv⟩

/-- What is done behind the timer, when the tick goes on. -/
theorem Shut.pumped (h : Shut c.f) :
    Rests c.f (if (tcpPump c).f.state = .closed then netFlowFree .closed (tcpPump c)
      else tcpPump c).f := by
  have hrests := h.tcpPump_rests
  have hopen : (tcpPump c).f.state ≠ .closed := by
    intro hs
    exact absurd (hs ▸ (hrests.shut h).state) (by decide)
  rw [if_neg hopen]
  exact hrests

/-- From the timer on: the window stays shut and the expiry is counted, or the flow is gone. -/
theorem Shut.tickRest_counts (h : Shut c.f) (hlive : (tickRest c).f.used = true) :
    Shut (tickRest c).f ∧ (tickRest c).f.rtx = c.f.rtx + if timerDue c then 1 else 0 := by
  rw [tickRest, tickTimer] at hlive ⊢
  have hdue : timerDue c = !(!c.f.rtoOn || netSeqLt c.core.nowMs c.f.rtoAt) := by
    rw [timerDue, Bool.not_or, Bool.not_not]
  rw [hdue]
  generalize (!c.f.rtoOn || netSeqLt c.core.nowMs c.f.rtoAt) = early at hlive ⊢
  cases early with
  | true => exact ⟨h.pumped.shut h, h.pumped.rtx⟩
  | false =>
    rw [if_neg Bool.false_ne_true] at hlive ⊢
    dsimp only at hlive ⊢
    have hshut : Shut { c.f with rtoOn := false, rtx := c.f.rtx + 1 } := ⟨h.1, h.2, h.3, h.4, h.5⟩
    by_cases hmany : netTcpRtxMax < c.f.rtx + 1
    · rw [if_pos hmany] at hlive
      rw [tcpAbort_used] at hlive
      cases hlive
    · rw [if_neg hmany]
      by_cases hprobe : c.f.sndNxt = c.f.sndUna
      · have hcond : c.f.sndNxt = c.f.sndUna ∧
            Flow.txlen { c.f with rtoOn := false, rtx := c.f.rtx + 1 } ≠ 0 ∧ c.f.sndWnd = 0 :=
          ⟨hprobe, h.data, h.wnd⟩
        rw [if_pos hcond]
        have hout := rests_tcpOut tcpAck c.f.sndNxt (c.f.txbuf.take 1)
          { c with f := { c.f with rtoOn := false, rtx := c.f.rtx + 1 } }
        generalize tcpOut tcpAck c.f.sndNxt (c.f.txbuf.take 1)
          { c with f := { c.f with rtoOn := false, rtx := c.f.rtx + 1 } } = r at hout ⊢
        rcases r with ⟨_ | _, c₁⟩
        · exact ⟨hout.shut hshut, hout.rtx⟩
        · have htimers := hout.trans ((hout.shut hshut).tcpTimers_rests c₁.core.nowMs)
          exact ⟨htimers.shut hshut, htimers.rtx⟩
      · have hcond : ¬(c.f.sndNxt = c.f.sndUna ∧
            Flow.txlen { c.f with rtoOn := false, rtx := c.f.rtx + 1 } ≠ 0 ∧ c.f.sndWnd = 0) :=
          fun hc => hprobe hc.1
        rw [if_neg hcond]
        have hshut' : Shut { tcpCwndTimeout { c.f with rtoOn := false, rtx := c.f.rtx + 1 } with
            sndNxt := c.f.sndUna } := ⟨h.1, h.2, h.3, h.4, h.5⟩
        have hrests := Shut.pumped (c := { c with f := { tcpCwndTimeout { c.f with
          rtoOn := false, rtx := c.f.rtx + 1 } with sndNxt := c.f.sndUna } }) hshut'
        exact ⟨hrests.shut hshut', hrests.rtx⟩

/-- A tick of a shut flow counts the expiry of the timer, unless it ends the flow. -/
theorem Shut.netTcpTick_counts (h : Shut c.f) (hlive : (netTcpTick c).f.used = true) :
    Shut (netTcpTick c).f ∧ (netTcpTick c).f.rtx = c.f.rtx + if expired c then 1 else 0 := by
  rcases h.atTimer_cases with ⟨c', hat, hrests⟩ | ⟨-, hgone⟩
  · rw [netTcpTick_of_atTimer hat] at hlive ⊢
    rw [expired, hat, ← hrests.rtx]
    exact (hrests.shut h).tickRest_counts hlive
  · rw [hgone] at hlive
    cases hlive

theorem Shut.givesUp_iff (h : Shut c.f) :
    givesUp c = true ↔ expired c = true ∧ netTcpRtxMax ≤ c.f.rtx := by
  rw [givesUp, expired]
  rcases h.atTimer_cases with ⟨c', hat, hrests⟩ | ⟨hat, -⟩
  · rw [hat, ← hrests.rtx, Bool.and_eq_true, decide_eq_true_iff, Nat.lt_succ_iff]
  · rw [hat]
    exact iff_of_false Bool.false_ne_true fun h => Bool.false_ne_true h.1

/-! ### The answer to a probe -/

/-- The segment acknowledges `snd_una` and leaves the window shut. -/
structure Answer (f : Flow) (g : Segment) : Prop where
  rst : hasFlag g.flags tcpRst = false
  syn : hasFlag g.flags tcpSyn = false
  ack : hasFlag g.flags tcpAck = true
  una : g.ack = f.sndUna
  wnd : g.wnd = 0

instance (f : Flow) (g : Segment) : Decidable (Answer f g) :=
  decidable_of_iff (hasFlag g.flags tcpRst = false ∧ hasFlag g.flags tcpSyn = false ∧
      hasFlag g.flags tcpAck = true ∧ g.ack = f.sndUna ∧ g.wnd = 0)
    ⟨fun ⟨hrst, hsyn, hack, huna, hwnd⟩ => ⟨hrst, hsyn, hack, huna, hwnd⟩,
      fun ⟨hrst, hsyn, hack, huna, hwnd⟩ => ⟨hrst, hsyn, hack, huna, hwnd⟩⟩

/-- The connection for which `net_tcp_input` calls `net_tcp_tick`, if it does. -/
def inputTick (g : Segment) (c : Conn ε) : Option (Conn ε) :=
  let now := c.core.nowMs
  let f : Flow := { c.f with lastMs := now }
  if hasFlag g.flags tcpRst then none
  else if hasFlag g.flags tcpSyn then none
  else if !hasFlag g.flags tcpAck then none
  else if f.state = .synRcvd ∧ !netSeqLt f.sndUna g.ack then none
  else if netSeqLt f.sndMax g.ack then none
  else
    let f := tcpTakeAck now g f
    if f.state = .synRcvd ∧ netSeqLt f.sndUna f.sndNxt then none
    else some { c with f := tcpDeliver now g (tcpEstablish f) }

theorem tcpInputFlow_of_inputTick {g : Segment} (h : inputTick g c = some c') :
    tcpInputFlow g c = netTcpTick c' := by
  rw [inputTick] at h
  rw [tcpInputFlow]
  dsimp only at h ⊢
  split at h
  · cases h
  case isFalse hrst =>
    rw [if_neg hrst]
    split at h
    · cases h
    case isFalse hsyn =>
      rw [if_neg hsyn]
      split at h
      · cases h
      case isFalse hack =>
        rw [if_neg hack]
        split at h
        · cases h
        case isFalse hnew =>
          split at h
          · cases h
          case isFalse hpast =>
            have hreject : ¬(c.f.state = .synRcvd ∧ (netSeqLt c.f.sndMax g.ack = true ∨
                (!netSeqLt c.f.sndUna g.ack) = true)) := by
              rintro ⟨hs, hfuture | hold⟩
              · exact hpast hfuture
              · exact hnew ⟨hs, hold⟩
            rw [if_neg hreject, if_neg hpast]
            split at h
            · cases h
            case isFalse hwait =>
              cases h
              rw [if_neg hwait]

theorem rests_tcpDeliver (now : Word) (g : Segment) (f : Flow) : Rests f (tcpDeliver now g f) := by
  have hdata : Rests f (tcpTakeData g f) := by
    rw [tcpTakeData]
    split
    · exact .of_eq rfl rfl rfl le_rfl rfl rfl
    · exact .refl f
  have hrepeat : ∀ f, Rests f (tcpRepeatFin now g f) := by
    intro f
    rw [tcpRepeatFin]
    split
    · exact .of_eq rfl rfl rfl le_rfl rfl rfl
    · exact .refl f
  have hfin : ∀ f, Rests f (tcpTakeFin now g f) := by
    intro f
    rw [tcpTakeFin]
    split
    · dsimp only
      split
      · exact ⟨fun h => ⟨h.used, h.tcp, .inr (.inr (.inl rfl)), h.data, h.wnd⟩, rfl⟩
      · exact ⟨fun h => ⟨h.used, h.tcp, .inr (.inr (.inr (.inl rfl))), h.data, h.wnd⟩, rfl⟩
      case h_3 hs => exact ⟨fun h => absurd (hs ▸ h.state) (by decide), rfl⟩
      · exact .of_eq rfl rfl rfl le_rfl rfl rfl
    · exact .refl f
  exact (hdata.trans (hrepeat _)).trans (hfin _)

/-- The answer to a probe is taken in, and the timer is not set back. -/
theorem Shut.inputTick_answer {g : Segment} (h : Shut c.f) (hspace : SendSpace c.f)
    (hanswer : Answer c.f g) : ∃ c', inputTick g c = some c' ∧ Rests c.f c'.f := by
  have hstate : c.f.state ≠ .synRcvd := by
    intro hs
    exact absurd (hs ▸ h.state) (by decide)
  have hself : netSeqLt c.f.sndUna c.f.sndUna = false := by
    rw [netSeqLt_eq (o := c.f.sndUna) (by rw [offset_self]; decide) (by rw [offset_self]; decide)]
    exact decide_eq_false (Nat.lt_irrefl _)
  have hpast : netSeqLt c.f.sndMax g.ack = false := by
    rw [hanswer.una, netSeqLt_eq (o := c.f.sndUna) hspace.maxOff_lt (by rw [offset_self]; decide),
      offset_self]
    exact decide_eq_false (Nat.not_lt_zero _)
  have hquiet : Rests c.f { c.f with lastMs := c.core.nowMs, sndWnd := g.wnd } :=
    .of_eq rfl rfl rfl le_rfl (hanswer.wnd.trans h.wnd.symm) rfl
  have hkeep : tcpConsumeAck c.core.nowMs g.ack { c.f with
      lastMs := c.core.nowMs, sndWnd := g.wnd } =
      { c.f with lastMs := c.core.nowMs, sndWnd := g.wnd } := by
    rw [tcpConsumeAck, hanswer.una, hself]
    rfl
  have hack : Rests c.f (tcpTakeAck c.core.nowMs g { c.f with lastMs := c.core.nowMs }) := by
    rw [tcpTakeAck]
    dsimp only
    rw [hkeep]
    split
    · exact hquiet.trans (Shut.tcpTimers_rests (hquiet.shut h) _)
    · exact hquiet
  have hopen : (tcpTakeAck c.core.nowMs g { c.f with lastMs := c.core.nowMs }).state ≠ .synRcvd := by
    intro hs
    exact absurd (hs ▸ (hack.shut h).state) (by decide)
  have hest : tcpEstablish (tcpTakeAck c.core.nowMs g { c.f with lastMs := c.core.nowMs }) =
      tcpTakeAck c.core.nowMs g { c.f with lastMs := c.core.nowMs } := if_neg hopen
  rw [inputTick, hanswer.rst, hanswer.syn, hanswer.ack]
  dsimp only
  rw [hpast, hest]
  refine ⟨⟨c.core, tcpDeliver c.core.nowMs g
    (tcpTakeAck c.core.nowMs g { c.f with lastMs := c.core.nowMs })⟩, ?_,
    hack.trans (rests_tcpDeliver _ g _)⟩
  rw [if_neg Bool.false_ne_true, if_neg Bool.false_ne_true, if_neg (by decide),
    if_neg fun hs => hstate hs.1, if_neg Bool.false_ne_true, if_neg fun hs => hopen hs.1]

/-! ### The ticks of one flow -/

theorem dnsTickSlot_flow (ns : NetStack ε) (j : Fin netDnsPending) :
    (dnsTickSlot ns j).flow = ns.flow := by
  rw [dnsTickSlot]
  split
  · rfl
  · dsimp only
    split <;> rfl

theorem dnsTick_flow (ns : NetStack ε) : (dnsTick ns).flow = ns.flow := by
  rw [dnsTick]
  generalize List.finRange netDnsPending = slots
  induction slots generalizing ns with
  | nil => rfl
  | cons j slots ih => exact (ih _).trans (dnsTickSlot_flow ns j)

theorem onFlow_flow_of_ne {i j : Fin netMaxFlows} (hne : i ≠ j) (k : Conn ε → Conn ε)
    (ns : NetStack ε) : (ns.onFlow j k).flow i = ns.flow i := if_neg hne

theorem netTickSlot_flow_of_ne {i j : Fin netMaxFlows} (hne : i ≠ j) (ns : NetStack ε) :
    (netTickSlot ns j).flow i = ns.flow i := by
  rw [netTickSlot]
  split
  · rfl
  · split
    · exact onFlow_flow_of_ne hne _ ns
    · exact onFlow_flow_of_ne hne _ ns

theorem foldl_netTickSlot_flow {i : Fin netMaxFlows} {slots : List (Fin netMaxFlows)}
    (hnot : i ∉ slots) (ns : NetStack ε) : (slots.foldl netTickSlot ns).flow i = ns.flow i := by
  induction slots generalizing ns with
  | nil => rfl
  | cons j slots ih =>
    obtain ⟨hne, hnot⟩ := not_or.mp (mt List.mem_cons.mpr hnot)
    exact (ih hnot _).trans (netTickSlot_flow_of_ne hne ns)

/-- The stack at the time of a datagram. -/
def NetStack.clocked (now : Word) (ns : NetStack ε) : NetStack ε :=
  if netSeqLt now ns.core.nowMs then ns else { ns with core := { ns.core with nowMs := now } }

theorem clocked_flow (now : Word) (ns : NetStack ε) : (ns.clocked now).flow = ns.flow := by
  rw [NetStack.clocked]
  split <;> rfl

theorem segment_clocked (pkt : List Byte) (now : Word) (ns : NetStack ε) :
    (Op.input pkt).segment (ns.clocked now) = (Op.inputAt pkt now).segment ns := by
  rw [NetStack.clocked]
  split <;> rfl

/-- The stack when a tick gets to a slot of the flow table. -/
def tickUpTo (i : Fin netMaxFlows) (now : Word) (ns : NetStack ε) : NetStack ε :=
  ((List.finRange netMaxFlows).take i).foldl netTickSlot
    (dnsTick { ns with core := { ns.core with nowMs := now } })

/-- The connection for which a segment has `net_tcp_tick` called on a flow, if it does. -/
def segmentTick (i : Fin netMaxFlows) (arrived : Option (Fin netMaxFlows × Segment))
    (ns : NetStack ε) : Option (Conn ε) :=
  match arrived with
  | some (j, g) => if j = i then inputTick g ⟨ns.core, ns.flow i⟩ else none
  | none => none

/-- The connection for which a step calls `net_tcp_tick` on a flow in use, if it does. -/
def tickOf (i : Fin netMaxFlows) (op : Op ε) (ns : NetStack ε) : Option (Conn ε) :=
  match op with
  | .tick now =>
    if netSeqLt now ns.core.nowMs then none
    else some ⟨(tickUpTo i now ns).core, (tickUpTo i now ns).flow i⟩
  | .input _ => segmentTick i (op.segment ns) ns
  | .inputAt _ now => segmentTick i (op.segment ns) (ns.clocked now)
  | _ => none

theorem finRange_split {n : Nat} (i : Fin n) :
    List.finRange n = (List.finRange n).take i ++ i :: (List.finRange n).drop (i + 1) := by
  have hlt : (i : Nat) < (List.finRange n).length := by
    rw [List.length_finRange]
    exact i.isLt
  have hget : (List.finRange n)[(i : Nat)] = i := List.getElem_finRange _
  conv_lhs => rw [← List.take_append_drop i (List.finRange n), List.drop_eq_getElem_cons hlt, hget]

theorem not_mem_finRange_split {n : Nat} (i : Fin n) :
    i ∉ (List.finRange n).take i ∧ i ∉ (List.finRange n).drop (i + 1) := by
  have hnodup := List.nodup_finRange n
  rw [finRange_split i] at hnodup
  have hnot := (List.nodup_cons.mp (List.nodup_middle.mp hnodup)).1
  exact not_or.mp (mt List.mem_append.mpr hnot)

theorem tickUpTo_flow (i : Fin netMaxFlows) (now : Word) (ns : NetStack ε) :
    (tickUpTo i now ns).flow i = ns.flow i := by
  rw [tickUpTo, foldl_netTickSlot_flow (not_mem_finRange_split i).1, dnsTick_flow]

/-- A tick calls `net_tcp_tick` for each flow once. -/
theorem netTick_flow {i : Fin netMaxFlows} {now : Word} {ns : NetStack ε}
    (hlive : TcpLive (ns.flow i)) (hnow : netSeqLt now ns.core.nowMs = false) :
    (netTick now ns).flow i =
      (netTcpTick ⟨(tickUpTo i now ns).core, (tickUpTo i now ns).flow i⟩).f := by
  have hflow := tickUpTo_flow i now ns
  have hused : ¬(!((tickUpTo i now ns).flow i).used) = true := by
    rw [hflow, hlive.1]
    decide
  have htcp : ¬((tickUpTo i now ns).flow i).proto = netProtoUdp := by
    rw [hflow, hlive.2]
    decide
  rw [netTick, hnow, if_neg Bool.false_ne_true, finRange_split i, List.foldl_append,
    List.foldl_cons, foldl_netTickSlot_flow (not_mem_finRange_split i).2]
  show (netTickSlot (tickUpTo i now ns) i).flow i = _
  rw [netTickSlot, if_neg hused, if_neg htcp]
  exact if_pos rfl

/-- A datagram with a segment for a flow in use. -/
theorem netInput_of_segment {i : Fin netMaxFlows} {g : Segment} {pkt : List Byte}
    {ns : NetStack ε} (h : (Op.input pkt).segment ns = some (i, g)) :
    netInput pkt ns = ns.onFlow i (tcpInputFlow g) := by
  rw [Op.segment] at h
  dsimp only at h
  rw [netInput]
  split at h
  case h_1 src dst l4 hip =>
    rw [hip]
    dsimp only
    rw [if_neg (by decide), if_neg (by decide), if_pos (by decide), netTcpInput]
    split at h
    case h_1 g' hseg =>
      obtain ⟨j, hfind, hpair⟩ := Option.map_eq_some_iff.mp h
      cases hpair
      rw [hseg]
      dsimp only
      rw [hfind]
    case h_2 => cases h
  case h_2 => cases h

/-- A datagram without a segment for a flow leaves it alone. -/
theorem netInput_flow {i : Fin netMaxFlows} {pkt : List Byte} {ns : NetStack ε}
    (h : ∀ g, (Op.input pkt).segment ns ≠ some (i, g)) (hlive : TcpLive (ns.flow i))
    (hlive' : TcpLive ((netInput pkt ns).flow i)) : (netInput pkt ns).flow i = ns.flow i := by
  have hne : ∀ {j : Fin netMaxFlows}, (ns.flow j).used = false → i ≠ j := by
    rintro j hunused rfl
    exact Bool.false_ne_true (hunused.symm.trans hlive.1)
  rw [Op.segment] at h
  dsimp only at h
  rw [netInput] at hlive' ⊢
  generalize ipv4Of ns.core.cfg pkt = header at h hlive' ⊢
  rcases header with _ | ⟨src, dst, proto, l4⟩
  · rfl
  dsimp only at hlive' ⊢
  by_cases hicmp : proto = 1
  · rw [if_pos hicmp]
  rw [if_neg hicmp] at hlive' ⊢
  by_cases hudp : proto = 17
  · rw [if_pos hudp] at hlive' ⊢
    exact (aside_udpInput _ _ _ ns).live i hlive'
  rw [if_neg hudp]
  by_cases htcp : proto = 6
  · subst htcp
    rw [if_pos rfl, netTcpInput]
    simp only [BitVec.ofNat_eq_ofNat] at h
    cases hseg : tcpSegmentOf src dst l4 with
    | none => rfl
    | some g =>
      rw [hseg] at h
      dsimp only at h ⊢
      cases hfind : netFlowFind netProtoTcp g.gport dst g.dport ns with
      | some j =>
        rw [hfind] at h
        refine onFlow_flow_of_ne ?_ _ ns
        rintro rfl
        exact h g rfl
      | none =>
        dsimp only
        split
        · cases halloc : netFlowAlloc netProtoTcp g.gport dst g.dport ns with
          | none => rfl
          | some opened =>
            obtain ⟨j, ns₁⟩ := opened
            obtain ⟨hunused, rfl⟩ := netFlowAlloc_cases halloc
            dsimp only
            rw [onFlow_onFlow]
            exact onFlow_flow_of_ne (hne hunused) _ ns
        · rfl
  · rw [if_neg htcp]

/-! ### While the window stays shut -/

/-- Whatever a step brings for a flow is the answer to a probe. -/
def Answered (i : Fin netMaxFlows) (ns : NetStack ε) (op : Op ε) : Prop :=
  ∀ g, op.segment ns = some (i, g) → Answer (ns.flow i) g

instance (i : Fin netMaxFlows) (ns : NetStack ε) (op : Op ε) : Decidable (Answered i ns op) :=
  decidable_of_iff (∀ p ∈ op.segment ns, p.1 = i → Answer (ns.flow i) p.2)
    ⟨fun h g hg => h (i, g) hg rfl, by
      rintro h ⟨j, g⟩ hp rfl
      exact h g hp⟩

/-- How often the timer of a flow expires in a step. -/
def expiries (i : Fin netMaxFlows) (op : Op ε) (ns : NetStack ε) : Nat :=
  match tickOf i op ns with
  | some c => if expired c then 1 else 0
  | none => 0

/-- A run in which whatever arrives at a flow is the answer to a probe and the flow lives on, and
how often its timer expires in the run. -/
inductive Episode (i : Fin netMaxFlows) (ns₀ : NetStack ε) : NetStack ε → Nat → Prop
  | start : Episode i ns₀ ns₀ 0
  | step {ns : NetStack ε} {n : Nat} (op : Op ε) (h : Episode i ns₀ ns n)
      (hans : Answered i ns op) (hlive : TcpLive ((netStep op ns).flow i)) :
      Episode i ns₀ (netStep op ns) (n + expiries i op ns)

section Step

variable {i : Fin netMaxFlows} {ns : NetStack ε} {op : Op ε}

/-- What a tick finds is the flow as the step has found it, but for what has arrived. -/
theorem rests_segmentTick (h : Shut (ns.flow i)) (hspace : SendSpace (ns.flow i))
    {arrived : Option (Fin netMaxFlows × Segment)}
    (hans : ∀ g, arrived = some (i, g) → Answer (ns.flow i) g)
    (hc : segmentTick i arrived ns = some c) : Rests (ns.flow i) c.f := by
  cases arrived with
  | none => cases hc
  | some arrived =>
    obtain ⟨j, g⟩ := arrived
    rw [segmentTick] at hc
    split at hc
    case isTrue hj =>
      subst hj
      obtain ⟨c', hc', hrests⟩ := h.inputTick_answer (c := ⟨ns.core, ns.flow j⟩) hspace (hans g rfl)
      rw [hc'] at hc
      cases hc
      exact hrests
    case isFalse => cases hc

theorem rests_tickOf (h : Shut (ns.flow i)) (hspace : SendSpace (ns.flow i))
    (hans : Answered i ns op) (hc : tickOf i op ns = some c) : Rests (ns.flow i) c.f := by
  have hclock : ∀ now, (ns.clocked now).flow i = ns.flow i :=
    fun now => congrFun (clocked_flow now ns) i
  cases op with
  | tick now =>
    rw [tickOf] at hc
    split at hc
    · cases hc
    · cases hc
      show Rests (ns.flow i) ((tickUpTo i now ns).flow i)
      rw [tickUpTo_flow]
      exact .refl _
  | input pkt => exact rests_segmentTick h hspace hans hc
  | inputAt pkt now =>
    have hrests := rests_segmentTick (hclock now ▸ h) (hclock now ▸ hspace)
      (hclock now ▸ hans) hc
    exact hclock now ▸ hrests
  | output | host => cases hc

theorem netInput_of_segmentTick {pkt : List Byte}
    (hc : segmentTick i ((Op.input pkt).segment ns) ns = some c) :
    (netInput pkt ns).flow i = (netTcpTick c).f := by
  cases hseg : (Op.input pkt).segment ns with
  | none =>
    rw [hseg] at hc
    cases hc
  | some arrived =>
    obtain ⟨j, g⟩ := arrived
    rw [hseg, segmentTick] at hc
    split at hc
    case isTrue hj =>
      subst hj
      rw [netInput_of_segment hseg, ← tcpInputFlow_of_inputTick hc]
      exact if_pos rfl
    case isFalse => cases hc

/-- The tick leaves behind what the step does. -/
theorem netStep_of_tickOf (hlive : TcpLive (ns.flow i)) (hc : tickOf i op ns = some c) :
    (netStep op ns).flow i = (netTcpTick c).f := by
  cases op with
  | tick now =>
    rw [tickOf] at hc
    split at hc
    · cases hc
    case isFalse hnow =>
      cases hc
      exact netTick_flow hlive (Bool.eq_false_of_not_eq_true hnow)
  | input pkt => exact netInput_of_segmentTick hc
  | inputAt pkt now =>
    rw [tickOf, ← segment_clocked] at hc
    exact netInput_of_segmentTick hc
  | output | host => cases hc

/-- A datagram for a shut flow. -/
theorem netInput_counts {pkt : List Byte} (h : Shut (ns.flow i)) (hspace : SendSpace (ns.flow i))
    (hans : Answered i ns (.input pkt)) (hlive : TcpLive ((netInput pkt ns).flow i)) :
    Shut ((netInput pkt ns).flow i) ∧ ((netInput pkt ns).flow i).rtx = (ns.flow i).rtx +
      expiries i (.input pkt) ns := by
  rw [expiries, tickOf]
  by_cases hmine : ∃ g, (Op.input pkt).segment ns = some (i, g)
  · obtain ⟨g, hseg⟩ := hmine
    rw [netInput_of_segment hseg] at hlive ⊢
    obtain ⟨c, hc, hrests⟩ := h.inputTick_answer (c := ⟨ns.core, ns.flow i⟩) hspace (hans g hseg)
    have hflow : (ns.onFlow i (tcpInputFlow g)).flow i = (netTcpTick c).f := by
      rw [← tcpInputFlow_of_inputTick hc]
      exact if_pos rfl
    rw [hflow] at hlive ⊢
    rw [hseg, segmentTick, if_pos rfl, hc, ← hrests.rtx]
    exact (hrests.shut h).netTcpTick_counts hlive.1
  · rw [not_exists] at hmine
    rw [netInput_flow hmine ⟨h.used, h.tcp⟩ hlive]
    refine ⟨h, ?_⟩
    have hnone : segmentTick i ((Op.input pkt).segment ns) ns = none := by
      cases hseg : (Op.input pkt).segment ns with
      | none => rfl
      | some arrived =>
        obtain ⟨j, g⟩ := arrived
        have hj : j ≠ i := by
          rintro rfl
          exact hmine g hseg
        exact if_neg hj
    rw [hnone]
    rfl

/-- A step in which whatever arrives at a shut flow is the answer to a probe: the window stays
shut, and nothing but the expiries of the timer is counted. -/
theorem netStep_counts (h : Shut (ns.flow i)) (hspace : SendSpace (ns.flow i))
    (hans : Answered i ns op) (hlive : TcpLive ((netStep op ns).flow i)) :
    Shut ((netStep op ns).flow i) ∧
      ((netStep op ns).flow i).rtx = (ns.flow i).rtx + expiries i op ns := by
  cases op with
  | input pkt => exact netInput_counts h hspace hans hlive
  | inputAt pkt now =>
    have hclock : (ns.clocked now).flow i = ns.flow i := congrFun (clocked_flow now ns) i
    have hseg := segment_clocked pkt now ns
    have hshut : Shut ((ns.clocked now).flow i) := hclock ▸ h
    have hcount := netInput_counts hshut (hclock ▸ hspace)
      (by rw [Answered, hclock, hseg]; exact hans) hlive
    rw [hclock, expiries, tickOf, hseg] at hcount
    exact hcount
  | tick now =>
    rw [netStep] at hlive ⊢
    rw [expiries, tickOf]
    cases hnow : netSeqLt now ns.core.nowMs with
    | true =>
      have hsame : netTick now ns = ns := by
        rw [netTick, if_pos hnow]
      rw [hsame]
      exact ⟨h, rfl⟩
    | false =>
      rw [netTick_flow ⟨h.used, h.tcp⟩ hnow] at hlive ⊢
      rw [tickUpTo_flow] at hlive ⊢
      exact Shut.netTcpTick_counts (c := ⟨(tickUpTo i now ns).core, ns.flow i⟩) h hlive.1
  | output cap =>
    have hflow : (netOutput cap ns).2.flow = ns.flow := by
      rw [netOutput]
      split
      · rfl
      · split <;> rfl
    rw [netStep, hflow]
    exact ⟨h, rfl⟩
  | host ctx => exact ⟨h, rfl⟩

end Step

/-- The window stays shut, and every expiry is counted. -/
theorem Episode.counts {i : Fin netMaxFlows} {ns₀ ns : NetStack ε} {n : Nat}
    (h : Episode i ns₀ ns n) (hreach : Reached (fun _ _ => True) ns₀) (hshut : Shut (ns₀.flow i)) :
    Reached (fun _ _ => True) ns ∧ Shut (ns.flow i) ∧ (ns.flow i).rtx = (ns₀.flow i).rtx + n := by
  induction h with
  | start => exact ⟨hreach, hshut, rfl⟩
  | step op _ hans hlive ih =>
    obtain ⟨hreach, hshut, hrtx⟩ := ih
    have hspace := (sendSpace_invariant.reached hreach.meets_true).live i ⟨hshut.used, hshut.tcp⟩
    obtain ⟨hshut', hrtx'⟩ := netStep_counts hshut hspace hans hlive
    refine ⟨?_, hshut', by rw [hrtx', hrtx, Nat.add_assoc]⟩
    obtain ⟨cfg, eg, ctx, run⟩ := hreach
    exact ⟨cfg, eg, ctx, .next op run trivial⟩

/-- Data that waits for a guest that has completed the handshake and closed its window. -/
theorem Reached.shut {i : Fin netMaxFlows} {ns : NetStack ε} (h : Reached (fun _ _ => True) ns)
    (hlive : TcpLive (ns.flow i)) (hsyn : (ns.flow i).state ≠ .synRcvd)
    (hdata : (ns.flow i).txlen ≠ 0) (hwnd : (ns.flow i).sndWnd = 0) : Shut (ns.flow i) := by
  have hphase := ((sendSpace_invariant.reached h.meets_true).live i hlive).phase
  refine ⟨hlive.1, hlive.2, ?_, hdata, hwnd⟩
  cases hs : (ns.flow i).state with
  | synRcvd => exact absurd hs hsyn
  | established | finWait1 | closeWait | closing | lastAck => decide
  | finWait2 | timeWait | closed =>
    rw [hs] at hphase
    exact absurd hphase.2.2.1 hdata

/-- While a guest keeps its window shut and all that it sends is the answer to a probe, a tick
gives the flow up exactly when the timer expires in it and the expiries counted before, those at the
start and those since, are `NET_TCP_RTX_MAX` or more. Then the flow is gone behind the step. A tick
that does not give the flow up leaves what it would leave if anything else were done in the place of
the abort for `NET_TCP_ABORT_RETRANSMIT`, so that it does not come to it. -/
theorem persist_exact {i : Fin netMaxFlows} {ns₀ ns : NetStack ε} {n : Nat}
    (hreach : Reached (fun _ _ => True) ns₀) (hlive : TcpLive (ns₀.flow i))
    (hsyn : (ns₀.flow i).state ≠ .synRcvd) (hdata : (ns₀.flow i).txlen ≠ 0)
    (hwnd : (ns₀.flow i).sndWnd = 0) (h : Episode i ns₀ ns n) (op : Op ε)
    (hans : Answered i ns op) (c : Conn ε) (hc : tickOf i op ns = some c) :
    (givesUp c = true ↔ expired c = true ∧ netTcpRtxMax ≤ (ns₀.flow i).rtx + n) ∧
      (givesUp c = true → ((netStep op ns).flow i).used = false) ∧
      (givesUp c = false → ∀ giveUp, (netTcpTickWith giveUp c).f = (netStep op ns).flow i) := by
  obtain ⟨hreach', hshut, hrtx⟩ := h.counts hreach (hreach.shut hlive hsyn hdata hwnd)
  have hspace := (sendSpace_invariant.reached hreach'.meets_true).live i ⟨hshut.used, hshut.tcp⟩
  have hrests := rests_tickOf hshut hspace hans hc
  refine ⟨?_, fun hgives => ?_, fun hstays giveUp => ?_⟩
  · rw [(hrests.shut hshut).givesUp_iff, hrests.rtx, hrtx]
  · obtain ⟨c', htick⟩ := netTcpTick_of_givesUp hgives
    rw [netStep_of_tickOf ⟨hshut.used, hshut.tcp⟩ hc, htick]
    exact tcpAbort_used c'
  · rw [netStep_of_tickOf ⟨hshut.used, hshut.tcp⟩ hc, netTcpTickWith_eq giveUp hstays]

/-! ### A guest that answers every probe

A guest connects with its window shut to a host that sends two octets at once, and answers each of
the probes as soon as it has seen it. -/

/-- Whatever the guest sends is the answer to a probe, and every probe is answered before the timer
expires again. The flag says whether an answer is due. -/
def prompt (i : Fin netMaxFlows) : Bool → List (Op ε) → NetStack ε → Bool
  | _, [], _ => true
  | due, op :: ops, ns =>
    let arrives := match op.segment ns with
      | some (j, _) => j == i
      | none => false
    let expires := expiries i op ns != 0
    decide (Answered i ns op) && !(due && !arrives && expires) &&
      prompt i (expires || due && !arrives) ops (netStep op ns)

/-- A tick gives the flow up in the course of a run. -/
def gaveUp (i : Fin netMaxFlows) : List (Op ε) → NetStack ε → Bool
  | [], _ => false
  | op :: ops, ns =>
    (match tickOf i op ns with
      | some c => givesUp c
      | none => false) || gaveUp i ops (netStep op ns)

/-- The host has been heard by a stack whose guest has closed its window. -/
def windowShut : NetStack (List (List Byte)) :=
  scripted 4096 [[0x41, 0x42]] [.input (guestSegment 1000 80 100 0 tcpSyn 8192 []),
    .input (guestSegment 1000 80 101 (firstIss + 1) tcpAck 0 [])]

/-- A probe at each expiry of the timer, and its answer. -/
def answeredProbes : List (Op (List (List Byte))) :=
  [1000, 3000, 7000, 15000, 31000, 47000, 63000, 79000].flatMap fun t =>
    [.tick t, .input (guestSegment 1000 80 101 (firstIss + 1) tcpAck 0 [])]

theorem answered_tick (i : Fin netMaxFlows) (ns : NetStack ε) (now : Word) :
    Answered i ns (.tick now) := by
  intro g hg
  cases hg

/-- The actions of a list keep a flow, and what arrives at it is the answer to a probe. -/
def Keeps (i : Fin netMaxFlows) : List (Op ε) → NetStack ε → Prop
  | [], _ => True
  | op :: ops, ns =>
    Answered i ns op ∧ TcpLive ((netStep op ns).flow i) ∧ Keeps i ops (netStep op ns)

instance Keeps.decidable (i : Fin netMaxFlows) (ops : List (Op ε)) (ns : NetStack ε) :
    Decidable (Keeps i ops ns) :=
  match ops with
  | [] => .isTrue trivial
  | op :: ops =>
    have := Keeps.decidable i ops (netStep op ns)
    have : Decidable (TcpLive ((netStep op ns).flow i)) := inferInstanceAs (Decidable (_ = _ ∧ _ = _))
    inferInstanceAs (Decidable (Answered i ns op ∧ TcpLive ((netStep op ns).flow i) ∧
      Keeps i ops (netStep op ns)))

/-- The expiries of the timer of a flow in a list of actions. -/
def expiriesIn (i : Fin netMaxFlows) : List (Op ε) → NetStack ε → Nat
  | [], _ => 0
  | op :: ops, ns => expiries i op ns + expiriesIn i ops (netStep op ns)

theorem Episode.follow {i : Fin netMaxFlows} {ns₀ : NetStack ε} (ops : List (Op ε))
    {ns : NetStack ε} {n : Nat} (h : Episode i ns₀ ns n) (hops : Keeps i ops ns) :
    Episode i ns₀ (Runs.follow netStep ns ops) (n + expiriesIn i ops ns) := by
  induction ops generalizing ns n with
  | nil => exact h
  | cons op ops ih =>
    obtain ⟨hans, hlive, hrest⟩ := hops
    have hnext := ih (h.step op hans hlive) hrest
    rw [Nat.add_assoc] at hnext
    exact hnext

/-- The timer has expired eight times, each time with a probe that the guest has answered, and the
ninth expiry gives the flow up; a tick before it does not. -/
theorem persist_exact_windowShut :
    ∃ c c', tickOf 0 (.tick 94999) (Runs.follow netStep windowShut answeredProbes) = some c ∧
      tickOf 0 (.tick 95000) (Runs.follow netStep windowShut answeredProbes) = some c' ∧
      givesUp c = false ∧ givesUp c' = true ∧
      ((netStep (.tick 95000) (Runs.follow netStep windowShut answeredProbes)).flow 0).used =
        false := by
  have hticks (t : Word) (h : (tickOf 0 (.tick t) (Runs.follow netStep windowShut
      answeredProbes)).isSome = true) : ∃ c, tickOf 0 (.tick t)
        (Runs.follow netStep windowShut answeredProbes) = some c :=
    Option.isSome_iff_exists.mp h
  obtain ⟨c, hc⟩ := hticks 94999 (by decide +kernel)
  obtain ⟨c', hc'⟩ := hticks 95000 (by decide +kernel)
  have hepisode := Episode.start.follow answeredProbes
    (show Keeps 0 answeredProbes windowShut by decide +kernel)
  have hreach : Reached (fun _ _ => True) windowShut := scripted_reached _ _ _
  have hlive : TcpLive (windowShut.flow 0) := ⟨by decide +kernel, by decide +kernel⟩
  have hexact {t : Word} {c : Conn (List (List Byte))}
      (hc : tickOf 0 (.tick t) (Runs.follow netStep windowShut answeredProbes) = some c) :=
    persist_exact hreach hlive (by decide +kernel) (by decide +kernel)
      (by decide +kernel) hepisode (.tick t) (answered_tick 0 _ t) c hc
  have hwaits : expired c = false := by
    have hnone : expiries 0 (.tick 94999) (Runs.follow netStep windowShut answeredProbes) = 0 := by
      decide +kernel
    rw [expiries, hc] at hnone
    simpa using hnone
  have hexpires : expired c' = true := by
    have hone : expiries 0 (.tick 95000) (Runs.follow netStep windowShut answeredProbes) = 1 := by
      decide +kernel
    rw [expiries, hc'] at hone
    simpa using hone
  have hcount : netTcpRtxMax ≤
      (windowShut.flow 0).rtx + (0 + expiriesIn 0 answeredProbes windowShut) := by
    decide +kernel
  have hgives : givesUp c' = true := (hexact hc').1.2 ⟨hexpires, hcount⟩
  refine ⟨c, c', hc, hc', ?_, hgives, (hexact hc').2.1 hgives⟩
  rw [← Bool.not_eq_true, (hexact hc).1, hwaits]
  exact fun h => Bool.false_ne_true h.1

/-- The guest has answered eight probes, and the ninth expiry gives it up. -/
theorem persist_givesUp :
    ¬∀ (ns : NetStack (List (List Byte))) (i : Fin netMaxFlows)
      (ops : List (Op (List (List Byte)))), Reached (fun _ _ => True) ns → TcpLive (ns.flow i) →
      (ns.flow i).state ≠ .synRcvd → (ns.flow i).txlen ≠ 0 → (ns.flow i).sndWnd = 0 →
      prompt i false ops ns = true → gaveUp i ops ns = false := by
  intro hall
  have hkept := hall windowShut 0 (answeredProbes ++ [.tick 95000]) (scripted_reached _ _ _)
    ⟨by decide +kernel, by decide +kernel⟩ (by decide +kernel) (by decide +kernel)
    (by decide +kernel) (by decide +kernel)
  have hgave : gaveUp 0 (answeredProbes ++ [.tick 95000]) windowShut = true := by decide +kernel
  exact Bool.false_ne_true (hkept.symm.trans hgave)

end S5LBox.Net
