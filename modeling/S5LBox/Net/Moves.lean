import S5LBox.Net.Stack

/-!
# What a flow may go through

Between two arrivals of a segment a flow changes in a few ways only: a segment goes out, octets
arrive from the host or are accepted by it, the send cursor goes back, or bookkeeping is done. A
`Move` is one such change, with what the code has checked before it. Every function of the stack
that is handed a flow takes it along a chain of moves, or releases it at the end of one.

## Main definitions

* `Move`, `Moves`: one change, and a chain of them.
* `Going`, `Ticked`: how a function leaves the flow it was handed.

## Main results

* `netTcpTick_ticked`: the tick takes its flow along a chain of moves.
* `tcpInputFlow_arrives`: so does a segment, behind what it is accepted for.
-/

namespace S5LBox.Net

open Relation SerialNumbers

variable {ε : Type} {f f' : Flow} {c c' : Conn ε}

/-! ### Moves -/

/-- A datagram that carries a TCP segment with the given flags, sequence number and payload. -/
structure IsSegment (d : List Byte) (flags : Byte) (seq : Word) (data : List Byte) : Prop where
  flags_eq : segFlags (d.drop ipv4HdrLen) = flags
  seq_eq : segSeq (d.drop ipv4HdrLen) = seq
  payload_eq : segPayload (d.drop ipv4HdrLen) = data

/-- The segment occupies no sequence space. -/
def Bare (flags : Byte) : Prop := hasFlag flags tcpSyn = false ∧ hasFlag flags tcpFin = false

/-- The states in which our FIN is outstanding. -/
def TcpState.finOut (s : TcpState) : Prop := s = .finWait1 ∨ s = .closing ∨ s = .lastAck

instance (s : TcpState) : Decidable s.finOut := by unfold TcpState.finOut; infer_instance

/-- One change of a flow between two arrivals. -/
inductive Move : Flow → Flow → Prop
  /-- Timers, windows and other bookkeeping. -/
  | quiet (f : Flow) (handle : Int) (lastMs : Word) (sndWnd ssthresh : Nat)
      (txShutdown needAck rtoOn : Bool) (rtoAt : Word) (rtx : Nat) (closeAt : Word) :
      Move f { f with
        handle := handle, lastMs := lastMs, sndWnd := sndWnd, ssthresh := ssthresh
        txShutdown := txShutdown, needAck := needAck, rtoOn := rtoOn, rtoAt := rtoAt, rtx := rtx
        closeAt := closeAt }
  /-- A segment without sequence space. -/
  | bare (f : Flow) (flags : Byte) (seq : Word) (d : List Byte) (hbare : Bare flags)
      (hd : IsSegment d flags seq []) : Move f (f.emit flags seq [] d)
  /-- The SYN, once the host is connected. -/
  | syn (f : Flow) (d : List Byte) (hstate : f.state = .synRcvd) (hnxt : f.sndNxt = f.sndUna)
      (hd : IsSegment d (tcpSyn ||| tcpAck) f.sndNxt []) :
      Move f { f.emit (tcpSyn ||| tcpAck) f.sndNxt [] d with sndNxt := f.sndNxt + 1 }
  /-- The SYN again. -/
  | synAgain (f : Flow) (d : List Byte) (hstate : f.state = .synRcvd) (hnxt : f.sndNxt ≠ f.sndUna)
      (hd : IsSegment d (tcpSyn ||| tcpAck) f.sndUna []) :
      Move f (f.emit (tcpSyn ||| tcpAck) f.sndUna [] d)
  /-- Data from behind what has been sent. -/
  | data (f : Flow) (sent n : Nat) (d : List Byte) (hstate : f.state ≠ .synRcvd)
      (hnxt : f.sndNxt = f.sndUna + BitVec.ofNat 32 sent) (hn : sent + n ≤ f.txlen)
      (hd : IsSegment d (tcpAck ||| tcpPsh) f.sndNxt ((f.txbuf.drop sent).take n)) :
      Move f { f.emit (tcpAck ||| tcpPsh) f.sndNxt ((f.txbuf.drop sent).take n) d with
        sndNxt := f.sndNxt + BitVec.ofNat 32 n }
  /-- One octet beyond a closed window. -/
  | probe (f : Flow) (d : List Byte) (hstate : f.state ≠ .synRcvd) (hnxt : f.sndNxt = f.sndUna)
      (htx : f.txlen ≠ 0) (hd : IsSegment d tcpAck f.sndNxt (f.txbuf.take 1)) :
      Move f (f.emit tcpAck f.sndNxt (f.txbuf.take 1) d)
  /-- The FIN takes its place behind the data. -/
  | markFin (f : Flow) (heof : f.hostEof) (hfin : f.finSent = false)
      (hstate : f.state = .established ∨ f.state = .closeWait) :
      Move f { f with
        finSent := true, state := if f.state = .closeWait then .lastAck else .finWait1 }
  /-- The FIN goes out. -/
  | fin (f : Flow) (d : List Byte) (hfin : f.finSent)
      (hnxt : f.sndNxt = f.sndUna + BitVec.ofNat 32 f.txlen) (hstate : f.state.finOut)
      (hd : IsSegment d (tcpAck ||| tcpFin) f.sndNxt []) :
      Move f { f.emit (tcpAck ||| tcpFin) f.sndNxt [] d with sndNxt := f.sndNxt + 1 }
  /-- The host accepts octets. -/
  | accept (f : Flow) (n : Nat) :
      Move f { f with
        rxbuf := f.rxbuf.drop n, needAck := true
        history := { f.history with accepted := f.history.accepted ++ f.rxbuf.take n } }
  /-- Octets arrive from the host. -/
  | receive (f : Flow) (data : List Byte) (heof : f.hostEof = false)
      (hlen : f.txlen + data.length ≤ netTcpTxbuf) :
      Move f { f with
        txbuf := f.txbuf ++ data
        history := { f.history with received := f.history.received ++ data } }
  /-- The host ends its stream. -/
  | eof (f : Flow) : Move f { f with hostEof := true }
  /-- The send cursor goes back to the start of the flight. -/
  | rewind (f : Flow) : Move f { tcpCwndTimeout f with sndNxt := f.sndUna }

/-- A chain of changes. -/
abbrev Moves : Flow → Flow → Prop := ReflTransGen Move

theorem Move.moves (h : Move f f') : Moves f f' := .single h

theorem Move.same_tuple (h : Move f f') : f'.used = f.used ∧ f'.proto = f.proto := by
  cases h <;> exact ⟨rfl, rfl⟩

theorem Moves.same_tuple (h : Moves f f') : f'.used = f.used ∧ f'.proto = f.proto := by
  induction h with
  | refl => exact ⟨rfl, rfl⟩
  | tail _ hmove ih => exact ⟨hmove.same_tuple.1.trans ih.1, hmove.same_tuple.2.trans ih.2⟩

/-- No move closes a flow. -/
theorem Move.not_closed (h : Move f f') (hopen : f.state ≠ .closed) : f'.state ≠ .closed := by
  cases h with
  | markFin =>
    show (if f.state = .closeWait then TcpState.lastAck else .finWait1) ≠ .closed
    split <;> decide
  | _ => exact hopen

theorem Move.stays_closed (h : Move f f') (hclosed : f.state = .closed) : f'.state = .closed := by
  cases h with
  | markFin _ _ hstate => rcases hstate with hs | hs <;> exact nomatch hclosed.symm.trans hs
  | _ => exact hclosed

theorem Moves.keeps {I : Flow → Prop} (hmove : ∀ f f', Move f f' → I f → I f') (h : Moves f f')
    (hI : I f) : I f' := by
  induction h with
  | refl => exact hI
  | tail _ hm ih => exact hmove _ _ hm ih

/-- The timer alone is bookkeeping. -/
theorem moves_tcpTimers (now : Word) (f : Flow) : Moves f (tcpTimers now f) := by
  rw [tcpTimers]
  split_ifs
  · exact .refl
  · exact (Move.quiet f f.handle f.lastMs f.sndWnd f.ssthresh f.txShutdown f.needAck true _ f.rtx
      f.closeAt).moves
  · exact (Move.quiet f f.handle f.lastMs f.sndWnd f.ssthresh f.txShutdown f.needAck false f.rtoAt
      0 f.closeAt).moves

/-! ### How a function leaves its flow -/

/-- The reason of a release fits the flow. -/
def EndsAs : Release → Flow → Prop
  | .reset, _ => True
  | .closed, f => f.state = .closed
  | .timeWait, f => f.state = .timeWait
  | .udp, _ => False

/-- The flow has gone along a chain of moves and is still there. -/
def Going (c c' : Conn ε) : Prop := c'.core.released = c.core.released ∧ Moves c.f c'.f

/-- The flow has gone along a chain of moves, and may have been released at its end. -/
def Ticked (c c' : Conn ε) : Prop :=
  Going c c' ∨ ∃ why f, Moves c.f f ∧ EndsAs why f ∧ c'.f = .blank ∧
    c'.core.released = (why, f) :: c.core.released

theorem Going.refl (c : Conn ε) : Going c c := ⟨rfl, .refl⟩

theorem Going.trans {c₁ c₂ c₃ : Conn ε} (h : Going c₁ c₂) (h' : Going c₂ c₃) : Going c₁ c₃ :=
  ⟨h'.1.trans h.1, h.2.trans h'.2⟩

theorem Going.then {c₁ c₂ c₃ : Conn ε} (h : Going c₁ c₂) (h' : Ticked c₂ c₃) : Ticked c₁ c₃ := by
  obtain hgo | ⟨why, f, hmoves, hends, hblank, hrel⟩ := h'
  · exact .inl (h.trans hgo)
  · exact .inr ⟨why, f, h.2.trans hmoves, hends, hblank, hrel.trans (by rw [h.1])⟩

theorem Going.ticked (h : Going c c') : Ticked c c' := .inl h

theorem netFlowFree_ticked {why : Release} (hused : c.f.used) (hends : EndsAs why c.f) :
    Ticked c (netFlowFree why c) := by
  refine .inr ⟨why, c.f, .refl, hends, ?_, ?_⟩ <;> simp [netFlowFree, hused]

/-! ### Sending -/

theorem netEmit_released {src dst : Word} {proto : Nat} {p : List Byte} {ns ns' : NetCore ε}
    (h : netEmit src dst proto p ns = some ns') : ns'.released = ns.released := by
  rw [netEmit] at h
  split_ifs at h
  cases h
  rfl

theorem netEmit'_released (src dst : Word) (proto : Nat) (p : List Byte) (ns : NetCore ε) :
    (netEmit' src dst proto p ns).released = ns.released := by
  rw [netEmit']
  cases h : netEmit src dst proto p ns with
  | none => rfl
  | some ns' => exact netEmit_released h

theorem tcpReject_released (dstIp : Word) (g : Segment) (n : Nat) (ns : NetCore ε) :
    (tcpReject dstIp g n ns).released = ns.released := by
  rw [tcpReject]
  split
  · rfl
  · exact netEmit'_released _ _ _ _ _

/-- The datagram of a segment carries it. -/
theorem isSegment_tcpSegment (ns ns' : NetCore ε) (f : Flow) (flags : Byte) (seq : Word)
    (data : List Byte) (src dst : Word) (proto : Nat) :
    IsSegment (netDatagram ns src dst proto (tcpSegment ns' f flags seq data)) flags seq data := by
  have hdrop : (netDatagram ns src dst proto (tcpSegment ns' f flags seq data)).drop ipv4HdrLen =
      tcpSegment ns' f flags seq data := List.drop_left' rfl
  constructor <;> rw [hdrop, tcpSegment] <;> dsimp only
  · exact segFlags_tcpFields _ _ _ _ _ _ _ _ _
  · exact segSeq_tcpFields _ _ _ _ _ _ _ _ _
  · apply segPayload_tcpFields <;> split <;> decide

/-- A segment is either dropped, and nothing has changed, or it is on the wire. -/
theorem tcpOut_cases (flags : Byte) (seq : Word) (data : List Byte) (c : Conn ε) :
    tcpOut flags seq data c = (false, c) ∨
    ∃ core d, tcpOut flags seq data c = (true, ⟨core, c.f.emit flags seq data d⟩) ∧
      core.released = c.core.released ∧ core.nowMs = c.core.nowMs ∧ IsSegment d flags seq data := by
  rw [tcpOut]
  cases h : netEmit c.f.dstIp c.core.cfg.guestIp netProtoTcp (tcpSegment c.core c.f flags seq data)
      c.core with
  | none => exact .inl rfl
  | some core =>
    have hnow : core.nowMs = c.core.nowMs := by
      rw [netEmit] at h
      split_ifs at h
      cases h
      rfl
    exact .inr ⟨core, _, rfl, netEmit_released h, hnow, isSegment_tcpSegment _ _ _ _ _ _ _ _ _⟩

/-- Whether it is dropped or not, a segment without sequence space leaves the flow going. -/
theorem going_tcpOut_bare {flags : Byte} (hbare : Bare flags) (seq : Word) (c : Conn ε) :
    Going c (tcpOut flags seq [] c).2 := by
  obtain h | ⟨core, d, h, hrel, -, hd⟩ := tcpOut_cases flags seq [] c
  · rw [h]
    exact .refl c
  · rw [h]
    exact ⟨hrel, (Move.bare c.f flags seq d hbare hd).moves⟩

theorem bare_ack : Bare tcpAck := ⟨rfl, rfl⟩

theorem bare_rstAck : Bare (tcpRst ||| tcpAck) := ⟨rfl, rfl⟩

theorem going_tcpSendAck (c : Conn ε) : Going c (tcpSendAck c) := by
  rw [tcpSendAck]
  split
  · exact going_tcpOut_bare bare_ack _ c
  · exact .refl c

theorem ticked_tcpAbort (hused : c.f.used) : Ticked c (tcpAbort c) := by
  have hgo := going_tcpOut_bare bare_rstAck c.f.sndNxt c
  exact hgo.then (netFlowFree_ticked (by rw [hgo.2.same_tuple.1]; exact hused) trivial)

/-! ### The pump -/

/-- The loop that sends data, from as much as is in flight. -/
theorem going_tcpPumpData (n sent : Nat) (hstate : c.f.state ≠ .synRcvd)
    (hnxt : sent < c.f.txlen → c.f.sndNxt = c.f.sndUna + BitVec.ofNat 32 sent) :
    Going c (tcpPumpData n sent c) := by
  induction n generalizing sent c with
  | zero => exact .refl c
  | succ n ih =>
    rw [tcpPumpData]
    dsimp only
    split_ifs with htx
    · exact .refl c
    · exact .refl c
    have hlt : sent < c.f.txlen := by omega
    generalize hseg : min (min (c.f.txlen - sent) (min c.f.sndWnd c.f.cwnd - sent)) c.f.mss = seg
    have hle : sent + seg ≤ c.f.txlen := by omega
    obtain h | ⟨core, d, h, hrel, -, hd⟩ := tcpOut_cases (tcpAck ||| tcpPsh) c.f.sndNxt
      ((c.f.txbuf.drop sent).take seg) c
    · simp only [h]
      exact .refl c
    · simp only [h]
      have hmove := Move.data c.f sent seg d hstate (hnxt hlt) hle hd
      have hgo : Going c ⟨core, _⟩ := ⟨hrel, hmove.moves⟩
      refine hgo.trans (ih _ hstate fun _ => ?_)
      show c.f.sndNxt + BitVec.ofNat 32 seg = c.f.sndUna + BitVec.ofNat 32 (sent + seg)
      rw [hnxt hlt, BitVec.ofNat_add, BitVec.add_assoc]

/-- Short of all that is buffered, the send cursor is as far as `tcp_inflight` says. -/
theorem sndNxt_of_tcpInflight (h : tcpInflight f < f.txlen) :
    f.sndNxt = f.sndUna + BitVec.ofNat 32 (tcpInflight f) := by
  have hn : tcpInflight f = offset f.sndUna f.sndNxt := by
    rw [tcpInflight] at h ⊢
    split_ifs at h ⊢
    · omega
    · rfl
  rw [hn, start_add_offset]

theorem moves_tcpMarkFin (f : Flow) : Moves f (tcpMarkFin f) := by
  rw [tcpMarkFin]
  split
  case isTrue h =>
    obtain ⟨heof, hfin, hstate⟩ := h
    exact (Move.markFin f heof (by simpa using hfin) hstate).moves
  case isFalse => exact .refl

theorem going_tcpSendFin (c : Conn ε) : Going c (tcpSendFin c) := by
  rw [tcpSendFin]
  split
  case isTrue h =>
    obtain ⟨hfin, hnxt, hstate⟩ := h
    obtain h | ⟨core, d, h, hrel, -, hd⟩ := tcpOut_cases (tcpAck ||| tcpFin) c.f.sndNxt [] c
    · rw [h]
      exact .refl c
    · rw [h]
      exact ⟨hrel, (Move.fin c.f d hfin hnxt hstate hd).moves⟩
  case isFalse => exact .refl c

theorem going_tcpPump (c : Conn ε) : Going c (tcpPump c) := by
  rw [tcpPump]
  split
  · exact .refl c
  case isFalse h =>
    have hsyn : c.f.state ≠ .synRcvd := fun hs => h (.inl hs)
    have hdata := going_tcpPumpData (netOutSlots + 1) (tcpInflight c.f) hsyn
      sndNxt_of_tcpInflight
    generalize tcpPumpData (netOutSlots + 1) (tcpInflight c.f) c = c₁ at hdata ⊢
    have hmark : Going c₁ { c₁ with f := tcpMarkFin c₁.f } := ⟨rfl, moves_tcpMarkFin c₁.f⟩
    have hfin := going_tcpSendFin { c₁ with f := tcpMarkFin c₁.f }
    have hack := going_tcpSendAck (tcpSendFin { c₁ with f := tcpMarkFin c₁.f })
    have hall := ((hdata.trans hmark).trans hfin).trans hack
    exact hall.trans ⟨rfl, moves_tcpTimers _ _⟩

/-! ### The tick -/

/-- The connection is neither over nor waiting for the host, so that data may flow. -/
structure Connected (f : Flow) : Prop where
  used : f.used
  syn : f.state = .synRcvd → f.sndNxt ≠ f.sndUna

/-- A stage of the tick: it goes on with its flow as `P` says, or it ends the tick. -/
def Stage (P : Flow → Prop) (c : Conn ε) (r : Bool × Conn ε) : Prop :=
  (r.1 = true → Going c r.2 ∧ P r.2.f) ∧ (r.1 = false → Ticked c r.2)

section Stages

variable {P : Flow → Prop}

theorem Stage.on (h : Going c c') (hP : P c'.f) : Stage P c (true, c') :=
  ⟨fun _ => ⟨h, hP⟩, nofun⟩

theorem Stage.over (h : Ticked c c') : Stage P c (false, c') := ⟨nofun, fun _ => h⟩

theorem Going.stage {r : Bool × Conn ε} (h : Going c c') (hstage : Stage P c' r) : Stage P c r :=
  ⟨fun hon => ⟨h.trans (hstage.1 hon).1, (hstage.1 hon).2⟩, fun hover => h.then (hstage.2 hover)⟩

theorem going_ctx (c : Conn ε) (ctx : ε) :
    Going c { c with core := { c.core with ctx := ctx } } := ⟨rfl, .refl⟩

theorem Move.going (h : Move c.f f') : Going c { c with f := f' } := ⟨rfl, h.moves⟩

end Stages

theorem stage_tickSend (h : Connected c.f) : Stage Connected c (tickSend c) := by
  rw [tickSend]
  split
  · exact .on (.refl c) h
  case h_2 send _ =>
    split
    · exact .on (.refl c) h
    rcases send c.f.handle c.f.rxbuf c.core.ctx with ⟨w, ctx⟩
    dsimp only
    have hgo := going_ctx c ctx
    split_ifs
    · exact .over (hgo.then (ticked_tcpAbort h.used))
    · exact .on hgo h
    · exact .on (hgo.trans (Move.accept c.f w.toNat).going) ⟨h.used, h.syn⟩

theorem going_tickShutdown (c : Conn ε) : Going c (tickShutdown c) := by
  rw [tickShutdown]
  split
  · exact ⟨rfl, (Move.quiet c.f c.f.handle c.f.lastMs c.f.sndWnd c.f.ssthresh true c.f.needAck
      c.f.rtoOn c.f.rtoAt c.f.rtx c.f.closeAt).moves⟩
  · exact .refl c

theorem connected_tickShutdown (h : Connected c.f) : Connected (tickShutdown c).f := by
  rw [tickShutdown]
  split
  · exact ⟨h.used, h.syn⟩
  · exact h

theorem stage_tickRecvLoop {recv : Int → Nat → ε → Recv × ε}
    (hrecv : ∀ h cap x data, (recv h cap x).1 = .bytes data → data ≠ [] ∧ data.length ≤ cap)
    (n : Nat) (h : Connected c.f) (heof : c.f.hostEof = false) :
    Stage Connected c (tickRecvLoop recv n c) := by
  induction n generalizing c with
  | zero => exact .on (.refl c) h
  | succ n ih =>
    rw [tickRecvLoop]
    split
    · exact .on (.refl c) h
    case isFalse hroom =>
      have hlen := hrecv c.f.handle (netTcpTxbuf - c.f.txlen) c.core.ctx
      generalize recv c.f.handle (netTcpTxbuf - c.f.txlen) c.core.ctx = r at hlen
      obtain ⟨r, ctx⟩ := r
      have hgo := going_ctx c ctx
      cases r with
      | wouldBlock => exact .on hgo h
      | eof => exact .on (hgo.trans (Move.eof c.f).going) ⟨h.used, h.syn⟩
      | error => exact .over (hgo.then (ticked_tcpAbort h.used))
      | bytes data =>
        have hle := (hlen data rfl).2
        have hmove := Move.receive c.f data heof (by omega)
        exact (hgo.trans hmove.going).stage (ih ⟨h.used, h.syn⟩ heof)

theorem stage_tickRecv (h : Connected c.f) : Stage Connected c (tickRecv c) := by
  rw [tickRecv]
  split
  · exact .on (.refl c) h
  case h_2 recv hrecv =>
    split
    · exact .on (.refl c) h
    case isFalse heof =>
      exact stage_tickRecvLoop (c.core.eg.recv_le recv hrecv) 8 h (by simpa using heof)

theorem stage_tickTimer (h : Connected c.f) :
    Stage (fun f => f.used = true) c (tickTimer c) := by
  rw [tickTimer]
  split
  · exact .on (.refl c) h.used
  dsimp only
  have hgo := (Move.quiet c.f c.f.handle c.f.lastMs c.f.sndWnd c.f.ssthresh c.f.txShutdown
    c.f.needAck false c.f.rtoAt (c.f.rtx + 1) c.f.closeAt).going
  refine hgo.stage ?_
  split_ifs with hmax hpersist
  · exact .over (ticked_tcpAbort h.used)
  · obtain ⟨hnxt, htx, -⟩ := hpersist
    obtain hout | ⟨core, d, hout, hrel, -, hd⟩ := tcpOut_cases tcpAck c.f.sndNxt (c.f.txbuf.take 1)
      { c with f := { c.f with rtoOn := false, rtx := c.f.rtx + 1 } }
    · rw [hout]
      exact .over (Going.refl _).ticked
    · rw [hout]
      have hmove := Move.probe { c.f with rtoOn := false, rtx := c.f.rtx + 1 } d
        (fun hs => h.syn hs hnxt) hnxt htx hd
      exact .over (Going.ticked ⟨hrel, hmove.moves.trans (moves_tcpTimers _ _)⟩)
  · exact .on (Move.rewind _).going h.used

/-! ### The tick -/

theorem ticked_tickTimeWait (hused : c.f.used) (hstate : c.f.state = .timeWait) :
    Ticked c (tickTimeWait c) := by
  have hgo := going_tcpSendAck c
  have hframe : (tcpSendAck c).f.state = c.f.state := by
    rw [tcpSendAck]
    split
    · obtain h | ⟨core, d, h, -⟩ := tcpOut_cases tcpAck c.f.sndNxt [] c
      · rw [h]
      · rw [h]
        rfl
    · rfl
  rw [tickTimeWait]
  split
  · exact hgo.ticked
  · refine hgo.then (netFlowFree_ticked ?_ ?_)
    · rw [hgo.2.same_tuple.1]
      exact hused
    · exact hframe.trans hstate

theorem ticked_tickConnect (hused : c.f.used) (hstate : c.f.state = .synRcvd)
    (hnxt : c.f.sndNxt = c.f.sndUna) : Ticked c (tickConnect c) := by
  obtain ⟨st, ctx, hst⟩ : ∃ st ctx, egressStatus c =
      (st, { c with core := { c.core with ctx := ctx } }) := by
    rw [egressStatus]
    split
    · exact ⟨_, _, rfl⟩
    · exact ⟨.ready, c.core.ctx, rfl⟩
  have hgo := going_ctx c ctx
  rw [tickConnect, hst]
  cases st with
  | pending =>
    dsimp only
    split
    · exact hgo.ticked
    · exact hgo.then (ticked_tcpAbort hused)
  | failed => exact hgo.then (ticked_tcpAbort hused)
  | ready =>
    dsimp only
    obtain hout | ⟨core, d, hout, hrel, -, hd⟩ := tcpOut_cases (tcpSyn ||| tcpAck) c.f.sndNxt []
      { c with core := { c.core with ctx := ctx } }
    · rw [hout]
      exact hgo.ticked
    · rw [hout]
      have hmove := Move.syn c.f d hstate hnxt hd
      exact Going.ticked ⟨hrel, hmove.moves.trans (moves_tcpTimers _ _)⟩

/-- The tick takes its flow along a chain of moves. -/
theorem netTcpTick_ticked (hused : c.f.used) : Ticked c (netTcpTick c) := by
  rw [netTcpTick]
  split_ifs with hunused htime hclosed hsyn
  · exact (Going.refl c).ticked
  · exact ticked_tickTimeWait hused htime
  · exact netFlowFree_ticked hused hclosed
  · exact ticked_tickConnect hused hsyn.1 hsyn.2
  have hconn : Connected c.f := ⟨hused, fun hs hnxt => hsyn ⟨hs, hnxt⟩⟩
  have hsend := stage_tickSend hconn
  generalize tickSend c = r at hsend ⊢
  obtain ⟨b, c₁⟩ := r
  cases b with
  | false => exact hsend.2 rfl
  | true =>
    obtain ⟨hgo₁, hconn₁⟩ := hsend.1 rfl
    have hrecv := stage_tickRecv (connected_tickShutdown hconn₁)
    have hshut := hgo₁.trans (going_tickShutdown c₁)
    dsimp only
    generalize tickRecv (tickShutdown c₁) = r at hrecv ⊢
    obtain ⟨b, c₂⟩ := r
    cases b with
    | false => exact hshut.then (hrecv.2 rfl)
    | true =>
      obtain ⟨hgo₂, hconn₂⟩ := hrecv.1 rfl
      have htimer := stage_tickTimer hconn₂
      have hread := hshut.trans hgo₂
      dsimp only
      generalize tickTimer c₂ = r at htimer ⊢
      obtain ⟨b, c₃⟩ := r
      cases b with
      | false => exact hread.then (htimer.2 rfl)
      | true =>
        obtain ⟨hgo₃, hused₃⟩ := htimer.1 rfl
        have hpump := (hread.trans hgo₃).trans (going_tcpPump c₃)
        dsimp only
        split_ifs with hend
        · refine hpump.then (netFlowFree_ticked ?_ hend)
          rw [hpump.2.same_tuple.1]
          exact hused
        · exact hpump.ticked

/-- A flow that the tick has left in use is not closed. -/
theorem netTcpTick_open (hlive : (netTcpTick c).f.used = true) :
    (netTcpTick c).f.state ≠ .closed := by
  by_cases hused : c.f.used = true
  · by_cases hclosed : c.f.state = .closed
    · have hfree : (netTcpTick c).f = .blank := by
        simp [netTcpTick, hused, hclosed, netFlowFree]
      rw [hfree] at hlive
      exact absurd hlive Bool.false_ne_true
    · obtain ⟨-, hmoves⟩ | ⟨-, f, -, -, hblank, -⟩ := netTcpTick_ticked hused
      · exact hmoves.keeps (fun _ _ hmove => hmove.not_closed) hclosed
      · rw [hblank] at hlive
        exact absurd hlive Bool.false_ne_true
  · have hsame : netTcpTick c = c := by simp [netTcpTick, hused]
    rw [hsame] at hlive
    exact absurd hlive hused

/-! ### Segments -/

/-- The segment passes the checks in front of its acknowledgement. -/
structure Acceptable (f : Flow) (g : Segment) : Prop where
  rst : hasFlag g.flags tcpRst = false
  syn : hasFlag g.flags tcpSyn = false
  ack : hasFlag g.flags tcpAck = true
  past : netSeqLt f.sndMax g.ack = false
  handshake : f.state = .synRcvd → netSeqLt f.sndUna g.ack = true

/-- The flow behind the acknowledgement that a segment carries. -/
def acked (now : Word) (g : Segment) (f : Flow) : Flow :=
  tcpTakeAck now g { f with lastMs := now }

/-- The flow with what a segment brings. -/
def delivered (now : Word) (g : Segment) (f : Flow) : Flow :=
  tcpDeliver now g (tcpEstablish (acked now g f))

/-- The acknowledgement has not reached the SYN. -/
def Unfinished (f : Flow) : Prop := f.state = .synRcvd ∧ netSeqLt f.sndUna f.sndNxt = true

theorem tcpTimers_same_tuple (now : Word) (f : Flow) :
    (tcpTimers now f).used = f.used ∧ (tcpTimers now f).proto = f.proto :=
  (moves_tcpTimers now f).same_tuple

theorem tcpConsumeAck_same_tuple (now ack : Word) (f : Flow) :
    (tcpConsumeAck now ack f).used = f.used ∧ (tcpConsumeAck now ack f).proto = f.proto := by
  have hfin : ∀ f, (tcpFinAcked now f).used = f.used ∧ (tcpFinAcked now f).proto = f.proto := by
    intro f
    rw [tcpFinAcked]
    split <;> exact ⟨rfl, rfl⟩
  rw [tcpConsumeAck]
  split_ifs
  · exact ⟨rfl, rfl⟩
  · exact hfin _
  · exact ⟨rfl, rfl⟩

theorem acked_same_tuple (now : Word) (g : Segment) (f : Flow) :
    (acked now g f).used = f.used ∧ (acked now g f).proto = f.proto := by
  have hack := tcpConsumeAck_same_tuple now g.ack { f with lastMs := now, sndWnd := g.wnd }
  rw [acked, tcpTakeAck]
  dsimp only
  split
  · have htimers := tcpTimers_same_tuple now
      (tcpConsumeAck now g.ack { f with lastMs := now, sndWnd := g.wnd })
    exact ⟨htimers.1.trans hack.1, htimers.2.trans hack.2⟩
  · exact hack

theorem delivered_same_tuple (now : Word) (g : Segment) (f : Flow) :
    (delivered now g f).used = f.used ∧ (delivered now g f).proto = f.proto := by
  have hest : ∀ f, (tcpEstablish f).used = f.used ∧ (tcpEstablish f).proto = f.proto := by
    intro f
    rw [tcpEstablish]
    split <;> exact ⟨rfl, rfl⟩
  have hdata : ∀ f, (tcpTakeData g f).used = f.used ∧ (tcpTakeData g f).proto = f.proto := by
    intro f
    rw [tcpTakeData]
    split <;> exact ⟨rfl, rfl⟩
  have hrepeat : ∀ f, (tcpRepeatFin now g f).used = f.used ∧
      (tcpRepeatFin now g f).proto = f.proto := by
    intro f
    rw [tcpRepeatFin]
    split <;> exact ⟨rfl, rfl⟩
  have hfin : ∀ f, (tcpTakeFin now g f).used = f.used ∧ (tcpTakeFin now g f).proto = f.proto := by
    intro f
    rw [tcpTakeFin]
    dsimp only
    split_ifs
    · split <;> exact ⟨rfl, rfl⟩
    · exact ⟨rfl, rfl⟩
  have hall : ∀ f, (tcpDeliver now g (tcpEstablish f)).used = f.used ∧
      (tcpDeliver now g (tcpEstablish f)).proto = f.proto := fun f =>
    ⟨(hfin _).1.trans ((hrepeat _).1.trans ((hdata _).1.trans (hest f).1)),
      (hfin _).2.trans ((hrepeat _).2.trans ((hdata _).2.trans (hest f).2))⟩
  have hack := acked_same_tuple now g f
  exact ⟨(hall _).1.trans hack.1, (hall _).2.trans hack.2⟩

/-- A segment is taken for what it is worth, and then the flow goes on as on a tick; or the flow
only makes moves. -/
theorem tcpInputFlow_arrives (g : Segment) (hused : c.f.used) :
    Ticked c (tcpInputFlow g c) ∨ Acceptable c.f g ∧
      (Unfinished (acked c.core.nowMs g c.f) ∧
          tcpInputFlow g c = { c with f := acked c.core.nowMs g c.f } ∨
        ¬Unfinished (acked c.core.nowMs g c.f) ∧
          Ticked { c with f := delivered c.core.nowMs g c.f } (tcpInputFlow g c) ∧
          ((tcpInputFlow g c).f.used = true → (tcpInputFlow g c).f.state ≠ .closed)) := by
  have htouch : Going c { c with f := { c.f with lastMs := c.core.nowMs } } :=
    (Move.quiet c.f c.f.handle c.core.nowMs c.f.sndWnd c.f.ssthresh c.f.txShutdown c.f.needAck
      c.f.rtoOn c.f.rtoAt c.f.rtx c.f.closeAt).going
  rw [tcpInputFlow]
  dsimp only
  by_cases hrst : hasFlag g.flags tcpRst = true
  · rw [if_pos hrst]
    exact .inl (htouch.then (netFlowFree_ticked hused trivial))
  rw [if_neg hrst]
  by_cases hsyn : hasFlag g.flags tcpSyn = true
  · rw [if_pos hsyn]
    refine .inl (htouch.then ?_)
    split_ifs with hstate hnxt
    · obtain hout | ⟨core, d, hout, hrel, -, hd⟩ := tcpOut_cases (tcpSyn ||| tcpAck) c.f.sndUna []
        { c with f := { c.f with lastMs := c.core.nowMs } }
      · rw [hout]
        exact (Going.refl _).ticked
      · rw [hout]
        have hmove := Move.synAgain { c.f with lastMs := c.core.nowMs } d hstate hnxt hd
        exact Going.ticked ⟨hrel, hmove.moves⟩
    · exact (Going.refl _).ticked
    · exact ticked_tcpAbort hused
  rw [if_neg hsyn]
  by_cases hack : hasFlag g.flags tcpAck = true
  swap
  · rw [if_pos (by simpa using hack)]
    exact .inl htouch.ticked
  rw [if_neg (by simpa using hack)]
  by_cases hreject : c.f.state = .synRcvd ∧
      (netSeqLt c.f.sndMax g.ack = true ∨ !netSeqLt c.f.sndUna g.ack)
  · rw [if_pos hreject]
    exact .inl (Going.ticked ⟨tcpReject_released _ _ _ _, htouch.2⟩)
  rw [if_neg hreject]
  by_cases hpast : netSeqLt c.f.sndMax g.ack = true
  · rw [if_pos hpast]
    have howe : Going c { c with f := { c.f with lastMs := c.core.nowMs, needAck := true } } :=
      (Move.quiet c.f c.f.handle c.core.nowMs c.f.sndWnd c.f.ssthresh c.f.txShutdown true
        c.f.rtoOn c.f.rtoAt c.f.rtx c.f.closeAt).going
    exact .inl (howe.trans (going_tcpOut_bare bare_ack _ _)).ticked
  rw [if_neg hpast]
  refine .inr ⟨⟨by simpa using hrst, by simpa using hsyn, hack, by simpa using hpast, ?_⟩, ?_⟩
  · intro hstate
    by_contra hlt
    exact hreject ⟨hstate, .inr (by simpa using hlt)⟩
  by_cases hwait : Unfinished (acked c.core.nowMs g c.f)
  · exact .inl ⟨hwait, if_pos hwait⟩
  · refine .inr ⟨hwait, ?_⟩
    split
    case isTrue h => exact absurd h hwait
    refine ⟨netTcpTick_ticked ?_, netTcpTick_open⟩
    exact (delivered_same_tuple c.core.nowMs g c.f).1.trans hused

end S5LBox.Net
