import S5LBox.Lib.FreeRunningRing
import S5LBox.Ppp.Framing

/-!
# The state of the PPP peer

The data of `ppp.h` and the bottom half of `ppp.c`: the transmit ring, the control packets that
are handed to it, and the small steps that RFC 1661 names `irc`, `scr`, `str`, `sta`, `tlu` and
`tld`. A `Link` is all of `ppp_peer_t` but the deframer. It also keeps the control packets that
were handed to the ring, the frames that the ring took, and the datagrams that were handed to the
sink, which the source does not; no function reads any of them.

## Main results

Beside each step stand what it leaves alone of a link's standing (`Link.standing`: the states of
the two automata, and whether an address is assigned and the link opened), what it hands to the
ring (`Link.sent`), and that it counts nothing for the deframer.
-/

namespace S5LBox.Ppp

/-! ### Constants -/

def pppConfReq : Byte := 1
def pppConfAck : Byte := 2
def pppConfNak : Byte := 3
def pppConfRej : Byte := 4
def pppTermReq : Byte := 5
def pppTermAck : Byte := 6
def pppCodeRej : Byte := 7
def pppProtoRej : Byte := 8
def pppEchoReq : Byte := 9
def pppEchoReply : Byte := 10
def pppDiscardReq : Byte := 11

def lcpOptMru : Byte := 1
def lcpOptAsyncmap : Byte := 2
def lcpOptAuth : Byte := 3
def lcpOptQuality : Byte := 4
def lcpOptMagic : Byte := 5
def lcpOptPcomp : Byte := 7
def lcpOptAccomp : Byte := 8

def ipcpOptAddresses : Byte := 1
def ipcpOptCompress : Byte := 2
def ipcpOptAddress : Byte := 3
def ipcpOptDns1 : Byte := 129
def ipcpOptDns2 : Byte := 131

def pppTxBulkFrames : Nat := 32
def pppTxRing : Nat := (2 * pppMaxFrame + 2) * pppTxBulkFrames

def pppRestartMs : Word := 3000
def pppMaxConfigure : Nat := 10
def pppMaxTerminate : Nat := 2
def pppMaxFailure : Nat := 5

def pppReqLcpMagic : Byte := 1
def pppReqLcpAsyncmap : Byte := 2
def pppReqIpcpAddress : Byte := 1

/-! ### Data -/

/-- `ppp_state_t`. -/
inductive PppState
  | initial
  | starting
  | closed
  | stopped
  | closing
  | stopping
  | reqSent
  | ackRcvd
  | ackSent
  | opened
  deriving DecidableEq, Repr

/-- `ppp_phase_t`. -/
inductive PppPhase
  | dead
  | establish
  | network
  | opened
  | terminate
  deriving DecidableEq, Repr

/-- The two control protocols: what the source's `proto` is where it names one of them. -/
inductive Layer
  | lcp
  | ipcp
  deriving DecidableEq, Repr

/-- The protocol number of a control protocol. -/
def Layer.proto : Layer → BitVec 16
  | .lcp => pppProtoLcp
  | .ipcp => pppProtoIpcp

/-- `ppp_config_t`. -/
structure Config where
  localIp : Word
  remoteIp : Word
  dns1 : Word
  dns2 : Word
  magic : Word
  deriving DecidableEq, Repr

/-- What `ppp_stats_t` counts of octets and frames received. -/
structure Reception where
  rxBytes : Nat := 0
  framesIn : Nat := 0
  fcsErrors : Nat := 0
  shortFrames : Nat := 0
  longFrames : Nat := 0
  aborts : Nat := 0
  deriving DecidableEq, Repr

/-- `ppp_stats_t`. -/
structure Stats extends Reception where
  txBytes : Nat := 0
  framesOut : Nat := 0
  unknownProtos : Nat := 0
  unknownCodes : Nat := 0
  ipFramesIn : Nat := 0
  ipFramesDropped : Nat := 0
  ipFramesOut : Nat := 0
  ipBytesIn : Nat := 0
  ipBytesOut : Nat := 0
  txOverflows : Nat := 0
  echoReplies : Nat := 0
  ipcpDnsRequests : Nat := 0
  ipcpDnsAcked : Nat := 0
  ipcpDnsNaked : Nat := 0
  deriving DecidableEq, Repr

/-- `ppp_fsm_t`. -/
structure Fsm where
  state : PppState := .initial
  nextId : Byte := 0
  lastReqId : Byte := 0
  restarts : Nat := 0
  failures : Nat := 0
  reqOpts : Byte := 0
  restartAtMs : Word := 0
  timerRunning : Bool := false
  deriving DecidableEq, Repr

/-- A control packet. -/
structure Packet where
  layer : Layer
  code : Byte
  id : Byte
  data : List Byte
  deriving DecidableEq, Repr

/-- `ppp_peer_t`, short of the deframer. Of the sink it is known whether one is installed. -/
structure Link where
  cfg : Config
  stats : Stats := {}
  ipSink : Bool := false
  lcp : Fsm := {}
  ipcp : Fsm := {}
  opened : Bool := false
  nowMs : Word := 0
  ourMagic : Word := 0
  peerMagic : Word := 0
  peerMagicValid : Bool := false
  peerAsyncmap : Word := 0
  peerMru : BitVec 16 := 0
  peerPcomp : Bool := false
  peerAccomp : Bool := false
  assignedIp : Word := 0
  assigned : Bool := false
  txAccm : Word := 0
  tx : Nat → Byte := fun _ => 0
  txHead : Word := 0
  txTail : Word := 0
  sent : List Packet := []
  frames : List (BitVec 16 × List Byte) := []
  delivered : List (List Byte) := []

/-! ### The transmit ring -/

/-- `tx_used`. -/
def txUsed (p : Link) : Nat := (p.txHead - p.txTail).toNat

/-- `PPP_TX_RING - tx_used(p)`, in the arithmetic of `size_t`. -/
def txFree (p : Link) : Nat := (pppTxRing + 2 ^ 64 - txUsed p) % 2 ^ 64

/-- `tx_frame`. -/
def txFrame (p : Link) (proto : BitVec 16) (info : List Byte) : Link :=
  let overflow := { p with stats := { p.stats with txOverflows := p.stats.txOverflows + 1 } }
  match pppFrame proto info p.txAccm (2 * pppMaxFrame + 2) with
  | none => overflow
  | some enc =>
    if enc.length > txFree p then overflow
    else
      { p with
        tx := FreeRunningRing.put pppTxRing p.tx p.txHead enc
        txHead := p.txHead + BitVec.ofNat 32 enc.length
        frames := p.frames ++ [(proto, info)]
        stats := { p.stats with
          framesOut := p.stats.framesOut + 1
          txBytes := p.stats.txBytes + enc.length } }

/-- `ppp_output_byte`. -/
def pppOutputByte (p : Link) : Option Byte × Link :=
  if p.txHead = p.txTail then (none, p)
  else (some (p.tx (p.txTail.toNat % pppTxRing)), { p with txTail := p.txTail + 1 })

/-- `ppp_output`: the octets written to a buffer of `cap`. -/
def pppOutput (p : Link) : Nat → List Byte × Link
  | 0 => ([], p)
  | cap + 1 =>
    match pppOutputByte p with
    | (none, p) => ([], p)
    | (some b, p) =>
      let (bs, p) := pppOutput p cap
      (b :: bs, p)

/-! ### Control packets -/

/-- `put_be32`. -/
def putBe32 (v : Word) : List Byte :=
  [v.extractLsb' 24 8, v.extractLsb' 16 8, v.extractLsb' 8 8, v.extractLsb' 0 8]

/-- `get_be32`, of the four octets from place `k` on. -/
def getBe32 (o : List Byte) (k : Nat) : Word :=
  o.getD k 0 ++ o.getD (k + 1) 0 ++ o.getD (k + 2) 0 ++ o.getD (k + 3) 0

/-- The octets of a control packet. -/
def cpOctets (code id : Byte) (data : List Byte) : List Byte :=
  let length := BitVec.ofNat 16 (data.length + 4)
  [code, id, length.extractLsb' 8 8, length.extractLsb' 0 8] ++ data

/-- `send_cp`. -/
def sendCp (p : Link) (l : Layer) (code id : Byte) (data : List Byte) : Link :=
  if data.length + 4 > pppMruDefault then
    { p with stats := { p.stats with txOverflows := p.stats.txOverflows + 1 } }
  else
    let p := txFrame p l.proto (cpOctets code id data)
    { p with sent := p.sent ++ [⟨l, code, id, data⟩] }

/-! ### The two automata -/

/-- `fsm_for`. -/
def fsmFor (p : Link) : Layer → Fsm
  | .lcp => p.lcp
  | .ipcp => p.ipcp

/-- One of the automata, changed. -/
def modFsm (p : Link) (l : Layer) (g : Fsm → Fsm) : Link :=
  match l with
  | .lcp => { p with lcp := g p.lcp }
  | .ipcp => { p with ipcp := g p.ipcp }

/-- `f->state = s`. -/
def setState (p : Link) (l : Layer) (s : PppState) : Link :=
  modFsm p l fun f => { f with state := s }

/-- `build_confreq`. -/
def buildConfreq (p : Link) : Layer → List Byte
  | .lcp =>
    (if p.lcp.reqOpts &&& pppReqLcpAsyncmap ≠ 0 then [lcpOptAsyncmap, 6] ++ putBe32 0 else []) ++
    (if p.lcp.reqOpts &&& pppReqLcpMagic ≠ 0 then [lcpOptMagic, 6] ++ putBe32 p.ourMagic else [])
  | .ipcp =>
    if p.ipcp.reqOpts &&& pppReqIpcpAddress ≠ 0 then
      [ipcpOptAddress, 6] ++ putBe32 p.cfg.localIp
    else []

/-- `restart_start`. -/
def restartStart (p : Link) (l : Layer) : Link :=
  modFsm p l fun f => { f with timerRunning := true, restartAtMs := p.nowMs + pppRestartMs }

/-- `restart_stop`. -/
def restartStop (p : Link) (l : Layer) : Link :=
  modFsm p l fun f => { f with timerRunning := false }

/-- `irc`. -/
def irc (p : Link) (l : Layer) (count : Nat) : Link :=
  modFsm p l fun f => { f with restarts := count, failures := pppMaxFailure }

/-- `f->last_req_id = f->next_id++`. -/
def freshId (p : Link) (l : Layer) : Link :=
  modFsm p l fun f => { f with lastReqId := f.nextId, nextId := f.nextId + 1 }

/-- `if (f->restarts) f->restarts--`. -/
def spendRestart (p : Link) (l : Layer) : Link :=
  modFsm p l fun f => { f with restarts := f.restarts - 1 }

/-- `scr`. -/
def scr (p : Link) (l : Layer) (fresh : Bool) : Link :=
  let opts := buildConfreq p l
  let p := if fresh then freshId p l else p
  let p := sendCp p l pppConfReq (fsmFor p l).lastReqId opts
  restartStart (spendRestart p l) l

/-- `str_`. -/
def str (p : Link) (l : Layer) : Link :=
  let p := freshId p l
  let p := sendCp p l pppTermReq (fsmFor p l).lastReqId []
  restartStart (spendRestart p l) l

/-- `sta`. -/
def sta (p : Link) (l : Layer) (id : Byte) : Link := sendCp p l pppTermAck id []

/-- `ipcp_start`. -/
def ipcpStart (p : Link) : Link :=
  let p := setState p .ipcp .reqSent
  let p := modFsm p .ipcp fun f => { f with reqOpts := pppReqIpcpAddress }
  let p := irc p .ipcp pppMaxConfigure
  scr p .ipcp true

/-- `tlu`. -/
def tlu (p : Link) : Layer → Link
  | .lcp => ipcpStart p
  | .ipcp => { p with assignedIp := p.cfg.remoteIp, assigned := true }

/-- `tld`. -/
def tld (p : Link) : Layer → Link
  | .lcp => { restartStop (setState p .ipcp .initial) .ipcp with assigned := false }
  | .ipcp => { p with assigned := false }

/-! ### What the steps leave alone -/

/-- The states of the two automata, and whether an address is assigned and the link opened. -/
@[ext]
structure Standing where
  state : Layer → PppState
  assigned : Bool
  opened : Bool

/-- A layer enters a state. -/
def Standing.enter (s : Standing) (l : Layer) (x : PppState) : Standing :=
  { s with state := Function.update s.state l x }

/-- What a layer's coming up does beside its own state: LCP's starts IPCP, and IPCP's assigns the
guest its address. -/
def Standing.rise (s : Standing) : Layer → Standing
  | .lcp => s.enter .ipcp .reqSent
  | .ipcp => { s with assigned := true }

/-- What a layer's going down does beside its own state: LCP's takes IPCP with it. -/
def Standing.fall (s : Standing) : Layer → Standing
  | .lcp => { s.enter .ipcp .initial with assigned := false }
  | .ipcp => { s with assigned := false }

/-- The standing of a link. -/
def Link.standing (p : Link) : Standing where
  state l := (fsmFor p l).state
  assigned := p.assigned
  opened := p.opened

@[simp]
theorem Standing.state_enter_self (s : Standing) (l : Layer) (x : PppState) :
    (s.enter l x).state l = x := Function.update_self ..

@[simp]
theorem Standing.state_enter_of_ne (s : Standing) {l l' : Layer} (x : PppState) (h : l' ≠ l) :
    (s.enter l x).state l' = s.state l' := Function.update_of_ne h ..

@[simp]
theorem Standing.assigned_enter (s : Standing) (l : Layer) (x : PppState) :
    (s.enter l x).assigned = s.assigned := rfl

@[simp]
theorem Standing.opened_enter (s : Standing) (l : Layer) (x : PppState) :
    (s.enter l x).opened = s.opened := rfl

theorem state_standing (p : Link) (l : Layer) : p.standing.state l = (fsmFor p l).state := rfl

section Automaton

variable (p : Link) (l : Layer) (g : Fsm → Fsm)

@[simp]
theorem fsmFor_modFsm_self : fsmFor (modFsm p l g) l = g (fsmFor p l) := by
  cases l <;> rfl

@[simp]
theorem sent_modFsm : (modFsm p l g).sent = p.sent := by
  cases l <;> rfl

@[simp]
theorem reception_modFsm :
    (modFsm p l g).stats.toReception = p.stats.toReception := by
  cases l <;> rfl

theorem standing_modFsm (h : ∀ f, (g f).state = f.state) :
    (modFsm p l g).standing = p.standing := by
  cases l <;> ext l' <;> first | rfl | (cases l' <;> first | rfl | exact h _)

@[simp]
theorem standing_setState (x : PppState) :
    (setState p l x).standing = p.standing.enter l x := by
  cases l <;> ext l' <;> first | rfl | (cases l' <;> rfl)

@[simp]
theorem sent_setState (x : PppState) : (setState p l x).sent = p.sent := sent_modFsm ..

@[simp]
theorem reception_setState (x : PppState) :
    (setState p l x).stats.toReception = p.stats.toReception := reception_modFsm ..

@[simp]
theorem standing_restartStart : (restartStart p l).standing = p.standing :=
  standing_modFsm _ _ _ fun _ => rfl

@[simp]
theorem standing_restartStop : (restartStop p l).standing = p.standing :=
  standing_modFsm _ _ _ fun _ => rfl

@[simp]
theorem standing_irc (n : Nat) : (irc p l n).standing = p.standing :=
  standing_modFsm _ _ _ fun _ => rfl

@[simp]
theorem standing_freshId : (freshId p l).standing = p.standing :=
  standing_modFsm _ _ _ fun _ => rfl

@[simp]
theorem standing_spendRestart : (spendRestart p l).standing = p.standing :=
  standing_modFsm _ _ _ fun _ => rfl

@[simp]
theorem sent_restartStart : (restartStart p l).sent = p.sent := sent_modFsm ..

@[simp]
theorem sent_restartStop : (restartStop p l).sent = p.sent := sent_modFsm ..

@[simp]
theorem sent_irc (n : Nat) : (irc p l n).sent = p.sent := sent_modFsm ..

@[simp]
theorem sent_freshId : (freshId p l).sent = p.sent := sent_modFsm ..

@[simp]
theorem sent_spendRestart : (spendRestart p l).sent = p.sent := sent_modFsm ..

@[simp]
theorem reception_restartStart :
    (restartStart p l).stats.toReception = p.stats.toReception := reception_modFsm ..

@[simp]
theorem reception_restartStop :
    (restartStop p l).stats.toReception = p.stats.toReception := reception_modFsm ..

@[simp]
theorem reception_irc (n : Nat) :
    (irc p l n).stats.toReception = p.stats.toReception := reception_modFsm ..

@[simp]
theorem reception_freshId : (freshId p l).stats.toReception = p.stats.toReception :=
  reception_modFsm ..

@[simp]
theorem reception_spendRestart :
    (spendRestart p l).stats.toReception = p.stats.toReception := reception_modFsm ..

end Automaton

/-! ### What is handed to the ring -/

section Sending

variable (p : Link) (l : Layer) (proto : BitVec 16) (code id : Byte) (data : List Byte)

/-- A frame changes the ring and the counters of what is sent. -/
theorem txFrame_eq : txFrame p proto data =
    { p with
      tx := (txFrame p proto data).tx
      txHead := (txFrame p proto data).txHead
      frames := (txFrame p proto data).frames
      stats := { p.stats with
        framesOut := (txFrame p proto data).stats.framesOut
        txBytes := (txFrame p proto data).stats.txBytes
        txOverflows := (txFrame p proto data).stats.txOverflows } } := by
  unfold txFrame
  split
  · rfl
  · split <;> rfl

/-- The ring takes a frame exactly if the counter of frames moves. -/
theorem frames_txFrame : (txFrame p proto data).frames = p.frames ++
    if (txFrame p proto data).stats.framesOut = p.stats.framesOut + 1 then [(proto, data)]
    else [] := by
  unfold txFrame
  split
  · simp
  · split <;> simp

/-- A control packet that is small enough is handed to the ring. -/
def CpFits (data : List Byte) : Prop := data.length + 4 ≤ pppMruDefault

instance : Decidable (CpFits data) := Nat.decLe _ _

theorem sent_sendCp (h : CpFits data) :
    (sendCp p l code id data).sent = p.sent ++ [⟨l, code, id, data⟩] := by
  rw [sendCp, if_neg (Nat.not_lt.2 h), txFrame_eq]

theorem sent_sendCp_of_not (h : ¬ CpFits data) : (sendCp p l code id data).sent = p.sent := by
  rw [sendCp, if_pos (Nat.lt_of_not_le h)]

@[simp]
theorem fsmFor_sendCp : fsmFor (sendCp p l code id data) = fsmFor p := by
  unfold sendCp
  split
  · rfl
  · rw [txFrame_eq]
    rfl

@[simp]
theorem standing_sendCp : (sendCp p l code id data).standing = p.standing := by
  unfold sendCp
  split
  · rfl
  · rw [txFrame_eq]
    rfl

@[simp]
theorem reception_sendCp :
    (sendCp p l code id data).stats.toReception = p.stats.toReception := by
  unfold sendCp
  split
  · rfl
  · rw [txFrame_eq]

@[simp]
theorem standing_sta : (sta p l id).standing = p.standing := standing_sendCp ..

@[simp]
theorem reception_sta : (sta p l id).stats.toReception = p.stats.toReception :=
  reception_sendCp ..

@[simp]
theorem standing_scr (fresh : Bool) : (scr p l fresh).standing = p.standing := by
  cases fresh <;> simp [scr]

@[simp]
theorem reception_scr (fresh : Bool) :
    (scr p l fresh).stats.toReception = p.stats.toReception := by
  cases fresh <;> simp [scr]

@[simp]
theorem standing_str : (str p l).standing = p.standing := by simp [str]

@[simp]
theorem reception_str : (str p l).stats.toReception = p.stats.toReception := by simp [str]

@[simp]
theorem standing_tlu : (tlu p l).standing = p.standing.rise l := by
  cases l
  · simp [tlu, ipcpStart, standing_modFsm, Standing.rise]
  · rfl

@[simp]
theorem reception_tlu : (tlu p l).stats.toReception = p.stats.toReception := by
  cases l
  · simp [tlu, ipcpStart]
  · rfl

@[simp]
theorem standing_tld : (tld p l).standing = p.standing.fall l := by
  cases l
  · ext l
    · cases l <;> rfl
    · rfl
    · rfl
  · rfl

@[simp]
theorem sent_tld : (tld p l).sent = p.sent := by
  cases l <;> rfl

@[simp]
theorem reception_tld : (tld p l).stats.toReception = p.stats.toReception := by
  cases l <;> rfl

end Sending

end S5LBox.Ppp
