import S5LBox.Ppp.Deframer

/-!
# Frames come in as they went out

The octets of a frame, fed to a peer in whatever state its deframer is, dispatch that frame and no
other. The opening flag puts the deframer at the start of a frame, whatever it interrupts; from
there the deframer is the receiver of the byte stuffing with a bound on what it keeps, and a frame
of at most an MRU stays within it; the closing flag finds the check sequence good and the header to
strip.

## Main results

* `pppInput_run`: octets without a flag, taken by a deframer inside a frame.
* `unframe_frameBody`: what the closing flag makes of the octets of a frame.
* `frame_round_trip`: the round trip.
-/

namespace S5LBox.Ppp

open ByteStuffing

/-! ### What the dispatch of a frame counts -/

section Reception

variable (p : Link) (l : Layer) (id : Byte)

@[simp]
theorem reception_rcrRequest (entry : PppState) :
    (rcrRequest p l entry).stats.toReception = p.stats.toReception := by
  unfold rcrRequest
  split_ifs <;> simp

@[simp]
theorem reception_rcrEnter (entry : PppState) (good : Bool) :
    (rcrEnter p l entry good).stats.toReception = p.stats.toReception := by
  unfold rcrEnter
  split
  case h_5 => split <;> simp
  all_goals simp

@[simp]
theorem reception_evRcr (opts : List Byte) :
    (evRcr p l id opts).stats.toReception = p.stats.toReception := by
  have hquiet := (quiet_classifyConfreq p l opts).reception
  unfold evRcr rcrAnswer
  dsimp only
  split
  · simp
  · split
    · rename_i heq
      rwa [heq] at hquiet
    · rename_i heq
      rw [heq] at hquiet
      split_ifs <;> simpa using hquiet

@[simp]
theorem reception_evRca : (evRca p l id).stats.toReception = p.stats.toReception := by
  unfold evRca
  split
  · rfl
  · split <;> simp

@[simp]
theorem reception_evRcn : (evRcn p l id).stats.toReception = p.stats.toReception := by
  unfold evRcn
  split
  · rfl
  · split <;> simp

@[simp]
theorem reception_evRtr : (evRtr p l id).stats.toReception = p.stats.toReception := by
  unfold evRtr
  split <;> simp

@[simp]
theorem reception_evRta : (evRta p l).stats.toReception = p.stats.toReception := by
  unfold evRta
  split <;> simp

@[simp]
theorem reception_evRxj : (evRxj p l).stats.toReception = p.stats.toReception := by
  unfold evRxj
  cases l <;> simp

@[simp]
theorem reception_sendNext (code : Byte) (data : List Byte) :
    (sendNext p l code data).stats.toReception = p.stats.toReception := by
  simp [sendNext]

@[simp]
theorem reception_cpInput (pkt : List Byte) :
    (cpInput p l pkt).stats.toReception = p.stats.toReception := by
  unfold cpInput
  split
  · rfl
  · rename_i h _
    have hnak := (quiet_applyNak p l h.data).reception
    have hrej := (quiet_applyRej p l h.data).reception
    have hecho : (echo p l h).stats.toReception = p.stats.toReception := by
      unfold echo
      split_ifs <;> simp
    split_ifs <;> simp [hnak, hrej, hecho, codeReject]

theorem reception_dispatch (proto : BitVec 16) (info : List Byte) :
    (dispatch p proto info).stats.toReception = p.stats.toReception := by
  unfold dispatch ipInput unknownProto
  dsimp only
  split_ifs <;> simp

end Reception

/-! ### Inside a frame -/

/-- Octets come in, as counted. -/
def heard (p : Link) (n : Nat) : Link := count p fun s => { s with rxBytes := s.rxBytes + n }

theorem heard_heard (p : Link) (m n : Nat) : heard (heard p m) n = heard p (m + n) := by
  simp [heard, count, Nat.add_assoc]

theorem pppInput_append (p : Peer) (as bs : List Byte) :
    pppInput p (as ++ bs) = pppInput (pppInput p as) bs := List.foldl_append

theorem pppInputByte_flag (p : Peer) :
    pppInputByte p pppFlag =
      { toLink := endFrame { p with toLink := heard p.toLink 1 }, inFrame := true } := by
  simp [pppInputByte, heard]

/-- An octet other than the flag, while there is room, is taken as the stuffing has it. -/
theorem pppInputByte_take (p : Peer) (b : Byte) (hb : b ≠ pppFlag) (hin : p.inFrame)
    (hroom : (take stuffing (p.escaped, p.rxbuf) b).2.length ≤ pppMaxFrame) :
    pppInputByte p b =
      { p with
        toLink := heard p.toLink 1
        escaped := (take stuffing (p.escaped, p.rxbuf) b).1
        rxbuf := (take stuffing (p.escaped, p.rxbuf) b).2 } := by
  unfold pppInputByte
  by_cases hesc : b = pppEscape
  · simp [hesc, hin, take, stuffing, heard, show pppEscape ≠ pppFlag by decide]
  · have hlen : ¬ p.rxbuf.length ≥ pppMaxFrame := by
      simp [take, stuffing, hesc] at hroom
      omega
    simp [hb, hin, hesc, take, stuffing, heard, hlen]

/-- A run of octets without a flag, while there is room for what it stands for. -/
theorem pppInput_run (p : Peer) (bs : List Byte) (hb : pppFlag ∉ bs) (hin : p.inFrame)
    (hroom : (bs.foldl (take stuffing) (p.escaped, p.rxbuf)).2.length ≤ pppMaxFrame) :
    pppInput p bs =
      { p with
        toLink := heard p.toLink bs.length
        escaped := (bs.foldl (take stuffing) (p.escaped, p.rxbuf)).1
        rxbuf := (bs.foldl (take stuffing) (p.escaped, p.rxbuf)).2 } := by
  induction bs generalizing p with
  | nil => rfl
  | cons b bs ih =>
    have hne : b ≠ pppFlag := fun h => hb (h ▸ List.mem_cons_self)
    have hone := (length_le_foldl_take stuffing (take stuffing (p.escaped, p.rxbuf) b) bs).trans
      hroom
    have hfirst := pppInputByte_take p b hne hin hone
    have hrest := ih (pppInputByte p b) (fun h => hb (List.mem_cons_of_mem _ h))
    rw [hfirst] at hrest
    calc pppInput p (b :: bs)
        = pppInput (pppInputByte p b) bs := rfl
      _ = _ := by
          rw [hfirst, hrest hin hroom]
          simp only [heard_heard, List.length_cons, Nat.add_comm 1, List.foldl_cons]

/-! ### The closing flag -/

/-- The checks on the octets of a frame find its protocol and its information. -/
theorem unframe_frameBody (proto : BitVec 16) (info : List Byte)
    (hproto : proto.getLsbD 8 = false) :
    unframe (frameBody proto info) = .good proto info := by
  have hkept : (frameBody proto info).take (info.length + 4) = frameHeader proto ++ info := by
    rw [frameBody, List.take_append_of_le_length (by simp [frameHeader])]
    exact List.take_of_length_le (by simp [frameHeader])
  have hsplit : proto.extractLsb' 8 8 ++ proto.extractLsb' 0 8 = proto := by
    ext i hi
    simp only [BitVec.getElem_append, BitVec.getElem_extractLsb']
    split_ifs <;> grind
  have heven : proto[8] = false := by simpa using hproto
  have hlen : ¬ info.length + 6 < 4 := by omega
  have hlen' : ¬ info.length + 1 + 1 < 2 := by omega
  unfold unframe
  rw [pppFcs16_frameBody, length_frameBody]
  simp [hkept, frameHeader, hsplit, heven, hlen, hlen']

/-- The octets produced by `ppp_frame`, fed to a peer whose deframer is in any state, in the middle
of a frame or of an escape as well, dispatch the frame once, after whatever the opening flag does,
with its protocol and its octets. The flag is counted by itself, every octet after it is counted,
one frame is counted as received, and no error. A frame is always produced where its payload is no
longer than the default MRU and there is room for it with every octet escaped. -/
theorem frame_round_trip (p : Peer) (proto : BitVec 16) (info : List Byte) (accm : Word)
    (cap : Nat) (hproto : proto.getLsbD 8 = false) :
    (info.length ≤ pppMruDefault → 2 * pppMaxFrame + 2 ≤ cap →
      (pppFrame proto info accm cap).isSome) ∧
    ∀ octets, pppFrame proto info accm cap = some octets →
      let q := pppInputByte p pppFlag
      let arrived := { q.stats.toReception with
        rxBytes := q.stats.rxBytes + (octets.length - 1)
        framesIn := q.stats.framesIn + 1 }
      pppInput p octets =
        { toLink := dispatch (count q.toLink fun _ => arrived) proto info, inFrame := true } ∧
      (pppInput p octets).stats.toReception = arrived := by
  refine ⟨fun hmru hcap => ?_, fun octets h => ?_⟩
  · have hlen := length_frameOctets_le proto info accm
    have hfit : (frameOctets proto info accm).length ≤ cap := by
      simp only [pppMaxFrame] at hcap
      omega
    rw [pppFrame_eq, if_pos ⟨hmru, hfit⟩]
    rfl
  rw [pppFrame_eq, Option.ite_none_right_eq_some] at h
  obtain ⟨⟨hmru, -⟩, ⟨⟩⟩ := h
  let body := stuff stuffing (needsEscape accm) (frameBody proto info)
  let q := pppInputByte p pppFlag
  have hq : q = { toLink := q.toLink, inFrame := true } := pppInputByte_flag p
  have htaken : body.foldl (take stuffing) (false, []) = (false, frameBody proto info) :=
    foldl_take_stuff (clean_needsEscape accm) [] _
  have hbody : pppInput q body =
      { toLink := heard q.toLink body.length, rxbuf := frameBody proto info, inFrame := true } := by
    have hrun := pppInput_run { toLink := q.toLink, inFrame := true } body
      (flag_notMem_stuff (clean_needsEscape accm) _) rfl (by
        rw [htaken, length_frameBody, pppMaxFrame]
        omega)
    rw [htaken, ← hq] at hrun
    exact hrun
  have hne : frameBody proto info ≠ [] := List.ne_nil_of_length_pos (by simp)
  have hend : pppInput p (frameOctets proto info accm) =
      { toLink := dispatch (count q.toLink fun _ => { q.stats.toReception with
          rxBytes := q.stats.rxBytes + ((frameOctets proto info accm).length - 1)
          framesIn := q.stats.framesIn + 1 }) proto info, inFrame := true } := by
    calc pppInput p (frameOctets proto info accm)
        = pppInputByte (pppInput q body) pppFlag := by
          rw [frameOctets, List.cons_append, ← List.singleton_append, pppInput_append,
            pppInput_append]
          rfl
      _ = _ := by
          rw [hbody, pppInputByte_flag]
          simp [endFrame, hne, frameInput, unframe_frameBody proto info hproto, heard, count,
            frameOctets, body, Nat.add_assoc]
  refine ⟨hend, ?_⟩
  rw [hend, reception_dispatch]
  rfl

/-- A datagram of one octet that is a flag, fed to a peer that has seen no flag yet. -/
theorem frame_round_trip_flag :
    (pppFrame pppProtoIp [pppFlag] 0 (2 * pppMaxFrame + 2)).isSome ∧
    (pppInput (pppInit pppConfigDefault)
        [0x7e, 0xff, 0x03, 0x00, 0x21, 0x7d, 0x5e, 0xf2, 0xbf, 0x7e]).stats.toReception =
      { rxBytes := 10, framesIn := 1 } := by
  have htrip := frame_round_trip (pppInit pppConfigDefault) pppProtoIp [pppFlag] 0
    (2 * pppMaxFrame + 2) (by decide)
  refine ⟨htrip.1 (by decide) (by decide), ?_⟩
  rw [(htrip.2 _ (by decide +kernel)).2]
  rfl

end S5LBox.Ppp
