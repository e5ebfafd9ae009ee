import S5LBox.Ppp.PeerOptions
import S5LBox.Ppp.RoundTrip
import S5LBox.Ppp.TransmitRing

/-!
# Replies and the size of a frame

A control packet goes out in a frame of its own, and `send_cp` drops one that is longer than a frame
may be. Each answer has a bound of its own against that length. Those of a Code-Reject and of the
packets without options keep it; the others stop short of the header that is put before them.

## Main definitions

* `Offers`: what a call hands to `send_cp`, and what becomes of it.
* `Fitting`: the condition on a frame that came in.

## Main results

* `length_answered`: the options of the answer to a Configure-Request.
* `offers_frameInput`: a frame loses one packet at most, and none exactly if it is fitting.
* `control_replies_fit`
-/

namespace S5LBox.Ppp

open Runs

/-! ### What a call sends -/

/-- The ring has room for `n` more frames, however they are escaped. -/
def HasRoom (n : Nat) (p : Link) : Prop := txUsed p + n * (2 * pppMaxFrame + 2) ≤ pppTxRing

/-- Of at most `k` control packets handed to `send_cp`, `lost` were dropped for their size. Each of
the others was handed to the ring, which queued it or had no room, and queues them all if it has
room for `k`. -/
structure Offers (lost k : Nat) (p q : Link) : Prop where
  handed : q.stats.txOverflows + q.stats.framesOut + p.sent.length =
    p.stats.txOverflows + p.stats.framesOut + q.sent.length + lost
  queued : ∀ n, HasRoom (n + k) p →
    HasRoom n q ∧ q.stats.txOverflows = p.stats.txOverflows + lost

/-- What `Offers` looks at. -/
def Link.queue (p : Link) : Word × Word × Nat × Nat × List Packet :=
  (p.txHead, p.txTail, p.stats.txOverflows, p.stats.framesOut, p.sent)

namespace Offers

variable {p q r : Link} {lost lost' k k' : Nat}

theorem of_queue (h : q.queue = p.queue) : Offers 0 0 p q := by
  obtain ⟨hhead, htail, hlost, hout, hsent⟩ : q.txHead = p.txHead ∧ q.txTail = p.txTail ∧
      q.stats.txOverflows = p.stats.txOverflows ∧ q.stats.framesOut = p.stats.framesOut ∧
      q.sent = p.sent := by simpa [Link.queue] using h
  refine ⟨by rw [hlost, hout, hsent, Nat.add_zero], fun n hroom => ⟨?_, hlost⟩⟩
  rwa [HasRoom, txUsed, hhead, htail]

theorem refl (p : Link) : Offers 0 0 p p := of_queue rfl

theorem trans (h : Offers lost k p q) (h' : Offers lost' k' q r) :
    Offers (lost + lost') (k + k') p r where
  handed := by
    have hfirst := h.handed
    have hthen := h'.handed
    omega
  queued n hroom := by
    have hfirst := h.queued (n + k') (by rwa [Nat.add_assoc, Nat.add_comm k' k])
    have hthen := h'.queued n hfirst.1
    exact ⟨hthen.1, by rw [hthen.2, hfirst.2, Nat.add_assoc]⟩

theorem mono (h : Offers lost k p q) (hle : k ≤ k') : Offers lost k' p q where
  handed := h.handed
  queued n hroom := by
    refine h.queued n (le_trans ?_ hroom)
    exact Nat.add_le_add_left (Nat.mul_le_mul_right _ (Nat.add_le_add_left hle n)) _

theorem quiet (h : Offers lost k p q) (h' : r.queue = q.queue) : Offers lost k p r :=
  h.trans (of_queue h')

theorem after (h : q.queue = p.queue) (h' : Offers lost k q r) : Offers lost k p r := by
  have hboth := (of_queue h).trans h'
  rwa [Nat.zero_add, Nat.zero_add] at hboth

end Offers

/-- The ring has room for a frame, or has none. -/
theorem offers_txFrame (p : Link) (proto : BitVec 16) {info : List Byte}
    (h : info.length ≤ pppMruDefault) :
    let q := txFrame p proto info
    q.stats.txOverflows + q.stats.framesOut = p.stats.txOverflows + p.stats.framesOut + 1 ∧
      q.sent = p.sent ∧
      ∀ n, HasRoom (n + 1) p → HasRoom n q ∧ q.stats.txOverflows = p.stats.txOverflows := by
  have hlen : (frameOctets proto info p.txAccm).length ≤ 2 * pppMaxFrame + 2 := by
    have hle := length_frameOctets_le proto info p.txAccm
    rw [pppMaxFrame]
    omega
  have henc : pppFrame proto info p.txAccm (2 * pppMaxFrame + 2) =
      some (frameOctets proto info p.txAccm) := by
    rw [pppFrame_eq, if_pos ⟨h, hlen⟩]
  dsimp only
  by_cases hfree : (frameOctets proto info p.txAccm).length ≤ txFree p
  · rw [txFrame_queued henc hfree]
    refine ⟨(Nat.add_assoc ..).symm, rfl, fun n hroom => ⟨?_, rfl⟩⟩
    rw [HasRoom, Nat.succ_mul] at hroom
    rw [HasRoom, txUsed_enqueue (by omega)]
    omega
  · have hrefused : txFrame p proto info =
        { p with stats := { p.stats with txOverflows := p.stats.txOverflows + 1 } } := by
      refine txFrame_refused fun enc hsome => ?_
      obtain rfl := Option.some.inj (henc.symm.trans hsome)
      exact Nat.lt_of_not_le hfree
    rw [hrefused]
    refine ⟨Nat.add_right_comm .., rfl, fun n hroom => absurd ?_ hfree⟩
    rw [HasRoom, Nat.succ_mul] at hroom
    rw [txFree_of_le (by omega)]
    omega

section Steps

variable (p : Link) (l : Layer) (id : Byte)

/-- `send_cp` loses a packet exactly if it is too long. -/
theorem offers_sendCp (code : Byte) (data : List Byte) :
    Offers (if CpFits data then 0 else 1) 1 p (sendCp p l code id data) := by
  by_cases hfits : CpFits data
  · have hlen : (cpOctets code id data).length ≤ pppMruDefault := by
      rw [cpOctets, List.length_append, Nat.add_comm]
      exact hfits
    obtain ⟨hcount, hsent, hroom⟩ := offers_txFrame p l.proto hlen
    rw [if_pos hfits, sendCp, if_neg (Nat.not_lt.mpr hfits)]
    refine ⟨?_, hroom⟩
    let q := txFrame p l.proto (cpOctets code id data)
    change q.stats.txOverflows + q.stats.framesOut + p.sent.length =
      p.stats.txOverflows + p.stats.framesOut + (q.sent ++ [(⟨l, code, id, data⟩ : Packet)]).length + 0
    rw [hcount, hsent, List.length_append, List.length_singleton, Nat.add_right_comm,
      Nat.add_assoc _ p.sent.length]
    rfl
  · rw [if_neg hfits, sendCp, if_pos (Nat.lt_of_not_le hfits)]
    refine ⟨?_, fun n hroom => ⟨?_, rfl⟩⟩
    · change p.stats.txOverflows + 1 + p.stats.framesOut + p.sent.length =
        p.stats.txOverflows + p.stats.framesOut + p.sent.length + 1
      omega
    rw [HasRoom] at hroom
    have hless : n * (2 * pppMaxFrame + 2) ≤ (n + 1) * (2 * pppMaxFrame + 2) :=
      Nat.mul_le_mul_right _ (Nat.le_succ n)
    exact (Nat.add_le_add_left hless _).trans hroom

theorem offers_fitting {code : Byte} {data : List Byte} (h : CpFits data) :
    Offers 0 1 p (sendCp p l code id data) := by
  have hsend := offers_sendCp p l id code data
  rwa [if_pos h] at hsend

theorem queue_modFsm (g : Fsm → Fsm) : (modFsm p l g).queue = p.queue := by
  cases l <;> rfl

theorem queue_tld : (tld p l).queue = p.queue := by
  cases l <;> rfl

/-- A request of our own is short. -/
theorem offers_scr (fresh : Bool) : Offers 0 1 p (scr p l fresh) := by
  have hshort : CpFits (buildConfreq p l) := by
    unfold CpFits buildConfreq putBe32
    cases l <;> dsimp only <;> split_ifs <;> simp [pppMruDefault]
  unfold scr
  cases fresh with
  | false =>
    exact ((offers_fitting p l _ hshort).quiet (queue_modFsm ..)).quiet (queue_modFsm ..)
  | true =>
    refine .quiet ?_ (queue_modFsm ..)
    refine .quiet ?_ (queue_modFsm ..)
    exact .after (queue_modFsm p l _) (offers_fitting (freshId p l) l _ hshort)

theorem offers_sta : Offers 0 1 p (sta p l id) := offers_fitting p l id (by decide)

theorem offers_tlu : Offers 0 1 p (tlu p l) := by
  cases l with
  | lcp =>
    refine .after ?_ (offers_scr _ .ipcp true)
    exact (queue_modFsm ..).trans ((queue_modFsm ..).trans (queue_modFsm ..))
  | ipcp => exact (Offers.of_queue (p := p) (q := tlu p .ipcp) rfl).mono (Nat.zero_le 1)

theorem offers_sendNext (code : Byte) (data : List Byte) :
    Offers (if CpFits data then 0 else 1) 1 p (sendNext p l code data) :=
  .after (queue_modFsm p l _) (offers_sendCp _ l _ code data)

theorem offers_rcrRequest (entry : PppState) :
    Offers 0 (if entry = .stopped ∨ entry = .opened then 1 else 0) p (rcrRequest p l entry) := by
  unfold rcrRequest
  by_cases hstop : entry = .stopped
  · rw [if_pos hstop, if_pos (.inl hstop)]
    exact .after (queue_modFsm ..) (offers_scr _ l true)
  rw [if_neg hstop]
  by_cases hopen : entry = .opened
  · rw [if_pos hopen, if_pos (.inr hopen)]
    exact .after ((queue_modFsm ..).trans (queue_tld ..)) (offers_scr _ l true)
  · rw [if_neg hopen, if_neg (not_or.mpr ⟨hstop, hopen⟩)]
    exact .refl p

theorem offers_rcrEnter (entry : PppState) (good : Bool) :
    Offers 0 (if entry = .ackRcvd then 1 else 0) p (rcrEnter p l entry good) := by
  have hstate (x : PppState) : Offers 0 0 p (setState p l x) := .of_queue (queue_modFsm ..)
  unfold rcrEnter
  cases entry with
  | ackRcvd =>
    cases good with
    | true =>
      exact .after ((queue_modFsm ..).trans (queue_modFsm ..)) (offers_tlu _ l)
    | false => exact (Offers.refl p).mono (Nat.zero_le 1)
  | stopped => exact hstate _
  | opened => exact hstate _
  | reqSent => exact hstate _
  | ackSent => exact hstate _
  | initial => exact .refl p
  | starting => exact .refl p
  | closed => exact .refl p
  | closing => exact .refl p
  | stopping => exact .refl p

/-- An answer to a request takes at most one packet more, before it or behind it. -/
theorem offers_rcrAnswer (entry : PppState) (r : CrResult) (resp : List Byte) :
    Offers (if CpFits resp then 0 else 1) 2 p (rcrAnswer p l entry id r resp) := by
  let before := if entry = .stopped ∨ entry = .opened then 1 else 0
  have hanswer := (offers_rcrRequest p l entry).trans
    (offers_sendCp (rcrRequest p l entry) l id r.code resp)
  rw [Nat.zero_add] at hanswer
  generalize (if CpFits resp then 0 else 1) = lost at hanswer ⊢
  have hbefore : before + 1 ≤ 2 := by
    unfold before
    split_ifs <;> decide
  have henter (q : Link) (good : Bool)
      (h : Offers lost (before + 1) p q) : Offers lost 2 p (rcrEnter q l entry good) := by
    refine (h.trans (offers_rcrEnter q l entry good)).mono ?_
    unfold before
    cases entry <;> decide
  unfold rcrAnswer
  dsimp only
  split_ifs
  · exact henter _ _ hanswer
  · exact ((hanswer.quiet (queue_modFsm ..)).quiet (queue_modFsm ..)).mono hbefore
  · exact henter _ _ (hanswer.quiet (queue_modFsm ..))

theorem queue_classifyConfreq (opts : List Byte) :
    (classifyConfreq p l opts).2.2.queue = p.queue := by
  refine reading_classifyConfreq (fun p o => ?_) p opts
  cases l with
  | lcp => simp only [review, lcpReview, apply_ite Prod.snd, apply_ite Link.queue]; split_ifs <;> rfl
  | ipcp => simp only [review, ipcpReview, apply_ite Prod.snd, apply_ite Link.queue]; split_ifs <;> rfl

theorem offers_evRca : Offers 0 2 p (evRca p l id) := by
  unfold evRca
  split_ifs
  · exact (Offers.refl p).mono (Nat.zero_le 2)
  · refine .mono (k := 1) ?_ (by decide)
    split
    · exact offers_sta p l id
    · exact offers_sta p l id
    · exact (Offers.of_queue ((queue_modFsm ..).trans (queue_modFsm ..))).mono (Nat.zero_le 1)
    · exact (offers_scr p l true).quiet (queue_modFsm ..)
    · exact .after ((queue_modFsm ..).trans ((queue_modFsm ..).trans (queue_modFsm ..)))
        (offers_tlu _ l)
    · exact (Offers.after (queue_tld ..) (offers_scr _ l true)).quiet (queue_modFsm ..)
    · exact (Offers.refl p).mono (Nat.zero_le 1)

theorem offers_evRcn : Offers 0 2 p (evRcn p l id) := by
  unfold evRcn
  split_ifs
  · exact (Offers.refl p).mono (Nat.zero_le 2)
  · refine .mono (k := 1) ?_ (by decide)
    split
    · exact offers_sta p l id
    · exact offers_sta p l id
    · exact .after (queue_modFsm ..) (offers_scr _ l true)
    · exact .after (queue_modFsm ..) (offers_scr _ l true)
    · exact (offers_scr p l true).quiet (queue_modFsm ..)
    · exact (Offers.after (queue_tld ..) (offers_scr _ l true)).quiet (queue_modFsm ..)
    · exact (Offers.refl p).mono (Nat.zero_le 1)

theorem offers_evRtr : Offers 0 2 p (evRtr p l id) := by
  refine .mono (k := 1) ?_ (by decide)
  unfold evRtr
  split
  · exact ((Offers.after ((queue_modFsm ..).trans (queue_tld ..)) (offers_sta _ l id)).quiet
      (queue_modFsm ..)).quiet (queue_modFsm ..)
  · exact (offers_sta p l id).quiet (queue_modFsm ..)
  · exact (offers_sta p l id).quiet (queue_modFsm ..)
  · exact (offers_sta p l id).quiet (queue_modFsm ..)
  · exact offers_sta p l id

theorem offers_evRta : Offers 0 2 p (evRta p l) := by
  refine .mono (k := 1) ?_ (by decide)
  unfold evRta
  split
  · exact (Offers.of_queue ((queue_modFsm ..).trans (queue_modFsm ..))).mono (Nat.zero_le 1)
  · exact (Offers.of_queue ((queue_modFsm ..).trans (queue_modFsm ..))).mono (Nat.zero_le 1)
  · exact (Offers.of_queue (queue_modFsm ..)).mono (Nat.zero_le 1)
  · exact (Offers.after (queue_tld ..) (offers_scr _ l true)).quiet (queue_modFsm ..)
  · exact (Offers.refl p).mono (Nat.zero_le 1)

theorem offers_evRxj : Offers 0 2 p (evRxj p l) := by
  refine .mono (k := 0) (.of_queue ?_) (Nat.zero_le 2)
  unfold evRxj
  dsimp only
  split_ifs
  · exact (queue_tld ..).trans ((queue_modFsm ..).trans (queue_modFsm ..))
  · exact (queue_modFsm ..).trans (queue_modFsm ..)

end Steps

/-! ### The options of an answer -/

/-- The verdict is a reject. -/
def OptVerdict.isRej : OptVerdict → Bool
  | .rej => true
  | _ => false

/-- The verdict is a Nak. -/
def OptVerdict.isNak : OptVerdict → Bool
  | .nak _ => true
  | _ => false

/-- The octets of the options with a verdict. -/
def octetsWith (p : Link) (l : Layer) (v : OptVerdict → Bool) (os : List (List Byte)) : Nat :=
  (os.filter fun o => v (review p l o).1).flatten.length

/-- The options fill their packet. -/
def Tiles (opts : List Byte) : Prop := (wholeOpts opts.length opts).flatten = opts

/-- The octets of the options that the answer to a Configure-Request is about: the rejected ones if
there are any, the naked ones if there are any of those, and else all of them. -/
def answerLength (p : Link) (l : Layer) (opts : List Byte) : Nat :=
  let rejected := octetsWith p l OptVerdict.isRej (wholeOpts opts.length opts)
  let naked := octetsWith p l OptVerdict.isNak (wholeOpts opts.length opts)
  if rejected ≠ 0 then rejected else if naked ≠ 0 then naked else opts.length

theorem octetsWith_cons (p : Link) (l : Layer) (v : OptVerdict → Bool) (o : List Byte)
    (os : List (List Byte)) : octetsWith p l v (o :: os) =
      (if v (review p l o).1 then o.length else 0) + octetsWith p l v os := by
  rw [octetsWith, List.filter_cons]
  split
  · rw [List.flatten_cons, List.length_append]
    rfl
  · rw [Nat.zero_add]
    rfl

theorem octetsWith_review (p : Link) (l : Layer) (v : OptVerdict → Bool) (o : List Byte)
    (os : List (List Byte)) :
    octetsWith (review p l o).2 l v os = octetsWith p l v os := by
  simp only [octetsWith, review_review]

/-- The walk over options that fill what they are in gathers the rejected ones and as many octets of
naked ones, and every other walk comes to nothing. -/
theorem reviewOpts_lengths (l : Layer) (turns : Nat) (p : Link) (opts rej nak : List Byte)
    (hturns : opts.length ≤ turns) (hrej : rej.length + opts.length ≤ pppMruDefault)
    (hnak : nak.length + opts.length ≤ pppMruDefault) :
    match (reviewOpts l turns p opts rej nak).1 with
    | some (rej', nak') =>
      (wholeOpts turns opts).flatten = opts ∧
      rej'.length = rej.length + octetsWith p l OptVerdict.isRej (wholeOpts turns opts) ∧
      nak'.length = nak.length + octetsWith p l OptVerdict.isNak (wholeOpts turns opts)
    | none => (wholeOpts turns opts).flatten ≠ opts := by
  induction turns generalizing p opts rej nak with
  | zero =>
    obtain rfl := List.eq_nil_of_length_eq_zero (Nat.le_zero.mp hturns)
    exact ⟨rfl, rfl, rfl⟩
  | succ turns ih =>
    cases opts with
    | nil => exact ⟨rfl, rfl, rfl⟩
    | cons b bs =>
      rw [reviewOpts.eq_def, wholeOpts]
      dsimp only
      cases hsplit : splitOpt (b :: bs) with
      | none => exact (List.cons_ne_nil b bs).symm
      | some r =>
        obtain ⟨o, rest⟩ := r
        obtain ⟨hne, -, hwhole⟩ := ne_nil_of_splitOpt hsplit
        have hlen : o.length + rest.length = (b :: bs).length := by
          rw [← hwhole, List.length_append]
        have hpos := List.length_pos_of_ne_nil hne
        dsimp only
        have hcount (v : OptVerdict → Bool) := octetsWith_review p l v o (wholeOpts turns rest)
        rw [octetsWith_cons, octetsWith_cons, List.flatten_cons, ← hwhole, ne_eq,
          List.append_cancel_left_eq]
        rcases hreview : review p l o with ⟨v, q⟩
        rw [hreview] at hcount
        dsimp only at hcount ⊢
        cases v with
        | ack =>
          have hrest := ih q rest rej nak (by omega) (by omega) (by omega)
          rw [hcount, hcount] at hrest
          simpa [OptVerdict.isRej, OptVerdict.isNak] using hrest
        | nak one =>
          have hone := length_naked hreview
          have hfits : nak.length + one.length ≤ pppMruDefault := by omega
          dsimp only
          rw [if_pos hfits]
          have hrest := ih q rest rej (nak ++ one) (by omega) (by omega)
            (by rw [List.length_append]; omega)
          rw [hcount, hcount, List.length_append, hone] at hrest
          simpa [OptVerdict.isRej, OptVerdict.isNak, Nat.add_assoc] using hrest
        | rej =>
          have hfits : rej.length + o.length ≤ pppMruDefault := by omega
          dsimp only
          rw [if_pos hfits]
          have hrest := ih q rest (rej ++ o) nak (by omega)
            (by rw [List.length_append]; omega) (by omega)
          rw [hcount, hcount, List.length_append] at hrest
          simpa [OptVerdict.isRej, OptVerdict.isNak, Nat.add_assoc] using hrest

/-- The answer to a request whose options fill it is as long as the options that it is about, and
there is no answer to another. -/
theorem length_answered {p : Link} {l : Layer} {opts : List Byte}
    (h : opts.length ≤ pppMruDefault) :
    ((classifyConfreq p l opts).1 = .invalid → ¬Tiles opts) ∧
    ((classifyConfreq p l opts).1 ≠ .invalid →
      Tiles opts ∧ (classifyConfreq p l opts).2.1.length = answerLength p l opts) := by
  have hwalk := reviewOpts_lengths l opts.length p opts [] [] (Nat.le_refl _) (by simpa using h)
    (by simpa using h)
  rw [classifyConfreq, answerLength]
  rcases hreview : reviewOpts l opts.length p opts [] [] with ⟨lists, q⟩
  rw [hreview] at hwalk
  cases lists with
  | none => exact ⟨fun _ => hwalk, fun hno => absurd rfl hno⟩
  | some lists =>
    obtain ⟨rej, nak⟩ := lists
    obtain ⟨htiles, hrej, hnak⟩ := hwalk
    rw [List.length_nil, Nat.zero_add] at hrej hnak
    dsimp only
    rw [← hrej, ← hnak]
    have hne (os : List Byte) : os.length ≠ 0 ↔ os ≠ [] := List.length_eq_zero_iff.not
    by_cases hsome : rej ≠ []
    · rw [if_pos hsome, if_pos ((hne rej).mpr hsome)]
      exact ⟨by rintro ⟨⟩, fun _ => ⟨htiles, rfl⟩⟩
    rw [if_neg hsome, if_neg fun hno => hsome ((hne rej).mp hno)]
    by_cases hnaked : nak ≠ []
    · rw [if_pos hnaked, if_pos ((hne nak).mpr hnaked)]
      exact ⟨by rintro ⟨⟩, fun _ => ⟨htiles, rfl⟩⟩
    · rw [if_neg hnaked, if_neg fun hno => hnaked ((hne nak).mp hno)]
      exact ⟨by rintro ⟨⟩, fun _ => ⟨htiles, rfl⟩⟩

/-! ### Frames -/

/-- A control packet whose answer is short enough: the options that the answer to a Configure-Request
is about, or the data of an Echo-Request, leave room for the header. -/
def CpFitting (p : Link) (l : Layer) (pkt : List Byte) : Prop :=
  match cpHeader pkt with
  | none => True
  | some h =>
    if h.code = pppConfReq then
      (fsmFor p l).state ≠ .initial ∧ (fsmFor p l).state ≠ .closed → Tiles h.data →
        answerLength p l h.data + 4 ≤ pppMruDefault
    else if h.code = pppEchoReq then
      l = .lcp → (fsmFor p l).state = .opened → h.data.length + 4 ≤ pppMruDefault
    else True

/-- A frame whose answer is short enough: a control packet as above, and a frame of a protocol that
is not spoken leaves room for the header and the number of its protocol, if LCP is up. -/
def Fitting (p : Link) (f : List Byte) : Prop :=
  match unframe f with
  | .good proto info =>
    if proto = pppProtoLcp then CpFitting p .lcp info
    else if proto = pppProtoIpcp then CpFitting p .ipcp info
    else if proto = pppProtoIp then True
    else p.lcp.state = .opened → info.length + 6 ≤ pppMruDefault
  | _ => True

/-- Two packets at most are sent, and one is lost exactly if the condition fails. -/
def OffersIf (c : Prop) (p q : Link) : Prop := (c → Offers 0 2 p q) ∧ (¬c → Offers 1 2 p q)

theorem OffersIf.of_sends {p q : Link} {k : Nat} (h : Offers 0 k p q) (hk : k ≤ 2) :
    OffersIf True p q :=
  ⟨fun _ => h.mono hk, fun hno => absurd trivial hno⟩

theorem OffersIf.congr {p q : Link} {c c' : Prop} (h : OffersIf c p q) (hc : c ↔ c') :
    OffersIf c' p q :=
  ⟨fun hyes => h.1 (hc.mpr hyes), fun hno => h.2 fun hyes => hno (hc.mp hyes)⟩

theorem OffersIf.of_ite {p q : Link} {k : Nat} {data : List Byte}
    (h : Offers (if CpFits data then 0 else 1) k p q) (hk : k ≤ 2) : OffersIf (CpFits data) p q :=
  ⟨fun hyes => (if_pos (c := CpFits data) hyes ▸ h).mono hk,
    fun hno => (if_neg (c := CpFits data) hno ▸ h).mono hk⟩

theorem OffersIf.after {p q r : Link} {c : Prop} (h : q.queue = p.queue) (h' : OffersIf c q r) :
    OffersIf c p r :=
  ⟨fun hyes => .after h (h'.1 hyes), fun hno => .after h (h'.2 hno)⟩

section Packets

variable (p : Link) (l : Layer)

theorem offers_evRcr (id : Byte) {opts : List Byte} (h : opts.length ≤ pppMruDefault) :
    OffersIf ((fsmFor p l).state ≠ .initial ∧ (fsmFor p l).state ≠ .closed → Tiles opts →
      answerLength p l opts + 4 ≤ pppMruDefault) p (evRcr p l id opts) := by
  have hanswer := length_answered (p := p) (l := l) h
  have hqueue := queue_classifyConfreq p l opts
  have htrivial {c : Prop} (hc : c) (hle : Offers 0 1 p (evRcr p l id opts)) :
      OffersIf c p (evRcr p l id opts) :=
    (OffersIf.of_sends hle (by decide)).congr (iff_of_true trivial hc)
  by_cases hdown : (fsmFor p l).state = .initial ∨ (fsmFor p l).state = .closed
  · refine htrivial (fun hup => absurd hdown (not_or.mpr hup)) ?_
    rw [evRcr, if_pos hdown]
    exact offers_sta p l id
  have hup := not_or.mp hdown
  rcases hclass : classifyConfreq p l opts with ⟨r, resp, q⟩
  rw [hclass] at hanswer hqueue
  dsimp only at hanswer hqueue
  by_cases hinvalid : r = .invalid
  · refine htrivial (fun _ htiles => absurd htiles (hanswer.1 hinvalid)) ?_
    rw [evRcr, if_neg hdown, hclass, hinvalid]
    exact (Offers.of_queue hqueue).mono (Nat.zero_le 1)
  · obtain ⟨htiles, hlen⟩ := hanswer.2 hinvalid
    have hrun : evRcr p l id opts = rcrAnswer q l (fsmFor p l).state id r resp := by
      rw [evRcr, if_neg hdown, hclass]
      cases r <;> first | rfl | exact absurd rfl hinvalid
    rw [hrun]
    refine (OffersIf.after hqueue (.of_ite (offers_rcrAnswer q l id _ r resp) le_rfl)).congr ?_
    rw [CpFits, hlen]
    exact ⟨fun hle _ _ => hle, fun hle => hle hup htiles⟩

theorem offers_echo (h : CpHeader) : OffersIf (l = .lcp → (fsmFor p l).state = .opened →
    h.data.length + 4 ≤ pppMruDefault) p (echo p l h) := by
  have hnone {c : Prop} (hc : c) : OffersIf c p p :=
    (OffersIf.of_sends (.refl p) (by decide)).congr (iff_of_true trivial hc)
  unfold echo
  by_cases hdown : l ≠ .lcp ∨ (fsmFor p l).state ≠ .opened
  · rw [if_pos hdown]
    exact hnone fun hl hup => absurd hdown (not_or.mpr ⟨not_not.mpr hl, not_not.mpr hup⟩)
  rw [if_neg hdown]
  have hup := not_or.mp hdown
  by_cases hshort : h.data.length < 4
  · rw [if_pos hshort]
    refine hnone fun _ _ => ?_
    rw [pppMruDefault]
    omega
  · rw [if_neg hshort]
    dsimp only
    have hsend := OffersIf.of_ite (offers_sendCp p l h.id pppEchoReply
      (putBe32 p.ourMagic ++ (h.data.take pppMruDefault).drop 4)) (by decide)
    have hquiet : OffersIf (CpFits (putBe32 p.ourMagic ++ (h.data.take pppMruDefault).drop 4)) p
        { sendCp p l pppEchoReply h.id
            (putBe32 p.ourMagic ++ (h.data.take pppMruDefault).drop 4) with
          stats.echoReplies := (sendCp p l pppEchoReply h.id
            (putBe32 p.ourMagic ++ (h.data.take pppMruDefault).drop 4)).stats.echoReplies + 1 } :=
      ⟨fun hyes => (hsend.1 hyes).quiet rfl, fun hno => (hsend.2 hno).quiet rfl⟩
    refine hquiet.congr ?_
    have hlen : (putBe32 p.ourMagic ++ (h.data.take pppMruDefault).drop 4).length =
        4 + (min pppMruDefault h.data.length - 4) := by
      rw [List.length_append, List.length_drop, List.length_take, putBe32]
      rfl
    rw [CpFits, hlen, pppMruDefault]
    constructor
    · intro hle _ _
      omega
    · intro hle
      have hfits := hle (not_not.mp hup.1) (not_not.mp hup.2)
      omega

theorem length_cpHeader {pkt : List Byte} {h : CpHeader} (hhead : cpHeader pkt = some h) :
    h.data.length + 4 ≤ pkt.length := by
  unfold cpHeader at hhead
  dsimp only at hhead
  split at hhead
  case isTrue => cases hhead
  case isFalse hvalid =>
    obtain rfl := Option.some.inj hhead
    rw [List.length_drop, List.length_take]
    omega

/-- A Code-Reject is cut to what fits. -/
theorem offers_codeReject (pkt : List Byte) (h : CpHeader) : Offers 0 1 p (codeReject p l pkt h) := by
  have hfits : CpFits (pkt.take (min (h.data.length + 4) (pppMruDefault - 4))) := by
    rw [CpFits, List.length_take, pppMruDefault]
    omega
  let counted : Link := { p with stats.unknownCodes := p.stats.unknownCodes + 1 }
  have hsend := offers_sendNext counted l pppCodeRej
    (pkt.take (min (h.data.length + 4) (pppMruDefault - 4)))
  rw [if_pos hfits] at hsend
  exact .after (q := counted) rfl hsend

theorem queue_applyOpts {f : Link → List Byte → Link} (hf : ∀ p o, (f p o).queue = p.queue)
    (opts : List Byte) : (applyOpts f opts.length p opts).queue = p.queue :=
  reading_applyOpts hf _ p opts

theorem queue_applyNak (opts : List Byte) : (applyNak p l opts).queue = p.queue := by
  refine queue_applyOpts p (fun p o => ?_) opts
  unfold nakOpt
  cases l <;> dsimp only <;> split <;> rfl

theorem queue_applyRej (opts : List Byte) : (applyRej p l opts).queue = p.queue := by
  refine queue_applyOpts p (fun p o => ?_) opts
  unfold rejOpt
  cases l with
  | lcp =>
    dsimp only
    split_ifs
    · exact queue_modFsm ..
    · exact queue_modFsm ..
    · rfl
  | ipcp =>
    dsimp only
    split_ifs
    · exact queue_modFsm ..
    · rfl

/-- A control packet sends two packets at most, and loses one exactly if it is not fitting. -/
theorem offers_cpInput {pkt : List Byte} (hlen : pkt.length ≤ pppMruDefault + 4) :
    OffersIf (CpFitting p l pkt) p (cpInput p l pkt) := by
  rw [CpFitting, cpInput]
  cases hhead : cpHeader pkt with
  | none => exact .of_sends (.refl p) (Nat.zero_le 2)
  | some h =>
    have hdata : h.data.length ≤ pppMruDefault := by
      have hle := length_cpHeader hhead
      omega
    dsimp only
    by_cases hreq : h.code = pppConfReq
    · rw [if_pos hreq, if_pos hreq]
      exact offers_evRcr p l h.id hdata
    rw [if_neg hreq, if_neg hreq]
    by_cases hecho : h.code = pppEchoReq
    · rw [if_pos hecho, hecho]
      exact offers_echo p l h
    rw [if_neg hecho, if_neg hecho]
    split_ifs
    · exact .of_sends (offers_evRca p l h.id) le_rfl
    · exact .of_sends (.after (queue_applyNak p l h.data) (offers_evRcn _ l h.id)) le_rfl
    · exact .of_sends (offers_evRcn p l h.id) le_rfl
    · exact .of_sends (.after (queue_applyRej p l h.data) (offers_evRcn _ l h.id)) le_rfl
    · exact .of_sends (offers_evRcn p l h.id) le_rfl
    · exact .of_sends (offers_evRtr p l h.id) le_rfl
    · exact .of_sends (offers_evRta p l) le_rfl
    · exact .of_sends (offers_evRxj p l) le_rfl
    · exact .of_sends (.refl p) (Nat.zero_le 2)
    · exact .of_sends (offers_codeReject p l pkt h) (by decide)

/-- A Protocol-Reject is cut to where the header does not fit any more. -/
theorem offers_unknownProto (proto : BitVec 16) (info : List Byte) :
    OffersIf (p.lcp.state = .opened → info.length + 6 ≤ pppMruDefault) p
      (unknownProto p proto info) := by
  unfold unknownProto
  dsimp only
  by_cases hup : p.lcp.state = .opened
  · rw [if_pos hup]
    let counted : Link := { p with stats.unknownProtos := p.stats.unknownProtos + 1 }
    let rej := [proto.extractLsb' 8 8, proto.extractLsb' 0 8] ++ info.take (pppMruDefault - 2)
    have hsend : OffersIf (CpFits rej) counted (sendNext counted .lcp pppProtoRej rej) :=
      .of_ite (offers_sendNext counted .lcp pppProtoRej rej) (by decide)
    refine (OffersIf.after (p := p) (q := counted) rfl hsend).congr ?_
    rw [CpFits, List.length_append, List.length_take, pppMruDefault]
    constructor
    · intro hle _
      simp only [List.length_cons, List.length_nil] at hle
      omega
    · intro hle
      have hfits := hle hup
      simp only [List.length_cons, List.length_nil]
      omega
  · rw [if_neg hup]
    refine (OffersIf.of_sends (.of_queue ?_) (Nat.zero_le 2)).congr
      (iff_of_true trivial fun hno => absurd hno hup)
    rfl

end Packets

theorem length_unframe {f info : List Byte} {proto : BitVec 16}
    (h : unframe f = .good proto info) : info.length + 3 ≤ f.length := by
  have hcut (g : List Byte) (c : Prop) [Decidable c] :
      (if c then g.drop 2 else g).length ≤ g.length := by
    split
    · rw [List.length_drop]
      exact Nat.sub_le _ _
    · exact le_rfl
  unfold unframe at h
  split at h
  · cases h
  · split at h
    · cases h
    · have htake : (f.take (f.length - 2)).length = f.length - 2 := by
        rw [List.length_take]
        omega
      dsimp only at h
      have hle := hcut (f.take (f.length - 2)) (2 ≤ (f.take (f.length - 2)).length ∧
        (f.take (f.length - 2)).getD 0 0 = pppAllstations ∧
        (f.take (f.length - 2)).getD 1 0 = pppUi)
      generalize (if 2 ≤ (f.take (f.length - 2)).length ∧
        (f.take (f.length - 2)).getD 0 0 = pppAllstations ∧
        (f.take (f.length - 2)).getD 1 0 = pppUi then (f.take (f.length - 2)).drop 2
        else f.take (f.length - 2)) = g at h hle
      split_ifs at h
      all_goals
        cases h
        rw [List.length_drop]
        omega

/-- Nothing that is counted for the deframer makes an answer longer. -/
theorem cpFitting_count (p : Link) (g : Reception → Reception) (l : Layer) (pkt : List Byte) :
    CpFitting (count p g) l pkt ↔ CpFitting p l pkt := by
  have hverdict (o : List Byte) : (review (count p g) l o).1 = (review p l o).1 := by
    cases l with
    | lcp => exact lcpReview_congr (p := p) (q := count p g) rfl o
    | ipcp => exact ipcpReview_congr (p := p) (q := count p g) rfl o
  have hcount (v : OptVerdict → Bool) (os : List (List Byte)) :
      octetsWith (count p g) l v os = octetsWith p l v os := by
    simp only [octetsWith, hverdict]
  have hlength (opts : List Byte) : answerLength (count p g) l opts = answerLength p l opts := by
    unfold answerLength
    rw [hcount, hcount]
  have hfsm : fsmFor (count p g) l = fsmFor p l := by
    cases l <;> rfl
  simp only [CpFitting, hlength, hfsm]

/-- A frame sends two packets at most, and loses one exactly if it is not fitting. -/
theorem offers_frameInput (p : Link) {f : List Byte} (h : f.length ≤ pppMaxFrame) :
    OffersIf (Fitting p f) p (frameInput p f) := by
  have hcounted (g : Reception → Reception) : OffersIf True p (count p g) :=
    .of_sends (.of_queue rfl) (Nat.zero_le 2)
  rw [Fitting, frameInput]
  cases hframe : unframe f with
  | short => exact hcounted _
  | badFcs => exact hcounted _
  | good proto info =>
    have hlen : info.length ≤ pppMruDefault + 4 := by
      have hle := length_unframe hframe
      rw [pppMaxFrame] at h
      omega
    let q := count p fun s => { s with framesIn := s.framesIn + 1 }
    have hqueue : q.queue = p.queue := rfl
    dsimp only [dispatch]
    refine OffersIf.after hqueue ?_
    rw [← cpFitting_count p fun s => { s with framesIn := s.framesIn + 1 },
      ← cpFitting_count p fun s => { s with framesIn := s.framesIn + 1 }]
    split_ifs
    · exact offers_cpInput q .lcp hlen
    · exact offers_cpInput q .ipcp hlen
    · refine .of_sends (.of_queue ?_) (Nat.zero_le 2)
      unfold ipInput
      dsimp only
      split <;> rfl
    · exact offers_unknownProto q proto info

/-- Every control packet that a call handed to `send_cp` was handed on to the ring. Each of them
counts once, as an overflow if the ring had no room and else as a frame. -/
def Handed (p q : Link) : Prop :=
  q.stats.txOverflows + q.stats.framesOut + p.sent.length =
    p.stats.txOverflows + p.stats.framesOut + q.sent.length

/-- From any peer, a frame that the deframer can assemble has every answer handed to the ring exactly
if it is fitting; and where the ring has room for the two packets that a frame can bring about, every
answer is queued exactly if it is. -/
theorem control_replies_fit (p : Link) (f : List Byte) (h : f.length ≤ pppMaxFrame) :
    (Handed p (frameInput p f) ↔ Fitting p f) ∧
    (HasRoom 2 p →
      ((frameInput p f).stats.txOverflows = p.stats.txOverflows ↔ Fitting p f)) := by
  have hsends := offers_frameInput p h
  by_cases hfit : Fitting p f
  · have hnone := hsends.1 hfit
    refine ⟨iff_of_true hnone.handed hfit, fun hroom => iff_of_true ?_ hfit⟩
    exact (hnone.queued 0 hroom).2
  · have hlost := hsends.2 hfit
    refine ⟨iff_of_false (fun hno => ?_) hfit, fun hroom => iff_of_false (fun hno => ?_) hfit⟩
    · have hcount := hlost.handed
      rw [Handed] at hno
      omega
    · have hcount := (hlost.queued 0 hroom).2
      omega

/-- A peer with LCP up. -/
def upLink : Link :=
  (follow act (pppInit pppConfigDefault) (.open_ ::
    packets [(.lcp, cpOctets pppConfAck 1 []), (.lcp, cpOctets pppConfReq 1 [])])).toLink

/-- An Echo-Request is answered. -/
theorem control_replies_fit_echo :
    Handed upLink (frameInput upLink (frameBody pppProtoLcp (cpOctets pppEchoReq 1 [0, 0, 0, 0]))) ↔
      Fitting upLink (frameBody pppProtoLcp (cpOctets pppEchoReq 1 [0, 0, 0, 0])) :=
  (control_replies_fit upLink _ (by rw [length_frameBody]; decide)).1

/-- A frame of 1501 octets of a protocol that is not spoken: its Protocol-Reject is too long. -/
theorem control_replies_lost :
    ¬∀ (p : Link) (f : List Byte), f.length ≤ pppMaxFrame → HasRoom 2 p →
      (frameInput p f).stats.txOverflows = p.stats.txOverflows := by
  let f := frameBody 0x0023 (List.replicate 1495 0)
  have hup : upLink.lcp.state = .opened := by decide +kernel
  have hroom : HasRoom 2 upLink := by
    unfold HasRoom
    decide +kernel
  have hlen : f.length ≤ pppMaxFrame := by
    rw [length_frameBody, List.length_replicate]
    decide
  intro hall
  have hkept := hall upLink f hlen hroom
  have hfit : ¬Fitting upLink f := by
    have hframe : unframe f = .good 0x0023 (List.replicate 1495 0) :=
      unframe_frameBody _ _ (by decide)
    rw [Fitting, hframe]
    intro hshort
    have hle := hshort hup
    rw [List.length_replicate] at hle
    exact absurd hle (by decide)
  have hlost := (((offers_frameInput upLink hlen).2 hfit).queued 0 hroom).2
  generalize frameInput upLink f = q at hkept hlost
  omega

end S5LBox.Ppp
