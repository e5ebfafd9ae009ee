import S5LBox.Ppp.Readings

/-!
# What the guest asked for and was acknowledged

The peer keeps the values of the options that the guest asks for: its MRU, its map, its magic number
and the two compressions. They are meant to come from the Configure-Requests that are answered with
a Configure-Ack. The review of a request sets them option by option, whatever becomes of the request.

## Main definitions

* `Negotiated`: the values, and `Negotiated.accept`, what an option makes of them.
* `Link.acks`: the Configure-Acks among the frames that the ring took, and `Link.ackedValues`, what
  their options set.
* `Confirms`: a request is answered with a Configure-Ack, and `Acknowledges`, one of LCP.

## Main results

* `negotiated_classifyConfreq`: what the review sets.
* `acks_pppInputByte`: the Configure-Acks that an octet queues are those of confirmed requests.
* `options_acknowledged`: for a run.
-/

namespace S5LBox.Ppp

open Runs

/-! ### The values -/

/-- The values of the guest's options. -/
@[ext]
structure Negotiated where
  mru : BitVec 16
  asyncmap : Word
  magic : Word
  magicValid : Bool
  pcomp : Bool
  accomp : Bool
  deriving DecidableEq, Repr

/-- What holds before anything is negotiated. -/
def Negotiated.default : Negotiated :=
  { mru := BitVec.ofNat 16 pppMruDefault, asyncmap := 0xffffffff, magic := 0, magicValid := false
    pcomp := false, accomp := false }

/-- The values with an option that is acceptable. -/
def Negotiated.accept (n : Negotiated) (o : List Byte) : Negotiated :=
  if o.getD 0 0 = lcpOptMru then { n with mru := o.getD 2 0 ++ o.getD 3 0 }
  else if o.getD 0 0 = lcpOptAsyncmap then { n with asyncmap := getBe32 o 2 }
  else if o.getD 0 0 = lcpOptMagic then { n with magic := getBe32 o 2, magicValid := true }
  else if o.getD 0 0 = lcpOptPcomp then { n with pcomp := true }
  else if o.getD 0 0 = lcpOptAccomp then { n with accomp := true }
  else n

/-- The values that a peer keeps. -/
def Link.negotiated (p : Link) : Negotiated :=
  { mru := p.peerMru, asyncmap := p.peerAsyncmap, magic := p.peerMagic
    magicValid := p.peerMagicValid, pcomp := p.peerPcomp, accomp := p.peerAccomp }

/-! ### The review of a request -/

/-- The whole options at the front of a list. -/
def wholeOpts : Nat → List Byte → List (List Byte)
  | 0, _ => []
  | turns + 1, opts =>
    match splitOpt opts with
    | none => []
    | some (o, rest) => o :: wholeOpts turns rest

/-- The options of a request that the review comes to and accepts. -/
def acceptable (p : Link) (opts : List Byte) : List (List Byte) :=
  (wholeOpts opts.length opts).filter fun o => (lcpReview p o).1 = .ack

/-- An option sets its value exactly if it is acceptable. -/
theorem negotiated_lcpReview (p : Link) (o : List Byte) :
    (lcpReview p o).2.negotiated =
      if (lcpReview p o).1 = .ack then p.negotiated.accept o else p.negotiated := by
  have hnak (opt : List Byte) (n m : Negotiated) :
      m = if OptVerdict.nak opt = .ack then n else m := (if_neg nofun).symm
  have hrej (n m : Negotiated) : m = if OptVerdict.rej = .ack then n else m := (if_neg nofun).symm
  have hack (n m : Negotiated) : n = if OptVerdict.ack = .ack then n else m := (if_pos rfl).symm
  unfold lcpReview Negotiated.accept
  dsimp only
  by_cases hmru : o.getD 0 0 = lcpOptMru
  · rw [if_pos hmru, if_pos hmru]
    split
    · exact hrej _ _
    split
    · exact hnak _ _ _
    · exact hack _ _
  rw [if_neg hmru, if_neg hmru]
  by_cases hmap : o.getD 0 0 = lcpOptAsyncmap
  · rw [if_pos hmap, if_pos hmap]
    split
    · exact hrej _ _
    · exact hack _ _
  rw [if_neg hmap, if_neg hmap]
  split
  · exact hrej _ _
  split
  · exact hrej _ _
  by_cases hmagic : o.getD 0 0 = lcpOptMagic
  · rw [if_pos hmagic, if_pos hmagic]
    split
    · exact hrej _ _
    split
    · exact hnak _ _ _
    · exact hack _ _
  rw [if_neg hmagic, if_neg hmagic]
  by_cases hpcomp : o.getD 0 0 = lcpOptPcomp
  · rw [if_pos hpcomp, if_pos hpcomp]
    split
    · exact hrej _ _
    · exact hack _ _
  rw [if_neg hpcomp, if_neg hpcomp]
  by_cases haccomp : o.getD 0 0 = lcpOptAccomp
  · rw [if_pos haccomp, if_pos haccomp]
    split
    · exact hrej _ _
    · exact hack _ _
  rw [if_neg haccomp]
  exact hrej _ _

theorem lcpReview_congr {p q : Link} (h : q.ourMagic = p.ourMagic) (o : List Byte) :
    (lcpReview q o).1 = (lcpReview p o).1 := by
  simp only [lcpReview, apply_ite Prod.fst, h]

theorem acceptable_congr {p q : Link} (h : q.ourMagic = p.ourMagic) (opts : List Byte) :
    acceptable q opts = acceptable p opts := by
  rw [acceptable, acceptable]
  congr 1
  funext o
  rw [lcpReview_congr h]

theorem ourMagic_lcpReview (p : Link) (o : List Byte) : (lcpReview p o).2.ourMagic = p.ourMagic := by
  simp only [lcpReview, apply_ite Prod.snd, apply_ite Link.ourMagic, ite_self]

/-- The walk over the options sets the values of those that are acceptable. -/
theorem negotiated_reviewOpts (turns : Nat) (p : Link) (opts rej nak : List Byte) :
    (reviewOpts .lcp turns p opts rej nak).2.negotiated =
      ((wholeOpts turns opts).filter fun o => (lcpReview p o).1 = .ack).foldl Negotiated.accept
        p.negotiated := by
  induction turns generalizing p opts rej nak with
  | zero => cases opts <;> rfl
  | succ turns ih =>
    cases opts with
    | nil => rfl
    | cons b bs =>
      rw [reviewOpts, wholeOpts]
      · cases hsplit : splitOpt (b :: bs) with
        | none => rfl
        | some r =>
          obtain ⟨o, rest⟩ := r
          dsimp only
          have hone := negotiated_lcpReview p o
          have hmagic := ourMagic_lcpReview p o
          have hverdict (q : Link) (hq : q.ourMagic = p.ourMagic) :
              (fun o => decide ((lcpReview q o).1 = OptVerdict.ack)) =
                fun o => decide ((lcpReview p o).1 = OptVerdict.ack) := by
            funext o
            rw [lcpReview_congr hq]
          rcases hreview : lcpReview p o with ⟨v, q⟩
          rw [hreview] at hone hmagic
          have hgo (rej nak : List Byte) : (reviewOpts .lcp turns q rest rej nak).2.negotiated =
              ((wholeOpts turns rest).filter fun o => (lcpReview p o).1 = .ack).foldl
                Negotiated.accept q.negotiated := by
            rw [ih, hverdict q hmagic]
          rw [List.filter_cons, review, hreview]
          cases v with
          | ack =>
            rw [hgo, hone]
            rfl
          | nak one =>
            rw [hgo, hone]
            rfl
          | rej =>
            rw [hgo, hone]
            rfl
      · simp

/-- The review sets the values of the acceptable options, whatever its verdict on the request. -/
theorem negotiated_classifyConfreq (p : Link) (opts : List Byte) :
    (classifyConfreq p .lcp opts).2.2.negotiated =
      (acceptable p opts).foldl Negotiated.accept p.negotiated := by
  have hwalk := negotiated_reviewOpts opts.length p opts [] []
  rw [acceptable, ← hwalk, classifyConfreq]
  split
  · rename_i heq
    rw [heq]
  · rename_i heq
    rw [heq]
    split_ifs <;> rfl

theorem ne_nil_of_splitOpt {opts o rest : List Byte} (h : splitOpt opts = some (o, rest)) :
    o ≠ [] ∧ o.length ≤ 255 ∧ o ++ rest = opts := by
  unfold splitOpt at h
  split at h
  case h_2 => cases h
  case h_1 b olen tail =>
    split at h
    case isTrue => cases h
    case isFalse hwhole =>
      rw [not_or, not_lt] at hwhole
      obtain ⟨rfl, rfl⟩ := Prod.mk.inj (Option.some.inj h)
      have hpos : 2 ≤ olen.toNat := BitVec.le_def.mp (BitVec.not_lt.mp hwhole.1)
      have hmax := olen.isLt
      refine ⟨List.ne_nil_of_length_pos ?_, ?_, List.take_append_drop _ _⟩
      · rw [List.length_take_of_le hwhole.2]
        omega
      · rw [List.length_take_of_le hwhole.2]
        omega

theorem ipcpReview_congr {p q : Link} (h : q.cfg = p.cfg) (o : List Byte) :
    (ipcpReview q o).1 = (ipcpReview p o).1 := by
  simp only [ipcpReview, apply_ite Prod.fst, h]

theorem cfg_ipcpReview (p : Link) (o : List Byte) : (ipcpReview p o).2.cfg = p.cfg := by
  simp only [ipcpReview, apply_ite Prod.snd, apply_ite Link.cfg, ite_self]

theorem review_review (p : Link) (l : Layer) (o o' : List Byte) :
    (review (review p l o).2 l o').1 = (review p l o').1 := by
  cases l with
  | lcp => exact lcpReview_congr (ourMagic_lcpReview p o) o'
  | ipcp => exact ipcpReview_congr (cfg_ipcpReview p o) o'

/-- An option comes back from a Nak with its own length. -/
theorem length_naked {p q : Link} {l : Layer} {o one : List Byte}
    (h : review p l o = (.nak one, q)) : one.length = o.length := by
  let fits (r : OptVerdict × Link) : Prop := ∀ one, r.1 = .nak one → one.length = o.length
  have hrej (q : Link) : fits (.rej, q) := nofun
  have hack (q : Link) : fits (.ack, q) := nofun
  have hnak (opt : List Byte) (q : Link) (n : Nat) (hlen : ¬o.length ≠ n) (hopt : opt.length = n) :
      fits (.nak opt, q) := by
    rintro one ⟨⟩
    rw [hopt, not_not.mp hlen]
  suffices hall : fits (review p l o) from hall one (by rw [h])
  cases l with
  | ipcp =>
    rw [review, ipcpReview]
    refine iteInduction (motive := fits) (fun _ => ?_) fun _ => ?_
    · refine iteInduction (motive := fits) (fun _ => hrej p) fun hlen => ?_
      exact iteInduction (motive := fits) (fun _ => hack _) fun _ => hnak _ p 6 hlen rfl
    refine iteInduction (motive := fits) (fun _ => hrej p) fun _ => ?_
    refine iteInduction (motive := fits) (fun _ => hrej p) fun _ => ?_
    refine iteInduction (motive := fits) (fun _ => ?_) fun _ => hrej p
    refine iteInduction (motive := fits) (fun _ => hrej p) fun hlen => ?_
    exact iteInduction (motive := fits) (fun _ => hack _) fun _ => hnak _ _ 6 hlen rfl
  | lcp =>
    rw [review, lcpReview]
    refine iteInduction (motive := fits) (fun _ => ?_) fun _ => ?_
    · refine iteInduction (motive := fits) (fun _ => hrej p) fun hlen => ?_
      exact iteInduction (motive := fits) (fun _ => hnak _ p 4 hlen rfl) fun _ => hack _
    refine iteInduction (motive := fits) (fun _ => ?_) fun _ => ?_
    · exact iteInduction (motive := fits) (fun _ => hrej p) fun _ => hack _
    refine iteInduction (motive := fits) (fun _ => hrej p) fun _ => ?_
    refine iteInduction (motive := fits) (fun _ => hrej p) fun _ => ?_
    refine iteInduction (motive := fits) (fun _ => ?_) fun _ => ?_
    · refine iteInduction (motive := fits) (fun _ => hrej p) fun hlen => ?_
      exact iteInduction (motive := fits) (fun _ => hnak _ p 6 hlen rfl) fun _ => hack _
    refine iteInduction (motive := fits) (fun _ => ?_) fun _ => ?_
    · exact iteInduction (motive := fits) (fun _ => hrej p) fun _ => hack _
    refine iteInduction (motive := fits) (fun _ => ?_) fun _ => hrej p
    exact iteInduction (motive := fits) (fun _ => hrej p) fun _ => hack _

/-- A walk that comes to nothing to refuse has accepted all the options. -/
theorem wholeOpts_of_reviewOpts {l : Layer} {turns : Nat} {p q : Link} {opts rej nak : List Byte}
    (h : reviewOpts l turns p opts rej nak = (some ([], []), q)) :
    rej = [] ∧ nak = [] ∧ (∀ o ∈ wholeOpts turns opts, (review p l o).1 = .ack) ∧
      (wholeOpts turns opts).flatten = opts := by
  induction turns generalizing p opts rej nak with
  | zero =>
    cases opts with
    | nil =>
      obtain ⟨hlists, -⟩ := Prod.mk.inj h
      obtain ⟨rfl, rfl⟩ := Prod.mk.inj (Option.some.inj hlists)
      exact ⟨rfl, rfl, nofun, rfl⟩
    | cons b bs => cases h
  | succ turns ih =>
    cases opts with
    | nil =>
      obtain ⟨hlists, -⟩ := Prod.mk.inj h
      obtain ⟨rfl, rfl⟩ := Prod.mk.inj (Option.some.inj hlists)
      exact ⟨rfl, rfl, nofun, rfl⟩
    | cons b bs =>
      rw [reviewOpts.eq_def] at h
      dsimp only at h
      rw [wholeOpts]
      cases hsplit : splitOpt (b :: bs) with
      | none =>
        rw [hsplit] at h
        cases h
      | some r =>
        obtain ⟨o, rest⟩ := r
        obtain ⟨hne, hlen, hwhole⟩ := ne_nil_of_splitOpt hsplit
        rw [hsplit] at h
        dsimp only at h ⊢
        have hsame := review_review p l o
        rcases hreview : review p l o with ⟨v, q'⟩
        rw [hreview] at h hsame
        cases v with
        | ack =>
          obtain ⟨hrej, hnak, hall, hflat⟩ := ih h
          refine ⟨hrej, hnak, ?_, ?_⟩
          · rintro o' (_ | ⟨_, hmem⟩)
            · rw [hreview]
            · rw [← hsame]
              exact hall o' hmem
          · rw [List.flatten_cons, hflat, hwhole]
        | nak one =>
          have hsize := length_naked hreview
          have hone : one ≠ [] := List.ne_nil_of_length_pos
            (hsize ▸ List.length_pos_of_ne_nil hne)
          have hroom : one.length ≤ pppMruDefault := hsize ▸ hlen.trans (by decide)
          have hnak := (ih h).2.1
          split at hnak
          case isTrue => exact absurd hnak (List.append_ne_nil_of_right_ne_nil _ hone)
          case isFalse hfull =>
            rw [hnak, List.length_nil, Nat.zero_add] at hfull
            exact absurd hroom hfull
        | rej =>
          have hrej := (ih h).1
          split at hrej
          case isTrue => exact absurd hrej (List.append_ne_nil_of_right_ne_nil _ hne)
          case isFalse hfull =>
            have hroom : o.length ≤ pppMruDefault := hlen.trans (by decide)
            rw [hrej, List.length_nil, Nat.zero_add] at hfull
            exact absurd hroom hfull

/-- Of a request that is found good, every option is accepted, and there is nothing else in it. -/
theorem wholeOpts_of_ack {l : Layer} {p : Link} {opts : List Byte}
    (h : (classifyConfreq p l opts).1 = .ack) :
    (∀ o ∈ wholeOpts opts.length opts, (review p l o).1 = .ack) ∧
      (wholeOpts opts.length opts).flatten = opts := by
  have hwalk : ∃ q, reviewOpts l opts.length p opts [] [] = (some ([], []), q) := by
    rw [classifyConfreq] at h
    split at h
    case h_1 => cases h
    case h_2 rej nak q heq =>
      rw [heq]
      split_ifs at h with hrej hnak
      rw [not_not.mp hrej, not_not.mp hnak]
      exact ⟨q, rfl⟩
  obtain ⟨q, hwalk⟩ := hwalk
  exact (wholeOpts_of_reviewOpts hwalk).2.2

theorem acceptable_of_ack {p : Link} {opts : List Byte}
    (h : (classifyConfreq p .lcp opts).1 = .ack) :
    acceptable p opts = wholeOpts opts.length opts :=
  List.filter_eq_self.mpr fun o ho => decide_eq_true ((wholeOpts_of_ack h).1 o ho)

/-! ### What leaves the values alone -/

theorem aside_negotiated : Aside Link.negotiated where
  modFsm p l g := by cases l <;> rfl
  ring _ _ _ _ _ _ := rfl
  frame _ _ _ := rfl
  frames _ _ := rfl
  assign _ _ _ := rfl
  host _ _ _ _ _ := rfl

/-- A request of IPCP sets none of the values. -/
theorem negotiated_classifyConfreq_ipcp (p : Link) (opts : List Byte) :
    (classifyConfreq p .ipcp opts).2.2.negotiated = p.negotiated := by
  refine reading_classifyConfreq (fun p o => ?_) p opts
  unfold review ipcpReview
  dsimp only
  split_ifs <;> rfl

theorem negotiated_applyNak (p : Link) (l : Layer) (opts : List Byte) :
    (applyNak p l opts).negotiated = p.negotiated := by
  refine reading_applyOpts (fun p o => ?_) _ _ _
  unfold nakOpt
  cases l <;> dsimp only <;> split <;> rfl

/-! ### Requests and their answers -/

/-- A control packet is small enough and finds room in the ring. -/
def Queues (p : Link) (l : Layer) (code id : Byte) (data : List Byte) : Prop :=
  CpFits data ∧
    (txFrame p l.proto (cpOctets code id data)).stats.framesOut = p.stats.framesOut + 1

instance (p : Link) (l : Layer) (code id : Byte) (data : List Byte) :
    Decidable (Queues p l code id data) :=
  inferInstanceAs (Decidable (_ ∧ _))

/-- A Configure-Request of LCP comes to a peer that negotiates. -/
def Negotiates (p : Link) : Prop := p.lcp.state ≠ .initial ∧ p.lcp.state ≠ .closed

instance (p : Link) : Decidable (Negotiates p) := inferInstanceAs (Decidable (_ ∧ _))

/-- A Configure-Request comes to a layer that negotiates, every option is accepted, and the
Configure-Ack finds room in the ring. -/
def Confirms (p : Link) (l : Layer) (id : Byte) (opts : List Byte) : Prop :=
  ((fsmFor p l).state ≠ .initial ∧ (fsmFor p l).state ≠ .closed) ∧
    (classifyConfreq p l opts).1 = .ack ∧
    Queues (rcrRequest (classifyConfreq p l opts).2.2 l (fsmFor p l).state) l pppConfAck id opts

instance (p : Link) (l : Layer) (id : Byte) (opts : List Byte) : Decidable (Confirms p l id opts) :=
  inferInstanceAs (Decidable (_ ∧ _ ∧ _))

/-- A Configure-Request of LCP is answered with a Configure-Ack. -/
def Acknowledges (p : Link) (id : Byte) (opts : List Byte) : Prop := Confirms p .lcp id opts

instance (p : Link) (id : Byte) (opts : List Byte) : Decidable (Acknowledges p id opts) :=
  inferInstanceAs (Decidable (Confirms ..))

/-- The identifier and the options of a Configure-Request. -/
def confreqOf (pkt : List Byte) : Option (Byte × List Byte) :=
  match cpHeader pkt with
  | some h => if h.code = pppConfReq then some (h.id, h.data) else none
  | none => none

/-- The link when an octet has completed a frame and the frame has been counted. -/
def atDispatch (p : Peer) : Link :=
  count (count p.toLink fun s => { s with rxBytes := s.rxBytes + 1 })
    fun s => { s with framesIn := s.framesIn + 1 }

/-- The Configure-Request of LCP that an octet completes. -/
def requestAt (p : Peer) (b : Byte) : Option (Byte × List Byte) :=
  match completes p b with
  | some (proto, info) => if proto = pppProtoLcp then confreqOf info else none
  | none => none

/-- The values behind the review of a Configure-Request of LCP, if there is one. -/
def afterRequest (p : Link) (r : Option (Byte × List Byte)) : Negotiated :=
  match r with
  | some (_, opts) =>
    if Negotiates p then (acceptable p opts).foldl Negotiated.accept p.negotiated else p.negotiated
  | none => p.negotiated

/-- A control packet that is no Configure-Request of LCP sets nothing, and a request what its review
accepts. -/
theorem negotiated_cpInput (p : Link) (l : Layer) (pkt : List Byte) :
    (cpInput p l pkt).negotiated =
      if l = .lcp then afterRequest p (confreqOf pkt) else p.negotiated := by
  have hnegotiates : ((fsmFor p .lcp).state = .initial ∨ (fsmFor p .lcp).state = .closed) ↔
      ¬Negotiates p := by
    rw [Negotiates, not_and_or, not_not, not_not]
    rfl
  rw [aside_negotiated.cpInput, confreqOf]
  cases cpHeader pkt with
  | none => exact (ite_self _).symm
  | some h =>
    dsimp only
    by_cases hreq : h.code = pppConfReq
    · rw [if_pos hreq, if_pos hreq]
      cases l with
      | lcp =>
        rw [negotiated_classifyConfreq, if_pos rfl, afterRequest]
        by_cases hneg : Negotiates p
        · rw [if_pos hneg, if_neg (fun hno => hnegotiates.mp hno hneg)]
        · rw [if_neg hneg, if_pos (hnegotiates.mpr hneg)]
      | ipcp => rw [negotiated_classifyConfreq_ipcp, ite_self, if_neg ipcp_ne_lcp]
    · have hnone : (if l = .lcp then afterRequest p none else p.negotiated) = p.negotiated :=
        ite_self _
      rw [if_neg hreq, if_neg hreq, hnone, negotiated_applyNak, ite_self]

/-- A frame that an octet completes is dispatched. -/
theorem toLink_pppInputByte {p : Peer} {b : Byte} {proto : BitVec 16} {info : List Byte}
    (h : completes p b = some (proto, info)) :
    (pppInputByte p b).toLink = dispatch (atDispatch p) proto info := by
  unfold completes at h
  split at h
  case isFalse => cases h
  case isTrue hends =>
    obtain ⟨rfl, hesc, hin, hlong⟩ := hends
    split at h
    case h_2 => cases h
    case h_1 heq =>
      obtain ⟨rfl, rfl⟩ := Prod.mk.inj (Option.some.inj h)
      simp [pppInputByte, endFrame, hesc, hin, hlong, frameInput, heq, atDispatch]

/-- An octet sets what the request that it completes sets. -/
theorem negotiated_pppInputByte (p : Peer) (b : Byte) :
    (pppInputByte p b).negotiated = afterRequest p.toLink (requestAt p b) := by
  rw [requestAt]
  cases hc : completes p b with
  | none => exact aside_negotiated.unframed hc
  | some frame =>
    obtain ⟨proto, info⟩ := frame
    dsimp only
    rw [toLink_pppInputByte hc, aside_negotiated.dispatch, negotiated_cpInput, negotiated_cpInput,
      if_pos rfl, if_neg ipcp_ne_lcp, ite_self]
    by_cases hproto : proto = pppProtoLcp
    · rw [if_pos hproto, if_pos hproto]
      cases confreqOf info with
      | none => rfl
      | some r =>
        have hmagic : (atDispatch p).ourMagic = p.toLink.ourMagic := rfl
        rw [afterRequest, afterRequest, acceptable_congr hmagic]
        rfl
    · rw [if_neg hproto, if_neg hproto]
      rfl

/-! ### The Configure-Acks in the ring -/

/-- The Configure-Acks among the frames that the ring took. -/
def Link.acks (p : Link) : List (BitVec 16 × List Byte) := p.frames.filter fun f => IsConfAck f

theorem apart_acks : Apart Link.acks where
  modFsm p l g := by cases l <;> rfl
  ring _ _ _ _ _ _ := rfl
  frame p f hf := by simp [Link.acks, hf]
  assign _ _ _ := rfl
  host _ _ _ _ _ := rfl

/-- A Configure-Ack is queued exactly if there is room for it. -/
theorem acks_sendCp (p : Link) (l : Layer) (id : Byte) (opts : List Byte) :
    (sendCp p l pppConfAck id opts).acks = p.acks ++
      if Queues p l pppConfAck id opts then [(l.proto, cpOctets pppConfAck id opts)] else [] := by
  have hack : IsConfAck (l.proto, cpOctets pppConfAck id opts) := by
    refine ⟨?_, rfl⟩
    cases l
    · exact .inl rfl
    · exact .inr rfl
  by_cases hfits : CpFits opts
  · have hframes : (sendCp p l pppConfAck id opts).frames =
        (txFrame p l.proto (cpOctets pppConfAck id opts)).frames := by
      rw [sendCp, if_neg (Nat.not_lt.2 hfits)]
    rw [Link.acks, hframes, frames_txFrame, List.filter_append]
    by_cases hroom : (txFrame p l.proto (cpOctets pppConfAck id opts)).stats.framesOut =
        p.stats.framesOut + 1
    · have hqueues : Queues p l pppConfAck id opts := ⟨hfits, hroom⟩
      rw [if_pos hroom, if_pos hqueues, List.filter_singleton, decide_eq_true hack]
      rfl
    · rw [if_neg hroom, if_neg fun hqueues => hroom hqueues.2]
      rfl
  · rw [sendCp, if_pos (Nat.lt_of_not_le hfits), if_neg fun hqueues => hfits hqueues.1,
      List.append_nil]
    rfl

theorem acks_classifyConfreq (p : Link) (l : Layer) (opts : List Byte) :
    (classifyConfreq p l opts).2.2.acks = p.acks := by
  refine reading_classifyConfreq (fun p o => ?_) p opts
  cases l
  · simp only [review, lcpReview, apply_ite Prod.snd, apply_ite Link.acks]
    simp only [Link.acks, ite_self]
  · simp only [review, ipcpReview, apply_ite Prod.snd, apply_ite Link.acks]
    simp only [Link.acks, ite_self]

theorem acks_applyNak (p : Link) (l : Layer) (opts : List Byte) :
    (applyNak p l opts).acks = p.acks := by
  refine reading_applyOpts (fun p o => ?_) _ _ _
  unfold nakOpt
  cases l <;> dsimp only <;> split <;> rfl

/-- A Configure-Request queues its Configure-Ack exactly if it is confirmed, and no other. -/
theorem acks_evRcr (p : Link) (l : Layer) (id : Byte) (opts : List Byte) :
    (evRcr p l id opts).acks = p.acks ++
      if Confirms p l id opts then [(l.proto, cpOctets pppConfAck id opts)] else [] := by
  rw [apart_acks.evRcr]
  by_cases hidle : (fsmFor p l).state = .initial ∨ (fsmFor p l).state = .closed
  · rw [if_pos hidle, if_neg fun h => hidle.elim h.1.1 h.1.2, List.append_nil]
  rw [if_neg hidle]
  have hneg := not_or.mp hidle
  by_cases hgood : (classifyConfreq p l opts).1 = .ack
  · rw [if_pos hgood, acks_sendCp, apart_acks.rcrRequest, acks_classifyConfreq]
    congr 1
    exact if_congr ⟨fun h => ⟨hneg, hgood, h⟩, fun h => h.2.2⟩ rfl rfl
  · rw [if_neg hgood, if_neg fun h => hgood h.2.1, List.append_nil, acks_classifyConfreq]

/-- The Configure-Ack that answers a control packet. -/
def ackTo (p : Link) (l : Layer) (pkt : List Byte) : List (BitVec 16 × List Byte) :=
  match confreqOf pkt with
  | some (id, opts) =>
    if Confirms p l id opts then [(l.proto, cpOctets pppConfAck id opts)] else []
  | none => []

theorem acks_cpInput (p : Link) (l : Layer) (pkt : List Byte) :
    (cpInput p l pkt).acks = p.acks ++ ackTo p l pkt := by
  rw [apart_acks.cpInput, ackTo, confreqOf]
  cases cpHeader pkt with
  | none => exact (List.append_nil _).symm
  | some h =>
    dsimp only
    by_cases hreq : h.code = pppConfReq
    · rw [if_pos hreq, if_pos hreq, acks_evRcr]
    · rw [if_neg hreq, if_neg hreq, acks_applyNak, ite_self]
      exact (List.append_nil _).symm

/-- The Configure-Ack that answers the frame which an octet completes. -/
def ackAt (p : Peer) (b : Byte) : List (BitVec 16 × List Byte) :=
  match completes p b with
  | some (proto, info) =>
    if proto = pppProtoLcp then ackTo (atDispatch p) .lcp info
    else if proto = pppProtoIpcp then ackTo (atDispatch p) .ipcp info
    else []
  | none => []

/-- An octet queues no Configure-Ack but the one of a confirmed request. -/
theorem acks_pppInputByte (p : Peer) (b : Byte) :
    (pppInputByte p b).acks = p.acks ++ ackAt p b := by
  rw [ackAt]
  cases hc : completes p b with
  | none => exact (apart_acks.unframed hc).trans (List.append_nil _).symm
  | some frame =>
    obtain ⟨proto, info⟩ := frame
    dsimp only
    have hstart : (atDispatch p).acks = p.toLink.acks := rfl
    rw [toLink_pppInputByte hc, apart_acks.dispatch, acks_cpInput, acks_cpInput, hstart]
    split_ifs <;> simp

/-- The values with the options that a Configure-Ack of LCP repeats, which stand behind its header
of four octets. -/
def Negotiated.acknowledge (n : Negotiated) (f : BitVec 16 × List Byte) : Negotiated :=
  if f.1 = pppProtoLcp then (wholeOpts (f.2.drop 4).length (f.2.drop 4)).foldl Negotiated.accept n
  else n

/-- The values that the queued Configure-Acks set. -/
def Link.ackedValues (p : Link) : Negotiated := p.acks.foldl Negotiated.acknowledge .default

/-- An octet sets the values of all the options of the request that it completes, if that is
acknowledged. -/
theorem ackedValues_pppInputByte (p : Peer) (b : Byte) : (pppInputByte p b).ackedValues =
    match requestAt p b with
    | some (id, opts) =>
      if Acknowledges (atDispatch p) id opts then
        (wholeOpts opts.length opts).foldl Negotiated.accept p.ackedValues
      else p.ackedValues
    | none => p.ackedValues := by
  rw [Link.ackedValues, acks_pppInputByte, List.foldl_append, ackAt, requestAt]
  cases completes p b with
  | none => rfl
  | some frame =>
    obtain ⟨proto, info⟩ := frame
    dsimp only
    by_cases hproto : proto = pppProtoLcp
    · rw [if_pos hproto, if_pos hproto, ackTo]
      cases confreqOf info with
      | none => rfl
      | some r =>
        obtain ⟨id, opts⟩ := r
        dsimp only
        by_cases hack : Acknowledges (atDispatch p) id opts
        · have hconfirms : Confirms (atDispatch p) .lcp id opts := hack
          rw [if_pos hack, if_pos hconfirms]
          rfl
        · have hconfirms : ¬Confirms (atDispatch p) .lcp id opts := hack
          rw [if_neg hack, if_neg hconfirms]
          rfl
    · rw [if_neg hproto, if_neg hproto]
      by_cases hipcp : proto = pppProtoIpcp
      · rw [if_pos hipcp, ackTo]
        cases confreqOf info with
        | none => rfl
        | some r =>
          dsimp only
          split
          · have hother : Layer.ipcp.proto ≠ pppProtoLcp := by decide
            rw [List.foldl_cons, List.foldl_nil, Negotiated.acknowledge, if_neg hother,
              Link.ackedValues]
          · rfl
      · rw [if_neg hipcp]
        rfl

/-! ### Runs -/

/-- A call that completes no Configure-Request of LCP, or one that is answered with a Configure-Ack,
or that the link does not look at, or whose acceptable options bring no new value. -/
def Settled (p : Peer) : Action → Prop
  | .input b => ∀ id opts, requestAt p b = some (id, opts) →
      ¬Negotiates p.toLink ∨ Acknowledges (atDispatch p) id opts ∨
        (acceptable p.toLink opts).foldl Negotiated.accept p.toLink.negotiated =
          p.toLink.negotiated
  | _ => True

/-- A call keeps the values those of the acknowledged requests exactly if it is settled. -/
theorem negotiated_act {p : Peer} (h : p.toLink.negotiated = p.ackedValues) (a : Action) :
    (act a p).toLink.negotiated = (act a p).ackedValues ↔ Settled p a := by
  have hother (ha : ∀ b, a ≠ .input b) (hsettled : Settled p a) :
      (act a p).toLink.negotiated = (act a p).ackedValues ↔ Settled p a := by
    have hacked : (act a p).ackedValues = p.ackedValues :=
      congrArg (List.foldl Negotiated.acknowledge .default) (apart_acks.act ha p)
    rw [hacked]
    exact iff_of_true ((aside_negotiated.act ha p).trans h) hsettled
  cases a with
  | open_ => exact hother nofun trivial
  | close => exact hother nofun trivial
  | tick nowMs => exact hother nofun trivial
  | output cap => exact hother nofun trivial
  | setIpSink installed => exact hother nofun trivial
  | sendIp pkt => exact hother nofun trivial
  | input b =>
    have hcall : (act (.input b) p).toLink = (pppInputByte p b).toLink := rfl
    rw [hcall, negotiated_pppInputByte, ackedValues_pppInputByte]
    have hsettled : Settled p (.input b) ↔ ∀ id opts, requestAt p b = some (id, opts) →
      ¬Negotiates p.toLink ∨ Acknowledges (atDispatch p) id opts ∨
        (acceptable p.toLink opts).foldl Negotiated.accept p.toLink.negotiated =
          p.toLink.negotiated := Iff.rfl
    rw [hsettled]
    unfold afterRequest
    cases hreq : requestAt p b with
    | none => exact iff_of_true h fun id opts hno => nomatch hno
    | some r =>
      obtain ⟨id, opts⟩ := r
      dsimp only
      have hone : (∀ id' opts', some (id, opts) = some (id', opts') →
          ¬Negotiates p.toLink ∨ Acknowledges (atDispatch p) id' opts' ∨
            (acceptable p.toLink opts').foldl Negotiated.accept p.toLink.negotiated =
              p.toLink.negotiated) ↔
          ¬Negotiates p.toLink ∨ Acknowledges (atDispatch p) id opts ∨
            (acceptable p.toLink opts).foldl Negotiated.accept p.toLink.negotiated =
              p.toLink.negotiated := by
        constructor
        · exact fun hall => hall id opts rfl
        · rintro hdone id' opts' heq
          obtain ⟨rfl, rfl⟩ := Prod.mk.inj (Option.some.inj heq)
          exact hdone
      rw [hone]
      by_cases hneg : Negotiates p.toLink
      case neg =>
        have hno : ¬Acknowledges (atDispatch p) id opts := fun hack => hneg hack.1
        rw [if_neg hneg, if_neg hno]
        exact iff_of_true h (.inl hneg)
      rw [if_pos hneg]
      by_cases hack : Acknowledges (atDispatch p) id opts
      · have hmagic : (atDispatch p).ourMagic = p.toLink.ourMagic := rfl
        have hall : acceptable p.toLink opts = wholeOpts opts.length opts :=
          (acceptable_congr hmagic opts).symm.trans (acceptable_of_ack hack.2.1)
        rw [if_pos hack, hall, h]
        exact iff_of_true rfl (.inr (.inl hack))
      · rw [if_neg hack, ← h]
        constructor
        · exact fun hsame => .inr (.inr hsame)
        · rintro (hno | hno | hsame)
          · exact absurd hneg hno
          · exact absurd hno hack
          · exact hsame

/-- In every run of settled calls from `pppInit` the values that the peer keeps are those that the
Configure-Acks in its ring repeat, on top of the defaults. The next call, whichever it is, keeps this
exactly if it is settled. -/
theorem options_acknowledged (cfg : Config) (p : Peer) (run : Run act Settled (pppInit cfg) p) :
    p.toLink.negotiated = p.ackedValues ∧
      ∀ a, (act a p).toLink.negotiated = (act a p).ackedValues ↔ Settled p a := by
  have h : p.toLink.negotiated = p.ackedValues :=
    run.keeps (I := fun p => p.toLink.negotiated = p.ackedValues)
      (fun p a hok hp => (negotiated_act hp a).mpr hok) rfl
  exact ⟨h, negotiated_act h⟩

instance (p : Peer) (a : Action) : Decidable (Settled p a) :=
  match a with
  | .input b =>
    decidable_of_iff (∀ r ∈ requestAt p b, ¬Negotiates p.toLink ∨
        Acknowledges (atDispatch p) r.1 r.2 ∨
        (acceptable p.toLink r.2).foldl Negotiated.accept p.toLink.negotiated =
          p.toLink.negotiated)
      ⟨fun h id opts => h (id, opts), fun h r => h r.1 r.2⟩
  | .open_ | .close | .tick _ | .output _ | .setIpSink _ | .sendIp _ => instDecidableTrue

/-- The options that ask for an MRU of 1000. -/
def smallMru : List Byte := [lcpOptMru, 4, 0x03, 0xe8]

/-- A request for an MRU of 1000 is acknowledged, and the MRU is 1000. -/
theorem options_acknowledged_mru :
    let p := follow act (pppInit pppConfigDefault)
      (.open_ :: packets [(.lcp, cpOctets pppConfReq 1 smallMru)])
    p.toLink.negotiated = p.ackedValues ∧ p.peerMru = 1000 ∧
      p.acks = [(pppProtoLcp, cpOctets pppConfAck 1 smallMru)] := by
  have hadmitted : Admitted act Settled (pppInit pppConfigDefault)
      (.open_ :: packets [(.lcp, cpOctets pppConfReq 1 smallMru)]) := by decide +kernel
  exact ⟨(options_acknowledged pppConfigDefault _ (run_of_admitted hadmitted)).1,
    by decide +kernel, by decide +kernel⟩

/-- A request for an MRU of 1000 and for authentication is rejected, and the MRU is 1000. -/
theorem options_unacknowledged :
    ¬∀ p, Run act (fun _ _ => True) (pppInit pppConfigDefault) p →
      p.toLink.negotiated = p.ackedValues := by
  intro hall
  have hsame := hall _ (run_follow (pppInit pppConfigDefault) (.open_ ::
    packets [(.lcp, cpOctets pppConfReq 1 (smallMru ++ [lcpOptAuth, 4, 0xc0, 0x23]))]))
  exact absurd hsame (by decide +kernel)

end S5LBox.Ppp
