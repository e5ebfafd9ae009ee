import S5LBox.Usb.Streams

/-!
# The frames of the guest

The receive buffer holds the start of a frame, and the frames before it are those that the octets of
the guest are cut into by the lengths they tell, wherever the packets of the bus end. The first frame
tells the version, which decides how long the headers of the others are; so the segments that arrive
are those of the frames.

## Main definitions

* `Framed`: what has arrived in a session is what the frames hold.

## Main results

* `framesOf_flatten`: frames that are put one behind the other are cut apart again.
* `Framed.arrived_eq`: the segments that have arrived are those in the octets of the guest.
-/

namespace S5LBox.Usb

open Net

variable {s : Session} {u : Mux} {o r f : List Byte} {fs : List (List Byte)}

/-! ### Cutting -/

/-- A frame that is whole. -/
def Whole (f : List Byte) : Prop := 8 ≤ f.length ∧ frameLength f = f.length

/-- Octets that are no whole frame yet. -/
def Started (r : List Byte) : Prop := 8 ≤ r.length → r.length < frameLength r

theorem framesOf_started (h : Started r) : framesOf r = [] := by
  rw [framesOf, dif_neg]
  rintro ⟨h8, -, hle⟩
  exact absurd (h h8) (Nat.not_lt.mpr hle)

/-- Whole frames that are put one behind the other are cut apart again. -/
theorem framesOf_flatten (hwhole : ∀ f ∈ fs, Whole f) (hr : Started r) :
    framesOf (fs.flatten ++ r) = fs := by
  induction fs with
  | nil => exact framesOf_started hr
  | cons f fs ih =>
    obtain ⟨h8, hlen⟩ := hwhole f List.mem_cons_self
    have hlength : frameLength (f ++ (fs.flatten ++ r)) = f.length :=
      (frameLength_append h8 _).trans hlen
    rw [List.flatten_cons, List.append_assoc, framesOf, hlength, dif_pos, List.take_left,
      List.drop_left, ih fun f hf => hwhole f (List.mem_cons_of_mem _ hf)]
    rw [List.length_append]
    omega

theorem segmentsOf_snoc (first : List Byte) (rest : List (List Byte)) (f : List Byte) :
    segmentsOf (first :: (rest ++ [f])) =
      segmentsOf (first :: rest) ++ (segmentIn (guestHeader first) f).toList := by
  rw [segmentsOf, segmentsOf, List.flatMap_append, List.flatMap_singleton]

/-! ### The receiver -/

/-- The first frame has not come. -/
def Mux.unanswered (u : Mux) : Prop := u.stage = .sendVersion ∨ u.stage = .waitVersion

/-- How far the receiver is with the frames of the guest. -/
structure Framed (s : Session) (fs : List (List Byte)) : Prop where
  fed : s.fed = fs.flatten ++ s.mux.receive
  whole : ∀ f ∈ fs, Whole f
  waiting : fs = [] → s.mux.unanswered ∧ headerSize s.mux = 8
  answered : ∀ first rest, fs = first :: rest →
    ¬s.mux.unanswered ∧ headerSize s.mux = guestHeader first
  arrived : s.arrived = segmentsOf fs

/-- The segments that have arrived are those in the octets of the guest. -/
theorem Framed.arrived_eq (h : Framed s fs) (haligned : Aligned s.mux) :
    s.arrived = guestSegments s.fed := by
  rw [guestSegments, h.fed, framesOf_flatten h.whole fun h8 => (haligned h8).2.2, h.arrived]

theorem framed_start : Framed .start [] where
  fed := rfl
  whole _ h := absurd h List.not_mem_nil
  waiting _ := ⟨.inl rfl, rfl⟩
  answered _ _ h := absurd h nofun
  arrived := rfl

/-- What touches neither the receive buffer nor the version keeps the frames. -/
theorem Framed.of_same {s' : Session} (h : Framed s fs) (hfed : s'.fed = s.fed)
    (harrived : s'.arrived = s.arrived) (hreceive : s'.mux.receive = s.mux.receive)
    (hversion : s'.mux.version = s.mux.version)
    (hstage : s'.mux.unanswered ↔ s.mux.unanswered) : Framed s' fs := by
  have hheader : headerSize s'.mux = headerSize s.mux := by rw [headerSize, headerSize, hversion]
  refine ⟨?_, h.whole, fun hnil => ?_, fun first rest hcons => ?_, harrived.trans h.arrived⟩
  · rw [hfed, hreceive, h.fed]
  · obtain ⟨hwaiting, hsize⟩ := h.waiting hnil
    exact ⟨hstage.mpr hwaiting, hheader.trans hsize⟩
  · obtain ⟨hanswered, hsize⟩ := h.answered first rest hcons
    exact ⟨fun hno => hanswered (hstage.mp hno), hheader.trans hsize⟩

/-! ### One octet -/

/-- The frame that an octet ends is the next one of the guest. -/
theorem frames_snoc (h : Framed s fs) {b : Byte} (hdone : Whole (s.mux.receive ++ [b])) :
    s.fed ++ [b] = (fs ++ [s.mux.receive ++ [b]]).flatten ∧
      ∀ f ∈ fs ++ [s.mux.receive ++ [b]], Whole f := by
  constructor
  · rw [h.fed, List.flatten_append, List.flatten_singleton, List.append_assoc]
  · intro f hf
    obtain hf | hf := List.mem_append.mp hf
    · exact h.whole f hf
    · rw [List.mem_singleton.mp hf]
      exact hdone

/-- The first frame is the answer to the version, or the session has failed. -/
theorem inputFrame_first (hwaiting : u.unanswered) (hsize : headerSize u = 8) (r : List Byte) :
    (inputFrame r u).stage = .failed ∨
      ¬(inputFrame r u).unanswered ∧ headerSize (inputFrame r u) = guestHeader r ∧
        segmentIn (headerSize u) r = none := by
  rw [inputFrame, hsize]
  dsimp only
  split
  · exact .inl rfl
  rw [if_neg (by decide), inputPayload]
  split
  case isTrue =>
    split
    · exact .inl rfl
    case isFalse hanswer =>
      rw [not_or, not_not] at hanswer
      refine .inr ⟨?_, ?_, ?_⟩
      · rw [Mux.unanswered]
        dsimp only
        split <;> simp
      · rfl
      · rw [segmentIn, if_neg]
        rintro ⟨hsix, -⟩
        exact absurd (hanswer.1.symm.trans hsix) (by decide)
  case isFalse hstage =>
    have hactive : u.stage ≠ .active := by
      obtain h | h := hwaiting
      · rw [h]
        decide
      · exact absurd h hstage
    rw [if_pos hactive]
    exact .inl rfl

theorem inputSegment_kept (g : Segment) (u : Mux) :
    (inputSegment g u).stage = u.stage ∧ (inputSegment g u).version = u.version := by
  rw [inputSegment]
  split <;> exact ⟨rfl, rfl⟩

/-- The frames behind it leave the version alone, or the session has failed. -/
theorem inputFrame_later (hanswered : ¬u.unanswered) (r : List Byte) :
    (inputFrame r u).stage = .failed ∨
      (inputFrame r u).stage = u.stage ∧ (inputFrame r u).version = u.version := by
  rw [inputFrame]
  dsimp only
  split
  · exact .inl rfl
  generalize hu : (if headerSize u = 16 then ({ u with rxSequence := be16 (r.drop 14) } : Mux)
    else u) = u₁
  have hkept : u₁.stage = u.stage ∧ u₁.version = u.version := by
    rw [← hu]
    split <;> exact ⟨rfl, rfl⟩
  have hstage : u₁.stage ≠ .waitVersion := fun h => hanswered (.inr (hkept.1.symm.trans h))
  rw [inputPayload, if_neg hstage]
  split
  · exact .inl rfl
  split
  · split
    · exact .inr hkept
    · exact .inl rfl
  split
  · exact .inl rfl
  · obtain ⟨hseg, hver⟩ := inputSegment_kept (segmentOf (r.drop (headerSize u))) u₁
    exact .inr ⟨hseg.trans hkept.1, hver.trans hkept.2⟩

theorem unanswered_congr {u u' : Mux} (h : u'.stage = u.stage) : u'.unanswered ↔ u.unanswered := by
  rw [Mux.unanswered, Mux.unanswered, h]

/-- A whole frame is the next one, and brings its segment. -/
theorem Framed.frame (h : Framed s fs) {b : Byte} (hdone : Whole (s.mux.receive ++ [b])) {u : Mux}
    (hu : u.stage = s.mux.stage ∧ u.version = s.mux.version)
    (hstage : (inputFrame (s.mux.receive ++ [b]) u).stage ≠ .failed) :
    Framed
      { s with
        mux := { inputFrame (s.mux.receive ++ [b]) u with receive := [] }
        fed := s.fed ++ [b]
        arrived := s.arrived ++ (segmentIn (headerSize s.mux) (s.mux.receive ++ [b])).toList }
      (fs ++ [s.mux.receive ++ [b]]) := by
  obtain ⟨hfed, hwhole⟩ := frames_snoc h hdone
  have hheader : headerSize u = headerSize s.mux := by rw [headerSize, headerSize, hu.2]
  have hnew : ∀ first rest, fs ++ [s.mux.receive ++ [b]] = first :: rest →
      ¬(inputFrame (s.mux.receive ++ [b]) u).unanswered ∧
        headerSize (inputFrame (s.mux.receive ++ [b]) u) = guestHeader first ∧
          s.arrived ++ (segmentIn (headerSize s.mux) (s.mux.receive ++ [b])).toList =
            segmentsOf (first :: rest) := by
    intro first rest hcons
    rw [h.arrived]
    cases fs with
    | nil =>
      obtain ⟨hwaiting, hsize⟩ := h.waiting rfl
      obtain ⟨rfl, rfl⟩ := List.cons.inj hcons
      obtain hno | ⟨hanswered, hheader', hnone⟩ := inputFrame_first
        ((unanswered_congr hu.1).mpr hwaiting) (hheader.trans hsize) (s.mux.receive ++ [b])
      · exact absurd hno hstage
      · rw [← hheader, hnone]
        exact ⟨hanswered, hheader', rfl⟩
    | cons first' rest' =>
      obtain ⟨hanswered, hsize⟩ := h.answered first' rest' rfl
      obtain ⟨rfl, rfl⟩ := List.cons.inj hcons
      obtain hno | ⟨hsame, hversion⟩ := inputFrame_later
        (fun hw => hanswered ((unanswered_congr hu.1).mp hw)) (s.mux.receive ++ [b])
      · exact absurd hno hstage
      · refine ⟨fun hw => hanswered ((unanswered_congr (hsame.trans hu.1)).mp hw), ?_, ?_⟩
        · rw [← hsize, headerSize, headerSize, hversion, hu.2]
        · rw [hsize]
          exact (segmentsOf_snoc ..).symm
  refine ⟨?_, hwhole, fun hnil => absurd hnil (by simp), fun first rest hcons => ?_, ?_⟩
  · rw [hfed, List.append_nil]
  · obtain ⟨hanswered, hsize, -⟩ := hnew first rest hcons
    exact ⟨hanswered, hsize⟩
  · obtain ⟨first, rest, hcons⟩ := List.exists_cons_of_ne_nil
      (show fs ++ [s.mux.receive ++ [b]] ≠ [] by simp)
    rw [hcons]
    exact (hnew first rest hcons).2.2

/-- An octet keeps the frames, unless the session has failed. -/
theorem Framed.octet (h : Framed s fs) (b : Byte)
    (hstage : (feedOctet s.mux b).stage ≠ .failed) :
    ∃ fs', Framed
      { s with
        mux := feedOctet s.mux b
        fed := s.fed ++ [b]
        arrived := s.arrived ++ arrivals b s.mux } fs' := by
  rw [feedOctet] at hstage ⊢
  rw [arrivals]
  by_cases hfailed : s.mux.stage = .failed
  · rw [if_pos hfailed] at hstage
    exact absurd hfailed hstage
  rw [if_neg hfailed, absorb] at hstage ⊢
  dsimp only at hstage ⊢
  split at hstage
  case isTrue => exact absurd rfl hstage
  case isFalse hgood =>
    rw [if_neg hgood]
    split at hstage
    case isTrue hdone =>
      rw [if_pos hdone, if_pos ⟨hfailed, hdone⟩]
      exact ⟨_, h.frame ⟨hdone.1, hdone.2.symm⟩ ⟨rfl, rfl⟩ hstage⟩
    case isFalse hdone =>
      rw [if_neg hdone, if_neg fun hd => hdone hd.2, List.append_nil]
      refine ⟨fs, ?_, h.whole, h.waiting, h.answered, h.arrived⟩
      rw [h.fed, List.append_assoc]

/-! ### The actions -/

theorem frame_kept (protocol : Word) (payload : List Byte) (u : Mux) :
    (frame protocol payload u).stage = u.stage := by
  rw [frame]
  split <;> rfl

theorem tcpFrame_stage (i : Fin usbMuxChannels) (state : ChannelState) (flags : Byte) (n : Nat)
    (u : Mux) : (tcpFrame i state flags n u).stage = u.stage := frame_kept ..

theorem serve_stage (i : Fin usbMuxChannels) (u : Mux) : (serve i u).stage = u.stage := by
  rw [serve]
  split
  · exact tcpFrame_stage ..
  · exact tcpFrame_stage ..
  · split
    · exact tcpFrame_stage ..
    · rfl
  · rfl

theorem serveFirst_stage (is : List (Fin usbMuxChannels)) (u : Mux) :
    (serveFirst is u).stage = u.stage := by
  induction is generalizing u with
  | nil => rfl
  | cons i is ih =>
    rw [serveFirst]
    split
    · exact serve_stage i u
    · exact (ih _).trans (serve_stage i u)

/-- Output moves the receiver on to wait for what it has asked for. -/
theorem usbMuxOutput_stage (u : Mux) :
    ((usbMuxOutput u).2.unanswered ↔ u.unanswered) ∧
      ((usbMuxOutput u).2.stage = .failed → u.stage = .failed) := by
  rw [usbMuxOutput]
  split
  · exact ⟨Iff.rfl, id⟩
  dsimp only
  split
  · exact ⟨Iff.rfl, id⟩
  cases hstage : u.stage with
  | sendVersion => exact ⟨iff_of_true (.inr rfl) (.inl hstage), fun h => by cases h⟩
  | sendSetup =>
    refine ⟨iff_of_false ?_ ?_, fun h => by cases h⟩
    · simp [Mux.unanswered]
    · simp [Mux.unanswered, hstage]
  | active =>
    have hsame := serveFirst_stage ((List.finRange usbMuxChannels).map fun k => u.roundRobin + k) u
    exact ⟨unanswered_congr hsame, fun h => (hstage.symm.trans (hsame.symm.trans h))⟩
  | waitVersion | waitSetup | failed => exact ⟨Iff.rfl, fun h => hstage.symm.trans h⟩

/-- Every action but the octets of the guest keeps the frames, unless it ends the session. -/
theorem Framed.action (h : Framed s fs) {a : Action} (ha : ∀ data, a ≠ .feed data)
    (hstage : (s.step a).mux.stage ≠ .failed) : Framed (s.step a) fs := by
  cases a with
  | feed data => exact absurd rfl (ha data)
  | cancel reason => exact absurd rfl hstage
  | connect port =>
    obtain heq | ⟨-, i, heq⟩ := usbMuxConnect_cases port s.mux
    · rw [Session.step, heq]
      exact h
    · rw [Session.step, heq]
      exact h.of_same rfl rfl rfl rfl Iff.rfl
  | write i data =>
    rw [Session.step, usbMuxWrite]
    split <;> exact h.of_same rfl rfl rfl rfl Iff.rfl
  | read i capacity =>
    rw [Session.step, usbMuxRead]
    split <;> exact h.of_same rfl rfl rfl rfl Iff.rfl
  | close i =>
    rw [Session.step, usbMuxClose]
    split <;> exact h.of_same rfl rfl rfl rfl Iff.rfl
  | output =>
    have hkept : (usbMuxOutput s.mux).2.receive = s.mux.receive ∧
        (usbMuxOutput s.mux).2.version = s.mux.version := by
      obtain ⟨-, hreceive, hversion, -⟩ | ⟨-, i, state, flags, n, k, -, heq⟩ :=
        usbMuxOutput_cases s.mux
      · exact ⟨hreceive, hversion⟩
      · rw [heq]
        obtain ⟨-, hreceive, hversion, -⟩ := tcpFrame_eq i state flags n s.mux
        exact ⟨hreceive, hversion⟩
    exact h.of_same rfl rfl hkept.1 hkept.2 (usbMuxOutput_stage s.mux).1
  | outputComplete =>
    refine h.of_same rfl rfl rfl rfl ?_
    rw [Session.step, usbMuxOutputComplete, Mux.unanswered, Mux.unanswered]
    dsimp only
    split
    case isTrue hsetup => simp [hsetup]
    case isFalse => rfl

/-! ### The end of a session -/

/-- A frame that ends the session cancels every channel. -/
theorem inputFrame_failed (hstage : u.stage ≠ .failed) {r : List Byte}
    (h : (inputFrame r u).stage = .failed) :
    ∃ reason, ∀ i, (inputFrame r u).channel i = cancelChannel reason (u.channel i) := by
  rw [inputFrame] at h ⊢
  dsimp only at h ⊢
  split at h
  case isTrue hshort =>
    rw [if_pos hshort]
    exact ⟨_, fun _ => rfl⟩
  case isFalse hlong =>
    rw [if_neg hlong]
    generalize hu : (if headerSize u = 16 then ({ u with rxSequence := be16 (r.drop 14) } : Mux)
      else u) = u₁ at h ⊢
    have hkept : u₁.stage = u.stage ∧ u₁.channel = u.channel := by
      rw [← hu]
      split <;> exact ⟨rfl, rfl⟩
    rw [← hkept.1] at hstage
    rw [← hkept.2]
    rw [inputPayload] at h ⊢
    split_ifs at h ⊢
    all_goals first
      | exact absurd h hstage
      | exact absurd ((inputSegment_kept _ u₁).1.symm.trans h) hstage
      | exact ⟨_, fun _ => rfl⟩

/-- So does an octet that ends it. -/
theorem feedOctet_failed {b : Byte} (hstage : u.stage ≠ .failed)
    (h : (feedOctet u b).stage = .failed) :
    ∃ reason, ∀ i, (feedOctet u b).channel i = cancelChannel reason (u.channel i) := by
  rw [feedOctet, if_neg hstage, absorb] at h ⊢
  dsimp only at h ⊢
  split_ifs at h ⊢ with hbad hdone
  · exact ⟨_, fun _ => rfl⟩
  · exact inputFrame_failed (u := { u with receive := u.receive ++ [b] }) hstage h
  · exact absurd h hstage

/-- Nothing is open once the session has ended. -/
def Over (u : Mux) : Prop := u.stage = .failed → ∀ i, (u.channel i).state ≠ .opened

theorem cancelChannel_not_opened (reason : String) (c : Channel) :
    (cancelChannel reason c).state ≠ .opened := by
  rw [cancelChannel]
  split
  case isTrue hfree =>
    intro hopen
    rw [Channel.free, hopen] at hfree
    exact absurd hfree (by decide)
  case isFalse => exact fun h => by cases h

theorem over_feedOctet (h : Over u) (b : Byte) : Over (feedOctet u b) := by
  intro hfailed i
  by_cases hstage : u.stage = .failed
  · rw [feedOctet, if_pos hstage]
    exact h hstage i
  · obtain ⟨reason, hcancel⟩ := feedOctet_failed hstage hfailed
    rw [hcancel]
    exact cancelChannel_not_opened reason _

/-- Every action but the octets of the guest keeps a session that has ended so. -/
theorem Over.action (h : Over s.mux) {a : Action} (ha : ∀ data, a ≠ .feed data) :
    Over (s.step a).mux := by
  have hset : ∀ i (c : Channel), c.state ≠ .opened ∨ c.state = (s.mux.channel i).state →
      Over (s.mux.setChannel i c) := by
    intro i c hc hfailed j
    by_cases hji : j = i
    · rw [hji, setChannel_self]
      obtain hc | hc := hc
      · exact hc
      · rw [hc]
        exact h hfailed i
    · rw [setChannel_of_ne _ _ hji]
      exact h hfailed j
  cases a with
  | feed data => exact absurd rfl (ha data)
  | cancel reason => exact fun _ i => cancelChannel_not_opened reason _
  | connect port =>
    obtain heq | ⟨-, i, heq⟩ := usbMuxConnect_cases port s.mux
    · rw [Session.step, heq]
      exact h
    · rw [Session.step, heq]
      exact hset i _ (.inl fun h => by cases h)
  | write i data =>
    rw [Session.step, usbMuxWrite]
    split
    · exact h
    · exact hset i _ (.inr rfl)
  | read i capacity =>
    rw [Session.step, usbMuxRead]
    split
    · exact h
    · exact hset i _ (.inr rfl)
  | close i =>
    rw [Session.step, usbMuxClose]
    split
    · exact h
    · refine hset i _ (.inl ?_)
      dsimp only
      split <;> exact fun h => by cases h
  | output =>
    intro hfailed i
    have hold := (usbMuxOutput_stage s.mux).2 hfailed
    have hsame : (usbMuxOutput s.mux).2 = s.mux := by rw [usbMuxOutput, if_pos hold]
    have hopen := h hold i
    rw [← hsame] at hopen
    exact hopen
  | outputComplete =>
    intro hfailed
    refine h ?_
    rw [Session.step, usbMuxOutputComplete] at hfailed
    dsimp only at hfailed
    split at hfailed
    · cases hfailed
    · exact hfailed

end S5LBox.Usb
