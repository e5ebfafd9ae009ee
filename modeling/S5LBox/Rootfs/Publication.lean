import S5LBox.Rootfs.Steady

/-!
# The publication of a work image

Until `publish` has linked it, the work image stands under its temporary name alone; from then on
it stands under the name of the destination, whatever fails afterwards. What was in the directory
before stays.

## Main definitions

* `Unpublished`, `Published`: the directory and the flags before and after the linking.
* `Complete`: what holds of an image that is to be published.

## Main results

* `copySource_meets`: the copy skips holes and is the source.
* `createBody_meets`: a call that succeeds has published, and one that fails has done so or not.
* `create_publication`: the flags at the end describe what the directory holds.
-/

namespace S5LBox.Rootfs

open Attempts Reading

/-! ### The copy -/

/-- The temporary file when the copy has come to an offset. -/
def copiedTo (src : List Byte) (offset : Nat) : List Byte :=
  src.take offset ++ List.replicate (src.length - offset) 0

theorem take_add_serve (src : List Byte) (offset amount : Nat) :
    src.take offset ++ serve src offset amount = src.take (offset + amount) := by
  rw [serve, List.take_add]

/-- A chunk that is written. -/
theorem splice_copiedTo {src : List Byte} {offset amount : Nat} (h : offset + amount ≤ src.length) :
    splice (copiedTo src offset) offset (serve src offset amount) =
      copiedTo src (offset + amount) := by
  have htake : (copiedTo src offset).takeD offset 0 = src.take offset := by
    refine List.takeD_left' (List.length_take_of_le ?_)
    omega
  have hdrop : (copiedTo src offset).drop (offset + amount) =
      List.replicate (src.length - (offset + amount)) 0 := by
    rw [← List.drop_drop, copiedTo, List.drop_left' (List.length_take_of_le (by omega)),
      List.drop_replicate, Nat.sub_sub]
  rw [splice, htake, length_serve h, hdrop, copiedTo, take_add_serve]

/-- A chunk of zeros that is skipped. -/
theorem copiedTo_zeros {src : List Byte} {offset amount : Nat} (h : offset + amount ≤ src.length)
    (hz : (serve src offset amount).all (· = 0) = true) :
    copiedTo src offset = copiedTo src (offset + amount) := by
  have hserve : serve src offset amount = List.replicate amount 0 := by
    rw [List.eq_replicate_iff]
    exact ⟨length_serve h, fun b hb => by simpa using List.all_eq_true.mp hz b hb⟩
  rw [copiedTo, copiedTo, ← take_add_serve, hserve, List.append_assoc,
    List.replicate_append_replicate]
  congr 2
  omega

variable {src : List Byte} {h₀ : Host}

/-- The loop has hashed the part of the source that it has copied. -/
theorem copyLoop_meets (o : Options) (buffer : IoBuffer) (offset : Nat) (hashed : List Byte)
    (hoffset : offset ≤ src.length) (hhashed : hashed = src.take offset) :
    Meets (fun j => j.host.source.data = src ∧ j.host.image = copiedTo src offset)
      (copyLoop o buffer src.length offset hashed)
      (fun got j => got = src ∧ j.host.image = src) fun _ => True := by
  generalize hsize : src.length = sourceSize
  fun_induction copyLoop o buffer sourceSize offset hashed with
  | case1 offset hashed hlt ih =>
    have hquiet {α : Type} {m : Work α} (hm : Moves Quiet m) :
        Meets (fun j => j.host.source.data = src ∧ j.host.image = copiedTo src offset) m
          (fun _ j => j.host.source.data = src ∧ j.host.image = copiedTo src offset)
          fun _ => True :=
      (hm.meets fun _ _ h hj =>
        ⟨(congrArg Source.data h.source).trans hj.1, h.image.trans hj.2⟩).weaken
        (fun _ h => h) (fun _ _ h => h) fun _ _ => trivial
    refine .bind (hquiet (askCancel_quiet o)) fun stop => ?_
    refine .either (fun _ _ => trivial) ?_
    have hread := (checkedRead_meets (f := src) (h := .source) sourceSize offset
      (min (sourceSize - offset) buffer) .copy).and (hquiet (checkedRead_quiet .source sourceSize
        offset (min (sourceSize - offset) buffer) .copy))
    refine .bind (hread.weaken (fun _ h => ⟨h.1, h⟩) (fun _ _ h => h) fun _ _ => trivial)
      fun bytes => .given fun hbytes => ?_
    refine .either (fun _ _ => trivial) ?_
    have hend : offset + min (sourceSize - offset) buffer ≤ src.length := by omega
    refine .bind (Q := fun _ j => j.host.source.data = src ∧
      j.host.image = copiedTo src (offset + min (sourceSize - offset) buffer)) ?_ fun _ => ?_
    · refine .provided (fun _ => ?_) fun hz j hj => ⟨hj.1, ?_⟩
      · have hwrite := ((checkedWrite_steady sourceSize offset bytes .copy).meets
          (P := fun j => j.host.source.data = src)
          fun _ _ h hj => (congrArg Source.data h.source).trans hj).and
          (checkedWrite_meets (f := copiedTo src offset) sourceSize offset bytes .copy)
        refine hwrite.weaken (fun _ h => h) (fun _ j hj => ⟨hj.1, ?_⟩) fun _ _ => trivial
        rw [hj.2, hbytes.1, splice_copiedTo hend]
      · rw [hbytes.1] at hz
        rw [hj.2, copiedTo_zeros hend (not_not.mp hz)]
    · refine .bind (Q := fun _ j => j.host.source.data = src ∧
        j.host.image = copiedTo src (offset + min (sourceSize - offset) buffer))
        (.update fun _ hj => hj) fun _ => ?_
      exact ih bytes hend (by rw [hhashed, hbytes.1, take_add_serve])
  | case2 offset hashed hge =>
    have hend : offset = src.length := by omega
    refine .pure fun j hj => ⟨?_, ?_⟩
    · rw [hhashed, hend, List.take_length]
    · rw [hj.2, hend, copiedTo, List.take_length, Nat.sub_self, List.replicate_zero,
        List.append_nil]

/-- The copy skips holes and is the source, and the source is what has been hashed. -/
theorem copySource_meets (o : Options) (buffer : IoBuffer) :
    Meets (fun j => j.host.source.data = src ∧ j.host.image = List.replicate src.length 0)
      (copySource o buffer src.length) (fun got j => got = src ∧ j.host.image = src)
      fun _ => True := by
  have hzeros : (List.replicate src.length (0 : Byte)).takeD src.length 0 = copiedTo src 0 := by
    rw [List.takeD_eq_take _ (List.length_replicate ..).ge, List.take_replicate, Nat.min_self,
      copiedTo, List.take_zero, List.nil_append, Nat.sub_zero]
  have hresize := ((hostFileResize_steady src.length .copy
    "cannot size the temporary work image").meets (P := fun j => j.host.source.data = src)
    fun _ _ h hj => (congrArg Source.data h.source).trans hj).and
    (hostFileResize_meets (f := List.replicate src.length 0) src.length .copy
      "cannot size the temporary work image")
  refine .bind (hresize.weaken (fun _ h => h) (fun _ _ h => h) fun _ _ => trivial) fun _ => ?_
  rw [hzeros]
  exact copyLoop_meets o buffer 0 [] (Nat.zero_le _) (List.take_zero).symm

/-! ### Before the publication -/

/-- The entries of others are there: those from before the call, and those that have arrived. -/
structure Kept (h₀ h : Host) : Prop where
  before : ∀ n id link, h₀.names n = some (.other id link) → h.names n = some (.other id link)
  arrived : ∀ p ∈ h.arrived, h.names p.1 = some (.other p.2 false)

theorem Kept.steady {j j' : Job} (h : Kept h₀ j.host) (hs : Steady j j') : Kept h₀ j'.host where
  before n id link hn := hs.names n _ (h.before n id link hn)
  arrived p hp := (hs.arrived p hp).elim (fun hp => hs.names _ _ (h.arrived p hp)) id

/-- A name that is not the name of another's entry may change. -/
theorem Kept.update {h : Host} (hk : Kept h₀ h) (name : String)
    (hname : ∀ id link, h.names name ≠ some (.other id link)) (e : Option Entry) :
    Kept h₀ { h with names := Function.update h.names name e } := by
  have hkeep {n : String} {id : Nat} {link : Bool} (hn : h.names n = some (.other id link)) :
      Function.update h.names name e n = some (.other id link) := by
    have hne : n ≠ name := by
      rintro rfl
      exact hname _ _ hn
    exact (Function.update_of_ne hne _ _).trans hn
  exact ⟨fun n id link hn => hkeep (hk.before n id link hn), fun p hp => hkeep (hk.arrived p hp)⟩

/-- The source and the entries of others are as they were, and nothing is published. -/
structure Untouched (h₀ : Host) (j : Job) : Prop where
  source : j.host.source = h₀.source
  kept : Kept h₀ j.host
  unpublished : j.result.published = false

/-- The temporary file has not been created. -/
structure Fresh (h₀ : Host) (j : Job) : Prop extends Untouched h₀ j where
  notCreated : j.temporaryCreated = false
  noWork : ∀ n, j.host.names n ≠ some .work

/-- The directory of the destination has been opened. -/
structure Opened (h₀ : Host) (destination : Path) (j : Job) : Prop extends Fresh h₀ j where
  directory : j.directoryOpen = true
  leaf : splitPath destination.text = some j.leaf

/-- The work image stands under its temporary name alone. -/
structure Temporary (h₀ : Host) (destination : Path) (j : Job) : Prop extends Untouched h₀ j where
  created : j.temporaryCreated = true
  name : j.host.names j.temporaryLeaf = some .work
  only : ∀ n, j.host.names n = some .work → n = j.temporaryLeaf
  other : j.temporaryLeaf ≠ j.leaf
  nonempty : j.temporaryLeaf ≠ ""
  directory : j.directoryOpen = true
  leaf : splitPath destination.text = some j.leaf

/-- The work image does not stand under the name of the destination. -/
def Unpublished (h₀ : Host) (destination : Path) (j : Job) : Prop :=
  Fresh h₀ j ∨ Temporary h₀ destination j

variable {d : Path} {j j' : Job}

theorem Untouched.steady (h : Untouched h₀ j) (hs : Steady j j') : Untouched h₀ j' :=
  ⟨hs.source.trans h.source, h.kept.steady hs,
    hs.published.trans h.unpublished⟩

theorem Fresh.steady (h : Fresh h₀ j) (hs : Steady j j') : Fresh h₀ j' :=
  ⟨h.toUntouched.steady hs, hs.temporaryCreated.trans h.notCreated,
    fun n hn => h.noWork n (hs.work n hn)⟩

theorem Opened.steady (h : Opened h₀ d j) (hs : Steady j j') : Opened h₀ d j' :=
  ⟨h.toFresh.steady hs, hs.directoryOpen.trans h.directory, by rw [hs.leaf, h.leaf]⟩

theorem Temporary.steady (h : Temporary h₀ d j) (hs : Steady j j') : Temporary h₀ d j' where
  toUntouched := h.toUntouched.steady hs
  created := hs.temporaryCreated.trans h.created
  name := by
    rw [hs.temporaryLeaf]
    exact hs.names _ _ h.name
  only := fun n hn => by
    rw [hs.temporaryLeaf]
    exact h.only n (hs.work n hn)
  other := by
    rw [hs.temporaryLeaf, hs.leaf]
    exact h.other
  nonempty := by
    rw [hs.temporaryLeaf]
    exact h.nonempty
  directory := hs.directoryOpen.trans h.directory
  leaf := by rw [hs.leaf, h.leaf]

theorem Unpublished.steady (h : Unpublished h₀ d j) (hs : Steady j j') : Unpublished h₀ d j' :=
  h.imp (fun h => h.steady hs) fun h => h.steady hs

section Keeping

variable {α : Type} {m : Work α} {P : Job → Prop} {Q : α → Job → Prop}

theorem fails {status : Status} {stage : Stage} {e : Nat} {detail : String}
    (hP : ∀ j, P j → Unpublished h₀ d j) :
    Meets P (failWith status stage e detail) Q (Unpublished h₀ d) :=
  fun j hj => (hP j hj).steady (failWith_quiet (α := α) status stage e detail j).toSteady

theorem keeps {R : Job → Job → Prop} (hm : Moves R m) (hR : ∀ j j', R j j' → P j → P j')
    (hP : ∀ j, P j → Unpublished h₀ d j) : Meets P m (fun _ => P) (Unpublished h₀ d) :=
  (hm.meets hR).weaken (fun _ h => h) (fun _ _ h => h) hP

theorem fresh_keeps (hm : Moves Quiet m) :
    Meets (Fresh h₀) m (fun _ => Fresh h₀) (Unpublished h₀ d) :=
  keeps hm (fun _ _ hs h => h.steady hs.toSteady) fun _ h => .inl h

theorem opened_keeps (hm : Moves Quiet m) :
    Meets (Opened h₀ d) m (fun _ => Opened h₀ d) (Unpublished h₀ d) :=
  keeps hm (fun _ _ hs h => h.steady hs.toSteady) fun _ h => .inl h.toFresh

end Keeping

/-- The selected options demand what the caller's options demand. -/
structure Options.Demands (o o' : Options) : Prop where
  unclean : o'.allowUncleanSource = o.allowUncleanSource
  minimum : o'.minimumVolumeBytes = o.minimumVolumeBytes
  identity : o'.sourceIdentity = o.sourceIdentity

theorem selectOptions_meets (source destination : Path) (o : Options) :
    Meets (Fresh h₀) (selectOptions source destination o)
      (fun r j => o.Demands r.1 ∧ Fresh h₀ j) (Unpublished h₀ d) := by
  have hfails : ∀ j, Fresh h₀ j → Unpublished h₀ d j := fun _ h => .inl h
  refine .either (fails hfails) <| .either (fails hfails) ?_
  refine .either (fails hfails) <| .either (fails hfails) ?_
  exact .dite (fun _ => .pure fun _ hj => ⟨⟨rfl, rfl, rfl⟩, hj⟩) fun _ => fails hfails

theorem openSourceDirectory_quiet (path : Path) : Moves Quiet (openSourceDirectory path) := by
  rw [openSourceDirectory]
  split
  · exact failWith_quiet _ _ _ _
  · exact failWith_quiet _ _ _ _
  · exact hostCall_quiet.bind fun _ => .either (failWith_quiet _ _ _ _) <| .pure _

/-- The source that has been opened is the source. -/
theorem posixOpenSource_meets (path : Path) :
    Meets (Fresh h₀) (posixOpenSource path)
      (fun before j => before.size = h₀.source.data.length ∧ Fresh h₀ j) (Unpublished h₀ d) := by
  have hfails : ∀ j, Fresh h₀ j → Unpublished h₀ d j := fun _ h => .inl h
  refine .either (fails hfails) ?_
  refine .bind (fresh_keeps (openSourceDirectory_quiet path)) fun _ => ?_
  refine .bind (fresh_keeps (hostTry_quiet _ _ _)) fun _ => ?_
  refine .bind (Q := fun s j => s = h₀.source ∧ Fresh h₀ j)
    (.ask fun _ hj => ⟨hj.source, hj⟩) fun s => .given fun hs => ?_
  refine .either (fails hfails) ?_
  refine .bind (fresh_keeps (hostTry_quiet _ _ _)) fun _ => ?_
  refine .bind (Q := fun _ => Fresh h₀)
    (.update fun _ hj => ⟨⟨hj.source, hj.kept, hj.unpublished⟩, hj.notCreated, hj.noWork⟩)
    fun _ => ?_
  refine .bind (fresh_keeps (hostTry_quiet _ _ _)) fun _ => ?_
  refine .either (fails hfails) <| .either (fails hfails) ?_
  refine .bind (fresh_keeps (hostTry_quiet _ _ _)) fun _ => ?_
  refine .bind (fresh_keeps (hostTry_quiet _ _ _)) fun _ => ?_
  exact .pure fun _ hj => ⟨by rw [hs]; rfl, hj⟩

theorem posixOpenDestination_meets :
    Meets (Fresh h₀) (posixOpenDestination d) (fun _ => Opened h₀ d) (Unpublished h₀ d) := by
  have hfails : ∀ j, Fresh h₀ j → Unpublished h₀ d j := fun _ h => .inl h
  rw [posixOpenDestination]
  match hleaf : splitPath d.text with
  | none => exact fails hfails
  | some leaf =>
    -- The name of the leaf is noted; it is not read again before the directory is open.
    refine .bind (Q := fun _ j => j.leaf = leaf ∧ Fresh h₀ j)
      (.update fun _ hj => ⟨rfl, ⟨hj.source, hj.kept, hj.unpublished⟩, hj.notCreated, hj.noWork⟩)
      fun _ => ?_
    have hfails : ∀ j, j.leaf = leaf ∧ Fresh h₀ j → Unpublished h₀ d j := fun _ h => .inl h.2
    refine .bind (keeps hostCall_quiet ?_ hfails) fun _ => ?_
    · exact fun _ _ hs h => ⟨hs.leaf.trans h.1, h.2.steady hs.toSteady⟩
    split
    · exact fails hfails
    · exact fails hfails
    · refine .either (fails hfails) ?_
      refine .bind (Q := fun _ => Opened h₀ d) (.update fun _ hj =>
        ⟨⟨⟨hj.2.source, hj.2.kept, hj.2.unpublished⟩, hj.2.notCreated, hj.2.noWork⟩, rfl,
          by rw [hleaf, hj.1]⟩) fun _ => ?_
      have hfails : ∀ j, Opened h₀ d j → Unpublished h₀ d j := fun _ h => .inl h.toFresh
      refine .bind (opened_keeps hostCall_quiet) fun _ => ?_
      refine .bind (Q := fun _ => Opened h₀ d) (.ask fun _ h => h) fun entry => ?_
      refine .either (fails hfails) ?_
      split
      · exact .pure fun _ h => h
      · exact fails hfails
      · exact fails hfails

theorem temporaryName_ne (pid attempt : Nat) : temporaryName pid attempt ≠ "" := by
  intro h
  have hlen := congrArg String.length h
  simp [temporaryName] at hlen

/-- The creation of the temporary file under a name that is free. -/
theorem Opened.create {name : String} {image : List Byte} (h : Opened h₀ d j)
    (hname : j.temporaryLeaf = name) (hfree : j.host.names name = none) (hleaf : name ≠ j.leaf)
    (hne : name ≠ "") :
    Temporary h₀ d { j with
      host := { j.host with names := Function.update j.host.names name (some .work), image := image }
      temporaryOpen := true
      temporaryCreated := true } where
  source := h.source
  kept := have hk := h.kept.update name (by simp [hfree]) (some .work)
    ⟨hk.before, hk.arrived⟩
  unpublished := h.unpublished
  created := rfl
  name := by
    rw [hname]
    exact Function.update_self ..
  only := fun n hn => by
    by_contra hne
    rw [hname] at hne
    exact h.noWork n ((Function.update_of_ne hne _ _).symm.trans hn)
  other := by rwa [hname]
  nonempty := by rwa [hname]
  directory := h.directory
  leaf := h.leaf

/-- The temporary file is created under a name that was free. -/
theorem tempCreateLoop_meets (pid left attempt : Nat) :
    Meets (Opened h₀ d) (tempCreateLoop pid left attempt)
      (fun _ j => Temporary h₀ d j ∧ j.host.image = []) (Unpublished h₀ d) := by
  induction left generalizing attempt with
  | zero => exact fails fun _ h => .inl h.toFresh
  | succ left ih =>
    rw [tempCreateLoop]
    refine .bind (Q := fun leaf j => j.leaf = leaf ∧ Opened h₀ d j)
      (.ask fun _ hj => ⟨rfl, hj⟩) fun leaf => ?_
    have hagain := fun (P : Job → Prop) (hP : ∀ j, P j → Opened h₀ d j) =>
      (ih (attempt + 1)).weaken hP (fun _ _ h => h) fun _ h => h
    generalize hname : temporaryName pid attempt = name
    have hne : name ≠ "" := hname ▸ temporaryName_ne pid attempt
    let P : Job → Prop := fun j => j.temporaryLeaf = name ∧ j.leaf = leaf ∧ Opened h₀ d j
    have hopened : ∀ j, P j → Opened h₀ d j := fun _ h => h.2.2
    refine .bind (Q := fun _ => P) (.update fun j hj => ⟨rfl, hj.1,
      ⟨⟨⟨hj.2.source, hj.2.kept, hj.2.unpublished⟩, hj.2.notCreated, hj.2.noWork⟩,
        hj.2.directory, hj.2.leaf⟩⟩) fun _ => ?_
    refine .ite (fun _ => hagain P hopened) fun hleaf => ?_
    refine .bind (keeps hostCall_quiet (P := P) ?_ fun _ h => .inl h.2.2.toFresh) fun f => ?_
    · exact fun _ _ hs h => ⟨hs.temporaryLeaf.trans h.1, hs.leaf.trans h.2.1,
        h.2.2.steady hs.toSteady⟩
    refine .bind (Q := fun taken j => taken = j.host.names name ∧ P j)
      (.ask fun _ hj => ⟨rfl, hj⟩) fun taken => ?_
    refine .ite (fun _ => hagain _ fun j hj => hj.2.2.2) fun htaken => ?_
    refine .either (.either (hagain _ fun j hj => hj.2.2.2) ?_) ?_
    · exact fails fun _ h => .inl h.2.2.2.toFresh
    · refine .update fun j hj => ⟨hj.2.2.2.create hj.2.1 ?_ ?_ hne, rfl⟩
      · rw [← hj.1]
        exact Option.not_isSome_iff_eq_none.mp htaken
      · rw [hj.2.2.1]
        exact hleaf

/-! ### The copy and the changes -/

variable {steps : Steps}

theorem temporary_keeps {α : Type} {m : Work α} (hm : Moves Steady m) :
    Meets (Temporary h₀ d) m (fun _ => Temporary h₀ d) (Unpublished h₀ d) :=
  keeps hm (fun _ _ hs h => h.steady hs) fun _ h => .inr h

/-- The temporary file is the copy of a source with the required identity. -/
structure Copied (steps : Steps) (o : Options) (h₀ : Host) (d : Path) (j : Job) : Prop
    extends Temporary h₀ d j where
  copied : j.copied = some h₀.source.data
  identity : o.sourceIdentity.required = true →
    o.sourceIdentity.expectedSize = h₀.source.data.length ∧
      o.sourceIdentity.expectedSha256 = steps.sha256 h₀.source.data

theorem checkIdentity_meets (o : Options) (hashed : List Byte) :
    Meets (Temporary h₀ d) (checkIdentity steps o hashed)
      (fun _ j => (o.sourceIdentity.required = true →
        o.sourceIdentity.expectedSha256 = steps.sha256 hashed) ∧ Temporary h₀ d j)
      (Unpublished h₀ d) := by
  have hnote {f : Result → Result} (hf : ∀ r, (f r).published = r.published) :
      Meets (Temporary h₀ d) (note f) (fun _ => Temporary h₀ d) (Unpublished h₀ d) :=
    temporary_keeps (Quiet.steady (note_quiet hf))
  refine .bind (hnote fun _ => rfl) fun _ => .ite (fun _ => ?_) fun hreq => ?_
  · refine .ite (fun _ => fails fun _ h => .inr h) fun heq => ?_
    refine .weaken (hnote ?_) (fun _ h => h) (fun _ _ h => ⟨fun _ => ?_, h⟩) fun _ h => h
    · exact fun _ => rfl
    · exact (not_not.mp heq).symm
  · exact .pure fun _ h => ⟨fun hr => absurd hr hreq, h⟩

theorem copySource_steady (o : Options) (buffer : IoBuffer) (sourceSize : Nat) :
    Moves Steady (copySource o buffer sourceSize) :=
  (hostFileResize_steady _ _ _).bind fun _ => copyLoop_steady _ _ _ _ _

theorem makeCopy_meets (pid : Nat) (o : Options) (buffer : IoBuffer) (before : Stamp)
    (volume : HfsVolume) (hbefore : before.size = h₀.source.data.length)
    (hsize : o.sourceIdentity.required = true → o.sourceIdentity.expectedSize = before.size) :
    Meets (Opened h₀ d) (makeCopy steps pid o buffer before volume)
      (fun _ j => j.host.image.length = before.size ∧ Copied steps o h₀ d j)
      (Unpublished h₀ d) := by
  refine .bind (tempCreateLoop_meets pid tempAttempts 0) fun _ => ?_
  have hkeep {α : Type} {m : Work α} (hm : Moves Steady m) :
      Meets (Temporary h₀ d) m (fun _ => Temporary h₀ d) (Unpublished h₀ d) := temporary_keeps hm
  have hresize := (hkeep (hostFileResize_steady before.size .copy
    "cannot size temporary image for source copy")).and
    (hostFileResize_meets (f := []) before.size .copy
      "cannot size temporary image for source copy")
  refine .bind (hresize.weaken (fun _ h => h) (fun _ _ h => h) fun _ h => h.1) fun _ => ?_
  rw [List.takeD_nil, hbefore]
  have hcopy := (hkeep (copySource_steady o buffer h₀.source.data.length)).and
    (copySource_meets o buffer)
  refine .bind (Q := fun hashed j => hashed = h₀.source.data ∧
    j.host.image = h₀.source.data ∧ Temporary h₀ d j) (hcopy.weaken ?_ ?_ fun _ h => h.1)
    fun hashed => .given fun hhashed => ?_
  · exact fun j hj => ⟨hj.1, congrArg Source.data hj.1.source, hj.2⟩
  · exact fun _ j hj => ⟨hj.2.1, hj.2.2, hj.1⟩
  let P : Job → Prop := fun j => j.host.image = h₀.source.data ∧ Temporary h₀ d j
  have hkeep {α : Type} {m : Work α} (hm : Moves Quiet m) :
      Meets P m (fun _ => P) (Unpublished h₀ d) :=
    keeps hm (fun _ _ hs h => ⟨hs.image.trans h.1, h.2.steady hs.toSteady⟩) fun _ h => .inr h.2
  have hfails : ∀ j, P j → Unpublished h₀ d j := fun _ h => .inr h.2
  refine .bind (hkeep (hostTry_quiet _ _ _)) fun _ => ?_
  refine .bind (Q := fun _ => P) (.ask fun _ h => h) fun after => ?_
  refine .either (fails hfails) ?_
  have hchecked : Meets (Temporary h₀ d) (checkIdentity steps o hashed) _ (Unpublished h₀ d) :=
    checkIdentity_meets o hashed
  have hidentity := hchecked.and (hkeep (checkIdentity_quiet steps o hashed))
  refine .bind (hidentity.weaken (fun _ h => ⟨h.2, h⟩) (fun _ _ h => ⟨h.1.1, h.2⟩)
    fun _ h => h.2) fun _ => .given fun hsha => ?_
  refine .bind (hkeep (hostTry_quiet _ _ _)) fun _ => ?_
  refine .bind (Q := fun _ => P) (.ask fun _ h => h) fun size => ?_
  refine .either (fails hfails) ?_
  refine .bind (hkeep (validate_quiet _ _ _ _)) fun copied => ?_
  refine .either (fails hfails) ?_
  refine .bind (hkeep (hostFileClose_quiet sourceOpen_quiet)) fun closed => ?_
  cases closed with
  | error e => exact fails hfails
  | ok _ =>
    refine .bind (Q := fun _ j => j.host.image.length = h₀.source.data.length ∧
      Copied steps o h₀ d j) (.update fun j hj => ⟨congrArg List.length hj.1, ?_⟩)
      fun _ => .pure fun _ h => h
    obtain ⟨himage, ht⟩ := hj
    exact ⟨⟨⟨ht.source, ht.kept, ht.unpublished⟩, ht.created, ht.name, ht.only, ht.other,
      ht.nonempty, ht.directory, ht.leaf⟩, congrArg some himage,
      fun hreq => ⟨(hsize hreq).trans hbefore, by rw [hsha hreq, hhashed]⟩⟩

theorem Copied.steady {o : Options} (h : Copied steps o h₀ d j) (hs : Steady j j') :
    Copied steps o h₀ d j' :=
  ⟨h.toTemporary.steady hs, hs.copied.trans h.copied, h.identity⟩

theorem copied_keeps {o : Options} {α : Type} {m : Work α} (hm : Moves Steady m) :
    Meets (Copied steps o h₀ d) m (fun _ => Copied steps o h₀ d) (Unpublished h₀ d) :=
  keeps hm (fun _ _ hs h => h.steady hs) fun _ h => .inr h.toTemporary

/-- The image is the one that is to be published. -/
structure Complete (steps : Steps) (o : Options) (h₀ : Host) (j : Job) : Prop where
  valid : ∃ v, (steps.hfsValidate j.host.image.length o.allowUncleanSource .finalValidate).run
    (serve j.host.image) = .ok v
  minimum : o.minimumVolumeBytes ≤ j.host.image.length
  copied : j.copied = some h₀.source.data
  identity : o.sourceIdentity.required = true →
    o.sourceIdentity.expectedSize = h₀.source.data.length ∧
      o.sourceIdentity.expectedSha256 = steps.sha256 h₀.source.data

theorem Complete.quiet {o : Options} (h : Complete steps o h₀ j) (hs : Quiet j j') :
    Complete steps o h₀ j' :=
  ⟨by rw [hs.image]; exact h.valid, by rw [hs.image]; exact h.minimum, hs.copied.trans h.copied,
    h.identity⟩

/-- What the last validation has accepted is complete. -/
theorem finalValidate_meets (o : Options) (before : Stamp) (volume : HfsVolume) (workSize : Nat) :
    Meets (fun j => j.host.image.length = workSize ∧ Copied steps o h₀ d j)
      (finalValidate steps o before volume workSize)
      (fun _ j => Temporary h₀ d j ∧ Complete steps o h₀ j) (Unpublished h₀ d) := by
  intro j₀ hj₀
  let P : Job → Prop := fun j => j.host.image = j₀.host.image ∧ Copied steps o h₀ d j
  have hkept : Meets P (validate .temporary workSize .finalValidate
      (steps.hfsValidate workSize o.allowUncleanSource .finalValidate)) (fun _ => P)
      (Unpublished h₀ d) :=
    keeps (validate_quiet .temporary workSize .finalValidate _)
      (fun _ _ hs h => ⟨hs.image.trans h.1, h.2.steady hs.toSteady⟩) fun _ h => .inr h.2.toTemporary
  have hvalidate := hkept.and (validate_meets (f := j₀.host.image) (h := .temporary) workSize
    .finalValidate (steps.hfsValidate workSize o.allowUncleanSource .finalValidate))
  have hfails : ∀ j, P j → Unpublished h₀ d j := fun _ h => .inr h.2.toTemporary
  have hall : Meets P (finalValidate steps o before volume workSize)
      (fun _ j => Temporary h₀ d j ∧ Complete steps o h₀ j) (Unpublished h₀ d) := by
    refine .bind (Q := fun v j => (steps.hfsValidate workSize o.allowUncleanSource
      .finalValidate).run (serve j₀.host.image) = .ok v ∧ P j) (hvalidate.weaken
      (fun _ h => ⟨h, h.1⟩) (fun _ _ h => ⟨h.2, h.1⟩) fun _ h => h.1) fun v => .given fun hv => ?_
    refine .either (fails hfails) <| .ite (fun _ => fails hfails) fun hmin => ?_
    refine .pure fun j hj => ⟨hj.2.toTemporary, ?_, ?_, hj.2.copied, hj.2.identity⟩
    · exact ⟨v, by rw [hj.1, hj₀.1, hv]⟩
    · rw [hj.1, hj₀.1]
      omega
  exact hall j₀ ⟨rfl, hj₀.2⟩

/-! ### The publication -/

/-- The image has been linked to the name of the destination. -/
structure Linked (h₀ : Host) (d : Path) (j : Job) : Prop where
  source : j.host.source = h₀.source
  kept : Kept h₀ j.host
  leaf : splitPath d.text = some j.leaf
  name : j.host.names j.leaf = some .work
  temporary : j.host.names j.temporaryLeaf = some .work
  other : j.temporaryLeaf ≠ j.leaf

/-- The image stands under the name of the destination, and the flags say so. -/
structure Published (h₀ : Host) (d : Path) (j : Job) : Prop where
  source : j.host.source = h₀.source
  kept : Kept h₀ j.host
  leaf : splitPath d.text = some j.leaf
  name : j.host.names j.leaf = some .work
  published : j.result.published = true

theorem Linked.steady (h : Linked h₀ d j) (hs : Steady j j') : Linked h₀ d j' where
  source := hs.source.trans h.source
  kept := h.kept.steady hs
  leaf := by rw [hs.leaf, h.leaf]
  name := by
    rw [hs.leaf]
    exact hs.names _ _ h.name
  temporary := by
    rw [hs.temporaryLeaf]
    exact hs.names _ _ h.temporary
  other := by
    rw [hs.temporaryLeaf, hs.leaf]
    exact h.other

theorem Published.steady (h : Published h₀ d j) (hs : Steady j j') : Published h₀ d j' where
  source := hs.source.trans h.source
  kept := h.kept.steady hs
  leaf := by rw [hs.leaf, h.leaf]
  name := by
    rw [hs.leaf]
    exact hs.names _ _ h.name
  published := hs.published.trans h.published

/-- The link replaces nothing. -/
theorem Temporary.link (h : Temporary h₀ d j) (hfree : j.host.names j.leaf = none) :
    Linked h₀ d { j with host := { j.host with
      names := Function.update j.host.names j.leaf (j.host.names j.temporaryLeaf) } } where
  source := h.source
  kept := h.kept.update _ (by simp [hfree]) _
  leaf := h.leaf
  name := (Function.update_self ..).trans h.name
  temporary := (Function.update_of_ne h.other _ _).trans h.name
  other := h.other

/-- The removal of the temporary name leaves the name of the destination. -/
theorem Linked.unlink (h : Linked h₀ d j) (hp : j.result.published = true) :
    Published h₀ d { j with host := { j.host with
      names := Function.update j.host.names j.temporaryLeaf none } } where
  source := h.source
  kept := h.kept.update _ (by simp [h.temporary]) _
  leaf := h.leaf
  name := (Function.update_of_ne h.other.symm _ _).trans h.name
  published := hp

variable (steps) in
/-- What holds where the call gives up. -/
def GivenUp (o : Options) (h₀ : Host) (d : Path) (j : Job) : Prop :=
  Unpublished h₀ d j ∨ Published h₀ d j ∧ Complete steps o h₀ j

theorem GivenUp.quiet {o : Options} (h : GivenUp steps o h₀ d j) (hs : Quiet j j') :
    GivenUp steps o h₀ d j' :=
  h.imp (fun h => h.steady hs.toSteady) fun h => ⟨h.1.steady hs.toSteady, h.2.quiet hs⟩

theorem Linked.published (h : Linked h₀ d j) (hp : j.result.published = true) :
    Published h₀ d j :=
  ⟨h.source, h.kept, h.leaf, h.name, hp⟩

section GivingUp

variable {α : Type} {o : Options} {m : Work α} {P : Job → Prop} {Q : α → Job → Prop}

theorem givenUp_fails {status : Status} {stage : Stage} {e : Nat} {detail : String}
    (hP : ∀ j, P j → GivenUp steps o h₀ d j) :
    Meets P (failWith status stage e detail) Q (GivenUp steps o h₀ d) :=
  fun j hj => (hP j hj).quiet (failWith_quiet (α := α) status stage e detail j)

theorem givenUp_keeps (hm : Moves Quiet m) (hR : ∀ j j', Quiet j j' → P j → P j')
    (hP : ∀ j, P j → GivenUp steps o h₀ d j) :
    Meets P m (fun _ => P) (GivenUp steps o h₀ d) :=
  (hm.meets hR).weaken (fun _ h => h) (fun _ _ h => h) hP

end GivingUp

theorem linkDestination_meets (o : Options) :
    Meets (fun j => Temporary h₀ d j ∧ Complete steps o h₀ j) linkDestination
      (fun linked j => match linked with
        | .error _ => Temporary h₀ d j ∧ Complete steps o h₀ j
        | .ok () => Linked h₀ d j ∧ Complete steps o h₀ j) (GivenUp steps o h₀ d) := by
  refine .bind (givenUp_keeps hostCall_quiet ?_ fun _ h => .inl (.inr h.1)) fun f => ?_
  · exact fun _ _ hs h => ⟨h.1.steady hs.toSteady, h.2.quiet hs⟩
  refine .bind (Q := fun taken j => taken = (j.host.names j.leaf).isSome ∧
    Temporary h₀ d j ∧ Complete steps o h₀ j) (.ask fun _ h => ⟨rfl, h⟩) fun taken => ?_
  refine .ite (fun _ => .pure fun _ h => h.2) fun htaken => ?_
  refine .either (.pure fun _ h => h.2) ?_
  refine .bind (Q := fun _ j => Linked h₀ d j ∧ Complete steps o h₀ j)
    (.update fun j hj => ⟨hj.2.1.link ?_, ?_⟩) fun _ => .pure fun _ h => h
  · rw [hj.1] at htaken
    exact Option.not_isSome_iff_eq_none.mp htaken
  · exact ⟨hj.2.2.valid, hj.2.2.minimum, hj.2.2.copied, hj.2.2.identity⟩

theorem unlinkTemporary_meets (o : Options) :
    Meets (fun j => (Linked h₀ d j ∧ j.result.published = true) ∧ Complete steps o h₀ j)
      unlinkTemporary
      (fun unlinked j => match unlinked with
        | .error _ => (Linked h₀ d j ∧ j.result.published = true) ∧ Complete steps o h₀ j
        | .ok () => Published h₀ d j ∧ Complete steps o h₀ j) (GivenUp steps o h₀ d) := by
  refine .bind (givenUp_keeps hostCall_quiet ?_ fun _ h =>
    .inr ⟨h.1.1.published h.1.2, h.2⟩) fun f => .either (.pure fun _ h => h) ?_
  · exact fun _ _ hs h => ⟨⟨h.1.1.steady hs.toSteady, hs.published.trans h.1.2⟩, h.2.quiet hs⟩
  refine .bind (Q := fun _ j => Published h₀ d j ∧ Complete steps o h₀ j)
    (.update fun j hj => ⟨hj.1.1.unlink hj.1.2, ?_⟩) fun _ => .pure fun _ h => h
  exact ⟨hj.2.valid, hj.2.minimum, hj.2.copied, hj.2.identity⟩

theorem publish_meets (o : Options) :
    Meets (fun j => Temporary h₀ d j ∧ Complete steps o h₀ j) publish
      (fun _ j => Published h₀ d j ∧ Complete steps o h₀ j) (GivenUp steps o h₀ d) := by
  refine .bind (linkDestination_meets o) fun linked => ?_
  cases linked with
  | error e => exact givenUp_fails fun _ h => .inl (.inr h.1)
  | ok _ =>
    let P : Job → Prop := fun j =>
      (Linked h₀ d j ∧ j.result.published = true) ∧ Complete steps o h₀ j
    have hP : ∀ j, P j → GivenUp steps o h₀ d j := fun _ h => .inr ⟨h.1.1.published h.1.2, h.2⟩
    have hkeep : ∀ j j', Quiet j j' → P j → P j' := fun _ _ hs h =>
      ⟨⟨h.1.1.steady hs.toSteady, hs.published.trans h.1.2⟩, h.2.quiet hs⟩
    have hnote {f : Result → Result} (hf : ∀ r, (f r).published = r.published) :
        Meets P (note f) (fun _ => P) (GivenUp steps o h₀ d) :=
      givenUp_keeps (note_quiet hf) hkeep hP
    refine .bind (Q := fun _ => P) (.update fun _ h => ?_) fun _ => ?_
    · exact ⟨⟨⟨h.1.source, h.1.kept, h.1.leaf, h.1.name, h.1.temporary, h.1.other⟩, rfl⟩,
        ⟨h.2.valid, h.2.minimum, h.2.copied, h.2.identity⟩⟩
    refine .bind (givenUp_keeps hostCall_quiet hkeep hP) fun f => ?_
    refine .either ?_ ?_
    · exact .bind (hnote fun _ => rfl) fun _ => givenUp_fails hP
    refine .bind (unlinkTemporary_meets o) fun unlinked => ?_
    cases unlinked with
    | error e => exact .bind (hnote fun _ => rfl) fun _ => givenUp_fails hP
    | ok _ =>
      exact givenUp_keeps (hostTry_quiet _ _ _)
        (fun _ _ hs h => ⟨h.1.steady hs.toSteady, h.2.quiet hs⟩) fun _ h => .inr h

/-- From the finished image to its publication. -/
theorem flushAndPublish_meets (o o' : Options) (workSize : Nat) :
    Meets (fun j => Temporary h₀ d j ∧ Complete steps o h₀ j) (flushAndPublish o' workSize)
      (fun _ j => Published h₀ d j ∧ Complete steps o h₀ j) (GivenUp steps o h₀ d) := by
  have hP : ∀ j, Temporary h₀ d j ∧ Complete steps o h₀ j → GivenUp steps o h₀ d j :=
    fun _ h => .inl (.inr h.1)
  have hkeep {α : Type} {m : Work α} (hm : Moves Quiet m) :
      Meets (fun j => Temporary h₀ d j ∧ Complete steps o h₀ j) m
        (fun _ j => Temporary h₀ d j ∧ Complete steps o h₀ j) (GivenUp steps o h₀ d) :=
    givenUp_keeps hm (fun _ _ hs h => ⟨h.1.steady hs.toSteady, h.2.quiet hs⟩) hP
  refine .bind (hkeep (hostTry_quiet _ _ _)) fun _ => ?_
  refine .bind (hkeep (hostFileClose_quiet temporaryOpen_quiet)) fun closed => ?_
  cases closed with
  | error e => exact givenUp_fails hP
  | ok _ =>
    refine .bind (hkeep (askCancel_quiet o')) fun stop => ?_
    refine .either (givenUp_fails hP) <| .bind (publish_meets o) fun _ => ?_
    refine givenUp_keeps (note_quiet fun _ => rfl) ?_ fun _ h => .inr h
    exact fun _ _ hs h => ⟨h.1.steady hs.toSteady, h.2.quiet hs⟩

/-! ### The call -/

theorem openAndValidate_meets (source : Path) (o : Options) (buffer : IoBuffer) :
    Meets (Fresh h₀) (openAndValidate steps source d o buffer)
      (fun r j => (r.1.size = h₀.source.data.length ∧
        (o.sourceIdentity.required = true → o.sourceIdentity.expectedSize = r.1.size)) ∧
        Opened h₀ d j) (Unpublished h₀ d) := by
  have hfails : ∀ j, Opened h₀ d j → Unpublished h₀ d j := fun _ h => .inl h.toFresh
  refine .bind (fresh_keeps (note_quiet fun _ => rfl)) fun _ => ?_
  refine .bind (fresh_keeps (hostTry_quiet _ _ _)) fun _ => ?_
  refine .bind (posixOpenSource_meets source) fun before => .given fun hbefore => ?_
  refine .bind posixOpenDestination_meets fun _ => ?_
  refine .bind (opened_keeps (note_quiet fun _ => rfl)) fun _ => ?_
  refine .either (fails hfails) <| .ite (fun _ => fails hfails) fun hsize => ?_
  refine .bind (opened_keeps (validate_quiet _ _ _ _)) fun volume => .pure fun _ hj => ?_
  exact ⟨⟨hbefore, fun hreq => not_not.mp fun hne => hsize ⟨hreq, hne⟩⟩, hj⟩

theorem Complete.demands {o o' : Options} (h : Complete steps o' h₀ j) (ho : o.Demands o') :
    Complete steps o h₀ j where
  valid := by
    rw [← ho.unclean]
    exact h.valid
  minimum := by
    rw [← ho.minimum]
    exact h.minimum
  copied := h.copied
  identity := by
    rw [← ho.identity]
    exact h.identity

theorem changeImage_meets (o : Options) (before : Stamp) (copied : HfsVolume) :
    Meets (fun j => j.host.image.length = before.size ∧ Copied steps o h₀ d j)
      (changeImage steps o before copied)
      (fun _ j => Temporary h₀ d j ∧ Complete steps o h₀ j) (Unpublished h₀ d) := by
  have hkeep {α : Type} {m : Work α} {n : Nat} (hm : Moves Steady m) (hn : Moves (Sized n) m) :
      Meets (fun j => j.host.image.length = n ∧ Copied steps o h₀ d j) m
        (fun _ j => j.host.image.length = n ∧ Copied steps o h₀ d j) (Unpublished h₀ d) :=
    ((hn.meets fun _ _ h hj => h hj).and (copied_keeps hm)).weaken (fun _ h => h) (fun _ _ h => h)
      fun _ h => h.2
  refine .bind (hkeep (protectAllocations_steady _ _ _ _) (protectAllocations_sized _ _ _ _))
    fun protection => ?_
  refine .bind (hkeep (rewriteFiles_steady _ _ _) (rewriteFiles_sized _ _ _)) fun _ => ?_
  have hcopied {α : Type} {m : Work α} (hm : Moves Steady m) :
      Meets (Copied steps o h₀ d) m (fun _ => Copied steps o h₀ d) (Unpublished h₀ d) :=
    copied_keeps hm
  have hgrow := (growVolume_meets steps o before.size protection.1).and
    (hcopied (growVolume_steady steps o before.size protection.1))
  refine .bind (hgrow.weaken (fun _ h => h) (fun _ _ h => h) fun _ h => h.2) fun workSize => ?_
  refine .bind (hkeep (provision_steady _ _ _) (provision_sized _ _ _)) fun _ => ?_
  exact .bind (finalValidate_meets o before _ workSize) fun _ => .pure fun _ h => h

/-- A call that succeeds has published; one that fails has published a complete image, or
nothing. -/
theorem createBody_meets (pid : Nat) (source : Path) (o : Options) :
    Meets (Fresh h₀) (createBody steps pid source d o)
      (fun _ j => Published h₀ d j ∧ Complete steps o h₀ j) (GivenUp steps o h₀ d) := by
  have hearly {α : Type} {m : Work α} {P : Job → Prop} {Q : α → Job → Prop}
      (hm : Meets P m Q (Unpublished h₀ d)) : Meets P m Q (GivenUp steps o h₀ d) :=
    hm.weaken (fun _ h => h) (fun _ _ h => h) fun _ h => .inl h
  refine .bind (hearly (selectOptions_meets source d o)) fun (o', buffer) => .given fun ho => ?_
  refine .bind (hearly (openAndValidate_meets source o' buffer)) fun (before, volume) =>
    .given fun hsize => ?_
  refine .bind (hearly (makeCopy_meets pid o' buffer before volume hsize.1 hsize.2))
    fun copied => ?_
  refine .bind (hearly (changeImage_meets o' before copied)) fun (workSize, bits, counts) => ?_
  refine .bind (Q := fun _ j => Temporary h₀ d j ∧ Complete steps o h₀ j)
    (.update fun j hj => ⟨?_, (hj.2.demands ho).quiet ?_⟩) fun _ => flushAndPublish_meets o o' workSize
  · exact ⟨⟨hj.1.source, hj.1.kept, hj.1.unpublished⟩, hj.1.created, hj.1.name, hj.1.only,
      hj.1.other, hj.1.nonempty, hj.1.directory, hj.1.leaf⟩
  · exact ⟨⟨rfl, fun _ _ h => h, fun _ h => h, fun _ h => .inl h, rfl, rfl, rfl, rfl, rfl, rfl⟩, rfl⟩

/-- How the call ends: what is published is complete, and what is not is gone or reported. -/
structure Outcome (steps : Steps) (o : Options) (h₀ : Host) (d : Path) (j : Job) : Prop where
  source : j.host.source = h₀.source
  kept : Kept h₀ j.host
  published : j.result.published = true ↔
    ∃ leaf, splitPath d.text = some leaf ∧ j.host.names leaf = some .work
  complete : j.result.published = true → Complete steps o h₀ j
  cleaned : j.result.published = false → (∀ n, j.host.names n ≠ some .work) ∨
    j.result.temporaryLeft = true ∨ j.result.cleanupSystemError ≠ 0

variable {o : Options}

theorem Published.outcome (h : Published h₀ d j) (hc : Complete steps o h₀ j) :
    Outcome steps o h₀ d j where
  source := h.source
  kept := h.kept
  published := ⟨fun _ => ⟨j.leaf, h.leaf, h.name⟩, fun _ => h.published⟩
  complete _ := hc
  cleaned hp := by
    rw [h.published] at hp
    cases hp

/-- Nothing of this call is left in the directory. -/
theorem Untouched.outcome (h : Untouched h₀ j) (hnone : ∀ n, j.host.names n ≠ some .work) :
    Outcome steps o h₀ d j where
  source := h.source
  kept := h.kept
  published := by
    rw [h.unpublished]
    exact ⟨(nomatch ·), fun ⟨leaf, _, hname⟩ => absurd hname (hnone leaf)⟩
  complete hp := by
    rw [h.unpublished] at hp
    cases hp
  cleaned _ := .inl hnone

/-- The temporary file has been left, and this is reported. -/
theorem Temporary.outcome (h : Temporary h₀ d j) (hleft : j.result.temporaryLeft = true) :
    Outcome steps o h₀ d j where
  source := h.source
  kept := h.kept
  published := by
    rw [h.unpublished]
    refine ⟨(nomatch ·), fun ⟨leaf, hleaf, hname⟩ => ?_⟩
    rw [h.leaf] at hleaf
    cases hleaf
    exact absurd (h.only _ hname).symm h.other
  complete hp := by
    rw [h.unpublished] at hp
    cases hp
  cleaned _ := .inr (.inl hleft)

/-- The removal of the temporary name takes nothing else away. -/
theorem Temporary.unlink (h : Temporary h₀ d j) :
    Untouched h₀ { j with host := { j.host with
      names := Function.update j.host.names j.temporaryLeaf none } } where
  source := h.source
  kept := h.kept.update _ (by simp [h.name]) _
  unpublished := h.unpublished

theorem Temporary.unlink_none (h : Temporary h₀ d j) (n : String) :
    Function.update j.host.names j.temporaryLeaf none n ≠ some .work := by
  by_cases hne : n = j.temporaryLeaf
  · rw [hne, Function.update_self]
    exact (nomatch ·)
  · rw [Function.update_of_ne hne]
    exact fun hn => hne (h.only n hn)

section Done

variable {P : Job → Prop}

theorem hostCall_total (hP : ∀ j j', Quiet j j' → P j → P j') :
    Meets P hostCall (fun _ => P) fun _ => False := by
  intro j hj
  have hj' := hP _ _ (hostCall_quiet j) hj
  rw [Attempt.after] at hj'
  rw [hostCall] at hj' ⊢
  cases hf : j.host.faults with
  | nil => exact hj
  | cons f fs =>
    rw [hf] at hj'
    exact hj'

theorem hostFileClose_total {isOpen : Job → Bool} {shut : Job → Job}
    (hP : ∀ j j', Quiet j j' → P j → P j') (h : ∀ j, Quiet j (shut j)) :
    Meets P (hostFileClose isOpen shut) (fun _ => P) fun _ => False := by
  refine .bind (Q := fun _ => P) (.ask fun _ h => h) fun opened => ?_
  refine .either (.pure fun _ h => h) ?_
  refine .bind (Q := fun _ => P) (.update fun j hj => hP _ _ (h j) hj) fun _ => ?_
  exact .bind (hostCall_total hP) fun _ => .either (.pure fun _ h => h) <| .pure fun _ h => h

/-- The closing of the files changes nothing that the outcome is about. -/
theorem createDone_meets {success : Bool} {Q : Unit → Job → Prop}
    (hP : ∀ j j', Quiet j j' → P j → P j')
    (hdone : Meets P (Attempt.provided (¬success) cleanupUnpublished) Q fun _ => False) :
    Meets P (createDone success) Q fun _ => False := by
  refine .bind (Q := fun _ => P) ?_ fun _ => .bind (Q := fun _ => P) ?_ fun _ => hdone
  · refine .bind (hostFileClose_total hP sourceOpen_quiet) fun closed => ?_
    cases closed with
    | ok _ => exact .pure fun _ h => h
    | error e =>
      refine .update fun j hj => hP _ _ ?_ hj
      exact ⟨⟨rfl, fun _ _ h => h, fun _ h => h, fun _ h => .inl h, rfl, rfl, rfl, rfl, rfl, rfl⟩, rfl⟩
  · refine .bind (hostFileClose_total hP temporaryOpen_quiet) fun closed => ?_
    cases closed with
    | ok _ => exact .pure fun _ h => h
    | error e =>
      refine .update fun j hj => hP _ _ ?_ hj
      exact ⟨⟨rfl, fun _ _ h => h, fun _ h => h, fun _ h => .inl h, rfl, rfl, rfl, rfl, rfl, rfl⟩, rfl⟩

end Done

/-- The removal of the temporary file, or the report that it could not be removed. -/
theorem cleanupUnpublished_meets :
    Meets (GivenUp steps o h₀ d) cleanupUnpublished (fun _ => Outcome steps o h₀ d)
      fun _ => False := by
  refine .bind (Q := fun j' j => j' = j ∧ GivenUp steps o h₀ d j)
    (.ask fun _ h => ⟨rfl, h⟩) fun j₀ => ?_
  refine .ite (fun hskip => .pure ?_) fun hrun => ?_
  · rintro j ⟨rfl, (h | h) | ⟨h, hc⟩⟩
    · exact h.outcome h.noWork
    · rw [h.created, h.unpublished] at hskip
      simp at hskip
    · exact h.outcome hc
  have hof : ∀ j, j₀ = j ∧ GivenUp steps o h₀ d j → Temporary h₀ d j := by
    rintro j ⟨rfl, (h | h) | ⟨h, hc⟩⟩
    · rw [h.notCreated] at hrun
      simp at hrun
    · exact h
    · rw [h.published] at hrun
      simp at hrun
  refine .ite (fun _ => ?_) fun hno => .pure fun j hj => ?_
  · refine .bind (Q := fun unlinked j => match unlinked with
      | .error _ => Temporary h₀ d j
      | .ok () => Outcome steps o h₀ d j) ?_ fun unlinked => ?_
    · refine .bind ((hostCall_total (P := Temporary h₀ d) fun _ _ hs h =>
        h.steady hs.toSteady).weaken hof (fun _ _ h => h) fun _ h => h) fun f => ?_
      refine .either (.pure fun _ h => h) ?_
      refine .bind (Q := fun _ => Outcome steps o h₀ d) (.update fun j hj => ?_)
        fun _ => .pure fun _ h => h
      exact hj.unlink.outcome hj.unlink_none
    · cases unlinked with
      | ok _ => exact .pure fun _ h => h
      | error e =>
        refine .update fun j (hj : Temporary h₀ d j) => Temporary.outcome ?_ rfl
        exact hj.steady ⟨rfl, fun _ _ h => h, fun _ h => h, fun _ h => .inl h, rfl, rfl, rfl, rfl, rfl, rfl⟩
  · have ht := hof j hj
    obtain ⟨rfl, _⟩ := hj
    exact absurd ⟨ht.directory, ht.nonempty⟩ hno

/-- Publication is all or nothing, for any steps on the temporary file, any faults of the host, any
answers of the cancellation, and whatever else lies in the directory. However the call ends, the
source is as it was and no entry of the directory is replaced; the result says published exactly if
the name of the destination is the work image; what is published is complete, that is copied from
the source in full, of the required identity, large enough and accepted by the last validation; and
of what is not published nothing is left in the directory, or the result reports that it is or that
a removal failed. -/
theorem create_publication (steps : Steps) (pid : Nat) (source destination : Path) (o : Options)
    (image : Source) (others : String → Option (Nat × Bool)) (faults : List Fault)
    (cancels : List Bool) :
    Outcome steps o (.start image others faults cancels) destination
      (rootfsWorkCreate steps pid source destination o (.start image others faults cancels)) := by
  generalize hhost : Host.start image others faults cancels = h₀
  have hfresh : Fresh h₀ (Job.start h₀) := by
    refine ⟨⟨rfl, ⟨fun _ _ _ h => h, fun p hp => ?_⟩, rfl⟩, rfl, fun n hn => ?_⟩
    · rw [Job.start, ← hhost] at hp
      cases hp
    rw [Job.start, ← hhost, Host.start] at hn
    cases hother : others n with
    | none => simp [hother] at hn
    | some e => simp [hother] at hn
  have hmeets : Meets (Fresh h₀) (createBody steps pid source destination o) _ _ :=
    createBody_meets pid source o
  have hbody := hmeets _ hfresh
  have hdone {success : Bool} {P : Job → Prop} {j : Job} (hP : ∀ j j', Quiet j j' → P j → P j')
      (hend : Meets P (Attempt.provided (¬success) cleanupUnpublished)
        (fun _ => Outcome steps o h₀ destination) fun _ => False) (hj : P j) :
      Outcome steps o h₀ destination ((createDone success).after j) := by
    have hrun := createDone_meets hP hend j hj
    rw [Attempt.after]
    rcases h : createDone success j with ⟨_ | _, j'⟩
    · rw [h] at hrun
      exact hrun.elim
    · rw [h] at hrun
      exact hrun
  rw [rootfsWorkCreate]
  rcases h : createBody steps pid source destination o (Job.start h₀) with ⟨_ | _, j⟩
  · rw [h] at hbody
    refine hdone (P := GivenUp steps o h₀ destination) (fun _ _ hs h => h.quiet hs) ?_ hbody
    exact .provided (fun _ => cleanupUnpublished_meets) fun hs => absurd Bool.false_ne_true hs
  · rw [h] at hbody
    refine hdone (P := fun j => Published h₀ destination j ∧ Complete steps o h₀ j) ?_ ?_ hbody
    · exact fun _ _ hs h => ⟨h.1.steady hs.toSteady, h.2.quiet hs⟩
    · exact .provided (fun hs => absurd rfl hs) fun _ _ h => h.1.outcome h.2

end S5LBox.Rootfs
