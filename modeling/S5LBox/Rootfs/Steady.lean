import S5LBox.Rootfs.Create

/-!
# What the steps of the creation leave alone

Only three steps of `rootfs_work_create` change the directory: the creation of the temporary file,
its publication and its removal. All others leave the directory to the other processes, the source
to itself, and the flags of the publication as they are. The steps that only read leave the
temporary file alone as well, and the patches leave its length.

## Main definitions

* `Steady`, `Quiet`: the step leaves the directory alone, and the temporary file as well.
* `Sized n`: the temporary file keeps its length `n`.

## Main results

* `validate_quiet`, `run_steady`, `run_sized`: the steps that are parameters.
* `validate_meets`: what a step finds out is what its program finds in the content of the file.
-/

namespace S5LBox.Rootfs

open Attempts Reading

/-- The step leaves the source, the directory and the publication alone. Other processes may
have created entries. -/
structure Steady (j j' : Job) : Prop where
  source : j'.host.source = j.host.source
  names : ∀ n e, j.host.names n = some e → j'.host.names n = some e
  work : ∀ n, j'.host.names n = some .work → j.host.names n = some .work
  arrived : ∀ p ∈ j'.host.arrived, p ∈ j.host.arrived ∨ j'.host.names p.1 = some (.other p.2 false)
  leaf : j'.leaf = j.leaf
  temporaryLeaf : j'.temporaryLeaf = j.temporaryLeaf
  temporaryCreated : j'.temporaryCreated = j.temporaryCreated
  directoryOpen : j'.directoryOpen = j.directoryOpen
  published : j'.result.published = j.result.published
  copied : j'.copied = j.copied

/-- The step leaves the temporary file alone as well. -/
structure Quiet (j j' : Job) : Prop extends Steady j j' where
  image : j'.host.image = j.host.image

/-- The temporary file keeps its length. -/
def Sized (n : Nat) (j j' : Job) : Prop := j.host.image.length = n → j'.host.image.length = n

theorem Steady.rfl {j : Job} : Steady j j :=
  ⟨.refl _, fun _ _ h => h, fun _ h => h, fun _ h => .inl h, .refl _, .refl _, .refl _, .refl _, .refl _, .refl _⟩

instance : Std.Refl Steady := ⟨fun _ => .rfl⟩

instance : IsTrans Job Steady where
  trans _ _ _ h h' :=
    { source := h'.source.trans h.source
      names := fun n e hn => h'.names n e (h.names n e hn)
      work := fun n hn => h.work n (h'.work n hn)
      arrived := fun p hp => (h'.arrived p hp).elim
        (fun hp => (h.arrived p hp).imp_right (h'.names _ _)) .inr
      leaf := h'.leaf.trans h.leaf
      temporaryLeaf := h'.temporaryLeaf.trans h.temporaryLeaf
      temporaryCreated := h'.temporaryCreated.trans h.temporaryCreated
      directoryOpen := h'.directoryOpen.trans h.directoryOpen
      published := h'.published.trans h.published
      copied := h'.copied.trans h.copied }

theorem Quiet.rfl {j : Job} : Quiet j j := ⟨.rfl, .refl _⟩

instance : Std.Refl Quiet := ⟨fun _ => .rfl⟩

instance : IsTrans Job Quiet where
  trans _ _ _ h h' := ⟨IsTrans.trans _ _ _ h.toSteady h'.toSteady, h'.image.trans h.image⟩

instance {n : Nat} : Std.Refl (Sized n) := ⟨fun _ h => h⟩

instance {n : Nat} : IsTrans Job (Sized n) := ⟨fun _ _ _ h h' hn => h' (h hn)⟩

theorem Quiet.sized {j j' : Job} (h : Quiet j j') (n : Nat) : Sized n j j' := by
  intro hn
  rw [h.image, hn]

/-! ### Calls of the host -/

theorem intrude_names (h : Host) (i : Option (String × Nat)) (n : String) (e : Entry)
    (hn : h.names n = some e) : (h.intrude i).names n = some e := by
  match i with
  | none => exact hn
  | some (name, id) =>
    rw [Host.intrude]
    cases htaken : (h.names name).isSome with
    | true =>
      rw [if_pos rfl]
      exact hn
    | false =>
      rw [if_neg Bool.false_ne_true]
      have hne : n ≠ name := by
        rintro rfl
        rw [hn] at htaken
        cases htaken
      exact (Function.update_of_ne hne _ _).trans hn

theorem intrude_work (h : Host) (i : Option (String × Nat)) (n : String)
    (hn : (h.intrude i).names n = some .work) : h.names n = some .work := by
  match i with
  | none => exact hn
  | some (name, id) =>
    rw [Host.intrude] at hn
    cases htaken : (h.names name).isSome with
    | true =>
      rw [htaken, if_pos rfl] at hn
      exact hn
    | false =>
      rw [htaken, if_neg Bool.false_ne_true] at hn
      dsimp only at hn
      by_cases hne : n = name
      · rw [hne, Function.update_self] at hn
        cases hn
      · rwa [Function.update_of_ne hne] at hn

theorem intrude_arrived (h : Host) (i : Option (String × Nat)) :
    ∀ p ∈ (h.intrude i).arrived,
      p ∈ h.arrived ∨ (h.intrude i).names p.1 = some (.other p.2 false) := by
  intro p hp
  match i with
  | none => exact .inl hp
  | some (name, id) =>
    rw [Host.intrude] at hp ⊢
    cases htaken : (h.names name).isSome with
    | true =>
      rw [htaken, if_pos rfl] at hp
      exact .inl hp
    | false =>
      rw [htaken, if_neg Bool.false_ne_true] at hp
      rw [if_neg Bool.false_ne_true]
      rcases List.mem_cons.mp hp with rfl | hp
      · exact .inr (Function.update_self ..)
      · exact .inl hp

theorem intrude_rest (h : Host) (i : Option (String × Nat)) :
    (h.intrude i).source = h.source ∧ (h.intrude i).image = h.image := by
  match i with
  | none => exact ⟨rfl, rfl⟩
  | some (name, id) =>
    rw [Host.intrude]
    split_ifs
    · exact ⟨rfl, rfl⟩
    · exact ⟨rfl, rfl⟩

theorem hostCall_quiet : Moves Quiet hostCall := by
  intro j
  change Quiet j (hostCall j).2
  rw [hostCall]
  cases j.host.faults with
  | nil => exact .rfl
  | cons f fs =>
    obtain ⟨hs, hi⟩ := intrude_rest j.host f.intruder
    exact ⟨⟨hs, intrude_names j.host f.intruder, intrude_work j.host f.intruder,
      intrude_arrived j.host f.intruder, rfl, rfl, rfl, rfl, rfl, rfl⟩, hi⟩

variable {α : Type}

theorem failWith_quiet (status : Status) (stage : Stage) (e : Nat) (detail : String) :
    Moves Quiet (failWith status stage e detail : Work α) :=
  fun _ => ⟨⟨rfl, fun _ _ h => h, fun _ h => h, fun _ h => .inl h, rfl, rfl, rfl, rfl, rfl, rfl⟩, rfl⟩

theorem note_quiet {f : Result → Result} (h : ∀ r, (f r).published = r.published) :
    Moves Quiet (note f) :=
  fun j => ⟨⟨rfl, fun _ _ h => h, fun _ h => h, fun _ h => .inl h, rfl, rfl, rfl, rfl, h j.result, rfl⟩, rfl⟩

theorem hostTry_quiet (status : Status) (stage : Stage) (detail : String) :
    Moves Quiet (hostTry status stage detail) :=
  hostCall_quiet.bind fun _ => .either (failWith_quiet _ _ _ _) <| .pure _

theorem askCancel_quiet (o : Options) : Moves Quiet (askCancel o) := by
  refine .ite (fun _ j => ?_) fun _ => .pure _
  dsimp only [Attempt.after]
  cases j.host.cancels with
  | nil => exact .rfl
  | cons b bs => exact ⟨⟨rfl, fun _ _ h => h, fun _ h => h, fun _ h => .inl h, rfl, rfl, rfl, rfl, rfl, rfl⟩, rfl⟩

theorem hostFileClose_quiet {isOpen : Job → Bool} {shut : Job → Job} (h : ∀ j, Quiet j (shut j)) :
    Moves Quiet (hostFileClose isOpen shut) := by
  refine (Moves.ask _).bind fun _ => .either (.pure _) ?_
  refine (Moves.update h).bind fun _ => ?_
  exact hostCall_quiet.bind fun _ => .either (.pure _) <| .pure _

theorem sourceOpen_quiet (j : Job) : Quiet j { j with sourceOpen := false } :=
  ⟨⟨rfl, fun _ _ h => h, fun _ h => h, fun _ h => .inl h, rfl, rfl, rfl, rfl, rfl, rfl⟩, rfl⟩

theorem temporaryOpen_quiet (j : Job) : Quiet j { j with temporaryOpen := false } :=
  ⟨⟨rfl, fun _ _ h => h, fun _ h => h, fun _ h => .inl h, rfl, rfl, rfl, rfl, rfl, rfl⟩, rfl⟩

/-! ### Reading -/

theorem hostFileRead_quiet (h : Handle) (offset length : Nat) :
    Moves Quiet (hostFileRead h offset length) := by
  refine .either (.pure _) <| hostCall_quiet.bind fun _ => ?_
  refine (Moves.ask _).bind fun _ => .either (.pure _) ?_
  exact .either (.pure _) <| .pure _

theorem checkedRead_quiet (h : Handle) (fileSize offset length : Nat) (stage : Stage) :
    Moves Quiet (checkedRead h fileSize offset length stage) := by
  refine .either (failWith_quiet _ _ _ _) ?_
  refine (hostFileRead_quiet h offset length).bind fun got => ?_
  cases got with
  | ok got => exact .pure _
  | error e => exact failWith_quiet _ _ _ _

theorem validate_quiet (h : Handle) (fileSize : Nat) (stage : Stage) (m : Reader Failure Byte α) :
    Moves Quiet (validate h fileSize stage m) := by
  induction m with
  | done a => exact .pure _
  | fail why => exact failWith_quiet _ _ _ _
  | read offset length k ih => exact (checkedRead_quiet h _ _ _ _).bind ih

/-- A step that leaves the files alone leaves their content alone. -/
theorem content_meets {m : Work α} (hm : Moves Quiet m) (h : Handle) (f : List Byte) :
    Meets (fun j => j.host.content h = f) m (fun _ j => j.host.content h = f)
      fun j => j.host.content h = f := by
  refine hm.meets fun j j' hq hj => ?_
  cases h with
  | source => exact (congrArg Source.data hq.source).trans hj
  | temporary => exact hq.image.trans hj

variable {f : List Byte} {h : Handle}

/-- A read that succeeds gives the piece of the file. -/
theorem checkedRead_meets (fileSize offset length : Nat) (stage : Stage) :
    Meets (fun j => j.host.content h = f) (checkedRead h fileSize offset length stage)
      (fun got _ => got = serve f offset length ∧ got.length = length) fun _ => True := by
  refine .either (fun _ _ => trivial) ?_
  have hread : Meets (fun j => j.host.content h = f) (hostFileRead h offset length)
      (fun got _ => ∀ b, got = .ok b → b = serve f offset length ∧ b.length = length)
      fun _ => True := by
    refine .either (.pure fun _ _ _ hb => nomatch hb) ?_
    refine .bind ((content_meets hostCall_quiet h f).weaken (fun _ h => h) (fun _ _ h => h)
      fun _ _ => trivial) fun _ => ?_
    · refine .bind (Q := fun got _ => got = serve f offset length) ?_ fun got => ?_
      · exact .ask fun j hj => by rw [hj]
      · refine .either (.pure fun _ _ _ hb => nomatch hb) ?_
        refine .ite (fun _ => .pure fun _ _ _ hb => nomatch hb) fun hlen => .pure ?_
        intro _ hgot b hb
        cases hb
        exact ⟨hgot, not_not.mp hlen⟩
  refine .bind (hread.weaken (fun _ h => h) (fun _ _ h => h) fun _ _ => trivial) fun got => ?_
  cases got with
  | ok got => exact .pure fun _ hj => hj got rfl
  | error e => exact fun _ _ => trivial

/-- What a step finds out is what its program finds in the content of the file. -/
theorem validate_meets (fileSize : Nat) (stage : Stage) (m : Reader Failure Byte α) :
    Meets (fun j => j.host.content h = f) (validate h fileSize stage m)
      (fun a _ => m.run (serve f) = .ok a) fun _ => True := by
  induction m with
  | done a => exact .pure fun _ _ => rfl
  | fail why => exact fun _ _ => trivial
  | read offset length k ih =>
    have hread := (checkedRead_meets (f := f) (h := h) fileSize offset length stage).and
      (content_meets (checkedRead_quiet h fileSize offset length stage) h f)
    refine .bind (hread.weaken (fun _ h => ⟨h, h⟩) (fun _ _ h => h) fun _ _ => trivial)
      fun got => ?_
    rintro j ⟨⟨rfl, _⟩, hj⟩
    exact ih _ j hj

/-! ### Writing -/

theorem length_splice (f : List Byte) (offset : Nat) (bytes : List Byte)
    (h : rangeValid offset bytes.length f.length) : (splice f offset bytes).length = f.length := by
  obtain ⟨h₁, h₂⟩ := h
  rw [splice, List.length_append, List.length_append, List.takeD_length, List.length_drop]
  omega

theorem image_steady (g : Job → List Byte) :
    Moves Steady (Attempt.update fun j => { j with host := { j.host with image := g j } }) :=
  fun _ => ⟨rfl, fun _ _ h => h, fun _ h => h, fun _ h => .inl h, rfl, rfl, rfl, rfl, rfl, rfl⟩

theorem Quiet.steady {m : Work α} (hm : Moves Quiet m) : Moves Steady m :=
  hm.mono fun _ _ h => h.toSteady

theorem Quiet.keepsSize {m : Work α} (hm : Moves Quiet m) (n : Nat) :
    Moves (Sized n) m :=
  hm.mono fun _ _ h => h.sized n

theorem hostFileWrite_steady (offset : Nat) (bytes : List Byte) :
    Moves Steady (hostFileWrite offset bytes) := by
  refine .either (.pure _) <| (Quiet.steady hostCall_quiet).bind fun _ => ?_
  refine .either ?_ ?_
  · exact (image_steady _).bind fun _ => .pure _
  · exact (image_steady _).bind fun _ => .pure _

theorem splice_sized {n offset : Nat} {bytes : List Byte} (h : rangeValid offset bytes.length n) :
    Moves (Sized n) (Attempt.update fun j =>
      { j with host := { j.host with image := splice j.host.image offset bytes } }) := by
  intro j hj
  exact (length_splice _ _ _ (by rwa [hj])).trans hj

theorem hostFileWrite_sized {n offset : Nat} {bytes : List Byte}
    (h : rangeValid offset bytes.length n) : Moves (Sized n) (hostFileWrite offset bytes) := by
  refine .either (.pure _) <| (Quiet.keepsSize hostCall_quiet n).bind fun f => ?_
  refine .either ?_ ?_
  · refine (splice_sized ⟨h.1, ?_⟩).bind fun _ => .pure _
    rw [List.length_take]
    exact (Nat.min_le_right _ _).trans h.2
  · exact (splice_sized h).bind fun _ => .pure _

theorem checkedWrite_steady (fileSize offset : Nat) (bytes : List Byte) (stage : Stage) :
    Moves Steady (checkedWrite fileSize offset bytes stage) := by
  refine .either (Quiet.steady (failWith_quiet _ _ _ _)) ?_
  refine (hostFileWrite_steady offset bytes).bind fun done => ?_
  cases done with
  | ok _ => exact .pure _
  | error e => exact Quiet.steady (failWith_quiet _ _ _ _)

theorem checkedWrite_sized (fileSize offset : Nat) (bytes : List Byte) (stage : Stage) :
    Moves (Sized fileSize) (checkedWrite fileSize offset bytes stage) := by
  refine .ite (fun _ => Quiet.keepsSize (failWith_quiet _ _ _ _) _) fun h => ?_
  refine (hostFileWrite_sized (not_not.mp h)).bind fun done => ?_
  cases done with
  | ok _ => exact .pure _
  | error e => exact Quiet.keepsSize (failWith_quiet _ _ _ _) _

theorem hostFileResize_steady (size : Nat) (stage : Stage) (detail : String) :
    Moves Steady (hostFileResize size stage detail) := by
  refine .either (Quiet.steady (failWith_quiet _ _ _ _)) ?_
  refine (Quiet.steady hostCall_quiet).bind fun _ => ?_
  exact .either (Quiet.steady (failWith_quiet _ _ _ _)) <| image_steady _

/-- A write that succeeds has replaced the piece of the file. -/
theorem checkedWrite_meets (fileSize offset : Nat) (bytes : List Byte) (stage : Stage) :
    Meets (fun j => j.host.image = f) (checkedWrite fileSize offset bytes stage)
      (fun _ j => j.host.image = splice f offset bytes) fun _ => True := by
  refine .either (fun _ _ => trivial) ?_
  have hwrite : Meets (fun j => j.host.image = f) (hostFileWrite offset bytes)
      (fun done j => done = .ok () → j.host.image = splice f offset bytes) fun _ => True := by
    refine .either (.pure fun _ _ hd => nomatch hd) ?_
    refine .bind ((content_meets hostCall_quiet .temporary f).weaken (fun _ h => h)
      (fun _ _ h => h) fun _ _ => trivial) fun _ => ?_
    refine .either ?_ ?_
    · exact .bind (Q := fun _ _ => True) (.update fun _ _ => trivial) fun _ =>
        .pure fun _ _ hd => nomatch hd
    · refine .bind (Q := fun _ j => j.host.image = splice f offset bytes) (.update ?_)
        fun _ => .pure fun _ hj _ => hj
      exact fun j hj => congrArg (splice · offset bytes) hj
  refine .bind hwrite fun done => ?_
  cases done with
  | ok _ => exact .pure fun _ hj => hj rfl
  | error e => exact fun _ _ => trivial

/-- A file that has been resized has the size. -/
theorem hostFileResize_meets (size : Nat) (stage : Stage) (detail : String) :
    Meets (fun j => j.host.image = f) (hostFileResize size stage detail)
      (fun _ j => j.host.image = f.takeD size 0) fun _ => True := by
  refine .either (fun _ _ => trivial) ?_
  refine .bind ((content_meets hostCall_quiet .temporary f).weaken (fun _ h => h)
    (fun _ _ h => h) fun _ _ => trivial) fun _ => ?_
  refine .either (fun _ _ => trivial) <| .update fun j hj => ?_
  exact congrArg (List.takeD size · 0) hj

theorem run_steady (fileSize : Nat) (p : Patch α) : Moves Steady (p.run fileSize) := by
  induction p with
  | done a => exact .pure _
  | fail why => exact Quiet.steady (failWith_quiet _ _ _ _)
  | read offset length stage k ih =>
    exact (Quiet.steady (checkedRead_quiet _ _ _ _ _)).bind ih
  | write offset bytes stage k ih => exact (checkedWrite_steady _ _ _ _).bind fun _ => ih

/-- A patch leaves the file its length. -/
theorem run_sized (fileSize : Nat) (p : Patch α) :
    Moves (Sized fileSize) (p.run fileSize) := by
  induction p with
  | done a => exact .pure _
  | fail why => exact Quiet.keepsSize (failWith_quiet _ _ _ _) _
  | read offset length stage k ih =>
    exact (Quiet.keepsSize (checkedRead_quiet _ _ _ _ _) _).bind ih
  | write offset bytes stage k ih => exact (checkedWrite_sized _ _ _ _).bind fun _ => ih

/-! ### The parts of the call -/

theorem copyLoop_steady (o : Options) (buffer : IoBuffer) (sourceSize offset : Nat)
    (hashed : List Byte) : Moves Steady (copyLoop o buffer sourceSize offset hashed) := by
  fun_induction copyLoop with
  | case1 offset hashed hlt ih =>
    refine (Quiet.steady (askCancel_quiet o)).bind fun _ => ?_
    refine .either (Quiet.steady (failWith_quiet _ _ _ _)) ?_
    refine (Quiet.steady (checkedRead_quiet _ _ _ _ _)).bind fun bytes => ?_
    refine .either (Quiet.steady (failWith_quiet _ _ _ _)) ?_
    refine (checkedWrite_steady _ _ _ _).provided.bind fun _ => ?_
    exact .bind (Quiet.steady (note_quiet fun _ => rfl)) fun _ => ih bytes
  | case2 => exact .pure _

variable (steps : Steps)

theorem checkIdentity_quiet (o : Options) (hashed : List Byte) :
    Moves Quiet (checkIdentity steps o hashed) := by
  refine .bind (note_quiet fun _ => rfl) fun _ => .either ?_ <| .pure _
  exact .either (failWith_quiet _ _ _ _) <| note_quiet fun _ => rfl

theorem protectAllocations_steady (o : Options) (workSize : Nat) (volume : HfsVolume) :
    Moves Steady (protectAllocations steps o workSize volume) := by
  refine .either ?_ <| .pure _
  refine (run_steady _ _).bind fun _ => ?_
  refine .bind (Quiet.steady (note_quiet fun _ => rfl)) fun _ => ?_
  exact (Quiet.steady (validate_quiet _ _ _ _)).bind fun _ => .pure _

theorem protectAllocations_sized (o : Options) (workSize : Nat) (volume : HfsVolume) :
    Moves (Sized workSize) (protectAllocations steps o workSize volume) := by
  refine .either ?_ <| .pure _
  refine (run_sized _ _).bind fun _ => ?_
  refine .bind (Quiet.keepsSize (note_quiet fun _ => rfl) _) fun _ => ?_
  exact (Quiet.keepsSize (validate_quiet _ _ _ _) _).bind fun _ => .pure _

theorem rewriteFiles_steady (o : Options) (workSize : Nat) :
    Moves Steady (rewriteFiles steps o workSize) := by
  refine (run_steady _ _).provided.bind fun _ => (run_steady _ _).provided.bind fun _ => ?_
  exact (run_steady _ _).provided

theorem rewriteFiles_sized (o : Options) (workSize : Nat) :
    Moves (Sized workSize) (rewriteFiles steps o workSize) := by
  refine (run_sized _ _).provided.bind fun _ => (run_sized _ _).provided.bind fun _ => ?_
  exact (run_sized _ _).provided

theorem growVolume_steady (o : Options) (workSize : Nat) (volume : HfsVolume) :
    Moves Steady (growVolume steps o workSize volume) := by
  refine (run_steady _ _).bind fun plan => ?_
  cases plan with
  | none => exact .pure _
  | some size =>
    refine (hostFileResize_steady _ _ _).bind fun _ => ?_
    exact (run_steady _ _).bind fun _ => .pure _

/-- After the growth the image has the size that the growth answers. -/
theorem growVolume_meets (o : Options) (workSize : Nat) (volume : HfsVolume) :
    Meets (fun j => j.host.image.length = workSize) (growVolume steps o workSize volume)
      (fun size j => j.host.image.length = size) fun _ => True := by
  have hkeep {α : Type} {n : Nat} {m : Work α} (hm : Moves (Sized n) m) :
      Meets (fun j => j.host.image.length = n) m (fun _ j => j.host.image.length = n)
        fun _ => True :=
    (hm.meets fun _ _ h hj => h hj).weaken (fun _ h => h) (fun _ _ h => h) fun _ _ => trivial
  refine .bind (hkeep (run_sized _ _)) fun plan => ?_
  cases plan with
  | none => exact .pure fun _ hj => hj
  | some size =>
    refine .bind (Q := fun _ j => j.host.image.length = size) ?_ fun _ => ?_
    · intro j _
      have hresize := hostFileResize_meets (f := j.host.image) size .growWrite
        s!"cannot extend temporary work image to {size} bytes" j rfl
      match h : hostFileResize size .growWrite
          s!"cannot extend temporary work image to {size} bytes" j with
      | (some _, j') =>
        rw [h] at hresize
        exact (congrArg List.length hresize).trans (List.takeD_length _ _ _)
      | (none, _) => trivial
    · exact .bind (hkeep (run_sized _ _)) fun _ => .pure fun _ hj => hj

theorem provision_steady (o : Options) (workSize : Nat) :
    Moves Steady (provision steps o workSize) := by
  refine .either ?_ <| .pure _
  refine (Quiet.steady (validate_quiet _ _ _ _)).bind fun _ => (run_steady _ _).bind fun _ => ?_
  exact Quiet.steady (note_quiet fun _ => rfl)

theorem provision_sized (o : Options) (workSize : Nat) :
    Moves (Sized workSize) (provision steps o workSize) := by
  refine .either ?_ <| .pure _
  refine (Quiet.keepsSize (validate_quiet _ _ _ _) _).bind fun _ => (run_sized _ _).bind fun _ => ?_
  exact Quiet.keepsSize (note_quiet fun _ => rfl) _

end S5LBox.Rootfs
