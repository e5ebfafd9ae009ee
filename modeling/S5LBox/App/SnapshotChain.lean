import S5LBox.App.SnapshotCow

/-!
# Chains of snapshots

Every snapshot begins an overlay of its own. Where no process dies, it does not matter when the
library writes its buffer to the file: what the file and the buffer hold together is kept, and a
close brings all of it to the file. A restore replays the overlays on the disk, the newest first.

## Main definitions

* `World.unwritten`: the world in which the library has not written anything yet.
* `Snapshots`: a disk with the overlays of the snapshots that have been taken of it.

## Main results

* `World.restore_chain`: a restore gives the disk of the first snapshot.
-/

namespace S5LBox.App

open LittleEndian Pieces Reading Runs

namespace World

variable {old image file : List Byte} {order : List Nat} {s : World} {cow : VmCow}

/-- The world in which what a process has written to its overlay is still in the buffer. -/
def unwritten (s : World) : World :=
  match s.cow, s.overlay with
  | some cow, some file =>
    { s with overlay := some [], cow := some { cow with buffer := file ++ cow.buffer } }
  | _, _ => s

theorem unwritten_gone (hcow : s.cow = none) : s.unwritten = s := by
  rw [unwritten, hcow]

theorem not_onBoundary_nil : ¬OnBoundary [] := fun h => absurd h.1 (by decide)

theorem Sound.unwritten (h : Sound old s) : Sound old s.unwritten := by
  rw [World.unwritten.eq_def]
  split
  case h_1 cow file hcow hfile =>
    refine ⟨h.length, h.untouched, by rintro ⟨⟩, fun _ => h.whole (by simp [hfile]), ?_, ?_, ?_⟩
    · rintro _ ⟨⟩ hend
      exact absurd hend not_onBoundary_nil
    · rintro _ ⟨⟩ hend
      exact absurd hend not_onBoundary_nil
    · rintro _ _ ⟨⟩ ⟨⟩
      have hlive := h.live file cow hfile hcow
      exact ⟨hlive.log, hlive.saved, hlive.call⟩
  · exact h

theorem unwritten_drain (hcow : s.cow = some cow) (hfile : s.overlay = some file) (n : Nat) :
    (s.drain cow file n).unwritten = s.unwritten := by
  simp [unwritten, drain, hcow, hfile]

/-- A call does not look at what has been written. -/
theorem unwritten_proceed (hcow : s.cow = some cow) (hfile : s.overlay = some file) (call : CowCall)
    (a : CowAction) : (s.proceed cow call a).unwritten =
      s.unwritten.proceed { cow with buffer := file ++ cow.buffer } call a := by
  obtain ⟨image, _, _, touched⟩ := s
  obtain rfl := hcow
  obtain rfl := hfile
  rw [proceed.eq_def, proceed.eq_def]
  split_ifs
  · cases a with
    | save outcome =>
      dsimp only
      rw [save.eq_def, save.eq_def, apply_ite unwritten]
      cases outcome <;> simp [unwritten, refuse, attach]
    | _ => rfl
  · cases a with
    | disk n =>
      dsimp only
      rw [disk, disk, apply_ite unwritten]
      rfl
    | _ => rfl

theorem unwritten_write (hcow : s.cow = some cow) (hfile : s.overlay = some file) (offset : Nat)
    (source : List Byte) : (s.write cow offset source).unwritten =
      s.unwritten.write { cow with buffer := file ++ cow.buffer } offset source := by
  obtain ⟨image, _, _, touched⟩ := s
  obtain rfl := hcow
  obtain rfl := hfile
  rw [write, write, apply_ite unwritten]
  rfl

/-- The process does not die. -/
def Alive (_ : World) (a : CowAction) : Prop := ¬a matches .die

/-- What a step keeps while no process dies. -/
theorem Sound.stepAlive (hsize : old.length < 2 ^ 64) (s : World) (a : CowAction) (hok : Alive s a)
    (h : Sound old s.unwritten) : Sound old (s.step a).unwritten := by
  rw [World.step.eq_def]
  cases hcow : s.cow with
  | none =>
    rw [unwritten_gone hcow] at h
    dsimp only
    split_ifs
    · exact (h.launch hsize).unwritten
    · exact h.unwritten
  | some cow =>
    cases hfile : s.overlay with
    | none => exact h
    | some file =>
      dsimp only
      have hu : s.unwritten = { s with
          overlay := some [], cow := some { cow with buffer := file ++ cow.buffer } } := by
        rw [World.unwritten, hcow, hfile]
      have hcow' : s.unwritten.cow = some { cow with buffer := file ++ cow.buffer } := by rw [hu]
      have hfile' : s.unwritten.overlay = some [] := by rw [hu]
      have hflush := h.drain hfile' hcow' _ (h.flushed hsize hfile' hcow')
      cases hcall : cow.call with
      | none =>
        cases a with
        | die => exact absurd rfl hok
        | drain n => exact unwritten_drain hcow hfile n ▸ h
        | write offset source =>
          rw [unwritten_write hcow hfile]
          exact h.write hfile' hcow' offset source
        | flush => exact unwritten_drain hcow hfile _ ▸ h
        | close =>
          rw [unwritten_gone rfl]
          refine (congrArg (Sound old) ?_).mp hflush.gone
          simp [hu, World.drain, World.gone]
        | _ => exact h
      | some call =>
        have hproceed : Sound old (s.proceed cow call a).unwritten := by
          rw [unwritten_proceed hcow hfile]
          exact h.proceed hsize hfile' hcow' hcall fun _ _ hend =>
            absurd hend not_onBoundary_nil
        cases a with
        | die => exact absurd rfl hok
        | drain n => exact unwritten_drain hcow hfile n ▸ h
        | _ => exact hproceed

/-! ### A restore -/

/-- The header of an overlay is accepted for its disk. -/
theorem checkHeader_log (h : Log old file order []) (hsize : old.length < 2 ^ 64) :
    checkHeader file old.length = .ok () := by
  have hheader : serve file 0 headerBytes = cowHeader old.length := by
    rw [serve, List.drop_zero, h.bytes, List.take_left' (length_cowHeader _)]
  have hmagic : cowMagic.length = 9 := rfl
  have hfront : (cowMagic ++ List.replicate 3 0).length = 12 := rfl
  have hversion : serve (cowHeader old.length) 12 4 = encode 4 cowVersion := by
    simp only [cowHeader, serve, List.append_assoc]
    rw [← List.append_assoc, List.drop_left' hfront, List.take_left' (length_encode _ _)]
  have hblock : serve (cowHeader old.length) 16 4 = encode 4 blockBytes := by
    rw [serve, cowHeader, List.append_assoc, List.append_assoc, List.drop_left'
      (by simp [hmagic]), List.take_left' (length_encode _ _)]
  have hlength : serve (cowHeader old.length) 20 8 = encode 8 old.length := by
    rw [serve, cowHeader, List.append_assoc, List.drop_left' (by simp [hmagic]),
      List.take_left' (length_encode _ _)]
  have hname : (cowHeader old.length).take 9 = cowMagic := by
    simp only [cowHeader, List.append_assoc]
    exact List.take_left' rfl
  rw [checkHeader, hheader, hversion, hblock, hlength, hname, length_cowHeader,
    decode_encode (by decide), decode_encode (by decide), decode_encode hsize, if_neg,
    if_neg (not_not.mpr rfl)]
  decide +kernel

/-- A whole overlay takes the disk back to what it was. -/
theorem Sound.restores (h : Sound old s) (hsize : old.length < 2 ^ 64)
    (hfile : s.overlay = some file) (hend : OnBoundary file) :
    vmCowReplay file s.image = .ok old := by
  obtain ⟨_, hlog, -⟩ := h.records hsize hfile hend
  rw [vmCowReplay, h.length, checkHeader_log hlog hsize]
  change (if cowBody file % recordBytes ≠ 0 then _ else _) = _
  rw [if_neg (not_not.mpr hend.2), h.records_replay hsize hfile hend]

end World

/-- A restore: the overlays are replayed in turn. -/
def vmCowReplayAll (overlays : List (List Byte)) (onto : List Byte) :
    Except VmCowStatus (List Byte) :=
  overlays.foldlM (fun onto file => vmCowReplay file onto) onto

/-- The disk `image`, and the overlays of the snapshots since it was `old`, the newest first. A
snapshot is taken when the process has closed the overlay of the one before. -/
inductive Snapshots (old : List Byte) : List (List Byte) → List Byte → Prop
  | none : Snapshots old [] old
  | next {overlays : List (List Byte)} {image file : List Byte} {s : World}
      (h : Snapshots old overlays image) (run : Run World.step World.Alive (World.start image) s)
      (hcow : s.cow = none) (hfile : s.overlay = some file) (hend : World.OnBoundary file) :
      Snapshots old (file :: overlays) s.image

namespace World

/-- A restore goes back over any number of snapshots. Under each of them the disk was written by any
calls in any order, some of which failed or wrote a part, the library wrote its buffer whenever it
liked, and the process closed the overlay at last, with a whole number of records in it. Then

* the disk has kept its length;
* the replay of the overlays, the newest first, fails in none of them, and leaves the disk as it was
  when the first of the snapshots was taken.

With the disk of a later snapshot as `old` it says the same of the overlays since that one, so that
each of the disks between comes back too. -/
theorem restore_chain {old image : List Byte} {overlays : List (List Byte)}
    (hsize : old.length < 2 ^ 64) (h : Snapshots old overlays image) :
    image.length = old.length ∧ vmCowReplayAll overlays image = .ok old := by
  induction h with
  | none => exact ⟨rfl, rfl⟩
  | @next overlays image file s _ run hcow hfile hend ih =>
    obtain ⟨hlen, hrest⟩ := ih
    have hsize' : image.length < 2 ^ 64 := hlen ▸ hsize
    have hsound : Sound image s := by
      have hunwritten := run.keeps (I := fun s => Sound image s.unwritten)
        (Sound.stepAlive hsize') (Sound.start image).unwritten
      rwa [unwritten_gone hcow] at hunwritten
    refine ⟨hsound.length.trans hlen, ?_⟩
    rw [vmCowReplayAll, List.foldlM_cons, hsound.restores hsize' hfile hend]
    exact hrest

/-- The one block of a disk is saved and written, and the overlay is closed. -/
theorem run_closed {disk : List Byte} (hlen : disk.length = 4096) (b : Byte) :
    ∃ s, Run step Alive (start disk) s ∧ s.cow = none ∧
      s.overlay = some (cowHeader 4096 ++ record disk 0) ∧ s.image = overwrite disk 0 [b] := by
  have hadmitted : Admitted step Alive (start disk)
      [.launch, .write 0 [b], .save .taken, .disk 1, .close] := by
    simp [Admitted, Alive]
  have hne : disk ≠ [] := by
    rintro rfl
    exact absurd hlen (by decide)
  refine ⟨_, run_of_admitted hadmitted, ?_⟩
  simp [follow, step, start, launch, attach, drain, write, proceed, save, World.disk, gone, chunk,
    blockCount, CowCall.last, List.take_of_length_le, hlen, hne]

theorem onBoundary_record {disk : List Byte} (hlen : disk.length = 4096) :
    OnBoundary (cowHeader 4096 ++ record disk 0) := by
  have hrecord : (record disk 0).length = recordBytes := length_record (by rw [hlen]; decide)
  rw [OnBoundary, cowBody, List.length_append, length_cowHeader 4096, hrecord]
  decide

/-- The block is written under two snapshots, and the overlays of both give the first disk back. -/
theorem restore_chain_closed : ∃ overlays image, overlays.length = 2 ∧ image ≠ oneBlock ∧
    image.length = oneBlock.length ∧ vmCowReplayAll overlays image = .ok oneBlock := by
  have hlen : oneBlock.length = 4096 := List.length_replicate
  obtain ⟨s, run, hcow, hfile, himage⟩ := run_closed hlen 1
  have hlen' : s.image.length = 4096 := by
    rw [himage, length_overwrite (by simp), hlen]
  obtain ⟨s', run', hcow', hfile', himage'⟩ := run_closed hlen' 2
  have hchain := Snapshots.next (.next .none run hcow hfile (onBoundary_record hlen)) run' hcow'
    hfile' (onBoundary_record hlen')
  refine ⟨_, _, rfl, fun heq => ?_, restore_chain (by rw [hlen]; decide) hchain⟩
  have hfirst := congrArg (fun l => l[0]?) heq
  rw [himage', getElem?_overwrite (by simp [hlen'])] at hfirst
  simp at hfirst

end World

end S5LBox.App
