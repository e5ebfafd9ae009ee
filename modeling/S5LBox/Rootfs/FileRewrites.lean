import S5LBox.Rootfs.Publication
import S5LBox.Rootfs.RecordRewrites
import S5LBox.Tools.Sha256Exact

/-!
# The call with its rewrites and its digest

`rootfs_work_create` is modelled over steps that may be any programs. Here the three rewrites are
those of the records and the digest is the one of the streaming interface, which leaves the
validation, the growth and the provisioning of the volume.

## Main definitions

* `Steps.rewriting`: steps with the rewrites and the digest as they are.
* `Replaced`: what a rewrite makes of an image.

## Main results

* `rewriteFiles_replaces`: the image behind the rewrites that have been asked for.
* `Complete.digest`: the identity of a published image is that of the source by the standard.
-/

namespace S5LBox.Rootfs

open Attempts Borders Reading

/-! ### The steps -/

/-- A patch without its result. -/
def Patch.forget {α : Type} : Patch α → Patch Unit
  | .done _ => .done ()
  | .fail why => .fail why
  | .read offset length stage k => .read offset length stage fun got => (k got).forget
  | .write offset bytes stage k => .write offset bytes stage k.forget

theorem Patch.run_forget {α : Type} (n : Nat) (p : Patch α) :
    p.forget.run n = p.run n >>= fun _ => pure () := by
  induction p with
  | done a => rfl
  | fail why => rfl
  | read offset length stage k ih =>
    refine Eq.trans (congrArg (checkedRead .temporary n offset length stage >>= ·) (funext ih)) ?_
    funext j
    change Attempt.bind _ _ j = Attempt.bind (Attempt.bind _ _) _ j
    rw [Attempt.bind, Attempt.bind, Attempt.bind]
    rcases checkedRead .temporary n offset length stage j with ⟨_ | _, j'⟩ <;> rfl
  | write offset bytes stage k ih =>
    refine Eq.trans (congrArg (fun m => checkedWrite n offset bytes stage >>= fun _ => m) ih) ?_
    funext j
    change Attempt.bind _ _ j = Attempt.bind (Attempt.bind _ _) _ j
    rw [Attempt.bind, Attempt.bind, Attempt.bind]
    rcases checkedWrite n offset bytes stage j with ⟨_ | _, j'⟩ <;> rfl

/-- The digest of a message that is taken in at once. -/
def ios3Sha256 (message : List Byte) : List Byte :=
  let context := (Tools.Sha256.update Tools.Sha256.init (some message) message.length).2
  (Tools.Sha256.final context true).1.getD []

theorem ios3Sha256_eq {message : List Byte} (h : message.length ≤ Tools.Sha256.maxInputBytes) :
    ios3Sha256 message = Tools.Sha256.Standard.digest message := by
  have hread : Tools.Sha256.Readable (some message) message.length := by
    refine ⟨fun hnone => absurd hnone (Option.some_ne_none message), fun bytes hbytes => ?_⟩
    exact (congrArg List.length (Option.some.inj hbytes)).le
  have hlimit : ([] : List Byte).length + message.length ≤ Tools.Sha256.maxInputBytes := by
    rwa [List.length_nil, Nat.zero_add]
  obtain ⟨-, hall⟩ :=
    Tools.Sha256.update_accepted Tools.Sha256.represents_init hread hlimit
  rw [List.nil_append, Tools.Sha256.octetsOf, Option.getD_some, List.take_length] at hall
  rw [ios3Sha256, Tools.Sha256.final_accepted hall]
  rfl

/-- The steps, with the rewrites and the digest as they are. -/
def Steps.rewriting (steps : Steps) (buffer : IoBuffer) : Steps :=
  let scanned : {n : Nat // 0 < n} := ⟨buffer.1, buffer.2.1⟩
  { steps with
    fstabRewrite := fun n line => (Rootfs.fstabRewrite n scanned (some (octets line))).forget
    caPlistRewrite := fun n => (Rootfs.caPlistRewrite n scanned).forget
    pppPlistRewrite := fun n => (Rootfs.pppPlistRewrite n scanned).forget
    sha256 := ios3Sha256 }

/-- The required identity of a source that has been published is the digest of the standard. -/
theorem Complete.digest {steps : Steps} {buffer : IoBuffer} {o : Options} {h₀ : Host} {j : Job}
    (h : Complete (steps.rewriting buffer) o h₀ j) (hreq : o.sourceIdentity.required = true)
    (hsize : h₀.source.data.length ≤ sha256MaxInput) :
    o.sourceIdentity.expectedSha256 = Tools.Sha256.Standard.digest h₀.source.data :=
  (h.identity hreq).2.trans (ios3Sha256_eq hsize)

/-! ### The image -/

/-- The image `g` is `f` with the one occurrence of the stock record replaced, if that has been asked
for, and `f` if it has not. -/
structure Replaced (asked : Prop) (stock replacement f g : List Byte) : Prop where
  rewritten : asked → ∃ hit, occurrences stock f = [hit] ∧
    g = f.take hit ++ replacement ++ f.drop (hit + stock.length)
  same : ¬asked → g = f

variable {asked : Prop} {stock replacement f g : List Byte}

theorem Replaced.length_eq (h : Replaced asked stock replacement f g)
    (hsize : asked → replacement.length = stock.length) : g.length = f.length := by
  by_cases hasked : asked
  · obtain ⟨hit, honce, rfl⟩ := h.rewritten hasked
    have hle : hit + stock.length ≤ f.length :=
      add_length_le (honce ▸ List.mem_singleton_self hit)
    rw [List.length_append, List.length_append, List.length_take, List.length_drop, hsize hasked]
    omega
  · rw [h.same hasked]

/-- A rewrite that is made if it has been asked for. -/
theorem provided_replaces [Decidable asked] {n : Nat} {p : Nat → Patch Nat} (hn : f.length = n)
    (h : asked → Rewrites f stock replacement (p f.length)) :
    Meets (fun j => j.host.image = f) (Attempt.provided asked ((p n).forget.run n))
      (fun _ j => Replaced asked stock replacement f j.host.image) fun _ => True := by
  subst hn
  refine .provided (fun hasked => ?_) fun hasked j hj => ⟨fun h => absurd h hasked, fun _ => hj⟩
  rw [Patch.run_forget]
  have hrun := (h hasked).exact.weaken (fun _ hj => hj) (fun _ _ hj => hj) fun _ _ => trivial
  exact hrun.bind fun hit => .pure fun j hj => ⟨fun _ => ⟨hit, hj⟩, fun hno => absurd hasked hno⟩

/-- The rewrites that have been asked for are made one after the other, each in what the ones before
it have left, and in nothing but the one occurrence of its stock record. A line that is not accepted
ends the call. -/
theorem rewriteFiles_replaces (steps : Steps) (buffer : IoBuffer) (o : Options) (f : List Byte) :
    let line := octets (o.fstabLine.getD "")
    Meets (fun j => j.host.image = f) (rewriteFiles (steps.rewriting buffer) o f.length)
      (fun _ j => (¬o.preserveFstab → AcceptedLine line) ∧ ∃ g₁ g₂,
        Replaced (¬o.preserveFstab) fstabStock
          (fstabReplacement fstabStock.length (line.takeWhile (· ≠ 0))) f g₁ ∧
        Replaced o.caSoftwareRender caPlistStock caPlistSoftwareRender g₁ g₂ ∧
        Replaced o.pppLaunchdJob pppPlistStock pppPlistJob g₂ j.host.image)
      fun _ => True := by
  intro line
  let scanned : {n : Nat // 0 < n} := ⟨buffer.1, buffer.2.1⟩
  have hca : caPlistSoftwareRender.length = caPlistStock.length :=
    length_caPlist.2.trans length_caPlist.1.symm
  have hppp : pppPlistJob.length = pppPlistStock.length :=
    length_pppPlist.2.trans length_pppPlist.1.symm
  have hfstab : Meets (fun j => j.host.image = f)
      (Attempt.provided (¬o.preserveFstab)
        ((Rootfs.fstabRewrite f.length scanned (some line)).forget.run f.length))
      (fun _ j => (¬o.preserveFstab → AcceptedLine line) ∧
        Replaced (¬o.preserveFstab) fstabStock
          (fstabReplacement fstabStock.length (line.takeWhile (· ≠ 0))) f j.host.image)
      fun _ => True := by
    by_cases hline : AcceptedLine line
    · have hrun := provided_replaces (p := fun n => Rootfs.fstabRewrite n scanned (some line)) rfl
        fun _ : ¬o.preserveFstab => fstabRewrite_accepted hline f scanned
      exact hrun.weaken (fun _ hj => hj) (fun _ _ hj => ⟨fun _ => hline, hj⟩) fun _ hj => hj
    · refine .provided (fun _ => ?_) fun hno j hj =>
        ⟨fun hasked => absurd hasked hno, fun hasked => absurd hasked hno, fun _ => hj⟩
      obtain ⟨why, hfail⟩ := fstabRewrite_refused
        (fun l hl => Option.some.inj hl ▸ hline) f.length scanned
      rw [hfail]
      exact fun _ _ => trivial
  rw [rewriteFiles, Steps.rewriting]
  dsimp only
  refine hfstab.bind fun _ j₁ hj₁ => ?_
  obtain ⟨hline, hfirst⟩ := hj₁
  have hlength₁ : j₁.host.image.length = f.length :=
    hfirst.length_eq fun hasked => length_fstabReplacement (hline hasked).2.1
  have hcaRun := provided_replaces (p := fun n => Rootfs.caPlistRewrite n scanned) hlength₁
    fun _ : o.caSoftwareRender = true =>
      plistRewrite_rewrites (List.length_pos_iff.mp (length_caPlist.1 ▸ by decide)) hca
        j₁.host.image scanned _ _ _ _ _ _
  refine hcaRun.bind (fun _ j₂ hsecond => ?_) j₁ rfl
  have hlength₂ : j₂.host.image.length = f.length :=
    (hsecond.length_eq fun _ => hca).trans hlength₁
  have hpppRun := provided_replaces (p := fun n => Rootfs.pppPlistRewrite n scanned) hlength₂
    fun _ : o.pppLaunchdJob = true =>
      plistRewrite_rewrites (List.length_pos_iff.mp (length_pppPlist.1 ▸ by decide)) hppp
        j₂.host.image scanned _ _ _ _ _ _
  exact hpppRun.weaken (fun _ hj => hj)
    (fun _ j hthird => ⟨hline, j₁.host.image, j₂.host.image, hfirst, hsecond, hthird⟩)
    (fun _ hj => hj) j₂ rfl

end S5LBox.Rootfs
