import S5LBox.Lib.Runs
import S5LBox.Media.Bridge

/-!
# Coherence of the media with guest memory

What the guest has written through the bridge it reads back, as long as no service has written
over it: between two services the guest may do what it likes to the core and to its memory, and
the callbacks of the block may answer whatever their contract allows.

## Main definitions

* `World`, `MdAction`, `mdStep`: the bridge with its machine, and what goes on in it.
* `Contract`: the callbacks of a bridge.
* `written`: the range of the media that a service writes.

## Main results

* `mediaCoherent`: the strategy path.
-/

namespace S5LBox.Media

open Runs

variable {η : Type} {B : ArmBus (Board η)}

/-! ### Translations -/

theorem mmuWalk_keeps {σ : Type} {B : ArmBus σ} {I : σ → Prop}
    (hread : ∀ b pa, I b → I (B.read32 b pa).2) {b : σ} (h : I b) (p : Cp15) (va : Word)
    (acc : ArmAccess) (priv : Bool) (pa : Word) : I (mmuWalk B p va acc priv pa b).2.2 := by
  rw [mmuWalk]
  split_ifs
  · exact h
  · exact h
  · dsimp only
    split
    · exact hread _ _ (hread _ _ h)
    · exact hread _ _ h

/-- A translation for data only reads. -/
theorem armMmuTranslate_keeps {σ : Type} {B : ArmBus σ} {I : σ → Prop}
    (hread : ∀ b pa, I b → I (B.read32 b pa).2) {s : Sys σ} (h : I s.bus) (va : Word)
    {acc : ArmAccess} (hacc : acc ≠ .fetch) (priv : Bool) (pa : Word) :
    I (Exec.armMmuTranslate B va acc priv pa s).2.bus := by
  by_cases hM : s.cpu.cp15.sctlr &&& armSctlrM = 0
  · rw [Exec.armMmuTranslate_off va acc priv pa s hM]
    exact h
  · rcases Exec.armMmuTranslate_on (B := B) va acc priv pa s hM with ⟨-, hrun⟩ | ⟨-, hrun⟩
    · rw [hrun]
      dsimp only
      rw [Exec.tlbReady_bus]
      exact h
    · rw [hrun]
      dsimp only [Exec.tlbMissed, Exec.missBus]
      rw [if_neg fun hfetch => hacc hfetch.2]
      exact mmuWalk_keeps hread h _ _ _ _ _

/-! ### What a request has passed -/

theorem rangeContains_iff {base size address length : BitVec 64} :
    rangeContains base size address length = true ↔
      base.toNat ≤ address.toNat ∧ address.toNat - base.toNat + length.toNat ≤ size.toNat := by
  rw [rangeContains]
  split_ifs with hout
  · refine iff_of_false nofun ?_
    bv_omega
  · rw [decide_eq_true_iff]
    bv_omega

/-- A range in another one, by offsets. -/
theorem offset_of_rangeContains {base size address length : BitVec 64}
    (h : rangeContains base size address length = true) :
    (address - base).toNat + length.toNat ≤ size.toNat := by
  obtain ⟨hle, hfits⟩ := rangeContains_iff.mp h
  rw [BitVec.toNat_sub_of_le hle]
  exact hfits

theorem toNat_setWidth_word (w : Word) : (w.setWidth 64 : BitVec 64).toNat = w.toNat :=
  BitVec.toNat_setWidth_of_le (by decide)

/-- What the checks of a request have established. -/
structure Admitted (c : MdBridgeConfig η) (e : MdBridgeError) : Prop where
  valid : mdBridgeConfigValid c = true
  direction : e.direction = identifySite c e.pc e.encoding
  recognised : e.direction ≠ .none
  positive : 0 < e.length.toNat
  page : e.length.toNat ≤ 4096
  ram : c.ramOffset e + e.length.toNat ≤ c.ramSize.toNat
  media : e.mediaOffset.toNat + e.length.toNat ≤ c.mediaSize.toNat

theorem MdBridgeError.refuse_ne (e e' : MdBridgeError) (code : MdBridgeErrorCode) :
    e.refuse code ≠ .ready e' := nofun

variable {c : MdBridgeConfig η} {cpu : ArmCpu} {pc encoding : Word} {e e₀ : MdBridgeError}

theorem mdBridgeChecks_ready (h : mdBridgeChecks c cpu pc encoding = .ready e) :
    mdBridgeConfigValid c = true ∧ e.direction = identifySite c pc encoding ∧
      e.direction ≠ .none ∧ e.pc = pc ∧ e.encoding = encoding := by
  unfold mdBridgeChecks at h
  dsimp only at h
  split_ifs at h with hsite hthumb huser hmode hvalid hpage halign
  · exact absurd h (MdBridgeError.refuse_ne _ _ _)
  · exact absurd h (MdBridgeError.refuse_ne _ _ _)
  · exact absurd h (MdBridgeError.refuse_ne _ _ _)
  · exact absurd h (MdBridgeError.refuse_ne _ _ _)
  · cases h
    exact ⟨by simpa using hvalid, rfl, hsite, rfl, rfl⟩

theorem mdBridgeOperands_ready {ram : Octets} (h : mdBridgeOperands c cpu ram e₀ = .ready e) :
    e.direction = e₀.direction ∧ e.pc = e₀.pc ∧ e.encoding = e₀.encoding ∧ 0 < e.length.toNat ∧
      e.length.toNat ≤ 4096 ∧ c.ramOffset e + e.length.toNat ≤ c.ramSize.toNat ∧
        e.mediaOffset.toNat + e.length.toNat ≤ c.mediaSize.toNat := by
  unfold mdBridgeOperands at h
  dsimp only at h
  split_ifs at h with hstack hlength hhigh htoken hguest htokenPage hguestPage
  · exact absurd h (MdBridgeError.refuse_ne _ _ _)
  · exact absurd h (MdBridgeError.refuse_ne _ _ _)
  · exact absurd h (MdBridgeError.refuse_ne _ _ _)
  · exact absurd h (MdBridgeError.refuse_ne _ _ _)
  · exact absurd h (MdBridgeError.refuse_ne _ _ _)
  · exact absurd h (MdBridgeError.refuse_ne _ _ _)
  · exact absurd h (MdBridgeError.refuse_ne _ _ _)
  · cases h
    rw [not_or] at hlength
    rw [Bool.not_eq_true', Bool.not_eq_false] at htoken hguest
    have hmedia := offset_of_rangeContains htoken
    have hram := offset_of_rangeContains hguest
    rw [toNat_setWidth_word] at hmedia hram
    obtain ⟨hpositive, hpage⟩ := hlength
    refine ⟨rfl, rfl, rfl, ?_, ?_, hram, hmedia⟩
    · exact Nat.pos_of_ne_zero fun hzero => hpositive (BitVec.eq_of_toNat_eq hzero)
    · have hle := BitVec.le_def.mp (BitVec.not_lt.mp hpage)
      rw [toNat_setWidth_word] at hle
      exact hle

theorem mdBridgeRequest_of_ready {s : Sys (Board η)} {error : MdBridgeError}
    (h : mdBridgeChecks c s.cpu pc encoding = .ready error) :
    mdBridgeRequest B c pc encoding s =
      let t := Exec.armMmuTranslate B error.stackVa .read true 0 s
      let error := { error with stackPa := t.1.2, mmuStatus := t.1.1 }
      if t.1.1 ≠ 0 then (error.refuse .stackTranslation, t.2)
      else (mdBridgeOperands c t.2.cpu t.2.bus.ram error, t.2) := by
  rw [mdBridgeRequest, h]

theorem mdBridgeRequest_ready {s : Sys (Board η)}
    (h : (mdBridgeRequest B c pc encoding s).1 = .ready e) :
    Admitted c e ∧ e.pc = pc ∧ e.encoding = encoding := by
  unfold mdBridgeRequest at h
  cases hchecks : mdBridgeChecks c s.cpu pc encoding with
  | unhandled =>
    rw [hchecks] at h
    cases h
  | refused error =>
    rw [hchecks] at h
    cases h
  | ready error =>
    rw [hchecks] at h
    dsimp only at h
    split_ifs at h with hstatus
    · exact absurd h (MdBridgeError.refuse_ne _ _ _)
    · obtain ⟨hvalid, hdirection, hrecognised, hpc, hencoding⟩ := mdBridgeChecks_ready hchecks
      obtain ⟨hdirection', hpc', hencoding', hpositive, hpage, hram, hmedia⟩ :=
        mdBridgeOperands_ready h
      dsimp only at hdirection' hpc' hencoding'
      refine ⟨⟨hvalid, ?_, ?_, hpositive, hpage, hram, hmedia⟩, ?_, ?_⟩
      · rw [hdirection', hpc', hencoding', hpc, hencoding, hdirection]
      · rw [hdirection']
        exact hrecognised
      · rw [hpc', hpc]
      · rw [hencoding', hencoding]

/-! ### The contract -/

/-- The callbacks of a bridge: those of its block carry the media, the others leave them alone, and
what the bus reads stays as it is. -/
structure Contract (B : ArmBus (Board η)) (c : MdBridgeConfig η) (media : η → Octets) : Prop where
  block : Backs c.block media
  cancelled : PollsOnly c.cancelled media
  ramChanged : ∀ f, c.ramChanged = some f → ∀ h pa n, media (f h pa n) = media h
  readRam : ∀ m pa, (B.read32 m pa).2.ram = m.ram
  readMedia : ∀ m pa, media (B.read32 m pa).2.host = media m.host

variable {media : η → Octets}

/-- A request changes neither RAM nor the media. -/
theorem Contract.request (hc : Contract B c media) (pc encoding : Word) (s : Sys (Board η)) :
    (mdBridgeRequest B c pc encoding s).2.bus.ram = s.bus.ram ∧
      media (mdBridgeRequest B c pc encoding s).2.bus.host = media s.bus.host := by
  cases hchecks : mdBridgeChecks c s.cpu pc encoding with
  | unhandled =>
    rw [mdBridgeRequest, hchecks]
    exact ⟨rfl, rfl⟩
  | refused error =>
    rw [mdBridgeRequest, hchecks]
    exact ⟨rfl, rfl⟩
  | ready error =>
    have hkeeps := armMmuTranslate_keeps (B := B)
      (I := fun m => m.ram = s.bus.ram ∧ media m.host = media s.bus.host)
      (fun m pa h => ⟨(hc.readRam m pa).trans h.1, (hc.readMedia m pa).trans h.2⟩) ⟨rfl, rfl⟩
      error.stackVa (show ArmAccess.read ≠ .fetch from nofun) true 0
    by_cases hstatus : (Exec.armMmuTranslate B error.stackVa .read true 0 s).1.1 = 0
    · rw [mdBridgeRequest_of_ready hchecks, if_neg (not_not.mpr hstatus)]
      exact hkeeps
    · rw [mdBridgeRequest_of_ready hchecks, if_pos hstatus]
      exact hkeeps

theorem Contract.notice (hc : Contract B c media) (e : MdBridgeError) (h : η) :
    media (c.notice e h) = media h := by
  unfold MdBridgeConfig.notice
  cases hchanged : c.ramChanged with
  | none => rfl
  | some f => exact hc.ramChanged f hchanged h _ _

/-! ### The transfers -/

variable {b : MdBridge η}

section Transfers

variable {e : MdBridgeError} {m : Board η}

theorem mdBridgeRead_failed {r : Outcome (Octets × η)} (hsome : ¬b.config.block.readAt.isNone)
    (hr : vmBlockReadExact b.config.block e.mediaOffset b.scratch (e.length.setWidth 64)
      b.config.cancelled m.host = r) (hstatus : r.status ≠ .ok) :
    (mdBridgeRead b e m).1 = .error ∧ (mdBridgeRead b e m).2.1.config = b.config ∧
      (mdBridgeRead b e m).2.2 = { m with host := r.state.2 } := by
  rw [mdBridgeRead, if_neg hsome, hr, if_pos hstatus]
  exact ⟨rfl, MdBridge.fail_config _ _, rfl⟩

theorem mdBridgeRead_handled {r : Outcome (Octets × η)} (hsome : ¬b.config.block.readAt.isNone)
    (hr : vmBlockReadExact b.config.block e.mediaOffset b.scratch (e.length.setWidth 64)
      b.config.cancelled m.host = r) (hstatus : r.status = .ok) :
    (mdBridgeRead b e m).1 = .handled ∧ (mdBridgeRead b e m).2.1.config = b.config ∧
      (mdBridgeRead b e m).2.2 =
        { ram := memcpy m.ram (b.config.ramOffset e) r.state.1 e.length.toNat
          host := b.config.notice e r.state.2 } := by
  rw [mdBridgeRead, if_neg hsome, hr, if_neg (not_not.mpr hstatus)]
  exact ⟨rfl, MdBridge.countRead_config _ _, rfl⟩

theorem mdBridgeWrite_failed {r : Outcome η} (hsome : ¬b.config.block.writeAt.isNone)
    (hr : vmBlockWriteExact b.config.block e.mediaOffset (b.staged e m) (e.length.setWidth 64)
      b.config.cancelled m.host = r) (hstatus : r.status ≠ .ok) :
    (mdBridgeWrite b e m).1 = .error ∧ (mdBridgeWrite b e m).2.1.config = b.config ∧
      (mdBridgeWrite b e m).2.1.lastError.transferred = r.transferred ∧
        (mdBridgeWrite b e m).2.2 = { m with host := r.state } := by
  rw [mdBridgeWrite, if_neg hsome, hr, if_pos hstatus]
  exact ⟨rfl, MdBridge.fail_config _ _, rfl, rfl⟩

theorem mdBridgeWrite_handled {r : Outcome η} (hsome : ¬b.config.block.writeAt.isNone)
    (hr : vmBlockWriteExact b.config.block e.mediaOffset (b.staged e m) (e.length.setWidth 64)
      b.config.cancelled m.host = r) (hstatus : r.status = .ok) :
    (mdBridgeWrite b e m).1 = .handled ∧ (mdBridgeWrite b e m).2.1.config = b.config ∧
      (mdBridgeWrite b e m).2.2 = { m with host := r.state } := by
  rw [mdBridgeWrite, if_neg hsome, hr, if_neg (not_not.mpr hstatus)]
  exact ⟨rfl, MdBridge.countWrite_config _ _, rfl⟩

/-- A valid configuration has both callbacks. -/
theorem mdBridgeConfigValid_callbacks {c : MdBridgeConfig η} (h : mdBridgeConfigValid c = true) :
    ¬c.block.readAt.isNone ∧ ¬c.block.writeAt.isNone := by
  rw [← not_or]
  intro hnone
  rw [mdBridgeConfigValid, if_pos hnone] at h
  cases h

/-- A read ends in one of two ways: RAM has the media at the guest's operand, or is as it was. -/
theorem Contract.read (hc : Contract B b.config media)
    (hvalid : mdBridgeConfigValid b.config = true) (e : MdBridgeError) (m : Board η) :
    (mdBridgeRead b e m).2.1.config = b.config ∧
      media (mdBridgeRead b e m).2.2.host = media m.host ∧
      (((mdBridgeRead b e m).1 = .handled ∧
        (mdBridgeRead b e m).2.2.ram = memcpy m.ram (b.config.ramOffset e)
          (fun i => media m.host (e.mediaOffset.toNat + i)) e.length.toNat) ∨
      ((mdBridgeRead b e m).1 = .error ∧ (mdBridgeRead b e m).2.2.ram = m.ram)) := by
  have hsome := (mdBridgeConfigValid_callbacks hvalid).1
  obtain ⟨r, hr⟩ : ∃ r, vmBlockReadExact b.config.block e.mediaOffset b.scratch
      (e.length.setWidth 64) b.config.cancelled m.host = r := ⟨_, rfl⟩
  have hexact : Exactly e.mediaOffset (e.length.setWidth 64 : BitVec 64).toNat r :=
    hr ▸ vmBlockReadExact_exactly _ _ _ _ _ _
  obtain ⟨hmedia, hoctets⟩ := vmBlockReadExact_media hc.block hc.cancelled hr
  by_cases hstatus : r.status = .ok
  · obtain ⟨hresult, hconfig, hboard⟩ := mdBridgeRead_handled hsome hr hstatus
    have hall := hexact.ok hstatus
    rw [toNat_setWidth_word] at hall
    rw [hresult, hboard]
    refine ⟨hconfig, (hc.notice _ _).trans hmedia, .inl ⟨rfl, ?_⟩⟩
    funext i
    dsimp only
    rw [memcpy, memcpy]
    split_ifs with hin
    · exact hoctets _ (by omega)
    · rfl
  · obtain ⟨hresult, hconfig, hboard⟩ := mdBridgeRead_failed hsome hr hstatus
    rw [hresult, hboard]
    exact ⟨hconfig, hmedia, .inr ⟨rfl, rfl⟩⟩

/-- Octets copied from a copy are those copied there. -/
theorem memcpy_staged {dst src scratch : Octets} {o n k : Nat} (h : k ≤ n) :
    memcpy dst o (memcpy scratch 0 src n) k = memcpy dst o src k := by
  funext i
  change (if o ≤ i ∧ i < o + k then memcpy scratch 0 src n (i - o) else dst i) =
    if o ≤ i ∧ i < o + k then src (i - o) else dst i
  split_ifs with hin
  · have hi : i - o < n := by omega
    have hinside : memcpy scratch 0 src n (0 + (i - o)) = src (i - o) := memcpy_inside hi
    rwa [Nat.zero_add] at hinside
  · rfl

/-- A write leaves RAM alone, and puts into the media what it reports. -/
theorem Contract.write (hc : Contract B b.config media)
    (hvalid : mdBridgeConfigValid b.config = true) (e : MdBridgeError) (m : Board η) :
    (mdBridgeWrite b e m).2.1.config = b.config ∧
      ∃ n ≤ e.length.toNat, (mdBridgeWrite b e m).2.2.ram = m.ram ∧
      media (mdBridgeWrite b e m).2.2.host = memcpy (media m.host) e.mediaOffset.toNat
        (fun i => m.ram (b.config.ramOffset e + i)) n ∧
      (((mdBridgeWrite b e m).1 = .handled ∧ n = e.length.toNat) ∨
        ((mdBridgeWrite b e m).1 = .error ∧
          (mdBridgeWrite b e m).2.1.lastError.transferred = n)) := by
  have hsome := (mdBridgeConfigValid_callbacks hvalid).2
  obtain ⟨r, hr⟩ : ∃ r, vmBlockWriteExact b.config.block e.mediaOffset (b.staged e m)
      (e.length.setWidth 64) b.config.cancelled m.host = r := ⟨_, rfl⟩
  have hexact : Exactly e.mediaOffset (e.length.setWidth 64 : BitVec 64).toNat r :=
    hr ▸ vmBlockWriteExact_exactly _ _ _ _ _ _
  have hwithin := hexact.within
  rw [toNat_setWidth_word] at hwithin
  have hmedia := vmBlockWriteExact_media hc.block hc.cancelled hr
  rw [MdBridge.staged, memcpy_staged hwithin] at hmedia
  by_cases hstatus : r.status = .ok
  · obtain ⟨hresult, hconfig, hboard⟩ := mdBridgeWrite_handled hsome hr hstatus
    have hall := hexact.ok hstatus
    rw [toNat_setWidth_word] at hall
    rw [hresult, hboard]
    exact ⟨hconfig, r.transferred, hwithin, rfl, hmedia, .inl ⟨rfl, hall⟩⟩
  · obtain ⟨hresult, hconfig, hreported, hboard⟩ := mdBridgeWrite_failed hsome hr hstatus
    rw [hresult, hboard, hreported]
    exact ⟨hconfig, r.transferred, hwithin, rfl, hmedia, .inr ⟨rfl, rfl⟩⟩

end Transfers

/-! ### Worlds -/

/-- The bridge with its machine. -/
structure World (η : Type) where
  bridge : MdBridge η
  sys : Sys (Board η)

/-- Guest RAM. -/
abbrev World.ram (w : World η) : Octets := w.sys.bus.ram

/-- The media. -/
abbrev World.disk (w : World η) (media : η → Octets) : Octets := media w.sys.bus.host

/-- What goes on: the guest and the platform, which leave any machine they like, and services. -/
inductive MdAction (η : Type)
  | guest (sys : Sys (Board η))
  | svc (pc encoding : Word)

/-- The answer to a service. -/
def World.answer (B : ArmBus (Board η)) (w : World η) (pc encoding : Word) : ArmSvcResult :=
  (mdBridgeHandleSvc B w.bridge pc encoding w.sys).1

/-- The world after a service. -/
def World.served (B : ArmBus (Board η)) (w : World η) (pc encoding : Word) : World η :=
  let r := mdBridgeHandleSvc B w.bridge pc encoding w.sys
  ⟨r.2.1, r.2.2⟩

/-- One action. -/
def mdStep (B : ArmBus (Board η)) (a : MdAction η) (w : World η) : World η :=
  match a with
  | .guest sys => { w with sys }
  | .svc pc encoding => w.served B pc encoding

/-- The request that a service finds. -/
def World.request (B : ArmBus (Board η)) (w : World η) (pc encoding : Word) : MdRequest :=
  (mdBridgeRequest B w.bridge.config pc encoding w.sys).1

/-- The range of the media that a service writes, by its offset and its length: the whole range of
a write that is handled, and what the error of a failed one reports. -/
def written (B : ArmBus (Board η)) (w : World η) (pc encoding : Word) : Nat × Nat :=
  match w.request B pc encoding with
  | .ready e =>
    if e.direction = .write then
      (e.mediaOffset.toNat,
        if w.answer B pc encoding = .handled then e.length.toNat
        else (w.served B pc encoding).bridge.lastError.transferred)
    else (0, 0)
  | _ => (0, 0)

/-- An action that writes nothing to the octet `a` of the media. -/
def Spares (B : ArmBus (Board η)) (media : η → Octets) (a : Nat) (w : World η) :
    MdAction η → Prop
  | .guest sys => media sys.bus.host = w.disk media
  | .svc pc encoding =>
    ¬((written B w pc encoding).1 ≤ a ∧
      a < (written B w pc encoding).1 + (written B w pc encoding).2)

/-- A service at the site of a direction that is handled, with its request. -/
structure Handled (B : ArmBus (Board η)) (w : World η) (pc encoding : Word)
    (direction : MdBridgeDirection) (e : MdBridgeError) : Prop where
  site : identifySite w.bridge.config pc encoding = direction
  request : w.request B pc encoding = .ready e
  answer : w.answer B pc encoding = .handled

section Served

variable {w w' : World η}

theorem mdBridgeHandleSvc_ready {s : Sys (Board η)}
    (h : (mdBridgeRequest B b.config pc encoding s).1 = .ready e) :
    mdBridgeHandleSvc B b pc encoding s =
      transferred (mdBridgeRequest B b.config pc encoding s).2
        (mdBridgeTransfer b e (mdBridgeRequest B b.config pc encoding s).2.bus) := by
  rw [mdBridgeHandleSvc]
  generalize mdBridgeRequest B b.config pc encoding s = q at h ⊢
  obtain ⟨request, s'⟩ := q
  cases h
  rfl

/-- A service that makes no transfer changes neither RAM nor the media. -/
theorem World.served_refused (hc : Contract B w.bridge.config media)
    (h : ∀ e, w.request B pc encoding ≠ .ready e) :
    w.answer B pc encoding ≠ .handled ∧ (w.served B pc encoding).ram = w.ram ∧
      (w.served B pc encoding).disk media = w.disk media ∧
        (w.served B pc encoding).bridge.config = w.bridge.config := by
  obtain ⟨hram, hdisk⟩ := hc.request pc encoding w.sys
  unfold World.request at h
  unfold World.answer World.served World.ram World.disk
  rw [mdBridgeHandleSvc]
  generalize mdBridgeRequest B w.bridge.config pc encoding w.sys = q at h hram hdisk ⊢
  obtain ⟨request, s'⟩ := q
  cases request with
  | unhandled => exact ⟨nofun, hram, hdisk, rfl⟩
  | refused error => exact ⟨nofun, hram, hdisk, MdBridge.fail_config _ _⟩
  | ready error => exact absurd rfl (h error)

/-- What a read comes to. -/
theorem World.served_read (hc : Contract B w.bridge.config media)
    (h : w.request B pc encoding = .ready e) (hdirection : e.direction = .read) :
    (w.served B pc encoding).bridge.config = w.bridge.config ∧
      (w.served B pc encoding).disk media = w.disk media ∧
      ((w.answer B pc encoding = .handled ∧
        (w.served B pc encoding).ram = memcpy w.ram (w.bridge.config.ramOffset e)
          (fun i => w.disk media (e.mediaOffset.toNat + i)) e.length.toNat) ∨
      (w.answer B pc encoding = .error ∧ (w.served B pc encoding).ram = w.ram)) := by
  obtain ⟨hram, hdisk⟩ := hc.request pc encoding w.sys
  obtain ⟨hadmitted, -, -⟩ := mdBridgeRequest_ready h
  have hread := hc.read hadmitted.valid e (mdBridgeRequest B w.bridge.config pc encoding w.sys).2.bus
  unfold World.answer World.served World.ram World.disk
  rw [mdBridgeHandleSvc_ready h, mdBridgeTransfer, if_pos hdirection]
  rw [hram, hdisk] at hread
  exact hread

/-- What a write comes to: it changes what it is said to have written, and takes that from RAM. -/
theorem World.served_write (hc : Contract B w.bridge.config media)
    (h : w.request B pc encoding = .ready e) (hdirection : e.direction = .write) :
    (w.served B pc encoding).bridge.config = w.bridge.config ∧
      (w.served B pc encoding).ram = w.ram ∧
      (w.served B pc encoding).disk media = memcpy (w.disk media) e.mediaOffset.toNat
        (fun i => w.ram (w.bridge.config.ramOffset e + i)) (written B w pc encoding).2 ∧
      (written B w pc encoding).1 = e.mediaOffset.toNat ∧
      (w.answer B pc encoding = .handled → (written B w pc encoding).2 = e.length.toNat) := by
  obtain ⟨hram, hdisk⟩ := hc.request pc encoding w.sys
  obtain ⟨hadmitted, -, -⟩ := mdBridgeRequest_ready h
  have hwrite := hc.write hadmitted.valid e
    (mdBridgeRequest B w.bridge.config pc encoding w.sys).2.bus
  have hread : ¬e.direction = .read := by
    rw [hdirection]
    exact nofun
  rw [hram, hdisk] at hwrite
  have hserved : mdBridgeHandleSvc B w.bridge pc encoding w.sys = transferred _ _ :=
    mdBridgeHandleSvc_ready h
  rw [mdBridgeTransfer, if_neg hread] at hserved
  have hconfig : (w.served B pc encoding).bridge.config = w.bridge.config := by
    rw [World.served, hserved]
    exact hwrite.1
  obtain ⟨-, n, hle, hkept, hmedia, hend⟩ := hwrite
  have hram' : (w.served B pc encoding).ram = w.ram := by
    rw [World.ram, World.served, hserved]
    exact hkept
  have hdisk' : (w.served B pc encoding).disk media = memcpy (w.disk media) e.mediaOffset.toNat
      (fun i => w.ram (w.bridge.config.ramOffset e + i)) n := by
    rw [World.disk, World.served, hserved]
    exact hmedia
  rw [written, h]
  dsimp only
  rw [if_pos hdirection]
  rcases hend with ⟨hresult, hn⟩ | ⟨hresult, hn⟩
  · have hanswer : w.answer B pc encoding = .handled := by
      rw [World.answer, hserved]
      exact hresult
    rw [if_pos hanswer, ← hn]
    exact ⟨hconfig, hram', hdisk', rfl, fun _ => rfl⟩
  · have hanswer : ¬w.answer B pc encoding = .handled := by
      rw [World.answer, hserved]
      exact fun hhandled => absurd (hresult.symm.trans hhandled) nofun
    have hcount : (w.served B pc encoding).bridge.lastError.transferred = n := by
      rw [World.served, hserved]
      exact hn
    rw [if_neg hanswer, hcount]
    exact ⟨hconfig, hram', hdisk', rfl, fun hhandled => absurd hhandled hanswer⟩

/-- The direction of a request is that of its site. -/
theorem World.request_direction (h : w.request B pc encoding = .ready e) :
    e.direction = identifySite w.bridge.config pc encoding ∧
      (e.direction = .read ∨ e.direction = .write) := by
  obtain ⟨hadmitted, hpc, hencoding⟩ := mdBridgeRequest_ready h
  refine ⟨by rw [hadmitted.direction, hpc, hencoding], ?_⟩
  cases hdirection : e.direction with
  | none => exact absurd hdirection hadmitted.recognised
  | read => exact .inl rfl
  | write => exact .inr rfl

/-- A service that is handled is one of the two sites. -/
theorem World.handled (hc : Contract B w.bridge.config media)
    (h : w.answer B pc encoding = .handled) :
    ∃ direction e, (direction = .read ∨ direction = .write) ∧
      Handled B w pc encoding direction e := by
  cases hrequest : w.request B pc encoding with
  | unhandled =>
    have hno := (World.served_refused hc fun e => by rw [hrequest]; exact nofun).1
    exact absurd h hno
  | refused error =>
    have hno := (World.served_refused hc fun e => by rw [hrequest]; exact nofun).1
    exact absurd h hno
  | ready e =>
    obtain ⟨hsite, hdirection⟩ := World.request_direction hrequest
    exact ⟨e.direction, e, hdirection, hsite.symm, hrequest, h⟩

/-! ### Runs -/

/-- An action keeps the contract, and an octet that it spares. -/
theorem mdStep_spares {a : Nat} {act : MdAction η} (hspares : Spares B media a w act)
    (hc : Contract B w.bridge.config media) :
    Contract B (mdStep B act w).bridge.config media ∧
      (mdStep B act w).disk media a = w.disk media a := by
  cases act with
  | guest sys => exact ⟨hc, congrFun hspares a⟩
  | svc pc encoding =>
    change Contract B (w.served B pc encoding).bridge.config media ∧
      (w.served B pc encoding).disk media a = w.disk media a
    cases hrequest : w.request B pc encoding with
    | unhandled =>
      obtain ⟨-, -, hdisk, hconfig⟩ :=
        World.served_refused hc fun e => by rw [hrequest]; exact nofun
      rw [hconfig, hdisk]
      exact ⟨hc, rfl⟩
    | refused error =>
      obtain ⟨-, -, hdisk, hconfig⟩ :=
        World.served_refused hc fun e => by rw [hrequest]; exact nofun
      rw [hconfig, hdisk]
      exact ⟨hc, rfl⟩
    | ready e =>
      rcases (World.request_direction hrequest).2 with hread | hwrite
      · obtain ⟨hconfig, hdisk, -⟩ := World.served_read hc hrequest hread
        rw [hconfig, hdisk]
        exact ⟨hc, rfl⟩
      · obtain ⟨hconfig, -, hdisk, hoffset, -⟩ := World.served_write hc hrequest hwrite
        rw [hconfig, hdisk]
        refine ⟨hc, if_neg ?_⟩
        rw [← hoffset]
        exact hspares

/-- A run keeps the octets that all of its actions spare. -/
theorem run_spares {a : Nat} (hc : Contract B w.bridge.config media)
    (run : Run (mdStep B) (Spares B media a) w w') :
    Contract B w'.bridge.config media ∧ w'.disk media a = w.disk media a := by
  refine run.keeps (I := fun v => Contract B v.bridge.config media ∧
    v.disk media a = w.disk media a) ?_ ⟨hc, rfl⟩
  rintro v act hspares ⟨hcv, hv⟩
  obtain ⟨hconfig, hstep⟩ := mdStep_spares hspares hcv
  exact ⟨hconfig, hstep.trans hv⟩

end Served

/-- The strategy path is coherent, for any machine, any block behind its callbacks and any order of
services:

* what is answered as handled is a read or a write at one of the two sites;
* a write that is handled leaves RAM alone and puts the octets of its range of RAM on the media, and
  whatever goes on after it, a read that is handled gives back each of them that nothing has written
  over;
* a service at the site of reads puts exactly the octets of the media into its range of RAM, which
  lies inside, or is not handled and leaves RAM alone: half a read is never published;
* a transfer over the callbacks calls them for consecutive parts of its range and nothing else,
  comes to success exactly with the whole range, and reports what it has moved, however few octets
  the callbacks take at a time and however often they ask for another try. -/
theorem mediaCoherent {w : World η} {media : η → Octets}
    (hc : Contract B w.bridge.config media) :
    -- What is handled is a read or a write of one of the sites.
    (∀ pc encoding, w.answer B pc encoding = .handled → ∃ direction e,
      (direction = .read ∨ direction = .write) ∧ Handled B w pc encoding direction e) ∧
    -- After a write the media have what RAM has, and a later read gives it back.
    (∀ pc encoding e, Handled B w pc encoding .write e →
      (w.served B pc encoding).ram = w.ram ∧
      (∀ i < e.length.toNat, (w.served B pc encoding).disk media (e.mediaOffset.toNat + i) =
        w.ram (w.bridge.config.ramOffset e + i)) ∧
      ∀ a w', Run (mdStep B) (Spares B media a) (w.served B pc encoding) w' →
        ∀ pc' encoding' e', Handled B w' pc' encoding' .read e' →
          ∀ i < e.length.toNat, ∀ j < e'.length.toNat, e.mediaOffset.toNat + i = a →
            e'.mediaOffset.toNat + j = a →
              (w'.served B pc' encoding').ram (w'.bridge.config.ramOffset e' + j) =
                w.ram (w.bridge.config.ramOffset e + i)) ∧
    -- A read puts the media into its range of RAM, or leaves RAM alone.
    (∀ pc encoding, identifySite w.bridge.config pc encoding = .read →
      (∃ e, Handled B w pc encoding .read e ∧
        w.bridge.config.ramOffset e + e.length.toNat ≤ w.bridge.config.ramSize.toNat ∧
        (w.served B pc encoding).ram = memcpy w.ram (w.bridge.config.ramOffset e)
          (fun i => w.disk media (e.mediaOffset.toNat + i)) e.length.toNat) ∨
      (w.answer B pc encoding ≠ .handled ∧ (w.served B pc encoding).ram = w.ram)) ∧
    -- The transfers of any block are exact, whatever its callbacks answer.
    (∀ (block : VmBlock η) (offset length : BitVec 64) (buffer : Octets)
      (cancelled : Option (η → Bool × η)) (h : η),
      Exactly offset length.toNat (vmBlockReadExact block offset buffer length cancelled h) ∧
      (∀ i, length.toNat ≤ i →
        (vmBlockReadExact block offset buffer length cancelled h).state.1 i = buffer i) ∧
      Exactly offset length.toNat (vmBlockWriteExact block offset buffer length cancelled h) ∧
      (Backs block media → PollsOnly cancelled media →
        (∀ r, vmBlockReadExact block offset buffer length cancelled h = r →
          media r.state.2 = media h ∧
            ∀ i < r.transferred, r.state.1 i = media h (offset.toNat + i)) ∧
        ∀ r, vmBlockWriteExact block offset buffer length cancelled h = r →
          media r.state = memcpy (media h) offset.toNat buffer r.transferred)) := by
  refine ⟨fun pc encoding => World.handled hc, ?_, ?_, ?_⟩
  · intro pc encoding e hhandled
    have hwrite : e.direction = .write :=
      (World.request_direction hhandled.request).1.trans hhandled.site
    obtain ⟨hconfig, hram, hdisk, -, hall⟩ := World.served_write hc hhandled.request hwrite
    rw [hall hhandled.answer] at hdisk
    have hwritten : ∀ i < e.length.toNat, (w.served B pc encoding).disk media
        (e.mediaOffset.toNat + i) = w.ram (w.bridge.config.ramOffset e + i) := by
      intro i hi
      rw [hdisk]
      exact memcpy_inside hi
    refine ⟨hram, hwritten, ?_⟩
    intro a w' run pc' encoding' e' hhandled' i hi j hj ha ha'
    have hc' : Contract B (w.served B pc encoding).bridge.config media := by rwa [hconfig]
    obtain ⟨hcw', hkept⟩ := run_spares hc' run
    have hread : e'.direction = .read :=
      (World.request_direction hhandled'.request).1.trans hhandled'.site
    obtain ⟨-, -, ⟨-, hpublished⟩ | ⟨hfailed, -⟩⟩ := World.served_read hcw' hhandled'.request hread
    · rw [hpublished, memcpy_inside hj, ha', hkept, ← ha]
      exact hwritten i hi
    · rw [hhandled'.answer] at hfailed
      cases hfailed
  · intro pc encoding hsite
    cases hrequest : w.request B pc encoding with
    | unhandled =>
      obtain ⟨hno, hram, -⟩ := World.served_refused hc fun e => by rw [hrequest]; exact nofun
      exact .inr ⟨hno, hram⟩
    | refused error =>
      obtain ⟨hno, hram, -⟩ := World.served_refused hc fun e => by rw [hrequest]; exact nofun
      exact .inr ⟨hno, hram⟩
    | ready e =>
      have hread : e.direction = .read := (World.request_direction hrequest).1.trans hsite
      have hinside := (mdBridgeRequest_ready hrequest).1.ram
      obtain ⟨-, -, ⟨hanswer, hram⟩ | ⟨hanswer, hram⟩⟩ := World.served_read hc hrequest hread
      · exact .inl ⟨e, ⟨hsite, hrequest, hanswer⟩, hinside, hram⟩
      · refine .inr ⟨?_, hram⟩
        rw [hanswer]
        exact nofun
  · intro block offset length buffer cancelled h
    refine ⟨vmBlockReadExact_exactly _ _ _ _ _ _, fun i hi => vmBlockReadExact_outside _ hi,
      vmBlockWriteExact_exactly _ _ _ _ _ _, ?_⟩
    intro hb hpoll
    exact ⟨fun r hr => vmBlockReadExact_media hb hpoll hr,
      fun r hr => vmBlockWriteExact_media hb hpoll hr⟩

/-! ### A block in memory -/

/-- A block of one page that is all there in memory, and does what it is asked at once. -/
def pageBlock : VmBlock Octets where
  size := 4096
  readAt := some fun h offset _ n => ((.ok, n), fun i => h (offset.toNat + i), h)
  writeAt := some fun h offset source n => ((.ok, n), memcpy h offset.toNat source n)

/-- A bridge between one page of RAM and that block. -/
def pageConfig : MdBridgeConfig Octets where
  readSite := ⟨0x100, 0xdfe1⟩
  writeSite := ⟨0x200, 0xdfe2⟩
  tokenBase := 0x80000000
  mediaSize := 4096
  ramBase := 0
  ramSize := 4096
  block := pageBlock

/-- A bus that has the RAM alone. -/
def pageBus : ArmBus (Board Octets) where
  read32 m pa := (ld32 m.ram pa.toNat, m)
  read16 m pa := ((ld32 m.ram pa.toNat).setWidth 16, m)
  read8 m pa := (m.ram pa.toNat, m)
  write32 m _ _ := m
  write16 m _ _ := m
  write8 m _ _ := m

/-- The machine at a service, its operands in `r0` and `r2`; the word at `sp` has the length. -/
def pageSys (r0 r2 : Word) (bus : Board Octets) : Sys (Board Octets) where
  cpu := {
    cpsr := 0x33
    r := fun n => if n = 0 then r0 else if n = 2 then r2 else 0 }
  bus := bus

/-- A write of the two octets at `0x20` of RAM to the media, which are all sevens. -/
def pageWorld : World Octets where
  bridge := { config := pageConfig }
  sys := pageSys 0x20 0x80000005 {
    ram := fun i => if i = 0 then 2 else if i = 0x20 then 0x41 else if i = 0x21 then 0x42 else 0
    host := fun _ => 7 }

/-- The world when the write has been served. -/
def pageWritten : World Octets := pageWorld.served pageBus 0x200 0xdfe2

/-- The guest has lost the octets, and asks for two that begin with the second of them. -/
def pageLater : World Octets :=
  mdStep pageBus (.guest (pageSys 0x80000006 0x30 {
    ram := fun i => if i = 0 then 2 else 0
    host := pageWritten.sys.bus.host })) pageWritten

theorem pageWorld_contract : Contract pageBus pageWorld.bridge.config id where
  block := {
    read := by
      intro readAt hread h offset destination n _ _ _
      cases hread
      exact ⟨⟨nofun, le_rfl, fun hno => absurd rfl hno⟩, fun _ _ => rfl, rfl⟩
    write := by
      intro writeAt hwrite h offset source n _ _ _
      cases hwrite
      exact ⟨⟨nofun, le_rfl, fun hno => absurd rfl hno⟩, rfl⟩ }
  cancelled := nofun
  ramChanged := nofun
  readRam _ _ := rfl
  readMedia _ _ := rfl

/-- The request of the write. -/
def pageWrite : MdBridgeError where
  direction := .write
  pc := 0x200
  encoding := 0xdfe2
  length := 2
  source := 0x20
  destination := 0x80000005
  mediaOffset := 5

/-- The request of the read. -/
def pageRead : MdBridgeError where
  direction := .read
  pc := 0x100
  encoding := 0xdfe1
  length := 2
  source := 0x80000006
  destination := 0x30
  mediaOffset := 6

theorem pageWorld_request : pageWorld.request pageBus 0x200 0xdfe2 = .ready pageWrite := by
  decide +kernel

theorem pageLater_config : pageLater.bridge.config = pageConfig :=
  (World.served_write pageWorld_contract pageWorld_request rfl).1

theorem pageLater_request : pageLater.request pageBus 0x100 0xdfe1 = .ready pageRead := by
  rw [World.request, pageLater_config]
  decide +kernel

theorem pageBlock_write (source h : Octets) :
    (vmBlockWriteExact pageBlock 5 source 2 none h).status = .ok := by
  rw [vmBlockWriteExact, if_neg (by decide), if_neg (by decide)]
  simp [pageBlock, exactLoop, polled, writeCall, answer, vmBlockMaxCallbackBytes, Outcome.after]

theorem pageBlock_read (destination h : Octets) :
    (vmBlockReadExact pageBlock 6 destination 2 none h).status = .ok := by
  rw [vmBlockReadExact, if_neg (by decide), if_neg (by decide)]
  simp [pageBlock, exactLoop, stagedPoll, polled, readCall, answer, vmBlockMaxCallbackBytes,
    Outcome.after]

theorem pageWorld_handled : Handled pageBus pageWorld 0x200 0xdfe2 .write pageWrite := by
  refine ⟨by decide, pageWorld_request, ?_⟩
  have hwrite := mdBridgeWrite_handled (b := pageWorld.bridge) (e := pageWrite)
    (m := (mdBridgeRequest pageBus pageConfig 0x200 0xdfe2 pageWorld.sys).2.bus)
    Bool.false_ne_true rfl (pageBlock_write _ _)
  rw [World.answer, mdBridgeHandleSvc_ready pageWorld_request]
  exact hwrite.1

theorem pageLater_handled : Handled pageBus pageLater 0x100 0xdfe1 .read pageRead := by
  refine ⟨by rw [pageLater_config]; decide, pageLater_request, ?_⟩
  have hread := mdBridgeRead_handled (b := pageLater.bridge) (e := pageRead)
    (m := (mdBridgeRequest pageBus pageLater.bridge.config 0x100 0xdfe1 pageLater.sys).2.bus)
    (by rw [pageLater_config]; exact Bool.false_ne_true) rfl
    (by rw [pageLater_config]; exact pageBlock_read _ _)
  rw [World.answer, mdBridgeHandleSvc_ready pageLater_request]
  exact hread.1

theorem pageWritten_spared : pageWritten.disk id 7 = 7 := by
  obtain ⟨-, -, -, hoffset, hlength⟩ :=
    World.served_write pageWorld_contract pageWorld_request rfl
  have hspares : Spares pageBus id 7 pageWorld (.svc 0x200 0xdfe2) := by
    change ¬((written pageBus pageWorld 0x200 0xdfe2).1 ≤ 7 ∧
      7 < (written pageBus pageWorld 0x200 0xdfe2).1 + (written pageBus pageWorld 0x200 0xdfe2).2)
    rw [hoffset, hlength pageWorld_handled.answer]
    decide
  exact (run_spares pageWorld_contract (.next _ .start hspares)).2

/-- What the guest has written is on the media and comes back with a read that overlaps the write,
and the octet after it is the one that was there. -/
theorem mediaCoherent_page :
    pageWritten.disk id 5 = 0x41 ∧ pageWritten.disk id 6 = 0x42 ∧
      (pageLater.served pageBus 0x100 0xdfe1).ram 0x30 = 0x42 ∧
      (pageLater.served pageBus 0x100 0xdfe1).ram 0x31 = 7 := by
  obtain ⟨-, hwritten, hlater⟩ :=
    (mediaCoherent pageWorld_contract).2.1 0x200 0xdfe2 pageWrite pageWorld_handled
  have run : Run (mdStep pageBus) (Spares pageBus id 6) pageWritten pageLater :=
    .next _ .start rfl
  refine ⟨hwritten 0 (by decide), hwritten 1 (by decide), ?_, ?_⟩
  · have hback := hlater 6 pageLater run 0x100 0xdfe1 pageRead pageLater_handled 1 (by decide) 0
      (by decide) (by decide) (by decide)
    rw [pageLater_config] at hback
    exact hback
  · have hc : Contract pageBus pageLater.bridge.config id := by
      rw [pageLater_config]
      exact pageWorld_contract
    obtain ⟨e, hhandled, -, hram⟩ | ⟨hno, -⟩ := (mediaCoherent hc).2.2.1 0x100 0xdfe1
      pageLater_handled.site
    · have he : e = pageRead :=
        MdRequest.ready.inj (hhandled.request.symm.trans pageLater_request)
      rw [hram, he, pageLater_config]
      exact (memcpy_inside (o := 0x30) (i := 1) (by decide)).trans pageWritten_spared
    · exact absurd pageLater_handled.answer hno

end S5LBox.Media
