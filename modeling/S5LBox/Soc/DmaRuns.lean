import S5LBox.Soc.DmaSteps

/-!
# The loops of the DMA controller as steps of its channels

The loops of the controller, however the request lines answer, are steps of one channel after the
other. What the lines answer decides only where a channel stops.

## Main definitions

* `Grants`: request lines that always answer from here on.
* `ItemRun`, `ChannelRun`: what one item and one channel come to.

## Main results

* `runItem_end`, `runItems_run`: the loops take steps.
-/

namespace S5LBox.Soc

open Determined

variable {σ ρ : Type} {bus : DmaBus σ} {ready : Option (ReadyFn ρ)} {c : Fin pl080Channels}
  {it : Item} {e e' : Engine σ} {r r' : ρ}

/-! ### One item -/

/-- The request lines answer from every state of `P`, and stay in it. -/
def Grants (ready : Option (ReadyFn ρ)) (P : ρ → Prop) : Prop :=
  ∀ it ch r, P r → (requested ready it ch r).1 = true ∧ P (requested ready it ch r).2

theorem grants_none : Grants (none : Option (ReadyFn ρ)) fun _ => True :=
  fun _ _ _ _ => ⟨rfl, trivial⟩

theorem transfers_of_grants {P : ρ → Prop} (bus : DmaBus σ) (hP : Grants ready P) (it : Item) (n pend pb : Nat)
    (e : Engine σ) (h : P r) :
    (transfers bus ready it n pend pb r e).1 = false ∧
      P (transfers bus ready it n pend pb r e).2.1 := by
  induction n generalizing pend pb e r with
  | zero => exact ⟨rfl, h⟩
  | succ n ih =>
    rw [transfers]
    by_cases hpb : pb = 0
    · obtain ⟨hgranted, hnext⟩ := hP it e.ch r h
      simp only [if_pos hpb, hgranted, if_true]
      exact ih _ _ _ hnext
    · simp only [if_neg hpb, if_true]
      exact ih _ _ _ h

theorem transfers_stalled (it : Item) {n : Nat} (hn : 0 < n) (e : Engine σ)
    (h : (requested ready it e.ch r).1 = false) :
    transfers bus ready it n 0 0 r e = (true, (requested ready it e.ch r).2, e) := by
  obtain ⟨n, rfl⟩ : ∃ k, n = k + 1 := ⟨n - 1, by omega⟩
  rw [transfers, if_pos rfl]
  simp only [h, Bool.false_eq_true, if_false]

/-- The items that a channel has gone on to, four words each. -/
def fetches (log : List Access) : Nat := log.countP Access.isFetch

/-- What the loop of an item comes to, with `n` transfers from the source left before it. -/
structure ItemRun (bus : DmaBus σ) (c : Fin pl080Channels) (n : Nat) (e : Engine σ) (stalled : Bool)
    (e' : Engine σ) : Prop where
  runs : Runs (engineStep bus c) e e'
  enabled : e'.ch.Enabled
  movable : Movable e'.ch
  fetches_eq : fetches e'.log = fetches e.log
  length_le : e'.log.length ≤ e.log.length + 5 * n
  done : stalled = false → ctrlSize e'.ch.ctrl = 0

theorem Item.Fits.puts_le (h : it.Fits) : it.takes + it.puts ≤ 5 * it.takes := by
  obtain ⟨hs, hd⟩ := h
  rw [Item.takes, Item.puts]
  obtain hs | hs | hs := hs <;> obtain hd | hd | hd := hd <;> rw [hs, hd] <;> decide

theorem Item.Fits.takes_pos (h : it.Fits) : 0 < it.takes := by
  obtain ⟨hs, hd⟩ := h
  rw [Item.takes]
  obtain hs | hs | hs := hs <;> obtain hd | hd | hd := hd <;> rw [hs, hd] <;> decide

theorem takeMany_length (bus : DmaBus σ) (it : Item) (m n pend pb : Nat) (e : Engine σ) :
    (takeMany bus it m n pend pb e).2.log.length = e.log.length + m := by
  induction m generalizing n pend pb e with
  | zero => rfl
  | succ m ih =>
    refine (ih (n - 1) _ _ _).trans ?_
    simp only [List.length_append, List.length_singleton]
    omega

theorem drain_length (bus : DmaBus σ) (it : Item) (k pend : Nat) (e : Engine σ) :
    (drain bus it k pend e).2.log.length = e.log.length + k := by
  induction k generalizing pend e with
  | zero => rfl
  | succ k ih =>
    refine (ih _ _).trans ?_
    simp only [putDestination, List.length_append, List.length_singleton]
    omega

/-- What a burst leaves of an item that can be moved. -/
structure BurstLeaves (e e' : Engine σ) : Prop where
  movable : Movable e'.ch
  item : itemOf e'.ch = itemOf e.ch
  cfg : e'.ch.cfg = e.ch.cfg
  size : ctrlSize e'.ch.ctrl = ctrlSize e.ch.ctrl - (itemOf e.ch).takes
  fetches_eq : fetches e'.log = fetches e.log
  length_le : e'.log.length ≤ e.log.length + 5 * (itemOf e.ch).takes

theorem burst_leaves (bus : DmaBus σ) (h : Movable e.ch) (hn : 0 < ctrlSize e.ch.ctrl) :
    BurstLeaves e (burst bus e) := by
  obtain ⟨more, hlog, hmoved, hsize, -⟩ := burst_moved bus (.start e.ch) h hn
  rw [List.nil_append] at hmoved
  have hwhole := (h.fits.takes_le hn h.whole).2
  have hsw : ctrlSwidth (burst bus e).ch.ctrl = ctrlSwidth e.ch.ctrl := by
    rw [ctrlSwidth, ctrlSwidth, ctrl_field _ (by decide), ctrl_field _ (by decide),
      hmoved.fields _ (by decide)]
  have hdw : ctrlDwidth (burst bus e).ch.ctrl = ctrlDwidth e.ch.ctrl := by
    rw [ctrlDwidth, ctrlDwidth, ctrl_field _ (by decide), ctrl_field _ (by decide),
      hmoved.fields _ (by decide)]
  constructor
  case movable =>
    refine ⟨?_, ?_, ?_, ?_⟩
    · rw [hsw]
      exact h.source
    · rw [hdw]
      exact h.destination
    · rw [hmoved.cfg]
      exact h.flow
    · rw [hsw, hdw, hsize]
      exact hwhole
  case item => exact hmoved.itemOf_eq
  case cfg => exact hmoved.cfg
  case size => exact hsize
  case fetches_eq =>
    rw [fetches, fetches, hlog, List.countP_append, hmoved.transfers, Nat.add_zero]
  case length_le =>
    have hputs := h.fits.puts_le
    have hlength : (burst bus e).log.length =
        e.log.length + (itemOf e.ch).takes + (itemOf e.ch).puts := by
      rw [burst, drain_length, takeMany_length]
    omega

/-- The loop of an item takes bursts, until the lines do not answer or the count is used up. -/
theorem transfers_runs (bus : DmaBus σ) (c : Fin pl080Channels) (ready : Option (ReadyFn ρ)) {n : Nat}
    (h : Movable e.ch) (hen : e.ch.Enabled) (hn : ctrlSize e.ch.ctrl = n) (r : ρ) :
    ItemRun bus c n e (transfers bus ready (itemOf e.ch) n 0 0 r e).1
      (transfers bus ready (itemOf e.ch) n 0 0 r e).2.2 := by
  induction n using Nat.strong_induction_on generalizing e r with
  | _ n ih =>
    obtain hzero | hpos := Nat.eq_zero_or_pos n
    · rw [hzero]
      exact ⟨.refl e, hen, h, rfl, le_rfl, fun _ => hn.trans hzero⟩
    cases hrequest : (requested ready (itemOf e.ch) e.ch r).1 with
    | false =>
      rw [transfers_stalled _ hpos e hrequest]
      exact ⟨.refl e, hen, h, rfl, Nat.le_add_right _ _, 
        fun hdone : true = false => Bool.noConfusion hdone⟩
    | true =>
      subst hn
      have hleaves := burst_leaves bus h hpos
      have htakes := (h.fits.takes_le hpos h.whole).1
      have htakes' := h.fits.takes_pos
      have hen' : (burst bus e).ch.Enabled := by
        rw [Pl080Chan.Enabled, runnable, hleaves.cfg]
        exact hen
      have hrest := ih (ctrlSize e.ch.ctrl - (itemOf e.ch).takes) (by omega) hleaves.movable hen'
        hleaves.size (requested ready (itemOf e.ch) e.ch r).2
      have hgranted : transfers bus ready _ _ 0 0 r e = _ := transfers_granted h.fits
        (ctrlSize e.ch.ctrl - (itemOf e.ch).takes) r e hrequest
      rw [Nat.sub_add_cancel htakes] at hgranted
      rw [hgranted]
      rw [hleaves.item] at hrest
      have hlength' := hleaves.length_le
      exact ⟨.trans (.one (engineStep_burst hen h hpos)) hrest.runs, hrest.enabled, hrest.movable,
        hrest.fetches_eq.trans hleaves.fetches_eq, hrest.length_le.trans (by omega), hrest.done⟩

/-- The accesses of an item at most: its transfers, and the words of the next one. -/
def itemAccesses : Nat := 5 * 4095 + 4

/-- What an item comes to. -/
structure ItemEnd (bus : DmaBus σ) (c : Fin pl080Channels) (e : Engine σ) (again : Bool)
    (e' : Engine σ) : Prop where
  runs : Runs (engineStep bus c) e e'
  enabled : again = true → e'.ch.Enabled
  fetches_eq : fetches e'.log = fetches e.log + if again then 4 else 0
  length_le : e'.log.length ≤ e.log.length + itemAccesses
  start : again = true → ∀ ch₀, EngineInv ch₀ e → ItemStart ch₀ e'.log e'.ch

theorem finishItem_end (bus : DmaBus σ) (c : Fin pl080Channels) (h : Movable e.ch)
    (hen : e.ch.Enabled) (hn : ctrlSize e.ch.ctrl = 0) :
    Runs (engineStep bus c) e (finishItem bus c e).2 ∧
      ((finishItem bus c e).1 = true ↔ (finishItem bus c e).2.ch.Enabled) ∧
      fetches (finishItem bus c e).2.log =
        fetches e.log + (if (finishItem bus c e).1 then 4 else 0) ∧
      (finishItem bus c e).2.log.length ≤ e.log.length + 4 ∧
      ((finishItem bus c e).1 = true → e.ch.lli ≠ 0) := by
  refine ⟨.one (engineStep_finish hen h hn), ?_⟩
  by_cases hlli : e.ch.lli = 0
  · obtain ⟨hagain, hlog, hch⟩ := finishItem_last bus c hlli
    rw [hagain, hlog, hch]
    exact ⟨iff_of_false (by decide) (not_enabled_disable _), rfl, Nat.le_add_right _ _,
      fun h => absurd h (by decide)⟩
  · obtain ⟨src, dst, lli, ctrl, hagain, hlog, hch⟩ := finishItem_next bus c hlli
    rw [hagain, hlog, hch]
    refine ⟨iff_of_true rfl hen, ?_, ?_, fun _ => hlli⟩
    · rw [fetches, List.countP_append]
      rfl
    · rw [List.length_append]
      exact le_rfl

theorem runItem_end (bus : DmaBus σ) (ready : Option (ReadyFn ρ)) (c : Fin pl080Channels)
    (hen : e.ch.Enabled) (r : ρ) :
    ItemEnd bus c e (runItem bus ready c r e).1 (runItem bus ready c r e).2.2 := by
  rw [runItem]
  cases hrefuse : refuseItem e.ch e.d with
  | some d =>
    exact ⟨.one (engineStep_refused hen hrefuse), fun h : false = true => Bool.noConfusion h, rfl,
      Nat.le_add_right _ _, fun h : false = true => Bool.noConfusion h⟩
  | none =>
    have hmovable := refuseItem_eq_none.mp hrefuse
    have hrun := transfers_runs bus c ready hmovable hen rfl r
    have hsize : ctrlSize e.ch.ctrl ≤ 4095 := Nat.le_of_lt_succ (ctrlSize_lt _)
    obtain ⟨stalled, r', e', htransfers⟩ : ∃ stalled r' e',
        transfers bus ready (itemOf e.ch) (ctrlSize e.ch.ctrl) 0 0 r e = (stalled, r', e') :=
      ⟨_, _, _, rfl⟩
    rw [htransfers] at hrun
    have hlength : e'.log.length ≤ e.log.length + 5 * ctrlSize e.ch.ctrl := hrun.length_le
    have hmax : itemAccesses = 5 * 4095 + 4 := rfl
    dsimp only
    rw [htransfers]
    cases stalled with
    | true =>
      refine ⟨hrun.runs, fun h : false = true => Bool.noConfusion h, hrun.fetches_eq, ?_,
        fun h : false = true => Bool.noConfusion h⟩
      change e'.log.length ≤ _
      omega
    | false =>
      obtain ⟨hruns, henabled, hfetches, hlength', hlli⟩ :=
        finishItem_end bus c hrun.movable hrun.enabled (hrun.done rfl)
      refine ⟨hrun.runs.trans hruns, henabled.mp, ?_, ?_, fun hagain ch₀ hi => ?_⟩
      · refine hfetches.trans ?_
        rw [hrun.fetches_eq]
      · change (finishItem bus c e').2.log.length ≤ _
        change (finishItem bus c e').2.log.length ≤ e'.log.length + 4 at hlength'
        omega
      · have hi' : EngineInv ch₀ e' := hrun.runs.invariant (fun _ _ => engineStep_inv) hi
        exact finishItem_start bus c hi' hrun.enabled (hrun.done rfl) (hlli hagain)

/-- Where the lines answer, an item that is not followed by another one ends the channel. -/
theorem runItem_of_grants {P : ρ → Prop} (hP : Grants ready P) (bus : DmaBus σ)
    (c : Fin pl080Channels) (hen : e.ch.Enabled) (h : P r) :
    P (runItem bus ready c r e).2.1 ∧
      ((runItem bus ready c r e).1 = false → ¬(runItem bus ready c r e).2.2.ch.Enabled) := by
  rw [runItem]
  cases hrefuse : refuseItem e.ch e.d with
  | some d => exact ⟨h, fun _ => not_enabled_disable _⟩
  | none =>
    have hmovable := refuseItem_eq_none.mp hrefuse
    have hrun := transfers_runs bus c ready hmovable hen rfl r
    have hgrants := transfers_of_grants bus hP (itemOf e.ch) (ctrlSize e.ch.ctrl) 0 0 e h
    obtain ⟨stalled, r', e', htransfers⟩ : ∃ stalled r' e',
        transfers bus ready (itemOf e.ch) (ctrlSize e.ch.ctrl) 0 0 r e = (stalled, r', e') :=
      ⟨_, _, _, rfl⟩
    rw [htransfers] at hrun hgrants
    obtain ⟨rfl, hnext⟩ : stalled = false ∧ P r' := hgrants
    obtain ⟨-, henabled, -⟩ := finishItem_end bus c hrun.movable hrun.enabled (hrun.done rfl)
    dsimp only
    rw [htransfers]
    refine ⟨hnext, fun hagain hen' => ?_⟩
    exact Bool.noConfusion ((henabled.mpr hen').symm.trans hagain)

/-! ### One channel -/

/-- How a run leaves a channel that has come to `e'`: as it is, or cut off at the start of one more
item than there are left. -/
inductive LeftAs (left : Nat) (e e' : Engine σ) : Engine σ → Prop where
  | whole : LeftAs left e e' e'
  | cutOff (d : S5lPl080) (hd : SameSetup e'.d d) (hfetches : fetches e'.log = fetches e.log + 4 * left)
      (hstart : ∀ ch₀, EngineInv ch₀ e → ItemStart ch₀ e'.log e'.ch) :
      LeftAs left e e' { e' with d, ch := e'.ch.disable }

/-- What a channel comes to, with `left` items left to it. -/
structure ChannelRun (bus : DmaBus σ) (c : Fin pl080Channels) (left : Nat) (e e' : Engine σ) :
    Prop where
  steps : ∃ e'', Runs (engineStep bus c) e e'' ∧ LeftAs left e e'' e'
  length_le : e'.log.length ≤ e.log.length + left * itemAccesses

theorem runItems_run (bus : DmaBus σ) (ready : Option (ReadyFn ρ)) (c : Fin pl080Channels)
    (left : Nat) (hen : e.ch.Enabled) (r : ρ) :
    ChannelRun bus c left e (runItems bus ready c left r e).2 := by
  induction left generalizing e r with
  | zero => exact ⟨⟨e, .refl e, .whole⟩, Nat.le_add_right _ _⟩
  | succ left ih =>
    have hitem := runItem_end bus ready c hen r
    obtain ⟨again, r', e', hrunItem⟩ : ∃ again r' e',
        runItem bus ready c r e = (again, r', e') := ⟨_, _, _, rfl⟩
    rw [hrunItem] at hitem
    have hlength : e'.log.length ≤ e.log.length + itemAccesses := hitem.length_le
    have hmax : (left + 1) * itemAccesses = left * itemAccesses + itemAccesses :=
      Nat.succ_mul left itemAccesses
    rw [runItems, hrunItem]
    cases again with
    | false =>
      refine ⟨⟨e', hitem.runs, .whole⟩, ?_⟩
      change e'.log.length ≤ _
      omega
    | true =>
      have hfetches : fetches e'.log = fetches e.log + 4 := hitem.fetches_eq
      dsimp only
      by_cases hleft : left = 0
      · rw [if_pos hleft]
        refine ⟨⟨e', hitem.runs, .cutOff _ ⟨rfl, rfl⟩ (by omega) (hitem.start rfl)⟩, ?_⟩
        change e'.log.length ≤ _
        omega
      · rw [if_neg hleft]
        have hen' : e'.ch.Enabled := hitem.enabled rfl
        obtain ⟨⟨e'', hruns, hleftAs⟩, hlength'⟩ := ih hen' r'
        refine ⟨⟨e'', hitem.runs.trans hruns, ?_⟩, by omega⟩
        generalize (runItems bus ready c left r' e').2 = last at hleftAs ⊢
        cases hleftAs with
        | whole => exact .whole
        | cutOff d hd hfetches' hstart =>
          exact .cutOff d hd (by omega) fun ch₀ hi =>
            hstart ch₀ (hitem.runs.invariant (fun _ _ => engineStep_inv) hi)

/-- Where the lines answer, a channel is not enabled after a run. -/
theorem runItems_of_grants {P : ρ → Prop} (hP : Grants ready P) (bus : DmaBus σ)
    (c : Fin pl080Channels) {left : Nat} (hleft : 0 < left) (hen : e.ch.Enabled) (h : P r) :
    P (runItems bus ready c left r e).1 ∧ ¬(runItems bus ready c left r e).2.ch.Enabled := by
  induction left generalizing e r with
  | zero => exact absurd hleft (lt_irrefl 0)
  | succ left ih =>
    have hitem := runItem_end bus ready c hen r
    have hgrants := runItem_of_grants hP bus c hen h
    obtain ⟨again, r', e', hrunItem⟩ : ∃ again r' e',
        runItem bus ready c r e = (again, r', e') := ⟨_, _, _, rfl⟩
    rw [hrunItem] at hitem hgrants
    rw [runItems, hrunItem]
    cases again with
    | false => exact ⟨hgrants.1, hgrants.2 rfl⟩
    | true =>
      dsimp only
      by_cases hleft : left = 0
      · rw [if_pos hleft]
        exact ⟨hgrants.1, not_enabled_disable _⟩
      · rw [if_neg hleft]
        exact ih (Nat.pos_of_ne_zero hleft) (hitem.enabled rfl) hgrants.1

end S5LBox.Soc
