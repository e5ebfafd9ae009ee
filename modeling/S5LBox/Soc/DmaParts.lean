import S5LBox.Soc.DmaRuns

/-!
# The part of the bus that a DMA channel uses

A channel that only uses a part of the bus takes the same steps on a bus that is this part alone,
and what is done elsewhere on the bus leaves the part as it is.

## Main definitions

* `PartOf`: a part of the bus, seen as a bus of its own.
* `Seen`: a channel on the bus, and on its part of it.

## Main results

* `engineStep_seen`, `engineStep_elsewhere`: a step in the part, and one elsewhere.
-/

namespace S5LBox.Soc

open Determined

variable {σ τ : Type} {bus : DmaBus σ} {own : DmaBus τ} {view : σ → τ} {mine : Word → Nat → Prop}
  {it : Item} {c : Fin pl080Channels} {e f : Engine σ} {e' : Engine τ}

/-! ### What a channel writes down stays -/

theorem takeMany_written (bus : DmaBus σ) (it : Item) (m n pend pb : Nat) (e : Engine σ) :
    e.log <+: (takeMany bus it m n pend pb e).2.log := by
  induction m generalizing n pend pb e with
  | zero => exact List.prefix_refl _
  | succ m ih =>
    exact (List.prefix_append e.log _).trans
      (ih (n - 1) _ _ (takeSource bus it (n - 1) pend pb e).2)

theorem drain_written (bus : DmaBus σ) (it : Item) (k pend : Nat) (e : Engine σ) :
    e.log <+: (drain bus it k pend e).2.log := by
  induction k generalizing pend e with
  | zero => exact List.prefix_refl _
  | succ k ih => exact (List.prefix_append e.log _).trans (ih _ (putDestination bus it pend e))

theorem engineStep_written (h : engineStep bus c e = some f) : e.log <+: f.log := by
  obtain ⟨-, hstep⟩ := engineStep_cases h
  cases hstep with
  | refused => exact List.prefix_refl _
  | finish =>
    by_cases hlli : e.ch.lli = 0
    · rw [(finishItem_last bus c hlli).2.1]
    · obtain ⟨src, dst, lli, ctrl, -, hlog, -⟩ := finishItem_next bus c hlli
      rw [hlog]
      exact List.prefix_append _ _
  | burst => exact (takeMany_written ..).trans (drain_written ..)

theorem takeMany_setup (bus : DmaBus σ) (it : Item) (m n pend pb : Nat) (e : Engine σ) :
    SameSetup e.d (takeMany bus it m n pend pb e).2.d := by
  induction m generalizing n pend pb e with
  | zero => exact ⟨rfl, rfl⟩
  | succ m ih => exact ih (n - 1) _ _ (takeSource bus it (n - 1) pend pb e).2

theorem drain_setup (bus : DmaBus σ) (it : Item) (k pend : Nat) (e : Engine σ) :
    SameSetup e.d (drain bus it k pend e).2.d := by
  induction k generalizing pend e with
  | zero => exact ⟨rfl, rfl⟩
  | succ k ih => exact ih _ (putDestination bus it pend e)

/-- The item has been moved. -/
def itemDone (c : Fin pl080Channels) (e : Engine σ) : Engine σ :=
  let terminal : Bool := e.ch.ctrl &&& pl080CtrlI != 0
  { e with
    d := { e.d with
      items := e.d.items + 1
      rawTc := if terminal then e.d.rawTc ||| BitVec.twoPow 32 c else e.d.rawTc
      completions := if terminal then e.d.completions + 1 else e.d.completions }
    ch := { e.ch with runs := e.ch.runs + 1 } }

/-- The registers are those of the item at an address. -/
def nextItem (bus : DmaBus σ) (addr : Word) (e : Engine σ) : Engine σ :=
  let (src, e) := fetchWord bus addr e
  let (dst, e) := fetchWord bus (addr + 4) e
  let (lli, e) := fetchWord bus (addr + 8) e
  let (ctrl, e) := fetchWord bus (addr + 12) e
  { e with ch := { e.ch with src, dst, lli, ctrl } }

theorem finishItem_snd (bus : DmaBus σ) (c : Fin pl080Channels) (e : Engine σ) :
    (finishItem bus c e).2 =
      if e.ch.lli = 0 then { itemDone c e with ch := (itemDone c e).ch.disable }
      else nextItem bus (e.ch.lli &&& ~~~3) (itemDone c e) := by
  exact apply_ite Prod.snd (e.ch.lli = 0) _ _

theorem refuseItem_setup {ch : Pl080Chan} {d d' : S5lPl080} (h : refuseItem ch d = some d') :
    SameSetup d d' := by
  rw [refuseItem] at h
  split_ifs at h
  all_goals
    rw [← Option.some.inj h]
    exact ⟨rfl, rfl⟩

/-- A step leaves the rest of the controller as it is. -/
theorem engineStep_setup (h : engineStep bus c e = some f) : SameSetup e.d f.d := by
  obtain ⟨-, hstep⟩ := engineStep_cases h
  cases hstep with
  | refused d hd => exact refuseItem_setup hd
  | finish =>
    rw [finishItem_snd]
    split_ifs
    · exact ⟨rfl, rfl⟩
    · exact ⟨rfl, rfl⟩
  | burst =>
    obtain ⟨hconfig, hch⟩ := takeMany_setup bus (itemOf e.ch) (itemOf e.ch).takes
      (ctrlSize e.ch.ctrl) 0 0 e
    obtain ⟨hconfig', hch'⟩ := drain_setup bus (itemOf e.ch) (itemOf e.ch).puts
      (takeMany bus (itemOf e.ch) (itemOf e.ch).takes (ctrlSize e.ch.ctrl) 0 0 e).1
      (takeMany bus (itemOf e.ch) (itemOf e.ch).takes (ctrlSize e.ch.ctrl) 0 0 e).2
    exact ⟨hconfig'.trans hconfig, hch'.trans hch⟩

theorem nextItem_log (bus : DmaBus σ) (addr : Word) (e : Engine σ) : ∃ src dst lli ctrl,
    (nextItem bus addr e).log = e.log ++ [.fetch addr src, .fetch (addr + 4) dst,
      .fetch (addr + 8) lli, .fetch (addr + 12) ctrl] := by
  simp only [nextItem, fetchWord, List.append_assoc]
  exact ⟨_, _, _, _, rfl⟩

/-! ### A part of the bus -/

/-- The access is one to a part of the bus. -/
def Access.Within (mine : Word → Nat → Prop) : Access → Prop
  | .load addr width _ => mine addr width
  | .store addr width _ => mine addr width
  | .fetch addr _ => mine addr 4

/-- A part of the bus, seen as a bus of its own: its addresses answer from it, and the others leave
it as it is. -/
structure PartOf (bus : DmaBus σ) (own : DmaBus τ) (view : σ → τ) (mine : Word → Nat → Prop) :
    Prop where
  load : ∀ s addr width, mine addr width →
    (busLoad own (view s) addr width).1 = (busLoad bus s addr width).1 ∧
      (busLoad own (view s) addr width).2 = view (busLoad bus s addr width).2
  store : ∀ s addr v width, mine addr width →
    busStore own (view s) addr v width = view (busStore bus s addr v width)
  load_other : ∀ s addr width, ¬mine addr width → view (busLoad bus s addr width).2 = view s
  store_other : ∀ s addr v width, ¬mine addr width → view (busStore bus s addr v width) = view s

theorem partOf_self (bus : DmaBus σ) : PartOf bus bus id fun _ _ => True where
  load _ _ _ _ := ⟨rfl, rfl⟩
  store _ _ _ _ _ := rfl
  load_other _ _ _ h := absurd trivial h
  store_other _ _ _ _ h := absurd trivial h

/-- Everything that has been written down. -/
abbrev AllOf (Q : Access → Prop) (log : List Access) : Prop := ∀ a ∈ log, Q a

theorem AllOf.of_logged {Q : Access → Prop} {log log' : List Access} (h : log <+: log')
    (hall : AllOf Q log') : AllOf Q log :=
  fun a ha => hall a (h.subset ha)

/-! ### What is done elsewhere -/

section Elsewhere

variable (hp : PartOf bus own view mine)
include hp

theorem takeMany_elsewhere (m n pend pb : Nat)
    (h : AllOf (fun a => ¬a.Within mine) (takeMany bus it m n pend pb e).2.log) :
    view (takeMany bus it m n pend pb e).2.bus = view e.bus := by
  induction m generalizing n pend pb e with
  | zero => rfl
  | succ m ih =>
    refine (ih (n - 1) _ _ h).trans (hp.load_other _ _ _ ?_)
    exact h _ ((takeMany_written bus it m (n - 1) _ _ _).subset
      (List.mem_append_right _ (List.mem_singleton_self _)))

theorem drain_elsewhere (k pend : Nat)
    (h : AllOf (fun a => ¬a.Within mine) (drain bus it k pend e).2.log) :
    view (drain bus it k pend e).2.bus = view e.bus := by
  induction k generalizing pend e with
  | zero => rfl
  | succ k ih =>
    refine (ih _ h).trans (hp.store_other _ _ _ _ ?_)
    exact h _ ((drain_written bus it k _ _).subset
      (List.mem_append_right _ (List.mem_singleton_self _)))

theorem fetchWord_elsewhere {addr : Word} (h : ¬mine addr 4) (e : Engine σ) :
    view (fetchWord bus addr e).2.bus = view e.bus :=
  hp.load_other e.bus addr 4 h

theorem nextItem_elsewhere {addr : Word}
    (h : AllOf (fun a => ¬a.Within mine) (nextItem bus addr e).log) :
    view (nextItem bus addr e).bus = view e.bus := by
  obtain ⟨src, dst, lli, ctrl, hlog⟩ := nextItem_log bus addr e
  rw [hlog] at h
  have hsrc := h (.fetch addr src) (by simp)
  have hdst := h (.fetch (addr + 4) dst) (by simp)
  have hlli := h (.fetch (addr + 8) lli) (by simp)
  have hctrl := h (.fetch (addr + 12) ctrl) (by simp)
  exact (fetchWord_elsewhere hp hctrl _).trans ((fetchWord_elsewhere hp hlli _).trans
    ((fetchWord_elsewhere hp hdst _).trans (fetchWord_elsewhere hp hsrc e)))

theorem engineStep_elsewhere (h : engineStep bus c e = some f)
    (hall : AllOf (fun a => ¬a.Within mine) f.log) : view f.bus = view e.bus := by
  obtain ⟨-, hstep⟩ := engineStep_cases h
  cases hstep with
  | refused => rfl
  | finish =>
    rw [finishItem_snd] at hall ⊢
    split_ifs at hall ⊢
    · rfl
    · exact nextItem_elsewhere hp hall
  | burst =>
    refine (drain_elsewhere hp _ _ hall).trans (takeMany_elsewhere hp _ _ _ _ ?_)
    exact hall.of_logged (drain_written ..)

end Elsewhere

/-! ### What is done in the part -/

/-- A channel on the bus, and on its part of it. -/
structure Seen (view : σ → τ) (e : Engine σ) (e' : Engine τ) : Prop where
  ch : e'.ch = e.ch
  log : e'.log = e.log
  bus : e'.bus = view e.bus

section Within

variable (hp : PartOf bus own view mine) (h : Seen view e e')
include hp h

theorem takeSource_seen (n pend pb : Nat) (hmine : mine e.ch.src it.swidth) :
    (takeSource own it n pend pb e').1 = (takeSource bus it n pend pb e).1 ∧
      Seen view (takeSource bus it n pend pb e).2 (takeSource own it n pend pb e').2 := by
  obtain ⟨hv, hs⟩ := hp.load e.bus _ _ hmine
  obtain ⟨d', ch', t, log'⟩ := e'
  obtain ⟨rfl, rfl, rfl⟩ := h
  refine ⟨?_, rfl, ?_, hs⟩
  · exact congrArg (fun v : Word => pend ||| v.toNat <<< (8 * pb)) hv
  · exact congrArg (fun v => e.log ++ [Access.load e.ch.src it.swidth v]) hv

theorem putDestination_seen (pend : Nat) (hmine : mine e.ch.dst it.dwidth) :
    Seen view (putDestination bus it pend e) (putDestination own it pend e') := by
  obtain ⟨d', ch', t, log'⟩ := e'
  obtain ⟨rfl, rfl, rfl⟩ := h
  exact ⟨rfl, rfl, hp.store e.bus _ _ _ hmine⟩

theorem fetchWord_seen {addr : Word} (hmine : mine addr 4) :
    (fetchWord own addr e').1 = (fetchWord bus addr e).1 ∧
      Seen view (fetchWord bus addr e).2 (fetchWord own addr e').2 := by
  obtain ⟨hv, hs⟩ := hp.load e.bus addr 4 hmine
  obtain ⟨d', ch', t, log'⟩ := e'
  obtain ⟨rfl, rfl, rfl⟩ := h
  refine ⟨hv, rfl, ?_, hs⟩
  exact congrArg (fun v => e.log ++ [Access.fetch addr v]) hv

end Within

section Within

variable (hp : PartOf bus own view mine)
include hp

theorem takeMany_seen (m n pend pb : Nat) (h : Seen view e e')
    (hall : AllOf (Access.Within mine) (takeMany bus it m n pend pb e).2.log) :
    (takeMany own it m n pend pb e').1 = (takeMany bus it m n pend pb e).1 ∧
      Seen view (takeMany bus it m n pend pb e).2 (takeMany own it m n pend pb e').2 := by
  induction m generalizing n pend pb e e' with
  | zero => exact ⟨rfl, h⟩
  | succ m ih =>
    have hmine : mine e.ch.src it.swidth :=
      hall _ ((takeMany_written bus it m (n - 1) _ _ _).subset
        (List.mem_append_right _ (List.mem_singleton_self _)))
    obtain ⟨hpend, hfirst⟩ := takeSource_seen hp h (n - 1) pend pb hmine
    rw [takeMany, takeMany]
    dsimp only
    rw [hpend]
    exact ih _ _ _ hfirst hall

theorem drain_seen (k pend : Nat) (h : Seen view e e')
    (hall : AllOf (Access.Within mine) (drain bus it k pend e).2.log) :
    Seen view (drain bus it k pend e).2 (drain own it k pend e').2 := by
  induction k generalizing pend e e' with
  | zero => exact h
  | succ k ih =>
    have hmine : mine e.ch.dst it.dwidth :=
      hall _ ((drain_written bus it k _ _).subset
        (List.mem_append_right _ (List.mem_singleton_self _)))
    exact ih _ (putDestination_seen hp h pend hmine) hall

theorem burst_seen (h : Seen view e e') (hall : AllOf (Access.Within mine) (burst bus e).log) :
    Seen view (burst bus e) (burst own e') := by
  have htaken : AllOf (Access.Within mine) (takeMany bus (itemOf e.ch) (itemOf e.ch).takes
      (ctrlSize e.ch.ctrl) 0 0 e).2.log := AllOf.of_logged (drain_written ..) hall
  obtain ⟨hpend, htakes⟩ := takeMany_seen hp _ _ 0 0 h htaken
  rw [burst, burst, h.ch]
  dsimp only
  rw [hpend]
  exact drain_seen hp _ _ htakes hall

theorem nextItem_seen {addr : Word} (h : Seen view e e')
    (hall : AllOf (Access.Within mine) (nextItem bus addr e).log) :
    Seen view (nextItem bus addr e) (nextItem own addr e') := by
  obtain ⟨src, dst, lli, ctrl, hlog⟩ := nextItem_log bus addr e
  rw [hlog] at hall
  have hsrc : mine addr 4 := hall (.fetch addr src) (by simp)
  have hdst : mine (addr + 4) 4 := hall (.fetch (addr + 4) dst) (by simp)
  have hlli : mine (addr + 8) 4 := hall (.fetch (addr + 8) lli) (by simp)
  have hctrl : mine (addr + 12) 4 := hall (.fetch (addr + 12) ctrl) (by simp)
  obtain ⟨hsrc, h⟩ := fetchWord_seen hp h hsrc
  obtain ⟨hdst, h⟩ := fetchWord_seen hp h hdst
  obtain ⟨hlli, h⟩ := fetchWord_seen hp h hlli
  obtain ⟨hctrl, h⟩ := fetchWord_seen hp h hctrl
  refine ⟨?_, h.log, h.bus⟩
  simp only [nextItem, hsrc, hdst, hlli, hctrl, h.ch]

theorem engineStep_seen (h : Seen view e e') (hstep : engineStep bus c e = some f)
    (hall : AllOf (Access.Within mine) f.log) :
    ∃ f', engineStep own c e' = some f' ∧ Seen view f f' := by
  obtain ⟨hen, hstep⟩ := engineStep_cases hstep
  have hen' : e'.ch.Enabled := by rwa [h.ch]
  cases hstep with
  | refused d hd hmovable =>
    obtain ⟨d', hd'⟩ : ∃ d', refuseItem e'.ch e'.d = some d' := by
      rw [← h.ch] at hmovable
      exact Option.ne_none_iff_exists'.mp fun hnone => hmovable (refuseItem_eq_none.mp hnone)
    exact ⟨_, engineStep_refused hen' hd', by rw [h.ch], h.log, h.bus⟩
  | finish hmovable hn =>
    rw [← h.ch] at hmovable hn
    refine ⟨_, engineStep_finish hen' hmovable hn, ?_⟩
    have hdone : Seen view (itemDone c e) (itemDone c e') :=
      ⟨by rw [itemDone, itemDone, h.ch], h.log, h.bus⟩
    rw [finishItem_snd] at hall ⊢
    rw [finishItem_snd, h.ch]
    by_cases hlli : e.ch.lli = 0
    · rw [if_pos hlli, if_pos hlli]
      exact ⟨by rw [hdone.ch], hdone.log, hdone.bus⟩
    · rw [if_neg hlli] at hall ⊢
      rw [if_neg hlli]
      exact nextItem_seen hp hdone hall
  | burst hmovable hn =>
    rw [← h.ch] at hmovable hn
    exact ⟨_, engineStep_burst hen' hmovable hn, burst_seen hp h hall⟩

end Within

end S5LBox.Soc
