import S5LBox.Soc.DmaParts

/-!
# Channels that stall

A channel of which no other channel touches what it uses goes through the same accesses however
often it stalls: its runs are pieces of the one run that its registers determine.

## Main definitions

* `dmaRuns`: successive runs of the controller.
* `Separate`: what one channel uses is apart from what the others do.

## Main results

* `dma_stalls`: what a channel does over successive runs, beside one run without a stall.
-/

namespace S5LBox.Soc

open Determined

variable {σ τ ρ : Type} {bus : DmaBus σ} {own : DmaBus τ} {view : σ → τ}
  {mine : Word → Nat → Prop} {ready : Option (ReadyFn ρ)} {c i : Fin pl080Channels}
  {w w' : DmaWorld σ ρ}

/-! ### One channel of a run -/

/-- A channel before it runs. -/
def DmaWorld.engine (w : DmaWorld σ ρ) (i : Fin pl080Channels) : Engine σ :=
  { d := w.d, ch := w.d.ch i, bus := w.bus, log := w.log i }

/-- What the run of a channel does to the rest. -/
structure ChannelRan (bus : DmaBus σ) (i : Fin pl080Channels) (w w' : DmaWorld σ ρ)
    (e e' : Engine σ) : Prop where
  runs : Runs (engineStep bus i) (w.engine i) e
  left : LeftAs pl080MaxItems (w.engine i) e e'
  length_le : e'.log.length ≤ (w.log i).length + pl080MaxItems * itemAccesses
  config : w'.d.config = w.d.config
  ch : w'.d.ch = Function.update w.d.ch i e'.ch
  bus_eq : w'.bus = e'.bus
  log : w'.log = Function.update w.log i e'.log

theorem runChannel_of_not_enabled (h : ¬(w.d.ch i).Enabled) : runChannel bus ready w i = w :=
  if_neg h

theorem LeftAs.log_eq {left : Nat} {e e' e'' : Engine σ} (h : LeftAs left e e' e'') :
    e''.log = e'.log := by
  cases h <;> rfl

theorem LeftAs.bus_eq {left : Nat} {e e' e'' : Engine σ} (h : LeftAs left e e' e'') :
    e''.bus = e'.bus := by
  cases h <;> rfl

theorem LeftAs.setup {left : Nat} {e e' e'' : Engine σ} (h : LeftAs left e e' e'') :
    SameSetup e'.d e''.d := by
  cases h with
  | whole => exact ⟨rfl, rfl⟩
  | cutOff d hd => exact hd

theorem runChannel_ran (bus : DmaBus σ) (ready : Option (ReadyFn ρ)) (h : (w.d.ch i).Enabled) :
    ∃ e, ChannelRan bus i w (runChannel bus ready w i) e
      (runItems bus ready i pl080MaxItems w.requests (w.engine i)).2 := by
  obtain ⟨⟨e, hruns, hleft⟩, hlength⟩ :=
    runItems_run bus ready i pl080MaxItems (e := w.engine i) h w.requests
  have hsetup : SameSetup w.d e.d := hruns.invariant (I := fun a => SameSetup w.d a.d)
    (fun a b hstep ha => ⟨(engineStep_setup hstep).1.trans ha.1,
      (engineStep_setup hstep).2.trans ha.2⟩) ⟨rfl, rfl⟩
  have hrun : runChannel bus ready w i =
      { d := { (runItems bus ready i pl080MaxItems w.requests (w.engine i)).2.d with
          ch := Function.update (runItems bus ready i pl080MaxItems w.requests (w.engine i)).2.d.ch i
            (runItems bus ready i pl080MaxItems w.requests (w.engine i)).2.ch }
        bus := (runItems bus ready i pl080MaxItems w.requests (w.engine i)).2.bus
        requests := (runItems bus ready i pl080MaxItems w.requests (w.engine i)).1
        log := Function.update w.log i
          (runItems bus ready i pl080MaxItems w.requests (w.engine i)).2.log } := if_pos h
  refine ⟨e, hruns, hleft, hlength, ?_, ?_, ?_, ?_⟩
  · rw [hrun]
    exact hleft.setup.1.trans hsetup.1
  · rw [hrun]
    dsimp only
    rw [hleft.setup.2, hsetup.2]
  · rw [hrun]
  · rw [hrun]

/-- What has been written down stays. -/
theorem runChannel_written (bus : DmaBus σ) (ready : Option (ReadyFn ρ)) (w : DmaWorld σ ρ)
    (i j : Fin pl080Channels) : w.log j <+: (runChannel bus ready w i).log j := by
  by_cases hen : (w.d.ch i).Enabled
  · obtain ⟨e, hran⟩ := runChannel_ran bus ready hen
    rw [hran.log]
    by_cases hj : j = i
    · rw [hj, Function.update_self, hran.left.log_eq]
      exact hran.runs.written (l := Engine.log) fun _ _ => engineStep_written
    · rw [Function.update_of_ne hj]
  · rw [runChannel_of_not_enabled hen]

theorem channels_written (bus : DmaBus σ) (ready : Option (ReadyFn ρ)) (w : DmaWorld σ ρ)
    (l : List (Fin pl080Channels)) (j : Fin pl080Channels) :
    w.log j <+: (l.foldl (runChannel bus ready) w).log j := by
  induction l generalizing w with
  | nil => exact List.prefix_refl _
  | cons i l ih => exact (runChannel_written bus ready w i j).trans (ih _)

/-! ### Successive runs -/

/-- The state after a number of runs. -/
def dmaRuns (bus : DmaBus σ) (ready : Option (ReadyFn ρ)) : Nat → DmaWorld σ ρ → DmaWorld σ ρ
  | 0, w => w
  | k + 1, w => (s5lPl080Run bus ready (dmaRuns bus ready k w)).2

theorem s5lPl080Run_on (h : w.d.config &&& pl080ConfigEn ≠ 0) :
    (s5lPl080Run bus ready w).2 = (List.finRange pl080Channels).foldl (runChannel bus ready) w :=
  if_pos h

theorem s5lPl080Run_off (h : ¬w.d.config &&& pl080ConfigEn ≠ 0) :
    (s5lPl080Run bus ready w).2 = w :=
  if_neg h

theorem s5lPl080Run_written (bus : DmaBus σ) (ready : Option (ReadyFn ρ)) (w : DmaWorld σ ρ)
    (j : Fin pl080Channels) : w.log j <+: (s5lPl080Run bus ready w).2.log j := by
  by_cases hon : w.d.config &&& pl080ConfigEn ≠ 0
  · rw [s5lPl080Run_on hon]
    exact channels_written bus ready w _ j
  · rw [s5lPl080Run_off hon]

/-- What every channel keeps holds after any number of runs. -/
theorem dmaRuns_invariant {I : DmaWorld σ ρ → Prop}
    (hstep : ∀ w i, I w → I (runChannel bus ready w i)) (h : I w) (k : Nat) :
    I (dmaRuns bus ready k w) := by
  induction k with
  | zero => exact h
  | succ k ih =>
    by_cases hon : (dmaRuns bus ready k w).d.config &&& pl080ConfigEn ≠ 0
    · rw [dmaRuns, s5lPl080Run_on hon]
      generalize dmaRuns bus ready k w = v at ih
      induction List.finRange pl080Channels generalizing v with
      | nil => exact ih
      | cons i l ihl => exact ihl _ (hstep v i ih)
    · rw [dmaRuns, s5lPl080Run_off hon]
      exact ih

/-! ### The registers at a stop -/

/-- The registers of every channel describe what it has done, and the octets that it has loaded have
been stored. -/
def AllDescribed (ch₀ : Fin pl080Channels → Pl080Chan) (w : DmaWorld σ ρ) : Prop :=
  ∀ j, Describes (ch₀ j) (w.log j) (w.d.ch j) ∧ loadedBytes (w.log j) = storedBytes (w.log j)

theorem runChannel_described {ch₀ : Fin pl080Channels → Pl080Chan} (w : DmaWorld σ ρ)
    (i : Fin pl080Channels) (h : AllDescribed ch₀ w) :
    AllDescribed ch₀ (runChannel bus ready w i) := by
  by_cases hen : (w.d.ch i).Enabled
  · obtain ⟨e, hran⟩ := runChannel_ran bus ready hen
    have hstart : EngineInv (ch₀ i) (w.engine i) := ⟨(h i).1, (h i).2⟩
    have hend : EngineInv (ch₀ i) e := hran.runs.invariant (fun _ _ => engineStep_inv) hstart
    intro j
    rw [hran.log, hran.ch]
    by_cases hj : j = i
    · rw [hj, Function.update_self, Function.update_self]
      generalize (runItems bus ready i pl080MaxItems w.requests (w.engine i)).2 = e' at hran
      cases hran.left with
      | whole => exact ⟨hend.describes, hend.bytes⟩
      | cutOff d hd hfetches hstart' =>
        exact ⟨⟨_, _, [], hstart' _ hstart, (List.append_nil _).symm, .cutOff rfl⟩, hend.bytes⟩
    · rw [Function.update_of_ne hj, Function.update_of_ne hj]
      exact h j
  · rw [runChannel_of_not_enabled hen]
    exact h

/-! ### The end of a run -/

theorem runChannel_length (bus : DmaBus σ) (ready : Option (ReadyFn ρ)) (w : DmaWorld σ ρ)
    (i j : Fin pl080Channels) :
    ((runChannel bus ready w i).log j).length ≤
      (w.log j).length + if j = i then pl080MaxItems * itemAccesses else 0 := by
  by_cases hen : (w.d.ch i).Enabled
  · obtain ⟨e, hran⟩ := runChannel_ran bus ready hen
    rw [hran.log]
    by_cases hj : j = i
    · rw [hj, Function.update_self, if_pos rfl]
      exact hran.length_le
    · rw [Function.update_of_ne hj, if_neg hj]
      exact le_rfl
  · rw [runChannel_of_not_enabled hen]
    exact Nat.le_add_right _ _

theorem channels_length (bus : DmaBus σ) (ready : Option (ReadyFn ρ)) (w : DmaWorld σ ρ)
    (l : List (Fin pl080Channels)) (j : Fin pl080Channels) :
    ((l.foldl (runChannel bus ready) w).log j).length ≤
      (w.log j).length + l.count j * (pl080MaxItems * itemAccesses) := by
  induction l generalizing w with
  | nil => exact Nat.le_add_right _ _
  | cons i l ih =>
    have hfirst := runChannel_length bus ready w i j
    have hrest := ih (runChannel bus ready w i)
    rw [List.foldl_cons, List.count_cons, Nat.add_mul]
    by_cases hj : j = i
    · rw [if_pos hj] at hfirst
      rw [if_pos (beq_iff_eq.mpr hj.symm), Nat.one_mul]
      omega
    · rw [if_neg hj] at hfirst
      omega

/-- A run ends, for any list: there is a bound to what a channel does in it. -/
theorem s5lPl080Run_length (bus : DmaBus σ) (ready : Option (ReadyFn ρ)) (w : DmaWorld σ ρ)
    (j : Fin pl080Channels) :
    ((s5lPl080Run bus ready w).2.log j).length ≤
      (w.log j).length + pl080MaxItems * itemAccesses := by
  by_cases hon : w.d.config &&& pl080ConfigEn ≠ 0
  · rw [s5lPl080Run_on hon]
    have hcount : (List.finRange pl080Channels).count j = 1 :=
      List.count_eq_one_of_mem (List.nodup_finRange _) (List.mem_finRange j)
    have hlength := channels_length bus ready w (List.finRange pl080Channels) j
    rwa [hcount, Nat.one_mul] at hlength
  · rw [s5lPl080Run_off hon]
    exact Nat.le_add_right _ _

/-! ### A channel that the others leave alone -/

/-- What a channel has done is in the part of the bus, and what the others have done is not. -/
def Separate (mine : Word → Nat → Prop) (c : Fin pl080Channels) (w : DmaWorld σ ρ) : Prop :=
  AllOf (Access.Within mine) (w.log c) ∧
    ∀ j, j ≠ c → AllOf (fun a => ¬a.Within mine) (w.log j)

theorem Separate.of_written (h : Separate mine c w') (hlog : ∀ j, w.log j <+: w'.log j) :
    Separate mine c w :=
  ⟨h.1.of_logged (hlog c), fun j hj => (h.2 j hj).of_logged (hlog j)⟩

/-- What a channel starts from, on its part of the bus. -/
def ownStart (ch₀ : Pl080Chan) (t₀ : τ) : Engine τ := { d := {}, ch := ch₀, bus := t₀, log := [] }

/-- The channel is on the one run from its start. -/
def Reached (own : DmaBus τ) (view : σ → τ) (c : Fin pl080Channels) (ch₀ : Pl080Chan) (t₀ : τ)
    (w : DmaWorld σ ρ) : Prop :=
  ∃ e, Runs (engineStep own c) (ownStart ch₀ t₀) e ∧ Seen view (w.engine c) e

/-- The list of a channel is at most as long as what is followed in one run. -/
def Short (own : DmaBus τ) (c : Fin pl080Channels) (ch₀ : Pl080Chan) (t₀ : τ)
    (log : List Access) : Prop :=
  ∀ e, Runs (engineStep own c) (ownStart ch₀ t₀) e → e.log <+: log →
    fetches e.log < 4 * pl080MaxItems

section Apart

variable (hp : PartOf bus own view mine) {ch₀ : Pl080Chan} {t₀ : τ}
include hp

theorem runChannel_reached (h : Reached own view c ch₀ t₀ w)
    (hsep : Separate mine c (runChannel bus ready w i))
    (hshort : Short own c ch₀ t₀ ((runChannel bus ready w i).log c)) :
    Reached own view c ch₀ t₀ (runChannel bus ready w i) := by
  by_cases hen : (w.d.ch i).Enabled
  · obtain ⟨e, hran⟩ := runChannel_ran bus ready hen
    obtain ⟨f, hf, hseen⟩ := h
    have hlog : (runChannel bus ready w i).log i = e.log := by
      rw [hran.log, Function.update_self, hran.left.log_eq]
    by_cases hi : i = c
    · subst hi
      -- The channel itself: the same steps on its part of the bus.
      obtain ⟨f', hf', hseen'⟩ := hran.runs.simulate (t := engineStep own i)
        (R := Seen view) (G := fun a => AllOf (Access.Within mine) a.log)
        (fun _ _ hstep hgood => hgood.of_logged (engineStep_written hstep))
        (fun _ _ _ hstep hgood hs => engineStep_seen hp hs hstep hgood)
        (by rw [← hlog]; exact hsep.1) hseen
      have hfetches : fetches e.log < 4 * pl080MaxItems := by
        rw [← hseen'.log]
        exact hshort f' (hf.trans hf') (by rw [hlog, hseen'.log])
      refine ⟨f', hf.trans hf', ?_⟩
      have hch := hran.ch
      generalize (runItems bus ready i pl080MaxItems w.requests (w.engine i)).2 = e' at hran hch
      cases hran.left with
      | whole =>
        refine ⟨?_, hseen'.log.trans hlog.symm, ?_⟩
        · rw [hseen'.ch, DmaWorld.engine, hch, Function.update_self]
        · rw [hseen'.bus, DmaWorld.engine, hran.bus_eq]
      | cutOff d hd hcut =>
        omega
    · -- Another channel: the registers and the part of the bus stay.
      have helse := hsep.2 i hi
      rw [hlog] at helse
      have hview : view e.bus = view w.bus := hran.runs.invariant_of
        (I := fun a => view a.bus = view w.bus)
        (G := fun a => AllOf (fun x => ¬x.Within mine) a.log)
        (fun _ _ hstep hgood => hgood.of_logged (engineStep_written hstep))
        (fun _ _ hstep hgood ha => (engineStep_elsewhere hp hstep hgood).trans ha) helse rfl
      refine ⟨f, hf, ?_, ?_, ?_⟩
      · rw [hseen.ch, DmaWorld.engine, DmaWorld.engine, hran.ch, Function.update_of_ne (Ne.symm hi)]
      · rw [hseen.log, DmaWorld.engine, DmaWorld.engine, hran.log,
          Function.update_of_ne (Ne.symm hi)]
      · rw [hseen.bus, DmaWorld.engine, DmaWorld.engine, hran.bus_eq, hran.left.bus_eq]
        exact hview.symm
  · rwa [runChannel_of_not_enabled hen]

theorem channels_reached (l : List (Fin pl080Channels)) (h : Reached own view c ch₀ t₀ w)
    (hsep : Separate mine c (l.foldl (runChannel bus ready) w))
    (hshort : Short own c ch₀ t₀ ((l.foldl (runChannel bus ready) w).log c)) :
    Reached own view c ch₀ t₀ (l.foldl (runChannel bus ready) w) := by
  induction l generalizing w with
  | nil => exact h
  | cons i l ih =>
    have hlog := channels_written bus ready (runChannel bus ready w i) l
    refine ih (runChannel_reached hp h (hsep.of_written hlog) ?_) hsep hshort
    exact fun e hruns hwritten => hshort e hruns (hwritten.trans (hlog c))

theorem s5lPl080Run_reached (h : Reached own view c ch₀ t₀ w)
    (hsep : Separate mine c (s5lPl080Run bus ready w).2)
    (hshort : Short own c ch₀ t₀ ((s5lPl080Run bus ready w).2.log c)) :
    Reached own view c ch₀ t₀ (s5lPl080Run bus ready w).2 := by
  by_cases hon : w.d.config &&& pl080ConfigEn ≠ 0
  · rw [s5lPl080Run_on hon] at hsep hshort ⊢
    exact channels_reached hp _ h hsep hshort
  · rwa [s5lPl080Run_off hon]

theorem dmaRuns_reached (h : Reached own view c ch₀ t₀ w) (k : Nat)
    (hsep : Separate mine c (dmaRuns bus ready k w))
    (hshort : Short own c ch₀ t₀ ((dmaRuns bus ready k w).log c)) :
    Reached own view c ch₀ t₀ (dmaRuns bus ready k w) := by
  induction k with
  | zero => exact h
  | succ k ih =>
    have hlog := s5lPl080Run_written bus ready (dmaRuns bus ready k w)
    refine s5lPl080Run_reached hp (ih (hsep.of_written hlog) ?_) hsep hshort
    exact fun e hruns hwritten => hshort e hruns (hwritten.trans (hlog c))

end Apart

/-! ### Channels that have ended -/

theorem runChannel_config (w : DmaWorld σ ρ) (i : Fin pl080Channels) :
    (runChannel bus ready w i).d.config = w.d.config := by
  by_cases hen : (w.d.ch i).Enabled
  · obtain ⟨e, hran⟩ := runChannel_ran bus ready hen
    exact hran.config
  · rw [runChannel_of_not_enabled hen]

/-- A channel that is not enabled stays so. -/
theorem runChannel_ended (w : DmaWorld σ ρ) (i : Fin pl080Channels) (h : ¬(w.d.ch c).Enabled) :
    ¬((runChannel bus ready w i).d.ch c).Enabled := by
  by_cases hen : (w.d.ch i).Enabled
  · obtain ⟨e, hran⟩ := runChannel_ran bus ready hen
    have hne : c ≠ i := fun heq => h (heq ▸ hen)
    rw [hran.ch, Function.update_of_ne hne]
    exact h
  · rwa [runChannel_of_not_enabled hen]

theorem channels_ended (l : List (Fin pl080Channels)) (h : ¬(w.d.ch c).Enabled) :
    ¬((l.foldl (runChannel bus ready) w).d.ch c).Enabled := by
  induction l generalizing w with
  | nil => exact h
  | cons i l ih => exact ih (runChannel_ended w i h)

theorem runChannel_of_grants {P : ρ → Prop} (hP : Grants ready P) (bus : DmaBus σ)
    (i : Fin pl080Channels) (h : P w.requests) :
    P (runChannel bus ready w i).requests ∧ ¬((runChannel bus ready w i).d.ch i).Enabled := by
  by_cases hen : (w.d.ch i).Enabled
  · obtain ⟨e, hran⟩ := runChannel_ran bus ready hen
    obtain ⟨hnext, hended⟩ := runItems_of_grants hP bus i
      (show 0 < pl080MaxItems by decide)
      (e := w.engine i) hen h
    rw [hran.ch, Function.update_self]
    refine ⟨?_, hended⟩
    have hrun : (runChannel bus ready w i).requests =
        (runItems bus ready i pl080MaxItems w.requests (w.engine i)).1 := by
      rw [runChannel]
      exact congrArg DmaWorld.requests (if_pos hen)
    rw [hrun]
    exact hnext
  · rw [runChannel_of_not_enabled hen]
    exact ⟨h, hen⟩

theorem channels_of_grants {P : ρ → Prop} (hP : Grants ready P) (bus : DmaBus σ)
    {l : List (Fin pl080Channels)} (hc : c ∈ l) (h : P w.requests) :
    ¬((l.foldl (runChannel bus ready) w).d.ch c).Enabled := by
  induction l generalizing w with
  | nil => exact absurd hc (List.not_mem_nil)
  | cons i l ih =>
    obtain ⟨hnext, hended⟩ := runChannel_of_grants hP bus i h
    obtain rfl | hc := List.mem_cons.mp hc
    · exact channels_ended l hended
    · exact ih hc hnext

theorem s5lPl080Run_of_grants {P : ρ → Prop} (hP : Grants ready P) (bus : DmaBus σ)
    (h : P w.requests) (hon : w.d.config &&& pl080ConfigEn ≠ 0) :
    ¬((s5lPl080Run bus ready w).2.d.ch c).Enabled := by
  rw [s5lPl080Run_on hon]
  exact channels_of_grants hP bus (List.mem_finRange c) h

theorem dmaRuns_off (h : ¬w.d.config &&& pl080ConfigEn ≠ 0) (k : Nat) :
    dmaRuns bus ready k w = w := by
  induction k with
  | zero => rfl
  | succ k ih => rw [dmaRuns, ih, s5lPl080Run_off h]

theorem dmaRuns_add (bus : DmaBus σ) (ready : Option (ReadyFn ρ)) (k m : Nat) (w : DmaWorld σ ρ) :
    dmaRuns bus ready (k + m) w = dmaRuns bus ready m (dmaRuns bus ready k w) := by
  induction m with
  | zero => rfl
  | succ m ih => rw [← Nat.add_assoc, dmaRuns, ih, dmaRuns]

/-- From a run in which the lines answer on, no channel is enabled. -/
theorem dmaRuns_of_grants {P : ρ → Prop} (hP : Grants ready P) (bus : DmaBus σ) {i k : Nat}
    (hik : i < k) (h : P (dmaRuns bus ready i w).requests)
    (hon : w.d.config &&& pl080ConfigEn ≠ 0) : ¬((dmaRuns bus ready k w).d.ch c).Enabled := by
  obtain ⟨m, rfl⟩ : ∃ m, k = (i + 1) + m := ⟨k - (i + 1), by omega⟩
  have hconfig : (dmaRuns bus ready i w).d.config = w.d.config :=
    dmaRuns_invariant (I := fun v => v.d.config = w.d.config)
      (fun v j hv => (runChannel_config v j).trans hv) rfl i
  have hended : ¬((dmaRuns bus ready (i + 1) w).d.ch c).Enabled :=
    s5lPl080Run_of_grants hP bus h (by rwa [hconfig])
  rw [dmaRuns_add]
  exact dmaRuns_invariant (I := fun v => ¬(v.d.ch c).Enabled) (fun v j => runChannel_ended v j)
    hended m

/-! ### The result -/

/-- The run of a channel without a stall has an end, and the channel is on the way to it after any
number of runs that may stall. -/
theorem dmaRuns_on_the_way (hp : PartOf bus own view mine) (hlog : w.log c = [])
    (hfull : Separate mine c (dmaRuns bus none 1 w))
    (hitems : fetches ((dmaRuns bus none 1 w).log c) < 4 * pl080MaxItems)
    (hon : w.d.config &&& pl080ConfigEn ≠ 0) (k : Nat)
    (hsep : Separate mine c (dmaRuns bus ready k w)) :
    ∃ e last : Engine τ, Runs (engineStep own c) e last ∧ engineStep own c last = none ∧
      e.ch = (dmaRuns bus ready k w).d.ch c ∧ e.log = (dmaRuns bus ready k w).log c ∧
      last.log = (dmaRuns bus none 1 w).log c := by
  have hstart : Reached own view c (w.d.ch c) (view w.bus) w :=
    ⟨ownStart _ _, .refl _, rfl, hlog.symm, rfl⟩
  obtain ⟨last, hlast, hseen⟩ := dmaRuns_reached hp hstart 1 hfull fun e _ hwritten =>
    lt_of_le_of_lt (List.Sublist.countP_le hwritten.sublist) hitems
  have hended : ¬((dmaRuns bus none 1 w).d.ch c).Enabled :=
    dmaRuns_of_grants grants_none bus Nat.one_pos trivial hon
  have hend : engineStep own c last = none := by
    refine engineStep_disabled ?_
    rw [hseen.ch]
    exact hended
  obtain ⟨e, he, hseen'⟩ := dmaRuns_reached hp hstart k hsep fun e' hruns _ => by
    have hwritten : e'.log <+: last.log :=
      (hruns.extend hlast hend).written fun _ _ => engineStep_written
    rw [hseen.log] at hwritten
    exact lt_of_le_of_lt (List.Sublist.countP_le hwritten.sublist) hitems
  exact ⟨e, last, he.extend hlast hend, hend, hseen'.ch, hseen'.log, hseen.log⟩

/-- Stalls lose nothing. Whatever the bus, the registers and the answers of the request lines: the
registers of every channel describe what it has done, the octets it has stored are those it has
loaded, and there is a bound to what it does in one run. A channel with a list that one run can
follow, of which no other channel touches what it uses, has done a part of what it does in one run
without a stall, and all of it once it has ended, or the lines answer on. -/
theorem dma_stalls (bus : DmaBus σ) (ready : Option (ReadyFn ρ)) (w : DmaWorld σ ρ)
    (hlog : ∀ c, w.log c = []) :
    (∀ k c, Describes (w.d.ch c) ((dmaRuns bus ready k w).log c) ((dmaRuns bus ready k w).d.ch c) ∧
      loadedBytes ((dmaRuns bus ready k w).log c) = storedBytes ((dmaRuns bus ready k w).log c)) ∧
    (∀ (v : DmaWorld σ ρ) c, ((s5lPl080Run bus ready v).2.log c).length ≤
      (v.log c).length + pl080MaxItems * itemAccesses) ∧
    ∀ (τ : Type) (own : DmaBus τ) (view : σ → τ) (mine : Word → Nat → Prop)
      (c : Fin pl080Channels), PartOf bus own view mine →
      Separate mine c (dmaRuns bus none 1 w) →
      fetches ((dmaRuns bus none 1 w).log c) < 4 * pl080MaxItems →
      ∀ k, Separate mine c (dmaRuns bus ready k w) →
        (dmaRuns bus ready k w).log c <+: (dmaRuns bus none 1 w).log c ∧
        (¬((dmaRuns bus ready k w).d.ch c).Enabled →
          (dmaRuns bus ready k w).log c = (dmaRuns bus none 1 w).log c) ∧
        ∀ P : ρ → Prop, Grants ready P → ∀ i < k, P (dmaRuns bus ready i w).requests →
          (dmaRuns bus ready k w).log c = (dmaRuns bus none 1 w).log c := by
  refine ⟨fun k => ?_, s5lPl080Run_length bus ready, ?_⟩
  · refine dmaRuns_invariant (I := AllDescribed w.d.ch) runChannel_described (fun c => ?_) k
    rw [hlog c]
    exact ⟨⟨[], w.d.ch c, [], .first, rfl, .underWay (.start _)⟩, rfl⟩
  intro τ own view mine c hp hfull hitems k hsep
  by_cases hon : w.d.config &&& pl080ConfigEn ≠ 0
  · obtain ⟨e, last, hruns, hend, hch, he, hlast⟩ :=
      dmaRuns_on_the_way hp (hlog c) hfull hitems hon k hsep
    have hall (hended : ¬((dmaRuns bus ready k w).d.ch c).Enabled) :
        (dmaRuns bus ready k w).log c = (dmaRuns bus none 1 w).log c := by
      rw [← hch] at hended
      rw [← he, ← hlast, (Runs.refl e).end_unique hruns (engineStep_disabled hended) hend]
    refine ⟨?_, hall, fun P hP i hik hi => hall (dmaRuns_of_grants hP bus hik hi hon)⟩
    rw [← he, ← hlast]
    exact hruns.written fun _ _ => engineStep_written
  · rw [dmaRuns_off hon, dmaRuns_off hon]
    exact ⟨List.prefix_refl _, fun _ => rfl, fun _ _ _ _ _ => rfl⟩

section Shared

/-- A bus with one word of memory at zero; the other addresses answer with themselves. -/
def oneWordBus : DmaBus Word where
  read8 s addr := ((if addr = 0 then s else addr).setWidth 8, s)
  read16 s addr := ((if addr = 0 then s else addr).setWidth 16, s)
  read32 s addr := (if addr = 0 then s else addr, s)
  write8 s addr v := if addr = 0 then v.setWidth 32 else s
  write16 s addr v := if addr = 0 then v.setWidth 32 else s
  write32 s addr v := if addr = 0 then v else s

/-- A request line that does not answer the first time. -/
def secondTime : ReadyFn Bool := fun asked _ _ _ => (asked, true)

/-- The first channel copies the word when the line answers, and the second overwrites it if it is
enabled. -/
def twoChannels (cfg : Word) : DmaWorld Word Bool where
  d := {
    config := 1
    ch := fun c =>
      if c = 0 then { src := 0, dst := 4, ctrl := 0x00480001, cfg := 0x1001 }
      else if c = 1 then { src := 8, dst := 0, ctrl := 0x00480001, cfg }
      else {} }
  bus := 7
  requests := false

theorem grants_secondTime : Grants (some secondTime) (· = true) := by
  rintro it ch r rfl
  by_cases hsource : it.flow < 2 <;> by_cases hdestination : it.flow % 2 = 0 <;>
    simp [requested, secondTime, hsource, hdestination]

theorem separate_of_alone (h : ∀ j, j ≠ c → w.log j = []) : Separate (fun _ _ => True) c w := by
  refine ⟨fun a _ => by cases a <;> exact trivial, fun j hj a ha => ?_⟩
  rw [h j hj] at ha
  exact absurd ha List.not_mem_nil

theorem dma_stalls_alone :
    (dmaRuns oneWordBus (some secondTime) 1 (twoChannels 0)).log 0 = [] ∧
    (dmaRuns oneWordBus (some secondTime) 2 (twoChannels 0)).log 0 =
      (dmaRuns oneWordBus none 1 (twoChannels 0)).log 0 := by
  have hfull : Separate (fun _ _ => True) 0 (dmaRuns oneWordBus none 1 (twoChannels 0)) :=
    separate_of_alone (by decide +kernel)
  have hsep : Separate (fun _ _ => True) 0
      (dmaRuns oneWordBus (some secondTime) 2 (twoChannels 0)) :=
    separate_of_alone (by decide +kernel)
  have hrest := (dma_stalls oneWordBus (some secondTime) (twoChannels 0) fun _ => rfl).2.2 Word
    oneWordBus id (fun _ _ => True) 0 (partOf_self _) hfull (by decide +kernel) 2 hsep
  exact ⟨by decide +kernel,
    hrest.2.2 (· = true) grants_secondTime 1 (by decide) (by decide +kernel)⟩

/-- Where the second channel overwrites what the first one copies, the stall shows. -/
theorem dma_stalls_shared :
    fetches ((dmaRuns oneWordBus none 1 (twoChannels 1)).log 0) < 4 * pl080MaxItems ∧
    ¬(dmaRuns oneWordBus (some secondTime) 2 (twoChannels 1)).log 0 <+:
      (dmaRuns oneWordBus none 1 (twoChannels 1)).log 0 := by
  decide +kernel

end Shared

end S5LBox.Soc
