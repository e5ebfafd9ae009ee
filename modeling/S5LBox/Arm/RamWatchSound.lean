import S5LBox.Arm.RamWatch

/-!
# The stamps of a watch are witnesses

The watch is an instance of the library of stamps: a capture observes a page, and what `changed` is
called for touches the pages it overlaps. So a stamp of a page does not come back after a change,
and a page is watched from its first capture to the next reset. Only the first capture of a page
revokes grants, and those of one core.

## Main definitions

* `pageIndex`: the page that a pointer is for.
* `WatchOp.stamps`: an operation as operations on stamps.
* `Overlaps`: a range of addresses has one of a page.
* `Captured`: a page has been captured since the last reset.
* `WatchSound`: what holds of every run.

## Main results

* `watchRun_watch`: a run is a run of the operations on stamps.
* `watch_sound`: the stamps, the answers, the grants and the exhausted counter.
-/

namespace S5LBox

open Stamps (Bounded)

/-! ### Pages -/

/-- The page that a pointer is for, if it is the start of one. -/
def pageIndex (watch : RamWatch) (page : Nat) : Option Nat :=
  if page < watch.ram ∨ watch.size ≤ page - watch.ram ∨ (page - watch.ram) % 1024 ≠ 0 then none
  else some ((page - watch.ram) / 1024)

/-- The pages that a range of addresses overlaps. -/
def pagesOf (watch : RamWatch) (pa length : Word) : List Nat :=
  let first := max pa.toNat watch.base
  let last := min (pa.toNat + length.toNat) (watch.base + watch.size)
  if last ≤ first then []
  else
    let a := (first - watch.base) / 1024
    let b := (last - 1 - watch.base) / 1024
    List.range' a (b + 1 - a)

/-- The physical address of a page. -/
def pageAddress (watch : RamWatch) (page : Nat) : Nat := watch.base + (page - watch.ram)

/-- The range of addresses has one of the page at `start`. -/
def Overlaps (start : Nat) (pa length : Word) : Prop :=
  ∃ a, pa.toNat ≤ a ∧ a < pa.toNat + length.toNat ∧ start ≤ a ∧ a < start + 1024

variable {watch : RamWatch} {i page : Nat} {pa length : Word}

theorem pageAddress_eq (h : pageIndex watch page = some i) :
    pageAddress watch page = watch.base + 1024 * i ∧ page = watch.ram + 1024 * i ∧
      i < watch.size / 1024 := by
  have haligned := watch.size_aligned
  rw [pageIndex] at h
  split_ifs at h with hpage
  have hi := Option.some.inj h
  rw [pageAddress]
  omega

theorem pageIndex_of_lt (h : i < watch.size / 1024) :
    pageIndex watch (watch.ram + 1024 * i) = some i := by
  rw [pageIndex, if_neg (by omega)]
  exact congrArg some (by omega)

/-- The pages of a range are those that it overlaps. -/
theorem mem_pagesOf : i ∈ pagesOf watch pa length ↔
    i < watch.size / 1024 ∧ Overlaps (watch.base + 1024 * i) pa length := by
  have haligned := watch.size_aligned
  rw [pagesOf]
  dsimp only
  constructor
  · intro h
    split_ifs at h with hempty
    · cases h
    · obtain ⟨ha, hb⟩ := List.mem_range'_1.1 h
      refine ⟨by omega, max (max pa.toNat watch.base) (watch.base + 1024 * i), ?_⟩
      omega
  · rintro ⟨hi, a, ha⟩
    rw [if_neg (by omega), List.mem_range'_1]
    omega

/-! ### Operations -/

/-- An operation as operations on stamps. -/
def WatchOp.stamps (watch : RamWatch) : WatchOp → List (Stamps.Op Nat)
  | .capture (some _) page =>
    match pageIndex watch page with
    | some i => [.observe i]
    | none => []
  | .capture none _ => []
  | .changed pa length => [.change (pagesOf watch pa length)]
  | .reset => [.forget]
  | .unwatched _ _ => []
  | .grant _ _ _ => []

/-- The window of a watch is that of another. -/
def SameWindow (watch watch' : RamWatch) : Prop :=
  watch'.ram = watch.ram ∧ watch'.base = watch.base ∧ watch'.size = watch.size

theorem SameWindow.pageIndex_eq {watch' : RamWatch} (h : SameWindow watch watch') (page : Nat) :
    pageIndex watch' page = pageIndex watch page := by
  rw [pageIndex, pageIndex, h.1, h.2.2]

theorem SameWindow.pagesOf_eq {watch' : RamWatch} (h : SameWindow watch watch') (pa length : Word) :
    pagesOf watch' pa length = pagesOf watch pa length := by
  rw [pagesOf, pagesOf, h.2.1, h.2.2]

theorem SameWindow.stamps_eq {watch' : RamWatch} (h : SameWindow watch watch') (op : WatchOp) :
    op.stamps watch' = op.stamps watch := by
  cases op with
  | capture cpu page =>
    cases cpu with
    | none => rfl
    | some c => rw [WatchOp.stamps, WatchOp.stamps, h.pageIndex_eq]
  | changed pa length => rw [WatchOp.stamps, WatchOp.stamps, h.pagesOf_eq]
  | reset => rfl
  | unwatched pa length => rfl
  | grant cpu slot entry => rfl

/-- A capture of a page observes it, and the first one revokes the grants of the core. -/
theorem armRamWatchCapture_eq (c : ArmCpu) (h : pageIndex watch page = some i) :
    armRamWatchCapture watch (some c) page =
      ((Stamps.observe uint64Max watch.stamps i).1,
        watch.withStamps (Stamps.observe uint64Max watch.stamps i).2,
        some (if watch.stamps.sequence ≠ uint64Max ∧ watch.stamps.stamp i = 0 then
          revokeWrites c page else c)) := by
  have hram := watch.ram_pos
  rw [pageIndex] at h
  split_ifs at h with hpage
  obtain rfl := Option.some.inj h
  rw [armRamWatchCapture]
  dsimp only
  by_cases htop : watch.stamps.sequence = uint64Max
  · rw [if_pos (Or.inr htop), Stamps.observe_exhausted htop, if_neg fun h => h.1 htop]
    rfl
  · rw [if_neg (by omega), if_neg hpage]
    by_cases hzero : watch.stamps.stamp ((page - watch.ram) / 1024) = 0
    · have hnext : Stamps.next uint64Max watch.stamps = (watch.stamps.sequence + 1,
          ⟨watch.stamps.sequence + 1, watch.stamps.stamp⟩) := if_neg htop
      rw [if_pos hzero, if_pos ⟨htop, hzero⟩, Stamps.observe_first htop hzero, hnext]
      dsimp only
      rw [Function.update_self]
    · rw [if_neg hzero, if_neg fun h => hzero h.2, Stamps.observe_again htop hzero]
      rfl

/-- A capture of anything else does nothing. -/
theorem armRamWatchCapture_none (c : ArmCpu) (h : pageIndex watch page = none) :
    armRamWatchCapture watch (some c) page = (0, watch, some c) := by
  rw [pageIndex] at h
  split_ifs at h with hpage
  rw [armRamWatchCapture]
  dsimp only
  rw [if_pos hpage, ite_self]

theorem armRamWatchChanged_eq (watch : RamWatch) (pa length : Word) :
    armRamWatchChanged watch pa length =
      watch.withStamps (Stamps.change uint64Max watch.stamps (pagesOf watch pa length)) := by
  rw [armRamWatchChanged, pagesOf]
  dsimp only
  by_cases hlength : length.toNat = 0
  · rw [if_pos hlength, if_pos (by omega)]
    rfl
  · rw [if_neg hlength]
    split_ifs <;> rfl

variable {h : WatchHost}

theorem WatchHost.stampOf_eq (c : Nat) (hpage : pageIndex h.watch page = some i) :
    h.stampOf (some c) page = (Stamps.observe uint64Max h.watch.stamps i).1 := by
  rw [WatchHost.stampOf, Option.map_some, armRamWatchCapture_eq _ hpage]

/-- A capture that returns a stamp is one of a page. -/
theorem WatchHost.exists_of_stampOf_ne {cpu : Option Nat} (hstamp : h.stampOf cpu page ≠ 0) :
    ∃ c i, cpu = some c ∧ pageIndex h.watch page = some i := by
  cases cpu with
  | none => exact absurd rfl hstamp
  | some c =>
    cases hpage : pageIndex h.watch page with
    | none =>
      rw [WatchHost.stampOf, Option.map_some, armRamWatchCapture_none _ hpage] at hstamp
      exact absurd rfl hstamp
    | some i => exact ⟨c, i, rfl, rfl⟩

/-- What an operation does to the watch. -/
theorem WatchOp.run_watch (op : WatchOp) :
    (op.run h).watch = h.watch.withStamps (Stamps.run uint64Max h.watch.stamps
      (op.stamps h.watch)) := by
  cases op with
  | capture cpu page =>
    cases cpu with
    | none => rfl
    | some c =>
      rw [WatchOp.run, WatchHost.capture, WatchOp.stamps, Option.map_some]
      cases hpage : pageIndex h.watch page with
      | none =>
        rw [armRamWatchCapture_none _ hpage]
        rfl
      | some i =>
        rw [armRamWatchCapture_eq _ hpage]
        rfl
  | changed pa length => exact armRamWatchChanged_eq h.watch pa length
  | reset => rfl
  | unwatched pa length => rfl
  | grant cpu slot entry => rfl

theorem SameWindow.refl (watch : RamWatch) : SameWindow watch watch := ⟨rfl, rfl, rfl⟩

/-- What a run does to the watch. -/
theorem watchRun_watch (h : WatchHost) (ops : List WatchOp) :
    (watchRun h ops).watch = h.watch.withStamps (Stamps.run uint64Max h.watch.stamps
      (ops.flatMap (WatchOp.stamps h.watch))) := by
  induction ops generalizing h with
  | nil => rfl
  | cons op ops ih =>
    have hsame : SameWindow h.watch (op.run h).watch := by
      rw [op.run_watch]
      exact SameWindow.refl h.watch
    have hstamps : WatchOp.stamps (op.run h).watch = WatchOp.stamps h.watch :=
      funext hsame.stamps_eq
    rw [watchRun, List.foldl_cons, ← watchRun, ih, hstamps, op.run_watch, List.flatMap_cons,
      Stamps.run, Stamps.run, Stamps.run, List.foldl_append]
    rfl

theorem watchRun_append (h : WatchHost) (a b : List WatchOp) :
    watchRun h (a ++ b) = watchRun (watchRun h a) b := List.foldl_append

theorem sameWindow_watchRun (h : WatchHost) (ops : List WatchOp) :
    SameWindow h.watch (watchRun h ops).watch := by
  rw [watchRun_watch]
  exact SameWindow.refl h.watch

theorem bounded_watchRun (h₀ : h.watch.stamps = {}) (ops : List WatchOp) :
    Bounded uint64Max (watchRun h ops).watch.stamps := by
  rw [watchRun_watch, RamWatch.withStamps_stamps, h₀]
  exact Bounded.run ⟨Nat.zero_le _, fun _ => Nat.zero_le _⟩ _

/-! ### Stamps -/

/-- The operation changes the page, or resets the watch. -/
def WatchOp.Spoils (watch : RamWatch) (page : Nat) : WatchOp → Prop
  | .changed pa length => Overlaps (pageAddress watch page) pa length
  | .reset => True
  | .capture _ _ => False
  | .unwatched _ _ => False
  | .grant _ _ _ => False

/-- What spoils a page spoils its stamp. -/
theorem WatchOp.Spoils.stamps {op : WatchOp} (hpage : pageIndex watch page = some i)
    (hop : op.Spoils watch page) : ∃ o ∈ op.stamps watch, Stamps.Op.Spoils i o := by
  obtain ⟨haddress, -, hi⟩ := pageAddress_eq hpage
  cases op with
  | capture cpu page => exact hop.elim
  | changed pa length =>
    rw [WatchOp.Spoils, haddress] at hop
    exact ⟨_, List.mem_singleton.2 rfl, mem_pagesOf.2 ⟨hi, hop⟩⟩
  | reset => exact ⟨_, List.mem_singleton.2 rfl, trivial⟩
  | unwatched pa length => exact hop.elim
  | grant cpu slot entry => exact hop.elim

/-- A stamp does not come back to a page that has been spoiled. -/
theorem stampOf_ne_of_spoils (hbounded : Bounded uint64Max h.watch.stamps) {cpu cpu' : Option Nat}
    (hstamp : h.stampOf cpu page ≠ 0) {mid : List WatchOp} {op : WatchOp} (hmem : op ∈ mid)
    (hop : op.Spoils h.watch page) :
    (watchRun h (.capture cpu page :: mid)).stampOf cpu' page ≠ h.stampOf cpu page := by
  obtain ⟨c, i, rfl, hpage⟩ := WatchHost.exists_of_stampOf_ne hstamp
  cases cpu' with
  | none => exact Ne.symm hstamp
  | some c' =>
    have hsame := sameWindow_watchRun h (.capture (some c) page :: mid)
    rw [WatchHost.stampOf_eq c hpage] at hstamp ⊢
    rw [WatchHost.stampOf_eq c' ((hsame.pageIndex_eq page).trans hpage), watchRun_watch,
      RamWatch.withStamps_stamps, List.flatMap_cons, WatchOp.stamps, hpage]
    obtain ⟨o, ho, hspoils⟩ := hop.stamps hpage
    exact Stamps.observe_of_spoils hbounded hstamp rfl (List.mem_flatMap.2 ⟨op, hmem, ho⟩) hspoils

/-! ### Watched pages -/

/-- The page has been captured since the last reset. -/
def Captured (h : WatchHost) (ops : List WatchOp) (page : Nat) : Prop :=
  ∃ before cpu after, ops = before ++ .capture cpu page :: after ∧
    (watchRun h before).stampOf cpu page ≠ 0 ∧ .reset ∉ after

theorem not_captured_nil : ¬Captured h [] page := by
  rintro ⟨before, cpu, after, hops, -⟩
  exact List.append_ne_nil_of_right_ne_nil _ (List.cons_ne_nil _ _) hops.symm

/-- One more operation. -/
theorem captured_append {ops : List WatchOp} {op : WatchOp} :
    Captured h (ops ++ [op]) page ↔
      (op ≠ .reset ∧ Captured h ops page) ∨
        ∃ cpu, op = .capture cpu page ∧ (watchRun h ops).stampOf cpu page ≠ 0 := by
  constructor
  · rintro ⟨before, cpu, after, hops, hstamp, hreset⟩
    obtain rfl | ⟨after, last, rfl⟩ := List.eq_nil_or_concat' after
    · obtain ⟨rfl, hop⟩ := List.append_inj' hops rfl
      exact Or.inr ⟨cpu, (List.cons.inj hop).1, hstamp⟩
    · rw [← List.cons_append, ← List.append_assoc] at hops
      obtain ⟨rfl, hop⟩ := List.append_inj' hops rfl
      obtain rfl := (List.cons.inj hop).1
      rw [List.mem_append, List.mem_singleton, not_or] at hreset
      exact Or.inl ⟨Ne.symm hreset.2, before, cpu, after, rfl, hstamp, hreset.1⟩
  · rintro (⟨hop, before, cpu, after, rfl, hstamp, hreset⟩ | ⟨cpu, rfl, hstamp⟩)
    · refine ⟨before, cpu, after ++ [op], by rw [List.append_assoc]; rfl, hstamp, ?_⟩
      rw [List.mem_append, List.mem_singleton, not_or]
      exact ⟨hreset, Ne.symm hop⟩
    · exact ⟨ops, cpu, [], rfl, hstamp, List.not_mem_nil⟩

/-- After a capture, the pages with a stamp are those from before and the one that got one. -/
theorem capture_stamp (hpage : pageIndex h.watch page = some i) (cpu : Option Nat) (page' : Nat) :
    (Stamps.run uint64Max h.watch.stamps
        (WatchOp.stamps h.watch (.capture cpu page'))).stamp i ≠ 0 ↔
      h.watch.stamps.stamp i ≠ 0 ∨ (page' = page ∧ h.stampOf cpu page' ≠ 0) := by
  cases cpu with
  | none => exact ⟨Or.inl, fun h => h.elim id fun h => absurd rfl h.2⟩
  | some c =>
    rw [WatchOp.stamps]
    cases hpage' : pageIndex h.watch page' with
    | none =>
      have hstamp : h.stampOf (some c) page' = 0 := by
        rw [WatchHost.stampOf, Option.map_some, armRamWatchCapture_none _ hpage']
      rw [hstamp]
      exact ⟨Or.inl, fun h => h.elim id fun h => absurd rfl h.2⟩
    | some j =>
      have hsame : i = j ↔ page' = page := by
        obtain ⟨-, hi, -⟩ := pageAddress_eq hpage
        obtain ⟨-, hj, -⟩ := pageAddress_eq hpage'
        omega
      rw [WatchHost.stampOf_eq c hpage', ← hsame]
      exact Stamps.observe_stamp j

/-- The pages with a stamp are those that have been captured. -/
theorem stamp_ne_zero_iff (h₀ : h.watch.stamps = {}) {ops : List WatchOp}
    (hpage : pageIndex h.watch page = some i) :
    (watchRun h ops).watch.stamps.stamp i ≠ 0 ↔ Captured h ops page := by
  induction ops using List.reverseRecOn with
  | nil =>
    rw [watchRun, List.foldl_nil, h₀]
    exact ⟨fun h => absurd rfl h, fun h => absurd h not_captured_nil⟩
  | append_singleton ops op ih =>
    have hbounded := bounded_watchRun h₀ ops
    have hsame := sameWindow_watchRun h ops
    rw [captured_append, ← ih, watchRun_append, watchRun, List.foldl_cons, List.foldl_nil,
      op.run_watch, RamWatch.withStamps_stamps, hsame.stamps_eq]
    cases op with
    | capture cpu page' =>
      have hstep := capture_stamp (hsame.pageIndex_eq page |>.trans hpage) cpu page'
      rw [hsame.stamps_eq] at hstep
      rw [hstep]
      simp only [ne_eq, reduceCtorEq, not_false_eq_true, true_and, WatchOp.capture.injEq]
      refine or_congr_right ⟨?_, ?_⟩
      · rintro ⟨rfl, hstamp⟩
        exact ⟨cpu, ⟨rfl, rfl⟩, hstamp⟩
      · rintro ⟨cpu', ⟨rfl, rfl⟩, hstamp⟩
        exact ⟨rfl, hstamp⟩
    | changed pa length =>
      simpa [WatchOp.stamps, Stamps.run, Stamps.Op.run] using Stamps.change_stamp hbounded _
    | reset => simp [WatchOp.stamps, Stamps.run, Stamps.Op.run, Stamps.forget]
    | unwatched pa length => simp [WatchOp.stamps, Stamps.run]
    | grant cpu slot entry => simp [WatchOp.stamps, Stamps.run]

/-- The answer of the watch, from its stamps. -/
theorem armRamWatchUnwatched_iff :
    armRamWatchUnwatched (some watch) pa length = true ↔
      0 < length.toNat ∧ watch.base ≤ pa.toNat ∧
        pa.toNat + length.toNat ≤ watch.base + watch.size ∧
        ∀ i, Overlaps (watch.base + 1024 * i) pa length → watch.stamps.stamp i = 0 := by
  rw [armRamWatchUnwatched]
  dsimp only
  split_ifs with hrange
  · constructor
    · intro h
      cases h
    · intro h
      omega
  · rw [List.all_eq_true]
    constructor
    · intro h
      refine ⟨by omega, by omega, by omega, fun i ⟨a, ha⟩ => ?_⟩
      exact of_decide_eq_true (h i (List.mem_range'_1.2 (by omega)))
    · rintro ⟨-, -, -, h⟩ i hi
      rw [List.mem_range'_1] at hi
      refine decide_eq_true (h i ⟨max pa.toNat (watch.base + 1024 * i), ?_⟩)
      omega

/-- The pages of the window are those that a pointer is for. -/
theorem Captured.pageIndex {ops : List WatchOp} (hc : Captured h ops page) :
    ∃ i, pageIndex h.watch page = some i := by
  obtain ⟨before, cpu, -, -, hstamp, -⟩ := hc
  obtain ⟨-, i, -, hpage⟩ := WatchHost.exists_of_stampOf_ne hstamp
  exact ⟨i, ((sameWindow_watchRun h before).pageIndex_eq page).symm.trans hpage⟩

/-- The answer of the watch, from what has been captured. -/
theorem unwatched_iff (h₀ : h.watch.stamps = {}) (ops : List WatchOp) (pa length : Word) :
    armRamWatchUnwatched (some (watchRun h ops).watch) pa length = true ↔
      0 < length.toNat ∧ h.watch.base ≤ pa.toNat ∧
        pa.toNat + length.toNat ≤ h.watch.base + h.watch.size ∧
        ∀ page, Overlaps (pageAddress h.watch page) pa length → ¬Captured h ops page := by
  obtain ⟨-, hbase, hsize⟩ := sameWindow_watchRun h ops
  rw [armRamWatchUnwatched_iff, hbase, hsize]
  refine and_congr_right fun _ => and_congr_right fun hlow => and_congr_right fun hhigh => ?_
  constructor
  · intro hzero page hoverlaps hcaptured
    obtain ⟨i, hpage⟩ := hcaptured.pageIndex
    rw [(pageAddress_eq hpage).1] at hoverlaps
    exact (stamp_ne_zero_iff h₀ hpage).2 hcaptured (hzero i hoverlaps)
  · intro hnone i hoverlaps
    have haligned := h.watch.size_aligned
    have hi : i < h.watch.size / 1024 := by
      obtain ⟨a, ha⟩ := hoverlaps
      omega
    have hpage := pageIndex_of_lt hi
    refine not_not.1 fun hne => ?_
    refine hnone _ ?_ ((stamp_ne_zero_iff h₀ hpage).1 hne)
    rwa [(pageAddress_eq hpage).1]

/-! ### Grants -/

/-- No grant of the core is for the page. -/
def NoGrant (h : WatchHost) (c page : Nat) : Prop :=
  ∀ slot, ((h.cpus c).cache.dwrite slot).host ≠ some page

theorem host_revokeWrites (c : ArmCpu) (page : Nat) (slot : BitVec 12) :
    ((revokeWrites c page).cache.dwrite slot).host =
      if (c.cache.dwrite slot).host = some page then none else (c.cache.dwrite slot).host := by
  rw [revokeWrites]
  exact apply_ite BlockEntry.host ((c.cache.dwrite slot).host = some page) {} _

/-- The cores after a capture. -/
theorem capture_cpus (cpu : Option Nat) (page c : Nat) :
    (h.capture cpu page).cpus c = h.cpus c ∨
      (h.capture cpu page).cpus c = revokeWrites (h.cpus c) page := by
  cases cpu with
  | none => exact Or.inl rfl
  | some c' =>
    rw [WatchHost.capture, Option.map_some]
    cases hpage : pageIndex h.watch page with
    | none =>
      rw [armRamWatchCapture_none _ hpage]
      dsimp only
      rw [Function.update_eq_self]
      exact Or.inl rfl
    | some i =>
      rw [armRamWatchCapture_eq _ hpage]
      dsimp only
      by_cases hc : c = c'
      · rw [hc, Function.update_self]
        split_ifs
        · exact Or.inr rfl
        · exact Or.inl rfl
      · rw [Function.update_of_ne hc]
        exact Or.inl rfl

/-- The first capture of a page revokes the grants of the core. -/
theorem noGrant_capture {c : Nat} (hpage : pageIndex h.watch page = some i)
    (hstamp : h.stampOf (some c) page ≠ 0) (hzero : h.watch.stamps.stamp i = 0) :
    NoGrant (h.capture (some c) page) c page := by
  intro slot
  have htop : h.watch.stamps.sequence ≠ uint64Max := fun htop => by
    rw [WatchHost.stampOf_eq c hpage, Stamps.observe_exhausted htop] at hstamp
    exact hstamp rfl
  have hcpu : (h.capture (some c) page).cpus c = revokeWrites (h.cpus c) page := by
    rw [WatchHost.capture, Option.map_some, armRamWatchCapture_eq _ hpage, if_pos ⟨htop, hzero⟩]
    exact Function.update_self ..
  rw [hcpu, host_revokeWrites]
  split_ifs with hhost
  · exact Option.some_ne_none _ |>.symm
  · exact hhost

/-- Without a grant for the page there is none after an operation, unless it is one. -/
theorem NoGrant.run {c : Nat} (hc : NoGrant h c page) {op : WatchOp}
    (hop : ∀ c' slot entry, op = .grant c' slot entry → entry.host ≠ some page) :
    NoGrant (op.run h) c page := by
  intro slot
  cases op with
  | capture cpu page' =>
    obtain hcpu | hcpu := @capture_cpus h cpu page' c
    · rw [WatchOp.run, hcpu]
      exact hc slot
    · rw [WatchOp.run, hcpu, host_revokeWrites]
      split_ifs
      · exact Option.some_ne_none _ |>.symm
      · exact hc slot
  | changed pa length => exact hc slot
  | reset => exact hc slot
  | unwatched pa length => exact hc slot
  | grant c' slot' entry =>
    rw [WatchOp.run, WatchHost.grant]
    dsimp only
    by_cases hcpu : c = c'
    · subst hcpu
      rw [Function.update_self]
      dsimp only
      by_cases hslot : slot = slot'
      · rw [hslot, Function.update_self]
        exact hop c slot' entry rfl
      · rw [Function.update_of_ne hslot]
        exact hc slot
    · rw [Function.update_of_ne hcpu]
      exact hc slot

/-- From its first capture on, the page has no grant in the core of that capture, until the next
reset. -/
theorem noGrant_of_first (h₀ : h.watch.stamps = {}) {before after : List WatchOp} {c : Nat}
    (hstamp : (watchRun h before).stampOf (some c) page ≠ 0) (hfirst : ¬Captured h before page)
    (hreset : .reset ∉ after)
    (hconsent : ∀ a c' slot entry b, after = a ++ .grant c' slot entry :: b →
      entry.host = some page → armRamWatchUnwatched
        (some (watchRun h (before ++ .capture (some c) page :: a)).watch)
        (BitVec.ofNat 32 (pageAddress h.watch page)) 1024 = true) :
    NoGrant (watchRun h (before ++ .capture (some c) page :: after)) c page := by
  obtain ⟨-, i, -, hpage⟩ := WatchHost.exists_of_stampOf_ne hstamp
  have hpage₀ : pageIndex h.watch page = some i :=
    ((sameWindow_watchRun h before).pageIndex_eq page).symm.trans hpage
  induction after using List.reverseRecOn with
  | nil =>
    rw [watchRun_append]
    exact noGrant_capture hpage hstamp (not_not.1 (mt (stamp_ne_zero_iff h₀ hpage₀).1 hfirst))
  | append_singleton after op ih =>
    rw [List.mem_append, not_or] at hreset
    rw [← List.cons_append, ← List.append_assoc, watchRun_append]
    refine (ih hreset.1 fun a c' slot entry b hafter =>
      hconsent a c' slot entry (b ++ [op]) (by rw [hafter, List.append_assoc]; rfl)).run ?_
    rintro c' slot entry rfl hhost
    -- The page is watched, so that the grant has no consent.
    have hunwatched := hconsent after c' slot entry [] rfl hhost
    obtain ⟨haddress, -, hi⟩ := pageAddress_eq hpage₀
    have hwindow := h.watch.window_le
    have haligned := h.watch.size_aligned
    have hoverlaps : Overlaps (pageAddress h.watch page)
        (BitVec.ofNat 32 (pageAddress h.watch page)) 1024 := by
      refine ⟨pageAddress h.watch page, ?_⟩
      rw [BitVec.toNat_ofNat]
      have hlength : (1024 : Word).toNat = 1024 := rfl
      omega
    exact ((unwatched_iff h₀ _ _ _).1 hunwatched).2.2.2 page hoverlaps
      ⟨before, some c, after, rfl, hstamp, hreset.1⟩

/-! ### The exhausted counter -/

theorem exhausted_watchRun (htop : h.watch.stamps.sequence = uint64Max) (ops : List WatchOp) :
    (watchRun h ops).watch.stamps.sequence = uint64Max := by
  rw [watchRun_watch]
  exact Stamps.exhausted_run htop _

theorem stampOf_exhausted (htop : h.watch.stamps.sequence = uint64Max) (cpu : Option Nat) :
    h.stampOf cpu page = 0 := by
  refine not_not.1 fun hne => hne ?_
  obtain ⟨c, i, rfl, hpage⟩ := WatchHost.exists_of_stampOf_ne hne
  rw [WatchHost.stampOf_eq c hpage, Stamps.observe_exhausted htop]

/-- What has been captured stays so until the next reset. -/
theorem Captured.append {ops after : List WatchOp} (hc : Captured h ops page)
    (hreset : .reset ∉ after) : Captured h (ops ++ after) page := by
  obtain ⟨before, cpu, mid, rfl, hstamp, hmid⟩ := hc
  refine ⟨before, cpu, mid ++ after, by rw [List.append_assoc]; rfl, hstamp, ?_⟩
  rw [List.mem_append, not_or]
  exact ⟨hmid, hreset⟩

/-! ### Soundness -/

/-- What holds of every run on a watch. A grant has consent if the watch says that its page is not
watched. -/
structure WatchSound (h : WatchHost) : Prop where
  /-- Between two captures of a page with the same stamp nothing spoils the page. -/
  stamps : ∀ before cpu page mid cpu', (watchRun h before).stampOf cpu page ≠ 0 →
    (watchRun h (before ++ .capture cpu page :: mid)).stampOf cpu' page =
      (watchRun h before).stampOf cpu page →
        ∀ op ∈ mid, ¬op.Spoils h.watch page
  /-- A range is unwatched if it lies in the window and none of its pages has been captured since
  the last reset. -/
  unwatched : ∀ ops pa length,
    armRamWatchUnwatched (some (watchRun h ops).watch) pa length = true ↔
      0 < length.toNat ∧ h.watch.base ≤ pa.toNat ∧
        pa.toNat + length.toNat ≤ h.watch.base + h.watch.size ∧
        ∀ page, Overlaps (pageAddress h.watch page) pa length → ¬Captured h ops page
  /-- From the first capture of a page since the last reset on, up to the next one, the core of that
  capture has no grant for the page, if the later grants for it have consent. -/
  grants : ∀ before c page after, (watchRun h before).stampOf (some c) page ≠ 0 →
    ¬Captured h before page → .reset ∉ after →
    (∀ a c' slot entry b, after = a ++ .grant c' slot entry :: b → entry.host = some page →
      armRamWatchUnwatched (some (watchRun h (before ++ .capture (some c) page :: a)).watch)
        (BitVec.ofNat 32 (pageAddress h.watch page)) 1024 = true) →
    NoGrant (watchRun h (before ++ .capture (some c) page :: after)) c page
  /-- With the counter at its top no capture returns a stamp, and what is watched stays so until a
  reset. -/
  exhausted : ∀ before after, (watchRun h before).watch.stamps.sequence = uint64Max →
    (∀ cpu page, (watchRun h (before ++ after)).stampOf cpu page = 0) ∧
      (.reset ∉ after → ∀ page, Captured h before page → Captured h (before ++ after) page)

/-- On a new watch, and in any run of captures, grants, stores, resets and questions of any number
of cores: a stamp that two captures of a page share means that nothing between them can have changed
the page unseen; a range is said to be unwatched exactly if it lies in the window and none of its
pages has been captured since the last reset; the core that captured a page first has no grant to
write it unseen, as long as later grants were only made where the watch consented; and once the
stamps have run out there are no more of them, while the captures stay. -/
theorem watch_sound {memory : Bool} {ram : Nat} {base size : Word} {watch : RamWatch}
    (hcreate : armRamWatchCreate memory ram base size = some watch) (cpus : Nat → ArmCpu) :
    WatchSound ⟨watch, cpus⟩ := by
  have h₀ : watch.stamps = {} := by
    rw [armRamWatchCreate] at hcreate
    split_ifs at hcreate
    obtain rfl := Option.some.inj hcreate
    rfl
  refine ⟨?_, unwatched_iff h₀, fun before c page after => noGrant_of_first h₀, ?_⟩
  · intro before cpu page mid cpu' hstamp hsame op hmem hop
    have hwindow := sameWindow_watchRun ⟨watch, cpus⟩ before
    rw [watchRun_append] at hsame
    refine stampOf_ne_of_spoils (bounded_watchRun h₀ before) hstamp hmem ?_ hsame
    cases op with
    | changed pa length =>
      rw [WatchOp.Spoils, pageAddress, hwindow.1, hwindow.2.1]
      exact hop
    | capture _ _ => exact hop
    | reset => exact hop
    | unwatched _ _ => exact hop
    | grant _ _ _ => exact hop
  · intro before after htop
    rw [watchRun_append]
    exact ⟨fun cpu page => stampOf_exhausted (exhausted_watchRun htop after) cpu,
      fun hreset page hc => hc.append hreset⟩

/-- A watch on one page at address 0. -/
def onePage : RamWatch :=
  ⟨1024, 0, 1024, {}, by decide, by decide, by decide, by decide, by decide⟩

theorem watch_sound_onePage : WatchSound ⟨onePage, fun _ => {}⟩ :=
  watch_sound (show armRamWatchCreate true 1024 0 1024 = some onePage from rfl) fun _ => {}

/-- A core keeps the grant that it got before another core captured the page, and has it after a
capture that returns a stamp. -/
theorem grant_survives_capture :
    ∃ before page, (watchRun ⟨onePage, fun _ => {}⟩ before).stampOf (some 1) page ≠ 0 ∧
      (∀ a c slot entry b, before = a ++ .grant c slot entry :: b → entry.host = some page →
        armRamWatchUnwatched (some (watchRun ⟨onePage, fun _ => {}⟩ a).watch)
          (BitVec.ofNat 32 (pageAddress onePage page)) 1024 = true) ∧
      ¬NoGrant (watchRun ⟨onePage, fun _ => {}⟩ (before ++ [.capture (some 1) page])) 1 page := by
  refine ⟨[.grant 1 0 ⟨some 1024, 0, 1⟩, .capture (some 0) 1024], 1024, by decide, ?_, ?_⟩
  · intro a c slot entry b hbefore hhost
    cases a with
    | nil => decide
    | cons op a =>
      cases a with
      | nil => cases hbefore
      | cons op' a =>
        have hlength := congrArg List.length hbefore
        simp at hlength
  · intro h
    exact h 0 (by decide)

end S5LBox
