import S5LBox.Arm.PageCaches
import S5LBox.Arm.UserMode

/-!
# Loads and stores keep the page caches coherent

An instruction reaches the caches through its accesses, through the translator, and through the
writes to the translation registers, which flush. Everything else leaves the caches and those
registers alone. The next instruction is fetched from an aligned address: an ARM instruction goes on
at a word, or at a halfword in Thumb state, and a Thumb instruction stays in Thumb state unless it
branches to a word.

## Main definitions

* `Going thumb`: the trace is coherent, and a Thumb instruction is in Thumb state.
* `Finishes`, `Ends`: programs that keep the trace and complete, or are refused and leave the
  registers alone.
* `Retires`, `Lands`: the same for an instruction that falls through and for one that says where
  it goes on.

## Main results

* one lemma for each group of instructions, such as `lands_execBlockTransfer`.
-/

namespace S5LBox

open Blocks StateProgram

namespace Exec

variable {σ α β : Type} {B : ArmBus σ} {thumb : Bool}

/-! ### Rules -/

/-- The core is in Thumb state. -/
def InThumb (c : ArmCpu) : Prop := c.getFlag armCpsrT = true

variable (B) in
/-- The trace is coherent, and a Thumb instruction is in Thumb state. -/
def Going (thumb : Bool) (s : Sys σ) : Prop :=
  Traced B s ∧ (thumb = true → InThumb s.cpu)

variable (B) in
/-- The program keeps the trace and ends with a result that satisfies the predicate. -/
def Finishes (thumb : Bool) (P : α → ArmCpu → Prop) (m : Exec σ α) : Prop :=
  Ensures (Going B thumb) m fun a s => Traced B s ∧ P a s.cpu

variable (B) in
/-- The program keeps the trace. It ends with a result that satisfies the predicate, or it is
refused and leaves everything alone that an access leaves alone. -/
def Ends (thumb : Bool) (P : α → ArmCpu → Prop) (refused : α → Prop) (m : Exec σ α) : Prop :=
  ∀ s, Going B thumb s → Traced B (m s).2 ∧
    (P (m s).1 (m s).2.cpu ∨ refused (m s).1 ∧ (m s).2.cpu.kept true = s.cpu.kept true)

variable (B) in
/-- An instruction that falls through. -/
abbrev Retires (thumb : Bool) : Exec σ ArmStatus → Prop :=
  Ends B thumb (fun st c => st = .ok ∧ (thumb = true → InThumb c)) (· ≠ .ok)

variable (B) in
/-- An instruction that says where it goes on. -/
abbrev Lands (thumb : Bool) : Exec σ (ArmStatus × Word) → Prop :=
  Ends B thumb (fun r c => r.1 = .ok ∧ Fetchable c r.2) (·.1 ≠ .ok)

variable {m n : Exec σ α} {p : Prop}

section Rules

variable {P : α → ArmCpu → Prop} {refused : α → Prop}

variable (B) in
/-- An access: it keeps the trace, and it leaves the registers alone. -/
def Touches (m : Exec σ α) : Prop := Quiet true m ∧ Keeps (Traced B) m

theorem inThumb_of_kept {c c' : ArmCpu} (h : c'.kept true = c.kept true) (hc : InThumb c) :
    InThumb c' := by
  have hcpsr := congrArg ArmCpu.cpsr h
  have hflag : c'.getFlag armCpsrT = c.getFlag armCpsrT :=
    congrArg (fun x : Word => x &&& armCpsrT != 0) hcpsr
  exact hflag.trans hc

theorem Touches.going {m : Exec σ α} (h : Touches B m) : Keeps (Going B thumb) m := fun s hs =>
  ⟨h.2 s hs.1, fun hthumb => inThumb_of_kept (h.1 s).1 (hs.2 hthumb)⟩

/-- A change of the core that leaves alone the caches, the translation registers and, for a Thumb
instruction, the instruction set. -/
theorem going_modifyCpu {f : ArmCpu → ArmCpu} (hcache : ∀ c, (f c).cache = c.cache)
    (hstamp : ∀ c, (f c).cp15.stamp = c.cp15.stamp)
    (hthumb : thumb = true → ∀ c, InThumb c → InThumb (f c)) :
    Keeps (Going B thumb) (modifyCpu f : Exec σ Unit) := fun s h =>
  ⟨keeps_modifyCpu hcache hstamp s h.1, fun ht => hthumb ht s.cpu (h.2 ht)⟩

theorem Finishes.pure {a : α} (h : ∀ c, (thumb = true → InThumb c) → P a c) :
    Finishes B thumb P (Pure.pure a : Exec σ α) := fun s hs => ⟨hs.1, h s.cpu hs.2⟩

theorem Finishes.bind {m : Exec σ β} {f : β → Exec σ α} (hm : Keeps (Going B thumb) m)
    (hf : ∀ b, Finishes B thumb P (f b)) : Finishes B thumb P (m >>= f) :=
  fun s hs => hf (m s).1 (m s).2 (hm s hs)

theorem Finishes.ite [Decidable p] (hm : p → Finishes B thumb P m) (hn : ¬p → Finishes B thumb P n)
    : Finishes B thumb P (if p then m else n) :=
  Ensures.ite hm hn

theorem Finishes.either [Decidable p] (hm : Finishes B thumb P m) (hn : Finishes B thumb P n) :
    Finishes B thumb P (if p then m else n) :=
  .ite (fun _ => hm) fun _ => hn

theorem Finishes.ends {m : Exec σ α} (h : Finishes B thumb P m) : Ends B thumb P refused m :=
  fun s hs => ⟨(h s hs).1, .inl (h s hs).2⟩

theorem Ends.refuse {a : α} (h : refused a) : Ends B thumb P refused (pure a : Exec σ α) :=
  fun _ hs => ⟨hs.1, .inr ⟨h, rfl⟩⟩

theorem Ends.access {m : Exec σ β} {f : β → Exec σ α} (hm : Touches B m)
    (hf : ∀ b, Ends B thumb P refused (f b)) : Ends B thumb P refused (m >>= f) := by
  intro s hs
  obtain ⟨htraced, hend⟩ := hf (m s).1 (m s).2 (hm.going s hs)
  exact ⟨htraced, hend.imp id fun h => ⟨h.1, h.2.trans (hm.1 s).1⟩⟩

theorem Ends.ite [Decidable p] (hm : p → Ends B thumb P refused m)
    (hn : ¬p → Ends B thumb P refused n) : Ends B thumb P refused (if p then m else n) :=
  iteInduction hm hn

theorem Ends.either [Decidable p] (hm : Ends B thumb P refused m) (hn : Ends B thumb P refused n) :
    Ends B thumb P refused (if p then m else n) :=
  .ite (fun _ => hm) fun _ => hn

theorem Ends.read {f : ArmCpu → Exec σ α} (hf : ∀ c, Ends B thumb P refused (f c)) :
    Ends B thumb P refused (getCpu >>= f) := fun s hs => hf s.cpu s hs

theorem Ends.checked {go : Exec σ α} {a : α} (ha : Finishes B thumb P (Pure.pure a : Exec σ α))
    (hgo : Ends B thumb P refused go) :
    Ends B thumb P refused (abortLatched >>= fun b => if b = true then Pure.pure a else go) :=
  .access ⟨quiet_abortLatched, keeps_abortLatched⟩ fun _ =>
    .either ha.ends hgo

/-- A function of the core, known by its cases. -/
theorem Ends.onCpu {f : ArmCpu → α × ArmCpu}
    (h : ∀ c, (thumb = true → InThumb c) →
      ((f c).2.cache = c.cache ∧ (f c).2.cp15.stamp = c.cp15.stamp ∧ P (f c).1 (f c).2) ∨
        refused (f c).1 ∧ (f c).2 = c) :
    Ends B thumb P refused (onCpu f : Exec σ α) := by
  intro s hs
  obtain ⟨hcache, hstamp, hP⟩ | ⟨href, hsame⟩ := h s.cpu hs.2
  · exact ⟨⟨hs.1.now.modify hcache hstamp, hs.1.log, hs.1.aligned⟩, .inl hP⟩
  · have hkept : (f s.cpu).2.kept true = s.cpu.kept true := congrArg (ArmCpu.kept true) hsame
    refine ⟨⟨hs.1.now.modify ?_ ?_, hs.1.log, hs.1.aligned⟩, .inr ⟨href, hkept⟩⟩
    · exact congrArg ArmCpu.cache hsame
    · exact congrArg (fun c : ArmCpu => c.cp15.stamp) hsame

/-- The sequential address. -/
def Follows (thumb : Bool) (next : Word) : Prop :=
  next &&& 3 = 0 ∨ thumb = true ∧ next &&& 1 = 0

theorem Follows.fetchable {next : Word} (h : Follows thumb next) {c : ArmCpu}
    (hc : thumb = true → InThumb c) : Fetchable c next := by
  obtain h | ⟨ht, h⟩ := h
  · exact .inl h
  · exact .inr ⟨h, hc ht⟩

theorem finishes_ok : Finishes B thumb (fun st c => st = .ok ∧ (thumb = true → InThumb c))
    (pure .ok : Exec σ ArmStatus) := .pure fun _ h => ⟨rfl, h⟩

theorem finishes_next {next : Word} (h : Follows thumb next) :
    Finishes B thumb (fun r c => r.1 = .ok ∧ Fetchable c r.2)
      (pure (.ok, next) : Exec σ (ArmStatus × Word)) :=
  .pure fun _ hc => ⟨rfl, h.fetchable hc⟩

/-- An instruction that falls through to the sequential address. -/
theorem Retires.lands {m : Exec σ ArmStatus} (hm : Retires B thumb m) {next : Word}
    (hnext : Follows thumb next) : Lands B thumb (do return (← m, next)) := by
  intro s hs
  obtain ⟨htraced, ⟨hok, hthumb⟩ | hrefused⟩ := hm s hs
  · exact ⟨htraced, .inl ⟨hok, hnext.fetchable hthumb⟩⟩
  · exact ⟨htraced, .inr hrefused⟩

theorem cache_of_plain {c c' : ArmCpu} (h : c'.plain = c.plain) :
    c'.cache = c.cache ∧ c'.cp15.stamp = c.cp15.stamp := by
  have hcache := congrArg ArmCpu.cache h
  have hcp15 := congrArg (fun d : ArmCpu => d.cp15.stamp) h
  exact ⟨hcache, hcp15⟩

/-- An ordinary ARM instruction retires. -/
theorem retires_ordinary {f : ArmCpu → ArmStatus × ArmCpu}
    (h : ∀ c, Ordinary c (f c).1 (f c).2) : Retires B false (onCpu f : Exec σ ArmStatus) := by
  refine .onCpu fun c _ => ?_
  have hcpu := h c
  generalize f c = r at hcpu
  obtain ⟨st, c'⟩ := r
  cases hcpu with
  | ok hplain => exact .inl ⟨(cache_of_plain hplain).1, (cache_of_plain hplain).2, rfl, nofun⟩
  | refused => exact .inr ⟨nofun, rfl⟩

theorem going_setR (n : RegNo) (v : Word) :
    Keeps (Going B thumb) (modifyCpu (·.setR n v) : Exec σ Unit) :=
  going_modifyCpu (fun _ => rfl) (fun _ => rfl) fun _ _ => id

theorem going_guarded [Decidable p] {m : Exec σ Unit} (h : Keeps (Going B thumb) m) :
    Keeps (Going B thumb) (guarded p m) := keeps_guarded fun _ => h

end Rules

/-! ### Accesses -/

section Accesses

theorem Touches.pure (a : α) : Touches B (Pure.pure a : Exec σ α) :=
  ⟨.pure a, .pure a⟩

theorem Touches.bind {m : Exec σ α} {f : α → Exec σ β} (hm : Touches B m)
    (hf : ∀ a, Touches B (f a)) : Touches B (m >>= f) :=
  ⟨.bind hm.1 fun a => (hf a).1, .bind hm.2 fun a => (hf a).2⟩

theorem Touches.ite [Decidable p] (hm : p → Touches B m) (hn : ¬p → Touches B n) :
    Touches B (if p then m else n) :=
  ⟨.ite (fun h => (hm h).1) fun h => (hn h).1,
    .ite (fun h => (hm h).2) fun h => (hn h).2⟩

theorem Touches.either [Decidable p] (hm : Touches B m) (hn : Touches B n) :
    Touches B (if p then m else n) :=
  .ite (fun _ => hm) fun _ => hn

theorem touches_getCpu : Touches B (getCpu : Exec σ ArmCpu) := ⟨quiet_getCpu, keeps_getCpu⟩

theorem touches_abortLatched : Touches B (abortLatched : Exec σ Bool) :=
  ⟨quiet_abortLatched, keeps_abortLatched⟩

theorem touches_memRAs (w : MemWidth) (va : Word) (priv : Bool) :
    Touches B (memRAs B w va priv) := ⟨quiet_memRAs B w va priv, keeps_memRAs w va priv⟩

theorem touches_memWAs (w : MemWidth) (va v : Word) (priv : Bool) :
    Touches B (memWAs B w va v priv) := ⟨quiet_memWAs B w va v priv, keeps_memWAs w va v priv⟩

theorem touches_memR (w : MemWidth) (va : Word) : Touches B (memR B w va) :=
  ⟨quiet_memR B w va, keeps_memR w va⟩

theorem touches_memW (w : MemWidth) (va v : Word) : Touches B (memW B w va v) :=
  ⟨quiet_memW B w va v, keeps_memW w va v⟩

theorem touches_memR32 (va : Word) : Touches B (memR32 B va) := touches_memR .w32 va

theorem touches_memW32 (va v : Word) : Touches B (memW32 B va v) := touches_memW .w32 va v

theorem touches_memR16 (va : Word) : Touches B (memR16 B va) := touches_memR .w16 va

theorem touches_memW16 (va v : Word) : Touches B (memW16 B va v) := touches_memW .w16 va v

theorem touches_extraLoad (sh : Nat) (addr : Word) : Touches B (extraLoad B sh addr) := by
  refine .either (touches_memR16 addr) ?_
  refine .either ?_ ?_
  · exact .bind (touches_memR .w8 addr) fun _ => .pure _
  · exact .bind (touches_memR16 addr) fun _ => .pure _

theorem touches_noteAlignmentAbort (va : Word) (write : Bool) :
    Touches B (modifyCpu (noteAlignmentAbort · va write) : Exec σ Unit) :=
  ⟨quiet_modifyCpu fun c => kept_noteAlignmentAbort c va write, keeps_noteAbort _ va⟩

theorem touches_prepareMultiwordAddress (va alignment : Word) (write : Bool) :
    Touches B (onCpu (prepareMultiwordAddress va alignment write) : Exec σ (Option Word)) := by
  refine ⟨quiet_prepareMultiwordAddress va alignment write, keeps_onCpu (fun c => ?_) fun c => ?_⟩
  all_goals
    simp only [prepareMultiwordAddress]
    split_ifs
  · rfl
  · exact (noteAbort_cache c _ va).1
  · rfl
  · rfl
  · exact (noteAbort_cache c _ va).2
  · rfl

theorem keeps_prepareSyncAddress (va alignment : Word) (write : Bool) :
    Keeps (Traced B) (onCpu (prepareSyncAddress va alignment write) :
      Exec σ (Option ArmStatus)) := by
  refine keeps_onCpu (fun c => ?_) fun c => ?_
  all_goals
    simp only [prepareSyncAddress]
    split_ifs
  · rfl
  · exact (noteAbort_cache c _ va).1
  · rfl
  · rfl
  · exact (noteAbort_cache c _ va).2
  · rfl

theorem touches_loadList (addr : Word) (regs : List RegNo) : Touches B (loadList B addr regs) := by
  induction regs generalizing addr with
  | nil => exact .pure _
  | cons i is ih =>
    refine .bind (touches_memR32 addr) fun v => ?_
    refine .bind touches_abortLatched fun _ => ?_
    refine .either (.pure _) ?_
    refine .bind (ih (addr + 4)) fun vs => ?_
    cases vs with
    | none => exact .pure _
    | some vs => exact .pure _

theorem touches_storeList (value : ArmCpu → RegNo → Word) (addr : Word) (regs : List RegNo) :
    Touches B (storeList B value addr regs) := by
  induction regs generalizing addr with
  | nil => exact .pure _
  | cons i is ih =>
    refine .bind touches_getCpu fun c => ?_
    refine .bind (touches_memW32 addr _) fun _ => ?_
    refine .bind touches_abortLatched fun _ => ?_
    exact .either (.pure _) <| ih (addr + 4)

end Accesses

/-! ### ARM transfers -/

section Transfers

variable {next : Word} (hnext : Follows false next)

/-- The result of an instruction that has landed. -/
def Landed (r : ArmStatus × Word) (c : ArmCpu) : Prop := r.1 = .ok ∧ Fetchable c r.2

/-- Register writes in front of an address that is known to be aligned. -/
theorem landed_setR {m : Exec σ (ArmStatus × Word)} {next : Word} {p : Prop} [Decidable p]
    (n : RegNo) (v : Word)
    (hm : Ensures (fun s => Traced B s ∧ Fetchable s.cpu next) m
      fun r s => Traced B s ∧ Landed r s.cpu) :
    Ensures (fun s => Traced B s ∧ Fetchable s.cpu next)
      (guarded p (modifyCpu (·.setR n v)) >>= fun _ => m)
      fun r s => Traced B s ∧ Landed r s.cpu := by
  refine .bind (fun s hs => ?_) fun _ => hm
  have htraced : Traced B { s with cpu := s.cpu.setR n v } :=
    ⟨hs.1.now.modify rfl rfl, hs.1.log, hs.1.aligned⟩
  rw [run_guarded]
  split
  · exact ⟨htraced, hs.2⟩
  · exact hs

theorem inThumb_setT (c : ArmCpu) : InThumb (c.setCpsr (c.cpsr ||| armCpsrT)) := by
  have hT : (c.cpsr ||| armCpsrT) &&& armCpsrT = armCpsrT := by
    ext i hi
    simp only [BitVec.getElem_and, BitVec.getElem_or]
    cases armCpsrT[i] <;> simp
  rw [InThumb, ArmCpu.getFlag, ArmCpu.setCpsr, hT]
  decide

theorem cleared_and (v : Word) : (v &&& ~~~1) &&& 1 = 0 ∧ (v &&& ~~~3) &&& 3 = 0 := by
  constructor
  all_goals
    rw [BitVec.and_assoc]
    exact BitVec.and_zero

theorem fetchable_interwork (c : ArmCpu) (val : Word) :
    Fetchable (interwork c val).2 (interwork c val).1 := by
  rw [interwork]
  split
  · exact .inr ⟨(cleared_and val).1, inThumb_setT c⟩
  · exact .inl (cleared_and val).2

include hnext

theorem lands_execSingleTransfer (pc insn : Word) :
    Lands B false (execSingleTransfer B pc insn next) := by
  have hgo : ∀ c : ArmCpu, Fetchable c next := fun c => hnext.fetchable (by rintro ⟨⟩)
  rw [execSingleTransfer]
  refine .either (.refuse (by simp)) ?_
  refine .either (.refuse (by simp)) ?_
  refine .either (.refuse (by simp)) ?_
  refine .either (.refuse (by simp)) ?_
  refine .read fun c => ?_
  refine .either ?load ?store
  case load =>
    refine .either ?_ ?_
    · refine .either ?_ <| .refuse (by simp)
      exact .access (touches_noteAlignmentAbort _ _) fun _ => (finishes_next hnext).ends
    refine .access (touches_memRAs _ _ _) fun val => ?_
    refine .checked (finishes_next hnext) ?_
    refine Ends.either (Ends.refuse (by simp)) <| Finishes.ends ?_
    refine .bind (going_setR _ val) fun _ => ?_
    have htail : ∀ next : Word, ∀ p q : Prop, ∀ [Decidable p] [Decidable q], ∀ v,
        Ensures (fun s => Traced B s ∧ Fetchable s.cpu next) (do
          guarded p (modifyCpu (·.setR (field insn 16) v))
          guarded q (modifyCpu (·.setR (field insn 16) v))
          return (.ok, next) : Exec σ (ArmStatus × Word)) fun r s => Traced B s ∧ Landed r s.cpu :=
      fun next p q _ _ v => landed_setR _ v <| landed_setR _ v <|
        .pure fun s hs => ⟨hs.1, rfl, hs.2⟩
    refine .either ?_ ?_
    · refine Ensures.bind (fun s hs => ?_) fun next => htail next _ _ _
      have hcache := cache_of_plain (plain_interwork s.cpu val)
      exact ⟨⟨hs.1.now.modify hcache.1 hcache.2, hs.1.log, hs.1.aligned⟩,
        fetchable_interwork s.cpu val⟩
    · exact Ensures.bind (fun s hs => ⟨hs.1, hgo s.cpu⟩) fun next => htail next _ _ _
  case store =>
    refine .access (touches_memWAs _ _ _ _) fun _ => ?_
    refine Ends.checked (finishes_next hnext) (Finishes.ends ?_)
    exact .bind (going_guarded (going_setR _ _)) fun _ => finishes_next hnext

omit hnext in
/-- A program whose result says whether it has done its work, and that keeps the trace. -/
theorem going_doublewordTransfer (pc addr : Word) (rd : RegNo) (store : Bool) :
    Keeps (Going B false) (doublewordTransfer B pc addr rd store) := by
  refine .bind (touches_prepareMultiwordAddress addr 4 store).going fun xfer => ?_
  cases xfer with
  | none => exact .pure _
  | some xfer =>
    refine .either ?_ ?_
    · refine .bind touches_getCpu.going fun c => ?_
      refine .bind (touches_memW32 _ _).going fun _ => ?_
      refine .bind touches_abortLatched.going fun _ => ?_
      refine .either (.pure _) ?_
      refine .bind touches_getCpu.going fun c => ?_
      refine .bind (touches_memW32 _ _).going fun _ => ?_
      exact .bind touches_abortLatched.going fun _ => .pure _
    · refine .bind (touches_memR32 _).going fun lo => ?_
      refine .bind touches_abortLatched.going fun _ => ?_
      refine .either (.pure _) ?_
      refine .bind (touches_memR32 _).going fun hi => ?_
      refine .bind touches_abortLatched.going fun _ => ?_
      refine .either (.pure _) ?_
      exact .bind (going_modifyCpu (fun _ => rfl) (fun _ => rfl) nofun) fun _ => .pure _

omit hnext in
theorem going_extraAccess (pc addr : Word) (rd : RegNo) (sh : Nat) (L : Bool) :
    Keeps (Going B false) (extraAccess B pc addr rd sh L) := by
  refine .either (going_doublewordTransfer pc addr rd _) ?_
  refine .either ?_ ?_
  · refine .bind (touches_extraLoad sh addr).going fun val => ?_
    refine .bind touches_abortLatched.going fun _ => ?_
    refine .either (.pure _) ?_
    exact .bind (going_setR rd val) fun _ => .pure _
  · refine .bind touches_getCpu.going fun c => ?_
    refine .bind (touches_memW16 _ _).going fun _ => ?_
    exact .bind touches_abortLatched.going fun _ => .pure _

theorem lands_execExtraTransfer (pc insn : Word) :
    Lands B false (execExtraTransfer B pc insn next) := by
  rw [execExtraTransfer]
  refine .either (.refuse (by simp)) ?_
  refine .either (.refuse (by simp)) ?_
  refine .either (.refuse (by simp)) ?_
  refine .either (.refuse (by simp)) ?_
  refine .either (.refuse (by simp)) ?_
  refine .either (.refuse (by simp)) ?_
  refine .read fun c => ?_
  refine .either (.refuse (by simp)) ?_
  refine Ends.either (Ends.refuse (by simp)) <| Finishes.ends ?_
  refine .bind (going_extraAccess _ _ _ _ _) fun done => ?_
  refine .either ?_ <| finishes_next hnext
  exact .bind (going_guarded (going_setR _ _)) fun _ => finishes_next hnext

omit hnext in
theorem regWriteUser_cache (c : ArmCpu) (n : RegNo) (v : Word) :
    (regWriteUser c n v).cache = c.cache ∧ (regWriteUser c n v).cp15 = c.cp15 := by
  rw [regWriteUser]
  repeat' split
  all_goals exact ⟨rfl, rfl⟩

omit hnext in
theorem commitList_cache (write : ArmCpu → RegNo → Word → ArmCpu)
    (h : ∀ c n v, (write c n v).cache = c.cache ∧ (write c n v).cp15 = c.cp15)
    (vs : List (RegNo × Word)) (c : ArmCpu) :
    (commitList write vs c).cache = c.cache ∧ (commitList write vs c).cp15 = c.cp15 := by
  induction vs generalizing c with
  | nil => exact ⟨rfl, rfl⟩
  | cons v vs ih =>
    obtain ⟨hcache, hcp15⟩ := ih (write c v.1 v.2)
    obtain ⟨hcache', hcp15'⟩ := h c v.1 v.2
    exact ⟨hcache.trans hcache', hcp15.trans hcp15'⟩

omit hnext in
theorem armSetMode_cache (c : ArmCpu) (mode : Word) :
    (armSetMode c mode).cache = c.cache ∧ (armSetMode c mode).cp15 = c.cp15 := by
  simp only [armSetMode, armSwapBank]
  split_ifs <;> exact ⟨rfl, rfl⟩

omit hnext in
theorem restoreCpsr_cache (c : ArmCpu) (s : Word) :
    (restoreCpsr c s).cache = c.cache ∧ (restoreCpsr c s).cp15 = c.cp15 := armSetMode_cache c s

omit hnext in
/-- An address masked for the instruction set of the status register. -/
theorem fetchable_pcMask (c : ArmCpu) (v : Word) : Fetchable c (v &&& pcMask c.cpsr) := by
  rw [pcMask]
  split
  case isTrue h =>
    refine .inr ⟨(cleared_and v).1, ?_⟩
    rw [ArmCpu.getFlag, bne_iff_ne]
    exact h
  case isFalse => exact .inl (cleared_and v).2

omit hnext in
/-- A commit that says where the instruction goes on. -/
theorem ensures_commit {f : ArmCpu → Word × ArmCpu}
    (h : ∀ c, ((f c).2.cache = c.cache ∧ (f c).2.cp15 = c.cp15) ∧ Fetchable (f c).2 (f c).1) :
    Ensures (Going B false) (onCpu f : Exec σ Word) fun n s => Traced B s ∧ Fetchable s.cpu n := by
  intro s hs
  obtain ⟨⟨hcache, hcp15⟩, hfetch⟩ := h s.cpu
  exact ⟨⟨hs.1.now.modify hcache (congrArg Cp15.stamp hcp15), hs.1.log, hs.1.aligned⟩, hfetch⟩

omit hnext in
theorem writeBase_cache (t : BlockTransfer) (c : ArmCpu) :
    ((t.writeBase c).cache = c.cache ∧ (t.writeBase c).cp15 = c.cp15) ∧
      (t.writeBase c).cpsr = c.cpsr := by
  rw [BlockTransfer.writeBase]
  split <;> exact ⟨⟨rfl, rfl⟩, rfl⟩

omit hnext in
theorem fetchable_congr {c c' : ArmCpu} (h : c'.cpsr = c.cpsr) {n : Word} (hn : Fetchable c n) :
    Fetchable c' n := by
  rw [Fetchable, ArmCpu.getFlag, h]
  exact hn

theorem fetchable_commitReturn (vs : List (RegNo × Word)) (c : ArmCpu) :
    ((commitReturn vs next c).2.cache = c.cache ∧ (commitReturn vs next c).2.cp15 = c.cp15) ∧
      Fetchable (commitReturn vs next c).2 (commitReturn vs next c).1 := by
  rw [commitReturn]
  cases loadedPc vs with
  | some v => exact ⟨restoreCpsr_cache c _, fetchable_pcMask _ v⟩
  | none => exact ⟨restoreCpsr_cache c _, hnext.fetchable (by rintro ⟨⟩)⟩

theorem fetchable_commitLoad (userBank : Bool) (vs : List (RegNo × Word)) (c : ArmCpu) :
    ((commitLoad userBank vs next c).2.cache = c.cache ∧
      (commitLoad userBank vs next c).2.cp15 = c.cp15) ∧
      Fetchable (commitLoad userBank vs next c).2 (commitLoad userBank vs next c).1 := by
  have hlive := commitList_cache ArmCpu.setR (fun _ _ _ => ⟨rfl, rfl⟩) vs c
  rw [commitLoad]
  split
  · exact ⟨commitList_cache regWriteUser regWriteUser_cache vs c, hnext.fetchable (by rintro ⟨⟩)⟩
  · cases loadedPc vs with
    | none => exact ⟨hlive, hnext.fetchable (by rintro ⟨⟩)⟩
    | some v =>
      have hplain := plain_interwork (commitList ArmCpu.setR vs c) v
      have hcache := congrArg ArmCpu.cache hplain
      have hcp15 := congrArg ArmCpu.cp15 hplain
      exact ⟨⟨Eq.trans hcache hlive.1, Eq.trans hcp15 hlive.2⟩, fetchable_interwork _ v⟩

theorem lands_blockLoad (t : BlockTransfer) (addr : Word) :
    Lands B false (blockLoad B t addr next) := by
  refine .access (touches_loadList _ _) fun r => ?_
  cases r with
  | none => exact (finishes_next hnext).ends
  | some vs =>
    refine .read fun c => ?_
    refine .either (.refuse nofun) ?_
    refine Ends.either (Ends.refuse nofun) <| Finishes.ends ?_
    have hcommit : ∀ c : ArmCpu, (t.writeBase (commitList ArmCpu.setR vs c)).cache = c.cache ∧
        (t.writeBase (commitList ArmCpu.setR vs c)).cp15 = c.cp15 := by
      intro c
      obtain ⟨hcache, hcp15⟩ := (writeBase_cache t (commitList ArmCpu.setR vs c)).1
      obtain ⟨hcache', hcp15'⟩ :=
        commitList_cache ArmCpu.setR (fun _ _ _ => ⟨rfl, rfl⟩) vs c
      exact ⟨hcache.trans hcache', hcp15.trans hcp15'⟩
    refine .either ?_ ?_
    · refine Ensures.bind (ensures_commit fun c => ?_) fun n => Ensures.pure fun s hs =>
        ⟨hs.1, rfl, hs.2⟩
      obtain ⟨⟨hcache, hcp15⟩, hfetch⟩ := fetchable_commitReturn hnext vs
        (t.writeBase (commitList ArmCpu.setR vs c))
      exact ⟨⟨hcache.trans (hcommit c).1, hcp15.trans (hcommit c).2⟩, hfetch⟩
    · refine Ensures.bind (ensures_commit fun c => fetchable_commitLoad hnext t.userBank vs c)
        fun n => ?_
      intro s hs
      obtain ⟨⟨hcache, hcp15⟩, hcpsr⟩ := writeBase_cache t s.cpu
      exact ⟨⟨hs.1.now.modify hcache (congrArg Cp15.stamp hcp15), hs.1.log, hs.1.aligned⟩, rfl,
        fetchable_congr hcpsr hs.2⟩

theorem lands_blockStore (t : BlockTransfer) (pc addr : Word) :
    Lands B false (blockStore B t pc addr next) := by
  refine Ends.access (touches_storeList _ _ _) fun done => Finishes.ends ?_
  refine .either ?_ <| finishes_next hnext
  exact .bind (going_guarded (going_setR _ _)) fun _ => finishes_next hnext

theorem lands_execBlockTransfer (pc insn : Word) :
    Lands B false (execBlockTransfer B pc insn next) := by
  rw [execBlockTransfer]
  refine .either (.refuse (by simp)) ?_
  refine .either (.refuse (by simp)) ?_
  refine .read fun c => ?_
  refine .either (.refuse (by simp)) ?_
  refine .either (.refuse (by simp)) ?_
  refine .either (.refuse (by simp)) ?_
  refine .either (.refuse (by simp)) ?_
  refine .access (touches_prepareMultiwordAddress _ 4 _) fun addr => ?_
  cases addr with
  | none => exact (finishes_next hnext).ends
  | some addr =>
    exact .ite (fun _ => lands_blockLoad hnext _ addr) fun _ => lands_blockStore hnext _ pc addr

end Transfers

/-! ### Exclusive and swap transfers -/

section Exclusive

theorem retires_status (st : ArmStatus) : Retires B false (pure st : Exec σ ArmStatus) := by
  by_cases h : st = .ok
  · rw [h]
    exact finishes_ok.ends
  · exact .refuse h

theorem touches_prepareSyncAddress (va alignment : Word) (write : Bool) :
    Touches B (onCpu (prepareSyncAddress va alignment write) : Exec σ (Option ArmStatus)) :=
  ⟨quiet_onCpu (kept_prepareSyncAddress va alignment write),
    keeps_prepareSyncAddress va alignment write⟩

/-- The alignment check of an exclusive transfer in front of the transfer. -/
theorem retires_syncAddress (addr alignment : Word) (write : Bool) {k : Exec σ ArmStatus}
    (hk : Retires B false k) :
    Retires B false (onCpu (prepareSyncAddress addr alignment write) >>= fun st =>
      match st with
      | some st => pure st
      | none => k) := by
  refine .access (touches_prepareSyncAddress addr alignment write) fun st => ?_
  cases st with
  | some st => exact retires_status st
  | none => exact hk

theorem finishes_modify {f : ArmCpu → ArmCpu} (hcache : ∀ c, (f c).cache = c.cache)
    (hstamp : ∀ c, (f c).cp15.stamp = c.cp15.stamp) :
    Retires B false (do modifyCpu f; return .ok : Exec σ ArmStatus) :=
  Finishes.ends (.bind (going_modifyCpu hcache hstamp nofun) fun _ => finishes_ok)

theorem retires_loadExclusive (w : MemWidth) (insn : Word) :
    Retires B false (loadExclusive B w insn) := by
  refine .either (.refuse nofun) <| .read fun c => ?_
  refine retires_syncAddress _ _ false ?_
  refine .access (touches_memR _ _) fun v => .checked finishes_ok ?_
  exact finishes_modify (fun _ => rfl) fun _ => rfl

theorem retires_storeIfExclusive (addr : Word) (rd : RegNo) {store : Exec σ Unit}
    (hstore : Touches B store) : Retires B false (storeIfExclusive addr rd store) := by
  refine .read fun c => .either ?_ ?_
  · refine Ends.access hstore fun _ => Ends.access touches_abortLatched fun _ => Finishes.ends ?_
    refine .bind (going_guarded (going_setR _ _)) fun _ => ?_
    exact .bind (going_modifyCpu (fun _ => rfl) (fun _ => rfl) nofun) fun _ => finishes_ok
  · exact finishes_modify (fun _ => rfl) fun _ => rfl

theorem retires_execStrex (insn : Word) : Retires B false (execStrex B insn) := by
  refine .either (.refuse nofun) <| .read fun c => ?_
  refine retires_syncAddress _ 4 true ?_
  refine .access ⟨(cacheOnly_armMmuTranslate B _ _ _ _).quiet,
    keeps_armMmuTranslate _ _ _ _⟩ fun r => .either ?_ ?_
  · exact finishes_modify (fun c => (noteAbort_cache c _ _).1) fun c => (noteAbort_cache c _ _).2
  · exact retires_storeIfExclusive _ _ (touches_memW32 _ _)

theorem retires_storeExclusive (w : MemWidth) (insn : Word) :
    Retires B false (storeExclusive B w insn) := by
  refine .either (.refuse nofun) <| .read fun c => ?_
  exact retires_syncAddress _ _ true (retires_storeIfExclusive _ _ (touches_memW _ _ _))

theorem retires_execLdrexd (insn : Word) : Retires B false (execLdrexd B insn) := by
  refine .either (.refuse nofun) <| .read fun c => ?_
  refine retires_syncAddress _ 8 false ?_
  refine .access (touches_memR32 _) fun lo => .checked finishes_ok ?_
  refine .access (touches_memR32 _) fun hi => .checked finishes_ok ?_
  exact finishes_modify (fun _ => rfl) fun _ => rfl

theorem retires_execStrexd (insn : Word) : Retires B false (execStrexd B insn) := by
  refine .either (.refuse nofun) <| .read fun c => ?_
  refine retires_syncAddress _ 8 true (retires_storeIfExclusive _ _ ?_)
  refine .bind (touches_memW32 _ _) fun _ => .bind touches_abortLatched fun _ => ?_
  exact .either (touches_memW32 _ _) <| .pure ()

theorem retires_execSwp (insn : Word) : Retires B false (execSwp B insn) := by
  refine .either (.refuse nofun) <| .read fun c => ?_
  refine .either ?_ ?_
  · exact .access (touches_noteAlignmentAbort _ true) fun _ => finishes_ok.ends
  refine .access (touches_memR _ _) fun old => .checked finishes_ok ?_
  refine .access (touches_memW _ _ _) fun _ => .checked finishes_ok ?_
  exact finishes_modify (fun _ => rfl) fun _ => rfl

theorem retires_armSynchronisation (insn : Word) : Retires B false (armSynchronisation B insn) := by
  refine .either (retires_loadExclusive _ _) ?_
  refine .either (retires_execStrex _) ?_
  refine .either (retires_execLdrexd _) ?_
  refine .either (retires_execStrexd _) ?_
  refine .either (retires_loadExclusive _ _) ?_
  refine .either (retires_storeExclusive _ _) ?_
  refine .either (retires_loadExclusive _ _) ?_
  refine .either (retires_storeExclusive _ _) ?_
  exact .either (retires_execSwp _) <| .refuse nofun

end Exclusive

/-! ### The return state -/

section ReturnState

variable (B) in
/-- Between two instructions: the trace is coherent, and the program counter may be fetched
from. -/
def Stepping (s : Sys σ) : Prop := Traced B s ∧ Fetchable s.cpu (s.cpu.r 15)

theorem Stepping.of_kept {s s' : Sys σ} (h : Stepping B s) (htraced : Traced B s')
    (hkept : s'.cpu.kept true = s.cpu.kept true) : Stepping B s' := by
  have hcpsr := congrArg ArmCpu.cpsr hkept
  have hr : s'.cpu.r = s.cpu.r := by
    have h := congrArg ArmCpu.r hkept
    exact h
  refine ⟨htraced, fetchable_congr hcpsr ?_⟩
  rw [hr]
  exact h.2

theorem Touches.stepping {m : Exec σ α} (h : Touches B m) : Keeps (Stepping B) m :=
  fun s hs => hs.of_kept (h.2 s hs.1) (h.1 s).1

theorem takeException_cache (c : ArmCpu) (vector mode ret : Word) (maskFiq : Bool) :
    (takeException c vector mode ret maskFiq).1.cache = c.cache ∧
      (takeException c vector mode ret maskFiq).1.cp15 = c.cp15 := by
  obtain ⟨hcache, hcp15⟩ := armSetMode_cache c mode
  rw [takeException_eq, ← hcache, ← hcp15]
  simp only [maskException]
  split_ifs <;> exact ⟨rfl, rfl⟩

theorem aligned_iff (v : Word) : v &&& 3 = 0 ↔ v.toNat % 4 = 0 := by
  have hmask : (v &&& 3).toNat = v.toNat % 4 := toNat_and_lowMask v (by decide : 2 ≤ 32)
  rw [← hmask, ← BitVec.toNat_inj]
  rfl

theorem aligned_add {v w : Word} (hv : v &&& 3 = 0) (hw : w &&& 3 = 0) : (v + w) &&& 3 = 0 := by
  rw [aligned_iff] at hv hw ⊢
  rw [BitVec.toNat_add]
  omega

theorem takeException_aligned (c : ArmCpu) {vector : Word} (h : vector &&& 3 = 0)
    (mode ret : Word) (maskFiq : Bool) :
    (takeException c vector mode ret maskFiq).2 &&& 3 = 0 := by
  have hbase : ∀ high : Bool, (if high then 0xffff0000 else 0 : Word) &&& 3 = 0 := by decide
  exact aligned_add (hbase _) h

/-- Exception entry goes on at a word. -/
theorem stepping_enterException {s : Sys σ} (h : Traced B s) {c : ArmCpu}
    (hcache : c.cache = s.cpu.cache) (hstamp : c.cp15.stamp = s.cpu.cp15.stamp) {vector : Word}
    (hvector : vector &&& 3 = 0) (mode ret : Word) (maskFiq : Bool) :
    Stepping B { s with cpu := enterException c vector mode ret maskFiq } := by
  obtain ⟨hcache', hcp15'⟩ := takeException_cache c vector mode ret maskFiq
  refine ⟨⟨h.now.modify (hcache'.trans hcache) ?_, h.log, h.aligned⟩, .inl ?_⟩
  · exact (congrArg Cp15.stamp hcp15').trans hstamp
  · exact takeException_aligned c hvector mode ret maskFiq

theorem Stepping.recount {s : Sys σ} (h : Stepping B s) (n : Nat) :
    Stepping B { s with aborts := n } :=
  ⟨⟨h.1.now.congr rfl rfl rfl, h.1.log, h.1.aligned⟩, h.2⟩

/-- A data abort goes on at its vector. -/
theorem stepping_takeDataAbort {s : Sys σ} (h : Traced B s) (pc : Word) :
    Stepping B (takeDataAbort pc s).2 := by
  have henter := stepping_enterException h (c := { s.cpu with
    abortPending := false
    cp15 := { s.cpu.cp15 with dfsr := s.cpu.abortFsr, dfar := s.cpu.abortFar } }) rfl rfl
    (by decide : armVecDataAbort &&& 3 = 0) armModeAbt (pc + 8) false
  exact henter.recount (s.aborts + 1)

theorem keeps_takeLatchedAbort (pc : Word) {k : Exec σ ArmStatus} (hk : Keeps (Stepping B) k) :
    Keeps (Stepping B) (takeLatchedAbort pc k) := by
  refine .bind touches_abortLatched.stepping fun _ => .either ?_ hk
  exact fun s hs => stepping_takeDataAbort hs.1 pc

theorem keeps_goTo {f : ArmCpu → ArmCpu} (hcache : ∀ c, (f c).cache = c.cache)
    (hcp15 : ∀ c, (f c).cp15 = c.cp15) (hpc : ∀ c, Fetchable (f c) ((f c).r 15)) (st : ArmStatus) :
    Keeps (Stepping B) (do modifyCpu f; return st : Exec σ ArmStatus) := fun s hs =>
  ⟨⟨hs.1.now.modify (hcache s.cpu) (congrArg Cp15.stamp (hcp15 s.cpu)), hs.1.log, hs.1.aligned⟩,
    hpc s.cpu⟩

theorem writeStackOf_cache (tb : ArmBank) (v : Word) (c : ArmCpu) :
    (writeStackOf tb v c).cache = c.cache ∧ (writeStackOf tb v c).cp15 = c.cp15 := by
  rw [writeStackOf]
  split <;> exact ⟨rfl, rfl⟩

theorem keeps_execSrs (pc insn : Word) {next : Word} (hnext : next &&& 3 = 0) :
    Keeps (Stepping B) (execSrs B pc insn next) := by
  refine .bind touches_getCpu.stepping fun c => ?_
  refine .either (.pure _) <| .either (.pure _) ?_
  refine .bind (touches_prepareMultiwordAddress _ 4 true).stepping fun base => ?_
  cases base with
  | none => exact fun s hs => stepping_takeDataAbort hs.1 pc
  | some base =>
    refine .bind (touches_memW32 _ _).stepping fun _ => keeps_takeLatchedAbort pc ?_
    refine .bind (touches_memW32 _ _).stepping fun _ => keeps_takeLatchedAbort pc ?_
    intro s hs
    rw [run_bind, run_guarded]
    split
    · obtain ⟨hcache, hcp15⟩ := writeStackOf_cache (armBankOfMode (insn &&& armCpsrModeMask))
        (returnStateBase insn _).2 s.cpu
      exact ⟨⟨hs.1.now.modify hcache (congrArg Cp15.stamp hcp15), hs.1.log, hs.1.aligned⟩,
        .inl hnext⟩
    · exact ⟨⟨hs.1.now.modify rfl rfl, hs.1.log, hs.1.aligned⟩, .inl hnext⟩

theorem fetchable_commitRfe (insn wb newPc newCpsr : Word) (c : ArmCpu) :
    ((commitRfe insn wb newPc newCpsr c).cache = c.cache ∧
      (commitRfe insn wb newPc newCpsr c).cp15 = c.cp15) ∧
      Fetchable (commitRfe insn wb newPc newCpsr c) ((commitRfe insn wb newPc newCpsr c).r 15) := by
  have hbase : ∀ d : ArmCpu, d.cache = c.cache ∧ d.cp15 = c.cp15 →
      (restoreCpsr d newCpsr).cache = c.cache ∧ (restoreCpsr d newCpsr).cp15 = c.cp15 := by
    intro d hd
    obtain ⟨hcache, hcp15⟩ := restoreCpsr_cache d newCpsr
    exact ⟨hcache.trans hd.1, hcp15.trans hd.2⟩
  refine ⟨hbase _ ?_, fetchable_pcMask _ newPc⟩
  split <;> exact ⟨rfl, rfl⟩

theorem keeps_execRfe (pc insn : Word) : Keeps (Stepping B) (execRfe B pc insn) := by
  refine .bind touches_getCpu.stepping fun c => ?_
  refine .either (.pure _) <| .either (.pure _) ?_
  refine .bind (touches_prepareMultiwordAddress _ 4 false).stepping fun base => ?_
  cases base with
  | none => exact fun s hs => stepping_takeDataAbort hs.1 pc
  | some base =>
    refine .bind (touches_memR32 _).stepping fun newPc => keeps_takeLatchedAbort pc ?_
    refine .bind (touches_memR32 _).stepping fun newCpsr => keeps_takeLatchedAbort pc ?_
    refine .either (.pure _) <| .either (.pure _) ?_
    have hcommit := fetchable_commitRfe insn (returnStateBase insn (c.r (field insn 16))).2 newPc
      newCpsr
    exact keeps_goTo (fun c => (hcommit c).1.1) (fun c => (hcommit c).1.2)
      (fun c => (hcommit c).2) .ok

end ReturnState

end Exec

end S5LBox
