import S5LBox.Lib.LastEvent
import S5LBox.Arm.Monitor
import S5LBox.Arm.Refusals

/-!
# The exclusive monitor along a run

A store-exclusive stores only when the monitor holds its address. The address in the monitor comes
from the last exclusive-class event of the run: load-exclusives, store-exclusives, CLREX and entries
to exceptions are events. So a store-exclusive that stores is matched with a load-exclusive, and no
other context has had the core in between.

The monitor compares the address in the base register, of any size.

## Main definitions

* `EntersException`, `LoadsExclusive`, `StoresExclusive`, `ClearsExclusive`: the events of a step.
* `HostTags`: a supervisor call in which the platform writes the monitor.
* `MachineRun`: a run, in which anything may happen between two steps but to the monitor.
* `Separated`: contexts that take turns by exceptions.

## Main results

* `monitor_step`: where the address in the monitor comes from, for one step.
* `exclusive_store_matched`: for a run.
-/

namespace S5LBox

open StateProgram Events

namespace Exec

variable {σ : Type} {B : ArmBus σ} {fpu : HostFpu} {s : Sys σ} {insn : Word}

/-! ### The decoder -/

/-- The load-exclusive of a size. -/
def execLoadExclusive (B : ArmBus σ) (z : ExclusiveSize) (insn : Word) : Exec σ ArmStatus :=
  match z with
  | .byte => execLdrexb B insn
  | .half => execLdrexh B insn
  | .word => execLdrex B insn
  | .dual => execLdrexd B insn

/-- The store-exclusive of a size. -/
def execStoreExclusive (B : ArmBus σ) (z : ExclusiveSize) (insn : Word) : Exec σ ArmStatus :=
  match z with
  | .byte => execStrexb B insn
  | .half => execStrexh B insn
  | .word => execStrex B insn
  | .dual => execStrexd B insn

variable {z : ExclusiveSize}

theorem armSynchronisation_load (h : insn &&& exclusiveMask = z.loadCode) :
    armSynchronisation B insn = execLoadExclusive B z insn := by
  rw [exclusiveMask] at h
  rw [armSynchronisation, h]
  cases z <;> rfl

theorem armSynchronisation_store (h : insn &&& exclusiveMask = z.storeCode) :
    armSynchronisation B insn = execStoreExclusive B z insn := by
  rw [exclusiveMask] at h
  rw [armSynchronisation, h]
  cases z <;> rfl

/-- The encodings of the exclusive transfers. -/
def exclusiveCodes : List Word :=
  [.byte, .half, .word, .dual].map ExclusiveSize.loadCode ++
    [.byte, .half, .word, .dual].map ExclusiveSize.storeCode

theorem loadCode_mem (z : ExclusiveSize) : z.loadCode ∈ exclusiveCodes := by
  cases z <;> decide

theorem storeCode_mem (z : ExclusiveSize) : z.storeCode ∈ exclusiveCodes := by
  cases z <;> decide

/-- An exclusive transfer comes to the synchronisation space of the decoder. -/
theorem armConditional_exclusive {code : Word} (hcode : code ∈ exclusiveCodes)
    (h : insn &&& exclusiveMask = code) (pc next : Word) :
    armConditional B fpu pc insn next = sequential next (armSynchronisation B insn) := by
  have hbits (m : Word) (hm : exclusiveMask &&& m = m) : insn &&& m = code &&& m := by
    rw [← h, BitVec.and_assoc, hm]
  have hno (m v : Word) (hm : exclusiveMask &&& m = m)
      (hv : exclusiveCodes.all (· &&& m != v) = true) : insn &&& m ≠ v :=
    hbits m hm ▸ bne_iff_ne.mp (List.all_eq_true.mp hv code hcode)
  have hyes (m v : Word) (hm : exclusiveMask &&& m = m)
      (hv : exclusiveCodes.all (· &&& m == v) = true) : insn &&& m = v :=
    hbits m hm ▸ beq_iff_eq.mp (List.all_eq_true.mp hv code hcode)
  have hspace : insn &&& 0x0e000000 = 0 := hyes _ _ rfl rfl
  have hmark : insn &&& 0x90 = 0x90 := hyes _ _ rfl rfl
  have hdp : isHoistedDataProcessing insn = false := by
    rw [isHoistedDataProcessing, hspace, hmark]
    exact Bool.and_false _
  rw [armConditional, hdp, if_neg Bool.false_ne_true]
  rw [if_neg (not_or.mpr ⟨hno _ _ rfl rfl, hno _ _ rfl rfl⟩),
    if_neg (hno _ _ rfl rfl), if_neg (hno _ _ rfl rfl),
    if_neg (hno _ _ rfl rfl),
    if_neg (not_and.mpr fun hm => absurd hm (hno _ _ rfl rfl)),
    if_neg (hno _ _ rfl rfl), if_neg (hno _ _ rfl rfl),
    if_neg (fun hm => hm.2.2 (hyes _ _ rfl rfl)), if_pos ⟨hspace, hmark⟩]

/-! ### The events of a step -/

/-- The vectors of the exceptions. -/
def exceptionVectors : List Word :=
  [armVecUndefined, armVecSwi, armVecPrefetch, armVecDataAbort, armVecIrq, armVecFiq]

/-- The core is one that has just entered an exception. -/
def Entered (c' : ArmCpu) : Prop :=
  ∃ c, ∃ vector ∈ exceptionVectors, ∃ mode ret maskFiq,
    c' = enterException c vector mode ret maskFiq

/-- The step ends with the entry to an exception. -/
def EntersException (B : ArmBus σ) (fpu : HostFpu) (s : Sys σ) : Prop :=
  Entered (armStep B fpu s).2.cpu

/-- The step executes an exclusive transfer of an encoding. -/
structure AtExclusive (B : ArmBus σ) (s : Sys σ) (insn code : Word) : Prop
    extends AtInsn B s insn where
  arm : s.cpu.getFlag armCpsrT = false
  executed : Executed s.cpu insn
  encoding : insn &&& exclusiveMask = code

/-- The step loads exclusively from an address, to its end. -/
def LoadsExclusive (B : ArmBus σ) (fpu : HostFpu) (s : Sys σ) (a : Word) : Prop :=
  ∃ insn, ∃ z : ExclusiveSize, AtExclusive B s insn z.loadCode ∧ s.cpu.r (field insn 16) = a ∧
    (armStep B fpu s).1 = .ok ∧ ¬EntersException B fpu s

/-- The step executes a store-exclusive, which is not refused as undefined. -/
def StoresExclusive (B : ArmBus σ) (fpu : HostFpu) (s : Sys σ) : Prop :=
  ∃ insn, ∃ z : ExclusiveSize, AtExclusive B s insn z.storeCode ∧ (armStep B fpu s).1 ≠ .undefined

/-- The step executes a CLREX. -/
def ClearsExclusive (B : ArmBus σ) (s : Sys σ) : Prop :=
  AtInsn B s 0xf57ff01f ∧ s.cpu.getFlag armCpsrT = false

/-- The step is an event of the exclusive class. -/
def ExclusiveEvent (B : ArmBus σ) (fpu : HostFpu) (s : Sys σ) : Prop :=
  (∃ a, LoadsExclusive B fpu s a) ∨ StoresExclusive B fpu s ∨ ClearsExclusive B s ∨
    EntersException B fpu s

/-- The step is a supervisor call that the platform consumes, with an address in the monitor. -/
def HostTags (B : ArmBus σ) (s : Sys σ) (a : Word) : Prop :=
  ∃ h insn, B.privilegedSvcHandler = some h ∧ AtSvc B s insn ∧ cpuIsPriv s.cpu ∧
    ((svcAnswer h (counted B s) (s.cpu.r 15) insn).1 = .handled ∨
      (svcAnswer h (counted B s) (s.cpu.r 15) insn).1 = .redirected) ∧
    (svcAnswer h (counted B s) (s.cpu.r 15) insn).2.1.abortPending = false ∧
    (svcAnswer h (counted B s) (s.cpu.r 15) insn).2.1.monitor = some a

theorem Entered.monitor {c : ArmCpu} (h : Entered c) : c.monitor = none := by
  obtain ⟨c, vector, -, mode, ret, maskFiq, rfl⟩ := h
  rfl

theorem entered_takePendingDataAbort (c : ArmCpu) (pc : Word) : Entered (takePendingDataAbort c pc) :=
  ⟨_, armVecDataAbort, by decide, _, _, _, rfl⟩

theorem entered_takeUndefinedInstruction (c : ArmCpu) (pc : Word) :
    Entered (takeUndefinedInstruction c pc) := ⟨_, armVecUndefined, by decide, _, _, _, rfl⟩

theorem entered_guestSvc (c : ArmCpu) (pc ret : Word) : Entered (guestSvc c pc ret) := by
  rw [guestSvc]
  split
  · exact entered_takePendingDataAbort _ pc
  · exact ⟨c, armVecSwi, by decide, armModeSvc, ret, false, rfl⟩

/-! ### What the exclusive transfers come to -/

section Outcomes

variable (v : Sys σ)

theorem abortPending_noteAbort (c : ArmCpu) (fsr va : Word) : (noteAbort c fsr va).abortPending := by
  rw [noteAbort]
  split
  case isTrue h => exact h
  case isFalse => rfl

/-- The alignment check refuses, latches a fault, or lets the transfer go on. -/
theorem syncAddress_run (addr alignment : Word) (write : Bool) (k : Exec σ ArmStatus) :
    let m : Exec σ ArmStatus := onCpu (prepareSyncAddress addr alignment write) >>= fun st =>
      match st with
      | some st => pure st
      | none => k
    m v = (.undefined, v) ∨ m v = (.ok, { v with cpu := noteAlignmentAbort v.cpu addr write }) ∨
      m v = k v := by
  have hcheck : prepareSyncAddress addr alignment write v.cpu = (none, v.cpu) ∨
      prepareSyncAddress addr alignment write v.cpu =
        (some .ok, noteAlignmentAbort v.cpu addr write) ∨
      prepareSyncAddress addr alignment write v.cpu = (some .undefined, v.cpu) := by
    rw [prepareSyncAddress]
    split_ifs
    · exact .inl rfl
    · exact .inr (.inl rfl)
    · exact .inr (.inr rfl)
  intro m
  obtain h | h | h := hcheck
  · refine .inr (.inr ?_)
    simp only [m, run_bind, onCpu, h]
  · refine .inr (.inl ?_)
    simp only [m, run_bind, onCpu, h, run_pure]
  · refine .inl ?_
    simp only [m, run_bind, onCpu, h, run_pure]

/-- A transfer is refused with the core as it was, or it has latched a fault, or it has come to a
core with a property. -/
def ComesTo (P : ArmCpu → Prop) (c : ArmCpu) (r : ArmStatus × Sys σ) : Prop :=
  r.1 = .undefined ∧ r.2.cpu = c ∨ r.1 = .ok ∧ (r.2.cpu.abortPending ∨ P r.2.cpu)

theorem ComesTo.syncAddress {P : ArmCpu → Prop} (addr alignment : Word) (write : Bool)
    {k : Exec σ ArmStatus} (hk : ComesTo P v.cpu (k v)) :
    ComesTo P v.cpu ((onCpu (prepareSyncAddress addr alignment write) >>= fun st =>
      match st with
      | some st => pure st
      | none => k : Exec σ ArmStatus) v) := by
  obtain hrun | hrun | hrun := syncAddress_run v addr alignment write k
  · exact hrun ▸ .inl ⟨rfl, rfl⟩
  · exact hrun ▸ .inr ⟨rfl, .inl (abortPending_noteAbort _ _ _)⟩
  · exact hrun ▸ hk

theorem loadExclusive_comesTo (w : MemWidth) :
    ComesTo (fun c => c.monitor = some (v.cpu.r (field insn 16))) v.cpu
      (loadExclusive B w insn v) := by
  rw [loadExclusive]
  dsimp only
  rw [run_ite]
  split
  · exact .inl ⟨rfl, rfl⟩
  refine ComesTo.syncAddress v _ _ false ?_
  rw [run_bind, run_bind, run_ite]
  split
  case isTrue hlatch => exact .inr ⟨rfl, .inl hlatch⟩
  case isFalse => exact .inr ⟨rfl, .inr rfl⟩

theorem execLdrexd_comesTo :
    ComesTo (fun c => c.monitor = some (v.cpu.r (field insn 16))) v.cpu (execLdrexd B insn v) := by
  rw [execLdrexd]
  dsimp only
  rw [run_ite]
  split
  · exact .inl ⟨rfl, rfl⟩
  refine ComesTo.syncAddress v _ _ false ?_
  rw [run_bind, run_bind, run_ite]
  split
  case isTrue hlatch => exact .inr ⟨rfl, .inl hlatch⟩
  rw [run_bind, run_bind, run_ite]
  split
  case isTrue hlatch => exact .inr ⟨rfl, .inl hlatch⟩
  case isFalse => exact .inr ⟨rfl, .inr rfl⟩

/-- A load-exclusive that is neither refused nor cut short has its address in the monitor. -/
theorem execLoadExclusive_comesTo (z : ExclusiveSize) :
    ComesTo (fun c => c.monitor = some (v.cpu.r (field insn 16))) v.cpu
      (execLoadExclusive B z insn v) := by
  cases z with
  | byte => exact loadExclusive_comesTo v .w8
  | half => exact loadExclusive_comesTo v .w16
  | word => exact loadExclusive_comesTo v .w32
  | dual => exact execLdrexd_comesTo v

theorem storeIfExclusive_comesTo (c : ArmCpu) (addr : Word) (rd : RegNo) (store : Exec σ Unit) :
    ComesTo (fun c => c.monitor = none) c (storeIfExclusive addr rd store v) := by
  rw [storeIfExclusive, run_getCpu, run_ite]
  split <;> exact .inr ⟨rfl, .inr rfl⟩

/-- A store-exclusive that is neither refused nor cut short has used up the monitor. -/
theorem execStoreExclusive_comesTo (z : ExclusiveSize) :
    ComesTo (fun c => c.monitor = none) v.cpu (execStoreExclusive B z insn v) := by
  have hstore (w : MemWidth) :
      ComesTo (fun c => c.monitor = none) v.cpu (storeExclusive B w insn v) := by
    rw [storeExclusive]
    dsimp only
    rw [run_ite]
    split
    · exact .inl ⟨rfl, rfl⟩
    · exact ComesTo.syncAddress v _ _ true (storeIfExclusive_comesTo v _ _ _ _)
  cases z with
  | byte => exact hstore .w8
  | half => exact hstore .w16
  | word =>
    rw [execStoreExclusive, execStrex]
    dsimp only
    rw [run_ite]
    split
    · exact .inl ⟨rfl, rfl⟩
    refine ComesTo.syncAddress v _ _ true ?_
    rw [run_bind, run_ite]
    split
    · exact .inr ⟨rfl, .inr rfl⟩
    · exact storeIfExclusive_comesTo _ _ _ _ _
  | dual =>
    rw [execStoreExclusive, execStrexd]
    dsimp only
    rw [run_ite]
    split
    · exact .inl ⟨rfl, rfl⟩
    · exact ComesTo.syncAddress v _ _ true (storeIfExclusive_comesTo v _ _ _ _)

/-- A store-exclusive whose address is not in the monitor writes a one, and nothing to memory. -/
theorem storeIfExclusive_unmatched {addr : Word} (rd : RegNo) (store : Exec σ Unit)
    (hne : v.cpu.monitor ≠ some addr) :
    storeIfExclusive addr rd store v = (.ok, { v with cpu := clearExclusive (v.cpu.setR rd 1) }) := by
  have hno : ¬(v.cpu.exclValid ∧ v.cpu.exclAddr = addr) := by
    intro h
    apply hne
    rw [ArmCpu.monitor, if_pos h.1, h.2]
  rw [storeIfExclusive, run_getCpu, run_ite, if_neg hno]
  rfl

theorem execStoreExclusive_unmatched (z : ExclusiveSize)
    (hne : v.cpu.monitor ≠ some (v.cpu.r (field insn 16))) :
    ComesTo (fun c => field insn 12 ≠ 15 ∧ c.r (field insn 12) = 1) v.cpu
        (execStoreExclusive B z insn v) ∧
      BusReads B v.bus (execStoreExclusive B z insn v).2.bus := by
  let fails (r : ArmStatus × Sys σ) : Prop :=
    ComesTo (fun c => field insn 12 ≠ 15 ∧ c.r (field insn 12) = 1) v.cpu r ∧
      BusReads B v.bus r.2.bus
  have hsync {addr : Word} {m k : Exec σ ArmStatus}
      (hm : m v = (.undefined, v) ∨ m v = (.ok, { v with cpu := noteAlignmentAbort v.cpu addr true }) ∨
        m v = k v) (hk : fails (k v)) : fails (m v) := by
    obtain hrun | hrun | hrun := hm
    · exact hrun ▸ ⟨.inl ⟨rfl, rfl⟩, .refl⟩
    · exact hrun ▸ ⟨.inr ⟨rfl, .inl (abortPending_noteAbort _ _ _)⟩, .refl⟩
    · exact hrun ▸ hk
  have hone (c : ArmCpu) : (clearExclusive (c.setR (field insn 12) 1)).r (field insn 12) = 1 :=
    Function.update_self _ _ _
  have hfail (store : Exec σ Unit) (hrd : field insn 12 ≠ 15) :
      fails (storeIfExclusive (v.cpu.r (field insn 16)) (field insn 12) store v) := by
    rw [storeIfExclusive_unmatched v (field insn 12) store hne]
    exact ⟨.inr ⟨rfl, .inr ⟨hrd, hone v.cpu⟩⟩, .refl⟩
  have hstore (w : MemWidth) : fails (storeExclusive B w insn v) := by
    rw [storeExclusive]
    dsimp only
    rw [run_ite]
    split
    · exact ⟨.inl ⟨rfl, rfl⟩, .refl⟩
    case isFalse hregs =>
      exact hsync (syncAddress_run v _ _ true _) (hfail _ fun hrd => hregs (.inr (.inl hrd)))
  cases z with
  | byte => exact hstore .w8
  | half => exact hstore .w16
  | word =>
    rw [execStoreExclusive, execStrex]
    dsimp only
    rw [run_ite]
    split
    · exact ⟨.inl ⟨rfl, rfl⟩, .refl⟩
    rename_i hregs
    refine hsync (syncAddress_run v _ _ true _) ?_
    -- the address is translated for the store before the monitor is asked
    have hbus := (untouched_armMmuTranslate B (v.cpu.r (field insn 16)) .write (cpuIsPriv v.cpu) 0
      v).bus
    have hcpu := (cacheOnly_armMmuTranslate B (v.cpu.r (field insn 16)) .write (cpuIsPriv v.cpu) 0
      v).1
    rw [run_bind, run_ite]
    split
    · exact ⟨.inr ⟨rfl, .inl (abortPending_noteAbort _ _ _)⟩, hbus⟩
    · rw [storeIfExclusive_unmatched _ _ _ (monitor_of_uncached hcpu ▸ hne)]
      exact ⟨.inr ⟨rfl, .inr ⟨fun hrd => hregs (.inr (.inl hrd)), hone _⟩⟩, hbus⟩
  | dual =>
    rw [execStoreExclusive, execStrexd]
    dsimp only
    rw [run_ite]
    split
    · exact ⟨.inl ⟨rfl, rfl⟩, .refl⟩
    case isFalse hregs =>
      exact hsync (syncAddress_run v _ _ true _) (hfail _ fun hrd => hregs (.inr (.inl hrd)))

/-! ### The end of an exclusive transfer -/

/-- The step of a transfer is refused, enters an exception, or retires what it has come to. -/
theorem armRetire_comesTo {P : ArmCpu → Prop} {c : ArmCpu} {r : ArmStatus × Sys σ}
    (h : ComesTo P c r) (pc next : Word) :
    let f := armRetire pc insn (r.1, next) r.2
    f.1 = .undefined ∧ f.2.cpu = c ∨ Entered f.2.cpu ∨
      f.1 = .ok ∧ ∃ d, P d ∧ f.2.cpu = d.setR 15 next := by
  obtain ⟨st, v⟩ := r
  dsimp only
  obtain ⟨rfl, rfl⟩ | ⟨rfl, hend⟩ := h
  · have hretire : armRetire pc insn (.undefined, next) v =
        takeLatchedAbort pc (onCpu (undefinedInstruction pc insn)) v := rfl
    rw [hretire, takeLatchedAbort, run_bind, run_ite]
    by_cases hlatch : (abortLatched v).1 = true
    · rw [if_pos hlatch]
      exact .inr (.inl (entered_takePendingDataAbort v.cpu pc))
    rw [if_neg hlatch]
    change (undefinedInstruction pc insn v.cpu).1 = _ ∧ (undefinedInstruction pc insn v.cpu).2 = _ ∨
      Entered (undefinedInstruction pc insn v.cpu).2 ∨ _
    rw [undefinedInstruction]
    split
    · exact .inr (.inl (entered_takeUndefinedInstruction v.cpu pc))
    · exact .inl ⟨rfl, rfl⟩
  · rw [armRetire_of_ok (.inl rfl)]
    obtain ⟨hstatus, hcore⟩ := thumbRetire_cpu pc (.ok, next) v
    simp only [reduceCtorEq, if_false, if_true, ite_self] at hstatus hcore
    rw [hstatus, hcore]
    by_cases hlatch : v.cpu.abortPending
    · rw [if_pos hlatch]
      exact .inr (.inl (entered_takePendingDataAbort v.cpu pc))
    · rw [if_neg hlatch]
      exact .inr (.inr ⟨rfl, v.cpu, hend.resolve_left hlatch, rfl⟩)

/-- The end of an instruction does not reach the bus. -/
theorem armRetire_bus (pc insn : Word) (r : ArmStatus × Word) :
    (armRetire pc insn r v).2.bus = v.bus := by
  have hcpu {m : Exec σ ArmStatus} (h : ∀ w, (m w).2.bus = w.bus) :
      Rollback.Quiet Sys.bus (fun _ : Sys σ => ()) m := fun w => ⟨h w, rfl⟩
  have hquiet : Rollback.Quiet Sys.bus (fun _ : Sys σ => ()) (armRetire pc insn r) := by
    refine .either (.pure _) ?_
    refine .bind (fun _ => ⟨rfl, rfl⟩) fun _ => ?_
    refine .either (hcpu fun _ => rfl) ?_
    refine .either (hcpu fun _ => rfl) ?_
    refine .either (hcpu fun _ => rfl) ?_
    refine .bind (.ite (fun _ _ => ⟨rfl, rfl⟩) fun _ => ?_) fun _ => .pure _
    exact .pure _
  exact (hquiet v).1

end Outcomes

/-! ### One step -/

variable {a : Word}

section Step

theorem AtInsn.counted_r (h : AtInsn B s insn) : (counted B s).cpu.r = s.cpu.r := by
  have hr := congrArg ArmCpu.r h.uncached
  exact hr

theorem AtInsn.counted_monitor (h : AtInsn B s insn) :
    (counted B s).cpu.monitor = s.cpu.monitor := by
  have hmonitor := congrArg ArmCpu.monitor h.uncached
  exact hmonitor

theorem AtInsn.counted_bus (h : AtInsn B s insn) : BusReads B s.bus (counted B s).bus := by
  have hsome : (fetchInsn B (s.cpu.r 15) s).1 ≠ none := by
    rw [h.fetched]
    exact nofun
  exact (refuses_fetchInsn B (s.cpu.r 15) s hsome).bus

theorem AtExclusive.armStep_eq {code : Word} (h : AtExclusive B s insn code)
    (hcode : code ∈ exclusiveCodes) (fpu : HostFpu) :
    armStep B fpu s =
      armRetire (s.cpu.r 15) insn
        ((armSynchronisation B insn (counted B s)).1, s.cpu.r 15 + 4)
        (armSynchronisation B insn (counted B s)).2 := by
  rw [armStep_conditional fpu h.toAtInsn h.arm h.executed,
    armConditional_exclusive hcode h.encoding]
  rfl

/-- A load-exclusive is refused, enters an exception, or has its address in the monitor. -/
theorem AtExclusive.load_cases (h : AtExclusive B s insn z.loadCode) (fpu : HostFpu) :
    (armStep B fpu s).1 = .undefined ∧ (armStep B fpu s).2.cpu.monitor = s.cpu.monitor ∨
      EntersException B fpu s ∨
      (armStep B fpu s).1 = .ok ∧
        (armStep B fpu s).2.cpu.monitor = some (s.cpu.r (field insn 16)) := by
  have hload : ComesTo _ (counted B s).cpu (execLoadExclusive B z insn (counted B s)) :=
    execLoadExclusive_comesTo (counted B s) z
  rw [← armSynchronisation_load h.encoding, h.toAtInsn.counted_r] at hload
  rw [EntersException, h.armStep_eq (loadCode_mem z) fpu]
  obtain ⟨hstatus, hcpu⟩ | hentered | ⟨hstatus, d, hd, hcpu⟩ :=
    armRetire_comesTo hload (s.cpu.r 15) (s.cpu.r 15 + 4)
  · exact .inl ⟨hstatus, hcpu ▸ h.toAtInsn.counted_monitor⟩
  · exact .inr (.inl hentered)
  · exact .inr (.inr ⟨hstatus, hcpu ▸ hd⟩)

/-- A store-exclusive that is not refused leaves the monitor clear. -/
theorem AtExclusive.store_monitor (h : AtExclusive B s insn z.storeCode)
    (hstatus : (armStep B fpu s).1 ≠ .undefined) : (armStep B fpu s).2.cpu.monitor = none := by
  have hstore : ComesTo _ (counted B s).cpu (execStoreExclusive B z insn (counted B s)) :=
    execStoreExclusive_comesTo (counted B s) z
  rw [← armSynchronisation_store h.encoding] at hstore
  rw [h.armStep_eq (storeCode_mem z) fpu] at hstatus ⊢
  obtain ⟨hno, -⟩ | hentered | ⟨-, d, hd, hcpu⟩ :=
    armRetire_comesTo hstore (s.cpu.r 15) (s.cpu.r 15 + 4)
  · exact absurd hno hstatus
  · exact hentered.monitor
  · exact hcpu ▸ hd

/-- A store-exclusive whose address is not in the monitor stores nothing, and unless it is refused
or enters an exception its status is a one. -/
theorem AtExclusive.store_unmatched (h : AtExclusive B s insn z.storeCode) (fpu : HostFpu)
    (hne : s.cpu.monitor ≠ some (s.cpu.r (field insn 16))) :
    BusReads B s.bus (armStep B fpu s).2.bus ∧
      ((armStep B fpu s).1 = .undefined ∨ EntersException B fpu s ∨
        (armStep B fpu s).1 = .ok ∧ (armStep B fpu s).2.cpu.r (field insn 12) = 1) := by
  have hne' : (counted B s).cpu.monitor ≠ some ((counted B s).cpu.r (field insn 16)) := by
    rw [h.toAtInsn.counted_monitor, h.toAtInsn.counted_r]
    exact hne
  obtain ⟨hstore, hbus⟩ := execStoreExclusive_unmatched (B := B) (counted B s) z hne'
  rw [← armSynchronisation_store h.encoding] at hstore hbus
  rw [EntersException, h.armStep_eq (storeCode_mem z) fpu, armRetire_bus]
  refine ⟨h.toAtInsn.counted_bus.trans hbus, ?_⟩
  obtain ⟨hstatus, -⟩ | hentered | ⟨hstatus, d, ⟨hrd, hone⟩, hcpu⟩ :=
    armRetire_comesTo hstore (s.cpu.r 15) (s.cpu.r 15 + 4)
  · exact .inl hstatus
  · exact .inr (.inl hentered)
  · refine .inr (.inr ⟨hstatus, ?_⟩)
    rw [hcpu]
    exact (Function.update_of_ne hrd _ _).trans hone

theorem LoadsExclusive.monitor (h : LoadsExclusive B fpu s a) :
    (armStep B fpu s).2.cpu.monitor = some a := by
  obtain ⟨insn, z, hat, rfl, hstatus, hno⟩ := h
  obtain ⟨hundefined, -⟩ | hentered | ⟨-, hmonitor⟩ := hat.load_cases fpu
  · rw [hstatus] at hundefined
    cases hundefined
  · exact absurd hentered hno
  · exact hmonitor

theorem ClearsExclusive.monitor (h : ClearsExclusive B s) : (armStep B fpu s).2.cpu.monitor = none := by
  obtain ⟨hat, harm⟩ := h
  rw [armStep_insn fpu hat, harm]
  rfl

theorem untags_fetchInsn (pc : Word) : Moves Untags (fetchInsn B pc) := by
  rw [fetchInsn, resolveFetch]
  refine .bind ?_ fun src => ?_
  · refine .bind untags_getCpu fun c => ?_
    refine .bind (fun s => Untags.of_eq rfl) fun _ => .either (.pure _) ?_
    refine .bind (untags_accesses (accesses_armMmuTranslate B pc .fetch _ 0)) fun r => ?_
    refine .ite (fun _ => ?_) fun _ s => ?_
    · exact .bind (untags_dropping fun c => rfl) fun _ => .pure _
    · split <;> exact Untags.of_eq rfl
  · cases src with
    | none => exact .pure _
    | some src =>
      refine .bind untags_getCpu fun c => .bind (fun s => ?_) fun insn => .pure _
      cases src <;> exact Untags.of_eq rfl

/-- A step that does not come to an instruction. -/
theorem untags_noInsn (fpu : HostFpu) (h : ∀ insn, ¬AtInsn B s insn) :
    Untags s (armStep B fpu s).2 := by
  rw [armStep, run_getCpu, run_ite]
  split
  · exact fun _ ha => ha
  rw [run_ite]
  split
  · exact Untags.of_none rfl
  rw [run_ite]
  split
  · exact Untags.of_none rfl
  case isFalse hvalid hfiq hirq =>
    rw [fetchAndExecute, run_bind]
    cases hfetched : (fetchInsn B (s.cpu.r 15) s).1 with
    | none => exact untags_fetchInsn (s.cpu.r 15) s
    | some insn => exact absurd ⟨not_not.mp hvalid, hfiq, hirq, hfetched⟩ (h insn)

/-- A supervisor call keeps or drops the address, or the platform writes one. -/
theorem AtSvc.monitor_cases (h : AtSvc B s insn) (fpu : HostFpu)
    (ha : (armStep B fpu s).2.cpu.monitor = some a) : HostTags B s a ∨ s.cpu.monitor = some a := by
  have hguest (c : ArmCpu) (pc ret : Word) (hcpu : (armStep B fpu s).2.cpu = guestSvc c pc ret) :
      False := by
    rw [hcpu, (entered_guestSvc c pc ret).monitor] at ha
    cases ha
  have hunhooked := (armStep_unhooked fpu h).2
  by_cases hpriv : cpuIsPriv s.cpu
  case neg => exact (hguest _ _ _ ((armStep_svc_user fpu h hpriv).2.trans hunhooked)).elim
  cases hB : B.privilegedSvcHandler with
  | none =>
    have hsame : Exec.unhooked B = B := by
      obtain ⟨⟩ := B
      cases hB
      rfl
    rw [hsame] at hunhooked
    exact (hguest _ _ _ hunhooked).elim
  | some f =>
    have hout := svcOutcome hB fpu h hpriv
    have hkept (hans : (svcAnswer f (counted B s) (s.cpu.r 15) insn).1 = .handled ∨
        (svcAnswer f (counted B s) (s.cpu.r 15) insn).1 = .redirected) :
        (svcAnswer f (counted B s) (s.cpu.r 15) insn).2.1.abortPending = false := by
      refine eq_false_of_ne_true fun hlatch => ?_
      rw [(hout.latched hans hlatch).2, (entered_takePendingDataAbort _ _).monitor] at ha
      cases ha
    cases hanswer : (svcAnswer f (counted B s) (s.cpu.r 15) insn).1 with
    | unhandled => exact (hguest _ _ _ ((hout.unhandled (.inl hanswer)).2.trans hunhooked)).elim
    | other => exact (hguest _ _ _ ((hout.unhandled (.inr hanswer)).2.trans hunhooked)).elim
    | error => exact .inr ((monitor_of_uncached (hout.failed hanswer).2).symm.trans ha)
    | handled =>
      have hlatch := hkept (.inl hanswer)
      rw [(hout.handled hanswer hlatch).2] at ha
      exact .inl ⟨f, insn, hB, h, hpriv, .inl hanswer, hlatch, ha⟩
    | redirected =>
      have hlatch := hkept (.inr hanswer)
      rw [(hout.redirected hanswer hlatch).2] at ha
      exact .inl ⟨f, insn, hB, h, hpriv, .inr hanswer, hlatch, ha⟩

/-- An instruction that is neither a load-exclusive nor a supervisor call. -/
theorem AtInsn.untags (h : AtInsn B s insn) (fpu : HostFpu) (hsvc : ¬AtSvc B s insn)
    (hload : ∀ z : ExclusiveSize, ¬AtExclusive B s insn z.loadCode) :
    Untags s (armStep B fpu s).2 := by
  have hcounted : Untags s (counted B s) := Untags.of_eq h.counted_monitor
  rw [armStep_insn fpu h]
  split
  case isTrue hthumb =>
    have hnot : ¬isSvc true insn := fun hyes =>
      hsvc { h with svc := hthumb ▸ hyes, executed := fun harm => absurd (hthumb.symm.trans harm) nofun }
    refine IsTrans.trans _ _ _ hcounted ?_
    exact (Moves.bind (untags_thumbStep B _ insn _ hnot) fun r => untags_thumbRetire _ r) (counted B s)
  case isFalse hthumb =>
    have harm : s.cpu.getFlag armCpsrT = false := eq_false_of_ne_true hthumb
    refine IsTrans.trans _ _ _ hcounted ?_
    rw [armInsn, run_modifyCpu, run_ite]
    split
    · exact untags_armUnconditional B _ insn _ (counted B s)
    case isFalse hcond =>
      rw [run_getCpu, run_ite]
      split
      · exact Untags.of_eq rfl
      case isFalse hpassed =>
        have hexecuted : Executed s.cpu insn := by
          refine ⟨hcond, or_iff_not_imp_left.mpr fun halways => ?_⟩
          rw [← armCondPassed_congr (show (counted B s).cpu.cpsr = _ from h.cpsr_eq)]
          exact not_not.mp fun hno => hpassed ⟨halways, hno⟩
        refine (Moves.bind (untags_armConditional B fpu _ insn _ (fun z henc => ?_) fun hyes => ?_)
          fun r => untags_armRetire _ insn r) (counted B s)
        · exact hload z { h with arm := harm, executed := hexecuted, encoding := henc }
        · exact hsvc { h with svc := harm ▸ hyes, executed := fun _ => hexecuted }

/-- The address in the monitor after a step has been loaded from exclusively, or written by the
platform, or it was there. -/
theorem monitor_tagged (fpu : HostFpu) (ha : (armStep B fpu s).2.cpu.monitor = some a) :
    LoadsExclusive B fpu s a ∨ HostTags B s a ∨ s.cpu.monitor = some a := by
  by_cases hinsn : ∃ insn, AtInsn B s insn
  case neg => exact .inr (.inr (untags_noInsn fpu (not_exists.mp hinsn) a ha))
  obtain ⟨insn, h⟩ := hinsn
  by_cases hsvc : AtSvc B s insn
  · exact .inr (hsvc.monitor_cases fpu ha)
  by_cases hload : ∃ z : ExclusiveSize, AtExclusive B s insn z.loadCode
  case neg => exact .inr (.inr (h.untags fpu hsvc (not_exists.mp hload) a ha))
  obtain ⟨z, hload⟩ := hload
  obtain ⟨-, hkept⟩ | hentered | ⟨hstatus, hloaded⟩ := hload.load_cases fpu
  · exact .inr (.inr (hkept.symm.trans ha))
  · rw [Entered.monitor hentered] at ha
    cases ha
  · have hno : ¬EntersException B fpu s := fun hentered => by
      rw [Entered.monitor hentered] at hloaded
      cases hloaded
    exact .inl ⟨insn, z, hload, Option.some.inj (hloaded.symm.trans ha), hstatus, hno⟩

/-- A step that writes an address to the monitor. -/
def Tags (B : ArmBus σ) (fpu : HostFpu) (s : Sys σ) (a : Word) : Prop :=
  LoadsExclusive B fpu s a ∨ HostTags B s a

/-- The address in the monitor after a step has been written by it, or the step is not an event. -/
theorem monitor_step (fpu : HostFpu) (ha : (armStep B fpu s).2.cpu.monitor = some a) :
    Tags B fpu s a ∨ s.cpu.monitor = some a ∧ ¬ExclusiveEvent B fpu s := by
  have hclear (hnone : (armStep B fpu s).2.cpu.monitor = none) : False := by
    rw [hnone] at ha
    cases ha
  obtain hload | htag | hkept := monitor_tagged fpu ha
  · exact .inl (.inl hload)
  · exact .inl (.inr htag)
  by_cases hload : LoadsExclusive B fpu s a
  · exact .inl (.inl hload)
  refine .inr ⟨hkept, ?_⟩
  rintro (⟨b, hb⟩ | ⟨insn, z, hstore, hstatus⟩ | hclears | hentered)
  · exact hload (Option.some.inj (hb.monitor.symm.trans ha) ▸ hb)
  · exact hclear (hstore.store_monitor hstatus)
  · exact hclear hclears.monitor
  · exact hclear (Entered.monitor hentered)

theorem HostTags.monitor (h : HostTags B s a) (fpu : HostFpu) :
    (armStep B fpu s).2.cpu.monitor = some a := by
  obtain ⟨f, insn, hB, hsvc, hpriv, hanswer, hlatch, hmonitor⟩ := h
  have hout := svcOutcome hB fpu hsvc hpriv
  obtain hanswer | hanswer := hanswer
  · rw [(hout.handled hanswer hlatch).2]
    exact hmonitor
  · rw [(hout.redirected hanswer hlatch).2]
    exact hmonitor

/-- A step that writes an address to the monitor does not enter an exception. -/
theorem Tags.not_entersException (h : Tags B fpu s a) : ¬EntersException B fpu s := by
  intro hentered
  have hsome : (armStep B fpu s).2.cpu.monitor = some a :=
    h.elim LoadsExclusive.monitor fun htag => htag.monitor fpu
  rw [Entered.monitor hentered] at hsome
  cases hsome

end Step

/-! ### A run -/

/-- A run: between two steps anything may change but the monitor. -/
structure MachineRun (B : ArmBus σ) (fpu : HostFpu) (s : ℕ → Sys σ) : Prop where
  next : ∀ n, (s (n + 1)).cpu.monitor = (armStep B fpu (s n)).2.cpu.monitor

/-- Contexts own the steps of a run, and an exception comes between two of them. -/
def Separated (B : ArmBus σ) (fpu : HostFpu) (s : ℕ → Sys σ) {κ : Type} (owner : ℕ → κ) : Prop :=
  ∀ i j, i < j → owner i ≠ owner j → ∃ k, i ≤ k ∧ k < j ∧ EntersException B fpu (s k)

section Run

variable {s : ℕ → Sys σ}

/-- Since the last event no other context has had the core. -/
theorem Separated.owner_eq {κ : Type} {owner : ℕ → κ} (h : Separated B fpu s owner) {i n : ℕ}
    (hlast : LastEvent s (Tags B fpu) (ExclusiveEvent B fpu) a i n) {j : ℕ} (hij : i ≤ j)
    (hjn : j ≤ n) : owner j = owner n := by
  by_contra hne
  have hlt : j < n := lt_of_le_of_ne hjn fun heq => hne (congrArg owner heq)
  obtain ⟨k, hjk, hkn, hentered⟩ := h j n hlt hne
  obtain rfl | hik := (hij.trans hjk).eq_or_lt
  · exact hlast.sets.not_entersException hentered
  · exact hlast.last k hik hkn (.inr (.inr (.inr hentered)))

/-- In a run that starts with the monitor clear, a store-exclusive has been made ready by the last
exclusive event, a load-exclusive from the same base address or the platform's, with no other context
in between. Or else it stores nothing, and unless it is refused or enters an exception its status is
a one. -/
theorem exclusive_store_matched (hrun : MachineRun B fpu s) (hstart : (s 0).cpu.monitor = none)
    {n : ℕ} {z : ExclusiveSize} (hstore : AtExclusive B (s n) insn z.storeCode) :
    (∃ i, LastEvent s (Tags B fpu) (ExclusiveEvent B fpu) ((s n).cpu.r (field insn 16)) i n ∧
      ∀ (κ : Type) (owner : ℕ → κ), Separated B fpu s owner →
        ∀ j, i ≤ j → j ≤ n → owner j = owner n) ∨
    BusReads B (s n).bus (armStep B fpu (s n)).2.bus ∧
      ((armStep B fpu (s n)).1 = .undefined ∨ EntersException B fpu (s n) ∨
        (armStep B fpu (s n)).1 = .ok ∧ (armStep B fpu (s n)).2.cpu.r (field insn 12) = 1) := by
  by_cases hmatch : (s n).cpu.monitor = some ((s n).cpu.r (field insn 16))
  · have hstep (n : ℕ) (a : Word) (ha : (s (n + 1)).cpu.monitor = some a) :
        Tags B fpu (s n) a ∨ (s n).cpu.monitor = some a ∧ ¬ExclusiveEvent B fpu (s n) :=
      monitor_step fpu ((hrun.next n).symm.trans ha)
    obtain ⟨i, hi⟩ := exists_lastEvent (fun t : Sys σ => t.cpu.monitor) hstep hstart hmatch
    exact .inl ⟨i, hi, fun κ owner hsep j hij hjn => hsep.owner_eq hi hij hjn⟩
  · exact .inr (hstore.store_unmatched fpu hmatch)

end Run

/-- A bus with a load-exclusive of a word and another instruction behind it, that tells whether a
byte has been written. -/
def exclusiveBus (second : Word) : ArmBus Bool where
  read32 b pa := (if pa = 0 then 0xe1912f9f else second, b)
  read16 b _ := (0, b)
  read8 b _ := (0, b)
  write32 b _ _ := b
  write16 b _ _ := b
  write8 _ _ _ := true

/-- The run of that program. -/
def exclusiveRun (second : Word) (n : ℕ) : Sys Bool :=
  (fun s => (armStep (exclusiveBus second) zeroFpu s).2)^[n]
    { cpu := { cpsr := armModeSvc }, bus := false }

theorem machineRun_exclusiveRun (second : Word) :
    MachineRun (exclusiveBus second) zeroFpu (exclusiveRun second) := by
  refine ⟨fun n => congrArg (fun t : Sys Bool => t.cpu.monitor) ?_⟩
  exact Function.iterate_succ_apply' _ n _

/-- The load-exclusive of a word and the store-exclusive of a word behind it. -/
theorem exclusive_store_matched_pair :
    let s := exclusiveRun 0xe1813f90
    let B := exclusiveBus 0xe1813f90
    (∃ i, LastEvent s (Tags B zeroFpu) (ExclusiveEvent B zeroFpu) ((s 1).cpu.r 1) i 1 ∧
      ∀ (κ : Type) (owner : ℕ → κ), Separated B zeroFpu s owner →
        ∀ j, i ≤ j → j ≤ 1 → owner j = owner 1) ∨
    BusReads B (s 1).bus (armStep B zeroFpu (s 1)).2.bus ∧
      ((armStep B zeroFpu (s 1)).1 = .undefined ∨ EntersException B zeroFpu (s 1) ∨
        (armStep B zeroFpu (s 1)).1 = .ok ∧ (armStep B zeroFpu (s 1)).2.cpu.r 3 = 1) :=
  exclusive_store_matched (machineRun_exclusiveRun 0xe1813f90) rfl
    (show AtExclusive _ (exclusiveRun 0xe1813f90 1) 0xe1813f90 ExclusiveSize.word.storeCode from {
      valid := by decide
      fiq := by decide
      irq := by decide
      fetched := by decide
      arm := by decide
      executed := ⟨by decide, .inl (by decide)⟩
      encoding := by decide })

/-- The monitor has no size: a store of a byte succeeds after the load of a word. -/
theorem exclusive_size_unmatched :
    let s := exclusiveRun 0xe1c13f90
    let B := exclusiveBus 0xe1c13f90
    AtExclusive B (s 0) 0xe1912f9f ExclusiveSize.word.loadCode ∧
      AtExclusive B (s 1) 0xe1c13f90 ExclusiveSize.byte.storeCode ∧
      (s 1).bus = false ∧ (s 2).bus = true ∧ (s 2).cpu.r 3 = 0 := by
  refine ⟨?load, ?store, by decide, by decide, by decide⟩
  case load =>
    exact {
      valid := by decide
      fiq := by decide
      irq := by decide
      fetched := by decide
      arm := by decide
      executed := ⟨by decide, .inl (by decide)⟩
      encoding := by decide }
  case store =>
    exact {
      valid := by decide
      fiq := by decide
      irq := by decide
      fetched := by decide
      arm := by decide
      executed := ⟨by decide, .inl (by decide)⟩
      encoding := by decide }

end Exec

end S5LBox
