import S5LBox.Lib.Determined
import S5LBox.Lib.LittleEndian
import S5LBox.Soc.Pl080

/-!
# The steps of a DMA channel

Between two places where a channel can stop it moves a burst: the transfers from the source that
fill one or more transfers to the destination. The registers alone say what the next burst is, so a
channel that has stopped goes on as if it had not.

## Main definitions

* `burst`: the transfers between two places where nothing is staged.
* `engineStep`: a burst, the end of an item, or a refusal.

## Main results

* `engineStep_cases`: what a step is.
* `engineStep_inv`: it keeps what the registers describe.
-/

namespace S5LBox.Soc

open Determined

variable {σ ρ : Type}

/-! ### Registers that a transfer does not move -/

theorem size_and_mask {n : Nat} (h : n < 4096) :
    BitVec.ofNat 32 n &&& pl080CtrlSizeMask = BitVec.ofNat 32 n := by
  apply BitVec.eq_of_toNat_eq
  have hmask : pl080CtrlSizeMask.toNat = 2 ^ 12 - 1 := rfl
  rw [BitVec.toNat_and, hmask, Nat.and_two_pow_sub_one_eq_mod, BitVec.toNat_ofNat]
  omega

theorem ctrlWithSize_and {mask : Word} (h : pl080CtrlSizeMask &&& mask = 0) (ctrl : Word) {n : Nat}
    (hn : n < 4096) : ctrlWithSize ctrl n &&& mask = ctrl &&& mask := by
  rw [ctrlWithSize, ← size_and_mask hn]
  exact Blocks.merge_and_of_disjoint h

theorem ctrlSize_ctrlWithSize (ctrl : Word) {n : Nat} (hn : n < 4096) :
    ctrlSize (ctrlWithSize ctrl n) = n := by
  rw [ctrlSize, ctrlWithSize, ← size_and_mask hn, Blocks.merge_and, size_and_mask hn,
    BitVec.toNat_ofNat]
  omega

theorem ctrlSize_lt (ctrl : Word) : ctrlSize ctrl < 4096 := by
  have hmask : pl080CtrlSizeMask.toNat = 2 ^ 12 - 1 := rfl
  rw [ctrlSize, BitVec.toNat_and, hmask, Nat.and_two_pow_sub_one_eq_mod]
  exact Nat.mod_lt _ (by decide)

theorem ctrl_field (ctrl : Word) {lo : Nat}
    (h : pl080CtrlWidthMask <<< lo >>> lo = pl080CtrlWidthMask) :
    ctrl >>> lo &&& pl080CtrlWidthMask = (ctrl &&& pl080CtrlWidthMask <<< lo) >>> lo := by
  rw [BitVec.ushiftRight_and_distrib, h]

/-- An item that the controller moves: widths of one, two or four octets, and a count that fills
whole transfers to the destination. -/
structure Movable (ch : Pl080Chan) : Prop where
  source : ctrlSwidth ch.ctrl ≤ 2
  destination : ctrlDwidth ch.ctrl ≤ 2
  flow : cfgFlow ch.cfg ≤ 3
  whole : ctrlSize ch.ctrl * 2 ^ ctrlSwidth ch.ctrl % 2 ^ ctrlDwidth ch.ctrl = 0

theorem refuseItem_eq_none {ch : Pl080Chan} {d : S5lPl080} :
    refuseItem ch d = none ↔ Movable ch := by
  rw [refuseItem]
  split_ifs with hwidth hflow hwhole
  · refine iff_of_false id fun h => ?_
    have hsource := h.source
    have hdestination := h.destination
    omega
  · exact iff_of_false id fun h => absurd h.flow (not_le.mpr hflow)
  · exact iff_of_false id fun h => hwhole h.whole
  · exact iff_of_true rfl ⟨by omega, by omega, not_lt.mp hflow, not_not.mp hwhole⟩

/-! ### Bursts -/

/-- The transfers from the source that a burst begins with, with `n` of them left before it. -/
def takeMany (bus : DmaBus σ) (it : Item) : Nat → Nat → Nat → Nat → Engine σ → Nat × Engine σ
  | 0, _, pend, _, e => (pend, e)
  | m + 1, n, pend, pendBytes, e =>
    let (pend, e) := takeSource bus it (n - 1) pend pendBytes e
    takeMany bus it m (n - 1) pend (pendBytes + it.swidth) e

/-- The transfers from the source of a burst, and those to the destination. -/
def Item.takes (it : Item) : Nat := if it.swidth < it.dwidth then it.dwidth / it.swidth else 1
def Item.puts (it : Item) : Nat := if it.swidth < it.dwidth then 1 else it.swidth / it.dwidth

/-- What is moved between two places where nothing is staged. -/
def burst (bus : DmaBus σ) (e : Engine σ) : Engine σ :=
  let it := itemOf e.ch
  let (pend, e) := takeMany bus it it.takes (ctrlSize e.ch.ctrl) 0 0 e
  (drain bus it it.puts pend e).2

/-- The channel is enabled and not halted. -/
def Pl080Chan.Enabled (ch : Pl080Chan) : Prop := runnable ch = true

instance (ch : Pl080Chan) : Decidable ch.Enabled := inferInstanceAs (Decidable (_ = _))

/-- What a channel does not change of the controller. -/
def SameSetup (d d' : S5lPl080) : Prop := d'.config = d.config ∧ d'.ch = d.ch

/-- One step of a channel that is enabled, as its registers say it. -/
def engineStep (bus : DmaBus σ) (c : Fin pl080Channels) (e : Engine σ) : Option (Engine σ) :=
  if e.ch.Enabled then
    match refuseItem e.ch e.d with
    | some d => some { e with d, ch := e.ch.disable }
    | none =>
      if ctrlSize e.ch.ctrl = 0 then some (finishItem bus c e).2 else some (burst bus e)
  else none

variable {bus : DmaBus σ} {ready : Option (ReadyFn ρ)} {it : Item} {c : Fin pl080Channels}
  {e e' : Engine σ}

/-! ### The loop of an item, burst by burst -/

/-- While something is staged the loop does not ask, up to the transfer that fills the staged
bytes. -/
theorem transfers_staged (hs : 0 < it.swidth) {j : Nat} (n pend : Nat) {pb : Nat} (hpb : 0 < pb)
    (r : ρ) (e : Engine σ) (h : pb + (j + 1) * it.swidth = it.dwidth) :
    transfers bus ready it (n + (j + 1)) pend pb r e =
      let (pend', e') := takeMany bus it (j + 1) (n + (j + 1)) pend pb e
      let (pend'', e'') := drain bus it 1 pend' e'
      transfers bus ready it n pend'' 0 r e'' := by
  induction j generalizing pend pb e with
  | zero =>
    rw [Nat.zero_add, Nat.one_mul] at h
    have hdiv : (pb + it.swidth) / it.dwidth = 1 := by
      rw [h]
      exact Nat.div_self (by omega)
    have hmod : (pb + it.swidth) % it.dwidth = 0 := by
      rw [h]
      exact Nat.mod_self _
    rw [Nat.zero_add, transfers, if_neg (by omega)]
    simp only [if_true, hdiv, hmod, takeMany, Nat.add_sub_cancel]
  | succ j ih =>
    have hnext : pb + it.swidth + (j + 1) * it.swidth = it.dwidth := by
      rw [← h, Nat.succ_mul (j + 1)]
      omega
    have hpart : pb + it.swidth < it.dwidth := by
      have hpos : 0 < (j + 1) * it.swidth := Nat.mul_pos (Nat.succ_pos j) hs
      omega
    have hdiv : (pb + it.swidth) / it.dwidth = 0 := Nat.div_eq_of_lt hpart
    have hmod : (pb + it.swidth) % it.dwidth = pb + it.swidth := Nat.mod_eq_of_lt hpart
    rw [← Nat.add_assoc n (j + 1) 1, transfers, if_neg (by omega), takeMany]
    simp only [if_true, hdiv, hmod, drain, Nat.add_sub_cancel]
    exact ih _ (by omega) _ hnext

theorem busLoad_lt (bus : DmaBus σ) (s : σ) (addr : Word) {width : Nat} (h : width = 1 ∨ width = 2 ∨ width = 4) :
    (busLoad bus s addr width).1.toNat < 2 ^ (8 * width) := by
  obtain rfl | rfl | rfl := h
  · change ((bus.read8 s addr).1.setWidth 32).toNat < 2 ^ 8
    have hlt := (bus.read8 s addr).1.isLt
    rw [BitVec.toNat_setWidth]
    omega
  · change ((bus.read16 s addr).1.setWidth 32).toNat < 2 ^ 16
    have hlt := (bus.read16 s addr).1.isLt
    rw [BitVec.toNat_setWidth]
    omega
  · exact (bus.read32 s addr).1.isLt

/-- The staged value stays below the staged bytes. -/
theorem takeSource_lt (bus : DmaBus σ) (hw : it.swidth = 1 ∨ it.swidth = 2 ∨ it.swidth = 4) (n : Nat)
    {pend pb : Nat} (e : Engine σ) (h : pend < 2 ^ (8 * pb)) :
    (takeSource bus it n pend pb e).1 < 2 ^ (8 * (pb + it.swidth)) := by
  have hv := busLoad_lt bus e.bus e.ch.src hw
  change pend ||| (busLoad bus e.bus e.ch.src it.swidth).1.toNat <<< (8 * pb) < _
  refine Nat.or_lt_two_pow ?_ ?_
  · exact lt_of_lt_of_le h (Nat.pow_le_pow_right (by decide) (by omega))
  · rw [Nat.shiftLeft_eq, Nat.mul_add, Nat.add_comm, Nat.pow_add]
    exact Nat.mul_lt_mul_of_pos_right hv (Nat.two_pow_pos _)

theorem takeMany_lt (bus : DmaBus σ) (hw : it.swidth = 1 ∨ it.swidth = 2 ∨ it.swidth = 4) (m n : Nat)
    {pend pb : Nat} (e : Engine σ) (h : pend < 2 ^ (8 * pb)) :
    (takeMany bus it m n pend pb e).1 < 2 ^ (8 * (pb + m * it.swidth)) := by
  induction m generalizing n pend pb e with
  | zero => rwa [Nat.zero_mul]
  | succ m ih =>
    have hfirst := takeSource_lt bus hw (n - 1) e h
    have hrest := ih (n - 1) (takeSource bus it (n - 1) pend pb e).2 hfirst
    rwa [Nat.add_assoc, Nat.add_comm it.swidth, ← Nat.succ_mul] at hrest

theorem drain_fst (k pend : Nat) (e : Engine σ) :
    (drain bus it k pend e).1 = pend >>> (8 * it.dwidth * k) := by
  induction k generalizing pend e with
  | zero => rfl
  | succ k ih =>
    rw [drain, ih, ← Nat.shiftRight_add]
    congr 1
    rw [Nat.mul_succ, Nat.add_comm]

/-- A burst stages whole transfers to the destination. -/
structure Item.Fits (it : Item) : Prop where
  source : it.swidth = 1 ∨ it.swidth = 2 ∨ it.swidth = 4
  destination : it.dwidth = 1 ∨ it.dwidth = 2 ∨ it.dwidth = 4

theorem Movable.fits {ch : Pl080Chan} (h : Movable ch) : (itemOf ch).Fits := by
  have hpow {k : Nat} (hk : k ≤ 2) : 2 ^ k = 1 ∨ 2 ^ k = 2 ∨ 2 ^ k = 4 := by
    obtain rfl | rfl | rfl : k = 0 ∨ k = 1 ∨ k = 2 := by omega
    all_goals decide
  exact ⟨hpow h.source, hpow h.destination⟩

theorem Item.Fits.balance (h : it.Fits) : it.takes * it.swidth = it.puts * it.dwidth := by
  obtain ⟨hs, hd⟩ := h
  rw [Item.takes, Item.puts]
  obtain hs | hs | hs := hs <;> obtain hd | hd | hd := hd <;> rw [hs, hd] <;> decide

/-- Nothing is staged after a burst. -/
theorem drain_takeMany (bus : DmaBus σ) (h : it.Fits) (n : Nat) (e : Engine σ) :
    (drain bus it it.puts (takeMany bus it it.takes n 0 0 e).1
      (takeMany bus it it.takes n 0 0 e).2).1 = 0 := by
  have hlt : (takeMany bus it it.takes n 0 0 e).1 < 2 ^ (8 * (0 + it.takes * it.swidth)) :=
    takeMany_lt bus h.source it.takes n e (by decide)
  rw [Nat.zero_add, h.balance] at hlt
  rw [drain_fst, Nat.shiftRight_eq_div_pow]
  refine Nat.div_eq_of_lt ?_
  rwa [Nat.mul_assoc, Nat.mul_comm it.dwidth]

/-- Where the count fills whole transfers to the destination there is a burst left. -/
theorem Item.Fits.takes_le (h : it.Fits) {n : Nat} (hn : 0 < n)
    (hwhole : n * it.swidth % it.dwidth = 0) :
    it.takes ≤ n ∧ (n - it.takes) * it.swidth % it.dwidth = 0 := by
  obtain ⟨hs, hd⟩ := h
  rw [Item.takes]
  obtain hs | hs | hs := hs <;> obtain hd | hd | hd := hd <;> rw [hs, hd] at hwhole ⊢ <;>
    simp at hwhole ⊢ <;> omega

/-- What the loop does once it has been granted. -/
theorem transfers_granted (h : it.Fits) (n : Nat) (r : ρ) (e : Engine σ)
    (hrequest : (requested ready it e.ch r).1 = true) :
    transfers bus ready it (n + it.takes) 0 0 r e =
      transfers bus ready it n 0 0 (requested ready it e.ch r).2
        (drain bus it it.puts (takeMany bus it it.takes (n + it.takes) 0 0 e).1
          (takeMany bus it it.takes (n + it.takes) 0 0 e).2).2 := by
  have hempty := drain_takeMany bus h (n + it.takes) e
  have hs : 0 < it.swidth := by
    obtain hs | hs | hs := h.source <;> omega
  have hd : 0 < it.dwidth := by
    obtain hd | hd | hd := h.destination <;> omega
  by_cases hlt : it.swidth < it.dwidth
  · obtain ⟨j, hj⟩ : ∃ j, it.takes = j + 1 + 1 := by
      have htakes : 2 ≤ it.takes := by
        obtain ⟨hs, hd⟩ := h
        rw [Item.takes, if_pos hlt]
        obtain hs | hs | hs := hs <;> obtain hd | hd | hd := hd <;> rw [hs, hd] at hlt ⊢ <;> omega
      exact ⟨it.takes - 2, by omega⟩
    have hputs : it.puts = 1 := if_pos hlt
    have hbalance := h.balance
    rw [hputs, hj, Nat.one_mul, Nat.succ_mul, Nat.add_comm] at hbalance
    rw [hputs, hj] at hempty ⊢
    have hdiv : (0 + it.swidth) / it.dwidth = 0 := by
      rw [Nat.zero_add]
      exact Nat.div_eq_of_lt hlt
    have hmod : (0 + it.swidth) % it.dwidth = it.swidth := by
      rw [Nat.zero_add]
      exact Nat.mod_eq_of_lt hlt
    have hmany : takeMany bus it (j + 1 + 1) (n + (j + 1 + 1)) 0 0 e =
        takeMany bus it (j + 1) (n + (j + 1)) (takeSource bus it (n + (j + 1)) 0 0 e).1 it.swidth
          (takeSource bus it (n + (j + 1)) 0 0 e).2 := by
      rw [takeMany, Nat.zero_add]
      rfl
    rw [hmany] at hempty ⊢
    rw [← Nat.add_assoc n (j + 1) 1, transfers, if_pos rfl]
    simp only [hrequest, if_true, hdiv, hmod]
    refine (transfers_staged hs n _ hs _ _ hbalance).trans ?_
    exact congrArg (fun pend => transfers bus ready it n pend 0 _ _) hempty
  · have htakes : it.takes = 1 := if_neg hlt
    have hputs : it.puts = it.swidth / it.dwidth := if_neg hlt
    have hbalance := h.balance
    rw [htakes, Nat.one_mul] at hbalance
    have hdiv : (0 + it.swidth) / it.dwidth = it.puts := by
      rw [Nat.zero_add, hputs]
    have hmod : (0 + it.swidth) % it.dwidth = 0 := by
      rw [Nat.zero_add, hbalance, Nat.mul_mod_left]
    rw [htakes] at hempty ⊢
    rw [transfers, if_pos rfl]
    simp only [hrequest, if_true, hdiv, hmod]
    exact congrArg (fun pend => transfers bus ready it n pend 0 _ _) hempty

/-! ### What has been moved of an item -/

def Access.isLoad : Access → Bool
  | .load .. => true
  | _ => false

def Access.isStore : Access → Bool
  | .store .. => true
  | _ => false

def Access.isFetch : Access → Bool
  | .fetch .. => true
  | _ => false

/-- The registers of a channel, by those that its item started with and what it has done since. -/
structure Moved (s ch : Pl080Chan) (item : List Access) : Prop where
  cfg : ch.cfg = s.cfg
  lli : ch.lli = s.lli
  runs : ch.runs = s.runs
  src : ch.src = if (itemOf s).si then
    s.src + BitVec.ofNat 32 (item.countP Access.isLoad * (itemOf s).swidth) else s.src
  dst : ch.dst = if (itemOf s).di then
    s.dst + BitVec.ofNat 32 (item.countP Access.isStore * (itemOf s).dwidth) else s.dst
  size : ctrlSize ch.ctrl + item.countP Access.isLoad = ctrlSize s.ctrl
  fields : ∀ mask, pl080CtrlSizeMask &&& mask = 0 → ch.ctrl &&& mask = s.ctrl &&& mask
  bytes : ch.bytes = s.bytes +
    BitVec.ofNat 64 (item.countP Access.isStore * (itemOf s).dwidth)
  transfers : item.countP Access.isFetch = 0

variable {s ch : Pl080Chan} {item : List Access}

theorem Moved.start (s : Pl080Chan) : Moved s s [] where
  cfg := rfl
  lli := rfl
  runs := rfl
  src := by simp
  dst := by simp
  size := rfl
  fields _ _ := rfl
  bytes := by simp
  transfers := rfl

/-- The widths, the flow and the increments stay. -/
theorem Moved.itemOf_eq (h : Moved s ch item) : itemOf ch = itemOf s := by
  have hsw : ctrlSwidth ch.ctrl = ctrlSwidth s.ctrl := by
    rw [ctrlSwidth, ctrlSwidth, ctrl_field _ (by decide), ctrl_field _ (by decide),
      h.fields _ (by decide)]
  have hdw : ctrlDwidth ch.ctrl = ctrlDwidth s.ctrl := by
    rw [ctrlDwidth, ctrlDwidth, ctrl_field _ (by decide), ctrl_field _ (by decide),
      h.fields _ (by decide)]
  rw [itemOf, itemOf, hsw, hdw, h.cfg, h.fields _ (by decide), h.fields _ (by decide)]

theorem add_width {w : Nat} (x : BitVec w) (n width : Nat) :
    x + BitVec.ofNat w (n * width) + BitVec.ofNat w width =
      x + BitVec.ofNat w ((n + 1) * width) := by
  rw [BitVec.add_assoc, ← BitVec.ofNat_add, Nat.succ_mul]

/-- A transfer from the source. -/
theorem Moved.take (bus : DmaBus σ) (h : Moved s e.ch item) {n : Nat} (hn : ctrlSize e.ch.ctrl = n + 1)
    (pend pb : Nat) : Moved s (takeSource bus (itemOf s) n pend pb e).2.ch
      (item ++ [.load e.ch.src (itemOf s).swidth
        (busLoad bus e.bus e.ch.src (itemOf s).swidth).1]) := by
  have hlt : n < 4096 := lt_trans (by omega) (ctrlSize_lt e.ch.ctrl)
  have hsrc : (takeSource bus (itemOf s) n pend pb e).2.ch.src =
      if (itemOf s).si then e.ch.src + BitVec.ofNat 32 (itemOf s).swidth else e.ch.src := rfl
  have hctrl : (takeSource bus (itemOf s) n pend pb e).2.ch.ctrl = ctrlWithSize e.ch.ctrl n := rfl
  constructor
  case src =>
    rw [hsrc, h.src, List.countP_append, List.countP_singleton]
    by_cases hsi : (itemOf s).si
    · rw [if_pos hsi, if_pos hsi, if_pos hsi]
      exact add_width _ _ _
    · rw [if_neg hsi, if_neg hsi, if_neg hsi]
  case size =>
    have hsize := h.size
    rw [hctrl, ctrlSize_ctrlWithSize _ hlt, List.countP_append, List.countP_singleton]
    change n + (_ + 1) = _
    omega
  case fields =>
    intro mask hmask
    rw [hctrl, ctrlWithSize_and hmask _ hlt, h.fields mask hmask]
  case dst =>
    rw [List.countP_append, List.countP_singleton]
    exact h.dst
  case bytes =>
    rw [List.countP_append, List.countP_singleton]
    exact h.bytes
  case transfers =>
    rw [List.countP_append, List.countP_singleton]
    exact h.transfers
  case cfg => exact h.cfg
  case lli => exact h.lli
  case runs => exact h.runs

/-- A transfer to the destination. -/
theorem Moved.put (bus : DmaBus σ) (h : Moved s e.ch item) (pend : Nat) :
    Moved s (putDestination bus (itemOf s) pend e).ch
      (item ++ [.store e.ch.dst (itemOf s).dwidth
        (BitVec.ofNat 32 (pend &&& (1 <<< (8 * (itemOf s).dwidth) - 1)))]) := by
  have hdst : (putDestination bus (itemOf s) pend e).ch.dst =
      if (itemOf s).di then e.ch.dst + BitVec.ofNat 32 (itemOf s).dwidth else e.ch.dst := rfl
  have hbytes : (putDestination bus (itemOf s) pend e).ch.bytes =
      e.ch.bytes + BitVec.ofNat 64 (itemOf s).dwidth := rfl
  constructor
  case dst =>
    rw [hdst, h.dst, List.countP_append, List.countP_singleton]
    by_cases hdi : (itemOf s).di
    · rw [if_pos hdi, if_pos hdi, if_pos hdi]
      exact add_width _ _ _
    · rw [if_neg hdi, if_neg hdi, if_neg hdi]
  case bytes =>
    rw [hbytes, h.bytes, List.countP_append, List.countP_singleton]
    exact add_width _ _ _
  case src =>
    rw [List.countP_append, List.countP_singleton]
    exact h.src
  case size =>
    rw [List.countP_append, List.countP_singleton]
    exact h.size
  case fields => exact h.fields
  case transfers =>
    rw [List.countP_append, List.countP_singleton]
    exact h.transfers
  case cfg => exact h.cfg
  case lli => exact h.lli
  case runs => exact h.runs

/-! ### What a burst does -/

/-- The octets of the transfers from the source, and of those to the destination. -/
def loadedBytes (log : List Access) : List Byte :=
  log.flatMap fun
    | .load _ width v => LittleEndian.encode width v.toNat
    | _ => []

def storedBytes (log : List Access) : List Byte :=
  log.flatMap fun
    | .store _ width v => LittleEndian.encode width v.toNat
    | _ => []

/-- The value that joins the staged ones lies above them. -/
theorem takeSource_fst (n : Nat) {pend pb : Nat} (e : Engine σ) (h : pend < 2 ^ (8 * pb)) :
    (takeSource bus it n pend pb e).1 =
      pend + 256 ^ pb * (busLoad bus e.bus e.ch.src it.swidth).1.toNat := by
  change pend ||| _ <<< (8 * pb) = _
  rw [Nat.or_comm, ← Nat.shiftLeft_add_eq_or_of_lt h, Nat.shiftLeft_eq, Nat.add_comm, Nat.mul_comm,
    Nat.pow_mul]
  rfl

/-- The transfers from the source: the staged octets are those loaded. -/
theorem takeMany_moved (bus : DmaBus σ) (hs : (itemOf s).Fits) (m : Nat) {n pend pb : Nat} (h : Moved s e.ch item)
    (hn : ctrlSize e.ch.ctrl = n) (hm : m ≤ n) (hpend : pend < 2 ^ (8 * pb)) :
    ∃ more, (takeMany bus (itemOf s) m n pend pb e).2.log = e.log ++ more ∧
      Moved s (takeMany bus (itemOf s) m n pend pb e).2.ch (item ++ more) ∧
      ctrlSize (takeMany bus (itemOf s) m n pend pb e).2.ch.ctrl = n - m ∧
      storedBytes more = [] ∧
      LittleEndian.encode (pb + m * (itemOf s).swidth) (takeMany bus (itemOf s) m n pend pb e).1 =
        LittleEndian.encode pb pend ++ loadedBytes more := by
  induction m generalizing n pend pb e item with
  | zero =>
    refine ⟨[], (List.append_nil _).symm, ?_, hn, rfl, ?_⟩
    · rwa [List.append_nil]
    · rw [Nat.zero_mul, Nat.add_zero]
      exact (List.append_nil _).symm
  | succ m ih =>
    obtain ⟨n, rfl⟩ : ∃ k, n = k + 1 := ⟨n - 1, by omega⟩
    have hlt : n < 4096 := lt_trans (by omega) (ctrlSize_lt e.ch.ctrl)
    have hfirst := h.take bus hn pend pb
    have hsize : ctrlSize (takeSource bus (itemOf s) n pend pb e).2.ch.ctrl = n :=
      ctrlSize_ctrlWithSize _ hlt
    obtain ⟨more, hlog, hmoved, hrest, hstored, hbytes⟩ :=
      ih hfirst hsize (by omega) (takeSource_lt bus hs.source n e hpend)
    refine ⟨.load e.ch.src (itemOf s).swidth (busLoad bus e.bus e.ch.src (itemOf s).swidth).1 ::
      more, ?_, ?_, ?_, hstored, ?_⟩
    · refine hlog.trans ?_
      exact List.append_assoc _ _ _
    · rw [List.append_assoc] at hmoved
      exact hmoved
    · exact hrest.trans (Nat.add_sub_add_right n 1 m).symm
    · have hnext : pb + (m + 1) * (itemOf s).swidth =
          pb + (itemOf s).swidth + m * (itemOf s).swidth := by
        rw [Nat.succ_mul]
        omega
      have hpend' : pend < 256 ^ pb := by rwa [Nat.pow_mul] at hpend
      rw [hnext]
      refine hbytes.trans ?_
      rw [takeSource_fst n e hpend, LittleEndian.encode_append _ _ hpend', List.append_assoc]
      rfl

/-- The octets of one transfer to the destination. -/
theorem encode_put (hd : it.dwidth = 1 ∨ it.dwidth = 2 ∨ it.dwidth = 4) (pend : Nat) :
    LittleEndian.encode it.dwidth
      (BitVec.ofNat 32 (pend &&& (1 <<< (8 * it.dwidth) - 1))).toNat =
        LittleEndian.encode it.dwidth pend := by
  have hfit : 256 ^ it.dwidth ≤ 2 ^ 32 := by
    obtain hd | hd | hd := hd <;> rw [hd] <;> decide
  have hlow : pend % 256 ^ it.dwidth < 2 ^ 32 :=
    lt_of_lt_of_le (Nat.mod_lt _ (Nat.pow_pos (by decide))) hfit
  have hmask : pend &&& (1 <<< (8 * it.dwidth) - 1) = pend % 256 ^ it.dwidth := by
    rw [Nat.one_shiftLeft, Nat.and_two_pow_sub_one_eq_mod, Nat.pow_mul]
  rw [hmask, BitVec.toNat_ofNat, Nat.mod_eq_of_lt hlow, LittleEndian.encode_mod]

/-- The transfers to the destination: the octets stored are those staged. -/
theorem drain_moved (bus : DmaBus σ) (hs : (itemOf s).Fits) (k pend : Nat) (h : Moved s e.ch item) :
    ∃ more, (drain bus (itemOf s) k pend e).2.log = e.log ++ more ∧
      Moved s (drain bus (itemOf s) k pend e).2.ch (item ++ more) ∧
      (drain bus (itemOf s) k pend e).2.ch.ctrl = e.ch.ctrl ∧
      loadedBytes more = [] ∧
      storedBytes more = LittleEndian.encode (k * (itemOf s).dwidth) pend := by
  induction k generalizing pend e item with
  | zero =>
    refine ⟨[], (List.append_nil _).symm, ?_, rfl, rfl, ?_⟩
    · rwa [List.append_nil]
    · rw [Nat.zero_mul]
      rfl
  | succ k ih =>
    obtain ⟨more, hlog, hmoved, hctrl, hloaded, hstored⟩ :=
      ih (pend >>> (8 * (itemOf s).dwidth)) (h.put bus pend)
    refine ⟨.store e.ch.dst (itemOf s).dwidth
      (BitVec.ofNat 32 (pend &&& (1 <<< (8 * (itemOf s).dwidth) - 1))) :: more, ?_, ?_, hctrl,
      hloaded, ?_⟩
    · refine hlog.trans ?_
      exact List.append_assoc _ _ _
    · rw [List.append_assoc] at hmoved
      exact hmoved
    · have hshift : pend >>> (8 * (itemOf s).dwidth) = pend / 256 ^ (itemOf s).dwidth := by
        rw [Nat.shiftRight_eq_div_pow, Nat.pow_mul]
      have hwidth : (k + 1) * (itemOf s).dwidth = (itemOf s).dwidth + k * (itemOf s).dwidth := by
        rw [Nat.succ_mul, Nat.add_comm]
      rw [hshift] at hstored
      rw [hwidth, LittleEndian.encode_add, ← hstored, ← encode_put hs.destination]
      rfl

/-- A burst moves the registers by what it does, and stores the octets that it loads. -/
theorem burst_moved (bus : DmaBus σ) (h : Moved s e.ch item) (hmovable : Movable e.ch)
    (hn : 0 < ctrlSize e.ch.ctrl) :
    ∃ more, (burst bus e).log = e.log ++ more ∧ Moved s (burst bus e).ch (item ++ more) ∧
      ctrlSize (burst bus e).ch.ctrl = ctrlSize e.ch.ctrl - (itemOf s).takes ∧
      loadedBytes more = storedBytes more := by
  have htakes := (hmovable.fits.takes_le hn hmovable.whole).1
  have hs := hmovable.fits
  rw [h.itemOf_eq] at htakes hs
  obtain ⟨loads, hlog, hmoved, hsize, hstored, hbytes⟩ :=
    takeMany_moved bus hs (itemOf s).takes h rfl htakes
      (show 0 < 2 ^ (8 * 0) from Nat.one_pos)
  obtain ⟨stores, hlog', hmoved', hctrl', hloaded', hstored'⟩ :=
    drain_moved bus hs (itemOf s).puts
      (takeMany bus (itemOf s) (itemOf s).takes (ctrlSize e.ch.ctrl) 0 0 e).1 hmoved
  rw [Nat.zero_add, hs.balance, ← hstored'] at hbytes
  rw [burst, h.itemOf_eq]
  refine ⟨loads ++ stores, ?_, ?_, ?_, ?_⟩
  · rw [hlog', hlog, List.append_assoc]
  · rwa [← List.append_assoc]
  · rw [hctrl', hsize]
  · rw [loadedBytes, storedBytes, List.flatMap_append, List.flatMap_append]
    change loadedBytes loads ++ loadedBytes stores = storedBytes loads ++ storedBytes stores
    rw [hloaded', hstored, List.append_nil, List.nil_append]
    exact hbytes.symm

/-! ### Where a channel can stop -/

/-- The registers that an item starts with, after what the channel has done by then. -/
inductive ItemStart (ch₀ : Pl080Chan) : List Access → Pl080Chan → Prop where
  | first : ItemStart ch₀ [] ch₀
  | next {before item : List Access} {s ch : Pl080Chan} (h : ItemStart ch₀ before s)
      (hmoved : Moved s ch item) (hdone : ctrlSize ch.ctrl = 0) (hlli : ch.lli ≠ 0)
      (src dst lli ctrl : Word) :
      ItemStart ch₀
        (before ++ item ++ [.fetch (ch.lli &&& ~~~3) src, .fetch ((ch.lli &&& ~~~3) + 4) dst,
          .fetch ((ch.lli &&& ~~~3) + 8) lli, .fetch ((ch.lli &&& ~~~3) + 12) ctrl])
        { ch with src, dst, lli, ctrl, runs := ch.runs + 1 }

/-- How the registers stand to what has been done of an item: on the way, refused, at the end of the
list, or cut off where the list is too long for one run. -/
inductive StoppedIn (s : Pl080Chan) (item : List Access) : Pl080Chan → Prop where
  | underWay {ch : Pl080Chan} (h : Moved s ch item) : StoppedIn s item ch
  | refused {ch : Pl080Chan} (h : Moved s ch item) (hmovable : ¬Movable ch) :
      StoppedIn s item ch.disable
  | finished {ch : Pl080Chan} (h : Moved s ch item) (hdone : ctrlSize ch.ctrl = 0)
      (hlli : ch.lli = 0) : StoppedIn s item { ch with runs := ch.runs + 1 }.disable
  | cutOff (h : item = []) : StoppedIn s item s.disable

/-- The registers describe what the channel has done. -/
def Describes (ch₀ : Pl080Chan) (log : List Access) (ch : Pl080Chan) : Prop :=
  ∃ before s item, ItemStart ch₀ before s ∧ log = before ++ item ∧ StoppedIn s item ch

theorem not_enabled_disable (ch : Pl080Chan) : ¬ch.disable.Enabled := by
  have hclear : ~~~pl080CfgEn &&& (pl080CfgEn ||| pl080CfgHalt) &&& pl080CfgEn = 0 := by decide
  intro h
  have hen : ch.cfg &&& ~~~pl080CfgEn &&& (pl080CfgEn ||| pl080CfgHalt) = pl080CfgEn :=
    eq_of_beq h
  have hself : pl080CfgEn &&& pl080CfgEn = 0 := by
    refine (congrArg (· &&& pl080CfgEn) hen).symm.trans ?_
    rw [BitVec.and_assoc ch.cfg, BitVec.and_assoc ch.cfg, hclear]
    exact BitVec.and_zero
  exact absurd hself (by decide)

theorem Describes.underWay {ch₀ : Pl080Chan} {log : List Access} (h : Describes ch₀ log ch)
    (hen : ch.Enabled) :
    ∃ before s item, ItemStart ch₀ before s ∧ log = before ++ item ∧ Moved s ch item := by
  obtain ⟨before, s, item, hstart, hlog, hstop⟩ := h
  cases hstop with
  | underWay hmoved => exact ⟨before, s, item, hstart, hlog, hmoved⟩
  | refused => exact absurd hen (not_enabled_disable _)
  | finished => exact absurd hen (not_enabled_disable _)
  | cutOff => exact absurd hen (not_enabled_disable _)

/-- The registers describe what has been done, and the octets loaded have been stored. -/
structure EngineInv (ch₀ : Pl080Chan) (e : Engine σ) : Prop where
  describes : Describes ch₀ e.log e.ch
  bytes : loadedBytes e.log = storedBytes e.log

/-- The registers and the accesses after the end of an item. -/
theorem finishItem_last (bus : DmaBus σ) (c : Fin pl080Channels) (h : e.ch.lli = 0) :
    (finishItem bus c e).1 = false ∧ (finishItem bus c e).2.log = e.log ∧
      (finishItem bus c e).2.ch = { e.ch with runs := e.ch.runs + 1 }.disable := by
  have hlli : ({ e.ch with runs := e.ch.runs + 1 } : Pl080Chan).lli = 0 := h
  rw [finishItem]
  dsimp only
  rw [if_pos hlli]
  exact ⟨rfl, rfl, rfl⟩

theorem finishItem_next (bus : DmaBus σ) (c : Fin pl080Channels) (h : e.ch.lli ≠ 0) : ∃ src dst lli ctrl,
    (finishItem bus c e).1 = true ∧
    (finishItem bus c e).2.log = e.log ++ [.fetch (e.ch.lli &&& ~~~3) src,
      .fetch ((e.ch.lli &&& ~~~3) + 4) dst, .fetch ((e.ch.lli &&& ~~~3) + 8) lli,
      .fetch ((e.ch.lli &&& ~~~3) + 12) ctrl] ∧
    (finishItem bus c e).2.ch = { e.ch with src, dst, lli, ctrl, runs := e.ch.runs + 1 } := by
  have hlli : ¬({ e.ch with runs := e.ch.runs + 1 } : Pl080Chan).lli = 0 := h
  rw [finishItem]
  dsimp only
  rw [if_neg hlli]
  refine ⟨_, _, _, _, rfl, ?_, rfl⟩
  simp [fetchWord]

section Step

variable (hen : e.ch.Enabled)
include hen

theorem engineStep_refused {d : S5lPl080} (h : refuseItem e.ch e.d = some d) :
    engineStep bus c e = some { e with d, ch := e.ch.disable } := by
  rw [engineStep, if_pos hen, h]

theorem engineStep_finish (h : Movable e.ch) (hn : ctrlSize e.ch.ctrl = 0) :
    engineStep bus c e = some (finishItem bus c e).2 := by
  rw [engineStep, if_pos hen, refuseItem_eq_none.mpr h]
  exact if_pos hn

theorem engineStep_burst (h : Movable e.ch) (hn : 0 < ctrlSize e.ch.ctrl) :
    engineStep bus c e = some (burst bus e) := by
  rw [engineStep, if_pos hen, refuseItem_eq_none.mpr h]
  exact if_neg hn.ne'

end Step

theorem engineStep_disabled (h : ¬e.ch.Enabled) : engineStep bus c e = none := if_neg h

/-- What a step is. -/
inductive StepIs (bus : DmaBus σ) (c : Fin pl080Channels) (e : Engine σ) : Engine σ → Prop where
  | refused (d : S5lPl080) (hd : refuseItem e.ch e.d = some d) (h : ¬Movable e.ch) :
      StepIs bus c e { e with d, ch := e.ch.disable }
  | finish (h : Movable e.ch) (hn : ctrlSize e.ch.ctrl = 0) : StepIs bus c e (finishItem bus c e).2
  | burst (h : Movable e.ch) (hn : 0 < ctrlSize e.ch.ctrl) : StepIs bus c e (burst bus e)

theorem engineStep_cases (h : engineStep bus c e = some e') :
    e.ch.Enabled ∧ StepIs bus c e e' := by
  have hen : e.ch.Enabled := by
    by_contra hdisabled
    exact absurd ((engineStep_disabled hdisabled).symm.trans h) (Option.some_ne_none _).symm
  refine ⟨hen, ?_⟩
  cases hrefuse : refuseItem e.ch e.d with
  | some d =>
    rw [engineStep_refused hen hrefuse] at h
    have hmovable : ¬Movable e.ch := fun hm =>
      Option.some_ne_none _ (hrefuse.symm.trans (refuseItem_eq_none.mpr hm))
    rw [← Option.some.inj h]
    exact .refused d hrefuse hmovable
  | none =>
    have hmovable := refuseItem_eq_none.mp hrefuse
    by_cases hn : ctrlSize e.ch.ctrl = 0
    · rw [engineStep_finish hen hmovable hn] at h
      rw [← Option.some.inj h]
      exact .finish hmovable hn
    · rw [engineStep_burst hen hmovable (Nat.pos_of_ne_zero hn)] at h
      rw [← Option.some.inj h]
      exact .burst hmovable (Nat.pos_of_ne_zero hn)

/-- The end of an item that is followed by another one leaves the registers at the start of it. -/
theorem finishItem_start {ch₀ : Pl080Chan} (bus : DmaBus σ) (c : Fin pl080Channels)
    (hi : EngineInv ch₀ e) (hen : e.ch.Enabled) (hn : ctrlSize e.ch.ctrl = 0)
    (hlli : e.ch.lli ≠ 0) :
    ItemStart ch₀ (finishItem bus c e).2.log (finishItem bus c e).2.ch := by
  obtain ⟨before, s, item, hstart, hlog, hmoved⟩ := hi.describes.underWay hen
  obtain ⟨src, dst, lli, ctrl, -, hlog', hch⟩ := finishItem_next bus c hlli
  rw [hlog', hch, hlog]
  exact .next hstart hmoved hn hlli src dst lli ctrl

/-- A step keeps the description. -/
theorem engineStep_inv {ch₀ : Pl080Chan} (h : engineStep bus c e = some e')
    (hi : EngineInv ch₀ e) : EngineInv ch₀ e' := by
  obtain ⟨hen, hstep⟩ := engineStep_cases h
  obtain ⟨before, s, item, hstart, hlog, hmoved⟩ := hi.describes.underWay hen
  cases hstep with
  | refused d hd hmovable =>
    exact ⟨⟨before, s, item, hstart, hlog, .refused hmoved hmovable⟩, hi.bytes⟩
  | finish hmovable hn =>
    by_cases hlli : e.ch.lli = 0
    · obtain ⟨-, hlog', hch⟩ := finishItem_last bus c hlli
      refine ⟨⟨before, s, item, hstart, hlog'.trans hlog, ?_⟩, by rw [hlog']; exact hi.bytes⟩
      rw [hch]
      exact .finished hmoved hn hlli
    · refine ⟨⟨_, _, [], finishItem_start bus c hi hen hn hlli, (List.append_nil _).symm,
        .underWay (.start _)⟩, ?_⟩
      obtain ⟨src, dst, lli, ctrl, -, hlog', -⟩ := finishItem_next bus c hlli
      rw [hlog', loadedBytes, storedBytes, List.flatMap_append, List.flatMap_append]
      exact congrArg (· ++ []) hi.bytes
  | burst hmovable hn =>
    obtain ⟨more, hlog', hmoved', -, hbytes⟩ := burst_moved bus hmoved hmovable hn
    refine ⟨⟨before, s, item ++ more, hstart, ?_, .underWay hmoved'⟩, ?_⟩
    · rw [hlog', hlog, List.append_assoc]
    · rw [hlog', loadedBytes, storedBytes, List.flatMap_append, List.flatMap_append]
      exact congrArg₂ (· ++ ·) hi.bytes hbytes

end S5LBox.Soc
