import Mathlib.Data.List.GetD
import S5LBox.Tools.Sha256

/-!
# The streaming digest is the standard's

A context stands for the message that it has taken in: its state is the hash value after the whole
blocks of the message, and its block holds the rest. An update goes on with the message, whatever
its length, and the last blocks are those of the padded message.

## Main definitions

* `Context.pending`: the octets that wait for the rest of their block.
* `Represents`: the context is that of a message.
* `Reachable`: the contexts that the interface leads to.

## Main results

* `transform_eq`: the transformation is the standard's.
* `takeIn_spec`: what an update takes in.
* `finish_eq`: the last blocks.
* `streaming_exact`.
-/

namespace S5LBox.Tools.Sha256

open Standard (HashValue compress pad padding digest schedule)

/-! ### Words -/

theorem rotateRight_eq (value : Word) {count : Nat} (h : count < 32) :
    rotateRight value count = Standard.rotr count value := by
  rw [rotateRight, Standard.rotr, BitVec.rotateRight, BitVec.rotateRightAux, Nat.mod_eq_of_lt h]

theorem setWidth_ushiftRight {w : Nat} (x : BitVec w) (n : Nat) :
    (x >>> n).setWidth 8 = x.extractLsb' n 8 := by
  refine BitVec.eq_of_toNat_eq ?_
  rw [BitVec.toNat_setWidth, BitVec.toNat_ushiftRight, BitVec.extractLsb'_toNat]

theorem storeBe32_eq (value : Word) : storeBe32 value = Standard.octets32 value := by
  have hlast : value.setWidth 8 = value.extractLsb' 0 8 := setWidth_ushiftRight value 0
  rw [storeBe32, Standard.octets32, setWidth_ushiftRight, setWidth_ushiftRight,
    setWidth_ushiftRight, hlast]

theorem append_octets (a b c d : Byte) :
    a.setWidth 32 <<< 24 ||| b.setWidth 32 <<< 16 ||| c.setWidth 32 <<< 8 ||| d.setWidth 32 =
      a ++ b ++ c ++ d := by
  refine BitVec.eq_of_getLsbD_eq fun i hi => ?_
  change _ = BitVec.getLsbD (w := 8 + 8 + 8 + 8) (a ++ b ++ c ++ d) i
  simp only [BitVec.getLsbD_append, BitVec.getLsbD_or, BitVec.getLsbD_shiftLeft,
    BitVec.getLsbD_setWidth]
  grind

theorem loadBe32_drop (block : List Byte) (t : Nat) :
    loadBe32 (block.drop (t * 4)) = Standard.messageWord block t := by
  simp only [loadBe32, Standard.messageWord, append_octets, List.getD_eq_getElem?_getD,
    List.getElem?_drop, Nat.add_zero]

/-! ### The transformation -/

theorem nextWord_schedule (block : List Byte) {index : Nat} (h : 16 ≤ index) :
    nextWord ((List.range index).map (schedule block)) index = schedule block index := by
  have hword : ∀ i < index, ((List.range index).map (schedule block)).getD i 0 = schedule block i :=
    fun i hi => by
      rw [List.getD_eq_getElem _ _ (by rw [List.length_map, List.length_range]; exact hi),
        List.getElem_map, List.getElem_range]
  simp only [nextWord, hword (index - 15) (by omega), hword (index - 2) (by omega),
    hword (index - 16) (by omega), hword (index - 7) (by omega)]
  simp only [rotateRight_eq _ (show 7 < 32 by decide), rotateRight_eq _ (show 18 < 32 by decide),
    rotateRight_eq _ (show 17 < 32 by decide), rotateRight_eq _ (show 19 < 32 by decide)]
  conv_rhs => rw [schedule, if_neg (by omega)]
  rw [← Standard.smallSigma0, ← Standard.smallSigma1]
  ac_rfl

theorem words_fill (block : List Byte) (n : Nat) :
    (List.range' 16 n).foldl (fun words index => words ++ [nextWord words index])
        ((List.range 16).map fun index => loadBe32 (block.drop (index * 4))) =
      (List.range (16 + n)).map (schedule block) := by
  induction n with
  | zero =>
    refine List.map_congr_left fun index hindex => ?_
    rw [loadBe32_drop, schedule, if_pos (List.mem_range.1 hindex)]
  | succ n ih =>
    rw [List.range'_concat, List.foldl_append, ih, Nat.one_mul, List.foldl_cons, List.foldl_nil,
      nextWord_schedule block (by omega), ← Nat.add_assoc, List.range_succ, List.map_append,
      List.map_singleton]

theorem words_eq (block : List Byte) : words block = (List.range 64).map (schedule block) :=
  words_fill block 48

theorem sha256Constants_eq :
    sha256Constants.toList = Standard.constants.map (BitVec.ofNat 32) := rfl

theorem round_eq (block : List Byte) (v : HashValue) {t : Nat} (h : t < 64) :
    round (words block) v t =
      Standard.round (BitVec.ofNat 32 (Standard.constants.getD t 0)) (schedule block t) v := by
  have hconstant : sha256Constants.toList.getD t 0 =
      BitVec.ofNat 32 (Standard.constants.getD t 0) := by
    rw [sha256Constants_eq, ← List.getD_map (f := BitVec.ofNat 32)]
    rfl
  have hword : (words block).getD t 0 = schedule block t := by
    rw [words_eq, List.getD_eq_getElem _ _ (by rw [List.length_map, List.length_range]; exact h),
      List.getElem_map, List.getElem_range]
  simp only [round, hconstant, hword, rotateRight_eq _ (show 6 < 32 by decide),
    rotateRight_eq _ (show 11 < 32 by decide), rotateRight_eq _ (show 25 < 32 by decide),
    rotateRight_eq _ (show 2 < 32 by decide), rotateRight_eq _ (show 13 < 32 by decide),
    rotateRight_eq _ (show 22 < 32 by decide)]
  rfl

theorem working_eq (block : List Byte) (v : HashValue) {n : Nat} (h : n ≤ 64) :
    (List.range n).foldl (round (words block)) v = Standard.working v block n := by
  induction n with
  | zero => rfl
  | succ n ih =>
    rw [List.range_succ, List.foldl_append, ih (by omega), List.foldl_cons, List.foldl_nil,
      round_eq block _ (by omega), Standard.working]

theorem transform_eq (v : HashValue) (block : List Byte) :
    transform v block = compress v block := by
  simp only [transform, working_eq block v (Nat.le_refl 64)]
  rfl

/-! ### Memory -/

variable {bytes : List Byte}

theorem getElem_memcpy {block : Vector Byte blockSize} {o n i : Nat} (hi : i < blockSize) :
    (memcpy block o bytes n)[i] =
      if o ≤ i ∧ i < o + n then bytes.getD (i - o) 0 else block[i] := by
  rw [memcpy, Vector.getElem_ofFn]
  rfl

theorem toList_memcpy (block : Vector Byte blockSize) {o n : Nat} (h : o + n ≤ blockSize)
    (hn : n ≤ bytes.length) :
    (memcpy block o bytes n).toList =
      block.toList.take o ++ (bytes.take n ++ block.toList.drop (o + n)) := by
  have hblock : block.toList.length = blockSize := Vector.length_toList
  have htake : (block.toList.take o).length = o := List.length_take_of_le (by omega)
  have hbytes : (bytes.take n).length = n := List.length_take_of_le hn
  refine List.ext_getElem ?_ fun i hi _ => ?_
  · rw [Vector.length_toList, List.length_append, List.length_append, htake, hbytes,
      List.length_drop]
    omega
  rw [Vector.length_toList] at hi
  rw [Vector.getElem_toList, getElem_memcpy hi]
  by_cases hlow : i < o
  · rw [if_neg (by omega), List.getElem_append_left (by omega), List.getElem_take,
      Vector.getElem_toList]
  rw [List.getElem_append_right (by omega)]
  by_cases hin : i < o + n
  · rw [if_pos (by omega), List.getElem_append_left (by omega), List.getElem_take,
      List.getD_eq_getElem _ _ (by omega)]
    simp only [htake]
  · rw [if_neg (by omega), List.getElem_append_right (by omega), List.getElem_drop,
      Vector.getElem_toList]
    have hindex : o + n + (i - (block.toList.take o).length - (bytes.take n).length) = i := by
      omega
    simp only [hindex]

theorem take_memcpy (block : Vector Byte blockSize) {o n : Nat} (h : o + n ≤ blockSize)
    (hn : n ≤ bytes.length) :
    (memcpy block o bytes n).toList.take (o + n) = block.toList.take o ++ bytes.take n := by
  have hblock : block.toList.length = blockSize := Vector.length_toList
  rw [toList_memcpy block h hn, ← List.append_assoc, List.take_left']
  rw [List.length_append, List.length_take_of_le (by omega), List.length_take_of_le hn]

theorem take_memset (block : Vector Byte blockSize) {o n : Nat} (h : o + n ≤ blockSize) :
    (memset block o n).toList.take (o + n) = block.toList.take o ++ List.replicate n 0 := by
  rw [memset, take_memcpy block h (by rw [List.length_replicate]), List.take_replicate,
    Nat.min_self]

theorem take_blockSize (block : Vector Byte blockSize) :
    block.toList.take blockSize = block.toList :=
  List.take_of_length_le (by rw [Vector.length_toList])

/-! ### Streams -/

/-- The octets that wait for the rest of their block. -/
def Context.pending (context : Context) : List Byte := context.block.toList.take context.blockUsed

theorem length_pending (context : Context) (h : context.blockUsed < blockSize) :
    context.pending.length = context.blockUsed := by
  have hblock : context.block.toList.length = blockSize := Vector.length_toList
  exact List.length_take_of_le (by omega)

/-- The octets taken in are those of the list, after those that wait. -/
def Absorbs (context : Context) (bytes : List Byte) (s : HashValue × List Byte) : Prop :=
  BlockHash.absorb blockSize compress context.state (context.pending ++ bytes) = s

theorem wholeBlocks_eq (state : HashValue) (bytes : List Byte) :
    wholeBlocks state bytes = BlockHash.absorb blockSize compress state bytes := by
  induction state, bytes using wholeBlocks.induct with
  | case1 state bytes h ih =>
    rw [wholeBlocks, dif_pos h, ih, transform_eq, BlockHash.absorb_of_le (by decide) h]
  | case2 state bytes h =>
    rw [wholeBlocks, dif_neg h, BlockHash.absorb_of_lt (Nat.not_le.1 h)]

/-- Nothing is left of the bytes, or nothing waits. -/
theorem carry_cases {context : Context} (hu : context.blockUsed < blockSize) (bytes : List Byte) :
    (context.carry bytes).1.finalized = context.finalized ∧
      (context.carry bytes).1.totalBytes = context.totalBytes ∧
      ((context.carry bytes).1.blockUsed = 0 ∧
          Absorbs context bytes (BlockHash.absorb blockSize compress
            (context.carry bytes).1.state (context.carry bytes).2) ∨
        (context.carry bytes).2 = [] ∧ (context.carry bytes).1.blockUsed < blockSize ∧
          Absorbs context bytes
            ((context.carry bytes).1.state, (context.carry bytes).1.pending)) := by
  have hlength := length_pending context hu
  by_cases hzero : context.blockUsed = 0
  · have hpending : context.pending = [] := List.length_eq_zero_iff.1 (hlength.trans hzero)
    rw [Context.carry, if_neg (not_not.2 hzero), Absorbs, hpending, List.nil_append]
    exact ⟨rfl, rfl, Or.inl ⟨hzero, rfl⟩⟩
  by_cases hlt : bytes.length < blockSize - context.blockUsed
  · have hfill := take_memcpy context.block
      (show context.blockUsed + bytes.length ≤ blockSize by omega) (Nat.le_refl bytes.length)
    simp only [Context.carry, if_pos hzero, if_pos hlt, Context.flush,
      if_neg (show ¬context.blockUsed + bytes.length = blockSize by omega)]
    refine ⟨trivial, trivial, Or.inr ⟨List.drop_length, by omega, ?_⟩⟩
    rw [Absorbs, BlockHash.absorb_of_lt (by rw [List.length_append]; omega), Context.pending,
      Context.pending, hfill, List.take_length]
  · have hfull : context.blockUsed + (blockSize - context.blockUsed) = blockSize := by omega
    have hfill := take_memcpy context.block hfull.le (Nat.not_lt.1 hlt)
    rw [hfull, take_blockSize] at hfill
    simp only [Context.carry, if_pos hzero, if_neg hlt, Context.flush, if_pos hfull]
    refine ⟨trivial, trivial, Or.inl ⟨trivial, ?_⟩⟩
    rw [Absorbs, hfill, transform_eq, ← Context.pending]
    conv_lhs => rw [← List.take_append_drop (blockSize - context.blockUsed) bytes,
      ← List.append_assoc]
    refine BlockHash.absorb_block (by decide) ?_
    rw [List.length_append, List.length_take_of_le (by omega)]
    omega

/-- What `update` does with the bytes. -/
def Context.takeIn (context : Context) (bytes : List Byte) : Context :=
  let (context, bytes) := context.carry bytes
  let (state, bytes) := wholeBlocks context.state bytes
  Context.keep { context with state } bytes

theorem keep_spec (context : Context) (h : bytes.length < blockSize)
    (hempty : bytes = [] ∨ context.blockUsed = 0) (hu : context.blockUsed < blockSize) :
    (context.keep bytes).finalized = context.finalized ∧
      (context.keep bytes).totalBytes = context.totalBytes ∧
      (context.keep bytes).state = context.state ∧ (context.keep bytes).blockUsed < blockSize ∧
      (context.keep bytes).pending = context.pending ++ bytes := by
  by_cases hlen : bytes.length ≠ 0
  · have hu0 : context.blockUsed = 0 :=
      hempty.resolve_left fun hnil => hlen (List.length_eq_zero_iff.2 hnil)
    have hfill := take_memcpy context.block (show 0 + bytes.length ≤ blockSize by omega)
      (Nat.le_refl bytes.length)
    rw [Context.keep, if_pos hlen]
    refine ⟨rfl, rfl, rfl, h, ?_⟩
    rw [Nat.zero_add, List.take_zero, List.nil_append, List.take_length] at hfill
    rw [Context.pending, hfill, Context.pending, hu0, List.take_zero, List.nil_append]
  · have hnil : bytes = [] := List.length_eq_zero_iff.1 (not_not.1 hlen)
    rw [Context.keep, if_neg hlen, hnil, List.append_nil]
    exact ⟨rfl, rfl, rfl, hu, rfl⟩

theorem takeIn_spec (context : Context) (hu : context.blockUsed < blockSize) (bytes : List Byte) :
    (context.takeIn bytes).finalized = context.finalized ∧
      (context.takeIn bytes).totalBytes = context.totalBytes ∧
      (context.takeIn bytes).blockUsed < blockSize ∧
      Absorbs context bytes
        ((context.takeIn bytes).state, (context.takeIn bytes).pending) := by
  obtain ⟨hfinalized, htotal, hcarry⟩ := carry_cases hu bytes
  set carried := context.carry bytes with hcarried
  have htake : context.takeIn bytes = Context.keep
      { carried.1 with state := (wholeBlocks carried.1.state carried.2).1 }
      (wholeBlocks carried.1.state carried.2).2 := rfl
  rw [htake, wholeBlocks_eq]
  obtain ⟨hzero, habsorb⟩ | ⟨hrest, hused, habsorb⟩ := hcarry
  · have hleft : (BlockHash.absorb blockSize compress carried.1.state carried.2).2.length <
        blockSize := by
      rw [BlockHash.length_absorb (by decide)]
      exact Nat.mod_lt _ (by decide)
    obtain ⟨h₁, h₂, h₃, h₄, h₅⟩ := keep_spec
      { carried.1 with state := (BlockHash.absorb blockSize compress carried.1.state carried.2).1 }
      hleft (Or.inr hzero) (by rw [hzero]; decide)
    refine ⟨h₁.trans hfinalized, h₂.trans htotal, h₄, ?_⟩
    rw [h₃, h₅, Context.pending, hzero, List.take_zero, List.nil_append]
    exact habsorb
  · rw [hrest, BlockHash.absorb_of_lt (by decide)]
    obtain ⟨h₁, h₂, h₃, h₄, h₅⟩ := keep_spec carried.1 (show ([] : List Byte).length < 64 by decide)
      (Or.inl rfl) hused
    refine ⟨h₁.trans hfinalized, h₂.trans htotal, h₄, ?_⟩
    rw [h₃, h₅, List.append_nil]
    exact habsorb

/-! ### Updates -/

/-- The bytes are there: `NULL` is given for none only. -/
def Readable (data : Option (List Byte)) (length : Nat) : Prop :=
  (data = none → length = 0) ∧ ∀ bytes, data = some bytes → length ≤ bytes.length

/-- The octets that a call takes in. -/
def octetsOf (data : Option (List Byte)) (length : Nat) : List Byte := (data.getD []).take length

theorem length_octetsOf {data : Option (List Byte)} {length : Nat} (h : Readable data length) :
    (octetsOf data length).length = length := by
  cases data with
  | none => rw [h.1 rfl]; rfl
  | some bytes => exact List.length_take_of_le (h.2 bytes rfl)

/-- The context is that of a message which is not finished yet. -/
structure Represents (context : Context) (message : List Byte) : Prop where
  finalized : context.finalized = false
  totalBytes : context.totalBytes = message.length
  bound : message.length ≤ maxInputBytes
  blockUsed : context.blockUsed < blockSize
  absorbed : BlockHash.absorb blockSize compress Standard.initial message =
    (context.state, context.pending)

theorem represents_init : Represents init [] where
  finalized := rfl
  totalBytes := rfl
  bound := Nat.zero_le _
  blockUsed := by decide
  absorbed := BlockHash.absorb_of_lt (by decide)

variable {context : Context} {message : List Byte} {data : Option (List Byte)} {length : Nat}

/-- How much of a block waits. -/
theorem Represents.blockUsed_eq (h : Represents context message) :
    context.blockUsed = context.totalBytes % 64 := by
  have hleft := BlockHash.length_absorb (f := compress) (show 0 < blockSize by decide)
    Standard.initial message
  rw [h.absorbed, length_pending context h.blockUsed] at hleft
  rw [hleft, h.totalBytes]

theorem update_refused (h : (update context data length).1 = false) :
    (update context data length).2 = context := by
  rw [update] at h ⊢
  split_ifs at h ⊢ <;> rfl

/-- An update that goes past the limit, without its data or after the end is refused. -/
theorem update_refuses (h : (length ≠ 0 ∧ data = none) ∨ context.finalized = true ∨
    maxInputBytes < context.totalBytes + length) : (update context data length).1 = false := by
  rw [update]
  split_ifs with hcheck hlength hroom hzero
  · rfl
  · rfl
  · rfl
  all_goals
    simp only [not_or, not_and, Option.isNone_iff_eq_none] at hcheck
    rcases h with ⟨hne, hnone⟩ | hfinalized | hlimit
    · exact absurd hnone (hcheck.1 hne)
    · exact absurd hfinalized hcheck.2.1
    · omega

theorem update_accepted (h : Represents context message) (hread : Readable data length)
    (hlimit : message.length + length ≤ maxInputBytes) :
    (update context data length).1 = true ∧
      Represents (update context data length).2 (message ++ octetsOf data length) := by
  have hmax : maxInputBytes = 0x1fffffffffffffff := rfl
  have htotal := h.totalBytes
  have hcheck : ¬((length ≠ 0 ∧ data.isNone) ∨ context.finalized ∨
      blockSize ≤ context.blockUsed ∨ maxInputBytes < context.totalBytes) := by
    rintro (⟨hne, hnone⟩ | hfinalized | hused | hbound)
    · exact hne (hread.1 (Option.isNone_iff_eq_none.1 hnone))
    · rw [h.finalized] at hfinalized
      cases hfinalized
    · exact absurd h.blockUsed (Nat.not_lt.2 hused)
    · omega
  by_cases hzero : length = 0
  · have hnone : octetsOf data length = [] := by rw [octetsOf, hzero, List.take_zero]
    rw [update, if_neg hcheck, if_neg (by omega), if_neg (by omega), if_pos hzero, hnone,
      List.append_nil]
    exact ⟨rfl, h⟩
  have hupdate : update context data length = (true,
      Context.takeIn { context with totalBytes := (context.totalBytes + length) % 2 ^ 64 }
        (octetsOf data length)) := by
    rw [update, if_neg hcheck, if_neg (by omega), if_neg (by omega), if_neg hzero]
    rfl
  obtain ⟨h₁, h₂, h₃, h₄⟩ := takeIn_spec
    { context with totalBytes := (context.totalBytes + length) % 2 ^ 64 } h.blockUsed
    (octetsOf data length)
  have hlength : (message ++ octetsOf data length).length = message.length + length := by
    rw [List.length_append, length_octetsOf hread]
  rw [hupdate]
  refine ⟨rfl, h₁.trans h.finalized, ?_, by rw [hlength]; exact hlimit, h₃, ?_⟩
  · rw [h₂, hlength]
    change (context.totalBytes + length) % 2 ^ 64 = _
    omega
  · rw [BlockHash.absorb_append (by decide), h.absorbed]
    exact h₄

/-! ### The end -/

/-- The block in front of the last one, where there is one. -/
theorem spill_cases (context : Context) (hu : context.blockUsed ≤ blockSize) :
    (56 < context.blockUsed ∧ context.spill.blockUsed = 0 ∧ context.spill.state = compress
        context.state (context.pending ++ List.replicate (blockSize - context.blockUsed) 0)) ∨
      context.blockUsed ≤ 56 ∧ context.spill = context := by
  by_cases hroom : 56 < context.blockUsed
  · have hfull : context.blockUsed + (blockSize - context.blockUsed) = blockSize := by omega
    have hfill := take_memset context.block hfull.le
    rw [hfull, take_blockSize] at hfill
    simp only [Context.spill, if_pos hroom]
    refine Or.inl ⟨hroom, trivial, ?_⟩
    rw [hfill, transform_eq, ← Context.pending]
  · exact Or.inr ⟨Nat.not_lt.1 hroom, if_neg hroom⟩

theorem totalBytes_spill (context : Context) : context.spill.totalBytes = context.totalBytes := by
  rw [Context.spill]
  split_ifs <;> simp only

theorem totalBytes_wipe (context : Context) (state : HashValue) :
    (context.mark.spill.wipe state).totalBytes = context.totalBytes := by
  rw [Context.wipe, totalBytes_spill, Context.mark]

/-- The last block. -/
theorem lastBlock_eq (hu : context.blockUsed ≤ 56) (x : BitVec 64) :
    (context.lastBlock x).toList =
      context.pending ++ List.replicate (56 - context.blockUsed) 0 ++ Standard.octets64 x := by
  have hroom : context.blockUsed + (56 - context.blockUsed) = 56 := by omega
  have hzeros := take_memset context.block
    (show context.blockUsed + (56 - context.blockUsed) ≤ blockSize by rw [hroom]; decide)
  have hoctets : (Standard.octets64 x).length = 8 := by
    rw [Standard.octets64, List.length_map, List.length_range]
  have hlength : ((List.range 8).map fun index => (x >>> (56 - index * 8)).setWidth 8) =
      Standard.octets64 x := List.map_congr_left fun _ _ => setWidth_ushiftRight x _
  have hlast := take_memcpy (memset context.block context.blockUsed (56 - context.blockUsed))
    (show 56 + 8 ≤ blockSize by decide) hoctets.ge
  rw [hroom] at hzeros
  rw [hzeros, List.take_of_length_le hoctets.le] at hlast
  rw [Context.lastBlock, hlength]
  exact (take_blockSize _).symm.trans hlast

theorem pending_mark (context : Context) (hu : context.blockUsed < blockSize) :
    context.mark.pending = context.pending ++ [0x80] := by
  rw [Context.pending, Context.mark]
  dsimp only
  rw [take_memcpy context.block hu (Nat.le_refl 1), Context.pending]
  rfl

/-- The blocks of `final` are what waits and the padding. -/
theorem finish_eq {n : Nat} (hu : context.blockUsed = n % 64) :
    compress context.mark.spill.state (context.mark.spill.pending ++
        List.replicate (56 - context.mark.spill.blockUsed) 0 ++
        Standard.octets64 (BitVec.ofNat 64 (8 * n))) =
      (BlockHash.absorb blockSize compress context.state (context.pending ++ padding n)).1 := by
  have hstate : context.mark.state = context.state := by rw [Context.mark]
  have hsize : blockSize = 64 := rfl
  have hmark := pending_mark context (by omega)
  have hn : context.mark.blockUsed = n % 64 + 1 := by rw [Context.mark, hu]
  generalize context.mark = marked at hstate hmark hn ⊢
  have hlength := length_pending context (by omega)
  have hoctets : (Standard.octets64 (BitVec.ofNat 64 (8 * n))).length = 8 := by
    rw [Standard.octets64, List.length_map, List.length_range]
  have hpadding : context.pending ++ padding n = context.pending ++ [0x80] ++
      List.replicate (Standard.zeros n) 0 ++ Standard.octets64 (BitVec.ofNat 64 (8 * n)) := by
    rw [padding, List.append_assoc, List.append_assoc]
    rfl
  have hend : ∀ s b, b.length = blockSize →
      (BlockHash.absorb blockSize compress s b).1 = compress s b := fun s b hb => by
    rw [← List.append_nil b, BlockHash.absorb_block (by decide) hb,
      BlockHash.absorb_of_lt (by decide), List.append_nil]
  rw [hpadding]
  obtain ⟨hroom, hused, hfirst⟩ | ⟨hroom, hsame⟩ := spill_cases marked (by omega)
  · have hzeros : Standard.zeros n = (blockSize - marked.blockUsed) + 56 := by
      rw [Standard.zeros]
      omega
    have hsplit : ∀ o : List Byte, context.pending ++ [0x80] ++
        List.replicate (blockSize - marked.blockUsed + 56) 0 ++ o =
          (context.pending ++ [0x80] ++ List.replicate (blockSize - marked.blockUsed) 0) ++
            (List.replicate 56 0 ++ o) := fun o => by
      rw [List.replicate_add]
      simp only [List.append_assoc]
    have hblock : (context.pending ++ [0x80] ++
        List.replicate (blockSize - marked.blockUsed) (0 : Byte)).length = blockSize := by
      rw [List.length_append, List.length_append, List.length_replicate, hlength,
        List.length_singleton]
      omega
    have hempty : marked.spill.pending = [] := by rw [Context.pending, hused, List.take_zero]
    rw [hzeros, hsplit, BlockHash.absorb_block (by decide) hblock,
      hend _ _ (by rw [List.length_append, List.length_replicate, hoctets]), hfirst, hmark, hstate,
      hempty, hused, List.nil_append]
  · have hzeros : Standard.zeros n = 56 - marked.blockUsed := by
      rw [Standard.zeros]
      omega
    rw [hsame, hmark, hstate, ← hzeros, hend]
    simp only [List.length_append, List.length_replicate, hlength, hoctets, List.length_singleton]
    omega

theorem final_accepted (h : Represents context message) :
    final context true = (some (digest message), context.mark.spill.wipe
      (BlockHash.absorb blockSize compress Standard.initial (pad message)).1) := by
  have hmax : maxInputBytes = 0x1fffffffffffffff := rfl
  have htotal := h.totalBytes
  have hbound := h.bound
  have hcheck : ¬(true = false ∨ context.finalized ∨ blockSize ≤ context.blockUsed ∨
      maxInputBytes < context.totalBytes) := by
    rintro (hfalse | hfinalized | hused | hlimit)
    · cases hfalse
    · rw [h.finalized] at hfinalized
      cases hfinalized
    · exact absurd h.blockUsed (Nat.not_lt.2 hused)
    · omega
  have hused := h.blockUsed_eq
  rw [h.totalBytes] at hused
  have hroom : context.mark.spill.blockUsed ≤ 56 := by
    obtain ⟨-, hzero, -⟩ | ⟨hle, hsame⟩ := spill_cases context.mark h.blockUsed
    · rw [hzero]
      exact Nat.zero_le _
    · rw [hsame]
      exact hle
  have hstate : transform context.mark.spill.state (context.mark.spill.lastBlock
      (BitVec.ofNat 64 (context.totalBytes * 8))).toList =
        (BlockHash.absorb blockSize compress Standard.initial (pad message)).1 := by
    have hwhole := BlockHash.absorb_append (show 0 < blockSize by decide) Standard.initial message
      (padding message.length) (f := compress)
    rw [h.absorbed] at hwhole
    rw [transform_eq, lastBlock_eq hroom, h.totalBytes, Nat.mul_comm, finish_eq hused, pad, hwhole]
  have hwords : storeBe32 = Standard.octets32 := funext storeBe32_eq
  rw [final, if_neg hcheck]
  simp only [hstate, hwords]
  rfl

/-! ### Runs -/

/-- Calls of `update` one after the other: whether all succeed, and the context. -/
def updates (context : Context) : List (Option (List Byte) × Nat) → Bool × Context
  | [] => (true, context)
  | (data, length) :: calls =>
    let (accepted, context) := update context data length
    let (rest, context) := updates context calls
    (accepted && rest, context)

/-- The octets of all calls. -/
def octetsOfAll (calls : List (Option (List Byte) × Nat)) : List Byte :=
  calls.flatMap fun call => octetsOf call.1 call.2

theorem updates_accepted {calls : List (Option (List Byte) × Nat)}
    (h : Represents context message) (hread : ∀ call ∈ calls, Readable call.1 call.2)
    (hlimit : (message ++ octetsOfAll calls).length ≤ maxInputBytes) :
    (updates context calls).1 = true ∧
      Represents (updates context calls).2 (message ++ octetsOfAll calls) := by
  induction calls generalizing context message with
  | nil => exact ⟨rfl, by rw [octetsOfAll, List.flatMap_nil, List.append_nil]; exact h⟩
  | cons call calls ih =>
    have hcall := hread call List.mem_cons_self
    have hall : octetsOfAll (call :: calls) = octetsOf call.1 call.2 ++ octetsOfAll calls :=
      List.flatMap_cons
    rw [hall, ← List.append_assoc] at hlimit ⊢
    have hfirst := hlimit
    rw [List.length_append, List.length_append, length_octetsOf hcall] at hfirst
    obtain ⟨haccepted, hnext⟩ := update_accepted h hcall (by omega)
    obtain ⟨hrest, hlast⟩ := ih hnext (fun c hc => hread c (List.mem_cons_of_mem _ hc)) hlimit
    exact ⟨by rw [updates]; simp only [haccepted, hrest, Bool.and_self], hlast⟩

/-- The contexts that the interface leads to. -/
inductive Reachable : Context → Prop
  | init : Reachable init
  | update {context : Context} (h : Reachable context) (data : Option (List Byte)) (length : Nat)
      (hread : data = none ∨ Readable data length) : Reachable (update context data length).2
  | final {context : Context} (h : Reachable context) (hasDigest : Bool) :
      Reachable (final context hasDigest).2

/-- A context that the interface leads to is that of a message, or it is finished. -/
theorem reachable_cases (h : Reachable context) :
    (∃ message, Represents context message) ∨
      context.finalized = true ∧ context.blockUsed = 0 := by
  induction h with
  | init => exact Or.inl ⟨[], represents_init⟩
  | @update context h data length hread ih =>
    by_cases haccepted : (update context data length).1 = true
    · obtain ⟨message, hmessage⟩ | ⟨hfinalized, -⟩ := ih
      · have hroom : ¬maxInputBytes < context.totalBytes + length := fun hlimit =>
          absurd (update_refuses (Or.inr (Or.inr hlimit))) (by rw [haccepted]; decide)
        have hnull : ¬(length ≠ 0 ∧ data = none) := fun hnone =>
          absurd (update_refuses (Or.inl hnone)) (by rw [haccepted]; decide)
        have hreadable : Readable data length := hread.elim
          (fun hnone => ⟨fun _ => not_not.1 fun hne => hnull ⟨hne, hnone⟩,
            fun bytes hbytes => by rw [hnone] at hbytes; cases hbytes⟩) id
        rw [hmessage.totalBytes] at hroom
        exact Or.inl ⟨_, (update_accepted hmessage hreadable (Nat.not_lt.1 hroom)).2⟩
      · exact absurd (update_refuses (Or.inr (Or.inl hfinalized))) (by rw [haccepted]; decide)
    · rw [update_refused (Bool.not_eq_true _ ▸ haccepted)]
      exact ih
  | @final context h hasDigest ih =>
    by_cases hcheck : hasDigest = false ∨ context.finalized ∨ blockSize ≤ context.blockUsed ∨
        maxInputBytes < context.totalBytes
    · rw [final, if_pos hcheck]
      exact ih
    · rw [final, if_neg hcheck]
      exact Or.inr ⟨rfl, rfl⟩

/-- Every way to feed a message gives its digest; in every context that the interface leads to,
less than a block waits, as much as is left over of the message until it is finished; and an update
without its data, after the end or past the limit is refused and changes nothing. -/
theorem streaming_exact :
    (∀ calls : List (Option (List Byte) × Nat), (∀ call ∈ calls, Readable call.1 call.2) →
        (octetsOfAll calls).length ≤ maxInputBytes →
      (updates init calls).1 = true ∧
        (final (updates init calls).2 true).1 = some (digest (octetsOfAll calls))) ∧
    (∀ context, Reachable context → context.blockUsed < blockSize ∧
      (context.finalized = false → context.blockUsed = context.totalBytes % 64) ∧
      (context.finalized = true → context.blockUsed = 0)) ∧
    (∀ context data length, ((length ≠ 0 ∧ data = none) ∨ context.finalized = true ∨
        maxInputBytes < context.totalBytes + length) → (update context data length).1 = false) ∧
    (∀ context data length, (update context data length).1 = false →
      (update context data length).2 = context) := by
  refine ⟨fun calls hread hlimit => ?_, fun context hreach => ?_,
    fun _ _ _ => update_refuses, fun _ _ _ => update_refused⟩
  · obtain ⟨haccepted, hall⟩ := updates_accepted represents_init hread hlimit
    exact ⟨haccepted, by rw [final_accepted hall, List.nil_append]⟩
  · obtain ⟨message, hmessage⟩ | ⟨hfinalized, hzero⟩ := reachable_cases hreach
    · refine ⟨hmessage.blockUsed, fun _ => hmessage.blockUsed_eq, fun hfinalized => ?_⟩
      rw [hmessage.finalized] at hfinalized
      cases hfinalized
    · refine ⟨by rw [hzero]; decide, fun hnot => ?_, fun _ => hzero⟩
      rw [hfinalized] at hnot
      cases hnot

/-- After the end nothing waits, whatever the length of the message. -/
theorem finished_octet : ∃ context, Reachable context ∧
    context.blockUsed ≠ context.totalBytes % 64 := by
  have hread : Readable (some [0]) 1 := ⟨nofun, fun _ h => by cases h; decide⟩
  have hmessage : Represents (update init (some [0]) 1).2 [0] :=
    (update_accepted represents_init hread (by decide)).2
  refine ⟨_, .final (.update .init (some [0]) 1 (Or.inr hread)) true, ?_⟩
  rw [final_accepted hmessage, totalBytes_wipe, hmessage.totalBytes]
  decide

end S5LBox.Tools.Sha256
