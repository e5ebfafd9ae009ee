import Mathlib.Data.List.GetD
import S5LBox.Firmware.Aes
import S5LBox.Lib.BlockChaining
import S5LBox.Lib.SingleBit

/-!
# The inverse cipher

Each step of the inverse cipher undoes the step of the cipher, whatever the round keys are.

## Main results

* `invSub_sub`, `invShiftRows_shiftRows`, `invMixColumns_mixColumns`: the steps.
* `aesDecryptBlock_aesEncryptBlock`: the cipher on a block.
-/

namespace S5LBox.Firmware.Aes

/-! ### Bytes -/

/-- A table that is filled at distinct places. -/
theorem getD_foldl_set {β : Type} {f : Nat → Nat} {g : Nat → β} {t : List β} {d : β} {n i : Nat}
    (hinj : ∀ i < n, ∀ j < n, f i = f j → i = j) (hlen : ∀ i < n, f i < t.length) (hi : i < n) :
    ((List.range n).foldl (fun t i => t.set (f i) (g i)) t).getD (f i) d = g i := by
  have hlength : ∀ m, ((List.range m).foldl (fun t i => t.set (f i) (g i)) t).length =
      t.length := fun m => by
    induction m with
    | zero => rfl
    | succ m ih => rw [List.range_succ, List.foldl_append, List.foldl_cons, List.foldl_nil,
        List.length_set, ih]
  induction n with
  | zero => exact absurd hi (Nat.not_lt_zero i)
  | succ n ih =>
    rw [List.range_succ, List.foldl_append, List.foldl_cons, List.foldl_nil]
    by_cases hlast : i = n
    · have hplace : f n < (((List.range n).foldl (fun t i => t.set (f i) (g i)) t).set (f n)
          (g n)).length := by
        rw [List.length_set, hlength]
        exact hlen n (by omega)
      rw [hlast, List.getD_eq_getElem _ _ hplace, List.getElem_set_self]
    · have hne : f n ≠ f i := fun h => hlast (hinj n (by omega) i hi h).symm
      have hless : i < n := by omega
      rw [List.getD_eq_getElem?_getD, List.getElem?_set_ne hne, ← List.getD_eq_getElem?_getD]
      exact ih (fun i hi j hj => hinj i (by omega) j (by omega)) (fun i hi => hlen i (by omega))
        hless

theorem sbox_length : sbox.length = 256 := by decide +kernel

/-- A bit for every byte of a list, beside those that are set. -/
def bytesOf (m : Nat) : List Byte → Nat
  | [] => m
  | x :: l => bytesOf (m ||| 2 ^ x.toNat) l

theorem testBit_bytesOf (l : List Byte) (m i : Nat) :
    (bytesOf m l).testBit i = true ↔ m.testBit i = true ∨ ∃ x ∈ l, x.toNat = i := by
  induction l generalizing m with
  | nil => simp [bytesOf]
  | cons x l ih =>
    rw [bytesOf, ih, Nat.testBit_or, Nat.testBit_two_pow, Bool.or_eq_true, decide_eq_true_eq,
      or_assoc, List.exists_mem_cons_iff]

theorem bytesOf_sbox : bytesOf 0 sbox = 2 ^ 256 - 1 := by decide +kernel

/-- Every byte is in the table. -/
theorem sbox_surjective : Function.Surjective
    fun i : Fin 256 => (sub (BitVec.ofNat 8 i)).toFin := by
  intro y
  have hbit : (bytesOf 0 sbox).testBit y = true := by
    rw [bytesOf_sbox, Nat.testBit_two_pow_sub_one, decide_eq_true_eq]
    exact y.isLt
  rw [testBit_bytesOf, Nat.zero_testBit] at hbit
  obtain ⟨x, hx, hxy⟩ := hbit.resolve_left Bool.false_ne_true
  obtain ⟨i, hi, rfl⟩ := List.getElem_of_mem hx
  have hbound : i < 256 := sbox_length ▸ hi
  refine ⟨⟨i, hbound⟩, Fin.ext ?_⟩
  rw [← hxy]
  change (sbox.getD (BitVec.ofNat 8 i).toNat 0).toNat = _
  rw [BitVec.toNat_ofNat, Nat.mod_eq_of_lt hbound, List.getD_eq_getElem]

theorem sub_inj {i j : Nat} (hi : i < 256) (hj : j < 256)
    (h : sub (BitVec.ofNat 8 i) = sub (BitVec.ofNat 8 j)) : i = j := by
  have hinj := Finite.injective_iff_surjective.2 sbox_surjective
  have hfin := @hinj ⟨i, hi⟩ ⟨j, hj⟩ (congrArg BitVec.toFin h)
  exact congrArg Fin.val hfin

theorem invSub_sub (x : Byte) : invSub (sub x) = x := by
  have hx : BitVec.ofNat 8 x.toNat = x := BitVec.ofNat_toNat _ _
  have htable := getD_foldl_set (f := fun i => (sub (BitVec.ofNat 8 i)).toNat)
    (g := fun i => BitVec.ofNat 8 i) (t := List.replicate 256 (0 : Byte)) (d := 0)
    (fun i hi j hj h => sub_inj hi hj (BitVec.eq_of_toNat_eq h))
    (fun i _ => by rw [List.length_replicate]; exact (sub (BitVec.ofNat 8 i)).isLt) x.isLt
  rwa [hx] at htable

theorem ite_xor (m : Byte) (p q : Bool) : (if (p ^^ q) = true then m else 0) =
    (if p = true then m else 0) ^^^ (if q = true then m else 0) := by
  cases p <;> cases q <;> simp

/-- `xtime` is linear. -/
theorem xtime_xor (a b : Byte) : xtime (a ^^^ b) = xtime a ^^^ xtime b := by
  have hbit : ∀ x : Byte, x &&& 0x80 ≠ 0 ↔ x.getLsbD 7 = true := fun x =>
    SingleBit.and_twoPow_ne_zero x (show 7 < 8 by decide)
  rw [xtime, xtime, xtime]
  simp only [hbit, BitVec.getLsbD_xor, BitVec.shiftLeft_xor_distrib, ite_xor]
  ac_rfl

theorem gmul_nine (a : Byte) : gmul a 9 = a ^^^ xtime (xtime (xtime a)) :=
  congrArg (· ^^^ _) BitVec.zero_xor

theorem gmul_eleven (a : Byte) : gmul a 11 = a ^^^ xtime a ^^^ xtime (xtime (xtime a)) :=
  congrArg (· ^^^ _ ^^^ _) BitVec.zero_xor

theorem gmul_thirteen (a : Byte) : gmul a 13 = a ^^^ xtime (xtime a) ^^^ xtime (xtime (xtime a)) :=
  congrArg (· ^^^ _ ^^^ _) BitVec.zero_xor

theorem gmul_fourteen (a : Byte) :
    gmul a 14 = xtime a ^^^ xtime (xtime a) ^^^ xtime (xtime (xtime a)) :=
  congrArg (· ^^^ _ ^^^ _) BitVec.zero_xor

theorem gmulLoop_xor (n : Nat) (x y b r s : Byte) :
    gmulLoop n (x ^^^ y) b (r ^^^ s) = gmulLoop n x b r ^^^ gmulLoop n y b s := by
  induction n generalizing x y b r s with
  | zero => rfl
  | succ n ih =>
    have hstep : (if b &&& 1 ≠ 0 then r ^^^ s ^^^ (x ^^^ y) else r ^^^ s) =
        (if b &&& 1 ≠ 0 then r ^^^ x else r) ^^^ (if b &&& 1 ≠ 0 then s ^^^ y else s) := by
      split_ifs
      · ac_rfl
      · rfl
    rw [gmulLoop, gmulLoop, gmulLoop, xtime_xor, hstep, ih]

theorem gmul_xor (x y b : Byte) : gmul (x ^^^ y) b = gmul x b ^^^ gmul y b :=
  gmulLoop_xor 8 x y b 0 0

theorem xor_cancel (x y : Byte) : x ^^^ (x ^^^ y) = y := by
  rw [← BitVec.xor_assoc, BitVec.xor_self, BitVec.zero_xor]

theorem xor_left_comm (x y z : Byte) : x ^^^ (y ^^^ z) = y ^^^ (x ^^^ z) := by
  ac_rfl

/-- A byte of a column that has been mixed. -/
def mixed (a b c d : Byte) : Byte := a ^^^ (a ^^^ b ^^^ c ^^^ d ^^^ xtime (a ^^^ b))

theorem mixed_eq (a b c d : Byte) : mixed a b c d = xtime a ^^^ (xtime b ^^^ b) ^^^ c ^^^ d := by
  rw [mixed, xtime_xor, BitVec.xor_assoc a, BitVec.xor_assoc a, BitVec.xor_assoc a, xor_cancel]
  ac_rfl

theorem unmixed_first (a : Byte) :
    gmul (xtime a) 14 ^^^ gmul a 11 ^^^ gmul a 13 ^^^ gmul (xtime a ^^^ a) 9 = a := by
  simp only [gmul_nine, gmul_eleven, gmul_thirteen, gmul_fourteen, xtime_xor, BitVec.xor_assoc,
    BitVec.xor_comm, xor_left_comm, xor_cancel, BitVec.xor_self, BitVec.xor_zero, BitVec.zero_xor]

theorem unmixed_second (b : Byte) :
    gmul (xtime b ^^^ b) 14 ^^^ gmul (xtime b) 11 ^^^ gmul b 13 ^^^ gmul b 9 = 0#8 := by
  simp only [gmul_nine, gmul_eleven, gmul_thirteen, gmul_fourteen, xtime_xor, BitVec.xor_assoc,
    BitVec.xor_comm, xor_left_comm, xor_cancel, BitVec.xor_self, BitVec.zero_xor]

theorem unmixed_third (c : Byte) :
    gmul c 14 ^^^ gmul (xtime c ^^^ c) 11 ^^^ gmul (xtime c) 13 ^^^ gmul c 9 = 0#8 := by
  simp only [gmul_nine, gmul_eleven, gmul_thirteen, gmul_fourteen, xtime_xor, BitVec.xor_assoc,
    BitVec.xor_comm, xor_left_comm, xor_cancel, BitVec.xor_self, BitVec.zero_xor]

theorem unmixed_fourth (d : Byte) :
    gmul d 14 ^^^ gmul d 11 ^^^ gmul (xtime d ^^^ d) 13 ^^^ gmul (xtime d) 9 = 0#8 := by
  simp only [gmul_nine, gmul_eleven, gmul_thirteen, gmul_fourteen, xtime_xor, BitVec.xor_assoc,
    BitVec.xor_comm, xor_left_comm, xor_cancel, BitVec.xor_self, BitVec.zero_xor]

/-- Mixing a column back. -/
theorem unmixed (a b c d : Byte) :
    gmul (mixed a b c d) 14 ^^^ gmul (mixed b c d a) 11 ^^^ gmul (mixed c d a b) 13 ^^^
      gmul (mixed d a b c) 9 = a := by
  have hgroup : gmul (mixed a b c d) 14 ^^^ gmul (mixed b c d a) 11 ^^^ gmul (mixed c d a b) 13 ^^^
      gmul (mixed d a b c) 9 =
        (gmul (xtime a) 14 ^^^ gmul a 11 ^^^ gmul a 13 ^^^ gmul (xtime a ^^^ a) 9) ^^^
        (gmul (xtime b ^^^ b) 14 ^^^ gmul (xtime b) 11 ^^^ gmul b 13 ^^^ gmul b 9) ^^^
        (gmul c 14 ^^^ gmul (xtime c ^^^ c) 11 ^^^ gmul (xtime c) 13 ^^^ gmul c 9) ^^^
        (gmul d 14 ^^^ gmul d 11 ^^^ gmul (xtime d ^^^ d) 13 ^^^ gmul (xtime d) 9) := by
    rw [mixed_eq, mixed_eq, mixed_eq, mixed_eq]
    simp only [gmul_xor]
    ac_rfl
  rw [hgroup, unmixed_first, unmixed_second, unmixed_third, unmixed_fourth, BitVec.xor_zero,
    BitVec.xor_zero, BitVec.xor_zero]

/-! ### Blocks -/

theorem cell_ofFn (f : Fin aesBlockSize → Byte) {c r : Nat} (hc : c < 4) (hr : r < 4) :
    cell (Vector.ofFn f) c r = f ⟨4 * c + r, show 4 * c + r < 16 by omega⟩ := by
  have hlength : 4 * c + r < (Vector.ofFn f).toList.length := by
    rw [Vector.length_toList]
    exact show 4 * c + r < 16 by omega
  rw [cell, List.getD_eq_getElem _ _ hlength, Vector.getElem_toList, Vector.getElem_ofFn]

theorem cell_get (s : Block) (i : Fin aesBlockSize) : cell s (i / 4) (i % 4) = s.get i := by
  have hi : 4 * (i.val / 4) + i.val % 4 = i.val := Nat.div_add_mod i.val 4
  rw [cell, hi, List.getD_eq_getElem _ _ (by rw [Vector.length_toList]; exact i.isLt),
    Vector.getElem_toList]
  rfl

theorem block_ext {s t : Block} (h : ∀ i : Fin aesBlockSize, s.get i = t.get i) : s = t :=
  Vector.ext fun i hi => h ⟨i, hi⟩

theorem get_ofFn (f : Fin aesBlockSize → Byte) (i : Fin aesBlockSize) :
    (Vector.ofFn f).get i = f i :=
  Vector.getElem_ofFn i.isLt

theorem invShiftRows_shiftRows (s : Block) : invShiftRows (shiftRows s) = s := by
  refine block_ext fun i => ?_
  have hi : i.val < 16 := i.isLt
  have hcolumn : (4 * ((i.val / 4 + (4 - i.val % 4)) % 4) + i.val % 4) / 4 =
      (i.val / 4 + (4 - i.val % 4)) % 4 := by omega
  have hrow : (4 * ((i.val / 4 + (4 - i.val % 4)) % 4) + i.val % 4) % 4 = i.val % 4 := by omega
  have hback : ((i.val / 4 + (4 - i.val % 4)) % 4 + i.val % 4) % 4 = i.val / 4 := by omega
  rw [invShiftRows, get_ofFn, shiftRows, cell_ofFn _ (by omega) (by omega)]
  dsimp only
  rw [hcolumn, hrow, hback, cell_get]

theorem addRoundKey_addRoundKey (rk : List Word) (o : Nat) (s : Block) :
    addRoundKey rk o (addRoundKey rk o s) = s := by
  refine block_ext fun i => ?_
  rw [addRoundKey, get_ofFn, addRoundKey, get_ofFn, BitVec.xor_assoc, BitVec.xor_self,
    BitVec.xor_zero]

theorem invSubBytes_subBytes (s : Block) : invSubBytes (subBytes s) = s := by
  refine block_ext fun i => ?_
  change ((s.map sub).map invSub)[i.val] = s[i.val]
  rw [Vector.getElem_map, Vector.getElem_map, invSub_sub]

theorem cell_mixColumns (s : Block) {c r : Nat} (hc : c < 4) (hr : r < 4) :
    cell (mixColumns s) c r =
      mixed (cell s c r) (cell s c ((r + 1) % 4)) (cell s c ((r + 2) % 4))
        (cell s c ((r + 3) % 4)) := by
  have hcolumn : (4 * c + r) / 4 = c := by omega
  have hrow : (4 * c + r) % 4 = r := by omega
  rw [mixColumns, cell_ofFn _ hc hr]
  dsimp only
  rw [hcolumn, hrow, mixed]
  have hcases : r = 0 ∨ r = 1 ∨ r = 2 ∨ r = 3 := by omega
  obtain rfl | rfl | rfl | rfl := hcases
  · rfl
  all_goals
    dsimp only [Nat.reduceAdd, Nat.reduceMod]
    ac_rfl

theorem invMixColumns_mixColumns (s : Block) : invMixColumns (mixColumns s) = s := by
  refine block_ext fun i => ?_
  have hc : i.val / 4 < 4 := Nat.div_lt_of_lt_mul i.isLt
  have hr : i.val % 4 < 4 := Nat.mod_lt _ (by decide)
  have hrow (k : Nat) : (i.val % 4 + k) % 4 < 4 := Nat.mod_lt _ (by decide)
  have hself : i.val % 4 % 4 = i.val % 4 := Nat.mod_eq_of_lt hr
  have h4 : (i.val + 4) % 4 = i.val % 4 := by omega
  have h5 : (i.val + 5) % 4 = (i.val + 1) % 4 := by omega
  have h6 : (i.val + 6) % 4 = (i.val + 2) % 4 := by omega
  rw [invMixColumns, get_ofFn]
  dsimp only
  rw [cell_mixColumns s hc hr, cell_mixColumns s hc (hrow 1), cell_mixColumns s hc (hrow 2),
    cell_mixColumns s hc (hrow 3)]
  simp only [Nat.mod_add_mod, Nat.add_assoc, Nat.reduceAdd, h4, h5, h6]
  rw [unmixed, cell_get]

/-! ### The cipher -/

/-- The rounds of the inverse cipher undo those of the cipher. -/
theorem rounds_undone (rk : List Word) (n : Nat) (s : Block) :
    (List.range' 1 n).reverse.foldl
        (fun s r => invMixColumns (addRoundKey rk (4 * r) (invSubBytes (invShiftRows s))))
        (shiftRows (subBytes ((List.range' 1 n).foldl
          (fun s r => addRoundKey rk (4 * r) (mixColumns (shiftRows (subBytes s)))) s))) =
      shiftRows (subBytes s) := by
  induction n with
  | zero => rfl
  | succ n ih =>
    rw [List.range'_concat, List.reverse_append, List.foldl_append, List.reverse_singleton,
      List.foldl_append, List.foldl_cons, List.foldl_nil, List.foldl_cons, List.foldl_nil,
      invShiftRows_shiftRows, invSubBytes_subBytes, addRoundKey_addRoundKey,
      invMixColumns_mixColumns, ih]

theorem aesDecryptBlock_aesEncryptBlock (ctx : Ctx) (b : Block) :
    aesDecryptBlock ctx (aesEncryptBlock ctx b) = b := by
  rw [aesDecryptBlock, aesEncryptBlock, addRoundKey_addRoundKey, rounds_undone,
    invShiftRows_shiftRows, invSubBytes_subBytes, addRoundKey_addRoundKey]

theorem toList_blockOf {bytes : List Byte} (h : bytes.length = 16) :
    (blockOf bytes).toList = bytes := by
  refine List.ext_getElem ?_ fun i hi hi' => ?_
  · rw [Vector.length_toList, h]
  · rw [Vector.getElem_toList]
    exact (Vector.getElem_ofFn _).trans (List.getD_eq_getElem _ _ hi')

theorem blockOf_toList (b : Block) : blockOf b.toList = b := by
  refine block_ext fun i => (get_ofFn _ i).trans ?_
  have hlength : i.val < b.toList.length := by
    rw [Vector.length_toList]
    exact i.isLt
  rw [List.getD_eq_getElem _ _ hlength, Vector.getElem_toList]
  rfl

/-- The cipher on the bytes of a block. -/
def encipher (ctx : Ctx) (bytes : List Byte) : List Byte :=
  (aesEncryptBlock ctx (blockOf bytes)).toList

/-- The inverse cipher on the bytes of a block. -/
def decipher (ctx : Ctx) (bytes : List Byte) : List Byte :=
  (aesDecryptBlock ctx (blockOf bytes)).toList

theorem length_decipher (ctx : Ctx) (bytes : List Byte) : (decipher ctx bytes).length = 16 :=
  Vector.length_toList

theorem decipher_encipher (ctx : Ctx) {bytes : List Byte} (h : bytes.length = 16) :
    decipher ctx (encipher ctx bytes) = bytes := by
  rw [decipher, encipher, blockOf_toList, aesDecryptBlock_aesEncryptBlock, toList_blockOf h]

/-- The CBC encryption of a list of bytes: what is left over behind the blocks is copied. -/
def cbcEncryption (ctx : Ctx) (iv bytes : List Byte) : List Byte :=
  BlockChaining.encryptChain 16 (· ^^^ ·) (encipher ctx) iv bytes

/-- The CBC decryption of a list of bytes: what is left over behind the blocks is copied. -/
def cbcDecryption (ctx : Ctx) (iv bytes : List Byte) : List Byte :=
  BlockChaining.decryptChain 16 (· ^^^ ·) (decipher ctx) iv bytes

theorem cbcDecryption_cbcEncryption (ctx : Ctx) {iv : List Byte} (hiv : iv.length = 16)
    (bytes : List Byte) : cbcDecryption ctx iv (cbcEncryption ctx iv bytes) = bytes :=
  BlockChaining.decryptChain_encryptChain (fun _ h => decipher_encipher ctx h)
    (fun _ _ => Vector.length_toList) (fun a b => by rw [BitVec.xor_assoc, BitVec.xor_self,
      BitVec.xor_zero]) hiv bytes

end S5LBox.Firmware.Aes
