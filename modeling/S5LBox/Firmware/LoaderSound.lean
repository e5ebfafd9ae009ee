import S5LBox.Firmware.AesInverse
import S5LBox.Firmware.Img3Containers
import S5LBox.Firmware.Loader

/-!
# What the loader puts in memory

What is loaded is the payload of the last `DATA` tag, as it is where no tag says that it is
encrypted, and decrypted otherwise; or the RAM is left as it was.

## Main definitions

* `Loads`: a payload has been loaded.

## Main results

* `payload_takeTags`, `kbag_takeTags`: what the parser finds.
* `cbcLoop_eq`, `img3DecryptDataIv_eq`: what is written is the decryption.
* `fwLoadImg3Common_outcome`, `img3_loading`, `encrypted_loading`.
-/

namespace S5LBox.Firmware.Loader

open Img3 (Image Kbag Tag Container img3Parse takeTag takeTags takeVers parseKbag lastData HasKbag
  img3TagData img3TagKbag img3TagHeader img3HeaderSize)
open Aes (Ctx aesInit cbcLoop cbcDecryption decipher)

/-! ### What the parser finds -/

variable {buf : List Byte} {out : Image}

theorem takeVers_eq (d : List Byte) (n : Nat) (out : Image) :
    ∃ vers, takeVers d n out = { out with vers } := by
  rw [takeVers]
  dsimp only
  split_ifs
  · exact ⟨_, rfl⟩
  · exact ⟨_, rfl⟩
  · exact ⟨out.vers, rfl⟩
  · exact ⟨out.vers, rfl⟩

theorem data_takeTag (magic d n : Nat) : (takeTag buf magic d n out).data =
    if magic = img3TagData then some d else out.data := by
  obtain ⟨vers, hvers⟩ := takeVers_eq (buf.drop d) n out
  rw [takeTag, hvers]
  split_ifs <;> rfl

theorem dataLen_takeTag (magic d n : Nat) : (takeTag buf magic d n out).dataLen =
    if magic = img3TagData then n else out.dataLen := by
  obtain ⟨vers, hvers⟩ := takeVers_eq (buf.drop d) n out
  rw [takeTag, hvers]
  split_ifs <;> rfl

theorem kbag_takeTag (magic d n : Nat) : (takeTag buf magic d n out).kbag =
    if magic = img3TagKbag ∧ out.kbag.present = false then parseKbag (buf.drop d) n out.kbag
    else out.kbag := by
  obtain ⟨vers, hvers⟩ := takeVers_eq (buf.drop d) n out
  by_cases hkbag : magic = img3TagKbag
  · have hdata : magic ≠ img3TagData := by
      rw [hkbag]
      decide
    rw [takeTag, if_neg hdata, if_pos hkbag]
    by_cases hpresent : out.kbag.present = false
    · rw [if_pos hpresent, if_pos ⟨hkbag, hpresent⟩]
    · rw [if_neg hpresent, if_neg fun h => hpresent h.2]
  · have hnot : ¬(magic = img3TagKbag ∧ out.kbag.present = false) := fun h => hkbag h.1
    rw [if_neg hnot, takeTag, hvers, if_neg hkbag]
    split_ifs <;> rfl

/-- A key bag is understood or malformed. -/
theorem parseKbag_cases (d : List Byte) (n : Nat) {k : Kbag} (h : k.present = false) :
    ((parseKbag d n k).present = true ∧ (parseKbag d n k).malformed = false) ∨
      (parseKbag d n k).present = false ∧ (parseKbag d n k).malformed = true := by
  rw [parseKbag]
  dsimp only
  split_ifs
  · exact Or.inr ⟨h, rfl⟩
  · exact Or.inr ⟨h, rfl⟩
  · exact Or.inr ⟨h, rfl⟩
  · exact Or.inl ⟨rfl, rfl⟩

variable {ts : List Tag}

/-- The payload of the last `DATA` tag. -/
theorem payload_takeTags {off : Nat} {rest : List Byte}
    (h : buf.drop off = ts.flatMap Tag.encode ++ rest) :
    (takeTags buf off ts out).payload buf = (lastData ts).or (out.payload buf) := by
  induction ts generalizing off out with
  | nil => rfl
  | cons t ts ih =>
    rw [List.flatMap_cons, List.append_assoc] at h
    have hnext : buf.drop (off + t.size) = ts.flatMap Tag.encode ++ rest := by
      rw [← List.drop_drop, h, List.drop_left' t.length_encode]
    have hdata : (buf.drop (off + img3TagHeader)).take t.data.length = t.data := by
      rw [← List.drop_drop, h, Tag.drop_header, List.take_left]
    rw [takeTags, ih hnext, lastData, Option.or_assoc]
    refine congrArg _ ?_
    rw [Image.payload, data_takeTag, dataLen_takeTag]
    split_ifs
    · rw [Option.map_some, hdata]
      rfl
    · rfl

/-- The length of the payload is the one that the parser tells. -/
theorem length_payload {off : Nat} {rest p : List Byte}
    (h : buf.drop off = ts.flatMap Tag.encode ++ rest)
    (hout : ∀ p, out.payload buf = some p → p.length = out.dataLen)
    (hp : (takeTags buf off ts out).payload buf = some p) :
    p.length = (takeTags buf off ts out).dataLen := by
  induction ts generalizing off out with
  | nil => exact hout p hp
  | cons t ts ih =>
    rw [List.flatMap_cons, List.append_assoc] at h
    have hnext : buf.drop (off + t.size) = ts.flatMap Tag.encode ++ rest := by
      rw [← List.drop_drop, h, List.drop_left' t.length_encode]
    have hdata : (buf.drop (off + img3TagHeader)).take t.data.length = t.data := by
      rw [← List.drop_drop, h, Tag.drop_header, List.take_left]
    refine ih hnext (fun q hq => ?_) hp
    rw [Image.payload, data_takeTag, dataLen_takeTag] at hq
    rw [dataLen_takeTag]
    split_ifs at hq ⊢
    · rw [Option.map_some, hdata] at hq
      rw [Option.some.inj hq]
    · exact hout q hq

/-- A key bag is left alone once it is understood. -/
theorem kbag_takeTags_present {off : Nat} (h : out.kbag.present = true) :
    (takeTags buf off ts out).kbag = out.kbag := by
  induction ts generalizing off out with
  | nil => rfl
  | cons t ts ih =>
    have hsame : (takeTag buf t.magic (off + img3TagHeader) t.data.length out).kbag = out.kbag := by
      rw [kbag_takeTag, if_neg fun hk => by rw [h] at hk; cases hk.2]
    rw [takeTags, ih (by rw [hsame]; exact h), hsame]

theorem kbag_takeTags_none {off : Nat} (h : ¬HasKbag ts) :
    (takeTags buf off ts out).kbag = out.kbag := by
  induction ts generalizing off out with
  | nil => rfl
  | cons t ts ih =>
    have ht : t.magic ≠ img3TagKbag := fun hm => h ⟨t, List.mem_cons_self, hm⟩
    rw [takeTags, ih fun hk => h (hk.imp fun _ => .imp_left (List.mem_cons_of_mem _)),
      kbag_takeTag, if_neg fun hk => ht hk.1]

/-- Of the key bags of a container one is understood, or there is a malformed one. -/
theorem kbag_takeTags {off : Nat} (h : HasKbag ts ∨ out.kbag.malformed = true)
    (hout : out.kbag.present = false) :
    ((takeTags buf off ts out).kbag.present = true ∧
        (takeTags buf off ts out).kbag.malformed = false) ∨
      (takeTags buf off ts out).kbag.malformed = true := by
  induction ts generalizing off out with
  | nil =>
    obtain ⟨t, ht, -⟩ | h := h
    · cases ht
    · exact Or.inr h
  | cons t ts ih =>
    rw [takeTags]
    by_cases hm : t.magic = img3TagKbag
    · have hkbag : (takeTag buf t.magic (off + img3TagHeader) t.data.length out).kbag =
          parseKbag (buf.drop (off + img3TagHeader)) t.data.length out.kbag := by
        rw [kbag_takeTag, if_pos ⟨hm, hout⟩]
      obtain ⟨hp, hf⟩ | ⟨hp, hf⟩ :=
        parseKbag_cases (buf.drop (off + img3TagHeader)) t.data.length hout
      · rw [← hkbag] at hp hf
        rw [kbag_takeTags_present hp]
        exact Or.inl ⟨hp, hf⟩
      · rw [← hkbag] at hp hf
        exact ih (Or.inr hf) hp
    · have hkbag : (takeTag buf t.magic (off + img3TagHeader) t.data.length out).kbag =
          out.kbag := by
        rw [kbag_takeTag, if_neg fun hk => hm hk.1]
      refine ih ?_ (by rw [hkbag]; exact hout)
      rw [hkbag]
      refine h.imp_left fun hk => ?_
      obtain ⟨t', ht', hm'⟩ := hk
      obtain rfl | ht' := List.mem_cons.1 ht'
      · exact absurd hm' hm
      · exact ⟨t', ht', hm'⟩

/-! ### Decryption -/

/-- The loop writes the decrypted blocks. -/
theorem cbcLoop_eq (ctx : Ctx) (input : List Byte) (o count off : Nat) {prev ram : List Byte}
    (hprev : prev.length = 16) (hinput : off + 16 * count ≤ input.length)
    (hram : o + off + 16 * count ≤ ram.length) :
    cbcLoop ctx input o count off prev ram =
      Pieces.overwrite ram (o + off)
        (cbcDecryption ctx prev ((input.drop off).take (16 * count))) := by
  induction count generalizing off prev ram with
  | zero =>
    rw [cbcLoop, Nat.mul_zero, List.take_zero, cbcDecryption, BlockChaining.decryptChain_of_lt
      (by decide), Pieces.overwrite_nil]
  | succ count ih =>
    have hblock : ((input.drop off).take 16).length = 16 := by
      rw [List.length_take_of_le]
      rw [List.length_drop]
      omega
    have hrest : ((input.drop (off + 16)).take (16 * count)).length = 16 * count := by
      rw [List.length_take_of_le]
      rw [List.length_drop]
      omega
    have hsplit : (input.drop off).take (16 * (count + 1)) =
        (input.drop off).take 16 ++ (input.drop (off + 16)).take (16 * count) := by
      rw [Nat.mul_succ, Nat.add_comm, List.take_add, List.drop_drop]
    generalize hcipher : (input.drop off).take 16 = cipher at hblock hsplit
    generalize hplain : List.zipWith (· ^^^ ·) (decipher ctx cipher) prev = plain
    generalize hlater : (input.drop (off + 16)).take (16 * count) = later at hrest hsplit
    have hlength : plain.length = 16 := by
      rw [← hplain, List.length_zipWith, Aes.length_decipher, hprev, Nat.min_self]
    have hchain : (cbcDecryption ctx cipher later).length = 16 * count := by
      rw [cbcDecryption, BlockChaining.length_decryptChain (fun _ _ => Aes.length_decipher ctx _)
        hblock, hrest]
    have hstep : cbcLoop ctx input o (count + 1) off prev ram =
        cbcLoop ctx input o count (off + 16) cipher (Pieces.overwrite ram (o + off) plain) := by
      rw [cbcLoop, ← hplain, ← hcipher]
      rfl
    have hnext : o + (off + 16) = o + off + plain.length := by omega
    have hram' : (Pieces.overwrite ram (o + off) plain).length = ram.length :=
      Pieces.length_overwrite (by omega)
    rw [hstep, ih (off + 16) hblock (by omega) (by omega), hlater, hnext,
      Pieces.overwrite_append (by omega), hsplit, cbcDecryption, cbcDecryption,
      BlockChaining.decryptChain_block (by decide) hblock, ← hplain]

/-- What is written is the decryption of the payload. -/
theorem img3DecryptDataIv_eq {img : Image} {data keyBits o : Nat} {key payload ram : List Byte}
    {iv : Aes.Block} {ctx : Ctx} (hdata : img.data = some data) (hpresent : img.kbag.present = true)
    (hmalformed : img.kbag.malformed = false) (hbits : keyBits = img.kbag.keyBits)
    (hctx : aesInit key keyBits = some ctx) (hpayload : (buf.drop data).take img.dataLen = payload)
    (hlength : payload.length = img.dataLen) (hroom : o + img.dataLen ≤ ram.length) :
    img3DecryptDataIv buf img (some key) keyBits (some iv) ram o (ram.length - o) =
      (some img.dataLen, Pieces.overwrite ram o (cbcDecryption ctx iv.toList payload)) := by
  have hiv : iv.toList.length = 16 := Vector.length_toList
  have hbuf : img.dataLen ≤ (buf.drop data).length := by
    rw [← hlength, ← hpayload]
    exact List.length_take_le' ..
  have hwhole : img.dataLen - img.dataLen % 16 = 16 * (img.dataLen / 16) := by omega
  have htail : img.dataLen - 16 * (img.dataLen / 16) = img.dataLen % 16 := by omega
  have hsplit : payload = (buf.drop data).take (16 * (img.dataLen / 16)) ++
      (buf.drop (data + 16 * (img.dataLen / 16))).take (img.dataLen % 16) := by
    rw [← hpayload, ← List.drop_drop, ← List.take_add, Nat.div_add_mod]
  have hfront : ((buf.drop data).take (16 * (img.dataLen / 16))).length =
      16 * (img.dataLen / 16) := List.length_take_of_le (by omega)
  have hback : ((buf.drop (data + 16 * (img.dataLen / 16))).take (img.dataLen % 16)).length =
      img.dataLen % 16 := by
    rw [List.length_take_of_le]
    rw [← List.drop_drop, List.length_drop]
    omega
  generalize hA : (buf.drop data).take (16 * (img.dataLen / 16)) = A at hsplit hfront
  generalize hB : (buf.drop (data + 16 * (img.dataLen / 16))).take (img.dataLen % 16) = B
    at hsplit hback
  have hchain : (cbcDecryption ctx iv.toList A).length = 16 * (img.dataLen / 16) := by
    rw [cbcDecryption, BlockChaining.length_decryptChain (fun _ _ => Aes.length_decipher ctx _)
      hiv, hfront]
  -- The blocks are written, if there are any, and then what is left over, if there is something.
  have hblocks : (if 16 * (img.dataLen / 16) ≠ 0 then
      Aes.aesCbcDecrypt ctx iv (buf.drop data) ram o (16 * (img.dataLen / 16)) else (true, ram)) =
        (true, Pieces.overwrite ram o (cbcDecryption ctx iv.toList A)) := by
    split_ifs with hsome
    · have hloop := cbcLoop_eq ctx (buf.drop data) o (img.dataLen / 16) 0 hiv
        (show 0 + 16 * (img.dataLen / 16) ≤ (buf.drop data).length by omega)
        (show o + 0 + 16 * (img.dataLen / 16) ≤ ram.length by omega)
      rw [Aes.aesCbcDecrypt, if_neg (by rw [Nat.mul_mod_right]; decide),
        Nat.mul_div_cancel_left _ (by decide), hloop, List.drop_zero, hA, Nat.add_zero]
    · obtain rfl : A = [] := List.length_eq_zero_iff.1 (by omega)
      rw [cbcDecryption, BlockChaining.decryptChain_of_lt (by decide), Pieces.overwrite_nil]
  have hend : ∀ out : List Byte, (if img.dataLen % 16 ≠ 0 then
      Pieces.overwrite out (o + 16 * (img.dataLen / 16)) B else out) =
        Pieces.overwrite out (o + (cbcDecryption ctx iv.toList A).length) B := by
    intro out
    rw [hchain]
    split_ifs with hsome
    · rfl
    · obtain rfl : B = [] := List.length_eq_zero_iff.1 (by omega)
      rw [Pieces.overwrite_nil]
  have hcheck : ¬(img.kbag.present = false ∨ img.kbag.malformed = true ∨
      keyBits ≠ img.kbag.keyBits ∨ ram.length - o < img.dataLen) := by
    rw [hpresent, hmalformed]
    rintro (h | h | h | h)
    · cases h
    · cases h
    · exact h hbits
    · omega
  rw [img3DecryptDataIv.eq_1 _ _ _ _ _ _ data _ _ hdata, if_neg hcheck, hctx]
  dsimp only
  rw [hwhole, htail, hblocks]
  dsimp only
  rw [if_neg (by decide), hB, hend, Pieces.overwrite_append (by omega), hsplit, cbcDecryption,
    cbcDecryption, BlockChaining.decryptChain_append (by decide) hfront (by omega)]

/-! ### Loading -/

/-- A payload has been loaded: the RAM has changed where it was to go, and holds it there, decrypted
if the container says that it is encrypted. -/
structure Loads (ram : List Byte) (ramBase : Nat) (buf : List Byte) (key : Option (List Byte))
    (keyBits : Nat) (iv : Option Aes.Block) (loadAddr : Nat) (ram' : List Byte) (info : LoadedImage)
    (c : Container) (payload bytes : List Byte) : Prop where
  container : c.encode <+: buf
  last : lastData c.tags = some payload
  nonempty : payload ≠ []
  low : ramBase ≤ loadAddr
  high : loadAddr - ramBase + payload.length ≤ ram.length
  length : bytes.length = payload.length
  stored : ram' = Pieces.overwrite ram (loadAddr - ramBase) bytes
  plain : ¬HasKbag c.tags → bytes = payload
  encrypted : HasKbag c.tags → ∃ k ctx i, key = some k ∧ aesInit k keyBits = some ctx ∧
    iv = some i ∧ bytes = cbcDecryption ctx i.toList payload
  size : info.size = payload.length
  address : info.loadAddr = loadAddr
  wasEncrypted : info.wasEncrypted = true ↔ HasKbag c.tags

/-- What loading comes to: an error that leaves the machine alone, or the payload in its RAM. -/
def Outcome (m : Option Machine) (buf key : Option (List Byte)) (keyBits : Nat) (iv : Option Aes.Block)
    (loadAddr : Nat) (r : Status × Option Machine × Option LoadedImage) : Prop :=
  (r.1 ≠ .ok ∧ r.2 = (m, none)) ∨
    ∃ ram ramBase b ram' info c payload bytes, m = some ⟨some ram, ramBase⟩ ∧ buf = some b ∧
      r = (.ok, some ⟨some ram', ramBase⟩, some info) ∧
      Loads ram ramBase b key keyBits iv loadAddr ram' info c payload bytes

/-- The payload is placed, decrypted if there is a key bag, or the RAM is left alone. -/
theorem place_outcome (key : Option (List Byte)) (keyBits : Nat) (iv : Option Aes.Block) {img : Image}
    {data off : Nat} {payload ram : List Byte} {ts : List Tag} (hdata : img.data = some data)
    (hpayload : (buf.drop data).take img.dataLen = payload)
    (hlength : payload.length = img.dataLen) (hroom : off + img.dataLen ≤ ram.length)
    (hnone : ¬HasKbag ts → img.kbag = {})
    (hsome : HasKbag ts → (img.kbag.present = true ∧ img.kbag.malformed = false) ∨
      img.kbag.malformed = true) :
    (∃ st, st ≠ .ok ∧ place buf img data key keyBits iv ram off = (st, ram)) ∨
      ∃ bytes, place buf img data key keyBits iv ram off =
          (.ok, Pieces.overwrite ram off bytes) ∧ bytes.length = payload.length ∧
        (¬HasKbag ts → bytes = payload) ∧
        (HasKbag ts → ∃ k ctx i, key = some k ∧ aesInit k keyBits = some ctx ∧ iv = some i ∧
          bytes = cbcDecryption ctx i.toList payload) ∧
        (img.kbag.present = true ↔ HasKbag ts) := by
  by_cases hmalformed : img.kbag.malformed = true
  · exact Or.inl ⟨.errDecrypt, by decide, if_pos hmalformed⟩
  by_cases hpresent : img.kbag.present = true
  · have hkbag : HasKbag ts := not_not.1 fun h => by
      rw [hnone h] at hpresent
      cases hpresent
    cases key with
    | none =>
      refine Or.inl ⟨.errKeyRequired, by decide, ?_⟩
      rw [place, if_neg hmalformed, if_pos hpresent]
      rfl
    | some k =>
      cases iv with
      | none =>
        refine Or.inl ⟨.errIvRequired, by decide, ?_⟩
        rw [place, if_neg hmalformed, if_pos hpresent]
        rfl
      | some i =>
        have hplace : ∀ r, img3DecryptDataIv buf img (some k) keyBits (some i) ram off
              (ram.length - off) = r →
            place buf img data (some k) keyBits (some i) ram off =
              (if r.1 = some img.dataLen then .ok else .errDecrypt, r.2) := by
          rintro ⟨_ | written, ram'⟩ hr
          all_goals
            rw [place, if_neg hmalformed, if_pos hpresent]
            simp only [Option.isNone_some, Bool.false_eq_true, if_false, hr]
          · rfl
          · simp only [Option.some.injEq, ne_eq, ite_not]
            split_ifs <;> rfl
        by_cases hbits : keyBits = img.kbag.keyBits
        · cases hctx : aesInit k keyBits with
          | none =>
            refine Or.inl ⟨.errDecrypt, by decide, ?_⟩
            have hfail : img3DecryptDataIv buf img (some k) keyBits (some i) ram off
                (ram.length - off) = (none, ram) := by
              rw [img3DecryptDataIv.eq_1 _ _ _ _ _ _ data _ _ hdata, hctx]
              exact ite_self _
            exact hplace _ hfail
          | some ctx =>
            refine Or.inr ⟨cbcDecryption ctx i.toList payload, ?_, ?_, fun h => absurd hkbag h,
              fun _ => ⟨k, ctx, i, rfl, hctx, rfl, rfl⟩, iff_of_true hpresent hkbag⟩
            · refine (hplace _ (img3DecryptDataIv_eq hdata hpresent
                (Bool.not_eq_true _ ▸ hmalformed) hbits hctx hpayload hlength hroom)).trans ?_
              rw [if_pos rfl]
            · exact BlockChaining.length_decryptChain (fun _ _ => Aes.length_decipher ctx _)
                Vector.length_toList
        · refine Or.inl ⟨.errDecrypt, by decide, ?_⟩
          have hfail : img3DecryptDataIv buf img (some k) keyBits (some i) ram off
              (ram.length - off) = (none, ram) := by
            rw [img3DecryptDataIv.eq_1 _ _ _ _ _ _ data _ _ hdata,
              if_pos (Or.inr (Or.inr (Or.inl hbits)))]
          exact hplace _ hfail
  · have hkbag : ¬HasKbag ts := fun h => (hsome h).elim (fun hp => hpresent hp.1) hmalformed
    refine Or.inr ⟨payload, ?_, rfl, fun _ => rfl, fun h => absurd h hkbag,
      iff_of_false hpresent hkbag⟩
    rw [place, if_neg hmalformed, if_neg hpresent, hpayload]

/-- Loading ends with an error and the machine as it was, or with the payload in the RAM. -/
theorem fwLoadImg3Common_outcome (m : Option Machine) (buf key : Option (List Byte))
    (keyBits : Nat) (iv : Option Aes.Block) (loadAddr : Nat) :
    Outcome m buf key keyBits iv loadAddr
      (fwLoadImg3Common m buf key keyBits iv loadAddr) := by
  have hinvalid : ∀ {r : Status × Option Machine × Option LoadedImage},
      r = (.errInvalidArgument, m, none) → Outcome m buf key keyBits iv loadAddr r := by
    rintro r rfl
    exact Or.inl ⟨nofun, rfl⟩
  cases m with
  | none => exact hinvalid rfl
  | some machine =>
  obtain ⟨_ | ram, ramBase⟩ := machine
  · exact hinvalid rfl
  cases buf with
  | none => exact hinvalid rfl
  | some b =>
  rw [fwLoadImg3Common]
  by_cases hok : (img3Parse (some b)).1 = .ok
  · obtain ⟨img, hparse⟩ : ∃ img, img3Parse (some b) = (.ok, img) := ⟨_, Prod.ext hok rfl⟩
    obtain ⟨c, hc⟩ := Img3.container_of_img3Parse hparse
    have himg := Img3.img3Parse_of_container c hc
    rw [hparse] at himg
    obtain ⟨rest, hrest⟩ := Img3.drop_header hc
    have hparsed : img = takeTags b img3HeaderSize c.tags (Img3.headerImage c) :=
      (Prod.mk.inj himg).2
    have hpayload : img.payload b = (lastData c.tags).or none := by
      rw [hparsed]
      exact payload_takeTags hrest
    have hnone : ¬HasKbag c.tags → img.kbag = {} := fun h => by
      rw [hparsed]
      exact kbag_takeTags_none h
    have hsome : HasKbag c.tags → (img.kbag.present = true ∧ img.kbag.malformed = false) ∨
        img.kbag.malformed = true := fun h => by
      rw [hparsed]
      exact kbag_takeTags (Or.inl h) rfl
    rw [hparse]
    dsimp only
    cases hdata : img.data with
    | none => exact Or.inl ⟨nofun, rfl⟩
    | some data =>
    have hpart : img.payload b = some ((b.drop data).take img.dataLen) := by
      rw [Image.payload, hdata, Option.map_some]
    have hlength : ((b.drop data).take img.dataLen).length = img.dataLen := by
      rw [hparsed] at hpart ⊢
      exact length_payload hrest nofun hpart
    rw [hpart, Option.or_none] at hpayload
    dsimp only
    by_cases hempty : img.dataLen = 0
    · rw [if_pos hempty]
      exact Or.inl ⟨nofun, rfl⟩
    by_cases hlow : loadAddr < ramBase
    · rw [if_neg hempty, if_pos hlow]
      exact Or.inl ⟨nofun, rfl⟩
    by_cases hhigh : ram.length < loadAddr - ramBase + img.dataLen
    · rw [if_neg hempty, if_neg hlow, if_pos hhigh]
      exact Or.inl ⟨nofun, rfl⟩
    rw [if_neg hempty, if_neg hlow, if_neg hhigh]
    obtain ⟨st, hst, hplace⟩ | ⟨bytes, hplace, hbytes, hplain, hkbag, hencrypted⟩ :=
      place_outcome key keyBits iv hdata rfl hlength (Nat.not_lt.1 hhigh) hnone hsome
    · rw [hplace]
      refine Or.inl ?_
      cases st with
      | ok => exact absurd rfl hst
      | _ => exact ⟨nofun, rfl⟩
    · rw [hplace]
      refine Or.inr ⟨ram, ramBase, b, _, describe img loadAddr, c,
        (b.drop data).take img.dataLen, bytes, rfl, rfl, rfl, ?_⟩
      exact {
        container := hc
        last := hpayload.symm
        nonempty := fun hnil => hempty (by rw [← hlength, hnil, List.length_nil])
        low := Nat.not_lt.1 hlow
        high := by rw [hlength]; exact Nat.not_lt.1 hhigh
        length := hbytes
        stored := rfl
        plain := hplain
        encrypted := hkbag
        size := hlength.symm
        address := rfl
        wasEncrypted := hencrypted }
  · generalize hr : img3Parse (some b) = r at hok
    obtain ⟨st, img⟩ := r
    cases st with
    | ok => exact absurd rfl hok
    | _ => exact Or.inl ⟨nofun, rfl⟩

/-- A file is accepted exactly if it begins with a container, and then with just one: no file can be
read in two ways. Loading, with or without a key and an IV, ends with an error and the machine as it
was, or with the payload of the container in the RAM, all of it inside and nothing else of the RAM
changed, decrypted exactly if the container has a key bag. -/
theorem img3_loading :
    (∀ buf, (img3Parse buf).1 = .ok ↔ ∃ b, buf = some b ∧ ∃ c : Container, c.encode <+: b) ∧
    (∀ (b : List Byte) (c c' : Container), c.encode <+: b → c'.encode <+: b → c = c') ∧
    ∀ m buf key keyBits loadAddr,
      Outcome m buf key keyBits none loadAddr (fwLoadImg3 m buf key keyBits loadAddr) ∧
      ∀ iv, Outcome m buf key keyBits iv loadAddr (fwLoadImg3Iv m buf key keyBits iv loadAddr) := by
  refine ⟨fun buf => ⟨fun h => ?_, ?_⟩, fun b c c' => Container.eq_of_encode,
    fun m buf key keyBits loadAddr => ⟨fwLoadImg3Common_outcome m buf key keyBits none loadAddr,
      fun iv => fwLoadImg3Common_outcome m buf key keyBits iv loadAddr⟩⟩
  · cases buf with
    | none => cases h
    | some b => exact ⟨b, rfl, Img3.container_of_img3Parse (Prod.ext h rfl)⟩
  · rintro ⟨b, rfl, c, hc⟩
    rw [Img3.img3Parse_of_container c hc]

/-- A file is loaded with the key and the IV that its payload is encrypted with, of any length and
with any key of a valid size. Then the machine is as it was, with an error, or what was encrypted is
in its RAM from the load address on, all of it and nothing else: the whole blocks are decrypted by
CBC, and the octets behind the last one are taken as they are. The report says that the payload was
encrypted, where it has been put, and its length. -/
theorem encrypted_loading (ram : List Byte) (ramBase loadAddr : Nat) {b k plain : List Byte}
    {keyBits : Nat} {iv : Aes.Block} {ctx : Ctx} {c : Container} (hc : c.encode <+: b)
    (hkbag : HasKbag c.tags) (hctx : aesInit k keyBits = some ctx)
    (hdata : lastData c.tags = some (Aes.cbcEncryption ctx iv.toList plain)) :
    let m : Machine := ⟨some ram, ramBase⟩
    let r := fwLoadImg3Iv (some m) (some b) (some k) keyBits (some iv) loadAddr
    (r.1 ≠ .ok ∧ r.2 = (some m, none)) ∨
      ∃ info, r = (.ok, some ⟨some (Pieces.overwrite ram (loadAddr - ramBase) plain), ramBase⟩,
          some info) ∧ info.wasEncrypted = true ∧ info.loadAddr = loadAddr ∧
        info.size = plain.length ∧ ramBase ≤ loadAddr ∧
        loadAddr - ramBase + plain.length ≤ ram.length := by
  intro m r
  obtain herror | ⟨ram', base', b', ram'', info, c', payload, bytes, hm, hb, hr, h⟩ :=
    fwLoadImg3Common_outcome (some m) (some b) (some k) keyBits (some iv) loadAddr
  · exact .inl herror
  · change some (Machine.mk (some ram) ramBase) = _ at hm
    cases hm
    cases hb
    obtain rfl := Container.eq_of_encode hc h.container
    obtain rfl := Option.some.inj (hdata.symm.trans h.last)
    obtain ⟨k', ctx', iv', hk, hctx', hiv, hbytes⟩ := h.encrypted hkbag
    cases hk
    cases hiv
    obtain rfl := Option.some.inj (hctx.symm.trans hctx')
    rw [Aes.cbcDecryption_cbcEncryption ctx Vector.length_toList] at hbytes
    subst hbytes
    have hlength := h.length
    have hhigh := h.high
    have hsize := h.size
    rw [← hlength] at hhigh hsize
    exact .inr ⟨info, h.stored ▸ hr, h.wasEncrypted.2 hkbag, h.address, hsize, h.low, hhigh⟩

/-- A key. -/
def sealingKey : List Byte := (List.range 16).map fun i => BitVec.ofNat 8 (17 * i + 1)

/-- An initialization vector. -/
def sealingIv : Aes.Block := Vector.ofFn fun i => BitVec.ofNat 8 (i.val + 0xa0)

/-- A block of bytes and one byte more. -/
def unsealed : List Byte := (List.range 17).map fun i => BitVec.ofNat 8 (i + 1)

/-- The block enciphered, and the byte behind it as it is. -/
def sealedBytes : List Byte :=
  [70, 25, 173, 14, 159, 47, 223, 108, 24, 89, 101, 66, 47, 182, 127, 227, 17]

/-- A container with a key bag and an encrypted payload. -/
def sealedContainer : Container where
  dataSize := 0
  signedSize := 0
  ident := 0
  tags := [
    ⟨img3TagKbag, LittleEndian.encode 4 1 ++ LittleEndian.encode 4 128 ++ List.replicate 32 0, [],
      by decide, by decide⟩,
    ⟨img3TagData, sealedBytes, [], by decide, by decide⟩]
  dataSize_le := Nat.zero_le _
  signedSize_lt := by decide
  ident_lt := by decide
  size_lt := by decide

/-- A payload of a block and one byte more, decrypted into the middle of the RAM. -/
theorem encrypted_loading_block :
    let r := fwLoadImg3Iv (some ⟨some (List.replicate 20 0), 0⟩) (some sealedContainer.encode)
      (some sealingKey) 128 (some sealingIv) 1
    r.1 = .ok ∧ ∃ m info, r.2 = (some m, some info) ∧ m.ram = some ([0] ++ unsealed ++ [0, 0]) := by
  intro r
  have hok : r.1 = .ok := by decide +kernel
  have hctx : ∃ ctx, aesInit sealingKey 128 = some ctx := ⟨_, rfl⟩
  obtain ⟨ctx, hctx⟩ := hctx
  have hblock : (aesInit sealingKey 128).map (fun ctx => Aes.encipher ctx
      (List.zipWith (· ^^^ ·) (unsealed.take 16) sealingIv.toList)) = some (sealedBytes.take 16) := by
    decide +kernel
  have hdata : lastData sealedContainer.tags =
      some (Aes.cbcEncryption ctx sealingIv.toList unsealed) := by
    rw [hctx, Option.map_some, Option.some.injEq] at hblock
    rw [Aes.cbcEncryption, BlockChaining.encryptChain, dif_pos (by decide)]
    dsimp only
    rw [hblock, BlockChaining.encryptChain, dif_neg (by decide)]
    rfl
  obtain ⟨herror, -⟩ | ⟨info, hr, -⟩ := encrypted_loading (List.replicate 20 0) 0 1
    (List.prefix_refl _) ⟨_, List.mem_cons_self, rfl⟩ hctx hdata
  · exact absurd hok herror
  · exact ⟨hok, _, info, congrArg Prod.snd hr, by decide⟩

end S5LBox.Firmware.Loader
