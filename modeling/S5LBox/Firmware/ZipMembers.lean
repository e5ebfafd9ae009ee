import S5LBox.Firmware.ZipWalk

/-!
# The entries of a central directory

The format of one entry: a fixed header, a name, extra fields and a comment. A size or an offset
stands in its own field of the header, or the field carries the sentinel and the ZIP64 extra field
the value.

## Main definitions

* `Member`, `Member.bytes`: an entry, and how it is written.
* `Member.entry`: what a reader has to find.

## Main results

* `entryAt_member`: the reader finds it.
* `walk_members`: so it does for a list of members, one after the other.
-/

namespace S5LBox.Firmware

open Reading LittleEndian

/-! ### Numbers that are written -/

theorem rd16_encode {v : Nat} (h : v < 2 ^ 16) (t : List Byte) : rd16 (encode 2 v ++ t) = v := by
  simp only [rd16, octet, encode, List.cons_append, List.nil_append, List.getD_cons_zero,
    List.getD_cons_succ, BitVec.toNat_ofNat]
  omega

theorem rd32_encode {v : Nat} (h : v < 2 ^ 32) (t : List Byte) : rd32 (encode 4 v ++ t) = v := by
  simp only [rd32, octet, encode, List.cons_append, List.nil_append, List.getD_cons_zero,
    List.getD_cons_succ, BitVec.toNat_ofNat]
  omega

theorem rd64_encode {v : Nat} (h : v < 2 ^ 64) (t : List Byte) : rd64 (encode 8 v ++ t) = v := by
  have hlow : encode 8 v ++ t = encode 4 (v % 2 ^ 32) ++ (encode 4 (v / 2 ^ 32) ++ t) := by
    simp only [encode, List.cons_append, List.nil_append, List.cons.injEq, and_true,
      ← BitVec.toNat_inj, BitVec.toNat_ofNat]
    omega
  have hdrop : (encode 8 v ++ t).drop 4 = encode 4 (v / 2 ^ 32) ++ t := by
    rw [hlow, List.drop_left' (length_encode ..)]
  rw [rd64, hdrop, hlow, rd32_encode (by omega), rd32_encode (by omega)]
  omega

/-! ### Members -/

/-- A size or an offset, in its own field or in the ZIP64 extra field. -/
structure Slot where
  value : Nat
  wide : Bool

namespace Slot

/-- What the field of the header carries. -/
def field (s : Slot) : Nat := if s.wide then zip64Sentinel32 else s.value

/-- What the ZIP64 extra field carries. -/
def extra (s : Slot) : List Byte := if s.wide then encode 8 s.value else []

/-- A value that its field can carry, and that does not stand for something else there. -/
structure WellFormed (s : Slot) : Prop where
  lt : s.value < 2 ^ 64
  narrow : s.wide = false → s.value < zip64Sentinel32

variable {s : Slot}

theorem field_lt (h : s.WellFormed) : s.field < 2 ^ 32 := by
  have hn := h.narrow
  rw [field]
  cases hw : s.wide with
  | true =>
    rw [if_pos rfl]
    decide
  | false =>
    have hn := hn hw
    simp only [zip64Sentinel32] at hn
    rw [if_neg Bool.false_ne_true]
    omega

theorem field_eq_sentinel (h : s.WellFormed) :
    (decide (s.field = zip64Sentinel32)) = s.wide := by
  have hn := h.narrow
  rw [field]
  cases hw : s.wide with
  | true => rfl
  | false =>
    rw [if_neg Bool.false_ne_true, decide_eq_false_iff_not]
    exact (hn hw).ne

theorem length_extra (s : Slot) : s.extra.length = if s.wide then 8 else 0 := by
  rw [extra]
  cases s.wide with
  | true => rfl
  | false => rfl

/-- The value of a slot, read from where its ZIP64 value would stand. -/
theorem read_extra (h : s.WellFormed) (t : List Byte) :
    (if s.wide then rd64 (s.extra ++ t) else s.field) = s.value := by
  rw [extra, field]
  cases s.wide with
  | true => exact rd64_encode h.lt t
  | false => rfl

theorem drop_extra (s : Slot) (t : List Byte) :
    (if s.wide then (s.extra ++ t).drop 8 else s.extra ++ t) = t := by
  rw [extra]
  cases s.wide with
  | true => exact List.drop_left' (length_encode ..)
  | false => rfl

end Slot

/-- An extra field that is not the ZIP64 one. -/
structure Block where
  tag : BitVec 16
  data : List Byte

/-- How an extra field is written. -/
def Block.bytes (b : Block) : List Byte :=
  encode 2 b.tag.toNat ++ (encode 2 b.data.length ++ b.data)

/-- An extra field with a tag of its own. -/
structure Block.WellFormed (b : Block) : Prop where
  tag : b.tag ≠ 1
  length : b.data.length < 2 ^ 16

/-- An entry of a central directory. -/
structure Member where
  madeBy : BitVec 16
  needed : BitVec 16
  flags : BitVec 16
  method : BitVec 16
  time : BitVec 16
  date : BitVec 16
  crc32 : BitVec 32
  disk : BitVec 16
  internal : BitVec 16
  external : BitVec 32
  usize : Slot
  csize : Slot
  offset : Slot
  name : List Byte
  comment : List Byte
  /-- The extra fields before the ZIP64 one. -/
  before : List Block
  /-- What follows the values in the ZIP64 extra field. -/
  more : List Byte
  /-- What follows the ZIP64 extra field. -/
  after : List Byte

namespace Member

/-- One of the values is in the ZIP64 extra field. -/
def wide (m : Member) : Bool := m.usize.wide || m.csize.wide || m.offset.wide

/-- The values in the ZIP64 extra field, in their order. -/
def values (m : Member) : List Byte := m.usize.extra ++ (m.csize.extra ++ m.offset.extra)

/-- The ZIP64 extra field, if there is one. -/
def zip64 (m : Member) : List Byte :=
  if m.wide then encode 2 1 ++ (encode 2 (m.values.length + m.more.length) ++ (m.values ++ m.more))
  else []

/-- The extra area. -/
def extra (m : Member) : List Byte := m.before.flatMap Block.bytes ++ (m.zip64 ++ m.after)

/-- How an entry is written. -/
def bytes (m : Member) : List Byte :=
  encode 4 sigCentral ++ (encode 2 m.madeBy.toNat ++ (encode 2 m.needed.toNat ++
  (encode 2 m.flags.toNat ++ (encode 2 m.method.toNat ++ (encode 2 m.time.toNat ++
  (encode 2 m.date.toNat ++ (encode 4 m.crc32.toNat ++ (encode 4 m.csize.field ++
  (encode 4 m.usize.field ++ (encode 2 m.name.length ++ (encode 2 m.extra.length ++
  (encode 2 m.comment.length ++ (encode 2 m.disk.toNat ++ (encode 2 m.internal.toNat ++
  (encode 4 m.external.toNat ++ (encode 4 m.offset.field ++
  (m.name ++ (m.extra ++ m.comment))))))))))))))))))

/-- The entry as the header alone has it. -/
def plain (m : Member) : Entry where
  name := m.name
  compressedSize := m.csize.field
  uncompressedSize := m.usize.field
  localHeaderOffset := m.offset.field
  crc32 := m.crc32.toNat
  method := m.method.toNat
  isDirectory := m.name.getLast? = some 0x2f
  unixMode := if m.madeBy.toNat / 2 ^ 8 = 3 then m.external.toNat / 2 ^ 16 else 0

/-- The entry that a reader has to find. -/
def entry (m : Member) : Entry :=
  { m.plain with
    compressedSize := m.csize.value
    uncompressedSize := m.usize.value
    localHeaderOffset := m.offset.value }

/-- An entry that the reader takes, in an archive of some size. -/
structure WellFormed (m : Member) (size : Nat) : Prop where
  plaintext : m.flags.toNat.testBit 0 = false ∧ m.flags.toNat.testBit 6 = false
  usize : m.usize.WellFormed
  csize : m.csize.WellFormed
  offset : m.offset.WellFormed
  inFile : m.offset.value ≤ size
  name_length : m.name.length < vmfwZipMaxName
  name : (0 : Byte) ∉ m.name
  comment : m.comment.length < 2 ^ 16
  before : ∀ b ∈ m.before, b.WellFormed
  extra : m.extra.length < 2 ^ 16

theorem length_bytes (m : Member) : m.bytes.length =
    centralMinSize + m.name.length + m.extra.length + m.comment.length := by
  simp only [bytes, List.length_append, length_encode, centralMinSize]
  omega

end Member

/-! ### The extra area -/

variable {f : List Byte}

theorem serve_of_drop {off len : Nat} {part rest : List Byte} (h : f.drop off = part ++ rest)
    (hlen : part.length = len) : serve f off len = part := by
  rw [serve, h, List.take_left' hlen]

theorem length_le_of_drop {off : Nat} {part rest : List Byte} (h : f.drop off = part ++ rest)
    (hp : 0 < part.length) : off + part.length ≤ f.length := by
  have hl := congrArg List.length h
  rw [List.length_drop, List.length_append] at hl
  omega

theorem drop_of_drop {off k : Nat} {part rest : List Byte} (h : f.drop off = part ++ rest)
    (hk : part.length = k) : f.drop (off + k) = rest := by
  rw [← List.drop_drop, h, List.drop_left' hk]

/-- The values are taken in their order. -/
theorem widen_values (m : Member) {size : Nat} (hm : m.WellFormed size) :
    m.plain.widen m.usize.wide m.csize.wide m.offset.wide m.values = m.entry := by
  have ho := Slot.read_extra hm.offset []
  rw [List.append_nil] at ho
  simp only [Entry.widen, Member.values, Member.entry, Member.plain, Slot.drop_extra,
    Slot.read_extra hm.usize, Slot.read_extra hm.csize, ho]

theorem length_values (m : Member) :
    m.values.length = want m.usize.wide m.csize.wide m.offset.wide := by
  simp only [Member.values, List.length_append, Slot.length_extra, want, Nat.add_assoc]

variable {part r : List Byte}

theorem rd16_at {off i v : Nat} (h : f.drop off = part) (hd : part.drop i = encode 2 v ++ r)
    (hv : v < 2 ^ 16) : rd16 (f.drop (off + i)) = v := by
  rw [← List.drop_drop, h, hd, rd16_encode hv]

theorem rd32_at {off i v : Nat} (h : f.drop off = part) (hd : part.drop i = encode 4 v ++ r)
    (hv : v < 2 ^ 32) : rd32 (f.drop (off + i)) = v := by
  rw [← List.drop_drop, h, hd, rd32_encode hv]

theorem rd64_at {off i v : Nat} (h : f.drop off = part) (hd : part.drop i = encode 8 v ++ r)
    (hv : v < 2 ^ 64) : rd64 (f.drop (off + i)) = v := by
  rw [← List.drop_drop, h, hd, rd64_encode hv]

theorem rd16_piece {off len i v : Nat} (h : f.drop off = part) (hd : part.drop i = encode 2 v ++ r)
    (hi : i + 2 ≤ len) (hv : v < 2 ^ 16) :
    rd16 ((serve f off len).drop i) = v := by
  rw [rd16_serve hi, rd16_at h hd hv]

theorem rd32_piece {off len i v : Nat} (h : f.drop off = part) (hd : part.drop i = encode 4 v ++ r)
    (hi : i + 4 ≤ len) (hv : v < 2 ^ 32) :
    rd32 ((serve f off len).drop i) = v := by
  rw [rd32_serve hi, rd32_at h hd hv]

/-- The header of an extra field. -/
theorem serve_block {off tag len : Nat} {rest : List Byte} (htag : tag < 2 ^ 16)
    (hlen : len < 2 ^ 16) (h : f.drop off = encode 2 tag ++ (encode 2 len ++ rest)) :
    rd16 (serve f off 4) = tag ∧ rd16 ((serve f off 4).drop 2) = len := by
  rw [rd16_serve (by omega), ← List.drop_drop, h, List.drop_left' (length_encode ..), serve, h,
    rd16_take (by omega)]
  exact ⟨rd16_encode htag _, rd16_encode hlen _⟩

/-- The ZIP64 extra field is found behind the others. -/
theorem applyZip64Extra_member (m : Member) {size extraOff extraLen off : Nat}
    {blocks : List Block} {rest : List Byte} (hm : m.WellFormed size) (hw : m.wide = true)
    (hmore : m.values.length + m.more.length < 2 ^ 16) (hb : ∀ b ∈ blocks, b.WellFormed)
    (h : f.drop (extraOff + off) = blocks.flatMap Block.bytes ++ (m.zip64 ++ rest))
    (hlen : off + (blocks.flatMap Block.bytes ++ m.zip64).length ≤ extraLen) :
    (applyZip64Extra (· + ·) f.length extraOff extraLen m.plain m.usize.wide m.csize.wide
      m.offset.wide off).run (serve f) = .ok m.entry := by
  induction blocks generalizing off with
  | nil =>
    have hzip : m.zip64 = encode 2 1 ++ (encode 2 (m.values.length + m.more.length) ++
        (m.values ++ m.more)) := by rw [Member.zip64, if_pos hw]
    rw [List.flatMap_nil, List.nil_append, hzip] at h hlen
    simp only [List.append_assoc, List.length_append, length_encode] at h hlen
    obtain ⟨htag, hl⟩ := serve_block (by omega) hmore h
    have h' : f.drop (extraOff + off) = (encode 2 1 ++ encode 2 (m.values.length + m.more.length) ++
        m.values) ++ (m.more ++ rest) := by simpa only [List.append_assoc] using h
    have hroom := length_le_of_drop h' (by simp only [List.length_append, length_encode]; omega)
    simp only [List.length_append, length_encode] at hroom
    have hbody : f.drop (extraOff + off + 4) = m.values ++ (m.more ++ rest) := by
      rw [← List.append_assoc] at h
      exact drop_of_drop h rfl
    have hwant : want m.usize.wide m.csize.wide m.offset.wide ≤ 24 := by
      simp only [want]
      split_ifs <;> omega
    rw [applyZip64Extra, dif_pos (by omega), Reader.run_bind, run_readExact (by omega), ok_bind,
      hl, htag, if_neg (by omega), if_pos rfl, ← length_values, Reader.run_bind, run_refuse,
      if_neg (by rw [length_values] at *; omega), ok_bind, Reader.run_bind,
      run_readExact (by omega), ok_bind, serve_of_drop hbody rfl, widen_values m hm]
    rfl
  | cons b blocks ih =>
    obtain ⟨hb, hbs⟩ := List.forall_mem_cons.mp hb
    have htag : b.tag.toNat ≠ 1 := fun h1 => hb.tag (BitVec.eq_of_toNat_eq h1)
    rw [List.flatMap_cons, Block.bytes] at h hlen
    simp only [List.append_assoc, List.length_append, length_encode] at h hlen
    obtain ⟨ht, hl⟩ := serve_block b.tag.isLt hb.length h
    have h' : f.drop (extraOff + off) = (encode 2 b.tag.toNat ++ encode 2 b.data.length ++
        b.data) ++ (blocks.flatMap Block.bytes ++ (m.zip64 ++ rest)) := by
      simpa only [List.append_assoc] using h
    have hroom := length_le_of_drop h' (by simp only [List.length_append, length_encode]; omega)
    have hnext := drop_of_drop h' rfl
    simp only [List.length_append, length_encode] at hroom hnext
    rw [applyZip64Extra, dif_pos (by omega), Reader.run_bind, run_readExact (by omega), ok_bind,
      hl, ht, if_neg (by omega), if_neg htag]
    refine ih hbs ?_ ?_
    · rw [← hnext]
      congr 1
      omega
    · rw [List.length_append]
      omega

/-! ### One member -/

variable {off finish : Nat} {rest : List Byte} {m : Member}

/-- The entry that the header describes. -/
theorem entryOf_member (hm : m.WellFormed f.length) (h : f.drop off = m.bytes ++ rest) :
    entryOf (serve f off centralMinSize) m.name = m.plain := by
  have hc : rd32 ((serve f off centralMinSize).drop 20) = m.csize.field :=
    rd32_piece (r := (m.bytes ++ rest).drop 24) h rfl (by decide) (Slot.field_lt hm.csize)
  have hu : rd32 ((serve f off centralMinSize).drop 24) = m.usize.field :=
    rd32_piece (r := (m.bytes ++ rest).drop 28) h rfl (by decide) (Slot.field_lt hm.usize)
  have ho : rd32 ((serve f off centralMinSize).drop 42) = m.offset.field :=
    rd32_piece (r := (m.bytes ++ rest).drop 46) h rfl (by decide) (Slot.field_lt hm.offset)
  have hcrc : rd32 ((serve f off centralMinSize).drop 16) = m.crc32.toNat :=
    rd32_piece (r := (m.bytes ++ rest).drop 20) h rfl (by decide) m.crc32.isLt
  have hmethod : rd16 ((serve f off centralMinSize).drop 10) = m.method.toNat :=
    rd16_piece (r := (m.bytes ++ rest).drop 12) h rfl (by decide) m.method.isLt
  have hmade : rd16 ((serve f off centralMinSize).drop 4) = m.madeBy.toNat :=
    rd16_piece (r := (m.bytes ++ rest).drop 6) h rfl (by decide) m.madeBy.isLt
  have hext : rd32 ((serve f off centralMinSize).drop 38) = m.external.toNat :=
    rd32_piece (r := (m.bytes ++ rest).drop 42) h rfl (by decide) m.external.isLt
  rw [entryOf, hc, hu, ho, hcrc, hmethod, hmade, hext]
  rfl

/-- The ZIP64 extra field is read exactly when there is one. -/
theorem explain_member {extraOff : Nat} (hm : m.WellFormed f.length)
    (h : f.drop extraOff = m.extra ++ rest) :
    (explain (· + ·) f.length extraOff m.extra.length m.plain).run (serve f) = .ok m.entry := by
  have hu : decide (m.plain.uncompressedSize = zip64Sentinel32) = m.usize.wide :=
    Slot.field_eq_sentinel hm.usize
  have hc : decide (m.plain.compressedSize = zip64Sentinel32) = m.csize.wide :=
    Slot.field_eq_sentinel hm.csize
  have ho : decide (m.plain.localHeaderOffset = zip64Sentinel32) = m.offset.wide :=
    Slot.field_eq_sentinel hm.offset
  simp only [explain, hu, hc, ho]
  by_cases hw : m.wide = true
  · rw [Member.wide] at hw
    rw [if_pos hw]
    have hlen := hm.extra
    rw [Member.extra, List.append_assoc, List.append_assoc] at h
    refine applyZip64Extra_member m hm hw ?_ hm.before h ?_
    · rw [Member.extra, Member.zip64, Member.wide, if_pos hw] at hlen
      simp only [List.length_append, length_encode] at hlen
      omega
    · simp only [Member.extra, List.length_append]
      omega
  · rw [Member.wide] at hw
    rw [if_neg hw]
    simp only [Bool.or_eq_true, not_or, Bool.not_eq_true] at hw
    obtain ⟨⟨hu, hc⟩, ho⟩ := hw
    simp only [Member.entry, Member.plain, Slot.field, hu, hc, ho, Bool.false_eq_true, if_false]
    rfl

theorem strlen_eq {name : List Byte} (h : (0 : Byte) ∉ name) : strlen name = name.length := by
  induction name with
  | nil => rfl
  | cons b name ih =>
    obtain ⟨hb, hn⟩ := not_or.mp (mt List.mem_cons.mpr h)
    rw [strlen, List.takeWhile_cons_of_pos (by simpa using Ne.symm hb), List.length_cons,
      List.length_cons]
    exact congrArg (· + 1) (ih hn)

/-- The reader finds an entry where it is written. -/
theorem entryAt_member {z : Zip} (hz : z.size = f.length) (hm : m.WellFormed f.length)
    (h : f.drop off = m.bytes ++ rest) (hfin : off + m.bytes.length ≤ finish) :
    (entryAt (· + ·) z finish off).run (serve f) = .ok (m.entry, m.bytes.length) := by
  have hlen := m.length_bytes
  have hroom := length_le_of_drop h (by rw [hlen]; simp only [centralMinSize]; omega)
  have hname := hm.name_length
  have hfile : ¬m.entry.localHeaderOffset > f.length := Nat.not_lt_of_le hm.inFile
  have hsig : rd32 (serve f off centralMinSize) = sigCentral :=
    rd32_piece (i := 0) (r := (m.bytes ++ rest).drop 4) h rfl (by decide) (by decide)
  have hn : rd16 ((serve f off centralMinSize).drop 28) = m.name.length :=
    rd16_piece (r := (m.bytes ++ rest).drop 30) h rfl (by decide)
      (hname.trans (by decide))
  have hx : rd16 ((serve f off centralMinSize).drop 30) = m.extra.length :=
    rd16_piece (r := (m.bytes ++ rest).drop 32) h rfl (by decide) hm.extra
  have hc : rd16 ((serve f off centralMinSize).drop 32) = m.comment.length :=
    rd16_piece (r := (m.bytes ++ rest).drop 34) h rfl (by decide) hm.comment
  have hflags : rd16 ((serve f off centralMinSize).drop 8) = m.flags.toNat :=
    rd16_piece (r := (m.bytes ++ rest).drop 10) h rfl (by decide) m.flags.isLt
  have hdrop : f.drop (off + centralMinSize) = m.name ++ (m.extra ++ (m.comment ++ rest)) := by
    rw [← List.drop_drop, h]
    change m.name ++ (m.extra ++ m.comment) ++ rest = _
    simp only [List.append_assoc]
  have hnext := drop_of_drop hdrop rfl
  simp only [entryAt, hz, Reader.run_bind, run_refuse]
  rw [if_neg (by omega), ok_bind, run_readExact (by omega), ok_bind, if_neg (fun hn => hn hsig),
    ok_bind, hn, hx, hc, if_neg (by omega), ok_bind, hflags, hm.plaintext.1, hm.plaintext.2,
    if_neg (by decide), ok_bind, if_neg (by omega), ok_bind, run_readExact (by omega), ok_bind,
    serve_of_drop hdrop rfl, strlen_eq hm.name, if_neg (fun hn => hn rfl), ok_bind,
    entryOf_member hm h, explain_member hm hnext, ok_bind,
    if_neg hfile, ok_bind, hlen]
  rfl

/-! ### All members -/

/-- The visits to a list of entries. -/
def visitAll {γ : Type} (visit : γ → Entry → Nat → γ × Bool) : (i : Nat) → List Entry → γ → γ
  | _, [], s => s
  | i, e :: es, s =>
    if (visit s e i).2 then visitAll visit (i + 1) es (visit s e i).1 else (visit s e i).1

/-- The walk visits the entries that are written, in their order. -/
theorem walk_members {γ : Type} {z : Zip} (hz : z.size = f.length)
    (visit : γ → Entry → Nat → γ × Bool) {ms : List Member}
    (hms : ∀ m ∈ ms, m.WellFormed f.length) (i : Nat) (s : γ)
    (h : f.drop off = ms.flatMap Member.bytes ++ rest)
    (hfin : off + (ms.flatMap Member.bytes).length ≤ finish) :
    (walk (· + ·) z visit finish ms.length i off s).run (serve f) =
      .ok (visitAll visit i (ms.map Member.entry) s, .ok ()) := by
  induction ms generalizing off i s with
  | nil => rfl
  | cons m ms ih =>
    obtain ⟨hm, hms⟩ := List.forall_mem_cons.mp hms
    rw [List.flatMap_cons, List.append_assoc] at h
    rw [List.flatMap_cons, List.length_append] at hfin
    rw [List.length_cons, walk, Reader.run_bind, Reader.run_attempt,
      entryAt_member hz hm h (by omega)]
    change Reader.run _ (if (visit s m.entry i).2 then _ else _) = _
    rw [Reader.run_ite, List.map_cons, visitAll]
    by_cases hgo : (visit s m.entry i).2 = true
    · rw [if_pos hgo, if_pos hgo]
      exact ih hms _ _ (drop_of_drop h rfl) (by omega)
    · rw [if_neg hgo, if_neg hgo]
      rfl

end S5LBox.Firmware
