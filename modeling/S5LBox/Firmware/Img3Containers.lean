import S5LBox.Firmware.Img3

/-!
# The containers that `img3_parse` accepts

A container is a header and a sequence of tags without a gap, each with its payload and padding.

## Main definitions

* `Tag`, `Container`: what a file stands for, and its bytes.
* `takeTags`: what the tags of a container change in the result.
* `Container.payload`, `Container.HasKbag`.

## Main results

* `tagLoop_of_tags`, `tags_of_tagLoop`: the loop accepts the sequences of tags.
* `img3Parse_of_container`, `container_of_img3Parse`: the parser accepts the containers, and what it
  says of them.
* `Container.eq_of_encode`: a file begins with one container at most.
-/

namespace S5LBox.Firmware.Img3

open LittleEndian (encode decode decode_take_encode decode_lt encode_decode length_encode)

/-! ### Containers -/

/-- A tag. -/
structure Tag where
  magic : Nat
  data : List Byte
  padding : List Byte
  magic_lt : magic < 2 ^ 32
  size_lt : 12 + data.length + padding.length < 2 ^ 32

namespace Tag

/-- The size of a tag with its header. -/
def size (t : Tag) : Nat := 12 + t.data.length + t.padding.length

/-- The bytes of a tag. -/
def encode (t : Tag) : List Byte :=
  LittleEndian.encode 4 t.magic ++ (LittleEndian.encode 4 t.size ++
    (LittleEndian.encode 4 t.data.length ++ (t.data ++ t.padding)))

theorem length_encode (t : Tag) : t.encode.length = t.size := by
  simp only [encode, List.length_append, LittleEndian.length_encode, size]
  omega

end Tag

/-- A container: the numbers of its header and its tags. -/
structure Container where
  dataSize : Nat
  signedSize : Nat
  ident : Nat
  tags : List Tag
  dataSize_le : dataSize ≤ (tags.flatMap Tag.encode).length
  signedSize_lt : signedSize < 2 ^ 32
  ident_lt : ident < 2 ^ 32
  size_lt : 20 + (tags.flatMap Tag.encode).length < 2 ^ 32

namespace Container

/-- The size of a container with its header. -/
def size (c : Container) : Nat := 20 + (c.tags.flatMap Tag.encode).length

/-- The bytes of a container. -/
def encode (c : Container) : List Byte :=
  LittleEndian.encode 4 img3Magic ++ (LittleEndian.encode 4 c.size ++
    (LittleEndian.encode 4 c.dataSize ++ (LittleEndian.encode 4 c.signedSize ++
      (LittleEndian.encode 4 c.ident ++ c.tags.flatMap Tag.encode))))

theorem length_encode (c : Container) : c.encode.length = c.size := by
  simp only [encode, List.length_append, LittleEndian.length_encode, size]
  omega

end Container

/-! ### Numbers -/

theorem rd32_lt (p : List Byte) : rd32 p < 2 ^ 32 := LittleEndian.decode_take_lt 4 p

theorem rd32_encode {n : Nat} (h : n < 2 ^ 32) (p : List Byte) : rd32 (encode 4 n ++ p) = n :=
  decode_take_encode h p

theorem drop_encode (n : Nat) (p : List Byte) : (encode 4 n ++ p).drop 4 = p :=
  List.drop_left' (length_encode 4 n)

theorem eq_encode_rd32 {p : List Byte} (h : 4 ≤ p.length) : p = encode 4 (rd32 p) ++ p.drop 4 :=
  (LittleEndian.encode_decode_take h).symm

/-- A number in front of what is left of a list. -/
theorem encode_inj {n n' : Nat} {p p' : List Byte} (hn : n < 2 ^ 32) (hn' : n' < 2 ^ 32)
    (h : encode 4 n ++ p = encode 4 n' ++ p') : n = n' ∧ p = p' := by
  have hnumber := congrArg rd32 h
  have hrest := congrArg (List.drop 4) h
  rw [rd32_encode hn, rd32_encode hn'] at hnumber
  rw [drop_encode, drop_encode] at hrest
  exact ⟨hnumber, hrest⟩

/-! ### The loop -/

/-- What the tags from `off` on change in the result. -/
def takeTags (buf : List Byte) : Nat → List Tag → Image → Image
  | _, [], out => out
  | off, t :: ts, out =>
    takeTags buf (off + t.size) ts (takeTag buf t.magic (off + img3TagHeader) t.data.length out)

theorem Tag.drop_header (t : Tag) (rest : List Byte) :
    (t.encode ++ rest).drop img3TagHeader = t.data ++ (t.padding ++ rest) := by
  rw [show img3TagHeader = 4 + (4 + 4) from rfl, ← List.drop_drop, ← List.drop_drop, Tag.encode,
    List.append_assoc, drop_encode, List.append_assoc, drop_encode, List.append_assoc, drop_encode,
    List.append_assoc]

/-- Two pieces at the front of a list. -/
theorem exists_pieces {l : List Byte} {a b : Nat} (h : a + b ≤ l.length) :
    ∃ x y, x.length = a ∧ y.length = b ∧ l = x ++ (y ++ l.drop (a + b)) := by
  refine ⟨l.take a, (l.drop a).take b, List.length_take_of_le (by omega), ?_, ?_⟩
  · rw [List.length_take_of_le]
    rw [List.length_drop]
    omega
  · rw [← List.drop_drop, List.take_append_drop, List.take_append_drop]

/-- A tag is at the front of a list if its checks are met. -/
theorem exists_tag {p : List Byte} (hlow : 12 ≤ rd32 (p.drop 4)) (hlen : rd32 (p.drop 4) ≤ p.length)
    (hdata : rd32 (p.drop 8) + 12 ≤ rd32 (p.drop 4)) :
    ∃ t : Tag, t.magic = rd32 p ∧ t.size = rd32 (p.drop 4) ∧ t.data.length = rd32 (p.drop 8) ∧
      p = t.encode ++ p.drop (rd32 (p.drop 4)) := by
  have hlt := rd32_lt (p.drop 4)
  obtain ⟨data, padding, hd, hp, hrest⟩ := exists_pieces (l := p.drop 12) (a := rd32 (p.drop 8))
    (b := rd32 (p.drop 4) - 12 - rd32 (p.drop 8)) (by rw [List.length_drop]; omega)
  have hsize : 12 + data.length + padding.length = rd32 (p.drop 4) := by omega
  have htail : 12 + (rd32 (p.drop 8) + (rd32 (p.drop 4) - 12 - rd32 (p.drop 8))) =
      rd32 (p.drop 4) := by omega
  rw [List.drop_drop, htail] at hrest
  refine ⟨⟨rd32 p, data, padding, rd32_lt p, by omega⟩, rfl, hsize, hd, ?_⟩
  have h₀ := eq_encode_rd32 (p := p) (by omega)
  have h₄ := eq_encode_rd32 (p := p.drop 4) (by rw [List.length_drop]; omega)
  have h₈ := eq_encode_rd32 (p := p.drop 8) (by rw [List.length_drop]; omega)
  rw [List.drop_drop] at h₄ h₈
  rw [Tag.encode, Tag.size, List.append_assoc, List.append_assoc, List.append_assoc,
    List.append_assoc]
  dsimp only
  rw [hsize, hd, ← hrest, ← h₈, ← h₄, ← h₀]

variable {buf : List Byte} {finish off : Nat} {out img : Image}

theorem tagLoop_end : tagLoop buf off off out = (.ok, out) := by
  have hheader : img3TagHeader = 12 := rfl
  rw [tagLoop, dif_neg (by omega), if_neg (not_not.2 rfl)]

/-- The loop at a tag. -/
theorem tagLoop_tag (t : Tag) {rest : List Byte} (h : buf.drop off = t.encode ++ rest)
    (hfits : off + t.size ≤ finish) :
    tagLoop buf finish off out = tagLoop buf finish (off + t.size)
      (takeTag buf t.magic (off + img3TagHeader) t.data.length out) := by
  have hheader : img3TagHeader = 12 := rfl
  have hsize : t.size = 12 + t.data.length + t.padding.length := rfl
  have hlt := t.size_lt
  have h₀ : rd32 (buf.drop off) = t.magic := by
    rw [h, Tag.encode, List.append_assoc, rd32_encode t.magic_lt]
  have h₄ : rd32 ((buf.drop off).drop 4) = t.size := by
    rw [h, Tag.encode, List.append_assoc, drop_encode, List.append_assoc, rd32_encode (by omega)]
  have h₈ : rd32 ((buf.drop off).drop 8) = t.data.length := by
    have hdrop : (buf.drop off).drop (4 + 4) = ((buf.drop off).drop 4).drop 4 :=
      List.drop_drop.symm
    rw [show 8 = 4 + 4 from rfl, hdrop, h, Tag.encode, List.append_assoc, drop_encode,
      List.append_assoc, drop_encode, List.append_assoc, rd32_encode (by omega)]
  rw [tagLoop, dif_pos (by omega)]
  simp only [h₀, h₄, h₈]
  rw [dif_neg (by omega), if_neg (by omega), if_neg (by omega)]

/-- The loop accepts a sequence of tags. -/
theorem tagLoop_of_tags (ts : List Tag) {rest : List Byte}
    (h : buf.drop off = ts.flatMap Tag.encode ++ rest) :
    tagLoop buf (off + (ts.flatMap Tag.encode).length) off out =
      (.ok, takeTags buf off ts out) := by
  induction ts generalizing off out with
  | nil => exact tagLoop_end
  | cons t ts ih =>
    rw [List.flatMap_cons, List.append_assoc] at h
    have hlength : ((t :: ts).flatMap Tag.encode).length =
        t.size + (ts.flatMap Tag.encode).length := by
      rw [List.flatMap_cons, List.length_append, Tag.length_encode]
    have hnext : buf.drop (off + t.size) = ts.flatMap Tag.encode ++ rest := by
      rw [← List.drop_drop, h, List.drop_left' t.length_encode]
    rw [hlength, tagLoop_tag t h (by omega), ← Nat.add_assoc, ih hnext, takeTags]

/-- What the loop accepts is a sequence of tags. -/
theorem tags_of_tagLoop (hoff : off ≤ finish) (hfinish : finish ≤ buf.length)
    (h : tagLoop buf finish off out = (.ok, img)) : ∃ ts : List Tag, ∃ rest,
      buf.drop off = ts.flatMap Tag.encode ++ rest ∧
        finish = off + (ts.flatMap Tag.encode).length := by
  have hheader : img3TagHeader = 12 := rfl
  induction hn : finish - off using Nat.strongRecOn generalizing off out with
  | ind n ih =>
    by_cases hmore : off + img3TagHeader ≤ finish
    · rw [tagLoop, dif_pos hmore] at h
      dsimp only at h
      split_ifs at h with hshort hlong hdata
      · cases h
      · cases h
      · cases h
      · obtain ⟨t, -, hsize, -, htag⟩ := exists_tag (p := buf.drop off) (by omega)
          (by rw [List.length_drop]; omega) (by omega)
        rw [← hsize] at h htag hlong
        rw [List.drop_drop] at htag
        have hheaderSize : 12 ≤ t.size := by
          rw [hsize]
          omega
        obtain ⟨ts, rest, hrest, hend⟩ := ih (finish - (off + t.size)) (by omega) (by omega) h rfl
        refine ⟨t :: ts, rest, ?_, ?_⟩
        · rw [htag, hrest, List.flatMap_cons, List.append_assoc]
        · rw [List.flatMap_cons, List.length_append, Tag.length_encode, hend]
          omega
    · rw [tagLoop, dif_neg hmore] at h
      split_ifs at h with hend
      · cases h
      · exact ⟨[], buf.drop off, rfl, (not_not.1 hend).symm⟩

/-! ### The parser -/

/-- The result before the first tag. -/
def headerImage (c : Container) : Image :=
  { fullSize := c.size, dataSize := c.dataSize, signedSize := c.signedSize, ident := c.ident }

/-- The tags are behind the header. -/
theorem drop_header {c : Container} (h : c.encode <+: buf) :
    ∃ rest, buf.drop img3HeaderSize = c.tags.flatMap Tag.encode ++ rest := by
  obtain ⟨rest, rfl⟩ := h
  refine ⟨rest, ?_⟩
  rw [show img3HeaderSize = 4 + (4 + (4 + (4 + 4))) from rfl]
  simp only [← List.drop_drop, Container.encode, List.append_assoc, drop_encode]

/-- A file that begins with a container is accepted. -/
theorem img3Parse_of_container (c : Container) (h : c.encode <+: buf) :
    img3Parse (some buf) = (.ok, takeTags buf img3HeaderSize c.tags (headerImage c)) := by
  obtain ⟨rest, rfl⟩ := h
  have hsize := c.size_lt
  have hdata := c.dataSize_le
  have hlength : (c.encode ++ rest).length = c.size + rest.length := by
    rw [List.length_append, c.length_encode]
  have hcsize : c.size = 20 + (c.tags.flatMap Tag.encode).length := rfl
  have h₀ : rd32 (c.encode ++ rest) = img3Magic := by
    rw [Container.encode, List.append_assoc, rd32_encode (by decide)]
  have h₄ : (c.encode ++ rest).drop 4 = encode 4 c.size ++ (encode 4 c.dataSize ++
      (encode 4 c.signedSize ++ (encode 4 c.ident ++ (c.tags.flatMap Tag.encode ++ rest)))) := by
    rw [Container.encode, List.append_assoc, drop_encode]
    simp only [List.append_assoc]
  have h₈ : (c.encode ++ rest).drop 8 = encode 4 c.dataSize ++
      (encode 4 c.signedSize ++ (encode 4 c.ident ++ (c.tags.flatMap Tag.encode ++ rest))) := by
    have hdrop := congrArg (List.drop 4) h₄
    rwa [List.drop_drop, drop_encode] at hdrop
  have h₁₂ : (c.encode ++ rest).drop 12 = encode 4 c.signedSize ++
      (encode 4 c.ident ++ (c.tags.flatMap Tag.encode ++ rest)) := by
    have hdrop := congrArg (List.drop 4) h₈
    rwa [List.drop_drop, drop_encode] at hdrop
  have h₁₆ : (c.encode ++ rest).drop 16 = encode 4 c.ident ++
      (c.tags.flatMap Tag.encode ++ rest) := by
    have hdrop := congrArg (List.drop 4) h₁₂
    rwa [List.drop_drop, drop_encode] at hdrop
  have h₂₀ : (c.encode ++ rest).drop img3HeaderSize = c.tags.flatMap Tag.encode ++ rest := by
    have hdrop := congrArg (List.drop 4) h₁₆
    rwa [List.drop_drop, drop_encode] at hdrop
  have hheader : img3HeaderSize = 20 := rfl
  rw [img3Parse]
  simp only [h₀, h₄, h₈, h₁₂, h₁₆, rd32_encode c.ident_lt, rd32_encode c.signedSize_lt]
  rw [rd32_encode (show c.size < 2 ^ 32 by omega), rd32_encode (show c.dataSize < 2 ^ 32 by omega),
    if_neg (by omega), if_neg (not_not.2 rfl), if_neg (by omega), if_neg (by omega)]
  exact tagLoop_of_tags c.tags h₂₀

/-- A file that is accepted begins with a container. -/
theorem container_of_img3Parse (h : img3Parse (some buf) = (.ok, img)) :
    ∃ c : Container, c.encode <+: buf := by
  have hheader : img3HeaderSize = 20 := rfl
  rw [img3Parse] at h
  simp only at h
  split_ifs at h with hshort hmagic hsize hdata
  · cases h
  · cases h
  · cases h
  · cases h
  · obtain ⟨ts, rest, hrest, hend⟩ := tags_of_tagLoop (by omega) (by omega) h
    have hlt := rd32_lt (buf.drop 4)
    refine ⟨⟨rd32 (buf.drop 8), rd32 (buf.drop 12), rd32 (buf.drop 16), ts, by omega, rd32_lt _,
      rd32_lt _, by omega⟩, rest, ?_⟩
    have h₀ := eq_encode_rd32 (p := buf) (by omega)
    have h₄ := eq_encode_rd32 (p := buf.drop 4) (by rw [List.length_drop]; omega)
    have h₈ := eq_encode_rd32 (p := buf.drop 8) (by rw [List.length_drop]; omega)
    have h₁₂ := eq_encode_rd32 (p := buf.drop 12) (by rw [List.length_drop]; omega)
    have h₁₆ := eq_encode_rd32 (p := buf.drop 16) (by rw [List.length_drop]; omega)
    rw [List.drop_drop] at h₄ h₈ h₁₂ h₁₆
    rw [not_not.1 hmagic] at h₀
    rw [Container.encode, Container.size]
    simp only [List.append_assoc]
    rw [← hheader, ← hend, ← hrest, ← h₁₆, ← h₁₂, ← h₈, ← h₄, ← h₀]

/-! ### One container only -/

theorem Tag.eq_of_encode {t t' : Tag} {r r' : List Byte} (h : t.encode ++ r = t'.encode ++ r') :
    t = t' ∧ r = r' := by
  have hlt := t.size_lt
  have hlt' := t'.size_lt
  have hsize : t.size = 12 + t.data.length + t.padding.length := rfl
  have hsize' : t'.size = 12 + t'.data.length + t'.padding.length := rfl
  simp only [Tag.encode, List.append_assoc] at h
  obtain ⟨hmagic, h⟩ := encode_inj t.magic_lt t'.magic_lt h
  obtain ⟨htotal, h⟩ := encode_inj (by omega) (by omega) h
  obtain ⟨hlength, h⟩ := encode_inj (by omega) (by omega) h
  obtain ⟨hdata, h⟩ := List.append_inj h hlength
  obtain ⟨hpadding, hrest⟩ := List.append_inj h (by omega)
  cases t
  cases t'
  dsimp only at hmagic hdata hpadding
  subst hmagic hdata hpadding
  exact ⟨rfl, hrest⟩

theorem tags_eq {ts ts' : List Tag} {r r' : List Byte}
    (h : ts.flatMap Tag.encode ++ r = ts'.flatMap Tag.encode ++ r')
    (hlength : (ts.flatMap Tag.encode).length = (ts'.flatMap Tag.encode).length) : ts = ts' := by
  have hpos : ∀ t : Tag, ∀ l : List Tag, 0 < ((t :: l).flatMap Tag.encode).length := fun t l => by
    rw [List.flatMap_cons, List.length_append, Tag.length_encode, Tag.size]
    omega
  induction ts generalizing ts' with
  | nil =>
    cases ts' with
    | nil => rfl
    | cons t' ts' => exact absurd hlength (hpos t' ts').ne
  | cons t ts ih =>
    cases ts' with
    | nil => exact absurd hlength (hpos t ts).ne'
    | cons t' ts' =>
      rw [List.flatMap_cons, List.flatMap_cons, List.append_assoc, List.append_assoc] at h
      obtain ⟨rfl, hrest⟩ := Tag.eq_of_encode h
      rw [List.flatMap_cons, List.flatMap_cons, List.length_append, List.length_append] at hlength
      rw [ih hrest (Nat.add_left_cancel hlength)]

/-- A file begins with one container at most. -/
theorem Container.eq_of_encode {c c' : Container} (h : c.encode <+: buf) (h' : c'.encode <+: buf) :
    c = c' := by
  have hsize := c.size_lt
  have hsize' := c'.size_lt
  have hdata := c.dataSize_le
  have hdata' := c'.dataSize_le
  have hcsize : c.size = 20 + (c.tags.flatMap Tag.encode).length := rfl
  have hcsize' : c'.size = 20 + (c'.tags.flatMap Tag.encode).length := rfl
  obtain ⟨r, rfl⟩ := h
  obtain ⟨r', h⟩ := h'
  simp only [Container.encode, List.append_assoc] at h
  obtain ⟨-, h⟩ := encode_inj (by decide) (by decide) h
  obtain ⟨htotal, h⟩ := encode_inj (by omega) (by omega) h
  obtain ⟨hdataSize, h⟩ := encode_inj (by omega) (by omega) h
  obtain ⟨hsigned, h⟩ := encode_inj c'.signedSize_lt c.signedSize_lt h
  obtain ⟨hident, h⟩ := encode_inj c'.ident_lt c.ident_lt h
  have htags := tags_eq h (by omega)
  cases c
  cases c'
  dsimp only at hdataSize hsigned hident htags
  subst hdataSize hsigned hident htags
  rfl

/-! ### The result -/

/-- The payload that a result points to. -/
def Image.payload (buf : List Byte) (img : Image) : Option (List Byte) :=
  img.data.map fun d => (buf.drop d).take img.dataLen

/-- The payload of the last `DATA` tag. -/
def lastData : List Tag → Option (List Byte)
  | [] => none
  | t :: ts => (lastData ts).or (if t.magic = img3TagData then some t.data else none)

/-- There is a `KBAG` tag. -/
def HasKbag (ts : List Tag) : Prop := ∃ t ∈ ts, t.magic = img3TagKbag

end S5LBox.Firmware.Img3
