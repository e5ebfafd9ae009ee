import Mathlib.Data.List.GetD
import S5LBox.Net.Stack

/-!
# The names in DNS questions

A name is a list of labels, each with its length in front of it, and a zero at its end. The parser
of the resolver reads a name off the front of a message and gives its dotted form.

The parser compares with the limit of RFC 1035 before it has counted the zero.

## Main definitions

* `DnsLabel`: a label of a host name.
* `nameWire`, `nameText`: the two forms of a name.
* `Names limit p r`: a name of at most `limit` octets is at the front of `p`, and `r` its length and
  its text.
* `dnsNameRead`: the parser with its reads.

## Main results

* `dnsName_eq_some_iff`: which names the parser accepts.
* `dnsName_exact`: when they are those of RFC 1035.
-/

namespace S5LBox.Net

/-! ### Names -/

/-- A label of a host name. -/
@[ext]
structure DnsLabel where
  octets : List Byte
  ne_nil : octets ≠ []
  length_le : octets.length ≤ 63
  host : octets.all dnsOctet = true

/-- A label on the wire. -/
def DnsLabel.wire (l : DnsLabel) : List Byte := BitVec.ofNat 8 l.octets.length :: l.octets

/-- A name on the wire. -/
def nameWire (ls : List DnsLabel) : List Byte := ls.flatMap DnsLabel.wire ++ [0]

/-- The dotted form of a name. -/
def nameText (ls : List DnsLabel) : List Byte := [0x2e].intercalate (ls.map DnsLabel.octets)

/-- A name that is not the root, of at most `limit` octets, is at the front of `p`. Its length on the
wire and its text are `r`. -/
def Names (limit : Nat) (p : List Byte) (r : Nat × List Byte) : Prop :=
  ∃ ls : List DnsLabel, ls ≠ [] ∧ nameWire ls <+: p ∧ (nameWire ls).length ≤ limit ∧
    r = ((nameWire ls).length, nameText ls)

theorem nameWire_cons (l : DnsLabel) (ls : List DnsLabel) :
    nameWire (l :: ls) = BitVec.ofNat 8 l.octets.length :: (l.octets ++ nameWire ls) := by
  simp [nameWire, DnsLabel.wire]

theorem length_nameWire_pos (ls : List DnsLabel) : 0 < (nameWire ls).length := by
  simp [nameWire]

theorem length_nameWire_cons (l : DnsLabel) (ls : List DnsLabel) :
    (nameWire (l :: ls)).length = 1 + l.octets.length + (nameWire ls).length := by
  rw [nameWire_cons, List.length_cons, List.length_append]
  omega

theorem nameText_cons (l : DnsLabel) (ls : List DnsLabel) :
    nameText (l :: ls) = l.octets ++ ls.flatMap fun m => 0x2e :: m.octets := by
  induction ls generalizing l with
  | nil => simp [nameText, List.intercalate]
  | cons m ls ih =>
    have htail := ih m
    rw [nameText, List.map_cons, List.intercalate] at htail
    rw [nameText, List.map_cons, List.map_cons, List.intercalate, List.intersperse_cons_cons]
    rw [List.flatten_cons, List.flatten_cons, htail]
    rfl

/-- The text has a dot or nothing in the place of each length, and nothing in that of the zero. -/
theorem length_nameText {ls : List DnsLabel} (h : ls ≠ []) :
    (nameText ls).length + 2 = (nameWire ls).length := by
  obtain ⟨l, ls, rfl⟩ := List.exists_cons_of_ne_nil h
  have htail (ms : List DnsLabel) : (ms.flatMap fun m => 0x2e :: m.octets).length + 1 =
      (nameWire ms).length := by
    induction ms with
    | nil => rfl
    | cons m ms ih =>
      rw [List.flatMap_cons, List.length_append, List.length_cons, length_nameWire_cons]
      omega
  have hlen := htail ls
  rw [nameText_cons, List.length_append, length_nameWire_cons]
  omega

theorem nameText_ne_nil {ls : List DnsLabel} (h : ls ≠ []) : nameText ls ≠ [] := by
  obtain ⟨l, ls, rfl⟩ := List.exists_cons_of_ne_nil h
  rw [nameText_cons]
  exact List.append_ne_nil_of_left_ne_nil l.ne_nil _

theorem DnsLabel.toNat_length (l : DnsLabel) :
    (BitVec.ofNat 8 l.octets.length).toNat = l.octets.length := by
  have hle := l.length_le
  rw [BitVec.toNat_ofNat]
  omega

theorem DnsLabel.length_pos (l : DnsLabel) : 0 < l.octets.length := List.length_pos_of_ne_nil l.ne_nil

theorem DnsLabel.length_and (l : DnsLabel) : BitVec.ofNat 8 l.octets.length &&& 0xc0 = 0 := by
  have hall : ∀ n < 64, BitVec.ofNat 8 n &&& 0xc0 = 0 := by decide
  exact hall _ (Nat.lt_succ_of_le l.length_le)

/-! ### The parser -/

theorem foldl_dnsPush {cap : Nat} {out label : List Byte} (h : out.length + label.length < cap) :
    label.foldl (dnsPush cap) out = out ++ label := by
  induction label generalizing out with
  | nil => exact (List.append_nil out).symm
  | cons c label ih =>
    rw [List.length_cons] at h
    have hroom : out.length + 1 < cap := by omega
    rw [List.foldl_cons, dnsPush, if_pos hroom, ih, List.append_assoc]
    · rfl
    · rw [List.length_append, List.length_singleton]
      omega

/-- The text behind a label. -/
def withLabel (out label : List Byte) : List Byte :=
  (if out.isEmpty then out else out ++ [0x2e]) ++ label

/-- The text that the parser has written when it has come to place `k`. -/
def Written (k : Nat) (out : List Byte) : Prop :=
  out = [] ∧ k = 0 ∨ out ≠ [] ∧ out.length + 1 = k

variable {out : List Byte}

theorem Written.withLabel {k : Nat} (h : Written k out) (l : DnsLabel) :
    Written (k + 1 + l.octets.length) (withLabel out l.octets) := by
  have hpos := l.length_pos
  obtain ⟨rfl, rfl⟩ | ⟨hne, hlen⟩ := h
  · refine .inr ⟨l.ne_nil, ?_⟩
    simp [Net.withLabel]
    omega
  · have hempty : out.isEmpty = false := by simpa using hne
    refine .inr ⟨?_, ?_⟩
    · simp [Net.withLabel, hempty]
    · simp [Net.withLabel, hempty]
      omega

/-- There is room for a label that does not go beyond the limit. -/
theorem Written.push {k : Nat} (h : Written k out) {label : List Byte}
    (hlimit : k + 1 + label.length ≤ 255) :
    label.foldl (dnsPush 256) (if out.isEmpty then out else dnsPush 256 out 0x2e) =
      Net.withLabel out label := by
  obtain ⟨rfl, rfl⟩ | ⟨hne, hlen⟩ := h
  · exact foldl_dnsPush (by simp; omega)
  · have hempty : out.isEmpty = false := by simpa using hne
    have hroom : out.length + 1 < 256 := by omega
    rw [hempty, if_neg Bool.false_ne_true, dnsPush, if_pos hroom, foldl_dnsPush, Net.withLabel,
      hempty, if_neg Bool.false_ne_true]
    rw [List.length_append, List.length_singleton]
    omega

/-- The text when the labels are done. -/
def withLabels (out : List Byte) (ls : List DnsLabel) : List Byte :=
  ls.foldl (fun out l => withLabel out l.octets) out

theorem withLabels_of_ne_nil (h : out ≠ []) (ls : List DnsLabel) :
    withLabels out ls = out ++ ls.flatMap fun m => 0x2e :: m.octets := by
  induction ls generalizing out with
  | nil => exact (List.append_nil out).symm
  | cons l ls ih =>
    have hempty : out.isEmpty = false := by simpa using h
    have hne : withLabel out l.octets ≠ [] := by simp [withLabel, hempty]
    have hstep : withLabels out (l :: ls) = withLabels (withLabel out l.octets) ls := rfl
    rw [hstep, ih hne, withLabel, hempty]
    simp

theorem withLabels_nil (ls : List DnsLabel) : withLabels [] ls = nameText ls := by
  cases ls with
  | nil => rfl
  | cons l ls =>
    have hstep : withLabels [] (l :: ls) = withLabels l.octets ls := rfl
    rw [hstep, withLabels_of_ne_nil l.ne_nil, nameText_cons]

/-- A list that starts with a piece starts with what is behind it, one piece on. -/
theorem append_prefix_iff {a w q : List Byte} :
    a ++ w <+: q ↔ a = q.take a.length ∧ w <+: q.drop a.length := by
  constructor
  · rintro ⟨rest, rfl⟩
    simp
  · rintro ⟨ha, rest, hrest⟩
    refine ⟨rest, ?_⟩
    calc a ++ w ++ rest = a ++ q.drop a.length := by rw [List.append_assoc, hrest]
      _ = q.take a.length ++ q.drop a.length := congrArg (· ++ q.drop a.length) ha
      _ = q := List.take_append_drop _ q

theorem nameWire_cons_prefix_iff {l : DnsLabel} {ls : List DnsLabel} {b : Byte} {q : List Byte} :
    nameWire (l :: ls) <+: b :: q ↔
      b = BitVec.ofNat 8 l.octets.length ∧ l.octets = q.take l.octets.length ∧
        nameWire ls <+: q.drop l.octets.length := by
  rw [nameWire_cons, List.cons_prefix_cons, append_prefix_iff, eq_comm]

variable {p : List Byte}

/-- The parser takes the names that are there and whose labels do not go beyond the limit. -/
theorem dnsLabels_eq_some_iff {n k : Nat} (hfuel : p.length < n + k) (hlimit : k ≤ 255)
    (hout : Written k out) (r : Nat × List Byte) :
    dnsLabels p 256 n k out = some r ↔
      ∃ ls : List DnsLabel, nameWire ls <+: p.drop k ∧ k + (nameWire ls).length ≤ 256 ∧
        r = (k + (nameWire ls).length, withLabels out ls) := by
  have hpast {k : Nat} (hk : p.length ≤ k) (ls : List DnsLabel) : ¬nameWire ls <+: p.drop k := by
    intro hprefix
    have hlen := hprefix.length_le
    have hpos := length_nameWire_pos ls
    rw [List.length_drop] at hlen
    omega
  induction n generalizing k out with
  | zero =>
    rw [dnsLabels]
    refine ⟨nofun, fun ⟨ls, hprefix, _⟩ => absurd hprefix (hpast (by omega) ls)⟩
  | succ n ih =>
    rw [dnsLabels]
    split
    case isTrue hend => exact ⟨nofun, fun ⟨ls, hprefix, _⟩ => absurd hprefix (hpast hend ls)⟩
    case isFalse hend =>
    have hk : k < p.length := Nat.lt_of_not_le hend
    have hhead : p.drop k = p.getD k 0 :: p.drop (k + 1) := by
      rw [List.drop_eq_getElem_cons hk, List.getD_eq_getElem _ _ hk]
    rw [hhead]
    generalize p.getD k 0 = b
    -- a name here is the root, or it starts with a label of this length
    have hno (hb : b.toNat ≠ 0)
        (hlabel : ∀ l : DnsLabel, ∀ ls, l.octets.length = b.toNat →
          l.octets = (p.drop (k + 1)).take b.toNat →
          nameWire ls <+: (p.drop (k + 1)).drop b.toNat →
          k + (1 + b.toNat + (nameWire ls).length) ≤ 256 → False) :
        (none : Option (Nat × List Byte)) = some r ↔
          ∃ ls : List DnsLabel, nameWire ls <+: b :: p.drop (k + 1) ∧
            k + (nameWire ls).length ≤ 256 ∧ r = (k + (nameWire ls).length, withLabels out ls) := by
      refine ⟨nofun, fun ⟨ls, hprefix, hle, _⟩ => ?_⟩
      cases ls with
      | nil =>
        have hzero : (0 : Byte) = b := (List.cons_prefix_cons.mp hprefix).1
        exact absurd (hzero ▸ rfl) hb
      | cons l ls =>
        obtain ⟨rfl, hoctets, htail⟩ := nameWire_cons_prefix_iff.mp hprefix
        rw [length_nameWire_cons] at hle
        rw [l.toNat_length] at hlabel
        exact (hlabel l ls rfl hoctets htail hle).elim
    dsimp only
    split
    case isTrue hroot =>
      have hb : b = 0 := BitVec.eq_of_toNat_eq hroot
      constructor
      · intro heq
        refine ⟨[], ⟨p.drop (k + 1), by rw [hb]; rfl⟩, by change k + 1 ≤ 256; omega, ?_⟩
        exact (Option.some.inj heq).symm
      · rintro ⟨ls, hprefix, -, rfl⟩
        cases ls with
        | nil => rfl
        | cons l ls =>
          have hlen := congrArg BitVec.toNat (nameWire_cons_prefix_iff.mp hprefix).1
          rw [l.toNat_length, hroot] at hlen
          exact absurd hlen l.length_pos.ne
    case isFalse hroot =>
    split
    case isTrue hpointer =>
      refine hno hroot fun l ls hlen _ _ _ => hpointer ?_
      rw [← l.length_and, hlen, BitVec.ofNat_toNat, BitVec.setWidth_eq]
    case isFalse =>
    split
    case isTrue hlong => exact hno hroot fun l ls hlen _ _ _ => absurd l.length_le (by omega)
    case isFalse hlong =>
    split
    case isTrue hshort =>
      refine hno hroot fun l ls _ _ htail _ => hpast (k := k + 1 + b.toNat) (by omega) ls ?_
      rwa [← List.drop_drop]
    case isFalse hshort =>
    have hlength : ((p.drop (k + 1)).take b.toNat).length = b.toNat := by
      rw [List.length_take, List.length_drop]
      omega
    split
    case isTrue hoctet =>
      refine hno hroot fun l ls _ hoctets _ _ => ?_
      rw [← hoctets, l.host] at hoctet
      exact absurd hoctet (by decide)
    case isFalse hoctet =>
    split
    case isTrue hover =>
      refine hno hroot fun l ls _ _ _ hle => ?_
      have hpos := length_nameWire_pos ls
      omega
    case isFalse hover =>
    -- the label is taken
    let l : DnsLabel :=
      { octets := (p.drop (k + 1)).take b.toNat
        ne_nil := List.ne_nil_of_length_pos (by omega)
        length_le := by omega
        host := by simpa using hoctet }
    have hl : l.octets.length = b.toNat := hlength
    have hover' : k + 1 + ((p.drop (k + 1)).take b.toNat).length ≤ 255 := by omega
    rw [hout.push hover', show k + 1 + b.toNat = k + 1 + l.octets.length from hl ▸ rfl]
    refine (ih (by omega) (by omega) (hout.withLabel l)).trans ?_
    have hrest : p.drop (k + 1 + l.octets.length) = (p.drop (k + 1)).drop l.octets.length := by
      rw [List.drop_drop]
    rw [hrest]
    constructor
    · rintro ⟨ls, hprefix, hle, rfl⟩
      have hb : b = BitVec.ofNat 8 l.octets.length := by
        rw [hl, BitVec.ofNat_toNat, BitVec.setWidth_eq]
      refine ⟨l :: ls, nameWire_cons_prefix_iff.mpr ⟨hb, ?_, hprefix⟩, ?_, ?_⟩
      · rw [hl]
      · rw [length_nameWire_cons]
        omega
      · rw [length_nameWire_cons, ← Nat.add_assoc, ← Nat.add_assoc]
        rfl
    · rintro ⟨ls, hprefix, hle, rfl⟩
      cases ls with
      | nil =>
        have hzero : (0 : Byte) = b := (List.cons_prefix_cons.mp hprefix).1
        exact absurd (hzero ▸ rfl) hroot
      | cons m ls =>
        obtain ⟨rfl, hoctets, htail⟩ := nameWire_cons_prefix_iff.mp hprefix
        have hm : l = m := by
          ext1
          rw [hoctets]
          show (p.drop (k + 1)).take _ = _
          rw [m.toNat_length]
        rw [length_nameWire_cons] at hle ⊢
        rw [hm]
        refine ⟨ls, htail, by omega, ?_⟩
        rw [← Nat.add_assoc, ← Nat.add_assoc]
        rfl

/-- The parser accepts a name whose wire form, the zero included, has no more than 256 octets. -/
theorem dnsName_eq_some_iff (p : List Byte) (r : Nat × List Byte) :
    dnsName p 256 = some r ↔ Names 256 p r := by
  have hlabels (r' : Nat × List Byte) : dnsLabels p 256 (p.length + 1) 0 [] = some r' ↔ _ :=
    dnsLabels_eq_some_iff (by omega) (by omega) (.inl ⟨rfl, rfl⟩) r'
  rw [dnsName]
  constructor
  · intro h
    cases hrun : dnsLabels p 256 (p.length + 1) 0 [] with
    | none =>
      rw [hrun] at h
      cases h
    | some r' =>
      obtain ⟨ls, hprefix, hle, rfl⟩ := (hlabels r').mp hrun
      rw [hrun, withLabels_nil] at h
      dsimp only at h
      split at h
      case isTrue => cases h
      case isFalse hsome =>
        have hne : ls ≠ [] := by
          rintro rfl
          exact hsome (.inr rfl)
        rw [Nat.zero_add] at h hle
        exact ⟨ls, hne, hprefix, hle, (Option.some.inj h).symm⟩
  · rintro ⟨ls, hne, hprefix, hle, rfl⟩
    have htext := length_nameText hne
    have hrun := (hlabels (0 + (nameWire ls).length, withLabels [] ls)).mpr
      ⟨ls, hprefix, by omega, rfl⟩
    rw [hrun, withLabels_nil]
    dsimp only
    rw [if_neg, Nat.zero_add]
    rintro (hlong | hempty)
    · omega
    · exact nameText_ne_nil hne (List.isEmpty_iff.mp hempty)

/-! ### The reads of the parser -/

/-- A read of the message, which must not go past its end. -/
def readOctet (p : List Byte) (k : Nat) : Except Unit Byte :=
  match p[k]? with
  | some c => .ok c
  | none => .error ()

/-- The loop of `dns_name` over the octets of a label. -/
def dnsLabelRead (p : List Byte) (cap : Nat) : Nat → Nat → List Byte → Except Unit (Option (List Byte))
  | 0, _, out => .ok (some out)
  | l + 1, k, out => do
    let c ← readOctet p k
    if !dnsOctet c then .ok none else dnsLabelRead p cap l (k + 1) (dnsPush cap out c)

/-- The loop of `dns_name` over the labels, with its reads. Every turn goes on by a label. -/
def dnsLabelsRead (p : List Byte) (cap k : Nat) (out : List Byte) :
    Except Unit (Option (Nat × List Byte)) :=
  if _ : p.length ≤ k then .ok none
  else do
    let c ← readOctet p k
    let l := c.toNat
    if l = 0 then .ok (some (k + 1, out))
    else if c &&& 0xc0 ≠ 0 then .ok none
    else if 63 < l then .ok none
    else if p.length < k + 1 + l then .ok none
    else
      match ← dnsLabelRead p cap l (k + 1) (if out.isEmpty then out else dnsPush cap out 0x2e) with
      | none => .ok none
      | some out => if 255 < k + 1 + l then .ok none else dnsLabelsRead p cap (k + 1 + l) out
termination_by p.length - k

/-- `dns_name`, with its reads. -/
def dnsNameRead (p : List Byte) (cap : Nat) : Except Unit (Option (Nat × List Byte)) := do
  match ← dnsLabelsRead p cap 0 [] with
  | some (k, out) => .ok (if cap ≤ out.length ∨ out.isEmpty then none else some (k, out))
  | none => .ok none

theorem readOctet_eq {k : Nat} (h : k < p.length) :
    readOctet p k = .ok (p.getD k 0) := by
  rw [readOctet, List.getElem?_eq_getElem h, List.getD_eq_getElem _ _ h]

theorem dnsLabelRead_eq {cap l k : Nat} (h : k + l ≤ p.length) :
    dnsLabelRead p cap l k out =
      .ok (if ((p.drop k).take l).all dnsOctet then
        some (((p.drop k).take l).foldl (dnsPush cap) out) else none) := by
  induction l generalizing k out with
  | zero => rfl
  | succ l ih =>
    have hk : k < p.length := by omega
    have hhead : (p.drop k).take (l + 1) = p.getD k 0 :: (p.drop (k + 1)).take l := by
      rw [List.drop_eq_getElem_cons hk, List.take_succ_cons, List.getD_eq_getElem _ _ hk]
    rw [dnsLabelRead, readOctet_eq hk, hhead, List.all_cons, List.foldl_cons]
    change (if (!dnsOctet (p.getD k 0)) = true then _ else _) = _
    cases hoctet : dnsOctet (p.getD k 0) with
    | false => rfl
    | true =>
      rw [Bool.not_true, if_neg Bool.false_ne_true, Bool.true_and]
      exact ih (by omega)

theorem dnsLabelsRead_eq {cap n k : Nat} (hfuel : p.length < n + k) :
    dnsLabelsRead p cap k out = .ok (dnsLabels p cap n k out) := by
  induction n generalizing k out with
  | zero => rw [dnsLabelsRead, dif_pos (by omega), dnsLabels]
  | succ n ih =>
    rw [dnsLabelsRead, dnsLabels]
    by_cases hend : p.length ≤ k
    · rw [dif_pos hend, if_pos hend]
    rw [dif_neg hend, if_neg hend, readOctet_eq (Nat.lt_of_not_le hend)]
    change (if (p.getD k 0).toNat = 0 then _ else _) = _
    dsimp only
    generalize p.getD k 0 = c
    split
    · rfl
    split
    · rfl
    split
    · rfl
    split
    · rfl
    case isFalse hroot _ _ hroom =>
    rw [dnsLabelRead_eq (Nat.le_of_not_lt hroom)]
    cases hall : ((p.drop (k + 1)).take c.toNat).all dnsOctet with
    | false => rfl
    | true =>
      change (if 255 < k + 1 + c.toNat then _ else _) = _
      rw [Bool.not_true, if_neg Bool.false_ne_true]
      split
      · rfl
      · exact ih (by omega)

theorem dnsNameRead_eq (p : List Byte) (cap : Nat) : dnsNameRead p cap = .ok (dnsName p cap) := by
  rw [dnsNameRead, dnsLabelsRead_eq (Nat.lt_succ_self p.length), dnsName]
  cases dnsLabels p cap (p.length + 1) 0 [] <;> rfl

/-! ### The limit -/

theorem Names.mono {limit limit' : Nat} (h : limit ≤ limit') {r : Nat × List Byte}
    (hr : Names limit p r) : Names limit' p r := by
  obtain ⟨ls, hne, hprefix, hle, rfl⟩ := hr
  exact ⟨ls, hne, hprefix, hle.trans h, rfl⟩

/-- The parser reads no octet past the message, and it accepts the names of RFC 1035 with their
length and their text exactly if the message does not start with a name of one octet more. -/
theorem dnsName_exact (p : List Byte) :
    dnsNameRead p 256 = .ok (dnsName p 256) ∧
      ((∀ r, dnsName p 256 = some r ↔ Names 255 p r) ↔ ¬∃ text, Names 256 p (256, text)) := by
  refine ⟨dnsNameRead_eq p 256, ?_⟩
  constructor
  · rintro hexact ⟨text, hname⟩
    obtain ⟨ls, -, -, hle, hr⟩ := (hexact _).mp ((dnsName_eq_some_iff p _).mpr hname)
    have hlen : 256 = (nameWire ls).length := congrArg Prod.fst hr
    omega
  · intro hno r
    rw [dnsName_eq_some_iff]
    refine ⟨?_, Names.mono (by decide)⟩
    rintro ⟨ls, hne, hprefix, hle, rfl⟩
    refine ⟨ls, hne, hprefix, ?_, rfl⟩
    by_contra hlong
    have hlen : (nameWire ls).length = 256 := by omega
    exact hno ⟨nameText ls, ls, hne, hprefix, hle, by rw [hlen]⟩

/-- A label of one letter, repeated. -/
def repeatedLabel (n : Nat) (hpos : n ≠ 0) (hle : n ≤ 63) : DnsLabel where
  octets := List.replicate n 0x61
  ne_nil := by simpa using hpos
  length_le := by simpa using hle
  host := by
    rw [List.all_replicate, if_neg hpos]
    decide

/-- Three labels of the greatest length, and one with an octet less. -/
def longName : List DnsLabel :=
  [repeatedLabel 63 (by decide) (by decide), repeatedLabel 63 (by decide) (by decide),
    repeatedLabel 63 (by decide) (by decide), repeatedLabel 62 (by decide) (by decide)]

/-- A name of 256 octets is accepted, and it is not one of RFC 1035. -/
theorem dnsName_inexact : ¬∀ p r, dnsName p 256 = some r ↔ Names 255 p r := by
  intro hexact
  have hlen : (nameWire longName).length = 256 := by
    rw [longName, length_nameWire_cons, length_nameWire_cons, length_nameWire_cons,
      length_nameWire_cons]
    simp [repeatedLabel, nameWire]
  have hname : Names 256 (nameWire longName) (256, nameText longName) :=
    ⟨longName, nofun, List.prefix_rfl, hlen.le, by rw [hlen]⟩
  obtain ⟨ls, -, -, hle, hr⟩ := (hexact _ _).mp ((dnsName_eq_some_iff _ _).mpr hname)
  have hlen' : 256 = (nameWire ls).length := congrArg Prod.fst hr
  omega

end S5LBox.Net
