import S5LBox.Net.Checksums
import S5LBox.Net.Flow
import S5LBox.Lib.SerialNumbers

/-!
# Coalescing what is received

Two datagrams that carry neighbouring parts of one stream are joined before the guest sees them. A
receiver in order is brought to the same state by the joined datagram as by the two.

## Main definitions

* `PlainTcpData`: the datagrams that are joined.
* `netTcpReceiveCoalesce`: the joining of two of them.
* `Receiver`: the receiver in order.

## Main results

* `coalesce_transparent`: what a joined datagram is, and what it does to a receiver.
-/

namespace S5LBox.Net

/-! ### The source -/

/-- `plain_tcp_data`. -/
structure PlainTcpData (p : List Byte) : Prop where
  hasData : 40 < p.length
  short : p.length ≤ 0xffff
  version : p.getD 0 0 = 0x45
  total : (netRd16 p 2).toNat = p.length
  whole : netRd16 p 6 = 0x4000
  proto : p.getD 9 0 = BitVec.ofNat 8 netProtoTcp
  offset : p.getD 32 0 = 0x50
  flags : p.getD 33 0 = 0x10 ∨ p.getD 33 0 = 0x18
  urgent : netRd16 p 38 = 0
  header : netChecksum (p.take 20) = 0
  segment : netL4Checksum (netRd32 p 12) (netRd32 p 16) netProtoTcp (p.drop 20) = 0

theorem plainTcpData_iff (p : List Byte) :
    PlainTcpData p ↔ 40 < p.length ∧ p.length ≤ 0xffff ∧ p.getD 0 0 = 0x45 ∧
      (netRd16 p 2).toNat = p.length ∧ netRd16 p 6 = 0x4000 ∧
      p.getD 9 0 = BitVec.ofNat 8 netProtoTcp ∧ p.getD 32 0 = 0x50 ∧
      (p.getD 33 0 = 0x10 ∨ p.getD 33 0 = 0x18) ∧ netRd16 p 38 = 0 ∧
      netChecksum (p.take 20) = 0 ∧
      netL4Checksum (netRd32 p 12) (netRd32 p 16) netProtoTcp (p.drop 20) = 0 :=
  ⟨fun h => ⟨h.hasData, h.short, h.version, h.total, h.whole, h.proto, h.offset, h.flags,
      h.urgent, h.header, h.segment⟩,
    fun ⟨h₁, h₂, h₃, h₄, h₅, h₆, h₇, h₈, h₉, h₁₀, h₁₁⟩ =>
      ⟨h₁, h₂, h₃, h₄, h₅, h₆, h₇, h₈, h₉, h₁₀, h₁₁⟩⟩

instance : DecidablePred PlainTcpData := fun p => decidable_of_iff _ (plainTcpData_iff p).symm

/-- The octets that `memcmp` compares. -/
def octetsAt (p : List Byte) (k n : Nat) : List Byte := (p.drop k).take n

/-- The header checksum is computed with its field at zero and written there. -/
def writeHeaderChecksum (p : List Byte) : List Byte :=
  let p := netPut16 p 10 0
  netPut16 p 10 (netChecksum (p.take 20))

/-- So is the one of the segment. -/
def writeSegmentChecksum (p : List Byte) : List Byte :=
  let p := netPut16 p 36 0
  netPut16 p 36 (netL4Checksum (netRd32 p 12) (netRd32 p 16) netProtoTcp (p.drop 20))

/-- The datagram that two make. -/
def joined (dst next : List Byte) : List Byte :=
  let p := dst ++ next.drop 40
  let p := p.set 33 (dst.getD 33 0 ||| next.getD 33 0)
  let p := netPut16 p 2 (BitVec.ofNat 16 (dst.length + (next.length - 40)))
  writeSegmentChecksum (writeHeaderChecksum p)

/-- `net_tcp_receive_coalesce`: the length it returns, and the octets at `dst` afterwards. -/
def netTcpReceiveCoalesce (dst : List Byte) (capacity : Nat) (next : List Byte) :
    Nat × List Byte :=
  if capacity < dst.length ∨ ¬PlainTcpData dst ∨ ¬PlainTcpData next ∨
      capacity - dst.length < next.length - 40 ∨ 0xffff < dst.length + next.length - 40 ∨
      dst.getD 1 0 ≠ next.getD 1 0 ∨ dst.getD 8 0 ≠ next.getD 8 0 ∨
      octetsAt dst 12 12 ≠ octetsAt next 12 12 ∨ octetsAt dst 28 4 ≠ octetsAt next 28 4 ∨
      octetsAt dst 34 2 ≠ octetsAt next 34 2 ∨
      netRd32 next 24 ≠ netRd32 dst 24 + BitVec.ofNat 32 (dst.length - 40) then
    (0, dst)
  else (dst.length + (next.length - 40), joined dst next)

/-! ### The joined datagram -/

section Checksums

variable {p : List Byte}

theorem writeHeaderChecksum_eq (h : 20 ≤ p.length) :
    writeHeaderChecksum p = netPut16 p 10 (netChecksum (netPut16 (p.take 20) 10 0)) := by
  rw [writeHeaderChecksum, netPut16_netPut16 _ _ (by omega), take_netPut16 _ (by decide) h]

theorem writeSegmentChecksum_eq (h : 40 ≤ p.length) :
    writeSegmentChecksum p = netPut16 p 36 (netL4Checksum (netRd32 p 12) (netRd32 p 16) netProtoTcp
      (netPut16 (p.drop 20) 16 0)) := by
  rw [writeSegmentChecksum, netPut16_netPut16 _ _ (by omega),
    netRd32_netPut16_of_ne _ (by omega) (by decide),
    netRd32_netPut16_of_ne _ (by omega) (by decide), drop_netPut16 _ (by decide) (by omega)]

theorem netChecksum_writeHeaderChecksum (h : 20 ≤ p.length) :
    netChecksum ((writeHeaderChecksum p).take 20) = 0 := by
  have hlen : (p.take 20).length = 20 := List.length_take_of_le h
  rw [writeHeaderChecksum_eq h, take_netPut16 _ (by decide) h]
  exact netChecksum_verifies (by decide) (by omega) (by omega)

theorem netL4Checksum_writeSegmentChecksum (h : 40 ≤ p.length) (hshort : p.length ≤ 0xffff) :
    netL4Checksum (netRd32 (writeSegmentChecksum p) 12) (netRd32 (writeSegmentChecksum p) 16)
      netProtoTcp ((writeSegmentChecksum p).drop 20) = 0 := by
  have hlen : (p.drop 20).length = p.length - 20 := List.length_drop
  rw [writeSegmentChecksum_eq h, netRd32_netPut16_of_ne _ (by omega) (by decide),
    netRd32_netPut16_of_ne _ (by omega) (by decide), drop_netPut16 _ (by decide) (by omega)]
  exact netL4Checksum_verifies _ _ _ (by decide) (by omega) (by omega)

theorem sameOff_writeHeaderChecksum (h : 20 ≤ p.length) :
    SameOff [10, 11] p (writeHeaderChecksum p) := by
  rw [writeHeaderChecksum_eq h]
  exact sameOff_netPut16 _ (by omega)

theorem sameOff_writeSegmentChecksum (h : 40 ≤ p.length) :
    SameOff [36, 37] p (writeSegmentChecksum p) := by
  rw [writeSegmentChecksum_eq h]
  exact sameOff_netPut16 _ (by omega)

theorem take_writeSegmentChecksum (h : 40 ≤ p.length) :
    (writeSegmentChecksum p).take 20 = p.take 20 := by
  rw [writeSegmentChecksum_eq h, take_netPut16_of_le _ (by decide) (by omega)]

end Checksums

section Joined

variable {dst next : List Byte}

/-- The flags and the length of the joined datagram are written before its checksums. -/
def unchecked (dst next : List Byte) : List Byte :=
  netPut16 ((dst ++ next.drop 40).set 33 (dst.getD 33 0 ||| next.getD 33 0)) 2
    (BitVec.ofNat 16 (dst.length + (next.length - 40)))

theorem joined_eq :
    joined dst next = writeSegmentChecksum (writeHeaderChecksum (unchecked dst next)) := rfl

theorem length_fresh (b : Byte) : ((dst ++ next.drop 40).set 33 b).length =
    dst.length + (next.length - 40) := by
  rw [List.length_set, List.length_append, List.length_drop]

theorem length_unchecked (next : List Byte) (h : 40 ≤ dst.length) :
    (unchecked dst next).length = dst.length + (next.length - 40) := by
  rw [unchecked, length_netPut16, length_fresh]
  rw [length_fresh]
  omega

/-- The checksums are the only fields that the last steps change. -/
theorem sameOff_unchecked (h : 40 ≤ dst.length) :
    SameOff [10, 11, 36, 37] (unchecked dst next) (joined dst next) := by
  have hlen := length_unchecked next h
  have hheader := sameOff_writeHeaderChecksum (p := unchecked dst next) (by omega)
  have hlen' := hheader.length
  rw [joined_eq]
  exact hheader.trans (sameOff_writeSegmentChecksum (by omega))

/-- The joined datagram is the first with the octets of the second behind it, apart from the fields
that are written. -/
theorem sameOff_joined (h : 40 ≤ dst.length) :
    SameOff [33, 2, 3, 10, 11, 36, 37] (dst ++ next.drop 40) (joined dst next) := by
  have hset := sameOff_set (dst ++ next.drop 40) 33 (dst.getD 33 0 ||| next.getD 33 0)
  have hput := sameOff_netPut16 (BitVec.ofNat 16 (dst.length + (next.length - 40)))
    (p := (dst ++ next.drop 40).set 33 (dst.getD 33 0 ||| next.getD 33 0)) (k := 2)
    (by rw [length_fresh]; omega)
  exact (hset.trans hput).trans (sameOff_unchecked h)

theorem length_joined (next : List Byte) (h : 40 ≤ dst.length) :
    (joined dst next).length = dst.length + (next.length - 40) :=
  (sameOff_unchecked h).length.trans (length_unchecked next h)

/-- The header of the joined datagram is that of the first, apart from the fields that are
written. -/
theorem getD_joined (h : 40 ≤ dst.length) {i : Nat} (hi : i ∉ [33, 2, 3, 10, 11, 36, 37])
    (hlt : i < 40) : (joined dst next).getD i 0 = dst.getD i 0 := by
  rw [(sameOff_joined h).getD i hi, List.getD_eq_getElem?_getD,
    List.getElem?_append_left (by omega), List.getD_eq_getElem?_getD]

theorem drop_joined (h : 40 ≤ dst.length) :
    (joined dst next).drop 40 = dst.drop 40 ++ next.drop 40 := by
  rw [(sameOff_joined h).drop (by decide), List.drop_append_of_le_length h]

theorem netRd16_joined (h : 40 ≤ dst.length) {i : Nat} (hi : i ∉ [33, 2, 3, 10, 11, 36, 37])
    (hi' : i + 1 ∉ [33, 2, 3, 10, 11, 36, 37]) (hlt : i + 1 < 40) :
    netRd16 (joined dst next) i = netRd16 dst i := by
  rw [netRd16, getD_joined h hi (by omega), getD_joined h hi' hlt, netRd16]

theorem netRd32_joined (h : 40 ≤ dst.length) {i : Nat} (hi : i ∉ [33, 2, 3, 10, 11, 36, 37])
    (h₁ : i + 1 ∉ [33, 2, 3, 10, 11, 36, 37]) (h₂ : i + 2 ∉ [33, 2, 3, 10, 11, 36, 37])
    (h₃ : i + 3 ∉ [33, 2, 3, 10, 11, 36, 37]) (hlt : i + 3 < 40) :
    netRd32 (joined dst next) i = netRd32 dst i := by
  rw [netRd32, getD_joined h hi (by omega), getD_joined h h₁ (by omega),
    getD_joined h h₂ (by omega), getD_joined h h₃ hlt, netRd32]

theorem getD_joined_flags (h : 40 ≤ dst.length) :
    (joined dst next).getD 33 0 = dst.getD 33 0 ||| next.getD 33 0 := by
  rw [(sameOff_unchecked h).getD 33 (by decide), unchecked,
    getD_netPut16_of_le _ (by rw [length_fresh]; omega) (by decide),
    List.getD_eq_getElem?_getD, List.getElem?_set_self]
  · rfl
  · rw [List.length_append]
    omega

theorem netRd16_joined_total (h : 40 ≤ dst.length) :
    netRd16 (joined dst next) 2 = BitVec.ofNat 16 (dst.length + (next.length - 40)) := by
  rw [(sameOff_unchecked h).netRd16 (by decide) (by decide), unchecked, netRd16_netPut16]
  rw [length_fresh]
  omega

/-- Two of the datagrams that are joined make one more. -/
theorem plainTcpData_joined (hdst : PlainTcpData dst) (hnext : PlainTcpData next)
    (hshort : dst.length + next.length - 40 ≤ 0xffff) : PlainTcpData (joined dst next) := by
  have h : 40 ≤ dst.length := hdst.hasData.le
  have hmore := hnext.hasData
  have hlen := length_joined next h
  have hunchecked := length_unchecked next h
  have hheader := (sameOff_writeHeaderChecksum (p := unchecked dst next) (by omega)).length
  constructor
  case hasData => omega
  case short => omega
  case version => rw [getD_joined h (by decide) (by decide), hdst.version]
  case total =>
    rw [netRd16_joined_total h, BitVec.toNat_ofNat, hlen]
    omega
  case whole => rw [netRd16_joined h (by decide) (by decide) (by decide), hdst.whole]
  case proto => rw [getD_joined h (by decide) (by decide), hdst.proto]
  case offset => rw [getD_joined h (by decide) (by decide), hdst.offset]
  case flags =>
    rw [getD_joined_flags h]
    obtain hfirst | hfirst := hdst.flags <;> obtain hsecond | hsecond := hnext.flags <;>
      rw [hfirst, hsecond] <;> decide
  case urgent => rw [netRd16_joined h (by decide) (by decide) (by decide), hdst.urgent]
  case header =>
    rw [joined_eq, take_writeSegmentChecksum (by omega)]
    exact netChecksum_writeHeaderChecksum (by omega)
  case segment =>
    rw [joined_eq]
    exact netL4Checksum_writeSegmentChecksum (by omega) (by omega)

end Joined

/-- The joining is refused, or it makes one datagram of two that carry neighbouring octets and
agree on what else a receiver reads. -/
theorem netTcpReceiveCoalesce_cases (dst : List Byte) (capacity : Nat) (next : List Byte) :
    netTcpReceiveCoalesce dst capacity next = (0, dst) ∨
      (PlainTcpData dst ∧ PlainTcpData next ∧ dst.length + (next.length - 40) ≤ capacity ∧
        dst.length + next.length - 40 ≤ 0xffff ∧ octetsAt dst 28 4 = octetsAt next 28 4 ∧
        octetsAt dst 34 2 = octetsAt next 34 2 ∧
        netRd32 next 24 = netRd32 dst 24 + BitVec.ofNat 32 (dst.length - 40) ∧
        netTcpReceiveCoalesce dst capacity next =
          (dst.length + (next.length - 40), joined dst next)) := by
  by_cases hrefused : capacity < dst.length ∨ ¬PlainTcpData dst ∨ ¬PlainTcpData next ∨
      capacity - dst.length < next.length - 40 ∨ 0xffff < dst.length + next.length - 40 ∨
      dst.getD 1 0 ≠ next.getD 1 0 ∨ dst.getD 8 0 ≠ next.getD 8 0 ∨
      octetsAt dst 12 12 ≠ octetsAt next 12 12 ∨ octetsAt dst 28 4 ≠ octetsAt next 28 4 ∨
      octetsAt dst 34 2 ≠ octetsAt next 34 2 ∨
      netRd32 next 24 ≠ netRd32 dst 24 + BitVec.ofNat 32 (dst.length - 40)
  · exact .inl (if_pos hrefused)
  · have hresult : netTcpReceiveCoalesce dst capacity next = _ := if_neg hrefused
    simp only [not_or, not_not, ne_eq, not_lt] at hrefused
    obtain ⟨hcap, hdst, hnext, hroom, hshort, -, -, -, hack, hwnd, hseq⟩ := hrefused
    exact .inr ⟨hdst, hnext, by omega, hshort, hack, hwnd, hseq, hresult⟩

theorem getD_octetsAt (p : List Byte) (k : Nat) {n j : Nat} (hj : j < n) :
    (octetsAt p k n).getD j 0 = p.getD (k + j) 0 := by
  rw [octetsAt, List.getD_eq_getElem?_getD, List.getElem?_take_of_lt hj, List.getElem?_drop,
    List.getD_eq_getElem?_getD]

theorem netRd16_eq_of_octetsAt {p q : List Byte} {k : Nat} (h : octetsAt p k 2 = octetsAt q k 2) :
    netRd16 p k = netRd16 q k := by
  have hget (j : Nat) (hj : j < 2) : p.getD (k + j) 0 = q.getD (k + j) 0 := by
    rw [← getD_octetsAt p k hj, h, getD_octetsAt q k hj]
  have hfirst := hget 0 (by decide)
  rw [Nat.add_zero] at hfirst
  rw [netRd16, hfirst, hget 1 (by decide), netRd16]

theorem netRd32_eq_of_octetsAt {p q : List Byte} {k : Nat} (h : octetsAt p k 4 = octetsAt q k 4) :
    netRd32 p k = netRd32 q k := by
  have hget (j : Nat) (hj : j < 4) : p.getD (k + j) 0 = q.getD (k + j) 0 := by
    rw [← getD_octetsAt p k hj, h, getD_octetsAt q k hj]
  have hfirst := hget 0 (by decide)
  rw [Nat.add_zero] at hfirst
  rw [netRd32, hfirst, hget 1 (by decide), hget 2 (by decide), hget 3 (by decide), netRd32]

/-! ### The receiver -/

/-- A receiver in order: the number of the octet that it waits for, which it acknowledges, the
octets that it has taken and the room for more, and what the other side acknowledges and offers. -/
structure Receiver where
  nxt : Word
  stream : List Byte
  room : Nat
  una : Word
  wnd : BitVec 16

namespace Receiver

/-- What a receiver takes of the octets of a segment: those from the one that it waits for, as many
as there is room for. -/
def fresh (r : Receiver) (seq : Word) (data : List Byte) : List Byte :=
  (data.drop (r.nxt - seq).toNat).take r.room

def takeData (r : Receiver) (seq : Word) (data : List Byte) : Receiver :=
  { r with
    nxt := r.nxt + BitVec.ofNat 32 (r.fresh seq data).length
    stream := r.stream ++ r.fresh seq data
    room := r.room - (r.fresh seq data).length }

/-- An acknowledgement that is new counts, and the window is the one that was offered last. -/
def takeAck (r : Receiver) (ack : Word) (wnd : BitVec 16) : Receiver :=
  { r with una := if SerialNumbers.Before r.una ack then ack else r.una, wnd := wnd }

/-- A datagram that verifies is taken. -/
def take (r : Receiver) (p : List Byte) : Receiver :=
  if netChecksum (p.take 20) = 0 ∧
      netL4Checksum (netRd32 p 12) (netRd32 p 16) netProtoTcp (p.drop 20) = 0 then
    (r.takeData (netRd32 p 24) (p.drop 40)).takeAck (netRd32 p 28) (netRd16 p 34)
  else r

theorem take_of_plain (r : Receiver) {p : List Byte} (h : PlainTcpData p) :
    r.take p = (r.takeData (netRd32 p 24) (p.drop 40)).takeAck (netRd32 p 28) (netRd16 p 34) :=
  if_pos ⟨h.header, h.segment⟩

/-- An acknowledgement that comes twice counts once. -/
theorem takeAck_takeAck (r : Receiver) (ack : Word) (wnd : BitVec 16) :
    (r.takeAck ack wnd).takeAck ack wnd = r.takeAck ack wnd := by
  by_cases hnew : SerialNumbers.Before r.una ack
  · have hself : ¬SerialNumbers.Before ack ack := by simp [SerialNumbers.Before]
    simp only [takeAck, if_pos hnew, if_neg hself]
  · simp only [takeAck, if_neg hnew]

theorem takeAck_takeData (r : Receiver) (ack : Word) (wnd : BitVec 16) (seq : Word)
    (data : List Byte) :
    (r.takeAck ack wnd).takeData seq data = (r.takeData seq data).takeAck ack wnd := rfl

theorem toNat_gap (nxt seq : Word) (k : Nat) {n : Nat} (hn : n ≤ 0xffff) :
    (nxt + BitVec.ofNat 32 k - (seq + BitVec.ofNat 32 n)).toNat =
      ((nxt - seq).toNat + k + (2 ^ 32 - n)) % 2 ^ 32 := by
  bv_omega

/-- After the octets up to some place, those that are fresh further on are the ones that were. -/
theorem fresh_append (r : Receiver) (seq : Word) {a b : List Byte}
    (hshort : a.length + b.length ≤ 0xffff) :
    r.fresh seq (a ++ b) =
      r.fresh seq a ++ (r.takeData seq a).fresh (seq + BitVec.ofNat 32 a.length) b := by
  have hbound := (r.nxt - seq).isLt
  have hlen : (r.fresh seq a).length = min r.room (a.length - (r.nxt - seq).toNat) := by
    rw [fresh, List.length_take, List.length_drop]
  have hgap := toNat_gap r.nxt seq (r.fresh seq a).length (n := a.length) (by omega)
  have hafter : (r.takeData seq a).fresh (seq + BitVec.ofNat 32 a.length) b =
      (b.drop (((r.nxt - seq).toNat + (r.fresh seq a).length + (2 ^ 32 - a.length)) % 2 ^ 32)).take
        (r.room - (r.fresh seq a).length) := by
    rw [← hgap]
    rfl
  rw [hafter, fresh, List.drop_append, List.take_append, List.length_drop, ← fresh]
  by_cases hroom : a.length - (r.nxt - seq).toNat ≤ r.room
  · -- All that is left of the first part is taken, and the second goes on from there.
    rw [hlen, min_eq_right hroom]
    congr 3
    omega
  · -- The first part leaves no room.
    rw [hlen, min_eq_left (by omega), Nat.sub_self, List.take_zero,
      Nat.sub_eq_zero_of_le (by omega), List.take_zero]

/-- Neighbouring octets may come in two parts. -/
theorem takeData_append (r : Receiver) (seq : Word) {a b : List Byte}
    (hshort : a.length + b.length ≤ 0xffff) :
    r.takeData seq (a ++ b) =
      (r.takeData seq a).takeData (seq + BitVec.ofNat 32 a.length) b := by
  have hfresh := r.fresh_append seq hshort
  have hlen := congrArg List.length hfresh
  rw [List.length_append] at hlen
  rw [takeData, hlen, hfresh, takeData]
  congr 1
  · rw [BitVec.ofNat_add, ← BitVec.add_assoc]
  · exact (List.append_assoc _ _ _).symm
  · exact (Nat.sub_sub _ _ _).symm

end Receiver

/-- Coalescing is transparent. What it makes is a datagram that verifies, with the numbers,
addresses and ports of the first and the octets of both, and a receiver in order cannot tell it
from the two. What it refuses to join is left as it was. -/
theorem coalesce_transparent (dst : List Byte) (capacity : Nat) (next : List Byte) :
    let r := netTcpReceiveCoalesce dst capacity next
    (r.1 = 0 → r.2 = dst) ∧
      (r.1 ≠ 0 → r.1 ≤ min capacity 0xffff ∧ r.2.length = r.1 ∧ PlainTcpData r.2 ∧
        netRd32 r.2 24 = netRd32 dst 24 ∧ netRd32 r.2 28 = netRd32 dst 28 ∧
        netRd16 r.2 34 = netRd16 dst 34 ∧ netRd32 r.2 12 = netRd32 dst 12 ∧
        netRd32 r.2 16 = netRd32 dst 16 ∧ netRd16 r.2 20 = netRd16 dst 20 ∧
        netRd16 r.2 22 = netRd16 dst 22 ∧ r.2.drop 40 = dst.drop 40 ++ next.drop 40 ∧
        netRd32 next 24 = netRd32 dst 24 + BitVec.ofNat 32 (dst.drop 40).length ∧
        ∀ receiver : Receiver, receiver.take r.2 = (receiver.take dst).take next) := by
  intro r
  obtain hrefused | ⟨hdst, hnext, hcap, hshort, hack, hwnd, hseq, hresult⟩ :=
    netTcpReceiveCoalesce_cases dst capacity next
  · have hr : r = (0, dst) := hrefused
    rw [hr]
    exact ⟨fun _ => rfl, fun hne => absurd rfl hne⟩
  · have hr : r = (dst.length + (next.length - 40), joined dst next) := hresult
    have h : 40 ≤ dst.length := hdst.hasData.le
    have hmore := hnext.hasData
    have hplain := plainTcpData_joined hdst hnext hshort
    have hnumber : netRd32 (joined dst next) 24 = netRd32 dst 24 :=
      netRd32_joined h (by decide) (by decide) (by decide) (by decide) (by decide)
    have hack' : netRd32 (joined dst next) 28 = netRd32 dst 28 :=
      netRd32_joined h (by decide) (by decide) (by decide) (by decide) (by decide)
    have hwnd' : netRd16 (joined dst next) 34 = netRd16 dst 34 :=
      netRd16_joined h (by decide) (by decide) (by decide)
    rw [← List.length_drop] at hseq
    rw [hr]
    refine ⟨fun hzero => by dsimp only at hzero; omega, fun _ => ⟨?_, length_joined _ h, hplain,
      hnumber, hack', hwnd', ?_, ?_, ?_, ?_, drop_joined h, hseq, ?_⟩⟩
    · exact le_min hcap (by dsimp only; omega)
    · exact netRd32_joined h (by decide) (by decide) (by decide) (by decide) (by decide)
    · exact netRd32_joined h (by decide) (by decide) (by decide) (by decide) (by decide)
    · exact netRd16_joined h (by decide) (by decide) (by decide)
    · exact netRd16_joined h (by decide) (by decide) (by decide)
    · intro receiver
      have hparts : (dst.drop 40).length + (next.drop 40).length ≤ 0xffff := by
        rw [List.length_drop, List.length_drop]
        omega
      rw [Receiver.take_of_plain _ hplain, Receiver.take_of_plain _ hdst,
        Receiver.take_of_plain _ hnext, hnumber, hack', hwnd', drop_joined h,
        receiver.takeData_append _ hparts, hseq, ← netRd32_eq_of_octetsAt hack,
        ← netRd16_eq_of_octetsAt hwnd, Receiver.takeAck_takeData, Receiver.takeAck_takeAck]

/-- A datagram that carries one octet. -/
def octetDatagram (seq : Word) (b : Byte) : List Byte :=
  writeSegmentChecksum (writeHeaderChecksum
    (ipv4Fields 0x0a000001 0x0a000002 netProtoTcp 0 21 0 ++
      tcpFields 80 49152 seq 7 [] 0x10 0x1000 0 [b]))

/-- Two such datagrams are joined, across the end of the sequence numbers. -/
theorem coalesce_transparent_octets :
    let dst := octetDatagram 0xffffffff 1
    let next := octetDatagram 0 2
    (netTcpReceiveCoalesce dst 42 next).1 = 42 ∧
      (netTcpReceiveCoalesce dst 42 next).2.drop 40 = [1, 2] := by
  have hjoined : (netTcpReceiveCoalesce (octetDatagram 0xffffffff 1) 42 (octetDatagram 0 2)).1 = 42 := by
    decide +kernel
  have hmade := (coalesce_transparent (octetDatagram 0xffffffff 1) 42 (octetDatagram 0 2)).2
    (by rw [hjoined]; decide)
  exact ⟨hjoined, hmade.2.2.2.2.2.2.2.2.2.2.1.trans (by decide +kernel)⟩

end S5LBox.Net
