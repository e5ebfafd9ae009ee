import S5LBox.Arm.Cpu

/-!
# Octets on the wire

The octet plumbing of `net_priv.h`, the checksums of `net.c` and the layout of the IPv4 and TCP
headers the stack emits and reads. A datagram is the list of its octets.
-/

namespace S5LBox.Net

abbrev Port := BitVec 16

/-! ### Reading and writing fields -/

/-- `net_rd16`. -/
def netRd16 (p : List Byte) (k : Nat) : BitVec 16 := p.getD k 0 ++ p.getD (k + 1) 0

/-- `net_rd32`. -/
def netRd32 (p : List Byte) (k : Nat) : Word :=
  p.getD k 0 ++ p.getD (k + 1) 0 ++ p.getD (k + 2) 0 ++ p.getD (k + 3) 0

/-- `net_wr16`. -/
def netWr16 (v : BitVec 16) : List Byte := [v.extractLsb' 8 8, v.extractLsb' 0 8]

/-- `net_wr32`. -/
def netWr32 (v : Word) : List Byte :=
  [v.extractLsb' 24 8, v.extractLsb' 16 8, v.extractLsb' 8 8, v.extractLsb' 0 8]

@[simp]
theorem length_netWr16 (v : BitVec 16) : (netWr16 v).length = 2 := rfl

@[simp]
theorem length_netWr32 (v : Word) : (netWr32 v).length = 4 := rfl

/-- A field is read back as it was written. -/
theorem netRd32_netWr32 (v : Word) (rest : List Byte) : netRd32 (netWr32 v ++ rest) 0 = v := by
  simp only [netRd32, netWr32, List.cons_append, List.nil_append, List.getD_cons_zero,
    List.getD_cons_succ]
  ext i hi
  simp only [BitVec.getElem_append, BitVec.getElem_extractLsb']
  split_ifs <;> grind

/-! ### Checksums -/

/-- The sum of the 16-bit words of a list of octets, an odd last octet padded with a zero. -/
def wordSum : List Byte → Nat
  | [] => 0
  | [a] => a.toNat <<< 8
  | a :: b :: rest => (a.toNat <<< 8 + b.toNat) + wordSum rest

/-- One turn of the loop that folds the carries of a sum back into its low half. -/
def foldCarry (sum : Nat) : Nat := (sum &&& 0xffff) + sum >>> 16

/-- The folded and complemented sum. Two turns fold any sum of 32 bits, and a further turn would
leave it as it is. -/
def foldSum (sum : Nat) : BitVec 16 := ~~~BitVec.ofNat 16 (foldCarry (foldCarry sum))

/-- `net_checksum`. -/
def netChecksum (data : List Byte) : BitVec 16 := foldSum (wordSum data)

/-- The pseudo-header that a TCP or UDP checksum covers. -/
def pseudoHeader (src dst : Word) (proto n : Nat) : List Byte :=
  netWr32 src ++ netWr32 dst ++ [0, BitVec.ofNat 8 proto] ++ netWr16 (BitVec.ofNat 16 n)

/-- `net_l4_checksum`. -/
def netL4Checksum (src dst : Word) (proto : Nat) (seg : List Byte) : BitVec 16 :=
  foldSum (wordSum (pseudoHeader src dst proto seg.length) + wordSum seg)

/-! ### Headers -/

/-- `IPV4_HDR_LEN`. -/
def ipv4HdrLen : Nat := 20

/-- `TCP_HDR_LEN`. -/
def tcpHdrLen : Nat := 20

/-- The twenty octets of an IPv4 header, with a given checksum field. -/
def ipv4Fields (src dst : Word) (proto : Nat) (ident : BitVec 16) (payloadLen : Nat)
    (checksum : BitVec 16) : List Byte :=
  [0x45, 0] ++ netWr16 (BitVec.ofNat 16 (ipv4HdrLen + payloadLen)) ++ netWr16 ident ++
    netWr16 0x4000 ++ [64, BitVec.ofNat 8 proto] ++ netWr16 checksum ++ netWr32 src ++ netWr32 dst

/-- `net_build_ipv4`, on a payload that the link can carry. -/
def netBuildIpv4 (src dst : Word) (proto : Nat) (ident : BitVec 16) (payloadLen : Nat) :
    List Byte :=
  ipv4Fields src dst proto ident payloadLen
    (netChecksum (ipv4Fields src dst proto ident payloadLen 0))

/-- The octets of a TCP segment with a given checksum field. The options fill whole words. -/
def tcpFields (sport dport : Port) (seq ack : Word) (options : List Byte) (flags : Byte)
    (wnd checksum : BitVec 16) (data : List Byte) : List Byte :=
  netWr16 sport ++ netWr16 dport ++ netWr32 seq ++ netWr32 ack ++
    [BitVec.ofNat 8 ((tcpHdrLen + options.length) / 4) <<< 4, flags] ++ netWr16 wnd ++
    netWr16 checksum ++ netWr16 0 ++ options ++ data

/-! ### TCP flags -/

def tcpFin : Byte := 0x01
def tcpSyn : Byte := 0x02
def tcpRst : Byte := 0x04
def tcpPsh : Byte := 0x08
def tcpAck : Byte := 0x10

/-- The test `flags & TCP_…`. -/
def hasFlag (flags flag : Byte) : Bool := flags &&& flag != 0

/-! ### Reading a segment back -/

/-- The sequence number of a TCP segment. -/
def segSeq (seg : List Byte) : Word := netRd32 seg 4

/-- The flags of a TCP segment. -/
def segFlags (seg : List Byte) : Byte := seg.getD 13 0

/-- The header length of a TCP segment, options included. -/
def segDoff (seg : List Byte) : Nat := (seg.getD 12 0 >>> 4).toNat * 4

/-- The payload of a TCP segment. -/
def segPayload (seg : List Byte) : List Byte := seg.drop (segDoff seg)

section TcpFields

variable (sport dport : Port) (seq ack : Word) (options : List Byte) (flags : Byte)
  (wnd checksum : BitVec 16) (data : List Byte)

theorem segSeq_tcpFields :
    segSeq (tcpFields sport dport seq ack options flags wnd checksum data) = seq :=
  netRd32_netWr32 seq []

theorem segFlags_tcpFields :
    segFlags (tcpFields sport dport seq ack options flags wnd checksum data) = flags := rfl

/-- The header length is the one of the header and its options. -/
theorem segDoff_tcpFields (h : options.length % 4 = 0) (hle : options.length ≤ 40) :
    segDoff (tcpFields sport dport seq ack options flags wnd checksum data) =
      tcpHdrLen + options.length := by
  show ((BitVec.ofNat 8 ((20 + options.length) / 4) <<< 4) >>> 4).toNat * 4 = 20 + options.length
  rw [BitVec.toNat_ushiftRight, BitVec.toNat_shiftLeft, BitVec.toNat_ofNat,
    Nat.shiftLeft_eq, Nat.shiftRight_eq_div_pow]
  omega

theorem segPayload_tcpFields (h : options.length % 4 = 0) (hle : options.length ≤ 40) :
    segPayload (tcpFields sport dport seq ack options flags wnd checksum data) = data := by
  rw [segPayload, segDoff_tcpFields _ _ _ _ _ _ _ _ _ h hle, tcpFields]
  apply List.drop_left'
  simp only [List.length_append, length_netWr16, length_netWr32, List.length_cons,
    List.length_nil, tcpHdrLen]

end TcpFields

end S5LBox.Net
