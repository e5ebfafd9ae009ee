import S5LBox.Usb.Packets

/-!
# Transfers of the USB device controller

The packets that an endpoint acknowledges, one after the other, move the octets of guest memory
from its address on, each of them once, as long as nothing else changes the endpoint's address and
count or that part of memory.

## Main definitions

* `usbRun`: packets, with whatever else happens to the machine in between.
* `Undisturbed`: what happens beside an endpoint's packets leaves its transfer alone.

## Main results

* `usb_endpoint_dma`: what every packet does, and what the packets of a transfer add up to.
-/

namespace S5LBox.Usb

open Octets

/-! ### Parts of memory -/

/-- A part of memory. -/
abbrev area (b : Buffer) (o n : Nat) : Buffer := (b.drop o).take n

theorem area_append (b : Buffer) (o n k : Nat) :
    area b o (n + k) = area b o n ++ area b (o + n) k := by
  rw [area, List.take_add, List.drop_drop]

/-- A part of a part that is the same. -/
theorem area_within {b b' : Buffer} {lo len o n : Nat} (h : area b lo len = area b' lo len)
    (hlo : lo ≤ o) (hlen : o + n ≤ lo + len) : area b o n = area b' o n := by
  obtain ⟨i, rfl⟩ := Nat.exists_eq_add_of_le hlo
  have hpart (x : Buffer) : area x (lo + i) n = ((area x lo len).drop i).take n := by
    rw [List.drop_take, List.take_take, List.drop_drop, Nat.min_eq_left (by omega)]
  rw [hpart, hpart, h]

/-! ### Runs -/

/-- A packet, or anything else that happens to the machine. -/
inductive UsbEvent where
  | packet (c : UsbCall)
  | other (f : UsbMachine → UsbMachine)

def usbStep (tick : UsbMachine → UsbMachine) (m : UsbMachine) : UsbEvent → UsbMachine
  | .packet c => (s5l8900UsbPacket tick m c).machine
  | .other f => f m

def usbRun (tick : UsbMachine → UsbMachine) (m : UsbMachine) (events : List UsbEvent) : UsbMachine :=
  events.foldl (usbStep tick) m

/-- The packet is one for an endpoint, and is acknowledged. -/
def Moves (d : Bool) (n : Fin usbEndpoints) (m : UsbMachine) (c : UsbCall) : Prop :=
  c.dir = d ∧ c.ep = n ∧ (usbPacket m c).result = .ack

instance (d : Bool) (n : Fin usbEndpoints) (m : UsbMachine) (c : UsbCall) :
    Decidable (Moves d n m c) :=
  inferInstanceAs (Decidable (_ ∧ _ ∧ _))

/-- The octets of the packets that an endpoint acknowledges. -/
def payloads (tick : UsbMachine → UsbMachine) (d : Bool) (n : Fin usbEndpoints) :
    List UsbEvent → UsbMachine → List (List Byte)
  | [], _ => []
  | .packet c :: events, m =>
    (if Moves d n m c then [(usbPacket m c).data] else []) ++
      payloads tick d n events (usbStep tick m (.packet c))
  | .other f :: events, m => payloads tick d n events (f m)

/-- An endpoint's address and counts, and a part of memory, are as before. -/
structure Kept (d : Bool) (n : Fin usbEndpoints) (lo len : Nat) (m m' : UsbMachine) : Prop where
  dma : (m'.usbotg.ep d n).dma = (m.usbotg.ep d n).dma
  size : (m'.usbotg.ep d n).size = (m.usbotg.ep d n).size
  place : m'.ramBase = m.ramBase ∧ m'.ramSize = m.ramSize
  memory : area m'.ram lo len = area m.ram lo len

/-- Whatever happens beside the endpoint's own packets, the refresh after them included, leaves its
address and counts, and a part of memory. -/
def Undisturbed (tick : UsbMachine → UsbMachine) (d : Bool) (n : Fin usbEndpoints) (lo len : Nat) :
    List UsbEvent → UsbMachine → Prop
  | [], _ => True
  | .packet c :: events, m =>
    Kept d n lo len (if Moves d n m c then (usbPacket m c).machine else m)
        (usbStep tick m (.packet c)) ∧
      Undisturbed tick d n lo len events (usbStep tick m (.packet c))
  | .other f :: events, m =>
    Kept d n lo len m (f m) ∧ Undisturbed tick d n lo len events (f m)

/-- Where the address of an endpoint is in guest memory. -/
def usbOffset (m : UsbMachine) (d : Bool) (n : Fin usbEndpoints) : Nat :=
  ((m.usbotg.ep d n).dma - m.ramBase).toNat

/-! ### One event -/

/-- What one packet of a transfer does, up to the next event. -/
structure MovesOn (d : Bool) (n : Fin usbEndpoints) (lo len : Nat) (m : UsbMachine) (data : List Byte)
    (m' : UsbMachine) : Prop where
  dma : (m'.usbotg.ep d n).dma = (m.usbotg.ep d n).dma + BitVec.ofNat 32 data.length
  bytes : usbRemaining n (m'.usbotg.ep d n).size + data.length =
    usbRemaining n (m.usbotg.ep d n).size
  packets : usbPackets (m'.usbotg.ep d n).size = usbPackets (m.usbotg.ep d n).size - 1
  place : m'.ramBase = m.ramBase ∧ m'.ramSize = m.ramSize
  within : data ≠ [] → m.ramBase ≤ (m.usbotg.ep d n).dma ∧
    usbOffset m d n + data.length ≤ m.ramSize.toNat
  toHost : d = true → data = area m.ram (usbOffset m d n) data.length ∧
    area m'.ram lo len = area m.ram lo len
  fromHost : d = false → area m'.ram lo len = area (put m.ram (usbOffset m d n) data) lo len

variable {tick : UsbMachine → UsbMachine} {d : Bool} {n : Fin usbEndpoints} {lo len : Nat}
  {m m' : UsbMachine} {c : UsbCall}

theorem movesOn_of_moves (h : Moves d n m c) (hkept : Kept d n lo len (usbPacket m c).machine m') :
    MovesOn d n lo len m (usbPacket m c).data m' := by
  obtain ⟨rfl, hep, hack⟩ := h
  have his := packetIs m c
  generalize usbPacket m c = o at his hack hkept
  cases his with
  | refused r hne => exact absurd hack hne
  | outside => exact UsbResult.noConfusion hack
  | acked k hk data access m₁ hacked =>
    obtain rfl : k = n := Fin.ext (hk.symm.trans hep)
    constructor
    case dma => rw [hkept.dma, hacked.dma]
    case bytes => rw [hkept.size, hacked.bytes]
    case packets => rw [hkept.size, hacked.packets]
    case place => exact ⟨hkept.place.1.trans hacked.place.1, hkept.place.2.trans hacked.place.2⟩
    case within => exact hacked.within
    case toHost =>
      intro hdir
      obtain ⟨hdata, -, hram⟩ := hacked.toHost (of_decide_eq_true hdir)
      refine ⟨?_, ?_⟩
      · rw [usbOffset, hdir]
        exact hdata
      · rw [hkept.memory, hram]
    case fromHost =>
      intro hdir
      obtain ⟨-, hram⟩ := hacked.fromHost (of_decide_eq_false hdir)
      rw [hkept.memory, hram, usbOffset, hdir]

variable {events : List UsbEvent}

/-- An event is a packet of the transfer, or leaves it alone. -/
theorem event_cases {event : UsbEvent} (h : Undisturbed tick d n lo len (event :: events) m) :
    Undisturbed tick d n lo len events (usbStep tick m event) ∧
      ((payloads tick d n (event :: events) m = payloads tick d n events (usbStep tick m event) ∧
          Kept d n lo len m (usbStep tick m event)) ∨
        ∃ data, payloads tick d n (event :: events) m =
            data :: payloads tick d n events (usbStep tick m event) ∧
          MovesOn d n lo len m data (usbStep tick m event)) := by
  cases event with
  | packet c =>
    obtain ⟨hkept, hrest⟩ := h
    refine ⟨hrest, ?_⟩
    by_cases hmoves : Moves d n m c
    · rw [if_pos hmoves] at hkept
      refine .inr ⟨(usbPacket m c).data, ?_, movesOn_of_moves hmoves hkept⟩
      rw [payloads, if_pos hmoves]
      rfl
    · rw [if_neg hmoves] at hkept
      refine .inl ⟨?_, hkept⟩
      rw [payloads, if_neg hmoves]
      rfl
  | other f => exact ⟨h.2, .inl ⟨rfl, h.1⟩⟩

/-! ### What the packets of a transfer add up to -/

/-- What the packets of a transfer add up to: the counts and the address have gone on by what has
been moved, and that is the part of memory from the address on. -/
structure Transferred (d : Bool) (n : Fin usbEndpoints) (m : UsbMachine) (data : List (List Byte))
    (m' : UsbMachine) : Prop where
  dma : (m'.usbotg.ep d n).dma = (m.usbotg.ep d n).dma + BitVec.ofNat 32 data.flatten.length
  bytes : usbRemaining n (m'.usbotg.ep d n).size + data.flatten.length =
    usbRemaining n (m.usbotg.ep d n).size
  packets : usbPackets (m'.usbotg.ep d n).size = usbPackets (m.usbotg.ep d n).size - data.length
  toHost : d = true → data.flatten = area m.ram (usbOffset m d n) data.flatten.length
  fromHost : d = false → area m'.ram (usbOffset m d n) data.flatten.length = data.flatten

/-- The counts and the address alone, whatever part of memory is left alone. -/
theorem transferred_counts (h : Undisturbed tick d n lo len events m) :
    ((usbRun tick m events).usbotg.ep d n).dma =
        (m.usbotg.ep d n).dma + BitVec.ofNat 32 (payloads tick d n events m).flatten.length ∧
      usbRemaining n ((usbRun tick m events).usbotg.ep d n).size +
          (payloads tick d n events m).flatten.length =
        usbRemaining n (m.usbotg.ep d n).size ∧
      usbPackets ((usbRun tick m events).usbotg.ep d n).size =
        usbPackets (m.usbotg.ep d n).size - (payloads tick d n events m).length := by
  induction events generalizing m with
  | nil => exact ⟨(BitVec.add_zero _).symm, rfl, rfl⟩
  | cons event events ih =>
    obtain ⟨hrest, hevent⟩ := event_cases h
    obtain ⟨hdma, hbytes, hpackets⟩ := ih hrest
    change ((usbRun tick (usbStep tick m event) events).usbotg.ep d n).dma = _ ∧
      usbRemaining n ((usbRun tick (usbStep tick m event) events).usbotg.ep d n).size + _ = _ ∧
      usbPackets ((usbRun tick (usbStep tick m event) events).usbotg.ep d n).size = _
    obtain ⟨hpayloads, hkept⟩ | ⟨data, hpayloads, hmoves⟩ := hevent
    · rw [hpayloads, hdma, hbytes, hpackets, hkept.dma, hkept.size]
      exact ⟨rfl, rfl, rfl⟩
    · rw [hpayloads, hdma, hpackets, hmoves.dma, hmoves.packets, List.flatten_cons,
        List.length_append, List.length_cons, BitVec.ofNat_add, BitVec.add_assoc]
      have htotal := hmoves.bytes
      exact ⟨rfl, by omega, by omega⟩

/-- Below guest memory nothing can be moved. -/
theorem payloads_below (h : Undisturbed tick d n lo len events m)
    (hbelow : (m.usbotg.ep d n).dma < m.ramBase) :
    (payloads tick d n events m).flatten = [] ∧
      area (usbRun tick m events).ram lo len = area m.ram lo len := by
  induction events generalizing m with
  | nil => exact ⟨rfl, rfl⟩
  | cons event events ih =>
    obtain ⟨hrest, hevent⟩ := event_cases h
    obtain ⟨hpayloads, hkept⟩ | ⟨data, hpayloads, hmoves⟩ := hevent
    · obtain ⟨hnil, harea⟩ := ih hrest (by rwa [hkept.dma, hkept.place.1])
      exact ⟨by rw [hpayloads, hnil], harea.trans hkept.memory⟩
    · have hdata : data = [] := by
        by_contra hne
        exact absurd hbelow (BitVec.not_lt.mpr (hmoves.within hne).1)
      have hdma := hmoves.dma
      rw [hdata] at hdma
      obtain ⟨hnil, harea⟩ := ih hrest (by
        rw [hdma, hmoves.place.1]
        exact (BitVec.add_zero _).symm ▸ hbelow)
      refine ⟨by rw [hpayloads, List.flatten_cons, hnil, hdata]; rfl, harea.trans ?_⟩
      cases d with
      | true => exact (hmoves.toHost rfl).2
      | false =>
        rw [hmoves.fromHost rfl, hdata, put_nil]

/-- Where the address goes on as long as it stays in guest memory: behind what has been moved. -/
theorem MovesOn.offset {data : List Byte} (h : MovesOn d n lo len m data m')
    (hbase : m.ramBase ≤ (m.usbotg.ep d n).dma) (hbase' : m'.ramBase ≤ (m'.usbotg.ep d n).dma) :
    usbOffset m' d n = usbOffset m d n + data.length := by
  by_cases hnil : data = []
  · have hdma : (m'.usbotg.ep d n).dma = (m.usbotg.ep d n).dma := by
      rw [h.dma, hnil]
      exact BitVec.add_zero _
    rw [usbOffset, usbOffset, hdma, h.place.1, hnil]
    rfl
  · have hend := (h.within hnil).2
    have hdma := congrArg BitVec.toNat h.dma
    rw [BitVec.toNat_add, BitVec.toNat_ofNat] at hdma
    rw [usbOffset, BitVec.toNat_sub_of_le hbase] at hend
    rw [usbOffset, usbOffset, BitVec.toNat_sub_of_le hbase, BitVec.toNat_sub_of_le hbase',
      h.place.1]
    have hle : m.ramBase.toNat ≤ (m.usbotg.ep d n).dma.toNat := hbase
    have hle' : m'.ramBase.toNat ≤ (m'.usbotg.ep d n).dma.toNat := hbase'
    rw [h.place.1] at hle'
    have hlt := (m.usbotg.ep d n).dma.isLt
    have hsize := m.ramSize.isLt
    omega

/-- A part of memory before what a packet moves stays. -/
theorem MovesOn.before {data : List Byte} (h : MovesOn d n lo len m data m') {o k : Nat}
    (hlo : lo ≤ o) (hlen : o + k ≤ lo + len) (hbefore : o + k ≤ usbOffset m d n) :
    area m'.ram o k = area m.ram o k := by
  cases d with
  | true => exact area_within (h.toHost rfl).2 hlo hlen
  | false =>
    refine (area_within (h.fromHost rfl) hlo hlen).trans ?_
    by_cases hnil : data = []
    · rw [hnil, put_nil]
    · have hend := (h.within hnil).2
      rw [← m.length_ram] at hend
      exact slice_put_before hend hbefore

/-- A packet from the host is in memory after it. -/
theorem MovesOn.stored {data : List Byte} (h : MovesOn d n lo len m data m') (hd : d = false)
    (hlo : lo ≤ usbOffset m d n) (hlen : usbOffset m d n + data.length ≤ lo + len) :
    area m'.ram (usbOffset m d n) data.length = data := by
  refine (area_within (h.fromHost hd) hlo hlen).trans ?_
  by_cases hnil : data = []
  · rw [hnil]
    rfl
  · have hend := (h.within hnil).2
    rw [← m.length_ram] at hend
    exact slice_put_self hend

/-- The part of memory that has been moved, for an area that holds the rest of the transfer, and what
comes before it. -/
theorem transferred_memory (h : Undisturbed tick d n lo len events m)
    (hbase : m.ramBase ≤ (m.usbotg.ep d n).dma) (hlo : lo ≤ usbOffset m d n)
    (hlen : usbOffset m d n + usbRemaining n (m.usbotg.ep d n).size ≤ lo + len) :
    (d = true → (payloads tick d n events m).flatten =
      area m.ram (usbOffset m d n) (payloads tick d n events m).flatten.length) ∧
    (d = false → area (usbRun tick m events).ram (usbOffset m d n)
      (payloads tick d n events m).flatten.length = (payloads tick d n events m).flatten) ∧
    ∀ o k, lo ≤ o → o + k ≤ usbOffset m d n →
      area (usbRun tick m events).ram o k = area m.ram o k := by
  induction events generalizing m with
  | nil => exact ⟨fun _ => rfl, fun _ => rfl, fun _ _ _ _ => rfl⟩
  | cons event events ih =>
    have hcounts := (transferred_counts h).2.1
    obtain ⟨hrest, hevent⟩ := event_cases h
    change (d = true → _) ∧ (d = false → area (usbRun tick (usbStep tick m event) events).ram _ _ = _)
      ∧ ∀ o k, lo ≤ o → o + k ≤ _ → area (usbRun tick (usbStep tick m event) events).ram o k = _
    obtain ⟨hpayloads, hkept⟩ | ⟨data, hpayloads, hmoves⟩ := hevent
    · have hoffset : usbOffset (usbStep tick m event) d n = usbOffset m d n := by
        rw [usbOffset, usbOffset, hkept.dma, hkept.place.1]
      obtain ⟨htoHost, hfromHost, hbefore⟩ := ih hrest (by rwa [hkept.dma, hkept.place.1])
        (by rwa [hoffset]) (by rwa [hoffset, hkept.size])
      rw [hoffset] at htoHost hfromHost hbefore
      rw [hpayloads] at hcounts ⊢
      refine ⟨fun hd => (htoHost hd).trans (area_within hkept.memory hlo (by omega)), hfromHost,
        fun o k ho hk => (hbefore o k ho hk).trans (area_within hkept.memory ho (by omega))⟩
    · have hbytes := hmoves.bytes
      have hroom : usbOffset m d n + data.length ≤ lo + len := by omega
      rw [hpayloads, List.flatten_cons, List.length_append]
      by_cases hbase' : (usbStep tick m event).ramBase ≤ ((usbStep tick m event).usbotg.ep d n).dma
      · have hoffset := hmoves.offset hbase hbase'
        obtain ⟨htoHost, hfromHost, hbefore⟩ := ih hrest hbase' (by omega) (by omega)
        rw [hoffset] at htoHost hfromHost hbefore
        refine ⟨fun hd => ?_, fun hd => ?_, fun o k ho hk => ?_⟩
        · have hrestlen := hcounts
          rw [hpayloads, List.flatten_cons, List.length_append] at hrestlen
          rw [area_append]
          refine congrArg₂ (· ++ ·) (hmoves.toHost hd).1 ((htoHost hd).trans ?_)
          exact area_within (hmoves.toHost hd).2 (by omega) (by omega)
        · rw [area_append, hfromHost hd, hbefore _ _ hlo le_rfl, hmoves.stored hd hlo hroom]
        · rw [hbefore o k ho (by omega), hmoves.before ho (by omega) hk]
      · -- The address is past the end of the address space, and nothing more can be moved.
        obtain ⟨hnil, harea⟩ := payloads_below hrest (BitVec.not_le.mp hbase')
        rw [hnil, List.append_nil, List.length_nil, Nat.add_zero]
        refine ⟨fun hd => (hmoves.toHost hd).1, fun hd => ?_, fun o k ho hk => ?_⟩
        · rw [area_within harea hlo hroom, hmoves.stored hd hlo hroom]
        · rw [area_within harea ho (by omega), hmoves.before ho (by omega) hk]

/-- What the packets of a transfer add up to. -/
theorem transferred {events : List UsbEvent}
    (h : Undisturbed tick d n (usbOffset m d n) (usbRemaining n (m.usbotg.ep d n).size) events m) :
    Transferred d n m (payloads tick d n events m) (usbRun tick m events) := by
  obtain ⟨hdma, hbytes, hpackets⟩ := transferred_counts h
  by_cases hbase : m.ramBase ≤ (m.usbotg.ep d n).dma
  · obtain ⟨htoHost, hfromHost, -⟩ := transferred_memory h hbase le_rfl le_rfl
    exact ⟨hdma, hbytes, hpackets, htoHost, hfromHost⟩
  · obtain ⟨hnil, -⟩ := payloads_below h (BitVec.not_le.mp hbase)
    refine ⟨hdma, hbytes, hpackets, fun _ => ?_, fun _ => ?_⟩
    · rw [hnil]
      rfl
    · rw [hnil]
      rfl

/-! ### Packets that leave a transfer alone -/

theorem Kept.refl (d : Bool) (n : Fin usbEndpoints) (lo len : Nat) (m : UsbMachine) :
    Kept d n lo len m m :=
  ⟨rfl, rfl, ⟨rfl, rfl⟩, rfl⟩

theorem Kept.trans {m'' : UsbMachine} (h : Kept d n lo len m m') (h' : Kept d n lo len m' m'') :
    Kept d n lo len m m'' :=
  ⟨h'.dma.trans h.dma, h'.size.trans h.size,
    ⟨h'.place.1.trans h.place.1, h'.place.2.trans h.place.2⟩, h'.memory.trans h.memory⟩

/-- Before the refresh, a packet to the host changes no other transfer, and one that is not
acknowledged changes none at all. -/
theorem kept_of_not_moves (hc : c.dir = true ∨ (c.dir = d ∧ c.ep = n)) (h : ¬Moves d n m c) :
    Kept d n lo len m (usbPacket m c).machine := by
  have his := packetIs m c
  rw [Moves] at h
  generalize usbPacket m c = o at his h
  cases his with
  | refused r => exact .refl d n lo len m
  | outside k hk =>
    by_cases hsame : (d, n) = (c.dir, k)
    · obtain ⟨rfl, rfl⟩ := Prod.mk.inj hsame
      refine ⟨?_, ?_, ⟨rfl, rfl⟩, rfl⟩
      · exact (congrArg UsbEp.dma (setEp_self _ _ _ _)).trans rfl
      · exact (congrArg UsbEp.size (setEp_self _ _ _ _)).trans rfl
    · refine ⟨?_, ?_, ⟨rfl, rfl⟩, rfl⟩
      · exact congrArg UsbEp.dma (setEp_of_ne _ _ _ _ hsame)
      · exact congrArg UsbEp.size (setEp_of_ne _ _ _ _ hsame)
  | acked k hk data access m₁ hacked =>
    have hother : (d, n) ≠ (c.dir, k) := fun hsame => by
      obtain ⟨rfl, rfl⟩ := Prod.mk.inj hsame
      exact h ⟨rfl, hk, rfl⟩
    have hdir : c.dir = true := hc.resolve_right fun hown => by
      have heq : n = k := Fin.ext (hown.2.symm.trans hk)
      exact hother (by rw [hown.1, heq])
    have htoken : c.token = .input := of_decide_eq_true hdir
    have hep := hacked.others d n hother fun hs => by
      rw [htoken] at hs
      exact UsbToken.noConfusion hs
    exact ⟨by rw [hep], by rw [hep], hacked.place, by rw [(hacked.toHost htoken).2.2]⟩

/-- Packets of one endpoint, and packets to the host, with a refresh that leaves the transfer
alone. -/
theorem undisturbed_of_packets (htick : ∀ v, Kept d n lo len v (tick v)) {calls : List UsbCall}
    (hc : ∀ c ∈ calls, c.dir = true ∨ (c.dir = d ∧ c.ep = n)) (m : UsbMachine) :
    Undisturbed tick d n lo len (calls.map .packet) m := by
  induction calls generalizing m with
  | nil => trivial
  | cons c calls ih =>
    refine ⟨?_, ih (fun c' hc' => hc c' (List.mem_cons_of_mem _ hc')) _⟩
    have hrefresh : Kept d n lo len (usbPacket m c).machine (usbStep tick m (.packet c)) := by
      change Kept d n lo len _ (s5l8900UsbPacket tick m c).machine
      rw [s5l8900UsbPacket]
      split_ifs
      · exact htick _
      · exact .refl d n lo len _
    split_ifs with hmoves
    · exact hrefresh
    · exact (kept_of_not_moves (hc c List.mem_cons_self) hmoves).trans hrefresh

/-! ### The result -/

/-- What one packet does, with the refresh that it may end with. -/
structure PacketDoes (tick : UsbMachine → UsbMachine) (m : UsbMachine) (c : UsbCall)
    (o : UsbOutcome) : Prop where
  refused : o.result ≠ .ack → o.result ≠ .dmaError → o.machine = m
  outside : o.result = .dmaError → ∃ n : Fin usbEndpoints, c.ep = n ∧
    o.machine = tick { m with
      usbotg := m.usbotg.setEp c.dir n { m.usbotg.ep c.dir n with
        interrupt := (m.usbotg.ep c.dir n).interrupt ||| epAhbError
        ctl := (m.usbotg.ep c.dir n).ctl &&& ~~~usbotgEpEnable }
      levelDirty := true }
  untouched : o.result ≠ .ack → o.data = [] ∧ o.access = none
  acked : o.result = .ack → ∃ (n : Fin usbEndpoints) (m' : UsbMachine), c.ep = n ∧
    o.machine = tick m' ∧ Acked m c n o.data o.access m'

theorem packetDoes (tick : UsbMachine → UsbMachine) (m : UsbMachine) (c : UsbCall) :
    PacketDoes tick m c (s5l8900UsbPacket tick m c) := by
  have his := packetIs m c
  rw [s5l8900UsbPacket]
  generalize usbPacket m c = o at his
  cases his with
  | refused r hack herror =>
    have hnone : ¬((refuse m r).result = .ack ∨ (refuse m r).result = .dmaError) :=
      not_or.mpr ⟨hack, herror⟩
    rw [if_neg hnone]
    exact ⟨fun _ _ => rfl, fun h => absurd h herror, fun _ => ⟨rfl, rfl⟩, fun h => absurd h hack⟩
  | outside n hn =>
    exact ⟨fun _ h => absurd rfl h, fun _ => ⟨n, hn, rfl⟩, fun _ => ⟨rfl, rfl⟩,
      fun h => UsbResult.noConfusion h⟩
  | acked n hn data access m' h =>
    exact ⟨fun hne => absurd rfl hne, fun hne => UsbResult.noConfusion hne, fun hne => absurd rfl hne,
      fun _ => ⟨n, m', hn, rfl, h⟩⟩

/-- What every packet does, and what the packets of an endpoint's transfer add up to. A packet that
is refused changes nothing, one whose memory is outside of RAM only halts the endpoint with the bus
error, and one that is acknowledged moves its octets between the packet and the memory at the
endpoint's address. In any run of packets and other events, as long as those events leave the
address and the counts of the endpoint, and the part of memory that they give, alone, the address
has gone on by what was moved, the counts have gone down by it and by the number of packets, and
what was moved, put together, is that part of memory. -/
theorem usb_endpoint_dma (tick : UsbMachine → UsbMachine) :
    (∀ m c, PacketDoes tick m c (s5l8900UsbPacket tick m c)) ∧
    ∀ (d : Bool) (n : Fin usbEndpoints) (m : UsbMachine) (events : List UsbEvent),
      Undisturbed tick d n (usbOffset m d n) (usbRemaining n (m.usbotg.ep d n).size) events m →
      Transferred d n m (payloads tick d n events m) (usbRun tick m events) :=
  ⟨packetDoes tick, fun _ _ _ _ => transferred⟩

section Setup

/-- The controller with an endpoint programmed, and eight octets of memory. -/
def programmed (d : Bool) (n : Fin usbEndpoints) (e : UsbEp) : UsbMachine where
  usbotg := { ({} : S5lUsbotg).setEp d n e with enabled := true, connected := true, gahbcfg := 0x20 }
  ram := [1, 2, 3, 4, 5, 6, 7, 8]
  ramBase := 0x08000000
  ramSize := 8
  levelDirty := false
  length_ram := rfl

/-- A packet without a buffer of its own. -/
def packetOf (token : UsbToken) (ep length : Nat) : UsbCall where
  token
  ep
  data := some (List.replicate length 0)
  length
  fits := fun _ h => by rw [← Option.some.inj h, List.length_replicate]

/-- Three packets of two octets to the host. -/
theorem usb_endpoint_dma_input :
    (payloads id true 1 (List.replicate 3 (.packet (packetOf .input 1 64)))
      (programmed true 1 { ctl := 0x80000002, size := 0x00280005, dma := 0x08000001 })).flatten =
        [2, 3, 4, 5, 6] := by
  have htransfer := (usb_endpoint_dma id).2 true 1
    (programmed true 1 { ctl := 0x80000002, size := 0x00280005, dma := 0x08000001 })
    ((List.replicate 3 (packetOf .input 1 64)).map .packet)
    (undisturbed_of_packets (fun v => .refl true 1 _ _ v) (fun c hc => .inl (by
      rw [List.eq_of_mem_replicate hc]
      rfl)) _)
  have hdata := htransfer.toHost rfl
  exact hdata.trans (by decide +kernel)

/-- A SETUP packet that is not short, and exhausts no count, ends its endpoint's transfer too, and
without the completion bit. -/
theorem usb_setup_disables :
    (s5l8900UsbPacket id (programmed false 0 { ctl := 0x80000003, size := 0x20180010, dma := 0x08000000 })
        (packetOf .setup 0 8)).result = .ack ∧
      ¬Last 0 { ctl := 0x80000003, size := 0x20180010, dma := 0x08000000 } 8 ∧
      ¬((s5l8900UsbPacket id
        (programmed false 0 { ctl := 0x80000003, size := 0x20180010, dma := 0x08000000 })
        (packetOf .setup 0 8)).machine.usbotg.ep false 0).Enabled ∧
      ((s5l8900UsbPacket id
        (programmed false 0 { ctl := 0x80000003, size := 0x20180010, dma := 0x08000000 })
        (packetOf .setup 0 8)).machine.usbotg.ep false 0).interrupt &&& epComplete = 0 := by
  decide +kernel

end Setup

end S5LBox.Usb
