import S5LBox.Usb.Otg

/-!
# Packets of the USB device controller

What one packet does. The guards come before anything is changed, so a packet that is not
acknowledged leaves the machine as it is, save for an address outside of guest memory, which is
recorded at the endpoint.

## Main definitions

* `Acked`: what an acknowledged packet has done.

## Main results

* `packetIs`: what a packet comes to.
-/

namespace S5LBox.Usb

open Octets

/-! ### The counts of an endpoint -/

theorem ofNat_and_lowMask {w k n : Nat} (hk : k ≤ w) (h : n < 2 ^ k) :
    BitVec.ofNat w n &&& Blocks.lowMask w k = BitVec.ofNat w n := by
  have hw : n < 2 ^ w := lt_of_lt_of_le h (Nat.pow_le_pow_right (by decide) hk)
  apply BitVec.eq_of_toNat_eq
  rw [Blocks.toNat_and_lowMask _ hk, BitVec.toNat_ofNat, Nat.mod_eq_of_lt hw, Nat.mod_eq_of_lt h]

theorem packets_and {n : Nat} (h : n < 1024) :
    BitVec.ofNat 32 n <<< 19 &&& sizePackets = BitVec.ofNat 32 n <<< 19 := by
  have hmask : sizePackets = Blocks.lowMask 32 10 <<< 19 := by decide
  rw [hmask, ← BitVec.shiftLeft_and_distrib, ofNat_and_lowMask (by decide) h]

/-- The count of octets and that of packets, in the place of those before. -/
def withCounts (size : Word) (bytes packets : Nat) : Word :=
  (size &&& ~~~(sizeBytes ||| sizePackets)) ||| BitVec.ofNat 32 bytes ||| BitVec.ofNat 32 packets <<< 19

variable {bytes packets : Nat}

theorem withCounts_and_bytes (size : Word) (hb : bytes < 2 ^ 19) (hp : packets < 1024) :
    withCounts size bytes packets &&& sizeBytes = BitVec.ofNat 32 bytes := by
  have hmask : sizeBytes = Blocks.lowMask 32 19 := by decide
  have hrest : size &&& ~~~(sizeBytes ||| sizePackets) &&& sizeBytes = 0 := by
    rw [BitVec.and_assoc, show ~~~(sizeBytes ||| sizePackets) &&& sizeBytes = 0 by decide]
    exact BitVec.and_zero
  have hpackets : BitVec.ofNat 32 packets <<< 19 &&& sizeBytes = 0 := by
    rw [← packets_and hp, BitVec.and_assoc, show sizePackets &&& sizeBytes = 0 by decide]
    exact BitVec.and_zero
  rw [withCounts, BitVec.and_or_distrib_right, BitVec.and_or_distrib_right, hrest, hpackets, hmask,
    ofNat_and_lowMask (by decide) hb]
  exact BitVec.or_zero.trans BitVec.zero_or

theorem withCounts_and_packets (size : Word) (hb : bytes < 2 ^ 19) (hp : packets < 1024) :
    withCounts size bytes packets &&& sizePackets = BitVec.ofNat 32 packets <<< 19 := by
  have hmask : Blocks.lowMask 32 19 &&& sizePackets = 0 := by decide
  have hrest : size &&& ~~~(sizeBytes ||| sizePackets) &&& sizePackets = 0 := by
    rw [BitVec.and_assoc, show ~~~(sizeBytes ||| sizePackets) &&& sizePackets = 0 by decide]
    exact BitVec.and_zero
  have hbytes : BitVec.ofNat 32 bytes &&& sizePackets = 0 := by
    rw [← ofNat_and_lowMask (k := 19) (by decide) hb, BitVec.and_assoc, hmask]
    exact BitVec.and_zero
  rw [withCounts, BitVec.and_or_distrib_right, BitVec.and_or_distrib_right, hrest, hbytes,
    packets_and hp]
  exact (congrArg (· ||| _) BitVec.or_zero).trans BitVec.zero_or

variable {n : Fin usbEndpoints} {size : Word}

theorem usbRemaining_lt (n : Fin usbEndpoints) (size : Word) :
    usbRemaining n size < 2 ^ 19 ∧ (n = 0 → usbRemaining n size < 128) := by
  have hzero : (0x7f : Word) = Blocks.lowMask 32 7 := by decide
  have hrest : sizeBytes = Blocks.lowMask 32 19 := by decide
  rw [usbRemaining]
  split_ifs with h
  · rw [hzero, Blocks.toNat_and_lowMask _ (by decide)]
    omega
  · rw [hrest, Blocks.toNat_and_lowMask _ (by decide)]
    omega

theorem usbPackets_lt (size : Word) : usbPackets size < 1024 := by
  rw [usbPackets, BitVec.toNat_ushiftRight, Nat.shiftRight_eq_div_pow, BitVec.toNat_and]
  have hle : size.toNat &&& sizePackets.toNat ≤ sizePackets.toNat := Nat.and_le_right
  have hmask : sizePackets.toNat = 0x1ff80000 := rfl
  omega

theorem usbPackets_eq_of_and {size' : Word} (hp : packets < 1024)
    (h : size' &&& sizePackets = BitVec.ofNat 32 packets <<< 19) : usbPackets size' = packets := by
  rw [usbPackets, h, BitVec.toNat_ushiftRight, BitVec.toNat_shiftLeft, BitVec.toNat_ofNat,
    Nat.shiftLeft_eq, Nat.shiftRight_eq_div_pow]
  omega

/-- The count of octets reads back from the nineteen low bits, also that of endpoint zero. -/
theorem usbRemaining_eq_of_and {size' : Word} (hb : bytes < 2 ^ 19) (hzero : n = 0 → bytes < 128)
    (h : size' &&& sizeBytes = BitVec.ofNat 32 bytes) : usbRemaining n size' = bytes := by
  have hnat : bytes < 2 ^ 32 := by omega
  rw [usbRemaining]
  split_ifs with hn
  · have hmask : (0x7f : Word) = sizeBytes &&& Blocks.lowMask 32 7 := by decide
    rw [hmask, ← BitVec.and_assoc, h, ofNat_and_lowMask (by decide) (hzero hn), BitVec.toNat_ofNat,
      Nat.mod_eq_of_lt hnat]
  · rw [h, BitVec.toNat_ofNat, Nat.mod_eq_of_lt hnat]

/-- One SETUP packet less leaves the counts. -/
theorem sub_setup_and (size : Word) {mask : Word} (h : Blocks.lowMask 32 29 &&& mask = mask) :
    (size - 0x20000000) &&& mask = size &&& mask := by
  have hlow : (size - 0x20000000) &&& Blocks.lowMask 32 29 = size &&& Blocks.lowMask 32 29 := by
    apply BitVec.eq_of_toNat_eq
    rw [Blocks.toNat_and_lowMask _ (by decide), Blocks.toNat_and_lowMask _ (by decide),
      BitVec.toNat_sub]
    have hsetup : (0x20000000 : Word).toNat = 2 ^ 29 := rfl
    omega
  rw [← h, ← BitVec.and_assoc, hlow, BitVec.and_assoc]

/-! ### The registers after a packet -/

section AckEp

variable (setup : Bool) (n : Fin usbEndpoints) (e : UsbEp) (count : Nat)

theorem ackEp_dma : (ackEp setup n count e).dma = e.dma + BitVec.ofNat 32 count := by
  unfold ackEp
  dsimp only
  split_ifs <;> rfl

theorem ackEp_size : (ackEp setup n count e).size =
    withCounts e.size (usbRemaining n e.size - count) (usbPackets e.size - 1) -
      if setup then 0x20000000 else 0 := by
  unfold ackEp
  dsimp only
  split_ifs <;> first | rfl | exact (BitVec.sub_zero _).symm

theorem ackEp_counts :
    usbRemaining n (ackEp setup n count e).size = usbRemaining n e.size - count ∧
      usbPackets (ackEp setup n count e).size = usbPackets e.size - 1 := by
  obtain ⟨hlt, hzero⟩ := usbRemaining_lt n e.size
  have hpackets := usbPackets_lt e.size
  have hmask {mask : Word} (h : Blocks.lowMask 32 29 &&& mask = mask) :
      (ackEp setup n count e).size &&& mask =
        withCounts e.size (usbRemaining n e.size - count) (usbPackets e.size - 1) &&& mask := by
    rw [ackEp_size]
    split_ifs
    · exact sub_setup_and _ h
    · exact congrArg (· &&& mask) (BitVec.sub_zero _)
  constructor
  · refine usbRemaining_eq_of_and (by omega) (fun hn => ?_) ?_
    · have hz := hzero hn
      omega
    · rw [hmask (by decide), withCounts_and_bytes _ (by omega) (by omega)]
  · refine usbPackets_eq_of_and (by omega) ?_
    rw [hmask (by decide), withCounts_and_packets _ (by omega) (by omega)]

end AckEp

/-- The endpoint is enabled. -/
def UsbEp.Enabled (e : UsbEp) : Prop := e.ctl &&& usbotgEpEnable ≠ 0

instance (e : UsbEp) : Decidable e.Enabled := inferInstanceAs (Decidable (_ ≠ _))

/-- The direction of a packet: `true` to the host. -/
def UsbCall.dir (c : UsbCall) : Bool := c.token = .input

/-- The last packet of a transfer: short, or one with which a count is exhausted. -/
def Last (n : Fin usbEndpoints) (e : UsbEp) (count : Nat) : Prop :=
  usbRemaining n e.size - count = 0 ∨ usbPackets e.size - 1 = 0 ∨ count < usbMps n e.ctl

instance (n : Fin usbEndpoints) (e : UsbEp) (count : Nat) : Decidable (Last n e count) :=
  inferInstanceAs (Decidable (_ ∨ _ ∨ _))

theorem toggle_and_enable (ctl : Word) :
    (ctl ^^^ usbotgEpPid) &&& usbotgEpEnable = ctl &&& usbotgEpEnable := by
  ext i hi
  have hbit : (usbotgEpPid &&& usbotgEpEnable)[i] = (0#32)[i] :=
    congrArg (fun x : Word => x[i]) (show usbotgEpPid &&& usbotgEpEnable = 0#32 by decide)
  rw [BitVec.getElem_and, BitVec.getElem_zero] at hbit
  simp only [BitVec.getElem_and, BitVec.getElem_xor]
  cases hpid : usbotgEpPid[i] <;> cases hen : usbotgEpEnable[i] <;> simp_all

theorem clear_and_enable (ctl : Word) : ctl &&& ~~~usbotgEpEnable &&& usbotgEpEnable = 0 := by
  rw [BitVec.and_assoc, show ~~~usbotgEpEnable &&& usbotgEpEnable = 0 by decide]
  exact BitVec.and_zero

section AckEp

variable (n : Fin usbEndpoints) (e : UsbEp) (count : Nat)

theorem ackEp_setup :
    ¬(ackEp true n count e).Enabled ∧ (ackEp true n count e).interrupt = e.interrupt ||| epSetup := by
  unfold ackEp
  dsimp only
  rw [if_pos rfl]
  split_ifs
  · refine ⟨not_not.mpr ?_, rfl⟩
    exact (toggle_and_enable _).trans (clear_and_enable _)
  · exact ⟨not_not.mpr (clear_and_enable _), rfl⟩

theorem ackEp_last (h : Last n e count) :
    ¬(ackEp false n count e).Enabled ∧
      (ackEp false n count e).interrupt = e.interrupt ||| epComplete := by
  have hlast : usbRemaining n e.size - count = 0 ∨ usbPackets e.size - 1 = 0 ∨
      count < usbMps n e.ctl := h
  unfold ackEp
  dsimp only
  rw [if_neg Bool.false_ne_true, if_pos hlast]
  split_ifs
  · refine ⟨not_not.mpr ?_, rfl⟩
    exact (toggle_and_enable _).trans (clear_and_enable _)
  · exact ⟨not_not.mpr (clear_and_enable _), rfl⟩

theorem ackEp_not_last (h : ¬Last n e count) (hen : e.Enabled) :
    (ackEp false n count e).Enabled ∧ (ackEp false n count e).interrupt = e.interrupt := by
  have hlast : ¬(usbRemaining n e.size - count = 0 ∨ usbPackets e.size - 1 = 0 ∨
      count < usbMps n e.ctl) := h
  unfold ackEp
  dsimp only
  rw [if_neg Bool.false_ne_true, if_neg hlast]
  split_ifs
  · refine ⟨?_, rfl⟩
    change (e.ctl ^^^ usbotgEpPid) &&& usbotgEpEnable ≠ 0
    rw [toggle_and_enable]
    exact hen
  · exact ⟨hen, rfl⟩

end AckEp

/-! ### The guards -/

/-- What the guards have made sure of. -/
structure Granted (u : S5lUsbotg) (c : UsbCall) (n : Fin usbEndpoints) (count : Nat) : Prop where
  enabled : (u.ep c.dir n).Enabled
  toHost : c.token = .input →
    count = min (usbRemaining n (u.ep c.dir n).size) (usbMps n (u.ep c.dir n).ctl)
  fromHost : c.token ≠ .input → count = c.length
  le : c.token ≠ .setup → count ≤ usbRemaining n (u.ep c.dir n).size ∧
    count ≤ usbMps n (u.ep c.dir n).ctl ∧ 0 < usbPackets (u.ep c.dir n).size
  setup : c.token = .setup → 8 ≤ usbRemaining n (u.ep c.dir n).size

theorem granted_of_usbGuards {u : S5lUsbotg} {c : UsbCall} {n : Fin usbEndpoints} {count : Nat}
    (h : usbGuards u c n = .ok count) : Granted u c n count := by
  unfold usbGuards at h
  dsimp only at h
  have hpackets (hmps : ¬(usbMps n (u.ep c.dir n).ctl = 0 ∨ usbMps n (u.ep c.dir n).ctl > 1024 ∨
      ¬decide (c.token = .setup) = true ∧ usbPackets (u.ep c.dir n).size = 0))
      (hsetup : c.token ≠ .setup) : 0 < usbPackets (u.ep c.dir n).size := by
    rw [decide_eq_true_eq] at hmps
    exact Nat.pos_of_ne_zero fun hzero => hmps (.inr (.inr ⟨hsetup, hzero⟩))
  split_ifs at h with hstall hpio hen hin hnak hmps hbuffer hout hshort hnak hmps hbuffer hout hshort
  · -- To the host.
    have htoken : c.token = .input := of_decide_eq_true hin
    obtain rfl := Except.ok.inj h
    exact {
      enabled := hen
      toHost := fun _ => rfl
      fromHost := fun hne => absurd htoken hne
      le := fun hsetup => ⟨min_le_left _ _, min_le_right _ _, hpackets hmps hsetup⟩
      setup := fun hsetup => absurd (htoken.symm.trans hsetup) (by decide) }
  · -- From the host.
    have htoken : c.token ≠ .input := of_decide_eq_false (eq_false_of_ne_true hin)
    obtain rfl := Except.ok.inj h
    rw [decide_eq_true_eq, decide_eq_true_eq] at hout
    rw [decide_eq_true_eq] at hshort
    exact {
      enabled := hen
      toHost := fun heq => absurd heq htoken
      fromHost := fun _ => rfl
      le := fun hsetup => by
        have hfits := fun h => hout ⟨htoken, hsetup, h⟩
        exact ⟨not_lt.mp fun h => hfits (.inr h), not_lt.mp fun h => hfits (.inl h),
          hpackets hmps hsetup⟩
      setup := fun hsetup => not_lt.mp fun h => hshort ⟨hsetup, .inr h⟩ }

/-! ### What a packet comes to -/

/-- What an acknowledged packet has done. -/
structure Acked (m : UsbMachine) (c : UsbCall) (n : Fin usbEndpoints) (data : List Byte)
    (access : Option (Nat × Nat)) (m' : UsbMachine) : Prop where
  toHost : c.token = .input →
    data = (m.ram.drop ((m.usbotg.ep true n).dma - m.ramBase).toNat).take data.length ∧
      data.length = min (usbRemaining n (m.usbotg.ep true n).size)
        (usbMps n (m.usbotg.ep true n).ctl) ∧ m'.ram = m.ram
  fromHost : c.token ≠ .input → data = c.data.getD [] ∧
    m'.ram = put m.ram ((m.usbotg.ep false n).dma - m.ramBase).toNat data
  within : data ≠ [] → m.ramBase ≤ (m.usbotg.ep c.dir n).dma ∧
    ((m.usbotg.ep c.dir n).dma - m.ramBase).toNat + data.length ≤ m.ramSize.toNat
  access_eq : access = if data = [] then none
    else some (((m.usbotg.ep c.dir n).dma - m.ramBase).toNat, data.length)
  place : m'.ramBase = m.ramBase ∧ m'.ramSize = m.ramSize
  dma : (m'.usbotg.ep c.dir n).dma = (m.usbotg.ep c.dir n).dma + BitVec.ofNat 32 data.length
  bytes : usbRemaining n (m'.usbotg.ep c.dir n).size + data.length =
    usbRemaining n (m.usbotg.ep c.dir n).size
  packets : usbPackets (m'.usbotg.ep c.dir n).size = usbPackets (m.usbotg.ep c.dir n).size - 1
  complete : c.token ≠ .setup →
    (¬(m'.usbotg.ep c.dir n).Enabled ↔ Last n (m.usbotg.ep c.dir n) data.length) ∧
      (m'.usbotg.ep c.dir n).interrupt =
        if Last n (m.usbotg.ep c.dir n) data.length then
          (m.usbotg.ep c.dir n).interrupt ||| epComplete
        else (m.usbotg.ep c.dir n).interrupt
  setup : c.token = .setup → ¬(m'.usbotg.ep false 0).Enabled ∧
    (m'.usbotg.ep false 0).interrupt = (m.usbotg.ep false 0).interrupt ||| epSetup ∧
      m'.usbotg.ep true 0 = clearIn (m.usbotg.ep true 0)
  others : ∀ d' n', (d', n') ≠ (c.dir, n) → (c.token = .setup → (d', n') ≠ (true, 0)) →
    m'.usbotg.ep d' n' = m.usbotg.ep d' n'

section SetEp

variable (u : S5lUsbotg) (d : Bool) (n : Fin usbEndpoints) (e : UsbEp)

theorem setEp_self : (u.setEp d n e).ep d n = e := by
  change Function.update u.ep d (Function.update (u.ep d) n e) d n = e
  rw [Function.update_self, Function.update_self]

theorem setEp_of_ne {d' : Bool} {n' : Fin usbEndpoints} (h : (d', n') ≠ (d, n)) :
    (u.setEp d n e).ep d' n' = u.ep d' n' := by
  change Function.update u.ep d (Function.update (u.ep d) n e) d' n' = u.ep d' n'
  by_cases hd : d' = d
  · subst hd
    have hn : n' ≠ n := fun hn => h (by rw [hn])
    rw [Function.update_self, Function.update_of_ne hn]
  · rw [Function.update_of_ne hd]

end SetEp

/-- What a packet comes to. -/
inductive PacketIs (m : UsbMachine) (c : UsbCall) : UsbOutcome → Prop where
  | refused (r : UsbResult) (hack : r ≠ .ack) (herror : r ≠ .dmaError) : PacketIs m c (refuse m r)
  | outside (n : Fin usbEndpoints) (hn : c.ep = n) : PacketIs m c {
      result := .dmaError
      data := []
      access := none
      machine := { m with
        usbotg := m.usbotg.setEp c.dir n { m.usbotg.ep c.dir n with
          interrupt := (m.usbotg.ep c.dir n).interrupt ||| epAhbError
          ctl := (m.usbotg.ep c.dir n).ctl &&& ~~~usbotgEpEnable }
        levelDirty := true } }
  | acked (n : Fin usbEndpoints) (hn : c.ep = n) (data : List Byte) (access : Option (Nat × Nat))
      (m' : UsbMachine) (h : Acked m c n data access m') : PacketIs m c ⟨.ack, data, access, m'⟩

theorem s5l8900Load_eq {m : UsbMachine} {addr : Word} {data : List Byte} (h : data ≠ [])
    (hram : inRam m addr data.length) :
    (s5l8900Load m addr data).ram = put m.ram (addr - m.ramBase).toNat data ∧
      (s5l8900Load m addr data).ramBase = m.ramBase ∧
      (s5l8900Load m addr data).ramSize = m.ramSize := by
  have hsize := m.ramSize.isLt
  have hend := hram.2
  rw [s5l8900Load, if_neg (by rw [not_or]; exact ⟨h, by omega⟩), dif_pos hram]
  exact ⟨rfl, rfl, rfl⟩

theorem put_nil (b : Buffer) (o : Nat) : put b o [] = b := by
  rw [put, List.append_nil, List.length_nil, Nat.add_zero, List.take_append_drop]

theorem ackUsb_ep {u : S5lUsbotg} {c : UsbCall} {n : Fin usbEndpoints} {count : Nat} :
    (ackUsb u c.token n count).ep c.dir n =
      ackEp (c.token = .setup) n count (u.ep c.dir n) := by
  rw [ackUsb]
  split_ifs with hs
  · have hdir : c.dir = false := by rw [UsbCall.dir, hs]; rfl
    rw [setEp_of_ne _ _ _ _ (by rw [hdir]; simp)]
    exact setEp_self _ _ _ _
  · exact setEp_self _ _ _ _

theorem ackUsb_others {u : S5lUsbotg} {c : UsbCall} {n : Fin usbEndpoints} {count : Nat} {d' : Bool}
    {n' : Fin usbEndpoints} (h : (d', n') ≠ (c.dir, n))
    (hsetup : c.token = .setup → (d', n') ≠ (true, 0)) :
    (ackUsb u c.token n count).ep d' n' = u.ep d' n' := by
  rw [ackUsb]
  split_ifs with hs
  · rw [setEp_of_ne _ _ _ _ (hsetup hs)]
    exact setEp_of_ne _ _ _ _ h
  · exact setEp_of_ne _ _ _ _ h

/-- The octets of a packet that is acknowledged. -/
def movedData (m : UsbMachine) (c : UsbCall) (n : Fin usbEndpoints) (count : Nat) : List Byte :=
  if c.dir then (m.ram.drop ((m.usbotg.ep c.dir n).dma - m.ramBase).toNat).take count
  else c.data.getD []

section Moved

variable {m : UsbMachine} {c : UsbCall} {n : Fin usbEndpoints} {count : Nat}
  (h : Granted m.usbotg c n count) (hdata : ¬(c.length ≠ 0 ∧ c.data = none))
  (hram : count ≠ 0 → inRam m (m.usbotg.ep c.dir n).dma count)
include h hdata hram

theorem movedData_length : (movedData m c n count).length = count := by
  rw [movedData]
  split_ifs with hdir
  · rw [List.length_take, List.length_drop, m.length_ram]
    by_cases hzero : count = 0
    · omega
    · have hend := (hram hzero).2
      omega
  · have hcount := h.fromHost fun heq => hdir (decide_eq_true heq)
    cases hbytes : c.data with
    | some bytes => exact (c.fits bytes hbytes).trans hcount.symm
    | none =>
      have hzero : c.length = 0 := by_contra fun hne => hdata ⟨hne, hbytes⟩
      rw [hcount, hzero]
      rfl

/-- What is done to guest memory. -/
theorem moved_memory {m₁ : UsbMachine}
    (hm₁ : m₁ = if count ≠ 0 ∧ ¬c.dir then
      s5l8900Load m (m.usbotg.ep c.dir n).dma (movedData m c n count) else m) :
    (m₁.ramBase = m.ramBase ∧ m₁.ramSize = m.ramSize) ∧ (c.dir → m₁.ram = m.ram) ∧
      (¬c.dir → m₁.ram = put m.ram ((m.usbotg.ep c.dir n).dma - m.ramBase).toNat
        (movedData m c n count)) := by
  have hlength := movedData_length h hdata hram
  split_ifs at hm₁ with hmove
  · have hne : movedData m c n count ≠ [] := by
      rw [← List.length_pos_iff, hlength]
      exact Nat.pos_of_ne_zero hmove.1
    have hin : inRam m (m.usbotg.ep c.dir n).dma (movedData m c n count).length := by
      rw [hlength]
      exact hram hmove.1
    obtain ⟨hput, hbase, hsize⟩ := s5l8900Load_eq hne hin
    rw [hm₁]
    exact ⟨⟨hbase, hsize⟩, fun hdir => absurd hdir hmove.2, fun _ => hput⟩
  · rw [hm₁]
    refine ⟨⟨rfl, rfl⟩, fun _ => rfl, fun hdir => ?_⟩
    have hzero : count = 0 := by_contra fun hne => hmove ⟨hne, hdir⟩
    rw [List.length_eq_zero_iff.mp (hlength.trans hzero), put_nil]

/-- A packet whose guards have been passed, and whose address is in guest memory. -/
theorem acked_of_granted {m₁ m' : UsbMachine} (hep : c.ep = n)
    (hsetup : c.token = .setup → c.ep = 0 ∧ c.length = 8)
    (hm₁ : m₁ = if count ≠ 0 ∧ ¬c.dir then
      s5l8900Load m (m.usbotg.ep c.dir n).dma (movedData m c n count) else m)
    (hm' : m' = { m₁ with usbotg := ackUsb m.usbotg c.token n count, levelDirty := true }) :
    Acked m c n (movedData m c n count)
      (if count ≠ 0 then some (((m.usbotg.ep c.dir n).dma - m.ramBase).toNat, count) else none)
      m' := by
  have hlength := movedData_length h hdata hram
  obtain ⟨hplace, htoHost, hfromHost⟩ := moved_memory h hdata hram hm₁
  have hzero (hs : c.token = .setup) : n = 0 := by
    have hn := (hsetup hs).1
    rw [hep] at hn
    exact Fin.ext hn
  have hle : count ≤ usbRemaining n (m.usbotg.ep c.dir n).size := by
    by_cases hs : c.token = .setup
    · have hcount := h.fromHost (by rw [hs]; decide)
      have hlen := (hsetup hs).2
      have hroom := h.setup hs
      omega
    · exact (h.le hs).1
  have hmusb : m'.usbotg = ackUsb m.usbotg c.token n count := by rw [hm']
  have hmep : m'.usbotg.ep c.dir n = ackEp (c.token = .setup) n count (m.usbotg.ep c.dir n) := by
    rw [hmusb]
    exact ackUsb_ep
  constructor
  case toHost =>
    intro htoken
    have hdir : c.dir = true := decide_eq_true htoken
    refine ⟨?_, ?_, ?_⟩
    · rw [hlength, movedData, if_pos hdir, hdir]
    · rw [hlength, ← hdir]
      exact h.toHost htoken
    · rw [hm']
      exact htoHost hdir
  case fromHost =>
    intro htoken
    have hdir : c.dir = false := decide_eq_false htoken
    refine ⟨by rw [movedData, hdir]; rfl, ?_⟩
    rw [hm', ← hdir]
    exact hfromHost (by rw [hdir]; decide)
  case within =>
    intro hne
    have hpos : count ≠ 0 := by
      rw [← hlength]
      exact (List.length_pos_iff.mpr hne).ne'
    obtain ⟨hbase, hend⟩ := hram hpos
    rw [hlength]
    exact ⟨BitVec.not_lt.mp hbase, hend⟩
  case access_eq =>
    have hnil : movedData m c n count = [] ↔ count = 0 := by
      rw [← List.length_eq_zero_iff, hlength]
    rw [hlength]
    split_ifs with hcount hdone
    · exact absurd (hnil.mp hdone) hcount
    · rfl
    · rfl
    · exact absurd (hnil.mpr (not_not.mp hcount)) ‹_›
  case place =>
    rw [hm']
    exact hplace
  case dma => rw [hmep, ackEp_dma, hlength]
  case bytes =>
    rw [hmep, (ackEp_counts _ n _ count).1, hlength]
    omega
  case packets => rw [hmep, (ackEp_counts _ n _ count).2]
  case complete =>
    intro hs
    rw [hmep, decide_eq_false hs, hlength]
    split_ifs with hlast
    · obtain ⟨hended, hint⟩ := ackEp_last n _ count hlast
      exact ⟨iff_of_true hended hlast, hint⟩
    · obtain ⟨hen, hint⟩ := ackEp_not_last n _ count hlast h.enabled
      exact ⟨iff_of_false (not_not.mpr hen) hlast, hint⟩
  case setup =>
    intro hs
    have hdir : c.dir = false := by rw [UsbCall.dir, hs]; rfl
    have hn := hzero hs
    rw [hn, hdir, decide_eq_true hs] at hmep
    obtain ⟨hended, hint⟩ := ackEp_setup 0 (m.usbotg.ep false 0) count
    refine ⟨by rw [hmep]; exact hended, by rw [hmep]; exact hint, ?_⟩
    rw [hmusb, ackUsb, if_pos hs, setEp_self, hs]
    exact congrArg clearIn (setEp_of_ne _ _ _ _ (by simp))
  case others =>
    intro d' n' hne hne'
    rw [hmusb]
    exact ackUsb_others hne hne'

end Moved

theorem usbGuards_error {u : S5lUsbotg} {c : UsbCall} {n : Fin usbEndpoints} {r : UsbResult}
    (h : usbGuards u c n = .error r) : r ≠ .ack ∧ r ≠ .dmaError := by
  unfold usbGuards at h
  dsimp only at h
  split_ifs at h
  all_goals
    rw [← Except.error.inj h]
    decide

theorem packetIs (m : UsbMachine) (c : UsbCall) : PacketIs m c (usbPacket m c) := by
  rw [usbPacket]
  split_ifs with hep hinvalid hdisconnected
  · exact .refused _ (by decide) (by decide)
  · exact .refused _ (by decide) (by decide)
  · obtain ⟨hdata, hsetup⟩ := not_or.mp hinvalid
    dsimp only
    cases hguards : usbGuards m.usbotg c ⟨c.ep, hep⟩ with
    | error r =>
      obtain ⟨hack, herror⟩ := usbGuards_error hguards
      exact .refused r hack herror
    | ok count =>
      dsimp only
      by_cases houtside : count ≠ 0 ∧
          ((m.usbotg.ep (decide (c.token = .input)) ⟨c.ep, hep⟩).dma < m.ramBase ∨
            count > m.ramSize.toNat ∨
            ((m.usbotg.ep (decide (c.token = .input)) ⟨c.ep, hep⟩).dma - m.ramBase).toNat + count >
              m.ramSize.toNat)
      · rw [if_pos houtside]
        exact .outside ⟨c.ep, hep⟩ rfl
      · have hram (hpos : count ≠ 0) :
            inRam m (m.usbotg.ep c.dir ⟨c.ep, hep⟩).dma count := by
          obtain ⟨hbase, hrest⟩ := not_or.mp fun h => houtside ⟨hpos, h⟩
          exact ⟨hbase, not_lt.mp fun h => hrest (.inr h)⟩
        have hsetup' (hs : c.token = .setup) : c.ep = 0 ∧ c.length = 8 := by
          have hboth := not_or.mp fun h => hsetup ⟨hs, h⟩
          exact ⟨not_not.mp hboth.1, not_not.mp hboth.2⟩
        rw [if_neg houtside]
        exact .acked ⟨c.ep, hep⟩ rfl _ _ _
          (acked_of_granted (granted_of_usbGuards hguards) hdata hram rfl hsetup' rfl rfl)
  · exact .refused _ (by decide) (by decide)

end S5LBox.Usb
