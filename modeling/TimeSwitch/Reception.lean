import TimeSwitch.Ping
import TimeSwitch.RuleFrames

/-! # What a node does with a frame

A frame that the filter of a node accepts is handled by the network stack.  `decode` reads the
destination address and the datagram of a frame, if it has one.  For the rules, the reception of a
frame is the reception of this datagram if the frame is for the node (`receiveFrame_app`), and if the
node sends the packet back then what it sends decodes to the answer of the rules. -/

namespace TimeSwitch.Net

open Program ByteMemory Rules

/-! ### Frames -/

/-- The bytes of a frame -/
abbrev Frame := List UInt8

/-- The frame in the memory of a packet. -/
def Frame.mem (f : Frame) : Mem := fun i => f.getD i 0

/-- A memory with a UDP datagram in an IPv4 packet. -/
def HasDatagram (m : Mem) : Prop := m.read 12 2 = be16Bytes ethertypeIPv4 ∧ m 23 = 17

instance (m : Mem) : Decidable (HasDatagram m) := inferInstanceAs (Decidable (_ ∧ _))

/-- The destination address and the datagram. -/
def addressedAt (m : Mem) : UInt32 × Datagram :=
  (le32 (m.read 30 4) 0, datagramAt m 34 26 (swap16 (le16 (m.read 16 2)) - 20))

/-- The destination address and the datagram of a frame. -/
def decode (f : Frame) : Option (UInt32 × Datagram) :=
  if HasDatagram f.mem then some (addressedAt f.mem) else none

section frames

variable {f : Frame} {m : Mem} {p : Parcel} {i n : ℕ}

theorem Frame.mem_read (f : Frame) : f.mem.read 0 f.length = f := by
  refine List.ext_getElem (by simp) fun i _ hi => ?_
  rw [Mem.read_getElem, Nat.zero_add]
  exact List.getD_eq_getElem _ _ hi

theorem Frame.mem_take (h : n ≤ f.length) : f.mem.read 0 n = f.take n := by
  have hread := Mem.read_take f.mem 0 f.length n
  rw [f.mem_read, Nat.min_eq_left h] at hread
  exact hread.symm

theorem Frame.mem_apply (h : i < n) : Frame.mem (m.read 0 n) i = m i := read_getD h

/-- The frame of a parcel decodes to its datagram. -/
theorem decode_parcel (hlen : p.payload.length < 248) : decode p.frame =
    some (p.destinationIP, ⟨p.sourceIP, p.sourcePort, p.destinationPort, 8 + p.payload.length,
      p.payload⟩) := by
  have hp : p.In (Frame.mem p.frame) := by
    rw [Parcel.in_iff, ← Parcel.frame_length]
    exact Frame.mem_read _
  have hdata : swap16 (le16 (be16Bytes (28 + p.payload.length))) - 20 - 8 = p.payload.length := by
    rw [swap16_le16_be16Bytes (by omega)]
    omega
  unfold decode addressedAt datagramAt
  simp only [Nat.reduceAdd]
  rw [if_pos ⟨hp.etherType_read, hp.protocol_read⟩, hp.destinationIP_read, hp.sourceIP_read,
    hp.sourcePort_read, hp.destinationPort_read, hp.udpLength_read, hp.ipLength_read, hdata, hp.payload,
    le32_bytes32, le32_bytes32, le16_be16Bytes, le16_be16Bytes, ofNat_swap16_swap16,
    ofNat_swap16_swap16, swap16_le16_be16Bytes (by omega)]

/-- A packet with a parcel is sent as the frame of the parcel. -/
theorem Parcel.In.sent (hp : p.In m) : m.read 0 p.length = p.frame := Parcel.in_iff.mp hp

theorem decode_none (h : ¬ HasDatagram f.mem) : decode f = none := if_neg h

end frames

/-! ### The filter -/

/-- The length of the packet in which a frame is stored, if the frame filter accepts the frame and it
is not too short. -/
def acceptedLength (h : Host) (f : Frame) : Option ℕ :=
  if f.length < Usb.packetLenMin then none
  else
    match (Usb.filterOf h.mac ⟨f.take 24, []⟩).1 with
    | some len => if len ≤ f.length then some len else none
    | none => none

/-- The first fields of an ARP packet for Ethernet and IPv4 -/
def arpStart : List UInt8 := [0, 1, 8, 0, 6, 4]

/-- A packet with the ARP header that the filter demands. -/
structure IsArp (m : Mem) : Prop where
  etherType : m.read 12 2 = be16Bytes ethertypeARP
  start : m.read 14 6 = arpStart

/-- A packet with the IPv4 header that the filter demands. -/
structure IsIPv4 (m : Mem) (length : ℕ) : Prop where
  etherType : m.read 12 2 = be16Bytes ethertypeIPv4
  versionIHL : m 14 = 0x45
  flagsFragment : le16 (m.read 20 2) &&& swap16 0x3FFF = 0
  protocol : m 23 = 1 ∨ m 23 = 17
  ipLength : length = 14 + swap16 (le16 (m.read 16 2))
  lenMin : 42 ≤ length

section filter

variable {h : Host} {f : Frame} {length : ℕ}

/-- What the filter accepts is an ARP packet or an IPv4 packet. -/
theorem acceptedLength_cases (hf : acceptedLength h f = some length) : length ≤ f.length ∧
    (IsArp f.mem ∧ length = 42 ∨ IsIPv4 f.mem length) := by
  unfold acceptedLength at hf
  split_ifs at hf with hshort
  cases hfilter : (Usb.filterOf h.mac ⟨f.take 24, []⟩).1 with
  | none => simp [hfilter] at hf
  | some len =>
      rw [hfilter] at hf
      dsimp only at hf
      split_ifs at hf with hlen
      obtain rfl := Option.some.inj hf
      unfold Usb.packetLenMin at hshort
      refine ⟨hlen, ?_⟩
      have h24 : 24 ≤ f.length := by omega
      have hframe := (Usb.accepts_filterOf h.mac_length (f.take 24) [] [] len
        (List.length_take_of_le h24)).mp (by rwa [List.append_nil])
      rw [← Frame.mem_take h24] at hframe
      have hbytes : ∀ {i v}, i + 1 < 24 → Usb.be16 (f.mem.read 0 24) i = v →
          f.mem.read i 2 = be16Bytes v := by
        intro i v hi hv
        rw [← bytes16_swap16, ← le16_eq hi hv, bytes16_le16 (Mem.read_length _ _ _)]
      cases hframe.2 with
      | inl harp =>
          obtain ⟨⟨htype, hhardware, hprotocol, hhlen, hplen⟩, hlen⟩ := harp
          have hstart := Mem.read_append f.mem 14 2 4
          rw [Mem.read_append f.mem 16 2 2, hbytes (by decide) hhardware, hbytes (by decide) hprotocol]
            at hstart
          rw [read_getD (by decide)] at hhlen hplen
          refine Or.inl ⟨⟨hbytes (by decide) htype, hstart.trans ?_⟩, hlen⟩
          show _ ++ (_ ++ [f.mem (0 + 18), f.mem (0 + 19)]) = _
          rw [hhlen, hplen]
          rfl
      | inr hip =>
          right
          have hmin := hip.1.lenMin
          have hfield : swap16 (le16 (f.mem.read 16 2)) = Usb.be16 (f.mem.read 0 24) 16 :=
            swap16_le16 (by decide)
          have hversion := hip.1.versionIHL
          have hprotocol := hip.1.protocol
          unfold Usb.packetLenMin at hmin
          rw [read_getD (by decide)] at hversion hprotocol
          refine ⟨hbytes (by decide) hip.1.etherType, hversion, ?_, hprotocol, ?_, ?_⟩
          · cases Usb.eq_of_testBit hip.1.flagsFragment with
            | inl hzero => rw [le16_eq (by decide) hzero, show swap16 0 = 0 from rfl, Nat.zero_and]
            | inr hdont =>
                rw [le16_eq (by decide) hdont]
                decide
          · rw [hfield, hip.2, Nat.add_comm]
          · rw [hip.2]
            exact hmin

end filter

/-! ### `UDP_ProcessPacket` with the rules -/

section udp

variable {T : RuleTable} {n length : ℕ} {m : Mem} {s : Station Network} {app : Network}
  {port : UInt16} {payload : List UInt8} {v : UInt32}

/-- A request that is answered: a zero for the known value of a local rule. -/
structure Asked (T : RuleTable) (app : Network) (port : UInt16) (payload : List UInt8) (v : UInt32)
    (i : ℕ) : Prop where
  size : payload.length = ruleValueSize
  zero : le32 payload 0 = 0
  isLocal : (T.rule i).isLocal = true
  networkPort : (T.rule i).networkPort = port
  value : v = (app.rule i).value

/-- An answer is recorded. -/
theorem answerValue_some (h : answerValue T app port payload = some v) :
    ∃ i, udpCallbackRequest T app payload port = (app.send (.answer i port v)).setOk i .ok ∧
      Asked T app port payload v i := by
  unfold answerValue at h
  unfold udpCallbackRequest
  split_ifs at h ⊢ with hlen
  cases hfind : T.data.findIdx? (fun r => r.isLocal && r.networkPort == port) with
  | none => simp [hfind] at h
  | some i =>
      rw [hfind] at h
      dsimp only at h ⊢
      split_ifs at h ⊢ with hok
      obtain rfl := Option.some.inj h
      obtain ⟨hsize, hzero⟩ := not_or.mp hlen
      have hrule := RuleTable.rule_of_find hfind
      rw [Bool.and_eq_true, beq_iff_eq] at hrule
      exact ⟨i, rfl, not_not.mp hsize, not_not.mp hzero, hrule.1, hrule.2, rfl⟩

theorem answerValue_none (h : answerValue T app port payload = none) :
    udpCallbackRequest T app payload port = app := by
  unfold answerValue at h
  unfold udpCallbackRequest
  split_ifs at h ⊢ with hlen
  · rfl
  · cases hfind : T.data.findIdx? (fun r => r.isLocal && r.networkPort == port) with
    | none => rfl
    | some i =>
        rw [hfind] at h
        dsimp only at h ⊢
        split_ifs at h ⊢
        rfl

theorem udpCallbackReply_sent (ip : UInt32) :
    (udpCallbackReply T app payload ip port).sent = app.sent := by
  rcases udpCallbackReply_cases (T := T) (s := app) payload ip port with
    he | ⟨i, -, ⟨_, _, _, _, _, _, he | he⟩ | he⟩ <;> rw [he] <;> rfl

/-- A port is stored as it was read. -/
theorem be16Bytes_port {bs : List UInt8} (h : bs.length = 2) :
    be16Bytes (UInt16.ofNat (swap16 (le16 bs))).toNat = bs := by
  have hlt : swap16 (le16 bs) < 65536 := by
    unfold swap16
    omega
  rw [UInt16.toNat_ofNat', Nat.mod_eq_of_lt hlt, ← bytes16_swap16, swap16_swap16 (le16_lt bs),
    bytes16_le16 h]

/-- `UDP_ProcessPacket` turns the header of an answer round. -/
theorem udpAnswer_eq {σ : Type} {len : ℕ} {st : σ} (hn : 42 ≤ n) (hlen : len < 256) : (do
      let destinationPort ← load16 36
      let sourcePort ← load16 34
      let _ ← udpWriteHeader 34 destinationPort sourcePort len
      pure true : Program σ Bool) n m st =
    some (true, m.blit 34 (m.read 36 2 ++ m.read 34 2 ++ be16Bytes (8 + len) ++ [0, 0]), st) := by
  rw [load16_bind (by omega), load16_bind (by omega), bind_eq (udpWriteHeader_eq hn hlen),
    bytes16_le16 (Mem.read_length _ _ _), bytes16_le16 (Mem.read_length _ _ _)]
  rfl

/-- What an answer leaves behind: the record, and in the packet the datagram back. -/
structure Answered (T : RuleTable) (d : Datagram) (app app' : Network) (m' : Mem) (v : UInt32)
    (i : ℕ) : Prop where
  record : app' = (app.send (.answer i d.destinationPort v)).setOk i .ok
  request : d.sourcePort = udpPort
  asked : Asked T app d.destinationPort d.data v i
  header : m'.read 34 8 = udpHeader d.destinationPort d.sourcePort 4
  payload : m'.read 42 4 = bytes32 v

/-- **`UDP_ProcessPacket` with the rules**: the datagram is handed over, and an answer is written into
the packet. -/
theorem udpProcessPacket_served (hlen : 8 ≤ length) (hn : 34 + length ≤ n) :
    ∃ reflect m' app', udpProcessPacket (ruleCallbacks T) 34 26 length n m s =
        some (reflect, m', { s with app := app' }) ∧
      app' = Rules.udpProcessPacket T s.app (datagramAt m 34 26 length) ∧
      m'.read 0 34 = m.read 0 34 ∧
      (reflect = false → app'.sent = s.app.sent) ∧
      (reflect = true → ∃ v i, Answered T (datagramAt m 34 26 length) s.app app' m' v i) := by
  obtain ⟨k, rfl⟩ := Nat.exists_eq_add_of_le' hlen
  have hserve := ruleCallbacks_serve T
  have hdata : 42 + k ≤ n := by omega
  have hsize : (m.read 42 k).length = k := Mem.read_length _ _ _
  unfold udpProcessPacket Rules.udpProcessPacket datagramAt
  simp only [Nat.reduceAdd, Nat.add_sub_cancel]
  rw [load16_bind (by omega), hsize, Rules.udpHeaderSize, Nat.add_comm 8 k]
  by_cases hshort : k + 8 < swap16 (le16 (m.read 38 2))
  · rw [if_pos hshort, if_pos hshort]
    exact ⟨false, m, s.app, rfl, rfl, rfl, fun _ => rfl, fun h => absurd h (by decide)⟩
  · rw [if_neg hshort, if_neg hshort, sub_bind (by omega), load16_bind (by omega),
      load16_bind (by omega), Nat.add_sub_cancel]
    simp only [port_iff]
    by_cases hsource : le16 (m.read 34 2) = udpPortAutomat
    · have hrequest := hserve.request (UInt16.ofNat (swap16 (le16 (m.read 36 2)))) m s.app hdata
      rw [if_pos hsource, if_pos hsource, bind_eq (onApp_eq hrequest)]
      show ∃ reflect m' app', (if (answerValue T s.app _ (m.read 42 k)).isSome then _ else _ :
        Program (Station Network) Bool) n (m.blit 42 (((answerValue T s.app _ (m.read 42 k)).map
          bytes32).getD (m.read 42 k))) _ = some (reflect, m', { s with app := app' }) ∧ _
      cases hvalue : answerValue T s.app (UInt16.ofNat (swap16 (le16 (m.read 36 2))))
          (m.read 42 k) with
      | none =>
          rw [Option.map_none, Option.getD_none, Mem.blit_read]
          exact ⟨false, m, _, rfl, rfl, rfl, fun _ => congrArg Network.sent (answerValue_none hvalue),
            fun h => absurd h (by decide)⟩
      | some v =>
          obtain ⟨i, hi, hasked⟩ := answerValue_some hvalue
          have hk : k = 4 := hsize.symm.trans (answerValue_length hvalue)
          subst hk
          have hfront : ∀ {a}, a + 2 ≤ 42 → (m.blit 42 (bytes32 v)).read a 2 = m.read a 2 :=
            fun h => Mem.read_blit_disjoint (Or.inl h)
          refine ⟨true, _, _, udpAnswer_eq (by omega) (by decide), rfl, ?_,
            fun h => absurd h (by decide), fun _ => ⟨v, i, ?_⟩⟩
          · rw [Option.map_some, Option.getD_some, Mem.read_blit_disjoint (Or.inl (by decide)),
              Mem.read_blit_disjoint (Or.inl (by decide))]
          · rw [Option.map_some, Option.getD_some, hfront (by decide), hfront (by decide)]
            constructor
            case record => exact hi
            case request => exact (port_iff _).mpr hsource
            case asked => exact hasked
            case header =>
              unfold udpHeader
              rw [be16Bytes_port (Mem.read_length _ _ _), be16Bytes_port (Mem.read_length _ _ _)]
              exact Mem.read_blit_same _ _ _
            case payload =>
              rw [Mem.read_blit_disjoint (Or.inr (by simp))]
              exact Mem.read_blit_same _ _ (bytes32 v)
    · rw [if_neg hsource, if_neg hsource]
      by_cases hdest : le16 (m.read 36 2) = udpPortAutomat
      · have hsource : 26 + 4 ≤ n := by omega
        have hreply := hserve.reply (UInt16.ofNat (swap16 (le16 (m.read 34 2)))) m s.app hdata hsource
        rw [if_pos hdest, if_pos hdest, bind_eq (onApp_eq hreply)]
        exact ⟨false, m, _, rfl, rfl, rfl, fun _ => udpCallbackReply_sent _,
          fun h => absurd h (by decide)⟩
      · rw [if_neg hdest, if_neg hdest]
        exact ⟨false, m, s.app, rfl, rfl, rfl, fun _ => rfl, fun h => absurd h (by decide)⟩

end udp

/-! ### IPv4 packets -/

/-- The packet goes to the node, or to all nodes. -/
def Host.Addressed (h : Host) (m : Mem) : Prop :=
  le32 (m.read 30 4) 0 = h.ip ∨ le32 (m.read 30 4) 0 = h.broadcastIP

instance (h : Host) (m : Mem) : Decidable (h.Addressed m) := inferInstanceAs (Decidable (_ ∨ _))

/-- The headers of Ethernet and IP are turned round. -/
def turnRound (h : Host) (m : Mem) (len : ℕ) : Mem :=
  (m.blit 14 (ipHeader h.ip (le32 (m.read 26 4) 0) (m 23) len)).blit 0 (m.read 6 6 ++ h.mac)

section ip

variable {τ : Type} {h : Host} {cb : Callbacks τ} {n length : ℕ} {m m₁ : Mem} {s s₁ : Station τ}
  {reflect : Bool}

/-- A packet for another node is left alone. -/
theorem ethernetProcessPacket_notAddressed (hip : IsIPv4 m length) (hn : length ≤ n)
    (hd : ¬ h.Addressed m) : ethernetProcessPacket h cb length n m s = some (false, m, s) := by
  obtain ⟨htype, hversion, hflags, -, hlength, hmin⟩ := hip
  have hfield : ¬ (m 14 ≠ 0x45 ∨ le16 (m.read 20 2) &&& swap16 0x3FFF ≠ 0 ∨
      length - 14 < swap16 (le16 (m.read 16 2))) := by
    rw [hversion, hflags]
    simp only [ne_eq, not_true_eq_false, false_or]
    omega
  have haddress : le32 (m.read 30 4) 0 ≠ h.ip ∧ le32 (m.read 30 4) 0 ≠ h.broadcastIP :=
    not_or.mp hd
  have hprocess : ipProcessPacket h cb 14 (length - 14) n m s = some (false, m, s) := by
    unfold ipProcessPacket
    rw [load16_bind (by omega), load8_bind (by omega), load16_bind (by omega), if_neg hfield,
      loadIP_bind (by omega), if_pos haddress, pure_eq]
  rw [ethernetProcessPacket_ip (by omega) (by omega) htype, bind_eq hprocess]
  rfl

/-- A packet for the node is handed over, and turned round if it is sent back. -/
theorem ethernetProcessPacket_addressed (hip : IsIPv4 m length) (hn : length ≤ n)
    (hd : h.Addressed m)
    (hswitch : ipSwitch cb 14 (m 23) (length - 34) n m s = some (reflect, m₁, s₁)) :
    ethernetProcessPacket h cb length n m s =
      some (reflect, if reflect then turnRound h m₁ (length - 34) else m₁, s₁) := by
  obtain ⟨htype, hversion, hflags, -, hlength, hmin⟩ := hip
  have hsub : length - 14 - 20 = length - 34 := by omega
  have hlength' : swap16 (le16 (m.read 16 2)) = length - 14 := by omega
  have hprocess : ipProcessPacket h cb 14 (length - 14) n m s = some (reflect,
      if reflect then m₁.blit 14 (ipHeader h.ip (le32 (m₁.read 26 4) 0) (m₁ 23) (length - 34)) else m₁,
      s₁) := by
    rw [ipProcessPacket_accepted hversion hflags hlength' (by omega) le_rfl (by omega) hd, hsub,
      bind_eq hswitch]
    cases reflect with
    | false => rfl
    | true => rw [if_pos rfl, ipAnswer_eq (by omega), if_pos rfl]
  rw [ethernetProcessPacket_ip (by omega) (by omega) htype, bind_eq hprocess]
  cases reflect with
  | false => rfl
  | true =>
      rw [if_pos rfl, ethernetAnswer_eq (by omega), if_pos rfl, if_pos rfl,
        Mem.read_blit_disjoint (Or.inl (by decide))]
      rfl

/-- `ICMP_ProcessPacket` leaves the headers in front alone, and changes the type of an echo request to
the one of a reply. -/
theorem icmpProcessPacket_front {σ : Type} {st : σ} (hn : 38 ≤ n) : ∃ reflect m',
    (icmpProcessPacket 34 : Program σ Bool) n m st = some (reflect, m', st) ∧
      m'.read 0 34 = m.read 0 34 ∧ (reflect = true → m 34 = 8 ∧ m' 34 = 0) := by
  by_cases hrequest : m 34 = 8 ∧ m 35 = 0
  · exact ⟨true, echoReply m 34, icmpProcessPacket_request (by omega) hrequest.1 hrequest.2,
      echoReply_read (Or.inl le_rfl), fun _ => ⟨hrequest.1, rfl⟩⟩
  · have hother : m 34 ≠ 8 ∨ m 35 ≠ 0 := not_and_or.mp hrequest
    refine ⟨false, m, ?_, rfl, fun h => absurd h (by decide)⟩
    unfold icmpProcessPacket
    rw [load8_bind (by omega), load8_bind (by omega), if_pos hother, pure_eq]

theorem turnRound_read {i k len : ℕ} (hi : 12 ≤ i) :
    (turnRound h m len).read i k =
      (m.blit 14 (ipHeader h.ip (le32 (m.read 26 4) 0) (m 23) len)).read i k :=
  answered_read (Mem.read_length _ _ _) hi

theorem turnRound_header {len : ℕ} :
    (turnRound h m len).read 14 20 = ipHeader h.ip (le32 (m.read 26 4) 0) (m 23) len := by
  rw [turnRound_read (by decide)]
  exact Mem.read_blit_same _ _ _

theorem turnRound_protocol {len : ℕ} : turnRound h m len 23 = m 23 := by
  have hheader : (turnRound h m len).read 14 20 = _ := turnRound_header
  exact (List.cons.inj (Mem.read_part hheader (i := 9) (k := 1) (by decide))).1

/-- What lies behind the headers -/
theorem turnRound_behind {i k len : ℕ} (hi : 34 ≤ i) :
    (turnRound h m len).read i k = m.read i k := by
  rw [turnRound_read (by omega)]
  exact Mem.read_blit_disjoint (Or.inr (by simp; omega))

theorem turnRound_ethernet {len : ℕ} (htype : m.read 12 2 = be16Bytes ethertypeIPv4) :
    (turnRound h m len).read 0 14 = ethernetHeader (m.read 6 6) h.mac ethertypeIPv4 := by
  have hmacs : (turnRound h m len).read 0 12 = m.read 6 6 ++ h.mac :=
    answered_macs (Mem.read_length _ _ _)
  have htype' : (turnRound h m len).read 12 2 = be16Bytes ethertypeIPv4 := by
    rw [turnRound_read le_rfl, Mem.read_blit_disjoint (Or.inl (by decide)), htype]
  rw [show 14 = 12 + 2 from rfl, Mem.read_append, hmacs, Nat.zero_add, htype', List.append_assoc]
  rfl

end ip

/-! ### ARP packets -/

section arp

variable {τ : Type} {h : Host} {cb : Callbacks τ} {n length : ℕ} {m : Mem} {s : Station τ}

/-- What a node does with an ARP packet: it answers a request, learns from an answer in network
order, or does nothing. -/
inductive ArpEffect (h : Host) (m : Mem) (s : Station τ) : Bool × Mem × Station τ → Prop
  | request (m' : Mem) : IsArpRequest h m →
      m'.read 0 42 = arpFrame (m.read 6 6) h.mac (bytes16 arpReply) h.mac h.ip (m.read 22 6)
        (le32 (m.read 28 4) 0) → ArpEffect h m s (true, m', s)
  | reply : m.read 20 2 = be16Bytes arpReply → le32 (m.read 38 4) 0 = h.ip →
      ipCompareNet (le32 (m.read 28 4) 0) h.ip = true →
      ArpEffect h m s (false, m, arpLearn s (ipGetHost (le32 (m.read 28 4) 0)) (m.read 22 6))
  | none : ArpEffect h m s (false, m, s)

theorem ethernetProcessPacket_arpEffect (hn : 42 ≤ n)
    (htype : m.read 12 2 = be16Bytes ethertypeARP) :
    ∃ r, ethernetProcessPacket h cb length n m s = some r ∧ ArpEffect h m s r := by
  have hbytes : ∀ {v}, le16 (m.read 20 2) = swap16 v → m.read 20 2 = be16Bytes v := by
    intro v hv
    rw [← bytes16_swap16, ← hv, bytes16_le16 (Mem.read_length _ _ _)]
  by_cases htarget : le32 (m.read 38 4) 0 = h.ip
  · by_cases hrequest : le16 (m.read 20 2) = swap16 arpRequest
    · have hm : IsArpRequest h m := ⟨htype, hbytes hrequest, htarget⟩
      obtain ⟨m', hprocess, hanswer⟩ := ethernetProcessPacket_arpRequest cb length s hn hm
      exact ⟨_, hprocess, .request m' hm hanswer⟩
    · have harp : ∀ {r}, arpProcessPacket h 14 n m s = some (false, m, r) →
          ethernetProcessPacket h cb length n m s = some (false, m, r) := by
        intro r hr
        rw [ethernetProcessPacket_arp hn htype, bind_eq hr]
        rfl
      by_cases hreply : le16 (m.read 20 2) = swap16 arpReply
      · by_cases hnet : ipCompareNet (le32 (m.read 28 4) 0) h.ip = true
        · refine ⟨_, harp ?_, .reply (hbytes hreply) htarget hnet⟩
          unfold arpProcessPacket
          rw [loadIP_bind (by omega), if_neg (not_not_intro htarget), load16_bind (by omega),
            if_neg hrequest, if_pos hreply, loadIP_bind (by omega), if_pos hnet, load_bind (by omega),
            get_bind, set_bind, pure_eq]
        · refine ⟨_, harp ?_, .none⟩
          unfold arpProcessPacket
          rw [loadIP_bind (by omega), if_neg (not_not_intro htarget), load16_bind (by omega),
            if_neg hrequest, if_pos hreply, loadIP_bind (by omega), if_neg hnet, pure_eq]
      · refine ⟨_, harp ?_, .none⟩
        unfold arpProcessPacket
        rw [loadIP_bind (by omega), if_neg (not_not_intro htarget), load16_bind (by omega),
          if_neg hrequest, if_neg hreply, pure_eq]
  · refine ⟨(false, m, s), ?_, .none⟩
    have harp : arpProcessPacket h 14 n m s = some (false, m, s) := by
      unfold arpProcessPacket
      rw [loadIP_bind (by omega), if_pos htarget, pure_eq]
    rw [ethernetProcessPacket_arp hn htype, bind_eq harp]
    rfl

end arp

/-! ### Reception -/

/-- `USB_Received` and `Ethernet_ProcessPacket`: the state, and the packet that is sent back. -/
def receiveFrame (h : Host) (T : RuleTable) (s : Station Network) (f : Frame) :
    Station Network × List Frame :=
  match acceptedLength h f with
  | none => (s, [])
  | some length =>
      match ethernetProcessPacket h (ruleCallbacks T) length length f.mem s with
      | none => (s, [])
      | some (reflect, m, s') => (s', if reflect then [m.read 0 length] else [])

/-- The datagram that a frame brings to a node. -/
def broughtDatagram (h : Host) (f : Frame) : Option Datagram :=
  if (acceptedLength h f).isSome ∧ HasDatagram f.mem ∧ h.Addressed f.mem then
    some (addressedAt f.mem).2
  else none

/-- The answer to a datagram in the memory of its packet. -/
def answerParcel (h : Host) (m : Mem) (d : Datagram) (v : UInt32) : Parcel where
  destination := m.read 6 6
  source := h.mac
  destination_length := Mem.read_length _ _ _
  source_length := h.mac_length
  sourceIP := h.ip
  destinationIP := d.sourceIP
  sourcePort := d.destinationPort
  destinationPort := d.sourcePort
  payload := bytes32 v

/-- An ICMP message of the type in an IPv4 packet. -/
structure IsIcmp (m : Mem) (type : UInt8) : Prop where
  etherType : m.read 12 2 = be16Bytes ethertypeIPv4
  protocol : m 23 = 1
  type : m 34 = type

/-- What the reception of a frame does: nothing, an echo request or an ARP packet is handled, or the
frame brings a datagram, which may be answered. -/
inductive Received (h : Host) (T : RuleTable) (s : Station Network) (f : Frame) :
    Station Network × List Frame → Prop
  | ignored : broughtDatagram h f = none → Received h T s f (s, [])
  | echo (g : Frame) : broughtDatagram h f = none → IsIcmp f.mem 8 → IsIcmp g.mem 0 →
      Received h T s f (s, [g])
  | arp (r : Bool × Mem × Station Network) : broughtDatagram h f = none →
      (acceptedLength h f).isSome → f.mem.read 12 2 = be16Bytes ethertypeARP →
      ArpEffect h f.mem s r →
      Received h T s f (r.2.2, if r.1 then [r.2.1.read 0 42] else [])
  | taken (d : Datagram) (app : Network) : broughtDatagram h f = some d →
      app = Rules.udpProcessPacket T s.app d → app.sent = s.app.sent →
      Received h T s f ({ s with app := app }, [])
  | answered (d : Datagram) (app : Network) (v : UInt32) (i : ℕ) : broughtDatagram h f = some d →
      app = Rules.udpProcessPacket T s.app d →
      app = (s.app.send (.answer i d.destinationPort v)).setOk i .ok → d.sourcePort = udpPort →
      Asked T s.app d.destinationPort d.data v i →
      Received h T s f ({ s with app := app }, [(answerParcel h f.mem d v).frame])

section reception

variable {h : Host} {T : RuleTable} {s : Station Network} {f : Frame} {length : ℕ}

theorem broughtDatagram_of_accepted (hf : acceptedLength h f = some length) :
    broughtDatagram h f = if HasDatagram f.mem ∧ h.Addressed f.mem then some (addressedAt f.mem).2
      else none := by
  unfold broughtDatagram
  rw [hf]
  simp

theorem receiveFrame_of_process {r : Bool × Mem × Station Network}
    (hf : acceptedLength h f = some length)
    (hr : ethernetProcessPacket h (ruleCallbacks T) length length f.mem s = some r) :
    receiveFrame h T s f = (r.2.2, if r.1 then [r.2.1.read 0 length] else []) := by
  unfold receiveFrame
  rw [hf]
  dsimp only
  rw [hr]

/-- A UDP packet for the node -/
theorem received_udp (hf : acceptedLength h f = some length) (hip : IsIPv4 f.mem length)
    (hprotocol : f.mem 23 = 17) (hd : h.Addressed f.mem) :
    Received h T s f (receiveFrame h T s f) := by
  have hmin := hip.lenMin
  have hsum : swap16 (le16 (f.mem.read 16 2)) - 20 = length - 34 := by
    have hlength := hip.ipLength
    omega
  have hbrought : broughtDatagram h f = some (datagramAt f.mem 34 26 (length - 34)) := by
    rw [broughtDatagram_of_accepted hf, if_pos ⟨⟨hip.etherType, hprotocol⟩, hd⟩]
    unfold addressedAt
    rw [hsum]
  have hheader : 8 ≤ length - 34 := by omega
  have hroom : 34 + (length - 34) ≤ length := by omega
  obtain ⟨reflect, m', app', hudp, happ, hfront, hsent, hanswer⟩ :=
    udpProcessPacket_served (T := T) (m := f.mem) (s := s) hheader hroom
  have hswitch : ipSwitch (ruleCallbacks T) 14 (f.mem 23) (length - 34) length f.mem s =
      some (reflect, m', { s with app := app' }) := by
    unfold ipSwitch
    rw [hprotocol, if_neg (by decide), if_pos rfl]
    exact hudp
  rw [receiveFrame_of_process hf (ethernetProcessPacket_addressed hip le_rfl hd hswitch)]
  cases reflect with
  | false => exact .taken _ _ hbrought happ (hsent rfl)
  | true =>
      obtain ⟨v, i, hrecord, hrequest, hasked, hheader, hpayload⟩ := hanswer rfl
      have h46 : length = 46 := by
        have hread : (f.mem.read 42 (length - 34 - 8)).length = ruleValueSize := hasked.size
        rw [Mem.read_length] at hread
        unfold ruleValueSize at hread
        omega
      have hsender : m'.read 26 4 = f.mem.read 26 4 := read_front hfront (by decide)
      have hmac : m'.read 6 6 = f.mem.read 6 6 := read_front hfront (by decide)
      have htype : m'.read 12 2 = be16Bytes ethertypeIPv4 :=
        (read_front hfront (by decide)).trans hip.etherType
      have hudpProtocol : m' 23 = 17 :=
        (List.cons.inj (read_front (i := 23) (j := 1) hfront (by decide))).1.trans hprotocol
      have hin : (answerParcel h f.mem (datagramAt f.mem 34 26 (length - 34)) v).In
          (turnRound h m' (length - 34)) := by
        rw [h46]
        constructor
        case ethernet => rw [turnRound_ethernet htype, hmac]; rfl
        case ip => rw [turnRound_header, hsender, hudpProtocol]; rfl
        case udp =>
          rw [turnRound_behind le_rfl]
          rw [h46] at hheader
          exact hheader
        case payload => exact (turnRound_behind (by decide)).trans hpayload
      have hsentFrame := hin.sent
      have hsize : (answerParcel h f.mem (datagramAt f.mem 34 26 (length - 34)) v).length = length :=
        h46.symm
      rw [hsize] at hsentFrame
      rw [if_pos rfl, if_pos rfl, hsentFrame]
      exact .answered _ _ v i hbrought happ hrecord hrequest hasked

/-- An ICMP packet for the node -/
theorem received_icmp (hf : acceptedLength h f = some length) (hip : IsIPv4 f.mem length)
    (hprotocol : f.mem 23 = 1) (hd : h.Addressed f.mem) :
    Received h T s f (receiveFrame h T s f) := by
  have hmin := hip.lenMin
  have hbrought : broughtDatagram h f = none := by
    rw [broughtDatagram_of_accepted hf, if_neg]
    rintro ⟨⟨-, hudp⟩, -⟩
    exact absurd (hprotocol.symm.trans hudp) (by decide)
  have hicmp : ∃ reflect m', (icmpProcessPacket 34 : Program (Station Network) Bool) length f.mem s =
      some (reflect, m', s) ∧ m'.read 0 34 = f.mem.read 0 34 ∧
        (reflect = true → f.mem 34 = 8 ∧ m' 34 = 0) := icmpProcessPacket_front (by omega)
  obtain ⟨reflect, m', hicmp, hfront, htypes⟩ := hicmp
  have hswitch : ipSwitch (ruleCallbacks T) 14 (f.mem 23) (length - 34) length f.mem s =
      some (reflect, m', s) := by
    unfold ipSwitch
    rw [if_pos hprotocol]
    exact hicmp
  rw [receiveFrame_of_process hf (ethernetProcessPacket_addressed hip le_rfl hd hswitch)]
  cases reflect with
  | false => exact .ignored hbrought
  | true =>
      have htype : m'.read 12 2 = be16Bytes ethertypeIPv4 :=
        (read_front hfront (by decide)).trans hip.etherType
      have hicmpProtocol : m' 23 = 1 :=
        (List.cons.inj (read_front (i := 23) (j := 1) hfront (by decide))).1.trans hprotocol
      obtain ⟨hrequest, hreply⟩ := htypes rfl
      refine .echo _ hbrought ⟨hip.etherType, hprotocol, hrequest⟩ ?_
      rw [if_pos rfl]
      constructor
      case etherType =>
        have hturn : (turnRound h m' (length - 34)).read 12 2 = be16Bytes ethertypeIPv4 := by
          rw [turnRound_read le_rfl, Mem.read_blit_disjoint (Or.inl (by decide)), htype]
        rw [← hturn]
        exact Mem.read_congr fun x _ hx => Frame.mem_apply (by omega)
      case protocol =>
        rw [Frame.mem_apply (by omega)]
        exact turnRound_protocol.trans hicmpProtocol
      case type =>
        have hbehind : (turnRound h m' (length - 34)).read 34 1 = m'.read 34 1 :=
          turnRound_behind le_rfl
        rw [Frame.mem_apply (by omega)]
        exact (List.cons.inj hbehind).1.trans hreply

/-- **Reception.**  All that a frame can do to a node. -/
theorem receiveFrame_received : Received h T s f (receiveFrame h T s f) := by
  cases hf : acceptedLength h f with
  | none =>
      have hbrought : broughtDatagram h f = none := by
        unfold broughtDatagram
        rw [hf]
        simp
      have hreceive : receiveFrame h T s f = (s, []) := by
        unfold receiveFrame
        rw [hf]
      rw [hreceive]
      exact .ignored hbrought
  | some length =>
      cases (acceptedLength_cases hf).2 with
      | inl harp =>
          obtain ⟨⟨htype, -⟩, rfl⟩ := harp
          have hbrought : broughtDatagram h f = none := by
            rw [broughtDatagram_of_accepted hf, if_neg]
            rintro ⟨⟨hip, -⟩, -⟩
            exact absurd (htype.symm.trans hip) (by decide)
          have hprocess : ∃ r, ethernetProcessPacket h (ruleCallbacks T) 42 42 f.mem s = some r ∧
              ArpEffect h f.mem s r := ethernetProcessPacket_arpEffect le_rfl htype
          obtain ⟨r, hr, heffect⟩ := hprocess
          rw [receiveFrame_of_process hf hr]
          exact .arp r hbrought (Option.isSome_iff_exists.mpr ⟨42, hf⟩) htype heffect
      | inr hip =>
          by_cases hd : h.Addressed f.mem
          · cases hip.protocol with
            | inl hicmp => exact received_icmp hf hip hicmp hd
            | inr hudp => exact received_udp hf hip hudp hd
          · have hbrought : broughtDatagram h f = none := by
              rw [broughtDatagram_of_accepted hf, if_neg fun hb => hd hb.2]
            rw [receiveFrame_of_process hf (ethernetProcessPacket_notAddressed hip le_rfl hd)]
            exact .ignored hbrought

end reception

/-! ### Frames within the ARP table -/

/-- A frame with an ARP answer -/
def IsArpReplyFrame (f : Frame) : Prop :=
  Mem.read (Frame.mem f) 12 2 = be16Bytes ethertypeARP ∧
    Mem.read (Frame.mem f) 20 2 = be16Bytes arpReply

instance (f : Frame) : Decidable (IsArpReplyFrame f) := inferInstanceAs (Decidable (_ ∧ _))

/-- The host part and the MAC address that an ARP answer tells. -/
def Frame.entry (f : Frame) : UInt8 × List UInt8 :=
  (ipGetHost (le32 (Mem.read (Frame.mem f) 28 4) 0), Mem.read (Frame.mem f) 22 6)

/-- The frame is an ARP answer to this node, from its subnet. -/
def Host.TakesOver (h : Host) (f : Frame) : Prop :=
  (acceptedLength h f).isSome ∧ IsArpReplyFrame f ∧ le32 (Mem.read (Frame.mem f) 38 4) 0 = h.ip ∧
    ipCompareNet (le32 (Mem.read (Frame.mem f) 28 4) 0) h.ip = true

instance (h : Host) (f : Frame) : Decidable (h.TakesOver f) := inferInstanceAs (Decidable (_ ∧ _))

/-- A node that gets the frame stays within `ARP_Table`: it is not the answer of a host without an entry
when the table is full, which would be written behind the table. -/
def WithinTable (h : Host) (s : Station Network) (f : Frame) : Prop :=
  h.TakesOver f → ∀ i ∈ arpAccesses s f.entry.1, i < arpTableSize

instance (h : Host) (s : Station Network) (f : Frame) : Decidable (WithinTable h s f) :=
  inferInstanceAs (Decidable (_ → _))

/-- Then what lies behind the table is left alone. -/
theorem Received.within {h : Host} {T : RuleTable} {s : Station Network} {f : Frame}
    {r : Station Network × List Frame} {k : ℕ} (hr : Received h T s f r) (hf : WithinTable h s f)
    (hk : arpTableSize ≤ k) : r.1.arpTable k = s.arpTable k := by
  cases hr with
  | arp q hbrought haccepted htype hq =>
      cases hq with
      | reply hoperation htarget hnet =>
          exact arpLearn_within (hf ⟨haccepted, ⟨htype, hoperation⟩, htarget, hnet⟩) hk
      | _ => rfl
  | _ => rfl

end TimeSwitch.Net
