import TimeSwitch.Checksum
import TimeSwitch.Delivery

/-! # Ping

An echo request is answered in place: `ICMP_ProcessPacket` replaces the type and adds the difference
to the checksum, `IP_ProcessPacket` and `Ethernet_ProcessPacket` turn the addresses round.  The
checksum of the answer is valid because a sum with end-around carry does not see where the carry has
been added (`valid_patch`). -/

namespace TimeSwitch.Net

open Program ByteMemory

variable {τ : Type}

/-! ### Valid blocks -/

/-- The words of a block, with its checksum, sum up to the word of ones. -/
def ValidChecksum (bs : List UInt8) : Prop := OnesComplement.carries (networkWords bs).sum = 65535

/-- The machine words can be added instead. -/
theorem validChecksum_iff (bs : List UInt8) :
    ValidChecksum bs ↔ OnesComplement.fold (wordsOf (bs ++ [0])).sum = 65535 := by
  have hlt : OnesComplement.carries (networkWords bs).sum < 65536 := by
    rw [OnesComplement.carries_eq]
    exact OnesComplement.fold_lt _
  have hsum := sum_words bs
  rw [OnesComplement.sum_eq (wordsOf_lt _)] at hsum
  unfold ValidChecksum
  constructor
  · intro h
    rw [hsum, h]
    rfl
  · intro h
    rw [hsum] at h
    have hswap := congrArg swap16 h
    rwa [swap16_swap16 hlt] at hswap

/-- The header that `IP_WriteHeader` writes. -/
theorem valid_ipHeader (source destination : UInt32) (protocol : UInt8) (len : ℕ) :
    ValidChecksum (ipHeader source destination protocol len) := by
  have heven : (ipHeader source destination protocol len).length % 2 = 0 := by
    rw [ipHeader_length]
  have hsum := sum_ipHeader source destination protocol len
  rw [OnesComplement.sum_eq (wordsOf_lt _)] at hsum
  rw [validChecksum_iff, wordsOf_append heven]
  show OnesComplement.fold (_ ++ []).sum = 65535
  rwa [List.append_nil]

/-- A word of a block is moved into its checksum. -/
theorem valid_patch {c w : ℕ} {bs : List UInt8} (hc : c < 65536) (hw : w < 65536)
    (h : ValidChecksum (bytes16 w ++ (bytes16 c ++ bs))) :
    ValidChecksum (bytes16 0 ++ (bytes16 (ipChecksumAdd c w) ++ bs)) := by
  rw [validChecksum_iff, List.append_assoc, List.append_assoc] at h ⊢
  rw [wordsOf_bytes16 hw, wordsOf_bytes16 hc, List.sum_cons, List.sum_cons, ← Nat.add_assoc,
    Nat.add_comm w c] at h
  rwa [ipChecksumAdd_eq hc hw, wordsOf_bytes16 (by decide), wordsOf_bytes16 (add_lt hc hw),
    List.sum_cons, List.sum_cons, Nat.zero_add, OnesComplement.fold_add_add]

/-! ### Requests and replies -/

/-- The payload of the IP packet in a frame. -/
def ipPayload (m : Mem) : List UInt8 := m.read 34 (swap16 (le16 (m.read 16 2)) - 20)

/-- An echo request for the node `h`. -/
structure IsEchoRequest (h : Host) (m : Mem) : Prop where
  etherType : m.read 12 2 = be16Bytes ethertypeIPv4
  protocol : m 23 = 1
  type : m 34 = 8
  code : m 35 = 0
  destination : le32 (m.read 30 4) 0 = h.ip ∨ le32 (m.read 30 4) 0 = h.broadcastIP
  checksum : ValidChecksum (ipPayload m)

/-- The frame `m'` is the reply of the node `h` to the request `m`. -/
structure IsEchoReply (h : Host) (m m' : Mem) : Prop where
  destinationMAC : m'.read 0 6 = m.read 6 6
  sourceMAC : m'.read 6 6 = h.mac
  etherType : m'.read 12 2 = be16Bytes ethertypeIPv4
  versionIHL : m' 14 = 0x45
  ipLength : m'.read 16 2 = m.read 16 2
  protocol : m' 23 = 1
  header : ValidChecksum (m'.read 14 20)
  source : le32 (m'.read 26 4) 0 = h.ip
  destination : le32 (m'.read 30 4) 0 = le32 (m.read 26 4) 0
  type : m' 34 = 0
  code : m' 35 = 0
  checksum : ValidChecksum (ipPayload m')
  data : (ipPayload m').drop 4 = (ipPayload m).drop 4

/-! ### The layers -/

section layers

variable {σ : Type} {h : Host} {cb : Callbacks τ} {n packet k : ℕ} {m : Mem} {st : σ}
  {s : Station τ}

/-- The message of a reply: the type is replaced, and the checksum adjusted. -/
def echoReply (m : Mem) (packet : ℕ) : Mem :=
  (m.blit packet [0]).blit (packet + 2) (bytes16 (ipChecksumAdd (le16 (m.read (packet + 2) 2)) 8))

theorem icmpProcessPacket_request (hn : packet + 4 ≤ n) (htype : m packet = 8)
    (hcode : m (packet + 1) = 0) :
    (icmpProcessPacket packet : Program σ Bool) n m st = some (true, echoReply m packet, st) := by
  have hrequest : ¬ ((8 : UInt8) ≠ 8 ∨ (0 : UInt8) ≠ 0) := by decide
  unfold icmpProcessPacket
  rw [load8_bind (by omega), load8_bind (by omega), htype, hcode, if_neg hrequest,
    store_bind (by simp; omega), load16_bind (by omega), store16_bind (by omega), pure_eq,
    Mem.read_blit_disjoint (Or.inr (by simp))]
  rfl

/-- What lies around type and checksum. -/
theorem echoReply_read {i : ℕ} (hi : i + k ≤ packet ∨ packet + 4 ≤ i) :
    (echoReply m packet).read i k = m.read i k := by
  unfold echoReply
  rw [Mem.read_blit_disjoint (by simp; omega), Mem.read_blit_disjoint (by simp; omega)]

/-- The message, with its code. -/
theorem echoReply_message (hcode : m (packet + 1) = 0) :
    (echoReply m packet).read packet (4 + k) =
      bytes16 0 ++ (bytes16 (ipChecksumAdd (le16 (m.read (packet + 2) 2)) 8) ++
        m.read (packet + 4) k) := by
  have hfirst : (echoReply m packet).read packet 2 = bytes16 0 := by
    unfold echoReply
    rw [Mem.read_blit_disjoint (Or.inl le_rfl)]
    show [(m.blit packet [0]) packet, (m.blit packet [0]) (packet + 1)] = _
    rw [Mem.blit_apply_outside (x := packet + 1) (Or.inr (by simp)), hcode]
    simp [Mem.blit, bytes16]
  have hsecond : (echoReply m packet).read (packet + 2) 2 =
      bytes16 (ipChecksumAdd (le16 (m.read (packet + 2) 2)) 8) := Mem.read_blit_same _ _ _
  have hrest : (echoReply m packet).read (packet + 2 + 2) k = m.read (packet + 4) k :=
    echoReply_read (Or.inr le_rfl)
  rw [show 4 + k = 2 + (2 + k) by omega, Mem.read_append, Mem.read_append, hfirst, hsecond, hrest]

/-- The message of a request. -/
theorem read_message (htype : m packet = 8) (hcode : m (packet + 1) = 0) :
    m.read packet (4 + k) =
      bytes16 8 ++ (bytes16 (le16 (m.read (packet + 2) 2)) ++ m.read (packet + 4) k) := by
  have hfirst : m.read packet 2 = bytes16 8 := by
    show [m packet, m (packet + 1)] = _
    rw [htype, hcode]
    rfl
  rw [show 4 + k = 2 + (2 + k) by omega, Mem.read_append, Mem.read_append, hfirst,
    bytes16_le16 (Mem.read_length _ _ _)]

/-- The checksum of the reply is valid if the one of the request is. -/
theorem echoReply_valid (htype : m packet = 8) (hcode : m (packet + 1) = 0)
    (h : ValidChecksum (m.read packet (4 + k))) :
    ValidChecksum ((echoReply m packet).read packet (4 + k)) := by
  rw [read_message htype hcode] at h
  rw [echoReply_message hcode]
  exact valid_patch (le16_lt _) (by decide) h

/-- The packet of a reply, for the length field `ipLength`. -/
def ipReply (h : Host) (m : Mem) (ipLength : ℕ) : Mem :=
  (echoReply m 34).blit 14 (ipHeader h.ip (le32 (m.read 26 4) 0) 1 (ipLength - 20))

/-- `IP_ProcessPacket` on an echo request. -/
theorem ipProcessPacket_echo {ipLength : ℕ} (hm : IsEchoRequest h m) (hversion : m 14 = 0x45)
    (hflags : le16 (m.read 20 2) &&& swap16 0x3FFF = 0)
    (hlength : swap16 (le16 (m.read 16 2)) = ipLength) (hmin : 28 ≤ ipLength)
    (hn : 14 + ipLength ≤ n) :
    ipProcessPacket h cb 14 ipLength n m s = some (true, ipReply h m ipLength, s) := by
  have hprotocol : echoReply m 34 23 = 1 := by
    have hread : (echoReply m 34).read 23 1 = m.read 23 1 := echoReply_read (Or.inl (by decide))
    exact (List.cons.inj hread).1.trans hm.protocol
  have hsender : (echoReply m 34).read 26 4 = m.read 26 4 := echoReply_read (Or.inl (by decide))
  rw [ipProcessPacket_accepted hversion hflags hlength (by omega) le_rfl (by omega) hm.destination]
  unfold ipSwitch
  rw [if_pos hm.protocol, bind_eq (icmpProcessPacket_request (by omega) hm.type hm.code), if_pos rfl,
    ipAnswer_eq (by omega), hprotocol, hsender]
  rfl

/-- The frame of a reply. -/
def frameReply (h : Host) (m : Mem) (ipLength : ℕ) : Mem :=
  (ipReply h m ipLength).blit 0 (m.read 6 6 ++ h.mac)

/-- `Ethernet_ProcessPacket` on an echo request. -/
theorem ethernetProcessPacket_echo {ipLength : ℕ} (hm : IsEchoRequest h m) (hversion : m 14 = 0x45)
    (hflags : le16 (m.read 20 2) &&& swap16 0x3FFF = 0)
    (hlength : swap16 (le16 (m.read 16 2)) = ipLength) (hmin : 28 ≤ ipLength)
    (hn : 14 + ipLength ≤ n) :
    ethernetProcessPacket h cb (14 + ipLength) n m s =
      some (true, frameReply h m ipLength, s) := by
  have hip : ipProcessPacket h cb 14 ipLength n m s = _ :=
    ipProcessPacket_echo hm hversion hflags hlength hmin hn
  have hsource : (ipReply h m ipLength).read 6 6 = m.read 6 6 := by
    unfold ipReply
    rw [Mem.read_blit_disjoint (Or.inl (by decide)), echoReply_read (Or.inl (by decide))]
  rw [ethernetProcessPacket_ip (by omega) (by omega) hm.etherType, Nat.add_sub_cancel_left,
    bind_eq hip, if_pos rfl, ethernetAnswer_eq (by omega), hsource]
  rfl

end layers

/-! ### The reply -/

section reply

variable {h : Host} {m : Mem} {ipLength i k : ℕ}

theorem frameReply_read (hi : 12 ≤ i) :
    (frameReply h m ipLength).read i k = (ipReply h m ipLength).read i k :=
  answered_read (Mem.read_length _ _ _) hi

theorem frameReply_header : (frameReply h m ipLength).read 14 20 =
    ipHeader h.ip (le32 (m.read 26 4) 0) 1 (ipLength - 20) := by
  rw [frameReply_read (by decide)]
  exact Mem.read_blit_same _ _ _

theorem frameReply_message (hi : 34 ≤ i) :
    (frameReply h m ipLength).read i k = (echoReply m 34).read i k := by
  rw [frameReply_read (by omega)]
  exact Mem.read_blit_disjoint (Or.inr (by simp; omega))

/-- **The frame of a reply is one.** -/
theorem frameReply_isEchoReply (hm : IsEchoRequest h m)
    (hlength : swap16 (le16 (m.read 16 2)) = ipLength) (hmin : 28 ≤ ipLength) :
    IsEchoReply h m (frameReply h m ipLength) := by
  have hmacs : (frameReply h m ipLength).read 0 12 = _ := answered_macs (Mem.read_length _ _ _)
  have hheader : (frameReply h m ipLength).read 14 20 = _ := frameReply_header
  have hfield : (frameReply h m ipLength).read 16 2 = m.read 16 2 := by
    have hpart := Mem.read_part hheader (i := 2) (k := 2) (by decide)
    have hsum : 20 + (ipLength - 20) = ipLength := by omega
    calc (frameReply h m ipLength).read 16 2 = be16Bytes (20 + (ipLength - 20)) := hpart
      _ = bytes16 (le16 (m.read 16 2)) := by
        rw [hsum, ← hlength, ← bytes16_swap16, swap16_swap16 (le16_lt _)]
      _ = m.read 16 2 := bytes16_le16 (Mem.read_length _ _ _)
  obtain ⟨k, hk⟩ : ∃ k, ipLength - 20 = 4 + k := ⟨ipLength - 24, by omega⟩
  have hpayload : ipPayload m = m.read 34 (4 + k) := by
    unfold ipPayload
    rw [hlength, hk]
  have hanswer : ipPayload (frameReply h m ipLength) = (echoReply m 34).read 34 (4 + k) := by
    unfold ipPayload
    rw [hfield, hlength, hk, frameReply_message le_rfl]
  have hmessage : (frameReply h m ipLength).read 34 2 = bytes16 0 := by
    rw [frameReply_message le_rfl]
    exact (List.append_inj ((Mem.read_append _ 34 2 2).symm.trans
      (echoReply_message (k := 0) hm.code)) (Mem.read_length _ _ _)).1
  constructor
  case destinationMAC => exact Mem.read_part hmacs (i := 0) (k := 6) (by decide)
  case sourceMAC =>
    have hpart := Mem.read_part hmacs (i := 6) (k := 6) (by decide)
    exact hpart.trans (List.take_of_length_le h.mac_length.le)
  case etherType =>
    rw [frameReply_read le_rfl]
    unfold ipReply
    rw [Mem.read_blit_disjoint (Or.inl (by decide)), echoReply_read (Or.inl (by decide))]
    exact hm.etherType
  case versionIHL =>
    exact (List.cons.inj (Mem.read_part hheader (i := 0) (k := 1) (by decide))).1
  case ipLength => exact hfield
  case protocol =>
    exact (List.cons.inj (Mem.read_part hheader (i := 9) (k := 1) (by decide))).1
  case header =>
    rw [hheader]
    exact valid_ipHeader _ _ _ _
  case source =>
    have hpart := Mem.read_part hheader (i := 12) (k := 4) (by decide)
    exact (congrArg (le32 · 0) hpart).trans (le32_bytes32 _)
  case destination =>
    have hpart := Mem.read_part hheader (i := 16) (k := 4) (by decide)
    exact (congrArg (le32 · 0) hpart).trans (le32_bytes32 _)
  case type => exact (List.cons.inj hmessage).1
  case code => exact (List.cons.inj (List.cons.inj hmessage).2).1
  case checksum =>
    have hchecksum := hm.checksum
    rw [hpayload] at hchecksum
    rw [hanswer]
    exact echoReply_valid hm.type hm.code hchecksum
  case data =>
    rw [hanswer, hpayload, echoReply_message hm.code, read_message hm.type hm.code]
    rfl

end reply

/-- **Ping answers are valid.**  The node answers each valid echo request that its frame filter accepts,
of any length and with any bytes behind it, with the echo reply. -/
theorem ping_answered (h : Host) (cb : Callbacks τ) (s : Station τ) (m : Mem) (n len : ℕ)
    (hn : len ≤ n) (hlen : (Usb.filterOf h.mac ⟨m.read 0 24, []⟩).1 = some len)
    (hm : IsEchoRequest h m) :
    ∃ m', ethernetProcessPacket h cb len n m s = some (true, m', s) ∧ IsEchoReply h m m' := by
  have hframe := (Usb.accepts_filterOf h.mac_length (m.read 0 24) [] [] len (by simp)).mp
    (by rwa [List.append_nil])
  have htype : Usb.be16 (m.read 0 24) 12 = ethertypeIPv4 :=
    be16_of_read (by decide) (by decide) hm.etherType
  cases hframe.2 with
  | inl harp =>
      have harpType := harp.1.etherType
      rw [htype] at harpType
      exact absurd harpType (by decide)
  | inr hip =>
      have hfield : swap16 (le16 (m.read 16 2)) = Usb.be16 (m.read 0 24) 16 :=
        swap16_le16 (by decide)
      have hmin := hip.1.lenMin
      have hversion := hip.1.versionIHL
      have hflags : le16 (m.read 20 2) &&& swap16 0x3FFF = 0 := by
        cases Usb.eq_of_testBit hip.1.flagsFragment with
        | inl hzero => rw [le16_eq (by decide) hzero, show swap16 0 = 0 from rfl, Nat.zero_and]
        | inr hdont =>
            rw [le16_eq (by decide) hdont]
            decide
      unfold Usb.packetLenMin at hmin
      rw [read_getD (by decide)] at hversion
      have hmin' : 28 ≤ Usb.be16 (m.read 0 24) 16 := by omega
      have hsum : len = 14 + Usb.be16 (m.read 0 24) 16 := hip.2.trans (Nat.add_comm _ _)
      rw [hsum]
      exact ⟨_, ethernetProcessPacket_echo hm hversion hflags hfield hmin' (by omega),
        frameReply_isEchoReply hm hfield hmin'⟩

/-- A request to all nodes, with an odd end and a checksum for which the patch has a carry. -/
def pingMemory : Mem := fun i =>
  (Usb.macBroadcast ++ [2, 0, 0, 0, 0, 0x41, 8, 0] ++ [0x45, 0, 0, 29, 0, 0, 0x40, 0, 64, 1, 0, 0] ++
    [192, 168, 200, 41, 192, 168, 200, 255] ++ [8, 0, 0xF8, 0xFF, 0xF0, 0xFF, 0, 0, 0x0E]).getD i 7

theorem ping_answered_broadcast : ∃ m',
    ethernetProcessPacket ownHost (ruleCallbacks answerTable) 43 46 pingMemory answeringStation =
      some (true, m', answeringStation) ∧ IsEchoReply ownHost pingMemory m' := by
  have hchecksum : ValidChecksum (ipPayload pingMemory) := by
    unfold ValidChecksum
    rw [OnesComplement.carries_eq]
    decide
  exact ping_answered ownHost (ruleCallbacks answerTable) answeringStation pingMemory 46 43 (by decide)
    (by decide +kernel) ⟨rfl, rfl, rfl, rfl, Or.inr (by decide), hchecksum⟩

end TimeSwitch.Net
