import TimeSwitch.Datagrams

/-! # Datagrams from node to node

The generators write the frame of a parcel (`udpGenerateUnicast_eq`, `udpGenerateBroadcast_eq`), the
filter of the destination accepts it (`Parcel.In.accepted`), and each layer hands its part over to the
next.  A reply leaves the packet as it is.  If a request is answered then each layer rewrites its own
header on the way back, and the packet holds a parcel in the other direction
(`ethernetProcessPacket_request`). -/

namespace TimeSwitch.Net

open Program ByteMemory

variable {σ τ : Type}

/-! ### Fields -/

section fields

variable {a b v : ℕ} {p q : UInt16}

theorem swap16_le16_be16Bytes (h : v < 65536) : swap16 (le16 (be16Bytes v)) = v := by
  rw [le16_be16Bytes, swap16_swap16 h]

theorem swap16_port : swap16 p.toNat = udpPortAutomat ↔ p = Rules.udpPort := by
  constructor
  · intro h
    have hp := congrArg swap16 h
    unfold udpPortAutomat at hp
    rw [swap16_swap16 p.toNat_lt, swap16_swap16 (by decide)] at hp
    exact UInt16.toNat_inj.mp hp
  · rintro rfl
    rfl

theorem ofNat_swap16_swap16 : UInt16.ofNat (swap16 (swap16 p.toNat)) = p := by
  rw [swap16_swap16 p.toNat_lt, UInt16.ofNat_toNat]

end fields

/-! ### Parcels -/

/-- A request of the node `S` to the node `R`. -/
def requestParcel (S R : Host) (q : UInt16) (payload : List UInt8) : Parcel where
  destination := R.mac
  source := S.mac
  destination_length := R.mac_length
  source_length := S.mac_length
  sourceIP := S.ip
  destinationIP := R.ip
  sourcePort := Rules.udpPort
  destinationPort := q
  payload := payload

/-- A message of the node `S` to all. -/
def broadcastParcel (S : Host) (q : UInt16) (payload : List UInt8) : Parcel where
  destination := Usb.macBroadcast
  source := S.mac
  destination_length := rfl
  source_length := S.mac_length
  sourceIP := S.ip
  destinationIP := S.broadcastIP
  sourcePort := q
  destinationPort := Rules.udpPort
  payload := payload

/-- The way back: the node `h` answers the parcel. -/
def Parcel.answer (p : Parcel) (h : Host) (payload : List UInt8) : Parcel where
  destination := p.source
  source := h.mac
  destination_length := p.source_length
  source_length := h.mac_length
  sourceIP := h.ip
  destinationIP := p.sourceIP
  sourcePort := p.destinationPort
  destinationPort := p.sourcePort
  payload := payload

section process

variable {h : Host} {cb : Callbacks τ} {F : Service τ} {p : Parcel} {n : ℕ} {m : Mem}
  {s : Station τ}

/-- What is read in front of a block that is the same. -/
theorem read_front {m m' : Mem} {i j k : ℕ} (h : m'.read 0 k = m.read 0 k) (hi : i + j ≤ k) :
    m'.read i j = m.read i j := by
  have h₁ := Mem.read_part h hi
  have h₂ := Mem.read_part (rfl : m.read 0 k = _) hi
  rw [Nat.zero_add] at h₁ h₂
  rw [h₁, h₂]

/-! ### The headers -/

/-- `IP_ProcessPacket` passes a packet with a valid header, for this node, to the switch. -/
theorem ipProcessPacket_accepted {length ipLength : ℕ} (hversion : m 14 = 0x45)
    (hflags : le16 (m.read 20 2) &&& swap16 0x3FFF = 0)
    (hlength : swap16 (le16 (m.read 16 2)) = ipLength) (hmin : 20 ≤ ipLength)
    (hmax : ipLength ≤ length) (hn : 34 ≤ n)
    (hdest : le32 (m.read 30 4) 0 = h.ip ∨ le32 (m.read 30 4) 0 = h.broadcastIP) :
    ipProcessPacket h cb 14 length n m s =
      (ipSwitch cb 14 (m 23) (ipLength - 20) >>= fun reflect =>
        if reflect then do
          let protocol ← load8 23
          let _ ← ipWriteHeader h 14 protocol (loadIP 26) (ipLength - 20)
          pure true
        else pure false : Program (Station τ) Bool) n m s := by
  have hfield : ¬ (m 14 ≠ 0x45 ∨ le16 (m.read 20 2) &&& swap16 0x3FFF ≠ 0 ∨ length < ipLength) := by
    rw [hversion, hflags]
    simpa using hmax
  have haddress : ¬ (le32 (m.read 30 4) 0 ≠ h.ip ∧ le32 (m.read 30 4) 0 ≠ h.broadcastIP) := by
    rw [not_and_or, not_not, not_not]
    exact hdest
  unfold ipProcessPacket
  rw [load16_bind (by omega), hlength, load8_bind (by omega), load16_bind (by omega),
    if_neg hfield, loadIP_bind (by omega), if_neg haddress, sub_bind hmin, load8_bind (by omega)]

/-- `IP_ProcessPacket` turns the header of an answer round. -/
theorem ipAnswer_eq {len : ℕ} {st : σ} (hn : 34 ≤ n) : (do
      let protocol ← load8 23
      let _ ← ipWriteHeader h 14 protocol (loadIP 26) len
      pure true : Program σ Bool) n m st =
    some (true, m.blit 14 (ipHeader h.ip (le32 (m.read 26 4) 0) (m 23) len), st) := by
  rw [load8_bind (by omega), bind_eq (ipWriteHeader_back hn)]
  rfl

/-- `Ethernet_ProcessPacket` passes an IPv4 packet on. -/
theorem ethernetProcessPacket_ip {length : ℕ} (hlen : 14 ≤ length) (hn : 14 ≤ n)
    (htype : m.read 12 2 = be16Bytes ethertypeIPv4) :
    ethernetProcessPacket h cb length n m s =
      (ipProcessPacket h cb 14 (length - 14) >>= fun reflect =>
        if reflect then do
          let source ← load 6 6
          store 0 source
          store 6 h.mac
          pure true
        else pure false : Program (Station τ) Bool) n m s := by
  unfold ethernetProcessPacket
  rw [load16_bind hn, htype, le16_be16Bytes]
  unfold ethernetSwitch
  rw [if_neg (by decide), if_pos rfl, bind_assoc, sub_bind hlen]

/-- `Ethernet_ProcessPacket` turns the header of an answer round. -/
theorem ethernetAnswer_eq {st : σ} (hn : 12 ≤ n) : (do
      let source ← load 6 6
      store 0 source
      store 6 h.mac
      pure true : Program σ Bool) n m st =
    some (true, m.blit 0 (m.read 6 6 ++ h.mac), st) := by
  have hmac := h.mac_length
  rw [load_bind hn, store_bind (by simp; omega), store_bind (by omega), pure_eq,
    Mem.blit_append (by simp)]

theorem answered_macs {source : List UInt8} (hs : source.length = 6) :
    (m.blit 0 (source ++ h.mac)).read 0 12 = source ++ h.mac := by
  have hread := Mem.read_blit_same m 0 (source ++ h.mac)
  rw [List.length_append, hs, h.mac_length] at hread
  exact hread

theorem answered_read {source : List UInt8} {i k : ℕ} (hs : source.length = 6) (hi : 12 ≤ i) :
    (m.blit 0 (source ++ h.mac)).read i k = m.read i k := by
  have hmac := h.mac_length
  exact Mem.read_blit_disjoint (Or.inr (by simp; omega))

/-! ### What a layer hands over -/

/-- `UDP_ProcessPacket` hands ports and payload over. -/
theorem udpProcessPacket_eq (hp : p.In m) (hlen : p.payload.length < 248) (hn : p.length ≤ n) :
    udpProcessPacket cb 34 26 (8 + p.payload.length) n m s =
      (if p.sourcePort = Rules.udpPort then do
        let answer ← onApp (cb.request 42 p.destinationPort p.payload.length)
        if answer then do
          let destinationPort ← load16 36
          let sourcePort ← load16 34
          let _ ← udpWriteHeader 34 destinationPort sourcePort p.payload.length
          pure true
        else pure false
      else if p.destinationPort = Rules.udpPort then do
        onApp (cb.reply 42 26 p.sourcePort p.payload.length)
        pure false
      else pure false : Program (Station τ) Bool) n m s := by
  unfold Parcel.length at hn
  unfold udpProcessPacket
  rw [load16_bind (by omega), hp.udpLength_read, swap16_le16_be16Bytes (by omega),
    if_neg (Nat.lt_irrefl _), sub_bind (by omega), load16_bind (by omega), load16_bind (by omega),
    hp.sourcePort_read, hp.destinationPort_read, le16_be16Bytes, le16_be16Bytes,
    ofNat_swap16_swap16, ofNat_swap16_swap16, Nat.add_sub_cancel_left]
  simp only [swap16_port]

/-- `IP_ProcessPacket` hands a datagram over. -/
theorem ipProcessPacket_eq (hp : p.In m) (hlen : p.payload.length < 248) (hn : p.length ≤ n)
    (hdest : p.destinationIP = h.ip ∨ p.destinationIP = h.broadcastIP) :
    ipProcessPacket h cb 14 (28 + p.payload.length) n m s =
      (udpProcessPacket cb 34 26 (8 + p.payload.length) >>= fun reflect =>
        if reflect then do
          let protocol ← load8 23
          let _ ← ipWriteHeader h 14 protocol (loadIP 26) (8 + p.payload.length)
          pure true
        else pure false : Program (Station τ) Bool) n m s := by
  have hflags : le16 (m.read 20 2) &&& swap16 0x3FFF = 0 := by
    rw [hp.flagsFragment_read]
    decide
  have hlength : swap16 (le16 (m.read 16 2)) = 28 + p.payload.length := by
    rw [hp.ipLength_read, swap16_le16_be16Bytes (by omega)]
  have haddress : le32 (m.read 30 4) 0 = h.ip ∨ le32 (m.read 30 4) 0 = h.broadcastIP := by
    rwa [hp.destinationIP_read, le32_bytes32]
  have hsub : 28 + p.payload.length - 20 = 8 + p.payload.length := by omega
  unfold Parcel.length at hn
  rw [ipProcessPacket_accepted hp.versionIHL_read hflags hlength (by omega) le_rfl (by omega)
    haddress, hp.protocol_read, hsub]
  rfl

/-- `Ethernet_ProcessPacket` hands a datagram over. -/
theorem ethernetProcessPacket_eq (hp : p.In m) (hn : p.length ≤ n) :
    ethernetProcessPacket h cb p.length n m s =
      (ipProcessPacket h cb 14 (28 + p.payload.length) >>= fun reflect =>
        if reflect then do
          let source ← load 6 6
          store 0 source
          store 6 h.mac
          pure true
        else pure false : Program (Station τ) Bool) n m s := by
  have hsub : p.length - 14 = 28 + p.payload.length := by
    unfold Parcel.length
    omega
  have hbound : 14 ≤ p.length := by
    unfold Parcel.length
    omega
  rw [ethernetProcessPacket_ip hbound (hbound.trans hn) hp.etherType_read, hsub]

/-! ### The layers, for a reply -/

theorem udpProcessPacket_reply (hp : p.In m) (hcb : cb.Serve F) (hlen : p.payload.length < 248)
    (hn : p.length ≤ n) (hsource : p.sourcePort ≠ Rules.udpPort)
    (hdest : p.destinationPort = Rules.udpPort) :
    udpProcessPacket cb 34 26 (8 + p.payload.length) n m s =
      some (false, m, { s with app := F.reply s.app p.sourceIP p.sourcePort p.payload }) := by
  have hip : 26 + 4 ≤ n := by
    unfold Parcel.length at hn
    omega
  have hreply := hcb.reply p.sourcePort m s.app hn hip
  rw [hp.sourceIP_read, le32_bytes32, hp.payload] at hreply
  rw [udpProcessPacket_eq hp hlen hn, if_neg hsource, if_pos hdest, bind_eq (onApp_eq hreply)]
  rfl

theorem ipProcessPacket_reply (hp : p.In m) (hcb : cb.Serve F) (hlen : p.payload.length < 248)
    (hn : p.length ≤ n) (hdest : p.destinationIP = h.ip ∨ p.destinationIP = h.broadcastIP)
    (hsource : p.sourcePort ≠ Rules.udpPort) (hport : p.destinationPort = Rules.udpPort) :
    ipProcessPacket h cb 14 (28 + p.payload.length) n m s =
      some (false, m, { s with app := F.reply s.app p.sourceIP p.sourcePort p.payload }) := by
  rw [ipProcessPacket_eq hp hlen hn hdest,
    bind_eq (udpProcessPacket_reply hp hcb hlen hn hsource hport)]
  rfl

/-- **A reply is handed over**, and the packet is left as it is. -/
theorem ethernetProcessPacket_reply (hp : p.In m) (hcb : cb.Serve F)
    (hlen : p.payload.length < 248) (hn : p.length ≤ n)
    (hdest : p.destinationIP = h.ip ∨ p.destinationIP = h.broadcastIP)
    (hsource : p.sourcePort ≠ Rules.udpPort) (hport : p.destinationPort = Rules.udpPort) :
    ethernetProcessPacket h cb p.length n m s =
      some (false, m, { s with app := F.reply s.app p.sourceIP p.sourcePort p.payload }) := by
  rw [ethernetProcessPacket_eq hp hn,
    bind_eq (ipProcessPacket_reply hp hcb hlen hn hdest hsource hport)]
  rfl

/-! ### The layers, for a request

What a layer says about the memory: the headers in front are as before, and after an answer its own
header and what follows are those of the parcel in the other direction. -/

/-- `UDP_ProcessPacket` -/
theorem udpProcessPacket_request {payload : List UInt8} {reflect : Bool} {app : τ} (hp : p.In m)
    (hcb : cb.Serve F) (hlen : p.payload.length < 248) (hn : p.length ≤ n)
    (hsource : p.sourcePort = Rules.udpPort)
    (hr : F.request s.app p.destinationPort p.payload = (reflect, payload, app)) :
    ∃ m', udpProcessPacket cb 34 26 (8 + p.payload.length) n m s =
        some (reflect, m', { s with app := app }) ∧
      m'.read 0 34 = m.read 0 34 ∧ (reflect = true →
        m'.read 34 8 = udpHeader p.destinationPort p.sourcePort payload.length ∧
        m'.read 42 payload.length = payload) := by
  have hlength := F.request_length s.app p.destinationPort p.payload
  have hrequest := hcb.request p.destinationPort m s.app hn
  rw [hp.payload, hr] at hrequest
  rw [hr] at hlength
  rw [udpProcessPacket_eq hp hlen hn, if_pos hsource, bind_eq (onApp_eq hrequest)]
  unfold Parcel.length at hn
  cases reflect with
  | false =>
      refine ⟨m.blit 42 payload, rfl, ?_, fun h => absurd h (by decide)⟩
      exact Mem.read_blit_disjoint (Or.inl (by decide))
  | true =>
      have hsp : (m.blit 42 payload).read 34 2 = be16Bytes p.sourcePort.toNat := by
        rw [Mem.read_blit_disjoint (Or.inl (by decide)), hp.sourcePort_read]
      have hdp : (m.blit 42 payload).read 36 2 = be16Bytes p.destinationPort.toNat := by
        rw [Mem.read_blit_disjoint (Or.inl (by decide)), hp.destinationPort_read]
      have hwrite : (udpWriteHeader 34 (swap16 p.destinationPort.toNat) (swap16 p.sourcePort.toNat)
          p.payload.length : Program (Station τ) ℕ) n (m.blit 42 payload) { s with app := app } =
            some (8, (m.blit 42 payload).blit 34 (udpHeader p.destinationPort p.sourcePort
              p.payload.length), { s with app := app }) := by
        rw [udpWriteHeader_eq (by omega) (by omega), bytes16_swap16, bytes16_swap16]
        rfl
      refine ⟨(m.blit 42 payload).blit 34 (udpHeader p.destinationPort p.sourcePort
        p.payload.length), ?_, ?_, fun _ => ⟨?_, ?_⟩⟩
      · rw [if_pos rfl, load16_bind (by omega), hdp, load16_bind (by omega), hsp, le16_be16Bytes,
          le16_be16Bytes, bind_eq hwrite]
        rfl
      · rw [Mem.read_blit_disjoint (Or.inl (by decide)), Mem.read_blit_disjoint (Or.inl (by decide))]
      · rw [hlength]
        exact Mem.read_blit_same _ _ _
      · rw [Mem.read_blit_disjoint (Or.inr (by simp)), Mem.read_blit_same]

/-- `IP_ProcessPacket` -/
theorem ipProcessPacket_request {payload : List UInt8} {reflect : Bool} {app : τ} (hp : p.In m)
    (hcb : cb.Serve F) (hlen : p.payload.length < 248) (hn : p.length ≤ n)
    (hdest : p.destinationIP = h.ip ∨ p.destinationIP = h.broadcastIP)
    (hsource : p.sourcePort = Rules.udpPort)
    (hr : F.request s.app p.destinationPort p.payload = (reflect, payload, app)) :
    ∃ m', ipProcessPacket h cb 14 (28 + p.payload.length) n m s =
        some (reflect, m', { s with app := app }) ∧
      m'.read 0 14 = m.read 0 14 ∧ (reflect = true →
        m'.read 14 20 = ipHeader h.ip p.sourceIP 17 (8 + payload.length) ∧
        m'.read 34 8 = udpHeader p.destinationPort p.sourcePort payload.length ∧
        m'.read 42 payload.length = payload) := by
  have hlength := F.request_length s.app p.destinationPort p.payload
  rw [hr] at hlength
  obtain ⟨m', hudp, hfront, hrest⟩ := udpProcessPacket_request hp hcb hlen hn hsource hr
  unfold Parcel.length at hn
  rw [ipProcessPacket_eq hp hlen hn hdest, bind_eq hudp]
  cases reflect with
  | false =>
      refine ⟨m', rfl, read_front hfront (by decide), fun h => absurd h (by decide)⟩
  | true =>
      obtain ⟨hheader, hpayload⟩ := hrest rfl
      have hprotocol : m' 23 = 17 := by
        have hread := read_front (i := 23) (j := 1) hfront (by decide)
        exact (List.cons.inj hread).1.trans hp.protocol_read
      have hsender : le32 (m'.read 26 4) 0 = p.sourceIP := by
        rw [read_front hfront (by decide), hp.sourceIP_read, le32_bytes32]
      refine ⟨m'.blit 14 (ipHeader h.ip p.sourceIP 17 (8 + p.payload.length)), ?_, ?_,
        fun _ => ⟨?_, ?_, ?_⟩⟩
      · rw [if_pos rfl, ipAnswer_eq (by omega), hprotocol, hsender]
      · rw [Mem.read_blit_disjoint (Or.inl (by decide)), read_front hfront (by decide)]
      · rw [hlength]
        exact Mem.read_blit_same _ _ _
      · rw [Mem.read_blit_disjoint (Or.inr (by simp)), hheader]
      · rw [Mem.read_blit_disjoint (Or.inr (by simp)), hpayload]

/-- **A request is handed over**, and after an answer the packet holds the parcel back to the
sender. -/
theorem ethernetProcessPacket_request {payload : List UInt8} {reflect : Bool} {app : τ}
    (hp : p.In m) (hcb : cb.Serve F) (hlen : p.payload.length < 248) (hn : p.length ≤ n)
    (hdest : p.destinationIP = h.ip ∨ p.destinationIP = h.broadcastIP)
    (hsource : p.sourcePort = Rules.udpPort)
    (hr : F.request s.app p.destinationPort p.payload = (reflect, payload, app)) :
    ∃ m', ethernetProcessPacket h cb p.length n m s = some (reflect, m', { s with app := app }) ∧
      (reflect = true → (p.answer h payload).In m') := by
  obtain ⟨m', hip, hfront, hrest⟩ := ipProcessPacket_request hp hcb hlen hn hdest hsource hr
  rw [ethernetProcessPacket_eq hp hn, bind_eq hip]
  unfold Parcel.length at hn
  cases reflect with
  | false => exact ⟨m', rfl, fun h => absurd h (by decide)⟩
  | true =>
      obtain ⟨hheader, hudp, hpayload⟩ := hrest rfl
      have hsender : m'.read 6 6 = p.source := (read_front hfront (by decide)).trans hp.source_read
      have hrear : ∀ {i k}, 12 ≤ i → (m'.blit 0 (p.source ++ h.mac)).read i k = m'.read i k :=
        answered_read p.source_length
      refine ⟨m'.blit 0 (p.source ++ h.mac), ?_, fun _ => ?_⟩
      · rw [if_pos rfl, ethernetAnswer_eq (by omega), hsender]
      · constructor
        · have htype : m'.read 12 2 = be16Bytes ethertypeIPv4 :=
            (read_front hfront (by decide)).trans hp.etherType_read
          rw [show 14 = 12 + 2 from rfl, Mem.read_append, answered_macs p.source_length,
            hrear (by decide), Nat.zero_add, htype, List.append_assoc]
          rfl
        · exact (hrear (by decide)).trans hheader
        · exact (hrear (by decide)).trans hudp
        · exact (hrear (by decide)).trans hpayload

end process

/-! ### The rules

On the bytes of a packet, `UDP_ProcessPacket` does to the rules what `Rules.udpProcessPacket` says for
the datagram in these bytes. -/

/-- The datagram that lies in a packet. -/
def datagramAt (m : Mem) (packet sourceIP length : ℕ) : Rules.Datagram where
  sourceIP := le32 (m.read sourceIP 4) 0
  sourcePort := UInt16.ofNat (swap16 (le16 (m.read packet 2)))
  destinationPort := UInt16.ofNat (swap16 (le16 (m.read (packet + 2) 2)))
  length := swap16 (le16 (m.read (packet + 4) 2))
  data := m.read (packet + 8) (length - 8)

section rules

variable {T : Rules.RuleTable} {n packet sourceIP length sp dp len : ℕ} {m : Mem}
  {s : Station Rules.Network}

theorem port_iff (bs : List UInt8) :
    UInt16.ofNat (swap16 (le16 bs)) = Rules.udpPort ↔ le16 bs = udpPortAutomat := by
  have hlt : swap16 (le16 bs) < 65536 := by
    unfold swap16
    omega
  rw [← swap16_port, UInt16.toNat_ofNat', Nat.mod_eq_of_lt hlt, swap16_swap16 (le16_lt bs)]

theorem udpWriteHeader_state (hn : packet + 8 ≤ n) (st : σ) : ∃ m', (do
      let _ ← udpWriteHeader packet sp dp len
      pure true : Program σ Bool) n m st = some (true, m', st) := by
  unfold udpWriteHeader
  rw [bind_assoc, store16_bind (by omega), bind_assoc, store16_bind (by omega), bind_assoc,
    store16_bind (by omega), bind_assoc, store16_bind (by omega)]
  exact ⟨_, rfl⟩

theorem udpProcessPacket_rules (hlen : 8 ≤ length) (hn : packet + length ≤ n)
    (hip : sourceIP + 4 ≤ n) :
    ∃ reflect m', udpProcessPacket (ruleCallbacks T) packet sourceIP length n m s =
      some (reflect, m', { s with
        app := Rules.udpProcessPacket T s.app (datagramAt m packet sourceIP length) }) := by
  obtain ⟨k, rfl⟩ := Nat.exists_eq_add_of_le' hlen
  have hserve := ruleCallbacks_serve T
  have hdata : packet + 8 + k ≤ n := by omega
  have hsize : (m.read (packet + 8) k).length = k := Mem.read_length _ _ _
  unfold udpProcessPacket Rules.udpProcessPacket datagramAt
  dsimp only
  rw [load16_bind (by omega), Nat.add_sub_cancel, hsize, Rules.udpHeaderSize, Nat.add_comm 8 k]
  by_cases hshort : k + 8 < swap16 (le16 (m.read (packet + 4) 2))
  · rw [if_pos hshort, if_pos hshort]
    exact ⟨false, m, rfl⟩
  · rw [if_neg hshort, if_neg hshort, sub_bind (by omega), load16_bind (by omega),
      load16_bind (by omega), Nat.add_sub_cancel]
    simp only [port_iff]
    by_cases hsource : le16 (m.read packet 2) = udpPortAutomat
    · have hrequest := hserve.request (UInt16.ofNat (swap16 (le16 (m.read (packet + 2) 2)))) m s.app
        hdata
      rw [if_pos hsource, if_pos hsource, bind_eq (onApp_eq hrequest)]
      split_ifs
      · rw [load16_bind (by omega), load16_bind (by omega)]
        exact ⟨true, udpWriteHeader_state (by omega) _⟩
      · exact ⟨false, _, rfl⟩
    · rw [if_neg hsource, if_neg hsource]
      by_cases hdest : le16 (m.read (packet + 2) 2) = udpPortAutomat
      · have hreply := hserve.reply (UInt16.ofNat (swap16 (le16 (m.read packet 2)))) m s.app hdata hip
        rw [if_pos hdest, if_pos hdest, bind_eq (onApp_eq hreply)]
        exact ⟨false, m, rfl⟩
      · rw [if_neg hdest, if_neg hdest]
        exact ⟨false, m, rfl⟩

end rules

/-! ### The filter -/

section filter

variable {p : Parcel} {m : Mem}

/-- A field as the filter reads it. -/
theorem be16_of_read {i v : ℕ} (hi : i + 1 < 24) (hv : v < 65536) (h : m.read i 2 = be16Bytes v) :
    Usb.be16 (m.read 0 24) i = v := by
  rw [← swap16_le16 hi, h, swap16_le16_be16Bytes hv]

/-- The frame filter of the destination accepts the frame with its length; a frame to all is accepted by
every node whose address does not begin with 0xFF. -/
theorem Parcel.In.accepted (hp : p.In m) (hlen : p.payload.length < 248) {own : List UInt8}
    (hown : own.length = 6)
    (hdest : p.destination = own ∨ own.headD 0 ≠ 0xFF ∧ p.destination = Usb.macBroadcast) :
    (Usb.filterOf own ⟨m.read 0 p.length, []⟩).1 = some p.length := by
  have hlength := be16_of_read (by decide) (by omega) hp.ipLength_read
  have hsplit : m.read 0 p.length = m.read 0 24 ++ m.read 24 (18 + p.payload.length) := by
    rw [← Nat.zero_add 24, ← Mem.read_append]
    unfold Parcel.length
    congr 1
    omega
  rw [hsplit]
  apply (Usb.accepts_filterOf hown (m.read 0 24) _ [] _ (Mem.read_length _ _ _)).mpr
  constructor
  · rw [Mem.read_take]
    show m.read 0 6 = own ∨ own.headD 0 ≠ 0xFF ∧ m.read 0 6 = Usb.macBroadcast
    rw [hp.destination_read]
    exact hdest
  · right
    refine ⟨⟨?_, ?_, ?_, ?_, ?_, ?_⟩, ?_⟩
    · exact be16_of_read (by decide) (by decide) hp.etherType_read
    · rw [read_getD (by decide)]
      exact hp.versionIHL_read
    · intro k hk
      rw [be16_of_read (by decide) (by decide) hp.flagsFragment_read]
      show (2 ^ 14).testBit k = false
      rw [Nat.testBit_two_pow]
      exact decide_eq_false (Ne.symm hk)
    · right
      rw [read_getD (by decide)]
      exact hp.protocol_read
    · rw [hlength]
      unfold Usb.packetLenMin
      omega
    · rw [hlength]
      unfold Usb.packetLenMax
      omega
    · rw [hlength]
      unfold Parcel.length
      omega

end filter

/-! ### The generators -/

section generate

variable {S R : Host} {q : UInt16} {n k : ℕ} {m : Mem} {s : Station τ} {st : σ}
  {payload : List UInt8}

/-- The headers and the payload, one after the other. -/
theorem Parcel.in_written (p : Parcel) (m : Mem) :
    p.In (((m.blit 0 (ethernetHeader p.destination p.source ethertypeIPv4 ++
      ipHeader p.sourceIP p.destinationIP 17 (8 + p.payload.length))).blit 34
        (udpHeader p.sourcePort p.destinationPort p.payload.length)).blit 42 p.payload) := by
  have hlength : (ethernetHeader p.destination p.source ethertypeIPv4 ++
      ipHeader p.sourceIP p.destinationIP 17 (8 + p.payload.length)).length = 34 := by
    rw [List.length_append, p.header_length, ipHeader_length]
  rw [Mem.blit_append (by rw [udpHeader_length]), Mem.blit_append (by omega), List.append_assoc]
  exact Parcel.in_blit

/-- What a node writes to an address of its subnet. -/
theorem ipGenerateUnicast_eq (hnet : ipCompareNet S.ip R.ip = true)
    (harp : arpSearchMAC s R.ip = some R.mac) (hlen : k < 256) (hn : 34 ≤ n) :
    ipGenerateUnicast S 17 R.ip k n m s =
      some (34, m.blit 0 (ethernetHeader R.mac S.mac ethertypeIPv4 ++ ipHeader S.ip R.ip 17 k), s) := by
  have hmac := R.mac_length
  have hheader : (ethernetHeader R.mac S.mac ethertypeIPv4).length = 14 :=
    ethernetHeader_length hmac S.mac_length
  have hethernet : ethernetGenerateUnicast S R.ip (swap16 ethertypeIPv4) n m s =
      some (14, m.blit 0 (ethernetHeader R.mac S.mac ethertypeIPv4), s) := by
    unfold ethernetGenerateUnicast
    rw [get_bind, harp]
    show (ethernetWriteHeader S R.mac (swap16 ethertypeIPv4) >>= _ : Program (Station τ) ℤ) n m s = _
    rw [bind_eq (ethernetWriteHeader_eq (by omega) hmac)]
    rfl
  unfold ipGenerateUnicast
  rw [if_pos hnet, bind_eq hethernet, if_neg (by decide)]
  show (ipWriteHeader S 14 17 (pure R.ip) (k % 256) >>= _ : Program (Station τ) ℤ) n _ s = _
  rw [bind_eq (ipWriteHeader_eq (by omega) fun _ _ => rfl), Nat.mod_eq_of_lt hlen,
    Mem.blit_append (by omega)]
  rfl

theorem ipGenerateBroadcast_eq (hlen : k < 256) (hn : 34 ≤ n) :
    ipGenerateBroadcast S 17 k n m st = some (34, m.blit 0 (ethernetHeader Usb.macBroadcast S.mac
      ethertypeIPv4 ++ ipHeader S.ip S.broadcastIP 17 k), st) := by
  have hheader : (ethernetHeader Usb.macBroadcast S.mac ethertypeIPv4).length = 14 :=
    ethernetHeader_length rfl S.mac_length
  unfold ipGenerateBroadcast ethernetGenerateBroadcast
  rw [bind_eq (ethernetWriteHeader_eq (by omega) rfl), bind_eq (ipWriteHeader_eq (by omega)
    fun _ _ => rfl), Nat.mod_eq_of_lt hlen, Mem.blit_append (by omega)]
  rfl

/-- With the payload behind the headers, the packet holds the request. -/
theorem udpGenerateUnicast_eq (hnet : ipCompareNet S.ip R.ip = true)
    (harp : arpSearchMAC s R.ip = some R.mac) (hlen : payload.length < 248) (hn : 42 ≤ n) :
    ∃ m', udpGenerateUnicast S R.ip q payload.length n m s = some (42, m', s) ∧
      (requestParcel S R q payload).In (m'.blit 42 payload) := by
  refine ⟨_, ?_, (requestParcel S R q payload).in_written m⟩
  unfold udpGenerateUnicast
  rw [bind_eq (ipGenerateUnicast_eq hnet harp (by omega) (by omega)), if_neg (by decide)]
  show (udpWriteHeader 34 udpPortAutomat (swap16 q.toNat) payload.length >>= _ :
    Program (Station τ) ℤ) n _ s = _
  unfold udpPortAutomat
  rw [bind_eq (udpWriteHeader_eq (by omega) (by omega)), bytes16_swap16, bytes16_swap16]
  rfl

theorem udpGenerateBroadcast_eq (hlen : payload.length < 248) (hn : 42 ≤ n) :
    ∃ m', udpGenerateBroadcast S q payload.length n m st = some (42, m', st) ∧
      (broadcastParcel S q payload).In (m'.blit 42 payload) := by
  refine ⟨_, ?_, (broadcastParcel S q payload).in_written m⟩
  unfold udpGenerateBroadcast
  rw [bind_eq (ipGenerateBroadcast_eq (by omega) (by omega))]
  unfold udpPortAutomat
  rw [bind_eq (udpWriteHeader_eq (by omega) (by omega)), bytes16_swap16, bytes16_swap16]
  rfl

end generate

/-! ### From node to node -/

/-- The frame of a length arrives at another node, with any bytes behind it. -/
def Arrives (length : ℕ) (m m' : Mem) : Prop := m'.read 0 length = m.read 0 length

/-- A frame with `len` bytes of payload has the addresses of two nodes, the right lengths and the
right checksum of the IP header. -/
structure WellFormed (source destination : Host) (len : ℕ) (m : Mem) : Prop where
  destinationMAC : m.read 0 6 = destination.mac
  sourceMAC : m.read 6 6 = source.mac
  sourceIP : le32 (m.read 26 4) 0 = source.ip
  destinationIP : le32 (m.read 30 4) 0 = destination.ip
  ipLength : swap16 (le16 (m.read 16 2)) = 28 + len
  udpLength : swap16 (le16 (m.read 38 2)) = 8 + len
  checksum : OnesComplement.sum (wordsOf (m.read 14 20)) = 65535

section nodes

variable {S R : Host} {p : Parcel} {m : Mem}

/-- The parcels of a node to another one are well formed. -/
theorem Parcel.In.wellFormed (hp : p.In m) (hlen : p.payload.length < 248) (hsource : p.source = S.mac)
    (hdest : p.destination = R.mac) (hip : p.sourceIP = S.ip) (hto : p.destinationIP = R.ip) :
    WellFormed S R p.payload.length m where
  destinationMAC := hp.destination_read.trans hdest
  sourceMAC := hp.source_read.trans hsource
  sourceIP := by rw [hp.sourceIP_read, le32_bytes32, hip]
  destinationIP := by rw [hp.destinationIP_read, le32_bytes32, hto]
  ipLength := by rw [hp.ipLength_read, swap16_le16_be16Bytes (by omega)]
  udpLength := by rw [hp.udpLength_read, swap16_le16_be16Bytes (by omega)]
  checksum := by rw [hp.ip, sum_ipHeader]

/-- A subnet has one broadcast address. -/
theorem broadcastIP_eq (h : ipCompareNet S.ip R.ip = true) : S.broadcastIP = R.broadcastIP := by
  have hor : ∀ a N : UInt32, a ||| ~~~N = (a &&& N) ||| ~~~N := by
    intro a N
    apply UInt32.toBitVec_inj.mp
    apply BitVec.eq_of_getLsbD_eq
    intro i hi
    simp only [UInt32.toBitVec_or, UInt32.toBitVec_and, UInt32.toBitVec_not, BitVec.getLsbD_or,
      BitVec.getLsbD_and, BitVec.getLsbD_not]
    cases a.toBitVec.getLsbD i <;> cases N.toBitVec.getLsbD i <;> simp [hi]
  have hnet : S.ip &&& netmaskBE = R.ip &&& netmaskBE := eq_of_beq h
  unfold Host.broadcastIP
  rw [hor, hnet, ← hor]

end nodes

/-- **Datagrams decode to what was sent.**  A node `S` sends to a port `q` of the node `R` of its
subnet whose address it has learnt.  The filter of `R` accepts the frame, and `R` hands over port and
payload; if it answers then the frame back is well formed, and `S` hands over the address of `R`, the
port and the payload of the answer.  What `S` sends to all is accepted, unless the address of `R` begins
with 0xFF, and handed over as well. -/
theorem datagrams_decode {τ υ : Type} (S R : Host) (hnet : ipCompareNet S.ip R.ip = true)
    (cbS : Callbacks τ) (F : Service τ) (hS : cbS.Serve F)
    (cbR : Callbacks υ) (G : Service υ) (hR : cbR.Serve G)
    (s : Station τ) (harp : arpSearchMAC s R.ip = some R.mac)
    (q : UInt16) (hq : q ≠ Rules.udpPort) (payload : List UInt8) (hlen : payload.length ≤ 247)
    (n : ℕ) (hn : 42 + payload.length ≤ n) (m : Mem) :
    (∃ mS, udpGenerateUnicast S R.ip q payload.length n m s = some (42, mS, s) ∧
      ∀ (mR : Mem) (r : Station υ), Arrives (42 + payload.length) (mS.blit 42 payload) mR →
        (Usb.filterOf R.mac ⟨mR.read 0 (42 + payload.length), []⟩).1 = some (42 + payload.length) ∧
        ∀ reflect payload' app, G.request r.app q payload = (reflect, payload', app) →
          ∃ mR', ethernetProcessPacket R cbR (42 + payload.length) (42 + payload.length) mR r =
              some (reflect, mR', { r with app := app }) ∧
            (reflect = true → WellFormed R S payload.length mR' ∧
              ∀ (mS' : Mem) (s' : Station τ), Arrives (42 + payload.length) mR' mS' →
                (Usb.filterOf S.mac ⟨mS'.read 0 (42 + payload.length), []⟩).1 =
                  some (42 + payload.length) ∧
                ethernetProcessPacket S cbS (42 + payload.length) (42 + payload.length) mS' s' =
                  some (false, mS', { s' with app := F.reply s'.app R.ip q payload' }))) ∧
    (∃ mS, udpGenerateBroadcast S q payload.length n m s = some (42, mS, s) ∧
      ∀ (mR : Mem) (r : Station υ), Arrives (42 + payload.length) (mS.blit 42 payload) mR →
        (R.mac.headD 0 ≠ 0xFF →
          (Usb.filterOf R.mac ⟨mR.read 0 (42 + payload.length), []⟩).1 = some (42 + payload.length)) ∧
        ethernetProcessPacket R cbR (42 + payload.length) (42 + payload.length) mR r =
          some (false, mR, { r with app := G.reply r.app S.ip q payload })) := by
  have hshort : payload.length < 248 := by omega
  constructor
  · obtain ⟨mS, hgenerate, hin⟩ := udpGenerateUnicast_eq (q := q) (n := n) (m := m) hnet harp hshort
      (by omega)
    refine ⟨mS, hgenerate, fun mR r harrives => ?_⟩
    have hrequest : (requestParcel S R q payload).In mR := hin.congr harrives
    refine ⟨hrequest.accepted hshort R.mac_length (Or.inl rfl), fun reflect payload' app hr => ?_⟩
    have hlength : payload'.length = payload.length := by
      have h := G.request_length r.app q payload
      rwa [hr] at h
    obtain ⟨mR', hprocess, hback⟩ := ethernetProcessPacket_request hrequest hR hshort le_rfl
      (Or.inl rfl) rfl hr
    refine ⟨mR', hprocess, fun hreflect => ?_⟩
    have hanswer := hback hreflect
    have hshort' : payload'.length < 248 := by omega
    have hform : WellFormed R S payload'.length mR' := hanswer.wellFormed hshort' rfl rfl rfl rfl
    rw [← hlength]
    refine ⟨hform, fun mS' s' harrives' => ?_⟩
    have hreply : ((requestParcel S R q payload).answer R payload').In mS' := hanswer.congr harrives'
    exact ⟨hreply.accepted hshort' S.mac_length (Or.inl rfl),
      ethernetProcessPacket_reply hreply hS hshort' le_rfl (Or.inl rfl) hq rfl⟩
  · have hgenerator : ∃ mS, udpGenerateBroadcast S q payload.length n m s = some (42, mS, s) ∧
        (broadcastParcel S q payload).In (mS.blit 42 payload) :=
      udpGenerateBroadcast_eq hshort (by omega)
    obtain ⟨mS, hgenerate, hin⟩ := hgenerator
    refine ⟨mS, hgenerate, fun mR r harrives => ?_⟩
    have hmessage : (broadcastParcel S q payload).In mR := hin.congr harrives
    refine ⟨fun hmac => hmessage.accepted hshort R.mac_length (Or.inr ⟨hmac, rfl⟩), ?_⟩
    exact ethernetProcessPacket_reply hmessage hR hshort le_rfl
      (Or.inr (broadcastIP_eq hnet)) hq rfl

/-- Another node of the subnet -/
def peerHost : Host := ⟨[2, 0, 0, 0, 0, 0x41], rfl, 0x29C8A8C0, 0x03C8A8C0⟩

/-- A node that has learnt the address of the other one. -/
def askingStation : Station Rules.Network :=
  arpLearn (Station.init (Rules.Network.init fun _ => 0)) 41 peerHost.mac

/-- A node whose rule has the value 7. -/
def answeringStation : Station Rules.Network :=
  Station.init ((Rules.Network.init fun _ => 0).setRule 0 ⟨Rules.timerOff, 7, .ok⟩)

theorem datagrams_decode_value : ∃ mS mR r,
    udpGenerateUnicast ownHost peerHost.ip 4711 4 46 (fun _ => 0) askingStation =
      some (42, mS, askingStation) ∧
    ethernetProcessPacket peerHost (ruleCallbacks answerTable) 46 46 (mS.blit 42 [0, 0, 0, 0])
      answeringStation = some (true, mR, r) ∧
    ethernetProcessPacket ownHost (ruleCallbacks answerTable) 46 46 mR askingStation =
      some (false, mR, { askingStation with
        app := Rules.udpCallbackReply answerTable askingStation.app [7, 0, 0, 0] peerHost.ip 4711 }) := by
  obtain ⟨⟨mS, hgenerate, hrequest⟩, -⟩ := datagrams_decode ownHost peerHost (by decide)
    (ruleCallbacks answerTable) (ruleService answerTable) (ruleCallbacks_serve answerTable)
    (ruleCallbacks answerTable) (ruleService answerTable) (ruleCallbacks_serve answerTable)
    askingStation (by decide +kernel) 4711 (by decide) [0, 0, 0, 0] (by decide) 46 (by decide)
    fun _ => 0
  obtain ⟨-, hanswer⟩ := hrequest (mS.blit 42 [0, 0, 0, 0]) answeringStation rfl
  obtain ⟨mR, hprocess, hreply⟩ := hanswer true [7, 0, 0, 0] _ rfl
  exact ⟨mS, mR, _, hgenerate, hprocess, ((hreply rfl).2 mR askingStation rfl).2⟩

end TimeSwitch.Net
