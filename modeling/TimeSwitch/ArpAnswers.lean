import TimeSwitch.ArpTable
import TimeSwitch.Delivery

/-! # ARP on the wire

`ARP_WriteHeader` gets the operation in one byte and stores it as it is.  `ARP_ProcessPacket` gives it
in host order, and the operation of all answers is 0x0200; `ARP_GenerateRequest` gives it in network
order, of which the lower byte is left, and the operation of all requests is zero.  No node takes over
the one or answers the other (`arp_answers_malformed`). -/

namespace TimeSwitch.Net

open Program ByteMemory

variable {σ τ υ : Type}

/-! ### Frames -/

/-- An ARP packet for Ethernet and IPv4, with the bytes of its operation. -/
def arpHeader (operation senderMAC : List UInt8) (senderIP : UInt32) (targetMAC : List UInt8)
    (targetIP : UInt32) : List UInt8 :=
  [0, 1, 8, 0, 6, 4] ++ (operation ++
    (senderMAC ++ (bytes32 senderIP ++ (targetMAC ++ bytes32 targetIP))))

/-- A frame with an ARP packet. -/
def arpFrame (destination source operation senderMAC : List UInt8) (senderIP : UInt32)
    (targetMAC : List UInt8) (targetIP : UInt32) : List UInt8 :=
  destination ++ (source ++ (be16Bytes ethertypeARP ++
    arpHeader operation senderMAC senderIP targetMAC targetIP))

/-- A frame with an ARP request for a node. -/
structure IsArpRequest (h : Host) (m : Mem) : Prop where
  etherType : m.read 12 2 = be16Bytes ethertypeARP
  operation : m.read 20 2 = be16Bytes arpRequest
  target : le32 (m.read 38 4) 0 = h.ip

/-- The answer to a request: addressed to the requester, with both addresses of the node. -/
def IsArpAnswer (h : Host) (m m' : Mem) : Prop :=
  m'.read 0 42 = arpFrame (m.read 6 6) h.mac (be16Bytes arpReply) h.mac h.ip (m.read 22 6)
    (le32 (m.read 28 4) 0)

section frames

variable {h : Host} {n o : ℕ} {operation : UInt8} {m m' : Mem} {s : σ} {mac op smac tmac d src : List UInt8}
  {ip sip tip : UInt32}

theorem arpHeader_length (hop : op.length = 2) (hs : smac.length = 6) (ht : tmac.length = 6) :
    (arpHeader op smac sip tmac tip).length = 28 := by
  simp only [arpHeader, List.length_append, List.length_cons, List.length_nil, bytes32_length]
  omega

/-- The addresses of the destination are read in front of the own ones, which may overwrite them. -/
theorem arpWriteHeader_eq {destinationMAC : Program σ (List UInt8)} {destinationIP : Program σ UInt32}
    (hn : o + 28 ≤ n) (hlen : mac.length = 6)
    (hmac : ∀ bs : List UInt8, bs.length = 8 →
      destinationMAC n (m.blit o bs) s = some (mac, m.blit o bs, s))
    (hip : ∀ bs : List UInt8, bs.length = 8 →
      destinationIP n ((m.blit o bs).blit (o + 18) mac) s =
        some (ip, (m.blit o bs).blit (o + 18) mac, s)) :
    arpWriteHeader h o operation destinationMAC destinationIP n m s =
      some (28, m.blit o (arpHeader (bytes16 operation.toNat) h.mac h.ip mac ip), s) := by
  have hown := h.mac_length
  have hstart : bytes16 (swap16 1) ++ (bytes16 (swap16 ethertypeIPv4) ++ ([6] ++ ([4] ++
      bytes16 operation.toNat))) = [0, 1, 8, 0, 6, 4] ++ bytes16 operation.toNat := rfl
  have hstart_length : ([0, 1, 8, 0, 6, 4] ++ bytes16 operation.toNat).length = 8 := rfl
  have hlast : ∀ m' : Mem, (m'.blit (o + 18) mac).blit (o + 24) (bytes32 ip) =
      m'.blit (o + 18) (mac ++ bytes32 ip) := fun m' => Mem.blit_append (by omega)
  have hfirst : ∀ m' : Mem, (m'.blit (o + 8) h.mac).blit (o + 14) (bytes32 h.ip) =
      m'.blit (o + 8) (h.mac ++ bytes32 h.ip) := fun m' => Mem.blit_append (by omega)
  unfold arpWriteHeader arpHeader
  rw [store16_bind (by omega), store16_bind (by omega), store_bind (by simp; omega),
    store_bind (by simp; omega), store16_bind (by omega), Mem.blit_append (by simp),
    Mem.blit_append (by simp), Mem.blit_append (by simp), Mem.blit_append (by simp)]
  rw [hstart, bind_eq (hmac _ hstart_length), store_bind (by omega), bind_eq (hip _ hstart_length),
    storeIP_bind (by omega), store_bind (by omega), storeIP_bind (by omega), pure_eq, hlast, hfirst,
    Mem.blit_prepend (by simp; omega), Mem.blit_append (by rw [hstart_length])]
  simp only [List.append_assoc]

theorem arpFrame_length (hd : d.length = 6) (hsrc : src.length = 6) (hop : op.length = 2)
    (hs : smac.length = 6) (ht : tmac.length = 6) :
    (arpFrame d src op smac sip tmac tip).length = 42 := by
  unfold arpFrame
  rw [List.length_append, List.length_append, List.length_append, arpHeader_length hop hs ht, hd, hsrc,
    be16Bytes_length]

/-- The parts of a frame -/
theorem arpFrame_iff (hd : d.length = 6) (hsrc : src.length = 6) :
    m.read 0 42 = arpFrame d src op smac sip tmac tip ↔
      m.read 0 6 = d ∧ m.read 6 6 = src ∧ m.read 12 2 = be16Bytes ethertypeARP ∧
        m.read 14 28 = arpHeader op smac sip tmac tip := by
  have hlen : 42 = d.length + (src.length + ((be16Bytes ethertypeARP).length + 28)) := by
    rw [hd, hsrc, be16Bytes_length]
  unfold arpFrame
  rw [hlen, Mem.read_eq_append, Mem.read_eq_append, Mem.read_eq_append, hd, hsrc, be16Bytes_length]

theorem arpHeader_iff (hop : op.length = 2) (hs : smac.length = 6) (ht : tmac.length = 6) :
    m.read o 28 = arpHeader op smac sip tmac tip ↔
      m.read o 6 = [0, 1, 8, 0, 6, 4] ∧ m.read (o + 6) 2 = op ∧ m.read (o + 8) 6 = smac ∧
        m.read (o + 14) 4 = bytes32 sip ∧ m.read (o + 18) 6 = tmac ∧
        m.read (o + 24) 4 = bytes32 tip := by
  have hlen : 28 = ([0, 1, 8, 0, 6, 4] : List UInt8).length + (op.length + (smac.length +
      ((bytes32 sip).length + (tmac.length + 4)))) := by
    rw [hop, hs, ht]
    rfl
  unfold arpHeader
  rw [hlen, Mem.read_eq_append, Mem.read_eq_append, Mem.read_eq_append, Mem.read_eq_append,
    Mem.read_eq_append, hop, hs, ht]
  rfl

/-- The fields that decide what a node does with a frame. -/
theorem arpFrame_fields (hd : d.length = 6) (hsrc : src.length = 6) (hop : op.length = 2)
    (hs : smac.length = 6) (ht : tmac.length = 6)
    (h : m.read 0 42 = arpFrame d src op smac sip tmac tip) :
    m.read 12 2 = be16Bytes ethertypeARP ∧ m.read 20 2 = op ∧ m.read 38 4 = bytes32 tip := by
  obtain ⟨-, -, htype, hheader⟩ := (arpFrame_iff hd hsrc).mp h
  obtain ⟨-, hoperation, -, -, -, htarget⟩ := (arpHeader_iff hop hs ht).mp hheader
  exact ⟨htype, hoperation, htarget⟩

end frames

/-! ### Requests -/

section requests

variable {S R h : Host} {cb : Callbacks τ} {n length : ℕ} {m m' : Mem} {s : Station τ} {st : σ}
  {ip : UInt32}

/-- The frame of `ARP_GenerateRequest`: a broadcast that asks for an address, but for its operation. -/
def arpGenerated (S : Host) (ip : UInt32) : List UInt8 :=
  arpFrame Usb.macBroadcast S.mac (bytes16 0) S.mac S.ip Usb.macBroadcast ip

theorem arpGenerated_length (S : Host) (ip : UInt32) : (arpGenerated S ip).length = 42 :=
  arpFrame_length rfl S.mac_length rfl S.mac_length rfl

/-- What a node writes to ask for an address. -/
theorem arpGenerateRequest_eq (hn : 42 ≤ n) : (arpGenerateRequest S ip : Program σ ℕ) n m st =
    some (42, m.blit 0 (arpGenerated S ip), st) := by
  have hheader : (ethernetHeader Usb.macBroadcast S.mac ethertypeARP).length = 14 :=
    ethernetHeader_length rfl S.mac_length
  -- 0x0100 in one byte
  have hoperation : (UInt8.ofNat (swap16 arpRequest)).toNat = 0 := rfl
  unfold arpGenerateRequest ethernetGenerateBroadcast
  rw [bind_eq (ethernetWriteHeader_eq (by omega) rfl), bind_eq (arpWriteHeader_eq (by omega) rfl
    (fun _ _ => rfl) fun _ _ => rfl), pure_eq, Mem.blit_append (by omega), hoperation]
  unfold ethernetHeader arpGenerated arpFrame
  rw [List.append_assoc, List.append_assoc]

/-- A frame for an address without an entry becomes such a frame. -/
theorem ethernetGenerateUnicast_none {etherType : ℕ} (hn : 42 ≤ n) (hsearch : arpSearchMAC s ip = none) :
    ethernetGenerateUnicast S ip etherType n m s = some (-42, m.blit 0 (arpGenerated S ip), s) := by
  unfold ethernetGenerateUnicast
  rw [get_bind, hsearch]
  show (arpGenerateRequest S ip >>= _ : Program (Station τ) ℤ) n m s = _
  rw [bind_eq (arpGenerateRequest_eq hn), pure_eq]
  rfl

/-- The frame lies in the memory. -/
theorem arpGenerated_read (harrives : Arrives 42 (m.blit 0 (arpGenerated S ip)) m') :
    m'.read 0 42 = arpGenerated S ip := by
  have hread := Mem.read_blit_same m 0 (arpGenerated S ip)
  rw [arpGenerated_length] at hread
  exact harrives.trans hread

/-- The frame filter accepts an ARP packet to the node, or to all nodes; it does not look at the
operation. -/
theorem arpFrame_accepted {d src op smac tmac : List UInt8} {sip tip : UInt32} (rest more : List UInt8)
    (hd : d = h.mac ∨ h.mac.headD 0 ≠ 0xFF ∧ d = Usb.macBroadcast) (hsrc : src.length = 6)
    (hop : op.length = 2) (hs : smac.length = 6) (ht : tmac.length = 6)
    (hm : m.read 0 42 = arpFrame d src op smac sip tmac tip) :
    (Usb.filterOf h.mac ⟨m.read 0 24 ++ rest, more⟩).1 = some 42 := by
  have hdest : d.length = 6 := by
    rcases hd with rfl | ⟨-, rfl⟩
    · exact h.mac_length
    · rfl
  obtain ⟨hdestination, -, htype, hheader⟩ := (arpFrame_iff hdest hsrc).mp hm
  obtain ⟨hstart, -⟩ := (arpHeader_iff hop hs ht).mp hheader
  apply (Usb.accepts_filterOf h.mac_length (m.read 0 24) rest more _ (Mem.read_length _ _ _)).mpr
  constructor
  · rw [Mem.read_take, show min 6 24 = 6 from rfl, hdestination]
    exact hd
  · left
    have hhardware : m.read 14 2 = be16Bytes 1 := Mem.read_part hstart (i := 0) (by decide)
    have hprotocol : m.read 16 2 = be16Bytes 0x0800 := Mem.read_part hstart (i := 2) (by decide)
    have hlengths : m.read 18 2 = [6, 4] := Mem.read_part hstart (i := 4) (by decide)
    obtain ⟨hhlen, hplen⟩ := List.cons.inj hlengths
    refine ⟨⟨?_, ?_, ?_, ?_, ?_⟩, rfl⟩
    · exact be16_of_read (by decide) (by decide) htype
    · exact be16_of_read (by decide) (by decide) hhardware
    · exact be16_of_read (by decide) (by decide) hprotocol
    · rw [read_getD (by decide)]
      exact hhlen
    · rw [read_getD (by decide)]
      exact (List.cons.inj hplen).1

/-- An ARP frame with another operation is no request. -/
theorem arpFrame_not_request {d src op smac tmac : List UInt8} {sip tip : UInt32} (hd : d.length = 6)
    (hsrc : src.length = 6) (hop : op.length = 2) (hs : smac.length = 6) (ht : tmac.length = 6)
    (hne : op ≠ be16Bytes arpRequest) (hm : m.read 0 42 = arpFrame d src op smac sip tmac tip) :
    ¬ IsArpRequest h m := fun hrequest =>
  hne ((arpFrame_fields hd hsrc hop hs ht hm).2.1.symm.trans hrequest.operation)

end requests

/-! ### Answers -/

section answers

variable {h : Host} {cb : Callbacks τ} {n length : ℕ} {m : Mem} {s : Station τ}

/-- A frame with an ARP packet goes to `ARP_ProcessPacket`. -/
theorem ethernetProcessPacket_arp (hn : 42 ≤ n) (htype : m.read 12 2 = be16Bytes ethertypeARP) :
    ethernetProcessPacket h cb length n m s =
      (arpProcessPacket h 14 >>= fun reflect =>
        if reflect then do
          let source ← load 6 6
          store 0 source
          store 6 h.mac
          pure true
        else pure false : Program (Station τ) Bool) n m s := by
  unfold ethernetProcessPacket
  rw [load16_bind (by omega), htype, le16_be16Bytes]
  unfold ethernetSwitch
  rw [if_pos rfl]

variable (cb length s) in
/-- **What a node answers** to a request: all fields of the answer but the operation, which lies in
memory as it is. -/
theorem ethernetProcessPacket_arpRequest (hn : 42 ≤ n) (hm : IsArpRequest h m) :
    ∃ m', ethernetProcessPacket h cb length n m s = some (true, m', s) ∧
      m'.read 0 42 = arpFrame (m.read 6 6) h.mac (bytes16 arpReply) h.mac h.ip (m.read 22 6)
        (le32 (m.read 28 4) 0) := by
  have hmac := h.mac_length
  have hsource : (m.read 6 6).length = 6 := Mem.read_length _ _ _
  have hsender : (m.read 22 6).length = 6 := Mem.read_length _ _ _
  have hheader : (arpHeader (bytes16 arpReply) h.mac h.ip (m.read 22 6)
      (le32 (m.read 28 4) 0)).length = 28 := arpHeader_length rfl hmac hsender
  have hwrite : (arpWriteHeader h 14 (UInt8.ofNat arpReply) (load 22 6) (loadIP 28) :
      Program (Station τ) ℕ) n m s = some (28, m.blit 14 (arpHeader (bytes16 arpReply) h.mac h.ip
        (m.read 22 6) (le32 (m.read 28 4) 0)), s) := by
    apply arpWriteHeader_eq (by omega) hsender
    · intro bs hbs
      rw [load_eq (by omega), Mem.read_blit_disjoint (Or.inr (by omega))]
    · intro bs hbs
      unfold loadIP
      rw [load_bind (by omega), pure_eq, Mem.read_blit_disjoint (Or.inl (by decide)),
        Mem.read_blit_disjoint (Or.inr (by omega))]
  have harp : arpProcessPacket h 14 n m s = some (true, m.blit 14 (arpHeader (bytes16 arpReply) h.mac
      h.ip (m.read 22 6) (le32 (m.read 28 4) 0)), s) := by
    unfold arpProcessPacket
    rw [loadIP_bind (by omega), if_neg (not_not_intro hm.target), load16_bind (by omega),
      hm.operation, le16_be16Bytes, if_pos rfl, bind_eq hwrite, pure_eq]
  rw [ethernetProcessPacket_arp hn hm.etherType, bind_eq harp, if_pos rfl]
  obtain ⟨bs, hbs⟩ : ∃ bs, arpHeader (bytes16 arpReply) h.mac h.ip (m.read 22 6)
    (le32 (m.read 28 4) 0) = bs := ⟨_, rfl⟩
  have hfront : (m.blit 14 bs).read 6 6 = m.read 6 6 :=
    Mem.read_blit_disjoint (Or.inl (by decide))
  rw [hbs] at hheader ⊢
  have hmacs : ((m.blit 14 bs).blit 0 (m.read 6 6 ++ h.mac)).read 0 12 = _ := answered_macs hsource
  rw [ethernetAnswer_eq (by omega), hfront]
  refine ⟨_, rfl, (arpFrame_iff hsource hmac).mpr ⟨?_, ?_, ?_, ?_⟩⟩
  · exact Mem.read_part hmacs (i := 0) (k := 6) (by decide)
  · have hpart := Mem.read_part hmacs (i := 6) (k := 6) (by decide)
    exact hpart.trans (List.take_of_length_le hmac.le)
  · rw [answered_read hsource le_rfl, Mem.read_blit_disjoint (Or.inl (by decide))]
    exact hm.etherType
  · have hread := Mem.read_blit_same m 14 bs
    rw [hheader] at hread
    rw [answered_read hsource (by decide), hread, hbs]

/-- An answer with the operation in host order is no ARP answer. -/
theorem not_isArpAnswer {m' : Mem} (h' : m'.read 0 42 = arpFrame (m.read 6 6) h.mac (bytes16 arpReply)
    h.mac h.ip (m.read 22 6) (le32 (m.read 28 4) 0)) : ¬ IsArpAnswer h m m' := by
  intro hanswer
  have hsource : (m.read 6 6).length = 6 := Mem.read_length _ _ _
  have hsender : (m.read 22 6).length = 6 := Mem.read_length _ _ _
  obtain ⟨-, hoperation, -⟩ := arpFrame_fields hsource h.mac_length rfl h.mac_length hsender h'
  obtain ⟨-, hoperation', -⟩ := arpFrame_fields hsource h.mac_length rfl h.mac_length hsender hanswer
  exact absurd (hoperation.symm.trans hoperation') (by decide)

/-- A node neither answers nor takes over an ARP packet with another operation. -/
theorem ethernetProcessPacket_otherOperation (hn : 42 ≤ n) (htype : m.read 12 2 = be16Bytes ethertypeARP)
    (hrequest : le16 (m.read 20 2) ≠ swap16 arpRequest)
    (hreply : le16 (m.read 20 2) ≠ swap16 arpReply) :
    ethernetProcessPacket h cb length n m s = some (false, m, s) := by
  have harp : arpProcessPacket h 14 n m s = some (false, m, s) := by
    unfold arpProcessPacket
    rw [loadIP_bind (by omega)]
    by_cases htarget : le32 (m.read 38 4) 0 = h.ip
    · rw [if_neg (not_not_intro htarget), load16_bind (by omega), if_neg hrequest, if_neg hreply,
        pure_eq]
    · rw [if_pos htarget, pure_eq]
  rw [ethernetProcessPacket_arp hn htype, bind_eq harp, if_neg (by decide), pure_eq]

/-- Such packets are those with the operation in host order, and those with no operation. -/
theorem arpFrame_ignored {d src smac tmac : List UInt8} {sip tip : UInt32} {v : ℕ} (hn : 42 ≤ n)
    (hd : d.length = 6) (hsrc : src.length = 6) (hs : smac.length = 6) (ht : tmac.length = 6)
    (hv : v = arpReply ∨ v = 0) (hm : m.read 0 42 = arpFrame d src (bytes16 v) smac sip tmac tip) :
    ethernetProcessPacket h cb length n m s = some (false, m, s) := by
  obtain ⟨htype, hoperation, -⟩ := arpFrame_fields hd hsrc rfl hs ht hm
  apply ethernetProcessPacket_otherOperation hn htype
  all_goals
    rw [hoperation]
    rcases hv with rfl | rfl <;> decide

end answers

/-- **The ARP frames of a node are no ARP answers and no ARP requests.**  To each request the node
writes the right answer, but with the operation 0x0200 (`ARP_OPERATION_REPLY` is not converted), and no
second node takes anything over from it.  What `ARP_GenerateRequest` writes for an address passes the
frame filter of all nodes, but is a request for none of them: its operation is zero, and no node answers
it or takes anything over from it. -/
theorem arp_answers_malformed (S R : Host) (cbS cbR : Callbacks τ) {n : ℕ} (hn : 42 ≤ n) :
    (∀ length m s, IsArpRequest R m →
      ∃ m', ethernetProcessPacket R cbR length n m s = some (true, m', s) ∧
        m'.read 0 42 = arpFrame (m.read 6 6) R.mac (bytes16 arpReply) R.mac R.ip (m.read 22 6)
          (le32 (m.read 28 4) 0) ∧ ¬ IsArpAnswer R m m' ∧
        ∀ mS s', Arrives 42 m' mS →
          ethernetProcessPacket S cbS length n mS s' = some (false, mS, s')) ∧
    ∀ ip (m : Mem) (s : Station τ), ∃ mS, arpGenerateRequest S ip n m s = some (42, mS, s) ∧
      (arpSearchMAC s ip = none → ∀ etherType,
        ethernetGenerateUnicast S ip etherType n m s = some (-42, mS, s)) ∧
      mS.read 0 42 = arpGenerated S ip ∧
      ∀ mR, Arrives 42 mS mR →
        (R.mac.headD 0 ≠ 0xFF → (Usb.filterOf R.mac ⟨mR.read 0 42, []⟩).1 = some 42) ∧
        ¬ IsArpRequest R mR ∧
        ∀ length r, ethernetProcessPacket R cbR length n mR r = some (false, mR, r) := by
  constructor
  · intro length m s hm
    obtain ⟨m', hprocess, hanswer⟩ := ethernetProcessPacket_arpRequest cbR length s hn hm
    refine ⟨m', hprocess, hanswer, not_isArpAnswer hanswer, fun mS s' hback => ?_⟩
    exact arpFrame_ignored hn (Mem.read_length _ _ _) R.mac_length R.mac_length
      (Mem.read_length _ _ _) (Or.inl rfl) (hback.trans hanswer)
  · intro ip m s
    refine ⟨_, arpGenerateRequest_eq hn, fun hsearch etherType => ?_, arpGenerated_read rfl,
      fun mR harrives => ?_⟩
    · exact ethernetGenerateUnicast_none hn hsearch
    · have hread := arpGenerated_read harrives
      refine ⟨fun hR => ?_, ?_, fun length r => ?_⟩
      · rw [show 42 = 24 + 18 from rfl, Mem.read_append]
        exact arpFrame_accepted _ [] (Or.inr ⟨hR, rfl⟩) S.mac_length rfl S.mac_length rfl hread
      · exact arpFrame_not_request rfl S.mac_length rfl S.mac_length rfl (by decide) hread
      · exact arpFrame_ignored hn rfl S.mac_length S.mac_length rfl (Or.inr rfl) hread

/-- Callbacks that answer nothing -/
def silentCallbacks : Callbacks Unit := ⟨fun _ _ _ => pure false, fun _ _ _ _ => pure ()⟩

/-- Another host asks for the address of this one. -/
def askedMemory : Mem := Mem.blit (fun _ => 0) 0 (arpFrame Usb.macBroadcast peerHost.mac
  (be16Bytes arpRequest) peerHost.mac peerHost.ip [0, 0, 0, 0, 0, 0] ownHost.ip)

theorem askedMemory_isArpRequest : IsArpRequest ownHost askedMemory := by
  have hread : askedMemory.read 0 42 = arpFrame Usb.macBroadcast peerHost.mac
      (be16Bytes arpRequest) peerHost.mac peerHost.ip [0, 0, 0, 0, 0, 0] ownHost.ip :=
    Mem.read_blit_same (fun _ => 0) 0 (arpFrame Usb.macBroadcast peerHost.mac (be16Bytes arpRequest)
      peerHost.mac peerHost.ip [0, 0, 0, 0, 0, 0] ownHost.ip)
  obtain ⟨htype, hoperation, htarget⟩ := arpFrame_fields rfl rfl rfl rfl rfl hread
  exact ⟨htype, hoperation, by rw [htarget, le32_bytes32]⟩

theorem arp_answers_malformed_asked :
    (∃ m', ethernetProcessPacket ownHost silentCallbacks 42 42 askedMemory (Station.init ()) =
        some (true, m', Station.init ()) ∧ ¬ IsArpAnswer ownHost askedMemory m') ∧
      ∃ mS, arpGenerateRequest peerHost ownHost.ip 42 (fun _ => 0) (Station.init ()) =
          some (42, mS, Station.init ()) ∧
        (Usb.filterOf ownHost.mac ⟨mS.read 0 42, []⟩).1 = some 42 ∧
        ethernetProcessPacket ownHost silentCallbacks 42 42 mS (Station.init ()) =
          some (false, mS, Station.init ()) := by
  obtain ⟨hanswers, hrequests⟩ :=
    arp_answers_malformed peerHost ownHost silentCallbacks silentCallbacks (n := 42) (by decide)
  constructor
  · obtain ⟨m', hprocess, -, hanswer, -⟩ :=
      hanswers 42 askedMemory (Station.init ()) askedMemory_isArpRequest
    exact ⟨m', hprocess, hanswer⟩
  · obtain ⟨mS, hgenerate, -, -, harrives⟩ := hrequests ownHost.ip (fun _ => 0) (Station.init ())
    obtain ⟨haccepted, -, hignored⟩ := harrives mS rfl
    exact ⟨mS, hgenerate, haccepted (by decide), hignored 42 (Station.init ())⟩

/-- Another host is answered with the bytes 02 00 for the operation. -/
theorem not_arp_answers_wellformed : ¬ ∀ (h : Host) (m : Mem) (s : Station Unit), IsArpRequest h m →
    ∃ m', ethernetProcessPacket h silentCallbacks 42 42 m s = some (true, m', s) ∧
      IsArpAnswer h m m' := by
  intro hall
  obtain ⟨m', hprocess, hanswer⟩ :=
    hall ownHost askedMemory (Station.init ()) askedMemory_isArpRequest
  obtain ⟨m'', hprocess', hanswer'⟩ := ethernetProcessPacket_arpRequest silentCallbacks 42
    (Station.init ()) le_rfl askedMemory_isArpRequest
  rw [hprocess] at hprocess'
  obtain rfl : m' = m'' := (Prod.mk.inj (Prod.mk.inj (Option.some.inj hprocess')).2).1
  exact not_isArpAnswer hanswer' hanswer

end TimeSwitch.Net
