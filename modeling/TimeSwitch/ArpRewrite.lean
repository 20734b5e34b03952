import TimeSwitch.Resolution

/-! # The ARP answers of the rewrite

`ARP_ProcessPacket` of `c++/net/ARP.c` turns a request into its answer in place, with the operation in
network order; the rest of the network stack is unchanged, `ARP_GenerateRequest` with its operation zero
included.  All that a node with it tells in ARP answers is its own address (`rewrite_answers_own`); it
answers the request of another host, and a node with `Lib/ARP.c` takes the address over from this
answer, as long as its table has room (`rewrite_answers_learnt`). -/

namespace TimeSwitch.Net

open Program ByteMemory Rules

variable {τ : Type}

namespace Rewrite

/-- `ARP_ProcessPacket` -/
def arpProcessPacket (h : Host) (packet : ℕ) : Program (Station τ) Bool := do
  let targetIP ← loadIP (packet + 24)
  if targetIP ≠ h.ip then pure false
  else do
    let operation ← load16 (packet + 6)
    if operation = swap16 arpRequest then do
      store16 (packet + 6) (swap16 arpReply)
      let senderMAC ← load (packet + 8) 6
      store (packet + 18) senderMAC
      let senderIP ← loadIP (packet + 14)
      storeIP (packet + 24) senderIP
      store (packet + 8) h.mac
      storeIP (packet + 14) h.ip
      pure true
    else if operation = swap16 arpReply then do
      let senderIP ← loadIP (packet + 14)
      if ipCompareNet senderIP h.ip then do
        let senderMAC ← load (packet + 8) 6
        let s ← get
        set (arpLearn s (ipGetHost senderIP) senderMAC)
        pure false
      else pure false
    else pure false

/-- The switch of `Ethernet_ProcessPacket` -/
def ethernetSwitch (h : Host) (cb : Callbacks τ) (etherType length : ℕ) :
    Program (Station τ) Bool :=
  if etherType = swap16 ethertypeARP then arpProcessPacket h 14
  else if etherType = swap16 ethertypeIPv4 then do
    let length ← sub length 14
    ipProcessPacket h cb 14 length
  else pure false

/-- `Ethernet_ProcessPacket` -/
def ethernetProcessPacket (h : Host) (cb : Callbacks τ) (length : ℕ) :
    Program (Station τ) Bool := do
  let etherType ← load16 12
  let reflect ← ethernetSwitch h cb etherType length
  if reflect then do
    let source ← load 6 6
    store 0 source
    store 6 h.mac
    pure true
  else pure false

/-- The reception of a frame, as `receiveFrame`. -/
def receiveFrame (h : Host) (T : RuleTable) (s : Station Network) (f : Frame) :
    Station Network × List Frame :=
  match acceptedLength h f with
  | none => (s, [])
  | some length =>
      match ethernetProcessPacket h (ruleCallbacks T) length length f.mem s with
      | none => (s, [])
      | some (reflect, m, s') => (s', if reflect then [m.read 0 length] else [])

end Rewrite

/-! ### Requests -/

section requests

variable {h : Host} {cb : Callbacks τ} {n length : ℕ} {m : Mem} {s : Station τ}

/-- The answer in place of the request -/
theorem rewrite_arpRequest (hn : 42 ≤ n) (hm : IsArpRequest h m) (hstart : m.read 14 6 = arpStart) :
    ∃ m', Rewrite.arpProcessPacket h 14 n m s = some (true, m', s) ∧
      m'.read 14 28 = arpHeader (be16Bytes arpReply) h.mac h.ip (m.read 22 6)
        (le32 (m.read 28 4) 0) ∧
      m'.read 0 14 = m.read 0 14 := by
  have hmac := h.mac_length
  have hsender : (m.read 22 6).length = 6 := Mem.read_length _ _ _
  obtain ⟨m₁, hm₁⟩ : ∃ m₁, (m.blit 20 (be16Bytes arpReply)).blit 32 (m.read 22 6) = m₁ := ⟨_, rfl⟩
  have hread : ∀ {i k}, i + k ≤ 20 ∨ 22 ≤ i ∧ i + k ≤ 32 → m₁.read i k = m.read i k := by
    intro i k hik
    rw [← hm₁, Mem.read_blit_disjoint (by omega), Mem.read_blit_disjoint (by simp; omega)]
  refine ⟨((m₁.blit 38 (bytes32 (le32 (m.read 28 4) 0))).blit 22 h.mac).blit 28 (bytes32 h.ip),
    ?_, ?_, ?_⟩
  · unfold Rewrite.arpProcessPacket
    rw [loadIP_bind (by omega), if_neg (not_not_intro hm.target), load16_bind (by omega),
      hm.operation, le16_be16Bytes, if_pos rfl, store16_bind (by omega), load_bind (by omega),
      bytes16_swap16, Mem.read_blit_disjoint (Or.inr (by simp)),
      store_bind (by rw [Mem.read_length]; omega), hm₁, loadIP_bind (by omega), hread (by omega),
      storeIP_bind (by omega), store_bind (by omega), storeIP_bind (by omega), pure_eq]
  · obtain ⟨m₂, hm₂⟩ : ∃ m₂, m₁.blit 38 (bytes32 (le32 (m.read 28 4) 0)) = m₂ := ⟨_, rfl⟩
    have hown : (m₂.blit 22 h.mac).blit 28 (bytes32 h.ip) = m₂.blit 22 (h.mac ++ bytes32 h.ip) :=
      Mem.blit_append (by omega)
    have hfront : ∀ {i k}, i + k ≤ 22 → (m₂.blit 22 (h.mac ++ bytes32 h.ip)).read i k =
        m₁.read i k := by
      intro i k hik
      rw [← hm₂, Mem.read_blit_disjoint (Or.inl hik), Mem.read_blit_disjoint (by simp; omega)]
    have hwritten : (m₂.blit 22 (h.mac ++ bytes32 h.ip)).read 22 10 = h.mac ++ bytes32 h.ip := by
      have hsame := Mem.read_blit_same m₂ 22 (h.mac ++ bytes32 h.ip)
      rwa [List.length_append, hmac, bytes32_length] at hsame
    rw [hm₂, hown]
    refine (arpHeader_iff rfl hmac hsender).mpr ⟨?_, ?_, ?_, ?_, ?_, ?_⟩
    · rw [hfront (by decide), hread (by decide)]
      exact hstart
    · rw [hfront (by decide), ← hm₁, Mem.read_blit_disjoint (Or.inl (by decide))]
      exact Mem.read_blit_same m 20 (be16Bytes arpReply)
    · exact (Mem.read_part hwritten (i := 0) (by decide)).trans (List.take_left' hmac)
    · have hpart := Mem.read_part hwritten (i := 6) (k := 4) (by decide)
      rw [List.drop_left' hmac] at hpart
      exact hpart
    · rw [Mem.read_blit_disjoint (Or.inr (by simp; omega)), ← hm₂,
        Mem.read_blit_disjoint (Or.inl (by decide)), ← hm₁]
      have hsame := Mem.read_blit_same (m.blit 20 (be16Bytes arpReply)) 32 (m.read 22 6)
      rwa [hsender] at hsame
    · rw [Mem.read_blit_disjoint (Or.inr (by simp; omega)), ← hm₂]
      exact Mem.read_blit_same m₁ 38 (bytes32 (le32 (m.read 28 4) 0))
  · rw [Mem.read_blit_disjoint (by simp), Mem.read_blit_disjoint (by simp),
      Mem.read_blit_disjoint (by simp), hread (by omega)]

/-- A request becomes its answer. -/
theorem rewrite_request (cb : Callbacks τ) (length : ℕ) (hn : 42 ≤ n) (hm : IsArpRequest h m)
    (hstart : m.read 14 6 = arpStart) :
    ∃ m', Rewrite.ethernetProcessPacket h cb length n m s = some (true, m', s) ∧
      IsArpAnswer h m m' := by
  have hsource : (m.read 6 6).length = 6 := Mem.read_length _ _ _
  obtain ⟨m₁, harp, hheader, hfront⟩ := rewrite_arpRequest (s := s) hn hm hstart
  have hfront' : ∀ {i k}, i + k ≤ 14 → m₁.read i k = m.read i k := fun h => read_front hfront h
  have hmacs : (m₁.blit 0 (m.read 6 6 ++ h.mac)).read 0 12 = _ := answered_macs hsource
  refine ⟨m₁.blit 0 (m.read 6 6 ++ h.mac), ?_, (arpFrame_iff hsource h.mac_length).mpr
    ⟨?_, ?_, ?_, ?_⟩⟩
  · unfold Rewrite.ethernetProcessPacket
    rw [load16_bind (by omega), hm.etherType, le16_be16Bytes]
    unfold Rewrite.ethernetSwitch
    rw [if_pos rfl, bind_eq harp, if_pos rfl, ethernetAnswer_eq (by omega), hfront' (by decide)]
  · exact (Mem.read_part hmacs (i := 0) (k := 6) (by decide)).trans (List.take_left' hsource)
  · have hpart := Mem.read_part hmacs (i := 6) (k := 6) (by decide)
    rw [List.drop_left' hsource] at hpart
    exact hpart.trans (List.take_of_length_le h.mac_length.le)
  · rw [answered_read hsource le_rfl, hfront' (by decide)]
    exact hm.etherType
  · rw [answered_read hsource (by decide)]
    exact hheader

/-- All other packets are handled as before. -/
theorem rewrite_other (hn : 42 ≤ n) (hm : ¬ IsArpRequest h m) :
    Rewrite.ethernetProcessPacket h cb length n m s = ethernetProcessPacket h cb length n m s := by
  unfold Rewrite.ethernetProcessPacket ethernetProcessPacket
  rw [load16_bind (by omega), load16_bind (by omega)]
  unfold Rewrite.ethernetSwitch ethernetSwitch
  by_cases htype : le16 (m.read 12 2) = swap16 ethertypeARP
  · have harp : (Rewrite.arpProcessPacket h 14 : Program (Station τ) Bool) n m s =
        arpProcessPacket h 14 n m s := by
      unfold Rewrite.arpProcessPacket arpProcessPacket
      rw [loadIP_bind (by omega), loadIP_bind (by omega)]
      by_cases htarget : le32 (m.read 38 4) 0 = h.ip
      · have hrequest : le16 (m.read 20 2) ≠ swap16 arpRequest := by
          intro hop
          refine hm ⟨?_, ?_, htarget⟩
          · rw [← bytes16_swap16, ← htype, bytes16_le16 (Mem.read_length _ _ _)]
          · rw [← bytes16_swap16, ← hop, bytes16_le16 (Mem.read_length _ _ _)]
        rw [if_neg (not_not_intro htarget), if_neg (not_not_intro htarget), load16_bind (by omega),
          load16_bind (by omega), if_neg hrequest, if_neg hrequest]
      · rw [if_pos htarget, if_pos htarget]
    rw [if_pos htype, if_pos htype]
    exact bind_congr_left harp
  · rw [if_neg htype, if_neg htype]

end requests

/-! ### Reception -/

section reception

variable {h : Host} {T : RuleTable} {s : Station Network} {f : Frame} {length : ℕ}

/-- **The answer** of a node with the rewrite to a request that its filter accepts. -/
theorem rewrite_answers (T : RuleTable) (s : Station Network) (hf : (acceptedLength h f).isSome)
    (hm : IsArpRequest h f.mem) :
    ∃ m', IsArpAnswer h f.mem m' ∧ Rewrite.receiveFrame h T s f = (s, [m'.read 0 42]) := by
  obtain ⟨length, hf⟩ := Option.isSome_iff_exists.mp hf
  cases (acceptedLength_cases hf).2 with
  | inl harp =>
      obtain ⟨⟨-, hstart⟩, rfl⟩ := harp
      obtain ⟨m', hprocess, hanswer⟩ := rewrite_request (ruleCallbacks T) 42 (s := s) le_rfl hm hstart
      refine ⟨m', hanswer, ?_⟩
      unfold Rewrite.receiveFrame
      rw [hf]
      dsimp only
      rw [hprocess]
      rfl
  | inr hip => exact absurd (hm.etherType.symm.trans hip.etherType) (by decide)

/-- What a node with the rewrite does: the same as before, or it answers a request. -/
theorem rewrite_receiveFrame (s : Station Network) : Rewrite.receiveFrame h T s f = receiveFrame h T s f ∨
    IsArpRequest h f.mem ∧ ∃ m', IsArpAnswer h f.mem m' ∧
      Rewrite.receiveFrame h T s f = (s, [m'.read 0 42]) := by
  by_cases hm : (acceptedLength h f).isSome ∧ IsArpRequest h f.mem
  · exact Or.inr ⟨hm.2, rewrite_answers T s hm.1 hm.2⟩
  · left
    unfold Rewrite.receiveFrame receiveFrame
    cases hf : acceptedLength h f with
    | none => rfl
    | some length =>
        dsimp only
        have hlen : 42 ≤ length := (acceptedLength_cases hf).2.elim (fun h => h.2.ge) IsIPv4.lenMin
        have hother : ¬ IsArpRequest h f.mem := fun h => hm ⟨by rw [hf]; rfl, h⟩
        have hsame : Rewrite.ethernetProcessPacket h (ruleCallbacks T) length length f.mem s = _ :=
          rewrite_other hlen hother
        cases hprocess : ethernetProcessPacket h (ruleCallbacks T) length length f.mem s with
        | none => simp only [hsame, hprocess]
        | some r =>
            obtain ⟨reflect, m', s'⟩ := r
            simp only [hsame, hprocess]

/-- The filter accepts an ARP packet to the node, or to all nodes. -/
theorem acceptedLength_arpFrame {d src op smac tmac : List UInt8} {sip tip : UInt32}
    (hd : d = h.mac ∨ h.mac.headD 0 ≠ 0xFF ∧ d = Usb.macBroadcast) (hsrc : src.length = 6)
    (hop : op.length = 2) (hs : smac.length = 6) (ht : tmac.length = 6) :
    acceptedLength h (arpFrame d src op smac sip tmac tip) = some 42 := by
  have hdest : d.length = 6 := by
    rcases hd with rfl | ⟨-, rfl⟩
    · exact h.mac_length
    · rfl
  obtain ⟨f, hf⟩ : ∃ f, arpFrame d src op smac sip tmac tip = f := ⟨_, rfl⟩
  have hlen : f.length = 42 := by
    rw [← hf]
    exact arpFrame_length hdest hsrc hop hs ht
  have hread : (Frame.mem f).read 0 42 = arpFrame d src op smac sip tmac tip := by
    rw [hf, ← hlen]
    exact Frame.mem_read f
  have hfilter := arpFrame_accepted [] [] hd hsrc hop hs ht hread
  rw [Frame.mem_take (by omega), List.append_nil] at hfilter
  unfold acceptedLength
  rw [hf, hlen, hfilter]
  rfl

end reception

/-! ### Learning -/

section learning

variable {S R : Host} {T : RuleTable} {s : Station τ} {ip : UInt32} {mac : List UInt8} {i : ℕ}

/-- An address that was taken over within the table is found. -/
theorem arpSearchMAC_learn (hroom : (arpSearchMAC s ip).isSome ∨ s.writePosition < arpTableSize) :
    arpSearchMAC (arpLearn s (ipGetHost ip) mac) ip = some mac := by
  rw [arpSearchMAC_eq] at hroom ⊢
  cases hf : arpFind s (ipGetHost ip) with
  | some i =>
      have hips : ∀ j, ((arpLearn s (ipGetHost ip) mac).arpTable j).ip = (s.arpTable j).ip := by
        intro j
        rw [arpLearn_some hf]
        by_cases hj : j = i
        · subst hj
          show (Function.update s.arpTable j _ j).ip = _
          rw [Function.update_self]
        · show (Function.update s.arpTable i _ j).ip = _
          rw [Function.update_of_ne hj]
      have hsame : arpFind (arpLearn s (ipGetHost ip) mac) (ipGetHost ip) = some i := by
        unfold arpFind
        simp only [hips]
        exact hf
      rw [hsame, arpLearn_some hf]
      simp
  | none =>
      have hnone := List.find?_range_eq_none.mp hf
      have hroom : s.writePosition < arpTableSize := by
        rw [hf] at hroom
        exact hroom.resolve_left (by simp)
      have hother : ∀ j, j ≠ s.writePosition →
          (arpLearn s (ipGetHost ip) mac).arpTable j = s.arpTable j := by
        intro j hj
        rw [arpLearn_none hf]
        exact Function.update_of_ne hj ..
      have hnew : (arpLearn s (ipGetHost ip) mac).arpTable s.writePosition = ⟨ipGetHost ip, mac⟩ := by
        rw [arpLearn_none hf]
        exact Function.update_self ..
      have hfind : arpFind (arpLearn s (ipGetHost ip) mac) (ipGetHost ip) = some s.writePosition := by
        refine List.find?_range_eq_some.mpr ⟨?_, List.mem_range.mpr hroom, fun j hj => ?_⟩
        · rw [hnew]
          exact beq_self_eq_true _
        · rw [hother j hj.ne]
          exact hnone j (hj.trans hroom)
      rw [hfind, Option.map_some, hnew]

end learning

/-! ### A request and its answer -/

/-- The answer of `R` to a request of `S` -/
def arpAnswerFrame (S R : Host) : Frame :=
  arpFrame S.mac R.mac (be16Bytes arpReply) R.mac R.ip S.mac S.ip

section answers

variable {S R : Host} {T : RuleTable} {s : Station Network} {f : Frame}

theorem arpAnswerFrame_read : (Frame.mem (arpAnswerFrame S R)).read 0 42 = arpAnswerFrame S R := by
  have hread := Frame.mem_read (arpAnswerFrame S R)
  rwa [arpAnswerFrame, arpFrame_length S.mac_length R.mac_length rfl R.mac_length S.mac_length] at hread

/-- The fields of an ARP packet from its sender -/
theorem arpFrame_sender {m : Mem} {d src op smac tmac : List UInt8} {sip tip : UInt32}
    (hd : d.length = 6) (hsrc : src.length = 6) (hop : op.length = 2) (hs : smac.length = 6)
    (ht : tmac.length = 6) (h : m.read 0 42 = arpFrame d src op smac sip tmac tip) :
    m.read 6 6 = src ∧ m.read 22 6 = smac ∧ m.read 28 4 = bytes32 sip := by
  obtain ⟨-, hsource, -, hheader⟩ := (arpFrame_iff hd hsrc).mp h
  obtain ⟨-, -, hmac, hip, -⟩ := (arpHeader_iff hop hs ht).mp hheader
  exact ⟨hsource, hmac, hip⟩

/-- **A node learns** from an answer. -/
theorem receiveFrame_answer (hnet : ipCompareNet R.ip S.ip = true) (hhost : ipGetHost R.ip ≠ 0) :
    receiveFrame S T s (arpAnswerFrame S R) = (arpLearn s (ipGetHost R.ip) R.mac, []) := by
  have haccepted : acceptedLength S (arpAnswerFrame S R) = some 42 :=
    acceptedLength_arpFrame (Or.inl rfl) R.mac_length rfl R.mac_length S.mac_length
  obtain ⟨htype, hoperation, htarget⟩ := arpFrame_fields S.mac_length R.mac_length rfl R.mac_length
    S.mac_length (arpAnswerFrame_read (S := S) (R := R))
  obtain ⟨-, hmac, hip⟩ := arpFrame_sender S.mac_length R.mac_length rfl R.mac_length
    S.mac_length (arpAnswerFrame_read (S := S) (R := R))
  obtain ⟨x, hx⟩ : ∃ x : ArpPacket, x = ⟨42, Frame.mem (arpAnswerFrame S R), 14, le_rfl⟩ := ⟨_, rfl⟩
  have hsender : x.senderIP = R.ip := by
    rw [hx]
    exact (congrArg (fun bs => le32 bs 0) hip).trans (le32_bytes32 _)
  have hreply : x.IsReply S := by
    constructor
    case target =>
      rw [hx]
      exact (congrArg (fun bs => le32 bs 0) htarget).trans (le32_bytes32 _)
    case operation =>
      rw [hx]
      exact (congrArg le16 hoperation).trans (le16_be16Bytes _)
    case net => rwa [hsender]
    case host => rwa [hsender]
  have hentry : x.entry = (ipGetHost R.ip, R.mac) := by
    unfold ArpPacket.entry
    rw [hsender, hx]
    exact congrArg _ hmac
  have harp := arpProcessPacket_reply (s := s) hreply
  rw [hentry, hx] at harp
  have hprocess : ethernetProcessPacket S (ruleCallbacks T) 42 42
      (Frame.mem (arpAnswerFrame S R)) s = some (false, Frame.mem (arpAnswerFrame S R),
        arpLearn s (ipGetHost R.ip) R.mac) := by
    rw [ethernetProcessPacket_arp le_rfl htype, bind_eq harp]
    rfl
  exact receiveFrame_of_process haccepted hprocess

/-- The ARP packet names the host as its sender. -/
def IsFrom (S : Host) (m : Mem) : Prop :=
  m.read 6 6 = S.mac ∧ m.read 22 6 = S.mac ∧ m.read 28 4 = bytes32 S.ip

end answers

/-- **The ARP answers of the rewrite are true.**  Whatever frame a node with the rewrite gets, an ARP
answer that it sends tells its own address. -/
theorem rewrite_answers_own (R : Host) (T : RuleTable) (s : Station Network) (f : Frame) :
    ∀ g ∈ (Rewrite.receiveFrame R T s f).2,
      TellsOwner (fun host mac => host = ipGetHost R.ip ∧ mac = R.mac) g := by
  intro g hg hreply
  cases rewrite_receiveFrame (h := R) (T := T) (f := f) s with
  | inl hsame =>
      rw [hsame] at hg
      have hreceived : Received R T s f (receiveFrame R T s f) := receiveFrame_received
      exact absurd hreply (hreceived.notReply g hg)
  | inr h =>
      obtain ⟨-, m', hanswer, hframes⟩ := h
      rw [hframes] at hg
      obtain rfl := List.mem_singleton.mp hg
      have hsource : (f.mem.read 6 6).length = 6 := Mem.read_length _ _ _
      have hsender : (f.mem.read 22 6).length = 6 := Mem.read_length _ _ _
      have hread : (Frame.mem (m'.read 0 42)).read 0 42 = _ :=
        (Mem.read_congr fun x _ hx => Frame.mem_apply (by omega)).trans hanswer
      obtain ⟨-, hmac, hip⟩ := arpFrame_sender hsource R.mac_length rfl R.mac_length hsender hread
      unfold Frame.entry
      rw [hmac, hip, le32_bytes32]
      exact ⟨rfl, rfl⟩

/-- The host 192.168.200.40 asks for the address of 192.168.200.41. -/
def askingFrame : Frame :=
  arpFrame Usb.macBroadcast ownHost.mac (be16Bytes arpRequest) ownHost.mac ownHost.ip
    [0, 0, 0, 0, 0, 0] peerHost.ip

theorem rewrite_answers_own_asked : ∃ g ∈ (Rewrite.receiveFrame peerHost Subnet.portTable
      (Station.init (Network.init fun _ => 0)) askingFrame).2,
    IsArpReplyFrame g ∧ g.entry.1 = ipGetHost peerHost.ip ∧ g.entry.2 = peerHost.mac := by
  have h : ∃ g ∈ (Rewrite.receiveFrame peerHost Subnet.portTable
      (Station.init (Network.init fun _ => 0)) askingFrame).2, IsArpReplyFrame g := by
    decide +kernel
  obtain ⟨g, hg, hreply⟩ := h
  exact ⟨g, hg, hreply, rewrite_answers_own peerHost Subnet.portTable
    (Station.init (Network.init fun _ => 0)) askingFrame g hg hreply⟩

/-- **The ARP answers of the rewrite are learnt.**  A node with the rewrite answers each request that
its frame filter accepts with one frame to the sender.  A node of its subnet with the addresses of the
sender takes the address of the answering node over from this frame and finds it afterwards, if it has
an entry for the host already or room in its table. -/
theorem rewrite_answers_learnt (S R : Host) (T T' : RuleTable) (hnet : ipCompareNet R.ip S.ip = true)
    (hhost : ipGetHost R.ip ≠ 0) {f : Frame} (hf : (acceptedLength R f).isSome)
    (hm : IsArpRequest R f.mem) (hfrom : IsFrom S f.mem) (r s : Station Network) :
    Rewrite.receiveFrame R T r f = (r, [arpAnswerFrame S R]) ∧
      (receiveFrame S T' s (arpAnswerFrame S R)).2 = [] ∧
      ((arpSearchMAC s R.ip).isSome ∨ s.writePosition < arpTableSize →
        arpSearchMAC (receiveFrame S T' s (arpAnswerFrame S R)).1 R.ip = some R.mac) := by
  obtain ⟨hsource, hmac, hip⟩ := hfrom
  obtain ⟨m', hanswer, hframes⟩ := rewrite_answers T r hf hm
  unfold IsArpAnswer at hanswer
  rw [hsource, hmac, hip, le32_bytes32] at hanswer
  rw [receiveFrame_answer hnet hhost, hframes, hanswer]
  exact ⟨rfl, rfl, arpSearchMAC_learn⟩

theorem rewrite_answers_learnt_peer :
    Rewrite.receiveFrame peerHost Subnet.portTable (Station.init (Network.init fun _ => 0)) askingFrame =
        (Station.init (Network.init fun _ => 0), [arpAnswerFrame ownHost peerHost]) ∧
      arpSearchMAC (receiveFrame ownHost Subnet.showTable (Station.init (Network.init fun _ => 0))
        (arpAnswerFrame ownHost peerHost)).1 peerHost.ip = some peerHost.mac := by
  have hread := Frame.mem_read askingFrame
  rw [askingFrame, arpFrame_length rfl rfl rfl rfl rfl] at hread
  obtain ⟨htype, hoperation, htarget⟩ := arpFrame_fields rfl rfl rfl rfl rfl hread
  have hm : IsArpRequest peerHost askingFrame.mem :=
    ⟨htype, hoperation, (congrArg (fun bs => le32 bs 0) htarget).trans (le32_bytes32 _)⟩
  have hf : (acceptedLength peerHost askingFrame).isSome := by
    rw [askingFrame, acceptedLength_arpFrame (Or.inr ⟨by decide, rfl⟩) rfl rfl rfl rfl]
    rfl
  obtain ⟨hanswer, -, hlearnt⟩ := rewrite_answers_learnt ownHost peerHost Subnet.portTable
    Subnet.showTable (by decide) (by decide) hf hm (arpFrame_sender rfl rfl rfl rfl rfl hread)
    (Station.init (Network.init fun _ => 0)) (Station.init (Network.init fun _ => 0))
  exact ⟨hanswer, hlearnt (Or.inr (by decide))⟩

end TimeSwitch.Net
