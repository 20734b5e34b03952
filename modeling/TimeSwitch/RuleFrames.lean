import TimeSwitch.ArpAnswers
import TimeSwitch.RemoteRules

/-! # The packets that the rules send

`checkRules` asks for the value of a remote rule with `SNTP_GenerateRequest` or `UDP_GenerateUnicast`,
and `sendChangedRules` tells a value with `UDP_GenerateBroadcast`; both write the payload behind the
headers.  If the ARP table has an entry for the next hop then the packet holds the parcel of the
request (`requestPacket_found`), else an ARP request (`requestPacket_missing`). -/

namespace TimeSwitch.Net

open Program ByteMemory Rules

variable {σ τ : Type}

/-! ### Generators -/

/-- `SNTP_GenerateRequest`, without `DEBUG` -/
def sntpGenerateRequest (h : Host) (destinationIP : UInt32) (destinationPort : UInt16) :
    Program (Station τ) ℤ := do
  let offset ← udpGenerateUnicast h destinationIP destinationPort Sntp.headerSize
  if offset < 0 then pure offset
  else do
    store offset.toNat (List.replicate Sntp.headerSize 0)
    store offset.toNat [versionModeClient]
    pure (offset + Sntp.headerSize)

/-- The packet that a remote rule sends in `checkRules`: its length, or minus the length of an ARP
request. -/
def requestPacket (h : Host) (r : RuleData) : Program (Station τ) ℤ :=
  match r.kind with
  | .sntp ip => sntpGenerateRequest h ip r.networkPort
  | .remote ip => do
      let length ← udpGenerateUnicast h ip r.networkPort ruleValueSize
      if 0 < length then do
        store length.toNat (bytes32 0)
        pure (length + ruleValueSize)
      else pure length
  | _ => pure 0

/-- The packet that a rule sends in `sendChangedRules` -/
def changedPacket (h : Host) (port : UInt16) (value : UInt32) : Program σ ℕ := do
  let len ← udpGenerateBroadcast h port ruleValueSize
  store len (bytes32 value)
  pure (len + ruleValueSize)

/-! ### The next hop -/

/-- The address whose MAC address `IP_GenerateUnicast` looks up. -/
def Host.nextHop (h : Host) (ip : UInt32) : UInt32 :=
  if ipCompareNet h.ip ip then ip else h.routerIP

/-- The entries of the ARP table hold MAC addresses. -/
def Station.Sized (s : Station τ) : Prop := ∀ i, (s.arpTable i).mac.length = 6

/-- The request of a node. -/
def unicastParcel (h : Host) (mac : List UInt8) (hmac : mac.length = 6) (ip : UInt32)
    (port : UInt16) (payload : List UInt8) : Parcel :=
  requestParcel h ⟨mac, hmac, ip, ip⟩ port payload

theorem Station.sized_init (app : τ) : (Station.init app).Sized := fun _ => rfl

/-- What `ARP_searchMAC` finds is a MAC address. -/
theorem Station.Sized.search {s : Station τ} (hs : s.Sized) {ip : UInt32} {mac : List UInt8}
    (h : arpSearchMAC s ip = some mac) : mac.length = 6 := by
  unfold arpSearchMAC at h
  obtain ⟨i, -, rfl⟩ := Option.map_eq_some_iff.mp h
  exact hs i

theorem Station.Sized.learn {s : Station τ} (hs : s.Sized) {host : UInt8} {mac : List UInt8}
    (hmac : mac.length = 6) : (arpLearn s host mac).Sized := by
  have hentry : ∀ (j : ℕ) (ip : UInt8) (i : ℕ),
      (Function.update s.arpTable j ⟨ip, mac⟩ i).mac.length = 6 := by
    intro j ip i
    by_cases hij : i = j
    · subst hij
      rw [Function.update_self]
      exact hmac
    · rw [Function.update_of_ne hij]
      exact hs i
  unfold arpLearn
  split
  · exact hentry _ _
  · exact hentry _ _

/-! ### Unicasts -/

section unicast

variable {h : Host} {n k : ℕ} {m : Mem} {s : Station τ} {ip : UInt32} {port : UInt16}
  {mac payload : List UInt8}

/-- The headers in front of a datagram, for a next hop with an entry. -/
theorem ipGenerateUnicast_found (hsearch : arpSearchMAC s (h.nextHop ip) = some mac)
    (hmac : mac.length = 6) (hlen : k < 256) (hn : 34 ≤ n) :
    ipGenerateUnicast h 17 ip k n m s =
      some (34, m.blit 0 (ethernetHeader mac h.mac ethertypeIPv4 ++ ipHeader h.ip ip 17 k), s) := by
  have hheader : (ethernetHeader mac h.mac ethertypeIPv4).length = 14 :=
    ethernetHeader_length hmac h.mac_length
  have hethernet : ethernetGenerateUnicast h (h.nextHop ip) (swap16 ethertypeIPv4) n m s =
      some (14, m.blit 0 (ethernetHeader mac h.mac ethertypeIPv4), s) := by
    unfold ethernetGenerateUnicast
    rw [get_bind, hsearch]
    show (ethernetWriteHeader h mac (swap16 ethertypeIPv4) >>= _ : Program (Station τ) ℤ) n m s = _
    rw [bind_eq (ethernetWriteHeader_eq (by omega) hmac)]
    rfl
  unfold ipGenerateUnicast
  rw [← Host.nextHop, bind_eq hethernet, if_neg (by decide)]
  show (ipWriteHeader h 14 17 (pure ip) (k % 256) >>= _ : Program (Station τ) ℤ) n _ s = _
  rw [bind_eq (ipWriteHeader_eq (by omega) fun _ _ => rfl), Nat.mod_eq_of_lt hlen,
    Mem.blit_append (by omega)]
  rfl

/-- With the payload behind the headers, the packet holds the request. -/
theorem udpGenerateUnicast_found (port : UInt16) (payload : List UInt8)
    (hsearch : arpSearchMAC s (h.nextHop ip) = some mac) (hmac : mac.length = 6)
    (hlen : payload.length < 248) (hn : 42 ≤ n) :
    ∃ m', udpGenerateUnicast h ip port payload.length n m s = some (42, m', s) ∧
      (unicastParcel h mac hmac ip port payload).In (m'.blit 42 payload) := by
  refine ⟨_, ?_, (unicastParcel h mac hmac ip port payload).in_written m⟩
  unfold udpGenerateUnicast
  rw [bind_eq (ipGenerateUnicast_found hsearch hmac (by omega) (by omega)), if_neg (by decide)]
  show (udpWriteHeader 34 udpPortAutomat (swap16 port.toNat) payload.length >>= _ :
    Program (Station τ) ℤ) n _ s = _
  unfold udpPortAutomat
  rw [bind_eq (udpWriteHeader_eq (by omega) (by omega)), bytes16_swap16, bytes16_swap16]
  rfl

/-- A next hop without an entry is asked for its address. -/
theorem udpGenerateUnicast_missing (hsearch : arpSearchMAC s (h.nextHop ip) = none) (hn : 42 ≤ n) :
    udpGenerateUnicast h ip port k n m s =
      some (-42, m.blit 0 (arpGenerated h (h.nextHop ip)), s) := by
  have hip : ipGenerateUnicast h 17 ip (8 + k) n m s =
      some (-42, m.blit 0 (arpGenerated h (h.nextHop ip)), s) := by
    unfold ipGenerateUnicast
    rw [← Host.nextHop, bind_eq (ethernetGenerateUnicast_none hn hsearch), if_pos (by decide),
      pure_eq]
  unfold udpGenerateUnicast
  rw [bind_eq hip, if_pos (by decide), pure_eq]

end unicast

/-! ### Requests and broadcasts -/

section packets

variable {h : Host} {r : RuleData} {n : ℕ} {m : Mem} {s : Station τ} {st : σ} {ip : UInt32}
  {mac : List UInt8} {port : UInt16} {value : UInt32}

/-- The body of an SNTP request is written over zeros. -/
theorem sntpBody (m : Mem) (a : ℕ) :
    (m.blit a (List.replicate Sntp.headerSize 0)).blit a [versionModeClient] =
      m.blit a (versionModeClient :: List.replicate 47 0) := by
  show (m.blit a ([] ++ ([0] ++ List.replicate 47 0))).blit a [versionModeClient] = _
  exact Mem.blit_again rfl rfl

/-- **A request** is the parcel with the body of the rule, if the next hop has an entry. -/
theorem requestPacket_found (hr : r.remoteIP = some ip)
    (hsearch : arpSearchMAC s (h.nextHop ip) = some mac) (hmac : mac.length = 6) (hn : 90 ≤ n) :
    ∃ m', requestPacket h r n m s = some (((42 + r.requestBody.length : ℕ) : ℤ), m', s) ∧
      (unicastParcel h mac hmac ip r.networkPort r.requestBody).In m' := by
  unfold RuleData.remoteIP at hr
  unfold requestPacket RuleData.requestBody
  cases hk : r.kind with
  | sntp ip' =>
      obtain rfl : ip' = ip := by simpa [hk] using hr
      obtain ⟨m', hgenerate, hin⟩ := udpGenerateUnicast_found r.networkPort
        (versionModeClient :: List.replicate 47 0) (n := n) (m := m) hsearch hmac (by simp) (by omega)
      refine ⟨_, ?_, hin⟩
      show (udpGenerateUnicast h ip' r.networkPort 48 >>= _ : Program (Station τ) ℤ) n m s = _
      rw [List.length_cons, List.length_replicate] at hgenerate
      rw [bind_eq hgenerate, if_neg (by decide)]
      show (store 42 (List.replicate Sntp.headerSize 0) >>= fun _ => store 42 [versionModeClient] >>=
        fun _ => pure (90 : ℤ) : Program (Station τ) ℤ) n m' s = _
      rw [store_bind (by simp [Sntp.headerSize]; omega), store_bind (by simp; omega), sntpBody]
      rfl
  | remote ip' =>
      obtain rfl : ip' = ip := by simpa [hk] using hr
      obtain ⟨m', hgenerate, hin⟩ := udpGenerateUnicast_found r.networkPort (bytes32 0) (n := n)
        (m := m) hsearch hmac (by simp) (by omega)
      refine ⟨_, ?_, hin⟩
      show (udpGenerateUnicast h ip' r.networkPort (bytes32 0).length >>= _ :
        Program (Station τ) ℤ) n m s = _
      rw [bind_eq hgenerate, if_pos (by decide)]
      show (store 42 (bytes32 0) >>= _ : Program (Station τ) ℤ) n m' s = _
      rw [store_bind (by simp; omega)]
      rfl
  | _ => simp [hk] at hr

/-- **A request** is the frame of `ARP_GenerateRequest` for the next hop, if this has no entry. -/
theorem requestPacket_missing (hr : r.remoteIP = some ip)
    (hsearch : arpSearchMAC s (h.nextHop ip) = none) (hn : 42 ≤ n) :
    requestPacket h r n m s = some (-42, m.blit 0 (arpGenerated h (h.nextHop ip)), s) := by
  unfold RuleData.remoteIP at hr
  unfold requestPacket
  cases hk : r.kind with
  | sntp ip' =>
      obtain rfl : ip' = ip := by simpa [hk] using hr
      show (udpGenerateUnicast h ip' r.networkPort 48 >>= _ : Program (Station τ) ℤ) n m s = _
      rw [bind_eq (udpGenerateUnicast_missing hsearch hn), if_pos (by decide), pure_eq]
  | remote ip' =>
      obtain rfl : ip' = ip := by simpa [hk] using hr
      show (udpGenerateUnicast h ip' r.networkPort 4 >>= _ : Program (Station τ) ℤ) n m s = _
      rw [bind_eq (udpGenerateUnicast_missing hsearch hn), if_neg (by decide), pure_eq]
  | _ => simp [hk] at hr

/-- **A broadcast** is the parcel with the value. -/
theorem changedPacket_eq (hn : 46 ≤ n) :
    ∃ m', changedPacket h port value n m st = some (46, m', st) ∧
      (broadcastParcel h port (bytes32 value)).In m' := by
  obtain ⟨m', hgenerate, hin⟩ : ∃ m', udpGenerateBroadcast h port (bytes32 value).length n m st =
      some (42, m', st) ∧ (broadcastParcel h port (bytes32 value)).In (m'.blit 42 (bytes32 value)) :=
    udpGenerateBroadcast_eq (by simp) (by omega)
  refine ⟨_, ?_, hin⟩
  show (udpGenerateBroadcast h port (bytes32 value).length >>= _ : Program σ ℕ) n m st = _
  rw [bind_eq hgenerate, store_bind (by simp; omega)]
  rfl

end packets

end TimeSwitch.Net
