import TimeSwitch.Library.Buffer
import TimeSwitch.PacketCheck
import TimeSwitch.Sntp

/-! # The network protocols

`Lib/Ethernet.c`, `ARP.c`, `IP.c`, `ICMP.c` and `UDP.c`: a received packet is handled in place, and is
sent back if the handler returns true; the generators write the headers of a new packet.

* Pointers into the packet are offsets; words are those of a little-endian machine.
* `Ethernet_ProcessPacket` has the length of the packet, as in its header file, and hands what follows
  its own header to `IP_ProcessPacket`.
* The addresses of a node are a parameter (`Host`); `ownHost` has the ones of `resources.c`.
* The weak functions of `UDP.c` are a parameter as well (`Callbacks`). -/

namespace TimeSwitch.Net

open Program ByteMemory

/-! ### Words -/

/-- `cpu_to_be16` and `be16_to_cpu` -/
def swap16 (v : ℕ) : ℕ := v % 256 * 256 + v / 256 % 256

/-- The bytes of a 16 bit number in memory. -/
def bytes16 (v : ℕ) : List UInt8 := [UInt8.ofNat v, UInt8.ofNat (v / 256)]

/-- The 16 bit number in two bytes of memory. -/
def le16 (bs : List UInt8) : ℕ := (bs.getD 0 0).toNat + 256 * (bs.getD 1 0).toNat

section access

variable {σ : Type}

def load8 (i : ℕ) : Program σ UInt8 := do
  let bs ← load i 1
  pure (bs.getD 0 0)

def load16 (i : ℕ) : Program σ ℕ := do
  let bs ← load i 2
  pure (le16 bs)

def store16 (i v : ℕ) : Program σ Unit := store i (bytes16 v)

def loadIP (i : ℕ) : Program σ UInt32 := do
  let bs ← load i 4
  pure (le32 bs 0)

def storeIP (i : ℕ) (ip : UInt32) : Program σ Unit := store i (bytes32 ip)

end access

/-! ### Accesses -/

section accesses

variable {σ β : Type} {n i v : ℕ} {ip : UInt32} {m : Mem} {s : σ}

@[simp] theorem bytes16_length : (bytes16 v).length = 2 := rfl

@[simp] theorem bytes32_length : (bytes32 ip).length = 4 := rfl

theorem load8_bind {f : UInt8 → Program σ β} (h : i + 1 ≤ n) :
    (load8 i >>= f) n m s = f (m i) n m s := by
  unfold load8
  rw [bind_assoc, load_bind h, pure_bind]
  rfl

theorem load16_bind {f : ℕ → Program σ β} (h : i + 2 ≤ n) :
    (load16 i >>= f) n m s = f (le16 (m.read i 2)) n m s := by
  unfold load16
  rw [bind_assoc, load_bind h, pure_bind]

theorem loadIP_bind {f : UInt32 → Program σ β} (h : i + 4 ≤ n) :
    (loadIP i >>= f) n m s = f (le32 (m.read i 4) 0) n m s := by
  unfold loadIP
  rw [bind_assoc, load_bind h, pure_bind]

theorem store16_bind {f : Unit → Program σ β} (h : i + 2 ≤ n) :
    (store16 i v >>= f) n m s = f () n (m.blit i (bytes16 v)) s := store_bind h

theorem storeIP_bind {f : Unit → Program σ β} (h : i + 4 ≤ n) :
    (storeIP i ip >>= f) n m s = f () n (m.blit i (bytes32 ip)) s := store_bind h

theorem inBounds_load8 (h : i + 1 ≤ n) : InBounds n (load8 i : Program σ UInt8) :=
  (inBounds_load h).bind fun _ => inBounds_pure _

theorem inBounds_load16 (h : i + 2 ≤ n) : InBounds n (load16 i : Program σ ℕ) :=
  (inBounds_load h).bind fun _ => inBounds_pure _

theorem inBounds_store16 (h : i + 2 ≤ n) : InBounds n (store16 i v : Program σ Unit) :=
  inBounds_store h

theorem inBounds_loadIP (h : i + 4 ≤ n) : InBounds n (loadIP i : Program σ UInt32) :=
  (inBounds_load h).bind fun _ => inBounds_pure _

theorem inBounds_storeIP (h : i + 4 ≤ n) : InBounds n (storeIP i ip : Program σ Unit) :=
  inBounds_store h

end accesses

/-! ### Addresses -/

/-- `OwnMACAddress`, `OwnIPAddress` and `RouterIPAddress` -/
structure Host where
  mac : List UInt8
  mac_length : mac.length = 6
  ip : UInt32
  routerIP : UInt32

/-- The addresses of `resources.c` -/
def ownHost : Host := ⟨Usb.macOwn, rfl, 0x28C8A8C0, 0x03C8A8C0⟩

/-- `NETMASK` in network order, for 24 bits -/
def netmaskBE : UInt32 := 0x00FFFFFF

/-- `BroadcastIPAddress` -/
def Host.broadcastIP (h : Host) : UInt32 := h.ip ||| ~~~netmaskBE

/-- `IP_compareNet` -/
def ipCompareNet (a b : UInt32) : Bool := a &&& netmaskBE == b &&& netmaskBE

/-- `IP_getHost`: the last byte of the address -/
def ipGetHost (ip : UInt32) : UInt8 := (ip >>> 24).toUInt8

/-- `ETHERTYPE_IPV4` -/
def ethertypeIPv4 : ℕ := 0x0800
/-- `ETHERTYPE_ARP` -/
def ethertypeARP : ℕ := 0x0806

/-! ### State -/

/-- `ARP_TableEntry` -/
structure ArpTableEntry where
  ip : UInt8
  mac : List UInt8

/-- The static variables of `ARP.c` and the state of the callbacks.  An entry behind the table is memory
of other variables, which are not modelled: a node that writes there is no longer described, and what
is said of runs is said of those that stay within the table (`WithinTable`). -/
structure Station (τ : Type) where
  arpTable : ℕ → ArpTableEntry
  writePosition : ℕ
  app : τ

/-- The table starts with zeros. -/
def Station.init {τ : Type} (app : τ) : Station τ := ⟨fun _ => ⟨0, [0, 0, 0, 0, 0, 0]⟩, 0, app⟩

/-- `ARRAY_SIZE(ARP_Table)` -/
def arpTableSize : ℕ := 10

/-- `UDP_Callback_Request` and `UDP_Callback_Reply`, with the offsets of the payload and of the source
address. -/
structure Callbacks (τ : Type) where
  request (packet : ℕ) (destinationPort : UInt16) (length : ℕ) : Program τ Bool
  reply (packet sourceIP : ℕ) (sourcePort : UInt16) (length : ℕ) : Program τ Unit

variable {σ τ : Type}

/-- A program of the callbacks. -/
def onApp {α : Type} (p : Program τ α) : Program (Station τ) α := fun n m s =>
  (p n m s.app).map fun r => (r.1, r.2.1, { s with app := r.2.2 })

theorem onApp_eq {α : Type} {n : ℕ} {p : Program τ α} {m m' : Mem} {s : Station τ} {a : α} {app : τ}
    (h : p n m s.app = some (a, m', app)) : onApp p n m s = some (a, m', { s with app := app }) := by
  unfold onApp
  rw [h]
  rfl

theorem inBounds_onApp {α : Type} {n : ℕ} {p : Program τ α} (h : InBounds n p) :
    InBounds n (onApp p) := by
  intro m s
  obtain ⟨a, m', s', he, hm⟩ := h m s.app
  exact ⟨a, m', { s with app := s' }, onApp_eq he, hm⟩

/-! ### `ARP.c` -/

/-- `ARP_OPERATION_REQUEST` -/
def arpRequest : ℕ := 1
/-- `ARP_OPERATION_REPLY` -/
def arpReply : ℕ := 2

/-- `ARP_WriteHeader`; the addresses are read when the writer comes to them.  The operation is an
`ARP_Operation_t`, an enumeration with values up to 2, and such an enumeration is one byte (the size of
`ruleData_t`, which `rules.c` asserts, leaves one byte for `LogicType_t`). -/
def arpWriteHeader (h : Host) (packet : ℕ) (operation : UInt8)
    (destinationMAC : Program σ (List UInt8)) (destinationIP : Program σ UInt32) : Program σ ℕ := do
  store16 packet (swap16 1)
  store16 (packet + 2) (swap16 ethertypeIPv4)
  store (packet + 4) [6]
  store (packet + 5) [4]
  store16 (packet + 6) operation.toNat
  let mac ← destinationMAC
  store (packet + 18) mac
  let ip ← destinationIP
  storeIP (packet + 24) ip
  store (packet + 8) h.mac
  storeIP (packet + 14) h.ip
  pure 28

/-- Take an answer over into `ARP_Table`. -/
def arpLearn (s : Station τ) (host : UInt8) (mac : List UInt8) : Station τ :=
  match (List.range arpTableSize).find? (fun i => (s.arpTable i).ip == host) with
  | some i => { s with arpTable := Function.update s.arpTable i ⟨(s.arpTable i).ip, mac⟩ }
  | none =>
      { s with
        arpTable := Function.update s.arpTable s.writePosition ⟨host, mac⟩
        writePosition := if s.writePosition < arpTableSize then s.writePosition + 1 else 0 }

/-- `ARP_ProcessPacket` -/
def arpProcessPacket (h : Host) (packet : ℕ) : Program (Station τ) Bool := do
  let targetIP ← loadIP (packet + 24)
  if targetIP ≠ h.ip then pure false
  else do
    let operation ← load16 (packet + 6)
    if operation = swap16 arpRequest then do
      let _ ← arpWriteHeader h packet (UInt8.ofNat arpReply) (load (packet + 8) 6)
        (loadIP (packet + 14))
      pure true
    else if operation = swap16 arpReply then do
      let senderIP ← loadIP (packet + 14)
      if ipCompareNet senderIP h.ip then do
        let senderMAC ← load (packet + 8) 6
        let s ← get
        set (arpLearn s (ipGetHost senderIP) senderMAC)
        pure false
      else pure false
    else pure false

/-- `ARP_searchMAC` -/
def arpSearchMAC (s : Station τ) (ip : UInt32) : Option (List UInt8) :=
  ((List.range arpTableSize).find? (fun i => (s.arpTable i).ip == ipGetHost ip)).map
    fun i => (s.arpTable i).mac

/-! ### `ICMP.c` -/

/-- `IP_ChecksumAdd`, with `__builtin_uadd_overflow` -/
def ipChecksumAdd (checksum word : ℕ) : ℕ :=
  if 65536 ≤ checksum + word then (checksum + word) % 65536 + 1 else checksum + word

/-- `ICMP_ProcessPacket` -/
def icmpProcessPacket (packet : ℕ) : Program σ Bool := do
  let type ← load8 packet
  let code ← load8 (packet + 1)
  if type ≠ 8 ∨ code ≠ 0 then pure false
  else do
    store packet [0]
    let checksum ← load16 (packet + 2)
    store16 (packet + 2) (ipChecksumAdd checksum (swap16 ((8 - 0) * 256)))
    pure true

/-! ### `UDP.c` -/

/-- `UDP_PORT_AUTOMAT` -/
def udpPortAutomat : ℕ := swap16 65432

/-- `UDP_WriteHeader`; the length of the payload is an `uint8_t`. -/
def udpWriteHeader (packet sourcePort destinationPort payloadLength : ℕ) : Program σ ℕ := do
  store16 packet sourcePort
  store16 (packet + 2) destinationPort
  store16 (packet + 4) (swap16 (8 + payloadLength % 256))
  store16 (packet + 6) 0
  pure 8

/-- `UDP_ProcessPacket` -/
def udpProcessPacket (cb : Callbacks τ) (packet sourceIP length : ℕ) :
    Program (Station τ) Bool := do
  let udpLength ← load16 (packet + 4)
  if length < swap16 udpLength then pure false
  else do
    let length ← sub length 8
    let sourcePort ← load16 packet
    let destinationPort ← load16 (packet + 2)
    if sourcePort = udpPortAutomat then do
      let answer ← onApp (cb.request (packet + 8) (UInt16.ofNat (swap16 destinationPort)) length)
      if answer then do
        let destinationPort ← load16 (packet + 2)
        let sourcePort ← load16 packet
        let _ ← udpWriteHeader packet destinationPort sourcePort length
        pure true
      else pure false
    else if destinationPort = udpPortAutomat then do
      onApp (cb.reply (packet + 8) sourceIP (UInt16.ofNat (swap16 sourcePort)) length)
      pure false
    else pure false

/-! ### `IP.c` -/

/-- The loop of `IP_Checksum` -/
def ipChecksumLoop (words : ℕ) : ℕ → ℕ → Program σ ℕ
  | 0, checksum => pure checksum
  | length16 + 1, checksum => do
      let word ← load16 words
      ipChecksumLoop (words + 2) length16 (ipChecksumAdd checksum word)

/-- `IP_Checksum` -/
def ipChecksum (data length : ℕ) : Program σ ℕ := do
  let checksum ← ipChecksumLoop data (length / 2) 0
  if length % 2 = 1 then do
    let word ← load16 (data + 2 * (length / 2))
    pure (65535 - ipChecksumAdd checksum (word &&& swap16 0xFF00))
  else pure (65535 - checksum)

/-- `IP_WriteHeader`; the destination is read before the source is written. -/
def ipWriteHeader (h : Host) (packet : ℕ) (protocol : UInt8) (destinationIP : Program σ UInt32)
    (payloadLength : ℕ) : Program σ ℕ := do
  store packet [0x45]
  store (packet + 1) [0]
  store16 (packet + 2) (swap16 (20 + payloadLength))
  store16 (packet + 4) 0
  store16 (packet + 6) (swap16 0x4000)
  store (packet + 8) [64]
  store (packet + 9) [protocol]
  let ip ← destinationIP
  storeIP (packet + 16) ip
  storeIP (packet + 12) h.ip
  store16 (packet + 10) 0
  let checksum ← ipChecksum packet 20
  store16 (packet + 10) checksum
  pure 20

/-- The switch of `IP_ProcessPacket` -/
def ipSwitch (cb : Callbacks τ) (packet : ℕ) (protocol : UInt8) (length : ℕ) :
    Program (Station τ) Bool :=
  if protocol = 1 then icmpProcessPacket (packet + 20)
  else if protocol = 17 then udpProcessPacket cb (packet + 20) (packet + 12) length
  else pure false

/-- `IP_ProcessPacket` -/
def ipProcessPacket (h : Host) (cb : Callbacks τ) (packet length : ℕ) :
    Program (Station τ) Bool := do
  let ipLength ← load16 (packet + 2)
  let versionIHL ← load8 packet
  let flagsFragment ← load16 (packet + 6)
  if versionIHL ≠ 0x45 ∨ flagsFragment &&& swap16 0x3FFF ≠ 0 ∨ length < swap16 ipLength then
    pure false
  else do
    let destinationIP ← loadIP (packet + 16)
    if destinationIP ≠ h.ip ∧ destinationIP ≠ h.broadcastIP then pure false
    else do
      let length ← sub (swap16 ipLength) 20
      let protocol ← load8 (packet + 9)
      let reflect ← ipSwitch cb packet protocol length
      if reflect then do
        let protocol ← load8 (packet + 9)
        let _ ← ipWriteHeader h packet protocol (loadIP (packet + 12)) length
        pure true
      else pure false

/-! ### `Ethernet.c` -/

/-- The switch of `Ethernet_ProcessPacket` -/
def ethernetSwitch (h : Host) (cb : Callbacks τ) (etherType length : ℕ) :
    Program (Station τ) Bool :=
  if etherType = swap16 ethertypeARP then arpProcessPacket h 14
  else if etherType = swap16 ethertypeIPv4 then do
    let length ← sub length 14
    ipProcessPacket h cb 14 length
  else pure false

/-- `Ethernet_ProcessPacket` -/
def ethernetProcessPacket (h : Host) (cb : Callbacks τ) (length : ℕ) :
    Program (Station τ) Bool := do
  let etherType ← load16 12
  let reflect ← ethernetSwitch h cb etherType length
  if reflect then do
    let source ← load 6 6
    store 0 source
    store 6 h.mac
    pure true
  else pure false

/-- `Ethernet_WriteHeader` -/
def ethernetWriteHeader (h : Host) (destinationMAC : List UInt8) (ethertype : ℕ) :
    Program σ ℕ := do
  store 0 destinationMAC
  store 6 h.mac
  store16 12 ethertype
  pure 14

/-- `Ethernet_GenerateBroadcast` -/
def ethernetGenerateBroadcast (h : Host) (ethertype : ℕ) : Program σ ℕ :=
  ethernetWriteHeader h Usb.macBroadcast ethertype

/-- `ARP_GenerateRequest`; of the operation in network order, 0x0100, an `ARP_Operation_t` keeps the
lower byte. -/
def arpGenerateRequest (h : Host) (destinationIP : UInt32) : Program σ ℕ := do
  let offset ← ethernetGenerateBroadcast h (swap16 ethertypeARP)
  let n ← arpWriteHeader h offset (UInt8.ofNat (swap16 arpRequest)) (pure Usb.macBroadcast)
    (pure destinationIP)
  pure (offset + n)

/-- `Ethernet_GenerateUnicast`: the length of the header, or minus the length of an ARP request. -/
def ethernetGenerateUnicast (h : Host) (destinationIP : UInt32) (ethertype : ℕ) :
    Program (Station τ) ℤ := do
  let s ← get
  match arpSearchMAC s destinationIP with
  | some mac => do
      let n ← ethernetWriteHeader h mac ethertype
      pure n
  | none => do
      let n ← arpGenerateRequest h destinationIP
      pure (-n)

/-! ### Generators of datagrams -/

/-- `IP_GenerateUnicast`; the length of the payload is an `uint8_t`. -/
def ipGenerateUnicast (h : Host) (protocol : UInt8) (destinationIP : UInt32) (payloadLength : ℕ) :
    Program (Station τ) ℤ := do
  let routerIP := if ipCompareNet h.ip destinationIP then destinationIP else h.routerIP
  let offset ← ethernetGenerateUnicast h routerIP (swap16 ethertypeIPv4)
  if offset ≤ 0 then pure offset
  else do
    let n ← ipWriteHeader h offset.toNat protocol (pure destinationIP) (payloadLength % 256)
    pure (offset + n)

/-- `IP_GenerateBroadcast` -/
def ipGenerateBroadcast (h : Host) (protocol : UInt8) (payloadLength : ℕ) : Program σ ℕ := do
  let offset ← ethernetGenerateBroadcast h (swap16 ethertypeIPv4)
  let n ← ipWriteHeader h offset protocol (pure h.broadcastIP) (payloadLength % 256)
  pure (offset + n)

/-- `UDP_GenerateUnicast` -/
def udpGenerateUnicast (h : Host) (destinationIP : UInt32) (destinationPort : UInt16)
    (payloadLength : ℕ) : Program (Station τ) ℤ := do
  let offset ← ipGenerateUnicast h 17 destinationIP (8 + payloadLength)
  if offset ≤ 0 then pure offset
  else do
    let n ← udpWriteHeader offset.toNat udpPortAutomat (swap16 destinationPort.toNat) payloadLength
    pure (offset + n)

/-- `UDP_GenerateBroadcast` -/
def udpGenerateBroadcast (h : Host) (sourcePort : UInt16) (payloadLength : ℕ) : Program σ ℕ := do
  let offset ← ipGenerateBroadcast h 17 (8 + payloadLength)
  let n ← udpWriteHeader offset (swap16 sourcePort.toNat) udpPortAutomat payloadLength
  pure (offset + n)

end TimeSwitch.Net
