import TimeSwitch.FrameBounds
import TimeSwitch.Library.OnesComplement

/-! # Datagrams on the wire

The format of a frame with a UDP datagram (`Parcel.frame`): three headers and a payload.  What the
writers of the headers write (`ethernetWriteHeader_eq`, `ipWriteHeader_eq`, `udpWriteHeader_eq`) and
what the readers find in the memory (`Parcel.In`). -/

namespace TimeSwitch.Net

open Program ByteMemory

/-! ### Headers -/

/-- The bytes of a 16 bit number, the high one first. -/
def be16Bytes (v : ℕ) : List UInt8 := [UInt8.ofNat (v / 256), UInt8.ofNat v]

def ethernetHeader (destination source : List UInt8) (etherType : ℕ) : List UInt8 :=
  destination ++ (source ++ be16Bytes etherType)

/-- An IPv4 header up to the checksum. -/
def ipStart (protocol : UInt8) (len : ℕ) : List UInt8 :=
  [0x45, 0] ++ be16Bytes (20 + len) ++ [0, 0, 0x40, 0, 64, protocol]

def ipAddresses (source destination : UInt32) : List UInt8 := bytes32 source ++ bytes32 destination

/-- The words of a block of memory. -/
def wordsOf : List UInt8 → List ℕ
  | a :: b :: bs => (a.toNat + 256 * b.toNat) :: wordsOf bs
  | _ => []

/-- The checksum of a block of even length. -/
def checksumOf (bs : List UInt8) : ℕ := 65535 - OnesComplement.sum (wordsOf bs)

/-- The IPv4 header for `len` bytes, with its checksum. -/
def ipHeader (source destination : UInt32) (protocol : UInt8) (len : ℕ) : List UInt8 :=
  ipStart protocol len ++ (bytes16 (checksumOf (ipStart protocol len ++ (bytes16 0 ++
    ipAddresses source destination))) ++ ipAddresses source destination)

/-- The UDP header for `len` bytes, without a checksum. -/
def udpHeader (sourcePort destinationPort : UInt16) (len : ℕ) : List UInt8 :=
  be16Bytes sourcePort.toNat ++ be16Bytes destinationPort.toNat ++ be16Bytes (8 + len) ++ [0, 0]

section headers

variable {v len : ℕ} {source destination : UInt32} {protocol : UInt8} {bs : List UInt8}

theorem bytes16_swap16 (v : ℕ) : bytes16 (swap16 v) = be16Bytes v := by
  have hlow : UInt8.ofNat (swap16 v) = UInt8.ofNat (v / 256) := by
    apply UInt8.toNat_inj.mp
    rw [UInt8.toNat_ofNat', UInt8.toNat_ofNat']
    exact swap16_low v
  have hhigh : UInt8.ofNat (swap16 v / 256) = UInt8.ofNat v := by
    apply UInt8.toNat_inj.mp
    rw [UInt8.toNat_ofNat', UInt8.toNat_ofNat']
    exact swap16_high v
  unfold bytes16 be16Bytes
  rw [hlow, hhigh]

theorem le16_bytes16 (h : v < 65536) : le16 (bytes16 v) = v := by
  have hhigh : v / 256 < 256 := Nat.div_lt_of_lt_mul h
  unfold le16 bytes16
  simp only [List.getD_cons_zero, List.getD_cons_succ, UInt8.toNat_ofNat']
  omega

theorem bytes16_le16 (h : bs.length = 2) : bytes16 (le16 bs) = bs := by
  obtain ⟨a, b, rfl⟩ := List.length_eq_two.mp h
  have ha := a.toNat_lt
  have hlow : UInt8.ofNat (le16 [a, b]) = a := by
    apply UInt8.toNat_inj.mp
    rw [UInt8.toNat_ofNat']
    show (a.toNat + 256 * b.toNat) % 256 = a.toNat
    omega
  have hhigh : le16 [a, b] / 256 = b.toNat := by
    show (a.toNat + 256 * b.toNat) / 256 = b.toNat
    omega
  unfold bytes16
  rw [hlow, hhigh, UInt8.ofNat_toNat]

theorem le16_be16Bytes (v : ℕ) : le16 (be16Bytes v) = swap16 v := by
  have hlt : swap16 v < 65536 := by
    unfold swap16
    omega
  rw [← bytes16_swap16, le16_bytes16 hlt]

@[simp] theorem be16Bytes_length : (be16Bytes v).length = 2 := rfl

theorem ethernetHeader_length {destination source : List UInt8} {etherType : ℕ}
    (hd : destination.length = 6) (hs : source.length = 6) :
    (ethernetHeader destination source etherType).length = 14 := by
  unfold ethernetHeader
  rw [List.length_append, List.length_append, hd, hs, be16Bytes_length]

@[simp] theorem ipStart_length : (ipStart protocol len).length = 10 := rfl

@[simp] theorem ipAddresses_length : (ipAddresses source destination).length = 8 := rfl

@[simp] theorem udpHeader_length {sp dp : UInt16} : (udpHeader sp dp len).length = 8 := rfl

@[simp] theorem ipHeader_length : (ipHeader source destination protocol len).length = 20 := rfl

end headers

/-! ### The checksum -/

section checksum

variable {σ : Type} {n i k c w : ℕ} {m : Mem} {s : σ} {bs : List UInt8}

theorem ipChecksumAdd_eq (hc : c < 65536) (hw : w < 65536) :
    ipChecksumAdd c w = OnesComplement.add c w := by
  unfold ipChecksumAdd OnesComplement.add
  split_ifs <;> omega

theorem wordsOf_lt (bs : List UInt8) : ∀ w ∈ wordsOf bs, w < 65536 := by
  induction bs using wordsOf.induct with
  | case1 a b bs ih =>
      have ha := a.toNat_lt
      have hb := b.toNat_lt
      rw [wordsOf, List.forall_mem_cons]
      exact ⟨by omega, ih⟩
  | case2 bs h =>
      intro w hw
      rw [wordsOf] at hw
      · cases hw
      · exact h

theorem add_lt (hc : c < 65536) (hw : w < 65536) : OnesComplement.add c w < 65536 := by
  unfold OnesComplement.add
  split_ifs <;> omega

/-- The loop adds the words. -/
theorem ipChecksumLoop_eq (hc : c < 65536) (hn : i + 2 * k ≤ n) :
    (ipChecksumLoop i k c : Program σ ℕ) n m s =
      some ((wordsOf (m.read i (2 * k))).foldl OnesComplement.add c, m, s) := by
  induction k generalizing i c with
  | zero => rfl
  | succ k ih =>
      have hread : m.read i (2 * (k + 1)) = m i :: m (i + 1) :: m.read (i + 2) (2 * k) := by
        rw [Nat.mul_succ, Nat.add_comm, Mem.read_append]
        rfl
      have hw : le16 (m.read i 2) < 65536 := le16_lt _
      rw [ipChecksumLoop, load16_bind (by omega), ipChecksumAdd_eq hc hw,
        ih (add_lt hc hw) (by omega), hread]
      rfl

theorem ipChecksum_eq (hn : i + 2 * k ≤ n) : (ipChecksum i (2 * k) : Program σ ℕ) n m s =
    some (checksumOf (m.read i (2 * k)), m, s) := by
  have hodd : ¬ 2 * k % 2 = 1 := by omega
  have hhalf : 2 * k / 2 = k := by omega
  unfold ipChecksum
  rw [hhalf, bind_eq (ipChecksumLoop_eq (by decide) hn), if_neg hodd]
  rfl

theorem wordsOf_append {cs : List UInt8} (h : bs.length % 2 = 0) :
    wordsOf (bs ++ cs) = wordsOf bs ++ wordsOf cs := by
  induction bs using wordsOf.induct with
  | case1 a b bs ih =>
      rw [List.cons_append, List.cons_append, wordsOf, wordsOf, ih, List.cons_append]
      rw [List.length_cons, List.length_cons] at h
      omega
  | case2 bs hbs =>
      match bs, hbs, h with
      | [], _, _ => rfl
      | [a], _, h => simp at h
      | a :: b :: bs, hbs, _ => exact absurd rfl (hbs a b bs)

theorem wordsOf_bytes16 (h : c < 65536) (bs : List UInt8) :
    wordsOf (bytes16 c ++ bs) = c :: wordsOf bs := by
  conv_rhs => rw [← le16_bytes16 h]
  rfl

/-- A header with its checksum sums up to the word of ones. -/
theorem sum_ipHeader (source destination : UInt32) (protocol : UInt8) (len : ℕ) :
    OnesComplement.sum (wordsOf (ipHeader source destination protocol len)) = 65535 := by
  obtain ⟨S, hS⟩ : ∃ S, (wordsOf (ipStart protocol len ++ (bytes16 0 ++
    ipAddresses source destination))).sum = S := ⟨_, rfl⟩
  have hc : checksumOf (ipStart protocol len ++ (bytes16 0 ++ ipAddresses source destination)) =
      65535 - OnesComplement.fold S := by
    unfold checksumOf
    rw [OnesComplement.sum_eq (wordsOf_lt _), hS]
  have hsum : (wordsOf (ipHeader source destination protocol len)).sum =
      S + (65535 - OnesComplement.fold S) := by
    have hlt : 65535 - OnesComplement.fold S < 65536 := by omega
    have hstart : (ipStart protocol len).length % 2 = 0 := by
      rw [ipStart_length]
    rw [wordsOf_append hstart, wordsOf_bytes16 (by decide)] at hS
    unfold ipHeader
    rw [hc, wordsOf_append hstart, wordsOf_bytes16 hlt]
    simp only [List.sum_append, List.sum_cons] at hS ⊢
    omega
  rw [OnesComplement.sum_eq (wordsOf_lt _), hsum, OnesComplement.fold_add_complement]

end checksum

/-! ### Writers -/

section writers

variable {σ : Type} {h : Host} {n o len sp dp : ℕ} {m : Mem} {s : σ} {protocol : UInt8}
  {mac : List UInt8} {etherType : ℕ}

theorem udpWriteHeader_eq (hn : o + 8 ≤ n) (hlen : len < 256) :
    (udpWriteHeader o sp dp len : Program σ ℕ) n m s =
      some (8, m.blit o (bytes16 sp ++ bytes16 dp ++ be16Bytes (8 + len) ++ [0, 0]), s) := by
  unfold udpWriteHeader
  rw [store16_bind (by omega), store16_bind (by omega), store16_bind (by omega),
    store16_bind (by omega), pure_eq, Mem.blit_append (by simp), Mem.blit_append (by simp),
    Mem.blit_append (by simp), Nat.mod_eq_of_lt hlen, bytes16_swap16]
  rfl

theorem ethernetWriteHeader_eq (hn : 14 ≤ n) (hmac : mac.length = 6) :
    (ethernetWriteHeader h mac (swap16 etherType) : Program σ ℕ) n m s =
      some (14, m.blit 0 (ethernetHeader mac h.mac etherType), s) := by
  have hown := h.mac_length
  unfold ethernetWriteHeader ethernetHeader
  rw [store_bind (by omega), store_bind (by omega), store16_bind (by omega), pure_eq,
    Mem.blit_append (by omega), Mem.blit_append (by simp; omega), bytes16_swap16]

/-- The destination is read when the first 10 bytes are written. -/
theorem ipWriteHeader_eq {destinationIP : Program σ UInt32} {destination : UInt32}
    (hn : o + 20 ≤ n) (hdest : ∀ bs : List UInt8, bs.length = 10 →
      destinationIP n (m.blit o bs) s = some (destination, m.blit o bs, s)) :
    (ipWriteHeader h o protocol destinationIP len : Program σ ℕ) n m s =
      some (20, m.blit o (ipHeader h.ip destination protocol len), s) := by
  have hstart : [0x45] ++ ([0] ++ (bytes16 (swap16 (20 + len)) ++ (bytes16 0 ++
      (bytes16 (swap16 0x4000) ++ ([64] ++ [protocol]))))) = ipStart protocol len := by
    rw [bytes16_swap16]
    rfl
  unfold ipWriteHeader
  rw [store_bind (by simp; omega), store_bind (by simp; omega), store16_bind (by omega),
    store16_bind (by omega), store16_bind (by omega), store_bind (by simp; omega),
    store_bind (by simp; omega), Mem.blit_append (by simp), Mem.blit_append (by simp),
    Mem.blit_append (by simp), Mem.blit_append (by simp), Mem.blit_append (by simp),
    Mem.blit_append (by simp), hstart, bind_eq (hdest _ ipStart_length), storeIP_bind (by omega),
    storeIP_bind (by omega), store16_bind (by omega), Mem.blit_prepend (by simp)]
  rw [Mem.blit_prepend (by simp), Mem.blit_append (by simp)]
  have hblock : (ipStart protocol len ++ (bytes16 0 ++ ipAddresses h.ip destination)).length =
      2 * 10 := by
    simp
  have hread := Mem.read_blit_same m o (ipStart protocol len ++ (bytes16 0 ++
    ipAddresses h.ip destination))
  have hsum := ipChecksum_eq (σ := σ) (i := o) (k := 10) (n := n) (s := s)
    (m := m.blit o (ipStart protocol len ++ (bytes16 0 ++ ipAddresses h.ip destination))) (by omega)
  rw [← hblock, hread, hblock] at hsum
  show (ipChecksum o (2 * 10) >>= _ : Program σ ℕ) n (m.blit o (ipStart protocol len ++ (bytes16 0 ++
    ipAddresses h.ip destination))) s = _
  rw [bind_eq hsum, store16_bind (by omega), pure_eq, Mem.blit_again (by simp) (by simp)]
  rfl

/-- The header goes back to the sender, whose address is read from the old one. -/
theorem ipWriteHeader_back (hn : o + 20 ≤ n) :
    (ipWriteHeader h o protocol (loadIP (o + 12)) len : Program σ ℕ) n m s =
      some (20, m.blit o (ipHeader h.ip (le32 (m.read (o + 12) 4) 0) protocol len), s) := by
  apply ipWriteHeader_eq hn
  intro bs hbs
  unfold loadIP
  rw [load_bind (by omega), pure_eq, Mem.read_blit_disjoint (Or.inr (by omega))]

end writers

/-! ### Frames -/

/-- What a frame with a datagram carries. -/
structure Parcel where
  destination : List UInt8
  source : List UInt8
  destination_length : destination.length = 6
  source_length : source.length = 6
  sourceIP : UInt32
  destinationIP : UInt32
  sourcePort : UInt16
  destinationPort : UInt16
  payload : List UInt8

/-- The length of the frame. -/
def Parcel.length (p : Parcel) : ℕ := 42 + p.payload.length

/-- The bytes of the frame. -/
def Parcel.frame (p : Parcel) : List UInt8 :=
  ethernetHeader p.destination p.source ethertypeIPv4 ++
    (ipHeader p.sourceIP p.destinationIP 17 (8 + p.payload.length) ++
      (udpHeader p.sourcePort p.destinationPort p.payload.length ++ p.payload))

/-- The frame lies in the memory. -/
structure Parcel.In (p : Parcel) (m : Mem) : Prop where
  ethernet : m.read 0 14 = ethernetHeader p.destination p.source ethertypeIPv4
  ip : m.read 14 20 = ipHeader p.sourceIP p.destinationIP 17 (8 + p.payload.length)
  udp : m.read 34 8 = udpHeader p.sourcePort p.destinationPort p.payload.length
  payload : m.read 42 p.payload.length = p.payload

section parcels

variable {p : Parcel} {m m' : Mem}

theorem Parcel.header_length (p : Parcel) :
    (ethernetHeader p.destination p.source ethertypeIPv4).length = 14 :=
  ethernetHeader_length p.destination_length p.source_length

theorem Parcel.in_iff : p.In m ↔ m.read 0 p.length = p.frame := by
  have hlen : p.length = (ethernetHeader p.destination p.source ethertypeIPv4).length +
      ((ipHeader p.sourceIP p.destinationIP 17 (8 + p.payload.length)).length +
        ((udpHeader p.sourcePort p.destinationPort p.payload.length).length +
          p.payload.length)) := by
    rw [p.header_length, ipHeader_length, udpHeader_length]
    unfold Parcel.length
    omega
  unfold Parcel.frame
  rw [hlen, Mem.read_eq_append, Mem.read_eq_append, Mem.read_eq_append, p.header_length,
    ipHeader_length, udpHeader_length]
  constructor
  · intro hp
    exact ⟨hp.ethernet, hp.ip, hp.udp, hp.payload⟩
  · intro ⟨hethernet, hip, hudp, hpayload⟩
    exact ⟨hethernet, hip, hudp, hpayload⟩

theorem Parcel.In.congr (hp : p.In m) (h : m'.read 0 p.length = m.read 0 p.length) : p.In m' :=
  Parcel.in_iff.mpr (h.trans (Parcel.in_iff.mp hp))

theorem Parcel.frame_length : p.frame.length = p.length := by
  unfold Parcel.frame Parcel.length
  rw [List.length_append, List.length_append, List.length_append, p.header_length,
    ipHeader_length, udpHeader_length]
  omega

theorem Parcel.in_blit : p.In (m.blit 0 p.frame) := by
  rw [Parcel.in_iff, ← Parcel.frame_length]
  exact Mem.read_blit_same m 0 p.frame

namespace Parcel.In

variable (hp : p.In m)

include hp

theorem destination_read : m.read 0 6 = p.destination := by
  have hpart := Mem.read_part hp.ethernet (i := 0) (k := 6) (by decide)
  rw [hpart, List.drop_zero]
  unfold ethernetHeader
  rw [List.take_append_of_le_length p.destination_length.ge, List.take_of_length_le
    p.destination_length.le]

theorem source_read : m.read 6 6 = p.source := by
  have hpart := Mem.read_part hp.ethernet (i := 6) (k := 6) (by decide)
  rw [hpart]
  unfold ethernetHeader
  rw [List.drop_append_of_le_length p.destination_length.ge, List.drop_of_length_le
    p.destination_length.le, List.nil_append, List.take_append_of_le_length p.source_length.ge,
    List.take_of_length_le p.source_length.le]

theorem etherType_read : m.read 12 2 = be16Bytes ethertypeIPv4 := by
  have hpart := Mem.read_part hp.ethernet (i := 12) (k := 2) (by decide)
  have hlen : (p.destination ++ p.source).length = 12 := by
    rw [List.length_append, p.destination_length, p.source_length]
  rw [hpart]
  unfold ethernetHeader
  rw [← List.append_assoc, List.drop_append_of_le_length hlen.ge, List.drop_of_length_le hlen.le,
    List.nil_append]
  rfl

theorem versionIHL_read : m 14 = 0x45 := by
  have hpart := Mem.read_part hp.ip (i := 0) (k := 1) (by decide)
  exact (List.cons.inj hpart).1

theorem ipLength_read : m.read 16 2 = be16Bytes (28 + p.payload.length) := by
  have hpart := Mem.read_part hp.ip (i := 2) (k := 2) (by decide)
  rw [show 28 + p.payload.length = 20 + (8 + p.payload.length) by omega]
  exact hpart

theorem flagsFragment_read : m.read 20 2 = be16Bytes 0x4000 :=
  Mem.read_part hp.ip (i := 6) (k := 2) (by decide)

theorem protocol_read : m 23 = 17 := by
  have hpart := Mem.read_part hp.ip (i := 9) (k := 1) (by decide)
  exact (List.cons.inj hpart).1

theorem sourceIP_read : m.read 26 4 = bytes32 p.sourceIP :=
  Mem.read_part hp.ip (i := 12) (k := 4) (by decide)

theorem destinationIP_read : m.read 30 4 = bytes32 p.destinationIP :=
  Mem.read_part hp.ip (i := 16) (k := 4) (by decide)

theorem sourcePort_read : m.read 34 2 = be16Bytes p.sourcePort.toNat :=
  Mem.read_part hp.udp (i := 0) (k := 2) (by decide)

theorem destinationPort_read : m.read 36 2 = be16Bytes p.destinationPort.toNat :=
  Mem.read_part hp.udp (i := 2) (k := 2) (by decide)

theorem udpLength_read : m.read 38 2 = be16Bytes (8 + p.payload.length) :=
  Mem.read_part hp.udp (i := 4) (k := 2) (by decide)

end Parcel.In

end parcels

end TimeSwitch.Net
