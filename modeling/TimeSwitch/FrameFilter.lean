import TimeSwitch.PacketCheck

/-! # The grammar of the frame filter

The frames that `USB_Read24Byte_Check_GetLength` lets through, as a condition on their first 24
bytes.  The filter is compiled with the address of its node; `filterOf own` is the filter of the
node with the address `own`. -/

namespace TimeSwitch.Usb

open ByteReader

/-- The destination test of the node `own`. -/
def checkDestinationOf (own : List UInt8) : ByteReader Unit := do
  let data ← readByte
  if data = own.headD 0 then expectAll own.tail
  else if data = macBroadcast.headD 0 then expectAll macBroadcast.tail
  else reject

/-- `USB_Read24Byte_Check_GetLength` of the node `own` -/
def filterOf (own : List UInt8) : ByteReader ℕ := do
  checkDestinationOf own
  skip 6
  expect (byteIs 0x08)
  let data ← readByte
  if data = 0x00 then checkIPv4
  else if data = 0x06 then checkARP
  else reject

theorem filterOf_macOwn : filterOf macOwn = usbRead24ByteCheckGetLength := rfl

/-- The 16 bit field at `i`, the high byte first. -/
def be16 (bytes : List UInt8) (i : ℕ) : ℕ :=
  (bytes.getD i 0).toNat * 256 + (bytes.getD (i + 1) 0).toNat

/-- An ARP packet for Ethernet and IPv4. -/
@[mk_iff]
structure ArpFrame (bytes : List UInt8) : Prop where
  etherType : be16 bytes 12 = 0x0806
  hardwareType : be16 bytes 14 = 1
  protocolType : be16 bytes 16 = 0x0800
  hardwareLen : bytes.getD 18 0 = 6
  protocolLen : bytes.getD 19 0 = 4

/-- An IPv4 packet without options, not a fragment, with ICMP or UDP inside. -/
@[mk_iff]
structure IPv4Frame (bytes : List UInt8) : Prop where
  etherType : be16 bytes 12 = 0x0800
  versionIHL : bytes.getD 14 0 = 0x45
  flagsFragment : ∀ k, k ≠ 14 → (be16 bytes 20).testBit k = false
  protocol : bytes.getD 23 0 = 1 ∨ bytes.getD 23 0 = 17
  lenMin : packetLenMin ≤ be16 bytes 16 + 14
  lenMax : be16 bytes 16 + 14 ≤ packetLenMax

/-- The grammar: the frame starts with an address of `own`, and announces the length `len`. -/
def Supported (own bytes : List UInt8) (len : ℕ) : Prop :=
  (bytes.take 6 = own ∨ bytes.take 6 = macBroadcast) ∧
    (ArpFrame bytes ∧ len = 42 ∨ IPv4Frame bytes ∧ len = be16 bytes 16 + 14)

/-- The grammar looks at 24 bytes. -/
theorem supported_take (own bytes : List UInt8) (len : ℕ) :
    Supported own (bytes.take 24) len ↔ Supported own bytes len := by
  have hget : ∀ i < 24, (bytes.take 24).getD i 0 = bytes.getD i 0 := by
    intro i hi
    rw [List.getD_eq_getElem?_getD, List.getElem?_take_of_lt hi, ← List.getD_eq_getElem?_getD]
  have hbe : ∀ i < 23, be16 (bytes.take 24) i = be16 bytes i := by
    intro i hi
    unfold be16
    rw [hget i (by omega), hget (i + 1) (by omega)]
  simp (disch := omega) only [Supported, arpFrame_iff, iPv4Frame_iff, hget, hbe, List.take_take,
    Nat.min_eq_left]

theorem be16_lt (bytes : List UInt8) (i : ℕ) : be16 bytes i < 65536 := by
  have hhigh := (bytes.getD i 0).toNat_lt
  have hlow := (bytes.getD (i + 1) 0).toNat_lt
  unfold be16
  omega

/-- A field has one encoding. -/
theorem be16_eq (high low : UInt8) (h l : UInt8) :
    high.toNat * 256 + low.toNat = h.toNat * 256 + l.toNat ↔ high = h ∧ low = l := by
  have hlow := low.toNat_lt
  have hl := l.toNat_lt
  rw [← UInt8.toNat_inj, ← UInt8.toNat_inj]
  omega

theorem mask_nat : ∀ n < 256, n &&& 191 = 0 ↔ n = 0 ∨ n = 64 := by decide +kernel

/-- A number with at most one bit. -/
theorem eq_of_testBit {v k : ℕ} (h : ∀ i, i ≠ k → v.testBit i = false) : v = 0 ∨ v = 2 ^ k := by
  cases hbit : v.testBit k with
  | false =>
      left
      apply Nat.eq_of_testBit_eq
      intro i
      rw [Nat.zero_testBit]
      by_cases hi : i = k
      · rw [hi, hbit]
      · exact h i hi
  | true =>
      right
      apply Nat.eq_of_testBit_eq
      intro i
      rw [Nat.testBit_two_pow]
      by_cases hi : i = k
      · rw [hi, hbit, decide_eq_true rfl]
      · rw [h i hi]
        exact (decide_eq_false (Ne.symm hi)).symm

/-- The two mask tests together: all bits but number 14 are 0. -/
theorem mask_iff (high low : UInt8) :
    (high &&& ~~~0x40 = 0 ∧ low &&& ~~~0x00 = 0) ↔
      ∀ k, k ≠ 14 → (high.toNat * 256 + low.toNat).testBit k = false := by
  have hhigh : high &&& ~~~0x40 = 0 ↔ high.toNat = 0 ∨ high.toNat = 64 := by
    rw [← UInt8.toNat_inj, UInt8.toNat_and]
    exact mask_nat _ high.toNat_lt
  have hlow : low &&& ~~~0x00 = 0 ↔ low.toNat = 0 := by
    rw [show (~~~0x00 : UInt8) = -1 from rfl, UInt8.and_neg_one, ← UInt8.toNat_inj]
    rfl
  rw [hhigh, hlow]
  constructor
  · rintro ⟨h | h, hl⟩ k hk
    · rw [h, hl]
      exact Nat.zero_testBit k
    · rw [h, hl]
      show (2 ^ 14).testBit k = false
      rw [Nat.testBit_two_pow]
      exact decide_eq_false (Ne.symm hk)
  · intro h
    have hcases := eq_of_testBit h
    have hl := low.toNat_lt
    omega

/-! ### The parts of the filter -/

theorem accepts_expectAll (bs : List UInt8) :
    Accepts bs.length (expectAll bs) fun u _ => u = bs := by
  induction bs with
  | nil => exact (accepts_pure ()).congr fun u _ hu => by simp [List.length_eq_zero_iff.mp hu]
  | cons b bs ih =>
      refine (ih.expect (byteIs b)).congr fun u _ hu => ?_
      obtain ⟨c, u, rfl⟩ := List.exists_cons_of_length_eq_add_one hu
      simp [byteIs]

theorem reads_checkDestinationOf {own : List UInt8} (hlen : own.length = 6) :
    Reads 6 (checkDestinationOf own) := by
  have hown : own.tail.length = 5 := by
    rw [List.length_tail, hlen]
  have htail : Reads 5 (expectAll own.tail) := hown ▸ reads_expectAll own.tail
  exact reads_readByte.bind fun _ => htail.ite ((reads_expectAll macBroadcast.tail).ite
    (reads_reject 5))

/-- A node whose address begins like the broadcast address hears no broadcasts. -/
theorem accepts_checkDestination {own : List UInt8} (hlen : own.length = 6) :
    Accepts 6 (checkDestinationOf own) fun u _ =>
      u = own ∨ own.headD 0 ≠ 0xFF ∧ u = macBroadcast := by
  obtain ⟨o, os, rfl⟩ := List.exists_cons_of_length_eq_add_one hlen
  have hos : os.length = 5 := by simpa using hlen
  have htail : Accepts 5 (expectAll os) fun u _ => u = os := hos ▸ accepts_expectAll os
  refine (Accepts.readByte fun b => htail.ite
    ((accepts_expectAll macBroadcast.tail).ite (accepts_reject 5))).congr fun u _ hu => ?_
  obtain ⟨b, u, rfl⟩ := List.exists_cons_of_length_eq_add_one hu
  simp only [List.headD_cons, List.tail_cons, List.cons.injEq, macBroadcast]
  by_cases h : b = o
  · subst h
    by_cases hb : b = 0xFF <;> simp [hb]
  · by_cases hb : b = 0xFF
    · subst hb
      have ho : o ≠ 0xFF := Ne.symm h
      simp [h, ho]
    · simp [h, hb]

theorem headD_getD (u : List UInt8) : u.headD 0 = u.getD 0 0 := by
  cases u <;> rfl

theorem getD_drop (u : List UInt8) (i j : ℕ) : (u.drop i).getD j 0 = u.getD (i + j) 0 := by
  simp [List.getD_eq_getElem?_getD]

/-- The 16 bit sum wraps only for values that are too large, and is then too small. -/
theorem length_iff {T n : ℕ} {Q : Prop} (hT : T < 65536) :
    (if (T + 14) % 65536 < packetLenMin ∨ packetLenMax < (T + 14) % 65536 then False
      else Q ∧ n = (T + 14) % 65536) ↔
      Q ∧ (packetLenMin ≤ T + 14 ∧ T + 14 ≤ packetLenMax) ∧ n = T + 14 := by
  unfold packetLenMin packetLenMax
  split_ifs with hc
  · refine ⟨False.elim, fun ⟨_, hl, _⟩ => ?_⟩
    omega
  · have hmod : (T + 14) % 65536 = T + 14 := by omega
    have hl : 14 + 28 ≤ T + 14 ∧ T + 14 ≤ 14 + 576 := by omega
    rw [hmod]
    exact and_congr_right fun _ => (and_iff_right hl).symm

theorem accepts_checkIPv4 : Accepts 10 checkIPv4 fun u len =>
    u.getD 0 0 = 0x45 ∧ (∀ k, k ≠ 14 → (be16 u 6).testBit k = false) ∧
      (u.getD 9 0 = 1 ∨ u.getD 9 0 = 17) ∧ (packetLenMin ≤ be16 u 2 + 14 ∧
      be16 u 2 + 14 ≤ packetLenMax) ∧ len = be16 u 2 + 14 := by
  have hrest := fun len : ℕ =>
    ((((((accepts_pure len).expect fun data => data = 1 ∨ data = 17).skip 1).expect
      fun data => data &&& ~~~0x00 = 0).expect fun data => data &&& ~~~0x40 = 0).skip 2)
  have hlen := Accepts.readByte fun high : UInt8 => Accepts.readByte fun low : UInt8 =>
    Accepts.ite (c := (high.toNat * 256 + low.toNat + 14) % 65536 < packetLenMin ∨
      packetLenMax < (high.toNat * 256 + low.toNat + 14) % 65536) (accepts_reject 6)
      (hrest ((high.toNat * 256 + low.toNat + 14) % 65536))
  refine ((hlen.skip 1).expect (byteIs 0x45)).congr fun u len _ => ?_
  have hmask := mask_iff (u.getD 6 0) (u.getD 7 0)
  have hT := be16_lt u 2
  simp only [be16, Nat.reduceAdd] at hT ⊢
  simp only [← hmask, ← List.drop_one, List.drop_drop, headD_getD, getD_drop, byteIs,
    decide_eq_true_eq, beq_iff_eq, Nat.reduceAdd]
  have hlength := length_iff (Q := (u.getD 6 0 &&& ~~~0x40 = 0 ∧ u.getD 7 0 &&& ~~~0x00 = 0) ∧
    (u.getD 9 0 = 1 ∨ u.getD 9 0 = 17)) (n := len) hT
  simp only [and_assoc] at hlength ⊢
  rw [hlength]

theorem accepts_checkARP : Accepts 10 checkARP fun u len =>
    be16 u 0 = 1 ∧ be16 u 2 = 0x0800 ∧ u.getD 4 0 = 6 ∧ u.getD 5 0 = 4 ∧ len = 42 := by
  have hrest := ((accepts_pure (28 + 14)).skip 2).skip 2
  refine ((((((hrest.expect (byteIs 4)).expect (byteIs 6)).expect (byteIs 0x00)).expect
    (byteIs 0x08)).expect (byteIs 0x01)).expect (byteIs 0x00)).congr fun u len _ => ?_
  have htype := be16_eq (u.getD 0 0) (u.getD 1 0) 0 1
  have hproto := be16_eq (u.getD 2 0) (u.getD 3 0) 8 0
  simp only [UInt8.reduceToNat, Nat.reduceMul, Nat.reduceAdd] at htype hproto
  simp only [be16, htype, hproto, ← List.drop_one, List.drop_drop, headD_getD, getD_drop, byteIs,
    beq_iff_eq, Nat.reduceAdd, and_assoc]

/-- The filter of `own` lets through what the grammar has, and returns its length. -/
theorem accepts_filterOf {own : List UInt8} (hlen : own.length = 6) :
    Accepts 24 (filterOf own) fun u len =>
      (u.take 6 = own ∨ own.headD 0 ≠ 0xFF ∧ u.take 6 = macBroadcast) ∧
        (ArpFrame u ∧ len = 42 ∨ IPv4Frame u ∧ len = be16 u 16 + 14) := by
  have htype := Accepts.readByte fun data : UInt8 => accepts_checkIPv4.ite (c := data = 0x00)
    (accepts_checkARP.ite (c := data = 0x06) (accepts_reject 10))
  refine (Accepts.andThen (reads_checkDestinationOf hlen) (accepts_checkDestination hlen)
    ((htype.expect (byteIs 0x08)).skip 6)).congr fun u len _ => ?_
  refine and_congr_right fun _ => ?_
  have hipv4 := be16_eq (u.getD 12 0) (u.getD 13 0) 8 0
  have harp := be16_eq (u.getD 12 0) (u.getD 13 0) 8 6
  simp only [UInt8.reduceToNat, Nat.reduceMul, Nat.reduceAdd] at hipv4 harp
  simp only [be16, ← List.drop_one, List.drop_drop, headD_getD, getD_drop, byteIs, beq_iff_eq,
    Nat.reduceAdd, arpFrame_iff, iPv4Frame_iff, hipv4, harp]
  have hne : ¬ (0 : UInt8) = 6 := by decide
  cases eq_or_ne (u.getD 13 0) 0 with
  | inl h => simp only [h, hne, if_true, and_false, false_and, false_or, and_true, and_assoc]
  | inr h =>
      simp only [h, if_false, and_false, false_and, or_false]
      split_ifs with h'
      · simp only [h', and_true, and_assoc]
      · simp only [h', and_false, false_and]

/-- **The frame filter accepts exactly its grammar.**  It returns a length exactly for the frames of
the grammar, has then taken and stored the first 24 bytes, and otherwise a prefix of them. -/
theorem filter_accepts_grammar (bytes : List UInt8) (hlen : 24 ≤ bytes.length) :
    (∀ len, len ≠ 0 → (announcedLength bytes = len ↔ Supported macOwn bytes len)) ∧
      (announcedLength bytes ≠ 0 →
        (usbRead24ByteCheckGetLength ⟨bytes, []⟩).2 = ⟨bytes.drop 24, bytes.take 24⟩) ∧
      (announcedLength bytes = 0 → ∃ k ≤ 24,
        (usbRead24ByteCheckGetLength ⟨bytes, []⟩).2 = ⟨bytes.drop k, bytes.take k⟩) := by
  refine ⟨fun len h0 => ?_, usbRead24Byte_accepts hlen, fun _ => ?_⟩
  · have htake : (bytes.take 24).length = 24 := List.length_take_of_le hlen
    have haccepts : Accepts 24 (filterOf macOwn) (Supported macOwn) :=
      (accepts_filterOf rfl).congr fun u len _ => by
        unfold Supported
        rw [and_iff_right (show macOwn.headD 0 ≠ 0xFF by decide)]
    have h := haccepts (bytes.take 24) (bytes.drop 24) [] len htake
    rw [List.take_append_drop, filterOf_macOwn, supported_take] at h
    rw [← h]
    unfold announcedLength
    cases (usbRead24ByteCheckGetLength ⟨bytes, []⟩).1 with
    | none => simp [Ne.symm h0]
    | some r => simp
  · obtain ⟨r, k, hk, -, hrun⟩ := reads_usbRead24Byte bytes [] hlen
    have h := hrun []
    rw [List.append_nil, List.append_nil] at h
    exact ⟨k, hk, by rw [h]; rfl⟩

/-- The start of an ARP request. -/
def arpStart : List UInt8 :=
  macBroadcast ++ [2, 0, 0, 0, 0, 0x41] ++ [8, 6, 0, 1, 8, 0, 6, 4, 0, 1, 2, 0]

theorem filter_accepts_arp : announcedLength arpStart = 42 ↔ Supported macOwn arpStart 42 :=
  (filter_accepts_grammar arpStart (by decide)).1 42 (by decide)

end TimeSwitch.Usb
