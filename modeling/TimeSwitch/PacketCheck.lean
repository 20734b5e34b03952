import TimeSwitch.Library.ByteReader

/-! # The filter for received frames

`USB_Read24Byte_Check_GetLength` of `net/PacketCheck.c` reads the first 24 bytes of a frame from
the endpoint, stores them, and returns the length that the frame announces, or 0 as soon as a
byte shows that the frame is not supported.  An early `return 0` is `reject`. -/

namespace TimeSwitch.Usb

open ByteReader

/-- `MAC_OWN` -/
def macOwn : List UInt8 := [0x02, 0x00, 0x00, 0x00, 0x00, 0x40]

/-- `MAC_BROADCAST` -/
def macBroadcast : List UInt8 := [0xFF, 0xFF, 0xFF, 0xFF, 0xFF, 0xFF]

/-- `PACKET_LEN_MAX` -/
def packetLenMax : ℕ := 14 + 576

/-- `PACKET_LEN_MIN` -/
def packetLenMin : ℕ := 14 + 28

/-- `data == b` -/
def byteIs (b : UInt8) (data : UInt8) : Bool := data == b

/-- The tail of a MAC address, one byte after the other. -/
def expectAll : List UInt8 → ByteReader Unit
  | [] => pure ()
  | b :: bs => do
      expect (byteIs b)
      expectAll bs

/-- Destination MAC: the first byte decides between unicast and broadcast. -/
def checkDestination : ByteReader Unit := do
  let data ← readByte
  if data = macOwn.headD 0 then expectAll macOwn.tail
  else if data = macBroadcast.headD 0 then expectAll macBroadcast.tail
  else reject

/-- The IPv4 part, from `Version_IHL` to `Protocol`. -/
def checkIPv4 : ByteReader ℕ := do
  expect (byteIs 0x45)
  skip 1
  let high ← readByte
  let low ← readByte
  -- `iplength` is an `uint16_t`
  let iplength := (high.toNat * 256 + low.toNat + 14) % 65536
  if iplength < packetLenMin ∨ packetLenMax < iplength then reject
  else do
    skip 2
    -- only the don't fragment flag may be set
    expect (fun data => data &&& ~~~0x40 = 0)
    expect (fun data => data &&& ~~~0x00 = 0)
    skip 1
    expect (fun data => data = 1 ∨ data = 17)
    pure iplength

/-- The ARP part, from `HardwareType` to the first bytes of `SenderMAC`. -/
def checkARP : ByteReader ℕ := do
  expect (byteIs 0x00)
  expect (byteIs 0x01)
  expect (byteIs 0x08)
  expect (byteIs 0x00)
  expect (byteIs 6)
  expect (byteIs 4)
  skip 2
  skip 2
  pure (28 + 14)

/-- `USB_Read24Byte_Check_GetLength` -/
def usbRead24ByteCheckGetLength : ByteReader ℕ := do
  checkDestination
  skip 6
  expect (byteIs 0x08)
  let data ← readByte
  if data = 0x00 then checkIPv4
  else if data = 0x06 then checkARP
  else reject

/-- The returned length, 0 for `return 0`. -/
def announcedLength (bytes : List UInt8) : ℕ :=
  ((usbRead24ByteCheckGetLength ⟨bytes, []⟩).1).getD 0

/-! ### What the filter reads -/

theorem reads_expectAll (bs : List UInt8) : Reads bs.length (expectAll bs) := by
  induction bs with
  | nil => exact reads_pure ()
  | cons b bs ih =>
      have h := (reads_expect (byteIs b)).bind (fun _ => ih)
      rwa [Nat.add_comm] at h

theorem reads_checkDestination : Reads 6 checkDestination :=
  reads_readByte.bind (fun _ => (reads_expectAll macOwn.tail).ite
    ((reads_expectAll macBroadcast.tail).ite (reads_reject 5)))

theorem reads_checkIPv4 : Reads 10 checkIPv4 := by
  refine (reads_expect _).bind fun _ => (reads_skip 1).bind fun _ => reads_readByte.bind fun _ =>
    reads_readByte.bind fun _ => (reads_reject 6).ite ?_
  exact (reads_skip 2).bind fun _ => (reads_expect _).bind fun _ => (reads_expect _).bind fun _ =>
    (reads_skip 1).bind fun _ => (reads_expect _).bind fun _ => reads_pure _

theorem reads_checkARP : Reads 10 checkARP := by
  have htail : Reads 4 (do skip 2; skip 2; pure (28 + 14)) :=
    (reads_skip 2).bind fun _ => (reads_skip 2).bind fun _ => reads_pure _
  exact (reads_expect _).bind fun _ => (reads_expect _).bind fun _ => (reads_expect _).bind
    fun _ => (reads_expect _).bind fun _ => (reads_expect _).bind fun _ => (reads_expect _).bind
    fun _ => htail

/-- The filter reads 24 bytes, and all of them if it accepts. -/
theorem reads_usbRead24Byte : Reads 24 usbRead24ByteCheckGetLength :=
  reads_checkDestination.bind fun _ => (reads_skip 6).bind fun _ => (reads_expect _).bind fun _ =>
    reads_readByte.bind fun _ => reads_checkIPv4.ite (reads_checkARP.ite (reads_reject 10))

/-! ### What the filter returns -/

theorem yields_checkIPv4 :
    Yields (fun len => packetLenMin ≤ len ∧ len ≤ packetLenMax) checkIPv4 := by
  refine .bind fun _ => .bind fun _ => .bind fun high => .bind fun low => .ite
    (fun _ => yields_reject) (fun hlen => ?_)
  refine .bind fun _ => .bind fun _ => .bind fun _ => .bind fun _ => .bind fun _ => yields_pure ?_
  omega

theorem yields_checkARP :
    Yields (fun len => packetLenMin ≤ len ∧ len ≤ packetLenMax) checkARP := by
  refine .bind fun _ => .bind fun _ => .bind fun _ => .bind fun _ => .bind fun _ => .bind fun _ =>
    .bind fun _ => .bind fun _ => yields_pure ?_
  decide

theorem yields_usbRead24Byte :
    Yields (fun len => packetLenMin ≤ len ∧ len ≤ packetLenMax) usbRead24ByteCheckGetLength :=
  .bind fun _ => .bind fun _ => .bind fun _ => .bind fun _ => .ite (fun _ => yields_checkIPv4)
    (fun _ => .ite (fun _ => yields_checkARP) (fun _ => yields_reject))

/-- An announced length is 0 or within the limits. -/
theorem announcedLength_bounds {bytes : List UInt8} (h : announcedLength bytes ≠ 0) :
    packetLenMin ≤ announcedLength bytes ∧ announcedLength bytes ≤ packetLenMax := by
  unfold announcedLength at h ⊢
  rcases hr : usbRead24ByteCheckGetLength ⟨bytes, []⟩ with ⟨r, s⟩
  rw [hr] at h
  cases r with
  | none => exact absurd rfl h
  | some len => exact yields_usbRead24Byte _ _ _ hr

/-- The announced length is decided by the first 24 bytes. -/
theorem announcedLength_append {u : List UInt8} (hu : 24 ≤ u.length) (v : List UInt8) :
    announcedLength (u ++ v) = announcedLength u := by
  obtain ⟨r, k, -, -, hk⟩ := reads_usbRead24Byte u [] hu
  have h0 := hk []
  rw [List.append_nil] at h0
  unfold announcedLength
  rw [hk v, h0]

/-- What is left in the endpoint and what is stored after the filter accepted. -/
theorem usbRead24Byte_accepts {u : List UInt8} (hu : 24 ≤ u.length)
    (h : announcedLength u ≠ 0) :
    (usbRead24ByteCheckGetLength ⟨u, []⟩).2 = ⟨u.drop 24, u.take 24⟩ := by
  obtain ⟨r, k, -, hr, hk⟩ := reads_usbRead24Byte u [] hu
  have h0 := hk []
  rw [List.append_nil] at h0
  unfold announcedLength at h
  rw [h0] at h
  cases r with
  | none => exact absurd rfl h
  | some len =>
      obtain rfl := hr rfl
      rw [h0]
      simp

end TimeSwitch.Usb
