import Mathlib

/-! # The SNTP client

`SNTP.c`: the body of a reply is checked and gives the time and the fraction of the second, which
is scaled to the timer of the clock. -/

namespace TimeSwitch

/-! ### Numbers in packets -/

/-- The bytes `i`, …, `i + 3` of a packet, the first one lowest. -/
def le32 (packet : List UInt8) (i : ℕ) : UInt32 :=
  (packet.getD i 0).toUInt32 ||| (packet.getD (i + 1) 0).toUInt32 <<< 8 |||
    (packet.getD (i + 2) 0).toUInt32 <<< 16 ||| (packet.getD (i + 3) 0).toUInt32 <<< 24

/-- `be32_to_cpu` of the bytes `i`, …, `i + 3` of a packet. -/
def be32 (packet : List UInt8) (i : ℕ) : UInt32 :=
  (packet.getD i 0).toUInt32 <<< 24 ||| (packet.getD (i + 1) 0).toUInt32 <<< 16 |||
    (packet.getD (i + 2) 0).toUInt32 <<< 8 ||| (packet.getD (i + 3) 0).toUInt32

/-- A byte at a place of a number. -/
theorem shiftByte_toNat (b : UInt8) {k : ℕ} (hk : k ≤ 24) :
    (b.toUInt32 <<< UInt32.ofNat k).toNat = b.toNat * 2 ^ k := by
  have hb := b.toNat_lt
  have hk' : (UInt32.ofNat k).toNat = k := UInt32.toNat_ofNat_of_lt (lt_of_le_of_lt hk (by decide))
  have hpow : 2 ^ k ≤ 2 ^ 24 := Nat.pow_le_pow_right (by decide) hk
  rw [UInt32.toNat_shiftLeft, hk', UInt8.toNat_toUInt32, Nat.shiftLeft_eq,
    Nat.mod_eq_of_lt (a := k) (by omega)]
  apply Nat.mod_eq_of_lt
  calc b.toNat * 2 ^ k ≤ 255 * 2 ^ 24 := Nat.mul_le_mul (by omega) hpow
    _ < 2 ^ 32 := by decide

theorem or_mul_two_pow {a b k : ℕ} (h : a < 2 ^ k) : a ||| b * 2 ^ k = a + b * 2 ^ k := by
  rw [Nat.or_comm, Nat.mul_comm, ← Nat.two_pow_add_eq_or_of_lt h, Nat.add_comm]

theorem le32_toNat (packet : List UInt8) (i : ℕ) : (le32 packet i).toNat =
    (packet.getD i 0).toNat + (packet.getD (i + 1) 0).toNat * 2 ^ 8 +
      (packet.getD (i + 2) 0).toNat * 2 ^ 16 + (packet.getD (i + 3) 0).toNat * 2 ^ 24 := by
  have h0 := (packet.getD i 0).toNat_lt
  have h1 := (packet.getD (i + 1) 0).toNat_lt
  have h2 := (packet.getD (i + 2) 0).toNat_lt
  unfold le32
  rw [UInt32.toNat_or, UInt32.toNat_or, UInt32.toNat_or, UInt8.toNat_toUInt32,
    show (8 : UInt32) = UInt32.ofNat 8 from rfl, show (16 : UInt32) = UInt32.ofNat 16 from rfl,
    show (24 : UInt32) = UInt32.ofNat 24 from rfl, shiftByte_toNat _ (by decide),
    shiftByte_toNat _ (by decide), shiftByte_toNat _ (by decide), or_mul_two_pow h0,
    or_mul_two_pow (k := 16) (by omega), or_mul_two_pow (k := 24) (by omega)]

/-- The bytes of a 32 bit number in memory. -/
def bytes32 (v : UInt32) : List UInt8 :=
  [v.toUInt8, (v >>> 8).toUInt8, (v >>> 16).toUInt8, (v >>> 24).toUInt8]

theorem le32_bytes32 (v : UInt32) : le32 (bytes32 v) 0 = v := by
  have hv := v.toNat_lt
  rw [← UInt32.toNat_inj, le32_toNat]
  simp [bytes32, Nat.shiftRight_eq_div_pow]
  omega

namespace Sntp

/-- The cases of the switch in `frac2timer` -/
def frac2timerBits : List ℕ := [1, 5, 10, 12, 13, 14, 15]

/-- The loop of `frac2timer` -/
def frac2timerLoop : ℕ → UInt32 → UInt32 → UInt32
  | 0, _, retVal => retVal
  | i + 1, fract, retVal =>
      let fract := fract >>> 1
      frac2timerLoop i fract (if i + 1 ∈ frac2timerBits then retVal + fract else retVal)

/-- `frac2timer` -/
def frac2timer (fract : UInt32) : UInt16 :=
  ((frac2timerLoop 15 fract 0 + 32768) >>> 16).toUInt16

/-- `SNTP_VERSIONMODESERVER` -/
def versionModeServer : UInt8 := 0x1C

/-- `NTP_OFFSET` -/
def ntpOffset : UInt32 := 3155673600

/-- `sizeof(SNTP_Header_t)` -/
def headerSize : ℕ := 48

/-- The offset of `TransmitTimestampSec` -/
def transmitSec : ℕ := 40

/-- The offset of `TransmitTimestampSub` -/
def transmitSub : ℕ := 44

/-- What `SNTP_ProcessPacket` assigns: `TCNT1` and the system time. -/
structure Reading where
  timer : UInt16
  time : UInt32
deriving DecidableEq

/-- `SNTP_ProcessPacket`; it returns the time it sets, or 0 without an effect. -/
def processPacket (packet : List UInt8) : Option Reading :=
  if packet.length ≠ headerSize then none
  else
    let versionMode := packet.getD 0 0
    if versionMode &&& 0x3F ≠ versionModeServer ∨ versionMode &&& 0xC0 = 0xC0 ∨
        be32 packet transmitSec = 0 ∧ be32 packet transmitSub = 0 then none
    else some ⟨frac2timer (be32 packet transmitSub), be32 packet transmitSec - ntpOffset⟩

end Sntp

end TimeSwitch
