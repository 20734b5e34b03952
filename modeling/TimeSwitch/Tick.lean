import TimeSwitch.Fraction

/-! # The timer of the clock

`timer1_init` programs the timer to count from 0 to `OCR1A` in a second; the compare interrupt is
the tick of the clock.  A reply of the time server sets the counter to the fraction of its second,
scaled by `frac2timer`.  The scale of `frac2timer` is that of a clock of 16 MHz, the makefile has 8
MHz: a fraction above one half sets the counter behind the compare value. -/

namespace TimeSwitch

open Sntp

/-- The compare value and the clock select bits of the timer. -/
structure Timer1 where
  ocr1a : UInt16
  prescaler : UInt8
deriving DecidableEq

/-- `timer1_init`; none if no prescaler is large enough. -/
def timer1Init (ticks : UInt32) : Option Timer1 :=
  let cs10 : UInt8 := 1
  let cs11 : UInt8 := 2
  let cs12 : UInt8 := 4
  if ticks.toNat ≤ 65536 then some ⟨(ticks - 1).toUInt16, cs10⟩
  else if ticks.toNat ≤ 8 * 65536 then some ⟨(ticks / 8 - 1).toUInt16, cs11⟩
  else if ticks.toNat ≤ 64 * 65536 then some ⟨(ticks / 64 - 1).toUInt16, cs11 ||| cs10⟩
  else if ticks.toNat ≤ 256 * 65536 then some ⟨(ticks / 256 - 1).toUInt16, cs12⟩
  else if ticks.toNat ≤ 1024 * 65536 then some ⟨(ticks / 1024 - 1).toUInt16, cs12 ||| cs10⟩
  else none

/-- `F_CPU` of the makefile -/
def fCpu : UInt32 := 8000000

/-- The sum of `frac2timer`, unbounded. -/
def fracSum (f : ℕ) : ℕ := f / 2 + f / 4 + f / 8 + f / 16 + f / 64 + f / 2048 + f / 32768

/-- The sum of the loop -/
theorem shiftAdd_fracSum (f : ℕ) : ShiftAdd.shiftAdd (· ∈ frac2timerBits) 15 f 0 = fracSum f := by
  simp only [ShiftAdd.shiftAdd, ShiftAdd.step, frac2timerBits, List.mem_cons, List.not_mem_nil,
    Nat.reduceAdd, Nat.reduceEqDiff, or_false, or_true, if_true, if_false, Nat.zero_add,
    Nat.div_div_eq_div_mul, Nat.reduceMul]
  rfl

theorem frac2timer_toNat (f : UInt32) :
    (frac2timer f).toNat = (fracSum f.toNat + 32768) / 65536 := by
  rw [(frac2timer_eq f).2, shiftAdd_fracSum]

theorem timer1Init_main : timer1Init fCpu = some ⟨31249, 4⟩ := by decide

/-- What a reply sets. -/
theorem processPacket_timer {packet : List UInt8} {r : Reading}
    (h : processPacket packet = some r) : r.timer = frac2timer (be32 packet transmitSub) := by
  unfold processPacket at h
  dsimp only at h
  split_ifs at h
  obtain rfl := Option.some.inj h
  rfl

/-- **The tick after a reply.**  An accepted reply sets the counter to a value that is not behind the
compare value exactly if its fraction is at most about one half. -/
theorem tick_follows_iff (packet : List UInt8) {r : Reading} {c : Timer1}
    (hr : processPacket packet = some r) (hc : timer1Init fCpu = some c) :
    r.timer ≤ c.ocr1a ↔ be32 packet transmitSub < 0x8000863C := by
  obtain rfl := Option.some.inj (hc.symm.trans timer1Init_main)
  rw [processPacket_timer hr, UInt16.le_iff_toNat_le, frac2timer_toNat, UInt32.lt_iff_toNat_lt]
  simp only [UInt16.reduceToNat, UInt32.reduceToNat]
  unfold fracSum
  omega

/-- A reply with the time 0xC0000000 and the fraction `f`. -/
def replyOf (f : List UInt8) : List UInt8 := [0x1C] ++ List.replicate 39 0 ++ [0xC0, 0, 0, 0] ++ f

theorem tick_follows_quarter :
    (⟨15625, 0xC0000000 - ntpOffset⟩ : Reading).timer ≤ (⟨31249, 4⟩ : Timer1).ocr1a ↔
      be32 (replyOf [0x40, 0, 0, 0]) transmitSub < 0x8000863C :=
  tick_follows_iff (replyOf [0x40, 0, 0, 0]) (by decide) timer1Init_main

/-- Three quarters of a second set the counter to 46874. -/
theorem tick_lost : ¬ ∀ (packet : List UInt8) (r : Reading) (c : Timer1),
    processPacket packet = some r → timer1Init fCpu = some c → r.timer ≤ c.ocr1a := by
  intro h
  have hle := h (replyOf [0xC0, 0, 0, 0]) ⟨46874, 0xC0000000 - ntpOffset⟩ ⟨31249, 4⟩ (by decide)
    timer1Init_main
  revert hle
  decide

end TimeSwitch
