import TimeSwitch.Library.ShiftAdd
import TimeSwitch.Sntp

/-! # The fraction of the second

`frac2timer` scales the fraction of an NTP timestamp to the timer, by halving it 15 times and adding
seven of the halves.  Its comment has the formula `fract * 62498 / 2 ^ 32`, rounded; the loop rounds
each half down, so the result is right or too small by one. -/

namespace TimeSwitch.Sntp

open ShiftAdd

/-! ### Additions without overflow -/

/-- An addition of 32 bit words; none if there is an overflow. -/
def addChecked (a b : UInt32) : Option UInt32 :=
  if a.toNat + b.toNat < 2 ^ 32 then some (a + b) else none

/-- The loop of `frac2timer`; none if there is an overflow. -/
def frac2timerLoopChecked : ℕ → UInt32 → UInt32 → Option UInt32
  | 0, _, retVal => some retVal
  | i + 1, fract, retVal => do
      let fract := fract >>> 1
      let retVal ← if i + 1 ∈ frac2timerBits then addChecked retVal fract else some retVal
      frac2timerLoopChecked i fract retVal

/-- `frac2timer`; none if there is an overflow. -/
def frac2timerChecked (fract : UInt32) : Option UInt16 := do
  let retVal ← frac2timerLoopChecked 15 fract 0
  let retVal ← addChecked retVal 32768
  some (retVal >>> 16).toUInt16

/-! ### The loop -/

theorem half_toNat (fract : UInt32) : (fract >>> 1).toNat = fract.toNat / 2 := by
  rw [UInt32.toNat_shiftRight]
  exact Nat.shiftRight_one _

theorem addChecked_eq {a b : UInt32} (h : a.toNat + b.toNat < 2 ^ 32) :
    addChecked a b = some (a + b) := if_pos h

/-- The loop computes the sum of the halves, and no addition overflows, if there is room for the
accumulator and the fraction together. -/
theorem frac2timerLoop_eq (i : ℕ) (fract retVal : UInt32) (h : retVal.toNat + fract.toNat < 2 ^ 32) :
    frac2timerLoopChecked i fract retVal = some (frac2timerLoop i fract retVal) ∧
      (frac2timerLoop i fract retVal).toNat =
        shiftAdd (· ∈ frac2timerBits) i fract.toNat retVal.toNat := by
  induction i generalizing fract retVal with
  | zero => exact ⟨rfl, rfl⟩
  | succ i ih =>
      have hhalf := half_toNat fract
      have hroom := step_add_le (P := (· ∈ frac2timerBits)) (i := i + 1) (x := fract.toNat)
        (r := retVal.toNat)
      rw [frac2timerLoopChecked, frac2timerLoop, shiftAdd]
      unfold step at hroom ⊢
      by_cases hbit : i + 1 ∈ frac2timerBits
      · rw [if_pos hbit] at hroom
        have hadd : retVal.toNat + (fract >>> 1).toNat < 2 ^ 32 := by omega
        have hsum : (retVal + fract >>> 1).toNat = retVal.toNat + fract.toNat / 2 := by
          rw [UInt32.toNat_add, Nat.mod_eq_of_lt hadd, hhalf]
        have hrest := ih (fract >>> 1) (retVal + fract >>> 1) (by omega)
        rw [hsum, hhalf] at hrest
        rw [if_pos hbit, if_pos hbit, if_pos hbit, addChecked_eq hadd]
        exact hrest
      · rw [if_neg hbit] at hroom
        have hrest := ih (fract >>> 1) retVal (by omega)
        rw [hhalf] at hrest
        rw [if_neg hbit, if_neg hbit, if_neg hbit]
        exact hrest

/-- The factor of the loop, as a multiple of `1 / 2 ^ 15`: half of 62498 -/
theorem factor_bits : factor (· ∈ frac2timerBits) 15 = 31249 := by decide

theorem terms_bits : terms (· ∈ frac2timerBits) 15 = 7 := by decide

/-- The value of `frac2timer`, which does not overflow. -/
theorem frac2timer_eq (fract : UInt32) : frac2timerChecked fract = some (frac2timer fract) ∧
    (frac2timer fract).toNat =
      (shiftAdd (· ∈ frac2timerBits) 15 fract.toNat 0 + 32768) / 65536 := by
  have hfract := fract.toNat_lt
  obtain ⟨hchecked, hloop⟩ := frac2timerLoop_eq 15 fract 0 (by rw [UInt32.toNat_zero]; omega)
  rw [UInt32.toNat_zero] at hloop
  have hsum := shiftAdd_mul_le (P := (· ∈ frac2timerBits)) (k := 15) (x := fract.toNat) (r := 0)
  rw [← hloop, factor_bits] at hsum
  have hround : (frac2timerLoop 15 fract 0).toNat + (32768 : UInt32).toNat < 2 ^ 32 := by
    show _ + 32768 < _
    omega
  constructor
  · unfold frac2timerChecked frac2timer
    rw [hchecked, Option.bind_eq_bind, Option.bind_some, addChecked_eq hround,
      Option.bind_some]
  · have hvalue : (frac2timerLoop 15 fract 0 + 32768).toNat =
        (frac2timerLoop 15 fract 0).toNat + 32768 := by
      rw [UInt32.toNat_add]
      exact Nat.mod_eq_of_lt hround
    have hshift : ((frac2timerLoop 15 fract 0 + 32768) >>> 16).toNat =
        ((frac2timerLoop 15 fract 0).toNat + 32768) / 65536 := by
      rw [UInt32.toNat_shiftRight, hvalue]
      exact Nat.shiftRight_eq_div_pow _ 16
    unfold frac2timer
    rw [UInt32.toNat_toUInt16, hshift, hloop]
    exact Nat.mod_eq_of_lt (by omega)

/-- A larger fraction has no smaller value. -/
theorem frac2timer_mono {f g : UInt32} (h : f ≤ g) : frac2timer f ≤ frac2timer g := by
  have hsum := shiftAdd_mono (P := (· ∈ frac2timerBits)) (k := 15) (UInt32.le_iff_toNat_le.mp h)
    (le_refl 0)
  rw [UInt16.le_iff_toNat_le, (frac2timer_eq f).2, (frac2timer_eq g).2]
  exact Nat.div_le_div_right (Nat.add_le_add_right hsum _)

/-! ### The formula -/

/-- **The fraction is scaled as the comment says**, up to one unit.  No sum overflows, the result is at
most 62498, a larger fraction has no smaller result, and the result is `fract * 62498 / 2 ^ 32`,
rounded, or one less. -/
theorem frac2timer_approximates (fract : UInt32) :
    frac2timerChecked fract = some (frac2timer fract) ∧ (frac2timer fract).toNat ≤ 62498 ∧
      (∀ larger, fract ≤ larger → frac2timer fract ≤ frac2timer larger) ∧
      ((frac2timer fract).toNat = (fract.toNat * 62498 + 2 ^ 31) / 2 ^ 32 ∨
        (frac2timer fract).toNat + 1 = (fract.toNat * 62498 + 2 ^ 31) / 2 ^ 32) := by
  have hfract := fract.toNat_lt
  obtain ⟨hchecked, hvalue⟩ := frac2timer_eq fract
  have hle := shiftAdd_mul_le (P := (· ∈ frac2timerBits)) (k := 15) (x := fract.toNat) (r := 0)
  have hge := le_shiftAdd_mul (P := (· ∈ frac2timerBits)) (k := 15) (x := fract.toNat) (r := 0)
  rw [factor_bits, Nat.zero_mul, Nat.zero_add] at hle hge
  rw [terms_bits] at hge
  refine ⟨hchecked, ?_, fun larger => frac2timer_mono, ?_⟩
  · rw [hvalue]
    omega
  · have hround := round_eq_or (d := 65536) (h := 32768) (by decide) (by decide) (by decide) hle
      ((Nat.mul_le_mul_right _ (Nat.le_succ _)).trans hge)
    have hformula : (fract.toNat * 62498 + 2 ^ 31) / 2 ^ 32 =
        (fract.toNat * 31249 + 32768 * 2 ^ 15) / (2 ^ 15 * 65536) := by omega
    rw [hvalue, hformula]
    exact hround

/-- The sliver of fractions where the result is one less: 0x8639 is scaled to 0. -/
theorem frac2timer_approximates_less : frac2timerChecked 0x8639 = some (frac2timer 0x8639) ∧
    frac2timer 0x8639 ≤ frac2timer 0xFFFFFFFF ∧
    (frac2timer 0x8639).toNat + 1 = (0x8639 * 62498 + 2 ^ 31) / 2 ^ 32 := by
  obtain ⟨hchecked, -, hmono, -⟩ := frac2timer_approximates 0x8639
  exact ⟨hchecked, hmono 0xFFFFFFFF (by decide), by decide⟩

end TimeSwitch.Sntp
