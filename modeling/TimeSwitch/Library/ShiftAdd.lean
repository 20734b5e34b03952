import Mathlib

/-! # Multiplication by shifts

A number is halved step by step, and some of the halves are added.  Without the rounding of the halves
this would multiply the number by the fraction `factor P k / 2 ^ k`; with it, the sum is too small
by at most the number of its summands (`shiftAdd_mul_le`, `le_shiftAdd_mul`).  A result that is then
rounded to units which are at least as large is right or too small by one (`round_eq_or`).

The sum and the number together never grow (`step_add_le`): so words with room for both of them at the
start have room for each sum on the way. -/

namespace ShiftAdd

variable (P : ℕ → Prop) [DecidablePred P]

/-- The sum after the step `i`, to which the half `x` is added if `P` holds. -/
def step (i x r : ℕ) : ℕ := if P i then r + x else r

/-- In the steps `k`, …, 1 the number `x` is halved. -/
def shiftAdd : ℕ → ℕ → ℕ → ℕ
  | 0, _, r => r
  | k + 1, x, r => shiftAdd k (x / 2) (step P (k + 1) (x / 2) r)

/-- The factor, as a multiple of `1 / 2 ^ k` -/
def factor : ℕ → ℕ
  | 0 => 0
  | k + 1 => step P (k + 1) (2 ^ k) (factor k)

/-- The number of summands -/
def terms : ℕ → ℕ
  | 0 => 0
  | k + 1 => step P (k + 1) 1 (terms k)

variable {P} {k i x y r s : ℕ}

theorem step_mono (hx : x ≤ y) (hr : r ≤ s) : step P i x r ≤ step P i y s := by
  unfold step
  split_ifs
  · exact Nat.add_le_add hr hx
  · exact hr

/-- The sum and the number, in a step of the loop. -/
theorem step_add_le : step P i (x / 2) r + x / 2 ≤ r + x := by
  unfold step
  split_ifs <;> omega

/-- A larger number has a larger sum. -/
theorem shiftAdd_mono (hx : x ≤ y) (hr : r ≤ s) : shiftAdd P k x r ≤ shiftAdd P k y s := by
  induction k generalizing x y r s with
  | zero => exact hr
  | succ k ih =>
      have hhalf : x / 2 ≤ y / 2 := Nat.div_le_div_right hx
      exact ih hhalf (step_mono hhalf hr)

/-- The sum is not too large. -/
theorem shiftAdd_mul_le : shiftAdd P k x r * 2 ^ k ≤ r * 2 ^ k + x * factor P k := by
  induction k generalizing x r with
  | zero => simp [shiftAdd]
  | succ k ih =>
      have hhalf : 2 * (x / 2) ≤ x := Nat.mul_div_le x 2
      have hstep := ih (x := x / 2) (r := step P (k + 1) (x / 2) r)
      have hfactor := Nat.mul_le_mul_right (factor P k) hhalf
      have hpower := Nat.mul_le_mul_right (2 ^ k) hhalf
      rw [shiftAdd, factor, pow_succ]
      unfold step at *
      split_ifs at * <;> linarith

/-- The sum is too small by at most the number of its summands. -/
theorem le_shiftAdd_mul :
    r * 2 ^ k + (x + 1) * factor P k ≤ (shiftAdd P k x r + terms P k) * 2 ^ k := by
  induction k generalizing x r with
  | zero => simp [shiftAdd, factor, terms]
  | succ k ih =>
      have hhalf : x + 1 ≤ 2 * (x / 2 + 1) := by omega
      have hstep := ih (x := x / 2) (r := step P (k + 1) (x / 2) r)
      have hfactor := Nat.mul_le_mul_right (factor P k) hhalf
      have hpower := Nat.mul_le_mul_right (2 ^ k) hhalf
      rw [shiftAdd, factor, terms, pow_succ]
      unfold step at *
      split_ifs at * <;> linarith

/-- Rounding to units that are not smaller than the error. -/
theorem round_eq_or {c d h p t : ℕ} (hc : 0 < c) (hd : 0 < d) (ht : t ≤ d) (hle : s * c ≤ p)
    (hge : p ≤ (s + t) * c) :
    (s + h) / d = (p + h * c) / (c * d) ∨ (s + h) / d + 1 = (p + h * c) / (c * d) := by
  have hlow : s ≤ p / c := (Nat.le_div_iff_mul_le hc).mpr hle
  have hhigh : p / c ≤ s + t := by
    have hdiv := Nat.div_le_div_right (c := c) hge
    rwa [Nat.mul_div_cancel _ hc] at hdiv
  have hmono : (s + h) / d ≤ (p / c + h) / d := Nat.div_le_div_right (by omega)
  have hnext : (p / c + h) / d ≤ (s + h) / d + 1 := by
    rw [← Nat.add_div_right _ hd]
    exact Nat.div_le_div_right (by omega)
  rw [← Nat.div_div_eq_div_mul, Nat.add_mul_div_right _ _ hc]
  omega

end ShiftAdd
