import Mathlib

/-! # The Gregorian calendar

Days are counted from 1 January of the year 0, a Saturday; months and days of the week from 0, with
January and Sunday.  `newYear y` is in closed form; `newYear_succ` shows that it counts the days of
the years.  Every day has a date (`validDate_date`, `dayNumber_date`). -/

namespace Gregorian

/-- `y` is a leap year. -/
def Leap (y : ℕ) : Prop := y % 4 = 0 ∧ (y % 100 ≠ 0 ∨ y % 400 = 0)

instance (y : ℕ) : Decidable (Leap y) := by unfold Leap; infer_instance

/-- The number of days of a year. -/
def yearDays (y : ℕ) : ℕ := if Leap y then 366 else 365

/-- The number of days of a month. -/
def monthDays (y : ℕ) : ℕ → ℕ
  | 1 => if Leap y then 29 else 28
  | 3 | 5 | 8 | 10 => 30
  | _ => 31

/-- The day before which the year `y` begins. -/
def newYear (y : ℕ) : ℕ := 365 * y + (y + 3) / 4 + (y + 399) / 400 - (y + 99) / 100

/-- The days of a year before a month. -/
def monthStart (y : ℕ) : ℕ → ℕ
  | 0 => 0
  | m + 1 => monthStart y m + monthDays y m

/-- The number of a day; the day of the month counts from 1. -/
def dayNumber (y m d : ℕ) : ℕ := newYear y + monthStart y m + d - 1

/-- The weekday of a day. -/
def weekday (n : ℕ) : ℕ := (n + 6) % 7

/-- The last day of a month that is a Sunday. -/
def lastSunday (y m : ℕ) : ℕ :=
  dayNumber y m (monthDays y m) - weekday (dayNumber y m (monthDays y m))

/-- The year of a day. -/
def yearOf (n : ℕ) : ℕ :=
  let y := n * 400 / 146097
  if newYear (y + 1) ≤ n then y + 1 else if n < newYear y then y - 1 else y

/-- The month in which the day `k` of a year lies. -/
def monthOf (y k : ℕ) : ℕ := Nat.findGreatest (fun m => monthStart y m ≤ k) 11

/-- The date exists. -/
def ValidDate (y m d : ℕ) : Prop := m < 12 ∧ 1 ≤ d ∧ d ≤ monthDays y m

/-- The day of the month. -/
def dayOf (n : ℕ) : ℕ :=
  n - newYear (yearOf n) - monthStart (yearOf n) (monthOf (yearOf n) (n - newYear (yearOf n))) + 1

section years

variable {y n : ℕ}

theorem newYear_succ (y : ℕ) : newYear (y + 1) = newYear y + yearDays y := by
  have h4 : (y + 1 + 3) / 4 = (y + 3) / 4 + if y % 4 = 0 then 1 else 0 := by split_ifs <;> omega
  have h100 : (y + 1 + 99) / 100 = (y + 99) / 100 + if y % 100 = 0 then 1 else 0 := by
    split_ifs <;> omega
  have h400 : (y + 1 + 399) / 400 = (y + 399) / 400 + if y % 400 = 0 then 1 else 0 := by
    split_ifs <;> omega
  have hsmall : (y + 99) / 100 ≤ (y + 3) / 4 := by omega
  have hdvd : (y % 400 = 0 → y % 100 = 0) ∧ (y % 100 = 0 → y % 4 = 0) := by omega
  unfold newYear yearDays
  rw [h4, h100, h400]
  by_cases hl : Leap y
  · rw [if_pos hl]
    unfold Leap at hl
    grind
  · rw [if_neg hl]
    unfold Leap at hl
    grind

theorem newYear_mono {a b : ℕ} (h : a ≤ b) : newYear a ≤ newYear b :=
  monotone_nat_of_le_succ (fun y => by rw [newYear_succ]; omega) h

/-- 400 years have 146097 days, and no year is far from the mean. -/
theorem newYear_mean (y : ℕ) :
    400 * newYear y ≤ 146097 * y + 700 ∧ 146097 * y ≤ 400 * newYear y + 400 := by
  unfold newYear
  omega

/-- The year of a day is the one that has begun and not ended. -/
theorem yearOf_bounds (n : ℕ) : newYear (yearOf n) ≤ n ∧ n < newYear (yearOf n + 1) := by
  unfold yearOf
  dsimp only
  split_ifs with h₁ h₂
  · refine ⟨h₁, ?_⟩
    have := newYear_mean (n * 400 / 146097 + 1 + 1)
    omega
  · have hpos : n * 400 / 146097 ≠ 0 := by
      intro h
      rw [h] at h₂
      exact Nat.not_lt_zero n h₂
    rw [Nat.sub_add_cancel (Nat.one_le_iff_ne_zero.mpr hpos)]
    refine ⟨?_, h₂⟩
    have := newYear_mean (n * 400 / 146097 - 1)
    omega
  · exact ⟨Nat.not_lt.mp h₂, Nat.not_le.mp h₁⟩

end years

section dates

variable {y m d k n : ℕ}

/-- The months fill the year. -/
theorem monthStart_twelve (y : ℕ) : monthStart y 12 = yearDays y := by
  by_cases h : Leap y <;> simp [monthStart, monthDays, yearDays, h]

/-- The month of a day is the one that has begun and not ended. -/
theorem monthOf_bounds (hk : k < yearDays y) : monthOf y k < 12 ∧
    monthStart y (monthOf y k) ≤ k ∧ k < monthStart y (monthOf y k + 1) := by
  have hle : monthOf y k ≤ 11 := Nat.findGreatest_le 11
  refine ⟨Nat.lt_succ_of_le hle, ?_, ?_⟩
  · have h0 : monthStart y 0 ≤ k := Nat.zero_le k
    exact Nat.findGreatest_spec (P := fun m => monthStart y m ≤ k) (Nat.zero_le 11) h0
  · cases Nat.lt_or_eq_of_le hle with
    | inl hlt =>
        apply Nat.lt_of_not_le
        exact Nat.findGreatest_is_greatest (P := fun m => monthStart y m ≤ k)
          (Nat.lt_succ_self (monthOf y k)) hlt
    | inr heq =>
        rw [heq, monthStart_twelve]
        exact hk

theorem dayInYear_lt (n : ℕ) : n - newYear (yearOf n) < yearDays (yearOf n) := by
  have h := yearOf_bounds n
  rw [newYear_succ] at h
  omega

/-- Every day has a date. -/
theorem validDate_date (n : ℕ) :
    ValidDate (yearOf n) (monthOf (yearOf n) (n - newYear (yearOf n))) (dayOf n) := by
  obtain ⟨hm, hl, hr⟩ := monthOf_bounds (dayInYear_lt n)
  rw [monthStart] at hr
  unfold ValidDate dayOf
  omega

/-- The date of a day is its date. -/
theorem dayNumber_date (n : ℕ) :
    dayNumber (yearOf n) (monthOf (yearOf n) (n - newYear (yearOf n))) (dayOf n) = n := by
  obtain ⟨-, hl, -⟩ := monthOf_bounds (dayInYear_lt n)
  have hy := (yearOf_bounds n).1
  unfold dayNumber dayOf
  omega

end dates

end Gregorian
