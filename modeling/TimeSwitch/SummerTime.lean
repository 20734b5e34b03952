import TimeSwitch.Timestamp

/-! # Summer time

`eu_dst` counts weeks from Sunday to Sunday, 01:00 UTC, takes four days for every day and reduces
them modulo 1461, the days of four years.  In these quarters every year begins at the same point, up
to three quarters, so that the summer is an interval of the remainders.  From 2101 on a day is
missing; the correction by 5009 weeks, which begins in February 2103, moves the remainders by four.
In between no Sunday falls on the one day for which this matters. -/

namespace TimeSwitch

open Gregorian

/-- 01:00 UTC on the last Sunday of a month -/
def changeover (y m : ℕ) : ℕ := (lastSunday y m - epochDay) * 86400 + 3600

/-- The time `t` lies between the last Sundays of March and October of its year. -/
def SummerTime (t : ℕ) : Prop :=
  changeover (yearOf (t / 86400 + epochDay)) 2 ≤ t ∧
    t < changeover (yearOf (t / 86400 + epochDay)) 9

instance (t : ℕ) : Decidable (SummerTime t) := by unfold SummerTime; infer_instance

/-- `eu_dst` with unbounded integers -/
def euDstUnbounded (t : ℕ) : ℕ :=
  let t := if 194 ≤ t / 2 ^ 24 then t - 3029443200 else t
  let t := (t + 655513200) / 604800 * 28
  if t % 1461 < 856 then 3600 else 0

/-- The week of a time, from Sunday, 01:00 UTC; the week 1 is the first one that begins after 2000
does. -/
def week (t : ℕ) : ℕ := (t + 514800) / 604800

/-! ### Machine integers -/

/-- The second half of `eu_dst` -/
theorem euDst_weeks {u : UInt32} (hu : u.toNat + 655513200 < 2 ^ 32) :
    ((u + 655513200) / 604800 * 28 % 1461).toUInt16 < 856 ↔
      (u.toNat + 655513200) / 604800 * 28 % 1461 < 856 := by
  have hadd : (u + 655513200).toNat = u.toNat + 655513200 := by
    rw [UInt32.toNat_add]
    exact Nat.mod_eq_of_lt hu
  have hmul : ((u + 655513200) / 604800 * 28).toNat =
      (u.toNat + 655513200) / 604800 * 28 := by
    rw [UInt32.toNat_mul, UInt32.toNat_div, hadd]
    apply Nat.mod_eq_of_lt
    simp only [UInt32.reduceToNat]
    omega
  rw [UInt16.lt_iff_toNat_lt, UInt32.toNat_toUInt16, UInt32.toNat_mod, hmul]
  simp only [UInt32.reduceToNat, UInt16.reduceToNat]
  rw [Nat.mod_eq_of_lt (a := _ % 1461) (by omega)]

/-- No operation of `eu_dst` wraps. -/
theorem euDst_toNat (t : UInt32) : (euDst t).toNat = euDstUnbounded t.toNat := by
  have ht : t.toNat < 2 ^ 32 := t.toNat_lt
  have hhigh : ((t >>> 24).toUInt8).toNat = t.toNat / 2 ^ 24 := by
    rw [UInt32.toNat_toUInt8, UInt32.toNat_shiftRight]
    simp only [UInt32.reduceToNat, Nat.reduceMod, Nat.shiftRight_eq_div_pow]
    omega
  have hif : (194 : UInt8) ≤ (t >>> 24).toUInt8 ↔ 194 ≤ t.toNat / 2 ^ 24 := by
    rw [UInt8.le_iff_toNat_le, hhigh]
    rfl
  unfold euDst euDstUnbounded
  by_cases h : 194 ≤ t.toNat / 2 ^ 24
  · have hsub : (t - 3029443200).toNat = t.toNat - 3029443200 := by
      rw [UInt32.toNat_sub]
      simp only [UInt32.reduceToNat]
      omega
    have hu : (t - 3029443200).toNat + 655513200 < 2 ^ 32 := by omega
    simp only [if_pos (hif.mpr h), if_pos h, euDst_weeks hu, hsub]
    split_ifs <;> rfl
  · have hu : t.toNat + 655513200 < 2 ^ 32 := by omega
    simp only [if_neg (fun hc => h (hif.mp hc)), if_neg h, euDst_weeks hu]
    split_ifs <;> rfl

/-! ### Sundays -/

/-- The time of a changeover, by the last day of the month. -/
theorem changeover_le {y m t : ℕ} (he : epochDay + 6 ≤ dayNumber y m (monthDays y m)) :
    changeover y m ≤ t ↔ dayNumber y m (monthDays y m) ≤ epochDay + 7 * week t := by
  unfold changeover lastSunday weekday week
  generalize dayNumber y m (monthDays y m) = e at *
  have h : epochDay = 730485 := rfl
  omega

/-- The last days of March and October. -/
theorem lastDays (y : ℕ) :
    dayNumber y 2 (monthDays y 2) + 276 = newYear y + yearDays y ∧
      dayNumber y 9 (monthDays y 9) + 62 = newYear y + yearDays y := by
  by_cases h : Leap y <;>
    simp [dayNumber, monthStart, monthDays, yearDays, h]

/-! ### Quarters of days -/

section quarters

variable {n a l w x : ℕ}

/-- A year of the 1461 day cycle that begins with the day `a`: the day 6 days before `x` has summer
time if its quarters say so. -/
theorem quarters (ha : a = 365 * n + (n + 3) / 4) (hl : l = if n % 4 = 0 then 1 else 0)
    (hlo : a ≤ x + 1) (hhi : x < a + 371 + l) :
    (4 * x + 30324) % 1461 < 856 ↔ a + 89 + l ≤ x ∧ x < a + 303 + l := by
  obtain ⟨e, s, hs, rfl⟩ : ∃ e s, s < 4 ∧ n = 4 * e + s := ⟨n / 4, n % 4, by omega, by omega⟩
  have hm := Nat.div_add_mod (4 * x + 30324) 1461
  have hlt := Nat.mod_lt (4 * x + 30324) (show 0 < 1461 by decide)
  generalize (4 * x + 30324) % 1461 = m, (4 * x + 30324) / 1461 = q at *
  have hl' : (s = 0 ∧ l = 1) ∨ (s ≠ 0 ∧ l = 0) := by split_ifs at hl <;> omega
  have ha' : 4 * a = 1461 * (4 * e + s) + (if s = 0 then 0 else 4 - s) := by
    split_ifs <;> omega
  have hq : q = 4 * e + s + 20 ∨ q = 4 * e + s + 21 := by
    split_ifs at ha' <;> omega
  rcases hq with rfl | rfl <;> split_ifs at ha' <;> omega

/-- The weeks of `eu_dst` in quarters of days. -/
theorem weeks_quarters (w : ℕ) : (w + 1083) * 28 % 1461 = (4 * (7 * w) + 30324) % 1461 := by
  have h : (w + 1083) * 28 = 4 * (7 * w) + 30324 := by ring
  rw [h]

/-- The correction by 5009 weeks is one by a day. -/
theorem weeks_corrected (hw : 5009 ≤ w) :
    (w - 5009 + 1083) * 28 % 1461 = (4 * (7 * w + 1) + 30324) % 1461 := by
  obtain ⟨v, rfl⟩ := Nat.exists_eq_add_of_le' hw
  have h : (v + 1083) * 28 + 96 * 1461 = 4 * (7 * (v + 5009) + 1) + 30324 := by ring
  rw [Nat.add_sub_cancel, ← Nat.add_mul_mod_self_right _ 96 1461, h]

/-- The years from 2100 to the correction. -/
theorem quarters_gap (hn : 100 ≤ n) (hw : w ≤ 5382)
    (ha : a = 365 * n + (n + 3) / 4 - if n = 100 then 0 else 1)
    (hlo : a ≤ 7 * w + 1) (hhi : 7 * w < a + 371) :
    (4 * (7 * w) + 30324) % 1461 < 856 ↔ a + 89 ≤ 7 * w ∧ 7 * w < a + 303 := by
  have hn' : n ≤ 103 := by
    split_ifs at ha <;> omega
  have hm := Nat.div_add_mod (4 * (7 * w) + 30324) 1461
  have hlt := Nat.mod_lt (4 * (7 * w) + 30324) (show 0 < 1461 by decide)
  generalize (4 * (7 * w) + 30324) % 1461 = m, (4 * (7 * w) + 30324) / 1461 = q at *
  have hq : q = n + 20 ∨ q = n + 21 := by
    split_ifs at ha <;> omega
  interval_cases n <;> simp only [reduceIte, Nat.reduceEqDiff] at ha <;>
    rcases hq with rfl | rfl <;> omega

end quarters

/-! ### The theorem -/

/-- The year of a time of 32 bits. -/
theorem year_bounds {t : ℕ} (ht : t < 2 ^ 32) :
    ∃ n ≤ 136, yearOf (t / 86400 + epochDay) = 2000 + n ∧
      newYear (2000 + n) ≤ t / 86400 + epochDay ∧
      t / 86400 + epochDay < newYear (2000 + n) + yearDays (2000 + n) := by
  obtain ⟨hl, hr⟩ := yearOf_bounds (t / 86400 + epochDay)
  have hlo : 2000 ≤ yearOf (t / 86400 + epochDay) := by
    by_contra hc
    have := newYear_mono (Nat.not_le.mp hc)
    have h : newYear 2000 = epochDay := rfl
    simp only [Nat.succ_eq_add_one] at this
    omega
  have hhi : yearOf (t / 86400 + epochDay) ≤ 2136 := by
    by_contra hc
    have := newYear_mono (Nat.succ_le_of_lt (Nat.not_le.mp hc))
    have h : newYear 2137 = 780524 := rfl
    have h' : epochDay = 730485 := rfl
    simp only [Nat.succ_eq_add_one, Nat.reduceAdd] at this
    omega
  rw [newYear_succ] at hr
  obtain ⟨n, hn⟩ := Nat.exists_eq_add_of_le hlo
  rw [hn] at hl hr hhi ⊢
  exact ⟨n, by omega, rfl, hl, hr⟩

/-- The years of this century and of the next one. -/
theorem newYear_centuries {n : ℕ} (hn : n ≤ 199) :
    (n ≤ 100 → newYear (2000 + n) = epochDay + 365 * n + (n + 3) / 4) ∧
      (100 < n → newYear (2000 + n) + 1 = epochDay + 365 * n + (n + 3) / 4) := by
  have h : epochDay = 730485 := rfl
  unfold newYear
  omega

theorem yearDays_centuries {n : ℕ} (hn : n ≤ 199) : ∃ l, yearDays (2000 + n) = 365 + l ∧
    (n % 4 = 0 ∧ n ≠ 100 ∧ l = 1 ∨ (n % 4 ≠ 0 ∨ n = 100) ∧ l = 0) := by
  by_cases h : Leap (2000 + n)
  · refine ⟨1, if_pos h, ?_⟩
    unfold Leap at h
    omega
  · refine ⟨0, if_neg h, ?_⟩
    unfold Leap at h
    omega

/-- Summer time, by the week. -/
theorem summerTime_iff {t y : ℕ} (hy : yearOf (t / 86400 + epochDay) = y) (h : 2000 ≤ y) :
    SummerTime t ↔ newYear y + yearDays y ≤ epochDay + 7 * week t + 276 ∧
      epochDay + 7 * week t + 62 < newYear y + yearDays y := by
  have hle : epochDay ≤ newYear y := newYear_mono h
  have hdays : 365 ≤ yearDays y := by
    unfold yearDays
    split_ifs <;> omega
  obtain ⟨h₂, h₉⟩ := lastDays y
  unfold SummerTime
  rw [hy, ← Nat.not_le, changeover_le (by omega), changeover_le (by omega)]
  omega

/-- `eu_dst` on unbounded integers is summer time until 2136. -/
theorem euDstUnbounded_eq {t : ℕ} (ht : t < 2 ^ 32) :
    euDstUnbounded t = if SummerTime t then 3600 else 0 := by
  obtain ⟨n, hn, hy, hl, hr⟩ := year_bounds ht
  have hweek : (t + 655513200) / 604800 = week t + 1083 := by
    unfold week
    omega
  have ha := newYear_centuries (n := n) (by omega)
  obtain ⟨l, hd, hcase⟩ := yearDays_centuries (n := n) (by omega)
  have hw : newYear (2000 + n) ≤ epochDay + 7 * week t + 1 ∧
      epochDay + 7 * week t < newYear (2000 + n) + yearDays (2000 + n) + 6 := by
    unfold week
    omega
  obtain ⟨a, hA⟩ : ∃ a, newYear (2000 + n) = epochDay + a :=
    Nat.exists_eq_add_of_le (newYear_mono (by omega))
  rw [hA] at ha hw hr
  rw [hd] at hw hr
  unfold euDstUnbounded
  refine if_congr ?_ rfl rfl
  rw [summerTime_iff hy (by omega), hA, hd]
  by_cases hsw : 194 ≤ t / 2 ^ 24
  · -- after the correction
    have hwk : 5009 ≤ week t := by
      unfold week
      omega
    have hsub : (t - 3029443200 + 655513200) / 604800 = week t - 5009 + 1083 := by
      unfold week
      omega
    have hn' : 100 < n := by omega
    have hleap : l = if n % 4 = 0 then 1 else 0 := by split_ifs <;> omega
    have hq := quarters (a := a + 1) (x := 7 * week t + 1) (by omega) hleap (by omega) (by omega)
    rw [if_pos hsw, hsub, weeks_corrected hwk, hq]
    omega
  · rw [if_neg hsw, hweek, weeks_quarters]
    by_cases h100 : n < 100
    · have hleap : l = if n % 4 = 0 then 1 else 0 := by split_ifs <;> omega
      have hq := quarters (a := a) (x := 7 * week t) (by omega) hleap (by omega) (by omega)
      rw [hq]
      omega
    · have hw' : week t ≤ 5382 := by
        unfold week
        omega
      have hn' : n ≤ 103 := by omega
      have hl0 : l = 0 := by omega
      have hq := quarters_gap (n := n) (a := a) (w := week t) (by omega) hw'
        (by split_ifs <;> omega) (by omega) (by omega)
      rw [hq]
      omega

/-- **Summer time.**  For every time `eu_dst` is 3600 between the last Sundays of March and October,
01:00 UTC, and 0 otherwise, and none of its operations wraps. -/
theorem euDst_exact (t : UInt32) :
    euDst t = (if SummerTime t.toNat then 3600 else 0) ∧
      (euDst t).toNat = euDstUnbounded t.toNat := by
  refine ⟨?_, euDst_toNat t⟩
  apply UInt32.toNat_inj.mp
  rw [euDst_toNat, euDstUnbounded_eq t.toNat_lt]
  split_ifs <;> rfl

end TimeSwitch
