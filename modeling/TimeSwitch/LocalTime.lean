import TimeSwitch.SummerTime

/-! # Local time

The local time of an instant, and the instants of the wall times of a day, with unbounded integers.
Days are counted from 2000-01-01, wall times in minutes.

Summer time begins and ends at 01:00 UTC, two hours and more after the midnights.  So the instant of
24:00 is the first one of the next day (`lt_midnight_iff`), on every day.

`TimeLib.Exact` says what the functions of avr-libc compute; then `calculateTimestamp` gives the
instant of its wall time, modulo 2 ^ 32. -/

namespace TimeSwitch

open Gregorian

/-- `eu_dst` with integers -/
def euDstInt (t : ℤ) : ℤ :=
  let t := if 194 ≤ t / 2 ^ 24 then t - 3029443200 else t
  let t := (t + 655513200) / 604800 * 28
  if t % 1461 < 856 then 3600 else 0

/-- `eu_dst` by the week -/
def dstOfWeek (w : ℤ) : ℤ :=
  if (if 5383 ≤ w then w - 5009 + 1083 else w + 1083) * 28 % 1461 < 856 then 3600 else 0

/-- The day of an instant in local time. -/
def localDay (t : ℕ) : ℕ := (t + 3600 + euDstUnbounded t) / 86400

/-- The instant that `calculateTimestamp` gives for the minute `w` of the day `D`. -/
def instant (D w : ℕ) : ℤ :=
  let retVal : ℤ := D * 86400 + w * 60 - 3600
  retVal - euDstInt retVal

/-- 24:00 -/
def midnight (D : ℕ) : ℤ := instant D 1440

/-! ### Daylight saving -/

section dst

variable {a b t : ℤ} {D w : ℕ}

theorem euDstInt_natCast (t : ℕ) : euDstInt t = euDstUnbounded t := by
  have hcast : ∀ u : ℕ, (if ((u : ℤ) + 655513200) / 604800 * 28 % 1461 < 856 then (3600 : ℤ) else 0) =
      ((if (u + 655513200) / 604800 * 28 % 1461 < 856 then 3600 else 0 : ℕ) : ℤ) := by
    intro u
    rw [apply_ite Nat.cast]
    refine if_congr ?_ rfl rfl
    norm_cast
  unfold euDstInt euDstUnbounded
  by_cases h : 194 ≤ t / 2 ^ 24
  · have hi : 194 ≤ (t : ℤ) / 2 ^ 24 := by omega
    have hsub : (t : ℤ) - 3029443200 = ((t - 3029443200 : ℕ) : ℤ) := by omega
    simp only [if_pos h, if_pos hi, hsub, hcast]
  · have hi : ¬ 194 ≤ (t : ℤ) / 2 ^ 24 := by omega
    simp only [if_neg h, if_neg hi, hcast]

theorem euDstInt_cases (t : ℤ) : euDstInt t = 0 ∨ euDstInt t = 3600 := by
  unfold euDstInt
  dsimp only
  split_ifs <;> simp

/-- The correction by 5009 weeks begins inside a week, on both sides of which it is winter. -/
theorem euDstInt_week (t : ℤ) : euDstInt t = dstOfWeek ((t + 514800) / 604800) := by
  have hweek : ∀ u : ℤ, (u + 655513200) / 604800 = (u + 514800) / 604800 + 1083 := by
    intro u
    omega
  unfold euDstInt dstOfWeek
  dsimp only
  by_cases h : 194 ≤ t / 2 ^ 24
  · have hsub : (t - 3029443200 + 514800) / 604800 = (t + 514800) / 604800 - 5009 := by omega
    rw [if_pos h, hweek, hsub]
    by_cases hw : 5383 ≤ (t + 514800) / 604800
    · rw [if_pos hw]
    · have heq : (t + 514800) / 604800 = 5382 := by omega
      rw [if_neg hw, heq]
      decide
  · have hw : ¬ 5383 ≤ (t + 514800) / 604800 := by omega
    rw [if_neg h, hweek, if_neg hw]

/-- Nothing changes within a week. -/
theorem euDstInt_congr (h : (a + 514800) / 604800 = (b + 514800) / 604800) :
    euDstInt a = euDstInt b := by
  rw [euDstInt_week, euDstInt_week, h]

/-- Nothing changes from 22:00 to 23:00 UTC. -/
theorem euDstInt_evening (h : (D : ℤ) * 86400 + 79200 ≤ t) (h' : t ≤ D * 86400 + 82800) :
    euDstInt t = euDstInt (D * 86400 + 82800) := by
  apply euDstInt_congr
  omega

/-- At the ends of the 32 bits it is winter. -/
theorem euDstInt_wrap (h : -3600 ≤ t) (h' : t < 2 ^ 32 + 86400) :
    euDstInt (t % 2 ^ 32) = euDstInt t := by
  cases lt_or_ge t 0 with
  | inl hneg =>
      have hmod : t % 2 ^ 32 = t + 2 ^ 32 := by omega
      have hw : (t + 2 ^ 32 + 514800) / 604800 = 7102 := by omega
      have hw' : (t + 514800) / 604800 = 0 := by omega
      rw [hmod, euDstInt_week, euDstInt_week, hw, hw']
      decide
  | inr hpos =>
      cases lt_or_ge t (2 ^ 32) with
      | inl hlt => rw [Int.emod_eq_of_lt hpos hlt]
      | inr hge =>
          have hmod : t % 2 ^ 32 = t - 2 ^ 32 := by omega
          have hw : (t - 2 ^ 32 + 514800) / 604800 = 0 := by omega
          have hw' : (t + 514800) / 604800 = 7102 := by omega
          rw [hmod, euDstInt_week, euDstInt_week, hw, hw']
          decide

/-- The first days of 2000 are in winter, and so are the last ones of the 32 bits. -/
theorem euDstInt_ends (h : -3600 ≤ t) (h' : t < 90000 ∨ 4294857600 ≤ t ∧ t < 2 ^ 32 + 86400) :
    euDstInt t = 0 := by
  rw [euDstInt_week]
  rcases h' with h' | ⟨hl, hr⟩
  · have hw : (t + 514800) / 604800 = 0 ∨ (t + 514800) / 604800 = 1 := by omega
    rcases hw with hw | hw <;> rw [hw] <;> decide
  · have hw : (t + 514800) / 604800 = 7102 := by omega
    rw [hw]
    decide

end dst

/-! ### Days -/

section days

variable {t t' D w : ℕ}

/-- **Midnight.**  An instant is before 24:00 of a day exactly if its local time is. -/
theorem lt_midnight_iff : (t : ℤ) < midnight D ↔ localDay t ≤ D := by
  have hr : (D : ℤ) * 86400 + (1440 : ℕ) * 60 - 3600 = D * 86400 + 82800 := by omega
  have hday : localDay t ≤ D ↔ (t : ℤ) + 3600 + euDstInt t < (D + 1) * 86400 := by
    rw [euDstInt_natCast]
    unfold localDay
    omega
  rw [hday]
  unfold midnight instant
  dsimp only
  rw [hr]
  by_cases h : (D : ℤ) * 86400 + 79200 ≤ t ∧ (t : ℤ) ≤ D * 86400 + 82800
  · rw [euDstInt_evening h.1 h.2]
    omega
  · -- more than an hour away the correction does not matter
    rcases euDstInt_cases t with h₁ | h₁ <;>
      rcases euDstInt_cases (D * 86400 + 82800) with h₂ | h₂ <;> rw [h₁, h₂] <;> omega

theorem localDay_mono (h : t ≤ t') : localDay t ≤ localDay t' := by
  have ht' : (t' : ℤ) < midnight (localDay t') := lt_midnight_iff.mpr le_rfl
  apply lt_midnight_iff.mp
  omega

/-- The local time is at most two hours ahead. -/
theorem localDay_bounds (t : ℕ) :
    localDay t * 86400 ≤ t + 7200 ∧ t + 3600 < (localDay t + 1) * 86400 := by
  have h := euDstInt_cases t
  rw [euDstInt_natCast] at h
  unfold localDay
  omega

/-- The last day that has begun when 32 bits end. -/
theorem localDay_le_last (ht : t < 2 ^ 32) : localDay t ≤ 49710 := by
  have h := localDay_bounds t
  omega

theorem instant_bounds (D w : ℕ) :
    (D : ℤ) * 86400 + w * 60 - 7200 ≤ instant D w ∧ instant D w ≤ D * 86400 + w * 60 - 3600 := by
  unfold instant
  dsimp only
  rcases euDstInt_cases (D * 86400 + w * 60 - 3600) with h | h <;> rw [h] <;> omega

/-- No instant of a day is after its end. -/
theorem instant_le_midnight (hw : w ≤ 1440) : instant D w ≤ midnight D := by
  cases Nat.lt_or_ge w 1380 with
  | inl h =>
      have hl := (instant_bounds D 1440).1
      have hr := (instant_bounds D w).2
      unfold midnight
      omega
  | inr h =>
      have hr : (D : ℤ) * 86400 + (1440 : ℕ) * 60 - 3600 = D * 86400 + 82800 := by omega
      have hdst : euDstInt (D * 86400 + w * 60 - 3600) = euDstInt (D * 86400 + 82800) := by
        apply euDstInt_evening <;> omega
      unfold midnight instant
      dsimp only
      rw [hr, hdst]
      omega

/-- The first day begins before the time does; it is in winter. -/
theorem instant_first (hw : w ≤ 1440) : instant 0 w = w * 60 - 3600 := by
  have hdst : euDstInt (((0 : ℕ) : ℤ) * 86400 + w * 60 - 3600) = 0 := by
    apply euDstInt_ends
    · omega
    · left
      omega
  unfold instant
  dsimp only
  rw [hdst]
  omega

/-- The last day ends in winter. -/
theorem instant_last (hw : w ≤ 1440) : instant 49710 w = 4294940400 + w * 60 := by
  have hdst : euDstInt (((49710 : ℕ) : ℤ) * 86400 + w * 60 - 3600) = 0 := by
    apply euDstInt_ends
    · omega
    · right
      omega
  unfold instant
  dsimp only
  rw [hdst]
  omega

/-- Only the first hour of the first day is before the time. -/
theorem instant_nonneg (h : D = 0 → 60 ≤ w) : 0 ≤ instant D w := by
  rcases Nat.eq_zero_or_pos D with rfl | hD
  · have hw := h rfl
    cases Nat.le_total w 1440 with
    | inl hw' =>
        rw [instant_first hw']
        omega
    | inr hw' =>
        have := (instant_bounds 0 w).1
        omega
  · have := (instant_bounds D w).1
    omega

theorem instant_eq (D w : ℕ) :
    instant D w = (D * 86400 + w * 60 : ℤ) - 3600 - euDstInt ((D * 86400 + w * 60 : ℤ) - 3600) :=
  rfl

/-- The end of a day is the beginning of the next one. -/
theorem midnight_eq (D : ℕ) : midnight D = instant (D + 1) 0 := by
  have hr : (D * 86400 + (1440 : ℕ) * 60 : ℤ) - 3600 =
      ((D + 1 : ℕ) : ℤ) * 86400 + (0 : ℕ) * 60 - 3600 := by omega
  unfold midnight
  rw [instant_eq, instant_eq, hr]

theorem instant_zero_le (D w : ℕ) : instant D 0 ≤ instant D w := by
  cases Nat.lt_or_ge w 60 with
  | inl h =>
      have hdst : euDstInt ((D * 86400 + w * 60 : ℤ) - 3600) =
          euDstInt ((D * 86400 + (0 : ℕ) * 60 : ℤ) - 3600) := by
        apply euDstInt_congr
        omega
      rw [instant_eq, instant_eq, hdst]
      omega
  | inr h =>
      have h₁ := (instant_bounds D 0).2
      have h₂ := (instant_bounds D w).1
      omega

theorem instant_lt_midnight (hw : w < 1440) : instant D w < midnight D := by
  cases Nat.lt_or_ge w 1380 with
  | inl h =>
      have hl := (instant_bounds D 1440).1
      have hr := (instant_bounds D w).2
      unfold midnight
      omega
  | inr h =>
      have hdst : euDstInt ((D * 86400 + w * 60 : ℤ) - 3600) =
          euDstInt ((D * 86400 + (1440 : ℕ) * 60 : ℤ) - 3600) := by
        apply euDstInt_congr
        omega
      unfold midnight
      rw [instant_eq, instant_eq, hdst]
      omega

/-- The instants of a day are on this day. -/
theorem localDay_instant (hD : 1 ≤ D) (hw : w < 1440) (ht : (t : ℤ) = instant D w) :
    localDay t = D := by
  apply le_antisymm
  · apply lt_midnight_iff.mp
    rw [ht]
    exact instant_lt_midnight hw
  · by_contra hlt
    have hbefore : (t : ℤ) < midnight (D - 1) := lt_midnight_iff.mpr (by omega)
    rw [midnight_eq, Nat.sub_add_cancel hD, ht] at hbefore
    exact absurd (instant_zero_le D w) (Int.not_le.mpr hbefore)

end days

/-! ### avr-libc -/

/-- The structure holds the date and the weekday of a day. -/
structure Tm.OnDay (tm : Tm) (D : ℕ) : Prop where
  year : tm.year + 1900 = yearOf (D + epochDay)
  mon : tm.mon = monthOf (yearOf (D + epochDay)) (D + epochDay - newYear (yearOf (D + epochDay)))
  mday : tm.mday = dayOf (D + epochDay)
  wday : tm.wday = weekday (D + epochDay)

/-- `mk_gmtime` gives the seconds from 2000 to a date and time. -/
def TimeLib.ExactSeconds (L : TimeLib) : Prop :=
  ∀ (tm : Tm) (D h m : ℕ), tm.OnDay D → tm.hour = h → tm.min = m → tm.sec = 0 →
    L.mkGmtime tm = UInt32.ofInt (D * 86400 + h * 3600 + m * 60)

/-- `localtime_r` and `mk_gmtime` are exact in 32 bits: they give the date of the local time of
every instant, and the seconds from 2000 to a date and time. -/
structure TimeLib.Exact (L : TimeLib) : Prop where
  localtime (t : UInt32) : (L.localtime t).OnDay (localDay t.toNat)
  mkGmtime (tm : Tm) (D h m : ℕ) : tm.OnDay D → tm.hour = h → tm.min = m → tm.sec = 0 →
    L.mkGmtime tm = UInt32.ofInt (D * 86400 + h * 3600 + m * 60)

section machine

variable {L : TimeLib} {tm : Tm} {D h m : ℕ} {x y : ℤ} {t : UInt32}

theorem ofInt_toNat (x : ℤ) : ((UInt32.ofInt x).toNat : ℤ) = x % 2 ^ 32 := by
  unfold UInt32.ofInt
  rw [UInt32.toNat_ofNat']
  omega

theorem ofInt_sub (x y : ℤ) : UInt32.ofInt (x - y) = UInt32.ofInt x - UInt32.ofInt y := by
  rw [sub_eq_add_neg, UInt32.ofInt_add, UInt32.ofInt_neg, UInt32.sub_eq_add_neg]

theorem ofInt_toNat_of_lt (h₀ : 0 ≤ x) (h₁ : x < 2 ^ 32) : ((UInt32.ofInt x).toNat : ℤ) = x := by
  rw [ofInt_toNat, Int.emod_eq_of_lt h₀ h₁]

/-- `eu_dst` near the 32 bits. -/
theorem euDst_ofInt (h₀ : -3600 ≤ x) (h₁ : x < 2 ^ 32 + 86400) :
    euDst (UInt32.ofInt x) = UInt32.ofInt (euDstInt x) := by
  apply UInt32.toNat_inj.mp
  have hdst := euDstInt_cases x
  have hnat : ((euDst (UInt32.ofInt x)).toNat : ℤ) = euDstInt x := by
    rw [euDst_toNat, ← euDstInt_natCast, ofInt_toNat, euDstInt_wrap h₀ h₁]
  have hint := ofInt_toNat_of_lt (x := euDstInt x) (by omega) (by omega)
  omega

@[simp] theorem calculateTimestamp_tm (L : TimeLib) (tm : Tm) (hour min : ℤ) :
    (calculateTimestamp L tm hour min).2 = { tm with hour := hour, min := min } := rfl

/-- **`calculateTimestamp`** gives the instant of its wall time. -/
theorem calculateTimestamp_eq (hL : L.ExactSeconds) (htm : tm.OnDay D) (hsec : tm.sec = 0)
    (hD : D ≤ 49710) (hw : h * 60 + m ≤ 1440) :
    (calculateTimestamp L tm h m).1 = UInt32.ofInt (instant D (h * 60 + m)) := by
  have hmk : L.mkGmtime { tm with hour := h, min := m } =
      UInt32.ofInt (D * 86400 + h * 3600 + m * 60) :=
    hL _ D h m ⟨htm.year, htm.mon, htm.mday, htm.wday⟩ rfl rfl hsec
  have hret : UInt32.ofInt (D * 86400 + h * 3600 + m * 60) - utcOffset =
      UInt32.ofInt (D * 86400 + (h * 60 + m : ℕ) * 60 - 3600) := by
    rw [show (D : ℤ) * 86400 + (h * 60 + m : ℕ) * 60 - 3600 =
      D * 86400 + h * 3600 + m * 60 - 3600 by push_cast; ring, ofInt_sub]
    rfl
  unfold calculateTimestamp instant
  dsimp only
  rw [hmk, hret, euDst_ofInt (by omega) (by omega), ← ofInt_sub]

end machine

/-- avr-libc with `UTC_OFFSET` and `eu_dst`, whose local time has more than 32 bits. -/
def exactTime : TimeLib where
  localtime t :=
    let n := localDay t.toNat + epochDay
    let y := yearOf n
    let k := n - newYear y
    let s := t.toNat + 3600 + euDstUnbounded t.toNat
    { sec := s % 60, min := s / 60 % 60, hour := s / 3600 % 24, mday := dayOf n, wday := weekday n,
      mon := monthOf y k, year := y - 1900, yday := k, isdst := euDstUnbounded t.toNat }
  mkGmtime := mkGmtime

/-- The day of a date. -/
theorem mkGmtime_date {tm : Tm} {n : ℕ} (hy : tm.year + 1900 = yearOf n)
    (hm : tm.mon = monthOf (yearOf n) (n - newYear (yearOf n))) (hd : tm.mday = dayOf n) :
    mkGmtime tm = UInt32.ofInt ((n - epochDay) * 86400 + tm.hour * 3600 + tm.min * 60 + tm.sec) := by
  have hdate := dayNumber_date n
  unfold mkGmtime
  rw [hy, hm, hd]
  simp only [Int.toNat_natCast, hdate]

theorem exactTime_exact : exactTime.Exact where
  localtime t := ⟨sub_add_cancel _ _, rfl, rfl, rfl⟩
  mkGmtime tm D h m htm hh hm hs := by
    have hday : ((D + epochDay : ℕ) : ℤ) - epochDay = D := by
      rw [Nat.cast_add, add_sub_cancel_right]
    apply (mkGmtime_date htm.year htm.mon htm.mday).trans
    rw [hday, hh, hm, hs, add_zero]

end TimeSwitch
