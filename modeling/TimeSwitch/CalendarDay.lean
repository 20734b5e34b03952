import TimeSwitch.SwitchIntervals

/-! # The cached calendar day

`getStructTM` keeps the calendar day until the next midnight.  It is given up when the clock reaches
this midnight, but not when the clock is set back to a day before.  So all calls return today exactly
if the days of their arguments never go back, and the last midnight fits 32 bits
(`calendar_day_today_iff`).

`calculateTimestamp` changes hour and minute of the structure only. -/

namespace TimeSwitch

open Gregorian

/-- A use of the calendar day: a call of `getStructTM`, or one of `calculateTimestamp` on the structure
that it has returned. -/
inductive Call where
  | get (now : UInt32)
  | stamp (hour min : ℤ)

/-- The static variables after a call. -/
def Clock.call (L : TimeLib) (c : Clock) : Call → Clock
  | .get now => getStructTM L c now
  | .stamp hour min => { c with tm := (calculateTimestamp L c.tm hour min).2 }

/-- The local dates of the arguments of `getStructTM` -/
def days : List Call → List ℕ
  | [] => []
  | .get now :: cs => localDay now.toNat :: days cs
  | .stamp _ _ :: cs => days cs

/-- The first local midnight after an instant. -/
def NextMidnight (now t : UInt32) : Prop :=
  now < t ∧ 86400 ∣ localTime t ∧ ∀ u, now < u → u < t → ¬ 86400 ∣ localTime u

/-- `getStructTM` returns the date and the weekday of its argument, and `getMidnight` the midnight
after it. -/
def ReturnsToday (L : TimeLib) (c : Clock) (now : UInt32) : Prop :=
  (getStructTM L c now).tm.OnDay (localDay now.toNat) ∧
    NextMidnight now (getMidnight (getStructTM L c now))

/-- All calls of `getStructTM` return today. -/
def AlwaysToday (L : TimeLib) (c : Clock) (cs : List Call) : Prop :=
  ∀ v ∈ Run.visits (Clock.call L) c cs, ∀ now, v.2 = .get now → ReturnsToday L v.1 now

/-- The day 2136-02-07, in which the 32 bits end. -/
def lastDay : ℕ := 49710

/-! ### Midnights -/

section midnights

variable {D : ℕ} {t now : UInt32}

/-- The local time of the midnight. -/
theorem localTime_midnight (D : ℕ) : localTime t = (D + 1) * 86400 ↔ (t.toNat : ℤ) = midnight D := by
  have h := localTime_eq t
  have hcases := euDstInt_cases t.toNat
  have hmid := instant_eq D 1440
  have hdst : ((D : ℤ) * 86400 + 79200 ≤ t.toNat ∧ (t.toNat : ℤ) ≤ D * 86400 + 82800) →
      euDstInt t.toNat = euDstInt ((D * 86400 + (1440 : ℕ) * 60 : ℤ) - 3600) := by
    intro ht
    apply euDstInt_congr
    omega
  have hcases' := euDstInt_cases ((D * 86400 + (1440 : ℕ) * 60 : ℤ) - 3600)
  unfold midnight
  constructor
  · intro ht
    have := hdst (by omega)
    omega
  · intro ht
    have := hdst (by omega)
    omega

/-- Every midnight is the end of a day. -/
theorem midnight_of_dvd (h : 86400 ∣ localTime t) : ∃ D, (t.toNat : ℤ) = midnight D := by
  obtain ⟨k, hk⟩ := h
  have hpos : 0 < k := by
    apply Nat.pos_of_ne_zero
    rintro rfl
    unfold localTime at hk
    omega
  obtain ⟨D, rfl⟩ := Nat.exists_eq_add_of_le' hpos
  exact ⟨D, (localTime_midnight D).mp (by omega)⟩

theorem midnight_mono {D' : ℕ} (h : D < D') : midnight D < midnight D' := by
  have h₁ := (instant_bounds D 1440).2
  have h₂ := (instant_bounds D' 1440).1
  unfold midnight
  omega

/-- The first midnight after an instant is the end of its day. -/
theorem nextMidnight_iff :
    NextMidnight now t ↔ (t.toNat : ℤ) = midnight (localDay now.toNat) := by
  have hnow : (now.toNat : ℤ) < midnight (localDay now.toNat) := lt_midnight_iff.mpr le_rfl
  constructor
  · rintro ⟨hlt, hdvd, hfirst⟩
    rw [UInt32.lt_iff_toNat_lt] at hlt
    obtain ⟨D, ht⟩ := midnight_of_dvd hdvd
    have hle : localDay now.toNat ≤ D := lt_midnight_iff.mp (by omega)
    cases hle.eq_or_lt with
    | inl heq => rw [heq, ht]
    | inr hD =>
        -- an earlier midnight
        have hearlier := midnight_mono hD
        obtain ⟨n, hn⟩ := Int.eq_ofNat_of_zero_le (a := midnight (localDay now.toNat)) (by omega)
        have hnat : (UInt32.ofNat n).toNat = n := toNat_ofNat (by have := t.toNat_lt; omega)
        have htime := (localTime_midnight (localDay now.toNat)).mpr
          (show ((UInt32.ofNat n).toNat : ℤ) = _ by rw [hnat, hn])
        refine absurd ⟨localDay now.toNat + 1, by rw [htime, Nat.mul_comm]⟩
          (hfirst (UInt32.ofNat n) ?_ ?_)
        · rw [UInt32.lt_iff_toNat_lt, hnat]
          omega
        · rw [UInt32.lt_iff_toNat_lt, hnat]
          omega
  · intro ht
    refine ⟨?_, ⟨localDay now.toNat + 1, ?_⟩, fun u hu hut hdvd => ?_⟩
    · rw [UInt32.lt_iff_toNat_lt]
      omega
    · rw [(localTime_midnight _).mpr ht, Nat.mul_comm]
    · -- a midnight between the two is neither before the end of the day nor after it
      obtain ⟨D, hmid⟩ := midnight_of_dvd hdvd
      rw [UInt32.lt_iff_toNat_lt] at hu hut
      have hle : localDay now.toNat ≤ D := lt_midnight_iff.mp (by omega)
      cases hle.eq_or_lt with
      | inl heq =>
          rw [heq] at ht
          omega
      | inr hD =>
          have hlater := midnight_mono hD
          omega

/-- The next midnight has 32 bits except on the last day. -/
theorem midnight_lt_iff : midnight D < 2 ^ 32 ↔ D < lastDay := by
  have hlast : midnight lastDay = 4294940400 + (1440 : ℕ) * 60 := instant_last le_rfl
  unfold lastDay at *
  constructor
  · intro h
    by_contra hge
    rcases (Nat.le_of_not_lt hge).eq_or_lt with rfl | hlt
    · omega
    · have := midnight_mono hlt
      omega
  · intro h
    have hbounds := (instant_bounds D 1440).2
    unfold midnight
    omega

end midnights

/-! ### The cache -/

section calls

variable {L : TimeLib} {c : Clock} {now : UInt32} {D D' : ℕ} {cs : List Call}

/-- A structure belongs to one day. -/
theorem Tm.OnDay.unique {tm : Tm} (h : tm.OnDay D) (h' : tm.OnDay D') : D = D' := by
  have hyear : yearOf (D + epochDay) = yearOf (D' + epochDay) :=
    Int.ofNat_inj.mp (h.year.symm.trans h'.year)
  have hmon := Int.ofNat_inj.mp (h.mon.symm.trans h'.mon)
  have hmday := Int.ofNat_inj.mp (h.mday.symm.trans h'.mday)
  have hnumber := dayNumber_date (D + epochDay)
  rw [hyear] at hnumber hmon
  rw [hmon, hmday, dayNumber_date] at hnumber
  omega

/-- What today means for the cache. -/
theorem returnsToday_of_shows (h : (getStructTM L c now).Shows D) (hD : D ≤ lastDay) :
    ReturnsToday L c now ↔ D = localDay now.toNat ∧ D < lastDay := by
  unfold ReturnsToday getMidnight
  rw [nextMidnight_iff, h.nextMidnight, ← midnight_lt_iff]
  constructor
  · rintro ⟨hday, hmid⟩
    obtain rfl := h.day.unique hday
    refine ⟨rfl, ?_⟩
    rw [← hmid]
    exact_mod_cast (UInt32.ofInt (midnight (localDay now.toNat))).toNat_lt
  · rintro ⟨rfl, hfit⟩
    refine ⟨h.day, ofInt_toNat_of_lt ?_ hfit⟩
    exact instant_nonneg fun _ => by decide

/-- A day in the cache is given up for a later one, and kept otherwise. -/
theorem returnsToday_iff (hL : L.Exact) (h : c.Shows D) (hD : D < lastDay) :
    ReturnsToday L c now ↔ D ≤ localDay now.toNat ∧ localDay now.toNat < lastDay := by
  cases Nat.lt_or_ge (localDay now.toNat) D with
  | inl hback =>
      -- the clock was set back
      have hlt : (now.toNat : ℤ) < midnight D := lt_midnight_iff.mpr hback.le
      have hfit := midnight_lt_iff.mpr hD
      have hmid := ofInt_toNat_of_lt (instant_nonneg (D := D) (w := 1440) fun _ => by decide) hfit
      have hkeep : getStructTM L c now = c := by
        unfold getStructTM
        rw [if_neg]
        rw [h.nextMidnight, UInt32.not_le, UInt32.lt_iff_toNat_lt]
        unfold midnight at *
        omega
      have hshows : (getStructTM L c now).Shows D := hkeep.symm ▸ h
      rw [returnsToday_of_shows hshows hD.le]
      omega
  | inr hle =>
      have hshows := getStructTM_shows hL (Or.inr ⟨D, hle, h⟩ : c.Upto now)
      have hlast : localDay now.toNat ≤ lastDay := localDay_le_last now.toNat_lt
      rw [returnsToday_of_shows hshows hlast]
      exact ⟨fun hr => ⟨hle, hr.2⟩, fun hr => ⟨rfl, hr.2⟩⟩

/-- Days that never go back and come before the last one. -/
def Forward (ds : List ℕ) : Prop := ds.IsChain (· ≤ ·) ∧ ∀ d ∈ ds, d < lastDay

theorem forward_cons_cons {d : ℕ} {ds : List ℕ} :
    Forward (D :: d :: ds) ↔ (D ≤ d ∧ D < lastDay) ∧ Forward (d :: ds) := by
  unfold Forward
  rw [List.isChain_cons_cons, List.forall_mem_cons]
  tauto

theorem alwaysToday_cons (cl : Call) :
    AlwaysToday L c (cl :: cs) ↔
      (∀ now, cl = .get now → ReturnsToday L c now) ∧ AlwaysToday L (c.call L cl) cs := by
  unfold AlwaysToday
  rw [Run.visits, List.forall_mem_cons]

/-- The calls after a day has got into the cache. -/
theorem alwaysToday_iff (hL : L.Exact) (h : c.Shows D) (hD : D < lastDay) :
    AlwaysToday L c cs ↔ Forward (D :: days cs) := by
  induction cs generalizing c D with
  | nil => simp [AlwaysToday, Run.visits, days, Forward, hD]
  | cons cl cs ih =>
      rw [alwaysToday_cons]
      cases cl with
      | get now =>
          simp only [Call.get.injEq, forall_eq', days, forward_cons_cons,
            returnsToday_iff hL h hD]
          constructor
          · rintro ⟨⟨hle, hlast⟩, hrest⟩
            have hshows := getStructTM_shows hL (Or.inr ⟨D, hle, h⟩ : c.Upto now)
            exact ⟨⟨hle, hD⟩, (ih hshows hlast).mp hrest⟩
          · rintro ⟨⟨hle, -⟩, hrest⟩
            have hlast := hrest.2 _ List.mem_cons_self
            have hshows := getStructTM_shows hL (Or.inr ⟨D, hle, h⟩ : c.Upto now)
            exact ⟨⟨hle, hlast⟩, (ih hshows hlast).mpr hrest⟩
      | stamp hour min =>
          simp only [days, reduceCtorEq, false_implies, implies_true, true_and]
          exact ih (h.setTime hour min) hD

/-- The calls up to the first day: `_nextMidnight` is 0. -/
theorem alwaysToday_empty_iff (hL : L.Exact) (h : c.nextMidnight = 0) :
    AlwaysToday L c cs ↔ Forward (days cs) := by
  induction cs generalizing c with
  | nil => simp [AlwaysToday, Run.visits, days, Forward]
  | cons cl cs ih =>
      rw [alwaysToday_cons]
      cases cl with
      | get now =>
          have hshows := getStructTM_shows hL (Or.inl h : c.Upto now)
          simp only [Call.get.injEq, forall_eq', days,
            returnsToday_of_shows hshows (localDay_le_last now.toNat_lt), true_and]
          constructor
          · rintro ⟨hlast, hrest⟩
            exact (alwaysToday_iff hL hshows hlast).mp hrest
          · intro hrest
            have hlast := hrest.2 _ List.mem_cons_self
            exact ⟨hlast, (alwaysToday_iff hL hshows hlast).mpr hrest⟩
      | stamp hour min =>
          simp only [days, reduceCtorEq, false_implies, implies_true, true_and]
          exact ih h

end calls

/-! ### The theorem -/

/-- All calls of `getStructTM` return the date of their argument, and `getMidnight` the midnight after
it, exactly if the local dates of the arguments never go back and none of them is the last one. -/
theorem calendar_day_today_iff (L : TimeLib) (hL : L.Exact) (cs : List Call) :
    AlwaysToday L Clock.init cs ↔
      (days cs).IsChain (· ≤ ·) ∧ ∀ d ∈ days cs, d < lastDay :=
  alwaysToday_empty_iff hL rfl

/-- A day later, with a time switch evaluated in between. -/
theorem calendar_day_today_later :
    AlwaysToday exactTime Clock.init [.get 825764400, .stamp 20 0, .get 825850800] := by
  refine (calendar_day_today_iff exactTime exactTime_exact _).mpr ⟨?_, ?_⟩
  · decide +kernel
  · decide +kernel

/-- On 2026-03-03 the clock is set back by one day: `getStructTM` still returns 3 March. -/
theorem not_calendar_day_always_today :
    ¬ ∀ (L : TimeLib) (cs : List Call), L.Exact → AlwaysToday L Clock.init cs := by
  intro h
  have hback := h exactTime [.get 825850800, .get 825764400] exactTime_exact
    ((Clock.init.call exactTime (.get 825850800)), .get 825764400)
    (List.mem_cons_of_mem _ List.mem_cons_self) 825764400 rfl
  have hmday := hback.1.mday
  revert hmday
  decide +kernel

end TimeSwitch
