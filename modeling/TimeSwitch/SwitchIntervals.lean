import TimeSwitch.Schedule
import TimeSwitch.WallTime

/-! # The on-intervals of the time switches

A wall time in the hour that is skipped in spring is taken an hour earlier.  So on this day the order
of two wall times is lost if the second one is in the skipped hour, the first one before it, and an
hour or less lies between them (`Vanishes`); the switch is not on at all then.  On all other days the
order is kept. -/

namespace TimeSwitch.Rules

/-- The later wall time is skipped, the earlier one is not, and at most an hour is between them. -/
def Vanishes (D w₁ w₂ : ℕ) : Prop :=
  w₂ ≤ w₁ + 60 ∧ ¬ Skipped (wallSecond D w₁) ∧ Skipped (wallSecond D w₂)

section intervals

variable {D w w₁ w₂ h m h' m' : ℕ} {L : TimeLib} {tm : Tm} {wdays : UInt8}

/-- **The order of two wall times** is the one of their instants, unless the interval vanishes. -/
theorem instant_lt_iff (hD : 1 ≤ D) (hlt : w₁ < w₂) (hle : w₂ ≤ 1440)
    (hfit₁ : instant D w₁ < 2 ^ 32) (hfit₂ : instant D w₂ < 2 ^ 32) :
    instant D w₁ < instant D w₂ ↔ ¬ Vanishes D w₁ w₂ := by
  obtain ⟨r₁, hr₁, hfirst₁, hlast₁, hinst₁⟩ := wall_winter hD (hlt.le.trans hle) hfit₁
  obtain ⟨r₂, hr₂, hfirst₂, hlast₂, hinst₂⟩ := wall_winter hD hle hfit₂
  have hnear : w₂ ≤ w₁ + 60 ↔ r₂ ≤ r₁ + 3600 := by
    unfold wallSecond at hr₁ hr₂
    omega
  have horder : r₁ < r₂ := by
    unfold wallSecond at hr₁ hr₂
    omega
  unfold Vanishes
  rw [hnear, hinst₁, hinst₂, hr₁, hr₂, skipped_iff hfirst₁ hlast₁, skipped_iff hfirst₂ hlast₂]
  have hweeks : ∀ a b : ℤ, euDstInt a ≠ euDstInt b →
      (a + 514800) / 604800 ≠ (b + 514800) / 604800 := fun a b h hw => h (euDstInt_congr hw)
  rcases euDstInt_cases r₂ with hwinter₂ | hsummer₂
  · -- it is winter at the later one
    rw [hwinter₂]
    rcases euDstInt_cases r₁ with h | h <;> rw [h] <;> omega
  · rw [hsummer₂]
    rcases euDstInt_cases r₁ with hwinter₁ | hsummer₁
    · -- summer begins between the two
      have hbetween := hweeks r₁ r₂ (by omega)
      have hearlier : r₂ ≤ r₁ + 3600 → euDstInt ((r₂ : ℤ) - 3600) = 0 := by
        intro hclose
        rw [← hwinter₁]
        apply euDstInt_congr
        omega
      rw [hwinter₁]
      constructor
      · intro h hv
        omega
      · intro h
        by_contra hc
        have hclose : r₂ ≤ r₁ + 3600 := by omega
        exact h ⟨hclose, by omega, rfl, hearlier hclose⟩
    · -- summer does not begin twice in an hour
      rw [hsummer₁]
      constructor
      · rintro - ⟨hclose, hearlier₁, -, hearlier₂⟩
        have h₁ := hweeks r₁ ((r₂ : ℤ) - 3600) (by omega)
        have hcases := euDstInt_cases ((r₁ : ℤ) - 3600)
        have h₂ := hweeks ((r₁ : ℤ) - 3600) ((r₂ : ℤ) - 3600) (by omega)
        omega
      · intro _
        omega

theorem calculateTimestamp_toNat (hL : L.ExactSeconds) (htm : tm.OnDay D) (hsec : tm.sec = 0)
    (hD : 1 ≤ D) (hw : h * 60 + m ≤ 1440) (hfit : instant D (h * 60 + m) < 2 ^ 32) :
    ((calculateTimestamp L tm h m).1.toNat : ℤ) = instant D (h * 60 + m) := by
  have hbounds := instant_bounds D (h * 60 + m)
  rw [calculateTimestamp_eq hL htm hsec (by omega) hw, ofInt_toNat_of_lt (by omega) hfit]

/-- The switch is on at some time of an enabled day if its start is before its stop. -/
theorem evalTimeSwitch_on_iff (hL : L.Exact) (htm : tm.OnDay D) (hsec : tm.sec = 0) (hD : 1 ≤ D)
    (hw : WallTimes h m h' m') (hfit₁ : instant D (h * 60 + m) < 2 ^ 32) (hon : EnabledOn wdays D) :
    (∃ now : UInt32, localDay now.toNat = D ∧
      (evalTimeSwitch L Clock.init now wdays h m h' m').1 ≠ 0) ↔
      (calculateTimestamp L tm h m).1 < (calculateTimestamp L tm h' m').1 := by
  have hbounds := instant_bounds D (h * 60 + m)
  have hstart := calculateTimestamp_eq hL.mkGmtime htm hsec (by omega) (hw.2.2.1.le.trans hw.2.2.2)
  have hstop := calculateTimestamp_eq hL.mkGmtime htm hsec (by omega) hw.2.2.2
  have hvalue : ∀ now : UInt32, localDay now.toNat = D →
      ((evalTimeSwitch L Clock.init now wdays h m h' m').1 ≠ 0 ↔
        (calculateTimestamp L tm h m).1 ≤ now ∧ now < (calculateTimestamp L tm h' m').1) := by
    intro now hday
    have heq := evalTimeSwitch_eq wdays hL (c := Clock.init) (Or.inl rfl : Clock.init.Upto now) hw
    dsimp only at heq
    rw [hday, if_pos hon, ← hstart, ← hstop] at heq
    rw [← UInt32.not_lt]
    split_ifs at heq with hbefore hduring
    · rw [(Prod.mk.inj heq).1]
      exact iff_of_false (fun h => h rfl) fun h => h.1 hbefore
    · rw [(Prod.mk.inj heq).1]
      refine iff_of_true (fun hzero => ?_) ⟨hbefore, hduring⟩
      have hle := UInt32.le_iff_toNat_le.mp (UInt32.le_of_lt hduring)
      have hsub := UInt32.toNat_sub_of_le _ _ (UInt32.le_of_lt hduring)
      rw [hzero] at hsub
      rw [UInt32.lt_iff_toNat_lt] at hduring
      rw [UInt32.toNat_zero] at hsub
      omega
    · rw [(Prod.mk.inj heq).1]
      exact iff_of_false (fun h => h rfl) fun h => hduring h.2
  constructor
  · rintro ⟨now, hday, hne⟩
    obtain ⟨hl, hr⟩ := (hvalue now hday).mp hne
    exact UInt32.lt_of_le_of_lt hl hr
  · intro hlt
    have hnat := calculateTimestamp_toNat hL.mkGmtime htm hsec hD (hw.2.2.1.le.trans hw.2.2.2) hfit₁
    have hday := localDay_instant hD (hw.2.2.1.trans_le hw.2.2.2) hnat
    exact ⟨_, hday, (hvalue _ hday).mpr ⟨UInt32.le_refl _, hlt⟩⟩

/-- **When the interval of a time switch vanishes.**  On every day after the first one, if the instants
fit 32 bits: the start is before the stop, and the switch is on at some time of the day if its weekday
is enabled, unless the stop falls into the hour that is skipped in spring and the start is before this
hour and at most an hour before the stop. -/
theorem intervals_vanish_iff (L : TimeLib) (hL : L.Exact) (tm : Tm) (D h m h' m' : ℕ)
    (htm : tm.OnDay D) (hsec : tm.sec = 0) (hD : 1 ≤ D) (hw : WallTimes h m h' m')
    (hfit₁ : instant D (h * 60 + m) < 2 ^ 32) (hfit₂ : instant D (h' * 60 + m') < 2 ^ 32) :
    ((calculateTimestamp L tm h m).1 < (calculateTimestamp L tm h' m').1 ↔
      ¬ Vanishes D (h * 60 + m) (h' * 60 + m')) ∧
    ∀ wdays, EnabledOn wdays D → ((∃ now : UInt32, localDay now.toNat = D ∧
      (evalTimeSwitch L Clock.init now wdays h m h' m').1 ≠ 0) ↔
        ¬ Vanishes D (h * 60 + m) (h' * 60 + m')) := by
  have hnat₁ := calculateTimestamp_toNat hL.mkGmtime htm hsec hD (hw.2.2.1.le.trans hw.2.2.2) hfit₁
  have hnat₂ := calculateTimestamp_toNat hL.mkGmtime htm hsec hD hw.2.2.2 hfit₂
  have horder : (calculateTimestamp L tm h m).1 < (calculateTimestamp L tm h' m').1 ↔
      ¬ Vanishes D (h * 60 + m) (h' * 60 + m') := by
    rw [← instant_lt_iff hD hw.2.2.1 hw.2.2.2 hfit₁ hfit₂, ← hnat₁, ← hnat₂, Int.ofNat_lt,
      UInt32.lt_iff_toNat_lt]
  refine ⟨horder, fun wdays hon => ?_⟩
  rw [evalTimeSwitch_on_iff hL htm hsec hD hw hfit₁ hon, horder]

end intervals

theorem intervals_vanish_iff_summer :
    (calculateTimestamp exactTime springTm 1 30).1 < (calculateTimestamp exactTime springTm 3 0).1 ↔
      ¬ Vanishes 9584 90 180 :=
  (intervals_vanish_iff exactTime exactTime_exact springTm 9584 1 30 3 0 springTm_onDay rfl (by decide)
    (by decide) (by decide +kernel) (by decide +kernel)).1

/-- The structure of 2136-02-07, on which the 32 bits end. -/
def lastTm : Tm := { exactTime.localtime 4294950000 with sec := 0 }

theorem lastTm_onDay : lastTm.OnDay 49710 := by
  have hday : localDay (4294950000 : UInt32).toNat = 49710 := by decide +kernel
  have h := exactTime_exact.localtime 4294950000
  rw [hday] at h
  exact ⟨h.year, h.mon, h.mday, h.wday⟩

/-- The instants of two wall times are in order on every day after the first one, if `ok` holds. -/
def KeepsOrder (ok : ℕ → ℕ → ℕ → Prop) : Prop :=
  ∀ (tm : Tm) (D h m h' m' : ℕ), tm.OnDay D → tm.sec = 0 → 1 ≤ D → WallTimes h m h' m' →
    ok D (h * 60 + m) (h' * 60 + m') →
      (calculateTimestamp exactTime tm h m).1 < (calculateTimestamp exactTime tm h' m').1

/-- They are not from 01:30 to 02:00 on 2026-03-29, nor from 07:00 to 09:00 on 2136-02-07, whose second
instant has more than 32 bits. -/
theorem not_intervals_never_vanish :
    ¬ KeepsOrder (fun _ _ _ => True) ∧ ¬ KeepsOrder (fun D _ w₂ => instant D w₂ < 2 ^ 32) ∧
      ¬ KeepsOrder (fun D w₁ w₂ => ¬ Vanishes D w₁ w₂) := by
  have hspring : ¬ (calculateTimestamp exactTime springTm 1 30).1 <
      (calculateTimestamp exactTime springTm 2 0).1 := by decide +kernel
  have hlast : ¬ (calculateTimestamp exactTime lastTm 7 0).1 <
      (calculateTimestamp exactTime lastTm 9 0).1 := by decide +kernel
  refine ⟨fun hclaim => hspring ?_, fun hclaim => hspring ?_, fun hclaim => hlast ?_⟩
  · exact hclaim springTm 9584 1 30 2 0 springTm_onDay rfl (by decide) (by decide) trivial
  · exact hclaim springTm 9584 1 30 2 0 springTm_onDay rfl (by decide) (by decide)
      (by decide +kernel)
  · exact hclaim lastTm 49710 7 0 9 0 lastTm_onDay rfl (by decide) (by decide)
      fun hv => absurd hv.1 (by decide)

end TimeSwitch.Rules
