import TimeSwitch.LocalTime

/-! # Wall times

`calculateTimestamp` takes a wall time as winter time, looks up the daylight saving there, and
subtracts it.  The instant of the lookup is one hour or two away from the result.

`eu_dst` is constant within weeks, so it changes at most once between the two.  If it does not, then
the result has the wall time; if it falls back, then the wall time occurs twice, and the result is the
later one; if it springs forward, then the wall time does not occur (`calculateTimestamp_inverts`). -/

namespace TimeSwitch

/-- The local time of an instant, in seconds from 2000-01-01. -/
def localTime (t : UInt32) : ℕ := t.toNat + 3600 + (euDst t).toNat

/-- The local time of the minute `w` of the day `D` -/
def wallSecond (D w : ℕ) : ℕ := D * 86400 + w * 60

/-- An instant has this local time. -/
def Occurs (W : ℕ) : Prop := ∃ t, localTime t = W

/-- From one second to the next the local time jumps over this one. -/
def Skipped (W : ℕ) : Prop :=
  ∃ t : UInt32, t.toNat + 1 < 2 ^ 32 ∧ localTime t < W ∧ W < localTime (t + 1)

section wall

variable {w D h m r : ℕ} {t : UInt32} {L : TimeLib} {tm : Tm}

theorem localTime_eq (t : UInt32) : (localTime t : ℤ) = t.toNat + 3600 + euDstInt t.toNat := by
  unfold localTime
  rw [euDst_toNat, euDstInt_natCast]
  push_cast
  rfl

theorem toNat_ofNat {n : ℕ} (h : n < 2 ^ 32) : (UInt32.ofNat n).toNat = n :=
  UInt32.toNat_ofNat_of_lt h

theorem toNat_succ (h : t.toNat + 1 < 2 ^ 32) : (t + 1).toNat = t.toNat + 1 := by
  rw [UInt32.toNat_add]
  exact Nat.mod_eq_of_lt h

/-- The two instants that may have a local time. -/
theorem occurs_iff (hr : 3600 ≤ r) (hlt : r < 2 ^ 32) :
    Occurs (r + 3600) ↔ euDstInt r = 0 ∨ euDstInt ((r : ℤ) - 3600) = 3600 := by
  constructor
  · rintro ⟨t, ht⟩
    have h := localTime_eq t
    rcases euDstInt_cases t.toNat with h₀ | h₁
    · left
      have heq : (t.toNat : ℤ) = r := by omega
      rwa [heq] at h₀
    · right
      have heq : (t.toNat : ℤ) = r - 3600 := by omega
      rwa [heq] at h₁
  · rintro (h₀ | h₁)
    · refine ⟨UInt32.ofNat r, ?_⟩
      have h := localTime_eq (UInt32.ofNat r)
      rw [toNat_ofNat hlt, h₀] at h
      omega
    · refine ⟨UInt32.ofNat (r - 3600), ?_⟩
      have h := localTime_eq (UInt32.ofNat (r - 3600))
      rw [toNat_ofNat (by omega), Nat.cast_sub hr, Nat.cast_ofNat, h₁] at h
      omega

/-- An hour is skipped when `eu_dst` rises. -/
theorem skipped_iff (hr : 3600 ≤ r) (hlt : r < 2 ^ 32) :
    Skipped (r + 3600) ↔ euDstInt r = 3600 ∧ euDstInt ((r : ℤ) - 3600) = 0 := by
  constructor
  · rintro ⟨t, hsucc, hbefore, hafter⟩
    have h := localTime_eq t
    have h' := localTime_eq (t + 1)
    rw [toNat_succ hsucc] at h'
    have hrise : euDstInt t.toNat = 0 ∧ euDstInt ((t.toNat + 1 : ℕ) : ℤ) = 3600 := by
      rcases euDstInt_cases t.toNat with h₀ | h₁ <;>
        rcases euDstInt_cases ((t.toNat + 1 : ℕ) : ℤ) with h₀' | h₁' <;> omega
    -- the week begins after `t`
    have hweek : ((t.toNat : ℤ) + 514800) / 604800 ≠
        (((t.toNat + 1 : ℕ) : ℤ) + 514800) / 604800 := by
      intro hweek
      have heq := euDstInt_congr hweek
      omega
    constructor
    · rw [← hrise.2]
      apply euDstInt_congr
      omega
    · rw [← hrise.1]
      apply euDstInt_congr
      omega
  · rintro ⟨h₁, h₀⟩
    have hweek : ((r : ℤ) + 514800) / 604800 ≠ ((r : ℤ) - 3600 + 514800) / 604800 := by
      intro hweek
      rw [euDstInt_congr hweek, h₀] at h₁
      cases h₁
    -- the last second before the week
    obtain ⟨n, hn⟩ : ∃ n : ℕ, (n : ℤ) + 1 = (r + 514800) / 604800 * 604800 - 514800 :=
      ⟨((r + 514800) / 604800 * 604800 - 514800 - 1), by omega⟩
    have hsecond : (UInt32.ofNat n).toNat = n := toNat_ofNat (by omega)
    have hsucc : (UInt32.ofNat n).toNat + 1 < 2 ^ 32 := by omega
    have h := localTime_eq (UInt32.ofNat n)
    have h' := localTime_eq (UInt32.ofNat n + 1)
    rw [toNat_succ hsucc] at h'
    rw [hsecond] at h h'
    have hwinter : euDstInt (n : ℤ) = 0 := by
      rw [← h₀]
      apply euDstInt_congr
      omega
    have hsummer : euDstInt ((n + 1 : ℕ) : ℤ) = 3600 := by
      rw [← h₁]
      apply euDstInt_congr
      omega
    exact ⟨UInt32.ofNat n, hsucc, by omega, by omega⟩

/-- A wall time as winter time, and its instant. -/
theorem wall_winter (hD : 1 ≤ D) (hw : w ≤ 1440) (hfit : instant D w < 2 ^ 32) :
    ∃ r : ℕ, wallSecond D w = r + 3600 ∧ 3600 ≤ r ∧ r < 2 ^ 32 ∧ instant D w = r - euDstInt r := by
  have hbounds := instant_bounds D w
  obtain ⟨r, hr⟩ : ∃ r, wallSecond D w = r + 3600 :=
    ⟨wallSecond D w - 3600, by unfold wallSecond; omega⟩
  unfold wallSecond at hr
  have hcast : (D : ℤ) * 86400 + w * 60 - 3600 = r := by omega
  have hinstant : instant D w = r - euDstInt r := by
    unfold instant
    dsimp only
    rw [hcast]
  refine ⟨r, hr, by omega, ?_, hinstant⟩
  by_contra hge
  have hwinter : euDstInt r = 0 := by
    apply euDstInt_ends
    · omega
    · right
      omega
  omega

/-- **`calculateTimestamp` inverts local time.**  On every day after the first one, if the result fits
32 bits: the result has the wall time, and is the last instant that has it; if the wall time is skipped
then the local time of the result is one hour earlier. -/
theorem calculateTimestamp_inverts (L : TimeLib) (hL : L.ExactSeconds) (tm : Tm) (D h m : ℕ)
    (htm : tm.OnDay D) (hsec : tm.sec = 0) (hD : 1 ≤ D) (hw : h * 60 + m ≤ 1440)
    (hfit : instant D (h * 60 + m) < 2 ^ 32) :
    let t := (calculateTimestamp L tm h m).1
    let W := wallSecond D (h * 60 + m)
    (Occurs W → localTime t = W ∧ ∀ t', localTime t' = W → t' ≤ t) ∧
      (Skipped W → localTime t + 3600 = W) ∧ (Occurs W ∨ Skipped W) := by
  have hbounds := instant_bounds D (h * 60 + m)
  have heq := calculateTimestamp_eq hL htm hsec (by omega) hw
  obtain ⟨r, hr, hfirst, hlast, hres⟩ := wall_winter hD hw hfit
  have ht : ((calculateTimestamp L tm h m).1.toNat : ℤ) = r - euDstInt r := by
    rw [heq, ofInt_toNat_of_lt (by omega) hfit, hres]
  have hlocal := localTime_eq (calculateTimestamp L tm h m).1
  generalize (calculateTimestamp L tm h m).1 = t at *
  dsimp only
  rw [hr, occurs_iff hfirst hlast, skipped_iff hfirst hlast]
  refine ⟨fun hoccurs => ⟨?_, fun t' ht' => ?_⟩, fun hskipped => ?_, ?_⟩
  · rcases euDstInt_cases r with h₀ | h₁
    · have hnow : (t.toNat : ℤ) = r := by omega
      rw [hnow, h₀] at hlocal
      omega
    · have hnow : (t.toNat : ℤ) = r - 3600 := by omega
      have hsame : euDstInt ((r : ℤ) - 3600) = 3600 := hoccurs.resolve_left (by omega)
      rw [hnow, hsame] at hlocal
      omega
  · -- another instant with this local time is earlier
    have hlocal' := localTime_eq t'
    rw [UInt32.le_iff_toNat_le]
    rcases euDstInt_cases t'.toNat with h₀' | h₁'
    · have hnow' : (t'.toNat : ℤ) = r := by omega
      rw [hnow'] at h₀'
      omega
    · rcases euDstInt_cases r with h₀ | h₁ <;> omega
  · have hnow : (t.toNat : ℤ) = r - 3600 := by omega
    rw [hnow, hskipped.2] at hlocal
    omega
  · rcases euDstInt_cases r with h₀ | h₁
    · exact Or.inl (Or.inl h₀)
    · rcases euDstInt_cases ((r : ℤ) - 3600) with h₀' | h₁'
      · exact Or.inr ⟨h₁, h₀'⟩
      · exact Or.inl (Or.inr h₁')

end wall

/-- The structure of 2026-03-29, on which summer time begins. -/
def springTm : Tm := { exactTime.localtime 828097200 with sec := 0 }

theorem springTm_onDay : springTm.OnDay 9584 := by
  have hday : localDay (828097200 : UInt32).toNat = 9584 := by decide +kernel
  have h := exactTime_exact.localtime 828097200
  rw [hday] at h
  exact ⟨h.year, h.mon, h.mday, h.wday⟩

theorem calculateTimestamp_inverts_skipped : Skipped (wallSecond 9584 150) ∧
    localTime (calculateTimestamp exactTime springTm 2 30).1 + 3600 = wallSecond 9584 150 := by
  have hskipped : Skipped (wallSecond 9584 150) :=
    ⟨828061199, by decide, by decide +kernel, by decide +kernel⟩
  exact ⟨hskipped, (calculateTimestamp_inverts exactTime exactTime_exact.mkGmtime springTm 9584 2 30
    springTm_onDay rfl (by decide) (by decide) (by decide +kernel)).2.1 hskipped⟩

end TimeSwitch
