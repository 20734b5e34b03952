import TimeSwitch.LocalTime
import TimeSwitch.Propagation

/-! # Time switches

A time switch is evaluated only when its timer expires, which is set to the next time at which its
value may change: the start, the next midnight, or the next second.  All of these are instants of 32
bits.  The calendar day is cached, and shared by all time switches.

A run keeps that the value is the right one until the timer expires (`Asleep`), and that the cached
day is not in the future (`Clock.Upto`).  An evaluation establishes both if the instants it uses
fit. -/

namespace TimeSwitch

open Gregorian

/-! ### The cached day -/

/-- The cache holds the day `D`. -/
structure Clock.Shows (c : Clock) (D : ℕ) : Prop where
  day : c.tm.OnDay D
  sec : c.tm.sec = 0
  nextMidnight : c.nextMidnight = UInt32.ofInt (midnight D)

/-- The cache is empty or holds a day that has begun. -/
def Clock.Upto (c : Clock) (now : UInt32) : Prop :=
  c.nextMidnight = 0 ∨ ∃ D ≤ localDay now.toNat, c.Shows D

section cache

variable {L : TimeLib} {c : Clock} {now t : UInt32} {D : ℕ}

theorem Clock.Upto.later (h : c.Upto now) (hle : now ≤ t) : c.Upto t := by
  refine h.imp_right ?_
  rintro ⟨D, hD, hs⟩
  exact ⟨D, hD.trans (localDay_mono (UInt32.le_iff_toNat_le.mp hle)), hs⟩

/-- Before the next midnight it is still the same day; on the last day the midnight has wrapped and is
in the past. -/
theorem localDay_eq_of_lt (hD : D ≤ localDay t.toNat) (h : t < UInt32.ofInt (midnight D)) :
    localDay t.toNat = D := by
  have ht : t.toNat < 2 ^ 32 := t.toNat_lt
  have hlt : (t.toNat : ℤ) < (UInt32.ofInt (midnight D)).toNat :=
    Int.ofNat_lt.mpr (UInt32.lt_iff_toNat_lt.mp h)
  rw [ofInt_toNat] at hlt
  have hday := localDay_bounds t.toNat
  have hmid := instant_bounds D 1440
  cases lt_or_ge (midnight D) (2 ^ 32) with
  | inl hfit =>
      refine le_antisymm (lt_midnight_iff.mp ?_) hD
      unfold midnight at hlt hfit ⊢
      omega
  | inr hwrap =>
      unfold midnight at hlt hwrap
      omega

theorem getStructTM_shows (hL : L.Exact) (h : c.Upto now) :
    (getStructTM L c now).Shows (localDay now.toNat) := by
  unfold getStructTM
  split_ifs with hle
  · have hday := hL.localtime now
    have hlast := localDay_le_last now.toNat_lt
    refine ⟨⟨hday.year, hday.mon, hday.mday, hday.wday⟩, rfl, ?_⟩
    exact calculateTimestamp_eq (h := 24) (m := 0) hL.mkGmtime
      ⟨hday.year, hday.mon, hday.mday, hday.wday⟩ rfl hlast le_rfl
  · rcases h with h | ⟨D, hD, hs⟩
    · rw [h] at hle
      exact absurd (UInt32.zero_le ..) hle
    · rw [hs.nextMidnight, UInt32.not_le] at hle
      rwa [localDay_eq_of_lt hD hle]

/-- Hours and minutes do not belong to the day. -/
theorem Clock.Shows.setTime (h : c.Shows D) (hour min : ℤ) :
    Clock.Shows { c with tm := { c.tm with hour := hour, min := min } } D :=
  ⟨⟨h.day.year, h.day.mon, h.day.mday, h.day.wday⟩, h.sec, h.nextMidnight⟩

end cache

namespace Rules

/-! ### The value of a time switch -/

/-- The times of a rule: the start is before the stop, which is at most 24:00. -/
def WallTimes (starthour startmin stophour stopmin : ℕ) : Prop :=
  startmin < 60 ∧ stopmin < 60 ∧ starthour * 60 + startmin < stophour * 60 + stopmin ∧
    stophour * 60 + stopmin ≤ 1440

/-- The weekday of the day is enabled. -/
def EnabledOn (wdays : UInt8) (D : ℕ) : Prop := wdays.toNat.testBit (weekday (D + epochDay)) = true

instance (wdays : UInt8) (D : ℕ) : Decidable (EnabledOn wdays D) := by
  unfold EnabledOn; infer_instance

/-- The value of a time switch at `now`, from the minute `w₁` to the minute `w₂`. -/
def switchValue (wdays : UInt8) (w₁ w₂ now : ℕ) : ℤ :=
  let D := localDay now
  if EnabledOn wdays D ∧ instant D w₁ ≤ now ∧ now < instant D w₂ then instant D w₂ - now else 0

/-- The instants of today that the rule uses at `now` have 32 bits. -/
def Fits (wdays : UInt8) (w₁ w₂ now : ℕ) : Prop :=
  EnabledOn wdays (localDay now) → 0 ≤ instant (localDay now) w₁ ∧
    (instant (localDay now) w₁ ≤ now → instant (localDay now) w₂ < 2 ^ 32)

instance (h m h' m' : ℕ) : Decidable (WallTimes h m h' m') := by unfold WallTimes; infer_instance
instance (wdays : UInt8) (w₁ w₂ now : ℕ) : Decidable (Fits wdays w₁ w₂ now) := by
  unfold Fits; infer_instance

/-- The value is `v` from `now` until the timer expires. -/
def Asleep (f : ℕ → ℤ) (now timer v : UInt32) : Prop :=
  ∀ t : UInt32, now ≤ t → t < timer → 5 ≤ t → f t.toNat = v.toNat

section evaluation

variable {L : TimeLib} {c : Clock} {now t : UInt32} {wdays : UInt8} {D n w₁ w₂ h m h' m' : ℕ}

theorem switchValue_disabled (hd : ¬ EnabledOn wdays (localDay n)) :
    switchValue wdays w₁ w₂ n = 0 := if_neg fun hc => hd hc.1

theorem switchValue_before (hlt : n < instant (localDay n) w₁) : switchValue wdays w₁ w₂ n = 0 :=
  if_neg fun hc => (Int.not_le.mpr hlt) hc.2.1

theorem switchValue_after (hle : instant (localDay n) w₂ ≤ n) : switchValue wdays w₁ w₂ n = 0 :=
  if_neg fun hc => (Int.not_lt.mpr hle) hc.2.2

theorem switchValue_on (hd : EnabledOn wdays (localDay n)) (h₁ : instant (localDay n) w₁ ≤ n)
    (h₂ : n < instant (localDay n) w₂) :
    switchValue wdays w₁ w₂ n = instant (localDay n) w₂ - n := if_pos ⟨hd, h₁, h₂⟩

/-- The weekday in the cache is the one of the day. -/
theorem onWeekday_iff (hc : c.Shows D) : onWeekday wdays c.tm = true ↔ EnabledOn wdays D := by
  unfold onWeekday EnabledOn
  rw [hc.day.wday, Int.toNat_natCast]

/-- A time switch leaves the cache at today. -/
theorem evalTimeSwitch_shows (hL : L.Exact) (hc : c.Upto now) :
    (evalTimeSwitch L c now wdays h m h' m').2.2.Shows (localDay now.toNat) := by
  have hshow := getStructTM_shows hL hc
  unfold evalTimeSwitch
  dsimp only
  split_ifs
  · exact hshow.setTime h m
  · exact (hshow.setTime h m).setTime h' m'
  · exact (hshow.setTime h m).setTime h' m'
  · exact hshow

/-- A value of 0 until midnight. -/
theorem asleep_until_midnight
    (hoff : ∀ t : UInt32, now ≤ t → localDay t.toNat = localDay now.toNat →
      switchValue wdays w₁ w₂ t.toNat = 0) :
    Asleep (switchValue wdays w₁ w₂) now (UInt32.ofInt (midnight (localDay now.toNat))) 0 := by
  intro t hle hlt _
  have hday := localDay_eq_of_lt (localDay_mono (UInt32.le_iff_toNat_le.mp hle)) hlt
  exact hoff t hle hday

/-- How the code compares the clock with an instant of today: an instant behind the 32 bits is in the
past. -/
theorem lt_ofInt_instant {w : ℕ} (hw : w ≤ 1440) (h₀ : 0 ≤ instant (localDay now.toNat) w) :
    now < UInt32.ofInt (instant (localDay now.toNat) w) ↔
      now.toNat < instant (localDay now.toNat) w ∧ instant (localDay now.toNat) w < 2 ^ 32 := by
  have hbounds := localDay_bounds now.toNat
  have hlast := localDay_le_last now.toNat_lt
  have hinst := (instant_bounds (localDay now.toNat) w).2
  have hlt : now < UInt32.ofInt (instant (localDay now.toNat) w) ↔
      (now.toNat : ℤ) < instant (localDay now.toNat) w % 2 ^ 32 := by
    rw [← ofInt_toNat, Int.ofNat_lt, UInt32.lt_iff_toNat_lt]
  rw [hlt]
  cases lt_or_ge (instant (localDay now.toNat) w) (2 ^ 32) with
  | inl hfit =>
      rw [Int.emod_eq_of_lt h₀ hfit]
      exact (and_iff_left hfit).symm
  | inr hwrap =>
      constructor
      · intro h
        omega
      · intro h
        omega

/-- If the start is not before the time, then the stop is not either. -/
theorem instant_stop_nonneg (hlt : w₁ < w₂) (hle : w₂ ≤ 1440) (h₀ : 0 ≤ instant D w₁) :
    0 ≤ instant D w₂ := by
  apply instant_nonneg
  rintro rfl
  rw [instant_first (hlt.le.trans hle)] at h₀
  omega

/-- If the start has wrapped, then the stop has as well. -/
theorem instant_stop_wrapped (hD : D ≤ 49710) (hlt : w₁ < w₂) (hle : w₂ ≤ 1440)
    (h : 2 ^ 32 ≤ instant D w₁) : 2 ^ 32 ≤ instant D w₂ := by
  have hlast : D = 49710 := by
    have := (instant_bounds D w₁).2
    omega
  subst hlast
  rw [instant_last (hlt.le.trans hle)] at h
  rw [instant_last hle]
  omega

/-- Value and timer of an evaluation. -/
theorem evalTimeSwitch_eq (wdays : UInt8) (hL : L.Exact) (hc : c.Upto now)
    (hw : WallTimes h m h' m') :
    let r := evalTimeSwitch L c now wdays h m h' m'
    let D := localDay now.toNat
    let start := UInt32.ofInt (instant D (h * 60 + m))
    let stop := UInt32.ofInt (instant D (h' * 60 + m'))
    (r.1, r.2.1) =
      if EnabledOn wdays D then
        if now < start then (0, start)
        else if now < stop then (stop - now, now + 1) else (0, UInt32.ofInt (midnight D))
      else (0, UInt32.ofInt (midnight D)) := by
  obtain ⟨-, -, hlt, hle⟩ := hw
  have hshow := getStructTM_shows hL hc
  have hlast := localDay_le_last now.toNat_lt
  have hstart : (calculateTimestamp L (getStructTM L c now).tm h m).1 =
      UInt32.ofInt (instant (localDay now.toNat) (h * 60 + m)) :=
    calculateTimestamp_eq hL.mkGmtime hshow.day hshow.sec hlast (hlt.le.trans hle)
  have hset := hshow.setTime h m
  have hstop : (calculateTimestamp L
      { (getStructTM L c now).tm with hour := h, min := m } h' m').1 =
      UInt32.ofInt (instant (localDay now.toNat) (h' * 60 + m')) :=
    calculateTimestamp_eq hL.mkGmtime hset.day hset.sec hlast hle
  unfold evalTimeSwitch
  simp only [onWeekday_iff hshow, calculateTimestamp_tm, hstart, hstop, getMidnight,
    hshow.nextMidnight]
  split_ifs <;> rfl

/-- A value of 0 until the start. -/
theorem asleep_until_start (hw : w₁ ≤ 1440) (h₀ : 0 ≤ instant (localDay now.toNat) w₁)
    (hbefore : instant (localDay now.toNat) w₁ < 2 ^ 32) :
    Asleep (switchValue wdays w₁ w₂) now (UInt32.ofInt (instant (localDay now.toNat) w₁)) 0 := by
  intro t hnt ht _
  have hstart := ofInt_toNat_of_lt h₀ hbefore
  have hts : (t.toNat : ℤ) < instant (localDay now.toNat) w₁ := by
    rw [← hstart]
    exact Int.ofNat_lt.mpr (UInt32.lt_iff_toNat_lt.mp ht)
  have hday : localDay t.toNat = localDay now.toNat :=
    le_antisymm (lt_midnight_iff.mp (hts.trans_le (instant_le_midnight hw)))
      (localDay_mono (UInt32.le_iff_toNat_le.mp hnt))
  exact switchValue_before (hday ▸ hts)

/-- The countdown to the stop. -/
theorem switchValue_countdown (hon : EnabledOn wdays (localDay now.toNat))
    (hstart : instant (localDay now.toNat) w₁ ≤ now.toNat)
    (hduring : now.toNat < instant (localDay now.toNat) w₂)
    (hfit : instant (localDay now.toNat) w₂ < 2 ^ 32) :
    switchValue wdays w₁ w₂ now.toNat =
      (UInt32.ofInt (instant (localDay now.toNat) w₂) - now).toNat := by
  have hstop := ofInt_toNat_of_lt (by omega) hfit
  have hsub : (UInt32.ofInt (instant (localDay now.toNat) w₂) - now).toNat =
      (UInt32.ofInt (instant (localDay now.toNat) w₂)).toNat - now.toNat := by
    apply UInt32.toNat_sub_of_le
    rw [UInt32.le_iff_toNat_le]
    omega
  rw [switchValue_on hon hstart hduring, hsub]
  omega

/-- A value for one second. -/
theorem asleep_one_second {f : ℕ → ℤ} {v : UInt32} (hv : f now.toNat = v.toNat)
    (hlt : now.toNat + 1 < 2 ^ 32) : Asleep f now (now + 1) v := by
  intro t hnt ht _
  have hnext : (now + 1).toNat = now.toNat + 1 := by
    rw [UInt32.toNat_add]
    exact Nat.mod_eq_of_lt hlt
  have htn : t = now := by
    rw [UInt32.le_iff_toNat_le] at hnt
    rw [UInt32.lt_iff_toNat_lt, hnext] at ht
    apply UInt32.toNat_inj.mp
    omega
  rw [htn, hv]

/-- A value of 0 after the stop, or before a start behind the 32 bits. -/
theorem switchValue_over (hbefore : ¬ (now.toNat < instant (localDay now.toNat) w₁ ∧
      instant (localDay now.toNat) w₁ < 2 ^ 32))
    (hduring : ¬ (now.toNat < instant (localDay now.toNat) w₂ ∧
      instant (localDay now.toNat) w₂ < 2 ^ 32))
    (hfit : instant (localDay now.toNat) w₁ ≤ now.toNat → instant (localDay now.toNat) w₂ < 2 ^ 32)
    (hnt : now ≤ t) (hday : localDay t.toNat = localDay now.toNat) :
    switchValue wdays w₁ w₂ t.toNat = 0 := by
  have ht : t.toNat < 2 ^ 32 := t.toNat_lt
  rw [UInt32.le_iff_toNat_le] at hnt
  by_cases hstarted : instant (localDay now.toNat) w₁ ≤ now.toNat
  · have hstopped : instant (localDay now.toNat) w₂ ≤ now.toNat :=
      Int.not_lt.mp fun h => hduring ⟨h, hfit hstarted⟩
    apply switchValue_after
    rw [hday]
    omega
  · have hwrap : 2 ^ 32 ≤ instant (localDay now.toNat) w₁ :=
      Int.not_lt.mp fun h => hbefore ⟨Int.not_le.mp hstarted, h⟩
    apply switchValue_before
    rw [hday]
    omega

/-- **An evaluation** gives the value of the time switch, and the timer is set to a time until which
the value stays. -/
theorem evalTimeSwitch_spec (hL : L.Exact) (hc : c.Upto now) (hw : WallTimes h m h' m')
    (hfit : Fits wdays (h * 60 + m) (h' * 60 + m') now.toNat) :
    let r := evalTimeSwitch L c now wdays h m h' m'
    switchValue wdays (h * 60 + m) (h' * 60 + m') now.toNat = r.1.toNat ∧
      Asleep (switchValue wdays (h * 60 + m) (h' * 60 + m')) now r.2.1 r.1 := by
  have heq := evalTimeSwitch_eq wdays hL hc hw
  obtain ⟨-, -, hlt, hle⟩ := hw
  generalize h * 60 + m = w₁, h' * 60 + m' = w₂ at *
  dsimp only at heq ⊢
  obtain ⟨v, hv⟩ : ∃ v, (evalTimeSwitch L c now wdays h m h' m').1 = v := ⟨_, rfl⟩
  obtain ⟨timer, htimer⟩ : ∃ timer, (evalTimeSwitch L c now wdays h m h' m').2.1 = timer := ⟨_, rfl⟩
  rw [hv, htimer] at heq ⊢
  -- the value is 0 for the rest of the day
  have hoff : (∀ t : UInt32, now ≤ t → localDay t.toNat = localDay now.toNat →
      switchValue wdays w₁ w₂ t.toNat = 0) →
      (v, timer) = (0, UInt32.ofInt (midnight (localDay now.toNat))) →
      switchValue wdays w₁ w₂ now.toNat = v.toNat ∧ Asleep (switchValue wdays w₁ w₂) now timer v := by
    intro ht h
    obtain ⟨rfl, rfl⟩ := Prod.mk.inj h
    exact ⟨ht now (UInt32.le_refl now) rfl, asleep_until_midnight ht⟩
  by_cases hon : EnabledOn wdays (localDay now.toNat)
  · obtain ⟨h₀, hstop₁⟩ := hfit hon
    have hstop₀ := instant_stop_nonneg hlt hle h₀
    simp only [if_pos hon, lt_ofInt_instant (hlt.le.trans hle) h₀, lt_ofInt_instant hle hstop₀] at heq
    split_ifs at heq with hbefore hduring
    · obtain ⟨rfl, rfl⟩ := Prod.mk.inj heq
      exact ⟨switchValue_before hbefore.1, asleep_until_start (hlt.le.trans hle) h₀ hbefore.2⟩
    · obtain ⟨rfl, rfl⟩ := Prod.mk.inj heq
      have hstart : instant (localDay now.toNat) w₁ ≤ now.toNat := by
        by_contra hc
        have hwrap : 2 ^ 32 ≤ instant (localDay now.toNat) w₁ :=
          Int.not_lt.mp fun h => hbefore ⟨Int.not_le.mp hc, h⟩
        have := instant_stop_wrapped (localDay_le_last now.toNat_lt) hlt hle hwrap
        omega
      have hvalue := switchValue_countdown hon hstart hduring.1 hduring.2
      exact ⟨hvalue, asleep_one_second hvalue (by omega)⟩
    · exact hoff (fun t hnt hday => switchValue_over hbefore hduring hstop₁ hnt hday) heq
  · rw [if_neg hon] at heq
    exact hoff (fun t _ hday => switchValue_disabled (hday ▸ hon)) heq

end evaluation

/-! ### Passes -/

/-- The clock of the rules and the timer and the value of the rule `i` are the same. -/
structure SameSwitch (i : ℕ) (s s' : Network) : Prop where
  clock : s'.clock = s.clock
  timer : (s'.rule i).timer = (s.rule i).timer
  value : (s'.rule i).value = (s.rule i).value

section passes

variable {T : RuleTable} {L : TimeLib} {uplink : ℕ → Uplink} {s s' s'' : Network} {i j : ℕ}

theorem SameSwitch.refl (i : ℕ) (s : Network) : SameSwitch i s s := ⟨rfl, rfl, rfl⟩

theorem SameSwitch.trans (h : SameSwitch i s s') (h' : SameSwitch i s' s'') : SameSwitch i s s'' :=
  ⟨h'.clock.trans h.clock, h'.timer.trans h.timer, h'.value.trans h.value⟩

theorem sameSwitch_setOk (s : Network) (i j : ℕ) (b : RuleOK) : SameSwitch i s (s.setOk j b) := by
  by_cases h : i = j
  · subst h
    constructor <;> simp [Network.setOk, Network.setRule]
  · constructor <;> simp [Network.setOk, Network.setRule, h]

theorem sameSwitch_send (s : Network) (i : ℕ) (d : Sending) : SameSwitch i s (s.send d) :=
  ⟨rfl, rfl, rfl⟩

theorem processNetworkPackets_clock (packet : Option Datagram) :
    (processNetworkPackets T s packet).clock = s.clock := by
  rcases processNetworkPackets_cases (T := T) (s := s) packet with he | ⟨d, -, ⟨-, he⟩ | ⟨-, he⟩⟩
  · rw [he]
  · rcases udpCallbackRequest_cases (T := T) (s := s) d.data d.destinationPort with
      hr | ⟨i, -, -, hr⟩
    · rw [he, hr]
    · rw [he, hr]
      rfl
  · rcases udpCallbackReply_cases (T := T) (s := s) d.data d.sourceIP d.sourcePort with
      hr | ⟨i, -, ⟨_, _, _, _, _, _, hr | hr⟩ | hr⟩
    · rw [he, hr]
    · rw [he, hr]
    · rw [he, hr]
      rfl
    · rw [he, hr]
      rfl

/-- A packet changes no time switch. -/
theorem sameSwitch_packet (hi : (T.rule i).isLocal = true) (packet : Option Datagram) :
    SameSwitch i s (processNetworkPackets T s packet) := by
  have hclock := processNetworkPackets_clock (T := T) (s := s) packet
  cases processNetworkPackets_effect (T := T) (s := s) packet with
  | none hr _ _ => exact ⟨hclock, by rw [hr], by rw [hr]⟩
  | answer j port _ _ he =>
      rw [he]
      exact (sameSwitch_send s i _).trans (sameSwitch_setOk _ i j .ok)
  | reply j timer v hj hr _ _ =>
      have hne : i ≠ j := by
        rintro rfl
        rw [hi] at hj
        cases hj
      have hrule : (processNetworkPackets T s packet).rule i = s.rule i := by
        rw [hr, Function.update_of_ne hne]
      exact ⟨hclock, by rw [hrule], by rw [hrule]⟩

theorem sameSwitch_sendChangedRule (T : RuleTable) (ready : ℕ → Bool) (s : Network) (i j : ℕ) :
    SameSwitch i s (sendChangedRule T ready s j) := by
  rcases sendChangedRule_cases T ready s j with ⟨-, he⟩ | ⟨-, -, he⟩ | ⟨-, -, he⟩ <;> rw [he]
  · exact SameSwitch.refl i s
  · exact (sameSwitch_send s i _).trans (sameSwitch_setOk _ i j .ok)
  · exact sameSwitch_setOk s i j .sendLater

theorem sameSwitch_beforeCheck {r : Round} (hi : (T.rule i).isLocal = true) :
    SameSwitch i s ((beforeCheck T s r).setOk 0 .ok) := by
  have hp := sameSwitch_packet (s := s) hi r.packet
  have htime : SameSwitch i s (beforeCheck T s r) := ⟨hp.clock, hp.timer, hp.value⟩
  exact htime.trans (sameSwitch_setOk _ i 0 .ok)

/-- The turn of a local rule finds its timer and its value as they were. -/
theorem turnState_local {r : Round} (hi : (T.rule i).isLocal = true) :
    ((turnState T L s r i).rule i).timer = (s.rule i).timer ∧
      ((turnState T L s r i).rule i).value = (s.rule i).value := by
  have hbefore := sameSwitch_beforeCheck (s := s) (r := r) hi
  have hrule : (turnState T L s r i).rule i = ((beforeCheck T s r).setOk 0 .ok).rule i :=
    Sweep.get_ahead (fun s _ _ h => checkRule_of_ne T L r.uplink s h) le_rfl
  exact ⟨by rw [hrule, hbefore.timer], by rw [hrule, hbefore.value]⟩

theorem sameSwitch_sendChangedRules (T : RuleTable) (ready : ℕ → Bool) (s : Network) (i : ℕ) :
    SameSwitch i s (sendChangedRules T ready s) :=
  Sweep.invariant (SameSwitch i s)
    (fun j s' _ h => h.trans (sameSwitch_sendChangedRule T ready s' i j)) (SameSwitch.refl i s)

/-- An evaluation leaves the cache at a day that has begun. -/
theorem evaluate_clock (hL : L.Exact) (h : s.clock.Upto s.time) :
    (evaluate T L uplink s j).clock.Upto s.time := by
  unfold evaluate evalRemote
  cases hk : (T.rule j).kind with
  | timeSwitch wdays hour min hour' min' =>
      simp only [hk]
      exact Or.inr ⟨_, le_rfl, evalTimeSwitch_shows hL h⟩
  | _ => cases uplink j <;> simpa only [hk] using h

/-- A turn leaves the cache at a day that has begun. -/
theorem checkRule_clock (hL : L.Exact) (h : s.clock.Upto s.time) :
    (checkRule T L uplink s j).clock.Upto s.time := by
  rcases checkRule_cases T L uplink s j with ⟨-, he⟩ | ⟨-, he⟩ | ⟨-, he⟩
  · rw [he]
    exact h
  · rw [he]
    exact h
  · rw [he]
    exact evaluate_clock hL h

theorem sweep_clock (hL : L.Exact) (h : s.clock.Upto s.time) (n : ℕ) :
    (sweep (checkRule T L uplink) n s).clock.Upto s.time ∧
      (sweep (checkRule T L uplink) n s).time = s.time := by
  refine Sweep.invariant (fun s' : Network => s'.clock.Upto s.time ∧ s'.time = s.time)
    (fun j s' _ hs' => ?_) ⟨h, rfl⟩
  obtain ⟨hc, ht⟩ := hs'
  rw [← ht] at hc ⊢
  exact ⟨checkRule_clock hL hc, checkRule_time T L uplink s' j⟩

theorem RuleState.settle_timer (x : RuleState) (e : Evaluation) : (x.settle e).timer = e.timer := by
  unfold RuleState.settle
  split
  · rfl
  · split_ifs <;> rfl

end passes

/-! ### Runs -/

/-- After a pass at `now`: the value is right, and it is until the timer expires.  Nothing is
evaluated before the time 5. -/
structure Serves (f : ℕ → ℤ) (now : UInt32) (x : RuleState) : Prop where
  value : 5 ≤ now → f now.toNat = x.value.toNat
  early : now < 5 → x.timer = 5
  asleep : Asleep f now x.timer x.value

/-- The state of a rule between two rounds; the cached day has begun. -/
def Scheduled (f : ℕ → ℤ) (i : ℕ) (s : Network) : Prop :=
  s.clock.Upto s.time ∧ Serves f s.time (s.rule i)

/-- In its turn the dependencies of the rule are known and unchanged. -/
def Steady (T : RuleTable) (L : TimeLib) (i : ℕ) (s : Network) (r : Round) : Prop :=
  dependUnknown T (turnState T L s r i) i = false ∧
    dependChanged T (turnState T L s r i) i = false

instance (T : RuleTable) (L : TimeLib) (i : ℕ) (s : Network) (r : Round) :
    Decidable (Steady T L i s r) := by unfold Steady; infer_instance

section runs

variable {T : RuleTable} {L : TimeLib} {s s' : Network} {r : Round} {f : ℕ → ℤ}
  {i h m h' m' : ℕ} {wdays : UInt8}

theorem scheduled_init (f : ℕ → ℤ) (i : ℕ) (port : ℕ → UInt8) :
    Scheduled f i (Network.init port) := by
  refine ⟨Or.inl rfl, fun hle => ?_, fun _ => rfl, fun _ _ hlt hle => ?_⟩
  · exact absurd hle (show ¬ (5 : UInt32) ≤ 0 by decide)
  · exact absurd hlt (UInt32.not_lt.mpr hle)

theorem Scheduled.congr (hs : Scheduled f i s) (h : SameSwitch i s s') (ht : s'.time = s.time) :
    Scheduled f i s' := by
  obtain ⟨hclock, hvalue, hearly, hasleep⟩ := hs
  unfold Scheduled
  rw [h.clock, ht]
  refine ⟨hclock, ?_, ?_, ?_⟩
  · rwa [h.value]
  · rwa [h.timer]
  · rwa [h.timer, h.value]

/-- The turn of the rule finds the cache, the timer and the value as they were. -/
theorem Scheduled.before_turn (hs : Scheduled f i s) (hL : L.Exact) (hi : (T.rule i).isLocal = true)
    (hle : s.time ≤ r.now) : (turnState T L s r i).clock.Upto r.now ∧
      ((turnState T L s r i).rule i).timer = (s.rule i).timer ∧
      ((turnState T L s r i).rule i).value = (s.rule i).value := by
  have hbefore := sameSwitch_beforeCheck (s := s) (r := r) hi
  exact ⟨(sweep_clock hL (hbefore.clock ▸ hs.1.later hle) i).1, turnState_local hi⟩

/-- The turn of a time switch -/
theorem Scheduled.turn (hL : L.Exact) (hk : (T.rule i).kind = .timeSwitch wdays h m h' m')
    (hw : WallTimes h m h' m') (hs : Scheduled (switchValue wdays (h * 60 + m) (h' * 60 + m')) i s)
    (hle : s.time ≤ r.now) (hsteady : Steady T L i s r)
    (hfit : 5 ≤ r.now → Fits wdays (h * 60 + m) (h' * 60 + m') r.now.toNat) :
    Serves (switchValue wdays (h * 60 + m) (h' * 60 + m')) r.now
      ((checkRule T L r.uplink (turnState T L s r i) i).rule i) := by
  have hlocal : (T.rule i).isLocal = true := by
    unfold RuleData.isLocal
    rw [hk]
  obtain ⟨hclock, htimer, hvalue⟩ := hs.before_turn hL hlocal hle
  have htime : (turnState T L s r i).time = r.now := turnState_time
  have hearly : r.now < 5 → (s.rule i).timer = 5 :=
    fun hlt => hs.2.early (UInt32.lt_of_le_of_lt hle hlt)
  rcases checkRule_cases T L r.uplink (turnState T L s r i) i with
    ⟨hu, -⟩ | ⟨⟨-, -, hskip⟩, he⟩ | ⟨hdue, he⟩
  · rw [hsteady.1] at hu
    cases hu
  · rw [htime, htimer] at hskip
    rw [he]
    constructor
    · rw [hvalue]
      exact hs.2.asleep r.now hle hskip
    · rwa [htimer]
    · rw [htimer, hvalue]
      exact fun t hnt => hs.2.asleep t (UInt32.le_trans hle hnt)
  · have hexp : (s.rule i).timer ≤ r.now := by
      cases hdue.2 with
      | inl hc =>
          rw [hsteady.2] at hc
          cases hc
      | inr ht => rwa [htime, htimer] at ht
    have h5 : 5 ≤ r.now := by
      by_contra hlt
      rw [UInt32.not_le] at hlt
      rw [hearly hlt] at hexp
      exact UInt32.not_lt.mpr hexp hlt
    obtain ⟨hnow, hasleep⟩ := evalTimeSwitch_spec hL hclock hw (hfit h5)
    have hv : (evaluate T L r.uplink (turnState T L s r i) i).value =
        some (evalTimeSwitch L (turnState T L s r i).clock r.now wdays h m h' m').1 := by
      simp only [evaluate, hk, htime]
    have ht : (evaluate T L r.uplink (turnState T L s r i) i).timer =
        (evalTimeSwitch L (turnState T L s r i).clock r.now wdays h m h' m').2.1 := by
      simp only [evaluate, hk, htime]
    rw [he, Network.settle_same]
    constructor
    · rw [RuleState.settle_value hv]
      exact fun _ => hnow
    · exact fun hlt => absurd h5 (UInt32.not_le.mpr hlt)
    · rwa [RuleState.settle_value hv, RuleState.settle_timer, ht]

/-- **A pass** over a time switch. -/
theorem Scheduled.pass (hL : L.Exact) (hk : (T.rule i).kind = .timeSwitch wdays h m h' m')
    (hi : i < T.size) (hw : WallTimes h m h' m')
    (hs : Scheduled (switchValue wdays (h * 60 + m) (h' * 60 + m')) i s)
    (hle : s.time ≤ r.now) (hsteady : Steady T L i s r)
    (hfit : 5 ≤ r.now → Fits wdays (h * 60 + m) (h' * 60 + m') r.now.toNat) :
    (afterCheck T L s r).time = r.now ∧
      Scheduled (switchValue wdays (h * 60 + m) (h' * 60 + m')) i (afterCheck T L s r) := by
  have hclock : (beforeCheck T s r).clock.Upto r.now := by
    have hp := processNetworkPackets_clock (T := T) (s := s) r.packet
    show (processNetworkPackets T s r.packet).clock.Upto r.now
    rw [hp]
    exact hs.1.later hle
  have hsweep : (afterCheck T L s r).clock.Upto (beforeCheck T s r).time ∧
      (afterCheck T L s r).time = (beforeCheck T s r).time :=
    sweep_clock (s := (beforeCheck T s r).setOk 0 .ok) hL hclock T.size
  obtain ⟨hafter, htime⟩ := hsweep
  refine ⟨htime, ?_⟩
  have hturn := hs.turn hL hk hw hle hsteady hfit
  rw [← afterCheck_rule hi] at hturn
  unfold Scheduled
  rw [show (afterCheck T L s r).time = r.now from htime]
  exact ⟨hafter, hturn⟩

theorem Scheduled.send (hs : Scheduled f i s) (ready : ℕ → Bool) :
    Scheduled f i (sendChangedRules T ready s) := by
  refine Sweep.invariant (Scheduled f i) (fun j s _ hs => ?_) hs
  exact hs.congr (sameSwitch_sendChangedRule T ready s i j) (sendChangedRule_time T ready s j)

/-- After a round the clock shows the time of its pass. -/
theorem round_time (T : RuleTable) (L : TimeLib) (s : Network) (r : Round) :
    (round T L s r).time = r.now := by
  refine Sweep.invariant (fun s : Network => s.time = r.now)
    (fun j s _ h => (sendChangedRule_time T r.ready s j).trans h) ?_
  exact Sweep.invariant (fun s : Network => s.time = r.now)
    (fun j s _ h => (checkRule_time T L r.uplink s j).trans h) rfl

end runs

/-- **The schedule.**  In every run in which the clock does not go back and the dependencies of a time
switch are known and unchanged: after every pass at a clock value of at least 5 it has the value that
an evaluation on unbounded integers gives, if the instants of these days have 32 bits. -/
theorem timeSwitch_value (T : RuleTable) (L : TimeLib) (hL : L.Exact) (port : ℕ → UInt8)
    (rounds : List Round) {i : ℕ} (hi : i < T.size) {wdays : UInt8} {h m h' m' : ℕ}
    (hk : (T.rule i).kind = .timeSwitch wdays h m h' m') (hw : WallTimes h m h' m')
    (hmono : (rounds.map Round.now).Pairwise (· ≤ ·))
    (hsteady : ∀ v ∈ Run.visits (round T L) (Network.init port) rounds, Steady T L i v.1 v.2)
    (hfit : ∀ r ∈ rounds, 5 ≤ r.now → Fits wdays (h * 60 + m) (h' * 60 + m') r.now.toNat) :
    ∀ v ∈ Run.visits (round T L) (Network.init port) rounds, 5 ≤ v.2.now →
      switchValue wdays (h * 60 + m) (h' * 60 + m') v.2.now.toNat =
        ((afterCheck T L v.1 v.2).rule i).value.toNat := by
  have hle : ∀ v ∈ Run.visits (round T L) (Network.init port) rounds, v.1.time ≤ v.2.now :=
    Run.visits_pairwise (round_time T L) hmono fun r _ => UInt32.zero_le ..
  refine Run.visits_guarded (I := Scheduled (switchValue wdays (h * 60 + m) (h' * 60 + m')) i)
    (G := fun s r => s.time ≤ r.now ∧ Steady T L i s r ∧
      (5 ≤ r.now → Fits wdays (h * 60 + m) (h' * 60 + m') r.now.toNat))
    (P := fun s r => 5 ≤ r.now → switchValue wdays (h * 60 + m) (h' * 60 + m') r.now.toNat =
      ((afterCheck T L s r).rule i).value.toNat) ?_ (scheduled_init _ i port) ?_
  · rintro s r hs ⟨hle, hst, hfit⟩
    obtain ⟨htime, hafter⟩ := hs.pass hL hk hi hw hle hst hfit
    refine ⟨fun h5 => ?_, hafter.send r.ready⟩
    have hserves := hafter.2
    rw [htime] at hserves
    exact hserves.value h5
  · exact fun v hv => ⟨hle v hv, hsteady v hv, hfit v.2 (Run.visits_mem hv)⟩

/-- A time switch from 8:00 to 20:00 on Mondays, and one from 0:00 to 24:00 on all days. -/
def scheduleTable : RuleTable where
  data := [⟨.logic LogicType.forceOff 0 0 0, 0, 0⟩, ⟨.timeSwitch 0x02 8 0 20 0, 0, 0⟩,
    ⟨.timeSwitch 0x7F 0 0 24 0, 0, 0⟩]
  pos := by decide
  small := by decide

/-- Passes at the boot, and after the time was set to Monday, 2026-03-02, 12:00. -/
def mondayRounds : List Round := [.of 5 none, .of 6 none, .of 825764400 none, .of 825764401 none]

theorem timeSwitch_value_monday : WallTimes 8 0 20 0 ∧
    ∀ v ∈ Run.visits (round scheduleTable exactTime) (Network.init fun _ => 0) mondayRounds,
      5 ≤ v.2.now → switchValue 0x02 (8 * 60 + 0) (20 * 60 + 0) v.2.now.toNat =
        ((afterCheck scheduleTable exactTime v.1 v.2).rule 1).value.toNat := by
  have hw : WallTimes 8 0 20 0 := by decide
  exact ⟨hw, timeSwitch_value scheduleTable exactTime exactTime_exact (fun _ => 0) mondayRounds
    (by decide) rfl hw (by decide) (by decide +kernel) (by decide +kernel)⟩

example : switchValue 0x02 480 1200 825764400 = 28800 := by decide +kernel

/-- On the first day the start of the other time switch is one hour before the time begins. -/
theorem not_timeSwitch_value : ¬ ∀ (T : RuleTable) (L : TimeLib) (port : ℕ → UInt8)
    (rounds : List Round) (i : ℕ) (wdays : UInt8) (h m h' m' : ℕ), L.Exact → i < T.size →
    (T.rule i).kind = .timeSwitch wdays h m h' m' → WallTimes h m h' m' →
    (rounds.map Round.now).Pairwise (· ≤ ·) →
    (∀ v ∈ Run.visits (round T L) (Network.init port) rounds, Steady T L i v.1 v.2) →
    ∀ v ∈ Run.visits (round T L) (Network.init port) rounds, 5 ≤ v.2.now →
      switchValue wdays (h * 60 + m) (h' * 60 + m') v.2.now.toNat =
        ((afterCheck T L v.1 v.2).rule i).value.toNat := by
  intro h
  have hrun := h scheduleTable exactTime (fun _ => 0) mondayRounds 2 0x7F 0 0 24 0 exactTime_exact
    (by decide) rfl (by decide) (by decide) (by decide +kernel)
  revert hrun
  decide +kernel

end Rules

end TimeSwitch
