import TimeSwitch.Library.Counter
import TimeSwitch.Tick

/-! # The timers

`timer0_init` and `timer1_init` choose the first prescaler with which the ticks of a period fit the
counter.  The period is shorter than these ticks unless the prescaler divides them, which the source only
asserts in comments; the clock is exact exactly then (`clock_exact_iff`).  With the frequency of the
makefile it is.

After a reply of the time server the clock differs from the time of the server by at most a second, or is
up to two seconds behind it if the reply has set the counter to the compare value, whose match the write
blocks, or behind it (`clock_after_reply`). -/

namespace TimeSwitch

open Sntp

/-- The compare value and the clock select bits of timer 0. -/
structure Timer0 where
  ocr0a : UInt8
  prescaler : UInt8
deriving DecidableEq

/-- `timer0_init`; none if no prescaler is large enough. -/
def timer0Init (ticks : UInt32) : Option Timer0 :=
  let cs00 : UInt8 := 1
  let cs01 : UInt8 := 2
  let cs02 : UInt8 := 4
  if ticks.toNat ≤ 256 then some ⟨(ticks - 1).toUInt8, cs00⟩
  else if ticks.toNat ≤ 8 * 256 then some ⟨(ticks / 8 - 1).toUInt8, cs01⟩
  else if ticks.toNat ≤ 64 * 256 then some ⟨(ticks / 64 - 1).toUInt8, cs01 ||| cs00⟩
  else if ticks.toNat ≤ 256 * 256 then some ⟨(ticks / 256 - 1).toUInt8, cs02⟩
  else if ticks.toNat ≤ 1024 * 256 then some ⟨(ticks / 1024 - 1).toUInt8, cs02 ||| cs00⟩
  else none

/-- The cycles for one step of a timer, from its clock select bits; 0 if it stands still or counts
something else. -/
def clockSelect (prescaler : UInt8) : ℕ :=
  if prescaler = 1 then 1 else if prescaler = 2 then 8 else if prescaler = 3 then 64
  else if prescaler = 4 then 256 else if prescaler = 5 then 1024 else 0

/-- The counter of timer 0. -/
def Timer0.counter (c : Timer0) (hpos : 0 < clockSelect c.prescaler) : Counter.Config :=
  ⟨clockSelect c.prescaler, c.ocr0a.toNat, 256, hpos, c.ocr0a.toNat_lt⟩

/-- The counter of timer 1. -/
def Timer1.counter (c : Timer1) (hpos : 0 < clockSelect c.prescaler) : Counter.Config :=
  ⟨clockSelect c.prescaler, c.ocr1a.toNat, 65536, hpos, c.ocr1a.toNat_lt⟩

/-! ### The period -/

/-- The prescaler is the first one with which the ticks fit the range, and the period is the largest
multiple of it that is not above the ticks. -/
structure Chosen (range ticks top : ℕ) (prescaler : UInt8) : Prop where
  pos : 0 < clockSelect prescaler
  lt : top < range
  period : clockSelect prescaler * (top + 1) ≤ ticks ∧
    ticks < clockSelect prescaler * (top + 1) + clockSelect prescaler
  fits : ticks ≤ clockSelect prescaler * range
  least : ∀ p : UInt8, 0 < clockSelect p → clockSelect p < clockSelect prescaler →
    clockSelect p * range < ticks

theorem clockSelect_cases (p : UInt8) : clockSelect p = 0 ∨ clockSelect p = 1 ∨ clockSelect p = 8 ∨
    clockSelect p = 64 ∨ clockSelect p = 256 ∨ clockSelect p = 1024 := by
  unfold clockSelect
  split_ifs <;> simp

section chosen

variable {range : ℕ} {ticks : UInt32} {prescaler : UInt8}

/-- The compare value, before it is cut off to the register. -/
theorem compare_toNat {d : UInt32} {scale : ℕ} (hd : d.toNat = scale) (hscale : 0 < scale)
    (hlarge : scale ≤ ticks.toNat) : (ticks / d - 1).toNat = ticks.toNat / scale - 1 := by
  have hone : 1 ≤ ticks.toNat / scale := Nat.div_pos hlarge hscale
  have hle : (1 : UInt32) ≤ ticks / d := by
    rw [UInt32.le_iff_toNat_le, UInt32.toNat_div, hd]
    exact hone
  rw [UInt32.toNat_sub_of_le _ _ hle, UInt32.toNat_div, hd]
  rfl

/-- A branch: the ticks fit with this scale, and with no smaller one. -/
theorem Chosen.of_branch (scale : ℕ) {d : UInt32} (hs : clockSelect prescaler = scale)
    (hd : d.toNat = scale) (hlarge : scale ≤ ticks.toNat) (hfit : ticks.toNat ≤ scale * range)
    (hleast : ∀ smaller ∈ [1, 8, 64, 256, 1024], smaller < scale → smaller * range < ticks.toNat)
    (hscale : 0 < scale) :
    Chosen range ticks.toNat (ticks / d - 1).toNat prescaler := by
  have hone : 1 ≤ ticks.toNat / scale := Nat.div_pos hlarge hscale
  have hrange : ticks.toNat / scale ≤ range := Nat.div_le_of_le_mul hfit
  have hdiv := Nat.div_add_mod ticks.toNat scale
  have hmod := Nat.mod_lt ticks.toNat hscale
  rw [compare_toNat hd hscale hlarge]
  constructor
  · rw [hs]
    exact hscale
  · omega
  · rw [hs, Nat.sub_add_cancel hone]
    omega
  · rw [hs]
    exact hfit
  · rw [hs]
    intro p hpos hlt
    refine hleast _ ?_ hlt
    rcases clockSelect_cases p with h | h | h | h | h | h <;> rw [h] at hpos ⊢ <;> simp at hpos ⊢

/-- The register has the compare value. -/
theorem Chosen.cut {v : UInt32} {top : ℕ} (h : Chosen range ticks.toNat v.toNat prescaler)
    (hcut : top = v.toNat % range) : Chosen range ticks.toNat top prescaler := by
  rw [hcut, Nat.mod_eq_of_lt h.lt]
  exact h

/-- The ticks fit with the scales that are not smaller. -/
theorem Chosen.fits_iff {top : ℕ} (h : Chosen range ticks.toNat top prescaler) {p : UInt8}
    (hp : 0 < clockSelect p) :
    ticks.toNat ≤ clockSelect p * range ↔ clockSelect prescaler ≤ clockSelect p := by
  constructor
  · intro hfit
    by_contra hcon
    exact absurd (h.least p hp (Nat.lt_of_not_le hcon)) (Nat.not_lt.mpr hfit)
  · intro hle
    exact h.fits.trans (Nat.mul_le_mul_right _ hle)

theorem timer1Init_chosen {c : Timer1} (hpos : 0 < ticks.toNat) (h : timer1Init ticks = some c) :
    Chosen 65536 ticks.toNat c.ocr1a.toNat c.prescaler := by
  unfold timer1Init at h
  dsimp only at h
  split_ifs at h with h1 h8 h64 h256 h1024
  · obtain rfl := Option.some.inj h
    have hc : Chosen 65536 ticks.toNat (ticks / 1 - 1).toNat 1 :=
      Chosen.of_branch 1 rfl rfl hpos (by omega) (by simp) (by decide)
    rw [UInt32.div_one] at hc
    exact hc.cut (UInt32.toNat_toUInt16 _)
  · obtain rfl := Option.some.inj h
    have hc : Chosen 65536 ticks.toNat (ticks / 8 - 1).toNat 2 :=
      Chosen.of_branch 8 rfl rfl (by omega) h8 (by simp; omega) (by decide)
    exact hc.cut (UInt32.toNat_toUInt16 _)
  · obtain rfl := Option.some.inj h
    have hc : Chosen 65536 ticks.toNat (ticks / 64 - 1).toNat 3 :=
      Chosen.of_branch 64 rfl rfl (by omega) h64 (by simp; omega) (by decide)
    exact hc.cut (UInt32.toNat_toUInt16 _)
  · obtain rfl := Option.some.inj h
    have hc : Chosen 65536 ticks.toNat (ticks / 256 - 1).toNat 4 :=
      Chosen.of_branch 256 rfl rfl (by omega) h256 (by simp; omega) (by decide)
    exact hc.cut (UInt32.toNat_toUInt16 _)
  · obtain rfl := Option.some.inj h
    have hc : Chosen 65536 ticks.toNat (ticks / 1024 - 1).toNat 5 :=
      Chosen.of_branch 1024 rfl rfl (by omega) h1024 (by simp; omega) (by decide)
    exact hc.cut (UInt32.toNat_toUInt16 _)

theorem timer0Init_chosen {c : Timer0} (hpos : 0 < ticks.toNat) (h : timer0Init ticks = some c) :
    Chosen 256 ticks.toNat c.ocr0a.toNat c.prescaler := by
  unfold timer0Init at h
  dsimp only at h
  split_ifs at h with h1 h8 h64 h256 h1024
  · obtain rfl := Option.some.inj h
    have hc : Chosen 256 ticks.toNat (ticks / 1 - 1).toNat 1 :=
      Chosen.of_branch 1 rfl rfl hpos (by omega) (by simp) (by decide)
    rw [UInt32.div_one] at hc
    exact hc.cut (UInt32.toNat_toUInt8 _)
  · obtain rfl := Option.some.inj h
    have hc : Chosen 256 ticks.toNat (ticks / 8 - 1).toNat 2 :=
      Chosen.of_branch 8 rfl rfl (by omega) h8 (by simp; omega) (by decide)
    exact hc.cut (UInt32.toNat_toUInt8 _)
  · obtain rfl := Option.some.inj h
    have hc : Chosen 256 ticks.toNat (ticks / 64 - 1).toNat 3 :=
      Chosen.of_branch 64 rfl rfl (by omega) h64 (by simp; omega) (by decide)
    exact hc.cut (UInt32.toNat_toUInt8 _)
  · obtain rfl := Option.some.inj h
    have hc : Chosen 256 ticks.toNat (ticks / 256 - 1).toNat 4 :=
      Chosen.of_branch 256 rfl rfl (by omega) h256 (by simp; omega) (by decide)
    exact hc.cut (UInt32.toNat_toUInt8 _)
  · obtain rfl := Option.some.inj h
    have hc : Chosen 256 ticks.toNat (ticks / 1024 - 1).toNat 5 :=
      Chosen.of_branch 1024 rfl rfl (by omega) h1024 (by simp; omega) (by decide)
    exact hc.cut (UInt32.toNat_toUInt8 _)

end chosen

/-! ### The clock without replies -/

/-- With a chosen prescaler the interrupts are never late, and they are exact if the prescaler divides the
ticks. -/
theorem Chosen.exact_iff {k : Counter.Config} {ticks : ℕ} {prescaler : UInt8}
    (h : Chosen k.range ticks k.top prescaler) (hs : k.scale = clockSelect prescaler) :
    (∀ n, n / ticks ≤ k.ticked n) ∧ ((∀ n, k.ticked n = n / ticks) ↔ clockSelect prescaler ∣ ticks) := by
  obtain ⟨hle, hlt⟩ := h.period
  rw [← hs] at hle hlt ⊢
  change k.period ≤ ticks at hle
  change ticks < k.period + k.scale at hlt
  have hpos : 0 < k.period := Nat.mul_pos k.scale_pos (Nat.succ_pos _)
  constructor
  · intro n
    rw [k.ticked_eq]
    exact Nat.div_le_div_left hle hpos
  · rw [k.ticked_exact_iff]
    constructor
    · rintro rfl
      exact Nat.dvd_mul_right _ _
    · rintro ⟨m, rfl⟩
      have htop : k.top + 1 ≤ m := Nat.le_of_mul_le_mul_left hle k.scale_pos
      have hstep : k.scale * m < k.scale * (k.top + 2) := lt_of_lt_of_eq hlt (by
        unfold Counter.Config.period
        ring)
      have hm : k.top + 1 = m :=
        Nat.le_antisymm htop (Nat.lt_succ_iff.mp (Nat.lt_of_mul_lt_mul_left hstep))
      rw [← hm]
      rfl

/-- **The clock is exact if the prescaler divides the ticks.**  `timer1_init` chooses the smallest
prescaler with which the ticks fit the counter.  After `n` cycles the clock is never behind `n / ticks`, and
it is never before it exactly if the prescaler divides the ticks. -/
theorem clock_exact_iff {ticks : UInt32} {c : Timer1} (hpos : 0 < ticks.toNat)
    (h : timer1Init ticks = some c) : ∃ hscale : 0 < clockSelect c.prescaler,
    (∀ p : UInt8, 0 < clockSelect p →
      (ticks.toNat ≤ clockSelect p * 65536 ↔ clockSelect c.prescaler ≤ clockSelect p)) ∧
    (∀ n, n / ticks.toNat ≤ (c.counter hscale).ticked n) ∧
    ((∀ n, (c.counter hscale).ticked n = n / ticks.toNat) ↔ clockSelect c.prescaler ∣ ticks.toNat) := by
  have hchosen := timer1Init_chosen hpos h
  exact ⟨hchosen.pos, fun p hp => hchosen.fits_iff hp, hchosen.exact_iff (k := c.counter hchosen.pos) rfl⟩

/-- The main program has the prescaler 256 and counts to 31249. -/
theorem clock_exact_iff_main : ∃ hscale : 0 < clockSelect 4,
    (∀ p : UInt8, 0 < clockSelect p →
      (fCpu.toNat ≤ clockSelect p * 65536 ↔ clockSelect 4 ≤ clockSelect p)) ∧
    (∀ n, n / fCpu.toNat ≤ ((⟨31249, 4⟩ : Timer1).counter hscale).ticked n) ∧
    ((∀ n, ((⟨31249, 4⟩ : Timer1).counter hscale).ticked n = n / fCpu.toNat) ↔
      clockSelect 4 ∣ fCpu.toNat) :=
  @clock_exact_iff fCpu ⟨31249, 4⟩ (by decide) timer1Init_main

/-- `timer0_init` does the same with 8 bits. -/
theorem timer0_exact_iff {ticks : UInt32} {c : Timer0} (hpos : 0 < ticks.toNat)
    (h : timer0Init ticks = some c) : ∃ hscale : 0 < clockSelect c.prescaler,
    (∀ p : UInt8, 0 < clockSelect p →
      (ticks.toNat ≤ clockSelect p * 256 ↔ clockSelect c.prescaler ≤ clockSelect p)) ∧
    (∀ n, n / ticks.toNat ≤ (c.counter hscale).ticked n) ∧
    ((∀ n, (c.counter hscale).ticked n = n / ticks.toNat) ↔ clockSelect c.prescaler ∣ ticks.toNat) := by
  have hchosen := timer0Init_chosen hpos h
  exact ⟨hchosen.pos, fun p hp => hchosen.fits_iff hp, hchosen.exact_iff (k := c.counter hchosen.pos) rfl⟩

/-! ### The clock after a reply -/

/-- The ticks since a reply, `n` cycles ago: it has found the prescaler in `phase` and has written the
counter. -/
def Timer1.since (c : Timer1) (hscale : 0 < clockSelect c.prescaler) (phase : ℕ) (r : Reading) (n : ℕ) :
    ℕ := ((c.counter hscale).cycle^[n] ⟨phase, r.timer.toNat, 0, true⟩).fired

/-- The whole seconds of the server since the second of the reply, with the fraction `f`. -/
def serverSeconds (f : UInt32) (n : ℕ) : ℕ :=
  (f.toNat * fCpu.toNat + n * 2 ^ 32) / (2 ^ 32 * fCpu.toNat)

theorem Timer1.since_main {hscale : 0 < clockSelect 4} {phase n : ℕ} {r : Reading} (hphase : phase < 256) :
    Timer1.since ⟨31249, 4⟩ hscale phase r n = (n + (phase + 256 * r.timer.toNat) -
      if r.timer.toNat < 31249 then 0 else 256 * 65536) / 8000000 := by
  have hperiod : (Timer1.counter ⟨31249, 4⟩ hscale).period = 8000000 := by
    have hselect : clockSelect 4 = 256 := rfl
    show clockSelect 4 * ((31249 : UInt16).toNat + 1) = 8000000
    rw [hselect]
    simp only [UInt16.reduceToNat]
  have hlead : (Timer1.counter ⟨31249, 4⟩ hscale).lead r.timer.toNat true =
      if r.timer.toNat < 31249 then 0 else 256 * 65536 := by
    have hmiss : (Timer1.counter ⟨31249, 4⟩ hscale).Misses r.timer.toNat true ↔
        ¬ r.timer.toNat < 31249 := by
      have htop : (Timer1.counter ⟨31249, 4⟩ hscale).top = 31249 := by
        show (31249 : UInt16).toNat = 31249
        simp only [UInt16.reduceToNat]
      unfold Counter.Config.Misses
      rw [htop, and_iff_left rfl]
      omega
    unfold Counter.Config.lead
    by_cases hlt : r.timer.toNat < 31249
    · rw [if_pos hlt, if_neg (fun h => hmiss.mp h hlt)]
    · rw [if_neg hlt, if_pos (hmiss.mpr hlt)]
      rfl
  have hfired := Counter.fired_after (Timer1.counter ⟨31249, 4⟩ hscale) hphase r.timer.toNat_lt true n
  rw [hperiod, hlead] at hfired
  exact hfired

/-- The counter is the fraction, at twice its scale. -/
theorem frac2timer_bounds (f : UInt32) : 31249 * f.toNat < 2 ^ 31 * (frac2timer f).toNat + 3 * 2 ^ 30 ∧
    2 ^ 31 * (frac2timer f).toNat ≤ 31249 * f.toNat + 2 ^ 30 := by
  have hle := ShiftAdd.shiftAdd_mul_le (P := (· ∈ frac2timerBits)) (k := 15) (x := f.toNat) (r := 0)
  have hge := ShiftAdd.le_shiftAdd_mul (P := (· ∈ frac2timerBits)) (k := 15) (x := f.toNat) (r := 0)
  rw [factor_bits] at hle hge
  rw [terms_bits] at hge
  rw [(frac2timer_eq f).2]
  omega

/-- Below the compare value -/
theorem frac2timer_lt_iff (f : UInt32) : (frac2timer f).toNat < 31249 ↔ f < 0x7FFF79CA := by
  rw [frac2timer_toNat, UInt32.lt_iff_toNat_lt]
  simp only [UInt32.reduceToNat]
  unfold fracSum
  omega

/-- **The clock after a reply.**  If the fraction is below about one half, the clock and the time of the
server are within a second of each other.  Otherwise the reply sets the counter to the compare value or
behind it; then the clock is never before the server, and from the next second on it is one or two seconds
behind, until another reply. -/
theorem clock_after_reply {packet : List UInt8} {r : Reading} {c : Timer1}
    (hr : processPacket packet = some r) (hc : timer1Init fCpu = some c) :
    ∃ hscale : 0 < clockSelect c.prescaler, ∀ phase < clockSelect c.prescaler, ∀ n,
      let f := be32 packet transmitSub
      let shown := c.since hscale phase r n
      let elapsed := serverSeconds f n
      (f < 0x7FFF79CA → elapsed ≤ shown + 1 ∧ shown ≤ elapsed + 1) ∧
      (¬ f < 0x7FFF79CA → shown ≤ elapsed ∧ elapsed ≤ shown + 2 ∧
        (fCpu.toNat ≤ n → shown < elapsed)) := by
  obtain rfl := Option.some.inj (hc.symm.trans timer1Init_main)
  refine ⟨by decide, ?_⟩
  intro phase hphase n f shown elapsed
  have hf := f.toNat_lt
  have hmain : phase < 256 := hphase
  have htimer : r.timer = frac2timer f := processPacket_timer hr
  obtain ⟨hlow, hhigh⟩ := frac2timer_bounds f
  have hiff := frac2timer_lt_iff f
  have hshown : shown = _ := Timer1.since_main hmain
  have helapsed : elapsed = (f.toNat * 8000000 + n * 2 ^ 32) / (2 ^ 32 * 8000000) := rfl
  rw [htimer] at hshown
  constructor
  · intro hsmall
    rw [if_pos (hiff.mpr hsmall)] at hshown
    omega
  · intro hlarge
    have hbehind := mt hiff.mp hlarge
    rw [if_neg hbehind] at hshown
    have hcpu : fCpu.toNat = 8000000 := rfl
    rw [hcpu]
    omega

/-- A quarter of a second sets the counter to its half. -/
theorem clock_after_reply_quarter : ∃ hscale : 0 < clockSelect 4, ∀ phase < clockSelect 4, ∀ n,
    let f := be32 (replyOf [0x40, 0, 0, 0]) transmitSub
    let shown := Timer1.since ⟨31249, 4⟩ hscale phase ⟨15625, 0xC0000000 - ntpOffset⟩ n
    let elapsed := serverSeconds f n
    (f < 0x7FFF79CA → elapsed ≤ shown + 1 ∧ shown ≤ elapsed + 1) ∧
    (¬ f < 0x7FFF79CA → shown ≤ elapsed ∧ elapsed ≤ shown + 2 ∧
      (fCpu.toNat ≤ n → shown < elapsed)) := by
  have hr : processPacket (replyOf [0x40, 0, 0, 0]) = some ⟨15625, 0xC0000000 - ntpOffset⟩ := by decide
  exact clock_after_reply hr timer1Init_main

end TimeSwitch
