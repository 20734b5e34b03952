import Mathlib

/-! # A counter behind a prescaler

The prescaler lets every `scale`-th cycle through to the counter.  The counter counts up, and after `top`
it begins again with 0; this is an event.  A write to the counter blocks the event of the next step.  So a
counter that was set to `top` or behind it counts to the end of its range and misses the event once.
`fired_after` gives the number of events after any number of cycles. -/

namespace Counter

/-- The cycles for one step, the last value, and the number of values of the counter. -/
structure Config where
  scale : ℕ
  top : ℕ
  range : ℕ
  scale_pos : 0 < scale
  top_lt : top < range

/-- The cycles since the last step, the value, the number of events, and whether the counter was written
since the last step. -/
structure State where
  phase : ℕ
  count : ℕ
  fired : ℕ
  blocked : Bool
deriving DecidableEq

/-- A cycle -/
def Config.cycle (c : Config) (s : State) : State :=
  if s.phase + 1 < c.scale then { s with phase := s.phase + 1 }
  else if s.count = c.top ∧ s.blocked = false then ⟨0, 0, s.fired + 1, false⟩
  else ⟨0, (s.count + 1) % c.range, s.fired, false⟩

/-- The cycles of a period -/
def Config.period (c : Config) : ℕ := c.scale * (c.top + 1)

/-- The counter does not come to the next event before the end of its range. -/
def Config.Misses (c : Config) (count : ℕ) (blocked : Bool) : Prop :=
  c.top < count ∨ count = c.top ∧ blocked = true

instance (c : Config) (count : ℕ) (blocked : Bool) : Decidable (c.Misses count blocked) := by
  unfold Config.Misses; infer_instance

/-- The cycles before the first period, if the counter starts with `count`. -/
def Config.lead (c : Config) (count : ℕ) (blocked : Bool) : ℕ :=
  if c.Misses count blocked then c.scale * c.range else 0

/-- After `n` cycles, where the start counts for `start` cycles of them: the counter is in a period, or it
has not come to the end of its range. -/
structure Elapsed (c : Config) (start lead n : ℕ) (s : State) : Prop where
  phase : s.phase < c.scale
  count : s.count < c.range
  cycles : ¬ c.Misses s.count s.blocked ∧
      s.phase + c.scale * s.count + c.period * s.fired + lead = n + start ∨
    c.Misses s.count s.blocked ∧ s.fired = 0 ∧ s.phase + c.scale * s.count = n + start ∧
      lead = c.scale * c.range

variable {c : Config} {start lead n : ℕ} {s : State}

/-- After a step the counter misses the event only behind `top`. -/
theorem Config.misses_unblocked {count : ℕ} : c.Misses count false ↔ c.top < count := by
  simp [Config.Misses]

theorem Config.le_of_not_misses {count : ℕ} {blocked : Bool} (h : ¬ c.Misses count blocked) :
    count ≤ c.top := Nat.not_lt.mp fun hlt => h (Or.inl hlt)

theorem Elapsed.cycle (h : Elapsed c start lead n s) : Elapsed c start lead (n + 1) (c.cycle s) := by
  obtain ⟨hphase, hcount, hcycles⟩ := h
  have htop := c.top_lt
  unfold Config.cycle
  split_ifs with hp ht
  · refine ⟨hp, hcount, ?_⟩
    rcases hcycles with ⟨hle, h⟩ | ⟨hlt, h0, h, hl⟩
    · exact Or.inl ⟨hle, by dsimp only; omega⟩
    · exact Or.inr ⟨hlt, h0, by dsimp only; omega, hl⟩
  · -- an event
    obtain ⟨htop', hfree⟩ := ht
    have hlast : s.phase + 1 = c.scale := by omega
    have hin : ¬ c.Misses s.count s.blocked := by
      rw [hfree, Config.misses_unblocked]
      omega
    refine ⟨c.scale_pos, by dsimp only; omega, Or.inl ⟨?_, ?_⟩⟩
    · rw [Config.misses_unblocked]
      exact Nat.not_lt_zero _
    · obtain ⟨-, h⟩ := hcycles.resolve_right fun hc => hin hc.1
      have hperiod : c.period * (s.fired + 1) = c.period * s.fired + (c.scale * s.count + c.scale) := by
        rw [htop']
        unfold Config.period
        ring
      dsimp only
      rw [hperiod]
      omega
  · have hlast : s.phase + 1 = c.scale := by omega
    have hstep : c.scale * (s.count + 1) = c.scale * s.count + c.scale := by ring
    rcases hcycles with ⟨hin, h⟩ | ⟨hmiss, h0, h, hl⟩
    · have hle := Config.le_of_not_misses hin
      have hne : s.count ≠ c.top := by
        intro hc
        cases hb : s.blocked with
        | false => exact ht ⟨hc, hb⟩
        | true => exact hin (Or.inr ⟨hc, hb⟩)
      have hmod : (s.count + 1) % c.range = s.count + 1 := Nat.mod_eq_of_lt (by omega)
      rw [hmod]
      refine ⟨c.scale_pos, by dsimp only; omega, Or.inl ⟨?_, by dsimp only; omega⟩⟩
      rw [Config.misses_unblocked]
      dsimp only
      omega
    · have hge : c.top ≤ s.count := by
        rcases hmiss with hlt | ⟨heq, -⟩
        · exact hlt.le
        · exact heq.ge
      by_cases hend : s.count + 1 = c.range
      · -- the end of the range
        rw [hend, Nat.mod_self]
        rw [hend] at hstep
        refine ⟨c.scale_pos, by dsimp only; omega, Or.inl ⟨?_, ?_⟩⟩
        · rw [Config.misses_unblocked]
          exact Nat.not_lt_zero _
        · dsimp only
          rw [h0, hl]
          omega
      · have hmod : (s.count + 1) % c.range = s.count + 1 := Nat.mod_eq_of_lt (by omega)
        rw [hmod]
        refine ⟨c.scale_pos, by dsimp only; omega, Or.inr ⟨?_, h0, by dsimp only; omega, hl⟩⟩
        rw [Config.misses_unblocked]
        exact Nat.lt_succ_of_le hge

/-- The number of events. -/
theorem Elapsed.fired (h : Elapsed c start lead n s) : s.fired = (n + start - lead) / c.period := by
  obtain ⟨hphase, hcount, hcycles⟩ := h
  rcases hcycles with ⟨hin, h⟩ | ⟨-, h0, h, hl⟩
  · have hrest : s.phase + c.scale * s.count < c.period := by
      have hmul : c.scale * s.count ≤ c.scale * c.top :=
        Nat.mul_le_mul_left _ (Config.le_of_not_misses hin)
      have hperiod : c.period = c.scale * c.top + c.scale := by
        unfold Config.period
        ring
      omega
    have hsum : n + start - lead = s.phase + c.scale * s.count + c.period * s.fired := by omega
    rw [hsum, Nat.add_mul_div_left _ _ (by omega), Nat.div_eq_of_lt hrest, Nat.zero_add]
  · have hmul : c.scale * (s.count + 1) ≤ c.scale * c.range := Nat.mul_le_mul_left _ hcount
    have hstep : c.scale * (s.count + 1) = c.scale * s.count + c.scale := by ring
    have hzero : n + start - lead = 0 := by omega
    rw [hzero, Nat.zero_div, h0]

/-- **The events after `n` cycles**, from any start. -/
theorem fired_after (c : Config) {phase count : ℕ} (hphase : phase < c.scale)
    (hcount : count < c.range) (blocked : Bool) (n : ℕ) :
    (c.cycle^[n] ⟨phase, count, 0, blocked⟩).fired =
      (n + (phase + c.scale * count) - c.lead count blocked) / c.period := by
  refine Elapsed.fired ?_
  induction n with
  | zero =>
      refine ⟨hphase, hcount, ?_⟩
      unfold Config.lead
      split_ifs with hmiss
      · exact Or.inr ⟨hmiss, rfl, by simp, rfl⟩
      · exact Or.inl ⟨hmiss, by simp⟩
  | succ n ih =>
      rw [Function.iterate_succ_apply']
      exact ih.cycle

/-! ### From zero -/

/-- The events after `n` cycles, if the counter and the prescaler begin with 0. -/
def Config.ticked (c : Config) (n : ℕ) : ℕ := (c.cycle^[n] ⟨0, 0, 0, false⟩).fired

theorem Config.period_pos (c : Config) : 0 < c.period := Nat.mul_pos c.scale_pos (Nat.succ_pos _)

theorem Config.ticked_eq (c : Config) (n : ℕ) : c.ticked n = n / c.period := by
  have hpos : 0 < c.range := lt_of_le_of_lt (Nat.zero_le _) c.top_lt
  unfold Config.ticked
  rw [fired_after c c.scale_pos hpos false n]
  simp [Config.lead, Config.misses_unblocked]

/-- Every event is in time exactly if the period is. -/
theorem Config.ticked_exact_iff (c : Config) {ticks : ℕ} :
    (∀ n, c.ticked n = n / ticks) ↔ c.period = ticks := by
  constructor
  · intro hexact
    have hperiod := hexact c.period
    have hticks := hexact ticks
    rw [c.ticked_eq] at hperiod hticks
    rw [Nat.div_self c.period_pos] at hperiod
    have hle : ticks ≤ c.period := by
      by_contra hcon
      rw [Nat.div_eq_of_lt (Nat.lt_of_not_le hcon)] at hperiod
      exact Nat.one_ne_zero hperiod
    have hpos : 0 < ticks := by
      by_contra hcon
      rw [Nat.eq_zero_of_not_pos hcon, Nat.div_zero] at hperiod
      exact Nat.one_ne_zero hperiod
    rw [Nat.div_self hpos] at hticks
    have hge : c.period ≤ ticks := by
      by_contra hcon
      rw [Nat.div_eq_of_lt (Nat.lt_of_not_le hcon)] at hticks
      exact Nat.zero_ne_one hticks
    exact Nat.le_antisymm hge hle
  · rintro rfl n
    exact c.ticked_eq n

end Counter
