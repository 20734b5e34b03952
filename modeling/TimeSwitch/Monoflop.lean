import TimeSwitch.Schedule

/-! # The monoflops

A trigger that fires is on for its configured time.  The value has to follow from the instants at which
it has fired (`monoflopValue`), and it does as long as nothing disturbs the monoflop
(`monoflop_on_time_iff`): a retriggerable one is switched off by every change of the dependency that
does not fire, although the timer still runs; and a change before the first evaluation takes the timer
of the boot for a running one. -/

namespace TimeSwitch.Rules

/-- The configured time of a trigger -/
def triggerDuration (hour min sec : UInt8) : UInt32 :=
  (hour.toUInt32 * 60 + min.toUInt32) * 60 + sec.toUInt32

/-- The trigger can fire: it is retriggerable or its timer is off. -/
def Ready (type : UInt8) (timer : UInt32) : Prop :=
  hasFlag type triggerMonoflopRetrigger = true ∨ timer = timerOff

/-- The trigger fires on a change to this value of its dependency. -/
def Matches (type : UInt8) (v : UInt32) : Prop :=
  hasFlag type triggerRising = true ∧ v ≠ 0 ∨ hasFlag type triggerFalling = true ∧ v = 0

/-- The value of a monoflop that has fired at some instants. -/
def monoflopValue (d : UInt32) (fired : List UInt32) (now : UInt32) : UInt32 :=
  if ∃ t ∈ fired, now.toNat < t.toNat + d.toNat then 1 else 0

/-- What disturbs a monoflop: it is on and the dependency changes without a firing; it is off and the
dependency changes before the timer of the boot expires; or the clock ends. -/
inductive Disturbed (type : UInt8) (now timer value v : UInt32) (changed : Bool) : Prop
  | switchedOff : changed = true → Ready type timer → ¬ Matches type v → value = 1 → now < timer →
      Disturbed type now timer value v changed
  | early : changed = true → ¬ Ready type timer → value = 0 → now < timer →
      Disturbed type now timer value v changed
  | clockEnds : changed = false → timer = timerOff → now = timerOff → v ≠ 0 →
      Disturbed type now timer value v changed

instance (type : UInt8) (timer : UInt32) : Decidable (Ready type timer) := by
  unfold Ready; infer_instance

instance (type : UInt8) (v : UInt32) : Decidable (Matches type v) := by
  unfold Matches; infer_instance

instance (type : UInt8) (now timer value v : UInt32) (changed : Bool) :
    Decidable (Disturbed type now timer value v changed) :=
  decidable_of_iff (changed = true ∧ Ready type timer ∧ ¬ Matches type v ∧ value = 1 ∧ now < timer ∨
      changed = true ∧ ¬ Ready type timer ∧ value = 0 ∧ now < timer ∨
      changed = false ∧ timer = timerOff ∧ now = timerOff ∧ v ≠ 0) <| by
    constructor
    · rintro (⟨hc, hr, hm, hv, hlt⟩ | ⟨hc, hr, hv, hlt⟩ | ⟨hc, ht, hnow, hv⟩)
      · exact .switchedOff hc hr hm hv hlt
      · exact .early hc hr hv hlt
      · exact .clockEnds hc ht hnow hv
    · rintro (⟨hc, hr, hm, hv, hlt⟩ | ⟨hc, hr, hv, hlt⟩ | ⟨hc, ht, hnow, hv⟩)
      · exact Or.inl ⟨hc, hr, hm, hv, hlt⟩
      · exact Or.inr (Or.inl ⟨hc, hr, hv, hlt⟩)
      · exact Or.inr (Or.inr ⟨hc, ht, hnow, hv⟩)

/-! ### One evaluation -/

/-- Timer and value follow from the firings up to an instant. -/
structure Timed (d : UInt32) (fired : List UInt32) (last timer value : UInt32) : Prop where
  past : ∀ t ∈ fired, t ≤ last
  state : (value = 0 ∧ ∀ t ∈ fired, t.toNat + d.toNat ≤ last.toNat) ∨
    (value = 1 ∧ ∃ t ∈ fired, timer.toNat = t.toNat + d.toNat ∧ ∀ t' ∈ fired, t' ≤ t)

/-- An evaluation gives the right value exactly if it is not disturbed, and timer and value follow from
the firings then. -/
structure Follows (d : UInt32) (fired : List UInt32) (now : UInt32) (disturbed : Prop)
    (r : UInt32 × UInt32) : Prop where
  value : r.1 = monoflopValue d fired now ↔ ¬ disturbed
  timed : ¬ disturbed → Timed d fired now r.2 r.1

section evaluation

variable {d last now timer timer' value v : UInt32} {fired : List UInt32} {type hour min sec : UInt8}
  {changed : Bool}

theorem evalTrigger_fires (hc : changed = true) (hr : Ready type timer) (hm : Matches type v) :
    evalTrigger now timer v changed type hour min sec =
      (1, now + triggerDuration hour min sec) := by
  unfold Ready at hr
  unfold Matches at hm
  unfold evalTrigger
  rw [if_pos ⟨hc, hr⟩, if_pos hm, triggerDuration, UInt32.add_assoc]

theorem evalTrigger_misses (hc : changed = true) (hr : Ready type timer) (hm : ¬ Matches type v) :
    evalTrigger now timer v changed type hour min sec = (0, timer) := by
  unfold Ready at hr
  unfold Matches at hm
  unfold evalTrigger
  rw [if_pos ⟨hc, hr⟩, if_neg hm]

theorem evalTrigger_runs (h : ¬ (changed = true ∧ Ready type timer)) (ht : timer ≠ timerOff) :
    evalTrigger now timer v changed type hour min sec =
      if now < timer then (1, timer) else (0, timerOff) := by
  unfold Ready at h
  unfold evalTrigger
  rw [if_neg h, if_pos ht]

theorem evalTrigger_idle (hc : changed = false) :
    evalTrigger now timerOff v changed type hour min sec = (v, timerOff) := by
  unfold evalTrigger
  rw [if_neg (by simp [hc]), if_neg (not_not_intro rfl)]

/-- The monoflop is over. -/
theorem Timed.off (hpast : ∀ t ∈ fired, t ≤ now)
    (h : ∀ t ∈ fired, t.toNat + d.toNat ≤ now.toNat) : Timed d fired now timer 0 :=
  ⟨hpast, Or.inl ⟨rfl, h⟩⟩

theorem Timed.later (h : Timed d fired last timer value) (hle : last ≤ now) :
    Timed d fired now timer value := by
  refine ⟨fun t ht => UInt32.le_trans (h.past t ht) hle, h.state.imp ?_ id⟩
  rintro ⟨hv, hover⟩
  rw [UInt32.le_iff_toNat_le] at hle
  exact ⟨hv, fun t ht => (hover t ht).trans hle⟩

/-- The right value is 1 exactly while the timer of a monoflop that is on runs. -/
theorem Timed.running_iff (h : Timed d fired now timer value) :
    (∃ t ∈ fired, now.toNat < t.toNat + d.toNat) ↔ value = 1 ∧ now < timer := by
  rw [UInt32.lt_iff_toNat_lt]
  rcases h.state with ⟨hv, hover⟩ | ⟨hv, t, ht, htimer, hlast⟩
  · refine iff_of_false ?_ fun h => absurd (hv.symm.trans h.1) (by decide)
    rintro ⟨t, ht, hlt⟩
    exact absurd (hover t ht) (Nat.not_le.mpr hlt)
  · constructor
    · rintro ⟨t', ht', hlt⟩
      have hle := UInt32.le_iff_toNat_le.mp (hlast t' ht')
      exact ⟨hv, by omega⟩
    · rintro ⟨-, hlt⟩
      exact ⟨t, ht, htimer ▸ hlt⟩

theorem Timed.value_eq (h : Timed d fired now timer value) :
    monoflopValue d fired now = if value = 1 ∧ now < timer then 1 else 0 := by
  unfold monoflopValue
  exact if_congr h.running_iff rfl rfl

/-- A monoflop that does not run is over. -/
theorem Timed.over (h : Timed d fired now timer value) (hover : ¬ (value = 1 ∧ now < timer)) :
    Timed d fired now timer' 0 := by
  apply Timed.off h.past
  intro t ht
  by_contra hlt
  exact hover (h.running_iff.mp ⟨t, ht, Nat.not_le.mp hlt⟩)

theorem Timed.value_cases (h : Timed d fired last timer value) : value = 0 ∨ value = 1 :=
  h.state.imp And.left And.left

/-- A firing starts the monoflop anew. -/
theorem Timed.fire (h : Timed d fired now timer value) (hfit : now.toNat + d.toNat < 2 ^ 32) :
    Timed d (now :: fired) now (now + d) 1 := by
  have hle : ∀ t ∈ now :: fired, t ≤ now := by
    intro t ht
    rcases List.mem_cons.mp ht with rfl | ht
    · exact UInt32.le_refl _
    · exact h.past t ht
  refine ⟨hle, Or.inr ⟨rfl, now, List.mem_cons_self, ?_, hle⟩⟩
  rw [UInt32.toNat_add, Nat.mod_eq_of_lt hfit]

theorem monoflopValue_fire (hd : 0 < d) : monoflopValue d (now :: fired) now = 1 := by
  rw [UInt32.lt_iff_toNat_lt] at hd
  unfold monoflopValue
  rw [if_pos]
  exact ⟨now, List.mem_cons_self, Nat.lt_add_of_pos_right hd⟩

/-- A change without a firing switches off. -/
theorem Timed.misses (h : Timed d fired now timer value) (hc : changed = true)
    (hr : Ready type timer) (hm : ¬ Matches type v) :
    Follows d fired now (Disturbed type now timer value v changed) (0, timer) := by
  have hiff : Disturbed type now timer value v changed ↔ value = 1 ∧ now < timer := by
    constructor
    · rintro (⟨-, -, -, hv, hlt⟩ | ⟨-, hr', -, -⟩ | ⟨hc', -, -, -⟩)
      · exact ⟨hv, hlt⟩
      · exact absurd hr hr'
      · exact absurd (hc.symm.trans hc') (by decide)
    · rintro ⟨hv, hlt⟩
      exact .switchedOff hc hr hm hv hlt
  rw [hiff]
  refine ⟨?_, h.over⟩
  rw [h.value_eq]
  split_ifs with hrun
  · exact iff_of_false (show ¬ (0 : UInt32) = 1 by decide) (not_not_intro hrun)
  · exact iff_of_true rfl hrun

/-- When the clock ends the value of the dependency is taken over. -/
theorem Timed.idle (h : Timed d fired now timerOff value) (hc : changed = false)
    (hnow : timerOff ≤ now) :
    Follows d fired now (Disturbed type now timerOff value v changed) (v, timerOff) := by
  have hend : now = timerOff := by
    rw [UInt32.le_iff_toNat_le] at hnow
    rw [← UInt32.toNat_inj]
    exact Nat.le_antisymm (Nat.le_of_lt_succ now.toNat_lt) hnow
  have hstop : ¬ (value = 1 ∧ now < timerOff) := by
    rw [hend]
    exact fun h => absurd h.2 (UInt32.lt_irrefl _)
  have hiff : Disturbed type now timerOff value v changed ↔ v ≠ 0 := by
    constructor
    · rintro (⟨hc', -, -, -, -⟩ | ⟨hc', -, -, -⟩ | ⟨-, -, -, hv⟩)
      · exact absurd (hc.symm.trans hc') (by decide)
      · exact absurd (hc.symm.trans hc') (by decide)
      · exact hv
    · exact fun hv => .clockEnds hc rfl hend hv
  rw [hiff]
  constructor
  · rw [h.value_eq, if_neg hstop, not_not]
  · intro hv
    rw [not_not.mp hv]
    exact h.over hstop

/-- A change while the timer runs leaves a trigger that is not ready on. -/
theorem Timed.runs (h : Timed d fired now timer value) (hc : changed = true)
    (hr : ¬ Ready type timer) (hlt : now < timer) :
    Follows d fired now (Disturbed type now timer value v changed) (1, timer) := by
  have hiff : Disturbed type now timer value v changed ↔ value = 0 := by
    constructor
    · rintro (⟨-, hr', -, -, -⟩ | ⟨-, -, hv, -⟩ | ⟨hc', -, -, -⟩)
      · exact absurd hr' hr
      · exact hv
      · exact absurd (hc.symm.trans hc') (by decide)
    · exact fun hv => .early hc hr hv hlt
  rw [hiff]
  have hvalue := h.value_eq
  rcases h.value_cases with rfl | rfl
  · refine ⟨?_, fun hne => absurd rfl hne⟩
    rw [hvalue, if_neg fun h => absurd h.1 (by decide)]
    exact iff_of_false (show ¬ (1 : UInt32) = 0 by decide) (not_not_intro rfl)
  · refine ⟨?_, fun _ => h⟩
    rw [hvalue, if_pos ⟨rfl, hlt⟩]
    exact iff_of_true rfl (by decide)

/-- When the timer has expired it is switched off. -/
theorem Timed.expires (h : Timed d fired now timer value) (ht : timer ≠ timerOff)
    (hlt : ¬ now < timer) :
    Follows d fired now (Disturbed type now timer value v changed) (0, timerOff) := by
  have hquiet : ¬ Disturbed type now timer value v changed := by
    rintro (⟨-, -, -, -, hlt'⟩ | ⟨-, -, -, hlt'⟩ | ⟨-, ht', -, -⟩)
    · exact hlt hlt'
    · exact hlt hlt'
    · exact ht ht'
  have hover : ¬ (value = 1 ∧ now < timer) := fun hrun => hlt hrun.2
  refine ⟨iff_of_true ?_ hquiet, fun _ => h.over hover⟩
  rw [h.value_eq, if_neg hover]

/-- An evaluation without a firing. -/
theorem Timed.evaluated (h : Timed d fired now timer value) (hdue : changed = true ∨ timer ≤ now)
    (hquiet : ¬ (changed = true ∧ Ready type timer ∧ Matches type v)) :
    Follows d fired now (Disturbed type now timer value v changed)
      (evalTrigger now timer v changed type hour min sec) := by
  by_cases hready : changed = true ∧ Ready type timer
  · have hm : ¬ Matches type v := fun hm => hquiet ⟨hready.1, hready.2, hm⟩
    rw [evalTrigger_misses hready.1 hready.2 hm]
    exact h.misses hready.1 hready.2 hm
  · by_cases ht : timer = timerOff
    · have hc : changed = false := by
        rw [Bool.eq_false_iff]
        exact fun hc => hready ⟨hc, Or.inr ht⟩
      subst ht
      rw [evalTrigger_idle hc]
      exact h.idle hc (hdue.resolve_left (by simp [hc]))
    · rw [evalTrigger_runs hready ht]
      split_ifs with hlt
      · have hc := hdue.resolve_right (UInt32.not_le.mpr hlt)
        exact h.runs hc (fun hr => hready ⟨hc, hr⟩) hlt
      · exact h.expires ht hlt

end evaluation

/-! ### A turn -/

/-- The value of the dependency -/
def dependValue (T : RuleTable) (s : Network) (i : ℕ) : UInt32 :=
  (s.rule (T.rule i).dependIndex).value

/-- The trigger fires in its turn. -/
def Fires (T : RuleTable) (type : UInt8) (s : Network) (i : ℕ) : Prop :=
  dependUnknown T s i = false ∧ dependChanged T s i = true ∧ Ready type (s.rule i).timer ∧
    Matches type (dependValue T s i)

instance (T : RuleTable) (type : UInt8) (s : Network) (i : ℕ) : Decidable (Fires T type s i) := by
  unfold Fires; infer_instance

/-- The trigger is disturbed in its turn. -/
def DisturbedAt (T : RuleTable) (type : UInt8) (s : Network) (i : ℕ) : Prop :=
  dependUnknown T s i = false ∧ Disturbed type s.time (s.rule i).timer (s.rule i).value
    (dependValue T s i) (dependChanged T s i)

instance (T : RuleTable) (type : UInt8) (s : Network) (i : ℕ) :
    Decidable (DisturbedAt T type s i) := by unfold DisturbedAt; infer_instance

section turn

variable {T : RuleTable} {L : TimeLib} {uplink : ℕ → Uplink} {s : Network} {i : ℕ}
  {type hour min sec : UInt8} {fired : List UInt32}

variable (L uplink) in
/-- An evaluated trigger is known, and takes over value and timer. -/
theorem checkRule_trigger (hk : (T.rule i).kind = .trigger type hour min sec) (hdue : Due T s i) :
    ((checkRule T L uplink s i).rule i).ok ≠ .unknown ∧
      (((checkRule T L uplink s i).rule i).value, ((checkRule T L uplink s i).rule i).timer) =
        evalTrigger s.time (s.rule i).timer (dependValue T s i) (dependChanged T s i)
          type hour min sec := by
  have hv : (evaluate T L uplink s i).value = some (evalTrigger s.time (s.rule i).timer
      (dependValue T s i) (dependChanged T s i) type hour min sec).1 := by
    simp only [evaluate, hk, dependValue]
  have ht : (evaluate T L uplink s i).timer = (evalTrigger s.time (s.rule i).timer
      (dependValue T s i) (dependChanged T s i) type hour min sec).2 := by
    simp only [evaluate, hk, dependValue]
  rcases checkRule_cases T L uplink s i with ⟨hu, -⟩ | ⟨⟨hu, hc, hlt⟩, -⟩ | ⟨-, he⟩
  · exact absurd (hu.symm.trans hdue.1) (by decide)
  · exact absurd hdue (not_due.mpr (Or.inr ⟨hu, hc, hlt⟩))
  · rw [he, Network.settle_same, RuleState.settle_value hv, RuleState.settle_timer, ht]
    refine ⟨fun hu => ?_, rfl⟩
    rw [RuleState.settle_unknown, hv] at hu
    cases hu

variable (L uplink) in
/-- A firing sets the timer. -/
theorem checkRule_fires (hk : (T.rule i).kind = .trigger type hour min sec)
    (hf : Fires T type s i) : Due T s i ∧
      ((checkRule T L uplink s i).rule i).value = 1 ∧
      ((checkRule T L uplink s i).rule i).timer = s.time + triggerDuration hour min sec := by
  obtain ⟨hu, hc, hr, hm⟩ := hf
  have hdue : Due T s i := ⟨hu, Or.inl hc⟩
  have hy := (checkRule_trigger L uplink hk hdue).2
  rw [evalTrigger_fires hc hr hm] at hy
  exact ⟨hdue, congrArg Prod.fst hy, congrArg Prod.snd hy⟩

variable (L uplink) in
/-- A trigger that is not evaluated keeps timer and value; it is unknown, or its timer runs. -/
theorem checkRule_trigger_skipped (hdue : ¬ Due T s i) :
    ((checkRule T L uplink s i).rule i).timer = (s.rule i).timer ∧
      ((checkRule T L uplink s i).rule i).value = (s.rule i).value ∧
      (dependUnknown T s i = true ∧ ((checkRule T L uplink s i).rule i).ok = .unknown ∨
        dependChanged T s i = false ∧ s.time < (s.rule i).timer) := by
  rcases checkRule_cases T L uplink s i with ⟨hu, he⟩ | ⟨⟨-, hc, hlt⟩, he⟩ | ⟨h, -⟩
  · rw [he, Network.setOk_same]
    exact ⟨rfl, rfl, Or.inl ⟨hu, rfl⟩⟩
  · rw [he]
    exact ⟨rfl, rfl, Or.inr ⟨hc, hlt⟩⟩
  · exact absurd h hdue

/-- **A turn** of a trigger -/
theorem Timed.turn (hk : (T.rule i).kind = .trigger type hour min sec)
    (hd : 0 < triggerDuration hour min sec)
    (h : Timed (triggerDuration hour min sec) fired s.time (s.rule i).timer (s.rule i).value)
    (hfit : Fires T type s i → s.time.toNat + (triggerDuration hour min sec).toNat < 2 ^ 32)
    {fired' : List UInt32} (hfired : fired' = if Fires T type s i then s.time :: fired else fired)
    {y : RuleState} (hy : y = (checkRule T L uplink s i).rule i) :
    ((y.ok ≠ .unknown → y.value = monoflopValue (triggerDuration hour min sec) fired' s.time) ↔
      ¬ DisturbedAt T type s i) ∧
    (¬ DisturbedAt T type s i →
      Timed (triggerDuration hour min sec) fired' s.time y.timer y.value) := by
  by_cases hf : Fires T type s i
  · obtain ⟨hdue, hvalue, htimer⟩ := checkRule_fires L uplink hk hf
    have hquiet : ¬ DisturbedAt T type s i := by
      obtain ⟨-, hc, hr, hm⟩ := hf
      rintro ⟨-, ⟨-, -, hm', -, -⟩ | ⟨-, hr', -, -⟩ | ⟨hc', -, -, -⟩⟩
      · exact hm' hm
      · exact hr' hr
      · exact absurd (hc.symm.trans hc') (by decide)
    rw [if_pos hf] at hfired
    rw [hfired, hy, hvalue, htimer, monoflopValue_fire hd]
    exact ⟨iff_of_true (fun _ => rfl) hquiet, fun _ => h.fire (hfit hf)⟩
  · rw [if_neg hf] at hfired
    rw [hfired]
    by_cases hdue : Due T s i
    · obtain ⟨hok, heval⟩ := checkRule_trigger L uplink hk hdue
      rw [← hy] at hok heval
      have hfollows : Follows (triggerDuration hour min sec) fired s.time _
          (evalTrigger s.time (s.rule i).timer (dependValue T s i) (dependChanged T s i)
            type hour min sec) :=
        h.evaluated hdue.2 fun hm => hf ⟨hdue.1, hm.1, hm.2.1, hm.2.2⟩
      rw [← heval] at hfollows
      have hat : DisturbedAt T type s i ↔ Disturbed type s.time (s.rule i).timer (s.rule i).value
          (dependValue T s i) (dependChanged T s i) := and_iff_right hdue.1
      rw [hat]
      exact ⟨(imp_iff_right hok).trans hfollows.value, hfollows.timed⟩
    · obtain ⟨htimer, hvalue, hwhy⟩ := checkRule_trigger_skipped L uplink hdue
      rw [← hy] at htimer hvalue hwhy
      rw [htimer, hvalue]
      rcases hwhy with ⟨hu, hok⟩ | ⟨hc, hlt⟩
      · refine ⟨iff_of_true (fun hne => absurd hok hne) fun hdist => ?_, fun _ => h⟩
        exact absurd (hu.symm.trans hdist.1) (by decide)
      · -- the timer runs: the value stays
        have hquiet : ¬ DisturbedAt T type s i := by
          rintro ⟨-, ⟨hc', -, -, -, -⟩ | ⟨hc', -, -, -⟩ | ⟨-, ht, hnow, -⟩⟩
          · exact absurd (hc.symm.trans hc') (by decide)
          · exact absurd (hc.symm.trans hc') (by decide)
          · rw [ht, hnow] at hlt
            exact UInt32.lt_irrefl _ hlt
        refine ⟨iff_of_true (fun _ => ?_) hquiet, fun _ => h⟩
        rw [h.value_eq]
        cases h.value_cases with
        | inl hv => rw [hv, if_neg fun h => absurd h.1 (by decide)]
        | inr hv => rw [hv, if_pos ⟨rfl, hlt⟩]

end turn

/-! ### Runs -/

/-- The instant of a round in which the trigger fires. -/
def firing (T : RuleTable) (L : TimeLib) (type : UInt8) (i : ℕ) (s : Network) (r : Round) :
    Option UInt32 :=
  if Fires T type (turnState T L s r i) i then some r.now else none

/-- A round, with a log of the instants at which the trigger has fired. -/
def roundFired (T : RuleTable) (L : TimeLib) (type : UInt8) (i : ℕ) :
    Network × List UInt32 → Round → Network × List UInt32 :=
  Run.logged (round T L) (firing T L type i)

/-- After the pass the rule is unknown, or its value is 1 exactly while a firing lasts. -/
def OnTime (T : RuleTable) (L : TimeLib) (type : UInt8) (d : UInt32) (i : ℕ)
    (p : Network × List UInt32) (r : Round) : Prop :=
  ((afterCheck T L p.1 r).rule i).ok ≠ .unknown →
    ((afterCheck T L p.1 r).rule i).value = monoflopValue d (roundFired T L type i p r).2 r.now

instance (T : RuleTable) (L : TimeLib) (type : UInt8) (d : UInt32) (i : ℕ)
    (p : Network × List UInt32) (r : Round) : Decidable (OnTime T L type d i p r) := by
  unfold OnTime; infer_instance

section runs

variable {T : RuleTable} {L : TimeLib} {p : Network × List UInt32} {r : Round} {i : ℕ}
  {type hour min sec : UInt8}

theorem timed_init (d : UInt32) (i : ℕ) (port : ℕ → UInt8) :
    Timed d [] (Network.init port).time ((Network.init port).rule i).timer
      ((Network.init port).rule i).value := by
  refine ⟨fun t ht => ?_, Or.inl ⟨rfl, fun t ht => ?_⟩⟩
  · cases ht
  · cases ht

/-- **A round** keeps timer and value in step, unless it disturbs the monoflop. -/
theorem Timed.round (hi : i < T.size) (hk : (T.rule i).kind = .trigger type hour min sec)
    (hd : 0 < triggerDuration hour min sec)
    (h : Timed (triggerDuration hour min sec) p.2 p.1.time (p.1.rule i).timer (p.1.rule i).value)
    (hle : p.1.time ≤ r.now)
    (hfit : Fires T type (turnState T L p.1 r i) i →
      r.now.toNat + (triggerDuration hour min sec).toNat < 2 ^ 32) :
    (OnTime T L type (triggerDuration hour min sec) i p r ↔
      ¬ DisturbedAt T type (turnState T L p.1 r i) i) ∧
    (¬ DisturbedAt T type (turnState T L p.1 r i) i →
      Timed (triggerDuration hour min sec) (roundFired T L type i p r).2
        (roundFired T L type i p r).1.time ((roundFired T L type i p r).1.rule i).timer
        ((roundFired T L type i p r).1.rule i).value) := by
  have hlocal : (T.rule i).isLocal = true := by
    unfold RuleData.isLocal
    rw [hk]
  obtain ⟨htimer, hvalue⟩ := turnState_local (L := L) (s := p.1) (r := r) hlocal
  have htime : (turnState T L p.1 r i).time = r.now := turnState_time
  have hlog : (roundFired T L type i p r).2 =
      if Fires T type (turnState T L p.1 r i) i then r.now :: p.2 else p.2 := by
    simp only [roundFired, Run.logged, firing]
    split_ifs
    · rfl
    · rfl
  have hsend := sameSwitch_sendChangedRules T r.ready (afterCheck T L p.1 r) i
  have hround : (roundFired T L type i p r).1 =
      sendChangedRules T r.ready (afterCheck T L p.1 r) := rfl
  have hnow : (roundFired T L type i p r).1.time = r.now := round_time T L p.1 r
  rw [hnow, hround, hsend.timer, hsend.value, afterCheck_rule hi]
  unfold OnTime
  rw [afterCheck_rule hi]
  have hlater := h.later hle
  rw [← htimer, ← hvalue, ← htime] at hlater
  rw [← htime] at hlog hfit ⊢
  exact hlater.turn hk hd hfit hlog rfl

end runs

/-- **When a monoflop is on time.**  In every run in which the clock does not go back and the firings
end before the clock does, the value of the trigger is after every pass 1 exactly while a firing lasts,
if and only if no turn disturbs the trigger. -/
theorem monoflop_on_time_iff (T : RuleTable) (L : TimeLib) (port : ℕ → UInt8) (rounds : List Round)
    {i : ℕ} (hi : i < T.size) {type hour min sec : UInt8}
    (hk : (T.rule i).kind = .trigger type hour min sec) (hd : 0 < triggerDuration hour min sec)
    (hmono : (rounds.map Round.now).Pairwise (· ≤ ·))
    (hfit : ∀ v ∈ Run.visits (round T L) (Network.init port) rounds,
      Fires T type (turnState T L v.1 v.2 i) i →
        v.2.now.toNat + (triggerDuration hour min sec).toNat < 2 ^ 32) :
    (∀ v ∈ Run.visits (roundFired T L type i) (Network.init port, []) rounds,
      OnTime T L type (triggerDuration hour min sec) i v.1 v.2) ↔
    ∀ v ∈ Run.visits (round T L) (Network.init port) rounds,
      ¬ DisturbedAt T type (turnState T L v.1 v.2 i) i := by
  have hle : ∀ v ∈ Run.visits (round T L) (Network.init port) rounds, v.1.time ≤ v.2.now :=
    Run.visits_pairwise (round_time T L) hmono fun r _ => UInt32.zero_le ..
  have hguard := (Run.visits_logged (firing T L type i) [] fun s r => s.time ≤ r.now ∧
    (Fires T type (turnState T L s r i) i →
      r.now.toNat + (triggerDuration hour min sec).toNat < 2 ^ 32)).mpr
    fun v hv => ⟨hle v hv, hfit v hv⟩
  refine Iff.trans ?_ (Run.visits_logged (firing T L type i) []
    fun s r => ¬ DisturbedAt T type (turnState T L s r i) i)
  exact Run.visits_exact (I := fun p : Network × List UInt32 =>
      Timed (triggerDuration hour min sec) p.2 p.1.time (p.1.rule i).timer (p.1.rule i).value)
    (P := OnTime T L type (triggerDuration hour min sec) i)
    (G := fun (p : Network × List UInt32) (r : Round) => p.1.time ≤ r.now ∧
      (Fires T type (turnState T L p.1 r i) i →
        r.now.toNat + (triggerDuration hour min sec).toNat < 2 ^ 32))
    (fun p r h hG => h.round hi hk hd hG.1 hG.2) (timed_init _ i port) hguard

/-- A time switch from 8:00 to 8:01 on Mondays, and two triggers of ten minutes on its rising edge; the
second one is retriggerable. -/
def monoflopTable : RuleTable where
  data := [⟨.logic LogicType.forceOff 0 0 0, 0, 0⟩, ⟨.timeSwitch 0x02 8 0 8 1, 0, 0⟩,
    ⟨.trigger triggerRising 0 10 0, 1, 0⟩,
    ⟨.trigger (triggerRising ||| triggerMonoflopRetrigger) 0 10 0, 1, 0⟩]
  pos := by decide
  small := by decide

/-- Passes at the boot, and at 8:00 and 8:01 on Monday, 2026-03-02. -/
def monoflopRounds : List Round := [.of 5 none, .of 825750000 none, .of 825750060 none]

theorem monoflop_on_time_rising : 0 < triggerDuration 0 10 0 ∧
    ∀ v ∈ Run.visits (roundFired monoflopTable exactTime triggerRising 2)
      (Network.init fun _ => 0, []) monoflopRounds,
      OnTime monoflopTable exactTime triggerRising (triggerDuration 0 10 0) 2 v.1 v.2 := by
  have hd : 0 < triggerDuration 0 10 0 := by decide
  exact ⟨hd, (monoflop_on_time_iff monoflopTable exactTime (fun _ => 0) monoflopRounds (by decide) rfl hd
    (by decide) (by decide +kernel)).mpr (by decide +kernel)⟩

/-- The retriggerable one is switched off at 8:01. -/
theorem not_monoflop_on_time : ¬ ∀ (T : RuleTable) (L : TimeLib) (port : ℕ → UInt8)
    (rounds : List Round) (i : ℕ) (type hour min sec : UInt8), i < T.size →
    (T.rule i).kind = .trigger type hour min sec → 0 < triggerDuration hour min sec →
    (rounds.map Round.now).Pairwise (· ≤ ·) →
    ∀ v ∈ Run.visits (roundFired T L type i) (Network.init port, []) rounds,
      OnTime T L type (triggerDuration hour min sec) i v.1 v.2 := by
  intro h
  have hrun := h monoflopTable exactTime (fun _ => 0) monoflopRounds 3
    (triggerRising ||| triggerMonoflopRetrigger) 0 10 0 (by decide) rfl (by decide) (by decide)
  revert hrun
  decide +kernel

end TimeSwitch.Rules
