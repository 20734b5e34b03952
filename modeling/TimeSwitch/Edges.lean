import TimeSwitch.Monoflop

/-! # The edges that triggers fire on

A trigger fires when its dependency is flagged, and the flag tells that the value is new.  The truth of
the value need not be: a countdown is flagged every second, and a flag stays set while the USB queue has
no room for the broadcast.  Without these two cases every firing is on an edge (`fires_on_edges_iff`).

The values at the end of the previous pass are those of the state before the round, as broadcasts
change no value. -/

namespace TimeSwitch.Rules

/-- The truth of the dependency has changed since the previous pass, in a direction that the trigger
fires on. -/
def Edge (T : RuleTable) (L : TimeLib) (type : UInt8) (i : ℕ) (s : Network) (r : Round) : Prop :=
  hasFlag type triggerRising = true ∧ dependValue T s i = 0 ∧
      dependValue T (afterCheck T L s r) i ≠ 0 ∨
    hasFlag type triggerFalling = true ∧ dependValue T s i ≠ 0 ∧
      dependValue T (afterCheck T L s r) i = 0

/-- The flag of the dependency is left over from an earlier pass. -/
def StaleFlag (T : RuleTable) (L : TimeLib) (i : ℕ) (s : Network) (r : Round) : Prop :=
  (s.rule (T.rule i).dependIndex).ok = .changed ∧
    dependValue T (turnState T L s r i) i = dependValue T s i

/-- The dependency has a new value, but it was on before and is on now. -/
def StillOn (T : RuleTable) (L : TimeLib) (i : ℕ) (s : Network) (r : Round) : Prop :=
  dependValue T (turnState T L s r i) i ≠ dependValue T s i ∧ dependValue T s i ≠ 0 ∧
    dependValue T (turnState T L s r i) i ≠ 0

/-- The instant of a round in which the rule is evaluated. -/
def evaluation (T : RuleTable) (L : TimeLib) (i : ℕ) (s : Network) (r : Round) : Option UInt32 :=
  if Due T (turnState T L s r i) i then some r.now else none

/-- A round, with a log of the instants at which the rule was evaluated. -/
def roundEvaluated (T : RuleTable) (L : TimeLib) (i : ℕ) :
    Network × List UInt32 → Round → Network × List UInt32 :=
  Run.logged (round T L) (evaluation T L i)

/-- A trigger that has been evaluated before fires on edges only. -/
def FiresOnEdge (T : RuleTable) (L : TimeLib) (type : UInt8) (i : ℕ) (p : Network × List UInt32)
    (r : Round) : Prop :=
  p.2 ≠ [] → Fires T type (turnState T L p.1 r i) i → Edge T L type i p.1 r

/-- A trigger that has been evaluated before can fire, and the dependency is flagged without an edge. -/
def FalseEdge (T : RuleTable) (L : TimeLib) (type : UInt8) (i : ℕ) (p : Network × List UInt32)
    (r : Round) : Prop :=
  p.2 ≠ [] ∧ Fires T type (turnState T L p.1 r i) i ∧ (StaleFlag T L i p.1 r ∨ StillOn T L i p.1 r)

instance (T : RuleTable) (L : TimeLib) (type : UInt8) (i : ℕ) (p : Network × List UInt32)
    (r : Round) : Decidable (FiresOnEdge T L type i p r) := by
  unfold FiresOnEdge Edge; infer_instance

instance (T : RuleTable) (L : TimeLib) (type : UInt8) (i : ℕ) (p : Network × List UInt32)
    (r : Round) : Decidable (FalseEdge T L type i p r) := by
  unfold FalseEdge StaleFlag StillOn; infer_instance

section flags

variable {T : RuleTable} {L : TimeLib} {s : Network} {r : Round} {type hour min sec : UInt8}
  {d i : ℕ}

/-- A flag at the beginning of a pass is of a reply, or left over. -/
theorem beforeCheck_flag (h : (((beforeCheck T s r).setOk 0 .ok).rule d).ok = .changed) :
    (T.rule d).isLocal = false ∧
        (((beforeCheck T s r).setOk 0 .ok).rule d).value ≠ (s.rule d).value ∨
      (s.rule d).ok = .changed := by
  by_cases hd : d = 0
  · subst hd
    rw [Network.setOk_same] at h
    cases h
  · rw [Network.setOk_of_ne _ _ hd] at h ⊢
    change ((processNetworkPackets T s r.packet).rule d).ok = .changed at h
    change (T.rule d).isLocal = false ∧
      ((processNetworkPackets T s r.packet).rule d).value ≠ (s.rule d).value ∨ _
    cases processNetworkPackets_effect (T := T) (s := s) r.packet with
    | none hr _ _ =>
        rw [hr] at h
        exact Or.inr h
    | answer j port _ _ he =>
        rw [he] at h
        by_cases hj : d = j
        · subst hj
          rw [Network.setOk_same] at h
          cases h
        · rw [Network.setOk_of_ne _ _ hj] at h
          exact Or.inr h
    | reply j timer v hj hr _ _ =>
        rw [hr] at h ⊢
        by_cases hd : d = j
        · subst hd
          rw [Function.update_self] at h ⊢
          refine Or.inl ⟨hj, fun hv => ?_⟩
          rw [if_pos hv.symm] at h
          cases h
        · rw [Function.update_of_ne hd] at h
          exact Or.inr h

/-- The flag of an earlier rule tells a new value, or is left over. -/
theorem turnState_flag (hd : d < i) (h : ((turnState T L s r i).rule d).ok = .changed) :
    ((turnState T L s r i).rule d).value ≠ (s.rule d).value ∨ (s.rule d).ok = .changed := by
  have hone : ∀ (s : Network) i j, j ≠ i → (checkRule T L r.uplink s i).rule j = s.rule j :=
    fun s _ _ h => checkRule_of_ne T L r.uplink s h
  have hturn : (turnState T L s r i).rule d =
      (checkRule T L r.uplink (turnState T L s r d) d).rule d := Sweep.get_done hone hd
  have hbefore : (turnState T L s r d).rule d = ((beforeCheck T s r).setOk 0 .ok).rule d :=
    Sweep.get_ahead hone le_rfl
  rw [hturn] at h ⊢
  rcases checkRule_cases T L r.uplink (turnState T L s r d) d with ⟨-, he⟩ | ⟨-, he⟩ | ⟨-, he⟩
  · rw [he, Network.setOk_same] at h
    cases h
  · -- the rule is not evaluated
    rw [he, hbefore] at h ⊢
    exact (beforeCheck_flag h).imp_left And.right
  · rw [he, Network.settle_same] at h ⊢
    cases hv : (evaluate T L r.uplink (turnState T L s r d) d).value with
    | none =>
        rw [RuleState.settle_none hv] at h
        cases h
    | some v =>
        -- only local rules have a result, and packets leave their value
        have hlocal : (T.rule d).isLocal = true := by
          rw [← Bool.not_eq_false]
          intro hremote
          rw [evaluate_none.mpr (RuleKind.computes_of_remote hremote)] at hv
          cases hv
        by_cases hsame : ((turnState T L s r d).rule d).value = v
        · rw [← hsame] at hv
          rw [RuleState.settle_repeated hv] at h
          dsimp only at h
          split_ifs at h
        · rw [RuleState.settle_value hv, ← (turnState_local (L := L) (r := r) hlocal).2]
          exact Or.inl (Ne.symm hsame)

/-- A flag stays after a round if the broadcast of a local rule could not be sent. -/
theorem round_flag (hd : d < T.size) (h : ((round T L s r).rule d).ok = .changed) :
    (T.rule d).isLocal = true ∧ r.ready d = false := by
  have hone : ∀ (s : Network) i j, j ≠ i → (sendChangedRule T r.ready s i).rule j = s.rule j :=
    fun s _ _ h => sendChangedRule_of_ne T r.ready s h
  have hturn : (round T L s r).rule d = (sendChangedRule T r.ready
      (sweep (sendChangedRule T r.ready) d (afterCheck T L s r)) d).rule d :=
    Sweep.get_done hone hd
  rw [hturn] at h
  generalize sweep (sendChangedRule T r.ready) d (afterCheck T L s r) = s' at h
  unfold sendChangedRule at h
  split_ifs at h with hpending hlocal hready
  · rw [Network.setOk_same] at h
    cases h
  · exact ⟨hlocal, by simpa using hready⟩
  · rw [Network.setOk_same] at h
    cases h
  · exact absurd (Or.inl h) hpending

/-! ### A pass -/

/-- The trigger sees the dependency as it is after the pass. -/
theorem dependValue_afterCheck (hdep : (T.rule i).dependIndex < i) (hi : i < T.size) :
    dependValue T (afterCheck T L s r) i = dependValue T (turnState T L s r i) i := by
  unfold dependValue
  rw [afterCheck_rule_of_lt hdep hi]

/-- **A firing is on an edge** unless the flag is stale or the dependency was on before. -/
theorem edge_iff (hi : i < T.size) (hk : (T.rule i).kind = .trigger type hour min sec)
    (hdep : (T.rule i).dependIndex < i) (hf : Fires T type (turnState T L s r i) i) :
    Edge T L type i s r ↔ ¬ (StaleFlag T L i s r ∨ StillOn T L i s r) := by
  obtain ⟨-, hc, -, hm⟩ := hf
  have hflag : ((turnState T L s r i).rule (T.rule i).dependIndex).ok = .changed := by
    simpa [dependChanged, RuleData.depends, hk] using hc
  have hstale : dependValue T (turnState T L s r i) i = dependValue T s i ↔
      StaleFlag T L i s r := by
    constructor
    · intro hv
      exact ⟨(turnState_flag hdep hflag).resolve_left (not_not_intro hv), hv⟩
    · exact And.right
  unfold Edge StillOn
  rw [dependValue_afterCheck hdep hi, ← hstale]
  unfold Matches at hm
  by_cases hbefore : dependValue T s i = 0
  · rw [hbefore]
    tauto
  · by_cases hnow : dependValue T (turnState T L s r i) i = 0
    · rw [hnow]
      tauto
    · tauto

end flags

/-! ### Runs -/

/-- **When a trigger fires on edges only.**  In every run a trigger that depends on an earlier rule, and
that has been evaluated before, fires only if the truth of its dependency has changed since the previous
pass: exactly if it never can fire with a stale flag, or on a dependency that was on before. -/
theorem fires_on_edges_iff (T : RuleTable) (L : TimeLib) (port : ℕ → UInt8) (rounds : List Round)
    {i : ℕ} (hi : i < T.size) {type hour min sec : UInt8}
    (hk : (T.rule i).kind = .trigger type hour min sec) (hdep : (T.rule i).dependIndex < i) :
    (∀ v ∈ Run.visits (roundEvaluated T L i) (Network.init port, []) rounds,
      FiresOnEdge T L type i v.1 v.2) ↔
    ∀ v ∈ Run.visits (roundEvaluated T L i) (Network.init port, []) rounds,
      ¬ FalseEdge T L type i v.1 v.2 := by
  refine forall₂_congr fun v _ => ?_
  constructor
  · rintro h ⟨hbefore, hf, hfalse⟩
    exact (edge_iff hi hk hdep hf).mp (h hbefore hf) hfalse
  · intro h hbefore hf
    exact (edge_iff hi hk hdep hf).mpr fun hfalse => h ⟨hbefore, hf, hfalse⟩

/-- With room for all broadcasts no flag is stale. -/
theorem no_stale_flags (T : RuleTable) (L : TimeLib) (port : ℕ → UInt8) (rounds : List Round) {i : ℕ}
    (hd : (T.rule i).dependIndex < T.size)
    (hready : ∀ r ∈ rounds, r.ready (T.rule i).dependIndex = true) :
    ∀ v ∈ Run.visits (round T L) (Network.init port) rounds, ¬ StaleFlag T L i v.1 v.2 := by
  refine Run.visits_guarded (I := fun s : Network => (s.rule (T.rule i).dependIndex).ok ≠ .changed)
    (G := fun _ r => r.ready (T.rule i).dependIndex = true)
    (P := fun s r => ¬ StaleFlag T L i s r) (fun s r hs hr => ?_) (fun h => ?_)
    fun v hv => hready v.2 (Run.visits_mem hv)
  · refine ⟨fun hstale => hs hstale.1, fun hflag => ?_⟩
    exact absurd (hr.symm.trans (round_flag hd hflag).2) (by decide)
  · cases h

/-- A time switch from 8:00 to 20:00 on Mondays, and a trigger of ten seconds on its rising edge. -/
def edgeTable : RuleTable where
  data := [⟨.logic LogicType.forceOff 0 0 0, 0, 0⟩, ⟨.timeSwitch 0x02 8 0 20 0, 0, 0⟩,
    ⟨.trigger triggerRising 0 0 10, 1, 0⟩]
  pos := by decide
  small := by decide

theorem fires_on_edges_rising : (edgeTable.rule 2).dependIndex < 2 ∧
    ∀ v ∈ Run.visits (roundEvaluated edgeTable exactTime 2) (Network.init fun _ => 0, [])
      [.of 5 none, .of 825750000 none, .of 825750010 none],
      FiresOnEdge edgeTable exactTime triggerRising 2 v.1 v.2 := by
  have hdep : (edgeTable.rule 2).dependIndex < 2 := by decide
  exact ⟨hdep, (fires_on_edges_iff edgeTable exactTime (fun _ => 0) _ (by decide) rfl hdep).mpr
    (by decide +kernel)⟩

/-- At 8:00:00 on Monday, 2026-03-02, the trigger fires.  Its time is over at 8:00:10, and at 8:00:11 it
fires again, as the countdown has changed. -/
theorem not_fires_on_edges : ¬ ∀ (T : RuleTable) (L : TimeLib) (port : ℕ → UInt8)
    (rounds : List Round) (i : ℕ) (type hour min sec : UInt8), T.Ordered → i < T.size →
    (T.rule i).kind = .trigger type hour min sec → (T.rule i).dependIndex < i →
    ∀ v ∈ Run.visits (roundEvaluated T L i) (Network.init port, []) rounds,
      FiresOnEdge T L type i v.1 v.2 := by
  intro h
  have hrun := h edgeTable exactTime (fun _ => 0)
    [.of 5 none, .of 825750000 none, .of 825750010 none, .of 825750011 none] 2 triggerRising 0 0 10
    (by decide) (by decide) rfl (by decide)
  revert hrun
  decide +kernel

end TimeSwitch.Rules
