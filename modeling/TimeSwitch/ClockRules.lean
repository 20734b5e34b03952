import TimeSwitch.FullEvaluation
import TimeSwitch.SwitchIntervals

/-! # Rules that the clock drives

Logic rules, relays, time switches and triggers that depend on each other and on the first rule only
are evaluated for the first time in the first pass at a clock value of at least 5, all of them, since
all timers start with 5; from then on they are known (`known_from_start`).

So a time switch that depends on the first rule serves in every such pass, and it is on exactly during
its wall times (`timeSwitch_wallTime`), unless one of them falls into the hour in which summer time
begins or ends. -/

namespace TimeSwitch.Rules

/-! ### The first rule -/

section first

variable {T : RuleTable} {L : TimeLib} {s : Network} {r : Round} {i : ℕ}

theorem RuleTable.Sound.depends_first (hT : T.Sound) : (T.rule 0).depends = [0, 0, 0, 0] := by
  obtain ⟨hkind, hdepend⟩ := hT.first
  unfold RuleData.depends
  rw [hkind, hdepend]

theorem RuleTable.Sound.isLocal_first (hT : T.Sound) : (T.rule 0).isLocal = true := by
  unfold RuleData.isLocal
  rw [hT.first.1]

theorem RuleTable.Sound.ne_zero_of_remote (hT : T.Sound) (hi : (T.rule i).isLocal = false) :
    i ≠ 0 := by
  rintro rfl
  cases hi.symm.trans hT.isLocal_first

/-- In all turns the first rule is known and unchanged. -/
theorem turnState_first (hT : T.Sound) (h0 : (s.rule 0).value = 0) (hi : i ≤ T.size) :
    ((turnState T L s r i).rule 0).ok = .ok := by
  have hstart : ((turnState T L s r 0).rule 0).ok = .ok := by
    show (((beforeCheck T s r).setOk 0 .ok).rule 0).ok = .ok
    rw [Network.setOk_same]
  have hvalue : ((turnState T L s r 0).rule 0).value = 0 := by
    rw [(turnState_local hT.isLocal_first).2, h0]
  cases Nat.eq_zero_or_pos i with
  | inl hz =>
      subst hz
      exact hstart
  | inr hpos =>
      have hturn : (turnState T L s r i).rule 0 =
          (checkRule T L r.uplink (turnState T L s r 0) 0).rule 0 :=
        Sweep.get_done (fun s _ _ h => checkRule_of_ne T L r.uplink s h) hpos
      rw [hturn]
      rcases checkRule_cases T L r.uplink (turnState T L s r 0) 0 with ⟨hu, -⟩ | ⟨-, he⟩ | ⟨-, he⟩
      · obtain ⟨d, hd, hok⟩ := dependUnknown_eq_true.mp hu
        rw [hT.depends_first] at hd
        obtain rfl : d = 0 := by simpa using hd
        cases hstart.symm.trans hok
      · rw [he, hstart]
      · have hv : (evaluate T L r.uplink (turnState T L s r 0) 0).value =
            some ((turnState T L s r 0).rule 0).value := by
          rw [hvalue]
          simp only [evaluate, hT.first.1, hT.first.2, hvalue]
          decide
        rw [he, Network.settle_same, RuleState.settle_repeated hv, hstart]
        rfl

/-- A rule that depends on the first rule only has known and unchanged dependencies. -/
theorem steady_first (hT : T.Sound) (h0 : (s.rule 0).value = 0) (hi : i < T.size)
    (hdep : ∀ d ∈ (T.rule i).depends, d = 0) : Steady T L i s r := by
  have hok : ∀ d ∈ (T.rule i).depends, ((turnState T L s r i).rule d).ok = .ok := by
    intro d hd
    rw [hdep d hd]
    exact turnState_first hT h0 hi.le
  constructor
  · rw [dependUnknown_eq_false]
    intro d hd
    simp [hok d hd]
  · rw [dependChanged_eq_false]
    intro d hd
    simp [hok d hd]

end first

/-! ### Known rules -/

/-- Rules with a result that depend on each other and on the first rule. -/
structure ClockDriven (T : RuleTable) (C : ℕ → Prop) : Prop where
  small : ∀ i, C i → i < T.size
  pos : ∀ i, C i → i ≠ 0
  computes : ∀ i, C i → (T.rule i).kind.computes = true
  depends : ∀ i, C i → ∀ d ∈ (T.rule i).depends, d = 0 ∨ C d

/-- Between two rounds: before the time 5 none of the rules was evaluated, and then all are known. -/
structure Started (C : ℕ → Prop) (s : Network) : Prop where
  early : s.time < 5 → ∀ i, C i → (s.rule i).ok = .unknown ∧ (s.rule i).timer = 5
  known : 5 ≤ s.time → ∀ i, C i → (s.rule i).ok ≠ .unknown

section known

variable {T : RuleTable} {L : TimeLib} {C : ℕ → Prop} {s : Network} {r : Round} {i : ℕ}

theorem RuleKind.isLocal_of_computes {x : RuleData} (h : x.kind.computes = true) :
    x.isLocal = true := by
  by_contra hl
  rw [Bool.not_eq_true] at hl
  cases (RuleKind.computes_of_remote hl).symm.trans h

/-- A packet makes no local rule known or unknown. -/
theorem packet_unknown (hi : (T.rule i).isLocal = true) (packet : Option Datagram) :
    ((processNetworkPackets T s packet).rule i).ok = .unknown ↔ (s.rule i).ok = .unknown := by
  cases processNetworkPackets_effect (T := T) (s := s) packet with
  | none hr _ _ => rw [hr]
  | answer j port _ hu he =>
      rw [he]
      by_cases hij : i = j
      · subst hij
        simp [hu]
      · rw [Network.setOk_of_ne _ _ hij, Network.send_rule]
  | reply j timer v hj hr _ _ =>
      have hne : i ≠ j := by
        rintro rfl
        cases hi.symm.trans hj
      rw [hr, Function.update_of_ne hne]

/-- In its turn a local rule is unknown if it was before the round. -/
theorem turnState_unknown (hi : (T.rule i).isLocal = true) (hi0 : i ≠ 0) :
    ((turnState T L s r i).rule i).ok = .unknown ↔ (s.rule i).ok = .unknown := by
  rw [turnState_ahead le_rfl hi0]
  exact packet_unknown hi r.packet

/-- **A pass before the time 5** evaluates none of the rules. -/
theorem Started.early_pass (hT : T.Sound) (hC : ClockDriven T C) (h0 : (s.rule 0).value = 0)
    (hs : Started C s) (hle : s.time ≤ r.now) (hnow : r.now < 5) : ∀ i, C i →
    ((afterCheck T L s r).rule i).ok = .unknown ∧ ((afterCheck T L s r).rule i).timer = 5 := by
  intro i
  induction i using Nat.strong_induction_on with
  | _ i ih =>
      intro hi
      have hlocal := RuleKind.isLocal_of_computes (hC.computes i hi)
      obtain ⟨hunknown, htimer⟩ := hs.early (UInt32.lt_of_le_of_lt hle hnow) i hi
      rw [← turnState_unknown (T := T) (L := L) (r := r) hlocal (hC.pos i hi)] at hunknown
      rw [← (turnState_local (T := T) (L := L) (s := s) (r := r) hlocal).1] at htimer
      rw [afterCheck_rule (hC.small i hi)]
      rcases checkRule_cases T L r.uplink (turnState T L s r i) i with ⟨-, he⟩ | ⟨-, he⟩ | ⟨hd, -⟩
      · rw [he, Network.setOk_same]
        exact ⟨rfl, htimer⟩
      · rw [he]
        exact ⟨hunknown, htimer⟩
      · exfalso
        -- the dependencies are known, so all of them are the first rule
        have hfirst : ∀ d ∈ (T.rule i).depends, d = 0 := by
          intro d hdep
          refine (hC.depends i hi d hdep).resolve_right fun hCd => ?_
          have hlt := hT.ordered i (hC.small i hi) (hC.pos i hi) d hdep
          have hun := (ih d hlt hCd).1
          rw [afterCheck_rule_of_lt hlt (hC.small i hi)] at hun
          exact dependUnknown_eq_false.mp hd.1 d hdep hun
        obtain ⟨-, hunchanged⟩ := steady_first (L := L) (r := r) hT h0 (hC.small i hi) hfirst
        have htime : (turnState T L s r i).time = r.now := turnState_time
        cases hd.2 with
        | inl hc => cases hunchanged.symm.trans hc
        | inr ht =>
            rw [htimer, htime] at ht
            exact absurd hnow (UInt32.not_lt.mpr ht)

/-- **A pass from the time 5 on** leaves the rules known. -/
theorem Started.known_pass (hT : T.Sound) (hC : ClockDriven T C) (h0 : (s.rule 0).value = 0)
    (hs : Started C s) (hnow : 5 ≤ r.now) : ∀ i, C i →
    ((afterCheck T L s r).rule i).ok ≠ .unknown := by
  intro i
  induction i using Nat.strong_induction_on with
  | _ i ih =>
      intro hi
      have hlocal := RuleKind.isLocal_of_computes (hC.computes i hi)
      have hdeps : dependUnknown T (turnState T L s r i) i = false := by
        rw [dependUnknown_eq_false]
        intro d hdep
        cases hC.depends i hi d hdep with
        | inl hd0 =>
            rw [hd0, turnState_first hT h0 (hC.small i hi).le]
            decide
        | inr hCd =>
            have hlt := hT.ordered i (hC.small i hi) (hC.pos i hi) d hdep
            rw [← afterCheck_rule_of_lt hlt (hC.small i hi)]
            exact ih d hlt hCd
      rw [afterCheck_rule (hC.small i hi)]
      rcases checkRule_cases T L r.uplink (turnState T L s r i) i with
        ⟨hu, -⟩ | ⟨⟨-, -, hskip⟩, he⟩ | ⟨-, he⟩
      · cases hdeps.symm.trans hu
      · rw [he, Ne, turnState_unknown hlocal (hC.pos i hi)]
        rw [(turnState_local hlocal).1, show (turnState T L s r i).time = r.now from turnState_time]
          at hskip
        by_cases h5 : 5 ≤ s.time
        · exact hs.known h5 i hi
        · rw [(hs.early (UInt32.not_le.mp h5) i hi).2] at hskip
          exact absurd hnow (UInt32.not_le.mpr hskip)
      · rw [he, Network.settle_same, Ne, RuleState.settle_unknown, evaluate_none,
          hC.computes i hi]
        decide

theorem started_init (C : ℕ → Prop) (port : ℕ → UInt8) : Started C (Network.init port) :=
  ⟨fun _ _ _ => ⟨rfl, rfl⟩, fun h => absurd h (show ¬ (5 : UInt32) ≤ 0 by decide)⟩

/-- **A round** with a clock that does not go back. -/
theorem Started.after_round (hT : T.Sound) (hC : ClockDriven T C) (h0 : (s.rule 0).value = 0)
    (hs : Started C s) (hle : s.time ≤ r.now) : Started C (round T L s r) := by
  constructor
  · intro hlt i hi
    rw [round_time] at hlt
    obtain ⟨hok, htimer⟩ := hs.early_pass (L := L) hT hC h0 hle hlt i hi
    have hkeep := (sameSwitch_sendChangedRules T r.ready (afterCheck T L s r) i).timer
    exact ⟨round_value.2.mpr hok, hkeep.trans htimer⟩
  · intro h5 i hi
    rw [round_time] at h5
    exact fun hu => hs.known_pass (L := L) hT hC h0 h5 i hi (round_value.2.mp hu)

end known

/-! ### Wall times -/

/-- A wall time before or after the hour in which summer time begins or ends, on every day. -/
def OutsideChange (w : ℕ) : Prop := w < 120 ∨ 180 ≤ w

/-- The instants of the wall times have 32 bits, on the first and on the last day as well. -/
def OnAllDays (w₁ w₂ : ℕ) : Prop := 60 ≤ w₁ ∧ (w₂ < 448 ∨ 449 ≤ w₁)

/-- The local time is in the interval, on an enabled weekday. -/
def OnAt (wdays : UInt8) (w₁ w₂ : ℕ) (t : UInt32) : Prop :=
  EnabledOn wdays (localTime t / 86400) ∧ w₁ * 60 ≤ localTime t % 86400 ∧
    localTime t % 86400 < w₂ * 60

section wall

variable {w w₁ w₂ D n : ℕ} {t : UInt32} {wdays : UInt8}

theorem localTime_div (t : UInt32) : localTime t / 86400 = localDay t.toNat := by
  unfold localTime localDay
  rw [euDst_toNat]

/-- Outside the hour of the change, an instant has come exactly if the local time has. -/
theorem instant_le_iff (hw : OutsideChange w) (hw' : w ≤ 1440) (hD : localTime t / 86400 = D) :
    instant D w ≤ t.toNat ↔ w * 60 ≤ localTime t % 86400 := by
  have hlocal := localTime_eq t
  have hcases := euDstInt_cases t.toNat
  obtain ⟨r, hr⟩ : ∃ r : ℤ, (D * 86400 + w * 60 : ℤ) - 3600 = r := ⟨_, rfl⟩
  have hcases' := euDstInt_cases r
  rw [instant_eq, hr]
  unfold OutsideChange at hw
  by_cases hsame : (r + 514800) / 604800 = ((t.toNat : ℤ) + 514800) / 604800
  · rw [euDstInt_congr hsame]
    omega
  · -- summer time begins or ends between the two
    omega

/-- A time switch is on during its wall times. -/
theorem switchValue_ne_zero (hw : OutsideChange w₁ ∧ OutsideChange w₂) (hlt : w₁ < w₂)
    (hle : w₂ ≤ 1440) : switchValue wdays w₁ w₂ t.toNat ≠ 0 ↔ OnAt wdays w₁ w₂ t := by
  have h₁ := instant_le_iff hw.1 (hlt.le.trans hle) (localTime_div t)
  have h₂ := instant_le_iff hw.2 hle (localTime_div t)
  unfold OnAt switchValue
  dsimp only
  rw [localTime_div, ← h₁, ← Nat.not_le, ← h₂, Int.not_le]
  split_ifs with hon
  · refine iff_of_true ?_ hon
    omega
  · exact iff_of_false (fun h => h rfl) hon

/-- The instants have 32 bits, but for a start before 01:00 on the first day and a stop after 07:28 on
the last day. -/
theorem fits_of_day (hfirst : localDay n = 0 → 60 ≤ w₁)
    (hlast : localDay n = 49710 → w₂ < 448 ∨ 449 ≤ w₁) (hle : w₂ ≤ 1440) (hlt : w₁ < w₂)
    (hn : n < 2 ^ 32) : Fits wdays w₁ w₂ n := by
  intro _
  refine ⟨instant_nonneg hfirst, fun hstart => ?_⟩
  rcases Nat.lt_or_eq_of_le (localDay_le_last hn) with hday | hday
  · have := (instant_bounds (localDay n) w₂).2
    omega
  · have hstop := hlast hday
    rw [hday, instant_last (hlt.le.trans hle)] at hstart
    rw [hday, instant_last hle]
    omega

theorem fits_of_onAllDays (h : OnAllDays w₁ w₂) (hle : w₂ ≤ 1440) (hlt : w₁ < w₂)
    (hn : n < 2 ^ 32) : Fits wdays w₁ w₂ n :=
  fits_of_day (fun _ => h.1) (fun _ => h.2) hle hlt hn

end wall

/-! ### Runs -/

section runs

variable {T : RuleTable} {L : TimeLib} {port : ℕ → UInt8} {rounds : List Round} {C : ℕ → Prop}
  {i h m h' m' : ℕ} {wdays : UInt8}

variable (T L port) in
/-- What holds before the rounds of a run with a clock that does not go back. -/
theorem run_invariant {I : Network → Prop} (hstep : ∀ s r, I s → s.time ≤ r.now → I (round T L s r))
    (h0 : I (Network.init port)) (hmono : (rounds.map Round.now).Pairwise (· ≤ ·)) :
    ∀ v ∈ Run.visits (round T L) (Network.init port) rounds, I v.1 ∧ v.1.time ≤ v.2.now := by
  have hle : ∀ v ∈ Run.visits (round T L) (Network.init port) rounds, v.1.time ≤ v.2.now :=
    Run.visits_pairwise (round_time T L) hmono fun r _ => UInt32.zero_le ..
  refine Run.visits_guarded (I := I) (G := fun (s : Network) (r : Round) => s.time ≤ r.now)
    (P := fun (s : Network) (r : Round) => I s ∧ s.time ≤ r.now) (fun s r hs hle => ?_) h0 hle
  exact ⟨⟨hs, hle⟩, hstep s r hs hle⟩

/-- Before each round of a run the rules are settled. -/
theorem run_quiet (hT : T.Sound) :
    ∀ v ∈ Run.visits (round T L) (Network.init port) rounds, Quiet T v.1 :=
  Run.visits_invariant (fun _ e hs => (hs.check hT e).send e.ready) (quiet_init T port)

/-- In every pass from the time 5 on, the rules that the clock drives are known. -/
theorem run_known (hT : T.Sound) (hC : ClockDriven T C)
    (hmono : (rounds.map Round.now).Pairwise (· ≤ ·)) :
    ∀ v ∈ Run.visits (round T L) (Network.init port) rounds, 5 ≤ v.2.now →
      ∀ i, C i → ((afterCheck T L v.1 v.2).rule i).ok ≠ .unknown := by
  intro v hv h5
  have hinv := run_invariant T L port (I := fun s => Quiet T s ∧ Started C s)
    (fun s r hs hle => ⟨(hs.1.check hT r).send r.ready, hs.2.after_round hT hC hs.1.1 hle⟩)
    ⟨quiet_init T port, started_init C port⟩ hmono v hv
  exact hinv.1.2.known_pass hT hC hinv.1.1.1 h5

/-- A time switch that depends on the first rule is on during its wall times, if their instants have 32
bits in the passes so far. -/
theorem run_switch (hT : T.Sound) (hL : L.Exact) (hi : i < T.size)
    (hk : (T.rule i).kind = .timeSwitch wdays h m h' m') (hdep : (T.rule i).dependIndex = 0)
    (hw : WallTimes h m h' m') (hout : OutsideChange (h * 60 + m) ∧ OutsideChange (h' * 60 + m'))
    (hmono : (rounds.map Round.now).Pairwise (· ≤ ·)) :
    ∀ v ∈ Run.visits (round T L) (Network.init port) rounds, 5 ≤ v.2.now →
      (∀ r ∈ rounds, 5 ≤ r.now → r.now ≤ v.2.now →
        Fits wdays (h * 60 + m) (h' * 60 + m') r.now.toNat) →
      (((afterCheck T L v.1 v.2).rule i).value ≠ 0 ↔
        OnAt wdays (h * 60 + m) (h' * 60 + m') v.2.now) := by
  intro v hv h5 hfit
  have hsteady : ∀ s r, Quiet T s → Steady T L i s r := by
    intro s r hs
    refine steady_first hT hs.1 hi fun d hd => ?_
    unfold RuleData.depends at hd
    rw [hk] at hd
    rw [List.mem_singleton.mp hd, hdep]
  have hle : ∀ w ∈ Run.visits (round T L) (Network.init port) rounds, w.1.time ≤ w.2.now :=
    Run.visits_pairwise (round_time T L) hmono fun r _ => UInt32.zero_le ..
  -- the schedule holds up to the time of this pass
  have hsched : Quiet T v.1 ∧ (v.1.time ≤ v.2.now →
      Scheduled (switchValue wdays (h * 60 + m) (h' * 60 + m')) i v.1) := by
    refine Run.visits_guarded (I := fun s => Quiet T s ∧ (s.time ≤ v.2.now →
        Scheduled (switchValue wdays (h * 60 + m) (h' * 60 + m')) i s))
      (G := fun s r => s.time ≤ r.now ∧ r ∈ rounds)
      (P := fun s _ => Quiet T s ∧ (s.time ≤ v.2.now →
        Scheduled (switchValue wdays (h * 60 + m) (h' * 60 + m')) i s))
      (fun s r hs hr => ⟨hs, (hs.1.check hT r).send r.ready, fun htime => ?_⟩)
      ⟨quiet_init T port, fun _ => scheduled_init _ i port⟩
      (fun w hw => ⟨hle w hw, Run.visits_mem hw⟩) v hv
    rw [show (sendChangedRules T r.ready (afterCheck T L s r)).time = r.now from round_time T L s r]
      at htime
    exact ((hs.2 (UInt32.le_trans hr.1 htime)).pass hL hk hi hw hr.1 (hsteady s r hs.1)
      (fun h5 => hfit r hr.2 h5 htime)).2.send r.ready
  obtain ⟨htime, hafter⟩ := (hsched.2 (hle v hv)).pass hL hk hi hw (hle v hv)
    (hsteady v.1 v.2 hsched.1) (fun h5 => hfit v.2 (Run.visits_mem hv) h5 (UInt32.le_refl _))
  have hserves := hafter.2
  rw [htime] at hserves
  rw [← switchValue_ne_zero hout hw.2.2.1 hw.2.2.2, hserves.value h5, ← UInt32.toNat_inj.ne,
    UInt32.toNat_zero, Int.natCast_ne_zero]

end runs

end TimeSwitch.Rules
