import TimeSwitch.ClockRules

/-! # The configurations

`Teich.h` and `test.h` are tables of rules whose relays only depend on the clock.  In every run in which
the clock does not go back, the port registers are a function of the clock (`registers`): they are as at
the start up to the time 5, and then K1 is on during the wall times of the table, K2 is off, and all
other bits are as at the start (`teich_registers`, `test_registers`). -/

namespace TimeSwitch.Rules

/-- `PORTC` -/
def portC : ℕ := 0

/-- `CPU_TO_BE32(0xC0A8C803)` -/
def timeServer : UInt32 := 0x03C8A8C0

/-- The local time is in the interval. -/
def During (w₁ w₂ : ℕ) (t : UInt32) : Prop :=
  w₁ * 60 ≤ localTime t % 86400 ∧ localTime t % 86400 < w₂ * 60

instance (w₁ w₂ : ℕ) (t : UInt32) : Decidable (During w₁ w₂ t) :=
  inferInstanceAs (Decidable (_ ∧ _))

/-- On all weekdays -/
def allDays : UInt8 := 0x7F

section relays

variable {T : RuleTable} {L : TimeLib} {s : Network} {r : Round} {i w₁ w₂ register : ℕ}
  {bitValue : UInt8} {t : UInt32}

theorem onAt_allDays : OnAt allDays w₁ w₂ t ↔ During w₁ w₂ t := by
  have henabled : ∀ k < 7, allDays.toNat.testBit k = true := by decide
  unfold OnAt During EnabledOn
  rw [and_iff_right]
  exact henabled _ (Nat.mod_lt _ (by decide))

/-- After a pass a known relay shows its dependency. -/
theorem Quiet.relay (hT : T.Sound) (h : Quiet T s) (hi : i < T.size)
    (hk : (T.rule i).kind = .relay register bitValue)
    (hok : ((afterCheck T L s r).rule i).ok ≠ .unknown) :
    (afterCheck T L s r).port register &&& bitValue =
      if ((afterCheck T L s r).rule (T.rule i).dependIndex).value ≠ 0 then bitValue else 0 := by
  have hc := ((h.check (L := L) hT r).2 i hi).resolve_left hok
  unfold Consistent at hc
  simp only [hk] at hc
  exact hc.2

/-- After a pass a known logic rule has the value of its gates. -/
theorem Quiet.logic (hT : T.Sound) (h : Quiet T s) (hi : i < T.size) {type : UInt8} {b c d : ℕ}
    (hk : (T.rule i).kind = .logic type b c d)
    (hok : ((afterCheck T L s r).rule i).ok ≠ .unknown) :
    ((afterCheck T L s r).rule i).value =
      logicGate type ((afterCheck T L s r).rule (T.rule i).dependIndex).value
        ((afterCheck T L s r).rule b).value ((afterCheck T L s r).rule c).value
        ((afterCheck T L s r).rule d).value := by
  have hc := ((h.check (L := L) hT r).2 i hi).resolve_left hok
  unfold Consistent at hc
  simp only [hk] at hc
  exact hc

/-- `LogicORAB` on the first rule as `third` and `fourth`. -/
theorem logicGate_or (a b : UInt32) : logicGate LogicType.or a b 0 0 = a ||| b := by
  have h : hasFlag LogicType.or LogicType.invA = false ∧ hasFlag LogicType.or LogicType.invB = false ∧
      hasFlag LogicType.or LogicType.invC = false ∧ hasFlag LogicType.or LogicType.invD = false ∧
      hasFlag LogicType.or LogicType.invQ1 = false ∧ hasFlag LogicType.or LogicType.invQ2 = false ∧
      hasFlag LogicType.or LogicType.invQ = false ∧ hasFlag LogicType.or LogicType.xor = false := by
    decide
  simp [logicGate, invertIf, h]

theorem or_ne_zero (a b : UInt32) : a ||| b ≠ 0 ↔ a ≠ 0 ∨ b ≠ 0 := by
  rw [Ne, UInt32.or_eq_zero_iff, not_and_or]

end relays

/-! ### Two relays -/

/-- The relay K1 follows the rule `d`, K2 the first rule, and there is no other relay. -/
structure TwoRelays (T : RuleTable) (C : ℕ → Prop) (d : ℕ) : Prop where
  k1 : ∃ i, C i ∧ T.rule i = ⟨.relay portC 0x20, d, 0⟩
  k2 : ∃ i, C i ∧ T.rule i = ⟨.relay portC 0x10, 0, 0⟩
  relays : ∀ i < T.size, ∀ a ∈ (T.rule i).relay,
    C i ∧ (a = (portC, 0x20) ∨ a = (portC, 0x10))

/-- The registers at a time, from those at the start. -/
def registers (on : UInt32 → Prop) [DecidablePred on] (port : ℕ → UInt8) (now : UInt32) :
    ℕ → UInt8 :=
  if now < 5 then port
  else Function.update port portC ((port portC &&& 0xCF) ||| if on now then 0x20 else 0)

section registers

variable {T : RuleTable} {L : TimeLib} {C : ℕ → Prop} {d : ℕ} {port : ℕ → UInt8}
  {rounds : List Round} {on : UInt32 → Prop} [DecidablePred on]

/-- A byte consists of its bits 5, 4 and the others. -/
theorem byte_split (x : UInt8) : x = (x &&& 0xCF) ||| (x &&& 0x20) ||| (x &&& 0x10) := by
  revert x
  decide +kernel

/-- Before the time 5 the registers are as at the start. -/
theorem run_early (hT : T.Sound) (hC : ClockDriven T C) (hrelays : TwoRelays T C d)
    (hmono : (rounds.map Round.now).Pairwise (· ≤ ·)) :
    ∀ v ∈ Run.visits (round T L) (Network.init port) rounds, v.2.now < 5 →
      (afterCheck T L v.1 v.2).port = port := by
  have hpass : ∀ (s : Network) (r : Round), Quiet T s → Started C s → s.time ≤ r.now → r.now < 5 →
      (afterCheck T L s r).port = s.port := by
    intro s r hquiet hs hle hnow
    have hunknown := hs.early_pass (L := L) hT hC hquiet.1 hle hnow
    funext register
    have h : (afterCheck T L s r).port register &&& -1 = s.port register &&& -1 := by
      apply afterCheck_register
      intro i hi
      cases ha : (T.rule i).relay with
      | none => exact Or.inl (by simp)
      | some a => exact Or.inr (hunknown i (hrelays.relays i hi a ha).1).1
    simpa using h
  intro v hv hnow
  have hinv := run_invariant T L port
    (I := fun s => (Quiet T s ∧ Started C s) ∧ (s.time < 5 → s.port = port))
    (fun s r hs hle => by
      obtain ⟨⟨hquiet, hstarted⟩, hport⟩ := hs
      refine ⟨⟨(hquiet.check hT r).send r.ready, hstarted.after_round hT hC hquiet.1 hle⟩, ?_⟩
      intro h5
      rw [round_time] at h5
      rw [round_port, hpass s r hquiet hstarted hle h5]
      exact hport (UInt32.lt_of_le_of_lt hle h5))
    ⟨⟨quiet_init T port, started_init C port⟩, fun _ => rfl⟩ hmono v hv
  obtain ⟨⟨⟨hquiet, hstarted⟩, hport⟩, hle⟩ := hinv
  rw [hpass v.1 v.2 hquiet hstarted hle hnow]
  exact hport (UInt32.lt_of_le_of_lt hle hnow)

/-- **The registers** of a run are a function of the clock, if the value of the rule `d` is. -/
theorem run_registers (hT : T.Sound) (hC : ClockDriven T C) (hrelays : TwoRelays T C d)
    (hmono : (rounds.map Round.now).Pairwise (· ≤ ·))
    (hon : ∀ v ∈ Run.visits (round T L) (Network.init port) rounds, 5 ≤ v.2.now →
      (((afterCheck T L v.1 v.2).rule d).value ≠ 0 ↔ on v.2.now)) :
    ∀ v ∈ Run.visits (round T L) (Network.init port) rounds,
      (afterCheck T L v.1 v.2).port = registers on port v.2.now := by
  intro v hv
  by_cases hnow : v.2.now < 5
  · unfold registers
    rw [if_pos hnow]
    exact run_early hT hC hrelays hmono v hv hnow
  · have h5 : 5 ≤ v.2.now := UInt32.not_lt.mp hnow
    have hkeep : ∀ register mask, T.Unassigned register mask →
        (afterCheck T L v.1 v.2).port register &&& mask = port register &&& mask := by
      intro register mask h
      have hrun : v.1.port register &&& mask = port register &&& mask :=
        Run.visits_invariant (I := fun s => s.port register &&& mask = port register &&& mask)
          (fun s r hs => (round_unassigned h).trans hs) rfl v hv
      exact (afterCheck_register fun i hi => Or.inl (h i hi)).trans hrun
    have hquiet := run_quiet hT v hv
    have hknown := run_known hT hC hmono v hv h5
    unfold registers
    rw [if_neg hnow]
    funext register
    by_cases hp : register = portC
    · subst hp
      obtain ⟨i, hi, hk1⟩ := hrelays.k1
      obtain ⟨j, hj, hk2⟩ := hrelays.k2
      have hother : (afterCheck T L v.1 v.2).port portC &&& 0xCF = port portC &&& 0xCF := by
        apply hkeep
        rintro n hn a ha -
        obtain ⟨-, rfl | rfl⟩ := hrelays.relays n hn a ha
        · decide
        · decide
      have h1 := hquiet.relay (L := L) hT (hC.small i hi) (by rw [hk1]) (hknown i hi)
      have h2 := hquiet.relay (L := L) hT (hC.small j hj) (by rw [hk2]) (hknown j hj)
      have h0 : ((afterCheck T L v.1 v.2).rule 0).value = 0 := (hquiet.check hT v.2).1
      rw [hk1] at h1
      rw [hk2] at h2
      dsimp only at h1 h2
      rw [Function.update_self, byte_split ((afterCheck T L v.1 v.2).port portC), hother, h1, h2, h0]
      simp [hon v hv h5]
    · rw [Function.update_of_ne hp]
      have h : (afterCheck T L v.1 v.2).port register &&& -1 = port register &&& -1 := by
        apply hkeep
        intro n hn a ha hsame
        obtain ⟨-, rfl | rfl⟩ := hrelays.relays n hn a ha
        · exact absurd hsame.symm hp
        · exact absurd hsame.symm hp
      simpa using h

end registers

/-! ### `Teich.h` -/

namespace Teich

/-- `ruleData` -/
def ruleData : RuleTable where
  data := [
    ⟨.logic LogicType.forceOff 0 0 0, 0, 0⟩,      -- SystemError
    ⟨.sntp timeServer, 0, 123⟩,                   -- TimeOK
    ⟨.timeSwitch allDays 12 0 13 0, 0, 0⟩,        -- Time1
    ⟨.timeSwitch allDays 17 30 18 30, 0, 0⟩,      -- Time2
    ⟨.logic LogicType.or 3 0 0, 2, 0⟩,            -- LogicOr
    ⟨.relay portC 0x20, 4, 0⟩,                    -- RelayK1
    ⟨.relay portC 0x10, 0, 0⟩]                    -- RelayK2
  pos := by decide
  small := by decide

theorem sound : ruleData.Sound := ⟨⟨rfl, rfl⟩, by decide, by decide⟩

/-- All rules from `Time1` on are driven by the clock. -/
theorem driven : ClockDriven ruleData fun i => i < 7 ∧ 2 ≤ i where
  small := fun i hi => hi.1
  pos := fun i hi => Nat.pos_iff_ne_zero.mp (Nat.lt_of_lt_of_le (by decide) hi.2)
  computes := fun i hi =>
    (show ∀ i < 7, 2 ≤ i → (ruleData.rule i).kind.computes = true by decide) i hi.1 hi.2
  depends := fun i hi =>
    (show ∀ i < 7, 2 ≤ i → ∀ d ∈ (ruleData.rule i).depends, d = 0 ∨ d < 7 ∧ 2 ≤ d by decide) i
      hi.1 hi.2

theorem relays : TwoRelays ruleData (fun i => i < 7 ∧ 2 ≤ i) 4 where
  k1 := ⟨5, by decide, rfl⟩
  k2 := ⟨6, by decide, rfl⟩
  relays := fun i hi => by
    revert i
    show ∀ i < 7, ∀ a ∈ (ruleData.rule i).relay, (i < 7 ∧ 2 ≤ i) ∧ (a = (portC, 0x20) ∨ a = (portC, 0x10))
    decide

/-- 12:00 to 13:00 and 17:30 to 18:30 -/
def On (t : UInt32) : Prop := During 720 780 t ∨ During 1050 1110 t

instance : DecidablePred On := fun _ => inferInstanceAs (Decidable (_ ∨ _))

end Teich

/-- **`Teich.h`.**  In every run in which the clock does not go back, with every behaviour of the network,
K1 is on at noon and in the evening. -/
theorem teich_registers (L : TimeLib) (hL : L.Exact) (port : ℕ → UInt8) (rounds : List Round)
    (hmono : (rounds.map Round.now).Pairwise (· ≤ ·)) :
    ∀ v ∈ Run.visits (round Teich.ruleData L) (Network.init port) rounds,
      (afterCheck Teich.ruleData L v.1 v.2).port = registers Teich.On port v.2.now := by
  refine run_registers Teich.sound Teich.driven Teich.relays hmono fun v hv h5 => ?_
  have hquiet := run_quiet Teich.sound v hv
  have hknown := run_known Teich.sound Teich.driven hmono v hv h5
  have hnoon := run_switch Teich.sound hL (i := 2) (by decide) rfl rfl (by decide)
    ⟨Or.inr (by decide), Or.inr (by decide)⟩ hmono v hv h5
    fun r _ _ _ => fits_of_onAllDays ⟨by decide, Or.inr (by decide)⟩ (by decide) (by decide)
      r.now.toNat_lt
  have hevening := run_switch Teich.sound hL (i := 3) (by decide) rfl rfl (by decide)
    ⟨Or.inr (by decide), Or.inr (by decide)⟩ hmono v hv h5
    fun r _ _ _ => fits_of_onAllDays ⟨by decide, Or.inr (by decide)⟩ (by decide) (by decide)
      r.now.toNat_lt
  have hlogic := hquiet.logic (L := L) Teich.sound (r := v.2) (i := 4) (by decide) rfl
    (hknown 4 (by decide))
  have h0 : ((afterCheck Teich.ruleData L v.1 v.2).rule 0).value = 0 :=
    (hquiet.check Teich.sound v.2).1
  have hdepend : (Teich.ruleData.rule 4).dependIndex = 2 := rfl
  rw [onAt_allDays] at hnoon hevening
  rw [hdepend, h0, logicGate_or] at hlogic
  rw [hlogic, or_ne_zero]
  exact or_congr hnoon hevening

/-- The pass on Monday, 2026-03-02, 12:00. -/
def Teich.noonPass : Network × Round :=
  (round ruleData exactTime (round ruleData exactTime (Network.init fun _ => 0xFF) (.of 5 none))
    (.of 825764300 none), .of 825764400 none)

theorem teich_registers_noon :
    (afterCheck Teich.ruleData exactTime Teich.noonPass.1 Teich.noonPass.2).port portC = 0xEF := by
  have hmem : Teich.noonPass ∈ Run.visits (round Teich.ruleData exactTime)
      (Network.init fun _ => 0xFF) [.of 5 none, .of 825764300 none, .of 825764400 none] :=
    List.mem_cons_of_mem _ (List.mem_cons_of_mem _ List.mem_cons_self)
  have h := teich_registers exactTime exactTime_exact (fun _ => 0xFF) _ (by decide) _ hmem
  rw [h]
  decide +kernel

/-! ### `test.h` -/

namespace Test

/-- `ruleData` -/
def ruleData : RuleTable where
  data := [
    ⟨.logic LogicType.forceOff 0 0 0, 0, 0⟩,      -- SystemError
    ⟨.sntp timeServer, 0, 123⟩,                   -- TimeOK
    ⟨.timeSwitch allDays 1 0 1 1, 0, 2⟩,          -- TimeTest
    ⟨.logic LogicType.or 0 0 0, 1, 5⟩,            -- Logic
    ⟨.relay portC 0x20, 2, 0⟩,                    -- RelayK1
    ⟨.relay portC 0x10, 0, 0⟩]                    -- RelayK2
  pos := by decide
  small := by decide

theorem sound : ruleData.Sound := ⟨⟨rfl, rfl⟩, by decide, by decide⟩

/-- The time switch and the relays are driven by the clock; `Logic` waits for the time. -/
theorem driven : ClockDriven ruleData fun i => i < 6 ∧ (i = 2 ∨ 4 ≤ i) where
  small := fun i hi => hi.1
  pos := fun i hi => by omega
  computes := fun i hi =>
    (show ∀ i < 6, i = 2 ∨ 4 ≤ i → (ruleData.rule i).kind.computes = true by decide) i hi.1 hi.2
  depends := fun i hi =>
    (show ∀ i < 6, i = 2 ∨ 4 ≤ i → ∀ d ∈ (ruleData.rule i).depends,
      d = 0 ∨ d < 6 ∧ (d = 2 ∨ 4 ≤ d) by decide) i hi.1 hi.2

theorem relays : TwoRelays ruleData (fun i => i < 6 ∧ (i = 2 ∨ 4 ≤ i)) 2 where
  k1 := ⟨4, by decide, rfl⟩
  k2 := ⟨5, by decide, rfl⟩
  relays := fun i hi => by
    revert i
    show ∀ i < 6, ∀ a ∈ (ruleData.rule i).relay,
      (i < 6 ∧ (i = 2 ∨ 4 ≤ i)) ∧ (a = (portC, 0x20) ∨ a = (portC, 0x10))
    decide

end Test

/-- **`test.h`.**  In every run in which the clock does not go back, K1 is on for the minute at 01:00. -/
theorem test_registers (L : TimeLib) (hL : L.Exact) (port : ℕ → UInt8) (rounds : List Round)
    (hmono : (rounds.map Round.now).Pairwise (· ≤ ·)) :
    ∀ v ∈ Run.visits (round Test.ruleData L) (Network.init port) rounds,
      (afterCheck Test.ruleData L v.1 v.2).port = registers (During 60 61) port v.2.now := by
  refine run_registers Test.sound Test.driven Test.relays hmono fun v hv h5 => ?_
  have hminute := run_switch Test.sound hL (i := 2) (by decide) rfl rfl (by decide)
    ⟨Or.inl (by decide), Or.inl (by decide)⟩ hmono v hv h5
    fun r _ _ _ => fits_of_onAllDays ⟨by decide, Or.inl (by decide)⟩ (by decide) (by decide)
      r.now.toNat_lt
  rw [onAt_allDays] at hminute
  exact hminute

/-- A pass in the first minute after the start, which is 01:00 of 2000-01-01. -/
def Test.firstPass : Network × Round :=
  (round ruleData exactTime (Network.init fun _ => 0xFF) (.of 3 none), .of 59 none)

theorem test_registers_first :
    (afterCheck Test.ruleData exactTime Test.firstPass.1 Test.firstPass.2).port portC = 0xEF := by
  have hmem : Test.firstPass ∈ Run.visits (round Test.ruleData exactTime)
      (Network.init fun _ => 0xFF) [.of 3 none, .of 59 none] :=
    List.mem_cons_of_mem _ List.mem_cons_self
  have h := test_registers exactTime exactTime_exact (fun _ => 0xFF) _ (by decide) _ hmem
  rw [h]
  decide +kernel

end TimeSwitch.Rules
