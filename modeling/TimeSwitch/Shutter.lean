import TimeSwitch.Configurations
import TimeSwitch.Monoflop

/-! # The shutter

`platine1.h` drives a shutter with two relays: K1 lets it run, and K2 gives the direction.  K1 follows the
running time, K2 the conjunction of the daylight and the running time.  In every run K2 is on only while K1
is, also while the rules are unknown, and whatever the network and the clock do (`shutter_interlock`).

The conjunction is one of bits: the running time is 0 or 1, and the daylight counts the seconds to its end.
So K2 changes in every second (`shutter_direction`). -/

namespace TimeSwitch.Rules

section pass

variable {T : RuleTable} {L : TimeLib} {s : Network} {r : Round} {i d : ℕ}

/-- A rule with a result is known after a pass if its dependencies are and one of them is flagged. -/
theorem afterCheck_reacts (hT : T.Ordered) (hi : i < T.size) (hi0 : i ≠ 0)
    (hcomputes : (T.rule i).kind.computes = true)
    (hknown : ∀ d ∈ (T.rule i).depends, ((afterCheck T L s r).rule d).ok ≠ .unknown)
    (hd : d ∈ (T.rule i).depends) (hflag : ((afterCheck T L s r).rule d).ok = .changed) :
    ((afterCheck T L s r).rule i).ok ≠ .unknown := by
  rw [← dependUnknown_eq_false, afterCheck_dependUnknown hT hi hi0] at hknown
  rw [afterCheck_rule_of_lt (hT i hi hi0 d hd) hi] at hflag
  rw [afterCheck_rule hi]
  rcases checkRule_cases T L r.uplink (turnState T L s r i) i with ⟨hu, -⟩ | ⟨⟨-, hc, -⟩, -⟩ | ⟨-, he⟩
  · rw [hknown] at hu
    cases hu
  · exact absurd hflag (dependChanged_eq_false.mp hc d hd)
  · rw [he, Network.settle_same, Ne, RuleState.settle_unknown, evaluate_none, hcomputes]
    decide

/-- **A relation of two values** that holds while the rule `i` is consistent is kept by every pass, if all
dependencies of `i` are known whenever its dependency `d` is. -/
theorem afterCheck_related (hT : T.Sound) (R : UInt32 → UInt32 → Prop) (hi : i < T.size)
    (hi0 : i ≠ 0) (hcomputes : (T.rule i).kind.computes = true) (hd : d ∈ (T.rule i).depends)
    (hlocal : (T.rule d).isLocal = true)
    (hclosed : ((afterCheck T L s r).rule d).ok ≠ .unknown →
      ∀ e ∈ (T.rule i).depends, ((afterCheck T L s r).rule e).ok ≠ .unknown)
    (hconsistent : ((afterCheck T L s r).rule i).ok ≠ .unknown →
      R ((afterCheck T L s r).rule i).value ((afterCheck T L s r).rule d).value)
    (hR : R (s.rule i).value (s.rule d).value) :
    R ((afterCheck T L s r).rule i).value ((afterCheck T L s r).rule d).value := by
  by_cases hok : ((afterCheck T L s r).rule i).ok = .unknown
  · have hkept : ((afterCheck T L s r).rule i).value = (s.rule i).value := by
      refine (afterCheck_flagged hi (RuleKind.isLocal_of_computes hcomputes)).resolve_right ?_
      rw [hok]
      decide
    have hdi : d < i := hT.ordered i hi hi0 d hd
    cases afterCheck_flagged (L := L) (s := s) (r := r) (hdi.trans hi) hlocal with
    | inl hsame =>
        rw [hkept, hsame]
        exact hR
    | inr hflag =>
        have hdeps := hclosed (by rw [hflag]; decide)
        exact absurd hok (afterCheck_reacts hT.ordered hi hi0 hcomputes hdeps hd hflag)
  · exact hconsistent hok

/-- The value of a trigger: 0 or 1 -/
def IsFlag (v : UInt32) : Prop := v = 0 ∨ v = 1

/-- An evaluated trigger is a flag, except in the last second of the clock. -/
theorem evalTrigger_isFlag {now timer v : UInt32} {changed : Bool} {type hour min sec : UInt8}
    (hdue : changed = true ∨ timer ≤ now) (hlast : now ≠ timerOff) :
    IsFlag (evalTrigger now timer v changed type hour min sec).1 := by
  unfold evalTrigger
  split_ifs with hready hmatch htimer hlt
  · exact Or.inr rfl
  · exact Or.inl rfl
  · exact Or.inr rfl
  · exact Or.inl rfl
  · -- the timer is off, and nothing has changed
    have hoff : timer = timerOff := not_not.mp htimer
    cases hdue with
    | inl hc => exact absurd ⟨hc, Or.inr hoff⟩ hready
    | inr hle =>
        have hnow := now.toNat_lt
        rw [hoff, UInt32.le_iff_toNat_le] at hle
        refine absurd (UInt32.toNat_inj.mp (Nat.le_antisymm ?_ hle)) hlast
        show now.toNat ≤ 4294967295
        omega

/-- A pass keeps a trigger a flag. -/
theorem afterCheck_trigger {type hour min sec : UInt8} (hi : i < T.size)
    (hk : (T.rule i).kind = .trigger type hour min sec) (hlast : r.now ≠ timerOff)
    (hs : IsFlag (s.rule i).value) : IsFlag ((afterCheck T L s r).rule i).value := by
  have hlocal : (T.rule i).isLocal = true := by
    unfold RuleData.isLocal
    rw [hk]
  rw [← (turnState_local (T := T) (L := L) (s := s) (r := r) hlocal).2] at hs
  rw [afterCheck_rule hi]
  by_cases hdue : Due T (turnState T L s r i) i
  · have hvalue := congrArg Prod.fst (checkRule_trigger L r.uplink hk hdue).2
    dsimp only at hvalue
    rw [hvalue]
    refine evalTrigger_isFlag hdue.2 ?_
    rw [turnState_time]
    exact hlast
  · rw [(checkRule_trigger_skipped L r.uplink hdue).2.1]
    exact hs

/-- The first rule is known after every pass. -/
theorem Quiet.first_known (hT : T.Sound) (h : Quiet T s) :
    ((afterCheck T L s r).rule 0).ok ≠ .unknown := by
  have hfirst : ((turnState T L s r T.size).rule 0).ok = .ok := turnState_first hT h.1 le_rfl
  show ((turnState T L s r T.size).rule 0).ok ≠ .unknown
  rw [hfirst]
  decide

end pass

/-! ### `platine1.h` -/

namespace LogicType

/-- `LogicANDCD` -/
def andCD : UInt8 := invC ^^^ invD ^^^ invQ2
/-- `LogicANDQ12` -/
def andQ12 : UInt8 := invQ1 ^^^ invQ2 ^^^ invQ

end LogicType

/-- `LogicANDAB` on the first rule as `third` and `fourth`. -/
theorem logicGate_and (a b : UInt32) : logicGate LogicType.forceOff a b 0 0 = a &&& b := by
  have h : hasFlag LogicType.forceOff LogicType.invA = true ∧
      hasFlag LogicType.forceOff LogicType.invB = true ∧
      hasFlag LogicType.forceOff LogicType.invC = false ∧
      hasFlag LogicType.forceOff LogicType.invD = false ∧
      hasFlag LogicType.forceOff LogicType.invQ1 = true ∧
      hasFlag LogicType.forceOff LogicType.invQ2 = false ∧
      hasFlag LogicType.forceOff LogicType.invQ = false ∧
      hasFlag LogicType.forceOff LogicType.xor = false := by
    decide
  simp only [logicGate, invertIf, h]
  apply UInt32.toBitVec_inj.mp
  simp [BitVec.not_or]

namespace Platine1

/-- `ruleData`.  The rules that should be the error of the system and the keys are off. -/
def ruleData : RuleTable where
  data := [
    ⟨.logic LogicType.forceOff 0 0 0, 0, 0⟩,                            -- SystemError
    ⟨.sntp timeServer, 0, 123⟩,                                         -- TimeOK
    ⟨.timeSwitch allDays 0 9 0 10, 1, 0⟩,                               -- Daylight
    ⟨.trigger triggerRising 0 0 3, 2, 0⟩,                               -- SunriseTrigger
    ⟨.trigger triggerFalling 0 0 4, 2, 0⟩,                              -- SunsetTrigger
    ⟨.logic LogicType.forceOff 0 0 0, 0, 0⟩,                            -- Shutter1KeyUP
    ⟨.logic LogicType.forceOff 0 0 0, 0, 0⟩,                            -- Shutter1KeyDown
    ⟨.logic (LogicType.forceOff ^^^ LogicType.andCD) 6 3 4, 5, 0⟩,      -- Shutter1Error
    ⟨.logic (LogicType.invA ^^^ LogicType.invB ^^^ LogicType.forceOff ^^^ LogicType.andQ12) 6 3 4, 5,
      0⟩,                                                               -- Shutter1NoManualControl
    ⟨.trigger triggerRising 0 1 0, 8, 0⟩,                               -- Shutter1DriveTimeout
    ⟨.logic LogicType.forceOff 9 0 0, 2, 0⟩,                            -- Shutter1Direction
    ⟨.relay portC 0x10, 10, 0⟩,                                         -- Shutter1RelayDirection
    ⟨.relay portC 0x20, 9, 0⟩]                                          -- Shutter1RelayOverride
  pos := by decide
  small := by decide

abbrev daylight : ℕ := 2
abbrev driveTimeout : ℕ := 9
abbrev direction : ℕ := 10
abbrev relayDirection : ℕ := 11
abbrev relayOverride : ℕ := 12

theorem sound : ruleData.Sound := ⟨⟨rfl, rfl⟩, by decide, by decide⟩

section turns

variable {L : TimeLib} {s : Network} {r : Round}

/-- What a known rule depends on is known. -/
theorem known_of {i d : ℕ} (hi : i < 13 ∧ i ≠ 0) (hd : d ∈ (ruleData.rule i).depends)
    (h : ((afterCheck ruleData L s r).rule i).ok ≠ .unknown) :
    ((afterCheck ruleData L s r).rule d).ok ≠ .unknown :=
  afterCheck_known sound.ordered hi.1 hi.2 h d hd

/-- The running time is known only if the daylight is. -/
theorem daylight_known (h : ((afterCheck ruleData L s r).rule driveTimeout).ok ≠ .unknown) :
    ((afterCheck ruleData L s r).rule daylight).ok ≠ .unknown := by
  have hcontrol : ((afterCheck ruleData L s r).rule 8).ok ≠ .unknown :=
    known_of (by decide) (by decide) h
  have hsunrise : ((afterCheck ruleData L s r).rule 3).ok ≠ .unknown :=
    known_of (by decide) (by decide) hcontrol
  exact known_of (by decide) (by decide) hsunrise

/-- After a pass the known direction is the conjunction of the daylight and the running time. -/
theorem direction_value (h : Quiet ruleData s)
    (hok : ((afterCheck ruleData L s r).rule direction).ok ≠ .unknown) :
    ((afterCheck ruleData L s r).rule direction).value =
      ((afterCheck ruleData L s r).rule daylight).value &&&
        ((afterCheck ruleData L s r).rule driveTimeout).value := by
  have hk : (ruleData.rule direction).kind = .logic LogicType.forceOff driveTimeout 0 0 := rfl
  have hdep : (ruleData.rule direction).dependIndex = daylight := rfl
  have hsmall : direction < ruleData.size := by decide
  have hvalue := h.logic sound hsmall hk hok
  rw [(h.check (L := L) sound r).1, logicGate_and, hdep] at hvalue
  exact hvalue

/-- Between two rounds: the relays show the direction and the running time, and there is no direction
without running time. -/
structure Interlocked (s : Network) : Prop where
  quiet : Quiet ruleData s
  k2 : (s.rule relayDirection).value = (s.rule direction).value
  k1 : (s.rule relayOverride).value = (s.rule driveTimeout).value
  drives : (s.rule direction).value ≠ 0 → (s.rule driveTimeout).value ≠ 0
  shows2 : Shows ruleData s relayDirection
  shows1 : Shows ruleData s relayOverride

/-- After a pass a known relay has the value of its dependency. -/
theorem relay_value {i d : ℕ} {bit : UInt8} (h : Quiet ruleData s) (hi : i < ruleData.size)
    (hk : ruleData.rule i = ⟨.relay portC bit, d, 0⟩)
    (hok : ((afterCheck ruleData L s r).rule i).ok ≠ .unknown) :
    ((afterCheck ruleData L s r).rule i).value = ((afterCheck ruleData L s r).rule d).value := by
  have hc := ((h.check (L := L) sound r).2 i hi).resolve_left hok
  unfold Consistent at hc
  simp only [hk] at hc
  exact hc.1

/-- A pass keeps a relay at the value of its dependency. -/
theorem relay_follows {i d : ℕ} {bit : UInt8} (h : Quiet ruleData s) (hi : i < ruleData.size)
    (hk : ruleData.rule i = ⟨.relay portC bit, d, 0⟩) (hi0 : i ≠ 0)
    (hlocal : (ruleData.rule d).isLocal = true) (hs : (s.rule i).value = (s.rule d).value) :
    ((afterCheck ruleData L s r).rule i).value = ((afterCheck ruleData L s r).rule d).value := by
  have hdepends : (ruleData.rule i).depends = [d] := by rw [hk]; rfl
  have hcomputes : (ruleData.rule i).kind.computes = true := by rw [hk]; rfl
  refine afterCheck_related sound (fun a b => a = b) hi hi0 hcomputes ?_ hlocal ?_
    (relay_value h hi hk) hs
  · rw [hdepends]
    exact List.mem_singleton_self d
  · intro hd e he
    rw [hdepends, List.mem_singleton] at he
    rw [he]
    exact hd

/-- A pass gives no direction without running time. -/
theorem direction_drives (h : Quiet ruleData s)
    (hs : (s.rule direction).value ≠ 0 → (s.rule driveTimeout).value ≠ 0) :
    ((afterCheck ruleData L s r).rule direction).value ≠ 0 →
      ((afterCheck ruleData L s r).rule driveTimeout).value ≠ 0 := by
  have hdepends : (ruleData.rule direction).depends = [daylight, driveTimeout, 0, 0] := rfl
  refine afterCheck_related sound (fun a b => a ≠ 0 → b ≠ 0) (by decide) (by decide) (by decide)
    (by decide) (by decide) ?_ ?_ hs
  · intro hdrive e he
    simp only [hdepends, List.mem_cons, List.not_mem_nil, or_false] at he
    rcases he with rfl | rfl | rfl | rfl
    · exact daylight_known hdrive
    · exact hdrive
    · exact h.first_known sound
    · exact h.first_known sound
  · intro hok hne hzero
    rw [direction_value h hok, hzero, UInt32.and_zero] at hne
    exact hne rfl

/-- **A round** keeps the relays interlocked. -/
theorem Interlocked.after_round (h : Interlocked s) : Interlocked (round ruleData L s r) where
  quiet := (h.quiet.check sound r).send r.ready
  k2 := by
    rw [round_value.1, round_value.1]
    exact relay_follows h.quiet (by decide) rfl (by decide) (by decide) h.k2
  k1 := by
    rw [round_value.1, round_value.1]
    exact relay_follows h.quiet (by decide) rfl (by decide) (by decide) h.k1
  drives := by
    rw [round_value.1, round_value.1]
    exact direction_drives h.quiet h.drives
  shows2 := h.shows2.after_round sound h.quiet (by decide)
  shows1 := h.shows1.after_round sound h.quiet (by decide)

/-- K2 is on while there is a direction. -/
theorem Interlocked.bit2 (h : Interlocked s) :
    s.port portC &&& 0x10 ≠ 0 ↔ (s.rule direction).value ≠ 0 := by
  rw [h.shows2 (portC, 0x10) rfl, h.k2]
  split_ifs with hne
  · exact iff_of_true (by decide) hne
  · exact iff_of_false (by decide) hne

/-- K1 is on in the running time. -/
theorem Interlocked.bit1 (h : Interlocked s) :
    s.port portC &&& 0x20 ≠ 0 ↔ (s.rule driveTimeout).value ≠ 0 := by
  rw [h.shows1 (portC, 0x20) rfl, h.k1]
  split_ifs with hne
  · exact iff_of_true (by decide) hne
  · exact iff_of_false (by decide) hne

/-- K2 is off at the start. -/
theorem bits_init (x : UInt8) : x &&& 0x30 = 0 → x &&& 0x10 = 0 ∧ x &&& 0x20 = 0 := by
  revert x
  decide +kernel

theorem interlocked_init {port : ℕ → UInt8} (hport : port portC &&& 0x30 = 0) :
    Interlocked (Network.init port) where
  quiet := quiet_init ruleData port
  k2 := rfl
  k1 := rfl
  drives := fun h => h
  shows2 := fun a ha => by
    obtain rfl : (portC, 0x10) = a := Option.some.inj ha
    exact (bits_init _ hport).1
  shows1 := fun a ha => by
    obtain rfl : (portC, 0x20) = a := Option.some.inj ha
    exact (bits_init _ hport).2

end turns

end Platine1

section runs

variable {L : TimeLib} {port : ℕ → UInt8} {rounds : List Round}

/-- After every pass of a run the relays are interlocked. -/
theorem Platine1.run_interlocked (hport : port portC &&& 0x30 = 0) :
    ∀ v ∈ Run.visits (round Platine1.ruleData L) (Network.init port) rounds,
      Platine1.Interlocked v.1 ∧ Platine1.Interlocked (round Platine1.ruleData L v.1 v.2) := by
  intro v hv
  have hinv := Run.visits_invariant (fun s r hs => Platine1.Interlocked.after_round (L := L) (r := r) hs)
    (Platine1.interlocked_init hport) v hv
  exact ⟨hinv, hinv.after_round⟩

/-- After every pass of a run the running time is a flag. -/
theorem Platine1.run_driveTimeout (hlast : ∀ r ∈ rounds, r.now ≠ timerOff) :
    ∀ v ∈ Run.visits (round Platine1.ruleData L) (Network.init port) rounds,
      IsFlag ((afterCheck Platine1.ruleData L v.1 v.2).rule Platine1.driveTimeout).value := by
  have hk : (Platine1.ruleData.rule Platine1.driveTimeout).kind = .trigger triggerRising 0 1 0 := rfl
  have hsmall : Platine1.driveTimeout < Platine1.ruleData.size := by decide
  refine Run.visits_guarded (G := fun _ (r : Round) => r.now ≠ timerOff)
    (I := fun s => IsFlag (s.rule Platine1.driveTimeout).value)
    (P := fun s r => IsFlag ((afterCheck Platine1.ruleData L s r).rule Platine1.driveTimeout).value)
    (fun s r hs hnow => ?_) (Or.inl rfl) fun v hv => hlast v.2 (Run.visits_mem hv)
  have hpass := afterCheck_trigger (L := L) hsmall hk hnow hs
  rw [round_value.1]
  exact ⟨hpass, hpass⟩

end runs

/-- **The interlock of the shutter.**  In every run from a start with both relays off, with any behaviour of
the network and of the clock, after every pass: if K2 is on, K1 is on. -/
theorem shutter_interlock (L : TimeLib) (port : ℕ → UInt8) (hport : port portC &&& 0x30 = 0)
    (rounds : List Round) :
    ∀ v ∈ Run.visits (round Platine1.ruleData L) (Network.init port) rounds,
      (afterCheck Platine1.ruleData L v.1 v.2).port portC &&& 0x10 ≠ 0 →
      (afterCheck Platine1.ruleData L v.1 v.2).port portC &&& 0x20 ≠ 0 := by
  intro v hv
  have hafter := (Platine1.run_interlocked hport v hv).2
  rw [← round_port, hafter.bit2, hafter.bit1]
  exact hafter.drives

/-- The reply of 2002-01-28, 23:09, which is 0:09 in the local time. -/
def Platine1.reply : Datagram :=
  ⟨timeServer, 123, udpPort, 56,
    [0x1C] ++ List.replicate 39 0 ++ [0xC0, 0, 0x58, 0x8C, 0, 0, 0, 0]⟩

/-- The pass a second later, in which the shutter begins to run. -/
def Platine1.startPass : Network × Round :=
  (round ruleData exactTime (round ruleData exactTime (Network.init fun _ => 0) (.of 5 none))
    (.of 65574540 (some reply)), .of 65574541 none)

theorem Platine1.startPass_mem : startPass ∈ Run.visits (round ruleData exactTime)
    (Network.init fun _ => 0) [.of 5 none, .of 65574540 (some reply), .of 65574541 none] :=
  List.mem_cons_of_mem _ (List.mem_cons_of_mem _ List.mem_cons_self)

theorem shutter_interlock_start :
    (afterCheck Platine1.ruleData exactTime Platine1.startPass.1 Platine1.startPass.2).port portC &&&
      0x20 ≠ 0 := by
  exact shutter_interlock exactTime (fun _ => 0) (by decide) _ _ Platine1.startPass_mem (by decide +kernel)

/-- The conjunction of the bits of a number and of a flag is the parity of the number. -/
theorem and_isFlag_iff {x y : UInt32} (hy : IsFlag y) : x &&& y ≠ 0 ↔ y ≠ 0 ∧ x.toNat % 2 = 1 := by
  cases hy with
  | inl hy => simp [hy]
  | inr hy =>
      rw [hy, Ne, ← UInt32.toNat_inj, UInt32.toNat_and]
      show ¬ x.toNat &&& 1 = 0 ↔ _
      rw [Nat.and_one_is_mod]
      simp

/-- **The direction of the shutter.**  In every run from a start with both relays off and without a pass in
the last second of the clock, after every pass that leaves the direction known: K2 is on exactly if K1 is
and the seconds to the end of the daylight are odd. -/
theorem shutter_direction (L : TimeLib) (port : ℕ → UInt8) (hport : port portC &&& 0x30 = 0)
    (rounds : List Round) (hlast : ∀ r ∈ rounds, r.now ≠ timerOff) :
    ∀ v ∈ Run.visits (round Platine1.ruleData L) (Network.init port) rounds,
      ((afterCheck Platine1.ruleData L v.1 v.2).rule Platine1.direction).ok ≠ .unknown →
      ((afterCheck Platine1.ruleData L v.1 v.2).port portC &&& 0x10 ≠ 0 ↔
        (afterCheck Platine1.ruleData L v.1 v.2).port portC &&& 0x20 ≠ 0 ∧
        ((afterCheck Platine1.ruleData L v.1 v.2).rule Platine1.daylight).value.toNat % 2 = 1) := by
  intro v hv hok
  obtain ⟨hbefore, hafter⟩ := Platine1.run_interlocked hport v hv
  have hdrive := Platine1.run_driveTimeout hlast v hv
  have hdirection := Platine1.direction_value hbefore.quiet hok
  rw [← round_port, hafter.bit2, hafter.bit1, round_value.1, round_value.1, hdirection]
  exact and_isFlag_iff hdrive

theorem shutter_direction_start :
    (afterCheck Platine1.ruleData exactTime Platine1.startPass.1 Platine1.startPass.2).port portC &&&
        0x10 ≠ 0 ↔
      (afterCheck Platine1.ruleData exactTime Platine1.startPass.1 Platine1.startPass.2).port portC &&&
        0x20 ≠ 0 ∧
      ((afterCheck Platine1.ruleData exactTime Platine1.startPass.1 Platine1.startPass.2).rule
        Platine1.daylight).value.toNat % 2 = 1 := by
  exact shutter_direction exactTime (fun _ => 0) (by decide) _ (by decide) _ Platine1.startPass_mem
    (by decide +kernel)

end TimeSwitch.Rules
