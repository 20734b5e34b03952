import TimeSwitch.Schedule

/-! # The port registers

`checkRules` is the only writer of the port registers, and it sets or clears the bits of one relay at a
time.  Over a whole run, a bit that belongs to no relay is never changed, and the bit of a relay is as it
was at the start until the relay is known for the first time.  From then on it shows the value of the
relay, also while the relay is unknown again (`registers_follow`). -/

namespace TimeSwitch.Rules

/-- The bits of the relay show its value. -/
def Shows (T : RuleTable) (s : Network) (i : ℕ) : Prop :=
  ∀ a ∈ (T.rule i).relay, s.port a.1 &&& a.2 = if (s.rule i).value ≠ 0 then a.2 else 0

/-- None of the bits belongs to a relay on the register. -/
def RuleTable.Unassigned (T : RuleTable) (register : ℕ) (mask : UInt8) : Prop :=
  ∀ i < T.size, ∀ a ∈ (T.rule i).relay, a.1 = register → a.2 &&& mask = 0

/-- The rule is known after some pass of the run. -/
def EverKnown (T : RuleTable) (L : TimeLib) (s : Network) (rounds : List Round) (i : ℕ) : Prop :=
  ∃ v ∈ Run.visits (round T L) s rounds, ((afterCheck T L v.1 v.2).rule i).ok ≠ .unknown

section turns

variable {T : RuleTable} {L : TimeLib} {uplink : ℕ → Uplink} {s : Network} {r : Round} {i : ℕ}
  {register : ℕ} {mask : UInt8}

/-- A turn leaves bits alone that are not the relay's, and all bits if the relay stays unknown. -/
theorem checkRule_register (h : (∀ a ∈ (T.rule i).relay, a.1 = register → a.2 &&& mask = 0) ∨
      ((checkRule T L uplink s i).rule i).ok = .unknown) :
    (checkRule T L uplink s i).port register &&& mask = s.port register &&& mask := by
  rcases checkRule_cases T L uplink s i with ⟨-, he⟩ | ⟨-, he⟩ | ⟨-, he⟩
  · rw [he, Network.setOk_port]
  · rw [he]
  · rw [he, Network.settle_port]
    by_cases hk : ∃ bit, (T.rule i).kind = .relay register bit
    · obtain ⟨bit, hk⟩ := hk
      cases h with
      | inl h =>
          have hp : (evaluate T L uplink s i).port register =
              switchBit (s.port register) bit (s.rule (T.rule i).dependIndex).value := by
            simp [evaluate, hk]
          rw [hp]
          apply switchBit_and_of_disjoint
          exact h (register, bit) (by simp [RuleData.relay, hk]) rfl
      | inr h =>
          -- the evaluation of a relay makes it known
          rw [he, Network.settle_same, RuleState.settle_unknown, evaluate_none, hk] at h
          cases h
    · rw [evaluate_port fun bit hb => hk ⟨bit, hb⟩]

/-- A pass leaves bits alone whose relays are unknown after it. -/
theorem afterCheck_register (h : ∀ i < T.size, (∀ a ∈ (T.rule i).relay, a.1 = register →
      a.2 &&& mask = 0) ∨ ((afterCheck T L s r).rule i).ok = .unknown) :
    (afterCheck T L s r).port register &&& mask = s.port register &&& mask := by
  have hturns : ∀ k ≤ T.size,
      (turnState T L s r k).port register &&& mask = s.port register &&& mask := by
    intro k hk
    induction k with
    | zero =>
        show (processNetworkPackets T s r.packet).port register &&& mask = _
        cases processNetworkPackets_effect (T := T) (s := s) r.packet with
        | none _ hp _ => rw [hp]
        | answer i port _ _ he =>
            rw [he]
            rfl
        | reply i timer v _ _ hp _ => rw [hp]
    | succ k ih =>
        have hturn := h k hk
        rw [afterCheck_rule hk] at hturn
        exact (checkRule_register hturn).trans (ih (Nat.le_of_succ_le hk))
  exact hturns T.size le_rfl

theorem round_port : (round T L s r).port = (afterCheck T L s r).port :=
  Sweep.invariant (fun s' : Network => s'.port = (afterCheck T L s r).port)
    (fun i s' _ h => (sendChangedRule_port T r.ready s' i).trans h) rfl

theorem round_value : ((round T L s r).rule i).value = ((afterCheck T L s r).rule i).value ∧
    (((round T L s r).rule i).ok = .unknown ↔ ((afterCheck T L s r).rule i).ok = .unknown) :=
  Sweep.invariant (fun s' : Network =>
      (s'.rule i).value = ((afterCheck T L s r).rule i).value ∧
        ((s'.rule i).ok = .unknown ↔ ((afterCheck T L s r).rule i).ok = .unknown))
    (fun j s' _ h => ⟨(sendChangedRule_value T r.ready s' j i).1.trans h.1,
      (sendChangedRule_value T r.ready s' j i).2.trans h.2⟩) ⟨rfl, Iff.rfl⟩

/-- A round leaves unassigned bits alone. -/
theorem round_unassigned (h : T.Unassigned register mask) :
    (round T L s r).port register &&& mask = s.port register &&& mask := by
  rw [round_port]
  exact afterCheck_register fun i hi => Or.inl (h i hi)

/-- A local rule whose value a pass changes is flagged. -/
theorem afterCheck_flagged (hi : i < T.size) (hlocal : (T.rule i).isLocal = true) :
    ((afterCheck T L s r).rule i).value = (s.rule i).value ∨
      ((afterCheck T L s r).rule i).ok = .changed := by
  have hbefore := (turnState_local (T := T) (L := L) (s := s) (r := r) hlocal).2
  rw [← hbefore, afterCheck_rule hi]
  rcases checkRule_cases T L r.uplink (turnState T L s r i) i with ⟨-, he⟩ | ⟨-, he⟩ | ⟨-, he⟩
  · rw [he, Network.setOk_same]
    exact Or.inl rfl
  · rw [he]
    exact Or.inl rfl
  · rw [he, Network.settle_same]
    cases hv : (evaluate T L r.uplink (turnState T L s r i) i).value with
    | none =>
        rw [RuleState.settle_none hv]
        exact Or.inl rfl
    | some v =>
        by_cases hsame : ((turnState T L s r i).rule i).value = v
        · rw [RuleState.settle_value hv]
          exact Or.inl hsame.symm
        · rw [RuleState.settle_changed hv hsame]
          exact Or.inr rfl

/-- A relay that is unknown after a pass has kept its value and its bits. -/
theorem afterCheck_unknown (hT : T.Sound) (hi : i < T.size) {a : ℕ × UInt8}
    (ha : a ∈ (T.rule i).relay) (hok : ((afterCheck T L s r).rule i).ok = .unknown) :
    ((afterCheck T L s r).rule i).value = (s.rule i).value ∧
      (afterCheck T L s r).port a.1 &&& a.2 = s.port a.1 &&& a.2 := by
  have hlocal : (T.rule i).isLocal = true := by
    unfold RuleData.relay at ha
    unfold RuleData.isLocal
    cases hk : (T.rule i).kind <;> simp [hk] at ha ⊢
  constructor
  · refine (afterCheck_flagged hi hlocal).resolve_right ?_
    rw [hok]
    decide
  · apply afterCheck_register
    intro j hj
    by_cases hji : j = i
    · right
      rw [hji, hok]
    · left
      intro b hb hsame
      exact hT.bits j hj i hi hji b hb a ha hsame

end turns

section runs

variable {T : RuleTable} {L : TimeLib} {s : Network} {r : Round} {i : ℕ} {rounds : List Round}

/-- A consistent relay shows its value. -/
theorem Consistent.shows (h : Consistent T s i) : Shows T s i := by
  intro a ha
  unfold RuleData.relay at ha
  unfold Consistent at h
  cases hk : (T.rule i).kind with
  | relay port bit =>
      simp only [hk, Option.mem_some_iff] at ha h
      subst ha
      rw [h.1]
      exact h.2
  | _ => simp [hk] at ha

/-- After a pass a known relay shows its value. -/
theorem Quiet.shows (hT : T.Sound) (h : Quiet T s) (hi : i < T.size)
    (hok : ((afterCheck T L s r).rule i).ok ≠ .unknown) : Shows T (afterCheck T L s r) i :=
  (((h.check hT r).2 i hi).resolve_left hok).shows

/-- Sending changes neither values nor registers. -/
theorem Shows.send (h : Shows T (afterCheck T L s r) i) : Shows T (round T L s r) i := by
  intro a ha
  rw [round_port, round_value.1]
  exact h a ha

/-- **A round** keeps a relay that shows its value so. -/
theorem Shows.after_round (hT : T.Sound) (h : Quiet T s) (hi : i < T.size) (hs : Shows T s i) :
    Shows T (round T L s r) i := by
  by_cases hok : ((afterCheck T L s r).rule i).ok = .unknown
  · intro a ha
    obtain ⟨hvalue, hbits⟩ := afterCheck_unknown hT hi ha hok
    rw [round_port, round_value.1, hvalue, hbits]
    exact hs a ha
  · exact (h.shows hT hi hok).send

/-- **A run** from a state in which the relay shows its value or is not known yet. -/
theorem run_shows (hT : T.Sound) (hi : i < T.size) (h : Quiet T s)
    (hrun : Shows T s i ∨ EverKnown T L s rounds i) :
    Shows T (rounds.foldl (round T L) s) i := by
  induction rounds generalizing s with
  | nil =>
      refine hrun.resolve_right ?_
      rintro ⟨v, hv, -⟩
      cases hv
  | cons r rounds ih =>
      refine ih ((h.check hT r).send r.ready) ?_
      cases hrun with
      | inl hs => exact Or.inl (hs.after_round hT h hi)
      | inr hknown =>
          obtain ⟨v, hv, hok⟩ := hknown
          cases List.mem_cons.mp hv with
          | inl hfirst =>
              left
              subst hfirst
              exact (h.shows hT hi hok).send
          | inr hlater => exact Or.inr ⟨v, hlater, hok⟩

/-- **A run** in which the relay is never known. -/
theorem run_unknown (hT : T.Sound) (hi : i < T.size) (hrun : ¬ EverKnown T L s rounds i) :
    ∀ a ∈ (T.rule i).relay,
      (rounds.foldl (round T L) s).port a.1 &&& a.2 = s.port a.1 &&& a.2 := by
  intro a ha
  induction rounds generalizing s with
  | nil => rfl
  | cons r rounds ih =>
      have hok : ((afterCheck T L s r).rule i).ok = .unknown := by
        by_contra hok
        exact hrun ⟨(s, r), List.mem_cons_self, hok⟩
      have hrest : ¬ EverKnown T L (round T L s r) rounds i := by
        rintro ⟨v, hv, hknown⟩
        exact hrun ⟨v, List.mem_cons_of_mem _ hv, hknown⟩
      rw [List.foldl_cons, ih hrest, round_port]
      exact (afterCheck_unknown hT hi ha hok).2

/-- **A run** leaves unassigned bits alone. -/
theorem run_unassigned {register : ℕ} {mask : UInt8} (h : T.Unassigned register mask) :
    (rounds.foldl (round T L) s).port register &&& mask = s.port register &&& mask := by
  induction rounds generalizing s with
  | nil => rfl
  | cons r rounds ih => rw [List.foldl_cons, ih, round_unassigned h]

end runs

/-- **The registers follow the relays.**  After every run, bits that belong to no relay are as at the
start.  So are the bits of a relay that was known after no pass; the bits of every other relay show its
value, even if it is unknown now. -/
theorem registers_follow (T : RuleTable) (hT : T.Sound) (L : TimeLib) (port : ℕ → UInt8)
    (rounds : List Round) :
    (∀ register mask, T.Unassigned register mask →
      (rounds.foldl (round T L) (Network.init port)).port register &&& mask =
        port register &&& mask) ∧
    ∀ i < T.size,
      (EverKnown T L (Network.init port) rounds i →
        Shows T (rounds.foldl (round T L) (Network.init port)) i) ∧
      (¬ EverKnown T L (Network.init port) rounds i → ∀ a ∈ (T.rule i).relay,
        (rounds.foldl (round T L) (Network.init port)).port a.1 &&& a.2 = port a.1 &&& a.2) := by
  refine ⟨fun register mask h => run_unassigned h, fun i hi => ⟨fun hknown => ?_, fun hnever => ?_⟩⟩
  · exact run_shows hT hi (quiet_init T port) (Or.inr hknown)
  · exact run_unknown hT hi hnever

/-- The remote rule receives the value 1. -/
def relayRounds : List Round := [.of 5 none, .of 6 (some (.value 0x01C8A8C0 4711 1))]

theorem registers_follow_relays :
    (relayRounds.foldl (round relayTable euTime) (Network.init fun _ => 0xFF)).port 0 &&& 0x0F =
        0x0F ∧
      Shows relayTable (relayRounds.foldl (round relayTable euTime) (Network.init fun _ => 0xFF))
        4 := by
  obtain ⟨hother, hrelays⟩ := registers_follow relayTable ⟨⟨rfl, rfl⟩, by decide, by decide⟩ euTime
    (fun _ => 0xFF) relayRounds
  have hfree : relayTable.Unassigned 0 0x0F :=
    show ∀ i < 6, ∀ a ∈ (relayTable.rule i).relay, a.1 = 0 → a.2 &&& 0x0F = 0 by decide
  refine ⟨hother 0 0x0F hfree, (hrelays 4 (by decide)).1 ?_⟩
  refine ⟨_, List.mem_cons_of_mem _ List.mem_cons_self, ?_⟩
  decide +kernel

end TimeSwitch.Rules
