import TimeSwitch.Consistency

/-! # Change notifications

The field `ok` says both that dependents must look at a rule and that its value must still be
broadcast.  A rule that could not be sent stays `changed`; if it is then evaluated to the same
value, it becomes `ok` and is never sent.  The same happens to a rule that becomes unknown before it
is sent.

A turn loses a notification exactly when it evaluates a rule to the value it has (`Repeats`) and
this value is not on the network (`Announced`). -/

namespace TimeSwitch.Rules

/-- The last value put on the network for a rule is its value, or the value is 0 and none was
sent. -/
def Announced (s : Network) (i : ℕ) : Prop := (s.lastSent i).getD 0 = (s.rule i).value

instance (s : Network) (i : ℕ) : Decidable (Announced s i) := by
  unfold Announced; infer_instance

/-- The local rules other than rule 0. -/
def RuleTable.Notifies (T : RuleTable) (i : ℕ) : Prop := i ≠ 0 ∧ (T.rule i).isLocal = true

instance (T : RuleTable) (i : ℕ) : Decidable (T.Notifies i) := by
  unfold RuleTable.Notifies; infer_instance

/-- Every local rule that is `ok` is announced. -/
def Told (T : RuleTable) (s : Network) : Prop :=
  ∀ i < T.size, T.Notifies i → (s.rule i).ok = .ok → Announced s i

instance (T : RuleTable) (s : Network) : Decidable (Told T s) := by unfold Told; infer_instance

/-- The turn of the rule evaluates it to the value it has. -/
def Repeats (T : RuleTable) (L : TimeLib) (uplink : ℕ → Uplink) (s : Network) (i : ℕ) : Prop :=
  Due T s i ∧ (evaluate T L uplink s i).value = some (s.rule i).value

instance (T : RuleTable) (L : TimeLib) (uplink : ℕ → Uplink) (s : Network) (i : ℕ) :
    Decidable (Repeats T L uplink s i) := by
  unfold Repeats; infer_instance

/-- In the round no value is repeated that is not announced. -/
def Announces (T : RuleTable) (L : TimeLib) (s : Network) (r : Round) : Prop :=
  ∀ i < T.size, T.Notifies i →
    Repeats T L r.uplink (turnState T L s r i) i → Announced (turnState T L s r i) i

section turns

variable {T : RuleTable} {L : TimeLib} {uplink : ℕ → Uplink} {ready : ℕ → Bool} {s s' : Network}
  {i j : ℕ}

/-- What `Announced` depends on. -/
theorem announced_congr (hs : s'.lastSent i = s.lastSent i)
    (hv : (s'.rule i).value = (s.rule i).value) : Announced s' i ↔ Announced s i := by
  unfold Announced
  rw [hs, hv]

theorem announced_of_sent (h : s.lastSent i = some (s.rule i).value) : Announced s i := by
  unfold Announced
  rw [h, Option.getD_some]

/-- After the turn of a rule that is not to be sent later: it is told exactly if the turn did not
repeat a value that is not announced. -/
theorem checkRule_told (hlater : (s.rule i).ok ≠ .sendLater)
    (hok : (s.rule i).ok = .ok → Announced s i) :
    (((checkRule T L uplink s i).rule i).ok = .ok → Announced (checkRule T L uplink s i) i) ↔
      (Repeats T L uplink s i → Announced s i) := by
  have hsent := checkRule_lastSent T L uplink s i i
  rcases checkRule_cases T L uplink s i with ⟨hu, he⟩ | ⟨hskip, he⟩ | ⟨hd, he⟩
  · have hrep : ¬ Repeats T L uplink s i := fun h => not_due.mpr (Or.inl hu) h.1
    simp [he, hrep]
  · have hrep : ¬ Repeats T L uplink s i := fun h => not_due.mpr (Or.inr hskip) h.1
    rw [he]
    exact ⟨fun _ h => absurd h hrep, fun _ => hok⟩
  · have hrule : (checkRule T L uplink s i).rule i =
        (s.rule i).settle (evaluate T L uplink s i) := by
      rw [he, Network.settle_same]
    cases hv : (evaluate T L uplink s i).value with
    | none =>
        have hrep : ¬ Repeats T L uplink s i := fun h => by cases hv.symm.trans h.2
        simp [hrule, RuleState.settle_none hv, hrep]
    | some v =>
        by_cases hval : (s.rule i).value = v
        · subst hval
          have hrep : Repeats T L uplink s i := ⟨hd, hv⟩
          rw [announced_congr hsent (by rw [hrule, RuleState.settle_value hv])]
          simp [hrule, RuleState.settle_repeated hv, hlater, hrep]
        · have hrep : ¬ Repeats T L uplink s i := by
            intro h
            exact hval (Option.some.inj (h.2.symm.trans hv))
          simp [hrule, RuleState.settle_changed hv hval, hrep]

/-- No evaluation makes a rule `sendLater`. -/
theorem checkRule_later (h : (s.rule i).ok ≠ .sendLater) :
    ((checkRule T L uplink s i).rule i).ok ≠ .sendLater := by
  rcases checkRule_cases T L uplink s i with ⟨-, he⟩ | ⟨-, he⟩ | ⟨-, he⟩
  · simp [he]
  · rwa [he]
  · rw [he, Network.settle_same]
    unfold RuleState.settle
    split
    · simp
    · split_ifs <;> simp

/-- Sending tells a rule what it tells the network. -/
theorem sendChangedRule_told (hl : (T.rule i).isLocal = true) :
    (((sendChangedRule T ready s i).rule i).ok = .ok → Announced (sendChangedRule T ready s i) i) ↔
      ((s.rule i).ok = .ok → Announced s i) := by
  rcases sendChangedRule_cases T ready s i with ⟨-, he⟩ | ⟨hp, -, he⟩ | ⟨-, hrem, -⟩
  · rw [he]
  · have hann : Announced (sendChangedRule T ready s i) i := by
      apply announced_of_sent
      rw [he, Network.setOk_value]
      exact Network.lastSent_cons_self rfl (if_pos rfl)
    have hok : (s.rule i).ok ≠ .ok := by
      rcases hp with hp | hp <;> simp [hp]
    exact ⟨fun _ h => absurd h hok, fun _ _ => hann⟩
  · cases hl.symm.trans hrem

end turns

/-! ### Rounds -/

/-- The state of a rule and what the network knows of it: all that its own turns change. -/
def Network.view (s : Network) (i : ℕ) : RuleState × Option UInt32 := (s.rule i, s.lastSent i)

/-- No local rule is `sendLater`. -/
def NoneLater (T : RuleTable) (s : Network) : Prop :=
  ∀ i, (T.rule i).isLocal = true → (s.rule i).ok ≠ .sendLater

section rounds

variable {T : RuleTable} {L : TimeLib} {s s' : Network} {i : ℕ}

theorem view_ext {j : ℕ} (hr : s'.rule j = s.rule j) (hs : s'.lastSent j = s.lastSent j) :
    s'.view j = s.view j := Prod.ext hr hs

theorem told_congr (h : s'.view i = s.view i) :
    ((s'.rule i).ok = .ok → Announced s' i) ↔ ((s.rule i).ok = .ok → Announced s i) := by
  obtain ⟨hr, hs⟩ := Prod.mk.inj h
  rw [announced_congr hs (by rw [hr]), hr]

theorem checkRule_view (uplink : ℕ → Uplink) (s : Network) (i j : ℕ) (h : j ≠ i) :
    (checkRule T L uplink s i).view j = s.view j :=
  view_ext (checkRule_of_ne T L uplink s h) (checkRule_lastSent T L uplink s i j)

theorem sendChangedRule_view (ready : ℕ → Bool) (s : Network) (i j : ℕ) (h : j ≠ i) :
    (sendChangedRule T ready s i).view j = s.view j :=
  view_ext (sendChangedRule_of_ne T ready s h) (sendChangedRule_lastSent T ready s h)

/-- A packet leaves a local rule alone or answers for it. -/
theorem PacketEffect.view (h : PacketEffect T s s') (hl : (T.rule i).isLocal = true) :
    s'.view i = s.view i ∨ (s'.rule i).ok = .ok ∧ s'.lastSent i = some (s'.rule i).value := by
  cases h with
  | none hr _ hs => exact Or.inl (view_ext (by rw [hr]) (Network.lastSent_congr hs))
  | answer k port _ _ he =>
      by_cases hk : i = k
      · subst hk
        right
        constructor
        · simp [he]
        · rw [he, Network.setOk_value]
          exact Network.lastSent_cons_self rfl (if_pos rfl)
      · left
        have hd : (Sending.answer k port (s.rule k).value).valueOf i = Option.none :=
          if_neg (Ne.symm hk)
        refine view_ext ?_ (Network.lastSent_cons (by rw [he]; rfl) hd)
        rw [he, Network.setOk_of_ne _ _ hk, Network.send_rule]
  | reply k timer v hrem hr _ hs =>
      have hk : i ≠ k := by
        rintro rfl
        cases hl.symm.trans hrem
      exact Or.inl (view_ext (by rw [hr, Function.update_of_ne hk]) (Network.lastSent_congr hs))

/-- Before the turn of a rule only a packet may have touched it. -/
theorem turnState_view (r : Round) (hi : i ≠ 0) :
    (turnState T L s r i).view i = (processNetworkPackets T s r.packet).view i := by
  unfold turnState
  rw [Sweep.get_ahead (checkRule_view r.uplink) le_rfl]
  refine view_ext ?_ (Network.lastSent_congr rfl)
  rw [Network.setOk_of_ne _ _ hi]
  rfl

/-- A local rule is never `sendLater`. -/
theorem NoneLater.turn (h : NoneLater T s) (r : Round) (hi : i ≠ 0)
    (hl : (T.rule i).isLocal = true) : ((turnState T L s r i).rule i).ok ≠ .sendLater := by
  have hview := turnState_view (T := T) (L := L) (s := s) r hi
  rw [(Prod.mk.inj hview).1]
  rcases (processNetworkPackets_effect (T := T) (s := s) r.packet).view hl with he | ⟨hok, -⟩
  · rw [(Prod.mk.inj he).1]
    exact h i hl
  · simp [hok]

theorem NoneLater.round (h : NoneLater T s) (r : Round) : NoneLater T (round T L s r) := by
  refine Sweep.invariant (NoneLater T) (fun i s _ hs j hl => ?_) ?_
  · by_cases hj : j = i
    · subst hj
      rcases sendChangedRule_cases T r.ready s j with ⟨-, he⟩ | ⟨-, -, he⟩ | ⟨-, hrem, -⟩
      · rw [he]
        exact hs j hl
      · simp [he]
      · cases hl.symm.trans hrem
    · rw [sendChangedRule_of_ne T r.ready s hj]
      exact hs j hl
  refine Sweep.invariant (NoneLater T) (fun i s _ hs j hl => ?_) (fun j hl => ?_)
  · by_cases hj : j = i
    · subst hj
      exact checkRule_later (hs j hl)
    · rw [checkRule_of_ne T L r.uplink s hj]
      exact hs j hl
  · by_cases hj : j = 0
    · simp [hj]
    · rw [Network.setOk_of_ne _ _ hj]
      rcases (processNetworkPackets_effect (T := T) (s := s) r.packet).view hl with he | ⟨hok, -⟩
      · have := h j hl
        rw [← (Prod.mk.inj he).1] at this
        exact this
      · exact fun hc => by cases hok.symm.trans hc

/-- A round loses no notification exactly if it repeats no value that is not announced. -/
theorem told_round (hlater : NoneLater T s) (h : Told T s) (r : Round) :
    Told T (round T L s r) ↔ Announces T L s r := by
  unfold Told Announces
  refine forall_congr' fun i => forall_congr' fun hi => forall_congr' fun hn => ?_
  obtain ⟨hi0, hl⟩ := hn
  have hbefore : ((turnState T L s r i).rule i).ok = .ok → Announced (turnState T L s r i) i := by
    rw [told_congr (turnState_view r hi0)]
    rcases (processNetworkPackets_effect (T := T) (s := s) r.packet).view hl with he | ⟨-, hs⟩
    · rw [told_congr he]
      exact h i hi ⟨hi0, hl⟩
    · exact fun _ => announced_of_sent hs
  have hcheck : (afterCheck T L s r).view i =
      (checkRule T L r.uplink (turnState T L s r i) i).view i :=
    Sweep.get_done (checkRule_view r.uplink) hi
  have hsend := Sweep.get_done (s := afterCheck T L s r) (sendChangedRule_view (T := T) r.ready) hi
  rw [← checkRule_told (hlater.turn r hi0 hl) hbefore, ← told_congr hcheck]
  rw [round, sendChangedRules, told_congr hsend, sendChangedRule_told hl]
  rw [told_congr (Sweep.get_ahead (sendChangedRule_view (T := T) r.ready) le_rfl)]

end rounds

/-- **Notifications.**  A run keeps every local rule that is `ok` announced after every round
exactly if none of its rounds evaluates a rule to a value that it has but that is not announced. -/
theorem changes_announced (T : RuleTable) (L : TimeLib) (port : ℕ → UInt8) (rounds : List Round) :
    (∀ v ∈ Run.visits (round T L) (Network.init port) rounds, Told T (round T L v.1 v.2)) ↔
      ∀ v ∈ Run.visits (round T L) (Network.init port) rounds, Announces T L v.1 v.2 :=
  Run.visits_iff (I := NoneLater T) (P := Told T) (fun _ r h => h.round r)
    (fun _ r hI h => told_round hI h r) (fun _ _ h => by cases h) (fun _ _ _ h => by cases h)

/-- A constant and a rule that repeats it. -/
def repeatTable : RuleTable where
  data := [⟨.logic LogicType.forceOff 0 0 0, 0, 0⟩, ⟨.logic LogicType.forceOn 0 0 0, 0, 0⟩,
    ⟨.logic LogicType.or 0 0 0, 1, 0⟩]
  pos := by decide
  small := by decide

/-- The USB queue is busy in the first round.  In the second one rule 1 is still `changed`, and so
rule 2 is evaluated again before it is sent. -/
def busyRounds : List Round :=
  [⟨none, 5, fun _ => .busy, fun _ => false⟩, ⟨none, 6, fun _ => .busy, fun _ => true⟩]

theorem not_changes_announced : ¬ ∀ (T : RuleTable) (L : TimeLib) (port : ℕ → UInt8)
    (rounds : List Round), T.Ordered →
    ∀ v ∈ Run.visits (round T L) (Network.init port) rounds, Told T (round T L v.1 v.2) := by
  intro h
  have hrun := h repeatTable euTime (fun _ => 0) busyRounds (by decide)
  revert hrun
  decide +kernel

end TimeSwitch.Rules
