import TimeSwitch.Consistency

/-! # Unknown rules

A rule with an unknown dependency becomes unknown in its turn.  It leaves this state only by an
evaluation, and an evaluation needs a flagged dependency or an expired timer.  A rule that recovers
is flagged if its value is new.  With the value it had it is not, and the rules that depend on it
stay unknown until their timers expire (`Unflagged`).

The remote rules are evaluated by sending a request; `timer` is the time of the next one, which is
far away after a reply.  It stays there if a rule becomes unknown without a request: because its
dependency has recovered without a flag, because the USB queue was busy when its dependency changed,
or because the clock was set back (`KeepsAsking`). -/

namespace TimeSwitch.Rules

/-! ### The end of a pass

The turn of a rule sees its dependencies as they are after the pass. -/

section pass

variable {T : RuleTable} {L : TimeLib} {s : Network} {r : Round} {i k : ℕ}

/-- After the pass a rule is as its turn has left it. -/
theorem afterCheck_rule (hi : i < T.size) :
    (afterCheck T L s r).rule i =
      (checkRule T L r.uplink (turnState T L s r i) i).rule i :=
  Sweep.get_done (fun s _ _ h => checkRule_of_ne T L r.uplink s h) hi

/-- After the pass an earlier rule is as the turn has seen it. -/
theorem afterCheck_rule_of_lt {d : ℕ} (hd : d < i) (hi : i < T.size) :
    (afterCheck T L s r).rule d = (turnState T L s r i).rule d :=
  Sweep.get_behind (fun s _ _ h => checkRule_of_ne T L r.uplink s h) hd hi.le

theorem afterCheck_dependUnknown (hT : T.Ordered) (hi : i < T.size) (hi0 : i ≠ 0) :
    dependUnknown T (afterCheck T L s r) i = dependUnknown T (turnState T L s r i) i := by
  rw [Bool.eq_iff_iff, dependUnknown_eq_true, dependUnknown_eq_true]
  refine exists_congr fun d => and_congr_right fun hd => ?_
  rw [afterCheck_rule_of_lt (hT i hi hi0 d hd) hi]

theorem turnState_time : (turnState T L s r i).time = r.now :=
  Sweep.invariant (fun s : Network => s.time = r.now)
    (fun i s _ h => (checkRule_time T L r.uplink s i).trans h) rfl

/-- Before its turn a rule is as the packet has left it. -/
theorem turnState_ahead (hk : k ≤ i) (hi0 : i ≠ 0) :
    (turnState T L s r k).rule i = (processNetworkPackets T s r.packet).rule i := by
  have hahead : (turnState T L s r k).rule i = ((beforeCheck T s r).setOk 0 .ok).rule i :=
    Sweep.get_ahead (fun s _ _ h => checkRule_of_ne T L r.uplink s h) hk
  rw [hahead, Network.setOk_of_ne _ _ hi0]
  rfl

/-- A rule that is unknown before its turn was so before the packet. -/
theorem turnState_unknown_ahead (hk : k ≤ i) (hi0 : i ≠ 0)
    (hu : ((turnState T L s r k).rule i).ok = .unknown) :
    (turnState T L s r k).rule i = s.rule i := by
  rw [turnState_ahead hk hi0] at hu ⊢
  cases processNetworkPackets_effect (T := T) (s := s) r.packet with
  | none hr _ _ => rw [hr]
  | answer j port _ _ he =>
      rw [he] at hu ⊢
      by_cases hij : i = j
      · subst hij
        rw [Network.setOk_same] at hu
        cases hu
      · rw [Network.setOk_of_ne _ _ hij, Network.send_rule]
  | reply j timer v _ hr _ _ =>
      rw [hr] at hu ⊢
      by_cases hij : i = j
      · subst hij
        rw [Function.update_self] at hu
        dsimp only at hu
        split_ifs at hu
      · rw [Function.update_of_ne hij]

/-- Only a reply makes an unknown rule flagged. -/
theorem packet_flagged (hu : (s.rule i).ok = .unknown) (packet : Option Datagram)
    (hc : ((processNetworkPackets T s packet).rule i).ok = .changed) :
    (T.rule i).isLocal = false := by
  cases processNetworkPackets_effect (T := T) (s := s) packet with
  | none hr _ _ =>
      rw [hr, hu] at hc
      cases hc
  | answer j port _ hj he =>
      have hij : i ≠ j := by
        rintro rfl
        exact hj hu
      rw [he, Network.setOk_of_ne _ _ hij, Network.send_rule, hu] at hc
      cases hc
  | reply j timer v hj hr _ _ =>
      by_cases hij : i = j
      · subst hij
        exact hj
      · rw [hr, Function.update_of_ne hij, hu] at hc
        cases hc

end pass

/-! ### Rules that recover -/

/-- From `s` to `s'` a rule leaves `ruleUnknown` without being flagged, while a rule of the kinds `p`
that depends on it is unknown and has its timer beyond `limit`. -/
def Unflagged (T : RuleTable) (p : RuleData → Bool) (limit : ℕ) (s s' : Network) : Prop :=
  ∃ i < T.size, i ≠ 0 ∧ p (T.rule i) = true ∧ (s.rule i).ok = .unknown ∧
    limit < (s.rule i).timer.toNat ∧ ∃ d ∈ (T.rule i).depends,
      (s.rule d).ok = .unknown ∧ (s'.rule d).ok ≠ .unknown ∧ (s'.rule d).ok ≠ .changed

instance (T : RuleTable) (p : RuleData → Bool) (limit : ℕ) (s s' : Network) :
    Decidable (Unflagged T p limit s s') := by
  unfold Unflagged; infer_instance

/-- In no step of the round does a rule recover without its flag: neither by the packet, or because
`checkRules` sets the first rule to `ruleOK`, nor in a turn. -/
def RecoversFlagged (T : RuleTable) (L : TimeLib) (p : RuleData → Bool) (limit : ℕ) (s : Network)
    (r : Round) : Prop :=
  ¬ Unflagged T p limit s (turnState T L s r 0) ∧
    ∀ k < T.size, ¬ Unflagged T p limit (turnState T L s r k) (turnState T L s r (k + 1))

instance (T : RuleTable) (L : TimeLib) (p : RuleData → Bool) (limit : ℕ) (s : Network) (r : Round) :
    Decidable (RecoversFlagged T L p limit s r) := by
  unfold RecoversFlagged; infer_instance

/-- An unknown rule has its timer within `limit`, or an unknown dependency. -/
def Explained (T : RuleTable) (limit : ℕ) (s : Network) (i : ℕ) : Prop :=
  (s.rule i).ok = .unknown →
    (s.rule i).timer.toNat ≤ limit ∨ ∃ d ∈ (T.rule i).depends, (s.rule d).ok = .unknown

/-- The loop has arrived at `k`.  A dependency of the rule ahead is unknown, or it is flagged and
stays so until the turn of the rule. -/
def Expects (T : RuleTable) (s : Network) (k i : ℕ) : Prop :=
  ∃ d ∈ (T.rule i).depends, (s.rule d).ok = .unknown ∨
    (s.rule d).ok = .changed ∧ (d < k ∨ (T.rule d).isLocal = false)

section recover

variable {T : RuleTable} {L : TimeLib} {uplink : ℕ → Uplink} {p : RuleData → Bool} {limit : ℕ}
  {s s' : Network} {r : Round} {i k : ℕ}

theorem Explained.mono (h : Explained T limit s i) {limit' : ℕ} (hle : limit ≤ limit') :
    Explained T limit' s i := fun hu => (h hu).imp_left fun ht => ht.trans hle

/-- A dependency that recovers is flagged, if the rule needs it. -/
theorem flagged_of_recovered (h : ¬ Unflagged T p limit s s') (hi : i < T.size) (hi0 : i ≠ 0)
    (hp : p (T.rule i) = true) (hu : (s.rule i).ok = .unknown)
    (hfar : limit < (s.rule i).timer.toNat) {d : ℕ} (hd : d ∈ (T.rule i).depends)
    (hdu : (s.rule d).ok = .unknown) :
    (s'.rule d).ok = .unknown ∨ (s'.rule d).ok = .changed := by
  by_contra hc
  obtain ⟨hnu, hnc⟩ := not_or.mp hc
  exact h ⟨i, hi, hi0, hp, hu, hfar, d, hd, hdu, hnu, hnc⟩

/-- When the loop starts. -/
theorem Expects.start (hE : Explained T limit s i)
    (h : ¬ Unflagged T p limit s (turnState T L s r 0)) (hi : i < T.size) (hi0 : i ≠ 0)
    (hp : p (T.rule i) = true) (hu : ((turnState T L s r 0).rule i).ok = .unknown)
    (hfar : limit < ((turnState T L s r 0).rule i).timer.toNat) :
    Expects T (turnState T L s r 0) 0 i := by
  have hrule := turnState_unknown_ahead (Nat.zero_le i) hi0 hu
  rw [hrule] at hu hfar
  obtain ⟨d, hd, hdu⟩ := (hE hu).resolve_left (Nat.not_le.mpr hfar)
  refine ⟨d, hd, (flagged_of_recovered h hi hi0 hp hu hfar hd hdu).imp_right fun hc => ?_⟩
  refine ⟨hc, Or.inr ?_⟩
  by_cases hd0 : d = 0
  · -- the first rule is set to `ruleOK`
    subst hd0
    have hok : ((turnState T L s r 0).rule 0).ok = .ok := by
      rw [turnState, sweep, Network.setOk_same]
    cases hok.symm.trans hc
  · rw [turnState_ahead (Nat.zero_le d) hd0] at hc
    exact packet_flagged hdu r.packet hc

/-- A turn before the one of the rule. -/
theorem Expects.turn (hE : Expects T s k i) (hki : k < i)
    (h : ¬ Unflagged T p limit s (checkRule T L uplink s k)) (hi : i < T.size)
    (hp : p (T.rule i) = true) (hu : (s.rule i).ok = .unknown)
    (hfar : limit < (s.rule i).timer.toNat) : Expects T (checkRule T L uplink s k) (k + 1) i := by
  obtain ⟨d, hd, hd'⟩ := hE
  refine ⟨d, hd, ?_⟩
  by_cases hdk : d = k
  · subst hdk
    have hlt : d < d + 1 := Nat.lt_succ_self d
    rcases hd' with hdu | ⟨hc, hlt' | hrem⟩
    · exact (flagged_of_recovered h hi (Nat.ne_of_gt (Nat.zero_lt_of_lt hki)) hp hu hfar hd
        hdu).imp_right fun hc => ⟨hc, Or.inl hlt⟩
    · exact absurd hlt' (lt_irrefl d)
    · -- a flagged remote rule keeps its flag, or it becomes unknown
      rcases checkRule_cases T L uplink s d with ⟨-, he⟩ | ⟨-, he⟩ | ⟨-, he⟩
      · exact Or.inl (by rw [he, Network.setOk_same])
      · exact Or.inr ⟨by rw [he, hc], Or.inl hlt⟩
      · refine Or.inl ?_
        rw [he, Network.settle_same]
        exact RuleState.settle_unknown.mpr
          (evaluate_none.mpr (RuleKind.computes_of_remote hrem))
  · rw [checkRule_of_ne T L uplink s hdk]
    exact hd'.imp_right (And.imp_right (Or.imp_left Nat.lt_succ_of_lt))

/-- **In its turn** an unknown rule has its timer within `limit`, or a dependency that is unknown or
flagged. -/
theorem RecoversFlagged.in_turn (h : RecoversFlagged T L p limit s r) (hE : Explained T limit s i)
    (hi : i < T.size) (hi0 : i ≠ 0) (hp : p (T.rule i) = true)
    (hu : ((turnState T L s r i).rule i).ok = .unknown) :
    ((turnState T L s r i).rule i).timer.toNat ≤ limit ∨
      dependUnknown T (turnState T L s r i) i = true ∨
        dependChanged T (turnState T L s r i) i = true := by
  by_cases hfar : limit < ((turnState T L s r i).rule i).timer.toNat
  · right
    have hsame : ∀ k ≤ i, (turnState T L s r k).rule i = (turnState T L s r i).rule i := by
      intro k hk
      rw [turnState_ahead hk hi0, turnState_ahead le_rfl hi0]
    have hexpects : ∀ k ≤ i, Expects T (turnState T L s r k) k i := by
      intro k
      induction k with
      | zero =>
          intro hk
          exact Expects.start hE h.1 hi hi0 hp (by rw [hsame 0 hk, hu]) (by rwa [hsame 0 hk])
      | succ k ih =>
          intro hk
          have hki : k ≤ i := Nat.le_of_succ_le hk
          exact (ih hki).turn hk (h.2 k (hk.trans_lt hi |> Nat.lt_of_succ_lt)) hi hp
            (by rw [hsame k hki, hu]) (by rwa [hsame k hki])
    obtain ⟨d, hd, hdu | ⟨hc, -⟩⟩ := hexpects i le_rfl
    · exact Or.inl (dependUnknown_eq_true.mpr ⟨d, hd, hdu⟩)
    · exact Or.inr (dependChanged_eq_true.mpr ⟨d, hd, hc⟩)
  · exact Or.inl (Nat.not_lt.mp hfar)

/-- Sending keeps the timers, and makes no rule known or unknown. -/
theorem Explained.send (h : Explained T limit s i) (ready : ℕ → Bool) :
    Explained T limit (sendChangedRules T ready s) i := by
  refine Sweep.invariant (fun s => Explained T limit s i) (fun j s _ hs hu => ?_) h
  rw [(sendChangedRule_value T ready s j i).2] at hu
  rw [sendChangedRule_timer]
  exact (hs hu).imp_right fun ⟨d, hd, hdu⟩ =>
    ⟨d, hd, (sendChangedRule_value T ready s j d).2.mpr hdu⟩

end recover

/-! ### Rules with a result -/

/-- A rule is unknown exactly if a dependency is. -/
def UnknownExact (T : RuleTable) (s : Network) : Prop :=
  ∀ i < T.size, i ≠ 0 → (T.rule i).kind.computes = true →
    ((s.rule i).ok = .unknown ↔ ∃ d ∈ (T.rule i).depends, (s.rule d).ok = .unknown)

instance (T : RuleTable) (s : Network) : Decidable (UnknownExact T s) := by
  unfold UnknownExact; infer_instance

/-- In no step of the round does a rule recover without its flag while a rule with a result needs it.
A timer within 5 is the one of the start, and a timer that has expired makes the rule due. -/
abbrev Recovers (T : RuleTable) (L : TimeLib) (s : Network) (r : Round) : Prop :=
  RecoversFlagged T L (fun d => d.kind.computes) (max 5 r.now.toNat) s r

/-- The rule is unknown and its turn leaves it alone: the dependencies are known, none of them is
flagged, and the timer has not expired. -/
def Stuck (T : RuleTable) (s : Network) (i : ℕ) : Prop :=
  (s.rule i).ok = .unknown ∧ dependUnknown T s i = false ∧ ¬ Due T s i

section unknown

variable {T : RuleTable} {L : TimeLib} {uplink : ℕ → Uplink} {s : Network} {r : Round} {i : ℕ}

/-- After its turn a rule is unknown because of a dependency, or because it is stuck. -/
theorem checkRule_unknown (hk : (T.rule i).kind.computes = true) :
    ((checkRule T L uplink s i).rule i).ok = .unknown ↔
      dependUnknown T s i = true ∨ Stuck T s i := by
  unfold Stuck
  rcases checkRule_cases T L uplink s i with ⟨hu, he⟩ | ⟨hskip, he⟩ | ⟨hd, he⟩
  · simp [he, hu]
  · have hn : ¬ Due T s i := not_due.mpr (Or.inr hskip)
    simp [he, hskip.1, hn]
  · rw [he, Network.settle_same, RuleState.settle_unknown, evaluate_none, hk]
    simp [hd.1, hd]

/-- A stuck rule stays as it is. -/
theorem Stuck.same (h : Stuck T s i) : checkRule T L uplink s i = s := by
  obtain ⟨-, hu, hd⟩ := h
  rcases checkRule_cases T L uplink s i with ⟨hu', -⟩ | ⟨-, he⟩ | ⟨hd', -⟩
  · cases hu.symm.trans hu'
  · exact he
  · exact absurd hd' hd

/-- In a round whose rules recover with their flags, only the initial timer keeps a rule stuck. -/
theorem Stuck.near (hst : Stuck T (turnState T L s r i) i) (hE : Explained T 5 s i)
    (h : Recovers T L s r) (hi : i < T.size) (hi0 : i ≠ 0)
    (hk : (T.rule i).kind.computes = true) :
    r.now.toNat < ((turnState T L s r i).rule i).timer.toNat ∧
      ((turnState T L s r i).rule i).timer.toNat ≤ 5 := by
  obtain ⟨hu, hdep, hd⟩ := hst
  obtain ⟨-, hch, ht⟩ := (not_due.mp hd).resolve_left (by simp [hdep])
  rw [turnState_time] at ht
  have hlt : r.now.toNat < ((turnState T L s r i).rule i).timer.toNat := UInt32.lt_iff_toNat_lt.mp ht
  refine ⟨hlt, ?_⟩
  rcases h.in_turn (hE.mono (le_max_left 5 _)) hi hi0 hk hu with hle | hdep' | hch'
  · exact (le_max_iff.mp hle).resolve_right (Nat.not_le.mpr hlt)
  · cases hdep.symm.trans hdep'
  · cases hch.symm.trans hch'

/-- After the pass a rule is unknown because of a dependency, or because its turn was stuck. -/
theorem afterCheck_unknown_iff (hT : T.Ordered) (hi : i < T.size) (hi0 : i ≠ 0)
    (hk : (T.rule i).kind.computes = true) :
    ((afterCheck T L s r).rule i).ok = .unknown ↔
      dependUnknown T (afterCheck T L s r) i = true ∨ Stuck T (turnState T L s r i) i := by
  rw [afterCheck_dependUnknown hT hi hi0, afterCheck_rule hi, checkRule_unknown hk]

/-- **A pass** leaves an unknown rule with its initial timer, or with an unknown dependency. -/
theorem Explained.check (hE : Explained T 5 s i) (hT : T.Ordered) (h : Recovers T L s r)
    (hi : i < T.size) (hi0 : i ≠ 0) (hk : (T.rule i).kind.computes = true) :
    Explained T 5 (afterCheck T L s r) i := by
  intro hu
  rcases (afterCheck_unknown_iff hT hi hi0 hk).mp hu with hdep | hst
  · exact Or.inr (dependUnknown_eq_true.mp hdep)
  · left
    rw [afterCheck_rule hi, hst.same]
    exact (hst.near hE h hi hi0 hk).2

end unknown

/-- **Unknown rules.**  In every run in whose rounds no rule leaves `ruleUnknown` without being
flagged while a dependent rule is unknown with a later timer: after all passes at a clock value of at
least 5, every rule with a result is unknown exactly if a dependency is. -/
theorem unknown_propagates (T : RuleTable) (hT : T.Ordered) (L : TimeLib) (port : ℕ → UInt8)
    (rounds : List Round)
    (h : ∀ v ∈ Run.visits (round T L) (Network.init port) rounds, Recovers T L v.1 v.2) :
    ∀ v ∈ Run.visits (round T L) (Network.init port) rounds, 5 ≤ v.2.now →
      UnknownExact T (afterCheck T L v.1 v.2) := by
  refine Run.visits_guarded (I := fun s => ∀ i < T.size, i ≠ 0 →
    (T.rule i).kind.computes = true → Explained T 5 s i) (G := Recovers T L)
    (P := fun s r => 5 ≤ r.now → UnknownExact T (afterCheck T L s r))
    (fun s r hs hr => ⟨fun h5 i hi hi0 hk => ?_, fun i hi hi0 hk => ?_⟩)
    (fun _ _ _ _ _ => Or.inl le_rfl) h
  · rw [← dependUnknown_eq_true, afterCheck_unknown_iff hT hi hi0 hk]
    refine or_iff_left fun hst => ?_
    obtain ⟨hlt, hle⟩ := hst.near (hs i hi hi0 hk) hr hi hi0 hk
    have h5' : 5 ≤ r.now.toNat := UInt32.le_iff_toNat_le.mp h5
    omega
  · exact ((hs i hi hi0 hk).check hT hr hi hi0 hk).send r.ready

/-- Two remote rules one after the other, and a rule that repeats the second one. -/
def remoteTable : RuleTable where
  data := [⟨.logic LogicType.forceOff 0 0 0, 0, 0⟩, ⟨.remote 0x01C8A8C0, 0, 4711⟩,
    ⟨.remote 0x02C8A8C0, 1, 4712⟩, ⟨.logic LogicType.or 0 0 0, 2, 0⟩]
  pos := by decide
  small := by decide

/-- Both remote rules are answered, and a new value of the first one makes the second one unknown. -/
def recoverRounds : List Round :=
  [.of 5 none, .of 6 (some (.value 0x01C8A8C0 4711 1)), .of 7 (some (.value 0x02C8A8C0 4712 7)),
    .of 8 (some (.value 0x01C8A8C0 4711 2))]

/-- The second remote rule recovers with the value `v`. -/
def recoverRound (v : UInt8) : Round := .of 9 (some (.value 0x02C8A8C0 4712 v))

/-- With a new value it is flagged. -/
theorem unknown_propagates_recovered : UnknownExact remoteTable (afterCheck remoteTable euTime
    (recoverRounds.foldl (round remoteTable euTime) (Network.init fun _ => 0)) (recoverRound 8)) := by
  have hrun : ∀ v ∈ Run.visits (round remoteTable euTime) (Network.init fun _ => 0)
      (recoverRounds ++ [recoverRound 8]), Recovers remoteTable euTime v.1 v.2 := by
    decide +kernel
  have hlast := unknown_propagates remoteTable (by decide) euTime (fun _ => 0) _ hrun _
    (Run.visits_last recoverRounds _ (recoverRound 8))
  dsimp only at hlast
  exact hlast (show 5 ≤ (9 : UInt32) by decide)

/-- With its old value it is not. -/
theorem not_unknown_propagates : ¬ ∀ (T : RuleTable) (L : TimeLib) (port : ℕ → UInt8)
    (rounds : List Round), T.Ordered →
    ∀ v ∈ Run.visits (round T L) (Network.init port) rounds, 5 ≤ v.2.now →
      UnknownExact T (afterCheck T L v.1 v.2) := by
  intro h
  have hlast := h remoteTable euTime (fun _ => 0) (recoverRounds ++ [recoverRound 7]) (by decide) _
    (Run.visits_last _ _ _) (by decide)
  revert hlast
  decide +kernel

/-! ### Remote rules -/

/-- A remote rule that is unknown without reason has its next request within 2 seconds. -/
def RequestDue (T : RuleTable) (s : Network) : Prop :=
  ∀ i < T.size, (T.rule i).isLocal = false → (s.rule i).ok = .unknown →
    (∀ d ∈ (T.rule i).depends, (s.rule d).ok ≠ .unknown) →
    (s.rule i).timer.toNat ≤ s.time.toNat + 2

instance (T : RuleTable) (s : Network) : Decidable (RequestDue T s) := by
  unfold RequestDue; infer_instance

/-- The next request is near: it is due from the start, or within 2 seconds. -/
def near (now : UInt32) : ℕ := max 5 (now.toNat + 2)

/-- What would leave a remote rule without a request does not happen in the round: that a dependency
recovers without its flag, that a dependency changes while the next request is far and the USB queue
is busy, and that the clock goes back while the rule waits for an answer. -/
structure KeepsAsking (T : RuleTable) (L : TimeLib) (s : Network) (r : Round) : Prop where
  flagged : RecoversFlagged T L (fun d => !d.isLocal) (near r.now) s r
  free : ∀ i < T.size, (T.rule i).isLocal = false →
    dependChanged T (turnState T L s r i) i = true →
    near r.now < ((turnState T L s r i).rule i).timer.toNat → r.uplink i ≠ .busy
  forward : r.now < s.time → ∀ i < T.size, (T.rule i).isLocal = false →
    (s.rule i).ok = .unknown → dependUnknown T s i = true

instance (T : RuleTable) (L : TimeLib) (s : Network) (r : Round) :
    Decidable (KeepsAsking T L s r) :=
  decidable_of_iff (RecoversFlagged T L (fun d => !d.isLocal) (near r.now) s r ∧
    (∀ i < T.size, (T.rule i).isLocal = false →
      dependChanged T (turnState T L s r i) i = true →
      near r.now < ((turnState T L s r i).rule i).timer.toNat → r.uplink i ≠ .busy) ∧
    (r.now < s.time → ∀ i < T.size, (T.rule i).isLocal = false →
      (s.rule i).ok = .unknown → dependUnknown T s i = true))
    ⟨fun h => ⟨h.1, h.2.1, h.2.2⟩, fun h => ⟨h.flagged, h.free, h.forward⟩⟩

section remote

variable {T : RuleTable} {L : TimeLib} {uplink : ℕ → Uplink} {s : Network} {r : Round} {i : ℕ}

variable (L uplink s) in
/-- The timer after the evaluation of a remote rule. -/
theorem evaluate_timer (hrem : (T.rule i).isLocal = false) :
    (uplink i = .busy ∧ (evaluate T L uplink s i).timer = (s.rule i).timer) ∨
      (uplink i ≠ .busy ∧
        (evaluate T L uplink s i).timer.toNat ≤ s.time.toNat + 2) := by
  unfold RuleData.isLocal at hrem
  unfold evaluate evalRemote
  cases hk : (T.rule i).kind <;> simp only [hk, Bool.true_eq_false] at hrem ⊢ <;>
    cases uplink i <;> simp <;> omega

/-- At the start of a round, seen with its clock. -/
theorem Explained.clock (hE : Explained T (near s.time) s i) (h : KeepsAsking T L s r)
    (hi : i < T.size) (hrem : (T.rule i).isLocal = false) : Explained T (near r.now) s i := by
  by_cases hback : r.now < s.time
  · intro hu
    exact Or.inr (dependUnknown_eq_true.mp (h.forward hback i hi hrem hu))
  · have hle : s.time.toNat ≤ r.now.toNat := UInt32.le_iff_toNat_le.mp (UInt32.not_lt.mp hback)
    exact hE.mono (max_le_max le_rfl (Nat.add_le_add_right hle 2))

/-- **A pass** leaves an unknown remote rule with a near request, or with an unknown dependency. -/
theorem Explained.ask (hE : Explained T (near s.time) s i) (hT : T.Ordered)
    (h : KeepsAsking T L s r) (hi : i < T.size) (hi0 : i ≠ 0)
    (hrem : (T.rule i).isLocal = false) : Explained T (near r.now) (afterCheck T L s r) i := by
  intro hu
  rw [← dependUnknown_eq_true, afterCheck_dependUnknown hT hi hi0]
  rw [afterCheck_rule hi] at hu ⊢
  have htime : (turnState T L s r i).time = r.now := turnState_time
  rcases checkRule_cases T L r.uplink (turnState T L s r i) i with ⟨hdep, -⟩ |
    ⟨⟨hdep, hch, -⟩, he⟩ | ⟨hd, he⟩
  · exact Or.inr hdep
  · -- the rule is not evaluated
    rw [he] at hu ⊢
    rcases h.flagged.in_turn (hE.clock h hi hrem) hi hi0 (by rw [hrem]; rfl) hu with
      hle | hdep' | hch'
    · exact Or.inl hle
    · exact Or.inr hdep'
    · cases hch.symm.trans hch'
  · have hnone : (evaluate T L r.uplink (turnState T L s r i) i).value = none :=
      evaluate_none.mpr (RuleKind.computes_of_remote hrem)
    left
    rw [he, Network.settle_same, RuleState.settle_none hnone]
    dsimp only
    rcases evaluate_timer L r.uplink (turnState T L s r i) hrem with ⟨hb, ht⟩ | ⟨-, ht⟩
    · -- the timer is left as it is
      rw [ht]
      by_contra hfar
      cases hd.2 with
      | inl hc => exact h.free i hi hrem hc (Nat.not_le.mp hfar) hb
      | inr hle =>
          rw [htime] at hle
          have hle' := UInt32.le_iff_toNat_le.mp hle
          unfold near at hfar
          omega
    · rw [htime] at ht
      exact ht.trans (le_max_right _ _)

end remote

/-- **Remote rules.**  In every run whose rounds all keep asking: after all passes at a clock value of
at least 5, every remote rule that is unknown while its dependency is known has its next request
within 2 seconds. -/
theorem requests_due (T : RuleTable) (hT : T.Ordered) (h0 : ∀ d ∈ (T.rule 0).depends, d = 0)
    (L : TimeLib) (port : ℕ → UInt8) (rounds : List Round)
    (h : ∀ v ∈ Run.visits (round T L) (Network.init port) rounds, KeepsAsking T L v.1 v.2) :
    ∀ v ∈ Run.visits (round T L) (Network.init port) rounds, 5 ≤ v.2.now →
      RequestDue T (afterCheck T L v.1 v.2) := by
  have htime : ∀ s (r : Round), (afterCheck T L s r).time = r.now := fun _ _ => turnState_time
  refine Run.visits_guarded (I := fun s => ∀ i < T.size, i ≠ 0 →
    (T.rule i).isLocal = false → Explained T (near s.time) s i) (G := KeepsAsking T L)
    (P := fun s r => 5 ≤ r.now → RequestDue T (afterCheck T L s r))
    (fun s r hs hr => ⟨fun h5 i hi hrem hu hd => ?_, fun i hi hi0 hrem => ?_⟩)
    (fun _ _ _ _ _ => Or.inl (le_max_left _ _)) h
  · by_cases hi0 : i = 0
    · -- the first rule is its own dependency
      subst hi0
      obtain ⟨d, hmem⟩ : ∃ d, d ∈ (T.rule 0).depends := by
        unfold RuleData.depends
        split <;> exact ⟨_, List.mem_cons_self⟩
      have hd0 := hd d hmem
      rw [h0 d hmem] at hd0
      exact absurd hu hd0
    · have h5' : 5 ≤ r.now.toNat := UInt32.le_iff_toNat_le.mp h5
      rw [htime]
      rcases (hs i hi hi0 hrem).ask hT hr hi hi0 hrem hu with hle | ⟨d, hmem, hdu⟩
      · unfold near at hle
        omega
      · exact absurd hdu (hd d hmem)
  · have hsend : (round T L s r).time = r.now :=
      Sweep.invariant (fun s : Network => s.time = r.now)
        (fun i s _ hs => (sendChangedRule_time T r.ready s i).trans hs) (htime s r)
    rw [hsend]
    exact ((hs i hi hi0 hrem).ask hT hr hi hi0 hrem).send r.ready

/-- A new value of the first remote rule arrives while the USB queue is in the state `u`. -/
def changeRound (u : Uplink) : Round :=
  ⟨some (.value 0x01C8A8C0 4711 2), 8, fun _ => u, fun _ => false⟩

/-- With a free queue the second rule, whose timer is off since its reply, sends a request. -/
theorem requests_due_change : RequestDue remoteTable (afterCheck remoteTable euTime
    ((recoverRounds.take 3).foldl (round remoteTable euTime) (Network.init fun _ => 0))
    (changeRound .sent)) := by
  have hrun : ∀ v ∈ Run.visits (round remoteTable euTime) (Network.init fun _ => 0)
      (recoverRounds.take 3 ++ [changeRound .sent]), KeepsAsking remoteTable euTime v.1 v.2 := by
    decide +kernel
  have hlast := requests_due remoteTable (by decide) (by decide) euTime (fun _ => 0) _ hrun _
    (Run.visits_last (recoverRounds.take 3) _ (changeRound .sent))
  dsimp only at hlast
  exact hlast (show 5 ≤ (8 : UInt32) by decide)

/-- With a busy queue it becomes unknown without a request. -/
theorem not_requests_due : ¬ ∀ (T : RuleTable) (L : TimeLib) (port : ℕ → UInt8)
    (rounds : List Round), T.Ordered → (∀ d ∈ (T.rule 0).depends, d = 0) →
    ∀ v ∈ Run.visits (round T L) (Network.init port) rounds, 5 ≤ v.2.now →
      RequestDue T (afterCheck T L v.1 v.2) := by
  intro h
  have hlast := h remoteTable euTime (fun _ => 0) (recoverRounds.take 3 ++ [changeRound .busy])
    (by decide) (by decide) _ (Run.visits_last _ _ _) (by decide)
  revert hlast
  decide +kernel

end TimeSwitch.Rules
