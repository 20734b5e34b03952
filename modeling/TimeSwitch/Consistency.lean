import TimeSwitch.Library.Runs
import TimeSwitch.RuleTurns

/-! # The rules are consistent after `checkRules`

A rule is evaluated only when one of its dependencies is flagged `changed` in the same pass, or its
timer expires.  All the same a known logic rule always has the value of its gates, and a known relay
the value and the bit of its dependency.

Between two rounds every known rule is consistent.  A reply may break this, and flags the remote
rule whose value it changes; a turn may break it for later rules, and flags its rule.  So while the
loop runs, an inconsistent rule ahead has a dependency that is flagged, or will be unknown when the
loop arrives (`Alerted`). -/

namespace TimeSwitch.Rules

/-- A logic rule has the value of its gates; a relay has the value of its dependency, and its bit
shows whether it is non-zero. -/
def Consistent (T : RuleTable) (s : Network) (i : ℕ) : Prop :=
  let v := (s.rule (T.rule i).dependIndex).value
  match (T.rule i).kind with
  | .logic type b c d =>
      (s.rule i).value = logicGate type v (s.rule b).value (s.rule c).value (s.rule d).value
  | .relay port bitValue =>
      (s.rule i).value = v ∧ s.port port &&& bitValue = if v ≠ 0 then bitValue else 0
  | _ => True

/-- Rule 0 is `LogicForceOff` without arguments, the rules are in order, and relays on the same
register have different bits. -/
structure RuleTable.Sound (T : RuleTable) : Prop where
  first : (T.rule 0).kind = .logic LogicType.forceOff 0 0 0 ∧ (T.rule 0).dependIndex = 0
  ordered : T.Ordered
  bits : ∀ i < T.size, ∀ j < T.size, i ≠ j → ∀ a ∈ (T.rule i).relay, ∀ b ∈ (T.rule j).relay,
    a.1 = b.1 → a.2 &&& b.2 = 0

section bits

variable {register bit bit' : UInt8} {v : UInt32}

theorem switchBit_and_self : switchBit register bit v &&& bit = if v ≠ 0 then bit else 0 := by
  unfold switchBit
  split_ifs
  · apply UInt8.toBitVec_inj.mp
    ext i hi
    simp +contextual
  · apply UInt8.toBitVec_inj.mp
    ext i hi
    simp

/-- Switching a relay leaves other bits alone. -/
theorem switchBit_and_of_disjoint (h : bit' &&& bit = 0) :
    switchBit register bit' v &&& bit = register &&& bit := by
  have hbit : ∀ i, bit'.toBitVec.getLsbD i = true → bit.toBitVec.getLsbD i = false := by
    intro i hi
    have := congrArg (fun b => b.toBitVec.getLsbD i) h
    simpa [hi] using this
  unfold switchBit
  split_ifs
  · apply UInt8.toBitVec_inj.mp
    ext i hi
    have := hbit i
    simp only [UInt8.toBitVec_and, UInt8.toBitVec_or, BitVec.getElem_and, BitVec.getElem_or]
    simp only [← BitVec.getLsbD_eq_getElem]
    grind
  · apply UInt8.toBitVec_inj.mp
    ext i hi
    have := hbit i
    simp only [UInt8.toBitVec_and, UInt8.toBitVec_not, BitVec.getElem_and, BitVec.getElem_not]
    simp only [← BitVec.getLsbD_eq_getElem]
    grind

end bits

section turns

variable {T : RuleTable} {L : TimeLib} {uplink : ℕ → Uplink} {s s' : Network} {i r : ℕ}

/-- What consistency of a rule depends on. -/
theorem Consistent.congr (h : Consistent T s r)
    (hv : (s'.rule r).value = (s.rule r).value)
    (hd : ∀ d ∈ (T.rule r).depends, (s'.rule d).value = (s.rule d).value)
    (hp : ∀ a ∈ (T.rule r).relay, s'.port a.1 &&& a.2 = s.port a.1 &&& a.2) :
    Consistent T s' r := by
  revert h
  unfold Consistent
  unfold RuleData.depends at hd
  unfold RuleData.relay at hp
  cases hk : (T.rule r).kind with
  | logic type b c d =>
      simp only [hk, List.mem_cons, List.not_mem_nil, or_false, forall_eq_or_imp, forall_eq] at hd
      obtain ⟨h₁, h₂, h₃, h₄⟩ := hd
      simp only [hv, h₁, h₂, h₃, h₄, imp_self]
  | relay port bit =>
      simp only [hk, List.mem_cons, List.not_mem_nil, or_false, forall_eq] at hd
      have hbit := hp (port, bit) (by simp [hk])
      simp only [hv, hd, hbit, imp_self]
  | _ => simp

/-- Rule 0 is consistent as long as it is off. -/
theorem consistent_first (hT : T.Sound) (h : (s.rule 0).value = 0) : Consistent T s 0 := by
  unfold Consistent
  rw [hT.first.1, hT.first.2]
  simp only [h]
  decide

/-- An evaluation makes the rule consistent, or unknown. -/
theorem consistent_settle (hne : ∀ d ∈ (T.rule i).depends, d ≠ i) :
    Consistent T (s.settle i (evaluate T L uplink s i)) i := by
  unfold RuleData.depends at hne
  unfold Consistent
  cases hk : (T.rule i).kind with
  | logic type b c d =>
      simp only [hk, List.mem_cons, List.not_mem_nil, or_false, forall_eq_or_imp, forall_eq] at hne
      obtain ⟨h₁, h₂, h₃, h₄⟩ := hne
      have hv : (evaluate T L uplink s i).value = some (logicGate type
          (s.rule (T.rule i).dependIndex).value (s.rule b).value (s.rule c).value
          (s.rule d).value) := by
        simp [evaluate, hk]
      simp [h₁, h₂, h₃, h₄, RuleState.settle_value hv]
  | relay port bit =>
      simp only [hk, List.mem_cons, List.not_mem_nil, or_false, forall_eq] at hne
      have hv : (evaluate T L uplink s i).value = some (s.rule (T.rule i).dependIndex).value := by
        simp [evaluate, hk]
      have hp : (evaluate T L uplink s i).port port =
          switchBit (s.port port) bit (s.rule (T.rule i).dependIndex).value := by
        simp [evaluate, hk]
      simp [hne, RuleState.settle_value hv, hp, switchBit_and_self]
  | _ => trivial

/-- A turn leaves the bits of other relays alone. -/
theorem checkRule_bits (hT : T.Sound) (hi : i < T.size) (hr : r < T.size) (hne : r ≠ i) :
    ∀ a ∈ (T.rule r).relay, (checkRule T L uplink s i).port a.1 &&& a.2 = s.port a.1 &&& a.2 := by
  intro a ha
  rcases checkRule_cases T L uplink s i with ⟨-, he⟩ | ⟨-, he⟩ | ⟨-, he⟩
  · rw [he, Network.setOk_port]
  · rw [he]
  · rw [he, Network.settle_port]
    by_cases hk : ∃ bit, (T.rule i).kind = .relay a.1 bit
    · obtain ⟨bit, hk⟩ := hk
      have hb : (a.1, bit) ∈ (T.rule i).relay := by simp [RuleData.relay, hk]
      have hdis := hT.bits i hi r hr hne.symm _ hb a ha rfl
      have hp : (evaluate T L uplink s i).port a.1 =
          switchBit (s.port a.1) bit (s.rule (T.rule i).dependIndex).value := by
        simp [evaluate, hk]
      rw [hp, switchBit_and_of_disjoint hdis]
    · rw [evaluate_port (fun bit hb => hk ⟨bit, hb⟩)]

/-- Rule 0 stays off. -/
theorem checkRule_first (hT : T.Sound) (h : (s.rule 0).value = 0) :
    ((checkRule T L uplink s i).rule 0).value = 0 := by
  by_cases hi : 0 = i
  · subst hi
    rcases checkRule_cases T L uplink s 0 with ⟨-, he⟩ | ⟨-, he⟩ | ⟨-, he⟩
    · simp [he, h]
    · rw [he, h]
    · have hv : (evaluate T L uplink s 0).value = some 0 := by
        simp only [evaluate, hT.first.1, hT.first.2, h]
        decide
      rw [he, Network.settle_same, RuleState.settle_value hv]
  · rw [checkRule_of_ne T L uplink s hi, h]

end turns

/-! ### The invariant -/

/-- A rule is consistent unless it is unknown. -/
def Settled (T : RuleTable) (s : Network) (r : ℕ) : Prop :=
  (s.rule r).ok = .unknown ∨ Consistent T s r

/-- The loop has arrived at `i`.  A dependency of the rule has had its turn and is unknown or
flagged, or it is a remote rule ahead and flagged. -/
def Alerted (T : RuleTable) (s : Network) (i r : ℕ) : Prop :=
  ∃ d ∈ (T.rule r).depends, d < i ∧ ((s.rule d).ok = .unknown ∨ (s.rule d).ok = .changed) ∨
    i ≤ d ∧ (T.rule d).isLocal = false ∧ (s.rule d).ok = .changed

section loop

variable {T : RuleTable} {L : TimeLib} {uplink : ℕ → Uplink} {s s' : Network} {i r : ℕ}

theorem Settled.congr (h : Settled T s r) (hv : ∀ d, (s'.rule d).value = (s.rule d).value)
    (hp : s'.port = s.port) (hu : (s.rule r).ok = .unknown → (s'.rule r).ok = .unknown) :
    Settled T s' r :=
  h.imp hu fun hc => hc.congr (hv r) (fun d _ => hv d) (fun a _ => by rw [hp])

/-- A turn settles its rule. -/
theorem Settled.of_turn (hT : T.Sound) (hi : i < T.size) (h0 : (s.rule 0).value = 0)
    (h : Settled T s i ∨ Alerted T s i i) : Settled T (checkRule T L uplink s i) i := by
  by_cases hz : i = 0
  · subst hz
    exact Or.inr (consistent_first hT (checkRule_first hT h0))
  · rcases checkRule_cases T L uplink s i with ⟨-, he⟩ | ⟨⟨hu, hc, -⟩, he⟩ | ⟨-, he⟩
    · left
      simp [he]
    · rw [he]
      apply h.resolve_right
      rintro ⟨d, hd, ⟨-, hun | hch⟩ | ⟨-, -, hch⟩⟩
      · exact dependUnknown_eq_false.mp hu d hd hun
      · exact dependChanged_eq_false.mp hc d hd hch
      · exact dependChanged_eq_false.mp hc d hd hch
    · right
      rw [he]
      exact consistent_settle fun d hd => (hT.ordered i hi hz d hd).ne

/-- Later turns keep a rule settled. -/
theorem Settled.later (hT : T.Sound) (hri : r < i) (hi : i < T.size) (h : Settled T s r)
    (h0 : (s.rule 0).value = 0) : Settled T (checkRule T L uplink s i) r := by
  have hr : (checkRule T L uplink s i).rule r = s.rule r := checkRule_of_ne T L uplink s hri.ne
  cases h with
  | inl hu =>
      left
      rw [hr, hu]
  | inr hc =>
      right
      by_cases hz : r = 0
      · subst hz
        exact consistent_first hT (checkRule_first hT h0)
      · refine hc.congr (by rw [hr]) (fun d hd => ?_) (checkRule_bits hT hi (hri.trans hi) hri.ne)
        have hdr : d < r := hT.ordered r (hri.trans hi) hz d hd
        rw [checkRule_of_ne T L uplink s (hdr.trans hri).ne]

/-- Before its turn a rule stays settled, or it is alerted. -/
theorem Alerted.advance (hT : T.Sound) (hir : i < r) (hr : r < T.size)
    (h : Settled T s r ∨ Alerted T s i r) :
    Settled T (checkRule T L uplink s i) r ∨ Alerted T (checkRule T L uplink s i) (i + 1) r := by
  have hsame : ∀ {j}, j ≠ i → (checkRule T L uplink s i).rule j = s.rule j :=
    fun hj => checkRule_of_ne T L uplink s hj
  rcases h with (hu | hc) | ⟨d, hd, ⟨hlt, hok⟩ | ⟨hle, hrem, hch⟩⟩
  · left; left
    rw [hsame hir.ne', hu]
  · by_cases hv : (i ∈ (T.rule r).depends → ((checkRule T L uplink s i).rule i).value =
        (s.rule i).value)
    · left; right
      refine hc.congr (by rw [hsame hir.ne']) (fun d hd => ?_)
        (checkRule_bits hT (hir.trans hr) hr hir.ne')
      by_cases hdi : d = i
      · subst hdi
        exact hv hd
      · rw [hsame hdi]
    · right
      obtain ⟨hmem, hne⟩ := Classical.not_imp.mp hv
      have hch := (checkRule_value T L uplink s i).resolve_left hne
      exact ⟨i, hmem, Or.inl ⟨Nat.lt_succ_self i, Or.inr hch⟩⟩
  · right
    exact ⟨d, hd, Or.inl ⟨Nat.lt_succ_of_lt hlt, by rw [hsame hlt.ne]; exact hok⟩⟩
  · right
    by_cases hdi : d = i
    · subst hdi
      refine ⟨d, hd, Or.inl ⟨Nat.lt_succ_self d, ?_⟩⟩
      rcases checkRule_cases T L uplink s d with ⟨-, he⟩ | ⟨-, he⟩ | ⟨-, he⟩
      · left
        simp [he]
      · right
        rw [he, hch]
      · left
        rw [he, Network.settle_same]
        exact RuleState.settle_unknown.mpr (evaluate_none.mpr (RuleKind.computes_of_remote hrem))
    · exact ⟨d, hd, Or.inr ⟨by omega, hrem, by rw [hsame hdi]; exact hch⟩⟩

/-- **`checkRules` settles the rules.** -/
theorem checkRules_settled (hT : T.Sound) (h0 : (s.rule 0).value = 0)
    (h : ∀ r < T.size, Settled T s r ∨ Alerted T s 0 r) :
    ((checkRules T L uplink s).rule 0).value = 0 ∧
      ∀ r < T.size, Settled T (checkRules T L uplink s) r := by
  have hstart : ((s.setOk 0 .ok).rule 0).value = 0 := by simp [h0]
  have hahead : ∀ r < T.size, Settled T (s.setOk 0 .ok) r ∨ Alerted T (s.setOk 0 .ok) 0 r := by
    intro r hr
    by_cases hz : r = 0
    · subst hz
      exact Or.inl (Or.inr (consistent_first hT hstart))
    · rcases h r hr with hs | ⟨d, hd, ⟨hlt, -⟩ | ⟨hle, hrem, hch⟩⟩
      · exact Or.inl (hs.congr (Network.setOk_value s 0 .ok) rfl fun hu => by simpa [hz] using hu)
      · exact absurd hlt (Nat.not_lt_zero d)
      · right
        have hd0 : d ≠ 0 := by
          rintro rfl
          rw [RuleData.isLocal, hT.first.1] at hrem
          cases hrem
        exact ⟨d, hd, Or.inr ⟨hle, hrem, by simpa [hd0] using hch⟩⟩
  constructor
  · exact Sweep.invariant (fun s : Network => (s.rule 0).value = 0) (fun i s _ hs => checkRule_first hT hs)
      hstart
  · have hdone := Sweep.settles (f := checkRule T L uplink) (n := T.size)
      (fun s => (s.rule 0).value = 0)
      (fun r s => (s.rule 0).value = 0 ∧ Settled T s r)
      (fun i r s => Settled T s r ∨ Alerted T s i r)
      (fun i s _ hs => checkRule_first hT hs)
      (fun i s hi hs ha => ⟨checkRule_first hT hs, Settled.of_turn hT hi hs ha⟩)
      (fun r i s hri hi hs => ⟨checkRule_first hT hs.1, hs.2.later hT hri hi hs.1⟩)
      (fun i r s hir hr ha => Alerted.advance hT hir hr ha) hstart hahead
    exact fun r hr => (hdone r hr).2

end loop

/-! ### Runs -/

/-- Between two rounds rule 0 is off and every rule is settled. -/
def Quiet (T : RuleTable) (s : Network) : Prop :=
  (s.rule 0).value = 0 ∧ ∀ r < T.size, Settled T s r

section runs

variable {T : RuleTable} {L : TimeLib} {s s' : Network}

/-- What a packet changes, it flags. -/
theorem Quiet.packet (hT : T.Sound) (h : Quiet T s) (he : PacketEffect T s s') :
    (s'.rule 0).value = 0 ∧ ∀ r < T.size, Settled T s' r ∨ Alerted T s' 0 r := by
  obtain ⟨h0, hs⟩ := h
  cases he with
  | none hr hp _ =>
      refine ⟨by rw [hr, h0], fun r hlt => Or.inl ?_⟩
      exact (hs r hlt).congr (fun d => by rw [hr]) hp (fun hu => by rw [hr, hu])
  | answer i port hl hu he =>
      have hval : ∀ d, (s'.rule d).value = (s.rule d).value := by
        intro d
        rw [he, Network.setOk_value, Network.send_rule]
      refine ⟨(hval 0).trans h0, fun r hlt => Or.inl ?_⟩
      refine (hs r hlt).congr hval (by rw [he]; rfl) fun hur => ?_
      have hri : r ≠ i := by
        rintro rfl
        exact hu hur
      rw [he, Network.setOk_of_ne _ _ hri, Network.send_rule, hur]
  | reply i timer v hrem hr hp _ =>
      have hother : ∀ d, d ≠ i → s'.rule d = s.rule d := by
        intro d hd
        rw [hr, Function.update_of_ne hd]
      have hself : s'.rule i = ⟨timer, v, if (s.rule i).value = v then .ok else .changed⟩ := by
        rw [hr, Function.update_self]
      have hi0 : 0 ≠ i := by
        rintro rfl
        rw [RuleData.isLocal, hT.first.1] at hrem
        cases hrem
      refine ⟨by rw [hother 0 hi0, h0], fun r hlt => ?_⟩
      by_cases hri : r = i
      · -- remote rules have no gates
        subst hri
        refine Or.inl (Or.inr ?_)
        unfold Consistent
        unfold RuleData.isLocal at hrem
        cases hk : (T.rule r).kind <;> simp [hk] at hrem ⊢
      · by_cases hv : i ∈ (T.rule r).depends → (s.rule i).value = v
        · left
          cases hs r hlt with
          | inl hu => exact Or.inl (by rw [hother r hri, hu])
          | inr hc =>
              refine Or.inr (hc.congr (by rw [hother r hri]) (fun d hd => ?_) fun a _ => by rw [hp])
              by_cases hdi : d = i
              · subst hdi
                rw [hself, hv hd]
              · rw [hother d hdi]
        · right
          obtain ⟨hmem, hne⟩ := Classical.not_imp.mp hv
          refine ⟨i, hmem, Or.inr ⟨Nat.zero_le i, hrem, ?_⟩⟩
          rw [hself]
          exact if_neg hne

theorem Quiet.check (hT : T.Sound) (h : Quiet T s) (r : Round) :
    Quiet T (afterCheck T L s r) := by
  obtain ⟨h0, ha⟩ := h.packet hT (processNetworkPackets_effect r.packet)
  exact checkRules_settled hT h0 ha

/-- Sending changes neither values nor bits. -/
theorem Quiet.send (h : Quiet T s) (ready : ℕ → Bool) : Quiet T (sendChangedRules T ready s) := by
  refine Sweep.invariant (Quiet T) (fun i s _ hs => ⟨?_, fun r hr => ?_⟩) h
  · rw [(sendChangedRule_value T ready s i 0).1, hs.1]
  · exact (hs.2 r hr).congr (fun d => (sendChangedRule_value T ready s i d).1)
      (sendChangedRule_port T ready s i) (sendChangedRule_value T ready s i r).2.mpr

theorem quiet_init (T : RuleTable) (port : ℕ → UInt8) : Quiet T (Network.init port) :=
  ⟨rfl, fun _ _ => Or.inl rfl⟩

end runs

/-- **Consistency.**  In every run, after every `checkRules`, every known logic rule has the value
of its gates, and every known relay the value and the bit of its dependency. -/
theorem rules_consistent (T : RuleTable) (hT : T.Sound) (L : TimeLib) (port : ℕ → UInt8)
    (rounds : List Round) : ∀ v ∈ Run.visits (round T L) (Network.init port) rounds,
    ∀ r < T.size, ((afterCheck T L v.1 v.2).rule r).ok ≠ .unknown →
      Consistent T (afterCheck T L v.1 v.2) r := by
  intro v hv r hr hu
  have hquiet : Quiet T v.1 :=
    Run.visits_invariant (fun s e hs => (hs.check hT e).send e.ready) (quiet_init T port) v hv
  exact ((hquiet.check hT v.2).2 r hr).resolve_left hu

/-- A remote rule or a constant switches one relay, the negation another one. -/
def relayTable : RuleTable where
  data := [⟨.logic LogicType.forceOff 0 0 0, 0, 0⟩, ⟨.remote 0x01C8A8C0, 0, 4711⟩,
    ⟨.logic LogicType.or 0 0 0, 1, 0⟩, ⟨.logic LogicType.invQ 0 0 0, 1, 0⟩, ⟨.relay 0 16, 2, 0⟩,
    ⟨.relay 0 32, 3, 0⟩]
  pos := by decide
  small := by decide

/-- A round with a packet, everything ready. -/
def Round.of (now : UInt32) (packet : Option Datagram) : Round :=
  ⟨packet, now, fun _ => .sent, fun _ => true⟩

/-- The value of a remote rule arrives. -/
def Datagram.value (ip : UInt32) (port : UInt16) (v : UInt8) : Datagram :=
  ⟨ip, port, udpPort, udpHeaderSize + ruleValueSize, [v, 0, 0, 0]⟩

theorem rules_consistent_relays :
    Consistent relayTable (afterCheck relayTable euTime
      (round relayTable euTime (Network.init fun _ => 0) (.of 5 none))
      (.of 6 (some (.value 0x01C8A8C0 4711 1)))) 4 :=
  rules_consistent relayTable ⟨⟨rfl, rfl⟩, by decide, by decide⟩ euTime (fun _ => 0)
    [.of 5 none, .of 6 (some (.value 0x01C8A8C0 4711 1))] _
    (List.mem_cons_of_mem _ List.mem_cons_self) 4 (by decide) (by decide +kernel)

end TimeSwitch.Rules
