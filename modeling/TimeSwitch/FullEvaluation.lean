import TimeSwitch.Library.Dataflow
import TimeSwitch.Registers

/-! # Evaluation on changes

`checkRules` evaluates a logic rule or a relay only when a dependency has changed.  The plain way is to
evaluate all of them in each pass, from the values of the other rules (`plain`).  Both give the same
values and switch the same relays, in every run, wherever a rule is known (`checkRules_plain`): the
known rules are consistent, and what a known rule depends on is known. -/

namespace TimeSwitch.Rules

/-! ### The plain evaluation -/

/-- The rules that are computed from other rules alone. -/
def RuleKind.isGate : RuleKind → Bool
  | .logic .. | .relay .. => true
  | _ => false

namespace RuleTable

variable (T : RuleTable)

/-- The value of a logic rule or a relay; other rules keep theirs. -/
def gate (i : ℕ) (v : ℕ → UInt32) : UInt32 :=
  match (T.rule i).kind with
  | .logic type b c d => logicGate type (v (T.rule i).dependIndex) (v b) (v c) (v d)
  | .relay .. => v (T.rule i).dependIndex
  | _ => v i

/-- The values of the rules that are no gates. -/
def sources (v : ℕ → UInt32) (i : ℕ) : UInt32 := if (T.rule i).kind.isGate then 0 else v i

/-- The plain evaluation: all gates, in the order of the table, from the values of the other rules. -/
def plain (v : ℕ → UInt32) : ℕ → UInt32 := Dataflow.pass T.gate T.size (T.sources v)

/-- The rules that a rule other than the first one uses. -/
def uses (i : ℕ) : List ℕ := if i = 0 then [] else (T.rule i).depends

end RuleTable

/-- The values of a state -/
def Network.values (s : Network) (i : ℕ) : UInt32 := (s.rule i).value

section plain

variable {T : RuleTable} {L : TimeLib} {s : Network} {r : Round} {i : ℕ} {u : ℕ → UInt32}

/-- After a pass a known rule has known dependencies. -/
theorem afterCheck_known (hT : T.Ordered) (hi : i < T.size) (hi0 : i ≠ 0)
    (hok : ((afterCheck T L s r).rule i).ok ≠ .unknown) :
    ∀ d ∈ (T.rule i).depends, ((afterCheck T L s r).rule d).ok ≠ .unknown := by
  rw [← dependUnknown_eq_false, afterCheck_dependUnknown hT hi hi0]
  rw [afterCheck_rule hi] at hok
  rcases checkRule_cases T L r.uplink (turnState T L s r i) i with ⟨-, he⟩ | ⟨⟨hu, -⟩, -⟩ | ⟨hd, -⟩
  · rw [he, Network.setOk_same] at hok
    exact absurd rfl hok
  · exact hu
  · exact hd.1

/-- A gate computes the value of a consistent rule. -/
theorem gate_of_consistent (hc : Consistent T s i) (hsource : u i = T.sources s.values i)
    (hu : ∀ j ∈ (T.rule i).depends, u j = s.values j) : T.gate i u = s.values i := by
  unfold RuleTable.sources at hsource
  unfold RuleData.depends at hu
  unfold Consistent at hc
  unfold RuleTable.gate
  cases hk : (T.rule i).kind with
  | logic type b c d =>
      simp only [hk, List.mem_cons, List.not_mem_nil, or_false, forall_eq_or_imp, forall_eq] at hu hc ⊢
      obtain ⟨h₁, h₂, h₃, h₄⟩ := hu
      rw [h₁, h₂, h₃, h₄]
      exact hc.symm
  | relay port bit =>
      simp only [hk, List.mem_cons, List.not_mem_nil, or_false, forall_eq] at hu hc ⊢
      rw [hu]
      exact hc.1.symm
  | _ => simpa [hk, RuleKind.isGate] using hsource

/-- The first rule is off. -/
theorem gate_first (hT : T.Sound) (h0 : (s.rule 0).value = 0) (hsource : u 0 = T.sources s.values 0) :
    T.gate 0 u = s.values 0 := by
  obtain ⟨hkind, hdepend⟩ := hT.first
  have hu : u 0 = 0 := by
    rw [hsource]
    unfold RuleTable.sources
    rw [hkind]
    rfl
  unfold RuleTable.gate Network.values
  rw [hkind, hdepend, h0]
  dsimp only
  rw [hu]
  decide

/-- **A pass** leaves the known rules as the plain evaluation. -/
theorem Quiet.plain (hT : T.Sound) (h : Quiet T s) (hi : i < T.size)
    (hok : ((afterCheck T L s r).rule i).ok ≠ .unknown) :
    T.plain (afterCheck T L s r).values i = (afterCheck T L s r).values i := by
  obtain ⟨h0, hsettled⟩ := h.check (L := L) hT r
  refine Dataflow.pass_agrees (fun i => i < T.size ∧ ((afterCheck T L s r).rule i).ok ≠ .unknown)
    (show ∀ i, _ → ∀ j ∈ T.uses i, _ from ?_) ?_ i hi ⟨hi, hok⟩
  · rintro i ⟨hi, hok⟩ j hj
    unfold RuleTable.uses at hj
    split_ifs at hj with hz
    · cases hj
    · have hji : j < i := hT.ordered i hi hz j hj
      exact ⟨hji, hji.trans hi, afterCheck_known hT.ordered hi hz hok j hj⟩
  · rintro i ⟨hi, hok⟩ u hsource hu
    by_cases hz : i = 0
    · subst hz
      exact gate_first hT h0 hsource
    · unfold RuleTable.uses at hu
      rw [if_neg hz] at hu
      exact gate_of_consistent ((hsettled i hi).resolve_left hok) hsource hu

end plain

/-- **Evaluation on changes is exact.**  In every run, after every `checkRules`, each known rule has the
value that it gets when all logic rules and relays are evaluated from the values of the other rules, and
the bit of each known relay shows this value. -/
theorem checkRules_plain (T : RuleTable) (hT : T.Sound) (L : TimeLib) (port : ℕ → UInt8)
    (rounds : List Round) : ∀ v ∈ Run.visits (round T L) (Network.init port) rounds,
    ∀ i < T.size, ((afterCheck T L v.1 v.2).rule i).ok ≠ .unknown →
      ((afterCheck T L v.1 v.2).rule i).value = T.plain (afterCheck T L v.1 v.2).values i ∧
      ∀ a ∈ (T.rule i).relay, (afterCheck T L v.1 v.2).port a.1 &&& a.2 =
        if T.plain (afterCheck T L v.1 v.2).values i ≠ 0 then a.2 else 0 := by
  intro v hv i hi hok
  have hquiet : Quiet T v.1 :=
    Run.visits_invariant (fun s e hs => (hs.check hT e).send e.ready) (quiet_init T port) v hv
  have hplain := hquiet.plain (L := L) (r := v.2) hT hi hok
  rw [hplain]
  exact ⟨rfl, hquiet.shows hT hi hok⟩

/-- The pass with the value 1 of the remote rule -/
def relayPass : Network × Round :=
  (round relayTable euTime (Network.init fun _ => 0) (.of 5 none),
    .of 6 (some (.value 0x01C8A8C0 4711 1)))

theorem checkRules_plain_relays :
    ((afterCheck relayTable euTime relayPass.1 relayPass.2).rule 4).value =
        relayTable.plain (afterCheck relayTable euTime relayPass.1 relayPass.2).values 4 ∧
      ∀ a ∈ (relayTable.rule 4).relay,
        (afterCheck relayTable euTime relayPass.1 relayPass.2).port a.1 &&& a.2 =
          if relayTable.plain (afterCheck relayTable euTime relayPass.1 relayPass.2).values 4 ≠ 0
            then a.2 else 0 := by
  have hknown : ((afterCheck relayTable euTime relayPass.1 relayPass.2).rule 4).ok ≠ .unknown := by
    decide +kernel
  have hmem : relayPass ∈ Run.visits (round relayTable euTime) (Network.init fun _ => 0)
      [.of 5 none, relayPass.2] := List.mem_cons_of_mem _ List.mem_cons_self
  have hsound : relayTable.Sound := ⟨⟨rfl, rfl⟩, by decide, by decide⟩
  exact checkRules_plain relayTable hsound euTime (fun _ => 0) _ relayPass hmem 4 (by decide) hknown

end TimeSwitch.Rules
