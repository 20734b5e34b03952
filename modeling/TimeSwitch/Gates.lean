import TimeSwitch.Library.BitSlices
import TimeSwitch.Propagation

/-! # The truth of the logic rules

A logic rule computes on all 32 bits of the values, but relays and triggers, and the names of the types,
take a value for its truth `!= 0`.  On all types and trees of logic rules the two agree exactly for the
values 0 and 0xFFFFFFFF, and on a single one if the gates see no difference between the bits and the truths
(`logic_truth_iff`).  The values of the other rules are 1 or a count of seconds. -/

namespace TimeSwitch.Rules

/-! ### Gates -/

/-- An inverter on a truth -/
def invertTruth (type flag : UInt8) (v : Bool) : Bool := if hasFlag type flag then !v else v

/-- The gates of a logic rule as a Boolean network. -/
def truthGate (type : UInt8) (a b c d : Bool) : Bool :=
  let a := invertTruth type LogicType.invA a
  let b := invertTruth type LogicType.invB b
  let c := invertTruth type LogicType.invC c
  let d := invertTruth type LogicType.invD d
  let q₁ := if hasFlag type LogicType.xor then a ^^ b else a || b
  let q₂ := if hasFlag type LogicType.xor then c ^^ d else c || d
  let q₁ := invertTruth type LogicType.invQ1 q₁
  let q₂ := invertTruth type LogicType.invQ2 q₂
  let q := if hasFlag type LogicType.xor then q₁ ^^ q₂ else q₁ || q₂
  invertTruth type LogicType.invQ q

/-- A value as `if` reads it -/
def truth (v : UInt32) : Bool := decide (v ≠ 0)

/-- A bit of a value -/
def bit (j : ℕ) (v : UInt32) : Bool := v.toBitVec.getLsbD j

section circuits

variable {ι : Type*}

/-- An optional inverter -/
def invertCircuit (type flag : UInt8) (c : Circuit ι) : Circuit ι :=
  if hasFlag type flag then .inv c else c

/-- The OR or XOR stage -/
def stageCircuit (type : UInt8) (c c' : Circuit ι) : Circuit ι :=
  if hasFlag type LogicType.xor then .xor c c' else .or c c'

/-- The gates of a logic rule as a circuit. -/
def gateCircuit (type : UInt8) (a b c d : Circuit ι) : Circuit ι :=
  invertCircuit type LogicType.invQ (stageCircuit type
    (invertCircuit type LogicType.invQ1 (stageCircuit type
      (invertCircuit type LogicType.invA a) (invertCircuit type LogicType.invB b)))
    (invertCircuit type LogicType.invQ2 (stageCircuit type
      (invertCircuit type LogicType.invC c) (invertCircuit type LogicType.invD d))))

variable {type flag : UInt8} {c c' : Circuit ι} {t : ι → Bool} {w : ι → BitVec 32}

theorem bool_invertCircuit :
    (invertCircuit type flag c).bool t = invertTruth type flag (c.bool t) := by
  unfold invertCircuit invertTruth
  split_ifs
  · rfl
  · rfl

theorem word_invertCircuit {v : UInt32} (h : c.word w = v.toBitVec) :
    (invertCircuit type flag c).word w = (invertIf type flag v).toBitVec := by
  unfold invertCircuit invertIf
  split_ifs
  · rw [Circuit.word, h, UInt32.toBitVec_not]
  · exact h

theorem bool_stageCircuit : (stageCircuit type c c').bool t =
    if hasFlag type LogicType.xor then c.bool t ^^ c'.bool t else c.bool t || c'.bool t := by
  unfold stageCircuit
  split_ifs
  · rfl
  · rfl

theorem word_stageCircuit {v v' : UInt32} (h : c.word w = v.toBitVec) (h' : c'.word w = v'.toBitVec) :
    (stageCircuit type c c').word w =
      (if hasFlag type LogicType.xor then v ^^^ v' else v ||| v').toBitVec := by
  unfold stageCircuit
  split_ifs
  · rw [Circuit.word, h, h', UInt32.toBitVec_xor]
  · rw [Circuit.word, h, h', UInt32.toBitVec_or]

theorem bool_gateCircuit {a b c d : Circuit ι} : (gateCircuit type a b c d).bool t =
    truthGate type (a.bool t) (b.bool t) (c.bool t) (d.bool t) := by
  unfold gateCircuit truthGate
  simp only [bool_invertCircuit, bool_stageCircuit]

theorem word_gateCircuit {a b c d : Circuit ι} {va vb vc vd : UInt32} (ha : a.word w = va.toBitVec)
    (hb : b.word w = vb.toBitVec) (hc : c.word w = vc.toBitVec) (hd : d.word w = vd.toBitVec) :
    (gateCircuit type a b c d).word w = (logicGate type va vb vc vd).toBitVec := by
  unfold gateCircuit logicGate
  apply word_invertCircuit
  apply word_stageCircuit
  · apply word_invertCircuit
    exact word_stageCircuit (word_invertCircuit ha) (word_invertCircuit hb)
  · apply word_invertCircuit
    exact word_stageCircuit (word_invertCircuit hc) (word_invertCircuit hd)

end circuits

/-! ### Trees of logic rules -/

/-- A tree of logic rules over the values of other rules. -/
inductive LogicTree where
  | rule (i : ℕ)
  | gate (type : UInt8) (a b c d : LogicTree)

namespace LogicTree

/-- The value that the rules compute. -/
def eval (v : ℕ → UInt32) : LogicTree → UInt32
  | rule i => v i
  | gate type a b c d => logicGate type (a.eval v) (b.eval v) (c.eval v) (d.eval v)

/-- The Boolean network of the flags -/
def network (t : ℕ → Bool) : LogicTree → Bool
  | rule i => t i
  | gate type a b c d => truthGate type (a.network t) (b.network t) (c.network t) (d.network t)

def circuit : LogicTree → Circuit ℕ
  | rule i => .input i
  | gate type a b c d => gateCircuit type a.circuit b.circuit c.circuit d.circuit

/-- The value has the truth of the network. -/
def Agrees (l : LogicTree) (v : ℕ → UInt32) : Prop :=
  l.eval v ≠ 0 ↔ l.network (fun i => truth (v i)) = true

section trees

variable {l : LogicTree} {v : ℕ → UInt32} {t : ℕ → Bool}

theorem bool_circuit : l.circuit.bool t = l.network t := by
  induction l with
  | rule i => rfl
  | gate type a b c d iha ihb ihc ihd =>
      rw [circuit, network, bool_gateCircuit, iha, ihb, ihc, ihd]

theorem word_circuit : l.circuit.word (fun i => (v i).toBitVec) = (l.eval v).toBitVec := by
  induction l with
  | rule i => rfl
  | gate type a b c d iha ihb ihc ihd => exact word_gateCircuit iha ihb ihc ihd

theorem truth_toBitVec (x : UInt32) : x.toBitVec.truth = truth x := by
  unfold BitVec.truth truth
  rw [decide_eq_decide, ne_eq, ne_eq, ← UInt32.toBitVec_inj]
  rfl

/-- The rules agree with the network if the circuit is faithful. -/
theorem agrees_iff_faithful : l.Agrees v ↔ l.circuit.Faithful (fun i => (v i).toBitVec) := by
  unfold Agrees Circuit.Faithful
  rw [word_circuit, bool_circuit, ne_eq, ne_eq, ← UInt32.toBitVec_inj]
  simp only [truth_toBitVec]
  rfl

/-- The rules agree with the network if it is true on the truths exactly when it is on the bits at some
place. -/
theorem agrees_iff : l.Agrees v ↔
    ((∃ j < 32, l.network (fun i => bit j (v i)) = true) ↔
      l.network (fun i => truth (v i)) = true) := by
  rw [agrees_iff_faithful, Circuit.faithful_iff]
  unfold Circuit.slice
  simp only [bool_circuit, truth_toBitVec]
  rfl

theorem eq_zero_or_ones (x : UInt32) : x.toBitVec = 0 ∨ x.toBitVec = BitVec.allOnes 32 ↔
    x = 0 ∨ x = 0xFFFFFFFF := by
  rw [← UInt32.toBitVec_inj, ← UInt32.toBitVec_inj]
  rfl

/-- **Values like Booleans.**  All trees of logic rules agree with their networks exactly if all values
are 0 or 0xFFFFFFFF. -/
theorem all_agree_iff : (∀ l : LogicTree, l.Agrees v) ↔ ∀ i, v i = 0 ∨ v i = 0xFFFFFFFF := by
  constructor
  · intro h i
    -- the inverter of the value
    have hnot := h (.gate LogicType.invQ (.rule i) (.rule i) (.rule i) (.rule i))
    have hid := agrees_iff_faithful.mp
      (h (.gate LogicType.or (.rule i) (.rule i) (.rule i) (.rule i)))
    have hinv := (Circuit.inv_faithful_iff (by decide) hid).mp (agrees_iff_faithful.mp hnot)
    have hself : logicGate LogicType.or (v i) (v i) (v i) (v i) = v i := by
      show (v i ||| v i) ||| (v i ||| v i) = v i
      rw [UInt32.or_self, UInt32.or_self]
    have hword : (circuit (.gate LogicType.or (.rule i) (.rule i) (.rule i) (.rule i))).word
        (fun i => (v i).toBitVec) = (v i).toBitVec := by
      rw [word_circuit, eval, eval, hself]
    rwa [hword, eq_zero_or_ones] at hinv
  · intro h l
    rw [agrees_iff_faithful]
    exact Circuit.faithful_of_uniform (by decide) fun i => (eq_zero_or_ones (v i)).mpr (h i)

end trees

end LogicTree

/-- The truth of one evaluation of a logic rule. -/
def GateAgrees (type : UInt8) (a b c d : UInt32) : Prop :=
  logicGate type a b c d ≠ 0 ↔ truthGate type (truth a) (truth b) (truth c) (truth d) = true

/-- **The truth of the logic rules.**  All trees of logic rules have the truth of their networks exactly
on the values 0 and 0xFFFFFFFF.  A single tree, and one evaluation, has it exactly if the network is
true on the truths when, and only when, it is true on the bits at some place. -/
theorem logic_truth_iff (type : UInt8) (a b c d : UInt32) (l : LogicTree) (v : ℕ → UInt32) :
    ((∀ l : LogicTree, l.Agrees v) ↔ ∀ i, v i = 0 ∨ v i = 0xFFFFFFFF) ∧
    (l.Agrees v ↔
      ((∃ j < 32, l.network (fun i => bit j (v i)) = true) ↔
        l.network (fun i => truth (v i)) = true)) ∧
    (GateAgrees type a b c d ↔
      ((∃ j < 32, truthGate type (bit j a) (bit j b) (bit j c) (bit j d) = true) ↔
        truthGate type (truth a) (truth b) (truth c) (truth d) = true)) := by
  refine ⟨LogicTree.all_agree_iff, LogicTree.agrees_iff, ?_⟩
  exact LogicTree.agrees_iff (l := .gate type (.rule 0) (.rule 1) (.rule 2) (.rule 3))
    (v := fun | 0 => a | 1 => b | 2 => c | _ => d)

/-- A countdown of 4 seconds and a running monoflop are both on, but not their `LogicANDAB`; and
`LogicNOT` of a running monoflop is on. -/
theorem not_logic_truth : ¬ GateAgrees LogicType.forceOff 4 1 0 0 ∧
    ¬ GateAgrees (LogicType.or ^^^ LogicType.invQ) 1 0 0 0 := by
  unfold GateAgrees
  decide

/-! ### The trees of a table -/

/-- The tree of a rule: logic rules on earlier rules are gates. -/
def logicTree (T : RuleTable) (i : ℕ) : LogicTree :=
  match (T.rule i).kind with
  | .logic type b c d =>
      if _ : (T.rule i).dependIndex < i ∧ b < i ∧ c < i ∧ d < i then
        .gate type (logicTree T (T.rule i).dependIndex) (logicTree T b) (logicTree T c)
          (logicTree T d)
      else .rule i
  | _ => .rule i
termination_by i

section tables

variable {T : RuleTable} {L : TimeLib} {s : Network} {r : Round} {i : ℕ}

/-- The dependencies of a known rule are known. -/
theorem known_depends (hT : T.Ordered) (hi : i < T.size) (hi0 : i ≠ 0)
    (hu : ((afterCheck T L s r).rule i).ok ≠ .unknown) :
    ∀ d ∈ (T.rule i).depends, ((afterCheck T L s r).rule d).ok ≠ .unknown := by
  rw [← dependUnknown_eq_false, afterCheck_dependUnknown hT hi hi0]
  by_contra h
  apply hu
  rw [afterCheck_rule hi]
  unfold checkRule
  rw [if_pos (by simpa using h), Network.setOk_same]

/-- **A logic rule computes its tree**: after every pass its value is the one of the tree over the rules
that are not logic rules. -/
theorem logicTree_value (hT : T.Sound) (h : Quiet T (afterCheck T L s r)) (hi : i < T.size)
    (hu : ((afterCheck T L s r).rule i).ok ≠ .unknown) :
    ((afterCheck T L s r).rule i).value =
      (logicTree T i).eval (fun k => ((afterCheck T L s r).rule k).value) := by
  induction i using Nat.strong_induction_on with
  | _ i ih =>
      unfold logicTree
      split
      · rename_i type b c d hk
        split_ifs with hlt
        · have hi0 : i ≠ 0 := Nat.ne_zero_of_lt hlt.1
          have hdep := known_depends hT.ordered hi hi0 hu
          have hc := (h.2 i hi).resolve_left hu
          simp only [RuleData.depends, hk, List.forall_mem_cons, List.not_mem_nil, false_implies,
            implies_true, and_true] at hdep
          obtain ⟨h₁, h₂, h₃, h₄⟩ := hlt
          simp only [Consistent, hk] at hc
          rw [LogicTree.eval, hc, ih _ h₁ (h₁.trans hi) hdep.1, ih b h₂ (h₂.trans hi) hdep.2.1,
            ih c h₃ (h₃.trans hi) hdep.2.2.1, ih d h₄ (h₄.trans hi) hdep.2.2.2]
        · rfl
      · rfl

/-- In every run the truth of a known logic rule is the one of its network, if the network does not tell
the bits from the truths. -/
theorem logicTree_truth (hT : T.Sound) (port : ℕ → UInt8) (rounds : List Round) :
    ∀ v ∈ Run.visits (round T L) (Network.init port) rounds, ∀ i < T.size,
      ((afterCheck T L v.1 v.2).rule i).ok ≠ .unknown →
      (logicTree T i).Agrees (fun k => ((afterCheck T L v.1 v.2).rule k).value) →
      truth ((afterCheck T L v.1 v.2).rule i).value =
        (logicTree T i).network (fun k => truth ((afterCheck T L v.1 v.2).rule k).value) := by
  intro v hv i hi hu hagrees
  have hquiet : Quiet T v.1 :=
    Run.visits_invariant (fun s e hs => (hs.check hT e).send e.ready) (quiet_init T port) v hv
  rw [logicTree_value hT (hquiet.check hT v.2) hi hu, Bool.eq_iff_iff, truth, decide_eq_true_iff]
  exact hagrees

end tables

end TimeSwitch.Rules
