import Mathlib

/-! # Circuits on words

A circuit of inverters, OR and XOR gates works on words bit by bit.  Its word is therefore non-zero
exactly if the circuit is true on the bits at some place (`word_ne_zero`), which need not be what it
is on the truths of the words.  It is if all words are zero or all ones (`faithful_of_uniform`), and an
inverter shows that there is no other such class of words (`inv_faithful_iff`). -/

/-- A circuit with inputs from `ι`. -/
inductive Circuit (ι : Type*) where
  | input (i : ι)
  | inv (c : Circuit ι)
  | or (c c' : Circuit ι)
  | xor (c c' : Circuit ι)

/-- The truth of a word -/
def BitVec.truth {w : ℕ} (v : BitVec w) : Bool := decide (v ≠ 0)

namespace Circuit

variable {ι : Type*} {w : ℕ}

/-- The circuit on Boolean inputs -/
def bool (b : ι → Bool) : Circuit ι → Bool
  | input i => b i
  | inv c => !c.bool b
  | or c c' => c.bool b || c'.bool b
  | xor c c' => c.bool b ^^ c'.bool b

/-- The circuit on words -/
def word (v : ι → BitVec w) : Circuit ι → BitVec w
  | input i => v i
  | inv c => ~~~(c.word v)
  | or c c' => c.word v ||| c'.word v
  | xor c c' => c.word v ^^^ c'.word v

/-- The circuit on the bits at a place -/
def slice (c : Circuit ι) (v : ι → BitVec w) (j : ℕ) : Bool := c.bool (fun i => (v i).getLsbD j)

/-- The circuit on words has the truth of the circuit on truths. -/
def Faithful (c : Circuit ι) (v : ι → BitVec w) : Prop :=
  c.word v ≠ 0 ↔ c.bool (fun i => (v i).truth) = true

section slices

variable {c : Circuit ι} {v : ι → BitVec w} {j : ℕ}

/-- **Bit slices.**  A bit of the word is the circuit on these bits. -/
theorem getLsbD_word (hj : j < w) : (c.word v).getLsbD j = c.slice v j := by
  unfold slice
  induction c with
  | input i => rfl
  | inv c ih =>
      rw [word, bool, BitVec.getLsbD_not, ih, decide_eq_true hj, Bool.true_and]
  | or c c' ih ih' => rw [word, bool, BitVec.getLsbD_or, ih, ih']
  | xor c c' ih ih' => rw [word, bool, BitVec.getLsbD_xor, ih, ih']

theorem word_ne_zero : c.word v ≠ 0 ↔ ∃ j < w, c.slice v j = true := by
  constructor
  · intro hne
    by_contra hnone
    push Not at hnone
    apply hne
    apply BitVec.eq_of_getLsbD_eq
    intro j hj
    rw [getLsbD_word hj, Bool.eq_false_iff.mpr (hnone j hj), BitVec.ofNat_eq_ofNat,
      BitVec.getLsbD_zero]
  · rintro ⟨j, hj, htrue⟩ hzero
    rw [← getLsbD_word hj, hzero, BitVec.ofNat_eq_ofNat, BitVec.getLsbD_zero] at htrue
    cases htrue

/-- A circuit is faithful if its truth shows at some place, and its falsity at all of them. -/
theorem faithful_iff : c.Faithful v ↔
    ((∃ j < w, c.slice v j = true) ↔ c.bool (fun i => (v i).truth) = true) := by
  unfold Faithful
  rw [word_ne_zero]

theorem allOnes_ne_zero (hw : 0 < w) : BitVec.allOnes w ≠ 0 := by
  intro hzero
  have hbit := congrArg (BitVec.getLsbD · 0) hzero
  simp [hw] at hbit

/-- The bits of a word that is zero or all ones are its truth. -/
theorem getLsbD_of_uniform {x : BitVec w} (h : x = 0 ∨ x = BitVec.allOnes w) (hj : j < w) :
    x.getLsbD j = x.truth := by
  have hones := allOnes_ne_zero (Nat.zero_lt_of_lt hj)
  unfold BitVec.truth
  rcases h with rfl | rfl
  · simp
  · rw [decide_eq_true hones, BitVec.getLsbD_allOnes, decide_eq_true hj]

/-- Words that are zero or all ones are like Booleans. -/
theorem faithful_of_uniform (hw : 0 < w) (h : ∀ i, v i = 0 ∨ v i = BitVec.allOnes w) :
    c.Faithful v := by
  have hslice : ∀ j < w, c.slice v j = c.bool (fun i => (v i).truth) := by
    intro j hj
    unfold slice
    rw [funext fun i => getLsbD_of_uniform (h i) hj]
  rw [faithful_iff]
  constructor
  · rintro ⟨j, hj, htrue⟩
    rwa [hslice j hj] at htrue
  · intro htrue
    exact ⟨0, hw, (hslice 0 hw).trans htrue⟩

/-- An inverter is faithful on no other words. -/
theorem inv_faithful_iff (hw : 0 < w) (hc : c.Faithful v) :
    c.inv.Faithful v ↔ c.word v = 0 ∨ c.word v = BitVec.allOnes w := by
  have hfull : ~~~(c.word v) ≠ 0 ↔ c.word v ≠ BitVec.allOnes w := by
    rw [ne_eq, ne_eq, BitVec.ofNat_eq_ofNat, ← BitVec.not_allOnes, BitVec.not_inj]
  have hfalse : c.inv.bool (fun i => (v i).truth) = true ↔ c.word v = 0 := by
    unfold Faithful at hc
    rw [bool, Bool.not_eq_true', ← Bool.not_eq_true, ← hc, not_not]
  unfold Faithful
  rw [hfalse, word, hfull]
  constructor
  · intro h
    by_cases hones : c.word v = BitVec.allOnes w
    · exact Or.inr hones
    · exact Or.inl (h.mp hones)
  · rintro (hzero | hones)
    · refine iff_of_true ?_ hzero
      rw [hzero]
      exact (allOnes_ne_zero hw).symm
    · refine iff_of_false (not_not_intro hones) ?_
      rw [hones]
      exact allOnes_ne_zero hw

end slices

end Circuit
