import TimeSwitch.Library.Sweep

/-! # Networks of local functions

A network has a function for each cell that computes its value from the values of the cells.
`pass F n v` computes the cells below `n` once, in order.  If each cell uses earlier cells only, one
pass is enough: where the values of a state satisfy the functions, the pass gives these values, from
whatever values it has started (`pass_agrees`). -/

namespace Dataflow

variable {α : Type*}

/-- Compute the cells below `n` in order, each from the values so far. -/
def pass (F : ℕ → (ℕ → α) → α) : ℕ → (ℕ → α) → ℕ → α :=
  sweep fun v i => Function.update v i (F i v)

variable {F : ℕ → (ℕ → α) → α} {v w : ℕ → α} {n i : ℕ}

theorem pass_ahead (hi : n ≤ i) : pass F n v i = v i :=
  Sweep.invariant (fun u : ℕ → α => u i = v i)
    (fun j u hj hu => (Function.update_of_ne (by omega) ..).trans hu) rfl

/-- **One pass is enough.**  In a region that is closed under what its cells use, the pass from `w`
gives the values `v`, if each cell of the region has the value `v` when the cells it uses have. -/
theorem pass_agrees {uses : ℕ → List ℕ} (R : ℕ → Prop)
    (hclosed : ∀ i, R i → ∀ j ∈ uses i, j < i ∧ R j)
    (hvalue : ∀ i, R i → ∀ u : ℕ → α, u i = w i → (∀ j ∈ uses i, u j = v j) → F i u = v i) :
    ∀ i < n, R i → pass F n w i = v i := by
  induction n with
  | zero => exact fun i hi => absurd hi (Nat.not_lt_zero i)
  | succ n ih =>
      intro i hi hR
      show Function.update (pass F n w) n (F n (pass F n w)) i = v i
      rcases Nat.lt_succ_iff_lt_or_eq.mp hi with hlt | rfl
      · rw [Function.update_of_ne hlt.ne]
        exact ih i hlt hR
      · rw [Function.update_self]
        refine hvalue i hR _ (pass_ahead le_rfl) fun j hj => ?_
        obtain ⟨hji, hRj⟩ := hclosed i hR j hj
        exact ih j hji hRj

end Dataflow
