import Mathlib

/-! # Loops over an index

`sweep f n s` is the state after `for (i = 0; i < n; i++) s = f(s, i)`, and `sweep f i s` is the
state before the turn of index `i`.  A loop that works on one component of the state at a time
leaves each component as its own turn has left it (`get_done`).  `settles` is the rule for loops
that bring one index after the other in order: what holds of an index ahead of the loop may be
weaker than what holds behind it. -/

/-- The state after the turns of the indices below `n`. -/
def sweep {σ : Type*} (f : σ → ℕ → σ) : ℕ → σ → σ
  | 0, s => s
  | n + 1, s => f (sweep f n s) n

namespace Sweep

variable {σ α : Type*} {f : σ → ℕ → σ} {s : σ} {n : ℕ}

/-- What every turn keeps holds after the loop. -/
theorem invariant (P : σ → Prop) (hturn : ∀ i s, i < n → P s → P (f s i)) (h0 : P s) :
    P (sweep f n s) := by
  induction n with
  | zero => exact h0
  | succ n ih =>
      rw [sweep]
      apply hturn n _ (Nat.lt_succ_self n)
      exact ih (fun i s hi => hturn i s (Nat.lt_succ_of_lt hi))

/-- **Simulation**: a loop whose turns are those of another loop, seen through `π`. -/
theorem simulates {τ : Type*} {g : τ → ℕ → τ} {π : σ → τ} (P : σ → Prop)
    (hturn : ∀ i s, i < n → P s → P (f s i) ∧ π (f s i) = g (π s) i) (h0 : P s) :
    P (sweep f n s) ∧ π (sweep f n s) = sweep g n (π s) := by
  induction n with
  | zero => exact ⟨h0, rfl⟩
  | succ n ih =>
      obtain ⟨hP, hπ⟩ := ih fun i s hi => hturn i s (Nat.lt_succ_of_lt hi)
      obtain ⟨hP', hπ'⟩ := hturn n _ (Nat.lt_succ_self n) hP
      rw [sweep, sweep, ← hπ]
      exact ⟨hP', hπ'⟩

/-- **Settling.**  `Ahead i r` holds of the indices `r` that the loop has not reached at `i`; the
turn of an index makes it `Done`, and later turns keep it.  `P` holds all the time. -/
theorem settles (P : σ → Prop) (Done : ℕ → σ → Prop) (Ahead : ℕ → ℕ → σ → Prop)
    (hturn : ∀ i s, i < n → P s → P (f s i))
    (hset : ∀ i s, i < n → P s → Ahead i i s → Done i (f s i))
    (hkeep : ∀ r i s, r < i → i < n → Done r s → Done r (f s i))
    (hahead : ∀ i r s, i < r → r < n → Ahead i r s → Ahead (i + 1) r (f s i))
    (hP : P s) (h0 : ∀ r < n, Ahead 0 r s) : ∀ r < n, Done r (sweep f n s) := by
  have hmid : ∀ k, k ≤ n → P (sweep f k s) ∧ (∀ r < k, Done r (sweep f k s)) ∧
      ∀ r, k ≤ r → r < n → Ahead k r (sweep f k s) := by
    intro k hk
    induction k with
    | zero => exact ⟨hP, fun r hr => absurd hr (Nat.not_lt_zero r), fun r _ hr => h0 r hr⟩
    | succ k ih =>
        obtain ⟨hPk, hdone, hrest⟩ := ih (Nat.le_of_succ_le hk)
        refine ⟨hturn k _ hk hPk, ?_, ?_⟩
        · intro r hr
          rcases Nat.lt_succ_iff_lt_or_eq.mp hr with hlt | rfl
          · exact hkeep r k _ hlt hk (hdone r hlt)
          · exact hset r _ hk hPk (hrest r le_rfl hk)
        · intro r hr hrn
          exact hahead k r _ hr hrn (hrest r (Nat.le_of_succ_le hr) hrn)
  exact (hmid n le_rfl).2.1

section components

variable {get : σ → ℕ → α} (hone : ∀ s i j, j ≠ i → get (f s i) j = get s j)

include hone

/-- A component is untouched before the turn of its index. -/
theorem get_ahead {j : ℕ} (hj : n ≤ j) : get (sweep f n s) j = get s j := by
  induction n with
  | zero => rfl
  | succ n ih =>
      rw [sweep, hone _ _ _ (by omega)]
      exact ih (by omega)

/-- After the loop a component is as its own turn has left it. -/
theorem get_done {j : ℕ} (hj : j < n) : get (sweep f n s) j = get (f (sweep f j s) j) j := by
  induction n with
  | zero => exact absurd hj (Nat.not_lt_zero j)
  | succ n ih =>
      rcases Nat.lt_succ_iff_lt_or_eq.mp hj with hlt | rfl
      · rw [sweep, hone _ _ _ (by omega)]
        exact ih hlt
      · rfl

/-- A component is not touched after the turn of its index. -/
theorem get_behind {j k : ℕ} (hj : j < k) (hk : k ≤ n) :
    get (sweep f n s) j = get (sweep f k s) j := by
  rw [get_done hone (hj.trans_le hk), get_done hone hj]

end components

end Sweep
