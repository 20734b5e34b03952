import Mathlib

/-! # Trails through adjacent blocks

Blocks `a : α` occupy the intervals `[pos a, next a)` of a line of slots.  A *trail*
`Trail pos next k x as k' y` leads from slot `x` over the blocks `as` to slot `y`: from a
block to the slot behind it and, at most once, from the mark `k = some x` to slot 0.  The
option is the mark that is still ahead, so a trail with `k = none` never jumps.

This is the shape of a ring buffer whose blocks are contiguous: without a mark the blocks
lie in order between the two ends of the trail (`Trail.of_none`), with a mark they lie in
order below the mark and, behind the jump, from slot 0 upwards (`Trail.of_some`). -/

/-- A trail of adjacent blocks with at most one jump to slot 0. -/
inductive Trail {α : Type*} (pos next : α → ℕ) :
    Option ℕ → ℕ → List α → Option ℕ → ℕ → Prop
  | stop (k : Option ℕ) (x : ℕ) : Trail pos next k x [] k x
  | visit {k k' : Option ℕ} {x y : ℕ} {a : α} {as : List α} :
      x = pos a → Trail pos next k (next a) as k' y → Trail pos next k x (a :: as) k' y
  | jump {k' : Option ℕ} {x y : ℕ} {as : List α} :
      Trail pos next none 0 as k' y → Trail pos next (some x) x as k' y

namespace Trail

variable {α : Type*} {pos next : α → ℕ} {k k' k'' : Option ℕ} {x y z : ℕ} {a : α}
  {as bs : List α}

/-- Two trails in sequence. -/
theorem append (h : Trail pos next k x as k' y) (h' : Trail pos next k' y bs k'' z) :
    Trail pos next k x (as ++ bs) k'' z := by
  induction h with
  | stop => exact h'
  | visit hx _ ih => exact .visit hx (ih h')
  | jump _ ih => exact .jump (ih h')

/-- A trail of a single block. -/
theorem single (k : Option ℕ) (a : α) : Trail pos next k (pos a) [a] k (next a) :=
  .visit rfl (.stop _ _)

/-- A trail can be cut in front of any part of its blocks. -/
theorem split (h : Trail pos next k x (as ++ bs) k' y) :
    ∃ k₁ x₁, Trail pos next k x as k₁ x₁ ∧ Trail pos next k₁ x₁ bs k' y := by
  induction as generalizing k x with
  | nil => exact ⟨k, x, .stop _ _, h⟩
  | cons a as ih =>
      cases h with
      | visit hx h =>
          obtain ⟨k₁, x₁, h₁, h₂⟩ := ih h
          exact ⟨k₁, x₁, .visit hx h₁, h₂⟩
      | jump h =>
          cases h with
          | visit hx h =>
              obtain ⟨k₁, x₁, h₁, h₂⟩ := ih h
              exact ⟨k₁, x₁, .jump (.visit hx h₁), h₂⟩

/-- A trail through no block stays where it is or jumps. -/
theorem nil_inv (h : Trail pos next k x [] k' y) :
    (k' = k ∧ y = x) ∨ (k = some x ∧ k' = none ∧ y = 0) := by
  cases h with
  | stop => exact Or.inl ⟨rfl, rfl⟩
  | jump h =>
      cases h with
      | stop => exact Or.inr ⟨rfl, rfl, rfl⟩

/-- A trail that starts with a block reaches its slot, directly or by the jump. -/
theorem cons_inv (h : Trail pos next k x (a :: as) k' y) :
    (x = pos a ∧ Trail pos next k (next a) as k' y) ∨
      (k = some x ∧ pos a = 0 ∧ Trail pos next none (next a) as k' y) := by
  cases h with
  | visit hx h => exact Or.inl ⟨hx, h⟩
  | jump h =>
      cases h with
      | visit hx h => exact Or.inr ⟨rfl, hx.symm, h⟩

/-- A trail can be cut behind any of its blocks. -/
theorem split_at (h : Trail pos next k x (as ++ a :: bs) k' y) :
    ∃ k₁, Trail pos next k x (as ++ [a]) k₁ (next a) ∧ Trail pos next k₁ (next a) bs k' y := by
  obtain ⟨k₁, x₁, h₁, h₂⟩ := split h
  rcases cons_inv h₂ with ⟨rfl, h₃⟩ | ⟨rfl, ha, h₃⟩
  · exact ⟨k₁, h₁.append (single k₁ a), h₃⟩
  · refine ⟨none, h₁.append (.jump ?_), h₃⟩
    exact .visit ha.symm (.stop _ _)

/-- A trail that neither jumps at its start nor ends there starts with a block. -/
theorem exists_cons (h : Trail pos next k x as k' y) (hk : k ≠ some x) (hy : y ≠ x) :
    ∃ a as', as = a :: as' ∧ x = pos a ∧ Trail pos next k (next a) as' k' y := by
  cases h with
  | stop => exact absurd rfl hy
  | visit hx h => exact ⟨_, _, rfl, hx, h⟩
  | jump => exact absurd rfl hk

/-- A mark that is not reached may be carried along. -/
theorem carry (w : ℕ) (h : Trail pos next none x as none y) :
    Trail pos next (some w) x as (some w) y := by
  obtain ⟨k₀, hk⟩ : ∃ k₀ : Option ℕ, none = k₀ := ⟨_, rfl⟩
  obtain ⟨k₁, hk₁⟩ : ∃ k₁ : Option ℕ, none = k₁ := ⟨_, rfl⟩
  nth_rewrite 1 [hk] at h
  rw [hk₁] at h
  induction h with
  | stop => exact .stop _ _
  | visit hx _ ih => exact .visit hx (ih hk hk₁)
  | jump => cases hk

/-- A mark that is ahead at the end was ahead at the start. -/
theorem mark_ahead {w : ℕ} (h : Trail pos next k x as (some w) y) : k = some w := by
  obtain ⟨k₁, hk₁⟩ : ∃ k₁ : Option ℕ, some w = k₁ := ⟨_, rfl⟩
  rw [hk₁] at h ⊢
  induction h with
  | stop => rfl
  | visit _ _ ih => exact ih hk₁
  | jump _ ih => exact absurd ((ih hk₁).trans hk₁.symm) (by simp)

/-- Replace a block by a trail over the same interval. -/
theorem replace {a' : List α} (h : Trail pos next k x (as ++ a :: bs) k' y)
    (ha : ∀ k, Trail pos next k (pos a) a' k (next a)) :
    Trail pos next k x (as ++ (a' ++ bs)) k' y := by
  obtain ⟨k₁, x₁, h₁, h₂⟩ := split h
  rcases cons_inv h₂ with ⟨rfl, h₃⟩ | ⟨rfl, h0, h₃⟩
  · exact h₁.append ((ha k₁).append h₃)
  · refine h₁.append (.jump ?_)
    rw [← h0]
    exact (ha none).append h₃

/-- Changing blocks in place keeps the trail. -/
theorem map {f : α → α} (h : Trail pos next k x as k' y)
    (hf : ∀ a ∈ as, pos (f a) = pos a ∧ next (f a) = next a) :
    Trail pos next k x (as.map f) k' y := by
  induction h with
  | stop => exact .stop _ _
  | @visit k k' x y a as hx _ ih =>
      obtain ⟨hp, hn⟩ := hf a (by simp)
      refine .visit (hx.trans hp.symm) ?_
      rw [hn]
      exact ih (fun b hb => hf b (by simp [hb]))
  | jump _ ih => exact .jump (ih hf)

/-! ### Where the blocks lie -/

section order
variable (hlt : ∀ a, pos a < next a)
include hlt

/-- Without a mark ahead the blocks lie between the ends of the trail. -/
theorem of_none (h : Trail pos next none x as k y) :
    k = none ∧ x + as.length ≤ y ∧ ∀ a ∈ as, x ≤ pos a ∧ next a ≤ y := by
  obtain ⟨k₀, hk⟩ : ∃ k₀ : Option ℕ, none = k₀ := ⟨_, rfl⟩
  rw [hk] at h
  induction h with
  | stop => exact ⟨hk.symm, by simp, by simp⟩
  | @visit k k' x y a as hx _ ih =>
      obtain ⟨h1, h2, h3⟩ := ih hk
      have := hlt a
      refine ⟨h1, by simp only [List.length_cons]; omega, fun b hb => ?_⟩
      rcases List.mem_cons.mp hb with rfl | hb
      · omega
      · have := h3 b hb
        omega
  | jump => cases hk

/-- With a mark ahead, either the trail ends before the mark or it has two parts. -/
theorem of_some {w : ℕ} (h : Trail pos next (some w) x as k y) :
    (k = some w ∧ Trail pos next none x as none y) ∨
      (k = none ∧ ∃ hi lo, as = hi ++ lo ∧ Trail pos next none x hi none w ∧
        Trail pos next none 0 lo none y) := by
  obtain ⟨k₀, hk⟩ : ∃ k₀, some w = k₀ := ⟨_, rfl⟩
  rw [hk] at h
  induction h with
  | stop => exact Or.inl ⟨hk.symm, .stop _ _⟩
  | @visit k k' x y a as hx _ ih =>
      rcases ih hk with ⟨h1, h2⟩ | ⟨h1, hi, lo, rfl, h2, h3⟩
      · exact Or.inl ⟨h1, .visit hx h2⟩
      · exact Or.inr ⟨h1, a :: hi, lo, rfl, .visit hx h2, h3⟩
  | @jump k' x y as h _ =>
      obtain rfl : w = x := Option.some.inj hk
      obtain ⟨rfl, -, -⟩ := of_none hlt h
      exact Or.inr ⟨rfl, [], as, rfl, .stop _ _, h⟩

/-- Without a mark ahead the blocks lie in order. -/
theorem pairwise_of_none (h : Trail pos next none x as k y) :
    as.Pairwise (fun a b => next a ≤ pos b) := by
  obtain ⟨k₀, hk⟩ : ∃ k₀ : Option ℕ, none = k₀ := ⟨_, rfl⟩
  rw [hk] at h
  induction h with
  | stop => exact List.Pairwise.nil
  | @visit k k' x y a as _ h ih =>
      subst hk
      obtain ⟨-, -, h3⟩ := of_none hlt h
      exact List.pairwise_cons.mpr ⟨fun b hb => (h3 b hb).1, ih rfl⟩
  | jump => cases hk

end order

end Trail
