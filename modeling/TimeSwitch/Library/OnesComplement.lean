import Mathlib

/-! # Sums with end-around carry

Words of 16 bits are added and a carry is added at the other end.  This is addition modulo 65535,
with two representations of zero: `0` stands for the empty sum and 65535 for all others (`fold`).  So
the order of the words does not matter (`sum_eq`), a part of a sum can be added beforehand
(`fold_add_add`), and a sum to which its complement is added gives 65535 (`fold_add_complement`).  The
carries may as well be added at the end (`carries_eq`), and the words may be read in either order of
their bytes (`fold_swap`). -/

namespace OnesComplement

/-- Addition of words with end-around carry. -/
def add (a b : ℕ) : ℕ := if 65536 ≤ a + b then a + b - 65535 else a + b

/-- The word that represents a sum. -/
def fold (n : ℕ) : ℕ := if n = 0 then 0 else (n - 1) % 65535 + 1

/-- The sum of words, one after the other. -/
def sum (ws : List ℕ) : ℕ := ws.foldl add 0

/-- Add the carries of a sum until none is left. -/
def carries (n : ℕ) : ℕ := if n < 65536 then n else carries (n % 65536 + n / 65536)
termination_by n
decreasing_by omega

/-- The bytes of a word the other way round. -/
def swap (w : ℕ) : ℕ := w % 256 * 256 + w / 256 % 256

variable {a b n : ℕ} {ws : List ℕ}

theorem add_fold (a : ℕ) (hb : b < 65536) : add (fold a) b = fold (a + b) := by
  unfold add fold
  split_ifs <;> omega

theorem foldl_add (hw : ∀ w ∈ ws, w < 65536) (a : ℕ) :
    ws.foldl add (fold a) = fold (a + ws.sum) := by
  induction ws generalizing a with
  | nil => rfl
  | cons w ws ih =>
      rw [List.forall_mem_cons] at hw
      rw [List.foldl_cons, add_fold a hw.1, ih hw.2, List.sum_cons, Nat.add_assoc]

/-- The sum of words is the one of the numbers. -/
theorem sum_eq (hw : ∀ w ∈ ws, w < 65536) : sum ws = fold ws.sum := by
  have h := foldl_add hw 0
  rwa [Nat.zero_add] at h

/-- A sum and its complement. -/
theorem fold_add_complement (n : ℕ) : fold (n + (65535 - fold n)) = 65535 := by
  rcases Nat.eq_zero_or_pos n with rfl | hn
  · rfl
  · have hdiv := Nat.div_add_mod (n - 1) 65535
    have hlt : (n - 1) % 65535 < 65535 := Nat.mod_lt _ (by decide)
    have hfold : fold n = (n - 1) % 65535 + 1 := if_neg (by omega)
    have hsum : n + (65535 - fold n) = 65535 * ((n - 1) / 65535) + 65534 + 1 := by
      rw [hfold]
      omega
    rw [hsum, fold, if_neg (Nat.succ_ne_zero _), Nat.add_sub_cancel, Nat.mul_add_mod]

/-! ### Multiples of 65535 -/

theorem fold_of_lt (h : n < 65536) : fold n = n := by
  unfold fold
  split_ifs <;> omega

theorem fold_lt (n : ℕ) : fold n < 65536 := by
  unfold fold
  split_ifs <;> omega

/-- Multiples of 65535 do not change the sum if it is not the empty one. -/
theorem fold_add_mul (h : 0 < n) (k : ℕ) : fold (n + 65535 * k) = fold n := by
  have hsub : n + 65535 * k - 1 = n - 1 + 65535 * k := by omega
  unfold fold
  rw [if_neg (by omega), if_neg (by omega), hsub, Nat.add_mul_mod_self_left]

/-- A carry at the other end is not seen in a sum. -/
theorem fold_add_add (a b n : ℕ) : fold (add a b + n) = fold (a + b + n) := by
  unfold add
  split_ifs with h
  · have hmul : a + b + n = a + b - 65535 + n + 65535 * 1 := by omega
    have hpos : 0 < a + b - 65535 + n := by omega
    rw [hmul, fold_add_mul hpos]
  · rfl

/-- A number is its representative and a multiple of 65535. -/
theorem exists_fold_add (n : ℕ) : ∃ k, n = fold n + 65535 * k := by
  refine ⟨(n - 1) / 65535, ?_⟩
  have hdiv := Nat.div_add_mod (n - 1) 65535
  unfold fold
  split_ifs <;> omega

theorem fold_pos (h : 0 < n) : 0 < fold n := by
  unfold fold
  rw [if_neg (by omega)]
  exact Nat.succ_pos _

/-- The carries at the end. -/
theorem carries_eq (n : ℕ) : carries n = fold n := by
  induction n using carries.induct with
  | case1 n h =>
      unfold carries
      rw [if_pos h, fold_of_lt h]
  | case2 n h ih =>
      have hpos : 0 < n % 65536 + n / 65536 := by omega
      have hn : n = n % 65536 + n / 65536 + 65535 * (n / 65536) := by omega
      unfold carries
      rw [if_neg h, ih]
      conv_rhs => rw [hn]
      exact (fold_add_mul hpos _).symm

/-! ### The order of the bytes -/

theorem fold_swap_word (h : n < 65536) : fold (256 * n) = swap n := by
  rcases Nat.eq_zero_or_pos n with rfl | hn
  · rfl
  · have hbyte : n / 256 % 256 = n / 256 := Nat.mod_eq_of_lt (by omega)
    have hswap : swap n = n % 256 * 256 + n / 256 := by
      unfold swap
      rw [hbyte]
    have hmul : 256 * n = swap n + 65535 * (n / 256) := by omega
    have hpos : 0 < swap n := by omega
    rw [hmul, fold_add_mul hpos, fold_of_lt (by omega)]

/-- The sum of words whose first bytes have the sum `A` and whose second bytes have the sum `B`, in both
orders of the bytes. -/
theorem fold_swap (A B : ℕ) : fold (A + 256 * B) = swap (fold (256 * A + B)) := by
  cases Nat.eq_zero_or_pos (256 * A + B) with
  | inl h =>
      have hA : A = 0 := by omega
      have hB : B = 0 := by omega
      subst hA hB
      rfl
  | inr h =>
      obtain ⟨k, hk⟩ := exists_fold_add (256 * A + B)
      have hpos := fold_pos h
      have hlow : fold (256 * (256 * A + B)) = fold (A + 256 * B) := by
        rw [show 256 * (256 * A + B) = A + 256 * B + 65535 * A by omega]
        exact fold_add_mul (by omega) A
      have hhigh : fold (256 * (256 * A + B)) = fold (256 * fold (256 * A + B)) := by
        conv_lhs => rw [hk, Nat.mul_add, Nat.mul_left_comm]
        exact fold_add_mul (by omega) _
      rw [← hlow, hhigh, fold_swap_word (fold_lt _)]

end OnesComplement
