import Mathlib

/-! # Frames as chunks

A frame is sent over a link in chunks of `n` elements and ends with a chunk that is shorter than
`n`, and empty when the length of the frame is a multiple of `n`.  `chunks n f` cuts a frame and
`Stream.absorb` puts the frames together again, one chunk after the other. -/

namespace Framing

variable {α : Type*}

/-- `chunks` with a bound on the number of full chunks. -/
def chunksUpTo (n : ℕ) : ℕ → List α → List (List α)
  | 0, f => [f]
  | k + 1, f => if f.length < n then [f] else f.take n :: chunksUpTo n k (f.drop n)

/-- The chunks of a frame. -/
def chunks (n : ℕ) (f : List α) : List (List α) := chunksUpTo n f.length f

/-- What the other end has received: complete frames, and a part of the next one. -/
structure Stream (α : Type*) where
  done : List (List α)
  part : List α

/-- A chunk arrives. -/
def Stream.absorb (n : ℕ) (s : Stream α) (c : List α) : Stream α :=
  if c.length < n then ⟨s.done ++ [s.part ++ c], []⟩ else ⟨s.done, s.part ++ c⟩

/-- The frames in a sequence of chunks. -/
def reassemble (n : ℕ) (cs : List (List α)) : Stream α := cs.foldl (Stream.absorb n) ⟨[], []⟩

variable {n : ℕ} {f : List α}

theorem chunksUpTo_eq (hn : 0 < n) {k k' : ℕ} : ∀ {f : List α}, f.length ≤ k → f.length ≤ k' →
    chunksUpTo n k f = chunksUpTo n k' f := by
  induction k generalizing k' with
  | zero =>
      intro f hk _
      cases k' with
      | zero => rfl
      | succ k' => rw [chunksUpTo, chunksUpTo, if_pos (by omega)]
  | succ k ih =>
      intro f hk hk'
      by_cases hf : f.length < n
      · cases k' with
        | zero => rw [chunksUpTo, chunksUpTo, if_pos hf]
        | succ k' => rw [chunksUpTo, chunksUpTo, if_pos hf, if_pos hf]
      · cases k' with
        | zero => omega
        | succ k' =>
            have hd : (f.drop n).length = f.length - n := List.length_drop
            have h1 : (f.drop n).length ≤ k := by omega
            have h2 : (f.drop n).length ≤ k' := by omega
            rw [chunksUpTo, chunksUpTo, if_neg hf, if_neg hf, ih h1 h2]

/-- A short frame is a single chunk. -/
theorem chunks_short (h : f.length < n) : chunks n f = [f] := by
  unfold chunks
  cases f with
  | nil => rfl
  | cons a f => rw [List.length_cons, chunksUpTo, if_pos h]

/-- A long frame starts with a full chunk. -/
theorem chunks_long (hn : 0 < n) (h : n ≤ f.length) :
    chunks n f = f.take n :: chunks n (f.drop n) := by
  unfold chunks
  obtain ⟨k, hk⟩ : ∃ k, f.length = k + 1 := ⟨f.length - 1, by omega⟩
  have hd : (f.drop n).length = f.length - n := List.length_drop
  rw [hk, chunksUpTo, if_neg (by omega), chunksUpTo_eq hn (by omega) le_rfl]

/-- Induction along the chunks of a frame. -/
theorem chunks_induction (hn : 0 < n) {P : List α → Prop} (short : ∀ f, f.length < n → P f)
    (long : ∀ f, n ≤ f.length → P (f.drop n) → P f) (f : List α) : P f := by
  induction hk : f.length using Nat.strong_induction_on generalizing f with
  | _ k ih =>
      by_cases hf : f.length < n
      · exact short f hf
      · have hd : (f.drop n).length = f.length - n := List.length_drop
        exact long f (by omega) (ih _ (by omega) _ rfl)

/-- The first chunk and the chunks behind it. -/
theorem chunks_cons (hn : 0 < n) (f : List α) : chunks n f = f.take n ::
    if f.length < n then [] else chunks n (f.drop n) := by
  by_cases hf : f.length < n
  · rw [chunks_short hf, if_pos hf, List.take_of_length_le hf.le]
  · rw [chunks_long hn (by omega), if_neg hf]

theorem chunks_ne_nil (hn : 0 < n) (f : List α) : chunks n f ≠ [] := by
  rw [chunks_cons hn]
  simp

/-- The chunks of a frame are the frame. -/
theorem chunks_flatten (hn : 0 < n) (f : List α) : (chunks n f).flatten = f := by
  induction f using chunks_induction hn with
  | short f hf =>
      rw [chunks_short hf]
      simp
  | long f hf ih => rw [chunks_long hn hf, List.flatten_cons, ih, List.take_append_drop]

/-- **Round trip**: the chunks of a frame complete the frame. -/
theorem absorb_chunks (hn : 0 < n) (f : List α) (s : Stream α) :
    (chunks n f).foldl (Stream.absorb n) s = ⟨s.done ++ [s.part ++ f], []⟩ := by
  induction f using chunks_induction hn generalizing s with
  | short f hf => rw [chunks_short hf, List.foldl_cons, List.foldl_nil, Stream.absorb, if_pos hf]
  | long f hf ih =>
      have ht : (f.take n).length = n := by
        rw [List.length_take]
        omega
      rw [chunks_long hn hf, List.foldl_cons, ih, Stream.absorb, if_neg (by omega)]
      simp

theorem reassemble_chunks (hn : 0 < n) (f : List α) : reassemble n (chunks n f) = ⟨[f], []⟩ :=
  absorb_chunks hn f ⟨[], []⟩

theorem reassemble_snoc (cs : List (List α)) (c : List α) :
    reassemble n (cs ++ [c]) = (reassemble n cs).absorb n c := by
  unfold reassemble
  rw [List.foldl_append]
  rfl

end Framing
