import TimeSwitch.Library.ByteMemory

/-! # Programs on a packet

A `Program` works on a packet of a given size, which lies at address 0 of a memory, and on a state.
It fails if it reads or writes a byte behind the packet, or if a subtraction of lengths goes below 0.

`InBounds` says that a program never fails and leaves the memory behind the packet alone; the rules
follow the way programs are composed.  The other lemmas execute a program step by step. -/

/-- A program for packets of a given size. -/
def Program (σ α : Type) := ℕ → ByteMemory.Mem → σ → Option (α × ByteMemory.Mem × σ)

namespace Program

open ByteMemory

variable {σ α β : Type}

instance : Monad (Program σ) where
  pure a := fun _ m s => some (a, m, s)
  bind p f := fun n m s =>
    match p n m s with
    | some (a, m', s') => f a n m' s'
    | none => none

/-- Read `k` bytes at the offset `i`. -/
def load (i k : ℕ) : Program σ (List UInt8) := fun n m s =>
  if i + k ≤ n then some (m.read i k, m, s) else none

/-- Write bytes at the offset `i`. -/
def store (i : ℕ) (bs : List UInt8) : Program σ Unit := fun n m s =>
  if i + bs.length ≤ n then some ((), m.blit i bs, s) else none

/-- `a - b` for unsigned lengths. -/
def sub (a b : ℕ) : Program σ ℕ := fun _ m s =>
  if b ≤ a then some (a - b, m, s) else none

/-- The state -/
def get : Program σ σ := fun _ m s => some (s, m, s)

/-- Change the state. -/
def set (s : σ) : Program σ Unit := fun _ m _ => some ((), m, s)

/-- Here the program neither fails nor writes behind the packet. -/
def SafeAt (n : ℕ) (p : Program σ α) (m : Mem) (s : σ) : Prop :=
  ∃ a m' s', p n m s = some (a, m', s') ∧ ∀ x, n ≤ x → m' x = m x

/-- The program neither fails nor writes behind the packet. -/
def InBounds (n : ℕ) (p : Program σ α) : Prop := ∀ m s, SafeAt n p m s

/-! ### Execution -/

section execution

variable {n i k a b : ℕ} {m m' : Mem} {s s' : σ} {x : α} {bs : List UInt8}

theorem bind_eq {p : Program σ α} {f : α → Program σ β} (h : p n m s = some (x, m', s')) :
    (p >>= f) n m s = f x n m' s' := by
  show (match p n m s with
    | some (a, m', s') => f a n m' s'
    | none => none) = f x n m' s'
  rw [h]

/-- A program that does the same at the start. -/
theorem bind_congr_left {p q : Program σ α} {f : α → Program σ β} (h : p n m s = q n m s) :
    (p >>= f) n m s = (q >>= f) n m s := by
  show (match p n m s with
    | some (a, m', s') => f a n m' s'
    | none => none) = (match q n m s with
    | some (a, m', s') => f a n m' s'
    | none => none)
  rw [h]

/-- The two parts of a run. -/
theorem bind_eq_some {p : Program σ α} {f : α → Program σ β} {r : β × Mem × σ}
    (h : (p >>= f) n m s = some r) :
    ∃ x m' s', p n m s = some (x, m', s') ∧ f x n m' s' = some r := by
  cases hp : p n m s with
  | none =>
      have hnone : (p >>= f) n m s = none := by
        show (match p n m s with
          | some (a, m', s') => f a n m' s'
          | none => none) = none
        rw [hp]
      rw [hnone] at h
      cases h
  | some y =>
      obtain ⟨x, m', s'⟩ := y
      rw [bind_eq hp] at h
      exact ⟨x, m', s', rfl, h⟩

theorem pure_eq (x : α) : (pure x : Program σ α) n m s = some (x, m, s) := rfl

theorem pure_bind (x : α) (f : α → Program σ β) : (pure x >>= f) = f x := rfl

theorem bind_assoc {γ : Type} (p : Program σ α) (f : α → Program σ β) (g : β → Program σ γ) :
    (p >>= f >>= g) = (p >>= fun a => f a >>= g) := by
  funext n m s
  show (match (match p n m s with
    | some (a, m', s') => f a n m' s'
    | none => none) with
    | some (b, m', s') => g b n m' s'
    | none => none) = (match p n m s with
    | some (a, m', s') => (f a >>= g) n m' s'
    | none => none)
  cases p n m s <;> rfl

theorem load_eq (h : i + k ≤ n) :
    (load i k : Program σ (List UInt8)) n m s = some (m.read i k, m, s) := if_pos h

theorem store_eq (h : i + bs.length ≤ n) :
    (store i bs : Program σ Unit) n m s = some ((), m.blit i bs, s) := if_pos h

theorem sub_eq (h : b ≤ a) : (sub a b : Program σ ℕ) n m s = some (a - b, m, s) := if_pos h

theorem load_bind {f : List UInt8 → Program σ β} (h : i + k ≤ n) :
    (load i k >>= f) n m s = f (m.read i k) n m s := bind_eq (load_eq h)

theorem store_bind {f : Unit → Program σ β} (h : i + bs.length ≤ n) :
    (store i bs >>= f) n m s = f () n (m.blit i bs) s := bind_eq (store_eq h)

theorem sub_bind {f : ℕ → Program σ β} (h : b ≤ a) :
    (sub a b >>= f) n m s = f (a - b) n m s := bind_eq (sub_eq h)

theorem get_bind {f : σ → Program σ β} : (get >>= f) n m s = f s n m s := rfl

theorem set_bind {f : Unit → Program σ β} : (set s' >>= f) n m s = f () n m s' := rfl

end execution

/-! ### Bounds -/

section bounds

variable {n i k a b : ℕ} {bs : List UInt8}

theorem inBounds_pure (x : α) : InBounds n (pure x : Program σ α) :=
  fun m s => ⟨x, m, s, rfl, fun _ _ => rfl⟩

theorem SafeAt.bind {p : Program σ α} {f : α → Program σ β} {m : Mem} {s : σ} (hp : SafeAt n p m s)
    (hf : ∀ a, InBounds n (f a)) : SafeAt n (p >>= f) m s := by
  obtain ⟨a, m', s', he, hm⟩ := hp
  obtain ⟨b, m'', s'', he', hm'⟩ := hf a m' s'
  refine ⟨b, m'', s'', (bind_eq he).trans he', fun x hx => ?_⟩
  rw [hm' x hx, hm x hx]

theorem InBounds.bind {p : Program σ α} {f : α → Program σ β} (hp : InBounds n p)
    (hf : ∀ a, InBounds n (f a)) : InBounds n (p >>= f) :=
  fun m s => (hp m s).bind hf

theorem InBounds.ite {c : Prop} [Decidable c] {p q : Program σ α} (hp : InBounds n p)
    (hq : InBounds n q) : InBounds n (if c then p else q) := by
  split_ifs
  · exact hp
  · exact hq

theorem inBounds_load (h : i + k ≤ n) : InBounds n (load i k : Program σ (List UInt8)) :=
  fun m s => ⟨m.read i k, m, s, load_eq h, fun _ _ => rfl⟩

theorem inBounds_store (h : i + bs.length ≤ n) : InBounds n (store i bs : Program σ Unit) := by
  intro m s
  refine ⟨(), m.blit i bs, s, store_eq h, fun x hx => ?_⟩
  apply Mem.blit_apply_outside
  right
  omega

theorem InBounds.safeAt {p : Program σ α} (h : InBounds n p) (m : Mem) (s : σ) : SafeAt n p m s :=
  h m s

/-- What is read has its length. -/
theorem inBounds_load_bind {f : List UInt8 → Program σ α} (h : i + k ≤ n)
    (hf : ∀ bs, bs.length = k → InBounds n (f bs)) : InBounds n (load i k >>= f) := by
  intro m s
  unfold SafeAt
  rw [load_bind h]
  exact hf _ (m.read_length i k) m s

theorem inBounds_sub_bind {f : ℕ → Program σ α} (h : b ≤ a) (hf : InBounds n (f (a - b))) :
    InBounds n (sub a b >>= f) := by
  intro m s
  unfold SafeAt
  rw [sub_bind h]
  exact hf m s

theorem inBounds_get : InBounds n (get : Program σ σ) := fun m s => ⟨s, m, s, rfl, fun _ _ => rfl⟩

theorem inBounds_set (s' : σ) : InBounds n (set s') := fun m _ => ⟨(), m, s', rfl, fun _ _ => rfl⟩

end bounds

end Program
