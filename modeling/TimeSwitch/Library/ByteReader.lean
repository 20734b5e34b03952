import Mathlib

/-! # Reading bytes with an early exit

A `ByteReader` takes bytes from a queue, stores a copy of each of them, and either returns a
value or leaves early.  `Reads n m`: the reader `m` looks at the first `n` bytes only, and has
taken exactly these when it returns a value.  The rules follow the way readers are composed. -/

/-- The bytes that are not read yet, and the copies of those that are. -/
structure ByteQueue where
  unread : List UInt8
  stored : List UInt8

/-- A reader returns a value or leaves early (`none`). -/
def ByteReader (α : Type) := ByteQueue → Option α × ByteQueue

namespace ByteReader

variable {α β : Type}

instance : Monad ByteReader where
  pure a := fun s => (some a, s)
  bind m f := fun s =>
    match m s with
    | (some a, s') => f a s'
    | (none, s') => (none, s')

/-- Leave early. -/
def reject : ByteReader α := fun s => (none, s)

/-- Take one byte and store it; an empty queue reads as 0. -/
def readByte : ByteReader UInt8 := fun s =>
  (some (s.unread.headD 0), ⟨s.unread.tail, s.stored ++ [s.unread.headD 0]⟩)

/-- Take one byte and leave early unless it satisfies the test. -/
def expect (ok : UInt8 → Bool) : ByteReader Unit := do
  let data ← readByte
  if ok data then pure () else reject

/-- Take `n` bytes. -/
def skip : ℕ → ByteReader Unit
  | 0 => pure ()
  | n + 1 => do
      let _ ← readByte
      skip n

/-- The reader looks at `n` bytes, and has taken all of them when it returns a value. -/
def Reads (n : ℕ) (m : ByteReader α) : Prop :=
  ∀ u st, n ≤ u.length → ∃ r k, k ≤ n ∧ (r.isSome → k = n) ∧
    ∀ v, m ⟨u ++ v, st⟩ = (r, ⟨u.drop k ++ v, st ++ u.take k⟩)

/-- Every value the reader returns satisfies `P`. -/
def Yields (P : α → Prop) (m : ByteReader α) : Prop :=
  ∀ s a s', m s = (some a, s') → P a

theorem bind_some {m : ByteReader α} {f : α → ByteReader β} {s s' : ByteQueue} {a : α}
    (h : m s = (some a, s')) : (m >>= f) s = f a s' := by
  show (match m s with | (some a, s') => f a s' | (none, s') => (none, s')) = f a s'
  rw [h]

theorem bind_none {m : ByteReader α} {f : α → ByteReader β} {s s' : ByteQueue}
    (h : m s = (none, s')) : (m >>= f) s = (none, s') := by
  show (match m s with | (some a, s') => f a s' | (none, s') => (none, s')) = (none, s')
  rw [h]

/-! ### What a reader looks at -/

theorem reads_pure (a : α) : Reads 0 (pure a : ByteReader α) := by
  intro u st _
  exact ⟨some a, 0, le_rfl, fun _ => rfl, fun v => by simp [pure]⟩

theorem reads_reject (n : ℕ) : Reads n (reject : ByteReader α) := by
  intro u st _
  exact ⟨none, 0, n.zero_le, by simp, fun v => by simp [reject]⟩

theorem reads_readByte : Reads 1 readByte := by
  intro u st h
  obtain ⟨b, u, rfl⟩ : ∃ b u', u = b :: u' := List.exists_cons_of_length_pos h
  exact ⟨some b, 1, le_rfl, fun _ => rfl, fun v => rfl⟩

theorem Reads.bind {n k : ℕ} {m : ByteReader α} {f : α → ByteReader β} (hm : Reads n m)
    (hf : ∀ a, Reads k (f a)) : Reads (n + k) (m >>= f) := by
  intro u st h
  obtain ⟨r, i, hi, hr, hmu⟩ := hm u st (by omega)
  cases r with
  | none =>
      exact ⟨none, i, by omega, by simp, fun v => bind_none (hmu v)⟩
  | some a =>
      obtain rfl := hr rfl
      obtain ⟨r', j, hj, hr', hfu⟩ := hf a (u.drop i) (st ++ u.take i) (by
        rw [List.length_drop]
        omega)
      refine ⟨r', i + j, by omega, fun hs => by rw [hr' hs], fun v => ?_⟩
      rw [bind_some (hmu v), hfu v, List.drop_drop, List.append_assoc, ← List.take_add]

theorem Reads.ite {n : ℕ} {c : Prop} [Decidable c] {m m' : ByteReader α} (h : Reads n m)
    (h' : Reads n m') : Reads n (if c then m else m') := by
  split_ifs
  · exact h
  · exact h'

theorem reads_expect (ok : UInt8 → Bool) : Reads 1 (expect ok) :=
  reads_readByte.bind (fun _ => (reads_pure ()).ite (reads_reject 0))

theorem reads_skip (n : ℕ) : Reads n (skip n) := by
  induction n with
  | zero => exact reads_pure ()
  | succ n ih =>
      have h := reads_readByte.bind (fun _ => ih)
      rwa [Nat.add_comm] at h

/-! ### What a reader returns -/

theorem yields_pure {P : α → Prop} {a : α} (h : P a) : Yields P (pure a) := by
  intro s b s' he
  obtain ⟨hb, -⟩ := Prod.mk.inj he
  exact Option.some.inj hb ▸ h

theorem yields_reject {P : α → Prop} : Yields P reject := by
  intro s b s' he
  cases he

theorem Yields.bind {P : β → Prop} {m : ByteReader α} {f : α → ByteReader β}
    (hf : ∀ a, Yields P (f a)) : Yields P (m >>= f) := by
  intro s b s' he
  rcases hm : m s with ⟨r, s₁⟩
  cases r with
  | none =>
      rw [bind_none hm] at he
      cases he
  | some a =>
      rw [bind_some hm] at he
      exact hf a _ _ _ he

theorem Yields.ite {P : α → Prop} {c : Prop} [Decidable c] {m m' : ByteReader α}
    (h : c → Yields P m) (h' : ¬ c → Yields P m') : Yields P (if c then m else m') := by
  split_ifs with hc
  · exact h hc
  · exact h' hc

/-! ### The language of a reader -/

/-- On the first `n` bytes `u` of a queue, the reader returns exactly the values `a` with `P u a`. -/
def Accepts (n : ℕ) (m : ByteReader α) (P : List UInt8 → α → Prop) : Prop :=
  ∀ u v st a, u.length = n → ((m ⟨u ++ v, st⟩).1 = some a ↔ P u a)

theorem Accepts.congr {n : ℕ} {m : ByteReader α} {P Q : List UInt8 → α → Prop} (hm : Accepts n m P)
    (h : ∀ u a, u.length = n → (P u a ↔ Q u a)) : Accepts n m Q :=
  fun u v st a hu => (hm u v st a hu).trans (h u a hu)

theorem accepts_pure (a : α) : Accepts 0 (pure a) fun _ b => b = a := by
  intro u v st b _
  show some a = some b ↔ b = a
  rw [Option.some_inj]
  exact eq_comm

theorem accepts_reject (n : ℕ) : Accepts n (reject : ByteReader α) fun _ _ => False := by
  intro u v st b _
  exact ⟨nofun, nofun⟩

theorem Accepts.readByte {n : ℕ} {f : UInt8 → ByteReader α} {P : UInt8 → List UInt8 → α → Prop}
    (hf : ∀ b, Accepts n (f b) (P b)) :
    Accepts (n + 1) (readByte >>= f) fun u a => P (u.headD 0) u.tail a := by
  intro u v st a hu
  obtain ⟨b, u, rfl⟩ := List.exists_cons_of_length_eq_add_one hu
  exact hf b u v (st ++ [b]) a (by simpa using hu)

theorem Accepts.skip {n : ℕ} {m : ByteReader α} {P : List UInt8 → α → Prop} (hm : Accepts n m P)
    (k : ℕ) : Accepts (n + k) (skip k >>= fun _ => m) fun u a => P (u.drop k) a := by
  induction k with
  | zero => exact hm
  | succ k ih =>
      intro u v st a hu
      obtain ⟨b, u, rfl⟩ := List.exists_cons_of_length_eq_add_one hu
      refine ih u v (st ++ [b]) a ?_
      rw [List.length_cons] at hu
      omega

theorem Accepts.ite {n : ℕ} {c : Prop} [Decidable c] {m m' : ByteReader α}
    {P Q : List UInt8 → α → Prop} (h : Accepts n m P) (h' : Accepts n m' Q) :
    Accepts n (if c then m else m') fun u a => if c then P u a else Q u a := by
  split_ifs
  · exact h
  · exact h'

theorem Accepts.expect {n : ℕ} {m : ByteReader α} {P : List UInt8 → α → Prop}
    (hm : Accepts n m P) (ok : UInt8 → Bool) :
    Accepts (n + 1) (expect ok >>= fun _ => m) fun u a => ok (u.headD 0) ∧ P u.tail a := by
  intro u v st a hu
  obtain ⟨b, u, rfl⟩ := List.exists_cons_of_length_eq_add_one hu
  have h := hm u v (st ++ [b]) a (by simpa using hu)
  rcases hb : ok b with _ | _
  · have hnone : ByteReader.expect ok ⟨b :: u ++ v, st⟩ = (none, ⟨u ++ v, st ++ [b]⟩) := by
      show (if ok b then pure () else reject : ByteReader Unit) _ = _
      rw [hb]
      rfl
    rw [bind_none hnone]
    simp [hb]
  · have hsome : ByteReader.expect ok ⟨b :: u ++ v, st⟩ = (some (), ⟨u ++ v, st ++ [b]⟩) := by
      show (if ok b then pure () else reject : ByteReader Unit) _ = _
      rw [hb]
      rfl
    rw [bind_some hsome]
    simpa [hb] using h

/-- A reader without a value, then another one. -/
theorem Accepts.andThen {n k : ℕ} {m : ByteReader Unit} {m' : ByteReader α} {P : List UInt8 → Prop}
    {Q : List UInt8 → α → Prop} (hr : Reads n m) (hm : Accepts n m fun u _ => P u)
    (hm' : Accepts k m' Q) :
    Accepts (n + k) (m >>= fun _ => m') fun u a => P (u.take n) ∧ Q (u.drop n) a := by
  intro u v st a hu
  have hlen : (u.take n).length = n := by
    rw [List.length_take]
    omega
  have h := hm (u.take n) (u.drop n ++ v) st () hlen
  obtain ⟨r, i, -, hi, hmu⟩ := hr (u.take n) st hlen.ge
  have hrun := hmu (u.drop n ++ v)
  rw [← List.append_assoc, List.take_append_drop] at hrun h
  rw [hrun] at h
  cases r with
  | none =>
      rw [bind_none hrun]
      have hP : ¬ P (u.take n) := fun hP => nomatch h.mpr hP
      exact ⟨nofun, fun hq => absurd hq.1 hP⟩
  | some b =>
      obtain rfl := hi rfl
      rw [bind_some hrun, List.drop_of_length_le hlen.le, List.nil_append]
      rw [hm' (u.drop i) v _ a (by simp [hu])]
      have hP : P (u.take i) := h.mp rfl
      exact ⟨fun hq => ⟨hP, hq⟩, fun hq => hq.2⟩

end ByteReader
