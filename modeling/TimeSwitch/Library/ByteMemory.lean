import Mathlib

/-! # A byte-addressed memory

An unbounded memory `Mem := ℕ → UInt8` with block writes (`Mem.blit`), block reads
(`Mem.read`) and little-endian 16-bit words (`Mem.word`, `Mem.setWord`).  Every write is a
block write, so that one frame rule (`Mem.read_blit_disjoint`) covers all of them: a read
does not see a write to a disjoint interval of addresses. -/

namespace ByteMemory

/-- Memory: one byte for every address. -/
abbrev Mem := ℕ → UInt8

namespace Mem

/-- Write the bytes `bs` from address `a` upwards. -/
def blit (m : Mem) (a : ℕ) (bs : List UInt8) : Mem :=
  fun x => if a ≤ x ∧ x < a + bs.length then bs.getD (x - a) 0 else m x

/-- The `n` bytes from address `a` upwards. -/
def read (m : Mem) (a n : ℕ) : List UInt8 := (List.range n).map (fun i => m (a + i))

/-- The little-endian 16-bit word at address `a`. -/
def word (m : Mem) (a : ℕ) : ℕ := (m a).toNat + 256 * (m (a + 1)).toNat

/-- Write `w` modulo `2 ^ 16` as a little-endian word at address `a`. -/
def setWord (m : Mem) (a w : ℕ) : Mem := m.blit a [UInt8.ofNat w, UInt8.ofNat (w / 256)]

/-! ### Block writes and reads -/

theorem blit_apply_outside {m : Mem} {a x : ℕ} {bs : List UInt8}
    (h : x < a ∨ a + bs.length ≤ x) : m.blit a bs x = m x := by
  unfold blit
  rw [if_neg (by omega)]

theorem blit_apply_inside {m : Mem} {a i : ℕ} {bs : List UInt8} (h : i < bs.length) :
    m.blit a bs (a + i) = bs[i] := by
  unfold blit
  rw [if_pos (by omega), Nat.add_sub_cancel_left, List.getD_eq_getElem _ _ h]

@[simp] theorem blit_nil (m : Mem) (a : ℕ) : m.blit a [] = m := by
  funext x
  exact blit_apply_outside (by simp; omega)

@[simp] theorem read_length (m : Mem) (a n : ℕ) : (m.read a n).length = n := by simp [read]

@[simp] theorem read_zero (m : Mem) (a : ℕ) : m.read a 0 = [] := rfl

theorem read_getElem (m : Mem) {a n i : ℕ} (h : i < (m.read a n).length) :
    (m.read a n)[i] = m (a + i) := by simp [read]

/-- Two memories that agree on an interval read the same block there. -/
theorem read_congr {m m' : Mem} {a n : ℕ} (h : ∀ x, a ≤ x → x < a + n → m' x = m x) :
    m'.read a n = m.read a n := by
  refine List.ext_getElem (by simp) (fun i hi _ => ?_)
  rw [read_length] at hi
  rw [read_getElem, read_getElem]
  exact h _ (by omega) (by omega)

theorem read_append (m : Mem) (a n k : ℕ) :
    m.read a (n + k) = m.read a n ++ m.read (a + n) k := by
  simp only [read, List.range_add, List.map_append, List.map_map]
  congr 1
  exact List.map_congr_left (fun i _ => by simp [Nat.add_assoc])

theorem read_take (m : Mem) (a n k : ℕ) : (m.read a n).take k = m.read a (min k n) := by
  simp [read, ← List.map_take, List.take_range]

/-- The block written is the block read back. -/
@[simp] theorem read_blit_same (m : Mem) (a : ℕ) (bs : List UInt8) :
    (m.blit a bs).read a bs.length = bs := by
  refine List.ext_getElem (by simp) (fun i _ hi => ?_)
  rw [read_getElem, blit_apply_inside hi]

/-- **Frame rule**: a block write is not seen by a read of a disjoint interval. -/
theorem read_blit_disjoint {m : Mem} {a b n : ℕ} {bs : List UInt8}
    (h : b + n ≤ a ∨ a + bs.length ≤ b) : (m.blit a bs).read b n = m.read b n :=
  read_congr (fun x _ _ => blit_apply_outside (by omega))

/-- A part of a block. -/
theorem read_part {m : Mem} {a n i k : ℕ} {bs : List UInt8} (h : m.read a n = bs) (hk : i + k ≤ n) :
    m.read (a + i) k = (bs.drop i).take k := by
  subst h
  have e : n = i + (k + (n - (i + k))) := by omega
  have e₁ : (m.read a i).length = i := read_length _ _ _
  have e₂ : (m.read (a + i) k).length = k := read_length _ _ _
  rw [e, read_append, read_append, List.drop_append_of_le_length e₁.ge, List.drop_of_length_le e₁.le,
    List.nil_append, List.take_append_of_le_length e₂.ge, List.take_of_length_le e₂.le]

/-- Two blocks next to each other. -/
theorem read_eq_append {m : Mem} {a k : ℕ} {bs cs : List UInt8} :
    m.read a (bs.length + k) = bs ++ cs ↔
      m.read a bs.length = bs ∧ m.read (a + bs.length) k = cs := by
  rw [read_append]
  constructor
  · intro h
    exact List.append_inj h (read_length _ _ _)
  · rintro ⟨h, h'⟩
    rw [h, h']

/-! ### Block writes after each other -/

/-- Writing a block that lies there. -/
theorem blit_read (m : Mem) (a n : ℕ) : m.blit a (m.read a n) = m := by
  funext x
  by_cases hx : a ≤ x ∧ x < a + n
  · obtain ⟨i, rfl⟩ := Nat.exists_eq_add_of_le hx.1
    rw [blit_apply_inside (by simp; omega), read_getElem]
  · exact blit_apply_outside (by simp; omega)

/-- Of two blocks of a length at one address the first is lost. -/
theorem blit_blit_same {m : Mem} {a : ℕ} {bs cs : List UInt8} (h : bs.length = cs.length) :
    (m.blit a bs).blit a cs = m.blit a cs := by
  funext x
  by_cases hx : a ≤ x ∧ x < a + cs.length
  · obtain ⟨i, rfl⟩ := Nat.exists_eq_add_of_le hx.1
    rw [blit_apply_inside (by omega), blit_apply_inside (by omega)]
  · rw [blit_apply_outside (by omega), blit_apply_outside (by omega), blit_apply_outside (by omega)]

/-- A block written behind another one. -/
theorem blit_append {m : Mem} {a b : ℕ} {bs cs : List UInt8} (h : b = a + bs.length) :
    (m.blit a bs).blit b cs = m.blit a (bs ++ cs) := by
  subst h
  funext x
  by_cases h₁ : a + bs.length ≤ x ∧ x < a + bs.length + cs.length
  · obtain ⟨i, rfl⟩ := Nat.exists_eq_add_of_le h₁.1
    rw [blit_apply_inside (by omega), Nat.add_assoc, blit_apply_inside (by simp; omega),
      List.getElem_append_right (by omega)]
    simp
  · rw [blit_apply_outside (by omega)]
    by_cases h₂ : a ≤ x ∧ x < a + bs.length
    · obtain ⟨i, rfl⟩ := Nat.exists_eq_add_of_le h₂.1
      rw [blit_apply_inside (by omega), blit_apply_inside (by simp; omega),
        List.getElem_append_left (by omega)]
    · rw [blit_apply_outside (by omega), blit_apply_outside (by simp; omega)]

/-- Blocks at disjoint addresses can be written in any order. -/
theorem blit_comm {m : Mem} {a b : ℕ} {bs cs : List UInt8}
    (h : b + cs.length ≤ a ∨ a + bs.length ≤ b) :
    (m.blit a bs).blit b cs = (m.blit b cs).blit a bs := by
  funext x
  unfold blit
  split_ifs <;> first | rfl | omega

/-- A block written in front of another one. -/
theorem blit_prepend {m : Mem} {a b : ℕ} {bs cs : List UInt8} (h : b = a + bs.length) :
    (m.blit b cs).blit a bs = m.blit a (bs ++ cs) := by
  rw [blit_comm (Or.inl h.ge), blit_append h]

/-- A part of a block is written again. -/
theorem blit_again {m : Mem} {a b : ℕ} {bs cs cs' ds : List UInt8} (h : b = a + bs.length)
    (hc : cs.length = cs'.length) :
    (m.blit a (bs ++ (cs ++ ds))).blit b cs' = m.blit a (bs ++ (cs' ++ ds)) := by
  subst h
  rw [← blit_append rfl, ← blit_prepend rfl, blit_blit_same hc, hc, blit_prepend rfl,
    blit_append rfl]

/-- Replace a part of a block, from its byte `i` on. -/
def splice (bs : List UInt8) (i : ℕ) (cs : List UInt8) : List UInt8 :=
  bs.take i ++ cs ++ bs.drop (i + cs.length)

theorem splice_length {bs cs : List UInt8} {i : ℕ} (h : i + cs.length ≤ bs.length) :
    (splice bs i cs).length = bs.length := by
  simp only [splice, List.length_append, List.length_take, List.length_drop]
  omega

/-- A block write inside a block that is read. -/
theorem read_blit_inside {m : Mem} {a n i : ℕ} {cs : List UInt8} (h : i + cs.length ≤ n) :
    (m.blit (a + i) cs).read a n = splice (m.read a n) i cs := by
  have e1 : n = i + (cs.length + (n - (i + cs.length))) := by omega
  rw [e1, read_append, read_append, read_blit_same, read_blit_disjoint (Or.inl le_rfl),
    read_blit_disjoint (Or.inr (by omega)), splice, read_append, read_append]
  have e2 : (m.read a i).length = i := read_length _ _ _
  rw [List.take_append_of_le_length (by omega), List.take_of_length_le (by omega),
    List.append_assoc]
  congr 2
  rw [← List.append_assoc, List.drop_append_of_le_length (by simp),
    List.drop_of_length_le (by simp), List.nil_append]

/-! ### Words -/

theorem word_congr {m m' : Mem} {a : ℕ} (h0 : m' a = m a) (h1 : m' (a + 1) = m (a + 1)) :
    m'.word a = m.word a := by
  unfold word
  rw [h0, h1]

theorem word_blit_disjoint {m : Mem} {a b : ℕ} {bs : List UInt8}
    (h : b + 2 ≤ a ∨ a + bs.length ≤ b) : (m.blit a bs).word b = m.word b :=
  word_congr (blit_apply_outside (by omega)) (blit_apply_outside (by omega))

theorem setWord_apply_outside {m : Mem} {a w x : ℕ} (h : x < a ∨ a + 2 ≤ x) :
    m.setWord a w x = m x := blit_apply_outside (by simpa using h)

theorem setWord_apply_low (m : Mem) (a w : ℕ) : m.setWord a w a = UInt8.ofNat w := by
  simp [setWord, blit]

theorem setWord_apply_high (m : Mem) (a w : ℕ) :
    m.setWord a w (a + 1) = UInt8.ofNat (w / 256) := by
  simp [setWord, blit]

theorem word_setWord_same {m : Mem} {a w : ℕ} (h : w < 65536) : (m.setWord a w).word a = w := by
  unfold word
  rw [setWord_apply_low, setWord_apply_high, UInt8.toNat_ofNat', UInt8.toNat_ofNat']
  omega

theorem word_setWord_disjoint {m : Mem} {a b w : ℕ} (h : b + 2 ≤ a ∨ a + 2 ≤ b) :
    (m.setWord a w).word b = m.word b := word_blit_disjoint (by simpa using h)

/-- Words at disjoint addresses can be written in any order. -/
theorem setWord_comm (m : Mem) {a b v w : ℕ} (h : b + 2 ≤ a ∨ a + 2 ≤ b) :
    (m.setWord a v).setWord b w = (m.setWord b w).setWord a v := blit_comm (by simpa using h)

theorem read_setWord_disjoint {m : Mem} {a b n w : ℕ} (h : b + n ≤ a ∨ a + 2 ≤ b) :
    (m.setWord a w).read b n = m.read b n := read_blit_disjoint (by simpa using h)

end Mem

end ByteMemory
