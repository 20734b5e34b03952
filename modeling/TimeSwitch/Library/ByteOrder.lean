import Mathlib

/-! # The order of the bytes of a number

A number of `n` bytes is a `BitVec (8 * n)`; `bytes` are its bytes, the lowest one first, and `value`
is the number with given bytes.  `bswap` turns the order of the bytes round (`bytes_bswap`).  It is its
own inverse and commutes with all operations on the bits, since a number is given by its bytes
(`ext_bytes`) and these operations work byte by byte. -/

namespace ByteOrder

/-! ### Digits -/

/-- The number with these bytes, the lowest one first. -/
def value (bs : List UInt8) : ℕ := Nat.ofDigits 256 (bs.map UInt8.toNat)

/-- The lowest `n` bytes of a number, the lowest one first. -/
def digits : ℕ → ℕ → List UInt8
  | 0, _ => []
  | n + 1, x => UInt8.ofNat x :: digits n (x / 256)

section digits

variable {n x y : ℕ} {bs cs : List UInt8}

@[simp] theorem value_nil : value [] = 0 := rfl

theorem value_cons (b : UInt8) (bs : List UInt8) : value (b :: bs) = b.toNat + 256 * value bs := rfl

theorem value_append : value (bs ++ cs) = value bs + 256 ^ bs.length * value cs := by
  unfold value
  rw [List.map_append, Nat.ofDigits_append, List.length_map]

theorem value_lt (bs : List UInt8) : value bs < 256 ^ bs.length := by
  induction bs with
  | nil => exact Nat.one_pos
  | cons b bs ih =>
      have hb := b.toNat_lt
      rw [value_cons, List.length_cons, pow_succ]
      omega

@[simp] theorem digits_length : (digits n x).length = n := by
  induction n generalizing x with
  | zero => rfl
  | succ n ih => rw [digits, List.length_cons, ih]

theorem digits_value (bs : List UInt8) : digits bs.length (value bs) = bs := by
  induction bs with
  | nil => rfl
  | cons b bs ih =>
      have hb := b.toNat_lt
      have hlow : UInt8.ofNat (b.toNat + 256 * value bs) = b := by
        apply UInt8.toNat_inj.mp
        rw [UInt8.toNat_ofNat']
        omega
      have hhigh : (b.toNat + 256 * value bs) / 256 = value bs := by omega
      rw [List.length_cons, digits, value_cons, hlow, hhigh, ih]

theorem value_digits (h : x < 256 ^ n) : value (digits n x) = x := by
  induction n generalizing x with
  | zero =>
      rw [pow_zero, Nat.lt_one_iff] at h
      rw [h]
      rfl
  | succ n ih =>
      have hhigh : x / 256 < 256 ^ n := Nat.div_lt_of_lt_mul (by rwa [← pow_succ'])
      rw [digits, value_cons, ih hhigh, UInt8.toNat_ofNat']
      omega

/-- Bytes are given by their value. -/
theorem value_inj (hlen : bs.length = cs.length) (h : value bs = value cs) : bs = cs := by
  rw [← digits_value bs, h, hlen, digits_value]

/-- An operation that works byte by byte. -/
structure Bytewise (op : ℕ → ℕ → ℕ) (f : UInt8 → UInt8 → UInt8) : Prop where
  low : ∀ x y, UInt8.ofNat (op x y) = f (UInt8.ofNat x) (UInt8.ofNat y)
  high : ∀ x y, op x y / 256 = op (x / 256) (y / 256)

theorem bytewise_and : Bytewise (· &&& ·) (· &&& ·) :=
  ⟨UInt8.ofNat_and, fun _ _ => Nat.and_div_two_pow (n := 8)⟩

theorem bytewise_or : Bytewise (· ||| ·) (· ||| ·) :=
  ⟨UInt8.ofNat_or, fun _ _ => Nat.or_div_two_pow (n := 8)⟩

theorem bytewise_xor : Bytewise (· ^^^ ·) (· ^^^ ·) :=
  ⟨UInt8.ofNat_xor, fun _ _ => Nat.xor_div_two_pow (n := 8)⟩

theorem Bytewise.digits_eq {op : ℕ → ℕ → ℕ} {f : UInt8 → UInt8 → UInt8} (h : Bytewise op f) :
    digits n (op x y) = List.zipWith f (digits n x) (digits n y) := by
  induction n generalizing x y with
  | zero => rfl
  | succ n ih =>
      rw [digits, h.low, h.high, ih]
      rfl

/-- The number with all bits -/
theorem digits_ones : digits n (256 ^ n - 1) = List.replicate n 255 := by
  induction n with
  | zero => rfl
  | succ n ih =>
      have hpos : 0 < 256 ^ n := Nat.pow_pos (by decide)
      have hsplit : 256 ^ (n + 1) - 1 = 255 + 256 * (256 ^ n - 1) := by
        rw [pow_succ]
        omega
      have hlow : UInt8.ofNat (255 + 256 * (256 ^ n - 1)) = 255 := by
        apply UInt8.toNat_inj.mp
        rw [UInt8.toNat_ofNat']
        exact Nat.add_mul_mod_self_left 255 256 _
      have hhigh : (255 + 256 * (256 ^ n - 1)) / 256 = 256 ^ n - 1 := by omega
      rw [hsplit, digits, hlow, hhigh, ih]
      rfl

end digits

/-! ### Numbers of `n` bytes -/

/-- The bytes of a number, the lowest one first: as a little-endian machine stores it. -/
def bytes {n : ℕ} (v : BitVec (8 * n)) : List UInt8 := digits n v.toNat

/-- The number with the opposite order of bytes. -/
def bswap {n : ℕ} (v : BitVec (8 * n)) : BitVec (8 * n) :=
  BitVec.ofNat (8 * n) (value (bytes v).reverse)

section bswap

variable {n : ℕ} {v w : BitVec (8 * n)} {bs : List UInt8}

@[simp] theorem bytes_length : (bytes v).length = n := digits_length

theorem toNat_lt (v : BitVec (8 * n)) : v.toNat < 256 ^ n := by
  have h := v.isLt
  rwa [pow_mul] at h

theorem value_bytes (v : BitVec (8 * n)) : value (bytes v) = v.toNat := value_digits (toNat_lt v)

theorem bytes_ofNat (h : bs.length = n) : bytes (BitVec.ofNat (8 * n) (value bs)) = bs := by
  subst h
  have hlt := value_lt bs
  rw [show 256 = 2 ^ 8 from rfl, ← pow_mul] at hlt
  unfold bytes
  rw [BitVec.toNat_ofNat, Nat.mod_eq_of_lt hlt, digits_value]

/-- A number is given by its bytes. -/
theorem ext_bytes (h : bytes v = bytes w) : v = w := by
  apply BitVec.eq_of_toNat_eq
  rw [← value_bytes v, h, value_bytes]

theorem bytes_bswap (v : BitVec (8 * n)) : bytes (bswap v) = (bytes v).reverse :=
  bytes_ofNat (by rw [List.length_reverse, bytes_length])

theorem bswap_bswap (v : BitVec (8 * n)) : bswap (bswap v) = v := by
  apply ext_bytes
  rw [bytes_bswap, bytes_bswap, List.reverse_reverse]

theorem bswap_inj : bswap v = bswap w ↔ v = w := by
  constructor
  · intro h
    rw [← bswap_bswap v, h, bswap_bswap]
  · intro h
    rw [h]

/-- An operation that works byte by byte works on both orders. -/
theorem Bytewise.bswap_eq {op : ℕ → ℕ → ℕ} {f : UInt8 → UInt8 → UInt8} (h : Bytewise op f)
    {g : BitVec (8 * n) → BitVec (8 * n) → BitVec (8 * n)}
    (hg : ∀ v w, (g v w).toNat = op v.toNat w.toNat) (v w : BitVec (8 * n)) :
    bswap (g v w) = g (bswap v) (bswap w) := by
  have hbytes : ∀ v w, bytes (g v w) = List.zipWith f (bytes v) (bytes w) := by
    intro v w
    unfold bytes
    rw [hg, h.digits_eq]
  apply ext_bytes
  rw [bytes_bswap, hbytes, hbytes, bytes_bswap, bytes_bswap, List.reverse_zipWith]
  rw [bytes_length, bytes_length]

theorem bswap_and (v w : BitVec (8 * n)) : bswap (v &&& w) = bswap v &&& bswap w :=
  bytewise_and.bswap_eq BitVec.toNat_and v w

theorem bswap_or (v w : BitVec (8 * n)) : bswap (v ||| w) = bswap v ||| bswap w :=
  bytewise_or.bswap_eq BitVec.toNat_or v w

theorem bswap_xor (v w : BitVec (8 * n)) : bswap (v ^^^ w) = bswap v ^^^ bswap w :=
  bytewise_xor.bswap_eq BitVec.toNat_xor v w

theorem bswap_not (v : BitVec (8 * n)) : bswap (~~~v) = ~~~bswap v := by
  have hones : bytes (BitVec.allOnes (8 * n)) = List.replicate n 255 := by
    unfold bytes
    rw [BitVec.toNat_allOnes, pow_mul]
    exact digits_ones
  have hswap : bswap (BitVec.allOnes (8 * n)) = BitVec.allOnes (8 * n) := by
    apply ext_bytes
    rw [bytes_bswap, hones, List.reverse_replicate]
  rw [← BitVec.xor_allOnes, bswap_xor, hswap, BitVec.xor_allOnes]

end bswap

/-! ### Bytes put together by shifts -/

/-- The bytes are shifted to their places, the first one to the highest place. -/
def placed (w : ℕ) : List UInt8 → BitVec w
  | [] => 0
  | b :: bs => b.toBitVec.setWidth w <<< (8 * bs.length) ||| placed w bs

theorem placed_append {w : ℕ} (bs cs : List UInt8) :
    placed w (bs ++ cs) = placed w bs <<< (8 * cs.length) ||| placed w cs := by
  induction bs with
  | nil => simp [placed]
  | cons b bs ih =>
      rw [List.cons_append, placed, placed, ih, List.length_append, Nat.mul_add,
        BitVec.shiftLeft_or_distrib, BitVec.shiftLeft_add, BitVec.or_assoc]

/-- The bytes are the digits of the number. -/
theorem placed_toNat {w : ℕ} {bs : List UInt8} (h : 8 * bs.length ≤ w) :
    (placed w bs).toNat = value bs.reverse := by
  induction bs with
  | nil => exact BitVec.toNat_zero
  | cons b bs ih =>
      rw [List.length_cons] at h
      have hb := b.toNat_lt
      have hrest : value bs.reverse < 2 ^ (8 * bs.length) := by
        have hlt := value_lt bs.reverse
        rwa [List.length_reverse, show 256 = 2 ^ 8 from rfl, ← pow_mul] at hlt
      have hroom : 2 ^ (8 * bs.length) * b.toNat < 2 ^ w := by
        calc 2 ^ (8 * bs.length) * b.toNat < 2 ^ (8 * bs.length) * 2 ^ 8 :=
              Nat.mul_lt_mul_of_pos_left hb (Nat.two_pow_pos _)
          _ = 2 ^ (8 * bs.length + 8) := (pow_add _ _ _).symm
          _ ≤ 2 ^ w := Nat.pow_le_pow_right (by decide) (by omega)
      have hplace : (b.toBitVec.setWidth w <<< (8 * bs.length)).toNat =
          2 ^ (8 * bs.length) * b.toNat := by
        have hwidth : b.toNat < 2 ^ w :=
          hb.trans_le (Nat.pow_le_pow_right (by decide) (by omega))
        rw [BitVec.toNat_shiftLeft, BitVec.toNat_setWidth, UInt8.toNat_toBitVec,
          Nat.mod_eq_of_lt hwidth, Nat.shiftLeft_eq, Nat.mul_comm, Nat.mod_eq_of_lt hroom]
      rw [placed, BitVec.toNat_or, hplace, ih (by omega), ← Nat.two_pow_add_eq_or_of_lt hrest,
        List.reverse_cons, value_append, List.length_reverse, value_cons, value_nil, Nat.mul_zero,
        Nat.add_zero, show 256 = 2 ^ 8 from rfl, ← pow_mul, Nat.add_comm]

end ByteOrder
