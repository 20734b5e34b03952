import TimeSwitch.Library.ByteOrder

/-! # The byte order in the C++ version

`c++/endianness.h`: `FromBytes` puts a number together from its bytes in network order, and `BE<T>`
holds a number in network order.  The target is little-endian, so `BE<T>` is `ByteSwap<T>`.

The overload of `FromBytes` for eight bytes has a parameter `int8_t e`.  From 0x80 on it is extended
with ones, which hide the four bytes in front of it (`fromBytes8_negative`). -/

namespace TimeSwitch.Endianness

open ByteOrder

/-! ### `FromBytes` -/

/-- The types of a `ByteSwap`, by the `static_assert` of `byteswap` -/
inductive Basetype
  | uint8
  | uint16
  | uint32
  | uint64
deriving DecidableEq

/-- `sizeof(basetype)` -/
def Basetype.size : Basetype → ℕ
  | .uint8 => 1
  | .uint16 => 2
  | .uint32 => 4
  | .uint64 => 8

/-- The numbers of a type. -/
abbrev Basetype.Value (T : Basetype) : Type := BitVec (8 * T.size)

/-- `FromBytes` for one byte -/
def fromBytes1 (a : UInt8) : BitVec 8 := a.toBitVec

/-- `FromBytes` for two bytes -/
def fromBytes2 (a b : UInt8) : BitVec 16 := a.toBitVec.setWidth 16 <<< 8 ||| b.toBitVec.setWidth 16

/-- `FromBytes` for four bytes -/
def fromBytes4 (a b c d : UInt8) : BitVec 32 :=
  a.toBitVec.setWidth 32 <<< 24 ||| b.toBitVec.setWidth 32 <<< 16 |||
    c.toBitVec.setWidth 32 <<< 8 ||| d.toBitVec.setWidth 32

/-- `FromBytes` for eight bytes; the fifth one is an `int8_t`. -/
def fromBytes8 (a b c d : UInt8) (e : Int8) (f g h : UInt8) : BitVec 64 :=
  a.toBitVec.setWidth 64 <<< 56 ||| b.toBitVec.setWidth 64 <<< 48 |||
    c.toBitVec.setWidth 64 <<< 40 ||| d.toBitVec.setWidth 64 <<< 32 |||
    e.toBitVec.signExtend 64 <<< 24 ||| f.toBitVec.setWidth 64 <<< 16 |||
    g.toBitVec.setWidth 64 <<< 8 ||| h.toBitVec.setWidth 64

/-- A call of `FromBytes`, with the overload for the number of bytes. -/
def fromBytes : (T : Basetype) → List UInt8 → Option T.Value
  | .uint8, [a] => some (fromBytes1 a)
  | .uint16, [a, b] => some (fromBytes2 a b)
  | .uint32, [a, b, c, d] => some (fromBytes4 a b c d)
  | .uint64, [a, b, c, d, e, f, g, h] => some (fromBytes8 a b c d e.toInt8 f g h)
  | _, _ => none

/-! ### Promotion

With an `int` of 32 bits, shorter operands are extended before the operation and the result is cut
off.  This gives the same numbers. -/

theorem fromBytes2_promoted (a b : UInt8) :
    (a.toBitVec.setWidth 32 <<< 8 ||| b.toBitVec.setWidth 32).setWidth 16 = fromBytes2 a b := by
  apply BitVec.eq_of_getLsbD_eq
  intro i hi
  simp [fromBytes2, hi]

theorem not_promoted {n : ℕ} (v : BitVec n) (h : n ≤ 32) :
    (~~~v.setWidth 32).setWidth n = ~~~v := by
  rw [BitVec.setWidth_not h, BitVec.setWidth_setWidth_of_le _ h, BitVec.setWidth_eq]

/-! ### `ByteSwap` -/

/-- `__builtin_bswap16` -/
def builtinBswap16 (v : BitVec 16) : BitVec 16 := bswap (n := 2) v
/-- `__builtin_bswap32` -/
def builtinBswap32 (v : BitVec 32) : BitVec 32 := bswap (n := 4) v
/-- `__builtin_bswap64` -/
def builtinBswap64 (v : BitVec 64) : BitVec 64 := bswap (n := 8) v

/-- `byteswap` -/
def byteswap : (T : Basetype) → T.Value → T.Value
  | .uint16, v => builtinBswap16 v
  | .uint32, v => builtinBswap32 v
  | .uint64, v => builtinBswap64 v
  | .uint8, v => v

/-- `ByteSwap` -/
structure ByteSwap (T : Basetype) where
  value : T.Value
deriving DecidableEq

namespace ByteSwap

variable {T : Basetype}

/-- The constructor for a number -/
def ofBasetype (value : T.Value) : ByteSwap T := ⟨byteswap T value⟩

/-- `operator targettype` -/
def toTargettype (x : ByteSwap T) (S : Basetype) : S.Value := (byteswap T x.value).setWidth _

/-- The constructor for another `ByteSwap` -/
def ofByteSwap {S : Basetype} (x : ByteSwap S) : ByteSwap T := ofBasetype (x.toTargettype T)

/-- `operator==` -/
def eq (x other : ByteSwap T) : Bool := x.value == other.value

/-- `operator!=` -/
def ne (x other : ByteSwap T) : Bool := !x.eq other

/-- `operator&=` and `operator&` -/
def and (lhs rhs : ByteSwap T) : ByteSwap T := { lhs with value := lhs.value &&& rhs.value }

/-- `operator|=` and `operator|` -/
def or (lhs rhs : ByteSwap T) : ByteSwap T := { lhs with value := lhs.value ||| rhs.value }

/-- `operator^=` and `operator^` -/
def xor (lhs rhs : ByteSwap T) : ByteSwap T := { lhs with value := lhs.value ^^^ rhs.value }

/-- `operator~` -/
def not (rhs : ByteSwap T) : ByteSwap T := { rhs with value := ~~~rhs.value }

/-- The bytes in the memory of a little-endian target. -/
def memory (x : ByteSwap T) : List UInt8 := bytes x.value

end ByteSwap

/-! ### The promise -/

/-- The number `v` has the digits `bs`, and `BE<T>` stores them and gives the number back. -/
structure RoundTrip {T : Basetype} (bs : List UInt8) (v : T.Value) : Prop where
  digits : v.toNat = Nat.ofDigits 256 (bs.reverse.map UInt8.toNat)
  stored : (ByteSwap.ofBasetype v).memory = bs
  back : (ByteSwap.ofBasetype v).toTargettype T = v

/-- The operators do to the numbers what they do to the swapped ones. -/
structure Commutes (T : Basetype) : Prop where
  and : ∀ x y : ByteSwap T, (x.and y).toTargettype T = x.toTargettype T &&& y.toTargettype T
  or : ∀ x y : ByteSwap T, (x.or y).toTargettype T = x.toTargettype T ||| y.toTargettype T
  xor : ∀ x y : ByteSwap T, (x.xor y).toTargettype T = x.toTargettype T ^^^ y.toTargettype T
  not : ∀ x : ByteSwap T, x.not.toTargettype T = ~~~x.toTargettype T
  eq : ∀ x y : ByteSwap T, x.eq y = (x.toTargettype T == y.toTargettype T)
  ne : ∀ x y : ByteSwap T, x.ne y = (x.toTargettype T != y.toTargettype T)

/-- Network order, for a sequence of bytes. -/
def NetworkOrder (T : Basetype) (bs : List UInt8) : Prop :=
  (∃ v : T.Value, fromBytes T bs = some v ∧ RoundTrip bs v) ∧ Commutes T

/-! ### The operators -/

section operators

variable {T : Basetype} {v : T.Value} {bs : List UInt8}

theorem byteswap_eq (v : T.Value) : byteswap T v = bswap v := by
  cases T with
  | uint8 =>
      apply ext_bytes
      rw [bytes_bswap]
      rfl
  | uint16 => rfl
  | uint32 => rfl
  | uint64 => rfl

theorem toTargettype_eq (x : ByteSwap T) : x.toTargettype T = bswap x.value := by
  unfold ByteSwap.toTargettype
  rw [byteswap_eq, BitVec.setWidth_eq]

theorem toTargettype_ofBasetype (v : T.Value) : (ByteSwap.ofBasetype v).toTargettype T = v := by
  rw [toTargettype_eq]
  unfold ByteSwap.ofBasetype
  rw [byteswap_eq, bswap_bswap]

/-- Between two widths the number is converted. -/
theorem toTargettype_ofByteSwap {S : Basetype} (x : ByteSwap S) :
    (ByteSwap.ofByteSwap x : ByteSwap T).toTargettype T = (x.toTargettype S).setWidth _ := by
  unfold ByteSwap.ofByteSwap
  rw [toTargettype_ofBasetype, toTargettype_eq]
  unfold ByteSwap.toTargettype
  rw [byteswap_eq]

theorem commutes (T : Basetype) : Commutes T := by
  have heq : ∀ x y : ByteSwap T, x.eq y = (x.toTargettype T == y.toTargettype T) := by
    intro x y
    rw [toTargettype_eq, toTargettype_eq, Bool.eq_iff_iff, beq_iff_eq, bswap_inj]
    exact beq_iff_eq
  constructor
  case eq => exact heq
  case ne =>
    intro x y
    unfold ByteSwap.ne
    rw [heq]
    rfl
  all_goals
    intros
    simp only [toTargettype_eq]
  case and => exact bswap_and _ _
  case or => exact bswap_or _ _
  case xor => exact bswap_xor _ _
  case not => exact bswap_not _

/-- A number with the right digits is stored in network order. -/
theorem roundTrip_of_digits (hlen : bs.length = T.size) (h : v.toNat = value bs.reverse) :
    RoundTrip bs v := by
  have hbytes : bytes v = bs.reverse := by
    unfold bytes
    rw [h, ← hlen, ← List.length_reverse, digits_value]
  refine ⟨h, ?_, toTargettype_ofBasetype v⟩
  unfold ByteSwap.memory ByteSwap.ofBasetype
  rw [byteswap_eq, bytes_bswap, hbytes, List.reverse_reverse]

end operators

/-! ### The signed byte -/

section bytes

variable {a b c d e f g h : UInt8}

/-- The four highest bytes -/
def highBytes : BitVec 64 := 0xFFFFFFFF00000000

theorem signExtend_negative : ∀ e : BitVec 8, 0x80 ≤ e →
    e.signExtend 64 <<< 24 = highBytes ||| e.setWidth 64 <<< 24 := by decide +kernel

theorem signExtend_positive : ∀ e : BitVec 8, ¬ 0x80 ≤ e →
    e.signExtend 64 <<< 24 = e.setWidth 64 <<< 24 := by decide +kernel

theorem or_highBytes : ∀ a : BitVec 8, ∀ k ∈ [32, 40, 48, 56],
    a.setWidth 64 <<< k ||| highBytes = highBytes := by decide +kernel

theorem fromBytes8_positive (he : ¬ 0x80 ≤ e) :
    fromBytes8 a b c d e.toInt8 f g h = placed 64 [a, b, c, d, e, f, g, h] := by
  have hsign : e.toInt8.toBitVec.signExtend 64 <<< 24 = e.toBitVec.setWidth 64 <<< 24 :=
    signExtend_positive e.toBitVec he
  unfold fromBytes8
  rw [hsign]
  simp [placed, BitVec.or_assoc]

/-- The four bytes in front of a negative one are lost. -/
theorem fromBytes8_negative (he : 0x80 ≤ e) :
    fromBytes8 a b c d e.toInt8 f g h = placed 64 [0xFF, 0xFF, 0xFF, 0xFF, e, f, g, h] := by
  have hsign : e.toInt8.toBitVec.signExtend 64 <<< 24 =
      highBytes ||| e.toBitVec.setWidth 64 <<< 24 := signExtend_negative e.toBitVec he
  have hlost : a.toBitVec.setWidth 64 <<< 56 ||| (b.toBitVec.setWidth 64 <<< 48 |||
      (c.toBitVec.setWidth 64 <<< 40 ||| (d.toBitVec.setWidth 64 <<< 32 ||| highBytes))) =
        highBytes := by
    rw [or_highBytes _ 32 (by decide), or_highBytes _ 40 (by decide),
      or_highBytes _ 48 (by decide), or_highBytes _ 56 (by decide)]
  have hones : placed 64 [0xFF, 0xFF, 0xFF, 0xFF, e, f, g, h] =
      highBytes ||| placed 64 [e, f, g, h] := by
    have hhigh : placed 64 [0xFF, 0xFF, 0xFF, 0xFF] <<< 32 = highBytes := by decide
    rw [← hhigh]
    exact placed_append [0xFF, 0xFF, 0xFF, 0xFF] [e, f, g, h]
  have hrest : placed 64 [e, f, g, h] = e.toBitVec.setWidth 64 <<< 24 |||
      f.toBitVec.setWidth 64 <<< 16 ||| g.toBitVec.setWidth 64 <<< 8 ||| h.toBitVec.setWidth 64 := by
    simp [placed, BitVec.or_assoc]
  unfold fromBytes8
  rw [hsign, hones]
  calc _ = (a.toBitVec.setWidth 64 <<< 56 ||| (b.toBitVec.setWidth 64 <<< 48 |||
        (c.toBitVec.setWidth 64 <<< 40 ||| (d.toBitVec.setWidth 64 <<< 32 ||| highBytes)))) |||
          placed 64 [e, f, g, h] := by
        rw [hrest]
        simp only [BitVec.or_assoc]
    _ = highBytes ||| placed 64 [e, f, g, h] := by rw [hlost]

/-- The bytes that `FromBytes` puts together. -/
def usedBytes (T : Basetype) (bs : List UInt8) : List UInt8 :=
  if T = .uint64 ∧ 0x80 ≤ bs.getD 4 0 then [0xFF, 0xFF, 0xFF, 0xFF] ++ bs.drop 4 else bs

theorem usedBytes_length {T : Basetype} {bs : List UInt8} (h : bs.length = T.size) :
    (usedBytes T bs).length = T.size := by
  unfold usedBytes
  split_ifs with hcase
  · rw [hcase.1] at h ⊢
    rw [List.length_append, List.length_drop, h]
    rfl
  · exact h

theorem fromBytes_eq {T : Basetype} {bs : List UInt8} (hlen : bs.length = T.size) :
    fromBytes T bs = some (placed _ (usedBytes T bs)) := by
  match T, bs, hlen with
  | .uint8, [a], _ =>
      show some (fromBytes1 a) = some (placed 8 [a])
      simp [fromBytes1, placed]
  | .uint16, [a, b], _ =>
      show some (fromBytes2 a b) = some (placed 16 [a, b])
      simp [fromBytes2, placed]
  | .uint32, [a, b, c, d], _ =>
      show some (fromBytes4 a b c d) = some (placed 32 [a, b, c, d])
      simp [fromBytes4, placed, BitVec.or_assoc]
  | .uint64, [a, b, c, d, e, f, g, h], _ =>
      unfold usedBytes
      by_cases he : 0x80 ≤ e
      · rw [if_pos ⟨rfl, he⟩]
        exact congrArg some (fromBytes8_negative he)
      · rw [if_neg fun hcase => he hcase.2]
        exact congrArg some (fromBytes8_positive he)

/-- All bytes are used, or they are ones anyway. -/
theorem usedBytes_eq_iff {T : Basetype} {bs : List UInt8} : usedBytes T bs = bs ↔
    (T = .uint64 → bs.getD 4 0 < 0x80 ∨ bs.take 4 = [0xFF, 0xFF, 0xFF, 0xFF]) := by
  unfold usedBytes
  by_cases hcase : T = .uint64 ∧ 0x80 ≤ bs.getD 4 0
  · rw [if_pos hcase]
    constructor
    · intro h _
      right
      rw [← h]
      rfl
    · intro h
      have hones := (h hcase.1).resolve_left (UInt8.not_lt.mpr hcase.2)
      rw [← hones, List.take_append_drop]
  · rw [if_neg hcase]
    have hsmall : T = .uint64 → bs.getD 4 0 < 0x80 ∨ bs.take 4 = [0xFF, 0xFF, 0xFF, 0xFF] :=
      fun hT => Or.inl (UInt8.not_le.mp fun he => hcase ⟨hT, he⟩)
    exact iff_of_true rfl hsmall

end bytes

/-- **Network order**, for the sequences of bytes of all types: `FromBytes` gives the number with these
digits, which is stored as these bytes and given back, exactly if the fifth one of eight bytes is not
negative, or if the four in front of it have all bits set. -/
theorem networkOrder_iff {T : Basetype} {bs : List UInt8} (hlen : bs.length = T.size) :
    NetworkOrder T bs ↔
      (T = .uint64 → bs.getD 4 0 < 0x80 ∨ bs.take 4 = [0xFF, 0xFF, 0xFF, 0xFF]) := by
  have hused := usedBytes_length hlen
  have hdigits : (placed (8 * T.size) (usedBytes T bs)).toNat = value (usedBytes T bs).reverse :=
    placed_toNat (by rw [hused])
  rw [← usedBytes_eq_iff]
  constructor
  · rintro ⟨⟨v, hv, hround⟩, -⟩
    obtain rfl : placed _ (usedBytes T bs) = v :=
      Option.some.inj ((fromBytes_eq hlen).symm.trans hv)
    have hvalue : value (usedBytes T bs).reverse = value bs.reverse :=
      hdigits.symm.trans hround.digits
    apply List.reverse_injective
    apply value_inj _ hvalue
    rw [List.length_reverse, List.length_reverse, hused, hlen]
  · intro h
    refine ⟨⟨_, fromBytes_eq hlen, ?_⟩, commutes T⟩
    rw [h] at hdigits ⊢
    exact roundTrip_of_digits hlen hdigits

theorem networkOrder_iff_large : NetworkOrder .uint32 [0xC0, 0xA8, 0xC8, 0x28] ∧
    ¬ NetworkOrder .uint64 [1, 2, 3, 4, 0x85, 6, 7, 8] :=
  ⟨(networkOrder_iff rfl).mpr (fun h => by cases h),
    fun h => absurd ((networkOrder_iff rfl).mp h rfl) (by decide)⟩

/-- `FromBytes(0, 0, 0, 0, 0x80, 0, 0, 0)` is 0xFFFFFFFF80000000. -/
theorem not_networkOrder : fromBytes .uint64 [0, 0, 0, 0, 0x80, 0, 0, 0] = some 0xFFFFFFFF80000000 ∧
    ¬ NetworkOrder .uint64 [0, 0, 0, 0, 0x80, 0, 0, 0] := by
  have hvalue : fromBytes .uint64 [0, 0, 0, 0, 0x80, 0, 0, 0] = some 0xFFFFFFFF80000000 := by decide
  refine ⟨hvalue, ?_⟩
  rintro ⟨⟨v, hv, hround⟩, -⟩
  obtain rfl := Option.some.inj (hvalue.symm.trans hv)
  exact absurd hround.digits (by decide)

end TimeSwitch.Endianness
