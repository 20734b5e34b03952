import TimeSwitch.Datagrams

/-! # The Internet checksum

`IP_Checksum` adds the words of a little-endian machine and a carry after each of them.  In memory its
result is the checksum of RFC 1071, which adds the words in network order (`ipChecksum_right`). -/

namespace TimeSwitch.Net

open Program ByteMemory

/-! ### The checksum of RFC 1071 -/

/-- The words of a block in network order, with a zero byte behind an odd end. -/
def networkWords : List UInt8 → List ℕ
  | a :: b :: bs => (256 * a.toNat + b.toNat) :: networkWords bs
  | [a] => [256 * a.toNat]
  | [] => []

/-- The complement of the sum of all words, with its carries. -/
def rfc1071 (bs : List UInt8) : ℕ := 65535 - OnesComplement.carries (networkWords bs).sum

/-- `IP_ChecksumAdd`, for compilers without `__builtin_uadd_overflow` -/
def ipChecksumAddOld (checksum word : ℕ) : ℕ :=
  let checksum := (checksum + word) % 65536
  if checksum < word then (checksum + 1) % 65536 else checksum

/-- Both branches of `IP_ChecksumAdd` -/
theorem ipChecksumAddOld_eq (checksum word : UInt16) :
    ipChecksumAddOld checksum.toNat word.toNat = ipChecksumAdd checksum.toNat word.toNat := by
  have hchecksum := checksum.toNat_lt
  have hword := word.toNat_lt
  unfold ipChecksumAddOld ipChecksumAdd
  dsimp only
  split_ifs <;> omega

/-! ### The order of the bytes -/

section order

variable {v : ℕ} {bs : List UInt8}

/-- The words of the machine are those of the network with their bytes the other way round. -/
theorem exists_sum_words (bs : List UInt8) : ∃ A B, (networkWords bs).sum = 256 * A + B ∧
    (wordsOf (bs ++ [0])).sum = A + 256 * B := by
  induction bs using networkWords.induct with
  | case1 a b bs ih =>
      obtain ⟨A, B, hnetwork, hmachine⟩ := ih
      refine ⟨a.toNat + A, b.toNat + B, ?_, ?_⟩
      · rw [networkWords, List.sum_cons, hnetwork]
        omega
      · rw [List.cons_append, List.cons_append, wordsOf, List.sum_cons, hmachine]
        omega
  | case2 a => exact ⟨a.toNat, 0, rfl, rfl⟩
  | case3 => exact ⟨0, 0, rfl, rfl⟩

theorem sum_words (bs : List UInt8) : OnesComplement.sum (wordsOf (bs ++ [0])) =
    swap16 (OnesComplement.carries (networkWords bs).sum) := by
  obtain ⟨A, B, hnetwork, hmachine⟩ := exists_sum_words bs
  rw [OnesComplement.sum_eq (wordsOf_lt _), OnesComplement.carries_eq, hnetwork, hmachine]
  exact OnesComplement.fold_swap A B

theorem swap16_complement (h : v < 65536) : 65535 - swap16 v = swap16 (65535 - v) := by
  unfold swap16
  omega

/-- In memory the sum of the machine words is the one of the network words. -/
theorem bytes16_checksum (bs : List UInt8) :
    bytes16 (65535 - OnesComplement.sum (wordsOf (bs ++ [0]))) = be16Bytes (rfc1071 bs) := by
  have hlt : OnesComplement.carries (networkWords bs).sum < 65536 := by
    rw [OnesComplement.carries_eq]
    exact OnesComplement.fold_lt _
  rw [sum_words, swap16_complement hlt, bytes16_swap16]
  rfl

end order

/-! ### The loop and the odd end -/

section loop

variable {σ : Type} {n i k : ℕ} {m : Mem} {s : σ}

/-- The mask keeps the first byte of the last word. -/
theorem le16_and_mask (bs : List UInt8) : le16 bs &&& swap16 0xFF00 = (bs.getD 0 0).toNat := by
  have hlow := (bs.getD 0 0).toNat_lt
  rw [show swap16 0xFF00 = 2 ^ 8 - 1 from rfl, Nat.and_two_pow_sub_one_eq_mod]
  unfold le16
  omega

theorem ipChecksum_odd (hn : i + 2 * k + 2 ≤ n) : (ipChecksum i (2 * k + 1) : Program σ ℕ) n m s =
    some (65535 - OnesComplement.sum (wordsOf (m.read i (2 * k + 1) ++ [0])), m, s) := by
  have hodd : (2 * k + 1) % 2 = 1 := by omega
  have hhalf : (2 * k + 1) / 2 = k := by omega
  have hlast : (m (i + 2 * k)).toNat < 65536 := by
    have := (m (i + 2 * k)).toNat_lt
    omega
  have hsum : OnesComplement.sum (wordsOf (m.read i (2 * k))) < 65536 := by
    rw [OnesComplement.sum_eq (wordsOf_lt _)]
    exact OnesComplement.fold_lt _
  have hread : m.read i (2 * k + 1) ++ [0] = m.read i (2 * k) ++ [m (i + 2 * k), 0] := by
    rw [Mem.read_append, List.append_assoc]
    rfl
  have hwords : wordsOf (m.read i (2 * k) ++ [m (i + 2 * k), 0]) =
      wordsOf (m.read i (2 * k)) ++ [(m (i + 2 * k)).toNat] :=
    wordsOf_append (by rw [Mem.read_length, Nat.mul_mod_right])
  unfold ipChecksum
  rw [hhalf, bind_eq (ipChecksumLoop_eq (by decide) (by omega)), if_pos hodd,
    load16_bind (by omega), le16_and_mask, pure_eq, hread, hwords]
  show some (65535 - ipChecksumAdd (OnesComplement.sum (wordsOf (m.read i (2 * k))))
    (m (i + 2 * k)).toNat, m, s) = _
  rw [ipChecksumAdd_eq hsum hlast]
  unfold OnesComplement.sum
  rw [List.foldl_append]
  rfl

/-- The code adds the words, with a zero byte behind an odd end. -/
theorem ipChecksum_words {length : ℕ} (hn : i + length + length % 2 ≤ n) :
    (ipChecksum i length : Program σ ℕ) n m s =
      some (65535 - OnesComplement.sum (wordsOf (m.read i length ++ [0])), m, s) := by
  obtain ⟨k, rfl | rfl⟩ := Nat.even_or_odd' length
  · have hwords : wordsOf (m.read i (2 * k) ++ [0]) = wordsOf (m.read i (2 * k)) ++ [] :=
      wordsOf_append (by rw [Mem.read_length, Nat.mul_mod_right])
    rw [ipChecksum_eq (by omega), hwords, List.append_nil]
    rfl
  · exact ipChecksum_odd (by omega)

end loop

/-! ### The header -/

/-- The header that `IP_WriteHeader` has written checks itself. -/
theorem ipChecksum_ipHeader {σ : Type} {n o len : ℕ} {m : Mem} {s : σ} {source destination : UInt32}
    {protocol : UInt8} (hn : o + 20 ≤ n) :
    (ipChecksum o 20 : Program σ ℕ) n (m.blit o (ipHeader source destination protocol len)) s =
      some (0, m.blit o (ipHeader source destination protocol len), s) := by
  have hread := Mem.read_blit_same m o (ipHeader source destination protocol len)
  rw [ipHeader_length] at hread
  rw [show 20 = 2 * 10 from rfl, ipChecksum_eq (by omega), show 2 * 10 = 20 from rfl, hread]
  unfold checksumOf
  rw [sum_ipHeader]

/-- **The checksum is right.**  For all blocks the result of `IP_Checksum` has in memory the bytes of the
checksum of RFC 1071, whatever lies behind the block; both branches of `IP_ChecksumAdd` agree; and the
checksum of a header that `IP_WriteHeader` has written is 0, for a new packet as well as for an
answer. -/
theorem ipChecksum_right {σ : Type} {n i : ℕ} :
    (∀ (bs : List UInt8) (m : Mem) (s : σ), m.read i bs.length = bs →
      i + bs.length + bs.length % 2 ≤ n →
      ∃ v, ipChecksum i bs.length n m s = some (v, m, s) ∧ bytes16 v = be16Bytes (rfc1071 bs)) ∧
    (∀ checksum word : UInt16, ipChecksumAddOld checksum.toNat word.toNat =
      ipChecksumAdd checksum.toNat word.toNat) ∧
    ∀ (h : Host) (protocol : UInt8) (payloadLength : ℕ) (m : Mem) (s : σ), i + 20 ≤ n →
      (∀ ip, ∃ m', ipWriteHeader h i protocol (pure ip) payloadLength n m s = some (20, m', s) ∧
        ipChecksum i 20 n m' s = some (0, m', s)) ∧
      ∃ m', ipWriteHeader h i protocol (loadIP (i + 12)) payloadLength n m s = some (20, m', s) ∧
        ipChecksum i 20 n m' s = some (0, m', s) := by
  refine ⟨?_, ipChecksumAddOld_eq, ?_⟩
  · intro bs m s hbs hn
    refine ⟨_, ipChecksum_words hn, ?_⟩
    rw [hbs, bytes16_checksum]
  · intro h protocol payloadLength m s hn
    constructor
    · intro ip
      exact ⟨_, ipWriteHeader_eq hn fun _ _ => rfl, ipChecksum_ipHeader hn⟩
    · exact ⟨_, ipWriteHeader_back hn, ipChecksum_ipHeader hn⟩

/-- Three bytes, with another byte behind them that is not added. -/
theorem ipChecksum_right_odd :
    (∃ v, ipChecksum 0 3 20 (Mem.blit (fun _ => 7) 0 [0, 1, 0xF2]) () =
        some (v, Mem.blit (fun _ => 7) 0 [0, 1, 0xF2], ()) ∧ bytes16 v = [0x0D, 0xFE]) ∧
      ∃ m', ipWriteHeader ownHost 0 17 (pure 0x29C8A8C0) 9 20 (fun _ => 0) () = some (20, m', ()) ∧
        ipChecksum 0 20 20 m' () = some (0, m', ()) := by
  obtain ⟨hblock, -, hheader⟩ := ipChecksum_right (σ := Unit) (n := 20) (i := 0)
  constructor
  · obtain ⟨v, hv, hbytes⟩ := hblock [0, 1, 0xF2] (Mem.blit (fun _ => 7) 0 [0, 1, 0xF2]) ()
      (Mem.read_blit_same _ _ _) (by decide)
    refine ⟨v, hv, hbytes.trans ?_⟩
    unfold rfc1071
    rw [OnesComplement.carries_eq]
    decide
  · exact (hheader ownHost 17 9 (fun _ => 0) () (by decide)).1 0x29C8A8C0

end TimeSwitch.Net
