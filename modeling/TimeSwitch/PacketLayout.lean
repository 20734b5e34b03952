import TimeSwitch.Library.Trail
import TimeSwitch.PacketBuffer

/-! # What the ring stores

The ring holds a list of *entries*: packets that were allocated and that `OutputReader` has
not passed yet.  `Layout` is the representation invariant.  It connects the memory and the
three pointers to the list of entries, cut in two at `InputReader`:

* a *trail* (`Trail`) leads from `OutputReader` over the entries `pre` to `InputReader`, and
  from there over the entries `post` to `NextWriter`.  A trail goes from an entry to the slot
  behind it, and from the `StartOver` mark, if there is one ahead, to slot 0;
* every entry is stored at its slot (`Stored`), and `NextWriter` is marked `EndOfRing`;
* without a mark the entries lie between `OutputReader` and `NextWriter`; with a mark at `X`
  they lie below `NextWriter` or between `OutputReader` and `X`, and there is an entry behind it.

The trail mentions no memory, so a write to the ring has to be compared with the stored
entries only. -/

namespace TimeSwitch.PacketBuffer

open ByteMemory

/-! ### State words -/

/-- What the two flag bits say about a packet. -/
inductive Status where
  | unfinished
  | input
  | output
  | skip
deriving DecidableEq, Repr

/-- The two flag bits as a number. -/
def Status.code : Status → ℕ
  | .unfinished => 0
  | .input => 1
  | .output => 2
  | .skip => 3

/-- The state word of a packet. -/
def stateWord (st : Status) (len : ℕ) : ℕ := 2 ^ 14 * st.code + len

theorem Status.code_lt (st : Status) : st.code < 4 := by cases st <;> decide

theorem Status.code_injective {a b : Status} (h : a.code = b.code) : a = b := by
  cases a <;> cases b <;> first | rfl | exact absurd h (by decide)

/-- A mask of flag bits only sees the flag bits. -/
theorem and_flagMask (x k : ℕ) : x &&& (2 ^ 14 * k) = 2 ^ 14 * ((x / 2 ^ 14) &&& k) := by
  refine Nat.eq_of_testBit_eq (fun i => ?_)
  rw [Nat.testBit_and, Nat.testBit_two_pow_mul, Nat.testBit_two_pow_mul, Nat.testBit_and,
    Nat.testBit_div_two_pow]
  by_cases h : 14 ≤ i <;> simp [h]

@[simp] theorem stateWord_unfinished (len : ℕ) : stateWord .unfinished len = len := by
  simp [stateWord, Status.code]

section words
variable {st : Status} {len : ℕ} (h : len < 2 ^ 14)
include h

theorem stateWord_lt : stateWord st len < 65536 := by
  have := st.code_lt
  unfold stateWord
  omega

theorem packetGetLen_stateWord : packetGetLen (stateWord st len) = len := by
  have : packetGetLen (stateWord st len) = stateWord st len % 2 ^ 14 :=
    Nat.and_two_pow_sub_one_eq_mod _ 14
  rw [this, stateWord]
  omega

theorem stateWord_and_flag (k : ℕ) :
    stateWord st len &&& (2 ^ 14 * k) = 2 ^ 14 * (st.code &&& k) := by
  rw [and_flagMask, stateWord]
  congr 2
  omega

theorem stateWord_or_flag (k : ℕ) (st' : Status) (hk : st'.code = st.code ||| k) :
    stateWord st len ||| (2 ^ 14 * k) = stateWord st' len := by
  rw [stateWord, stateWord, Nat.two_pow_add_eq_or_of_lt h, Nat.two_pow_add_eq_or_of_lt h, hk,
    Nat.or_right_comm]
  congr 1
  refine Nat.eq_of_testBit_eq (fun i => ?_)
  simp only [Nat.testBit_or, Nat.testBit_two_pow_mul]
  by_cases hi : 14 ≤ i <;> simp [hi]

theorem stateWord_and_output : stateWord st len &&& State.output = 0 ↔
    st = .unfinished ∨ st = .input := by
  have : State.output = 2 ^ 14 * 2 := rfl
  rw [this, stateWord_and_flag h]
  cases st <;> simp [Status.code]

theorem stateWord_and_input : stateWord st len &&& State.input = 0 ↔
    st = .unfinished ∨ st = .output := by
  have : State.input = 2 ^ 14 * 1 := rfl
  rw [this, stateWord_and_flag h]
  cases st <;> simp [Status.code]

theorem stateWord_and_skip : stateWord st len &&& State.skip = 2 ^ 14 * st.code := by
  have : State.skip = 2 ^ 14 * 3 := rfl
  rw [this, stateWord_and_flag h]
  cases st <;> rfl

theorem stateWord_eq_startOver : stateWord st len = State.startOver ↔
    st = .skip ∧ len = 0x3FFF := by
  unfold stateWord State.startOver
  cases st <;> simp [Status.code] <;> omega

theorem stateWord_or_skip : stateWord st len ||| State.skip = stateWord .skip len :=
  stateWord_or_flag h 3 .skip (by cases st <;> rfl)

end words

/-- The flags of `Packet_PutInput` and `Packet_PutOutput` as a status. -/
theorem or_input {len : ℕ} (h : len < 2 ^ 14) : len ||| State.input = stateWord .input len := by
  conv_lhs => rw [← stateWord_unfinished len]
  exact stateWord_or_flag h 1 .input rfl

theorem or_output {len : ℕ} (h : len < 2 ^ 14) :
    len ||| State.output = stateWord .output len := by
  conv_lhs => rw [← stateWord_unfinished len]
  exact stateWord_or_flag h 2 .output rfl

theorem skip_or {len : ℕ} (h : len < 2 ^ 14) : State.skip ||| len = stateWord .skip len := by
  rw [Nat.or_comm]
  conv_lhs => rw [← stateWord_unfinished len]
  exact stateWord_or_skip h

/-! ### Units -/

section units
variable (g : Geometry)

theorem packetUnits_pos (len : ℕ) : 0 < packetUnits g len := by
  unfold packetUnits divRoundUp
  rcases g.unit_eq with h | h <;> rw [h] <;> omega

theorem lt_getNextPacket (p len : ℕ) : p < getNextPacket g p len :=
  Nat.lt_add_of_pos_right (packetUnits_pos g len)

/-- The header and the data of a packet fit into its units. -/
theorem dataAddr_add_le (p len : ℕ) :
    dataAddr g p + len ≤ stateAddr g (getNextPacket g p len) := by
  unfold dataAddr stateAddr getNextPacket packetUnits divRoundUp
  rcases g.unit_eq with h | h <;> rw [h] <;> omega

theorem stateAddr_add_le {p q : ℕ} (h : p < q) : stateAddr g p + 2 ≤ stateAddr g q := by
  unfold stateAddr
  rcases g.unit_eq with hu | hu <;> rw [hu] <;> omega

theorem stateAddr_mono {p q : ℕ} (h : p ≤ q) : stateAddr g p ≤ stateAddr g q :=
  Nat.mul_le_mul_left _ h

end units

/-! ### Writes that do not touch an interval of slots -/

/-- The slots from `a` up to but excluding `b` are unchanged. -/
def SameSlots (g : Geometry) (m m' : Mem) (a b : ℕ) : Prop :=
  ∀ x, stateAddr g a ≤ x → x < stateAddr g b → m' x = m x

section slots
variable {g : Geometry} {m m' m'' : Mem} {a b q r : ℕ}

theorem SameSlots.trans (h : SameSlots g m m' a b) (h' : SameSlots g m' m'' a b) :
    SameSlots g m m'' a b := fun x ha hb => (h' x ha hb).trans (h x ha hb)

theorem SameSlots.setWord {w : ℕ} (h : q < a ∨ b ≤ q) :
    SameSlots g m (m.setWord (stateAddr g q) w) a b := by
  intro x ha hb
  refine Mem.setWord_apply_outside ?_
  cases h with
  | inl h =>
      have := stateAddr_add_le g h
      omega
  | inr h =>
      have := stateAddr_mono g h
      omega

theorem SameSlots.blit {c : ℕ} {bs : List UInt8} (hc : stateAddr g q ≤ c)
    (hr : c + bs.length ≤ stateAddr g r) (h : r ≤ a ∨ b ≤ q) :
    SameSlots g m (m.blit c bs) a b := by
  intro x ha hb
  refine Mem.blit_apply_outside ?_
  cases h with
  | inl h =>
      have := stateAddr_mono g h
      omega
  | inr h =>
      have := stateAddr_mono g h
      omega

/-- The slots from `a` on are unchanged. -/
def SameFrom (g : Geometry) (m m' : Mem) (a : ℕ) : Prop := ∀ x, stateAddr g a ≤ x → m' x = m x

theorem SameFrom.refl : SameFrom g m m a := fun _ _ => rfl

theorem SameFrom.trans (h : SameFrom g m m' a) (h' : SameFrom g m' m'' a) : SameFrom g m m'' a :=
  fun x hx => (h' x hx).trans (h x hx)

theorem SameFrom.of_slots (h : ∀ b, SameSlots g m m' a b) : SameFrom g m m' a := by
  intro x hx
  refine h (x + 1) x hx ?_
  unfold stateAddr
  rcases g.unit_eq with hu | hu <;> rw [hu] <;> omega

theorem SameFrom.setWord {w : ℕ} (h : q < a) : SameFrom g m (m.setWord (stateAddr g q) w) a :=
  .of_slots (fun _ => SameSlots.setWord (Or.inl h))

theorem SameSlots.word_eq (h : SameSlots g m m' a b) (ha : a ≤ q) (hb : q < b) :
    m'.word (stateAddr g q) = m.word (stateAddr g q) := by
  have h1 := stateAddr_mono g ha
  have h2 := stateAddr_add_le g hb
  exact Mem.word_congr (h _ h1 (by omega)) (h _ (by omega) (by omega))

end slots

/-! ### Entries -/

/-- An entry of the ring.  The length of a packet always fits beside the flag bits. -/
structure Entry where
  pos : ℕ
  status : Status
  data : List UInt8
  len_lt : data.length < 2 ^ 14

namespace Entry

/-- Length of the packet. -/
def len (e : Entry) : ℕ := e.data.length

/-- The state word of the entry. -/
def word (e : Entry) : ℕ := stateWord e.status e.len

/-- The slot behind the entry. -/
def next (g : Geometry) (e : Entry) : ℕ := getNextPacket g e.pos e.len

/-- The entry with another status. -/
def withStatus (e : Entry) (st : Status) : Entry := { e with status := st }

@[simp] theorem withStatus_pos (e : Entry) (st : Status) : (e.withStatus st).pos = e.pos := rfl
@[simp] theorem withStatus_status (e : Entry) (st : Status) : (e.withStatus st).status = st := rfl
@[simp] theorem withStatus_data (e : Entry) (st : Status) : (e.withStatus st).data = e.data := rfl
@[simp] theorem withStatus_len (e : Entry) (st : Status) : (e.withStatus st).len = e.len := rfl
@[simp] theorem withStatus_next (g : Geometry) (e : Entry) (st : Status) :
    (e.withStatus st).next g = e.next g := rfl
@[simp] theorem withStatus_self (e : Entry) : e.withStatus e.status = e := rfl

theorem pos_lt_next (g : Geometry) (e : Entry) : e.pos < e.next g := lt_getNextPacket g _ _

theorem len_lt_max (e : Entry) : e.len < 2 ^ 14 := e.len_lt

theorem getLen_word (e : Entry) : packetGetLen e.word = e.len := packetGetLen_stateWord e.len_lt

theorem word_and_output (e : Entry) :
    e.word &&& State.output = 0 ↔ e.status = .unfinished ∨ e.status = .input :=
  stateWord_and_output e.len_lt

theorem word_and_input (e : Entry) :
    e.word &&& State.input = 0 ↔ e.status = .unfinished ∨ e.status = .output :=
  stateWord_and_input e.len_lt

/-- The two flag bits of the state word are the status. -/
theorem word_and_skip (e : Entry) (st : Status) :
    e.word &&& State.skip = 2 ^ 14 * st.code ↔ e.status = st := by
  have hw : e.word &&& State.skip = 2 ^ 14 * e.status.code := stateWord_and_skip e.len_lt
  rw [hw]
  constructor
  · intro h
    exact Status.code_injective (by omega)
  · intro h
    rw [h]

end Entry

/-- `e` is stored in memory `m` at its slot.  The state word is not the `StartOver` mark: the
readers would take it for the end of the used part of the ring. -/
structure Stored (g : Geometry) (m : Mem) (e : Entry) : Prop where
  word : m.word (stateAddr g e.pos) = e.word
  data : m.read (dataAddr g e.pos) e.len = e.data
  noMark : e.word ≠ State.startOver

theorem Stored.congr {g : Geometry} {m m' : Mem} {e : Entry} (h : Stored g m e)
    (hs : SameSlots g m m' e.pos (e.next g)) : Stored g m' e := by
  refine ⟨(hs.word_eq le_rfl (e.pos_lt_next g)).trans h.word, ?_, h.noMark⟩
  refine (Mem.read_congr (fun x hx hx' => hs x ?_ ?_)).trans h.data
  · have : dataAddr g e.pos = stateAddr g e.pos + 2 := rfl
    omega
  · have := dataAddr_add_le g e.pos e.len
    exact hx'.trans_le this

/-! ### The representation invariant -/

/-- A trail through the entries of the ring. -/
abbrev RingTrail (g : Geometry) := Trail Entry.pos (Entry.next g)

/-- The ring stores the entries `pre` (already passed by `InputReader`) and `post`.  The
`StartOver` mark ahead of `OutputReader` is `k`, the one ahead of `InputReader` is `kr`. -/
structure Layout (g : Geometry) (s : Ring) (k kr : Option ℕ) (pre post : List Entry) :
    Prop where
  behind : RingTrail g k s.outputReader pre kr s.inputReader
  ahead : RingTrail g kr s.inputReader post none s.nextWriter
  linear : k = none → s.nextWriter ≤ g.slots
  wrapped : ∀ x, k = some x → 0 < s.nextWriter ∧ s.nextWriter < s.outputReader ∧ x ≤ g.slots
  mark : ∀ x, k = some x → s.mem.word (stateAddr g x) = State.startOver
  stored : ∀ e ∈ pre ++ post, Stored g s.mem e
  writer : s.mem.word (stateAddr g s.nextWriter) = State.endOfRing

/-- Some trail shows that the ring stores `pre` and `post`. -/
def Rep (g : Geometry) (s : Ring) (pre post : List Entry) : Prop :=
  ∃ k kr, Layout g s k kr pre post

/-- Two entries do not overlap. -/
def Entry.Apart (g : Geometry) (e e' : Entry) : Prop := e.next g ≤ e'.pos ∨ e'.next g ≤ e.pos

instance (g : Geometry) : Std.Symm (Entry.Apart g) := ⟨fun _ _ h => Or.symm h⟩

namespace Layout

variable {g : Geometry} {s s' : Ring} {k kr k' kr' : Option ℕ} {pre post pre' post' : List Entry}

/-- The trail through all entries. -/
theorem trail (h : Layout g s k kr pre post) :
    RingTrail g k s.outputReader (pre ++ post) none s.nextWriter := h.behind.append h.ahead

theorem linear_region (h : Layout g s none kr pre post) :
    s.outputReader + (pre ++ post).length ≤ s.nextWriter ∧
      ∀ e ∈ pre ++ post, s.outputReader ≤ e.pos ∧ e.next g ≤ s.nextWriter :=
  (h.trail.of_none (Entry.pos_lt_next g)).2

/-- The two parts of a wrapped ring. -/
theorem wrapped_parts {x : ℕ} (h : Layout g s (some x) kr pre post) :
    ∃ hi lo, pre ++ post = hi ++ lo ∧ RingTrail g none s.outputReader hi none x ∧
      RingTrail g none 0 lo none s.nextWriter := by
  rcases h.trail.of_some (Entry.pos_lt_next g) with ⟨h1, -⟩ | ⟨-, h⟩
  · cases h1
  · exact h

theorem wrapped_region {x : ℕ} (h : Layout g s (some x) kr pre post) :
    s.outputReader ≤ x ∧ (pre ++ post).length ≤ x ∧ ∀ e ∈ pre ++ post, e.next g ≤ x ∧
      (s.outputReader ≤ e.pos ∨ e.next g ≤ s.nextWriter) := by
  obtain ⟨hi, lo, he, h1, h2⟩ := h.wrapped_parts
  obtain ⟨-, h3, h4⟩ := h1.of_none (Entry.pos_lt_next g)
  obtain ⟨-, h5, h6⟩ := h2.of_none (Entry.pos_lt_next g)
  have hw := (h.wrapped x rfl).2.1
  refine ⟨by omega, by rw [he, List.length_append]; omega, fun e hmem => ?_⟩
  rw [he] at hmem
  cases List.mem_append.mp hmem with
  | inl hm => exact ⟨(h4 e hm).2, Or.inl (h4 e hm).1⟩
  | inr hm =>
      have := (h6 e hm).2
      exact ⟨by omega, Or.inr this⟩

theorem nextWriter_le (h : Layout g s k kr pre post) : s.nextWriter ≤ g.slots := by
  cases k with
  | none => exact h.linear rfl
  | some x =>
      have h1 := h.wrapped x rfl
      have h2 := h.wrapped_region.1
      omega

theorem entry_le (h : Layout g s k kr pre post) {e : Entry} (he : e ∈ pre ++ post) :
    e.next g ≤ g.slots := by
  cases k with
  | none =>
      have h1 := h.linear rfl
      have h2 := (h.linear_region.2 e he).2
      omega
  | some x =>
      have h1 := (h.wrapped x rfl).2.2
      have h2 := (h.wrapped_region.2.2 e he).1
      omega

theorem length_le (h : Layout g s k kr pre post) : (pre ++ post).length ≤ g.slots := by
  cases k with
  | none =>
      have h1 := h.linear rfl
      have h2 := h.linear_region.1
      omega
  | some x =>
      have h1 := (h.wrapped x rfl).2.2
      have h2 := h.wrapped_region.2.1
      omega

/-- `NextWriter` points at no entry. -/
theorem writer_apart (h : Layout g s k kr pre post) {e : Entry} (he : e ∈ pre ++ post) :
    e.next g ≤ s.nextWriter ∨ s.nextWriter < e.pos := by
  cases k with
  | none => exact Or.inl (h.linear_region.2 e he).2
  | some x =>
      have hw := (h.wrapped x rfl).2.1
      cases (h.wrapped_region.2.2 e he).2 with
      | inl h2 => exact Or.inr (by omega)
      | inr h2 => exact Or.inl h2

/-- The mark lies behind all entries and behind `NextWriter`. -/
theorem mark_apart {x : ℕ} (h : Layout g s (some x) kr pre post) :
    s.nextWriter < x ∧ ∀ e ∈ pre ++ post, e.next g ≤ x := by
  have hw := (h.wrapped x rfl).2.1
  have hr := h.wrapped_region
  exact ⟨by omega, fun e he => (hr.2.2 e he).1⟩

/-- The entries do not overlap. -/
theorem pairwise (h : Layout g s k kr pre post) : (pre ++ post).Pairwise (Entry.Apart g) := by
  cases k with
  | none =>
      exact (h.trail.pairwise_of_none (Entry.pos_lt_next g)).imp (fun hab => Or.inl hab)
  | some x =>
      obtain ⟨hi, lo, he, h1, h2⟩ := h.wrapped_parts
      have hw := (h.wrapped x rfl).2.1
      have h3 := (h1.of_none (Entry.pos_lt_next g)).2.2
      have h4 := (h2.of_none (Entry.pos_lt_next g)).2.2
      rw [he, List.pairwise_append]
      refine ⟨(h1.pairwise_of_none (Entry.pos_lt_next g)).imp (fun hab => Or.inl hab),
        (h2.pairwise_of_none (Entry.pos_lt_next g)).imp (fun hab => Or.inl hab), ?_⟩
      intro a ha b hb
      have := (h3 a ha).1
      have := (h4 b hb).2
      exact Or.inr (by omega)

theorem apart (h : Layout g s k kr pre post) {e e' : Entry} (he : e ∈ pre ++ post)
    (he' : e' ∈ pre ++ post) (hne : e ≠ e') : e.Apart g e' :=
  h.pairwise.forall he he' hne

/-- An entry is determined by its slot. -/
theorem eq_of_pos (h : Layout g s k kr pre post) {e e' : Entry} (he : e ∈ pre ++ post)
    (he' : e' ∈ pre ++ post) (hp : e.pos = e'.pos) : e = e' := by
  by_contra hne
  have h1 := e.pos_lt_next g
  have h2 := e'.pos_lt_next g
  rcases h.apart he he' hne with h3 | h3 <;> omega

/-! ### Changes of the ring -/

/-- The readers may move along the trail; entries left behind `OutputReader` are forgotten. -/
theorem moveReaders (h : Layout g s k kr pre post) {d : List Entry} {o i : ℕ}
    (hd : RingTrail g k s.outputReader d k' o) (hb : RingTrail g k' o pre' kr' i)
    (ha : RingTrail g kr' i post' none s.nextWriter)
    (hsub : ∀ e ∈ pre' ++ post', e ∈ pre ++ post) :
    Layout g { s with outputReader := o, inputReader := i } k' kr' pre' post' := by
  have hk : k' = none ∨ (k' = k ∧ s.outputReader ≤ o) := by
    cases k with
    | none => exact Or.inl (hd.of_none (Entry.pos_lt_next g)).1
    | some x =>
        rcases hd.of_some (Entry.pos_lt_next g) with ⟨h1, h2⟩ | ⟨h1, -⟩
        · have := (h2.of_none (Entry.pos_lt_next g)).2.1
          exact Or.inr ⟨h1, by omega⟩
        · exact Or.inl h1
  refine ⟨hb, ha, fun _ => h.nextWriter_le, fun x hx => ?_, fun x hx => ?_,
    fun e he => h.stored e (hsub e he), h.writer⟩
  · rcases hk with hk | ⟨hk, ho⟩
    · rw [hk] at hx; cases hx
    · have := h.wrapped x (hk ▸ hx)
      exact ⟨this.1, by dsimp only; omega, this.2.2⟩
  · rcases hk with hk | ⟨hk, -⟩
    · rw [hk] at hx; cases hx
    · exact h.mark x (hk ▸ hx)

/-- A write to the memory that changes entries in place and leaves the mark and the slot of
`NextWriter` alone. -/
theorem remap (h : Layout g s k kr pre post) {f : Entry → Entry} {m : Mem}
    (hf : ∀ e, (f e).pos = e.pos ∧ (f e).next g = e.next g)
    (hs : ∀ e ∈ pre ++ post, Stored g m (f e))
    (hx : ∀ x, (k = some x ∨ x = s.nextWriter) → SameSlots g s.mem m x (x + 1)) :
    Layout g { s with mem := m } k kr (pre.map f) (post.map f) := by
  refine ⟨h.behind.map (fun e _ => hf e), h.ahead.map (fun e _ => hf e), h.linear, h.wrapped,
    fun x hk => ?_, fun e he => ?_, ?_⟩
  · rw [(hx x (Or.inl hk)).word_eq le_rfl (Nat.lt_succ_self x)]
    exact h.mark x hk
  · rw [← List.map_append] at he
    obtain ⟨e', he', rfl⟩ := List.mem_map.mp he
    exact hs e' he'
  · rw [(hx _ (Or.inr rfl)).word_eq le_rfl (Nat.lt_succ_self _)]
    exact h.writer

/-- A write inside one entry. -/
theorem remapEntry (h : Layout g s k kr pre post) {e : Entry} (he : e ∈ pre ++ post)
    {f : Entry → Entry} {m : Mem}
    (hf : ∀ e, (f e).pos = e.pos ∧ (f e).next g = e.next g)
    (hm : ∀ a b, (b ≤ e.pos ∨ e.next g ≤ a) → SameSlots g s.mem m a b)
    (hsame : ∀ e', e'.pos ≠ e.pos → f e' = e') (hs : Stored g m (f e)) :
    Layout g { s with mem := m } k kr (pre.map f) (post.map f) := by
  refine h.remap hf (fun e' he' => ?_) (fun x hx => hm _ _ ?_)
  · by_cases hp : e'.pos = e.pos
    · rw [h.eq_of_pos he' he hp]
      exact hs
    · rw [hsame e' hp]
      refine (h.stored e' he').congr (hm _ _ ?_)
      exact h.apart he' he (fun heq => hp (heq ▸ rfl))
  · rcases hx with rfl | rfl
    · exact Or.inr (h.mark_apart.2 e he)
    · cases h.writer_apart he with
      | inl h1 => exact Or.inr h1
      | inr h1 => exact Or.inl h1

end Layout

/-! ### Changing the status or the data of the packet at a slot -/

/-- Set the status of the entry at slot `p`. -/
def setStatus (p : ℕ) (st : Status) (e : Entry) : Entry :=
  if e.pos = p then e.withStatus st else e

@[simp] theorem setStatus_pos (p : ℕ) (st : Status) (e : Entry) :
    (setStatus p st e).pos = e.pos := by
  unfold setStatus; split_ifs <;> rfl

@[simp] theorem setStatus_data (p : ℕ) (st : Status) (e : Entry) :
    (setStatus p st e).data = e.data := by
  unfold setStatus; split_ifs <;> rfl

@[simp] theorem setStatus_len (p : ℕ) (st : Status) (e : Entry) :
    (setStatus p st e).len = e.len := by
  unfold setStatus; split_ifs <;> rfl

@[simp] theorem setStatus_next (g : Geometry) (p : ℕ) (st : Status) (e : Entry) :
    (setStatus p st e).next g = e.next g := by
  unfold setStatus; split_ifs <;> rfl

theorem setStatus_of_ne {p : ℕ} {st : Status} {e : Entry} (h : e.pos ≠ p) :
    setStatus p st e = e := if_neg h

@[simp] theorem setStatus_same (st : Status) (e : Entry) :
    setStatus e.pos st e = e.withStatus st := if_pos rfl

/-- Overwrite a part of the data of the entry at slot `p`. -/
def setData (p i : ℕ) (cs : List UInt8) (e : Entry) : Entry :=
  if h : e.pos = p ∧ i + cs.length ≤ e.data.length then
    { e with data := Mem.splice e.data i cs, len_lt := by rw [Mem.splice_length h.2]; exact e.len_lt }
  else e

@[simp] theorem setData_pos (p i : ℕ) (cs : List UInt8) (e : Entry) :
    (setData p i cs e).pos = e.pos := by
  unfold setData; split_ifs <;> rfl

@[simp] theorem setData_status (p i : ℕ) (cs : List UInt8) (e : Entry) :
    (setData p i cs e).status = e.status := by
  unfold setData; split_ifs <;> rfl

@[simp] theorem setData_len (p i : ℕ) (cs : List UInt8) (e : Entry) :
    (setData p i cs e).len = e.len := by
  unfold setData
  split_ifs with h
  · exact Mem.splice_length h.2
  · rfl

@[simp] theorem setData_next (g : Geometry) (p i : ℕ) (cs : List UInt8) (e : Entry) :
    (setData p i cs e).next g = e.next g := by
  unfold Entry.next
  rw [setData_pos, setData_len]

theorem setData_of_ne {p i : ℕ} {cs : List UInt8} {e : Entry} (h : e.pos ≠ p) :
    setData p i cs e = e := dif_neg (fun hp => h hp.1)

theorem setData_same {i : ℕ} {cs : List UInt8} {e : Entry} (h : i + cs.length ≤ e.len) :
    (setData e.pos i cs e).data = Mem.splice e.data i cs := by
  unfold setData
  rw [dif_pos ⟨rfl, h⟩]

namespace Layout

variable {g : Geometry} {s : Ring} {k kr : Option ℕ} {pre post : List Entry}

theorem setState (h : Layout g s k kr pre post) {e : Entry} (he : e ∈ pre ++ post) (st : Status)
    (hno : stateWord st e.len ≠ State.startOver) :
    Layout g (s.setState g e.pos (stateWord st e.len)) k kr
      (pre.map (setStatus e.pos st)) (post.map (setStatus e.pos st)) := by
  refine h.remapEntry he (fun e' => ⟨setStatus_pos _ _ _, setStatus_next _ _ _ _⟩)
    (fun a b hab => SameSlots.setWord ?_) (fun e' hp => setStatus_of_ne hp) ?_
  · have := e.pos_lt_next g
    omega
  · rw [setStatus_same]
    refine ⟨Mem.word_setWord_same (stateWord_lt e.len_lt), ?_, hno⟩
    exact (Mem.read_setWord_disjoint (Or.inr le_rfl)).trans (h.stored e he).data

theorem write (h : Layout g s k kr pre post) {e : Entry} (he : e ∈ pre ++ post) {i : ℕ}
    {cs : List UInt8} (hi : i + cs.length ≤ e.len) :
    Layout g (s.write (dataAddr g e.pos + i) cs) k kr
      (pre.map (setData e.pos i cs)) (post.map (setData e.pos i cs)) := by
  have hend := dataAddr_add_le g e.pos e.len
  have hda : dataAddr g e.pos = stateAddr g e.pos + 2 := rfl
  refine h.remapEntry he (fun e' => ⟨setData_pos _ _ _ _, setData_next _ _ _ _ _⟩)
    (fun a b hab => SameSlots.blit (q := e.pos) (r := e.next g) (by omega) ?_ hab.symm)
    (fun e' hp => setData_of_ne hp) ?_
  · have : stateAddr g (e.next g) = stateAddr g (getNextPacket g e.pos e.len) := rfl
    omega
  · have hst := h.stored e he
    refine ⟨?_, ?_, ?_⟩
    · rw [setData_pos, Mem.word_blit_disjoint (Or.inl (by omega)), hst.word]
      unfold Entry.word
      rw [setData_status, setData_len]
    · rw [setData_pos, setData_len, setData_same hi, Mem.read_blit_inside hi, hst.data]
    · unfold Entry.word
      rw [setData_status, setData_len]
      exact hst.noMark

end Layout

/-- The ring at program start is empty. -/
theorem rep_init (g : Geometry) (m : Mem) : Rep g (Ring.init g m) [] [] :=
  ⟨none, none, .stop _ _, .stop _ _, fun _ => Nat.zero_le _, by simp, by simp, by simp,
    Mem.word_setWord_same (by decide)⟩

end TimeSwitch.PacketBuffer
