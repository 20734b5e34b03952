import TimeSwitch.PacketLayout

/-! # The writer side of the ring

Allocation (`allocateNew`, `Packet_New`) and finishing (`Packet_PutInput`,
`Packet_PutOutput`) of packets.  A new packet is *placed* in an interval of slots: its state
word and its data are written inside the interval and the slot behind it is marked
`EndOfRing` (`Placed`).  The interval starts at `NextWriter`, or at slot 0 behind a new
`StartOver` mark, or at slot 0 of an empty ring; each case extends the layout by one entry. -/

namespace TimeSwitch.PacketBuffer

open ByteMemory

/-! ### Placing an entry -/

/-- Memory `m` comes from `m₀` by placing the entry `e`. -/
structure Placed (g : Geometry) (m₀ m : Mem) (e : Entry) : Prop where
  stored : Stored g m e
  behind : m.word (stateAddr g (e.next g)) = State.endOfRing
  outside : ∀ a b, (b ≤ e.pos ∨ e.next g < a) → SameSlots g m₀ m a b

theorem Placed.sameFrom {g : Geometry} {m₀ m : Mem} {e : Entry} (h : Placed g m₀ m e)
    {a : ℕ} (ha : e.next g < a) : SameFrom g m₀ m a :=
  .of_slots (fun b => h.outside a b (Or.inr ha))

namespace Layout

variable {g : Geometry} {s : Ring} {k kr : Option ℕ} {pre post : List Entry} {e : Entry} {m : Mem}

/-- Place an entry at `NextWriter`. -/
theorem pushHere (h : Layout g s k kr pre post) (hm : Placed g s.mem m e)
    (hp : e.pos = s.nextWriter) (hlin : k = none → e.next g ≤ g.slots)
    (hwrap : ∀ x, k = some x → e.next g < s.outputReader) :
    Layout g { s with mem := m, nextWriter := e.next g } k kr pre (post ++ [e]) := by
  have hlt := e.pos_lt_next g
  have hfree : ∀ e' ∈ pre ++ post, e'.next g ≤ e.pos ∨ e.next g < e'.pos := by
    intro e' he'
    cases k with
    | none =>
        have := (h.linear_region.2 e' he').2
        omega
    | some x =>
        have h1 := (h.wrapped_region.2.2 e' he').2
        have h2 := hwrap x rfl
        omega
  refine ⟨h.behind, h.ahead.append ?_, hlin, fun x hx => ?_, fun x hx => ?_, fun e' he' => ?_,
    hm.behind⟩
  · rw [← hp]
    exact .single none e
  · have h1 := h.wrapped x hx
    exact ⟨by dsimp only; omega, hwrap x hx, h1.2.2⟩
  · subst hx
    have h1 := hwrap x rfl
    have h2 := h.wrapped_region.1
    rw [(hm.outside x (x + 1) (by omega)).word_eq le_rfl (Nat.lt_succ_self x)]
    exact h.mark x rfl
  · rw [← List.append_assoc] at he'
    cases List.mem_append.mp he' with
    | inl he' => exact (h.stored e' he').congr (hm.outside _ _ (hfree e' he'))
    | inr he' =>
        obtain rfl : e' = e := by simpa using he'
        exact hm.stored

/-- Mark the unused space at `NextWriter` and place an entry at slot 0. -/
theorem pushWrapped (h : Layout g s none kr pre post)
    (hm : Placed g (s.mem.setWord (stateAddr g s.nextWriter) State.startOver) m e)
    (hp : e.pos = 0) (hfit : e.next g < s.outputReader) :
    Layout g { s with mem := m, nextWriter := e.next g } (some s.nextWriter)
      (some s.nextWriter) pre (post ++ [e]) := by
  have hlt := e.pos_lt_next g
  obtain ⟨hlen, hreg⟩ := h.linear_region
  obtain ⟨rfl, -, -⟩ := h.behind.of_none (Entry.pos_lt_next g)
  have hmark : (s.mem.setWord (stateAddr g s.nextWriter) State.startOver).word
      (stateAddr g s.nextWriter) = State.startOver := Mem.word_setWord_same (by decide)
  refine ⟨h.behind.carry _, (h.ahead.carry _).append (.jump ?_), fun hx => ?_, fun x hx => ?_,
    fun x hx => ?_, fun e' he' => ?_, hm.behind⟩
  · rw [← hp]
    exact .single none e
  · cases hx
  · obtain rfl := Option.some.inj hx
    exact ⟨by dsimp only; omega, hfit, h.linear rfl⟩
  · obtain rfl := Option.some.inj hx
    rw [(hm.outside _ _ (Or.inr (by omega))).word_eq le_rfl (Nat.lt_succ_self _)]
    exact hmark
  · rw [← List.append_assoc] at he'
    cases List.mem_append.mp he' with
    | inl he' =>
        have h1 := hreg e' he'
        have h2 : SameSlots g s.mem (s.mem.setWord (stateAddr g s.nextWriter) State.startOver)
            e'.pos (e'.next g) := SameSlots.setWord (Or.inr h1.2)
        exact (h.stored e' he').congr (h2.trans (hm.outside _ _ (Or.inr (by omega))))
    | inr he' =>
        obtain rfl : e' = e := by simpa using he'
        exact hm.stored

end Layout

/-- Place an entry at slot 0 of an empty ring. -/
theorem Layout.pushReset {g : Geometry} {m₀ m : Mem} {e : Entry} (hm : Placed g m₀ m e)
    (hp : e.pos = 0) (hfit : e.next g ≤ g.slots) : Layout g ⟨m, e.next g, 0, 0⟩ none none [] [e] := by
  refine ⟨.stop _ _, ?_, fun _ => hfit, fun x hx => ?_, fun x hx => ?_, fun e' he' => ?_, hm.behind⟩
  · have h1 : RingTrail g none e.pos [e] none (e.next g) := .single none e
    rwa [hp] at h1
  · cases hx
  · cases hx
  · obtain rfl : e' = e := by simpa using he'
    exact hm.stored

/-! ### `allocateNew` -/

section allocate

variable {g : Geometry} {s : Ring} {k kr : Option ℕ} {pre post : List Entry} {len : ℕ}

/-- The unfinished packet of `len` bytes at slot `p`, with the data that memory `m` has there. -/
def freshEntry (g : Geometry) (m : Mem) (p len : ℕ) (h : len < 2 ^ 14) : Entry :=
  ⟨p, .unfinished, m.read (dataAddr g p) len, by rw [Mem.read_length]; exact h⟩

@[simp] theorem freshEntry_pos (m : Mem) (p : ℕ) (h : len < 2 ^ 14) :
    (freshEntry g m p len h).pos = p := rfl

@[simp] theorem freshEntry_len (m : Mem) (p : ℕ) (h : len < 2 ^ 14) :
    (freshEntry g m p len h).len = len := Mem.read_length _ _ _

@[simp] theorem freshEntry_next (m : Mem) (p : ℕ) (h : len < 2 ^ 14) :
    (freshEntry g m p len h).next g = getNextPacket g p len := by
  unfold Entry.next
  rw [freshEntry_len]
  rfl

/-- Any way to write the data of a new packet, between writing its state and marking the slot
behind it, places the packet. -/
theorem placed_fresh {m₀ m₁ : Mem} {p : ℕ} (h : len < 2 ^ 14)
    (hword : m₁.word (stateAddr g p) = len)
    (hout : ∀ a b, (b ≤ p ∨ getNextPacket g p len ≤ a) → SameSlots g m₀ m₁ a b) :
    Placed g m₀ (m₁.setWord (stateAddr g (getNextPacket g p len)) State.endOfRing)
      (freshEntry g (m₁.setWord (stateAddr g (getNextPacket g p len)) State.endOfRing) p len h) := by
  have hlt := lt_getNextPacket g p len
  refine ⟨⟨?_, ?_, ?_⟩, ?_, fun a b hab => ?_⟩
  · rw [freshEntry_pos, Mem.word_setWord_disjoint (Or.inl (stateAddr_add_le g hlt)), hword,
      Entry.word, freshEntry_len]
    exact (stateWord_unfinished len).symm
  · rw [freshEntry_len]
    rfl
  · intro hw
    cases ((stateWord_eq_startOver (Entry.len_lt_max _)).mp hw).1
  · rw [freshEntry_next]
    exact Mem.word_setWord_same (by decide)
  · rw [freshEntry_next] at hab
    have hab' : b ≤ p ∨ getNextPacket g p len < a := hab
    exact (hout a b (by omega)).trans (SameSlots.setWord (by omega))

/-- `placePacket` without a resize. -/
theorem placed_new (m : Mem) (p : ℕ) (h : len < 2 ^ 14) :
    ∃ e : Entry, e.pos = p ∧ e.status = .unfinished ∧ e.len = len ∧
      e.next g = getNextPacket g p len ∧
      Placed g m ((m.setWord (stateAddr g p) len).setWord (stateAddr g (getNextPacket g p len))
        State.endOfRing) e := by
  refine ⟨_, rfl, rfl, freshEntry_len _ _ h, freshEntry_next _ _ h,
    placed_fresh h (Mem.word_setWord_same (by omega)) (fun a b hab => SameSlots.setWord ?_)⟩
  have := lt_getNextPacket g p len
  omega

/-- The four outcomes of `allocateNew`: the ring is full, or the packet is placed at
`NextWriter`, behind the mark, or in the reset ring. -/
theorem allocateNew_cases (h : Layout g s k kr pre post) (resize : Bool) (packet oldLen : ℕ)
    (hfit : pre ++ post = [] → packetUnits g len ≤ g.slots) :
    (allocateNew g s s.nextWriter s.outputReader len resize packet oldLen = some (none, s) ∧
      pre ++ post ≠ []) ∨
    (allocateNew g s s.nextWriter s.outputReader len resize packet oldLen =
        some (some s.nextWriter, placePacket g s s.nextWriter (getNextPacket g s.nextWriter len)
          len resize packet oldLen) ∧
      (k = none → getNextPacket g s.nextWriter len ≤ g.slots) ∧
      ∀ x, k = some x → getNextPacket g s.nextWriter len < s.outputReader) ∨
    (allocateNew g s s.nextWriter s.outputReader len resize packet oldLen =
        some (some 0, placePacket g (s.setState g s.nextWriter State.startOver) 0
          (getNextPacket g 0 len) len resize packet oldLen) ∧
      k = none ∧ pre ++ post ≠ [] ∧ getNextPacket g 0 len < s.outputReader) ∨
    (allocateNew g s s.nextWriter s.outputReader len resize packet oldLen =
        some (some 0, placePacket g { s with inputReader := 0, outputReader := 0 } 0
          (getNextPacket g 0 len) len resize packet oldLen) ∧
      pre ++ post = [] ∧ getNextPacket g 0 len ≤ g.slots) := by
  have hzero : getNextPacket g 0 len = packetUnits g len := Nat.zero_add _
  simp only [allocateNew]
  cases k with
  | none =>
      obtain ⟨hlen, -⟩ := h.linear_region
      rw [if_pos (by omega)]
      by_cases hend : g.slots < getNextPacket g s.nextWriter len
      · rw [if_pos hend]
        by_cases hempty : s.nextWriter = s.outputReader
        · have hnil : pre ++ post = [] := List.length_eq_zero_iff.mp (by omega)
          have hle := hfit hnil
          rw [if_pos hempty, if_pos (by omega)]
          exact Or.inr (Or.inr (Or.inr ⟨rfl, hnil, by omega⟩))
        · have hne : pre ++ post ≠ [] := by
            intro hnil
            have ht := h.trail
            rw [hnil] at ht
            rcases ht.nil_inv with ⟨-, hx⟩ | ⟨hk, -⟩
            · exact hempty hx
            · cases hk
          rw [if_neg hempty]
          by_cases hroom : getNextPacket g 0 len < s.outputReader
          · rw [if_pos hroom]
            exact Or.inr (Or.inr (Or.inl ⟨rfl, rfl, hne, hroom⟩))
          · rw [if_neg hroom]
            exact Or.inl ⟨rfl, hne⟩
      · rw [if_neg hend]
        exact Or.inr (Or.inl ⟨rfl, fun _ => by omega, by simp⟩)
  | some x =>
      obtain ⟨hpos, hlt, -⟩ := h.wrapped x rfl
      have hne : pre ++ post ≠ [] := by
        intro hnil
        obtain ⟨hi, lo, he, -, h2⟩ := h.wrapped_parts
        obtain ⟨-, rfl⟩ := List.append_eq_nil_iff.mp (he.symm.trans hnil)
        rcases h2.nil_inv with ⟨-, hx⟩ | ⟨hk, -⟩
        · omega
        · cases hk
      rw [if_neg (by omega)]
      by_cases hroom : s.outputReader ≤ getNextPacket g s.nextWriter len
      · rw [if_pos hroom]
        exact Or.inl ⟨rfl, hne⟩
      · rw [if_neg hroom]
        exact Or.inr (Or.inl ⟨rfl, by simp, fun _ _ => by omega⟩)

/-- `Packet_New` fails only on a ring with entries, and otherwise appends an unfinished packet
of the requested length.  It resets the readers only if there is no entry, and writes nothing
behind `RingBuffer.End[0]`. -/
theorem packetNew_spec (h : Rep g s pre post) (hl : len < 2 ^ 14)
    (hfit : pre ++ post = [] → packetUnits g len ≤ g.slots) :
    (packetNew g s len = some (none, s) ∧ pre ++ post ≠ []) ∨
    ∃ e s', packetNew g s len = some (some e.pos, s') ∧ e.status = .unfinished ∧ e.len = len ∧
      Rep g s' pre (post ++ [e]) ∧ (pre ++ post ≠ [] → s'.outputReader = s.outputReader) ∧
      SameFrom g s.mem s'.mem (g.slots + 1) := by
  obtain ⟨k, kr, h⟩ := h
  rcases allocateNew_cases h false 0 0 hfit with ⟨hr, hne⟩ | ⟨hr, hlin, hwrap⟩ |
    ⟨hr, rfl, hne, hroom⟩ | ⟨hr, hnil, hroom⟩
  · exact Or.inl ⟨hr, hne⟩
  · obtain ⟨e, hp, hst, hlen, hnext, hm⟩ := placed_new s.mem s.nextWriter hl
    have hL := h.pushHere hm hp (by rwa [hnext]) (by rwa [hnext])
    rw [hnext] at hL
    have hend : e.next g < g.slots + 1 := by
      rw [hnext]
      exact Nat.lt_succ_of_le hL.nextWriter_le
    exact Or.inr ⟨e, _, by rw [hp]; exact hr, hst, hlen, ⟨k, kr, hL⟩, fun _ => rfl,
      hm.sameFrom hend⟩
  · obtain ⟨e, hp, hst, hlen, hnext, hm⟩ :=
      placed_new (s.mem.setWord (stateAddr g s.nextWriter) State.startOver) 0 hl
    have hL := h.pushWrapped hm hp (by rwa [hnext])
    rw [hnext] at hL
    have hend : e.next g < g.slots + 1 := by
      rw [hnext]
      exact Nat.lt_succ_of_le hL.nextWriter_le
    exact Or.inr ⟨e, _, by rw [hp]; exact hr, hst, hlen, ⟨_, _, hL⟩, fun _ => rfl,
      (SameFrom.setWord (Nat.lt_succ_of_le h.nextWriter_le)).trans (hm.sameFrom hend)⟩
  · obtain ⟨e, hp, hst, hlen, hnext, hm⟩ := placed_new s.mem 0 hl
    have hL := Layout.pushReset hm hp (by rwa [hnext])
    rw [hnext] at hL
    obtain ⟨rfl, rfl⟩ := List.append_eq_nil_iff.mp hnil
    exact Or.inr ⟨e, _, by rw [hp]; exact hr, hst, hlen, ⟨none, none, hL⟩,
      fun hc => absurd rfl hc, hm.sameFrom (by rw [hnext]; exact Nat.lt_succ_of_le hroom)⟩

/-- The assertion of `allocateNew` fails exactly for a packet that is too long, on a ring whose
`OutputReader` has reached `NextWriter`. -/
theorem packetNew_eq_none : packetNew g s len = none ↔
    s.nextWriter = s.outputReader ∧ g.slots < packetUnits g len := by
  have hzero : getNextPacket g 0 len = packetUnits g len := Nat.zero_add _
  have hle : packetUnits g len ≤ getNextPacket g s.nextWriter len := Nat.le_add_left _ _
  simp only [packetNew, allocateNew]
  split_ifs <;> simp <;> omega

end allocate

/-! ### `Packet_PutInput`, `Packet_PutOutput` -/

section put

variable {g : Geometry} {s : Ring} {pre post : List Entry} {e : Entry}

/-- Finishing an unfinished packet sets its status. -/
theorem packetPut_spec (h : Rep g s pre post) (he : e ∈ pre ++ post) (hu : e.status = .unfinished)
    {flag : ℕ} {st : Status} (hst : st ≠ .skip) (hflag : e.len ||| flag = stateWord st e.len) :
    packetPut g flag s e.pos = some (s.setState g e.pos (stateWord st e.len)) ∧
      Rep g (s.setState g e.pos (stateWord st e.len)) (pre.map (setStatus e.pos st))
        (post.map (setStatus e.pos st)) := by
  obtain ⟨k, kr, h⟩ := h
  have hw : s.state g e.pos = e.word := (h.stored e he).word
  have hlen : e.word = e.len := by
    rw [Entry.word, hu]
    exact stateWord_unfinished _
  constructor
  · have h0 : e.word &&& State.skip = 0 := (e.word_and_skip .unfinished).mpr hu
    rw [packetPut, hw, if_pos h0, hlen, hflag]
  · refine ⟨k, kr, h.setState he st (fun hc => ?_)⟩
    exact hst ((stateWord_eq_startOver e.len_lt_max).mp hc).1

theorem packetPutInput_spec (h : Rep g s pre post) (he : e ∈ pre ++ post)
    (hu : e.status = .unfinished) :
    packetPutInput g s e.pos = some (s.setState g e.pos (stateWord .input e.len)) ∧
      Rep g (s.setState g e.pos (stateWord .input e.len)) (pre.map (setStatus e.pos .input))
        (post.map (setStatus e.pos .input)) :=
  packetPut_spec h he hu (by decide) (or_input e.len_lt_max)

theorem packetPutOutput_spec (h : Rep g s pre post) (he : e ∈ pre ++ post)
    (hu : e.status = .unfinished) :
    packetPutOutput g s e.pos = some (s.setState g e.pos (stateWord .output e.len)) ∧
      Rep g (s.setState g e.pos (stateWord .output e.len)) (pre.map (setStatus e.pos .output))
        (post.map (setStatus e.pos .output)) :=
  packetPut_spec h he hu (by decide) (or_output e.len_lt_max)

end put

end TimeSwitch.PacketBuffer
