import TimeSwitch.PacketReaders
import TimeSwitch.PacketWriters

/-! # Resizing a packet

`Packet_Resize` has five outcomes.  It keeps the slots of the packet, or it gives the slots that
are no longer needed back (as an entry of type `Skip`, or by moving `NextWriter` when the packet
is the last one), or it extends the last packet, or it allocates a new packet, copies the data
and marks the old packet `Skip`, or the ring is full.

When the last packet shrinks, `NextWriter` moves to a slot inside the old packet and nothing
marks this slot `EndOfRing`.  The specification has the hypothesis that the state word there is
`EndOfRing` already (`hstale`). -/

namespace TimeSwitch.PacketBuffer

open ByteMemory

/-! ### Replacing an entry -/

namespace Layout

variable {g : Geometry} {s : Ring} {k kr : Option ℕ} {pre post l₁ l₂ : List Entry} {e e' : Entry}
  {m : Mem}

/-- The slot behind the last entry is `NextWriter`, and only the last entry ends there. -/
theorem last_iff (h : Layout g s k kr pre (l₁ ++ e :: l₂)) :
    s.nextWriter = e.next g ↔ l₂ = [] := by
  obtain ⟨k₁, h1, h2⟩ := h.ahead.split_at
  have hk : ∀ x, k₁ = some x → k = some x := by
    rintro x rfl
    exact h.mark_of_ahead h1.mark_ahead
  constructor
  · intro hw
    by_contra hne
    obtain ⟨e', l, rfl, hx⟩ : ∃ e' l, l₂ = e' :: l := List.exists_cons_of_ne_nil hne
    rcases h2.cons_inv with ⟨hp, -⟩ | ⟨hm, -, -⟩
    · exact h.pos_ne_writer (e := e') (by simp) (hw.trans hp)
    · obtain rfl := hk _ hm
      have := h.mark_apart.1
      omega
  · rintro rfl
    rcases h2.nil_inv with ⟨-, hw⟩ | ⟨hm, -, hw⟩
    · exact hw
    · have := (h.wrapped _ (hk _ hm)).1
      omega

/-- Replace an entry by entries that tile the same slots. -/
theorem replace (h : Layout g s k kr pre (l₁ ++ e :: l₂)) {es : List Entry}
    (ht : ∀ k, RingTrail g k e.pos es k (e.next g)) (hs : ∀ e' ∈ es, Stored g m e')
    (hm : ∀ a b, (b ≤ e.pos ∨ e.next g ≤ a) → SameSlots g s.mem m a b) :
    Layout g { s with mem := m } k kr pre (l₁ ++ (es ++ l₂)) := by
  have hmem : e ∈ pre ++ (l₁ ++ e :: l₂) := by simp
  refine ⟨h.behind, h.ahead.replace ht, h.linear, h.wrapped, fun x hx => ?_, fun e' he' => ?_, ?_⟩
  · subst hx
    rw [(hm x (x + 1) (Or.inr (h.mark_apart.2 e hmem))).word_eq le_rfl (Nat.lt_succ_self x)]
    exact h.mark x rfl
  · have hkeep : ∀ e', e' ∈ pre ∨ e' ∈ l₁ ∨ e' ∈ l₂ → Stored g m e' := by
      intro e' he'
      have hmem' : e' ∈ pre ++ (l₁ ++ e :: l₂) := by
        simp only [List.mem_append, List.mem_cons]
        tauto
      have hne : e'.pos ≠ e.pos := by
        obtain ⟨h1, h2⟩ := h.pos_ne_of_split (List.append_assoc pre l₁ (e :: l₂)).symm
        rcases he' with he' | he' | he'
        · exact h1 e' (by simp [he'])
        · exact h1 e' (by simp [he'])
        · exact h2 e' he'
      refine (h.stored e' hmem').congr (hm _ _ ?_)
      exact h.apart hmem' hmem (fun heq => hne (heq ▸ rfl))
    simp only [List.mem_append] at he'
    rcases he' with he' | he' | he' | he'
    · exact hkeep e' (Or.inl he')
    · exact hkeep e' (Or.inr (Or.inl he'))
    · exact hs e' he'
    · exact hkeep e' (Or.inr (Or.inr he'))
  · have hw := h.writer_apart hmem
    rw [(hm _ (s.nextWriter + 1) (by omega)).word_eq le_rfl (Nat.lt_succ_self _)]
    exact h.writer

/-- Give the last entry another length, together with `NextWriter`. -/
theorem replaceLast (h : Layout g s k kr pre (l₁ ++ [e])) (hm : Placed g s.mem m e')
    (hp : e'.pos = e.pos) (hlin : k = none → e'.next g ≤ g.slots)
    (hwrap : ∀ x, k = some x → e'.next g < s.outputReader) :
    Layout g { s with mem := m, nextWriter := e'.next g } k kr pre (l₁ ++ [e']) := by
  have hlt := e'.pos_lt_next g
  have hlast : s.nextWriter = e.next g := h.last_iff.mpr rfl
  have hmem : e ∈ pre ++ (l₁ ++ [e]) := by simp
  have hfree : ∀ a ∈ pre ++ l₁, a.next g ≤ e'.pos ∨ e'.next g < a.pos := by
    intro a ha
    have hmem' : a ∈ pre ++ (l₁ ++ [e]) := by
      rw [← List.append_assoc]
      exact List.mem_append_left _ ha
    have hpos := (h.pos_ne_of_split (List.append_assoc pre l₁ [e]).symm).1 a ha
    have hlta := a.pos_lt_next g
    have hap := h.apart hmem' hmem (fun heq => hpos (heq ▸ rfl))
    unfold Entry.Apart at hap
    cases k with
    | none =>
        have := (h.linear_region.2 a hmem').2
        omega
    | some x =>
        have h1 := (h.wrapped_region.2.2 a hmem').2
        have h2 := hwrap x rfl
        omega
  refine ⟨h.behind, ?_, hlin, fun x hx => ?_, fun x hx => ?_, fun a ha => ?_, hm.behind⟩
  · obtain ⟨k₁, x₁, h1, h2⟩ := h.ahead.split
    refine h1.append ?_
    rcases h2.cons_inv with ⟨hx, h3⟩ | ⟨rfl, h0, -⟩
    · rcases h3.nil_inv with ⟨rfl, -⟩ | ⟨rfl, -, h0⟩
      · rw [hx, ← hp]
        exact .single none e'
      · have := (h.wrapped _ (h.mark_of_ahead h1.mark_ahead)).1
        omega
    · refine .jump ?_
      rw [← h0, ← hp]
      exact .single none e'
  · have h1 := h.wrapped x hx
    exact ⟨by dsimp only; omega, hwrap x hx, h1.2.2⟩
  · subst hx
    have h1 := hwrap x rfl
    have h2 := h.wrapped_region.1
    rw [(hm.outside x (x + 1) (by omega)).word_eq le_rfl (Nat.lt_succ_self x)]
    exact h.mark x rfl
  · rw [← List.append_assoc] at ha
    cases List.mem_append.mp ha with
    | inl ha =>
        refine (h.stored a ?_).congr (hm.outside _ _ (hfree a ha))
        rw [← List.append_assoc]
        exact List.mem_append_left _ ha
    | inr ha =>
        obtain rfl : a = e' := by simpa using ha
        exact hm.stored

end Layout

/-! ### The resized packet -/

section resize

variable {g : Geometry} {s : Ring} {k kr : Option ℕ} {pre l₁ l₂ : List Entry} {e : Entry}
  {len : ℕ}

/-- The remainder of a shrinking packet has a header, and its length is not mistaken for the
`StartOver` mark. -/
theorem remainder_len {p oldLen : ℕ} (h : getNextPacket g p len < getNextPacket g p oldLen)
    (hl : oldLen < 2 ^ 14) :
    let n := stateAddr g (getNextPacket g p oldLen) - dataAddr g (getNextPacket g p len)
    n < 0x3FFF ∧ getNextPacket g (getNextPacket g p len) n = getNextPacket g p oldLen := by
  unfold getNextPacket packetUnits divRoundUp stateAddr dataAddr at *
  rcases g.unit_eq with hu | hu <;> rw [hu] at h ⊢ <;> dsimp only <;> omega

/-- The state word is not part of the data. -/
theorem read_data_setWord (m : Mem) (p w n : ℕ) :
    (m.setWord (stateAddr g p) w).read (dataAddr g p) n = m.read (dataAddr g p) n :=
  Mem.read_setWord_disjoint (Or.inr le_rfl)

/-- The data of a packet of another length, in a memory that kept the common part. -/
theorem freshEntry_take {m : Mem} {p : ℕ} (hst : Stored g s.mem e) (hl : len < 2 ^ 14)
    (hm : m.read (dataAddr g p) (min e.len len) = s.mem.read (dataAddr g e.pos) (min e.len len)) :
    (freshEntry g m p len hl).data.take (min e.len len) = e.data.take (min e.len len) := by
  have h1 : (freshEntry g m p len hl).data = m.read (dataAddr g p) len := rfl
  rw [h1, ← hst.data, Mem.read_take, Mem.read_take]
  have e1 : min (min e.len len) len = min e.len len := by omega
  have e2 : min (min e.len len) e.len = min e.len len := by omega
  rw [e1, e2, hm]

/-- Another length in the state word, and nothing else changed in the packet up to the length. -/
theorem stored_fresh {m : Mem} {p : ℕ} (hl : len < 2 ^ 14) (hw : m.word (stateAddr g p) = len) :
    Stored g m (freshEntry g m p len hl) := by
  refine ⟨?_, ?_, ?_⟩
  · rw [freshEntry_pos, hw, Entry.word, freshEntry_len]
    exact (stateWord_unfinished len).symm
  · rw [freshEntry_len]
    rfl
  · intro hw
    cases ((stateWord_eq_startOver (Entry.len_lt_max _)).mp hw).1

/-- What `Packet_Resize` does in place: the packet keeps its slot and the data up to the shorter
length; behind it only entries of type `Skip` appear. -/
structure ResizedInPlace (g : Geometry) (s s' : Ring) (pre l₁ l₂ : List Entry) (e e' : Entry)
    (len : ℕ) : Prop where
  pos : e'.pos = e.pos
  status : e'.status = .unfinished
  length : e'.len = len
  data : e'.data.take (min e.len len) = e.data.take (min e.len len)
  reader : s'.outputReader = s.outputReader
  rep : ∃ rest, (∀ r ∈ rest, r.status = .skip) ∧ Rep g s' pre (l₁ ++ (e' :: rest ++ l₂))

/-- The packet shrinks, or keeps its slots, and is not the last one or keeps its slots. -/
theorem Layout.shrinkInside (h : Layout g s k kr pre (l₁ ++ e :: l₂)) (hl : len < 2 ^ 14)
    (hle : getNextPacket g e.pos len ≤ e.next g)
    (hlast : getNextPacket g e.pos len < e.next g → s.nextWriter ≠ e.next g) :
    ∃ e', ResizedInPlace g s ((splitRemainder g s (getNextPacket g e.pos len)
      (getNextPacket g e.pos e.len)).setState g e.pos len) pre l₁ l₂ e e' len := by
  have hmem : e ∈ pre ++ (l₁ ++ e :: l₂) := by simp
  have hst := h.stored e hmem
  have hlt := lt_getNextPacket g e.pos len
  have hda := dataAddr_add_le g e.pos len
  have hd : dataAddr g e.pos = stateAddr g e.pos + 2 := rfl
  have hold : getNextPacket g e.pos e.len = e.next g := rfl
  cases Nat.lt_or_eq_of_le hle with
  | inl hs =>
      -- the remainder becomes an entry of type `Skip`
      obtain ⟨hn, hnext⟩ := remainder_len (g := g) hs e.len_lt_max
      have hs' : getNextPacket g e.pos len < getNextPacket g e.pos e.len := hs
      have hw' : s.nextWriter ≠ getNextPacket g e.pos e.len := hlast hs
      rw [splitRemainder, if_pos hs', if_neg hw']
      obtain ⟨n, hnd⟩ : ∃ n, stateAddr g (getNextPacket g e.pos e.len) -
        dataAddr g (getNextPacket g e.pos len) = n := ⟨_, rfl⟩
      rw [hnd] at hn hnext ⊢
      rw [skip_or (by omega)]
      obtain ⟨m, hm⟩ : ∃ m, (s.mem.setWord (stateAddr g (getNextPacket g e.pos len))
        (stateWord .skip n)).setWord (stateAddr g e.pos) len = m := ⟨_, rfl⟩
      have hsep := stateAddr_add_le g hlt
      have hword : m.word (stateAddr g e.pos) = len := by
        rw [← hm]
        exact Mem.word_setWord_same (by omega)
      let r : Entry := ⟨getNextPacket g e.pos len, .skip,
        m.read (dataAddr g (getNextPacket g e.pos len)) n, by rw [Mem.read_length]; omega⟩
      have hrlen : r.len = n := Mem.read_length _ _ _
      have hrnext : r.next g = e.next g := by
        unfold Entry.next
        rw [hrlen]
        exact hnext
      have hrs : Stored g m r := by
        refine ⟨?_, ?_, ?_⟩
        · rw [← hm, Mem.word_setWord_disjoint (Or.inr hsep), Entry.word, hrlen]
          exact Mem.word_setWord_same (stateWord_lt (by omega))
        · rw [hrlen]
        · intro hw
          have := ((stateWord_eq_startOver r.len_lt_max).mp hw).2
          omega
      refine ⟨freshEntry g m e.pos len hl, rfl, rfl, freshEntry_len _ _ _, ?_, rfl, [r],
        by simp [r], ⟨k, kr, ?_⟩⟩
      · refine freshEntry_take hst hl ?_
        rw [← hm, read_data_setWord, Mem.read_setWord_disjoint (Or.inl ?_)]
        omega
      · have ht : ∀ k, RingTrail g k e.pos [freshEntry g m e.pos len hl, r] k (e.next g) := by
          intro k
          refine .visit rfl ?_
          rw [freshEntry_next, ← hrnext]
          exact .single k r
        have hall : ∀ e' ∈ [freshEntry g m e.pos len hl, r], Stored g m e' := by
          intro e' he'
          rcases List.mem_cons.mp he' with rfl | he'
          · exact stored_fresh hl hword
          · obtain rfl : e' = r := by simpa using he'
            exact hrs
        have hout : ∀ a b, (b ≤ e.pos ∨ e.next g ≤ a) → SameSlots g s.mem m a b := by
          intro a b hab
          rw [← hm]
          exact SameSlots.trans (SameSlots.setWord (by omega)) (SameSlots.setWord (by omega))
        have hL := h.replace ht hall hout
        rw [← hm] at hL ⊢
        exact hL
  | inr heq =>
      -- only the length changes
      rw [splitRemainder, if_neg (by omega)]
      refine ⟨freshEntry g (s.mem.setWord (stateAddr g e.pos) len) e.pos len hl, rfl, rfl,
        freshEntry_len _ _ _, ?_, rfl, [], by simp, ⟨k, kr, ?_⟩⟩
      · exact freshEntry_take hst hl (read_data_setWord _ _ _ _)
      · have ht : ∀ k, RingTrail g k e.pos
            [freshEntry g (s.mem.setWord (stateAddr g e.pos) len) e.pos len hl] k (e.next g) := by
          intro k
          rw [← heq, ← freshEntry_next (s.mem.setWord (stateAddr g e.pos) len) e.pos hl]
          exact .single k (freshEntry g _ e.pos len hl)
        refine h.replace ht (fun e' he' => ?_) (fun a b hab => SameSlots.setWord (by omega))
        obtain rfl := List.mem_singleton.mp he'
        exact stored_fresh hl (Mem.word_setWord_same (by omega))

/-- The last packet gets another length: it stays where it is and `NextWriter` follows. -/
theorem Layout.resizeLast (h : Layout g s k kr pre (l₁ ++ [e])) {m : Mem} (hl : len < 2 ^ 14)
    (hm : Placed g s.mem m (freshEntry g m e.pos len hl))
    (hread : m.read (dataAddr g e.pos) (min e.len len) =
      s.mem.read (dataAddr g e.pos) (min e.len len))
    (hlin : k = none → getNextPacket g e.pos len ≤ g.slots)
    (hwrap : ∀ x, k = some x → getNextPacket g e.pos len < s.outputReader) :
    ∃ e', ResizedInPlace g s { s with mem := m, nextWriter := getNextPacket g e.pos len }
      pre l₁ [] e e' len := by
  have hL := h.replaceLast hm rfl (by rwa [freshEntry_next]) (by rwa [freshEntry_next])
  rw [freshEntry_next] at hL
  refine ⟨freshEntry g m e.pos len hl, rfl, rfl, freshEntry_len _ _ _,
    freshEntry_take (h.stored e (by simp)) hl hread, rfl, [], by simp, ⟨k, kr, ?_⟩⟩
  exact hL

/-- The last packet shrinks, and the slot behind it happens to be marked `EndOfRing`. -/
theorem Layout.shrinkLast (h : Layout g s k kr pre (l₁ ++ [e])) (hl : len < 2 ^ 14)
    (hlt : getNextPacket g e.pos len < e.next g)
    (hstale : s.state g (getNextPacket g e.pos len) = State.endOfRing) :
    ∃ e', ResizedInPlace g s ((splitRemainder g s (getNextPacket g e.pos len)
      (getNextPacket g e.pos e.len)).setState g e.pos len) pre l₁ [] e e' len := by
  have hlast : s.nextWriter = getNextPacket g e.pos e.len := h.last_iff.mpr rfl
  have hlt' : getNextPacket g e.pos len < getNextPacket g e.pos e.len := hlt
  have hpos := lt_getNextPacket g e.pos len
  rw [splitRemainder, if_pos hlt', if_pos hlast]
  refine h.resizeLast (m := s.mem.setWord (stateAddr g e.pos) len) hl ⟨?_, ?_, ?_⟩
    (read_data_setWord _ _ _ _) (fun hk => ?_) (fun x hx => ?_)
  · exact stored_fresh hl (Mem.word_setWord_same (by omega))
  · rw [freshEntry_next, Mem.word_setWord_disjoint (Or.inr (stateAddr_add_le g hpos))]
    exact hstale
  · intro a b hab
    rw [freshEntry_next, freshEntry_pos] at hab
    exact SameSlots.setWord (by omega)
  · have := h.linear hk
    omega
  · have := (h.wrapped x hx).2.1
    omega

/-- The last packet is extended in place. -/
theorem Layout.extendLast (h : Layout g s k kr pre (l₁ ++ [e])) (hl : len < 2 ^ 14)
    (hlin : k = none → getNextPacket g e.pos len ≤ g.slots)
    (hwrap : ∀ x, k = some x → getNextPacket g e.pos len < s.outputReader) :
    ∃ e', ResizedInPlace g s { (s.setState g (getNextPacket g e.pos len)
      State.endOfRing).setState g e.pos len with nextWriter := getNextPacket g e.pos len }
      pre l₁ [] e e' len := by
  have hpos := lt_getNextPacket g e.pos len
  have hsep := stateAddr_add_le g hpos
  have hda := dataAddr_add_le g e.pos len
  have hcomm := Mem.setWord_comm s.mem (v := State.endOfRing) (w := len) (Or.inl hsep)
  refine h.resizeLast hl ?_ ?_ hlin hwrap
  · unfold Ring.setState
    dsimp only
    rw [hcomm]
    exact placed_fresh hl (Mem.word_setWord_same (by omega)) (fun a b hab =>
      SameSlots.setWord (by omega))
  · unfold Ring.setState
    dsimp only
    rw [hcomm, Mem.read_setWord_disjoint (Or.inl (by omega)), read_data_setWord]

/-! ### Moving the packet -/

/-- `placePacket` for a resize: mark the old packet `Skip` and place a copy of it. -/
theorem placePacket_resize {w : ℕ} (hst : Stored g s.mem e) (hl : len < 2 ^ 14)
    (hgt : e.len < len) (hfree : e.next g ≤ w ∨ getNextPacket g w len < e.pos) :
    ∃ e', e'.pos = w ∧ e'.status = .unfinished ∧ e'.len = len ∧
      e'.next g = getNextPacket g w len ∧ e'.data.take e.len = e.data ∧
      Placed g (s.mem.setWord (stateAddr g e.pos) (stateWord .skip e.len))
        (placePacket g s w (getNextPacket g w len) len true e.pos e.len).mem e' := by
  have hw := lt_getNextPacket g w len
  have hp := e.pos_lt_next g
  have hde := dataAddr_add_le g e.pos e.len
  have hdw := dataAddr_add_le g w len
  have hnext : stateAddr g (e.next g) = stateAddr g (getNextPacket g e.pos e.len) := rfl
  have ha : dataAddr g e.pos = stateAddr g e.pos + 2 := rfl
  have hb : dataAddr g w = stateAddr g w + 2 := rfl
  have hsep : stateAddr g (e.next g) ≤ stateAddr g w ∨
      stateAddr g (getNextPacket g w len) + 2 ≤ stateAddr g e.pos :=
    hfree.imp (stateAddr_mono g) (stateAddr_add_le g)
  -- the data that is copied
  have hcopy : ((s.setState g w len).setState g e.pos (State.skip ||| e.len)).data g e.pos e.len =
      e.data := by
    unfold Ring.data Ring.setState
    dsimp only
    rw [read_data_setWord, Mem.read_setWord_disjoint (by omega)]
    exact hst.data
  obtain ⟨m₁, hm₁⟩ : ∃ m₁, ((s.mem.setWord (stateAddr g e.pos) (stateWord .skip e.len)).setWord
    (stateAddr g w) len).blit (dataAddr g w) e.data = m₁ := ⟨_, rfl⟩
  have hmem : (placePacket g s w (getNextPacket g w len) len true e.pos e.len).mem =
      m₁.setWord (stateAddr g (getNextPacket g w len)) State.endOfRing := by
    unfold placePacket
    dsimp only
    rw [if_pos rfl, hcopy, skip_or e.len_lt_max]
    unfold Ring.write Ring.setState
    dsimp only
    rw [Mem.setWord_comm s.mem (by omega), hm₁]
  rw [hmem]
  have hlen : e.data.length = e.len := rfl
  refine ⟨freshEntry g _ w len hl, rfl, rfl, freshEntry_len _ _ _, freshEntry_next _ _ _, ?_,
    placed_fresh hl ?_ (fun a b hab => ?_)⟩
  · have hread : (m₁.setWord (stateAddr g (getNextPacket g w len)) State.endOfRing).read
        (dataAddr g w) e.len = e.data := by
      rw [Mem.read_setWord_disjoint (Or.inl (by omega)), ← hm₁]
      exact Mem.read_blit_same _ _ _
    have hdata : (freshEntry g (m₁.setWord (stateAddr g (getNextPacket g w len)) State.endOfRing)
        w len hl).data = (m₁.setWord (stateAddr g (getNextPacket g w len)) State.endOfRing).read
        (dataAddr g w) len := rfl
    rw [hdata, Mem.read_take, min_eq_left hgt.le, hread]
  · rw [← hm₁, Mem.word_blit_disjoint (Or.inl hb.ge)]
    exact Mem.word_setWord_same (by omega)
  · rw [← hm₁]
    refine SameSlots.trans (SameSlots.setWord (q := w) (w := len) (by omega)) ?_
    exact SameSlots.blit (q := w) (r := getNextPacket g w len) (by omega) (by omega) hab.symm

theorem Layout.map_setStatus_post (h : Layout g s k kr pre (l₁ ++ e :: l₂)) (st : Status) :
    pre.map (setStatus e.pos st) = pre ∧
      (l₁ ++ e :: l₂).map (setStatus e.pos st) = l₁ ++ e.withStatus st :: l₂ := by
  have hall := h.map_setStatus (List.append_assoc pre l₁ (e :: l₂)).symm st
  rw [List.map_append, List.append_assoc] at hall
  exact List.append_inj hall (List.length_map _)

/-- The packet is copied to another place and its old entry is marked `Skip`. -/
structure Relocated (g : Geometry) (s s' : Ring) (pre l₁ l₂ : List Entry) (e e' : Entry)
    (len : ℕ) : Prop where
  status : e'.status = .unfinished
  length : e'.len = len
  data : e'.data.take (min e.len len) = e.data.take (min e.len len)
  reader : s'.outputReader = s.outputReader
  rep : Rep g s' pre (l₁ ++ e.withStatus .skip :: (l₂ ++ [e']))

/-- `allocateNew` for a resize, on the ring that holds the packet. -/
theorem allocateNew_resize (h : Layout g s k kr pre (l₁ ++ e :: l₂)) (hl : len < 2 ^ 14)
    (hgt : e.len < len) :
    allocateNew g s s.nextWriter s.outputReader len true e.pos e.len = some (none, s) ∨
    ∃ e' s', allocateNew g s s.nextWriter s.outputReader len true e.pos e.len =
        some (some e'.pos, s') ∧ Relocated g s s' pre l₁ l₂ e e' len := by
  have hmem : e ∈ pre ++ (l₁ ++ e :: l₂) := by simp
  have hst := h.stored e hmem
  have hno : stateWord .skip e.len ≠ State.startOver := by
    intro hw
    have := ((stateWord_eq_startOver e.len_lt_max).mp hw).2
    omega
  obtain ⟨hpre, hpost⟩ := h.map_setStatus_post .skip
  have h' := h.setState hmem .skip hno
  rw [hpre, hpost] at h'
  have hdata : ∀ {e' : Entry}, e'.data.take e.len = e.data →
      e'.data.take (min e.len len) = e.data.take (min e.len len) := by
    intro e' hd
    rw [min_eq_left hgt.le, hd]
    exact (List.take_length).symm
  have hfit : pre ++ (l₁ ++ e :: l₂) = [] → packetUnits g len ≤ g.slots :=
    fun hnil => absurd hnil (by simp)
  rcases allocateNew_cases h true e.pos e.len hfit with ⟨hr, -⟩ |
    ⟨hr, hlin, hwrap⟩ | ⟨hr, rfl, -, hroom⟩ | ⟨-, hnil, -⟩
  · exact Or.inl hr
  · -- at `NextWriter`
    have hfree : e.next g ≤ s.nextWriter ∨ getNextPacket g s.nextWriter len < e.pos := by
      cases k with
      | none => exact Or.inl (h.linear_region.2 e hmem).2
      | some x =>
          have h1 := hwrap x rfl
          cases (h.wrapped_region.2.2 e hmem).2 with
          | inl h2 => exact Or.inr (by omega)
          | inr h2 => exact Or.inl h2
    obtain ⟨e', hp, hst', hlen, hnext, htake, hm⟩ := placePacket_resize hst hl hgt hfree
    have hL := h'.pushHere hm hp (by rwa [hnext]) (by rwa [hnext])
    rw [hnext] at hL
    refine Or.inr ⟨e', placePacket g s s.nextWriter (getNextPacket g s.nextWriter len) len true
      e.pos e.len, by rw [hp]; exact hr, hst', hlen, hdata htake, rfl, k, kr, ?_⟩
    rw [List.append_assoc] at hL
    exact hL
  · -- at slot 0, behind a new mark
    have hreg := h.linear_region.2 e hmem
    have hlt := e.pos_lt_next g
    have hfree : e.next g ≤ 0 ∨ getNextPacket g 0 len < e.pos := Or.inr (by omega)
    have hst₁ : Stored g (s.setState g s.nextWriter State.startOver).mem e :=
      hst.congr (SameSlots.setWord (Or.inr hreg.2))
    obtain ⟨e', hp, hst', hlen, hnext, htake, hm⟩ := placePacket_resize hst₁ hl hgt hfree
    have hcomm : ((s.setState g s.nextWriter State.startOver).mem.setWord (stateAddr g e.pos)
        (stateWord .skip e.len)) = (s.setState g e.pos (stateWord .skip e.len)).mem.setWord
        (stateAddr g s.nextWriter) State.startOver := by
      have hsep : stateAddr g e.pos + 2 ≤ stateAddr g s.nextWriter :=
        stateAddr_add_le g (by omega)
      exact Mem.setWord_comm s.mem (Or.inl hsep)
    rw [hcomm] at hm
    have hL := h'.pushWrapped hm hp (by rwa [hnext])
    rw [hnext] at hL
    refine Or.inr ⟨e', placePacket g (s.setState g s.nextWriter State.startOver) 0
      (getNextPacket g 0 len) len true e.pos e.len, by rw [hp]; exact hr, hst', hlen, hdata htake,
      rfl, some s.nextWriter, some s.nextWriter, ?_⟩
    rw [List.append_assoc] at hL
    exact hL
  · simp at hnil

/-! ### `Packet_Resize` -/

/-- The three ways to resize an unfinished packet. -/
theorem packetResize_unfinished (h : Layout g s k kr pre (l₁ ++ e :: l₂))
    (hu : e.status = .unfinished) : packetResize g s e.pos len =
      if getNextPacket g e.pos len ≤ e.next g then
        some (some e.pos, (splitRemainder g s (getNextPacket g e.pos len)
          (getNextPacket g e.pos e.len)).setState g e.pos len)
      else if e.next g = s.nextWriter ∧
        (if e.pos < s.outputReader then getNextPacket g e.pos len < s.outputReader
          else getNextPacket g e.pos len ≤ g.slots) then
        some (some e.pos,
          { (s.setState g (getNextPacket g e.pos len) State.endOfRing).setState g e.pos len with
            nextWriter := getNextPacket g e.pos len })
      else allocateNew g s s.nextWriter s.outputReader len true e.pos e.len := by
  have hw : s.state g e.pos = e.len := by
    rw [h.state_eq (by simp), Entry.word, hu]
    exact stateWord_unfinished _
  have h0 : e.len &&& State.skip = 0 := by
    have := (e.word_and_skip .unfinished).mpr hu
    rwa [Entry.word, hu, stateWord_unfinished] at this
  have hnext : getNextPacket g e.pos e.len = e.next g := rfl
  have hsplit : getNextPacket g e.pos len ≤ e.next g ∨
      splitRemainder g s (getNextPacket g e.pos len) (e.next g) = s := by
    by_cases hc : getNextPacket g e.pos len < e.next g
    · exact Or.inl hc.le
    · exact Or.inr (if_neg hc)
  simp only [packetResize, hw, h0, ne_eq, not_true_eq_false, if_false, hnext]
  by_cases hc : getNextPacket g e.pos len ≤ e.next g
  · rw [if_pos hc, if_pos hc]
  · rw [if_neg hc, if_neg hc, hsplit.resolve_left hc]

/-- A packet that needs more slots is longer. -/
theorem lt_of_getNextPacket_lt {p a b : ℕ} (h : getNextPacket g p a < getNextPacket g p b) : a < b := by
  by_contra hc
  have hle : getNextPacket g p b ≤ getNextPacket g p a := by
    unfold getNextPacket packetUnits divRoundUp
    exact Nat.add_le_add_left (Nat.div_le_div_right (by omega)) _
  omega

/-- `Packet_Resize` on an unfinished packet: the ring is full and unchanged, or the packet is
resized in place, or it is moved. -/
theorem packetResize_spec (h : Rep g s pre (l₁ ++ e :: l₂)) (hu : e.status = .unfinished)
    (hl : len < 2 ^ 14)
    (hstale : getNextPacket g e.pos len < e.next g → s.nextWriter = e.next g →
      s.state g (getNextPacket g e.pos len) = State.endOfRing) :
    packetResize g s e.pos len = some (none, s) ∨
    ∃ e' s', packetResize g s e.pos len = some (some e'.pos, s') ∧
      (ResizedInPlace g s s' pre l₁ l₂ e e' len ∨ Relocated g s s' pre l₁ l₂ e e' len) := by
  obtain ⟨k, kr, h⟩ := h
  have hmem : e ∈ pre ++ (l₁ ++ e :: l₂) := by simp
  rw [packetResize_unfinished h hu]
  by_cases hle : getNextPacket g e.pos len ≤ e.next g
  · -- shrink, or the same slots
    rw [if_pos hle]
    by_cases hlast : getNextPacket g e.pos len < e.next g ∧ s.nextWriter = e.next g
    · obtain rfl := h.last_iff.mp hlast.2
      obtain ⟨e', he'⟩ := h.shrinkLast hl hlast.1 (hstale hlast.1 hlast.2)
      exact Or.inr ⟨e', _, by rw [he'.pos], Or.inl he'⟩
    · obtain ⟨e', he'⟩ := h.shrinkInside hl hle (fun hlt hc => hlast ⟨hlt, hc⟩)
      exact Or.inr ⟨e', _, by rw [he'.pos], Or.inl he'⟩
  · rw [if_neg hle]
    by_cases hroom : e.next g = s.nextWriter ∧
        (if e.pos < s.outputReader then getNextPacket g e.pos len < s.outputReader
          else getNextPacket g e.pos len ≤ g.slots)
    · -- extend in place
      rw [if_pos hroom]
      obtain ⟨hlast, hroom⟩ := hroom
      obtain rfl := h.last_iff.mp hlast.symm
      have hlin : k = none → getNextPacket g e.pos len ≤ g.slots := by
        rintro rfl
        have := (h.linear_region.2 e hmem).1
        rwa [if_neg (by omega)] at hroom
      have hwrap : ∀ x, k = some x → getNextPacket g e.pos len < s.outputReader := by
        rintro x rfl
        have h1 := (h.wrapped x rfl).2.1
        have h2 := e.pos_lt_next g
        rwa [if_pos (by omega)] at hroom
      obtain ⟨e', he'⟩ := h.extendLast hl hlin hwrap
      exact Or.inr ⟨e', _, by rw [he'.pos], Or.inl he'⟩
    · rw [if_neg hroom]
      have hgt : e.len < len := lt_of_getNextPacket_lt (Nat.not_le.mp hle)
      rcases allocateNew_resize h hl hgt with hr | ⟨e', s', hr, hrel⟩
      · exact Or.inl hr
      · exact Or.inr ⟨e', s', hr, Or.inr hrel⟩

end resize

end TimeSwitch.PacketBuffer
