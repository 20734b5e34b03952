import TimeSwitch.Device

/-! # The ring between receiver, main loop and transmitter

The calls that the device makes on the ring, with what each of its parts holds: the receiver at
most one unfinished packet, which is the last one; the main loop an input packet; the transmitter
the first packet, an output packet.  `Account` is what the rest of the system needs to know, the
type and data of the finished packets in the order of the ring.

If the account is `strict`, `InputReader` has only passed packets of type `Output` and `Skip`.
A dropped packet breaks this when input packets wait in front of it, so there are runs with and
without it.  If it is `clean`, the ring has no entry of type `Skip`: each dropped packet was the
one at `OutputReader`, which then moves behind it.  `m₀` is the memory at program start: nothing
behind `RingBuffer.End[0]` changes. -/

namespace TimeSwitch.Usb

open PacketBuffer ByteMemory

/-- What the parts of the device hold. -/
structure Account where
  queue : List (Status × List UInt8)
  tx : Option ℕ
  held : Option ℕ
  strict : Bool
  clean : Bool

/-- What is demanded of the ring. -/
def Account.demands (a : Account) : Bool × Bool := (a.strict, a.clean)

/-- Type and data of the finished packets. -/
def queueOf (es : List Entry) : List (Status × List UInt8) :=
  (es.filter (fun e => e.status = .input ∨ e.status = .output)).map (fun e => (e.status, e.data))

/-- The packet under construction, its length and its first bytes. -/
abbrev Draft := Option (ℕ × ℕ × List UInt8)

/-- The last entry is the packet under construction, the others are finished. -/
def Under (u : Draft) (es : List Entry) : Prop :=
  match u with
  | none => ∀ e ∈ es, e.status ≠ .unfinished
  | some (p, len, w) => ∃ es' e, es = es' ++ [e] ∧ (∀ e' ∈ es', e'.status ≠ .unfinished) ∧
      e.pos = p ∧ e.status = .unfinished ∧ e.len = len ∧ w.length ≤ len ∧
      e.data.take w.length = w

/-- The entry at slot `p` is an input packet, with only output and skipped packets in front of it
if `strict`. -/
def Held (p : ℕ) (strict : Bool) (es : List Entry) : Prop :=
  ∃ l₁ e l₂, es = l₁ ++ e :: l₂ ∧ e.pos = p ∧ e.status = .input ∧
    (strict = true → ∀ e' ∈ l₁, e'.status = .output ∨ e'.status = .skip)

/-- No entry that `InputReader` has not passed is an input packet. -/
def Calm (post : List Entry) : Prop := ∀ e ∈ post, e.status ≠ .input

/-- `Packet_GetInput` finds no packet. -/
def NoInput (g : Geometry) (s : Ring) : Prop := ∃ s', packetGetInput g s = some (none, s')

/-- The ring with the entries `pre` and `post`, the account `a` and the draft `u`. -/
structure RingInv (g : Geometry) (m₀ : Mem) (s : Ring) (a : Account) (u : Draft)
    (pre post : List Entry) : Prop where
  rep : Rep g s pre post
  queue : queueOf (pre ++ post) = a.queue
  tx : ∀ p, a.tx = some p → s.outputReader = p ∧ ∃ e ∈ pre ++ post, e.pos = p ∧ e.status = .output
  held : ∀ p, a.held = some p → Held p a.strict (pre ++ post)
  strict : a.strict = true → ∀ e ∈ pre, e.status = .output ∨ e.status = .skip
  clean : a.clean = true → ∀ e ∈ pre ++ post, e.status ≠ .skip
  under : Under u (pre ++ post)
  short : ∀ e ∈ pre ++ post, e.len ≤ packetLenMax
  frame : SameFrom g m₀ s.mem (g.slots + 1)

/-- The ring has the account `a` and the draft `u`. -/
def Holds (g : Geometry) (m₀ : Mem) (s : Ring) (a : Account) (u : Draft) : Prop :=
  ∃ pre post, RingInv g m₀ s a u pre post

/-- No packet is under construction. -/
def Idle (g : Geometry) (m₀ : Mem) (s : Ring) (a : Account) : Prop := Holds g m₀ s a none

/-- The packet at slot `p` is under construction. -/
def Building (g : Geometry) (m₀ : Mem) (s : Ring) (a : Account) (p len : ℕ) (w : List UInt8) :
    Prop := Holds g m₀ s a (some (p, len, w))

/-- The account after a packet was put into the input chain. -/
def Account.push (a : Account) (w : List UInt8) : Account :=
  { a with queue := a.queue ++ [(.input, w)] }

/-- The unfinished packet `p` may be released. -/
def Account.Drop (s : Ring) (a : Account) (p : ℕ) : Prop :=
  (a.strict = true → ∀ x ∈ a.queue, x.1 ≠ .input) ∧ (a.clean = true → s.outputReader = p)

/-- Where nothing is demanded, every unfinished packet may be released. -/
theorem Account.drop_of_lax {a : Account} (h : a.demands = (false, false)) (s : Ring) (p : ℕ) :
    a.Drop s p :=
  ⟨fun hs => absurd ((congrArg Prod.fst h).symm.trans hs) (by decide),
    fun hc => absurd ((congrArg Prod.snd h).symm.trans hc) (by decide)⟩

/-! ### Lists of entries -/

section lists

variable {es : List Entry} {e : Entry}

theorem queueOf_append (l₁ l₂ : List Entry) : queueOf (l₁ ++ l₂) = queueOf l₁ ++ queueOf l₂ := by
  simp [queueOf]

theorem queueOf_cons (h : e.status = .input ∨ e.status = .output) :
    queueOf (e :: es) = (e.status, e.data) :: queueOf es := by
  unfold queueOf
  rw [List.filter_cons_of_pos (by simpa using h), List.map_cons]

theorem queueOf_cons_other (h : e.status = .unfinished ∨ e.status = .skip) :
    queueOf (e :: es) = queueOf es := by
  unfold queueOf
  rw [List.filter_cons_of_neg]
  rcases h with h | h <;> simp [h]

theorem queueOf_skip (h : ∀ e ∈ es, e.status = .skip) : queueOf es = [] := by
  unfold queueOf
  rw [List.filter_eq_nil_iff.mpr]
  · rfl
  · intro e he
    simp [h e he]

theorem mem_queueOf (he : e ∈ es) (h : e.status = .input ∨ e.status = .output) :
    (e.status, e.data) ∈ queueOf es :=
  List.mem_map.mpr ⟨e, List.mem_filter.mpr ⟨he, by simpa using h⟩, rfl⟩

/-- A finished packet that is neither input nor output is of type `Skip`. -/
theorem Status.output_or_skip {st : Status} (hu : st ≠ .unfinished) (hi : st ≠ .input) :
    st = .output ∨ st = .skip := by
  cases st <;> simp_all

/-- Where the last entry of two blocks lies. -/
theorem append_last_cases {l₁ l₂ : List Entry} (h : l₁ ++ l₂ = es ++ [e]) :
    l₂ = [] ∧ l₁ = es ++ [e] ∨ ∃ l, l₂ = l ++ [e] ∧ es = l₁ ++ l := by
  rcases List.eq_nil_or_concat l₂ with rfl | ⟨l, y, rfl⟩
  · exact Or.inl ⟨rfl, by simpa using h⟩
  · rw [List.concat_eq_append, ← List.append_assoc] at h
    obtain ⟨rfl, hy⟩ := List.append_inj' h rfl
    obtain rfl : y = e := by simpa using hy
    exact Or.inr ⟨l, List.concat_eq_append, rfl⟩

end lists

section laws

variable {g : Geometry} {m₀ : Mem} {s s' : Ring} {a : Account} {u : Draft} {pre post : List Entry}
  {p len : ℕ} {w bs : List UInt8}

/-- Writing the state or the data of an entry does not reach behind the ring. -/
theorem RingInv.frame_entry (h : RingInv g m₀ s a u pre post) {e : Entry} (he : e ∈ pre ++ post)
    {m : Mem} (hm : ∀ x, stateAddr g (e.next g) ≤ x → m x = s.mem x) :
    SameFrom g m₀ m (g.slots + 1) := by
  obtain ⟨k, kr, hL⟩ := h.rep
  have hle := stateAddr_mono g (show e.next g ≤ g.slots + 1 by have := hL.entry_le he; omega)
  exact fun x hx => (hm x (hle.trans hx)).trans (h.frame x hx)

theorem stateAddr_next_le (g : Geometry) (e : Entry) : stateAddr g e.pos + 2 ≤ stateAddr g (e.next g) :=
  stateAddr_add_le g (e.pos_lt_next g)

theorem RingInv.frame_setState (h : RingInv g m₀ s a u pre post) {e : Entry}
    (he : e ∈ pre ++ post) (v : ℕ) :
    SameFrom g m₀ (s.mem.setWord (stateAddr g e.pos) v) (g.slots + 1) := by
  refine h.frame_entry he (fun x hx => Mem.setWord_apply_outside ?_)
  have := stateAddr_next_le g e
  omega

/-! ### The receiver's calls -/

/-- Where `Packet_New` returns, the packet is not larger than an empty ring. -/
theorem RingInv.fits (h : RingInv g m₀ s a none pre post) {r : Option ℕ × Ring}
    (hr : packetNew g s len = some r) : pre ++ post = [] → packetUnits g len ≤ g.slots := by
  intro hnil
  by_contra hc
  have hmeet : s.nextWriter = s.outputReader := by
    obtain ⟨k, kr, hL⟩ := h.rep
    have ht := hL.trail
    rw [hnil] at ht
    rcases ht.nil_inv with ⟨-, hw⟩ | ⟨hk, -, hw⟩
    · exact hw
    · have := (hL.wrapped _ hk).1
      omega
  rw [packetNew_eq_none.mpr ⟨hmeet, by omega⟩] at hr
  cases hr

/-- What is new when a packet was allocated. -/
theorem RingInv.new (h : RingInv g m₀ s a none pre post) (hmax : len ≤ packetLenMax)
    (hr : packetNew g s len = some (some p, s')) :
    ∃ post', RingInv g m₀ s' a (some (p, len, [])) pre post' ∧ (Calm post → Calm post') := by
  have hl : len < 2 ^ 14 := lt_of_le_of_lt hmax (by decide)
  rcases packetNew_spec h.rep hl (h.fits hr) with ⟨hr', -⟩ | ⟨e, s₁, hr', hu, hlen, hrep, hor, hmem⟩
  · cases hr.symm.trans hr'
  · obtain ⟨hp, rfl⟩ := Prod.mk.inj (Option.some.inj (hr.symm.trans hr'))
    obtain rfl := Option.some.inj hp
    have hall : pre ++ (post ++ [e]) = pre ++ post ++ [e] := (List.append_assoc _ _ _).symm
    refine ⟨post ++ [e], ⟨hrep, ?_, fun q hq => ?_, fun q hq => ?_, h.strict, fun hc => ?_, ?_, ?_,
      h.frame.trans hmem⟩, fun hc e' he' => ?_⟩
    · rw [hall, queueOf_append, queueOf_cons_other (Or.inl hu), h.queue]
      exact List.append_nil _
    · obtain ⟨ho, e', he', hp', hst⟩ := h.tx q hq
      refine ⟨(hor (List.ne_nil_of_mem he')).trans ho, e', ?_, hp', hst⟩
      rw [hall]
      exact List.mem_append_left _ he'
    · obtain ⟨l₁, e', l₂, hes, hp', hst, hpass⟩ := h.held q hq
      refine ⟨l₁, e', l₂ ++ [e], ?_, hp', hst, hpass⟩
      rw [hall, hes]
      simp
    · rw [hall, List.forall_mem_append, List.forall_mem_singleton, hu]
      exact ⟨h.clean hc, by decide⟩
    · rw [hall]
      exact ⟨_, e, rfl, h.under, rfl, hu, hlen, Nat.zero_le _, rfl⟩
    · intro e' he'
      rw [hall] at he'
      cases List.mem_append.mp he' with
      | inl he' => exact h.short e' he'
      | inr he' =>
          rw [List.mem_singleton.mp he', hlen]
          exact hmax
    · cases List.mem_append.mp he' with
      | inl he' => exact hc e' he'
      | inr he' =>
          rw [List.mem_singleton.mp he', hu]
          decide

/-- `Packet_New` finds no space only on a ring with entries, and if none of them is of type `Skip`
one is a finished packet. -/
theorem RingInv.full (h : RingInv g m₀ s a none pre post) (hmax : len ≤ packetLenMax)
    (hclean : a.clean = true) (hr : packetNew g s len = some (none, s')) : a.queue ≠ [] := by
  have hl : len < 2 ^ 14 := lt_of_le_of_lt hmax (by decide)
  have hne : pre ++ post ≠ [] := by
    rcases packetNew_spec h.rep hl (h.fits hr) with ⟨-, hne⟩ | ⟨e, s₁, hr', -⟩
    · exact hne
    · cases hr.symm.trans hr'
  obtain ⟨e, es, hes⟩ := List.exists_cons_of_ne_nil hne
  have he : e ∈ pre ++ post := by rw [hes]; exact List.mem_cons_self
  have hst : e.status = .input ∨ e.status = .output := by
    cases hc : e.status with
    | unfinished => exact absurd hc (h.under e he)
    | skip => exact absurd hc (h.clean hclean e he)
    | input => exact Or.inl rfl
    | output => exact Or.inr rfl
  rw [← h.queue]
  exact List.ne_nil_of_mem (mem_queueOf he hst)

/-- The draft is an entry of the ring, and the only one at its slot. -/
theorem RingInv.draft (h : RingInv g m₀ s a (some (p, len, w)) pre post) :
    ∃ es e, pre ++ post = es ++ [e] ∧ (∀ e' ∈ es, e'.status ≠ .unfinished) ∧ e.pos = p ∧
      e.status = .unfinished ∧ e.len = len ∧ w.length ≤ len ∧ e.data.take w.length = w ∧
      (∀ e' ∈ es, e'.pos ≠ p) ∧ e ∈ pre ++ post := by
  obtain ⟨es, e, hall, hfin, hp, hu, hlen, hw, hdata⟩ := h.under
  obtain ⟨k, kr, hL⟩ := h.rep
  refine ⟨es, e, hall, hfin, hp, hu, hlen, hw, hdata, ?_, by rw [hall]; simp⟩
  rw [← hp]
  exact (hL.pos_ne_of_split hall).1

/-- Changes of the draft leave the other entries alone. -/
theorem map_draft {f : Entry → Entry} {es : List Entry} {e : Entry} {pre post : List Entry}
    (hall : pre ++ post = es ++ [e]) (hf : ∀ e' ∈ es, f e' = e') :
    pre.map f ++ post.map f = es ++ [f e] := by
  rw [← List.map_append, hall, List.map_append, List.map_singleton,
    List.map_congr_left hf, List.map_id']

/-- `InputReader` stays among the finished entries. -/
theorem map_strict {f : Entry → Entry} {st : Bool}
    (h : st = true → ∀ e ∈ pre, e.status = .output ∨ e.status = .skip)
    (hf : ∀ e ∈ pre, e.status ≠ .unfinished → (f e).status = e.status) :
    st = true → ∀ e ∈ pre.map f, e.status = .output ∨ e.status = .skip := by
  intro hst e he
  obtain ⟨e', he', rfl⟩ := List.mem_map.mp he
  have hs := h hst e' he'
  rw [hf e' he' (by rcases hs with hs | hs <;> rw [hs] <;> decide)]
  exact hs

/-- The transmitter's and the main loop's packets are not the draft. -/
theorem Held.congr_last {q : ℕ} {st : Bool} {es : List Entry} {e e' : Entry}
    (h : Held q st (es ++ [e])) (he : e.status ≠ .input) : Held q st (es ++ [e']) := by
  obtain ⟨l₁, x, l₂, hes, hp, hst, hpass⟩ := h
  have hlast : l₁ ++ [x] ++ l₂ = es ++ [e] := by rw [← List.append_cons, hes]
  rcases append_last_cases hlast with ⟨-, hx⟩ | ⟨l, -, rfl⟩
  · obtain rfl : x = e := by simpa using (List.append_inj' hx rfl).2
    exact absurd hst he
  · exact ⟨l₁, x, l ++ [e'], by simp, hp, hst, hpass⟩

theorem tx_congr_last {q : ℕ} {es : List Entry} {e e' : Entry}
    (h : ∃ x ∈ es ++ [e], x.pos = q ∧ x.status = .output) (he : e.status ≠ .output) :
    ∃ x ∈ es ++ [e'], x.pos = q ∧ x.status = .output := by
  obtain ⟨x, hx, hp, hst⟩ := h
  cases List.mem_append.mp hx with
  | inl hx => exact ⟨x, List.mem_append_left _ hx, hp, hst⟩
  | inr hx =>
      rw [List.mem_singleton.mp hx] at hst
      exact absurd hst he

/-! What stays if only the last entry changes, which is unfinished. -/

section last

variable {es : List Entry} {e e' : Entry} {q : ℕ}

theorem RingInv.queue_last (h : RingInv g m₀ s a u pre post) (hall : pre ++ post = es ++ [e])
    (hu : e.status = .unfinished) : queueOf es = a.queue := by
  rw [← h.queue, hall, queueOf_append, queueOf_cons_other (Or.inl hu)]
  exact (List.append_nil _).symm

theorem RingInv.tx_last (h : RingInv g m₀ s a u pre post) (hall : pre ++ post = es ++ [e])
    (hu : e.status = .unfinished) (hq : a.tx = some q) :
    s.outputReader = q ∧ ∃ x ∈ es ++ [e'], x.pos = q ∧ x.status = .output := by
  obtain ⟨ho, htx⟩ := h.tx q hq
  rw [hall] at htx
  exact ⟨ho, tx_congr_last htx (by rw [hu]; decide)⟩

theorem RingInv.held_last (h : RingInv g m₀ s a u pre post) (hall : pre ++ post = es ++ [e])
    (hu : e.status = .unfinished) (hq : a.held = some q) : Held q a.strict (es ++ [e']) := by
  have hh := h.held q hq
  rw [hall] at hh
  exact hh.congr_last (by rw [hu]; decide)

theorem RingInv.short_last (h : RingInv g m₀ s a u pre post) (hall : pre ++ post = es ++ [e])
    (hlen : e'.len = e.len) : ∀ x ∈ es ++ [e'], x.len ≤ packetLenMax := by
  have hshort := h.short
  rw [hall, List.forall_mem_append, List.forall_mem_singleton] at hshort
  rw [List.forall_mem_append, List.forall_mem_singleton, hlen]
  exact hshort

theorem RingInv.clean_last (h : RingInv g m₀ s a u pre post) (hall : pre ++ post = es ++ [e])
    (hc : a.clean = true) (he' : e'.status ≠ .skip) : ∀ x ∈ es ++ [e'], x.status ≠ .skip := by
  have hclean := h.clean hc
  rw [hall, List.forall_mem_append] at hclean
  rw [List.forall_mem_append, List.forall_mem_singleton]
  exact ⟨hclean.1, he'⟩

theorem finished_last (hfin : ∀ x ∈ es, x.status ≠ .unfinished) (he : e.status ≠ .unfinished) :
    ∀ x ∈ es ++ [e], x.status ≠ .unfinished := by
  rw [List.forall_mem_append, List.forall_mem_singleton]
  exact ⟨hfin, he⟩

end last

/-- Writing into the draft. -/
theorem RingInv.write (h : RingInv g m₀ s a (some (p, len, w)) pre post)
    (hfit : w.length + bs.length ≤ len) :
    ∃ pre' post', RingInv g m₀ (s.write (dataAddr g p + w.length) bs) a
      (some (p, len, w ++ bs)) pre' post' ∧ (Calm post → Calm post') := by
  obtain ⟨es, e, hall, hfin, rfl, hu, hlen, hw, hdata, hne, hmem⟩ := h.draft
  obtain ⟨k, kr, hL⟩ := h.rep
  have hi : w.length + bs.length ≤ e.len := by omega
  have hL' := hL.write hmem hi
  have hsame : ∀ e' ∈ es, setData e.pos w.length bs e' = e' :=
    fun e' he' => setData_of_ne (hne e' he')
  have hmap := map_draft (f := setData e.pos w.length bs) hall hsame
  have hnew : (setData e.pos w.length bs e).status = .unfinished := by rw [setData_status, hu]
  refine ⟨_, _, ⟨⟨k, kr, hL'⟩, ?_, fun q hq => ?_, fun q hq => ?_,
    map_strict h.strict (fun _ _ _ => setData_status _ _ _ _), fun hc => ?_, ?_, ?_, ?_⟩,
    fun hc x hx => ?_⟩
  · rw [hmap, queueOf_append, queueOf_cons_other (Or.inl hnew), h.queue_last hall hu]
    exact List.append_nil _
  · rw [hmap]
    exact h.tx_last hall hu hq
  · rw [hmap]
    exact h.held_last hall hu hq
  · rw [hmap]
    exact h.clean_last hall hc (by rw [hnew]; decide)
  · rw [hmap]
    refine ⟨es, _, rfl, hfin, setData_pos _ _ _ _, hnew, ?_, ?_, ?_⟩
    · rw [setData_len, hlen]
    · rw [List.length_append]
      exact hfit
    · have hl : (e.data.take w.length).length = w.length := by
        have hd : e.data.length = e.len := rfl
        rw [List.length_take]
        omega
      rw [setData_same hi, Mem.splice, hdata, List.length_append, List.take_left' (by simp)]
  · rw [hmap]
    exact h.short_last hall (setData_len _ _ _ _)
  · refine h.frame_entry hmem (fun x hx => Mem.blit_apply_outside ?_)
    have hend := dataAddr_add_le g e.pos e.len
    have hn : stateAddr g (e.next g) = stateAddr g (getNextPacket g e.pos e.len) := rfl
    omega
  · obtain ⟨e', he', rfl⟩ := List.mem_map.mp hx
    rw [setData_status]
    exact hc e' he'

/-- The complete draft is put into the input chain. -/
theorem RingInv.put (h : RingInv g m₀ s a (some (p, len, w)) pre post) (hw : w.length = len) :
    ∃ s', packetPutInput g s p = some s' ∧
      ∃ pre' post', RingInv g m₀ s' (a.push w) none pre' post' := by
  obtain ⟨es, e, hall, hfin, rfl, hu, hlen, -, hdata, hne, hmem⟩ := h.draft
  obtain ⟨hr, hrep⟩ := packetPutInput_spec h.rep hmem hu
  have hsame : ∀ e' ∈ es, setStatus e.pos .input e' = e' :=
    fun e' he' => setStatus_of_ne (hne e' he')
  have hmap := map_draft (f := setStatus e.pos .input) hall hsame
  rw [setStatus_same] at hmap
  have hw' : e.data = w := by
    have hl : e.data.length = w.length := hlen.trans hw.symm
    rw [← hdata, ← hl, List.take_length]
  refine ⟨_, hr, _, _, hrep, ?_, fun q hq => ?_, fun q hq => ?_, ?_, fun hc => ?_, ?_, ?_, ?_⟩
  · rw [hmap, queueOf_append, queueOf_cons (Or.inl rfl), h.queue_last hall hu]
    show a.queue ++ [(Status.input, e.data)] = a.queue ++ [(Status.input, w)]
    rw [hw']
  · rw [hmap]
    exact h.tx_last hall hu hq
  · rw [hmap]
    exact h.held_last hall hu hq
  · refine map_strict h.strict (fun e' he' hn => ?_)
    have hmem' : e' ∈ es ++ [e] := by
      rw [← hall]
      exact List.mem_append_left _ he'
    cases List.mem_append.mp hmem' with
    | inl he' => rw [hsame e' he']
    | inr he' =>
        rw [List.mem_singleton.mp he'] at hn
        exact absurd hu hn
  · rw [hmap]
    exact h.clean_last hall hc (by rw [Entry.withStatus_status]; decide)
  · rw [hmap]
    exact finished_last hfin (by rw [Entry.withStatus_status]; decide)
  · rw [hmap]
    exact h.short_last hall (Entry.withStatus_len _ _)
  · exact h.frame_setState hmem _

/-- The draft is released. -/
theorem RingInv.release (h : RingInv g m₀ s a (some (p, len, w)) pre post) (hd : a.Drop s p) :
    ∃ pre', RingInv g m₀ (packetReleaseInput g s p) a none pre' [] := by
  obtain ⟨es, e, hall, hfin, rfl, hu, hlen, -, -, hne, hmem⟩ := h.draft
  have hmax : e.len = 0x3FFF → s.outputReader = e.pos := by
    intro hl
    have := h.short e hmem
    have h590 : packetLenMax = 590 := rfl
    omega
  have hq := h.queue_last hall hu
  have hold : e.status ≠ .output ∧ e.status ≠ .input := by rw [hu]; decide
  have hout : ∀ q, a.tx = some q → s.outputReader ≠ e.pos := by
    intro q hq' ho
    obtain ⟨ho', x, hx, hxp, hxs⟩ := h.tx q hq'
    rw [hall] at hx
    cases List.mem_append.mp hx with
    | inl hx => exact hne x hx (by rw [hxp, ← ho', ho])
    | inr hx =>
        rw [List.mem_singleton.mp hx] at hxs
        exact hold.1 hxs
  have hframe : SameFrom g m₀ (packetReleaseInput g s e.pos).mem (g.slots + 1) := by
    unfold packetReleaseInput
    dsimp only
    split_ifs
    · exact h.frame
    · exact h.frame_setState hmem _
  rcases packetReleaseInput_spec h.rep hall hmax with ⟨ho, rfl, hrep⟩ | ⟨ho, hrep⟩
  · -- the ring is empty
    refine ⟨[], hrep, ?_, fun q hq' => absurd ho (hout q hq'), fun q hq' => ?_, by simp, by simp,
      by simp [Under], by simp, hframe⟩
    · rw [← hq]
      rfl
    · obtain ⟨l₁, x, l₂, hes, hxp, hxs, -⟩ := h.held q hq'
      have hx : x ∈ ([] : List Entry) ++ [e] := by rw [← hall, hes]; simp
      rw [List.nil_append, List.mem_singleton] at hx
      rw [hx] at hxs
      exact absurd hxs hold.2
  · refine ⟨_, hrep, ?_, fun q hq' => ?_, fun q hq' => ?_, fun hst e' he' => ?_,
      fun hc => absurd (hd.2 hc) ho, ?_, ?_, hframe⟩
    · rw [List.append_nil, queueOf_append, queueOf_cons_other (Or.inr rfl), hq]
      exact List.append_nil _
    · obtain ⟨ho', htx⟩ := h.tx_last hall hu hq'
      rw [List.append_nil]
      refine ⟨?_, htx⟩
      unfold packetReleaseInput
      dsimp only
      rw [if_neg ho]
      exact ho'
    · rw [List.append_nil]
      exact h.held_last hall hu hq'
    · cases List.mem_append.mp he' with
      | inl he' =>
          refine Status.output_or_skip (hfin e' he') (fun hin => ?_)
          refine hd.1 hst (e'.status, e'.data) ?_ hin
          rw [← hq]
          exact mem_queueOf he' (Or.inl hin)
      | inr he' =>
          rw [List.mem_singleton.mp he']
          exact Or.inr rfl
    · rw [List.append_nil]
      exact finished_last hfin (by rw [Entry.withStatus_status]; decide)
    · rw [List.append_nil]
      exact h.short_last hall (Entry.withStatus_len _ _)

/-- A failed `Packet_New` leaves the ring as it is. -/
theorem packetNew_none_same (hr : packetNew g s len = some (none, s')) : s' = s := by
  unfold packetNew allocateNew at hr
  dsimp only at hr
  split_ifs at hr <;> first | exact (Prod.mk.inj (Option.some.inj hr)).2.symm | cases hr

/-- The ring as the receiver's store. -/
theorem ring_laws (g : Geometry) (m₀ : Mem) :
    BuildLaws (ringInput g) Account.push (Idle g m₀) (Building g m₀)
      (fun s a p => a.Drop s p) where
  new_none := by
    intro st st' a L hidle _ _ hr
    rw [packetNew_none_same hr]
    exact hidle
  new_some := by
    rintro st st' a L p ⟨pre, post, h⟩ _ hmax hr
    obtain ⟨post', h', -⟩ := h.new hmax hr
    exact ⟨pre, post', h'⟩
  write := by
    rintro st a p L w bs ⟨pre, post, h⟩ hfit _
    obtain ⟨pre', post', h', -⟩ := h.write hfit
    exact ⟨pre', post', h'⟩
  put := by
    rintro st a p L w ⟨pre, post, h⟩ hw
    exact h.put hw
  drop := id
  release := by
    rintro st a p L w ⟨pre, post, h⟩ _ hd
    obtain ⟨pre', h'⟩ := h.release hd
    exact ⟨pre', [], h'⟩

/-! ### The main loop's calls -/

/-- Finished entries may be forgotten. -/
theorem Under.drop {d es : List Entry} (hd : ∀ e ∈ d, e.status ≠ .unfinished)
    (h : Under u (d ++ es)) : Under u es := by
  cases u with
  | none => exact fun e he => h e (List.mem_append_right _ he)
  | some x =>
      obtain ⟨p, len, w⟩ := x
      obtain ⟨l, e, hall, hfin, hp, hu, hrest⟩ := h
      rcases append_last_cases hall with ⟨-, rfl⟩ | ⟨es', rfl, rfl⟩
      · exact absurd hu (hd e (by simp))
      · exact ⟨es', e, rfl, fun e' he' => hfin e' (List.mem_append_right _ he'), hp, hu, hrest⟩

theorem Held.drop {q : ℕ} {st : Bool} {d es : List Entry} (hd : ∀ e ∈ d, e.status ≠ .input)
    (h : Held q st (d ++ es)) : Held q st es := by
  obtain ⟨l₁, e, l₂, hall, hp, hst, hpass⟩ := h
  rcases List.append_eq_append_iff.mp hall with ⟨m, rfl, rfl⟩ | ⟨m, rfl, hm⟩
  · exact ⟨m, e, l₂, rfl, hp, hst, fun hs e' he' => hpass hs e' (List.mem_append_right _ he')⟩
  · cases m with
    | nil => exact ⟨[], e, l₂, by simpa using hm.symm, hp, hst, fun _ _ he' => by cases he'⟩
    | cons y m =>
        obtain ⟨rfl, -⟩ := List.cons.inj hm
        exact absurd hst (hd e (by simp))

/-- The readers keep the invariant. -/
theorem RingInv.advanced (h : RingInv g m₀ s a u pre post) {pre' post' : List Entry}
    (hrep : Rep g s' pre' post') (hA : Advanced pre post pre' post') (hmem : s'.mem = s.mem)
    (htx : ∀ q, a.tx = some q → s'.outputReader = q) : RingInv g m₀ s' a u pre' post' := by
  obtain ⟨d, hall, hskip⟩ := hA.all_eq
  have hsub : ∀ e ∈ pre' ++ post', e ∈ pre ++ post := by
    intro e he
    rw [hall]
    exact List.mem_append_right _ he
  refine ⟨hrep, ?_, fun q hq => ?_, fun q hq => ?_, fun hst => ?_,
    fun hc e he => h.clean hc e (hsub e he), ?_, fun e he => h.short e (hsub e he),
    by rw [hmem]; exact h.frame⟩
  · rw [← h.queue, hall, queueOf_append d, queueOf_skip hskip, List.nil_append]
  · obtain ⟨-, e, he, hp, hst⟩ := h.tx q hq
    refine ⟨htx q hq, e, ?_, hp, hst⟩
    rw [hall] at he
    refine (List.mem_append.mp he).resolve_left (fun hc => ?_)
    rw [hskip e hc] at hst
    cases hst
  · have hh := h.held q hq
    rw [hall] at hh
    exact hh.drop (fun e he => by rw [hskip e he]; decide)
  · obtain ⟨d', mid, -, hpre, -, hmid⟩ := hA
    intro e he
    have he' : e ∈ pre ++ mid := by
      rw [hpre]
      exact List.mem_append_right _ he
    exact (List.mem_append.mp he').elim (h.strict hst e) (hmid e)
  · have hu := h.under
    rw [hall] at hu
    exact hu.drop (fun e he => by rw [hskip e he]; decide)

/-- The transmitter's packet is the first one. -/
theorem RingInv.tx_first (h : RingInv g m₀ s a u pre post) (htx : a.tx = some p) :
    ∃ e es, pre ++ post = e :: es ∧ e.pos = p ∧ e.status = .output ∧ s.outputReader = p := by
  obtain ⟨ho, e, he, rfl, hst⟩ := h.tx p htx
  obtain ⟨k, kr, hL⟩ := h.rep
  obtain ⟨es, hes, -⟩ := hL.outputReader_at he ho
  exact ⟨e, es, hes, rfl, hst, ho⟩

/-- If the first entry that `InputReader` has not passed is unfinished, it is the last one. -/
theorem RingInv.calm_of_firstWith (h : RingInv g m₀ s a u pre post)
    (hhead : ∀ e ∈ post.head?, e.status = .unfinished ∨ e.status = .input)
    (hno : firstWith .input post = none) : Calm post := by
  cases post with
  | nil => exact fun e he => by cases he
  | cons e es =>
      have hi : e.status ≠ .input := by
        intro hi
        rw [firstWith, if_pos hi] at hno
        cases hno
      have hu : e.status = .unfinished := (hhead e rfl).resolve_right hi
      have hall := h.under
      cases u with
      | none => exact absurd hu (hall e (by simp))
      | some x =>
          obtain ⟨l, y, hl, hfin, -⟩ := hall
          rw [List.append_cons] at hl
          have hes : es = [] := by
            rcases append_last_cases hl with ⟨hes, -⟩ | ⟨es', -, rfl⟩
            · exact hes
            · exact absurd hu (hfin e (by simp))
          intro e' he'
          rw [hes, List.mem_singleton] at he'
          rw [he']
          exact hi

/-- `Packet_GetInput` gives the main loop a packet. -/
theorem RingInv.getInput (h : RingInv g m₀ s a u pre post) {r : Option ℕ}
    (hr : packetGetInput g s = some (r, s')) :
    ∃ pre' post', RingInv g m₀ s' { a with held := r } u pre' post' ∧
      (r = none ↔ Calm post) ∧ (r = none → Calm post') := by
  obtain ⟨s₁, pre', post', hr', hrep, hA, hs, hhead⟩ := packetGetInput_spec h.rep
  obtain ⟨rfl, rfl⟩ := Prod.mk.inj (Option.some.inj (hr.symm.trans hr'))
  have htx : ∀ q, a.tx = some q → s'.outputReader = q := by
    intro q hq
    obtain ⟨e, es, hes, rfl, hst, ho⟩ := h.tx_first hq
    obtain ⟨k, kr, hL⟩ := h.rep
    have hw : s.state g s.outputReader = e.word := by
      rw [ho]
      exact hL.state_eq (by rw [hes]; simp)
    rw [← ho]
    refine packetGetInput_outputReader ?_ ?_ hr
    · rw [hw]
      intro hc
      rcases e.word_and_output.mp hc with hc | hc <;> rw [hst] at hc <;> cases hc
    · rw [hw]
      exact e.word_and_input.mpr (Or.inr hst)
  have hadv := h.advanced hrep hA (by rw [hs]) htx
  have hcalm : firstWith .input post' = none → Calm post' := hadv.calm_of_firstWith fun e he =>
    (hhead e he).2
  obtain ⟨d, mid, hpost, -, -, hmid⟩ := hA
  refine ⟨pre', post', ⟨hadv.rep, hadv.queue, hadv.tx, fun q hq => ?_, hadv.strict, hadv.clean,
    hadv.under, hadv.short, hadv.frame⟩, ⟨fun hn e he => ?_, fun hc => ?_⟩, hcalm⟩
  · obtain ⟨e, es, rfl, hst, hp⟩ := firstWith_eq_some.mp hq
    exact ⟨pre', e, es, rfl, hp, hst, hadv.strict⟩
  · rw [hpost] at he
    cases List.mem_append.mp he with
    | inl he => rcases hmid e he with hs | hs <;> rw [hs] <;> decide
    | inr he => exact hcalm hn e he
  · cases hpost' : post' with
    | nil => rfl
    | cons e es =>
        refine if_neg (hc e ?_)
        rw [hpost, hpost']
        simp

/-- The queue after an input packet became an output packet. -/
def Reattached (q q' : List (Status × List UInt8)) : Prop :=
  ∃ q₁ d q₂, q = q₁ ++ (.input, d) :: q₂ ∧ q' = q₁ ++ (.output, d) :: q₂

/-- A packet that is not the draft may change in place. -/
theorem Under.replace {l₁ l₂ : List Entry} {e e' : Entry} (h : Under u (l₁ ++ e :: l₂))
    (he : e.status ≠ .unfinished) (he' : e'.status ≠ .unfinished) :
    Under u (l₁ ++ e' :: l₂) := by
  have hfin : ∀ {l : List Entry}, (∀ x ∈ l₁ ++ e :: l, x.status ≠ .unfinished) →
      ∀ x ∈ l₁ ++ e' :: l, x.status ≠ .unfinished := by
    intro l hl x hx
    cases List.mem_append.mp hx with
    | inl hx => exact hl x (List.mem_append_left _ hx)
    | inr hx =>
        rcases List.mem_cons.mp hx with rfl | hx
        · exact he'
        · exact hl x (by simp [hx])
  cases u with
  | none => exact hfin h
  | some x =>
      obtain ⟨p, len, w⟩ := x
      obtain ⟨es, y, hall, hes, hp, hu, hrest⟩ := h
      rw [List.append_cons] at hall
      rcases append_last_cases hall with ⟨-, hy⟩ | ⟨l, rfl, rfl⟩
      · obtain rfl : e = y := by simpa using (List.append_inj' hy rfl).2
        exact absurd hu he
      · rw [← List.append_cons] at hes
        exact ⟨l₁ ++ e' :: l, y, by simp, hfin hes, hp, hu, hrest⟩

/-- `Packet_ReattachOutput` of the main loop's packet. -/
theorem RingInv.reattach (h : RingInv g m₀ s a u pre post) (hheld : a.held = some p) :
    ∃ s', packetReattachOutput g s p = some s' ∧ ∃ q, Reattached a.queue q ∧
      ∃ pre' post', RingInv g m₀ s' { a with queue := q, held := none } u pre' post' := by
  obtain ⟨l₁, e, l₂, hes, rfl, hst, hpass⟩ := h.held p hheld
  obtain ⟨s', hr, ho, -, hrep⟩ := packetReattachOutput_spec h.rep hes hst
  have hmem : e ∈ pre ++ post := by rw [hes]; simp
  have hlist : (l₁ ++ [e.withStatus .output]) ++ l₂ = l₁ ++ e.withStatus .output :: l₂ := by simp
  refine ⟨s', hr, queueOf l₁ ++ (.output, e.data) :: queueOf l₂,
    ⟨queueOf l₁, e.data, queueOf l₂, ?_, rfl⟩, _, _, hrep, ?_, fun q hq => ?_,
    (fun q hq => by cases hq), fun hs x hx => ?_, fun hc x hx => ?_, ?_, ?_, ?_⟩
  · rw [← h.queue, hes, queueOf_append, queueOf_cons (Or.inl hst), hst]
  · rw [hlist, queueOf_append, queueOf_cons (Or.inr rfl)]
    rfl
  · obtain ⟨ho', x, hx, hp, hxs⟩ := h.tx q hq
    refine ⟨ho.trans ho', x, ?_, hp, hxs⟩
    rw [hes] at hx
    rw [hlist]
    cases List.mem_append.mp hx with
    | inl hx => exact List.mem_append_left _ hx
    | inr hx =>
        rcases List.mem_cons.mp hx with rfl | hx
        · rw [hst] at hxs
          cases hxs
        · simp [hx]
  · cases List.mem_append.mp hx with
    | inl hx => exact hpass hs x hx
    | inr hx =>
        rw [List.mem_singleton.mp hx]
        exact Or.inl rfl
  · have hclean := h.clean hc
    rw [hes] at hclean
    rw [hlist] at hx
    cases List.mem_append.mp hx with
    | inl hx => exact hclean x (List.mem_append_left _ hx)
    | inr hx =>
        rcases List.mem_cons.mp hx with rfl | hx
        · rw [Entry.withStatus_status]
          decide
        · exact hclean x (by simp [hx])
  · have hu := h.under
    rw [hes] at hu
    rw [hlist]
    exact hu.replace (by rw [hst]; decide) (by rw [Entry.withStatus_status]; decide)
  · intro x hx
    rw [hlist] at hx
    cases List.mem_append.mp hx with
    | inl hx => exact h.short x (by rw [hes]; simp [hx])
    | inr hx =>
        rcases List.mem_cons.mp hx with rfl | hx
        · exact h.short e hmem
        · exact h.short x (by rw [hes]; simp [hx])
  · unfold packetReattachOutput at hr
    split_ifs at hr
    obtain rfl := Option.some.inj hr
    exact h.frame_setState hmem _

/-! ### The transmitter's calls -/

/-- `Packet_GetOutput` gives the transmitter the first packet. -/
theorem RingInv.getOutput (h : RingInv g m₀ s a u pre post) (htx : a.tx = none) {r : Option ℕ}
    (hr : packetGetOutput g s = some (r, s')) :
    ∃ pre' post', RingInv g m₀ s' { a with tx := r } u pre' post' ∧ (Calm post → Calm post') := by
  obtain ⟨s₁, pre', post', hr', hrep, hA, hs, hhead⟩ := packetGetOutput_spec h.rep
  obtain ⟨rfl, rfl⟩ := Prod.mk.inj (Option.some.inj (hr.symm.trans hr'))
  have hadv := h.advanced hrep hA (by rw [hs]) (fun q hq => by rw [htx] at hq; cases hq)
  refine ⟨pre', post', ⟨hadv.rep, hadv.queue, fun q hq => ?_, hadv.held, hadv.strict, hadv.clean,
    hadv.under, hadv.short, hadv.frame⟩, fun hc e he => ?_⟩
  · obtain ⟨e, es, hes, hst, rfl⟩ := firstWith_eq_some.mp hq
    obtain ⟨ho, -⟩ := hhead e (by rw [hes]; rfl)
    exact ⟨ho, e, by rw [hes]; simp, rfl, hst⟩
  · obtain ⟨d, mid, hpost, -, -, -⟩ := hA
    rw [hpost] at hc
    exact hc e (List.mem_append_right _ he)

/-- What the transmitter's packet is: the head of the queue, with its data in memory. -/
theorem RingInv.tx_head (h : RingInv g m₀ s a u pre post) (htx : a.tx = some p) :
    ∃ d q, a.queue = (.output, d) :: q ∧ packetGetLen (s.state g p) = d.length ∧
      ∀ i n, i + n ≤ d.length → s.mem.read (dataAddr g p + i) n = (d.drop i).take n := by
  obtain ⟨e, es, hes, rfl, hst, -⟩ := h.tx_first htx
  obtain ⟨k, kr, hL⟩ := h.rep
  have hmem : e ∈ pre ++ post := by rw [hes]; simp
  refine ⟨e.data, queueOf es, ?_, ?_, fun i n hi => ?_⟩
  · rw [← h.queue, hes, queueOf_cons (Or.inr hst), hst]
  · rw [hL.state_eq hmem, e.getLen_word]
    rfl
  · have hlen : e.data.length = e.len := rfl
    have hd : s.mem.read (dataAddr g e.pos) (i + n) = e.data.take (i + n) := by
      rw [← (hL.stored e hmem).data, Mem.read_take, min_eq_left (by omega)]
    rw [Mem.read_append] at hd
    have hi' : (s.mem.read (dataAddr g e.pos) i).length = i := Mem.read_length _ _ _
    have hdrop := congrArg (List.drop i) hd
    rw [List.drop_left' hi', List.drop_take, Nat.add_sub_cancel_left] at hdrop
    exact hdrop

/-- `Packet_ReleaseOutput` of the transmitter's packet. -/
theorem RingInv.releaseOutput (h : RingInv g m₀ s a u pre post) (htx : a.tx = some p) :
    ∃ pre' post', RingInv g m₀ (packetReleaseOutput g s p)
      { a with queue := a.queue.tail, tx := none } u pre' post' ∧ (Calm post → Calm post') := by
  obtain ⟨e, es, hes, rfl, hst, ho⟩ := h.tx_first htx
  have hmem : e ∈ pre ++ post := by rw [hes]; simp
  obtain ⟨pre', post', hall, hpre, hrep⟩ := packetReleaseOutput_spec h.rep hmem ho
  have hcons : pre ++ post = [e] ++ (pre' ++ post') := hall
  refine ⟨pre', post', ⟨hrep, ?_, (fun q hq => by cases hq), fun q hq => ?_, fun hs x hx => ?_,
    fun hc x hx => h.clean hc x (by rw [hall]; exact List.mem_cons_of_mem _ hx), ?_,
    fun x hx => h.short x (by rw [hall]; exact List.mem_cons_of_mem _ hx), h.frame⟩,
    fun hc x hx => ?_⟩
  · have hq := h.queue
    rw [hall, queueOf_cons (Or.inr hst)] at hq
    rw [← hq]
    rfl
  · have hh := h.held q hq
    rw [hcons] at hh
    exact hh.drop (by simp [hst])
  · rw [hpre] at hx
    exact h.strict hs x (List.mem_of_mem_tail hx)
  · have hu := h.under
    rw [hcons] at hu
    exact hu.drop (by simp [hst])
  · refine hc x ?_
    cases pre with
    | nil =>
        obtain rfl : pre' = [] := hpre
        rw [List.nil_append, List.nil_append] at hall
        rw [hall]
        exact List.mem_cons_of_mem _ hx
    | cons y l =>
        obtain rfl : pre' = l := hpre
        obtain ⟨-, hpost⟩ := List.cons.inj hall
        rw [List.append_cancel_left hpost]
        exact hx

/-! ### What the walk shows -/

theorem startOver_flags {st : Status} (h : State.startOver &&& State.skip = 2 ^ 14 * st.code) :
    st = .skip := by
  cases st <;> revert h <;> decide

/-- `Packet_GetInput` finds a packet exactly if it has not passed all of them. -/
theorem RingInv.noInput_iff (h : RingInv g m₀ s a u pre post) : NoInput g s ↔ Calm post := by
  obtain ⟨s', -, post', hr, -⟩ := packetGetInput_spec h.rep
  obtain ⟨r, hr⟩ : ∃ r, packetGetInput g s = some (r, s') := ⟨_, hr⟩
  obtain ⟨-, -, -, hcalm, -⟩ := h.getInput hr
  constructor
  · rintro ⟨s'', hn⟩
    obtain ⟨hn, -⟩ := Prod.mk.inj (Option.some.inj (hr.symm.trans hn))
    exact hcalm.mp hn
  · intro hc
    rw [hcalm.mpr hc] at hr
    exact ⟨s', hr⟩

/-- The slots that the walk finds with the flags of a status are those of the entries. -/
theorem RingInv.mem_flagged (h : RingInv g m₀ s a u pre post) {st : Status} (hst : st ≠ .skip)
    {x : ℕ} : x ∈ flagged g s (2 ^ 14 * st.code) ↔ ∃ e ∈ pre ++ post, e.pos = x ∧ e.status = st := by
  obtain ⟨k, kr, hL⟩ := h.rep
  obtain ⟨xs, hxs, hfil, -⟩ := hL.walks.visits
  unfold flagged walkSlots
  rw [hxs, Option.getD_some, List.mem_filter, decide_eq_true_iff]
  constructor
  · rintro ⟨hx, hf⟩
    have hno : s.state g x ≠ State.startOver := by
      intro hc
      rw [hc] at hf
      exact hst (startOver_flags hf)
    have hx' : x ∈ xs.filter (fun x => s.state g x ≠ State.startOver) :=
      List.mem_filter.mpr ⟨hx, by simpa using hno⟩
    rw [hfil] at hx'
    obtain ⟨e, he, rfl⟩ := List.mem_map.mp hx'
    rw [hL.state_eq he] at hf
    exact ⟨e, he, rfl, (e.word_and_skip st).mp hf⟩
  · rintro ⟨e, he, rfl, hes⟩
    refine ⟨?_, ?_⟩
    · have hx' : e.pos ∈ xs.filter (fun x => s.state g x ≠ State.startOver) := by
        rw [hfil]
        exact List.mem_map_of_mem he
      exact (List.mem_filter.mp hx').1
    · rw [hL.state_eq he]
      exact (e.word_and_skip st).mpr hes

/-- No packet with these flags is found exactly when the queue has none. -/
theorem RingInv.flagged_nil (h : RingInv g m₀ s a u pre post) {st : Status}
    (hst : st = .input ∨ st = .output) :
    flagged g s (2 ^ 14 * st.code) = [] ↔ ∀ x ∈ a.queue, x.1 ≠ st := by
  have hns : st ≠ .skip := by rcases hst with rfl | rfl <;> decide
  rw [List.eq_nil_iff_forall_not_mem, ← h.queue]
  constructor
  · intro hno x hx hs
    obtain ⟨e, he, rfl⟩ := List.mem_map.mp hx
    exact hno e.pos ((h.mem_flagged hns).mpr ⟨e, (List.mem_filter.mp he).1, rfl, hs⟩)
  · intro hno x hx
    obtain ⟨e, he, -, hes⟩ := (h.mem_flagged hns).mp hx
    exact hno _ (mem_queueOf he (by rw [hes]; exact hst)) hes

/-- No finished packet is found exactly when the queue is empty. -/
theorem RingInv.flagged_all (h : RingInv g m₀ s a u pre post) :
    flagged g s State.input = [] ∧ flagged g s State.output = [] ↔ a.queue = [] := by
  have hin := h.flagged_nil (Or.inl (rfl : Status.input = .input))
  have hout := h.flagged_nil (Or.inr (rfl : Status.output = .output))
  constructor
  · rintro ⟨hi, ho⟩
    refine List.eq_nil_iff_forall_not_mem.mpr (fun x hx => ?_)
    have hx' := hx
    rw [← h.queue] at hx'
    obtain ⟨e, he, rfl⟩ := List.mem_map.mp hx'
    cases of_decide_eq_true (List.mem_filter.mp he).2 with
    | inl hs => exact hin.mp hi _ hx hs
    | inr hs => exact hout.mp ho _ hx hs
  · intro hq
    exact ⟨hin.mpr (by simp [hq]), hout.mpr (by simp [hq])⟩

/-- If the account is strict, `InputReader` has passed no input packet. -/
theorem RingInv.passedInput (h : RingInv g m₀ s a u pre post) (hs : a.strict = true) :
    passedInput g s = [] := by
  obtain ⟨k, kr, hL⟩ := h.rep
  obtain ⟨xs, hxs, -⟩ := hL.walks.visits
  obtain ⟨ys, zs, fuel, rfl, hz, hys⟩ :=
    walk_split hL hL.behind (fun _ hy => hy) (fun e he => by simp [he]) hxs
  unfold Usb.passedInput walkSlots
  rw [hxs, Option.getD_some, List.filter_eq_nil_iff]
  intro x hx hf
  rw [decide_eq_true_iff] at hf
  have hbefore : x ∈ ys := by
    rcases walk_head hz with ⟨rfl, -⟩ | ⟨ws, rfl⟩
    · exact (List.mem_append.mp (List.takeWhile_subset _ hx)).resolve_right (by simp)
    · rw [List.takeWhile_append] at hx
      split_ifs at hx
      · simpa using hx
      · exact List.takeWhile_subset _ hx
  have hflag : State.input = 2 ^ 14 * Status.input.code := rfl
  rcases hys x hbefore with ⟨e, he, rfl⟩ | hm
  · rw [hL.state_eq (List.mem_append_left _ he), hflag, Entry.word_and_skip] at hf
    rcases h.strict hs e he with hc | hc <;> rw [hf] at hc <;> cases hc
  · have hst : s.state g x = State.startOver := hL.mark x hm
    rw [hst] at hf
    revert hf
    decide

end laws

end TimeSwitch.Usb
