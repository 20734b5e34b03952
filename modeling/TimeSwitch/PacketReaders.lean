import TimeSwitch.PacketLayout

/-! # The reader side of the ring

One specification for each function of `PacketBuffer.c` that reads or releases packets, in
terms of the entries the ring stores.  The two reader loops are followed along the trail: in
each iteration the reader stands at the end of the trail, at an entry or at the `StartOver`
mark (`Layout.cursor`), and the pointers the function will store at its end already form a
layout (`Layout.moveReaders`). -/

namespace TimeSwitch.PacketBuffer

open ByteMemory

namespace Layout

variable {g : Geometry} {s : Ring} {k kr : Option ℕ} {pre post : List Entry}

/-! ### Where a pointer stands -/

/-- A slot on a trail to `NextWriter` is its end, an entry, or the mark. -/
theorem cursor (h : Layout g s k kr pre post) {k₁ : Option ℕ} {x : ℕ} {es : List Entry}
    (ht : RingTrail g k₁ x es none s.nextWriter) (hk : ∀ y, k₁ = some y → k = some y)
    (hes : ∀ e ∈ es, e ∈ pre ++ post) :
    (es = [] ∧ k₁ = none ∧ x = s.nextWriter ∧ s.state g x = 0) ∨
      (∃ e es', es = e :: es' ∧ x = e.pos ∧ s.state g x = e.word ∧ e.word ≠ State.startOver ∧
        RingTrail g k₁ (e.next g) es' none s.nextWriter) ∨
      (k₁ = some x ∧ s.state g x = State.startOver ∧
        RingTrail g none 0 es none s.nextWriter) := by
  cases ht with
  | stop => exact Or.inl ⟨rfl, rfl, rfl, h.writer⟩
  | @visit _ _ _ _ e es' hx ht =>
      have hst := h.stored e (hes e (by simp))
      refine Or.inr (Or.inl ⟨e, es', rfl, hx, ?_, hst.noMark, ht⟩)
      rw [hx]
      exact hst.word
  | jump ht => exact Or.inr (Or.inr ⟨rfl, h.mark _ (hk _ rfl), ht⟩)

/-- The mark ahead of `InputReader` is the mark ahead of `OutputReader`. -/
theorem mark_of_ahead (h : Layout g s k kr pre post) {x : ℕ} (hx : kr = some x) :
    k = some x := by
  subst hx
  exact h.behind.mark_ahead

/-- No entry lies at the mark. -/
theorem pos_ne_mark (h : Layout g s k kr pre post) {e : Entry} (he : e ∈ pre ++ post) :
    k ≠ some e.pos := by
  rintro rfl
  have h1 := h.mark_apart.2 e he
  have h2 := e.pos_lt_next g
  omega

/-- No entry lies at `NextWriter`. -/
theorem pos_ne_writer (h : Layout g s k kr pre post) {e : Entry} (he : e ∈ pre ++ post) :
    s.nextWriter ≠ e.pos := by
  have h1 := e.pos_lt_next g
  rcases h.writer_apart he with h2 | h2 <;> omega

/-- `OutputReader` points at an entry only if this is the first one. -/
theorem outputReader_at (h : Layout g s k kr pre post) {e : Entry} (he : e ∈ pre ++ post)
    (hp : s.outputReader = e.pos) :
    ∃ es, pre ++ post = e :: es ∧ RingTrail g k (e.next g) es none s.nextWriter := by
  obtain ⟨e', es, hes, hpos, ht⟩ := h.trail.exists_cons (by rw [hp]; exact h.pos_ne_mark he)
    (by rw [hp]; exact h.pos_ne_writer he)
  have heq : e = e' := h.eq_of_pos he (by rw [hes]; simp) (hp.symm.trans hpos)
  subst heq
  exact ⟨es, hes, ht⟩

/-- `InputReader` points at an entry only if this is the first one of `post`. -/
theorem inputReader_at (h : Layout g s k kr pre post) {e : Entry} (he : e ∈ pre ++ post)
    (hp : s.inputReader = e.pos) :
    ∃ es, post = e :: es ∧ RingTrail g kr (e.next g) es none s.nextWriter := by
  obtain ⟨e', es, hes, hpos, ht⟩ := h.ahead.exists_cons
    (fun hk => h.pos_ne_mark he (h.mark_of_ahead (hp ▸ hk)))
    (by rw [hp]; exact h.pos_ne_writer he)
  have heq : e = e' := h.eq_of_pos he (by rw [hes]; simp) (hp.symm.trans hpos)
  subst heq
  exact ⟨es, hes, ht⟩

/-- Both readers at one slot: there is nothing between them. -/
theorem readers_meet (h : Layout g s k kr pre post) (hm : s.outputReader = s.inputReader) :
    pre = [] ∧ kr = k := by
  have hb := h.behind
  rw [← hm] at hb
  cases k with
  | none =>
      obtain ⟨h1, h2, -⟩ := hb.of_none (Entry.pos_lt_next g)
      exact ⟨List.length_eq_zero_iff.mp (by omega), h1⟩
  | some x =>
      rcases hb.of_some (Entry.pos_lt_next g) with ⟨h1, h2⟩ | ⟨h1, -⟩
      · have := (h2.of_none (Entry.pos_lt_next g)).2.1
        exact ⟨List.length_eq_zero_iff.mp (by omega), h1⟩
      · -- `InputReader` is behind the jump and cannot be as far as `OutputReader`
        have h2 := h.ahead
        rw [h1] at h2
        have h3 := (h2.of_none (Entry.pos_lt_next g)).2.1
        have h4 := (h.wrapped x rfl).2.1
        omega

end Layout

/-! ### Moving over finished entries -/

/-- The readers moved: `InputReader` over the entries `mid`, all of type `Output` or `Skip`,
and `OutputReader` over the entries `d`, all of type `Skip`. -/
def Advanced (pre post pre' post' : List Entry) : Prop :=
  ∃ d mid, post = mid ++ post' ∧ pre ++ mid = d ++ pre' ∧ (∀ e ∈ d, e.status = .skip) ∧
    ∀ e ∈ mid, e.status = .output ∨ e.status = .skip

namespace Advanced

variable {pre post pre₁ post₁ pre₂ post₂ : List Entry}

theorem refl (pre post : List Entry) : Advanced pre post pre post :=
  ⟨[], [], by simp, by simp, by simp, by simp⟩

theorem trans (h₁ : Advanced pre post pre₁ post₁) (h₂ : Advanced pre₁ post₁ pre₂ post₂) :
    Advanced pre post pre₂ post₂ := by
  obtain ⟨d₁, m₁, rfl, e₁, hd₁, hm₁⟩ := h₁
  obtain ⟨d₂, m₂, rfl, e₂, hd₂, hm₂⟩ := h₂
  refine ⟨d₁ ++ d₂, m₁ ++ m₂, by simp, ?_, ?_, ?_⟩
  · calc pre ++ (m₁ ++ m₂) = (pre ++ m₁) ++ m₂ := (List.append_assoc _ _ _).symm
      _ = d₁ ++ (pre₁ ++ m₂) := by rw [e₁, List.append_assoc]
      _ = d₁ ++ d₂ ++ pre₂ := by rw [e₂, List.append_assoc]
  · intro e he
    exact (List.mem_append.mp he).elim (hd₁ e) (hd₂ e)
  · intro e he
    exact (List.mem_append.mp he).elim (hm₁ e) (hm₂ e)

/-- Only entries of type `Skip` are forgotten, from the front. -/
theorem all_eq (h : Advanced pre post pre₁ post₁) :
    ∃ d, pre ++ post = d ++ (pre₁ ++ post₁) ∧ ∀ e ∈ d, e.status = .skip := by
  obtain ⟨d, mid, rfl, e, hd, -⟩ := h
  exact ⟨d, by rw [← List.append_assoc, e, List.append_assoc], hd⟩

/-- `InputReader` passes an entry of type `Output`, or of type `Skip` together with
`OutputReader`. -/
theorem input_step (pre : List Entry) (e : Entry) (es : List Entry)
    (h : e.status = .output ∨ e.status = .skip) :
    Advanced pre (e :: es) (pre ++ [e]) es :=
  ⟨[], [e], rfl, rfl, by simp, by simpa using h⟩

theorem both_step (e : Entry) (es : List Entry) (h : e.status = .skip) :
    Advanced [] (e :: es) [] es :=
  ⟨[e], [e], rfl, rfl, by simpa using h, by simp [h]⟩

theorem output_step (pre post : List Entry) (e : Entry) (h : e.status = .skip) :
    Advanced (e :: pre) post pre post :=
  ⟨[e], [], rfl, by simp, by simpa using h, by simp⟩

end Advanced

/-- The mark counts as one more iteration of a reader. -/
def markCount (k : Option ℕ) : ℕ := if k.isSome then 1 else 0

theorem Entry.nextReader_word (g : Geometry) (e : Entry) (h : e.word ≠ State.startOver) :
    nextReader g e.pos e.word = e.next g := by
  unfold nextReader
  rw [if_neg h, e.getLen_word]
  rfl

/-! ### `Packet_GetInput` -/

section getInput

variable {g : Geometry}

/-- The pointers `Packet_GetInput` has in mind while its loop is at `reader`. -/
def inputView (s : Ring) (reader : ℕ) (skipOutput : Bool) : Ring :=
  { s with outputReader := if skipOutput then reader else s.outputReader, inputReader := reader }

/-- One iteration that passes an entry. -/
theorem inputView_entry {s : Ring} {reader : ℕ} {skipOutput : Bool} {k kr : Option ℕ}
    {pre es : List Entry} {e : Entry}
    (h : Layout g (inputView s reader skipOutput) k kr pre (e :: es)) (hp : reader = e.pos)
    (ht : RingTrail g kr (e.next g) es none s.nextWriter)
    (he : e.status = .output ∨ e.status = .skip) :
    ∃ pre', Advanced pre (e :: es) pre' es ∧
      if skipOutput = true ∧ e.status = .output then
        Layout g (inputView { s with outputReader := reader } (e.next g) false) k kr pre' es
      else Layout g (inputView s (e.next g) skipOutput) k kr pre' es := by
  have h1 : RingTrail g kr reader [e] kr (e.next g) := by rw [hp]; exact .single _ e
  have hsub : ∀ e' ∈ pre ++ [e] ++ es, e' ∈ pre ++ e :: es := by simp
  cases skipOutput with
  | false =>
      refine ⟨pre ++ [e], .input_step pre e es he, ?_⟩
      rw [if_neg (by simp)]
      exact h.moveReaders (.stop _ _) (h.behind.append h1) ht hsub
  | true =>
      obtain ⟨rfl, rfl⟩ := h.readers_meet rfl
      by_cases ho : e.status = .output
      · refine ⟨[e], .input_step [] e es he, ?_⟩
        rw [if_pos ⟨rfl, ho⟩]
        exact h.moveReaders (.stop _ _) h1 ht hsub
      · refine ⟨[], .both_step e es (he.resolve_left ho), ?_⟩
        rw [if_neg (fun hc => ho hc.2)]
        exact h.moveReaders h1 (.stop _ _) ht (fun e' he' => by simp at he'; simp [he'])

/-- One iteration that passes the mark. -/
theorem inputView_mark {s : Ring} {reader : ℕ} {skipOutput : Bool} {k : Option ℕ}
    {pre post : List Entry} (h : Layout g (inputView s reader skipOutput) k (some reader) pre post)
    (ht : RingTrail g none 0 post none s.nextWriter) :
    ∃ k', Layout g (inputView s 0 skipOutput) k' none pre post := by
  have h1 : RingTrail g (some reader) reader [] none 0 := .jump (.stop _ _)
  cases skipOutput with
  | false =>
      refine ⟨k, h.moveReaders (.stop _ _) ?_ ht (fun _ he => he)⟩
      have := h.behind.append h1
      rwa [List.append_nil] at this
  | true =>
      obtain ⟨rfl, rfl⟩ := h.readers_meet rfl
      exact ⟨none, h.moveReaders h1 (.stop _ _) ht (fun _ he => he)⟩

/-- What the loop has done when it stops: the readers advanced, nothing but `OutputReader`
changed, and the reader stands at an entry that is neither `Output` nor `Skip`. -/
structure InputScanned (g : Geometry) (s : Ring) (pre post : List Entry) (r : Scan) (s' : Ring) :
    Prop where
  moved : ∃ k kr pre' post', Layout g (inputView s' r.reader r.skipOutput) k kr pre' post' ∧
    Advanced pre post pre' post'
  frame : s' = { s with outputReader := s'.outputReader }
  state : r.state = s.state g r.reader
  stopped : r.state &&& State.output = 0

theorem InputScanned.of_step {s s' : Ring} {o : ℕ} {pre post pre₁ post₁ : List Entry} {r : Scan}
    (h : InputScanned g { s with outputReader := o } pre₁ post₁ r s')
    (ha : Advanced pre post pre₁ post₁) : InputScanned g s pre post r s' := by
  obtain ⟨⟨k, kr, pre', post', hL, hA⟩, hfr, hst, hstop⟩ := h
  exact ⟨⟨k, kr, pre', post', hL, ha.trans hA⟩, hfr, hst, hstop⟩

theorem getInputLoop_spec {fuel : ℕ} : ∀ (skipInput : Bool) {s : Ring} {reader : ℕ}
    {skipOutput : Bool} {k kr : Option ℕ} {pre post : List Entry},
    Layout g (inputView s reader skipOutput) k kr pre post →
    post.length + markCount kr < fuel →
    ∃ r s', getInputLoop g fuel s reader skipInput skipOutput = some (r, s') ∧
      InputScanned g s pre post r s' ∧
      (r.skipInput = true ∨ (r.skipInput = skipInput ∧ r.reader = reader ∧
        r.skipOutput = skipOutput ∧ s' = s)) := by
  induction fuel with
  | zero => intro _ s reader skipOutput k kr pre post h hf; omega
  | succ fuel ih =>
      intro skipInput s reader skipOutput k kr pre post h hf
      by_cases hO : s.state g reader &&& State.output = 0
      · refine ⟨⟨reader, s.state g reader, skipInput, skipOutput⟩, s, ?_, ?_, ?_⟩
        · simp only [getInputLoop, hO, if_true]
        · exact ⟨⟨k, kr, pre, post, h, .refl _ _⟩, rfl, rfl, hO⟩
        · exact Or.inr ⟨rfl, rfl, rfl, rfl⟩
      · -- one iteration: it remains to show what the loop is called with next
        have key : ∃ (o : ℕ) (s₁ : Ring) (x : ℕ) (so : Bool) (k₁ kr₁ : Option ℕ)
            (pre₁ post₁ : List Entry), s₁ = { s with outputReader := o } ∧
            getInputLoop g (fuel + 1) s reader skipInput skipOutput =
              getInputLoop g fuel s₁ x true so ∧
            Layout g (inputView s₁ x so) k₁ kr₁ pre₁ post₁ ∧ Advanced pre post pre₁ post₁ ∧
            post₁.length + markCount kr₁ < fuel := by
          rcases h.cursor h.ahead (fun y hy => h.mark_of_ahead hy) (fun e he => by simp [he]) with
            ⟨-, -, -, hs⟩ | ⟨e, es, rfl, hp, hs, hno, ht⟩ | ⟨rfl, hs, ht⟩
          · replace hs : s.state g reader = 0 := hs
            rw [hs] at hO
            exact absurd rfl hO
          · -- an entry of type `Output` or `Skip`
            replace hs : s.state g reader = e.word := hs
            replace hp : reader = e.pos := hp
            have he : e.status = .output ∨ e.status = .skip := by
              rw [hs] at hO
              have := mt e.word_and_output.mpr hO
              cases hst : e.status <;> simp [hst] at this ⊢
            have hnext : nextReader g reader (s.state g reader) = e.next g := by
              rw [hs, hp, e.nextReader_word g hno]
            have hin : s.state g reader &&& State.input = 0 ↔ e.status = .output := by
              rw [hs]
              refine e.word_and_input.trans ?_
              rcases he with he | he <;> simp [he]
            have hlen : es.length + markCount kr < fuel := by
              simp only [List.length_cons] at hf
              omega
            obtain ⟨pre', hadv, hif⟩ := inputView_entry h hp ht he
            by_cases hc : skipOutput = true ∧ e.status = .output
            · rw [if_pos hc] at hif
              refine ⟨reader, _, _, _, _, _, _, _, rfl, ?_, hif, hadv, hlen⟩
              simp only [getInputLoop]
              rw [if_neg hO, if_pos ⟨hc.1, hin.mpr hc.2⟩, hnext]
            · rw [if_neg hc] at hif
              refine ⟨s.outputReader, s, _, _, _, _, _, _, rfl, ?_, hif, hadv, hlen⟩
              simp only [getInputLoop]
              rw [if_neg hO, if_neg (fun hc' => hc ⟨hc'.1, hin.mp hc'.2⟩), hnext]
          · -- the mark
            replace hs : s.state g reader = State.startOver := hs
            obtain ⟨k', hL⟩ := inputView_mark h ht
            have hin : ¬ s.state g reader &&& State.input = 0 := by rw [hs]; decide
            refine ⟨s.outputReader, s, _, _, _, _, _, _, rfl, ?_, hL, .refl _ _, ?_⟩
            · simp only [getInputLoop]
              rw [if_neg hO, if_neg (fun hc => hin hc.2), hs]
              rfl
            · simp only [markCount, Option.isSome_some, if_true] at hf
              simp only [markCount, Option.isSome_none, Bool.false_eq_true, if_false]
              omega
        obtain ⟨o, s₁, x, so, k₁, kr₁, pre₁, post₁, rfl, hstep, hL, hA, hlen⟩ := key
        obtain ⟨r, s', hr, hscan, hsk⟩ := ih true hL hlen
        refine ⟨r, s', hstep.trans hr, hscan.of_step hA, Or.inl ?_⟩
        cases hsk with
        | inl hsk => exact hsk
        | inr hsk => exact hsk.1

theorem inputView_start (s : Ring) :
    inputView s s.inputReader (decide (s.outputReader = s.inputReader)) = s := by
  cases s with
  | mk m w i o => by_cases h : o = i <;> simp [inputView, h]

theorem markCount_le (k : Option ℕ) : markCount k ≤ 1 := by
  unfold markCount
  split_ifs <;> omega

/-- The reader of `Packet_GetInput` stops at `NextWriter`, or at an entry that is unfinished or
of type `Input`. -/
theorem InputScanned.stops {s : Ring} {k kr : Option ℕ} {pre post : List Entry} {r : Scan}
    (h : Layout g (inputView s r.reader r.skipOutput) k kr pre post)
    (hst : r.state = s.state g r.reader) (hstop : r.state &&& State.output = 0) :
    (post = [] ∧ r.state = 0) ∨ ∃ e es, post = e :: es ∧ r.reader = e.pos ∧ r.state = e.word ∧
      (e.status = .unfinished ∨ e.status = .input) := by
  rcases h.cursor h.ahead (fun y hy => h.mark_of_ahead hy) (fun e he => by simp [he]) with
    ⟨h1, -, -, hs⟩ | ⟨e, es, h1, hp, hs, -, -⟩ | ⟨-, hs, -⟩
  · exact Or.inl ⟨h1, hst.trans hs⟩
  · have hw : r.state = e.word := hst.trans hs
    rw [hw] at hstop
    exact Or.inr ⟨e, es, h1, hp, hw, e.word_and_output.mp hstop⟩
  · have hw : r.state = State.startOver := hst.trans hs
    rw [hw] at hstop
    exact absurd hstop (by decide)

/-- The first entry, if it has the given status. -/
def firstWith (st : Status) : List Entry → Option ℕ
  | [] => none
  | e :: _ => if e.status = st then some e.pos else none

/-- `Packet_GetInput` moves `InputReader` to the first entry that is neither `Output` nor
`Skip` and returns it if it is an input packet. -/
theorem packetGetInput_spec {s : Ring} {pre post : List Entry} (h : Rep g s pre post) :
    ∃ s' pre' post', packetGetInput g s = some (firstWith .input post', s') ∧
      Rep g s' pre' post' ∧ Advanced pre post pre' post' ∧
      s' = { s with inputReader := s'.inputReader, outputReader := s'.outputReader } ∧
      ∀ e ∈ post'.head?, s'.inputReader = e.pos ∧ (e.status = .unfinished ∨ e.status = .input) := by
  obtain ⟨k, kr, h⟩ := h
  have hfuel : post.length + markCount kr < readerFuel g := by
    have h1 := h.length_le
    have h2 := markCount_le kr
    rw [List.length_append] at h1
    unfold readerFuel
    omega
  rw [← inputView_start s] at h
  obtain ⟨r, s₁, hr, ⟨⟨k', kr', pre', post', hL, hA⟩, hfr, hst, hstop⟩, hsk⟩ :=
    getInputLoop_spec false h hfuel
  have hstops := InputScanned.stops hL (hst.trans (by rw [hfr]; rfl)) hstop
  have hres : (if r.state &&& State.input ≠ 0 then some r.reader else none) =
      firstWith .input post' := by
    rcases hstops with ⟨rfl, hs⟩ | ⟨e, es, rfl, hp, hs, hu | hi⟩
    · rw [hs]; rfl
    · rw [if_neg (not_not.mpr (hs ▸ e.word_and_input.mpr (Or.inl hu))), firstWith,
        if_neg (by rw [hu]; decide)]
    · rw [if_pos, firstWith, if_pos hi, hp]
      rw [hs]
      exact fun h0 => by simpa [hi] using e.word_and_input.mp h0
  refine ⟨inputView s₁ r.reader r.skipOutput, pre', post', ?_, ⟨k', kr', hL⟩, hA, ?_, ?_⟩
  · simp only [packetGetInput, hr, hres]
    congr 2
    cases hb : r.skipInput with
    | true => rfl
    | false =>
        obtain ⟨-, h1, h2, rfl⟩ := hsk.resolve_left (by rw [hb]; decide)
        rw [h1, h2, inputView_start]
        rfl
  · rw [hfr]; rfl
  · intro e he
    rcases hstops with ⟨rfl, -⟩ | ⟨e', es, rfl, hp, -, hstat⟩
    · cases he
    · obtain rfl : e' = e := by simpa using he
      exact ⟨hp, hstat⟩

/-- A reader that has met an output packet leaves `OutputReader` alone. -/
theorem getInputLoop_blocked {fuel : ℕ} : ∀ {s s' : Ring} {reader : ℕ} {skipInput : Bool} {r : Scan},
    getInputLoop g fuel s reader skipInput false = some (r, s') → s' = s ∧ r.skipOutput = false := by
  induction fuel with
  | zero =>
      intro s s' reader skipInput r hr
      cases hr
  | succ fuel ih =>
      intro s s' reader skipInput r hr
      rw [getInputLoop] at hr
      rw [if_neg (fun hc : false = true ∧ _ => Bool.false_ne_true hc.1)] at hr
      split_ifs at hr
      · obtain ⟨rfl, rfl⟩ := Prod.mk.inj (Option.some.inj hr)
        exact ⟨rfl, rfl⟩
      · exact ih hr

/-- `Packet_GetInput` does not move `OutputReader` from an output packet. -/
theorem packetGetInput_outputReader {s s' : Ring} {r : Option ℕ}
    (hout : s.state g s.outputReader &&& State.output ≠ 0)
    (hin : s.state g s.outputReader &&& State.input = 0)
    (hr : packetGetInput g s = some (r, s')) : s'.outputReader = s.outputReader := by
  have hkeep : ∀ {s₀ s₁ : Ring} {x : Scan} {fuel reader : ℕ} {b : Bool},
      getInputLoop g fuel s₀ reader b false = some (x, s₁) →
      s₁.outputReader = s₀.outputReader ∧ x.skipOutput = false := by
    intro s₀ s₁ x fuel reader b h
    obtain ⟨rfl, hx⟩ := getInputLoop_blocked h
    exact ⟨rfl, hx⟩
  unfold packetGetInput at hr
  split at hr
  · cases hr
  · rename_i x s₁ hloop
    obtain ⟨ho, hx⟩ : s₁.outputReader = s.outputReader ∧ x.skipOutput = false := by
      by_cases hm : s.outputReader = s.inputReader
      · -- the first entry the reader sees is the output packet
        have hf : readerFuel g = g.slots + 2 + 1 := rfl
        rw [decide_eq_true hm, hf, getInputLoop, ← hm] at hloop
        rw [if_neg hout, if_pos ⟨rfl, hin⟩] at hloop
        have hres := hkeep hloop
        exact hres
      · rw [decide_eq_false hm] at hloop
        exact hkeep hloop
    obtain ⟨-, rfl⟩ := Prod.mk.inj (Option.some.inj hr)
    cases hb : x.skipInput with
    | true => simp [hx, ho]
    | false => simp [ho]

end getInput

/-! ### `Packet_GetOutput` -/

section getOutput

variable {g : Geometry}

/-- The pointers `Packet_GetOutput` has in mind while its loop is at `reader`. -/
def outputView (s : Ring) (reader : ℕ) (skipInput : Bool) : Ring :=
  { s with outputReader := reader, inputReader := if skipInput then reader else s.inputReader }

/-- One iteration that passes an entry. -/
theorem outputView_entry {s : Ring} {reader : ℕ} {skipInput : Bool} {k kr : Option ℕ}
    {pre post es : List Entry} {e : Entry}
    (h : Layout g (outputView s reader skipInput) k kr pre post) (hes : pre ++ post = e :: es)
    (hp : reader = e.pos) (he : e.status = .skip) :
    ∃ kr' pre' post', Advanced pre post pre' post' ∧ pre' ++ post' = es ∧
      Layout g (outputView s (e.next g) (skipInput || decide (s.inputReader = reader)))
        k kr' pre' post' := by
  have hmem : e ∈ pre ++ post := by rw [hes]; simp
  have h1 : RingTrail g k reader [e] k (e.next g) := by rw [hp]; exact .single _ e
  by_cases hi : (outputView s reader skipInput).inputReader = e.pos
  · -- `InputReader` is here: both readers pass the entry
    obtain ⟨es', rfl, ht⟩ := h.inputReader_at hmem hi
    obtain ⟨rfl, rfl⟩ := h.readers_meet (hp.trans hi.symm)
    obtain rfl : es' = es := by simpa using hes
    have hflag : (skipInput || decide (s.inputReader = reader)) = true := by
      cases skipInput with
      | true => rfl
      | false => exact decide_eq_true ((show s.inputReader = e.pos from hi).trans hp.symm)
    refine ⟨kr, [], es', .both_step e es' he, rfl, ?_⟩
    rw [hflag]
    exact h.moveReaders h1 (.stop _ _) ht (fun e' he' => by simp at he'; simp [he'])
  · have hflag : skipInput = false ∧ s.inputReader ≠ reader := by
      cases skipInput with
      | true => exact absurd hp hi
      | false => exact ⟨rfl, fun hr => hi (hr.trans hp)⟩
    obtain ⟨rfl, hne⟩ := hflag
    cases pre with
    | nil =>
        cases h.behind with
        | stop => exact absurd rfl hne
        | jump => exact absurd (congrArg some hp) (h.pos_ne_mark hmem)
    | cons e' pre =>
        obtain ⟨rfl, rfl⟩ : e' = e ∧ pre ++ post = es := by simpa using hes
        refine ⟨kr, pre, post, .output_step pre post e' he, rfl, ?_⟩
        have ht : RingTrail g k (e'.next g) pre kr s.inputReader := by
          rcases h.behind.cons_inv with ⟨-, ht⟩ | ⟨hk, -⟩
          · exact ht
          · exact absurd (hk.trans (congrArg some hp)) (h.pos_ne_mark hmem)
        rw [Bool.false_or, decide_eq_false hne]
        exact h.moveReaders h1 ht h.ahead (fun e he => List.mem_cons_of_mem _ he)

/-- One iteration that passes the mark. -/
theorem outputView_mark {s : Ring} {reader : ℕ} {skipInput : Bool} {kr : Option ℕ}
    {pre post : List Entry}
    (h : Layout g (outputView s reader skipInput) (some reader) kr pre post) :
    ∃ kr', Layout g (outputView s 0 (skipInput || decide (s.inputReader = reader)))
      none kr' pre post := by
  have h1 : RingTrail g (some reader) reader [] none 0 := .jump (.stop _ _)
  by_cases hi : (outputView s reader skipInput).inputReader = reader
  · obtain ⟨rfl, rfl⟩ := h.readers_meet hi.symm
    have hflag : (skipInput || decide (s.inputReader = reader)) = true := by
      cases skipInput with
      | true => rfl
      | false => exact decide_eq_true hi
    rw [hflag]
    refine ⟨none, h.moveReaders h1 (.stop _ _) ?_ (fun _ he => he)⟩
    rcases h.cursor h.trail (fun _ hy => hy) (fun _ he => he) with
      ⟨-, hk, -⟩ | ⟨e, es, he, hp, -⟩ | ⟨-, -, ht⟩
    · cases hk
    · exact absurd (congrArg some hp) (h.pos_ne_mark (by rw [he]; simp))
    · exact ht
  · have hflag : skipInput = false ∧ s.inputReader ≠ reader := by
      cases skipInput with
      | true => exact absurd rfl hi
      | false => exact ⟨rfl, hi⟩
    obtain ⟨rfl, hne⟩ := hflag
    rw [Bool.false_or, decide_eq_false hne]
    refine ⟨kr, h.moveReaders h1 ?_ h.ahead (fun _ he => he)⟩
    cases hb : h.behind with
    | stop => exact absurd rfl hne
    | @visit _ _ _ _ e es hx _ =>
        exact absurd (congrArg some hx) (h.pos_ne_mark (by simp))
    | jump ht => exact ht

/-- What the loop has done when it stops. -/
structure OutputScanned (g : Geometry) (s : Ring) (pre post : List Entry) (r : Scan) : Prop where
  moved : ∃ k kr pre' post', Layout g (outputView s r.reader r.skipInput) k kr pre' post' ∧
    Advanced pre post pre' post'
  state : r.state = s.state g r.reader
  stopped : r.state &&& State.skip ≠ State.skip

theorem getOutputLoop_spec {s : Ring} {fuel : ℕ} : ∀ (skipOutput : Bool) {reader : ℕ}
    {skipInput : Bool} {k kr : Option ℕ} {pre post : List Entry},
    Layout g (outputView s reader skipInput) k kr pre post →
    (pre ++ post).length + markCount k < fuel →
    ∃ r, getOutputLoop g fuel s s.inputReader reader skipInput skipOutput = some r ∧
      OutputScanned g s pre post r ∧
      (r.skipOutput = true ∨ (r.skipOutput = skipOutput ∧ r.reader = reader ∧
        r.skipInput = skipInput)) := by
  induction fuel with
  | zero => intro _ reader skipInput k kr pre post h hf; omega
  | succ fuel ih =>
      intro skipOutput reader skipInput k kr pre post h hf
      by_cases hS : s.state g reader &&& State.skip ≠ State.skip
      · refine ⟨⟨reader, s.state g reader, skipInput, skipOutput⟩, ?_, ?_, ?_⟩
        · simp only [getOutputLoop]
          rw [if_pos hS]
        · exact ⟨⟨k, kr, pre, post, h, .refl _ _⟩, rfl, hS⟩
        · exact Or.inr ⟨rfl, rfl, rfl⟩
      · have hS' : s.state g reader &&& State.skip = State.skip := not_not.mp hS
        have key : ∃ (x : ℕ) (k₁ kr₁ : Option ℕ) (pre₁ post₁ : List Entry),
            nextReader g reader (s.state g reader) = x ∧
            Layout g (outputView s x (skipInput || decide (s.inputReader = reader)))
              k₁ kr₁ pre₁ post₁ ∧ Advanced pre post pre₁ post₁ ∧
            (pre₁ ++ post₁).length + markCount k₁ < fuel := by
          rcases h.cursor h.trail (fun _ hy => hy) (fun _ he => he) with
            ⟨-, -, -, hs⟩ | ⟨e, es, hes, hp, hs, hno, -⟩ | ⟨rfl, hs, -⟩
          · replace hs : s.state g reader = 0 := hs
            rw [hs] at hS'
            exact absurd hS' (by decide)
          · replace hs : s.state g reader = e.word := hs
            replace hp : reader = e.pos := hp
            have he : e.status = .skip := (e.word_and_skip .skip).mp (hs ▸ hS')
            obtain ⟨kr', pre', post', hA, hlist, hL⟩ := outputView_entry h hes hp he
            refine ⟨e.next g, k, kr', pre', post', ?_, hL, hA, ?_⟩
            · rw [hs, hp, e.nextReader_word g hno]
            · rw [hes, List.length_cons] at hf
              rw [hlist]
              omega
          · replace hs : s.state g reader = State.startOver := hs
            obtain ⟨kr', hL⟩ := outputView_mark h
            refine ⟨0, none, kr', pre, post, by rw [hs]; rfl, hL, .refl _ _, ?_⟩
            simp only [markCount, Option.isSome_some, if_true] at hf
            simp only [markCount, Option.isSome_none, Bool.false_eq_true, if_false]
            omega
        obtain ⟨x, k₁, kr₁, pre₁, post₁, hx, hL, hA, hlen⟩ := key
        obtain ⟨r, hr, ⟨⟨k', kr', pre', post', hL', hA'⟩, hst, hstop⟩, hsk⟩ := ih true hL hlen
        refine ⟨r, ?_, ⟨⟨k', kr', pre', post', hL', hA.trans hA'⟩, hst, hstop⟩, Or.inl ?_⟩
        · simp only [getOutputLoop]
          rw [if_neg hS, hx]
          exact hr
        · cases hsk with
          | inl hsk => exact hsk
          | inr hsk => exact hsk.1

/-- The reader of `Packet_GetOutput` stops at `NextWriter`, or at the first entry, which is not
of type `Skip`. -/
theorem OutputScanned.stops {s : Ring} {k kr : Option ℕ} {pre post : List Entry} {r : Scan}
    (h : Layout g (outputView s r.reader r.skipInput) k kr pre post)
    (hst : r.state = s.state g r.reader) (hstop : r.state &&& State.skip ≠ State.skip) :
    (pre ++ post = [] ∧ r.state = 0) ∨ ∃ e es, pre ++ post = e :: es ∧ r.reader = e.pos ∧
      r.state = e.word ∧ e.status ≠ .skip := by
  rcases h.cursor h.trail (fun _ hy => hy) (fun _ he => he) with
    ⟨h1, -, -, hs⟩ | ⟨e, es, h1, hp, hs, -, -⟩ | ⟨-, hs, -⟩
  · exact Or.inl ⟨h1, hst.trans hs⟩
  · have hw : r.state = e.word := hst.trans hs
    exact Or.inr ⟨e, es, h1, hp, hw, fun he => hstop (hw ▸ (e.word_and_skip .skip).mpr he)⟩
  · have hw : r.state = State.startOver := hst.trans hs
    rw [hw] at hstop
    exact absurd rfl hstop

/-- `Packet_GetOutput` moves `OutputReader` to the first entry that is not of type `Skip` and
returns it if it is an output packet. -/
theorem packetGetOutput_spec {s : Ring} {pre post : List Entry} (h : Rep g s pre post) :
    ∃ s' pre' post', packetGetOutput g s = some (firstWith .output (pre' ++ post'), s') ∧
      Rep g s' pre' post' ∧ Advanced pre post pre' post' ∧
      s' = { s with inputReader := s'.inputReader, outputReader := s'.outputReader } ∧
      ∀ e ∈ (pre' ++ post').head?, s'.outputReader = e.pos ∧ e.status ≠ .skip := by
  obtain ⟨k, kr, h⟩ := h
  have hfuel : (pre ++ post).length + markCount k < readerFuel g := by
    have h1 := h.length_le
    have h2 := markCount_le k
    unfold readerFuel
    omega
  have h0 : Layout g (outputView s s.outputReader false) k kr pre post := h
  obtain ⟨r, hr, ⟨⟨k', kr', pre', post', hL, hA⟩, hst, hstop⟩, hsk⟩ :=
    getOutputLoop_spec false h0 hfuel
  have hstops := OutputScanned.stops hL hst hstop
  have hres : (if r.state &&& State.output ≠ 0 then some r.reader else none) =
      firstWith .output (pre' ++ post') := by
    rcases hstops with ⟨he, hs⟩ | ⟨e, es, he, hp, hs, hne⟩
    · rw [he, hs]; rfl
    · rw [he, hs, hp, firstWith]
      have hw : e.word &&& State.output ≠ 0 ↔ e.status = .output := by
        refine (not_congr e.word_and_output).trans ?_
        cases hst : e.status <;> simp [hst] at hne ⊢
      by_cases heo : e.status = .output
      · rw [if_pos (hw.mpr heo), if_pos heo]
      · rw [if_neg (fun hc => heo (hw.mp hc)), if_neg heo]
  refine ⟨outputView s r.reader r.skipInput, pre', post', ?_, ⟨k', kr', hL⟩, hA, rfl, ?_⟩
  · simp only [packetGetOutput, hr, hres]
    congr 2
    cases hb : r.skipOutput with
    | true => rfl
    | false =>
        obtain ⟨-, h1, h2⟩ := hsk.resolve_left (by rw [hb]; decide)
        rw [h1, h2]
        rfl
  · intro e he
    rcases hstops with ⟨h1, -⟩ | ⟨e', es, h1, hp, -, hne⟩
    · rw [h1] at he; cases he
    · rw [h1] at he
      obtain rfl : e' = e := by simpa using he
      exact ⟨hp, hne⟩

end getOutput

/-! ### Releasing -/

section release

variable {g : Geometry} {s : Ring} {k kr : Option ℕ} {pre post l₁ l₂ : List Entry} {e : Entry}

namespace Layout

theorem state_eq (h : Layout g s k kr pre post) (he : e ∈ pre ++ post) :
    s.state g e.pos = e.word := (h.stored e he).word

/-- The slot behind an entry, as the source computes it. -/
theorem next_eq (h : Layout g s k kr pre post) (he : e ∈ pre ++ post) :
    getNextPacket g e.pos (packetGetLen (s.state g e.pos)) = e.next g := by
  rw [h.state_eq he, e.getLen_word]
  rfl

/-- The entries before and behind an entry lie elsewhere. -/
theorem pos_ne_of_split (h : Layout g s k kr pre post) (hes : pre ++ post = l₁ ++ e :: l₂) :
    (∀ e' ∈ l₁, e'.pos ≠ e.pos) ∧ ∀ e' ∈ l₂, e'.pos ≠ e.pos := by
  have hp := h.pairwise
  rw [hes, List.pairwise_append] at hp
  obtain ⟨-, h1, h2⟩ := hp
  have hne : ∀ {a b : Entry}, a.Apart g b → a.pos ≠ b.pos := by
    intro a b hab
    have := a.pos_lt_next g
    have := b.pos_lt_next g
    rcases hab with hab | hab <;> omega
  refine ⟨fun e' he' => hne (h2 e' he' e (by simp)), fun e' he' => ?_⟩
  exact (hne ((List.pairwise_cons.mp h1).1 e' he')).symm

theorem map_setStatus (h : Layout g s k kr pre post) (hes : pre ++ post = l₁ ++ e :: l₂)
    (st : Status) :
    (pre ++ post).map (setStatus e.pos st) = l₁ ++ e.withStatus st :: l₂ := by
  obtain ⟨h1, h2⟩ := h.pos_ne_of_split hes
  rw [hes, List.map_append, List.map_cons, setStatus_same,
    List.map_congr_left (fun e' he' => setStatus_of_ne (h1 e' he')),
    List.map_congr_left (fun e' he' => setStatus_of_ne (h2 e' he'))]
  simp

/-- Mark an entry with a new status and move `InputReader` behind it. -/
theorem passEntry (h : Layout g s k kr pre post) (hes : pre ++ post = l₁ ++ e :: l₂)
    {st : Status} (hno : stateWord st e.len ≠ State.startOver) :
    Rep g { s.setState g e.pos (stateWord st e.len) with inputReader := e.next g }
      (l₁ ++ [e.withStatus st]) l₂ := by
  have hmem : e ∈ pre ++ post := by rw [hes]; simp
  have h' := h.setState hmem st hno
  have hlist := h.map_setStatus hes st
  rw [List.map_append] at hlist
  have ht := h'.trail
  rw [hlist] at ht
  obtain ⟨k₁, h1, h2⟩ := ht.split_at
  refine ⟨k, k₁, h'.moveReaders (.stop _ _) h1 h2 ?_⟩
  intro e' he'
  rw [hlist]
  simpa using he'

end Layout

/-- `Packet_ReleaseInput` frees the packet if `OutputReader` is there, else it marks the packet
`Skip`.  In both cases `InputReader` continues behind the packet.  A packet of the greatest
length must not be marked: its state would be the `StartOver` mark. -/
theorem packetReleaseInput_spec (h : Rep g s pre post) (hes : pre ++ post = l₁ ++ e :: l₂)
    (hmax : e.len = 0x3FFF → s.outputReader = e.pos) :
    (s.outputReader = e.pos ∧ l₁ = [] ∧ Rep g (packetReleaseInput g s e.pos) [] l₂) ∨
      (s.outputReader ≠ e.pos ∧
        Rep g (packetReleaseInput g s e.pos) (l₁ ++ [e.withStatus .skip]) l₂) := by
  obtain ⟨k, kr, h⟩ := h
  have hmem : e ∈ pre ++ post := by rw [hes]; simp
  by_cases ho : s.outputReader = e.pos
  · obtain ⟨es, hes', ht⟩ := h.outputReader_at hmem ho
    rw [hes] at hes'
    have hl : l₁ = [] := by
      cases l₁ with
      | nil => rfl
      | cons a l =>
          obtain ⟨rfl, -⟩ : a = e ∧ l ++ e :: l₂ = es := by simpa using hes'
          exact absurd rfl ((h.pos_ne_of_split hes).1 a (by simp))
    subst hl
    obtain rfl : l₂ = es := by simpa using hes'
    refine Or.inl ⟨ho, rfl, k, k, ?_⟩
    have hd : RingTrail g k s.outputReader [e] k (e.next g) := by rw [ho]; exact .single _ e
    have hL := h.moveReaders hd (.stop _ _) ht (fun e' he' => by
      rw [hes]; exact List.mem_cons_of_mem _ (by simpa using he'))
    simp only [packetReleaseInput]
    rw [if_pos ho, h.next_eq hmem]
    exact hL
  · refine Or.inr ⟨ho, ?_⟩
    have hno : stateWord .skip e.len ≠ State.startOver := by
      intro hw
      exact ho (hmax ((stateWord_eq_startOver e.len_lt).mp hw).2)
    simp only [packetReleaseInput]
    rw [if_neg ho, h.next_eq hmem, show Ring.state g { s with inputReader := e.next g } e.pos =
      s.state g e.pos from rfl, h.state_eq hmem, Entry.word, stateWord_or_skip e.len_lt_max]
    exact h.passEntry hes hno

/-- `Packet_ReattachOutput` turns an input packet into an output packet. -/
theorem packetReattachOutput_spec (h : Rep g s pre post) (hes : pre ++ post = l₁ ++ e :: l₂)
    (hst : e.status = .input) :
    ∃ s', packetReattachOutput g s e.pos = some s' ∧
      s'.outputReader = s.outputReader ∧ s'.nextWriter = s.nextWriter ∧
      Rep g s' (l₁ ++ [e.withStatus .output]) l₂ := by
  obtain ⟨k, kr, h⟩ := h
  have hmem : e ∈ pre ++ post := by rw [hes]; simp
  have hno : stateWord .output e.len ≠ State.startOver := by
    intro hw
    cases ((stateWord_eq_startOver e.len_lt).mp hw).1
  refine ⟨{ s.setState g e.pos (stateWord .output e.len) with inputReader := e.next g }, ?_, rfl,
    rfl, h.passEntry hes hno⟩
  have hin : s.state g e.pos &&& State.skip = State.input := by
    rw [h.state_eq hmem]
    exact (e.word_and_skip .input).mpr hst
  simp only [packetReattachOutput]
  rw [if_pos hin, h.state_eq hmem, e.getLen_word, or_output e.len_lt_max]
  rfl

/-- `Packet_ReleaseOutput` frees the first entry. -/
theorem packetReleaseOutput_spec (h : Rep g s pre post) (he : e ∈ pre ++ post)
    (ho : s.outputReader = e.pos) :
    ∃ pre' post', pre ++ post = e :: (pre' ++ post') ∧ pre' = pre.tail ∧
      Rep g (packetReleaseOutput g s e.pos) pre' post' := by
  obtain ⟨k, kr, h⟩ := h
  obtain ⟨es, hes, ht⟩ := h.outputReader_at he ho
  have hd : RingTrail g k s.outputReader [e] k (e.next g) := by rw [ho]; exact .single _ e
  have hsub : ∀ e' ∈ es, e' ∈ pre ++ post := fun e' he' => by
    rw [hes]; exact List.mem_cons_of_mem _ he'
  simp only [packetReleaseOutput]
  rw [h.next_eq he]
  by_cases hi : s.inputReader = e.pos
  · obtain ⟨rfl, -⟩ := h.readers_meet (ho.trans hi.symm)
    rw [if_pos hi]
    exact ⟨[], es, hes, rfl, k, k, h.moveReaders hd (.stop _ _) ht hsub⟩
  · rw [if_neg hi]
    cases pre with
    | nil =>
        rcases h.behind.nil_inv with ⟨-, hx⟩ | ⟨hk, -⟩
        · exact absurd (hx.trans ho) hi
        · exact absurd (hk.trans (congrArg some ho)) (h.pos_ne_mark he)
    | cons a pre =>
        obtain ⟨rfl, rfl⟩ : a = e ∧ pre ++ post = es := by simpa using hes
        refine ⟨pre, post, rfl, rfl, k, kr, ?_⟩
        rcases h.behind.cons_inv with ⟨-, hb⟩ | ⟨hk, -⟩
        · exact h.moveReaders hd hb h.ahead hsub
        · exact absurd (hk.trans (congrArg some ho)) (h.pos_ne_mark he)

end release

end TimeSwitch.PacketBuffer
