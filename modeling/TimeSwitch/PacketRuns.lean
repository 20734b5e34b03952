import TimeSwitch.PacketFifo

/-! # Runs of the packet buffer

The invariant `Queued` holds at program start and every call keeps it, except for the two calls
that damage the ring.  So the ring implements the queue in every state that a run without these
calls reaches. -/

namespace TimeSwitch.PacketBuffer

open ByteMemory

variable {g : Geometry} {s : Ring} {q : List Entry} {x x' : Ring × List Entry} {c : Call}

/-- A call that neither releases nor resizes the packet at slot `p`, nor writes its data. -/
def Undisturbed (p : ℕ) : Call → Prop
  | .resize p' _ => p' ≠ p
  | .releaseInput p' => p' ≠ p
  | .releaseOutput p' => p' ≠ p
  | .store p' _ _ => p' ≠ p
  | _ => True

/-! ### One call -/

/-- Every allowed call keeps the invariant, except for the two that damage the ring. -/
theorem Queued.keeps (h : Queued g s q) (ha : Allowed g s q c) (hmark : ¬ releasesAsMark g s c)
    (hex : ¬ exposesData g s c) : Keeps g s q c := by
  cases c with
  | new len => exact h.new ha
  | resize p len => exact (h.resize ha hex).1
  | putInput p => exact h.putInput ha
  | putOutput p => exact h.putOutput ha
  | getInput => exact h.getInput
  | getOutput => exact h.getOutput
  | releaseInput p => exact h.releaseInput ha hmark
  | releaseOutput p => exact h.releaseOutput ha
  | reattachOutput p => exact h.reattachOutput ha
  | store p i bs => exact h.store ha

theorem Queued.step (h : Queued g x.1 x.2) (hs : Step g x c x') (hmark : ¬ releasesAsMark g x.1 c)
    (hex : ¬ exposesData g x.1 c) : Queued g x'.1 x'.2 := by
  obtain ⟨ha, r, hr, ht⟩ := hs
  obtain ⟨r', s', hr', hq⟩ := h.keeps ha hmark hex
  obtain ⟨rfl, rfl⟩ := Prod.mk.inj (Option.some.inj (hr'.symm.trans hr))
  rw [ht]
  exact hq

/-- The ring at program start is empty. -/
theorem queued_start (g : Geometry) (m : Mem) : Queued g (start g m).1 (start g m).2 :=
  ⟨[], [], rep_init g m, by simp, rfl⟩

/-- **Run lemma**: a run without the two calls keeps the invariant. -/
theorem queued_of_run {m : Mem} {es : List Call}
    (h : Run (Guarded (fun x c => ¬ releasesAsMark g x.1 c ∧ ¬ exposesData g x.1 c) (Step g))
      (start g m) es x) : Queued g x.1 x.2 :=
  h.invariant (I := fun x => Queued g x.1 x.2)
    (fun _ _ _ hy hs => hy.step hs.2 hs.1.1 hs.1.2) (queued_start g m)

/-! ### The data of the packets -/

theorem setStatus_keeps (p : ℕ) (st : Status) {e : Entry} (he : e ∈ q) :
    ∃ e' ∈ q.map (setStatus p st), e'.pos = e.pos ∧ e'.data = e.data :=
  ⟨_, List.mem_map_of_mem he, setStatus_pos _ _ _, setStatus_data _ _ _⟩

theorem remove_keeps {p : ℕ} {e : Entry} (he : e ∈ q) (hp : p ≠ e.pos) : e ∈ remove p q :=
  List.mem_filter.mpr ⟨he, by simpa using hp.symm⟩

theorem addFresh_keeps {p len : ℕ} {e : Entry} (he : e ∈ q) : e ∈ addFresh g s p len q := by
  unfold addFresh
  split_ifs
  · exact List.mem_append_left _ he
  · exact he

/-- A packet stays in the queue with its data until it is released, resized or written. -/
theorem Step.undisturbed (h : Step g x c x') {e : Entry} (he : e ∈ x.2)
    (hu : Undisturbed e.pos c) : ∃ e' ∈ x'.2, e'.pos = e.pos ∧ e'.data = e.data := by
  obtain ⟨-, r, -, ht⟩ := h
  rw [ht]
  cases c with
  | new len =>
      cases r with
      | none => exact ⟨e, he, rfl, rfl⟩
      | some p => exact ⟨e, addFresh_keeps he, rfl, rfl⟩
  | resize p len =>
      cases r with
      | none => exact ⟨e, he, rfl, rfl⟩
      | some p' =>
          have hp : p ≠ e.pos := hu
          unfold track
          by_cases hpp : p' = p
          · refine ⟨_, ?_, rfl, rfl⟩
            have hsame : refresh g x'.1 p len e = e := dif_neg (fun hc => hp hc.1.symm)
            have hmem : refresh g x'.1 p len e ∈ x.2.map (refresh g x'.1 p len) :=
              List.mem_map_of_mem he
            rw [hsame] at hmem
            simpa only [if_pos hpp] using hmem
          · refine ⟨e, ?_, rfl, rfl⟩
            simpa only [if_neg hpp] using addFresh_keeps (remove_keeps he hp)
  | putInput p => exact setStatus_keeps p .input he
  | putOutput p => exact setStatus_keeps p .output he
  | getInput => exact ⟨e, he, rfl, rfl⟩
  | getOutput => exact ⟨e, he, rfl, rfl⟩
  | releaseInput p => exact ⟨e, remove_keeps he hu, rfl, rfl⟩
  | releaseOutput p => exact ⟨e, remove_keeps he hu, rfl, rfl⟩
  | reattachOutput p => exact setStatus_keeps p .output he
  | store p i bs =>
      have hp : p ≠ e.pos := hu
      refine ⟨e, ?_, rfl, rfl⟩
      have hsame : setData p i bs e = e := setData_of_ne hp.symm
      have hmem : setData p i bs e ∈ x.2.map (setData p i bs) := List.mem_map_of_mem he
      rwa [hsame] at hmem

/-! ### The queue without `Packet_Resize` -/

/-- A call other than `Packet_Resize`. -/
def FifoStep (g : Geometry) (x : Ring × List Entry) (c : Call) (x' : Ring × List Entry) : Prop :=
  (∀ p len, c ≠ .resize p len) ∧ Step g x c x'

theorem not_exposesData (hc : ∀ p len, c ≠ .resize p len) : ¬ exposesData g s c := by
  cases c with
  | resize p len => exact absurd rfl (hc p len)
  | _ => exact id

/-- In a run that never releases an input packet of 0x3FFF bytes while `OutputReader` is at
another slot, the ring implements the queue, no assertion fails, and the packets keep their
data until they are released. -/
theorem ring_refines_fifo (g : Geometry) (m : Mem) {es : List Call}
    (h : Run (Guarded (fun x c => ¬ releasesAsMark g x.1 c) (FifoStep g)) (start g m) es x) :
    Refines g x.1 x.2 ∧
      ∀ c, Allowed g x.1 x.2 c → (∀ p len, c ≠ .resize p len) → ¬ releasesAsMark g x.1 c →
        ∃ x', Step g x c x' ∧
          ∀ e ∈ x.2, Undisturbed e.pos c → ∃ e' ∈ x'.2, e'.pos = e.pos ∧ e'.data = e.data := by
  have hq : Queued g x.1 x.2 :=
    queued_of_run (h.mono (fun _ _ _ hs => ⟨⟨hs.1, not_exposesData hs.2.1⟩, hs.2.2⟩))
  refine ⟨hq.refines, fun c ha hc hmark => ?_⟩
  obtain ⟨r, s', hr, -⟩ := hq.keeps ha hmark (not_exposesData hc)
  have hstep : Step g x c (s', track g x.2 r s' c) := ⟨ha, r, hr, rfl⟩
  exact ⟨_, hstep, fun e he hu => hstep.undisturbed he hu⟩

def Call.isResize : Call → Bool
  | .resize _ _ => true
  | _ => false

theorem isResize_iff (c : Call) : c.isResize = false ↔ ∀ p len, c ≠ .resize p len := by
  cases c <;> simp [Call.isResize]

instance (c : Call) : Decidable (∀ p len, c ≠ .resize p len) :=
  decidable_of_iff (c.isResize = false) (isResize_iff c)

/-- `FifoStep` as a function. -/
def fifoOnce (g : Geometry) : Ring × List Entry → Call → Option (Ring × List Entry) :=
  Run.guardOnce (fun _ c => ∀ p len, c ≠ .resize p len) (stepOnce g)

theorem step_of_fifoOnce (g : Geometry) : ∀ x c x', fifoOnce g x c = some x' → FifoStep g x c x' :=
  Run.of_guardOnce (fun _ _ _ h => step_of_stepOnce g h)

/-- A ring of 8200 slots of 2 bytes. -/
def largeRing : Geometry := .avr 8200

/-- A ring of 8 slots of 4 bytes. -/
def smallRing : Geometry := ⟨4, 8, Or.inr rfl⟩

/-- A packet that is received, sent back and released, and one that is dropped. -/
def echoCalls : List Call :=
  [.new 3, .store 0 0 [1, 2, 3], .putInput 0, .new 5, .putInput 2, .getInput, .reattachOutput 0,
    .getInput, .releaseInput 2, .getOutput, .releaseOutput 0, .new 9, .getInput, .getOutput]

theorem ring_refines_fifo_echo : ∃ x, Run (Guarded (fun x c => ¬ releasesAsMark smallRing x.1 c)
    (FifoStep smallRing)) (start smallRing (fun _ => 0)) echoCalls x ∧ x.2.length = 1 ∧
      Refines smallRing x.1 x.2 := by
  have h : (Run.exec (Run.guardOnce (fun x c => ¬ releasesAsMark smallRing x.1 c)
      (fifoOnce smallRing)) (start smallRing (fun _ => 0)) echoCalls).any
      (fun x => x.2.length = 1) = true := by
    decide +kernel
  obtain ⟨x, hx, hlen⟩ := Run.of_exec_any (Run.of_guardOnce (step_of_fifoOnce smallRing)) h
  exact ⟨x, hx, by simpa using hlen, (ring_refines_fifo smallRing _ hx).1⟩

/-- An input packet of 0x3FFF bytes behind an output packet is released: `Packet_GetOutput` goes
on at slot 0 and returns the output packet a second time. -/
def markCalls : List Call :=
  [.new 0, .new 0x3FFF, .putInput 0, .putInput 1, .getInput, .reattachOutput 0, .getInput,
    .releaseInput 1, .getOutput, .releaseOutput 0]

theorem not_refines_fifo : ∃ x, Run (FifoStep largeRing) (start largeRing (fun _ => 0)) markCalls x ∧
    ¬ Refines largeRing x.1 x.2 := by
  have h : (Run.exec (fifoOnce largeRing) (start largeRing (fun _ => 0)) markCalls).any
      (fun x => (packetGetOutput largeRing x.1).map Prod.fst ≠ some (Fifo.getOutput x.2)) =
      true := by
    decide +kernel
  obtain ⟨x, hx, hne⟩ := Run.of_exec_any (step_of_fifoOnce largeRing) h
  refine ⟨x, hx, fun hr => ?_⟩
  exact absurd hr.output (by simpa using hne)

/-! ### All calls -/

theorem exposesData_breaks {p len : ℕ} (h : Queued g s q) (ha : Allowed g s q (.resize p len))
    (hex : exposesData g s (.resize p len)) : ¬ ResizeKeeps g s q p len := by
  obtain ⟨pre, post, ⟨k, kr, hL⟩, -, rfl⟩ := h
  obtain ⟨hl, e, he, rfl, hu⟩ := ha
  obtain ⟨hlt, hlast, hstale⟩ := hex
  have hmem := (mem_unreleased.mp he).1
  have hw : s.state g e.pos = e.len := by
    rw [hL.state_eq hmem, Entry.word, hu]
    exact stateWord_unfinished _
  have h0 : s.state g e.pos &&& State.skip = 0 := by
    have := (e.word_and_skip .unfinished).mpr hu
    rwa [← hL.state_eq hmem] at this
  have hr : packetResize g s e.pos len = some (some e.pos,
      ({ s with nextWriter := getNextPacket g e.pos len } : Ring).setState g e.pos len) := by
    simp only [packetResize, h0, ne_eq, not_true_eq_false, if_false, splitRemainder, if_pos hlt,
      if_pos hlast, if_pos hlt.le]
  intro hk
  obtain ⟨live, hwalk, -⟩ := hk _ _ hr
  have hend := hwalk.writer
  have hsep := stateAddr_add_le g (lt_getNextPacket g e.pos len)
  refine hstale (Eq.trans ?_ hend)
  exact (Mem.word_setWord_disjoint (Or.inr hsep)).symm

/-- In a run without the two calls that damage the ring, the ring implements the queue, and
`Packet_Resize` keeps its promise exactly if it does not make an old data word the end of the
ring. -/
theorem resize_keeps_iff (g : Geometry) (m : Mem) {es : List Call}
    (h : Run (Guarded (fun x c => ¬ releasesAsMark g x.1 c ∧ ¬ exposesData g x.1 c) (Step g))
      (start g m) es x) :
    Refines g x.1 x.2 ∧ ∀ p len, Allowed g x.1 x.2 (.resize p len) →
      (ResizeKeeps g x.1 x.2 p len ↔ ¬ exposesData g x.1 (.resize p len)) := by
  have hq := queued_of_run h
  refine ⟨hq.refines, fun p len ha => ⟨fun hk hex => ?_, fun hex => (hq.resize ha hex).2⟩⟩
  exact exposesData_breaks hq ha hex hk

/-- `stepOnce` with the condition of the run. -/
def soundOnce (g : Geometry) : Ring × List Entry → Call → Option (Ring × List Entry) :=
  Run.guardOnce (fun x c => ¬ releasesAsMark g x.1 c ∧ ¬ exposesData g x.1 c) (stepOnce g)

theorem step_of_soundOnce (g : Geometry) : ∀ x c x', soundOnce g x c = some x' →
    Guarded (fun x c => ¬ releasesAsMark g x.1 c ∧ ¬ exposesData g x.1 c) (Step g) x c x' :=
  Run.of_guardOnce (fun _ _ _ h => step_of_stepOnce g h)

/-- A packet is extended in place, another one is allocated behind it, and the first one shrinks
and is moved. -/
def resizeCalls : List Call :=
  [.new 3, .store 0 0 [1, 2, 3], .resize 0 9, .new 1, .resize 0 2, .putInput 3, .resize 0 6]

theorem resize_keeps_iff_moved : ∃ x, Run (Guarded (fun x c => ¬ releasesAsMark smallRing x.1 c ∧
    ¬ exposesData smallRing x.1 c) (Step smallRing)) (start smallRing (fun _ => 0)) resizeCalls x ∧
      Refines smallRing x.1 x.2 ∧ ResizeKeeps smallRing x.1 x.2 4 7 := by
  have h : (Run.exec (soundOnce smallRing) (start smallRing (fun _ => 0)) resizeCalls).any
      (fun x => Allowed smallRing x.1 x.2 (.resize 4 7) ∧
        ¬ exposesData smallRing x.1 (.resize 4 7)) = true := by
    decide +kernel
  obtain ⟨x, hx, hc⟩ := Run.of_exec_any (step_of_soundOnce _) h
  obtain ⟨ha, hex⟩ := of_decide_eq_true hc
  obtain ⟨hr, hk⟩ := resize_keeps_iff smallRing _ hx
  exact ⟨x, hx, hr, (hk 4 7 ha).mpr hex⟩

/-- The last packet shrinks after data were stored in it: a data word is the end of the ring. -/
def shrinkCalls : List Call := [.new 8, .store 0 0 [1, 2, 3, 4, 5, 6, 7, 8]]

theorem not_resize_keeps : ∃ x, Run (Step smallRing) (start smallRing (fun _ => 0)) shrinkCalls x ∧
    Allowed smallRing x.1 x.2 (.resize 0 2) ∧ ¬ ResizeKeeps smallRing x.1 x.2 0 2 := by
  have h : (Run.exec (soundOnce smallRing) (start smallRing (fun _ => 0)) shrinkCalls).any
      (fun x => Allowed smallRing x.1 x.2 (.resize 0 2) ∧
        exposesData smallRing x.1 (.resize 0 2)) = true := by
    decide +kernel
  obtain ⟨x, hx, hc⟩ := Run.of_exec_any (step_of_soundOnce _) h
  obtain ⟨ha, hex⟩ := of_decide_eq_true hc
  refine ⟨x, hx.mono (fun _ _ _ hs => hs.2), ha, fun hk => ?_⟩
  exact exposesData_breaks (queued_of_run hx) ha hex hk

end TimeSwitch.PacketBuffer
