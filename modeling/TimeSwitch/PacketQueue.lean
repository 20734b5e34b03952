import TimeSwitch.Library.Runs
import TimeSwitch.PacketLayout

/-! # The packet queues of the C++ version

`c++/Queue.cpp` and `c++/Packet.cpp`: the same ring as `PacketBuffer.c`, with an allocator
(`Packet::operator new`) and a class for each direction.  Memory and static pointers are those of
`Ring`; `ringBuffer.start` has 30 packets.  A loop takes a bound on its iterations; a failed
assertion, like a loop that does not end within the bound, is `none`.

The lengths disagree.  `RingBuffer::Get` counts the packet with its header, and `operator new` then
stores the length without it, so the way to the next packet ends one unit too early.  The flags
disagree as well: `InputQueue::Push` expects the flag that `OutputQueue::Push` does not set. -/

namespace TimeSwitch.PacketQueue

open PacketBuffer ByteMemory

variable (g : Geometry)

/-- `ringBuffer.start[30]`, for a `sizeof(Packet)` of 2 or 4 bytes. -/
def ringBuffer (unit : ℕ) (h : unit = 2 ∨ unit = 4) : Geometry := ⟨unit, 30, h⟩

/-- `RingBuffer` at program start. -/
def Ring.start : Ring := ⟨fun _ => 0, 0, 0, 0⟩

/-! ### `RingBuffer` -/

/-- `Packet::getLen` -/
def getLen (s : Ring) (packet : ℕ) : ℕ := packetGetLen (s.state g packet)

/-- `getNextPacket(packet, len)` -/
def getNextPacket (packet len : ℕ) : ℕ := packet + divRoundUp len g.unit

/-- The last lines of `RingBuffer::Get`. -/
def handOut (s : Ring) (writer nextPacket len : ℕ) : Ring :=
  { (s.setState g nextPacket State.endOfRing).setState g writer len with nextWriter := nextPacket }

/-- `RingBuffer::Get` -/
def get (s : Ring) (len : ℕ) : Option (Option ℕ × Ring) :=
  let writer := s.nextWriter
  let lastReader := s.outputReader
  let nextPacket := getNextPacket g writer len
  if lastReader ≤ writer then
    if g.slots < nextPacket then
      let nextPacket := getNextPacket g 0 len
      if writer = lastReader then
        if nextPacket ≤ g.slots then
          some (some 0, handOut g { s with inputReader := 0, outputReader := 0 } 0 nextPacket len)
        else none
      else if nextPacket < lastReader then
        some (some 0, handOut g (s.setState g writer State.startOver) 0 nextPacket len)
      else some (none, s)
    else some (some writer, handOut g s writer nextPacket len)
  else if lastReader ≤ nextPacket then some (none, s)
  else some (some writer, handOut g s writer nextPacket len)

/-- `RingBuffer::Release` -/
def release (s : Ring) (packet : ℕ) : Ring :=
  let nextPacket := getNextPacket g packet (getLen g s packet)
  let s := if s.inputReader = packet then { s with inputReader := nextPacket } else s
  if s.outputReader = packet then { s with outputReader := nextPacket }
  else s.setState g packet (s.state g packet ||| State.skip)

/-- `Packet::operator new` -/
def operatorNew (s : Ring) (sizeOfClass extraBytes : ℕ) : Option (Option ℕ × Ring) :=
  (get g s (sizeOfClass + extraBytes)).map fun r =>
    match r with
    | (some packet, s) => (some packet, s.setState g packet (sizeOfClass + extraBytes - g.unit))
    | (none, s) => (none, s)

/-! ### The queues -/

/-- `InputQueue::Push` -/
def inputQueuePush (s : Ring) (packet : ℕ) : Option Ring :=
  if s.state g packet &&& State.output = State.output then
    some (s.setState g packet (s.state g packet ||| State.input))
  else none

/-- `OutputQueue::Push` -/
def outputQueuePush (s : Ring) (packet : ℕ) : Ring :=
  let len := getLen g s packet
  let s := if s.state g packet &&& State.input = State.input then
      { s with inputReader := getNextPacket g packet len }
    else s
  s.setState g packet (len ||| State.input)

/-- Where the loops go from `reader`. -/
def advance (s : Ring) (reader : ℕ) : ℕ :=
  if s.state g reader = State.startOver then 0
  else getNextPacket g reader (getLen g s reader)

/-- The loop of `InputQueue::Pop`: entries of type `Output` or `Skip`. -/
def inputLoop : ℕ → Ring → ℕ → Bool → Bool → Option (Scan × Ring)
  | 0, _, _, _, _ => none
  | fuel + 1, s, reader, skipInput, skipOutput =>
      let state := s.state g reader
      if state &&& State.output ≠ State.output then some (⟨reader, state, skipInput, skipOutput⟩, s)
      else if skipOutput = true ∧ state &&& State.input ≠ State.input then
        inputLoop fuel { s with outputReader := reader } (advance g s reader) true false
      else inputLoop fuel s (advance g s reader) true skipOutput

/-- `InputQueue::Pop` -/
def inputQueuePop (fuel : ℕ) (s : Ring) : Option (Option ℕ × Ring) :=
  (inputLoop g fuel s s.inputReader false (decide (s.outputReader = s.inputReader))).map fun r =>
    let s := if r.1.skipInput then
        { r.2 with
          inputReader := r.1.reader
          outputReader := if r.1.skipOutput then r.1.reader else r.2.outputReader }
      else r.2
    (if r.1.state &&& State.input = State.input then some r.1.reader else none, s)

/-- The loop of `OutputQueue::Pop`: entries of type `Skip`. -/
def outputLoop (s : Ring) (input : ℕ) : ℕ → ℕ → Bool → Bool → Option Scan
  | 0, _, _, _ => none
  | fuel + 1, reader, skipInput, skipOutput =>
      let state := s.state g reader
      if state &&& State.skip ≠ State.skip then some ⟨reader, state, skipInput, skipOutput⟩
      else outputLoop s input fuel (advance g s reader)
        (if skipInput = false ∧ input = reader then true else skipInput) true

/-- `OutputQueue::Pop` -/
def outputQueuePop (fuel : ℕ) (s : Ring) : Option (Option ℕ × Ring) :=
  (outputLoop g s s.inputReader fuel s.outputReader false false).map fun r =>
    let s := if r.skipOutput then
        { s with
          outputReader := r.reader
          inputReader := if r.skipInput then r.reader else s.inputReader }
      else s
    (if r.state &&& State.output = State.output then some r.reader else none, s)

/-! ### The packets of a run -/

/-- Where a packet is: new, or pushed to a queue. -/
inductive Place where
  | fresh
  | input
  | output
deriving DecidableEq

/-- A packet that was handed out, its size with the header, its place, and whether the run holds
it: `operator new` or a `Pop` returned it. -/
structure Handle where
  pos : ℕ
  size : ℕ
  place : Place
  held : Bool
deriving DecidableEq

/-- The ring, and the packets that are handed out and not freed, in the order of their
allocation. -/
structure Sys where
  ring : Ring
  live : List Handle

def Sys.init : Sys := ⟨Ring.start, []⟩

/-- The run holds the packet. -/
def Sys.Holds (x : Sys) (packet : ℕ) : Prop := ∃ h ∈ x.live, h.pos = packet ∧ h.held = true

instance (x : Sys) (packet : ℕ) : Decidable (x.Holds packet) := by
  unfold Sys.Holds
  infer_instance

/-- Change the handle of a packet. -/
def Sys.mark (x : Sys) (packet : ℕ) (f : Handle → Handle) : List Handle :=
  x.live.map fun h => if h.pos = packet then f h else h

/-- A packet that a `Pop` returned. -/
def Sys.popped (x : Sys) : Option ℕ → List Handle
  | none => x.live
  | some p => x.mark p fun h => { h with held := true }

/-- What the program can do; `write` stores bytes behind the header of a packet. -/
inductive Event where
  | new (sizeOfClass extraBytes : ℕ)
  | inputPush (packet : ℕ)
  | outputPush (packet : ℕ)
  | inputPop
  | outputPop
  | delete (packet : ℕ)
  | write (packet offset : ℕ) (bytes : List UInt8)
deriving DecidableEq

/-- The class is `Packet` or derived from it, and the packet fits into the ring. -/
def Fits (sizeOfClass extraBytes : ℕ) : Prop :=
  g.unit ≤ sizeOfClass ∧ divRoundUp (sizeOfClass + extraBytes) g.unit ≤ g.slots

instance (sizeOfClass extraBytes : ℕ) : Decidable (Fits g sizeOfClass extraBytes) := by
  unfold Fits
  infer_instance

/-- One call, on packets that the run holds, or one write into such a packet. -/
def stepOnce (fuel : ℕ) (x : Sys) : Event → Option Sys
  | .new sizeOfClass extraBytes =>
      if Fits g sizeOfClass extraBytes then
        (operatorNew g x.ring sizeOfClass extraBytes).map fun r =>
          ⟨r.2, match r.1 with
            | some p => x.live ++ [⟨p, sizeOfClass + extraBytes, .fresh, true⟩]
            | none => x.live⟩
      else none
  | .inputPush p =>
      if x.Holds p then (inputQueuePush g x.ring p).map fun s =>
        ⟨s, x.mark p fun h => { h with place := .input, held := false }⟩
      else none
  | .outputPush p =>
      if x.Holds p then
        some ⟨outputQueuePush g x.ring p,
          x.mark p fun h => { h with place := .output, held := false }⟩
      else none
  | .inputPop => (inputQueuePop g fuel x.ring).map fun r => ⟨r.2, x.popped r.1⟩
  | .outputPop => (outputQueuePop g fuel x.ring).map fun r => ⟨r.2, x.popped r.1⟩
  | .delete p =>
      if x.Holds p then some ⟨release g x.ring p, x.live.filter fun h => h.pos ≠ p⟩ else none
  | .write p offset bytes =>
      if ∃ h ∈ x.live, h.pos = p ∧ h.held = true ∧ 2 ≤ offset ∧ offset + bytes.length ≤ h.size then
        some { x with ring := x.ring.write (stateAddr g p + offset) bytes }
      else none

/-- A step: every loop ends. -/
def Step (x : Sys) (e : Event) (x' : Sys) : Prop := ∃ fuel, stepOnce g fuel x e = some x'

/-! ### The abstract queue -/

/-- The walk from a reader to `nextWriter`, by `getLen` and `StartOver`. -/
inductive Walk (s : Ring) : ℕ → List ℕ → Prop
  | done : Walk s s.nextWriter []
  | visit {u : ℕ} {us : List ℕ} : u ≠ s.nextWriter → Walk s (advance g s u) us → Walk s u (u :: us)

/-- What `InputQueue::Pop` has to return: the first packet that is not in the output queue, if it
was pushed to the input queue. -/
def Sys.nextInput (x : Sys) : Option ℕ :=
  (x.live.find? fun h => h.place ≠ .output).bind fun h =>
    if h.place = .input then some h.pos else none

/-- What `OutputQueue::Pop` has to return: the first packet, if it was pushed to the output
queue. -/
def Sys.nextOutput (x : Sys) : Option ℕ :=
  x.live.head?.bind fun h => if h.place = .output then some h.pos else none

/-- The ring is a FIFO of the packets handed out. -/
structure Correct (x : Sys) : Prop where
  /-- The walk visits the packets that are not freed, each once, and besides them only entries of
  type `Skip`. -/
  walk : ∃ us, Walk g x.ring x.ring.outputReader us ∧ us.Nodup ∧
    ∀ u, (u ∈ us ∧ x.ring.state g u &&& State.skip ≠ State.skip) ↔ ∃ h ∈ x.live, h.pos = u
  /-- A new packet can be pushed to the input queue.  (`outputQueuePush` has no assertion.) -/
  pushable : ∀ h ∈ x.live, h.place = .fresh → inputQueuePush g x.ring h.pos ≠ none
  inputPop : ∃ fuel s, inputQueuePop g fuel x.ring = some (x.nextInput, s)
  outputPop : ∃ fuel s, outputQueuePop g fuel x.ring = some (x.nextOutput, s)

/-- `Packet::operator new` is called. -/
def Event.Allocates : Event → Prop
  | .new _ _ => True
  | _ => False

/-! ### Without a packet -/

theorem start_state (u : ℕ) : Ring.start.state g u = 0 := rfl

theorem start_inputPop (fuel : ℕ) :
    inputQueuePop g (fuel + 1) Ring.start = some (none, Ring.start) := by
  simp [inputQueuePop, inputLoop, start_state, State.output, State.input]

theorem start_outputPop (fuel : ℕ) :
    outputQueuePop g (fuel + 1) Ring.start = some (none, Ring.start) := by
  simp [outputQueuePop, outputLoop, start_state, State.skip, State.output]

theorem correct_init : Correct g Sys.init where
  walk := ⟨[], .done, List.nodup_nil, by simp [Sys.init]⟩
  pushable := by simp [Sys.init]
  inputPop := ⟨1, Ring.start, start_inputPop g 0⟩
  outputPop := ⟨1, Ring.start, start_outputPop g 0⟩

/-- Before the first allocation nothing changes. -/
theorem step_init {e : Event} {x : Sys} (he : ¬ e.Allocates) (h : Step g Sys.init e x) :
    x = Sys.init := by
  obtain ⟨fuel, h⟩ := h
  have hno : ∀ p, ¬ Sys.init.Holds p := by
    rintro p ⟨h, hl, -⟩
    cases hl
  cases e with
  | new c e => exact absurd trivial he
  | inputPush p =>
      rw [stepOnce, if_neg (hno p)] at h
      cases h
  | outputPush p =>
      rw [stepOnce, if_neg (hno p)] at h
      cases h
  | delete p =>
      rw [stepOnce, if_neg (hno p)] at h
      cases h
  | write p offset bytes =>
      rw [stepOnce, if_neg] at h
      · cases h
      · rintro ⟨h, hl, -⟩
        cases hl
  | inputPop =>
      cases fuel with
      | zero => cases h
      | succ fuel =>
          rw [stepOnce, show Sys.init.ring = Ring.start from rfl, start_inputPop] at h
          exact (Option.some.inj h).symm
  | outputPop =>
      cases fuel with
      | zero => cases h
      | succ fuel =>
          rw [stepOnce, show Sys.init.ring = Ring.start from rfl, start_outputPop] at h
          exact (Option.some.inj h).symm

theorem stays_init {es : List Event} {x : Sys} (hno : ∀ e ∈ es, ¬ e.Allocates)
    (h : Run (Step g) Sys.init es x) : x = Sys.init := by
  induction es with
  | nil =>
      cases h
      rfl
  | cons e es ih =>
      cases h with
      | cons hs hrest =>
          obtain rfl := step_init g (hno e (by simp)) hs
          exact ih (fun e' he' => hno e' (List.mem_cons_of_mem _ he')) hrest

/-! ### The first packet -/

section first

variable {g} {s : Ring}

theorem Walk.inv {u : ℕ} {us : List ℕ} (h : Walk g s u us) : (u = s.nextWriter ∧ us = []) ∨
    ∃ vs, us = u :: vs ∧ u ≠ s.nextWriter ∧ Walk g s (advance g s u) vs := by
  cases h with
  | done => exact Or.inl ⟨rfl, rfl⟩
  | visit hn hw => exact Or.inr ⟨_, rfl, hn, hw⟩

/-- A reader that stays where it is does not come to `nextWriter`. -/
theorem not_walk_of_stuck {u : ℕ} (hu : advance g s u = u) (hn : u ≠ s.nextWriter) (us : List ℕ) :
    ¬ Walk g s u us := by
  induction us with
  | nil =>
      intro h
      rcases h.inv with ⟨hend, -⟩ | ⟨vs, hvs, -⟩
      · exact hn hend
      · cases hvs
  | cons v us ih =>
      intro h
      rcases h.inv with ⟨-, hnil⟩ | ⟨vs, hvs, -, hw⟩
      · cases hnil
      · obtain ⟨-, rfl⟩ := List.cons.inj hvs
        rw [hu] at hw
        exact ih hw

/-- An entry without flags and length is its own successor. -/
theorem advance_of_zero {u : ℕ} (h : s.state g u = 0) : advance g s u = u := by
  have hlen : getLen g s u = 0 := by
    rw [getLen, h]
    rfl
  have hunits : divRoundUp 0 g.unit = 0 := by
    have hu := g.unit_eq
    unfold divRoundUp
    rcases hu with hu | hu <;> rw [hu]
  rw [advance, if_neg (by rw [h]; decide), getNextPacket, hlen, hunits, Nat.add_zero]

/-- The length that `operator new` stores leads one unit short of the next packet. -/
theorem divRoundUp_sub {total unit : ℕ} (hunit : 0 < unit) (h : unit ≤ total) :
    divRoundUp (total - unit) unit + 1 = divRoundUp total unit := by
  unfold divRoundUp
  rw [show total + unit - 1 = (total - unit + unit - 1) + unit by omega, Nat.add_div_right _ hunit]

/-- The first packet stands at the start, with the length of its data. -/
theorem operatorNew_start {c e : ℕ} (hlong : c + e - g.unit < 2 ^ 14) (hfit : Fits g c e) :
    ∃ s, operatorNew g Ring.start c e = some (some 0, s) ∧ s.outputReader = 0 ∧
      s.nextWriter = divRoundUp (c + e) g.unit ∧ s.state g 0 = c + e - g.unit ∧
      ∀ u, u ≠ 0 → s.state g u = 0 := by
  obtain ⟨hclass, hroom⟩ := hfit
  have hnext : getNextPacket g 0 (c + e) = divRoundUp (c + e) g.unit := Nat.zero_add _
  have hget : get g Ring.start (c + e) =
      some (some 0, handOut g Ring.start 0 (divRoundUp (c + e) g.unit) (c + e)) := by
    unfold get
    dsimp only [Ring.start]
    rw [if_pos le_rfl, hnext, if_neg (not_lt.mpr hroom)]
  refine ⟨_, by rw [operatorNew, hget]; rfl, rfl, rfl, ?_, fun u hu => ?_⟩
  · exact Mem.word_setWord_same (by omega)
  · have hfar : stateAddr g 0 + 2 ≤ stateAddr g u := stateAddr_add_le g (Nat.pos_of_ne_zero hu)
    refine (Mem.word_setWord_disjoint (Or.inr hfar)).trans ?_
    refine (Mem.word_setWord_disjoint (Or.inr hfar)).trans ?_
    rcases lt_trichotomy u (divRoundUp (c + e) g.unit) with hlt | rfl | hgt
    · exact Mem.word_setWord_disjoint (Or.inl (stateAddr_add_le g hlt))
    · exact Mem.word_setWord_same (by decide)
    · exact Mem.word_setWord_disjoint (Or.inr (stateAddr_add_le g hgt))

/-- The packets of the ring are short. -/
theorem ringBuffer_short {unit : ℕ} {hunit : unit = 2 ∨ unit = 4} {fuel c e : ℕ} {x x' : Sys}
    (h : stepOnce (ringBuffer unit hunit) fuel x (.new c e) = some x') :
    c + e - (ringBuffer unit hunit).unit < 2 ^ 14 := by
  rw [stepOnce] at h
  split_ifs at h with hfit
  obtain ⟨-, hroom⟩ := hfit
  unfold divRoundUp ringBuffer at hroom
  dsimp only at hroom ⊢
  rcases hunit with rfl | rfl <;> omega

/-- After the first allocation the ring is no FIFO. -/
theorem not_correct_of_new {c e : ℕ} {x : Sys} {fuel : ℕ} (hlong : c + e - g.unit < 2 ^ 14)
    (h : stepOnce g fuel Sys.init (.new c e) = some x) : ¬ Correct g x := by
  rw [stepOnce] at h
  split_ifs at h with hfit
  obtain ⟨s, hnew, ho, hw, h0, hzero⟩ := operatorNew_start hlong hfit
  rw [show Sys.init.ring = Ring.start from rfl, hnew] at h
  obtain rfl := Option.some.inj h
  intro hc
  obtain ⟨us, hwalk, -⟩ := hc.walk
  have hunit : 0 < g.unit := by
    rcases g.unit_eq with hu | hu <;> omega
  have hback := divRoundUp_sub hunit (le_trans hfit.1 (Nat.le_add_right c e))
  have hstuck : advance g s (divRoundUp (c + e - g.unit) g.unit) =
      divRoundUp (c + e - g.unit) g.unit := by
    apply advance_of_zero
    by_cases hn : divRoundUp (c + e - g.unit) g.unit = 0
    · rw [hn, h0]
      unfold divRoundUp at hn
      rcases Nat.div_eq_zero_iff.mp hn with hd | hd <;> omega
    · exact hzero _ hn
  have hne : divRoundUp (c + e - g.unit) g.unit ≠ s.nextWriter := by omega
  have hlen : packetGetLen (c + e - g.unit) = c + e - g.unit :=
    (Nat.and_two_pow_sub_one_eq_mod _ 14).trans (Nat.mod_eq_of_lt hlong)
  have hmark : c + e - g.unit ≠ State.startOver := (lt_trans hlong (by decide)).ne
  have hadv : advance g s 0 = divRoundUp (c + e - g.unit) g.unit := by
    rw [advance, h0, if_neg hmark, getNextPacket, getLen, h0, hlen, Nat.zero_add]
  rcases hwalk.inv with ⟨hend, -⟩ | ⟨vs, -, -, hrest⟩
  · have hend' : 0 = s.nextWriter := ho.symm.trans hend
    omega
  · have hrest' : Walk g s (advance g s s.outputReader) vs := hrest
    rw [ho, hadv] at hrest'
    exact not_walk_of_stuck hstuck hne _ hrest'

end first

/-! ### The flags -/

/-- The input queue refuses every packet that `operator new` returns. -/
theorem inputQueuePush_new {s s' : Ring} {c e p : ℕ} (hlong : c + e - g.unit < 2 ^ 14)
    (h : operatorNew g s c e = some (some p, s')) : inputQueuePush g s' p = none := by
  obtain ⟨⟨r, s₁⟩, -, hr⟩ := Option.map_eq_some_iff.mp h
  cases r with
  | none => cases hr
  | some q =>
      obtain ⟨hq, rfl⟩ := Prod.mk.inj hr
      obtain rfl := Option.some.inj hq
      have hstate : (s₁.setState g q (c + e - g.unit)).state g q = c + e - g.unit :=
        Mem.word_setWord_same (by omega)
      have hflag : (c + e - g.unit) &&& State.output ≠ State.output := by
        have hbit : State.output = 2 ^ 14 * 2 := rfl
        rw [hbit, and_flagMask, Nat.div_eq_of_lt hlong]
        decide
      rw [inputQueuePush, hstate, if_neg hflag]

/-- A packet pushed to the output queue has the flag of the input queue. -/
theorem outputQueuePush_state (s : Ring) (p : ℕ) :
    (outputQueuePush g s p).state g p &&& State.skip = State.input := by
  have hlen : getLen g s p < 2 ^ 14 := by
    unfold getLen packetGetLen
    exact lt_of_le_of_lt Nat.and_le_right (by decide)
  have hw : (outputQueuePush g s p).state g p = stateWord .input (getLen g s p) := by
    rw [← or_input hlen]
    refine Mem.word_setWord_same ?_
    rw [or_input hlen]
    unfold stateWord
    have := Status.code_lt .input
    omega
  rw [hw, stateWord_and_skip hlen]
  rfl

/-- **The C++ queue.**  In a run, the ring is a FIFO of its packets in every state exactly if the run
never allocates one. -/
theorem queue_is_fifo_iff (unit : ℕ) (hunit : unit = 2 ∨ unit = 4) {es : List Event} {x : Sys}
    (h : Run (Step (ringBuffer unit hunit)) Sys.init es x) :
    (∀ k y, Run (Step (ringBuffer unit hunit)) Sys.init (es.take k) y →
      Correct (ringBuffer unit hunit) y) ↔ ∀ e ∈ es, ¬ e.Allocates := by
  constructor
  · intro hall
    induction es with
    | nil => simp
    | cons e es ih =>
        cases h with
        | cons hs hrest =>
            have he : ¬ e.Allocates := by
              intro he
              cases e with
              | new c e =>
                  obtain ⟨fuel, hs'⟩ := hs
                  exact not_correct_of_new (ringBuffer_short hs') hs' (hall 1 _ (.single ⟨fuel, hs'⟩))
              | _ => exact he
            obtain rfl := step_init _ he hs
            intro e' he'
            rcases List.mem_cons.mp he' with rfl | he'
            · exact he
            · exact ih hrest (fun k y hy => hall (k + 1) y (.cons hs hy)) e' he'
  · intro hno k y hy
    have hinit : Run (Step (ringBuffer unit hunit)) Sys.init (es.take k) y → y = Sys.init :=
      stays_init _ fun e he => hno e (List.mem_of_mem_take he)
    rw [hinit hy]
    exact correct_init _

/-- Both queues are empty. -/
theorem queue_is_fifo_empty :
    (∀ k y, Run (Step (ringBuffer 2 (.inl rfl))) Sys.init ([.inputPop, .outputPop].take k) y →
      Correct (ringBuffer 2 (.inl rfl)) y) ↔ ∀ e ∈ [Event.inputPop, .outputPop], ¬ e.Allocates := by
  have hin : Step (ringBuffer 2 (.inl rfl)) Sys.init .inputPop Sys.init := by
    refine ⟨1, ?_⟩
    rw [stepOnce, show Sys.init.ring = Ring.start from rfl, start_inputPop]
    rfl
  have hout : Step (ringBuffer 2 (.inl rfl)) Sys.init .outputPop Sys.init := by
    refine ⟨1, ?_⟩
    rw [stepOnce, show Sys.init.ring = Ring.start from rfl, start_outputPop]
    rfl
  exact queue_is_fifo_iff 2 (.inl rfl) (.cons hin (.single hout))

/-- A packet with 4 bytes of data. -/
theorem queue_not_fifo : ¬ ∀ es x, Run (Step (ringBuffer 2 (.inl rfl))) Sys.init es x →
    Correct (ringBuffer 2 (.inl rfl)) x := by
  intro h
  obtain ⟨x, hx⟩ : ∃ x, stepOnce (ringBuffer 2 (.inl rfl)) 1 Sys.init (.new 2 4) = some x := by
    obtain ⟨s, hnew, -⟩ := operatorNew_start (g := ringBuffer 2 (.inl rfl)) (c := 2) (e := 4)
      (by decide) (by decide)
    rw [stepOnce, if_pos (by decide), show Sys.init.ring = Ring.start from rfl, hnew]
    exact ⟨_, rfl⟩
  exact not_correct_of_new (ringBuffer_short hx) hx (h [.new 2 4] x (.single ⟨1, hx⟩))

end TimeSwitch.PacketQueue
