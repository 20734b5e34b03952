import TimeSwitch.Library.ByteMemory

/-! # The packet ring buffer

`PacketBuffer.c` and `PacketBuffer.h`: one ring of packets for both directions.  A pointer
to a `Packet_t` is the index of its slot, counted from `RingBuffer.Start`; the memory is
addressed in bytes from there.

* **Geometry.**  `sizeof(Packet_t)` is the alignment of `uint32_t`, but at least 2: a slot
  has 2 bytes on the AVR and 4 bytes where `uint32_t` needs alignment 4.  `RingBuffer.Start`
  has `slots` of them and `RingBuffer.End` is the slot behind.
* **Assertions.**  A function that contains an `assert` returns an `Option`; `none` is the
  abort of a failed assertion.  The two reader loops take a bound on the number of
  iterations and return `none` as well when it is exceeded.
* **Lengths** are below `2 ^ 14` wherever the ring is used, so the slot arithmetic is done
  in `ℕ`. -/

namespace TimeSwitch.PacketBuffer

open ByteMemory

/-! ### Layout of a packet -/

/-- Unit size and number of units of the ring. -/
structure Geometry where
  /-- `sizeof(Packet_t)` -/
  unit : ℕ
  /-- number of elements of `RingBuffer.Start`, the index of `RingBuffer.End` -/
  slots : ℕ
  unit_eq : unit = 2 ∨ unit = 4

/-- A ring on the AVR target, where `uint32_t` has alignment 1. -/
def Geometry.avr (slots : ℕ) : Geometry := ⟨2, slots, Or.inl rfl⟩

namespace State

/-- Flag bits of the `state` field. -/
def endOfRing : ℕ := 0x0000
def input : ℕ := 0x4000
def output : ℕ := 0x8000
def skip : ℕ := 0xC000
/-- Mark of the unused space at the end of the ring. -/
def startOver : ℕ := 0xFFFF

end State

/-- `Packet_getLen`: mask the two flag bits. -/
def packetGetLen (state : ℕ) : ℕ := state &&& 0x3FFF

/-- `DIV_ROUND_UP` of `helper.h`. -/
def divRoundUp (n d : ℕ) : ℕ := (n + d - 1) / d

/-- Number of units of a packet with `len` bytes of data: `offsetof(Packet_t, data[0])` is 2. -/
def packetUnits (g : Geometry) (len : ℕ) : ℕ := divRoundUp (len + 2) g.unit

/-- `getNextPacket`: the slot behind a packet, without taking bounds into account. -/
def getNextPacket (g : Geometry) (packet len : ℕ) : ℕ := packet + packetUnits g len

/-- Address of the `state` field of a packet. -/
def stateAddr (g : Geometry) (packet : ℕ) : ℕ := g.unit * packet

/-- Address of the `data` field of a packet. -/
def dataAddr (g : Geometry) (packet : ℕ) : ℕ := g.unit * packet + 2

/-- The ring: memory and the three static pointers. -/
structure Ring where
  mem : Mem
  nextWriter : ℕ
  inputReader : ℕ
  outputReader : ℕ

namespace Ring

variable (g : Geometry)

/-- `packet->state` -/
def state (s : Ring) (packet : ℕ) : ℕ := s.mem.word (stateAddr g packet)

/-- `packet->state = w` -/
def setState (s : Ring) (packet w : ℕ) : Ring :=
  { s with mem := s.mem.setWord (stateAddr g packet) w }

/-- The first `n` bytes of `packet->data`. -/
def data (s : Ring) (packet n : ℕ) : List UInt8 := s.mem.read (dataAddr g packet) n

/-- Store the bytes `bs` at address `a`. -/
def write (s : Ring) (a : ℕ) (bs : List UInt8) : Ring := { s with mem := s.mem.blit a bs }

/-- The ring at program start: `Start[0].state = EndOfRing`, all pointers at `Start`. -/
def init (m : Mem) : Ring := Ring.setState g ⟨m, 0, 0, 0⟩ 0 State.endOfRing

end Ring

variable (g : Geometry)

/-! ### Allocation -/

/-- The last part of `allocateNew`: write the packet at `writer`, in case of a resize copy
the old data, and mark the end of the ring behind it. -/
def placePacket (s : Ring) (writer nextPacket len : ℕ) (resize : Bool) (packet oldLen : ℕ) :
    Ring :=
  let s := s.setState g writer len
  let s := if resize then
      let s := s.setState g packet (State.skip ||| oldLen)
      s.write (dataAddr g writer) (s.data g packet oldLen)
    else s
  { s.setState g nextPacket State.endOfRing with nextWriter := nextPacket }

/-- `allocateNew`: the slot of the new packet, or `none` when the ring is full. -/
def allocateNew (s : Ring) (writer lastReader len : ℕ) (resize : Bool) (packet oldLen : ℕ) :
    Option (Option ℕ × Ring) :=
  let nextPacket := getNextPacket g writer len
  if lastReader ≤ writer then
    if g.slots < nextPacket then
      let nextPacket := getNextPacket g 0 len
      if writer = lastReader then
        -- the ring is empty: reset all readers; the source asserts that the packet fits
        if nextPacket ≤ g.slots then
          some (some 0, placePacket g { s with inputReader := 0, outputReader := 0 } 0 nextPacket
            len resize packet oldLen)
        else none
      else if nextPacket < lastReader then
        some (some 0, placePacket g (s.setState g writer State.startOver) 0 nextPacket
          len resize packet oldLen)
      else some (none, s)
    else some (some writer, placePacket g s writer nextPacket len resize packet oldLen)
  else if lastReader ≤ nextPacket then some (none, s)
  else some (some writer, placePacket g s writer nextPacket len resize packet oldLen)

/-- `Packet_New` -/
def packetNew (s : Ring) (len : ℕ) : Option (Option ℕ × Ring) :=
  allocateNew g s s.nextWriter s.outputReader len false 0 0

/-- The first part of `Packet_Resize`: what happens to the remainder of a shrinking packet. -/
def splitRemainder (s : Ring) (nextPacket oldNextPacket : ℕ) : Ring :=
  if nextPacket < oldNextPacket then
    if s.nextWriter = oldNextPacket then { s with nextWriter := nextPacket }
    else s.setState g nextPacket
      (State.skip ||| (stateAddr g oldNextPacket - dataAddr g nextPacket))
  else s

/-- `Packet_Resize` -/
def packetResize (s : Ring) (packet len : ℕ) : Option (Option ℕ × Ring) :=
  let oldLen := s.state g packet
  if oldLen &&& State.skip ≠ 0 then none else
  let nextPacket := getNextPacket g packet len
  let oldNextPacket := getNextPacket g packet oldLen
  let s := splitRemainder g s nextPacket oldNextPacket
  if nextPacket ≤ oldNextPacket then some (some packet, s.setState g packet len)
  else
    let lastReader := s.outputReader
    let writer := s.nextWriter
    if oldNextPacket = writer ∧
        (if packet < lastReader then nextPacket < lastReader else nextPacket ≤ g.slots) then
      some (some packet,
        { (s.setState g nextPacket State.endOfRing).setState g packet len with
          nextWriter := nextPacket })
    else allocateNew g s writer lastReader len true packet oldLen

/-! ### Finishing a packet -/

/-- `Packet_PutInput` and `Packet_PutOutput` differ in the flag. -/
def packetPut (flag : ℕ) (s : Ring) (packet : ℕ) : Option Ring :=
  if s.state g packet &&& State.skip = 0 then
    some (s.setState g packet (s.state g packet ||| flag))
  else none

/-- `Packet_PutInput` -/
def packetPutInput (s : Ring) (packet : ℕ) : Option Ring := packetPut g State.input s packet

/-- `Packet_PutOutput` -/
def packetPutOutput (s : Ring) (packet : ℕ) : Option Ring := packetPut g State.output s packet

/-! ### Reading -/

/-- Where a reader goes from an entry with this state. -/
def nextReader (reader state : ℕ) : ℕ :=
  if state = State.startOver then 0 else getNextPacket g reader (packetGetLen state)

/-- Result of a reader loop: the entry it stopped at, its state, and the local flags. -/
structure Scan where
  reader : ℕ
  state : ℕ
  skipInput : Bool
  skipOutput : Bool

/-- The loop of `Packet_GetInput`: skip entries of type `Output` or `Skip`, and advance
`OutputReader` over leading entries of type `Skip`. -/
def getInputLoop : ℕ → Ring → ℕ → Bool → Bool → Option (Scan × Ring)
  | 0, _, _, _, _ => none
  | fuel + 1, s, reader, skipInput, skipOutput =>
      let state := s.state g reader
      if state &&& State.output = 0 then some (⟨reader, state, skipInput, skipOutput⟩, s)
      else if skipOutput = true ∧ state &&& State.input = 0 then
        getInputLoop fuel { s with outputReader := reader } (nextReader g reader state) true false
      else getInputLoop fuel s (nextReader g reader state) true skipOutput

/-- Bound on the iterations of a reader: every slot once, and the mark. -/
def readerFuel : ℕ := g.slots + 3

/-- `Packet_GetInput` -/
def packetGetInput (s : Ring) : Option (Option ℕ × Ring) :=
  match getInputLoop g (readerFuel g) s s.inputReader false
      (decide (s.outputReader = s.inputReader)) with
  | none => none
  | some (r, s) =>
      let s := if r.skipInput then
          { s with
            inputReader := r.reader
            outputReader := if r.skipOutput then r.reader else s.outputReader }
        else s
      some (if r.state &&& State.input ≠ 0 then some r.reader else none, s)

/-- The loop of `Packet_GetOutput`: skip entries of type `Skip`, and note whether the
`InputReader` at `inputR` was passed. -/
def getOutputLoop : ℕ → Ring → ℕ → ℕ → Bool → Bool → Option Scan
  | 0, _, _, _, _, _ => none
  | fuel + 1, s, inputR, reader, skipInput, skipOutput =>
      let state := s.state g reader
      if state &&& State.skip ≠ State.skip then some ⟨reader, state, skipInput, skipOutput⟩
      else getOutputLoop fuel s inputR (nextReader g reader state)
        (skipInput || decide (inputR = reader)) true

/-- `Packet_GetOutput` -/
def packetGetOutput (s : Ring) : Option (Option ℕ × Ring) :=
  match getOutputLoop g (readerFuel g) s s.inputReader s.outputReader false false with
  | none => none
  | some r =>
      let s := if r.skipOutput then
          { s with
            outputReader := r.reader
            inputReader := if r.skipInput then r.reader else s.inputReader }
        else s
      some (if r.state &&& State.output ≠ 0 then some r.reader else none, s)

/-! ### Releasing -/

/-- `Packet_ReleaseInput` -/
def packetReleaseInput (s : Ring) (packet : ℕ) : Ring :=
  let nextPacket := getNextPacket g packet (packetGetLen (s.state g packet))
  let s := { s with inputReader := nextPacket }
  if s.outputReader = packet then { s with outputReader := nextPacket }
  else s.setState g packet (s.state g packet ||| State.skip)

/-- `Packet_ReleaseOutput` -/
def packetReleaseOutput (s : Ring) (packet : ℕ) : Ring :=
  let nextPacket := getNextPacket g packet (packetGetLen (s.state g packet))
  { s with
    inputReader := if s.inputReader = packet then nextPacket else s.inputReader
    outputReader := nextPacket }

/-- `Packet_ReattachOutput` -/
def packetReattachOutput (s : Ring) (packet : ℕ) : Option Ring :=
  if s.state g packet &&& State.skip = State.input then
    let len := packetGetLen (s.state g packet)
    some { s.setState g packet (len ||| State.output) with
      inputReader := getNextPacket g packet len }
  else none

end TimeSwitch.PacketBuffer
