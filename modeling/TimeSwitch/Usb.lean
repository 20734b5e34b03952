import TimeSwitch.PacketCheck
import TimeSwitch.PacketBuffer

/-! # The endpoint interrupt

`EVENT_USB_Endpoint_Interrupt` of `USB.c`.  One run of the interrupt handles at most one chunk to
the host (TX) and then at most one chunk from the host (RX); the static variables of the two
parts are the structures `Tx` and `Rx`.

* The handler reaches the packet buffer through an interface (`InputStore`, `OutputStore`), so
  that its logic can be run on the ring and on other stores.  `none` is a failed assertion in
  the packet buffer.
* A received chunk is the list of its bytes that are not read yet: `Endpoint_BytesInEndpoint`
  counts down while the FIFO is read.  `none` means that no chunk was received
  (`Endpoint_IsOUTReceived`), or that `Endpoint_ClearOUT` gave its bank back.
* Left out: the notification endpoint, the error counters, the LED on `PORTD`, and the interrupt
  flags beyond the enable bits of the two endpoints.
* The counters are natural numbers.  `bytesRemaining -= 24` and `usbLen -= 24` do not wrap: an
  accepted length and the chunk it is read from are at least `PACKET_LEN_MIN`. -/

namespace TimeSwitch.Usb

/-- `CDC_TXRX_EPSIZE` -/
def epSize : ℕ := 64

/-! ### The packet buffer as the handler sees it -/

/-- What the receiver uses.  `write` stores bytes from an address on. -/
structure InputStore (σ : Type) where
  new : σ → ℕ → Option (Option ℕ × σ)
  dataAddr : ℕ → ℕ
  write : σ → ℕ → List UInt8 → σ
  putInput : σ → ℕ → Option σ
  releaseInput : σ → ℕ → σ

/-- What the transmitter uses.  `len` is `Packet_getLen(packet->state)`. -/
structure OutputStore (σ : Type) where
  getOutput : σ → Option (Option ℕ × σ)
  dataAddr : ℕ → ℕ
  len : σ → ℕ → ℕ
  read : σ → ℕ → ℕ → List UInt8
  releaseOutput : σ → ℕ → σ

/-! ### Receiving -/

/-- The states of the receiver. -/
inductive RxState where
  | needspace
  | waiting
  | reading
deriving DecidableEq, Repr

/-- The static variables of the receiver. -/
structure Rx where
  packet : Option ℕ
  writer : ℕ
  receiveBuffer : List UInt8
  bytesRemaining : ℕ
  last : Bool
  state : RxState
deriving DecidableEq

def Rx.init : Rx := ⟨none, 0, List.replicate 24 0, 0, false, .waiting⟩

/-- The receiver inside one interrupt: `out` is the received chunk, `wake` notes a
`sleep_disable`. -/
structure RxRun (σ : Type) where
  store : σ
  rx : Rx
  out : Option (List UInt8)
  usbLen : ℕ
  enableRX : Bool
  wake : Bool

section receive

variable {σ : Type} (S : InputStore σ)

/-- `if(state == WAITING)`: the first chunk of a frame. -/
def rxWaiting (x : RxRun σ) : RxRun σ :=
  if packetLenMin ≤ x.usbLen then
    let r := usbRead24ByteCheckGetLength ⟨x.out.getD [], []⟩
    let rx : Rx := { x.rx with
      bytesRemaining := r.1.getD 0
      receiveBuffer := r.2.stored ++ x.rx.receiveBuffer.drop r.2.stored.length }
    if x.usbLen < rx.bytesRemaining ∧ rx.last then
      -- the IP header told us about a larger packet
      { x with rx := rx, out := none }
    else if 0 < rx.bytesRemaining then
      { x with rx := { rx with state := .needspace }, out := some r.2.unread,
               usbLen := x.usbLen - 24 }
    else
      { x with rx := { rx with state := .reading }, out := some r.2.unread }
  else { x with out := none }

/-- `if(state == NEEDSPACE)` -/
def rxNeedSpace (x : RxRun σ) : Option (RxRun σ) :=
  match S.new x.store x.rx.bytesRemaining with
  | none => none
  | some (none, st) =>
      some { x with store := st, rx := { x.rx with packet := none }, enableRX := false }
  | some (some p, st) =>
      some { x with
        store := S.write st (S.dataAddr p) (x.rx.receiveBuffer.take 24)
        rx := { x.rx with
          packet := some p
          writer := S.dataAddr p + 24
          bytesRemaining := x.rx.bytesRemaining - 24
          state := .reading } }

/-- `while(readLength--) *writer++ = Endpoint_Read_8()` -/
def storeBytes (st : σ) (writer : ℕ) (bytes : List UInt8) : σ :=
  if bytes = [] then st else S.write st writer bytes

/-- `if(state == READING)` -/
def rxReading (x : RxRun σ) : Option (RxRun σ) :=
  let readLength := min x.usbLen x.rx.bytesRemaining
  let store := storeBytes S x.store x.rx.writer ((x.out.getD []).take readLength)
  let rx : Rx := { x.rx with
    bytesRemaining := x.rx.bytesRemaining - readLength
    writer := x.rx.writer + readLength }
  if rx.last then
    let rx' : Rx := { rx with packet := none, state := .waiting }
    match rx.packet with
    | none => some { x with store := store, rx := rx', out := none }
    | some p =>
        if rx.bytesRemaining ≠ 0 then
          some { x with store := S.releaseInput store p, rx := rx', out := none }
        else (S.putInput store p).map
          (fun st => { x with store := st, rx := rx', out := none, wake := true })
  else some { x with store := store, rx := rx, out := none }

/-- The start of the receiver's part: `usbLen` and `last`. -/
def rxStart (store : σ) (rx : Rx) (bytes : List UInt8) : RxRun σ :=
  let last := if rx.state = .needspace then rx.last else decide (bytes.length < epSize)
  ⟨store, { rx with last := last }, some bytes, bytes.length, true, false⟩

/-- The receiver up to the call of `Packet_New`. -/
def rxHeader (store : σ) (rx : Rx) (bytes : List UInt8) : RxRun σ :=
  if rx.state = .waiting then rxWaiting (rxStart store rx bytes) else rxStart store rx bytes

/-- The receiver's part of the interrupt, for a received chunk. -/
def receive (store : σ) (rx : Rx) (bytes : List UInt8) : Option (RxRun σ) :=
  let x := rxHeader store rx bytes
  (if x.rx.state = .needspace then rxNeedSpace S x else some x).bind
    (fun x => if x.rx.state = .reading then rxReading S x else some x)

end receive

/-! ### Transmitting -/

/-- The static variables of the transmitter. -/
structure Tx where
  packet : Option ℕ
  reader : ℕ
  bytesRemaining : ℕ
deriving DecidableEq

def Tx.init : Tx := ⟨none, 0, 0⟩

/-- The outcome of the transmitter's part: the chunk handed to the endpoint, and whether a packet
was released (`enableRX = true`). -/
structure TxRun (σ : Type) where
  store : σ
  tx : Tx
  chunk : Option (List UInt8)
  enableTX : Bool
  released : Bool

section transmit

variable {σ : Type} (S : OutputStore σ)

/-- `if(!packet)`: fetch the next output packet. -/
def txFetch (store : σ) (tx : Tx) : Option (σ × Tx) :=
  match tx.packet with
  | some _ => some (store, tx)
  | none => (S.getOutput store).map fun r =>
      match r.1 with
      | some p => (r.2, ⟨some p, S.dataAddr p, S.len r.2 p⟩)
      | none => (r.2, tx)

/-- `if(packet)`: write one chunk. -/
def txSend (store : σ) (tx : Tx) : TxRun σ :=
  match tx.packet with
  | none => ⟨store, tx, none, false, false⟩
  | some p =>
      let last := decide (tx.bytesRemaining < epSize)
      let writeLength := if last then tx.bytesRemaining else epSize
      let chunk := S.read store tx.reader writeLength
      let tx' : Tx := { tx with
        bytesRemaining := tx.bytesRemaining - writeLength
        reader := tx.reader + writeLength }
      if last then ⟨S.releaseOutput store p, { tx' with packet := none }, some chunk, true, true⟩
      else ⟨store, tx', some chunk, true, false⟩

/-- The transmitter's part of the interrupt, for a free bank of the endpoint. -/
def transmit (store : σ) (tx : Tx) : Option (TxRun σ) :=
  (txFetch S store tx).map (fun r => txSend S r.1 r.2)

end transmit

/-! ### The ring as packet buffer -/

section ring
open PacketBuffer ByteMemory
variable (g : Geometry)

/-- The receiver on the ring. -/
def ringInput : InputStore Ring where
  new := packetNew g
  dataAddr := PacketBuffer.dataAddr g
  write := Ring.write
  putInput := packetPutInput g
  releaseInput := packetReleaseInput g

/-- The transmitter on the ring. -/
def ringOutput : OutputStore Ring where
  getOutput := packetGetOutput g
  dataAddr := PacketBuffer.dataAddr g
  len := fun s p => packetGetLen (s.state g p)
  read := fun s => s.mem.read
  releaseOutput := packetReleaseOutput g

end ring

end TimeSwitch.Usb
