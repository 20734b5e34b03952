import TimeSwitch.Library.Runs
import TimeSwitch.PacketFifo
import TimeSwitch.UsbReceive

/-! # The device as an echo

The whole system: the packet ring, the endpoint interrupt (`EVENT_USB_Endpoint_Interrupt`), the
main loop of `Zeitschaltuhr.c`, which sends every input packet back, and the host at the other end
of the link.

* The interrupt is one step: first the transmitter's part, if its interrupt is enabled and the
  endpoint has a free bank, then the receiver's part.  A step of the main loop is one statement or
  one `ATOMIC_BLOCK`; the interrupt may come between any two of them.
* The host begins a frame when the one before is taken, and its chunks arrive in order.  The
  second bank of the endpoint is not visible to the device: the next chunk arrives some time after
  the bank in front was given back.
* `configure` is `EVENT_USB_Device_ConfigurationChanged` for configuration 1 with successful
  calls: it discards what the endpoints hold and enables both interrupts.  The frame the host was
  sending is aborted. -/

namespace TimeSwitch.Usb

open Framing PacketBuffer ByteMemory

/-- Where the main loop is.  A packet is the one `Packet_GetInput` returned. -/
inductive Pc where
  | sleepEnable
  | getInput
  | sleepDisable (packet : ℕ)
  | reattach (packet : ℕ)
  | sleepCpu
deriving DecidableEq

/-- The packet in the hands of the main loop. -/
def Pc.packet : Pc → Option ℕ
  | .sleepDisable p => some p
  | .reattach p => some p
  | _ => none

/-- The device: memory, static variables, the enable bits of both endpoint interrupts, and the
sleep enable bit. -/
structure Device where
  ring : Ring
  rx : Rx
  tx : Tx
  enableRX : Bool
  enableTX : Bool
  sleepEnabled : Bool
  pc : Pc

/-- A chunk written to the IN endpoint: whether the host waits for the first chunk of a frame, the
offset of the chunk in its packet, and the bytes. -/
structure Sent where
  fresh : Bool
  offset : ℕ
  bytes : List UInt8

/-- The device and the host. -/
structure Sys where
  dev : Device
  host : Host
  /-- the frames the host has begun -/
  begun : List (List UInt8)
  /-- the host waits for the first chunk of a frame -/
  fresh : Bool
  sent : List Sent

variable (g : Geometry)

/-- The device after initialisation and `EVENT_USB_Device_ConfigurationChanged`. -/
def Device.init (m : Mem) : Device :=
  ⟨Ring.init g m, Rx.init, Tx.init, true, true, false, .sleepEnable⟩

def Sys.init (m : Mem) : Sys := ⟨Device.init g m, Host.init, [], true, []⟩

/-! ### The interrupt -/

/-- The transmitter's part of the interrupt. -/
def txPart (inReady : Bool) (x : Sys) : Option Sys :=
  if x.dev.enableTX = true ∧ inReady = true then
    (txFetch (ringOutput g) x.dev.ring x.dev.tx).map fun r =>
      let y := txSend (ringOutput g) r.1 r.2
      { x with
        dev := { x.dev with
          ring := y.store
          tx := y.tx
          enableTX := y.enableTX
          enableRX := x.dev.enableRX || y.released }
        fresh := match y.chunk with
          | none => x.fresh
          | some c => decide (c.length < epSize)
        sent := match r.2.packet, y.chunk with
          | some p, some c => x.sent ++ [⟨x.fresh, r.2.reader - dataAddr g p, c⟩]
          | _, _ => x.sent }
  else some x

/-- The receiver's part of the interrupt. -/
def rxPart (x : Sys) : Option Sys :=
  match x.dev.enableRX, x.host.out with
  | true, some b => (receive (ringInput g) x.dev.ring x.dev.rx b).map fun y =>
      { x with
        dev := { x.dev with
          ring := y.store
          rx := y.rx
          enableRX := y.enableRX
          sleepEnabled := x.dev.sleepEnabled && !y.wake }
        host := x.host.taken y.out }
  | _, _ => some x

/-! ### The main loop -/

/-- One step of the main loop. -/
def mainStep (d : Device) : Option Device :=
  match d.pc with
  | .sleepEnable => some { d with sleepEnabled := true, pc := .getInput }
  | .getInput => (packetGetInput g d.ring).map fun r =>
      { d with
        ring := r.2
        pc := match r.1 with
          | some p => .sleepDisable p
          | none => .sleepCpu }
  | .sleepDisable p => some { d with sleepEnabled := false, pc := .reattach p }
  | .reattach p => (packetReattachOutput g d.ring p).map fun s =>
      { d with ring := s, enableTX := true, pc := .sleepCpu }
  | .sleepCpu => some { d with pc := .sleepEnable }

/-! ### The system -/

/-- What can happen. -/
inductive Event where
  | frame (f : List UInt8)
  | chunk
  | interrupt (inReady : Bool)
  | main
  | configure
deriving DecidableEq

/-- One step of the system; `none` when the event cannot happen or an assertion fails. -/
def sysStep (x : Sys) : Event → Option Sys
  | .frame f => (x.host.send f).map fun h => { x with host := h, begun := x.begun ++ [f] }
  | .chunk => x.host.deliverChunk.map fun h => { x with host := h }
  | .interrupt inReady => (txPart g inReady x).bind (rxPart g)
  | .main => (mainStep g x.dev).map fun d => { x with dev := d }
  | .configure => some { x with
      dev := { x.dev with enableRX := true, enableTX := true }
      host := { x.host with out := none, pending := [] }
      fresh := true }

/-- `sysStep` as a relation. -/
def SysStep (x : Sys) (e : Event) (x' : Sys) : Prop := sysStep g x e = some x'

/-- A run without reconfiguration. -/
def EchoStep (x : Sys) (e : Event) (x' : Sys) : Prop := e ≠ .configure ∧ SysStep g x e x'

/-- The condition `P` is met whenever the receiver's part of an interrupt begins. -/
def AtReceiver (P : Sys → Prop) (x : Sys) : Event → Prop
  | .interrupt inReady => ∀ y ∈ txPart g inReady x, P y
  | _ => True

instance (P : Sys → Prop) [DecidablePred P] (x : Sys) (e : Event) :
    Decidable (AtReceiver g P x e) :=
  match e with
  | .interrupt inReady => inferInstanceAs (Decidable (∀ y ∈ txPart g inReady x, P y))
  | .frame _ => isTrue trivial
  | .chunk => isTrue trivial
  | .main => isTrue trivial
  | .configure => isTrue trivial

/-! ### What the ring holds -/

/-- The slots the walk from `OutputReader` visits. -/
def walkSlots (s : Ring) : List ℕ := (walk g s (readerFuel g) s.outputReader).getD []

/-- The visited slots with these flag bits. -/
def flagged (s : Ring) (flag : ℕ) : List ℕ :=
  (walkSlots g s).filter (fun x => s.state g x &&& State.skip = flag)

/-- The input packets that `InputReader` has passed. -/
def passedInput (s : Ring) : List ℕ :=
  ((walkSlots g s).takeWhile (· ≠ s.inputReader)).filter
    (fun x => s.state g x &&& State.skip = State.input)

/-- The packet of the receiver's part, if it comes to `Packet_New`: its length. -/
def wantsPacket (x : Sys) : Option ℕ :=
  match x.dev.enableRX, x.host.out with
  | true, some b =>
      let y := rxHeader x.dev.ring x.dev.rx b
      if y.rx.state = .needspace then some y.rx.bytesRemaining else none
  | _, _ => none

end TimeSwitch.Usb
