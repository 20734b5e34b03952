import TimeSwitch.Storage

/-! # A suspended receiver is resumed

When `Packet_New` fails, the receiver keeps its chunk and disables its interrupt; the transmitter
enables it again when it releases a packet.  So a suspended receiver needs a packet that is still
to be sent.

A failed `Packet_New` means that the ring has entries, but they may all be of type `Skip`, which
occupy the ring until a reader passes them.  Such an entry comes from an unfinished packet that is
released while `OutputReader` stands somewhere else: in front of a finished packet, or at the mark
where the ring starts over (`LeavesSkip`).  Otherwise `OutputReader` moves behind the packet, and
nothing of it stays. -/

namespace TimeSwitch.Usb

open Framing PacketBuffer ByteMemory

variable (g : Geometry)

/-- The receiver waits for space with its interrupt disabled, and no packet is left whose release
would enable it. -/
def Stranded (x : Sys) : Prop :=
  x.dev.rx.state = .needspace ∧ x.dev.enableRX = false ∧
    flagged g x.dev.ring State.input = [] ∧ flagged g x.dev.ring State.output = []

instance (x : Sys) : Decidable (Stranded g x) := by unfold Stranded; infer_instance

/-- The receiver's part would release its unfinished packet, and `OutputReader` does not stand
there. -/
def LeavesSkip (x : Sys) : Prop :=
  x.dev.enableRX = true ∧ ∃ b ∈ x.host.out, ∃ p ∈ x.dev.rx.packet,
    DropsShort x.dev.rx b ∧ x.dev.ring.outputReader ≠ p

instance (x : Sys) : Decidable (LeavesSkip x) := by
  unfold LeavesSkip; infer_instance

/-- No step leaves an entry of type `Skip`. -/
abbrev KeepsClean : Sys → Event → Prop := AtReceiver g (fun y => ¬ LeavesSkip y)

section supplied

variable {g} {m₀ : Mem} {x x' : Sys} {e : Event}

/-- The ring has no entry of type `Skip`, and a suspended receiver has a packet in the queue. -/
def Supplied (g : Geometry) (m₀ : Mem) (x : Sys) : Prop :=
  ∃ a cur, Parts g a x.dev cur ∧ RingLink g m₀ a x.host x.dev.ring x.dev.rx ∧
    a.demands = (false, true) ∧
    (x.dev.rx.state = .needspace → x.dev.enableRX = false → a.queue ≠ [])

theorem supplied_init (g : Geometry) (m : Mem) :
    Supplied g (Ring.init g m).mem (Sys.init g m) :=
  ⟨_, [], ⟨rfl, rfl, rfl⟩, link_init g m false true, rfl, fun hs => by cases hs⟩

theorem Supplied.not_stranded (h : Supplied g m₀ x) : ¬ Stranded g x := by
  rintro ⟨hs, hen, hi, ho⟩
  obtain ⟨a, cur, -, hl, -, hq⟩ := h
  obtain ⟨u, ⟨pre, post, hinv⟩, -⟩ := hl.draft
  exact hq hs hen (hinv.flagged_all.mp ⟨hi, ho⟩)

/-- The transmitter keeps the queue, or it releases a packet and enables the receiver. -/
theorem Supplied.txPart (h : Supplied g m₀ x) {b : Bool} (hr : txPart g b x = some x') :
    Supplied g m₀ x' := by
  obtain ⟨a, cur, hp, hl, hst, hq⟩ := h
  obtain ⟨u, hh, hcarry⟩ := hl.draft
  obtain ⟨y, a', cur', hy, hh', hp', hst', hout, hfr, -⟩ := txPart_parts hp hh b
  obtain rfl := Option.some.inj (hr.symm.trans hy)
  have hl' := hcarry hh'
  rw [← hfr.host, ← hfr.rx] at hl'
  refine ⟨a', cur', hp', hl', hst'.trans hst, fun hs hen => ?_⟩
  rw [hfr.rx] at hs
  cases hout with
  | quiet _ _ _ he hq' _ =>
      rw [hq']
      exact hq hs (he.symm.trans hen)
  | part c _ _ _ _ he hq' _ =>
      rw [hq']
      exact hq hs (he.symm.trans hen)
  | last c _ _ _ _ he _ _ => cases he.symm.trans hen

/-- A receiver that has just failed to allocate its packet has a packet in the queue. -/
theorem full_queue {a : Account} (hl : RingLink g m₀ a x.host x.dev.ring x.dev.rx)
    (hclean : a.clean = true) {b : List UInt8} {y : RxRun Ring}
    (hy : receive (ringInput g) x.dev.ring x.dev.rx b = some y)
    (hs : y.rx.state = .needspace) : a.queue ≠ [] := by
  obtain ⟨hneed, hnew, -⟩ := receive_needspace hy hs
  rw [rxHeader_store] at hnew
  obtain ⟨hshape, -⟩ := hl.shape.header b
  cases hshape with
  | waiting hw => cases hneed.symm.trans hw
  | ignoring hr => cases hneed.symm.trans hr
  | filling _ _ _ hr => cases hneed.symm.trans hr
  | needspace _ _ hidle _ hmax _ =>
      obtain ⟨pre, post, hinv⟩ := hidle
      exact hinv.full hmax hclean hnew

/-- The receiver is suspended only on a ring with a finished packet. -/
theorem Supplied.rxPart (h : Supplied g m₀ x) (hok : ¬ LeavesSkip x) (hr : rxPart g x = some x') :
    Supplied g m₀ x' := by
  obtain ⟨a, cur, hp, hl, hst, hq⟩ := h
  have hd : ∀ b p, x.dev.enableRX = true → x.host.out = some b → x.dev.rx.packet = some p →
      DropsShort x.dev.rx b → a.Drop x.dev.ring p := by
    intro b p hen hout hpk hb
    refine ⟨(fun hs => by cases (congrArg Prod.fst hst).symm.trans hs), fun _ => ?_⟩
    by_contra hne
    exact hok ⟨hen, b, hout, p, hpk, hb, hne⟩
  obtain ⟨new, hp', hl', -⟩ := rxPart_link hp hl hd hr
  refine ⟨a.pushAll new, cur, hp', hl', hst, fun hs hen hnil => ?_⟩
  obtain ⟨ha, -⟩ := List.append_eq_nil_iff.mp hnil
  rcases rxPart_cases hr with rfl | ⟨b, y, -, -, hy, rfl⟩
  · exact hq hs hen ha
  · exact full_queue hl (congrArg Prod.snd hst) hy hs ha

theorem Supplied.step (h : Supplied g m₀ x) (hok : KeepsClean g x e) (hs : EchoStep g x e x') :
    Supplied g m₀ x' := by
  obtain ⟨hne, hs⟩ := hs
  unfold SysStep sysStep at hs
  cases e with
  | frame f =>
      obtain ⟨h', hh, rfl⟩ := Option.map_eq_some_iff.mp hs
      obtain ⟨a, cur, hp, hl, hst, hq⟩ := h
      exact ⟨a, cur, hp, hl.send hh, hst, hq⟩
  | chunk =>
      obtain ⟨h', hh, rfl⟩ := Option.map_eq_some_iff.mp hs
      obtain ⟨a, cur, hp, hl, hst, hq⟩ := h
      exact ⟨a, cur, hp, hl.deliverChunk hh, hst, hq⟩
  | interrupt b =>
      obtain ⟨y, hy, hs⟩ := Option.bind_eq_some_iff.mp hs
      exact (h.txPart hy).rxPart (hok y hy) hs
  | main =>
      obtain ⟨d, hd, rfl⟩ := Option.map_eq_some_iff.mp hs
      obtain ⟨a, cur, hp, hl, hst, hq⟩ := h
      obtain ⟨u, hh, hcarry⟩ := hl.draft
      obtain ⟨d', a', hd', hh', hp', hst', hdata, hrx, -, hen⟩ := mainStep_parts hp hh
      obtain rfl := Option.some.inj (hd.symm.trans hd')
      have hl' := hcarry hh'
      rw [← hrx] at hl'
      refine ⟨a', cur, hp', hl', hst'.trans hst, fun hs' hen' hnil => ?_⟩
      refine hq (by rw [← hrx]; exact hs') (by rw [← hen]; exact hen') ?_
      rw [hnil] at hdata
      exact List.map_eq_nil_iff.mp hdata.symm
  | configure => exact absurd rfl hne

end supplied

/-- **No stranded receiver.**  If every unfinished packet that the receiver releases is the one at
`OutputReader`, then a suspended receiver always has a packet whose release resumes it. -/
theorem receiver_not_stranded (m : Mem) {es : List Event} {x : Sys}
    (h : Run (Guarded (KeepsClean g) (EchoStep g)) (Sys.init g m) es x) : ¬ Stranded g x := by
  have hinv : Supplied g (Ring.init g m).mem x :=
    h.invariant (fun _ _ _ hy he => hy.step he.1 he.2) (supplied_init g m)
  exact hinv.not_stranded

/-- A UDP packet of 300 bytes. -/
def longFrame : List UInt8 :=
  [2, 0, 0, 0, 0, 0x40, 2, 0, 0, 0, 0, 1, 8, 0, 0x45, 0, 1, 30, 0, 0, 0, 0, 64, 17] ++
    List.replicate 276 7

/-- A packet is released at `OutputReader`, a long one is stored, and another one does not fit. -/
def waitingEvents : List Event :=
  [.frame cutFrame, .chunk, .interrupt false, .chunk, .interrupt false, .frame longFrame] ++
    (List.replicate 5 [Event.chunk, .interrupt false]).flatten ++
    [.frame longFrame, .chunk, .interrupt false]

theorem receiver_not_stranded_waiting : ∃ x,
    Run (Guarded (KeepsClean avr) (EchoStep avr)) (Sys.init avr (fun _ => 0)) waitingEvents x ∧
      x.dev.rx.state = .needspace ∧ x.dev.enableRX = false ∧ ¬ Stranded avr x := by
  have h : (Run.exec (Run.guardOnce (KeepsClean avr) (echoOnce avr)) (Sys.init avr (fun _ => 0))
      waitingEvents).any
      (fun x => decide (x.dev.rx.state = .needspace ∧ x.dev.enableRX = false)) = true := by
    decide +kernel
  obtain ⟨x, hx, hc⟩ := Run.of_exec_any (Run.of_guardOnce (step_of_echoOnce avr)) h
  obtain ⟨hs, hen⟩ := of_decide_eq_true hc
  exact ⟨x, hx, hs, hen, receiver_not_stranded avr (fun _ => 0) hx⟩

/-- A UDP packet that announces 400 bytes and ends after 74. -/
def gapFrame : List UInt8 :=
  [2, 0, 0, 0, 0, 0x40, 2, 0, 0, 0, 0, 1, 8, 0, 0x45, 0, 1, 130, 0, 0, 0, 0, 64, 17] ++
    List.replicate 50 7

/-- An output packet, a large dropped packet behind it, and a frame that does not fit. -/
def suspendingEvents : List Event :=
  [.frame arpFrame, .chunk, .interrupt false, .main, .main, .main, .main,
    .frame gapFrame, .chunk, .interrupt false, .chunk, .interrupt false,
    .frame longFrame, .chunk, .interrupt false]

/-- The transmitter sends the only packet, and `Packet_New` fails once more. -/
theorem stranded_behind_gap : ∃ x,
    Run (EchoStep avr) (Sys.init avr (fun _ => 0)) (suspendingEvents ++ [.interrupt true]) x ∧
      Stranded avr x := by
  have h : (Run.exec (echoOnce avr) (Sys.init avr (fun _ => 0))
      (suspendingEvents ++ [.interrupt true])).any (fun x => decide (Stranded avr x)) = true := by
    decide +kernel
  obtain ⟨x, hx, hc⟩ := Run.of_exec_any (step_of_echoOnce avr) h
  exact ⟨x, hx, of_decide_eq_true hc⟩

end TimeSwitch.Usb
