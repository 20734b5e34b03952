import TimeSwitch.DeviceSteps

/-! # The echo, end to end

Runs of the device without reconfiguration.  `Delivering` connects the host's frames, the queue of
the ring and the chunks sent so far: what was sent, followed by the data in the ring, is what was
received.

One step breaks this order: the receiver drops a packet whose frame ends too early with
`Packet_ReleaseInput`, which moves `InputReader` behind the dropped packet.  Input packets in front
of it that the main loop has not taken yet are passed and never returned (`DropsBehindInput`). -/

namespace TimeSwitch.Usb

open Framing PacketBuffer ByteMemory

variable (g : Geometry)

/-- The receiver's part would drop an unfinished packet while input packets wait. -/
def DropsBehindInput (x : Sys) : Prop :=
  match x.dev.enableRX, x.host.out with
  | true, some b => DropsShort x.dev.rx b ∧ flagged g x.dev.ring State.input ≠ []
  | _, _ => False

instance (x : Sys) : Decidable (DropsBehindInput g x) := by
  unfold DropsBehindInput
  split <;> infer_instance

/-- No step drops a packet behind input packets. -/
abbrev DropsInOrder : Sys → Event → Prop := AtReceiver g (fun y => ¬ DropsBehindInput g y)

section delivering

variable {g} {m₀ : Mem} {strict : Bool} {x x' : Sys} {e : Event}

/-- The sent frames and the data in the ring are the received frames, in their order. -/
def Delivering (g : Geometry) (m₀ : Mem) (strict : Bool) (x : Sys) : Prop :=
  ∃ a cur done, Parts g a x.dev cur ∧ RingLink g m₀ a x.host x.dev.ring x.dev.rx ∧
    a.demands = (strict, false) ∧ reassemble epSize (x.sent.map Sent.bytes) = ⟨done, cur⟩ ∧
    done ++ a.queue.map Prod.snd = x.host.frames.filterMap deliver

/-- Host, receiver and ring at program start, whatever is demanded of the ring. -/
theorem link_init (g : Geometry) (m₀ : Mem) (strict clean : Bool) :
    RingLink g (Ring.init g m₀).mem ⟨[], none, none, strict, clean⟩ Host.init (Ring.init g m₀)
      Rx.init := by
  refine .resting rfl rfl ?_ rfl rfl
  exact ⟨[], [], rep_init g m₀, rfl, (fun _ h => by cases h), (fun _ h => by cases h), by simp,
    by simp, by simp [Under], by simp, SameFrom.refl⟩

theorem delivering_init (g : Geometry) (m₀ : Mem) (strict : Bool) :
    Delivering g (Ring.init g m₀).mem strict (Sys.init g m₀) :=
  ⟨_, [], [], ⟨rfl, rfl, rfl⟩, link_init g m₀ strict false, rfl, rfl, rfl⟩

theorem Delivering.txPart (h : Delivering g m₀ strict x) {b : Bool}
    (hr : txPart g b x = some x') : Delivering g m₀ strict x' := by
  obtain ⟨a, cur, done, hp, hl, hst, hsent, hdata⟩ := h
  obtain ⟨u, hh, hcarry⟩ := hl.draft
  obtain ⟨y, a', cur', hy, hh', hp', hst', hout, hfr, -⟩ := txPart_parts hp hh b
  obtain rfl := Option.some.inj (hr.symm.trans hy)
  have hl' := hcarry hh'
  rw [← hfr.host, ← hfr.rx] at hl'
  rw [← hfr.host] at hdata
  have hcur : reassemble epSize (x'.sent.map Sent.bytes) = ⟨done, cur⟩ →
      cur' = cur → a'.queue = a.queue → Delivering g m₀ strict x' := by
    rintro hs rfl hq
    exact ⟨a', _, done, hp', hl', hst'.trans hst, hs, by rw [hq]; exact hdata⟩
  cases hout with
  | quiet hs _ _ _ hq hc => exact hcur (by rw [hs]; exact hsent) hc hq
  | part c hlen hs _ _ _ hq hc =>
      refine ⟨a', cur', done, hp', hl', hst'.trans hst, ?_, by rw [hq]; exact hdata⟩
      rw [hs, List.map_append, List.map_singleton, reassemble_snoc, hsent, Stream.absorb,
        if_neg (by dsimp only; omega), hc]
  | last c hlen hs _ _ _ hq hc =>
      refine ⟨a', cur', done ++ [cur ++ c], hp', hl', hst'.trans hst, ?_, ?_⟩
      · rw [hs, List.map_append, List.map_singleton, reassemble_snoc, hsent, Stream.absorb,
          if_pos hlen, hc]
      · rw [← hdata, hq, List.append_assoc]
        rfl

theorem Delivering.rxPart (h : Delivering g m₀ strict x)
    (hdrop : strict = true → ¬ DropsBehindInput g x) (hr : rxPart g x = some x') :
    Delivering g m₀ strict x' := by
  obtain ⟨a, cur, done, hp, hl, hst, hsent, hdata⟩ := h
  have hd : ∀ b p, x.dev.enableRX = true → x.host.out = some b → x.dev.rx.packet = some p →
      DropsShort x.dev.rx b → a.Drop x.dev.ring p := by
    intro b p hen hout _ hb
    refine ⟨fun hs q hq hin => ?_, fun hc => by cases (congrArg Prod.snd hst).symm.trans hc⟩
    have hno := hdrop ((congrArg Prod.fst hst).symm.trans hs)
    unfold DropsBehindInput at hno
    rw [hen, hout] at hno
    obtain ⟨u, ⟨pre, post, hinv⟩, -⟩ := hl.draft
    have hflag : flagged g x.dev.ring State.input = [] := by
      by_contra hne
      exact hno ⟨hb, hne⟩
    exact (hinv.flagged_nil (Or.inl rfl)).mp hflag q hq hin
  obtain ⟨new, hp', hl', hf, hs⟩ := rxPart_link hp hl hd hr
  refine ⟨a.pushAll new, cur, done, hp', hl', hst, by rw [hs]; exact hsent, ?_⟩
  rw [hf, ← hdata, Account.pushAll_data, List.append_assoc]

theorem Delivering.step (h : Delivering g m₀ strict x)
    (hok : strict = true → DropsInOrder g x e) (hs : EchoStep g x e x') :
    Delivering g m₀ strict x' := by
  obtain ⟨hne, hs⟩ := hs
  unfold SysStep sysStep at hs
  cases e with
  | frame f =>
      obtain ⟨h', hh, rfl⟩ := Option.map_eq_some_iff.mp hs
      obtain ⟨a, cur, done, hp, hl, hst, hsent, hdata⟩ := h
      exact ⟨a, cur, done, hp, hl.send hh, hst, hsent, by rw [Host.send_frames hh]; exact hdata⟩
  | chunk =>
      obtain ⟨h', hh, rfl⟩ := Option.map_eq_some_iff.mp hs
      obtain ⟨a, cur, done, hp, hl, hst, hsent, hdata⟩ := h
      exact ⟨a, cur, done, hp, hl.deliverChunk hh, hst, hsent,
        by rw [Host.deliverChunk_frames hh]; exact hdata⟩
  | interrupt b =>
      obtain ⟨y, hy, hs⟩ := Option.bind_eq_some_iff.mp hs
      exact (h.txPart hy).rxPart (fun hst => hok hst y hy) hs
  | main =>
      obtain ⟨d, hd, rfl⟩ := Option.map_eq_some_iff.mp hs
      obtain ⟨a, cur, done, hp, hl, hst, hsent, hdata⟩ := h
      obtain ⟨u, hh, hcarry⟩ := hl.draft
      obtain ⟨d', a', hd', hh', hp', hst', hq, hrx, -, -⟩ := mainStep_parts hp hh
      obtain rfl := Option.some.inj (hd.symm.trans hd')
      have hl' := hcarry hh'
      rw [← hrx] at hl'
      exact ⟨a', cur, done, hp', hl', hst'.trans hst, hsent, by rw [hq]; exact hdata⟩
  | configure => exact absurd rfl hne

end delivering

/-- **The echo.**  If no packet is dropped behind waiting input packets, then at every moment the
transmitted frames are a prefix of the received ones, each cut to its announced length, the frame
in transmission is a part of the next one, and no input packet is out of the reach of
`Packet_GetInput`. -/
theorem echo_in_order (m : Mem) {es : List Event} {x : Sys}
    (h : Run (Guarded (DropsInOrder g) (EchoStep g)) (Sys.init g m) es x) :
    (∃ rest, x.host.frames.filterMap deliver =
        (reassemble epSize (x.sent.map Sent.bytes)).done ++ rest ∧
      ∀ w ∈ rest.head?, (reassemble epSize (x.sent.map Sent.bytes)).part <+: w) ∧
    passedInput g x.dev.ring = [] := by
  have hinv : Delivering g (Ring.init g m).mem true x :=
    h.invariant (fun _ _ _ hy he => hy.step (fun _ => he.1) he.2) (delivering_init g m true)
  obtain ⟨a, cur, done, hp, hl, hst, hsent, hdata⟩ := hinv
  refine ⟨⟨a.queue.map Prod.snd, ?_, fun w hw => ?_⟩, ?_⟩
  · rw [hsent]
    exact hdata.symm
  · rw [hsent]
    have hprog := hp.progress
    unfold Progress at hprog
    split at hprog
    · rw [hprog]
      exact List.nil_prefix
    · obtain ⟨more, rest, hq, -, -⟩ := hprog
      rw [hq] at hw
      obtain rfl : cur ++ more = w := by simpa using hw
      exact List.prefix_append _ _
  · obtain ⟨u, ⟨pre, post, hinv⟩, -⟩ := hl.draft
    exact hinv.passedInput (congrArg Prod.fst hst)

/-- The ring of the device: `PACKETBUFFER_LEN` is `PACKET_LEN_MAX`. -/
def avr : Geometry := .avr (divRoundUp packetLenMax 2)

/-- An ARP request and padding. -/
def arpFrame : List UInt8 :=
  [2, 0, 0, 0, 0, 0x40, 2, 0, 0, 0, 0, 1, 8, 6, 0, 1, 8, 0, 6, 4, 0, 1, 2, 0] ++
    List.replicate 36 7

/-- A UDP packet that announces 100 bytes, and ends after 74. -/
def cutFrame : List UInt8 :=
  [2, 0, 0, 0, 0, 0x40, 2, 0, 0, 0, 0, 1, 8, 0, 0x45, 0, 0, 86, 0, 0, 0, 0, 64, 17] ++
    List.replicate 50 7

/-- `EchoStep` as a function. -/
def echoOnce : Sys → Event → Option Sys := Run.guardOnce (fun _ e => e ≠ .configure) (sysStep g)

theorem step_of_echoOnce : ∀ x e x', echoOnce g x e = some x' → EchoStep g x e x' :=
  Run.of_guardOnce (fun _ _ _ h => h)

/-- The ARP request comes in, the main loop takes it, and it is sent without the padding. -/
def arpEvents : List Event :=
  [.frame arpFrame, .chunk, .interrupt false, .main, .main, .main, .main, .interrupt true]

theorem echo_in_order_arp : ∃ x,
    Run (Guarded (DropsInOrder avr) (EchoStep avr)) (Sys.init avr (fun _ => 0)) arpEvents x ∧
      (∃ rest, x.host.frames.filterMap deliver = [arpFrame.take 42] ++ rest) ∧
      passedInput avr x.dev.ring = [] := by
  have h : (Run.exec (Run.guardOnce (DropsInOrder avr) (echoOnce avr)) (Sys.init avr (fun _ => 0))
      arpEvents).any (fun x => decide
        ((reassemble epSize (x.sent.map Sent.bytes)).done = [arpFrame.take 42])) = true := by
    decide +kernel
  obtain ⟨x, hx, hc⟩ := Run.of_exec_any (Run.of_guardOnce (step_of_echoOnce avr)) h
  obtain ⟨⟨rest, hrest, -⟩, hpass⟩ := echo_in_order avr (fun _ => 0) hx
  rw [of_decide_eq_true hc] at hrest
  exact ⟨x, hx, ⟨rest, hrest⟩, hpass⟩

/-- The second frame is dropped before the main loop has taken the first one. -/
def overtakingEvents : List Event :=
  [.frame arpFrame, .chunk, .interrupt false, .frame cutFrame, .chunk, .interrupt false, .chunk,
    .interrupt false]

theorem not_echo_in_order : ∃ x,
    Run (EchoStep avr) (Sys.init avr (fun _ => 0)) overtakingEvents x ∧
      passedInput avr x.dev.ring ≠ [] := by
  have h : (Run.exec (echoOnce avr) (Sys.init avr (fun _ => 0)) overtakingEvents).any
      (fun x => decide (passedInput avr x.dev.ring ≠ [])) = true := by
    decide +kernel
  obtain ⟨x, hx, hc⟩ := Run.of_exec_any (step_of_echoOnce avr) h
  exact ⟨x, hx, of_decide_eq_true hc⟩

end TimeSwitch.Usb
