import TimeSwitch.Suspension

/-! # Reconfiguration

`EVENT_USB_Device_ConfigurationChanged` empties the endpoints but leaves the static variables of the
endpoint interrupt alone.  The next chunk begins a new frame, in both directions, while receiver and
transmitter may still be inside a frame.

This is harmless in two situations (`Interruptible`): the transmitter is between two packets, and
the receiver is in `WAITING`, or it is in `READING` and stores nothing more.  In the latter case the
next frame takes the part of the rest of the interrupted one (`Receiving.stale`): it is lost, but no
byte of it is stored. -/

namespace TimeSwitch.Usb

open Framing PacketBuffer ByteMemory

variable (g : Geometry)

/-- The event comes between two packets of the transmitter, and the receiver does not store. -/
def Interruptible (d : Device) : Prop :=
  d.tx.packet = none ∧
    (d.rx.state = .waiting ∨ d.rx.state = .reading ∧ d.rx.bytesRemaining = 0)

instance (d : Device) : Decidable (Interruptible d) := by unfold Interruptible; infer_instance

/-- Reconfiguration happens only in these situations. -/
def ConfiguresSafely (x : Sys) (e : Event) : Prop := e = .configure → Interruptible x.dev

instance (x : Sys) (e : Event) : Decidable (ConfiguresSafely x e) := by
  unfold ConfiguresSafely; infer_instance

section unmixed

variable {g} {m₀ : Mem} {a : Account} {begun : List (List UInt8)} {h h' : Host} {s : Ring} {rx : Rx}
  {b : List UInt8} {cur : List UInt8} {x x' : Sys} {e : Event}

/-- The chunks at the host are those of a frame. -/
def HostOk (h : Host) : Prop := Rest h.pending ∧ ∀ b, h.out = some b → Ahead b h.pending

/-- What an interrupted frame left: nothing, or a complete packet. -/
def Leftover (g : Geometry) (m₀ : Mem) (begun : List (List UInt8)) (a : Account) (s : Ring) :
    Option ℕ → Prop
  | none => Idle g m₀ s a
  | some p => ∃ w, Building g m₀ s a p w.length w ∧ ∃ f ∈ begun, w <+: f

/-- The receiver follows the frame of the host, or it has stored all of an interrupted frame. -/
inductive Receiving (g : Geometry) (m₀ : Mem) (begun : List (List UInt8)) (a : Account) (h : Host)
    (s : Ring) (rx : Rx) : Prop
  | linked : RingLink g m₀ a h s rx → Receiving g m₀ begun a h s rx
  | stale : rx.state = .reading → rx.bytesRemaining = 0 → HostOk h →
      Leftover g m₀ begun a s rx.packet → Receiving g m₀ begun a h s rx

theorem Receiving.draft (hi : Receiving g m₀ begun a h s rx) :
    ∃ u, Holds g m₀ s a u ∧ ∀ {s' a'}, Holds g m₀ s' a' u → Receiving g m₀ begun a' h s' rx := by
  cases hi with
  | linked hl =>
      obtain ⟨u, hh, hcarry⟩ := hl.draft
      exact ⟨u, hh, fun hh' => .linked (hcarry hh')⟩
  | stale hs hr ho hleft =>
      cases hp : rx.packet with
      | none =>
          rw [hp] at hleft
          exact ⟨none, hleft, fun hh => .stale hs hr ho (by rw [hp]; exact hh)⟩
      | some p =>
          rw [hp] at hleft
          obtain ⟨w, hb, hf⟩ := hleft
          exact ⟨_, hb, fun hh => .stale hs hr ho (by rw [hp]; exact ⟨w, hh, hf⟩)⟩

theorem HostOk.send {f : List UInt8} (hh : h.send f = some h') : HostOk h' := by
  unfold Host.send at hh
  split_ifs at hh with hc
  obtain rfl := Option.some.inj hh
  refine ⟨Or.inr ⟨f, rfl⟩, fun b hb => ?_⟩
  cases hc.1.symm.trans hb

theorem HostOk.deliverChunk (hi : HostOk h) (hh : h.deliverChunk = some h') : HostOk h' := by
  unfold Host.deliverChunk at hh
  split at hh
  · rename_i b pending ho hpe
    obtain rfl := Option.some.inj hh
    rcases hi.1 with hnil | ⟨l, hl⟩
    · cases hpe.symm.trans hnil
    · obtain ⟨b', p', hcons, hb, -, hrest⟩ := chunks_ahead l
      obtain ⟨rfl, rfl⟩ := List.cons.inj (hpe.symm.trans (hl.trans hcons))
      refine ⟨hrest, fun c hc => ?_⟩
      obtain rfl := Option.some.inj hc
      exact hb
  · cases hh

theorem Receiving.send {f : List UInt8} (hi : Receiving g m₀ begun a h s rx)
    (hh : h.send f = some h') : Receiving g m₀ (begun ++ [f]) a h' s rx := by
  cases hi with
  | linked hl => exact .linked (hl.send hh)
  | stale hs hr _ hleft =>
      refine .stale hs hr (HostOk.send hh) ?_
      revert hleft
      cases rx.packet with
      | none => exact id
      | some p =>
          rintro ⟨w, hb, f', hf', hw⟩
          exact ⟨w, hb, f', List.mem_append_left _ hf', hw⟩

theorem Receiving.deliverChunk (hi : Receiving g m₀ begun a h s rx)
    (hh : h.deliverChunk = some h') : Receiving g m₀ begun a h' s rx := by
  cases hi with
  | linked hl => exact .linked (hl.deliverChunk hh)
  | stale hs hr ho hleft => exact .stale hs hr (ho.deliverChunk hh) hleft

/-- The rest of an interrupted frame: no byte is stored, and its last chunk puts the packet. -/
theorem Receiving.stale_receive {y : RxRun Ring} (hs : rx.state = .reading)
    (hr : rx.bytesRemaining = 0) (ho : HostOk h) (hout : h.out = some b)
    (hleft : Leftover g m₀ begun a s rx.packet) (hy : receive (ringInput g) s rx b = some y) :
    ∃ new, Receiving g m₀ begun (a.pushAll new) (h.taken y.out) y.store y.rx ∧
      ∀ w ∈ new, ∃ f ∈ begun, w <+: f := by
  have hw : rx.state ≠ .waiting := by rw [hs]; decide
  have hn : rx.state ≠ .needspace := by rw [hs]; decide
  have hlast := (ho.2 b hout).last_iff
  unfold receive rxHeader rxStart rxReading at hy
  simp only [if_neg hw, if_neg hn, Option.bind_some, if_pos hs, hr, Nat.min_zero, List.take_zero,
    storeBytes, if_true, Nat.sub_zero, ne_eq, not_true_eq_false, if_false] at hy
  by_cases hl : b.length < epSize
  · have hnil := hlast.mp hl
    rw [if_pos (decide_eq_true hl)] at hy
    cases hp : rx.packet with
    | none =>
        rw [hp] at hy hleft
        obtain rfl := Option.some.inj hy
        refine ⟨[], .linked (.resting rfl rfl ?_ rfl hnil), by simp⟩
        rw [Account.pushAll_nil]
        exact hleft
    | some p =>
        rw [hp] at hy hleft
        obtain ⟨w, hb, hf⟩ := hleft
        obtain ⟨st, hput, rfl⟩ := Option.map_eq_some_iff.mp hy
        obtain ⟨st', hput', hidle⟩ := (ring_laws g m₀).put hb rfl
        obtain rfl := Option.some.inj (hput'.symm.trans hput)
        refine ⟨[w], .linked (.resting rfl rfl hidle rfl hnil), fun w' hw' => ?_⟩
        rw [List.mem_singleton.mp hw']
        exact hf
  · rw [if_neg (by simpa using hl)] at hy
    obtain rfl := Option.some.inj hy
    refine ⟨[], .stale hs rfl ⟨ho.1, fun c hc => by cases hc⟩ ?_, by simp⟩
    rw [Account.pushAll_nil]
    exact hleft

/-- An interrupt of the receiver puts only prefixes of frames. -/
theorem Receiving.receive {y : RxRun Ring} (hi : Receiving g m₀ begun a h s rx)
    (hlax : a.demands = (false, false)) (hout : h.out = some b) (hf : h.frame ∈ begun)
    (hy : Usb.receive (ringInput g) s rx b = some y) :
    ∃ new, Receiving g m₀ begun (a.pushAll new) (h.taken y.out) y.store y.rx ∧
      ∀ w ∈ new, ∃ f ∈ begun, w <+: f := by
  cases hi with
  | linked hl =>
      have hinv := hl.receive (ring_laws g m₀) hout (fun p _ _ => a.drop_of_lax hlax s p) hy
      rw [accountAfter_push] at hinv
      refine ⟨newPackets h y.out, .linked hinv, fun w hw => ⟨h.frame, hf, ?_⟩⟩
      unfold newPackets at hw
      split_ifs at hw
      · have hdel := Option.mem_toList.mp hw
        unfold deliver at hdel
        split_ifs at hdel
        rw [← Option.some.inj hdel]
        exact List.take_prefix _ _
      · cases hw
  | stale hs hr ho hleft => exact Receiving.stale_receive hs hr ho hout hleft hy

/-- The event. -/
theorem Receiving.configure (hi : Receiving g m₀ begun a h s rx)
    (hf : h.out = none ∧ h.pending = [] ∨ h.frame ∈ begun)
    (hok : rx.state = .waiting ∨ rx.state = .reading ∧ rx.bytesRemaining = 0) :
    Receiving g m₀ begun a { h with out := none, pending := [] } s rx := by
  have hhost : HostOk { h with out := none, pending := [] } :=
    ⟨Or.inl rfl, fun c hc => by cases hc⟩
  have huse : ∀ {c d}, h.frame = c ++ d → ¬ (h.out = none ∧ h.pending = []) →
      Using (ringInput g) (Idle g m₀) (Building g m₀) a h.frame c s rx →
      Receiving g m₀ begun a { h with out := none, pending := [] } s rx := by
    rintro c d hcd hbusy ⟨hs, -, hig | ⟨p, hfill⟩⟩
    · exact .stale hs hig.remaining hhost (by rw [hig.packet]; exact hig.idle)
    · have hr : rx.bytesRemaining = 0 := by
        rcases hok with hw | ⟨-, hr⟩
        · cases hs.symm.trans hw
        · exact hr
      have hle : announcedLength h.frame ≤ c.length := by
        have := hfill.remaining
        omega
      have hlen : (c.take (announcedLength h.frame)).length = announcedLength h.frame := by
        rw [List.length_take]
        omega
      refine .stale hs hr hhost ?_
      rw [hfill.packet]
      refine ⟨c.take (announcedLength h.frame), ?_, h.frame, hf.resolve_left hbusy, ?_⟩
      · rw [hlen]
        exact hfill.building
      · refine (List.take_prefix _ _).trans ?_
        rw [hcd]
        exact List.prefix_append _ _
  cases hi with
  | stale hs hr _ hleft => exact .stale hs hr hhost hleft
  | linked hl =>
      cases hl with
      | resting hs hp hidle _ _ => exact .linked (.resting hs hp hidle rfl rfl)
      | begun hs hp hidle _ _ => exact .linked (.resting hs hp hidle rfl rfl)
      | first _ hs hp hidle _ _ _ _ => exact .linked (.resting hs hp hidle rfl rfl)
      | stalled _ _ _ _ _ _ hst =>
          rcases hok with hw | ⟨hw, -⟩ <;> cases hst.state.symm.trans hw
      | between c _ hne _ hcd hu => exact huse hcd (fun hc => hne hc.2) hu
      | next c b ho _ _ hcd hu =>
          refine huse (hcd.trans (List.append_assoc _ _ _)) (fun hc => ?_) hu
          cases ho.symm.trans hc.1

/-! ### The system -/

/-- No frame in the ring or on the way to the host is mixed up. -/
structure Unmixed (g : Geometry) (m₀ : Mem) (a : Account) (cur : List UInt8) (x : Sys) : Prop where
  parts : Parts g a x.dev cur
  lax : a.demands = (false, false)
  receiving : Receiving g m₀ x.begun a x.host x.dev.ring x.dev.rx
  frame : x.host.out = none ∧ x.host.pending = [] ∨ x.host.frame ∈ x.begun
  prefixes : ∀ w ∈ a.queue.map Prod.snd, ∃ f ∈ x.begun, w <+: f
  starts : ∀ c ∈ x.sent, c.fresh = true → c.offset = 0
  fresh : x.fresh = true → x.dev.tx.packet = none

theorem Unmixed.txPart (h : Unmixed g m₀ a cur x) {inReady : Bool}
    (hr : txPart g inReady x = some x') : ∃ a' cur', Unmixed g m₀ a' cur' x' := by
  obtain ⟨u, hh, hcarry⟩ := h.receiving.draft
  obtain ⟨y, a', cur', hy, hh', hp', hst', hout, hfr, -⟩ := txPart_parts h.parts hh inReady
  obtain rfl := Option.some.inj (hr.symm.trans hy)
  have hi := hcarry hh'
  rw [← hfr.host, ← hfr.rx, ← hfr.begun] at hi
  have hframe := h.frame
  rw [← hfr.host, ← hfr.begun] at hframe
  have hstart : ∀ c, x'.sent = x.sent ++ [(⟨x.fresh, cur.length, c⟩ : Sent)] →
      ∀ c ∈ x'.sent, c.fresh = true → c.offset = 0 := by
    intro c hs c' hc' hf
    rw [hs] at hc'
    cases List.mem_append.mp hc' with
    | inl hc' => exact h.starts c' hc' hf
    | inr hc' =>
        rw [List.mem_singleton.mp hc'] at hf ⊢
        -- the transmitter has just fetched the packet
        have hprog := h.parts.progress
        unfold Progress at hprog
        rw [h.fresh hf] at hprog
        rw [hprog]
        rfl
  refine ⟨a', cur', hp', hst'.trans h.lax, hi, hframe, ?_, ?_, ?_⟩
  · rw [hfr.begun]
    intro w hw
    refine h.prefixes w ?_
    cases hout with
    | quiet _ _ _ _ hq _ => exact hq ▸ hw
    | part _ _ _ _ _ _ hq _ => exact hq ▸ hw
    | last _ _ _ _ _ _ hq _ =>
        rw [hq]
        exact List.mem_cons_of_mem _ hw
  · cases hout with
    | quiet hs _ _ _ _ _ =>
        rw [hs]
        exact h.starts
    | part c _ hs _ _ _ _ _ => exact hstart c hs
    | last c _ hs _ _ _ _ _ => exact hstart c hs
  · intro hf
    cases hout with
    | quiet _ hf' hp _ _ _ =>
        rw [hp]
        exact h.fresh (hf'.symm.trans hf)
    | part _ _ _ hf' _ _ _ _ => cases hf'.symm.trans hf
    | last _ _ _ _ hp _ _ _ => exact hp

theorem Unmixed.rxPart (h : Unmixed g m₀ a cur x) (hr : rxPart g x = some x') :
    ∃ a' cur', Unmixed g m₀ a' cur' x' := by
  rcases rxPart_cases hr with rfl | ⟨b, y, -, hout, hy, rfl⟩
  · exact ⟨a, cur, h⟩
  · have hf : x.host.frame ∈ x.begun := by
      rcases h.frame with ⟨ho, -⟩ | hf
      · cases ho.symm.trans hout
      · exact hf
    obtain ⟨new, hi, hnew⟩ := h.receiving.receive h.lax hout hf hy
    refine ⟨a.pushAll new, cur, h.parts.pushAll new rfl rfl, h.lax, hi, Or.inr hf, fun w hw => ?_,
      h.starts, h.fresh⟩
    rw [Account.pushAll_data] at hw
    cases List.mem_append.mp hw with
    | inl hw => exact h.prefixes w hw
    | inr hw => exact hnew w hw

theorem Unmixed.step (h : Unmixed g m₀ a cur x) (hok : ConfiguresSafely x e)
    (hs : SysStep g x e x') : ∃ a' cur', Unmixed g m₀ a' cur' x' := by
  unfold SysStep sysStep at hs
  cases e with
  | frame f =>
      obtain ⟨h', hh, rfl⟩ := Option.map_eq_some_iff.mp hs
      refine ⟨a, cur, h.parts, h.lax, h.receiving.send hh, Or.inr ?_, fun w hw => ?_, h.starts,
        h.fresh⟩
      · unfold Host.send at hh
        split_ifs at hh
        rw [← Option.some.inj hh]
        simp
      · obtain ⟨f', hf', hp⟩ := h.prefixes w hw
        exact ⟨f', List.mem_append_left _ hf', hp⟩
  | chunk =>
      obtain ⟨h', hh, rfl⟩ := Option.map_eq_some_iff.mp hs
      refine ⟨a, cur, h.parts, h.lax, h.receiving.deliverChunk hh, Or.inr ?_, h.prefixes, h.starts,
        h.fresh⟩
      unfold Host.deliverChunk at hh
      split at hh
      · rename_i b pending ho hpe
        rw [← Option.some.inj hh]
        rcases h.frame with ⟨-, hnil⟩ | hf
        · cases hpe.symm.trans hnil
        · exact hf
      · cases hh
  | interrupt inReady =>
      obtain ⟨y, hy, hs⟩ := Option.bind_eq_some_iff.mp hs
      obtain ⟨a₁, cur₁, h₁⟩ := h.txPart hy
      exact h₁.rxPart hs
  | main =>
      obtain ⟨d, hd, rfl⟩ := Option.map_eq_some_iff.mp hs
      obtain ⟨u, hh, hcarry⟩ := h.receiving.draft
      obtain ⟨d', a', hd', hh', hp', hst', hq, hrx, htx, -⟩ := mainStep_parts h.parts hh
      obtain rfl := Option.some.inj (hd.symm.trans hd')
      have hi := hcarry hh'
      rw [← hrx] at hi
      exact ⟨a', cur, hp', hst'.trans h.lax, hi, h.frame, by rw [hq]; exact h.prefixes, h.starts,
        by rw [htx]; exact h.fresh⟩
  | configure =>
      obtain rfl := Option.some.inj hs
      obtain ⟨htx, hrx⟩ := hok rfl
      exact ⟨a, cur, ⟨h.parts.tx, h.parts.held, h.parts.progress⟩, h.lax,
        h.receiving.configure h.frame hrx, Or.inl ⟨rfl, rfl⟩, h.prefixes, h.starts, fun _ => htx⟩

theorem unmixed_init (g : Geometry) (m : Mem) :
    ∃ a cur, Unmixed g (Ring.init g m).mem a cur (Sys.init g m) := by
  obtain ⟨a, cur, done, hp, hl, hst, hsent, hdata⟩ := delivering_init g m false
  refine ⟨a, cur, hp, hst, .linked hl, Or.inl ⟨rfl, rfl⟩, fun w hw => ?_, by simp [Sys.init],
    fun _ => rfl⟩
  have hnil : done ++ a.queue.map Prod.snd = [] := hdata
  rw [(List.append_eq_nil_iff.mp hnil).2] at hw
  cases hw

end unmixed

/-- The packet in the slot `p` is a prefix of one frame of the host. -/
def OneFrame (x : Sys) (p : ℕ) : Prop :=
  ∃ f ∈ x.begun, x.dev.ring.data g p (packetGetLen (x.dev.ring.state g p)) <+: f

instance (x : Sys) (p : ℕ) : Decidable (OneFrame g x p) := by unfold OneFrame; infer_instance

/-- **No mixed frames.**  If reconfiguration comes only between two packets of the transmitter and
while the receiver does not store, then every packet in the input chain is a prefix of one frame of
the host, and the first chunk of every transmitted frame is the beginning of a packet. -/
theorem frames_not_mixed (m : Mem) {es : List Event} {x : Sys}
    (h : Run (Guarded ConfiguresSafely (SysStep g)) (Sys.init g m) es x) :
    (∀ p ∈ flagged g x.dev.ring State.input, OneFrame g x p) ∧
      ∀ c ∈ x.sent, c.fresh = true → c.offset = 0 := by
  let I : Sys → Prop := fun y => ∃ a cur, Unmixed g (Ring.init g m).mem a cur y
  have hstep : ∀ y e y', I y → Guarded ConfiguresSafely (SysStep g) y e y' → I y' := by
    rintro y e y' ⟨a, cur, hy⟩ he
    exact hy.step he.1 he.2
  obtain ⟨a, cur, hinv⟩ := h.invariant hstep (unmixed_init g m)
  refine ⟨fun p hp => ?_, hinv.starts⟩
  obtain ⟨u, ⟨pre, post, hring⟩, -⟩ := hinv.receiving.draft
  obtain ⟨e, he, rfl, hst⟩ := (hring.mem_flagged (by decide : Status.input ≠ .skip)).mp hp
  obtain ⟨k, kr, hL⟩ := hring.rep
  obtain ⟨f, hf, hpre⟩ := hinv.prefixes e.data (by
    rw [← hring.queue]
    exact List.mem_map_of_mem (mem_queueOf he (Or.inl hst)))
  refine ⟨f, hf, ?_⟩
  rw [hL.state_eq he, e.getLen_word]
  have hdata : x.dev.ring.data g e.pos e.len = e.data := (hL.stored e he).data
  rw [hdata]
  exact hpre

/-- An ARP request with so much padding that it takes two chunks. -/
def paddedFrame : List UInt8 := arpFrame ++ List.replicate 40 7

/-- A complete packet whose frame is cut off by the event: the next frame ends it. -/
def cutOffEvents : List Event :=
  [.frame paddedFrame, .chunk, .interrupt false, .configure, .frame cutFrame, .chunk,
    .interrupt false, .chunk, .interrupt false]

theorem frames_not_mixed_cut_off : ∃ x,
    Run (Guarded ConfiguresSafely (SysStep avr)) (Sys.init avr (fun _ => 0)) cutOffEvents x ∧
      flagged avr x.dev.ring State.input = [0] ∧ OneFrame avr x 0 := by
  have h : (Run.exec (Run.guardOnce ConfiguresSafely (sysStep avr)) (Sys.init avr (fun _ => 0))
      cutOffEvents).any (fun x => decide (flagged avr x.dev.ring State.input = [0])) = true := by
    decide +kernel
  obtain ⟨x, hx, hc⟩ := Run.of_exec_any (Run.of_guardOnce (fun _ _ _ hs => hs)) h
  have hflag := of_decide_eq_true hc
  obtain ⟨hone, -⟩ := frames_not_mixed avr (fun _ => 0) hx
  exact ⟨x, hx, hflag, hone 0 (by rw [hflag]; simp)⟩

/-- The event comes inside a packet: it is filled up with the next frame. -/
def mixingEvents : List Event :=
  [.frame cutFrame, .chunk, .interrupt false, .configure, .frame arpFrame, .chunk, .interrupt false]

theorem frames_mixed : ∃ x, Run (SysStep avr) (Sys.init avr (fun _ => 0)) mixingEvents x ∧
    0 ∈ flagged avr x.dev.ring State.input ∧ ¬ OneFrame avr x 0 := by
  have h : (Run.exec (sysStep avr) (Sys.init avr (fun _ => 0)) mixingEvents).any (fun x => decide
      (0 ∈ flagged avr x.dev.ring State.input ∧ ¬ OneFrame avr x 0)) = true := by
    decide +kernel
  obtain ⟨x, hx, hc⟩ := Run.of_exec_any (fun _ _ _ hs => hs) h
  exact ⟨x, hx, of_decide_eq_true hc⟩

end TimeSwitch.Usb
