import TimeSwitch.Storage

/-! # No lost wake-up

The main loop sets the sleep enable bit before it asks for a packet, and the interrupt clears it
when it puts a packet into the input chain.  So whatever interrupts come between the question and
`sleep_cpu`, either the bit is clear or the answer is still that there is no packet.  The account of
the ring gets a second component: true as long as `Packet_GetInput` finds nothing. -/

namespace TimeSwitch.Usb

open Framing PacketBuffer ByteMemory

variable {g : Geometry} {m₀ : Mem}

/-- The ring has the account `a.1`; if `a.2` is set, it has no packet for the main loop. -/
def CalmHolds (g : Geometry) (m₀ : Mem) (s : Ring) (a : Account × Bool) (u : Draft) : Prop :=
  Holds g m₀ s a.1 u ∧ (a.2 = true → NoInput g s)

/-- No packet is under construction. -/
def CalmIdle (g : Geometry) (m₀ : Mem) (s : Ring) (a : Account × Bool) : Prop :=
  CalmHolds g m₀ s a none

/-- The packet at slot `p` is under construction. -/
def CalmBuilding (g : Geometry) (m₀ : Mem) (s : Ring) (a : Account × Bool) (p len : ℕ)
    (w : List UInt8) : Prop :=
  CalmHolds g m₀ s a (some (p, len, w))

/-- A new input packet ends the calm. -/
def calmPush (a : Account × Bool) (w : List UInt8) : Account × Bool := (a.1.push w, false)

/-- Only `Packet_PutInput` gives the main loop a packet. -/
theorem calm_laws (g : Geometry) (m₀ : Mem) :
    BuildLaws (ringInput g) calmPush (CalmIdle g m₀) (CalmBuilding g m₀) (fun s a p => a.1.Drop s p) where
  new_none := by
    intro st st' a L hidle _ _ hr
    rw [packetNew_none_same hr]
    exact hidle
  new_some := by
    rintro st st' a L p ⟨⟨pre, post, h⟩, hno⟩ _ hmax hr
    obtain ⟨post', h', hcalm⟩ := h.new hmax hr
    exact ⟨⟨pre, post', h'⟩, fun hc => h'.noInput_iff.mpr (hcalm (h.noInput_iff.mp (hno hc)))⟩
  write := by
    rintro st a p L w bs ⟨⟨pre, post, h⟩, hno⟩ hfit _
    obtain ⟨pre', post', h', hcalm⟩ := h.write hfit
    exact ⟨⟨pre', post', h'⟩, fun hc => h'.noInput_iff.mpr (hcalm (h.noInput_iff.mp (hno hc)))⟩
  put := by
    rintro st a p L w ⟨⟨pre, post, h⟩, -⟩ hw
    obtain ⟨s', hput, pre', post', h'⟩ := h.put hw
    exact ⟨s', hput, ⟨pre', post', h'⟩, nofun⟩
  drop := id
  release := by
    rintro st a p L w ⟨⟨pre, post, h⟩, -⟩ _ hd
    obtain ⟨pre', h'⟩ := h.release hd
    exact ⟨⟨pre', [], h'⟩, fun _ => h'.noInput_iff.mpr nofun⟩

/-- The receiver's variables depend on the ring through its account and its draft. -/
theorem Shape.calm_draft {a : Account × Bool} {s : Ring} {rx : Rx}
    (h : Shape (ringInput g) (CalmIdle g m₀) (CalmBuilding g m₀) a s rx) :
    ∃ u, CalmHolds g m₀ s a u ∧ ∀ {s' a'}, CalmHolds g m₀ s' a' u →
      Shape (ringInput g) (CalmIdle g m₀) (CalmBuilding g m₀) a' s' rx := by
  cases h with
  | waiting hs hp hi => exact ⟨none, hi, fun hh => .waiting hs hp hh⟩
  | needspace hs hp hi hmin hmax hb =>
      exact ⟨none, hi, fun hh => .needspace hs hp hh hmin hmax hb⟩
  | ignoring hs hp hi hr => exact ⟨none, hi, fun hh => .ignoring hs hp hh hr⟩
  | filling p L w hs hp hb hw hr => exact ⟨_, hb, fun hh => .filling p L w hs hp hh hw hr⟩

/-! ### The main loop's question -/

/-- The calm at the places of the main loop: at `sleep_cpu` with the enable bit set there is no
packet, and the loop reattaches its packet with the bit cleared. -/
structure Awake (d : Device) (calm : Bool) : Prop where
  sleeping : d.pc = .sleepCpu → d.sleepEnabled = true → calm = true
  working : ∀ p, d.pc = .reattach p → d.sleepEnabled = false

/-- After `Packet_GetInput` returned nothing, it returns nothing again. -/
theorem Holds.noInput {a : Account} {u : Draft} {s s' : Ring} (h : Holds g m₀ s a u)
    (hr : packetGetInput g s = some (none, s')) : NoInput g s' := by
  obtain ⟨pre, post, hinv⟩ := h
  obtain ⟨pre', post', hinv', -, hcalm⟩ := hinv.getInput hr
  exact hinv'.noInput_iff.mpr (hcalm rfl)

/-- A step of the main loop goes to sleep only if it got no packet. -/
theorem Awake.mainStep {d d' : Device} {calm : Bool} {a : Account} {u : Draft}
    (h : Awake d calm) (hh : Holds g m₀ d.ring a u) (hs : mainStep g d = some d') :
    ∃ calm', Awake d' calm' ∧ (calm' = true → NoInput g d'.ring) := by
  unfold Usb.mainStep at hs
  cases hpc : d.pc with
  | sleepEnable =>
      rw [hpc] at hs
      obtain rfl := Option.some.inj hs
      exact ⟨false, ⟨nofun, nofun⟩, nofun⟩
  | sleepDisable p =>
      rw [hpc] at hs
      obtain rfl := Option.some.inj hs
      exact ⟨false, ⟨nofun, fun _ _ => rfl⟩, nofun⟩
  | sleepCpu =>
      rw [hpc] at hs
      obtain rfl := Option.some.inj hs
      exact ⟨false, ⟨nofun, nofun⟩, nofun⟩
  | getInput =>
      rw [hpc] at hs
      obtain ⟨⟨r, s'⟩, hr, rfl⟩ := Option.map_eq_some_iff.mp hs
      cases r with
      | none => exact ⟨true, ⟨fun _ _ => rfl, nofun⟩, fun _ => hh.noInput hr⟩
      | some p => exact ⟨false, ⟨nofun, nofun⟩, nofun⟩
  | reattach p =>
      rw [hpc] at hs
      obtain ⟨s', hr, rfl⟩ := Option.map_eq_some_iff.mp hs
      have hoff := h.working p hpc
      refine ⟨false, ⟨fun _ hen => ?_, nofun⟩, nofun⟩
      cases hoff.symm.trans hen

/-! ### The system -/

section alert

variable {x x' : Sys}

/-- The parts fit the ring, and the main loop misses no packet. -/
def Alert (g : Geometry) (m₀ : Mem) (x : Sys) : Prop :=
  ∃ a cur, Parts g a.1 x.dev cur ∧ a.1.demands = (false, false) ∧ Awake x.dev a.2 ∧
    Shape (ringInput g) (CalmIdle g m₀) (CalmBuilding g m₀) a x.dev.ring x.dev.rx

theorem alert_init (g : Geometry) (m : Mem) : Alert g (Ring.init g m).mem (Sys.init g m) := by
  obtain ⟨a, cur, hp, hst, hs⟩ := sound_init g m
  obtain ⟨u, hh, -⟩ := hs.draft
  refine ⟨(a, false), cur, hp, hst, ⟨nofun, nofun⟩, .waiting rfl rfl ⟨?_, nofun⟩⟩
  cases hs with
  | waiting _ _ hi => exact hi
  | needspace hs' => cases hs'
  | ignoring hs' => cases hs'
  | filling _ _ _ hs' => cases hs'

theorem txPart_sleep {b : Bool} (hr : txPart g b x = some x') :
    x'.dev.sleepEnabled = x.dev.sleepEnabled := by
  unfold Usb.txPart at hr
  split_ifs at hr
  · obtain ⟨r, -, rfl⟩ := Option.map_eq_some_iff.mp hr
    rfl
  · obtain rfl := Option.some.inj hr
    rfl

theorem Alert.txPart (h : Alert g m₀ x) {b : Bool} (hr : txPart g b x = some x') :
    Alert g m₀ x' := by
  obtain ⟨a, cur, hp, hst, haw, hs⟩ := h
  obtain ⟨u, ⟨hh, hcalm⟩, hcarry⟩ := hs.calm_draft
  obtain ⟨y, a', cur', hx, hh', hp', hst', -, hfr, hno⟩ := txPart_parts hp hh b
  obtain rfl := Option.some.inj (hr.symm.trans hx)
  have hs' := @hcarry x'.dev.ring (a', a.2) ⟨hh', fun hc => hno (hcalm hc)⟩
  rw [← hfr.rx] at hs'
  refine ⟨(a', a.2), cur', hp', hst'.trans hst, ⟨fun hpc hen => ?_, fun p hpc => ?_⟩, hs'⟩
  · rw [hfr.pc] at hpc
    rw [txPart_sleep hr] at hen
    exact haw.sleeping hpc hen
  · rw [hfr.pc] at hpc
    rw [txPart_sleep hr]
    exact haw.working p hpc

/-- A new input packet clears the sleep enable bit. -/
theorem Alert.rxPart (h : Alert g m₀ x) (hr : rxPart g x = some x') : Alert g m₀ x' := by
  rcases rxPart_cases hr with rfl | ⟨b, y, -, -, hy, rfl⟩
  · exact h
  obtain ⟨a, cur, hp, hst, haw, hs⟩ := h
  rcases hs.receive (calm_laws g m₀) (a.1.drop_of_lax hst) b with ⟨-, -, hnone⟩ | ⟨-, y', hy', a', ha', hs'⟩
  · cases hnone.symm.trans hy
  obtain rfl := Option.some.inj (hy.symm.trans hy')
  have hoff : ∀ {c : Bool}, c = false → (c && !y.wake) = false := fun hc => by rw [hc]; rfl
  rcases ha' with rfl | ⟨hwake, w, rfl⟩
  · refine ⟨a', cur, ⟨hp.tx, hp.held, hp.progress⟩, hst, ⟨fun hpc hen => ?_, fun p hpc => ?_⟩, hs'⟩
    · exact haw.sleeping hpc (Bool.and_eq_true_iff.mp hen).1
    · exact hoff (haw.working p hpc)
  · refine ⟨calmPush a w, cur, hp.pushAll [w] rfl rfl, hst, ⟨fun _ hen => ?_, fun p hpc => ?_⟩, hs'⟩
    · dsimp only at hen
      rw [hwake, Bool.not_true, Bool.and_false] at hen
      cases hen
    · exact hoff (haw.working p hpc)

theorem Alert.main (h : Alert g m₀ x) {d : Device} (hs : mainStep g x.dev = some d) :
    Alert g m₀ { x with dev := d } := by
  obtain ⟨a, cur, hp, hst, haw, hsh⟩ := h
  obtain ⟨u, ⟨hh, -⟩, hcarry⟩ := hsh.calm_draft
  obtain ⟨d', a', hd', hh', hp', hst', -, hrx, -, -⟩ := mainStep_parts hp hh
  obtain rfl := Option.some.inj (hs.symm.trans hd')
  obtain ⟨calm, haw', hno⟩ := haw.mainStep hh hs
  have hs' := @hcarry d.ring (a', calm) ⟨hh', hno⟩
  rw [← hrx] at hs'
  exact ⟨(a', calm), cur, hp', hst'.trans hst, haw', hs'⟩

theorem Alert.step {e : Event} (h : Alert g m₀ x) (hs : SysStep g x e x') : Alert g m₀ x' := by
  unfold SysStep sysStep at hs
  cases e with
  | frame f =>
      obtain ⟨h', -, rfl⟩ := Option.map_eq_some_iff.mp hs
      exact h
  | chunk =>
      obtain ⟨h', -, rfl⟩ := Option.map_eq_some_iff.mp hs
      exact h
  | interrupt b =>
      obtain ⟨y, hy, hs⟩ := Option.bind_eq_some_iff.mp hs
      exact (h.txPart hy).rxPart hs
  | main =>
      obtain ⟨d, hd, rfl⟩ := Option.map_eq_some_iff.mp hs
      exact h.main hd
  | configure =>
      obtain rfl := Option.some.inj hs
      obtain ⟨a, cur, hp, hst, haw, hs⟩ := h
      exact ⟨a, cur, ⟨hp.tx, hp.held, hp.progress⟩, hst, ⟨haw.sleeping, haw.working⟩, hs⟩

end alert

/-- **No lost wake-up.**  In every run, also with reconfigurations: when the main loop comes to
`sleep_cpu` with the sleep enable bit set, `Packet_GetInput` would return no packet. -/
theorem no_lost_wakeup (m : Mem) {es : List Event} {x : Sys}
    (h : Run (SysStep g) (Sys.init g m) es x) (hpc : x.dev.pc = .sleepCpu)
    (hen : x.dev.sleepEnabled = true) :
    ∃ s, packetGetInput g x.dev.ring = some (none, s) := by
  have hinv : Alert g (Ring.init g m).mem x :=
    h.invariant (fun _ _ _ hy he => hy.step he) (alert_init g m)
  obtain ⟨a, -, -, -, haw, hs⟩ := hinv
  obtain ⟨u, ⟨-, hcalm⟩, -⟩ := hs.calm_draft
  exact hcalm (haw.sleeping hpc hen)

/-- The first chunk of a frame comes after the question. -/
def drowsyEvents : List Event := [.main, .main, .frame cutFrame, .chunk, .interrupt false]

theorem no_lost_wakeup_chunk : ∃ x, Run (SysStep avr) (Sys.init avr (fun _ => 0)) drowsyEvents x ∧
    x.dev.rx.state = .reading ∧ ∃ s, packetGetInput avr x.dev.ring = some (none, s) := by
  have h : (Run.exec (sysStep avr) (Sys.init avr (fun _ => 0)) drowsyEvents).any
      (fun x => decide (x.dev.pc = .sleepCpu ∧ x.dev.sleepEnabled = true ∧
        x.dev.rx.state = .reading)) = true := by
    decide +kernel
  obtain ⟨x, hx, hc⟩ := Run.of_exec_any (fun _ _ _ hs => hs) h
  obtain ⟨hpc, hen, hrx⟩ := of_decide_eq_true hc
  exact ⟨x, hx, hrx, no_lost_wakeup (fun _ => 0) hx hpc hen⟩

end TimeSwitch.Usb
