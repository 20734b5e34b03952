import TimeSwitch.Echo

/-! # Every accepted frame can be stored

The variables of the receiver always fit the packet they belong to (`Shape`), whatever chunks
arrive in whatever order, also across a reconfiguration.  So the receiver never fails but in the
assertion of `allocateNew`, and it writes only into its packet.

That assertion does fail: a packet takes two bytes more than its data, and the ring has no slot for
them when a packet of the maximal length arrives and the ring is empty. -/

namespace TimeSwitch.Usb

open Framing PacketBuffer ByteMemory

/-! ### The receiver's variables -/

/-- The variables of the receiver between two interrupts. -/
inductive Shape {σ α : Type} (S : InputStore σ) (Idle : σ → α → Prop)
    (Building : σ → α → ℕ → ℕ → List UInt8 → Prop) (a : α) (st : σ) (rx : Rx) : Prop
  | waiting : rx.state = .waiting → rx.packet = none → Idle st a → Shape S Idle Building a st rx
  | needspace : rx.state = .needspace → rx.packet = none → Idle st a →
      packetLenMin ≤ rx.bytesRemaining → rx.bytesRemaining ≤ packetLenMax →
      24 ≤ rx.receiveBuffer.length → Shape S Idle Building a st rx
  | ignoring : rx.state = .reading → rx.packet = none → Idle st a → rx.bytesRemaining = 0 →
      Shape S Idle Building a st rx
  | filling (p L : ℕ) (w : List UInt8) : rx.state = .reading → rx.packet = some p →
      Building st a p L w → rx.writer = S.dataAddr p + w.length →
      w.length + rx.bytesRemaining = L → Shape S Idle Building a st rx

section shape

variable {σ α : Type} {S : InputStore σ} {push : α → List UInt8 → α} {Idle : σ → α → Prop}
  {Building : σ → α → ℕ → ℕ → List UInt8 → Prop} {Drop : σ → α → ℕ → Prop}
  {a : α}

/-- Inside one interrupt: `usbLen` counts the unread bytes if any of them is needed. -/
def Fits (x : RxRun σ) : Prop :=
  x.rx.bytesRemaining = 0 ∨ x.usbLen = (x.out.getD []).length

theorem Shape.last {st : σ} {rx : Rx} (h : Shape S Idle Building a st rx) (l : Bool) :
    Shape S Idle Building a st { rx with last := l } := by
  cases h with
  | waiting hs hp hi => exact .waiting hs hp hi
  | needspace hs hp hi hmin hmax hb => exact .needspace hs hp hi hmin hmax hb
  | ignoring hs hp hi hr => exact .ignoring hs hp hi hr
  | filling p L w hs hp hb hw hr => exact .filling p L w hs hp hb hw hr

/-- The filter. -/
theorem Shape.header {st : σ} {rx : Rx} (h : Shape S Idle Building a st rx) (b : List UInt8) :
    Shape S Idle Building a st (rxHeader st rx b).rx ∧
      ((rxHeader st rx b).rx.state ≠ .waiting → Fits (rxHeader st rx b)) := by
  by_cases hs : rx.state = .waiting
  · obtain ⟨hp, hi⟩ : rx.packet = none ∧ Idle st a := by
      cases h with
      | waiting _ hp hi => exact ⟨hp, hi⟩
      | needspace hs' => cases hs.symm.trans hs'
      | ignoring hs' => cases hs.symm.trans hs'
      | filling _ _ _ hs' => cases hs.symm.trans hs'
    rcases rxHeader_cases st b hs with ⟨-, hx⟩ | ⟨-, -, -, buf, hx⟩ |
      ⟨hlong, hacc, -, buf, hbuf, hx⟩ | ⟨-, -, buf, rest, hx⟩
    · rw [hx]
      exact ⟨.waiting hs hp hi, fun hne => absurd hs hne⟩
    · rw [hx]
      exact ⟨.waiting hs hp hi, fun hne => absurd hs hne⟩
    · rw [hx]
      obtain ⟨hmin, hmax⟩ := announcedLength_bounds hacc.ne'
      refine ⟨.needspace rfl hp hi hmin hmax ?_, fun _ => Or.inr List.length_drop.symm⟩
      have h24 : 24 ≤ b.length := le_trans (by decide) hlong
      have hlen := congrArg List.length hbuf
      rw [List.length_take, List.length_take] at hlen
      dsimp only
      omega
    · rw [hx]
      exact ⟨.ignoring rfl hp hi rfl, fun _ => Or.inl rfl⟩
  · have hx : rxHeader st rx b = rxStart st rx b := if_neg hs
    rw [hx]
    exact ⟨h.last _, fun _ => Or.inr rfl⟩

/-- The receiver's part after the filter leaves its variables in shape; the packet it may have
finished is new in the store, and wakes the main loop. -/
def Leaves (S : InputStore σ) (push : α → List UInt8 → α) (Idle : σ → α → Prop)
    (Building : σ → α → ℕ → ℕ → List UInt8 → Prop) (a : α) (y : RxRun σ) : Prop :=
  ∃ a', (a' = a ∨ y.wake = true ∧ ∃ w, a' = push a w) ∧ Shape S Idle Building a' y.store y.rx

/-- `READING` never fails. -/
theorem Shape.reading (laws : BuildLaws S push Idle Building Drop) (hd : ∀ st p, Drop st a p)
    {x : RxRun σ}
    (h : Shape S Idle Building a x.store x.rx) (hs : x.rx.state = .reading) (hf : Fits x) :
    ∃ y, rxReading S x = some y ∧ Leaves S push Idle Building a y := by
  cases h with
  | waiting hs' => cases hs.symm.trans hs'
  | needspace hs' => cases hs.symm.trans hs'
  | ignoring _ hp hi hr =>
      unfold rxReading
      simp only [hr, Nat.min_zero, List.take_zero, storeBytes, if_true, hp, Nat.sub_zero]
      by_cases hl : x.rx.last = true
      · rw [if_pos hl]
        exact ⟨_, rfl, a, Or.inl rfl, .waiting rfl rfl hi⟩
      · rw [if_neg hl]
        exact ⟨_, rfl, a, Or.inl rfl, .ignoring hs rfl hi rfl⟩
  | filling p L w _ hp hb hw hr =>
      obtain ⟨bs, hbs⟩ : ∃ bs, (x.out.getD []).take (min x.usbLen x.rx.bytesRemaining) = bs :=
        ⟨_, rfl⟩
      have hlen : bs.length = min x.usbLen x.rx.bytesRemaining := by
        rw [← hbs, List.length_take]
        rcases hf with h0 | hu <;> omega
      have hb' : Building (storeBytes S x.store x.rx.writer bs) a p L (w ++ bs) := by
        rw [hw]
        exact storeBytes_building laws hb (by omega)
      have hlen' : (w ++ bs).length + (x.rx.bytesRemaining - min x.usbLen x.rx.bytesRemaining) =
          L := by
        rw [List.length_append]
        omega
      unfold rxReading
      simp only [hbs, hp]
      by_cases hl : x.rx.last = true
      · rw [if_pos hl]
        by_cases hrem : x.rx.bytesRemaining - min x.usbLen x.rx.bytesRemaining ≠ 0
        · rw [if_pos hrem]
          exact ⟨_, rfl, a, Or.inl rfl, .waiting rfl rfl (laws.release hb' (by omega) (hd _ p))⟩
        · rw [if_neg hrem]
          obtain ⟨st, hput, hi⟩ := laws.put hb' (by omega)
          rw [hput]
          exact ⟨_, rfl, _, Or.inr ⟨rfl, _, rfl⟩, .waiting rfl rfl hi⟩
      · rw [if_neg hl]
        refine ⟨_, rfl, a, Or.inl rfl, .filling p L (w ++ bs) hs rfl hb' ?_ hlen'⟩
        show x.rx.writer + min x.usbLen x.rx.bytesRemaining = _
        rw [hw, List.length_append, hlen, Nat.add_assoc]

/-- **One interrupt** fails only in `Packet_New`. -/
theorem Shape.receive (laws : BuildLaws S push Idle Building Drop) (hd : ∀ st p, Drop st a p)
    {st : σ} {rx : Rx} (h : Shape S Idle Building a st rx) (b : List UInt8) :
    ((rxHeader st rx b).rx.state = .needspace ∧
        S.new st (rxHeader st rx b).rx.bytesRemaining = none ∧ receive S st rx b = none) ∨
      (((rxHeader st rx b).rx.state = .needspace →
          S.new st (rxHeader st rx b).rx.bytesRemaining ≠ none) ∧
        ∃ y, receive S st rx b = some y ∧ Leaves S push Idle Building a y) := by
  obtain ⟨hshape, hfits⟩ := h.header b
  have hstore := rxHeader_store st rx b
  unfold Usb.receive
  revert hshape hfits hstore
  generalize rxHeader st rx b = x
  intro hshape hfits hstore
  dsimp only
  cases hshape with
  | waiting hs hp hi =>
      have hn : x.rx.state ≠ .needspace := by rw [hs]; decide
      have hn' : x.rx.state ≠ .reading := by rw [hs]; decide
      rw [if_neg hn, Option.bind_some, if_neg hn']
      exact Or.inr ⟨fun hc => absurd hc hn, x, rfl, a, Or.inl rfl,
        by rw [hstore]; exact .waiting hs hp hi⟩
  | ignoring hs hp hi hr =>
      have hn : x.rx.state ≠ .needspace := by rw [hs]; decide
      rw [if_neg hn, Option.bind_some, if_pos hs]
      exact Or.inr ⟨fun hc => absurd hc hn, Shape.reading laws hd
        (by rw [hstore]; exact .ignoring hs hp hi hr) hs (hfits (by rw [hs]; decide))⟩
  | filling p L w hs hp hb hw hr =>
      have hn : x.rx.state ≠ .needspace := by rw [hs]; decide
      rw [if_neg hn, Option.bind_some, if_pos hs]
      exact Or.inr ⟨fun hc => absurd hc hn, Shape.reading laws hd
        (by rw [hstore]; exact .filling p L w hs hp hb hw hr) hs (hfits (by rw [hs]; decide))⟩
  | needspace hs hp hi hmin hmax hbuf =>
      rw [if_pos hs]
      unfold rxNeedSpace
      rw [hstore]
      rcases hnew : S.new st x.rx.bytesRemaining with _ | ⟨_ | p, st'⟩
      · exact Or.inl ⟨hs, rfl, rfl⟩
      · -- no space
        refine Or.inr ⟨fun _ => by simp, ?_⟩
        dsimp only
        rw [Option.bind_some, if_neg (by rw [hs]; decide)]
        exact ⟨_, rfl, a, Or.inl rfl,
          .needspace hs rfl (laws.new_none hi hmin hmax hnew) hmin hmax hbuf⟩
      · refine Or.inr ⟨fun _ => by simp, ?_⟩
        dsimp only
        rw [Option.bind_some, if_pos rfl]
        have h24 : (x.rx.receiveBuffer.take 24).length = 24 := by
          rw [List.length_take]
          omega
        have hmin' : 24 ≤ x.rx.bytesRemaining := le_trans (by decide) hmin
        have hne : x.rx.receiveBuffer.take 24 ≠ [] := by
          intro hc
          rw [hc] at h24
          cases h24
        refine Shape.reading laws hd (.filling p x.rx.bytesRemaining (x.rx.receiveBuffer.take 24)
          rfl rfl (laws.write (laws.new_some hi hmin hmax hnew) ?_ hne) ?_ ?_) rfl ?_
        · rw [List.length_nil, h24]
          omega
        · rw [h24]
        · rw [h24]
          show 24 + (x.rx.bytesRemaining - 24) = _
          omega
        · cases hfits (by rw [hs]; decide) with
          | inl h0 => omega
          | inr hu => exact Or.inr hu

/-- Between two interrupts the variables are in shape. -/
theorem LinkInv.shape {h : Host} {st : σ} {rx : Rx} (hi : LinkInv S Idle Building a h st rx) :
    Shape S Idle Building a st rx := by
  have huse : ∀ {f c}, Using S Idle Building a f c st rx → Shape S Idle Building a st rx := by
    rintro f c ⟨hs, -, hig | ⟨p, hfill⟩⟩
    · exact .ignoring hs hig.packet hig.idle hig.remaining
    · refine .filling p _ _ hs hfill.packet hfill.building hfill.writer ?_
      rw [hfill.remaining, List.length_take]
      omega
  cases hi with
  | resting hs hp hidle _ _ => exact .waiting hs hp hidle
  | begun hs hp hidle _ _ => exact .waiting hs hp hidle
  | first _ hs hp hidle _ _ _ _ => exact .waiting hs hp hidle
  | stalled c rest hp _ _ _ hst =>
      obtain ⟨hmin, hmax⟩ := announcedLength_bounds hst.accepted.ne'
      rw [← hst.remaining] at hmin hmax
      refine .needspace hst.state hp hst.idle hmin hmax ?_
      have hlen := congrArg List.length hst.buffer
      rw [List.length_take, hst.length] at hlen
      omega
  | between _ _ _ _ _ hu => exact huse hu
  | next _ _ _ _ _ _ hu => exact huse hu

end shape

/-! ### The system -/

section sound

variable {g : Geometry} {m₀ : Mem} {x x' : Sys}

/-- The variables of receiver, transmitter and main loop fit the ring. -/
def Sound (g : Geometry) (m₀ : Mem) (x : Sys) : Prop :=
  ∃ a cur, Parts g a x.dev cur ∧ a.demands = (false, false) ∧
    Shape (ringInput g) (Idle g m₀) (Building g m₀) a x.dev.ring x.dev.rx

/-- The receiver asks for a packet that is larger than the whole ring, and the ring is empty. -/
def Overflows (g : Geometry) (x : Sys) : Prop :=
  ∃ len, wantsPacket x = some len ∧ x.dev.ring.nextWriter = x.dev.ring.outputReader ∧
    g.slots < packetUnits g len

/-- The receiver's variables depend on the ring through its account and its draft. -/
theorem Shape.draft {a : Account} {s : Ring} {rx : Rx}
    (h : Shape (ringInput g) (Idle g m₀) (Building g m₀) a s rx) :
    ∃ u, Holds g m₀ s a u ∧ ∀ {s' a'}, Holds g m₀ s' a' u →
      Shape (ringInput g) (Idle g m₀) (Building g m₀) a' s' rx := by
  cases h with
  | waiting hs hp hi => exact ⟨none, hi, fun hh => .waiting hs hp hh⟩
  | needspace hs hp hi hmin hmax hb =>
      exact ⟨none, hi, fun hh => .needspace hs hp hh hmin hmax hb⟩
  | ignoring hs hp hi hr => exact ⟨none, hi, fun hh => .ignoring hs hp hh hr⟩
  | filling p L w hs hp hb hw hr => exact ⟨_, hb, fun hh => .filling p L w hs hp hh hw hr⟩

theorem sound_init (g : Geometry) (m : Mem) : Sound g (Ring.init g m).mem (Sys.init g m) :=
  ⟨_, [], ⟨rfl, rfl, rfl⟩, rfl, (link_init g m false false).shape⟩

theorem Sound.txPart (h : Sound g m₀ x) (b : Bool) : ∃ x', txPart g b x = some x' ∧ Sound g m₀ x' := by
  obtain ⟨a, cur, hp, hst, hs⟩ := h
  obtain ⟨u, hh, hcarry⟩ := hs.draft
  obtain ⟨x', a', cur', hx, hh', hp', hst', -, hfr, -⟩ := txPart_parts hp hh b
  have hs' := hcarry hh'
  rw [← hfr.rx] at hs'
  exact ⟨x', hx, a', cur', hp', hst'.trans hst, hs'⟩

/-- The receiver's part fails only in the assertion of `allocateNew`. -/
theorem Sound.rxPart (h : Sound g m₀ x) :
    (Overflows g x ∧ rxPart g x = none) ∨
      (¬ Overflows g x ∧ ∃ x', rxPart g x = some x' ∧ Sound g m₀ x') := by
  have hquiet : wantsPacket x = none → Usb.rxPart g x = some x →
      (Overflows g x ∧ Usb.rxPart g x = none) ∨
        (¬ Overflows g x ∧ ∃ x', Usb.rxPart g x = some x' ∧ Sound g m₀ x') := by
    intro hw hr
    refine Or.inr ⟨?_, x, hr, h⟩
    rintro ⟨len, hlen, -⟩
    cases hw.symm.trans hlen
  cases hen : x.dev.enableRX with
  | false => exact hquiet (by unfold wantsPacket; rw [hen]) (by unfold Usb.rxPart; rw [hen])
  | true =>
      cases hout : x.host.out with
      | none =>
          exact hquiet (by unfold wantsPacket; rw [hen, hout])
            (by unfold Usb.rxPart; rw [hen, hout])
      | some b =>
          have hw : wantsPacket x = if (rxHeader x.dev.ring x.dev.rx b).rx.state = .needspace then
              some (rxHeader x.dev.ring x.dev.rx b).rx.bytesRemaining else none := by
            unfold wantsPacket
            rw [hen, hout]
          have hr : Usb.rxPart g x = (receive (ringInput g) x.dev.ring x.dev.rx b).map fun y =>
              { x with
                dev := { x.dev with
                  ring := y.store
                  rx := y.rx
                  enableRX := y.enableRX
                  sleepEnabled := x.dev.sleepEnabled && !y.wake }
                host := x.host.taken y.out } := by
            unfold Usb.rxPart
            rw [hen, hout]
          obtain ⟨a, cur, hp, hst, hs⟩ := h
          rw [hr]
          rcases hs.receive (ring_laws g m₀) (a.drop_of_lax hst) b with ⟨hneed, hnew, hnone⟩ |
            ⟨hnew, y, hy, a', ha', hs'⟩
          · left
            rw [hnone]
            obtain ⟨hmeet, hlong⟩ := packetNew_eq_none.mp hnew
            exact ⟨⟨_, by rw [hw, if_pos hneed], hmeet, hlong⟩, rfl⟩
          · right
            constructor
            · rintro ⟨len, hlen, hmeet, hlong⟩
              rw [hw] at hlen
              split_ifs at hlen with hneed
              obtain rfl := Option.some.inj hlen
              exact hnew hneed (packetNew_eq_none.mpr ⟨hmeet, hlong⟩)
            · rw [hy]
              refine ⟨_, rfl, a', cur, ?_, ?_, hs'⟩
              · rcases ha' with rfl | ⟨-, w, rfl⟩
                · exact ⟨hp.tx, hp.held, hp.progress⟩
                · exact hp.pushAll [w] rfl rfl
              · rcases ha' with rfl | ⟨-, w, rfl⟩ <;> exact hst

theorem Sound.main (h : Sound g m₀ x) :
    ∃ d, mainStep g x.dev = some d ∧ Sound g m₀ { x with dev := d } := by
  obtain ⟨a, cur, hp, hst, hs⟩ := h
  obtain ⟨u, hh, hcarry⟩ := hs.draft
  obtain ⟨d, a', hd, hh', hp', hst', -, hrx, -, -⟩ := mainStep_parts hp hh
  have hs' := hcarry hh'
  rw [← hrx] at hs'
  exact ⟨d, hd, a', cur, hp', hst'.trans hst, hs'⟩

theorem Sound.step {e : Event} (h : Sound g m₀ x) (hs : SysStep g x e x') : Sound g m₀ x' := by
  unfold SysStep sysStep at hs
  cases e with
  | frame f =>
      obtain ⟨h', -, rfl⟩ := Option.map_eq_some_iff.mp hs
      exact h
  | chunk =>
      obtain ⟨h', -, rfl⟩ := Option.map_eq_some_iff.mp hs
      exact h
  | interrupt b =>
      obtain ⟨y, hy, hs⟩ := Option.bind_eq_some_iff.mp hs
      obtain ⟨y', hy', hsound⟩ := h.txPart b
      obtain rfl := Option.some.inj (hy.symm.trans hy')
      rcases hsound.rxPart with ⟨-, hnone⟩ | ⟨-, z, hz, hsound'⟩
      · cases hnone.symm.trans hs
      · obtain rfl := Option.some.inj (hz.symm.trans hs)
        exact hsound'
  | main =>
      obtain ⟨d, hd, rfl⟩ := Option.map_eq_some_iff.mp hs
      obtain ⟨d', hd', hsound⟩ := h.main
      obtain rfl := Option.some.inj (hd.symm.trans hd')
      exact hsound
  | configure =>
      obtain rfl := Option.some.inj hs
      obtain ⟨a, cur, hp, hst, hs⟩ := h
      exact ⟨a, cur, ⟨hp.tx, hp.held, hp.progress⟩, hst, hs⟩

end sound

/-- **Storage.**  On the AVR, in every run, also with reconfigurations: an interrupt fails exactly
when it allocates a packet of more than 588 bytes and the ring is empty; the main loop never fails;
and nothing behind `RingBuffer.End[0]` is written. -/
theorem frames_are_stored (m : Mem) {es : List Event} {x : Sys}
    (h : Run (SysStep avr) (Sys.init avr m) es x) :
    (∀ b, sysStep avr x (.interrupt b) = none ↔ ∃ y ∈ txPart avr b x, ∃ len,
      wantsPacket y = some len ∧ y.dev.ring.nextWriter = y.dev.ring.outputReader ∧ 588 < len) ∧
    sysStep avr x .main ≠ none ∧
    ∀ addr, stateAddr avr (avr.slots + 1) ≤ addr → x.dev.ring.mem addr = m addr := by
  have hsound : Sound avr (Ring.init avr m).mem x :=
    h.invariant (fun _ _ _ hy he => hy.step he) (sound_init avr m)
  refine ⟨fun b => ?_, ?_, fun addr haddr => ?_⟩
  · have hunits : ∀ len, avr.slots < packetUnits avr len ↔ 588 < len := by
      intro len
      show (295 : ℕ) < (len + 2 + 2 - 1) / 2 ↔ 588 < len
      omega
    obtain ⟨y, hy, hsy⟩ := hsound.txPart b
    have hstep : sysStep avr x (.interrupt b) = rxPart avr y := by
      show (txPart avr b x).bind (rxPart avr) = _
      rw [hy, Option.bind_some]
    rw [hstep]
    rcases hsy.rxPart with ⟨⟨len, hw, hmeet, hlong⟩, hnone⟩ | ⟨hno, z, hz, -⟩
    · exact ⟨fun _ => ⟨y, hy, len, hw, hmeet, (hunits len).mp hlong⟩, fun _ => hnone⟩
    · rw [hz]
      refine ⟨fun hc => (by cases hc), ?_⟩
      rintro ⟨y', hy', len, hw, hmeet, hlong⟩
      obtain rfl := Option.some.inj (hy.symm.trans hy')
      exact absurd ⟨len, hw, hmeet, (hunits len).mpr hlong⟩ hno
  · obtain ⟨d, hd, -⟩ := hsound.main
    show (mainStep avr x.dev).map _ ≠ none
    rw [hd]
    simp
  · obtain ⟨a, cur, -, -, hs⟩ := hsound
    obtain ⟨u, ⟨pre, post, hinv⟩, -⟩ := hs.draft
    refine (hinv.frame addr haddr).trans (Mem.setWord_apply_outside (Or.inr ?_))
    exact le_trans (by decide) haddr

/-- A UDP packet of the maximal length. -/
def largestFrame : List UInt8 :=
  [2, 0, 0, 0, 0, 0x40, 2, 0, 0, 0, 0, 1, 8, 0, 0x45, 0, 2, 64, 0, 0, 0, 0, 64, 17] ++
    List.replicate 566 7

theorem frames_are_stored_first : ∃ x,
    Run (SysStep avr) (Sys.init avr (fun _ => 0)) [.frame arpFrame, .chunk, .interrupt false] x ∧
      sysStep avr x .main ≠ none ∧ x.dev.ring.mem (stateAddr avr 296) = 0 := by
  have h : (Run.exec (sysStep avr) (Sys.init avr (fun _ => 0))
      [.frame arpFrame, .chunk, .interrupt false]).isSome = true := by
    decide +kernel
  obtain ⟨x, hx⟩ := Option.isSome_iff_exists.mp h
  have hrun : Run (SysStep avr) (Sys.init avr (fun _ => 0)) _ x := Run.of_exec (fun _ _ _ hs => hs) hx
  obtain ⟨-, hmain, hmem⟩ := frames_are_stored (fun _ => 0) hrun
  exact ⟨x, hrun, hmain, hmem _ (by decide)⟩

/-- The first packet of the maximal length fails. -/
theorem largest_not_stored : ∃ x,
    Run (SysStep avr) (Sys.init avr (fun _ => 0)) [.frame largestFrame, .chunk] x ∧
      sysStep avr x (.interrupt false) = none := by
  have h : (Run.exec (sysStep avr) (Sys.init avr (fun _ => 0)) [.frame largestFrame, .chunk]).any
      (fun x => (sysStep avr x (.interrupt false)).isNone) = true := by
    decide +kernel
  obtain ⟨x, hx, hc⟩ := Run.of_exec_any (fun _ _ _ hs => hs) h
  exact ⟨x, hx, Option.isNone_iff_eq_none.mp hc⟩

end TimeSwitch.Usb
