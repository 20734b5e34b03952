import TimeSwitch.UsbRing

/-! # What the parts of the device do to each other

The transmitter's part of the interrupt and the main loop work on the same ring as the receiver.
`Parts` connects their variables with the account of the ring.  A step of one part is described by
the account it leaves and by what it does not touch, so that the receiver's invariant, whichever it
is, carries over: it depends on the ring only through its account and its draft. -/

namespace TimeSwitch.Usb

open Framing PacketBuffer ByteMemory

/-- The transmitter has handed over the bytes `cur` of the first packet of the queue. -/
def Progress (g : Geometry) (tx : Tx) (q : List (Status × List UInt8)) (cur : List UInt8) : Prop :=
  match tx.packet with
  | none => cur = []
  | some p => ∃ more rest, q = (.output, cur ++ more) :: rest ∧
      tx.reader = dataAddr g p + cur.length ∧ tx.bytesRemaining = more.length

/-- Transmitter and main loop hold what the account says. -/
structure Parts (g : Geometry) (a : Account) (d : Device) (cur : List UInt8) : Prop where
  tx : a.tx = d.tx.packet
  held : a.held = d.pc.packet
  progress : Progress g d.tx a.queue cur

section steps

variable {g : Geometry} {m₀ : Mem} {a a' : Account} {u : Draft} {d d' : Device}
  {cur : List UInt8} {x x' : Sys}

/-- The queue behind the transmitter's packet may change. -/
theorem Progress.congr {tx : Tx} {q q' : List (Status × List UInt8)} (h : Progress g tx q cur)
    (hq : ∀ e rest, q = (.output, e) :: rest → ∃ rest', q' = (.output, e) :: rest') :
    Progress g tx q' cur := by
  unfold Progress at h ⊢
  split at h
  · exact h
  · obtain ⟨more, rest, hq', hr, hb⟩ := h
    obtain ⟨rest', hrest⟩ := hq _ _ hq'
    exact ⟨more, rest', hrest, hr, hb⟩

/-- The account after the packets `ws` were put into the input chain. -/
def Account.pushAll (a : Account) (ws : List (List UInt8)) : Account :=
  { a with queue := a.queue ++ ws.map (fun w => (.input, w)) }

theorem Account.pushAll_nil (a : Account) : a.pushAll [] = a := by simp [pushAll]

theorem Account.pushAll_data (a : Account) (ws : List (List UInt8)) :
    (a.pushAll ws).queue.map Prod.snd = a.queue.map Prod.snd ++ ws := by
  simp [pushAll, Function.comp_def]

theorem Parts.pushAll {d' : Device} (h : Parts g a d cur) (ws : List (List UInt8))
    (htx : d'.tx = d.tx) (hpc : d'.pc = d.pc) : Parts g (a.pushAll ws) d' cur := by
  refine ⟨h.tx.trans (by rw [htx]), h.held.trans (by rw [hpc]), ?_⟩
  rw [htx]
  exact h.progress.congr (fun e rest hq => ⟨rest ++ ws.map _, by rw [Account.pushAll, hq]; rfl⟩)

theorem Reattached.data {q q' : List (Status × List UInt8)} (h : Reattached q q') :
    q'.map Prod.snd = q.map Prod.snd := by
  obtain ⟨q₁, e, q₂, rfl, rfl⟩ := h
  simp

theorem Reattached.head {q q' : List (Status × List UInt8)} (h : Reattached q q')
    (e : List UInt8) (rest : List (Status × List UInt8)) (hq : q = (.output, e) :: rest) :
    ∃ rest', q' = (.output, e) :: rest' := by
  obtain ⟨q₁, b, q₂, rfl, rfl⟩ := h
  cases q₁ with
  | nil => cases hq
  | cons y q₁ =>
      obtain ⟨rfl, -⟩ := List.cons.inj hq
      exact ⟨_, rfl⟩

/-! ### The main loop -/

/-- A step of the main loop never fails.  It leaves the receiver, the transmitter and the order of
the data alone. -/
theorem mainStep_parts (hp : Parts g a d cur) (hh : Holds g m₀ d.ring a u) :
    ∃ d' a', mainStep g d = some d' ∧ Holds g m₀ d'.ring a' u ∧ Parts g a' d' cur ∧
      a'.demands = a.demands ∧ a'.queue.map Prod.snd = a.queue.map Prod.snd ∧ d'.rx = d.rx ∧
      d'.tx = d.tx ∧ d'.enableRX = d.enableRX := by
  obtain ⟨htx, hheld, hprog⟩ := hp
  cases hpc : d.pc with
  | sleepEnable =>
      rw [hpc] at hheld
      exact ⟨{ d with sleepEnabled := true, pc := .getInput }, a, by rw [mainStep, hpc], hh,
        ⟨htx, hheld, hprog⟩, rfl, rfl, rfl, rfl, rfl⟩
  | sleepCpu =>
      rw [hpc] at hheld
      exact ⟨{ d with pc := .sleepEnable }, a, by rw [mainStep, hpc], hh, ⟨htx, hheld, hprog⟩, rfl,
        rfl, rfl, rfl, rfl⟩
  | sleepDisable p =>
      rw [hpc] at hheld
      exact ⟨{ d with sleepEnabled := false, pc := .reattach p }, a, by rw [mainStep, hpc], hh,
        ⟨htx, hheld, hprog⟩, rfl, rfl, rfl, rfl, rfl⟩
  | getInput =>
      obtain ⟨pre, post, hinv⟩ := hh
      obtain ⟨s', -, post', hr, -⟩ := packetGetInput_spec hinv.rep
      simp only [mainStep, hpc, hr, Option.map_some]
      obtain ⟨pre₁, post₁, hinv', -⟩ := hinv.getInput hr
      refine ⟨_, { a with held := firstWith .input post' }, rfl, ⟨pre₁, post₁, hinv'⟩,
        ⟨htx, ?_, hprog⟩, rfl, rfl, rfl, rfl, rfl⟩
      cases firstWith Status.input post' <;> rfl
  | reattach p =>
      rw [hpc] at hheld
      obtain ⟨pre, post, hinv⟩ := hh
      obtain ⟨s', hr, q, hq, hinv'⟩ := hinv.reattach hheld
      simp only [mainStep, hpc, hr, Option.map_some]
      exact ⟨_, { a with queue := q, held := none }, rfl, hinv', ⟨htx, rfl, hprog.congr hq.head⟩,
        rfl, hq.data, rfl, rfl, rfl⟩

/-! ### The transmitter -/

/-- What the transmitter's part does: nothing, a chunk inside a packet, or the last chunk of a
packet, which releases it. -/
inductive TxOutcome (x x' : Sys) (q q' : List (Status × List UInt8)) (cur cur' : List UInt8) : Prop
  | quiet : x'.sent = x.sent → x'.fresh = x.fresh → x'.dev.tx.packet = x.dev.tx.packet →
      x'.dev.enableRX = x.dev.enableRX → q' = q → cur' = cur → TxOutcome x x' q q' cur cur'
  | part (c : List UInt8) : c.length = epSize →
      x'.sent = x.sent ++ [⟨x.fresh, cur.length, c⟩] → x'.fresh = false →
      x'.dev.tx.packet ≠ none → x'.dev.enableRX = x.dev.enableRX → q' = q → cur' = cur ++ c →
      TxOutcome x x' q q' cur cur'
  | last (c : List UInt8) : c.length < epSize →
      x'.sent = x.sent ++ [⟨x.fresh, cur.length, c⟩] → x'.fresh = true →
      x'.dev.tx.packet = none → x'.dev.enableRX = true → q = (.output, cur ++ c) :: q' →
      cur' = [] → TxOutcome x x' q q' cur cur'

/-- The transmitter's part leaves host, receiver and main loop alone. -/
structure TxFrame (x x' : Sys) : Prop where
  host : x'.host = x.host
  begun : x'.begun = x.begun
  rx : x'.dev.rx = x.dev.rx
  pc : x'.dev.pc = x.dev.pc

/-- The transmitter after `if(!packet)`. -/
theorem txFetch_parts (hp : Parts g a d cur) (hh : Holds g m₀ d.ring a u) :
    ∃ s tx a', txFetch (ringOutput g) d.ring d.tx = some (s, tx) ∧ Holds g m₀ s a' u ∧
      a'.tx = tx.packet ∧ a'.held = a.held ∧ a'.demands = a.demands ∧ a'.queue = a.queue ∧
      Progress g tx a'.queue cur ∧ (tx.packet = none → d.tx.packet = none) ∧
      (NoInput g d.ring → NoInput g s) := by
  obtain ⟨htx, hheld, hprog⟩ := hp
  obtain ⟨pre, post, hinv⟩ := hh
  cases hpk : d.tx.packet with
  | some p =>
      refine ⟨d.ring, d.tx, a, by rw [txFetch, hpk], ⟨pre, post, hinv⟩, htx, rfl, rfl, rfl, hprog,
        fun hn => ?_, id⟩
      rw [← hn, hpk]
  | none =>
      obtain ⟨s', pre', post', hr, -⟩ := packetGetOutput_spec hinv.rep
      have hcur : cur = [] := by
        unfold Progress at hprog
        rw [hpk] at hprog
        exact hprog
      obtain ⟨r, hget⟩ : ∃ r, packetGetOutput g d.ring = some (r, s') := ⟨_, hr⟩
      obtain ⟨pre', post', hinv', hcalm⟩ := hinv.getOutput (htx.trans hpk) hget
      have hno : NoInput g d.ring → NoInput g s' := fun hn =>
        hinv'.noInput_iff.mpr (hcalm (hinv.noInput_iff.mp hn))
      have hget' : (ringOutput g).getOutput d.ring = some (r, s') := hget
      simp only [txFetch, hpk, hget', Option.map_some]
      cases r with
      | none =>
          exact ⟨s', d.tx, { a with tx := none }, rfl, ⟨pre', post', hinv'⟩, hpk.symm, rfl, rfl,
            rfl, hprog, fun _ => trivial, hno⟩
      | some p =>
          obtain ⟨e, q, hq, hlen, -⟩ := hinv'.tx_head rfl
          refine ⟨s', _, { a with tx := some p }, rfl, ⟨pre', post', hinv'⟩, rfl, rfl, rfl, rfl,
            ⟨e, q, ?_, ?_, hlen⟩, fun _ => trivial, hno⟩
          · rw [hcur]
            exact hq
          · rw [hcur]
            rfl

/-- The transmitter's part never fails. -/
theorem txPart_parts (hp : Parts g a x.dev cur) (hh : Holds g m₀ x.dev.ring a u) (b : Bool) :
    ∃ x' a' cur', txPart g b x = some x' ∧ Holds g m₀ x'.dev.ring a' u ∧ Parts g a' x'.dev cur' ∧
      a'.demands = a.demands ∧ TxOutcome x x' a.queue a'.queue cur cur' ∧ TxFrame x x' ∧
      (NoInput g x.dev.ring → NoInput g x'.dev.ring) := by
  by_cases hen : x.dev.enableTX = true ∧ b = true
  · obtain ⟨s, tx, a₁, hf, ⟨pre, post, hinv⟩, htx, hheld, hst, hqueue, hprog, hnone, hno⟩ :=
      txFetch_parts hp hh
    simp only [txPart, if_pos hen, hf, Option.map_some]
    cases hpk : tx.packet with
    | none =>
        simp only [txSend, hpk]
        refine ⟨_, a₁, cur, rfl, ⟨pre, post, hinv⟩, ⟨htx, hheld.trans hp.held, hprog⟩, hst,
          .quiet rfl rfl ?_ (Bool.or_false _) hqueue rfl, ⟨rfl, rfl, rfl, rfl⟩, hno⟩
        rw [hnone hpk]
        exact hpk
    | some p =>
        obtain ⟨e, q, hq, -, hread⟩ := hinv.tx_head (htx.trans hpk)
        unfold Progress at hprog
        rw [hpk] at hprog
        obtain ⟨more, rest, hq', hreader, hrem⟩ := hprog
        obtain ⟨hd, rfl⟩ := List.cons.inj (hq.symm.trans hq')
        obtain rfl := (Prod.mk.inj hd).2
        have hoff : tx.reader - dataAddr g p = cur.length := by omega
        have hsent : ∀ c, x.sent ++ [(⟨x.fresh, tx.reader - dataAddr g p, c⟩ : Sent)] =
            x.sent ++ [⟨x.fresh, cur.length, c⟩] := fun c => by rw [hoff]
        have hchunk : ∀ n, n ≤ more.length → s.mem.read tx.reader n = more.take n := by
          intro n hn
          rw [hreader, hread cur.length n (by rw [List.length_append]; omega), List.drop_left]
        simp only [txSend, hpk]
        by_cases hlast : tx.bytesRemaining < epSize
        · -- the rest of the packet fits into the chunk
          have hc : (ringOutput g).read s tx.reader tx.bytesRemaining = more := by
            refine (hchunk _ hrem.le).trans ?_
            rw [hrem, List.take_length]
          simp only [decide_eq_true hlast, if_true, hc]
          have hml : more.length < epSize := by omega
          obtain ⟨pre', post', hinv', hcalm⟩ := hinv.releaseOutput (htx.trans hpk)
          refine ⟨_, _, [], rfl, ⟨pre', post', hinv'⟩, ⟨rfl, hheld.trans hp.held, rfl⟩, hst,
            .last more hml (hsent _) (decide_eq_true hml) rfl (Bool.or_true _) ?_ rfl,
            ⟨rfl, rfl, rfl, rfl⟩,
            fun hn => hinv'.noInput_iff.mpr (hcalm (hinv.noInput_iff.mp (hno hn)))⟩
          rw [← hqueue, hq]
          rfl
        · have hml : epSize ≤ more.length := by omega
          have hc : (ringOutput g).read s tx.reader epSize = more.take epSize := hchunk _ hml
          have hcl : (more.take epSize).length = epSize := by
            rw [List.length_take]
            omega
          simp only [decide_eq_false hlast, Bool.false_eq_true, if_false, hc]
          refine ⟨_, a₁, cur ++ more.take epSize, rfl, ⟨pre, post, hinv⟩,
            ⟨htx.trans hpk, hheld.trans hp.held, ?_⟩, hst,
            .part (more.take epSize) hcl (hsent _) (decide_eq_false (by omega)) (by simp)
              (Bool.or_false _) hqueue rfl, ⟨rfl, rfl, rfl, rfl⟩, hno⟩
          refine ⟨more.drop epSize, q, ?_, ?_, ?_⟩
          · rw [hq, List.append_assoc, List.take_append_drop]
          · show tx.reader + epSize = _
            rw [hreader, List.length_append, hcl, Nat.add_assoc]
          · show tx.bytesRemaining - epSize = _
            rw [hrem, List.length_drop]
  · exact ⟨x, a, cur, by rw [txPart, if_neg hen], hh, hp, rfl, .quiet rfl rfl rfl rfl rfl rfl,
      ⟨rfl, rfl, rfl, rfl⟩, id⟩

/-! ### The receiver -/

/-- Host, receiver and ring. -/
abbrev RingLink (g : Geometry) (m₀ : Mem) (a : Account) (h : Host) (s : Ring) (rx : Rx) : Prop :=
  LinkInv (ringInput g) (Idle g m₀) (Building g m₀) a h s rx

/-- The link depends on the ring through its account and its draft. -/
theorem LinkInv.draft {h : Host} {s : Ring} {rx : Rx} (hi : RingLink g m₀ a h s rx) :
    ∃ u, Holds g m₀ s a u ∧ ∀ {s' a'}, Holds g m₀ s' a' u → RingLink g m₀ a' h s' rx := by
  have huse : ∀ {f c}, Using (ringInput g) (Idle g m₀) (Building g m₀) a f c s rx →
      ∃ u, Holds g m₀ s a u ∧ ∀ {s' a'}, Holds g m₀ s' a' u →
        Using (ringInput g) (Idle g m₀) (Building g m₀) a' f c s' rx := by
    rintro f c ⟨hs, hl, hig | ⟨p, hfill⟩⟩
    · exact ⟨none, hig.idle, fun hh =>
        ⟨hs, hl, Or.inl ⟨hig.packet, hh, hig.remaining, hig.rejected⟩⟩⟩
    · exact ⟨_, hfill.building, fun hh => ⟨hs, hl, Or.inr ⟨p, hfill.packet, hfill.accepted, hh,
        hfill.writer, hfill.remaining⟩⟩⟩
  cases hi with
  | resting hs hp hidle ho hpe => exact ⟨none, hidle, fun hh => .resting hs hp hh ho hpe⟩
  | begun hs hp hidle ho hpe => exact ⟨none, hidle, fun hh => .begun hs hp hh ho hpe⟩
  | first b hs hp hidle ho hb hrest hf =>
      exact ⟨none, hidle, fun hh => .first b hs hp hh ho hb hrest hf⟩
  | stalled c rest hp ho hrest hf hst =>
      exact ⟨none, hst.idle, fun hh => .stalled c rest hp ho hrest hf ⟨hst.state, hh, hst.accepted,
        hst.long, hst.length, hst.buffer, hst.remaining, hst.last, hst.complete⟩⟩
  | between c ho hne hrest hf hu =>
      obtain ⟨u, hh, hcarry⟩ := huse hu
      exact ⟨u, hh, fun hh' => .between c ho hne hrest hf (hcarry hh')⟩
  | next c b ho hb hrest hf hu =>
      obtain ⟨u, hh, hcarry⟩ := huse hu
      exact ⟨u, hh, fun hh' => .next c b ho hb hrest hf (hcarry hh')⟩

/-- The receiver's part runs on a received chunk, or does nothing. -/
theorem rxPart_cases (hr : rxPart g x = some x') : x' = x ∨
    ∃ b y, x.dev.enableRX = true ∧ x.host.out = some b ∧
      receive (ringInput g) x.dev.ring x.dev.rx b = some y ∧
      x' = { x with
        dev := { x.dev with
          ring := y.store
          rx := y.rx
          enableRX := y.enableRX
          sleepEnabled := x.dev.sleepEnabled && !y.wake }
        host := x.host.taken y.out } := by
  unfold rxPart at hr
  split at hr
  · rename_i b hen hout
    obtain ⟨y, hy, rfl⟩ := Option.map_eq_some_iff.mp hr
    exact Or.inr ⟨b, y, hen, hout, hy, rfl⟩
  · exact Or.inl (Option.some.inj hr).symm

/-- The packets of the frames that end when the receiver leaves `out`. -/
def newPackets (h : Host) (out : Option (List UInt8)) : List (List UInt8) :=
  if out = none ∧ h.pending = [] then (deliver h.frame).toList else []

theorem taken_delivered (h : Host) (out : Option (List UInt8)) :
    (h.taken out).frames.filterMap deliver =
      h.frames.filterMap deliver ++ newPackets h out := by
  unfold Host.taken newPackets
  dsimp only
  split_ifs
  · rw [List.filterMap_append, List.filterMap_cons]
    cases deliver h.frame <;> rfl
  · rw [List.append_nil]

theorem accountAfter_push (a : Account) (h : Host) (out : Option (List UInt8)) :
    LinkInv.accountAfter Account.push a h out = a.pushAll (newPackets h out) := by
  unfold LinkInv.accountAfter account newPackets Account.pushAll
  split_ifs
  · cases deliver h.frame with
    | none => simp
    | some w => rfl
  · simp

/-- The receiver's part: finished frames are put into the queue. -/
theorem rxPart_link (hp : Parts g a x.dev cur) (hl : RingLink g m₀ a x.host x.dev.ring x.dev.rx)
    (hdrop : ∀ b p, x.dev.enableRX = true → x.host.out = some b → x.dev.rx.packet = some p →
      DropsShort x.dev.rx b → a.Drop x.dev.ring p)
    (hr : rxPart g x = some x') :
    ∃ new, Parts g (a.pushAll new) x'.dev cur ∧
      RingLink g m₀ (a.pushAll new) x'.host x'.dev.ring x'.dev.rx ∧
      x'.host.frames.filterMap deliver = x.host.frames.filterMap deliver ++ new ∧
      x'.sent = x.sent := by
  rcases rxPart_cases hr with rfl | ⟨b, y, hen, hout, hy, rfl⟩
  · refine ⟨[], ?_, ?_, (List.append_nil _).symm, rfl⟩
    · rw [Account.pushAll_nil]
      exact hp
    · rw [Account.pushAll_nil]
      exact hl
  · have hinv := hl.receive (ring_laws g m₀) hout (fun p => hdrop b p hen hout) hy
    rw [accountAfter_push] at hinv
    exact ⟨newPackets x.host y.out, hp.pushAll _ rfl rfl, hinv, taken_delivered _ _, rfl⟩

end steps

end TimeSwitch.Usb
