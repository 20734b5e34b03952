import TimeSwitch.Library.Runs
import TimeSwitch.UsbReceive

/-! # Framing over USB

Round trip of the framing: the receiver puts exactly the packets of the acceptable frames into the
input chain, and the transmitter sends every packet as the chunks of a frame.

The receiver is run on a store that only writes down its calls (`logStore`), and `Packet_New`
answers as it likes: an answer may depend on everything that was called before, so every pattern
of failures and retries occurs.  `Log` says what a list of calls has to look like. -/

namespace TimeSwitch.Usb

open Framing PacketBuffer ByteMemory

/-! ### A store that writes down the calls -/

/-- A call of the receiver; `new` with its answer, `write` with the address. -/
inductive RxCall where
  | new (len : ℕ) (packet : Option ℕ)
  | write (addr : ℕ) (bytes : List UInt8)
  | putInput (packet : ℕ)
  | releaseInput (packet : ℕ)
deriving DecidableEq

/-- `Packet_New` answers according to the calls so far. -/
def logStore (answer : List RxCall → Option ℕ) (addr : ℕ → ℕ) : InputStore (List RxCall) where
  new calls len := some (answer calls, calls ++ [.new len (answer calls)])
  dataAddr := addr
  write calls a bytes := calls ++ [.write a bytes]
  putInput calls p := some (calls ++ [.putInput p])
  releaseInput calls p := calls ++ [.releaseInput p]

/-- Writes one behind the other, from address `a` on. -/
def writesFrom (a : ℕ) : List (List UInt8) → List RxCall
  | [] => []
  | bs :: bss => .write a bs :: writesFrom (a + bs.length) bss

theorem writesFrom_snoc (a : ℕ) (bss : List (List UInt8)) (bs : List UInt8) :
    writesFrom a (bss ++ [bs]) = writesFrom a bss ++ [.write (a + bss.flatten.length) bs] := by
  induction bss generalizing a with
  | nil => rfl
  | cons cs bss ih =>
      simp only [List.cons_append, writesFrom, ih, List.flatten_cons, List.length_append,
        Nat.add_assoc]

/-- The calls for complete packets, and the packets that were delivered: a packet gets exactly as
many bytes as it was allocated with before it is put into the input chain, and fewer if it is
released. -/
inductive Log (addr : ℕ → ℕ) : List RxCall → List (List UInt8) → Prop
  | nil : Log addr [] []
  | fail {calls : List RxCall} {ps : List (List UInt8)} (len : ℕ) : Log addr calls ps →
      Log addr (calls ++ [.new len none]) ps
  | put {calls : List RxCall} {ps bss : List (List UInt8)} (p : ℕ) : Log addr calls ps →
      Log addr (calls ++ .new bss.flatten.length (some p) ::
        (writesFrom (addr p) bss ++ [.putInput p])) (ps ++ [bss.flatten])
  | drop {calls : List RxCall} {ps bss : List (List UInt8)} (p len : ℕ) : Log addr calls ps →
      bss.flatten.length < len →
      Log addr (calls ++ .new len (some p) :: (writesFrom (addr p) bss ++ [.releaseInput p])) ps

/-- The calls while packet `p` of `len` bytes is under construction and has the bytes `w`. -/
def Open (addr : ℕ → ℕ) (calls : List RxCall) (ps : List (List UInt8)) (p len : ℕ)
    (w : List UInt8) : Prop :=
  ∃ before bss, Log addr before ps ∧ bss.flatten = w ∧ w.length ≤ len ∧
    calls = before ++ .new len (some p) :: writesFrom (addr p) bss

theorem log_laws (answer : List RxCall → Option ℕ) (addr : ℕ → ℕ) :
    BuildLaws (logStore answer addr) (fun ps w => ps ++ [w]) (Log addr) (Open addr)
      (fun _ _ _ => True) where
  new_none := by
    intro st st' ps len hlog _ _ hnew
    obtain ⟨ha, rfl⟩ := Prod.mk.inj (Option.some.inj hnew)
    rw [ha]
    exact .fail len hlog
  new_some := by
    intro st st' ps len p hlog _ _ hnew
    obtain ⟨ha, rfl⟩ := Prod.mk.inj (Option.some.inj hnew)
    rw [ha]
    exact ⟨st, [], hlog, rfl, Nat.zero_le _, rfl⟩
  write := by
    rintro st ps p len w bs ⟨before, bss, hlog, rfl, -, rfl⟩ hfit -
    refine ⟨before, bss ++ [bs], hlog, by simp, by rwa [List.length_append], ?_⟩
    rw [writesFrom_snoc]
    exact List.append_assoc _ _ _
  put := by
    rintro st ps p len w ⟨before, bss, hlog, rfl, -, rfl⟩ rfl
    exact ⟨_, rfl, by simpa [List.append_assoc] using Log.put p hlog⟩
  drop := id
  release := by
    rintro st ps p len w ⟨before, bss, hlog, rfl, -, rfl⟩ hlt -
    show Log addr ((before ++ .new len (some p) :: writesFrom (addr p) bss) ++ [.releaseInput p]) ps
    simpa [List.append_assoc] using Log.drop p len hlog hlt

/-! ### Runs of the link -/

/-- Host and receiver. -/
structure Link where
  host : Host
  calls : List RxCall
  rx : Rx

/-- The host begins a frame or sends a chunk, or the interrupt takes a chunk. -/
inductive LinkEvent where
  | frame (f : List UInt8)
  | chunk
  | interrupt

/-- One step of the link, with the answers of `Packet_New`. -/
def linkStep (answer : List RxCall → Option ℕ) (addr : ℕ → ℕ) (x : Link) :
    LinkEvent → Option Link
  | .frame f => (x.host.send f).map (fun h => { x with host := h })
  | .chunk => x.host.deliverChunk.map (fun h => { x with host := h })
  | .interrupt => x.host.out.bind fun b =>
      (receive (logStore answer addr) x.calls x.rx b).map fun y =>
        ⟨x.host.taken y.out, y.store, y.rx⟩

/-- The invariant of the link: the packets of the complete frames are delivered. -/
def LinkOk (answer : List RxCall → Option ℕ) (addr : ℕ → ℕ) (x : Link) : Prop :=
  LinkInv (logStore answer addr) (Log addr) (Open addr) (x.host.frames.filterMap deliver) x.host
    x.calls x.rx

theorem filterMap_singleton (f : List UInt8) : [f].filterMap deliver = (deliver f).toList := by
  rw [List.filterMap_cons, List.filterMap_nil]
  cases deliver f <;> rfl

theorem accountAfter_frames (h : Host) (out : Option (List UInt8)) :
    LinkInv.accountAfter (fun ps w => ps ++ [w]) (h.frames.filterMap deliver) h out =
      (h.taken out).frames.filterMap deliver := by
  unfold LinkInv.accountAfter Host.taken
  split_ifs with hc
  · unfold account
    rw [List.filterMap_append, List.filterMap_cons, List.filterMap_nil]
    cases deliver h.frame with
    | none => simp
    | some w => rfl
  · rfl

theorem LinkOk.step {answer : List RxCall → Option ℕ} {addr : ℕ → ℕ} {x x' : Link}
    {e : LinkEvent} (h : LinkOk answer addr x) (hs : linkStep answer addr x e = some x') :
    LinkOk answer addr x' := by
  cases e with
  | frame f =>
      obtain ⟨h', hh, rfl⟩ := Option.map_eq_some_iff.mp hs
      unfold LinkOk
      dsimp only
      rw [Host.send_frames hh]
      exact h.send hh
  | chunk =>
      obtain ⟨h', hh, rfl⟩ := Option.map_eq_some_iff.mp hs
      unfold LinkOk
      dsimp only
      rw [Host.deliverChunk_frames hh]
      exact h.deliverChunk hh
  | interrupt =>
      obtain ⟨b, hb, hs⟩ := Option.bind_eq_some_iff.mp hs
      obtain ⟨y, hy, rfl⟩ := Option.map_eq_some_iff.mp hs
      have hinv := LinkInv.receive (log_laws answer addr) h hb (fun _ _ _ => trivial) hy
      rw [accountAfter_frames] at hinv
      exact hinv

/-- At any time the calls form a log, up to at most one packet under construction, which has not
more bytes than it was allocated with. -/
theorem LinkOk.log {answer : List RxCall → Option ℕ} {addr : ℕ → ℕ} {x : Link}
    (h : LinkOk answer addr x) :
    Log addr x.calls (x.host.frames.filterMap deliver) ∨
      ∃ p len w, Open addr x.calls (x.host.frames.filterMap deliver) p len w := by
  have huse : ∀ {f c}, Using (logStore answer addr) (Log addr) (Open addr)
      (x.host.frames.filterMap deliver) f c x.calls x.rx →
      Log addr x.calls (x.host.frames.filterMap deliver) ∨
        ∃ p len w, Open addr x.calls (x.host.frames.filterMap deliver) p len w := by
    rintro f c ⟨-, -, hig | ⟨p, hfill⟩⟩
    · exact Or.inl hig.idle
    · exact Or.inr ⟨p, _, _, hfill.building⟩
  cases h with
  | resting _ _ hidle _ _ => exact Or.inl hidle
  | begun _ _ hidle _ _ => exact Or.inl hidle
  | first _ _ _ hidle _ _ _ _ => exact Or.inl hidle
  | stalled _ _ _ _ _ _ hst => exact Or.inl hst.idle
  | between _ _ _ _ _ hu => exact huse hu
  | next _ _ _ _ _ _ hu => exact huse hu

/-- Between two frames the receiver is in `WAITING` and no packet is under construction. -/
theorem LinkOk.rest {answer : List RxCall → Option ℕ} {addr : ℕ → ℕ} {x : Link}
    (h : LinkOk answer addr x) (ho : x.host.out = none) (hp : x.host.pending = []) :
    x.rx.state = .waiting ∧ Log addr x.calls (x.host.frames.filterMap deliver) := by
  cases h with
  | resting hs _ hidle _ _ => exact ⟨hs, hidle⟩
  | begun hs _ hidle _ _ => exact ⟨hs, hidle⟩
  | first _ _ _ _ ho' _ _ _ => cases ho.symm.trans ho'
  | stalled _ _ _ ho' _ _ _ => cases ho.symm.trans ho'
  | between _ _ hne _ _ _ => exact absurd hp hne
  | next _ _ ho' _ _ _ _ => cases ho.symm.trans ho'

/-- No interrupt fails, whatever `Packet_New` answers. -/
theorem receive_log (answer : List RxCall → Option ℕ) (addr : ℕ → ℕ) (calls : List RxCall)
    (rx : Rx) (b : List UInt8) : ∃ y, receive (logStore answer addr) calls rx b = some y := by
  have hread : ∀ x, ∃ y, rxReading (logStore answer addr) x = some y := by
    intro x
    unfold rxReading
    dsimp only
    by_cases hl : x.rx.last = true
    · rw [if_pos hl]
      cases x.rx.packet with
      | none => exact ⟨_, rfl⟩
      | some p =>
          dsimp only
          split_ifs
          · exact ⟨_, rfl⟩
          · exact ⟨_, rfl⟩
    · rw [if_neg hl]
      exact ⟨_, rfl⟩
  have htail : ∀ x : RxRun (List RxCall), ∃ y, (if x.rx.state = .reading then
      rxReading (logStore answer addr) x else some x) = some y := by
    intro x
    split_ifs
    · exact hread x
    · exact ⟨x, rfl⟩
  unfold receive
  dsimp only
  split_ifs
  · obtain ⟨x, hx⟩ : ∃ x, rxNeedSpace (logStore answer addr) (rxHeader calls rx b) = some x := by
      unfold rxNeedSpace logStore
      dsimp only
      cases answer (rxHeader calls rx b).store with
      | none => exact ⟨_, rfl⟩
      | some p => exact ⟨_, rfl⟩
    rw [hx]
    exact htail x
  · exact htail _

/-! ### Progress

The link has at most one possible event at a time: the host begins a frame when the last one is
taken, a chunk arrives in a free bank, and an interrupt handles a received chunk.  So a frame is
taken as soon as `Packet_New` answers with a packet. -/

/-- The receiver may call `Packet_New` for this frame. -/
def Wants (f : List UInt8) : Prop := packetLenMin ≤ f.length ∧ 0 < announcedLength f

/-- `Packet_New` answers with a packet, at once or after some calls that fail. -/
def Allots (answer : List RxCall → Option ℕ) (calls : List RxCall) (len : ℕ) : Prop :=
  ∃ n, answer (calls ++ List.replicate n (.new len none)) ≠ none

/-- The frames that are taken when the last chunk but `pending` was given back. -/
def framesAfter (fs : List (List UInt8)) (f : List UInt8) (pending : List (List UInt8)) :
    List (List UInt8) := if pending = [] then fs ++ [f] else fs

/-- The interrupt has taken the received chunk. -/
structure Took (x x' : Link) : Prop where
  out : x'.host.out = none
  pending : x'.host.pending = x.host.pending
  frame : x'.host.frame = x.host.frame
  frames : x'.host.frames = framesAfter x.host.frames x.host.frame x.host.pending

/-- The interrupt has called `Packet_New` without success. -/
structure Failed (answer : List RxCall → Option ℕ) (x x' : Link) : Prop where
  before : x.rx.state ≠ .reading
  wants : Wants x.host.frame
  answer : answer x.calls = none
  state : x'.rx.state = .needspace
  calls : x'.calls = x.calls ++ [.new (announcedLength x.host.frame) none]
  out : x'.host.out ≠ none
  pending : x'.host.pending = x.host.pending
  frame : x'.host.frame = x.host.frame
  frames : x'.host.frames = x.host.frames

section progress

variable {answer : List RxCall → Option ℕ} {addr : ℕ → ℕ} {x x' : Link}

/-- **One interrupt** takes the chunk, unless `Packet_New` fails. -/
theorem LinkOk.interrupt (h : LinkOk answer addr x) {b : List UInt8} (hb : x.host.out = some b) :
    ∃ x', linkStep answer addr x .interrupt = some x' ∧ (Took x x' ∨ Failed answer x x') := by
  obtain ⟨y, hy⟩ := receive_log answer addr x.calls x.rx b
  have hs : linkStep answer addr x .interrupt = some ⟨x.host.taken y.out, y.store, y.rx⟩ := by
    rw [linkStep, hb, Option.bind_some, hy, Option.map_some]
  refine ⟨_, hs, ?_⟩
  cases hout : y.out with
  | none =>
      refine Or.inl ⟨rfl, rfl, rfl, ?_⟩
      simp only [Host.taken, framesAfter, true_and]
  | some rest =>
      have hneed : y.rx.state = .needspace :=
        (receive_taken hy).resolve_left (by rw [hout]; exact Option.some_ne_none _)
      obtain ⟨hhead, hnew, hrem⟩ := receive_needspace hy hneed
      rw [rxHeader_store, ← hrem] at hnew
      obtain ⟨hans, hcalls⟩ := Prod.mk.inj (Option.some.inj hnew)
      rw [hans] at hcalls
      have hst := h.step hs
      rw [hout] at hst
      -- the receiver is in `NEEDSPACE`, so it waits at the start of the frame
      obtain ⟨hwant, hlen⟩ : Wants x.host.frame ∧
          y.rx.bytesRemaining = announcedLength x.host.frame := by
        cases hst with
        | resting hw _ _ _ _ => cases hneed.symm.trans hw
        | begun hw _ _ _ _ => cases hneed.symm.trans hw
        | first _ hw _ _ _ _ _ _ => cases hneed.symm.trans hw
        | stalled c rest _ _ _ _ hst => exact ⟨⟨hst.long, hst.accepted⟩, hst.remaining⟩
        | between _ _ _ _ _ hu => cases hneed.symm.trans hu.1
        | next _ _ _ _ _ _ hu => cases hneed.symm.trans hu.1
      refine Or.inr ⟨fun hread => ?_, hwant, hans, hneed, ?_, Option.some_ne_none _, rfl, rfl, ?_⟩
      · have hx : rxHeader x.calls x.rx b = rxStart x.calls x.rx b :=
          if_neg (by rw [hread]; decide)
        rw [hx] at hhead
        exact absurd (hhead.symm.trans hread) (by decide)
      · rw [← hlen]
        exact hcalls.symm
      · simp [Host.taken]

/-- The chunk is taken at last. -/
theorem LinkOk.retries (n : ℕ) : ∀ {x : Link}, LinkOk answer addr x → x.host.out ≠ none →
    (Wants x.host.frame →
      answer (x.calls ++ List.replicate n (.new (announcedLength x.host.frame) none)) ≠ none) →
    ∃ es x', Run (fun x e x' => linkStep answer addr x e = some x') x es x' ∧ Took x x' := by
  induction n with
  | zero =>
      intro x h hout hans
      obtain ⟨b, hb⟩ := Option.ne_none_iff_exists'.mp hout
      obtain ⟨x', hs, ht | hf⟩ := h.interrupt hb
      · exact ⟨_, x', Run.single hs, ht⟩
      · exact absurd hf.answer (by simpa using hans hf.wants)
  | succ n ih =>
      intro x h hout hans
      obtain ⟨b, hb⟩ := Option.ne_none_iff_exists'.mp hout
      obtain ⟨x₁, hs, ht | hf⟩ := h.interrupt hb
      · exact ⟨_, x₁, Run.single hs, ht⟩
      · obtain ⟨es, x', hrun, ht⟩ := ih (h.step hs) hf.out (fun hw => by
          rw [hf.calls, hf.frame, List.append_assoc, List.singleton_append,
            ← List.replicate_succ]
          exact hans hf.wants)
        refine ⟨_, x', .cons hs hrun, ⟨ht.out, ht.pending.trans hf.pending,
          ht.frame.trans hf.frame, ?_⟩⟩
        rw [ht.frames, hf.frames, hf.frame, hf.pending]

/-- Behind the first chunk the receiver reads, or ignores, the rest of the frame. -/
theorem LinkOk.finishes (fs : List (List UInt8)) (pending : List (List UInt8)) : ∀ {x : Link},
    LinkOk answer addr x → x.host.out = none → x.host.pending = pending →
    pending.length < (chunks epSize x.host.frame).length →
    x.host.frames = framesAfter fs x.host.frame pending →
    ∃ es x', Run (fun x e x' => linkStep answer addr x e = some x') x es x' ∧
      x'.host.out = none ∧ x'.host.pending = [] ∧ x'.host.frames = fs ++ [x.host.frame] := by
  induction pending with
  | nil =>
      intro x _ ho hp _ hfs
      exact ⟨[], x, .nil x, ho, hp, hfs⟩
  | cons b pending ih =>
      intro x h ho hp hlt hfs
      have hread : x.rx.state = .reading := by
        cases h with
        | resting _ _ _ _ hnil => cases hp.symm.trans hnil
        | begun _ _ _ _ hch =>
            rw [← hch, hp] at hlt
            exact absurd hlt (lt_irrefl _)
        | first _ _ _ _ ho' _ _ _ => cases ho.symm.trans ho'
        | stalled _ _ _ ho' _ _ _ => cases ho.symm.trans ho'
        | between _ _ _ _ _ hu => exact hu.1
        | next _ _ ho' _ _ _ _ => cases ho.symm.trans ho'
      have hchunk : linkStep answer addr x .chunk =
          some { x with host := { x.host with out := some b, pending := pending } } := by
        simp only [linkStep, Host.deliverChunk, ho, hp, Option.map_some]
      obtain ⟨x', hs, ht | hf⟩ := (h.step hchunk).interrupt rfl
      · have hframe : x'.host.frame = x.host.frame := ht.frame
        have hfs' : x'.host.frames = framesAfter fs x'.host.frame pending := by
          rw [ht.frames, hframe]
          dsimp only
          rw [hfs]
          rfl
        obtain ⟨es, x'', hrun, ho'', hp'', hdone⟩ := ih (h.step hchunk |>.step hs) ht.out
          ht.pending (by rw [hframe]; exact lt_of_le_of_lt (Nat.le_succ _) hlt) hfs'
        rw [hframe] at hdone
        exact ⟨_, x'', .cons hchunk (.cons hs hrun), ho'', hp'', hdone⟩
      · exact absurd hread hf.before

/-- **A frame is delivered**, once `Packet_New` answers with a packet. -/
theorem LinkOk.delivers (h : LinkOk answer addr x) (ho : x.host.out = none)
    (hp : x.host.pending = []) {f : List UInt8}
    (hans : Wants f → Allots answer x.calls (announcedLength f)) :
    ∃ es x', Run (fun x e x' => linkStep answer addr x e = some x') x (.frame f :: es) x' ∧
      x'.host.out = none ∧ x'.host.pending = [] ∧ x'.host.frames = x.host.frames ++ [f] := by
  have hsend : linkStep answer addr x (.frame f) =
      some { x with host := { x.host with pending := chunks epSize f, frame := f } } := by
    simp only [linkStep, Host.send, ho, hp, and_self, if_true, Option.map_some]
  obtain ⟨b, pending, hch, -⟩ := chunks_ahead f
  have hchunk : linkStep answer addr
      { x with host := { x.host with pending := chunks epSize f, frame := f } } .chunk =
      some { x with host := ⟨some b, pending, f, x.host.frames⟩ } := by
    simp only [linkStep, Host.deliverChunk, ho, hch, Option.map_some]
  have h₂ := (h.step hsend).step hchunk
  obtain ⟨n, hn⟩ : ∃ n, Wants f →
      answer (x.calls ++ List.replicate n (.new (announcedLength f) none)) ≠ none := by
    by_cases hw : Wants f
    · obtain ⟨n, hn⟩ := hans hw
      exact ⟨n, fun _ => hn⟩
    · exact ⟨0, fun hw' => absurd hw' hw⟩
  obtain ⟨es₁, x₃, hrun₁, ht⟩ := h₂.retries n (Option.some_ne_none _) hn
  have h₃ : LinkOk answer addr x₃ := hrun₁.invariant (fun _ _ _ hy he => hy.step he) h₂
  have hframe : x₃.host.frame = f := ht.frame
  have hlt : pending.length < (chunks epSize x₃.host.frame).length := by
    rw [hframe, hch]
    exact Nat.lt_succ_self _
  obtain ⟨es₂, x', hrun₂, ho', hp', hfs⟩ := h₃.finishes x.host.frames pending ht.out ht.pending hlt
    (by rw [hframe]; exact ht.frames)
  rw [hframe] at hfs
  exact ⟨_, x', .cons hsend (.cons hchunk (hrun₁.append hrun₂)), ho', hp', hfs⟩

end progress

/-! ### Transmitting -/

/-- The transmitter and the chunks it has written. -/
structure Sending where
  ring : Ring
  tx : Tx
  sent : List (List UInt8)

/-- One chunk. -/
def sendOnce (g : Geometry) (x : Sending) (_ : Unit) : Option Sending :=
  (transmit (ringOutput g) x.ring x.tx).bind fun y =>
    y.chunk.map fun c => ⟨y.store, y.tx, x.sent ++ [c]⟩

/-- `k` interrupts with a free bank. -/
def sendTimes (g : Geometry) (k : ℕ) (x : Sending) : Option Sending :=
  Run.exec (sendOnce g) x (List.replicate k ())

theorem sendTimes_succ (g : Geometry) (k : ℕ) (x : Sending) :
    sendTimes g (k + 1) x = (sendOnce g x ()).bind (sendTimes g k) := rfl

/-- The rest of a packet is sent as the chunks of a frame, and the packet is released. -/
theorem send_rest (g : Geometry) (s : Ring) (p : ℕ) (n : ℕ) : ∀ (a : ℕ) (sent : List (List UInt8)),
    sendTimes g (chunks epSize (s.mem.read a n)).length ⟨s, ⟨some p, a, n⟩, sent⟩ =
      some ⟨packetReleaseOutput g s p, ⟨none, a + n, 0⟩, sent ++ chunks epSize (s.mem.read a n)⟩ := by
  have hn : 0 < epSize := by decide
  induction n using Nat.strong_induction_on with
  | _ n ih =>
      intro a sent
      have hlen : (s.mem.read a n).length = n := Mem.read_length _ _ _
      by_cases hlt : n < epSize
      · -- the last chunk
        have hch : chunks epSize (s.mem.read a n) = [s.mem.read a n] :=
          chunks_short (by omega)
        have hone : sendOnce g ⟨s, ⟨some p, a, n⟩, sent⟩ () =
            some ⟨packetReleaseOutput g s p, ⟨none, a + n, 0⟩, sent ++ [s.mem.read a n]⟩ := by
          simp [sendOnce, transmit, txFetch, txSend, hlt, ringOutput]
        rw [hch, List.length_singleton, sendTimes_succ, hone]
        rfl
      · obtain ⟨k, rfl⟩ : ∃ k, n = epSize + k := ⟨n - epSize, by omega⟩
        have hread := Mem.read_append s.mem a epSize k
        have h64 : (s.mem.read a epSize).length = epSize := Mem.read_length _ _ _
        have hch : chunks epSize (s.mem.read a (epSize + k)) =
            s.mem.read a epSize :: chunks epSize (s.mem.read (a + epSize) k) := by
          rw [chunks_long hn (by omega), hread, List.take_left' h64, List.drop_left' h64]
        have hone : sendOnce g ⟨s, ⟨some p, a, epSize + k⟩, sent⟩ () =
            some ⟨s, ⟨some p, a + epSize, k⟩, sent ++ [s.mem.read a epSize]⟩ := by
          simp [sendOnce, transmit, txFetch, txSend, ringOutput]
        rw [hch, List.length_cons, sendTimes_succ, hone, Option.bind_some, ih k (by omega),
          List.append_assoc, List.singleton_append, Nat.add_assoc]

/-- The packet that `Packet_GetOutput` returns is sent as the chunks of a frame. -/
theorem send_packet (g : Geometry) {s s' : Ring} {tx : Tx} {p : ℕ} (htx : tx.packet = none)
    (hget : packetGetOutput g s = some (some p, s')) (sent : List (List UInt8)) :
    let data := s'.data g p (packetGetLen (s'.state g p))
    ∃ tx', tx'.packet = none ∧ sendTimes g (chunks epSize data).length ⟨s, tx, sent⟩ =
      some ⟨packetReleaseOutput g s' p, tx', sent ++ chunks epSize data⟩ := by
  intro data
  refine ⟨⟨none, dataAddr g p + packetGetLen (s'.state g p), 0⟩, rfl, ?_⟩
  have hfetch : ∀ k, sendTimes g (k + 1) ⟨s, tx, sent⟩ = sendTimes g (k + 1)
      ⟨s', ⟨some p, dataAddr g p, packetGetLen (s'.state g p)⟩, sent⟩ := by
    intro k
    have hone : sendOnce g ⟨s, tx, sent⟩ () =
        sendOnce g ⟨s', ⟨some p, dataAddr g p, packetGetLen (s'.state g p)⟩, sent⟩ () := by
      simp only [sendOnce, transmit, txFetch, htx, ringOutput, hget, Option.map_some]
    rw [sendTimes_succ, sendTimes_succ, hone]
  obtain ⟨k, hk⟩ : ∃ k, (chunks epSize data).length = k + 1 := by
    refine ⟨(chunks epSize data).length - 1, ?_⟩
    have := List.length_pos_of_ne_nil (chunks_ne_nil (n := epSize) (by decide) data)
    omega
  rw [hk, hfetch, ← hk]
  exact send_rest g s' p _ _ sent

/-! ### The round trip -/

/-- A packet that announces its own length is delivered unchanged. -/
theorem deliver_self {d : List UInt8} (h : Acceptable d) (hl : announcedLength d = d.length) :
    deliver d = some d := by
  unfold deliver
  rw [if_pos h, hl, List.take_length]

/-- **Framing round trip.**  From `WAITING`, whatever `Packet_New` answers: an interrupt takes the
received chunk, unless `Packet_New` fails; so every frame is taken whole if `Packet_New` answers
with a packet some time, and the receiver is in `WAITING` again.  The calls of the receiver form a
log up to one packet under construction, and between two frames the delivered packets are those of
the frames so far.  The transmitter sends the packet that `Packet_GetOutput` returns as the chunks
of a frame, so a packet that announces its length comes back. -/
theorem usb_framing (answer : List RxCall → Option ℕ) (addr : ℕ → ℕ) {rx : Rx}
    (hs : rx.state = .waiting) (hp : rx.packet = none) {es : List LinkEvent} {x : Link}
    (h : Run (fun x e x' => linkStep answer addr x e = some x') ⟨Host.init, [], rx⟩ es x) :
    (∀ b, x.host.out = some b →
      ∃ x', linkStep answer addr x .interrupt = some x' ∧ (Took x x' ∨ Failed answer x x')) ∧
    (x.host.out = none → x.host.pending = [] → ∀ f,
      (Wants f → Allots answer x.calls (announcedLength f)) →
      ∃ es x', Run (fun x e x' => linkStep answer addr x e = some x') x (.frame f :: es) x' ∧
        x'.host.out = none ∧ x'.host.pending = [] ∧ x'.rx.state = .waiting ∧
        Log addr x'.calls (x.host.frames.filterMap deliver ++ (deliver f).toList)) ∧
    (Log addr x.calls (x.host.frames.filterMap deliver) ∨
      ∃ p len w, Open addr x.calls (x.host.frames.filterMap deliver) p len w) ∧
    (x.host.out = none → x.host.pending = [] →
      x.rx.state = .waiting ∧ Log addr x.calls (x.host.frames.filterMap deliver)) ∧
    (∀ (g : Geometry) (s s' : Ring) (tx : Tx) (p : ℕ) (sent : List (List UInt8)),
      tx.packet = none → packetGetOutput g s = some (some p, s') →
      let data := s'.data g p (packetGetLen (s'.state g p))
      ∃ tx', tx'.packet = none ∧ sendTimes g (chunks epSize data).length ⟨s, tx, sent⟩ =
        some ⟨packetReleaseOutput g s' p, tx', sent ++ chunks epSize data⟩) ∧
    ∀ d, Acceptable d → announcedLength d = d.length →
      reassemble epSize (chunks epSize d) = ⟨[d], []⟩ ∧ deliver d = some d := by
  have h0 : LinkOk answer addr ⟨Host.init, [], rx⟩ := .resting hs hp .nil rfl rfl
  have hinv : LinkOk answer addr x := h.invariant (fun _ _ _ hy he => hy.step he) h0
  refine ⟨fun b hb => hinv.interrupt hb, fun ho hpe f hans => ?_, hinv.log,
    fun ho hpe => hinv.rest ho hpe, fun g s s' tx p sent htx hget => send_packet g htx hget sent,
    fun d hd hl => ⟨reassemble_chunks (by decide) d, deliver_self hd hl⟩⟩
  obtain ⟨es', x', hrun, ho', hpe', hfs⟩ := hinv.delivers ho hpe hans
  have hinv' : LinkOk answer addr x' := hrun.invariant (fun _ _ _ hy he => hy.step he) hinv
  obtain ⟨hw, hlog⟩ := hinv'.rest ho' hpe'
  rw [hfs, List.filterMap_append, filterMap_singleton] at hlog
  exact ⟨es', x', hrun, ho', hpe', hw, hlog⟩

/-- An IPv4 frame with a UDP packet that announces `14 + 56` bytes and is followed by padding. -/
def udpFrame : List UInt8 :=
  [2, 0, 0, 0, 0, 0x40, 2, 0, 0, 0, 0, 1, 8, 0, 0x45, 0, 0, 56, 0, 0, 0, 0, 64, 17] ++
    List.replicate 50 7

theorem usb_framing_retry : ∃ x, Run (fun x e x' => linkStep (fun calls =>
      if calls.length < 2 then none else some 5) id x e = some x') ⟨Host.init, [], Rx.init⟩
      [.frame udpFrame, .chunk, .interrupt, .interrupt, .interrupt, .chunk, .interrupt] x ∧
    x.rx.state = .waiting ∧ Log id x.calls [udpFrame.take 70] := by
  let answer : List RxCall → Option ℕ := fun calls => if calls.length < 2 then none else some 5
  have h : (Run.exec (linkStep answer id) ⟨Host.init, [], Rx.init⟩
      [.frame udpFrame, .chunk, .interrupt, .interrupt, .interrupt, .chunk, .interrupt]).any
      (fun x => decide (x.host.out = none ∧ x.host.pending = [] ∧
        x.host.frames.filterMap deliver = [udpFrame.take 70])) = true := by
    decide +kernel
  obtain ⟨x, hx, hc⟩ := Run.of_exec_any (fun _ _ _ hs => hs) h
  obtain ⟨ho, hpe, hf⟩ := of_decide_eq_true hc
  obtain ⟨-, -, -, hrest, -, -⟩ := usb_framing answer id rfl rfl hx
  have hlog := hrest ho hpe
  rw [hf] at hlog
  exact ⟨x, hx, hlog⟩

end TimeSwitch.Usb
