import TimeSwitch.Library.Runs
import TimeSwitch.PacketResize

/-! # The ring as a queue of packets

The users of `PacketBuffer.h` see packets that were allocated and not released yet, in the order
of their allocation: a *queue* (`List Entry`).  This module states what a user may call
(`Allowed`), how a call changes the queue (`track`), and that the ring implements the queue in
every reachable state (`Refines`).

The queue is bookkeeping beside the code.  `perform` runs a call of the code, `track` appends
a packet where `Packet_New` returned one, changes its status where it is finished or reattached,
and removes it where it is released.  The data of a packet in the queue only change by `store`,
the write of a user into the packet.

Two calls do not keep the ring well formed and are described here: releasing an input packet of
the maximal length makes its state word the `StartOver` mark (`releasesAsMark`), and shrinking
the last packet makes an old data word the end of the ring (`exposesData`). -/

namespace TimeSwitch.PacketBuffer

open ByteMemory

/-! ### Calls -/

/-- The functions of the interface, and a write of `bs` at byte `i` of a packet's data. -/
inductive Call where
  | new (len : ℕ)
  | resize (p len : ℕ)
  | putInput (p : ℕ)
  | putOutput (p : ℕ)
  | getInput
  | getOutput
  | releaseInput (p : ℕ)
  | releaseOutput (p : ℕ)
  | reattachOutput (p : ℕ)
  | store (p i : ℕ) (bs : List UInt8)

variable (g : Geometry)

/-- The returned pointer and the ring after a call; `none` is a failed assertion. -/
def perform (s : Ring) : Call → Option (Option ℕ × Ring)
  | .new len => packetNew g s len
  | .resize p len => packetResize g s p len
  | .putInput p => (packetPutInput g s p).map (fun s' => (none, s'))
  | .putOutput p => (packetPutOutput g s p).map (fun s' => (none, s'))
  | .getInput => packetGetInput g s
  | .getOutput => packetGetOutput g s
  | .releaseInput p => some (none, packetReleaseInput g s p)
  | .releaseOutput p => some (none, packetReleaseOutput g s p)
  | .reattachOutput p => (packetReattachOutput g s p).map (fun s' => (none, s'))
  | .store p i bs => some (none, s.write (dataAddr g p + i) bs)

/-- Add the packet that was allocated at slot `p`, with the data the ring `s` has there. -/
def addFresh (s : Ring) (p len : ℕ) (q : List Entry) : List Entry :=
  if h : len < 2 ^ 14 then q ++ [freshEntry g s.mem p len h] else q

/-- The packet at slot `p` has a new length. -/
def refresh (s : Ring) (p len : ℕ) (e : Entry) : Entry :=
  if h : e.pos = p ∧ len < 2 ^ 14 then freshEntry g s.mem p len h.2 else e

/-- Remove the packet at slot `p`. -/
def remove (p : ℕ) (q : List Entry) : List Entry := q.filter (fun e => e.pos ≠ p)

/-- The queue after a call that returned `r` and left the ring `s`. -/
def track (q : List Entry) (r : Option ℕ) (s : Ring) : Call → List Entry
  | .new len =>
      match r with
      | none => q
      | some p => addFresh g s p len q
  | .resize p len =>
      match r with
      | none => q
      | some p' => if p' = p then q.map (refresh g s p len) else addFresh g s p' len (remove p q)
  | .putInput p => q.map (setStatus p .input)
  | .putOutput p => q.map (setStatus p .output)
  | .getInput => q
  | .getOutput => q
  | .releaseInput p => remove p q
  | .releaseOutput p => remove p q
  | .reattachOutput p => q.map (setStatus p .output)
  | .store p i bs => q.map (setData p i bs)

/-- What a user may call.  A packet is finished once, an input packet is released or
reattached while `Packet_GetInput` returns it, and an output packet is released while
`Packet_GetOutput` returns it and after it did (`OutputReader` is at the packet). -/
def Allowed (s : Ring) (q : List Entry) : Call → Prop
  | .new len => len < 2 ^ 14 ∧ packetUnits g len ≤ g.slots
  | .resize p len => len < 2 ^ 14 ∧ ∃ e ∈ q, e.pos = p ∧ e.status = .unfinished
  | .putInput p => ∃ e ∈ q, e.pos = p ∧ e.status = .unfinished
  | .putOutput p => ∃ e ∈ q, e.pos = p ∧ e.status = .unfinished
  | .getInput => True
  | .getOutput => True
  | .releaseInput p => (packetGetInput g s).map Prod.fst = some (some p)
  | .releaseOutput p =>
      (packetGetOutput g s).map Prod.fst = some (some p) ∧ s.outputReader = p
  | .reattachOutput p => (packetGetInput g s).map Prod.fst = some (some p)
  | .store p i bs => ∃ e ∈ q, e.pos = p ∧ i + bs.length ≤ e.len

instance (s : Ring) (q : List Entry) (c : Call) : Decidable (Allowed g s q c) := by
  cases c <;> unfold Allowed <;> infer_instance

/-- One call of a user. -/
def Step (x : Ring × List Entry) (c : Call) (x' : Ring × List Entry) : Prop :=
  Allowed g x.1 x.2 c ∧
    ∃ r, perform g x.1 c = some (r, x'.1) ∧ x'.2 = track g x.2 r x'.1 c

/-- `Step` as a function. -/
def stepOnce (x : Ring × List Entry) (c : Call) : Option (Ring × List Entry) :=
  if Allowed g x.1 x.2 c then
    (perform g x.1 c).map (fun y => (y.2, track g x.2 y.1 y.2 c))
  else none

theorem step_of_stepOnce {x x' : Ring × List Entry} {c : Call} (h : stepOnce g x c = some x') :
    Step g x c x' := by
  unfold stepOnce at h
  split_ifs at h with ha
  obtain ⟨y, hy, rfl⟩ := Option.map_eq_some_iff.mp h
  exact ⟨ha, y.1, hy, rfl⟩

/-- The ring at program start and the empty queue. -/
def start (m : Mem) : Ring × List Entry := (Ring.init g m, [])

/-- `Packet_ReleaseInput` marks a packet of the maximal length `Skip`: the state word becomes
the `StartOver` mark. -/
def releasesAsMark (s : Ring) : Call → Prop
  | .releaseInput p => packetGetLen (s.state g p) = 0x3FFF ∧ s.outputReader ≠ p
  | _ => False

/-- `Packet_Resize` moves `NextWriter` back to a slot whose state word, left over from the data
of the packet, is not `EndOfRing`. -/
def exposesData (s : Ring) : Call → Prop
  | .resize p len =>
      let oldNextPacket := getNextPacket g p (s.state g p)
      getNextPacket g p len < oldNextPacket ∧ s.nextWriter = oldNextPacket ∧
        s.state g (getNextPacket g p len) ≠ State.endOfRing
  | _ => False

instance (s : Ring) (c : Call) : Decidable (releasesAsMark g s c) := by
  cases c <;> unfold releasesAsMark <;> infer_instance

instance (s : Ring) (c : Call) : Decidable (exposesData g s c) := by
  cases c <;> unfold exposesData <;> infer_instance

/-! ### What the users rely on -/

namespace Fifo

/-- The first packet of the queue that is not an output packet, if it is an input packet. -/
def getInput (q : List Entry) : Option ℕ :=
  firstWith .input (q.dropWhile (fun e => e.status = .output))

/-- The first packet of the queue, if it is an output packet. -/
def getOutput (q : List Entry) : Option ℕ := firstWith .output q

end Fifo

/-- The packets that are not `Skip`. -/
def unreleased (live : List Entry) : List Entry := live.filter (fun e => e.status ≠ .skip)

/-- The slots from `x` up to `NextWriter`, by `getNextPacket` and the `StartOver` mark. -/
def walk (s : Ring) : ℕ → ℕ → Option (List ℕ)
  | 0, _ => none
  | fuel + 1, x =>
      if x = s.nextWriter then some []
      else (walk s fuel (nextReader g x (s.state g x))).map (x :: ·)

/-- The walk from `OutputReader` visits the entries `live` and possibly the mark, meets
`InputReader`, and ends at `NextWriter`, which is marked `EndOfRing`.  The entries have their
flags, length and data in memory, and lie in the ring without overlap. -/
structure Walks (s : Ring) (live : List Entry) : Prop where
  visits : ∃ xs, walk g s (readerFuel g) s.outputReader = some xs ∧
    xs.filter (fun x => s.state g x ≠ State.startOver) = live.map Entry.pos ∧
    s.inputReader ∈ xs ++ [s.nextWriter]
  stored : ∀ e ∈ live, Stored g s.mem e
  inside : s.nextWriter ≤ g.slots ∧ ∀ e ∈ live, e.next g ≤ g.slots
  apart : live.Pairwise (Entry.Apart g)
  writer : s.state g s.nextWriter = State.endOfRing

/-- The ring implements the queue: its live entries are the queue and entries of type `Skip`,
and the readers find what the queue says. -/
structure Refines (s : Ring) (q : List Entry) : Prop where
  walks : ∃ live, Walks g s live ∧ unreleased live = q
  input : (packetGetInput g s).map Prod.fst = some (Fifo.getInput q)
  output : (packetGetOutput g s).map Prod.fst = some (Fifo.getOutput q)

/-! ### The walk -/

section walk

variable {g} {s : Ring} {k kr k₁ k₂ : Option ℕ} {pre post es : List Entry} {x y fuel : ℕ}

theorem Layout.mark_ne_writer (h : Layout g s k kr pre post) : k ≠ some s.nextWriter := by
  rintro rfl
  have := h.mark_apart.1
  omega

/-- One step of the walk from an entry. -/
theorem walk_entry (h : Layout g s k kr pre post) {e : Entry} (he : e ∈ pre ++ post) :
    walk g s (fuel + 1) e.pos = (walk g s fuel (e.next g)).map (e.pos :: ·) := by
  rw [walk, if_neg (h.pos_ne_writer he).symm, h.state_eq he,
    e.nextReader_word g (h.stored e he).noMark]

/-- One step of the walk from the mark. -/
theorem walk_mark (h : Layout g s (some x) kr pre post) :
    walk g s (fuel + 1) x = (walk g s fuel 0).map (x :: ·) := by
  have hne : x ≠ s.nextWriter := fun hx => h.mark_ne_writer (congrArg some hx)
  have hst : s.state g x = State.startOver := h.mark x rfl
  rw [walk, if_neg hne, hst]
  rfl

theorem walk_spec (h : Layout g s k kr pre post) (ht : RingTrail g k₁ x es none s.nextWriter)
    (hk : ∀ y, k₁ = some y → k = some y) (hes : ∀ e ∈ es, e ∈ pre ++ post)
    (hf : es.length + markCount k₁ < fuel) :
    ∃ xs, walk g s fuel x = some xs ∧
      xs.filter (fun x => s.state g x ≠ State.startOver) = es.map Entry.pos := by
  obtain ⟨k₀, hk₀⟩ : ∃ k₀ : Option ℕ, none = k₀ := ⟨_, rfl⟩
  obtain ⟨w, hw⟩ : ∃ w, s.nextWriter = w := ⟨_, rfl⟩
  rw [hk₀, hw] at ht
  induction ht generalizing fuel with
  | stop k x =>
      subst hw
      obtain ⟨fuel, rfl⟩ : ∃ n, fuel = n + 1 := ⟨fuel - 1, by omega⟩
      exact ⟨[], by rw [walk, if_pos rfl], rfl⟩
  | @visit k' k'' x y e es hx _ ih =>
      obtain ⟨fuel, rfl⟩ : ∃ n, fuel = n + 1 := ⟨fuel - 1, by omega⟩
      have he : e ∈ pre ++ post := hes e (by simp)
      have hf' : es.length + markCount k' < fuel := by
        rw [List.length_cons] at hf
        omega
      obtain ⟨xs, hxs, hfil⟩ := ih hk (fun e' he' => hes e' (by simp [he'])) hf' hk₀ hw
      refine ⟨e.pos :: xs, by rw [hx, walk_entry h he, hxs]; rfl, ?_⟩
      have hst : s.state g e.pos ≠ State.startOver := by
        rw [h.state_eq he]
        exact (h.stored e he).noMark
      rw [List.filter_cons_of_pos (by simpa using hst), hfil]
      rfl
  | @jump k'' x y es _ ih =>
      obtain ⟨fuel, rfl⟩ : ∃ n, fuel = n + 1 := ⟨fuel - 1, by omega⟩
      obtain rfl := hk x rfl
      have hf' : es.length + markCount none < fuel := by
        have h1 : markCount (some x) = 1 := rfl
        have h0 : markCount none = 0 := rfl
        omega
      obtain ⟨xs, hxs, hfil⟩ := ih (by simp) hes hf' hk₀ hw
      refine ⟨x :: xs, by rw [walk_mark h, hxs]; rfl, ?_⟩
      have hst : s.state g x = State.startOver := h.mark x rfl
      rw [List.filter_cons_of_neg (by simpa using hst), hfil]

/-- The walk passes every point of its trail; before the point it visits the entries of the trail
and the mark. -/
theorem walk_split (h : Layout g s k kr pre post) (ht : RingTrail g k₁ x es k₂ y)
    (hk : ∀ y, k₁ = some y → k = some y) (hes : ∀ e ∈ es, e ∈ pre ++ post) {xs : List ℕ}
    (hw : walk g s fuel x = some xs) :
    ∃ ys zs fuel', xs = ys ++ zs ∧ walk g s fuel' y = some zs ∧
      ∀ z ∈ ys, (∃ e ∈ es, e.pos = z) ∨ k = some z := by
  induction ht generalizing fuel xs with
  | stop k x => exact ⟨[], xs, fuel, rfl, hw, by simp⟩
  | @visit k' k'' x y e es hx _ ih =>
      cases fuel with
      | zero => cases hw
      | succ fuel =>
          have he : e ∈ pre ++ post := hes e (by simp)
          rw [hx, walk_entry h he] at hw
          obtain ⟨ws, hws, rfl⟩ := Option.map_eq_some_iff.mp hw
          obtain ⟨ys, zs, fuel', rfl, hz, hys⟩ := ih hk (fun e' he' => hes e' (by simp [he'])) hws
          refine ⟨e.pos :: ys, zs, fuel', rfl, hz, fun z hz' => ?_⟩
          rcases List.mem_cons.mp hz' with rfl | hz'
          · exact Or.inl ⟨e, by simp, rfl⟩
          · obtain ⟨e', he', hp⟩ | hm := hys z hz'
            · exact Or.inl ⟨e', by simp [he'], hp⟩
            · exact Or.inr hm
  | @jump k'' x y es _ ih =>
      cases fuel with
      | zero => cases hw
      | succ fuel =>
          obtain rfl := hk x rfl
          rw [walk_mark h] at hw
          obtain ⟨ws, hws, rfl⟩ := Option.map_eq_some_iff.mp hw
          obtain ⟨ys, zs, fuel', rfl, hz, hys⟩ := ih (by simp) hes hws
          refine ⟨x :: ys, zs, fuel', rfl, hz, fun z hz' => ?_⟩
          rcases List.mem_cons.mp hz' with rfl | hz'
          · exact Or.inr rfl
          · exact hys z hz'

/-- The walk begins where it starts. -/
theorem walk_head {xs : List ℕ} (hw : walk g s fuel x = some xs) :
    (xs = [] ∧ x = s.nextWriter) ∨ ∃ ys, xs = x :: ys := by
  cases fuel with
  | zero => cases hw
  | succ fuel =>
      rw [walk] at hw
      split_ifs at hw with hx
      · exact Or.inl ⟨(Option.some.inj hw).symm, hx⟩
      · obtain ⟨ys, -, rfl⟩ := Option.map_eq_some_iff.mp hw
        exact Or.inr ⟨ys, rfl⟩

/-- A represented ring walks over its entries. -/
theorem Layout.walks (h : Layout g s k kr pre post) : Walks g s (pre ++ post) := by
  refine ⟨?_, h.stored, ⟨h.nextWriter_le, fun e he => h.entry_le he⟩, h.pairwise, h.writer⟩
  have hfuel : (pre ++ post).length + markCount k < readerFuel g := by
    have h1 := h.length_le
    have h2 := markCount_le k
    unfold readerFuel
    omega
  obtain ⟨xs, hxs, hfil⟩ := walk_spec h h.trail (fun _ hy => hy) (fun _ he => he) hfuel
  refine ⟨xs, hxs, hfil, ?_⟩
  obtain ⟨ys, zs, fuel', rfl, hz, -⟩ :=
    walk_split h h.behind (fun _ hy => hy) (fun e he => by simp [he]) hxs
  rcases walk_head hz with ⟨rfl, hy⟩ | ⟨ws, rfl⟩
  · simp [hy]
  · simp

end walk

/-! ### Queues of entries -/

section queue

variable {l₁ l₂ es : List Entry} {e : Entry} {st : Status} {p : ℕ}

theorem unreleased_append (l₁ l₂ : List Entry) :
    unreleased (l₁ ++ l₂) = unreleased l₁ ++ unreleased l₂ := List.filter_append ..

theorem unreleased_cons (h : e.status ≠ .skip) : unreleased (e :: es) = e :: unreleased es :=
  List.filter_cons_of_pos (by simpa using h)

theorem unreleased_cons_skip (h : e.status = .skip) : unreleased (e :: es) = unreleased es :=
  List.filter_cons_of_neg (by simpa using h)

theorem unreleased_of_skip (h : ∀ e ∈ es, e.status = .skip) : unreleased es = [] :=
  List.filter_eq_nil_iff.mpr (fun e he => by simpa using h e he)

theorem unreleased_insert (h : e.status ≠ .skip) :
    unreleased (l₁ ++ e :: l₂) = unreleased l₁ ++ e :: unreleased l₂ := by
  rw [unreleased_append, unreleased_cons h]

theorem mem_unreleased : e ∈ unreleased es ↔ e ∈ es ∧ e.status ≠ .skip := by
  simp [unreleased]

/-- A change of the entries that does not concern the type `Skip`. -/
theorem unreleased_map {f : Entry → Entry}
    (hf : ∀ e ∈ es, (f e).status = .skip ↔ e.status = .skip) :
    unreleased (es.map f) = (unreleased es).map f := by
  unfold unreleased
  rw [List.filter_map]
  congr 1
  exact List.filter_congr (fun e he => by simp [hf e he])

theorem remove_of_ne (h : ∀ e ∈ es, e.pos ≠ p) : remove p es = es :=
  List.filter_eq_self.mpr (fun e he => by simpa using h e he)

/-- Releasing an entry removes it from the queue. -/
theorem remove_unreleased (h₁ : ∀ e' ∈ l₁, e'.pos ≠ e.pos) (h₂ : ∀ e' ∈ l₂, e'.pos ≠ e.pos) :
    remove e.pos (unreleased (l₁ ++ e :: l₂)) = unreleased (l₁ ++ l₂) := by
  have e1 : remove e.pos (unreleased l₁) = unreleased l₁ :=
    remove_of_ne (fun e' he' => h₁ e' (mem_unreleased.mp he').1)
  have e2 : remove e.pos (unreleased (e :: l₂)) = unreleased l₂ := by
    have h3 : remove e.pos (unreleased l₂) = unreleased l₂ :=
      remove_of_ne (fun e' he' => h₂ e' (mem_unreleased.mp he').1)
    by_cases hs : e.status = .skip
    · rw [unreleased_cons_skip hs, h3]
    · rw [unreleased_cons hs, remove, List.filter_cons_of_neg (by simp)]
      exact h3
  calc remove e.pos (unreleased (l₁ ++ e :: l₂))
      = remove e.pos (unreleased l₁) ++ remove e.pos (unreleased (e :: l₂)) := by
        rw [unreleased_append, remove, List.filter_append, remove, remove]
    _ = unreleased (l₁ ++ l₂) := by rw [e1, e2, unreleased_append]

theorem firstWith_eq_some : firstWith st es = some p ↔
    ∃ e es', es = e :: es' ∧ e.status = st ∧ e.pos = p := by
  cases es with
  | nil => simp [firstWith]
  | cons e es => simp [firstWith, and_assoc]

end queue

/-! ### The invariant of the users' calls -/

/-- The ring stores the queue and entries of type `Skip`, and `InputReader` has passed only
entries of type `Output` and `Skip`. -/
def Queued (s : Ring) (q : List Entry) : Prop :=
  ∃ pre post, Rep g s pre post ∧ (∀ e ∈ pre, e.status = .output ∨ e.status = .skip) ∧
    unreleased (pre ++ post) = q

section calls

variable {g} {s s' : Ring} {q : List Entry} {pre post : List Entry} {p len : ℕ}

/-- The readers keep the queue. -/
theorem Advanced.queued {pre' post' : List Entry} (h : Advanced pre post pre' post')
    (hpass : ∀ e ∈ pre, e.status = .output ∨ e.status = .skip) :
    (∀ e ∈ pre', e.status = .output ∨ e.status = .skip) ∧
      unreleased (pre' ++ post') = unreleased (pre ++ post) := by
  obtain ⟨d, hd, hskip⟩ := h.all_eq
  obtain ⟨d', mid, -, hpre, -, hmid⟩ := h
  constructor
  · intro e he
    have hmem : e ∈ pre ++ mid := by
      rw [hpre]
      exact List.mem_append_right _ he
    exact (List.mem_append.mp hmem).elim (hpass e) (hmid e)
  · rw [hd, unreleased_append d, unreleased_of_skip hskip, List.nil_append]

/-- The input packet that `Packet_GetInput` returns: before it `InputReader` passes only entries
of type `Output` and `Skip`. -/
theorem Rep.current_input (h : Rep g s pre post)
    (hc : (packetGetInput g s).map Prod.fst = some (some p)) :
    ∃ mid e l₂, post = mid ++ e :: l₂ ∧ e.pos = p ∧ e.status = .input ∧
      ∀ e ∈ mid, e.status = .output ∨ e.status = .skip := by
  obtain ⟨s', pre', post', hr, -, ⟨d, mid, hpost, -, -, hmid⟩, -, -⟩ := packetGetInput_spec h
  rw [hr] at hc
  obtain ⟨e, l₂, rfl, hst, hp⟩ := firstWith_eq_some.mp (Option.some.inj hc)
  exact ⟨mid, e, l₂, hpost, hp, hst, hmid⟩

/-- The output packet that `Packet_GetOutput` returns, when `OutputReader` is there. -/
theorem Rep.current_output (h : Rep g s pre post)
    (hc : (packetGetOutput g s).map Prod.fst = some (some p)) :
    ∃ e ∈ pre ++ post, e.pos = p ∧ e.status = .output := by
  obtain ⟨s', pre', post', hr, -, hA, -, -⟩ := packetGetOutput_spec h
  rw [hr] at hc
  obtain ⟨e, es, hes, hst, hp⟩ := firstWith_eq_some.mp (Option.some.inj hc)
  obtain ⟨d, hd, -⟩ := hA.all_eq
  exact ⟨e, by rw [hd, hes]; simp, hp, hst⟩

/-- The ring implements the queue it stores. -/
theorem Queued.refines (h : Queued g s q) : Refines g s q := by
  obtain ⟨pre, post, hrep, hpass, rfl⟩ := h
  refine ⟨?_, ?_, ?_⟩
  · obtain ⟨k, kr, hL⟩ := hrep
    exact ⟨pre ++ post, hL.walks, rfl⟩
  · obtain ⟨s', pre', post', hr, -, hA, -, hhead⟩ := packetGetInput_spec hrep
    obtain ⟨hpass', hq⟩ := hA.queued hpass
    have hdrop : (unreleased pre').dropWhile (fun e => e.status = .output) = [] := by
      rw [List.dropWhile_eq_nil_iff]
      intro e he
      obtain ⟨hmem, hns⟩ := mem_unreleased.mp he
      simpa using (hpass' e hmem).resolve_right hns
    rw [hr, ← hq, unreleased_append, Fifo.getInput, List.dropWhile_append, hdrop]
    cases post' with
    | nil => rfl
    | cons e es =>
        obtain ⟨-, hst⟩ := hhead e rfl
        have h1 : e.status ≠ .skip := by rcases hst with hst | hst <;> rw [hst] <;> decide
        have h2 : e.status ≠ .output := by rcases hst with hst | hst <;> rw [hst] <;> decide
        rw [unreleased_cons h1]
        simp [h2, firstWith]
  · obtain ⟨s', pre', post', hr, -, hA, -, hhead⟩ := packetGetOutput_spec hrep
    obtain ⟨-, hq⟩ := hA.queued hpass
    rw [hr, ← hq, Fifo.getOutput]
    cases hall : pre' ++ post' with
    | nil => rfl
    | cons e es =>
        rw [hall] at hhead
        rw [unreleased_cons (hhead e rfl).2]
        rfl

/-! ### Every call keeps the invariant -/

/-- What a call has to do: it succeeds and the ring stores the queue after it. -/
def Keeps (g : Geometry) (s : Ring) (q : List Entry) (c : Call) : Prop :=
  ∃ r s', perform g s c = some (r, s') ∧ Queued g s' (track g q r s' c)

theorem Queued.getInput (h : Queued g s q) : Keeps g s q .getInput := by
  obtain ⟨pre, post, hrep, hpass, rfl⟩ := h
  obtain ⟨s', pre', post', hr, hrep', hA, -, -⟩ := packetGetInput_spec hrep
  exact ⟨_, s', hr, pre', post', hrep', hA.queued hpass⟩

theorem Queued.getOutput (h : Queued g s q) : Keeps g s q .getOutput := by
  obtain ⟨pre, post, hrep, hpass, rfl⟩ := h
  obtain ⟨s', pre', post', hr, hrep', hA, -, -⟩ := packetGetOutput_spec hrep
  exact ⟨_, s', hr, pre', post', hrep', hA.queued hpass⟩

/-- An unfinished packet of the queue is ahead of `InputReader`. -/
theorem Rep.unfinished_mem (h : Rep g s pre post)
    (hpass : ∀ e ∈ pre, e.status = .output ∨ e.status = .skip) {e : Entry}
    (he : e ∈ unreleased (pre ++ post)) (hu : e.status = .unfinished) :
    e ∈ post ∧ ∀ e' ∈ pre ++ post, e'.pos = e.pos → e' = e := by
  obtain ⟨k, kr, h⟩ := h
  have hmem := (mem_unreleased.mp he).1
  refine ⟨(List.mem_append.mp hmem).resolve_left (fun hpre => ?_), fun e' he' hp => ?_⟩
  · rcases hpass e hpre with hst | hst <;> rw [hu] at hst <;> cases hst
  · exact h.eq_of_pos he' hmem hp

/-- `Packet_PutInput` and `Packet_PutOutput`. -/
theorem Queued.put (h : Queued g s q) {st : Status} {flag : ℕ} (hns : st ≠ .skip)
    (hflag : ∀ e : Entry, e.len ||| flag = stateWord st e.len)
    (ha : ∃ e ∈ q, e.pos = p ∧ e.status = .unfinished) :
    ∃ s', packetPut g flag s p = some s' ∧ Queued g s' (q.map (setStatus p st)) := by
  obtain ⟨pre, post, hrep, hpass, rfl⟩ := h
  obtain ⟨e, he, rfl, hu⟩ := ha
  obtain ⟨hpost, huniq⟩ := hrep.unfinished_mem hpass he hu
  obtain ⟨hr, hrep'⟩ := packetPut_spec hrep (List.mem_append_right _ hpost) hu hns (hflag e)
  refine ⟨_, hr, _, _, hrep', fun e' he' => ?_, ?_⟩
  · obtain ⟨a, ha, rfl⟩ := List.mem_map.mp he'
    rw [setStatus_of_ne]
    · exact hpass a ha
    · intro hp
      rw [huniq a (by simp [ha]) hp] at ha
      rcases hpass e ha with hst | hst <;> rw [hu] at hst <;> cases hst
  · rw [← List.map_append]
    refine unreleased_map (fun a ha => ?_)
    by_cases hp : a.pos = e.pos
    · rw [huniq a ha hp, setStatus_same, hu]
      simp [hns]
    · rw [setStatus_of_ne hp]

theorem Queued.putInput (h : Queued g s q) (ha : Allowed g s q (.putInput p)) :
    Keeps g s q (.putInput p) := by
  obtain ⟨s', hr, hq⟩ := h.put (by decide) (fun e => or_input e.len_lt_max) ha
  exact ⟨none, s', by rw [perform, packetPutInput, hr]; rfl, hq⟩

theorem Queued.putOutput (h : Queued g s q) (ha : Allowed g s q (.putOutput p)) :
    Keeps g s q (.putOutput p) := by
  obtain ⟨s', hr, hq⟩ := h.put (by decide) (fun e => or_output e.len_lt_max) ha
  exact ⟨none, s', by rw [perform, packetPutOutput, hr]; rfl, hq⟩

theorem Queued.store {i : ℕ} {bs : List UInt8} (h : Queued g s q)
    (ha : Allowed g s q (.store p i bs)) : Keeps g s q (.store p i bs) := by
  obtain ⟨pre, post, ⟨k, kr, hL⟩, hpass, rfl⟩ := h
  obtain ⟨e, he, rfl, hi⟩ := ha
  refine ⟨none, _, rfl, _, _, ⟨k, kr, hL.write (mem_unreleased.mp he).1 hi⟩, fun e' he' => ?_, ?_⟩
  · obtain ⟨a, ha, rfl⟩ := List.mem_map.mp he'
    rw [setData_status]
    exact hpass a ha
  · rw [← List.map_append]
    exact unreleased_map (fun a _ => by rw [setData_status])

/-- A stored unfinished packet is the one that `track` adds. -/
theorem Stored.eq_fresh {m : Mem} {e : Entry} (h : Stored g m e) (hu : e.status = .unfinished)
    (hl : e.len < 2 ^ 14) : e = freshEntry g m e.pos e.len hl := by
  obtain ⟨pos, status, data, hlt⟩ := e
  obtain rfl : status = .unfinished := hu
  have hd := h.data
  unfold freshEntry
  congr 1
  exact hd.symm

theorem Rep.fresh_eq (h : Rep g s pre post) {e : Entry} (he : e ∈ pre ++ post)
    (hu : e.status = .unfinished) (hlen : e.len = len) (hl : len < 2 ^ 14) :
    e = freshEntry g s.mem e.pos len hl := by
  obtain ⟨k, kr, h⟩ := h
  subst hlen
  exact (h.stored e he).eq_fresh hu hl

theorem Queued.new (h : Queued g s q) (ha : Allowed g s q (.new len)) :
    Keeps g s q (.new len) := by
  obtain ⟨pre, post, hrep, hpass, rfl⟩ := h
  obtain ⟨hl, hfit⟩ := ha
  rcases packetNew_spec hrep hl (fun _ => hfit) with ⟨hr, -⟩ | ⟨e, s', hr, hu, hlen, hrep', -, -⟩
  · exact ⟨none, s, hr, pre, post, hrep, hpass, rfl⟩
  · refine ⟨some e.pos, s', hr, pre, post ++ [e], hrep', hpass, ?_⟩
    have hfresh := hrep'.fresh_eq (by simp) hu hlen hl
    rw [track, addFresh, dif_pos hl, ← hfresh, ← List.append_assoc, unreleased_append,
      unreleased_cons (by rw [hu]; decide)]
    rfl

theorem Queued.releaseInput (h : Queued g s q) (ha : Allowed g s q (.releaseInput p))
    (hmark : ¬ releasesAsMark g s (.releaseInput p)) : Keeps g s q (.releaseInput p) := by
  obtain ⟨pre, post, hrep, hpass, rfl⟩ := h
  obtain ⟨mid, e, l₂, rfl, rfl, hst, hmid⟩ := hrep.current_input ha
  have hes := (List.append_assoc pre mid (e :: l₂)).symm
  obtain ⟨hne₁, hne₂⟩ : (∀ e' ∈ pre ++ mid, e'.pos ≠ e.pos) ∧ ∀ e' ∈ l₂, e'.pos ≠ e.pos := by
    obtain ⟨k, kr, hL⟩ := hrep
    exact hL.pos_ne_of_split hes
  have hmax : e.len = 0x3FFF → s.outputReader = e.pos := by
    intro hl
    by_contra ho
    obtain ⟨k, kr, hL⟩ := hrep
    refine hmark ⟨?_, ho⟩
    rw [hL.state_eq (by simp), e.getLen_word, hl]
  refine ⟨none, _, rfl, ?_⟩
  rw [hes, track, remove_unreleased hne₁ hne₂]
  rcases packetReleaseInput_spec hrep hes hmax with ⟨-, hnil, hrep'⟩ | ⟨-, hrep'⟩
  · rw [hnil]
    exact ⟨[], l₂, hrep', by simp, rfl⟩
  · refine ⟨_, _, hrep', fun e' he' => ?_, ?_⟩
    · simp only [List.mem_append, List.mem_singleton] at he'
      rcases he' with (he' | he') | rfl
      · exact hpass e' he'
      · exact hmid e' he'
      · exact Or.inr rfl
    · rw [List.append_assoc, unreleased_append, List.singleton_append, unreleased_cons_skip rfl,
        ← unreleased_append]

theorem Queued.reattachOutput (h : Queued g s q) (ha : Allowed g s q (.reattachOutput p)) :
    Keeps g s q (.reattachOutput p) := by
  obtain ⟨pre, post, hrep, hpass, rfl⟩ := h
  obtain ⟨mid, e, l₂, rfl, rfl, hst, hmid⟩ := hrep.current_input ha
  have hes := (List.append_assoc pre mid (e :: l₂)).symm
  obtain ⟨s', hr, -, -, hrep'⟩ := packetReattachOutput_spec hrep hes hst
  refine ⟨none, s', by rw [perform, hr]; rfl, _, _, hrep', fun e' he' => ?_, ?_⟩
  · simp only [List.mem_append, List.mem_singleton] at he'
    rcases he' with (he' | he') | rfl
    · exact hpass e' he'
    · exact hmid e' he'
    · exact Or.inl rfl
  · obtain ⟨k, kr, hL⟩ := hrep
    rw [track, List.append_assoc, List.singleton_append, ← hL.map_setStatus hes]
    refine unreleased_map (fun a ha => ?_)
    by_cases hp : a.pos = e.pos
    · rw [hL.eq_of_pos ha (by simp) hp, setStatus_same, hst]
      simp
    · rw [setStatus_of_ne hp]

theorem Queued.releaseOutput (h : Queued g s q) (ha : Allowed g s q (.releaseOutput p)) :
    Keeps g s q (.releaseOutput p) := by
  obtain ⟨pre, post, hrep, hpass, rfl⟩ := h
  obtain ⟨e, he, rfl, hst⟩ := hrep.current_output ha.1
  obtain ⟨pre', post', hes, hpre', hrep'⟩ := packetReleaseOutput_spec hrep he ha.2
  have hne : ∀ e' ∈ pre' ++ post', e'.pos ≠ e.pos := by
    obtain ⟨k, kr, hL⟩ := hrep
    exact (hL.pos_ne_of_split (hes.trans (List.nil_append _).symm)).2
  refine ⟨none, _, rfl, pre', post', hrep', fun e' he' => ?_, ?_⟩
  · rw [hpre'] at he'
    exact hpass e' (List.mem_of_mem_tail he')
  · rw [track, hes]
    exact (remove_unreleased (List.forall_mem_nil _) hne).symm

/-! ### `Packet_Resize` -/

/-- What `Packet_Resize` promises.  If it succeeds, the packet has the new length and its data
up to the shorter length, the other packets of the queue are as before, and the walk is as it
has to be.  If it returns `NULL`, the ring is as before. -/
def ResizeKeeps (g : Geometry) (s : Ring) (q : List Entry) (p len : ℕ) : Prop :=
  ∀ r s', packetResize g s p len = some (r, s') →
    match r with
    | none => s' = s
    | some p' => ∃ live, Walks g s' live ∧ remove p' (unreleased live) = remove p q ∧
        ∃ e ∈ q, e.pos = p ∧ ∃ e' ∈ unreleased live, e'.pos = p' ∧ e'.status = .unfinished ∧
          e'.len = len ∧ e'.data.take (min e.len len) = e.data.take (min e.len len)

/-! What holds after `Packet_Resize` of the entry `e`, which lies at its slot alone. -/

section resized

variable {l₁ l₂ : List Entry} {e e' : Entry}

/-- The packet was resized in place. -/
theorem ResizedInPlace.queued (hin : ResizedInPlace g s s' pre l₁ l₂ e e' len)
    (hpass : ∀ a ∈ pre, a.status = .output ∨ a.status = .skip) (hu : e.status = .unfinished)
    (hl : len < 2 ^ 14) (hne₁ : ∀ a ∈ pre ++ l₁, a.pos ≠ e.pos) (hne₂ : ∀ a ∈ l₂, a.pos ≠ e.pos)
    (hr : packetResize g s e.pos len = some (some e'.pos, s')) :
    Keeps g s (unreleased (pre ++ (l₁ ++ e :: l₂))) (.resize e.pos len) ∧
      ResizeKeeps g s (unreleased (pre ++ (l₁ ++ e :: l₂))) e.pos len := by
  obtain ⟨rest, hskip, hrep'⟩ := hin.rep
  have hns : e'.status ≠ .skip := by rw [hin.status]; decide
  have hlist : unreleased (pre ++ (l₁ ++ (e' :: rest ++ l₂))) =
      unreleased (pre ++ l₁) ++ e' :: unreleased l₂ := by
    rw [← List.append_assoc, List.cons_append, unreleased_insert hns, unreleased_append rest,
      unreleased_of_skip hskip, List.nil_append]
  have hold : unreleased (pre ++ (l₁ ++ e :: l₂)) =
      unreleased (pre ++ l₁) ++ e :: unreleased l₂ := by
    rw [← List.append_assoc, unreleased_insert (by rw [hu]; decide)]
  have hmem : e ∈ unreleased (pre ++ (l₁ ++ e :: l₂)) := by
    rw [hold]
    simp
  have hfresh := hrep'.fresh_eq (e := e') (by simp) hin.status hin.length hl
  have hsame : ∀ es : List Entry, (∀ a ∈ es, a.pos ≠ e.pos) →
      (unreleased es).map (refresh g s' e.pos len) = unreleased es := by
    intro es hes
    refine List.map_congr_left (fun a ha => ?_) |>.trans (List.map_id _)
    exact dif_neg (fun hc => hes a (mem_unreleased.mp ha).1 hc.1)
  have hmap : (unreleased (pre ++ (l₁ ++ e :: l₂))).map (refresh g s' e.pos len) =
      unreleased (pre ++ (l₁ ++ (e' :: rest ++ l₂))) := by
    have hre : refresh g s' e.pos len e = e' := by
      rw [hin.pos] at hfresh
      rw [refresh, dif_pos ⟨rfl, hl⟩, hfresh]
    rw [hold, hlist, List.map_append, List.map_cons, hsame _ hne₁, hsame _ hne₂, hre]
  refine ⟨⟨some e'.pos, s', hr, pre, _, hrep', hpass, ?_⟩, fun r s'' hr' => ?_⟩
  · rw [track, if_pos hin.pos, hmap]
  · obtain ⟨rfl, rfl⟩ := Prod.mk.inj (Option.some.inj (hr.symm.trans hr'))
    obtain ⟨k, kr, hL⟩ := hrep'
    refine ⟨_, hL.walks, ?_, e, hmem, rfl, e', ?_, rfl, hin.status, hin.length, hin.data⟩
    · have h₁ : ∀ a ∈ pre ++ l₁, a.pos ≠ e'.pos := by rwa [hin.pos]
      have h₂ : ∀ a ∈ l₂, a.pos ≠ e'.pos := by rwa [hin.pos]
      rw [hlist, ← unreleased_insert hns, remove_unreleased h₁ h₂, ← List.append_assoc pre,
        remove_unreleased hne₁ hne₂]
    · rw [hlist]
      simp

/-- The packet was moved. -/
theorem Relocated.queued (hrel : Relocated g s s' pre l₁ l₂ e e' len)
    (hpass : ∀ a ∈ pre, a.status = .output ∨ a.status = .skip) (hu : e.status = .unfinished)
    (hl : len < 2 ^ 14) (hne₁ : ∀ a ∈ pre ++ l₁, a.pos ≠ e.pos) (hne₂ : ∀ a ∈ l₂, a.pos ≠ e.pos)
    (hr : packetResize g s e.pos len = some (some e'.pos, s')) :
    Keeps g s (unreleased (pre ++ (l₁ ++ e :: l₂))) (.resize e.pos len) ∧
      ResizeKeeps g s (unreleased (pre ++ (l₁ ++ e :: l₂))) e.pos len := by
  have hrep' := hrel.rep
  have hns : e'.status ≠ .skip := by rw [hrel.status]; decide
  have hmem : e ∈ unreleased (pre ++ (l₁ ++ e :: l₂)) :=
    mem_unreleased.mpr ⟨by simp, by rw [hu]; decide⟩
  have hrem : remove e.pos (unreleased (pre ++ (l₁ ++ e :: l₂))) = unreleased (pre ++ l₁ ++ l₂) := by
    rw [← List.append_assoc, remove_unreleased hne₁ hne₂]
  have hlist : unreleased (pre ++ (l₁ ++ e.withStatus .skip :: (l₂ ++ [e']))) =
      unreleased (pre ++ l₁ ++ l₂) ++ [e'] := by
    rw [← List.append_assoc, unreleased_append, unreleased_cons_skip rfl, ← unreleased_append,
      ← List.append_assoc, unreleased_insert hns]
    rfl
  have hne : ∀ a ∈ pre ++ (l₁ ++ e.withStatus .skip :: l₂), a.pos ≠ e'.pos := by
    obtain ⟨k, kr, hL⟩ := hrep'
    have hsplit : pre ++ (l₁ ++ e.withStatus .skip :: (l₂ ++ [e'])) =
        pre ++ (l₁ ++ e.withStatus .skip :: l₂) ++ e' :: [] := by simp
    exact (hL.pos_ne_of_split hsplit).1
  have hmoved : e'.pos ≠ e.pos := (hne (e.withStatus .skip) (by simp)).symm
  have hfresh := hrep'.fresh_eq (e := e') (by simp) hrel.status hrel.length hl
  refine ⟨⟨some e'.pos, s', hr, pre, _, hrep', hpass, ?_⟩, fun r s'' hr' => ?_⟩
  · rw [hlist, track, if_neg hmoved, hrem, addFresh, dif_pos hl, ← hfresh]
  · obtain ⟨rfl, rfl⟩ := Prod.mk.inj (Option.some.inj (hr.symm.trans hr'))
    obtain ⟨k, kr, hL⟩ := hrep'
    refine ⟨_, hL.walks, ?_, e, hmem, rfl, e', ?_, rfl, hrel.status, hrel.length, hrel.data⟩
    · have h₁ : ∀ a ∈ pre ++ l₁ ++ l₂, a.pos ≠ e'.pos := by
        intro a ha
        refine hne a ?_
        simp only [List.mem_append, List.mem_cons] at ha ⊢
        tauto
      have h₂ := remove_unreleased h₁ (List.forall_mem_nil _)
      rw [List.append_nil, unreleased_insert hns] at h₂
      rw [hlist, hrem]
      exact h₂
    · rw [hlist]
      simp

end resized

theorem Queued.resize (h : Queued g s q) (ha : Allowed g s q (.resize p len))
    (hex : ¬ exposesData g s (.resize p len)) :
    Keeps g s q (.resize p len) ∧ ResizeKeeps g s q p len := by
  obtain ⟨pre, post, hrep, hpass, rfl⟩ := h
  obtain ⟨hl, e, he, rfl, hu⟩ := ha
  obtain ⟨hpost, -⟩ := hrep.unfinished_mem hpass he hu
  obtain ⟨l₁, l₂, rfl⟩ := List.append_of_mem hpost
  obtain ⟨⟨hne₁, hne₂⟩, hstate⟩ : ((∀ e' ∈ pre ++ l₁, e'.pos ≠ e.pos) ∧
      ∀ e' ∈ l₂, e'.pos ≠ e.pos) ∧ s.state g e.pos = e.len := by
    obtain ⟨k, kr, hL⟩ := hrep
    refine ⟨hL.pos_ne_of_split (List.append_assoc pre l₁ (e :: l₂)).symm, ?_⟩
    rw [hL.state_eq (by simp), Entry.word, hu]
    exact stateWord_unfinished _
  have hstale : getNextPacket g e.pos len < e.next g → s.nextWriter = e.next g →
      s.state g (getNextPacket g e.pos len) = State.endOfRing := by
    intro h1 h2
    by_contra h3
    refine hex ⟨?_, ?_, h3⟩ <;> rw [hstate]
    · exact h1
    · exact h2
  rcases packetResize_spec hrep hu hl hstale with hr | ⟨e', s', hr, hin | hrel⟩
  · refine ⟨⟨none, s, hr, pre, _, hrep, hpass, rfl⟩, fun r s' hr' => ?_⟩
    obtain ⟨rfl, rfl⟩ := Prod.mk.inj (Option.some.inj (hr.symm.trans hr'))
    rfl
  · exact hin.queued hpass hu hl hne₁ hne₂ hr
  · exact hrel.queued hpass hu hl hne₁ hne₂ hr

end calls

end TimeSwitch.PacketBuffer
