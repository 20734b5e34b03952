import TimeSwitch.Library.Framing
import TimeSwitch.Usb

/-! # One frame through the receiver

A host frame reaches the receiver as chunks, and the receiver turns them into calls of the packet
buffer.  This module follows one frame `f` through any number of interrupts.  At each point `f` is
`c ++ out ++ pending`: the bytes `c` were read or given back, `out` is the received chunk and
`pending` are the chunks the host has not sent.

The packet buffer appears through two predicates: `Idle st a` (no packet is under construction,
the account of the store is `a`) and `Building st a p L w` (packet `p` of length `L` is under
construction and has the bytes `w` so far).  `BuildLaws` says how the calls change them.
`receive_frame` is the result: a frame ends with the packet that `deliver` describes, and with no
packet if there is none. -/

namespace TimeSwitch.Usb

open Framing

/-! ### Which frames are delivered -/

/-- A frame that is long enough for the filter, accepted by it, and not shorter than it
announces. -/
def Acceptable (f : List UInt8) : Prop :=
  packetLenMin ≤ f.length ∧ 0 < announcedLength f ∧ announcedLength f ≤ f.length

instance (f : List UInt8) : Decidable (Acceptable f) := by unfold Acceptable; infer_instance

/-- The packet for a frame: the frame cut to its announced length. -/
def deliver (f : List UInt8) : Option (List UInt8) :=
  if Acceptable f then some (f.take (announcedLength f)) else none

/-- The chunk `b` is the next one of a frame and `pending` are the others. -/
def Ahead (b : List UInt8) (pending : List (List UInt8)) : Prop :=
  b.length = epSize ∧ pending ≠ [] ∨ b.length < epSize ∧ pending = []

theorem Ahead.last_iff {b : List UInt8} {pending : List (List UInt8)} (h : Ahead b pending) :
    b.length < epSize ↔ pending = [] := by
  rcases h with ⟨hb, hp⟩ | ⟨hb, hp⟩
  · exact ⟨fun hlt => absurd hlt (by omega), fun hc => absurd hc hp⟩
  · exact ⟨fun _ => hp, fun _ => hb⟩

/-- The first chunk of a frame. -/
theorem chunks_ahead (f : List UInt8) :
    ∃ b pending, chunks epSize f = b :: pending ∧ Ahead b pending ∧ f = b ++ pending.flatten ∧
      (pending = [] ∨ ∃ l, pending = chunks epSize l) := by
  have hn : 0 < epSize := by decide
  refine ⟨_, _, chunks_cons hn f, ?_, ?_, ?_⟩
  · by_cases hf : f.length < epSize
    · refine Or.inr ⟨?_, if_pos hf⟩
      rw [List.length_take]
      omega
    · refine Or.inl ⟨?_, ?_⟩
      · rw [List.length_take]
        omega
      · rw [if_neg hf]
        exact chunks_ne_nil hn _
  · by_cases hf : f.length < epSize
    · rw [if_pos hf, List.take_of_length_le hf.le]
      simp
    · rw [if_neg hf, chunks_flatten hn, List.take_append_drop]
  · by_cases hf : f.length < epSize
    · exact Or.inl (if_pos hf)
    · exact Or.inr ⟨_, if_neg hf⟩

/-! ### The store -/

/-- How the calls of the receiver change the store.  `push a w` is the account after the packet
`w` was put into the input chain, and `Drop st a p` allows to release the unfinished packet `p`. -/
structure BuildLaws {σ α : Type} (S : InputStore σ) (push : α → List UInt8 → α)
    (Idle : σ → α → Prop) (Building : σ → α → ℕ → ℕ → List UInt8 → Prop) (Drop : σ → α → ℕ → Prop) :
    Prop where
  new_none : ∀ {st st' a L}, Idle st a → packetLenMin ≤ L → L ≤ packetLenMax →
    S.new st L = some (none, st') → Idle st' a
  new_some : ∀ {st st' a L p}, Idle st a → packetLenMin ≤ L → L ≤ packetLenMax →
    S.new st L = some (some p, st') → Building st' a p L []
  write : ∀ {st a p L w bs}, Building st a p L w → w.length + bs.length ≤ L → bs ≠ [] →
    Building (S.write st (S.dataAddr p + w.length) bs) a p L (w ++ bs)
  put : ∀ {st a p L w}, Building st a p L w → w.length = L →
    ∃ st', S.putInput st p = some st' ∧ Idle st' (push a w)
  drop : ∀ {st a p addr bs}, Drop st a p → Drop (S.write st addr bs) a p
  release : ∀ {st a p L w}, Building st a p L w → w.length < L → Drop st a p →
    Idle (S.releaseInput st p) a

/-- The last chunk of a frame ends a packet that is not complete. -/
def DropsShort (rx : Rx) (b : List UInt8) : Prop :=
  rx.state = .reading ∧ rx.packet ≠ none ∧ b.length < epSize ∧ b.length < rx.bytesRemaining

instance (rx : Rx) (b : List UInt8) : Decidable (DropsShort rx b) := by
  unfold DropsShort; infer_instance

section frame

variable {σ α : Type} {S : InputStore σ} {push : α → List UInt8 → α} {Idle : σ → α → Prop}
  {Building : σ → α → ℕ → ℕ → List UInt8 → Prop} {Drop : σ → α → ℕ → Prop}

/-- The account after a frame. -/
def account (push : α → List UInt8 → α) (a : α) (f : List UInt8) : α :=
  match deliver f with
  | some w => push a w
  | none => a

/-- The receiver has no use for the rest of the frame. -/
structure Ignoring (Idle : σ → α → Prop) (a : α) (f : List UInt8) (st : σ) (rx : Rx) : Prop where
  packet : rx.packet = none
  idle : Idle st a
  remaining : rx.bytesRemaining = 0
  rejected : announcedLength f = 0

/-- The receiver stores the frame in packet `p`, the bytes `c` were read. -/
structure Filling (S : InputStore σ) (Building : σ → α → ℕ → ℕ → List UInt8 → Prop) (a : α)
    (f c : List UInt8) (p : ℕ) (st : σ) (rx : Rx) : Prop where
  packet : rx.packet = some p
  accepted : 0 < announcedLength f
  building : Building st a p (announcedLength f) (c.take (announcedLength f))
  writer : rx.writer = S.dataAddr p + (c.take (announcedLength f)).length
  remaining : rx.bytesRemaining = announcedLength f - c.length

/-- The receiver waits for space, the chunk `rest` is read up to its 24th byte. -/
structure Stalled (Idle : σ → α → Prop) (a : α) (f c rest : List UInt8)
    (pending : List (List UInt8)) (st : σ) (rx : Rx) : Prop where
  state : rx.state = .needspace
  idle : Idle st a
  accepted : 0 < announcedLength f
  long : packetLenMin ≤ f.length
  length : c.length = 24
  buffer : rx.receiveBuffer.take 24 = c
  remaining : rx.bytesRemaining = announcedLength f
  last : rx.last = true ↔ pending = []
  complete : pending = [] → announcedLength f ≤ f.length

/-! ### The parts of the interrupt -/

theorem storeBytes_building (laws : BuildLaws S push Idle Building Drop) {st : σ} {a : α}
    {p L : ℕ} {w bs : List UInt8} (h : Building st a p L w) (hl : w.length + bs.length ≤ L) :
    Building (storeBytes S st (S.dataAddr p + w.length) bs) a p L (w ++ bs) := by
  unfold storeBytes
  split_ifs with hb
  · rw [hb, List.append_nil]
    exact h
  · exact laws.write h hl hb

theorem storeBytes_drop (laws : BuildLaws S push Idle Building Drop) {st : σ} {a : α} {p addr : ℕ}
    {bs : List UInt8} (h : Drop st a p) : Drop (storeBytes S st addr bs) a p := by
  unfold storeBytes
  split_ifs
  · exact h
  · exact laws.drop h

/-- The result of a run that has given the chunk back: the frame goes on, or it is finished. -/
def Advances (S : InputStore σ) (push : α → List UInt8 → α) (Idle : σ → α → Prop)
    (Building : σ → α → ℕ → ℕ → List UInt8 → Prop) (a : α) (f c : List UInt8)
    (pending : List (List UInt8)) (st : σ) (rx : Rx) : Prop :=
  (pending ≠ [] ∧ rx.state = .reading ∧ packetLenMin ≤ f.length ∧
      (Ignoring Idle a f st rx ∨ ∃ p, Filling S Building a f c p st rx)) ∨
    (pending = [] ∧ rx.state = .waiting ∧ rx.packet = none ∧ Idle st (account push a f))

theorem take_readLength (b : List UInt8) (n : ℕ) : b.take (min b.length n) = b.take n := by
  cases Nat.le_total b.length n with
  | inl h => rw [min_eq_left h, List.take_length, List.take_of_length_le h]
  | inr h => rw [min_eq_right h]

/-- `READING` with a packet. -/
theorem rxReading_filling (laws : BuildLaws S push Idle Building Drop) {a : α}
    {f c b : List UInt8} {pending : List (List UInt8)} {p : ℕ} {x y : RxRun σ}
    (h : Filling S Building a f c p x.store x.rx) (hs : x.rx.state = .reading)
    (hout : x.out = some b) (hlen : x.usbLen = b.length) (hf : f = c ++ b ++ pending.flatten)
    (hlast : x.rx.last = true ↔ pending = []) (hlong : packetLenMin ≤ f.length)
    (hdrop : x.rx.last = true → b.length < x.rx.bytesRemaining → Drop x.store a p)
    (hr : rxReading S x = some y) :
    y.out = none ∧ Advances S push Idle Building a f (c ++ b) pending y.store y.rx := by
  obtain ⟨hp, hacc, hbuild, hw, hrem⟩ := h
  obtain ⟨L, hL⟩ : ∃ L, announcedLength f = L := ⟨_, rfl⟩
  rw [hL] at hacc hbuild hw hrem
  have htake : b.take (min b.length (L - c.length)) = b.take (L - c.length) :=
    take_readLength b _
  have hcat : (c ++ b).take L = c.take L ++ b.take (L - c.length) := List.take_append
  have hfit : (c.take L).length + (b.take (L - c.length)).length ≤ L := by
    rw [List.length_take, List.length_take]
    omega
  have hbuild' := storeBytes_building laws hbuild hfit
  rw [← hcat] at hbuild'
  have hlenw : (c.take L).length + min b.length (L - c.length) = ((c ++ b).take L).length := by
    rw [hcat, List.length_append, List.length_take, List.length_take (l := b)]
    omega
  unfold rxReading at hr
  simp only [hout, Option.getD_some, hlen, hrem, htake, hw, hp] at hr
  have hremain : L - c.length - min b.length (L - c.length) = L - (c ++ b).length := by
    rw [List.length_append]
    omega
  rw [hremain] at hr
  by_cases hl : x.rx.last = true
  · rw [if_pos hl] at hr
    have hnil := hlast.mp hl
    have hfb : f = c ++ b := by rw [hf, hnil]; simp
    by_cases hshort : L - (c ++ b).length ≠ 0
    · -- the frame is shorter than announced
      rw [if_pos hshort] at hr
      obtain rfl := Option.some.inj hr
      have hlt : ((c ++ b).take L).length < L := by
        rw [List.length_take]
        omega
      have hd : Drop x.store a p := by
        refine hdrop hl ?_
        rw [hrem]
        rw [List.length_append] at hshort
        omega
      refine ⟨rfl, Or.inr ⟨hnil, rfl, rfl, ?_⟩⟩
      have hno : deliver f = none := by
        refine if_neg (fun hc => ?_)
        have := hc.2.2
        rw [hL, hfb] at this
        omega
      unfold account
      rw [hno]
      exact laws.release hbuild' hlt (storeBytes_drop laws hd)
    · -- the packet is complete
      rw [if_neg hshort] at hr
      obtain ⟨st, hput, rfl⟩ := Option.map_eq_some_iff.mp hr
      have hfull : ((c ++ b).take L).length = L := by
        rw [List.length_take]
        omega
      obtain ⟨st', hput', hidle⟩ := laws.put hbuild' hfull
      obtain rfl := Option.some.inj (hput'.symm.trans hput)
      refine ⟨rfl, Or.inr ⟨hnil, rfl, rfl, ?_⟩⟩
      have hyes : deliver f = some ((c ++ b).take L) := by
        unfold deliver
        rw [if_pos, hL, hfb]
        refine ⟨hlong, by omega, ?_⟩
        rw [hL, hfb]
        omega
      unfold account
      rw [hyes]
      exact hidle
  · rw [if_neg hl] at hr
    obtain rfl := Option.some.inj hr
    refine ⟨rfl, Or.inl ⟨fun hnil => hl (hlast.mpr hnil), hs, hlong, Or.inr ⟨p, ?_⟩⟩⟩
    refine ⟨rfl, by rw [hL]; exact hacc, by rw [hL]; exact hbuild', ?_, by rw [hL]⟩
    rw [hL, ← hlenw]
    exact Nat.add_assoc _ _ _

/-- `READING` without a packet. -/
theorem rxReading_ignoring {a : α} {f c : List UInt8} {pending : List (List UInt8)}
    {x y : RxRun σ} (h : Ignoring Idle a f x.store x.rx) (hs : x.rx.state = .reading)
    (hlast : x.rx.last = true ↔ pending = []) (hlong : packetLenMin ≤ f.length)
    (hr : rxReading S x = some y) :
    y.out = none ∧ Advances S push Idle Building a f c pending y.store y.rx := by
  obtain ⟨hp, hidle, hrem, hrej⟩ := h
  unfold rxReading at hr
  simp only [hrem, Nat.min_zero, List.take_zero, storeBytes, if_true, hp, Nat.sub_zero,
    Nat.add_zero] at hr
  have hno : deliver f = none := if_neg (fun hc => by have := hc.2.1; omega)
  by_cases hl : x.rx.last = true
  · rw [if_pos hl] at hr
    obtain rfl := Option.some.inj hr
    refine ⟨rfl, Or.inr ⟨hlast.mp hl, rfl, rfl, ?_⟩⟩
    unfold account
    rw [hno]
    exact hidle
  · rw [if_neg hl] at hr
    obtain rfl := Option.some.inj hr
    exact ⟨rfl, Or.inl ⟨fun hnil => hl (hlast.mpr hnil), hs, hlong,
      Or.inl ⟨rfl, hidle, rfl, hrej⟩⟩⟩

/-- `NEEDSPACE`, and `READING` behind it if there is space. -/
theorem rxNeedSpace_stalled (laws : BuildLaws S push Idle Building Drop) {a : α}
    {f c b : List UInt8} {pending : List (List UInt8)} {x y : RxRun σ}
    (h : Stalled Idle a f c b pending x.store x.rx) (hout : x.out = some b)
    (hlen : x.usbLen = b.length) (hf : f = c ++ b ++ pending.flatten)
    (hr : (rxNeedSpace S x).bind (fun x => if x.rx.state = .reading then rxReading S x else some x)
      = some y) :
    (y.out = some b ∧ y.enableRX = false ∧ y.rx.packet = none ∧
        Stalled Idle a f c b pending y.store y.rx) ∨
      (y.out = none ∧ Advances S push Idle Building a f (c ++ b) pending y.store y.rx) := by
  obtain ⟨hs, hidle, hacc, hlong, hc, hbuf, hrem, hlast, hcomp⟩ := h
  obtain ⟨hmin, hmax⟩ := announcedLength_bounds hacc.ne'
  obtain ⟨x', hx', hr⟩ := Option.bind_eq_some_iff.mp hr
  unfold rxNeedSpace at hx'
  rw [hrem] at hx'
  rcases hnew : S.new x.store (announcedLength f) with _ | ⟨_ | p, st⟩
  · rw [hnew] at hx'
    cases hx'
  · -- no space
    rw [hnew] at hx'
    obtain rfl := Option.some.inj hx'
    dsimp only at hr
    rw [if_neg (by rw [hs]; decide)] at hr
    obtain rfl := Option.some.inj hr
    exact Or.inl ⟨hout, rfl, rfl, hs, laws.new_none hidle hmin hmax hnew, hacc, hlong, hc, hbuf,
      hrem, hlast, hcomp⟩
  · rw [hnew] at hx'
    obtain rfl := Option.some.inj hx'
    rw [if_pos rfl] at hr
    have h24 : 24 ≤ announcedLength f := le_trans (by decide) hmin
    have hne : c ≠ [] := by
      rintro rfl
      cases hc
    have htake : c.take (announcedLength f) = c := List.take_of_length_le (by omega)
    have hbuild : Building (S.write st (S.dataAddr p) c) a p (announcedLength f) c :=
      laws.write (laws.new_some hidle hmin hmax hnew) (by simpa [hc] using h24) hne
    have hfill : Filling S Building a f c p (S.write st (S.dataAddr p) (x.rx.receiveBuffer.take 24))
        { x.rx with
          packet := some p
          writer := S.dataAddr p + 24
          bytesRemaining := announcedLength f - 24
          state := .reading } := by
      refine ⟨rfl, hacc, ?_, ?_, ?_⟩
      · rw [htake, hbuf]
        exact hbuild
      · rw [htake, hc]
      · rw [hc]
    refine Or.inr (rxReading_filling laws (p := p) ?_ ?_ ?_ ?_ hf ?_ hlong ?_ hr)
    · exact hfill
    · rfl
    · exact hout
    · exact hlen
    · exact hlast
    · -- a single chunk is complete
      intro hl hlt
      have hnil := hlast.mp hl
      have hfl := hcomp hnil
      rw [hf, hnil, List.append_assoc] at hfl
      simp only [List.flatten_nil, List.append_nil, List.length_append, hc] at hfl
      rw [hf, hnil] at hlt
      simp only [List.flatten_nil, List.append_nil] at hlt
      omega

/-! ### The first chunk -/

/-- The receiver before `WAITING` is handled. -/
theorem rxHeader_waiting {st : σ} {rx : Rx} {b : List UInt8} (hs : rx.state = .waiting) :
    rxHeader st rx b = rxWaiting
      ⟨st, { rx with last := decide (b.length < epSize) }, some b, b.length, true, false⟩ := by
  have hn : rx.state ≠ .needspace := by rw [hs]; decide
  simp only [rxHeader, rxStart, if_pos hs, if_neg hn]

/-- The four results of the filter. -/
theorem rxHeader_cases (st : σ) {rx : Rx} (b : List UInt8) (hs : rx.state = .waiting) :
    (b.length < packetLenMin ∧ rxHeader st rx b =
      ⟨st, { rx with last := decide (b.length < epSize) }, none, b.length, true, false⟩) ∨
    (packetLenMin ≤ b.length ∧ b.length < announcedLength b ∧ b.length < epSize ∧
      ∃ buf, rxHeader st rx b = ⟨st, { rx with
        bytesRemaining := announcedLength b
        receiveBuffer := buf
        last := decide (b.length < epSize) }, none, b.length, true, false⟩) ∨
    (packetLenMin ≤ b.length ∧ 0 < announcedLength b ∧
      (b.length < epSize → announcedLength b ≤ b.length) ∧
      ∃ buf, buf.take 24 = b.take 24 ∧ rxHeader st rx b = ⟨st, { rx with
        bytesRemaining := announcedLength b
        receiveBuffer := buf
        last := decide (b.length < epSize)
        state := .needspace }, some (b.drop 24), b.length - 24, true, false⟩) ∨
    (packetLenMin ≤ b.length ∧ announcedLength b = 0 ∧
      ∃ buf rest, rxHeader st rx b = ⟨st, { rx with
        bytesRemaining := 0
        receiveBuffer := buf
        last := decide (b.length < epSize)
        state := .reading }, some rest, b.length, true, false⟩) := by
  have hL : (usbRead24ByteCheckGetLength ⟨b, []⟩).1.getD 0 = announcedLength b := rfl
  rw [rxHeader_waiting hs]
  unfold rxWaiting
  simp only [Option.getD_some, hL]
  by_cases hlong : packetLenMin ≤ b.length
  · have h24 : 24 ≤ b.length := le_trans (by decide) hlong
    simp only [if_pos hlong]
    by_cases hdrop : b.length < announcedLength b ∧ decide (b.length < epSize) = true
    · rw [if_pos hdrop]
      exact Or.inr (Or.inl ⟨hlong, hdrop.1, of_decide_eq_true hdrop.2, _, rfl⟩)
    · rw [if_neg hdrop]
      by_cases hacc : 0 < announcedLength b
      · rw [if_pos hacc, usbRead24Byte_accepts h24 hacc.ne']
        refine Or.inr (Or.inr (Or.inl ⟨hlong, hacc, fun hlt => ?_, _, ?_, rfl⟩))
        · by_contra hc
          exact hdrop ⟨by omega, decide_eq_true hlt⟩
        · refine List.take_left' ?_
          rw [List.length_take]
          omega
      · have h0 : announcedLength b = 0 := by omega
        rw [if_neg hacc, h0]
        exact Or.inr (Or.inr (Or.inr ⟨hlong, rfl, _, _, rfl⟩))
  · rw [if_neg hlong]
    exact Or.inl ⟨by omega, rfl⟩

theorem account_of_none {a : α} {f : List UInt8} (h : ¬ Acceptable f) : account push a f = a := by
  unfold account deliver
  rw [if_neg h]

/-- The start of a frame: the filter decides, and there may be space at once. -/
theorem receive_first (laws : BuildLaws S push Idle Building Drop) {a : α} {f b : List UInt8}
    {pending : List (List UInt8)} {st : σ} {rx : Rx} {y : RxRun σ} (hs : rx.state = .waiting)
    (hp : rx.packet = none) (hidle : Idle st a) (hb : Ahead b pending)
    (hf : f = b ++ pending.flatten) (hr : receive S st rx b = some y) :
    (∃ c rest, b = c ++ rest ∧ y.out = some rest ∧ y.enableRX = false ∧ y.rx.packet = none ∧
        Stalled Idle a f c rest pending y.store y.rx) ∨
      (y.out = none ∧ Advances S push Idle Building a f b pending y.store y.rx) := by
  have hlast : decide (b.length < epSize) = true ↔ pending = [] := by
    rw [decide_eq_true_iff]
    exact hb.last_iff
  have hwait : RxState.waiting ≠ .needspace ∧ RxState.waiting ≠ .reading := by decide
  have hflat : pending = [] → f = b := by
    rintro rfl
    rw [hf]
    simp
  unfold receive at hr
  rcases rxHeader_cases st b hs with ⟨hshort, hx⟩ | ⟨hlong, hL, hlt, buf, hx⟩ |
    ⟨hlong, hacc, hcomp, buf, hbuf, hx⟩ | ⟨hlong, hrej, buf, rest, hx⟩
  · -- too short for the filter
    rw [hx] at hr
    simp only [hs, hwait.1, hwait.2, if_false, Option.bind_some] at hr
    obtain rfl := Option.some.inj hr
    have hnil := hb.last_iff.mp (lt_of_lt_of_le hshort (by decide))
    refine Or.inr ⟨rfl, Or.inr ⟨hnil, rfl, hp, ?_⟩⟩
    rw [account_of_none (fun hc => by have := hc.1; rw [hflat hnil] at this; omega)]
    exact hidle
  · -- the frame announces more than its only chunk has
    rw [hx] at hr
    simp only [hs, hwait.1, hwait.2, if_false, Option.bind_some] at hr
    obtain rfl := Option.some.inj hr
    have hnil := hb.last_iff.mp hlt
    refine Or.inr ⟨rfl, Or.inr ⟨hnil, rfl, hp, ?_⟩⟩
    rw [account_of_none (fun hc => by have := hc.2.2; rw [hflat hnil] at this; omega)]
    exact hidle
  · -- accepted
    have h24 : 24 ≤ b.length := le_trans (by decide) hlong
    have hann : announcedLength f = announcedLength b := by
      rw [hf]
      exact announcedLength_append h24 _
    have htake : (b.take 24).length = 24 := by
      rw [List.length_take]
      omega
    have hcut : b.take 24 ++ b.drop 24 = b := List.take_append_drop 24 b
    rw [hx] at hr
    simp only [if_true] at hr
    have hstalled : Stalled Idle a f (b.take 24) (b.drop 24) pending st { rx with
        bytesRemaining := announcedLength b
        receiveBuffer := buf
        last := decide (b.length < epSize)
        state := .needspace } := by
      refine ⟨rfl, hidle, by omega, ?_, htake, hbuf, hann.symm, hlast, fun hnil => ?_⟩
      · rw [hf, List.length_append]
        omega
      · rw [hann, hflat hnil]
        exact hcomp (hb.last_iff.mpr hnil)
    have hf' : f = b.take 24 ++ b.drop 24 ++ pending.flatten := by rw [hcut, hf]
    rcases rxNeedSpace_stalled laws hstalled rfl (by simp) hf' hr with ⟨ho, he, hpk, hst⟩ |
      ⟨ho, hadv⟩
    · exact Or.inl ⟨_, _, hcut.symm, ho, he, hpk, hst⟩
    · rw [hcut] at hadv
      exact Or.inr ⟨ho, hadv⟩
  · -- rejected
    have h24 : 24 ≤ b.length := le_trans (by decide) hlong
    rw [hx] at hr
    simp only [reduceCtorEq, if_false, Option.bind_some, if_true] at hr
    refine Or.inr (rxReading_ignoring ⟨hp, hidle, rfl, ?_⟩ rfl hlast ?_ hr)
    · rw [hf, announcedLength_append h24, hrej]
    · rw [hf, List.length_append]
      omega

/-- `READING` gives the chunk back, and does not lead to `NEEDSPACE`. -/
theorem rxReading_state {x y : RxRun σ} (hs : x.rx.state = .reading)
    (hr : rxReading S x = some y) : y.out = none ∧ y.rx.state ≠ .needspace := by
  have hw : RxState.waiting ≠ .needspace := by decide
  unfold rxReading at hr
  dsimp only at hr
  by_cases hl : x.rx.last = true
  · rw [if_pos hl] at hr
    split at hr
    · rw [← Option.some.inj hr]
      exact ⟨rfl, hw⟩
    · split at hr
      · rw [← Option.some.inj hr]
        exact ⟨rfl, hw⟩
      · obtain ⟨st, -, rfl⟩ := Option.map_eq_some_iff.mp hr
        exact ⟨rfl, hw⟩
  · rw [if_neg hl] at hr
    rw [← Option.some.inj hr]
    dsimp only
    rw [hs]
    exact ⟨rfl, by decide⟩

/-- The receiver ends in `NEEDSPACE` only after a failed call of `Packet_New`. -/
theorem receive_needspace {st : σ} {rx : Rx} {b : List UInt8} {y : RxRun σ}
    (hr : receive S st rx b = some y) (hy : y.rx.state = .needspace) :
    (rxHeader st rx b).rx.state = .needspace ∧
      S.new (rxHeader st rx b).store (rxHeader st rx b).rx.bytesRemaining =
        some (none, y.store) ∧
      y.rx.bytesRemaining = (rxHeader st rx b).rx.bytesRemaining := by
  unfold receive at hr
  dsimp only at hr
  obtain ⟨x, hx, hr⟩ := Option.bind_eq_some_iff.mp hr
  have hxs : x.rx.state ≠ .reading := fun hread => by
    rw [if_pos hread] at hr
    exact (rxReading_state hread hr).2 hy
  rw [if_neg hxs] at hr
  obtain rfl := Option.some.inj hr
  split_ifs at hx with hs
  · refine ⟨hs, ?_⟩
    unfold rxNeedSpace at hx
    split at hx
    · cases hx
    · rename_i st' hnew
      obtain rfl := Option.some.inj hx
      exact ⟨hnew, rfl⟩
    · rw [← Option.some.inj hx] at hxs
      exact absurd rfl hxs
  · obtain rfl := Option.some.inj hx
    exact absurd hy hs

/-- The first 24 bytes give the chunk back, if the receiver stays in `WAITING`. -/
theorem rxHeader_taken (st : σ) (rx : Rx) (b : List UInt8) :
    (rxHeader st rx b).out = none ∨ (rxHeader st rx b).rx.state ≠ .waiting := by
  by_cases hw : rx.state = .waiting
  · rcases rxHeader_cases st b hw with ⟨-, h⟩ | ⟨-, -, -, buf, h⟩ | ⟨-, -, -, buf, -, h⟩ |
      ⟨-, -, buf, rest, h⟩
    · exact Or.inl (by rw [h])
    · exact Or.inl (by rw [h])
    · exact Or.inr (by rw [h]; exact RxState.noConfusion)
    · exact Or.inr (by rw [h]; exact RxState.noConfusion)
  · have hx : rxHeader st rx b = rxStart st rx b := if_neg hw
    right
    rw [hx]
    exact hw

/-- **A chunk is taken**, unless the receiver ends in `NEEDSPACE`. -/
theorem receive_taken {st : σ} {rx : Rx} {b : List UInt8} {y : RxRun σ}
    (hr : receive S st rx b = some y) : y.out = none ∨ y.rx.state = .needspace := by
  by_cases hy : y.rx.state = .needspace
  · exact Or.inr hy
  refine Or.inl ?_
  unfold receive at hr
  dsimp only at hr
  obtain ⟨x, hx, hr⟩ := Option.bind_eq_some_iff.mp hr
  split_ifs at hr with hread
  · exact (rxReading_state hread hr).1
  · -- the filter has refused the frame
    obtain rfl := Option.some.inj hr
    split_ifs at hx with hs
    · unfold rxNeedSpace at hx
      split at hx
      · cases hx
      · rw [← Option.some.inj hx] at hy
        exact absurd hs hy
      · rw [← Option.some.inj hx] at hread
        exact absurd rfl hread
    · obtain rfl := Option.some.inj hx
      refine (rxHeader_taken st rx b).resolve_right fun hw => ?_
      cases hstate : (rxHeader st rx b).rx.state with
      | waiting => exact hw hstate
      | needspace => exact hs hstate
      | reading => exact hread hstate

theorem rxHeader_store (st : σ) (rx : Rx) (b : List UInt8) : (rxHeader st rx b).store = st := by
  unfold rxHeader rxWaiting rxStart
  dsimp only
  split_ifs <;> rfl

/-! ### The host and the receiver -/

/-- The host's side of the link: the received chunk, the chunks of the current frame that are not
sent, the frame, and the frames whose last chunk was taken by the receiver. -/
structure Host where
  out : Option (List UInt8)
  pending : List (List UInt8)
  frame : List UInt8
  frames : List (List UInt8)

namespace Host

def init : Host := ⟨none, [], [], []⟩

/-- The host begins a frame. -/
def send (h : Host) (f : List UInt8) : Option Host :=
  if h.out = none ∧ h.pending = [] then some { h with pending := chunks epSize f, frame := f }
  else none

/-- A chunk arrives in the free bank of the endpoint. -/
def deliverChunk (h : Host) : Option Host :=
  match h.out, h.pending with
  | none, b :: pending => some { h with out := some b, pending := pending }
  | _, _ => none

/-- The receiver leaves `out`; a bank that is given back may end the frame. -/
def taken (h : Host) (out : Option (List UInt8)) : Host :=
  { h with
    out := out
    frames := if out = none ∧ h.pending = [] then h.frames ++ [h.frame] else h.frames }

theorem send_frames {h h' : Host} {f : List UInt8} (hh : h.send f = some h') :
    h'.frames = h.frames := by
  unfold send at hh
  split_ifs at hh
  rw [← Option.some.inj hh]

theorem deliverChunk_frames {h h' : Host} (hh : h.deliverChunk = some h') :
    h'.frames = h.frames := by
  unfold deliverChunk at hh
  split at hh
  · rw [← Option.some.inj hh]
  · cases hh

end Host

/-- The chunks that are not sent are those of a rest of the frame. -/
def Rest (pending : List (List UInt8)) : Prop := pending = [] ∨ ∃ l, pending = chunks epSize l

/-- What the receiver does with the current frame after the bytes `c`. -/
def Using (S : InputStore σ) (Idle : σ → α → Prop)
    (Building : σ → α → ℕ → ℕ → List UInt8 → Prop) (a : α) (f c : List UInt8) (st : σ) (rx : Rx) :
    Prop :=
  rx.state = .reading ∧ packetLenMin ≤ f.length ∧
    (Ignoring Idle a f st rx ∨ ∃ p, Filling S Building a f c p st rx)

/-- The invariant of host and receiver between two interrupts. -/
inductive LinkInv (S : InputStore σ) (Idle : σ → α → Prop)
    (Building : σ → α → ℕ → ℕ → List UInt8 → Prop) (a : α) (h : Host) (st : σ) (rx : Rx) : Prop
  | resting : rx.state = .waiting → rx.packet = none → Idle st a → h.out = none →
      h.pending = [] → LinkInv S Idle Building a h st rx
  | begun : rx.state = .waiting → rx.packet = none → Idle st a → h.out = none →
      h.pending = chunks epSize h.frame → LinkInv S Idle Building a h st rx
  | first (b : List UInt8) : rx.state = .waiting → rx.packet = none → Idle st a →
      h.out = some b → Ahead b h.pending → Rest h.pending → h.frame = b ++ h.pending.flatten →
      LinkInv S Idle Building a h st rx
  | stalled (c rest : List UInt8) : rx.packet = none → h.out = some rest → Rest h.pending →
      h.frame = c ++ rest ++ h.pending.flatten →
      Stalled Idle a h.frame c rest h.pending st rx → LinkInv S Idle Building a h st rx
  | between (c : List UInt8) : h.out = none → h.pending ≠ [] → Rest h.pending →
      h.frame = c ++ h.pending.flatten → Using S Idle Building a h.frame c st rx →
      LinkInv S Idle Building a h st rx
  | next (c b : List UInt8) : h.out = some b → Ahead b h.pending → Rest h.pending →
      h.frame = c ++ b ++ h.pending.flatten → Using S Idle Building a h.frame c st rx →
      LinkInv S Idle Building a h st rx

namespace LinkInv

variable {a : α} {h h' : Host} {st : σ} {rx : Rx} {f b : List UInt8} {y : RxRun σ}

theorem send (hi : LinkInv S Idle Building a h st rx) (hh : h.send f = some h') :
    LinkInv S Idle Building a h' st rx := by
  unfold Host.send at hh
  split_ifs at hh with hc
  obtain rfl := Option.some.inj hh
  cases hi with
  | resting hs hp hidle ho hpe => exact .begun hs hp hidle ho rfl
  | begun hs hp hidle ho hpe => exact .begun hs hp hidle ho rfl
  | first b hs hp hidle ho _ _ _ => cases ho.symm.trans hc.1
  | stalled c rest _ ho _ _ _ => cases ho.symm.trans hc.1
  | between c _ hne _ _ _ => exact absurd hc.2 hne
  | next c b ho _ _ _ _ => cases ho.symm.trans hc.1

theorem deliverChunk (hi : LinkInv S Idle Building a h st rx) (hh : h.deliverChunk = some h') :
    LinkInv S Idle Building a h' st rx := by
  unfold Host.deliverChunk at hh
  split at hh
  · rename_i b pending ho hpe
    obtain rfl := Option.some.inj hh
    cases hi with
    | resting _ _ _ _ hnil => cases hpe.symm.trans hnil
    | begun hs hp hidle _ hch =>
        obtain ⟨b', p', hcons, hb, hf, hrest⟩ := chunks_ahead h.frame
        obtain ⟨rfl, rfl⟩ := List.cons.inj (hpe.symm.trans (hch.trans hcons))
        exact .first b hs hp hidle rfl hb hrest hf
    | first b' _ _ _ ho' _ _ _ => cases ho.symm.trans ho'
    | stalled c rest _ ho' _ _ _ => cases ho.symm.trans ho'
    | between c _ hne hrest hf hu =>
        obtain ⟨l, hl⟩ := hrest.resolve_left hne
        obtain ⟨b', p', hcons, hb, hl', hrest'⟩ := chunks_ahead l
        obtain ⟨rfl, rfl⟩ := List.cons.inj (hpe.symm.trans (hl.trans hcons))
        refine .next c b rfl hb hrest' ?_ hu
        rw [hf, hpe, List.flatten_cons, List.append_assoc]
    | next c b' ho' _ _ _ _ => cases ho.symm.trans ho'
  · cases hh

/-- The account after the receiver has left `out`. -/
def accountAfter (push : α → List UInt8 → α) (a : α) (h : Host) (out : Option (List UInt8)) : α :=
  if out = none ∧ h.pending = [] then account push a h.frame else a

/-- The receiver gave the chunk back. -/
theorem of_advances {c : List UInt8} (hrest : Rest h.pending)
    (hf : h.pending ≠ [] → h.frame = c ++ h.pending.flatten) (ho : y.out = none)
    (hadv : Advances S push Idle Building a h.frame c h.pending y.store y.rx) :
    LinkInv S Idle Building (accountAfter push a h y.out) (h.taken y.out) y.store y.rx := by
  rcases hadv with ⟨hne, hs, hlong, huse⟩ | ⟨hnil, hs, hp, hidle⟩
  · have ha : accountAfter push a h y.out = a := if_neg (fun hc => hne hc.2)
    rw [ha]
    exact .between c ho hne hrest (hf hne) ⟨hs, hlong, huse⟩
  · have ha : accountAfter push a h y.out = account push a h.frame := if_pos ⟨ho, hnil⟩
    rw [ha]
    exact .resting hs hp hidle ho hnil

/-- The receiver waits for space. -/
theorem of_stalled {c rest : List UInt8} (hrest : Rest h.pending)
    (hf : h.frame = c ++ rest ++ h.pending.flatten) (ho : y.out = some rest)
    (hp : y.rx.packet = none) (hst : Stalled Idle a h.frame c rest h.pending y.store y.rx) :
    LinkInv S Idle Building (accountAfter push a h y.out) (h.taken y.out) y.store y.rx := by
  have ha : accountAfter push a h y.out = a := if_neg (fun hc => by rw [ho] at hc; cases hc.1)
  rw [ha]
  exact .stalled c rest hp ho hrest hf hst

/-- **The interrupt** keeps the invariant; when it takes the last chunk of a frame, the account of
the store changes as `account` says. -/
theorem receive (laws : BuildLaws S push Idle Building Drop)
    (hi : LinkInv S Idle Building a h st rx) (ho : h.out = some b)
    (hdrop : ∀ p, rx.packet = some p → DropsShort rx b → Drop st a p)
    (hr : Usb.receive S st rx b = some y) :
    LinkInv S Idle Building (accountAfter push a h y.out) (h.taken y.out) y.store y.rx := by
  cases hi with
  | resting _ _ _ ho' _ => cases ho.symm.trans ho'
  | begun _ _ _ ho' _ => cases ho.symm.trans ho'
  | first b' hs hp hidle ho' hb hrest hf =>
      obtain rfl := Option.some.inj (ho.symm.trans ho')
      rcases receive_first laws hs hp hidle hb hf hr with ⟨c, rest, rfl, hy, -, hpk, hst⟩ |
        ⟨hy, hadv⟩
      · exact of_stalled hrest hf hy hpk hst
      · exact of_advances hrest (fun _ => hf) hy hadv
  | stalled c rest hp ho' hrest hf hst =>
      obtain rfl := Option.some.inj (ho.symm.trans ho')
      have hs := hst.state
      have hne : rx.state ≠ .waiting := by rw [hs]; decide
      unfold Usb.receive rxHeader rxStart at hr
      simp only [if_neg hne, if_pos hs] at hr
      rcases rxNeedSpace_stalled laws (x := ⟨st, rx, some b, b.length, true, false⟩) hst rfl rfl hf
        hr with ⟨hy, -, hpk, hst'⟩ | ⟨hy, hadv⟩
      · exact of_stalled hrest hf hy hpk hst'
      · exact of_advances hrest (fun _ => hf) hy hadv
  | between c ho' _ _ _ _ => cases ho.symm.trans ho'
  | next c b' ho' hb hrest hf hu =>
      obtain rfl := Option.some.inj (ho.symm.trans ho')
      obtain ⟨hs, hlong, huse⟩ := hu
      have hne : rx.state ≠ .waiting := by rw [hs]; decide
      have hne' : rx.state ≠ .needspace := by rw [hs]; decide
      have hlast : decide (b.length < epSize) = true ↔ h.pending = [] := by
        rw [decide_eq_true_iff]
        exact hb.last_iff
      unfold Usb.receive rxHeader rxStart at hr
      simp only [if_neg hne, if_neg hne', Option.bind_some, if_pos hs] at hr
      rcases huse with hig | ⟨p, hfill⟩
      · have hres : y.out = none ∧
            Advances S push Idle Building a h.frame (c ++ b) h.pending y.store y.rx :=
          rxReading_ignoring ⟨hig.packet, hig.idle, hig.remaining, hig.rejected⟩ hs hlast hlong hr
        exact of_advances hrest (fun _ => hf) hres.1 hres.2
      · obtain ⟨hy, hadv⟩ := rxReading_filling laws (p := p)
          ⟨hfill.packet, hfill.accepted, hfill.building, hfill.writer, hfill.remaining⟩ hs rfl rfl
          hf hlast hlong (fun hl hlt => hdrop p hfill.packet ⟨hs, by rw [hfill.packet]; simp,
            of_decide_eq_true hl, hlt⟩) hr
        exact of_advances hrest (fun _ => hf) hy hadv

end LinkInv

end frame

end TimeSwitch.Usb
