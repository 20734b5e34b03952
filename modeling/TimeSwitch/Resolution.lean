import TimeSwitch.FrameSubnet

/-! # Who learns an address

A node learns an address from ARP answers only.  If the ARP answers on the wire are true, then so are
all entries of the ARP tables of all boards in every run (`addresses_true`).

The answers of `Lib/ARP.c` are no ARP answers, so a node learns an address from another kind of
station only.  On a wire on which no other station answers, no board ever has an entry, and no request
of a remote rule is ever sent (`addresses_never_learnt`): what the boards tell each other, they tell
in broadcasts. -/

namespace TimeSwitch.Net

open Program ByteMemory Rules Stations BoardPair

/-! ### Answers on the wire -/

/-- A frame that tells no other owner of a host part than the true ones. -/
def TellsOwner (Owns : UInt8 → List UInt8 → Prop) (f : Frame) : Prop :=
  IsArpReplyFrame f → Owns f.entry.1 f.entry.2

/-- The used entries of the ARP table are true. -/
def Station.KnowsOwners (Owns : UInt8 → List UInt8 → Prop) (s : Station Network) : Prop :=
  ∀ i, (s.arpTable i).ip ≠ 0 → Owns (s.arpTable i).ip (s.arpTable i).mac

/-- A sending is not the request of a remote rule. -/
def Told : Sending → Prop
  | .request .. => False
  | _ => True

section frames

variable {T : RuleTable} {h : Host} {s : Station Network} {f : Frame}
  {r : Station Network × List Frame} {Owns : UInt8 → List UInt8 → Prop}

theorem Parcel.notReply (p : Parcel) : ¬ IsArpReplyFrame p.frame := by
  have hp : p.In (Frame.mem p.frame) := by
    rw [Parcel.in_iff, ← Parcel.frame_length]
    exact Frame.mem_read _
  rintro ⟨htype, -⟩
  exact absurd (hp.etherType_read.symm.trans htype) (by decide)

theorem arpFrame_notReply {d src op smac tmac : List UInt8} {sip tip : UInt32} (hd : d.length = 6)
    (hsrc : src.length = 6) (hop : op.length = 2) (hs : smac.length = 6) (ht : tmac.length = 6)
    (hne : op ≠ be16Bytes arpReply) : ¬ IsArpReplyFrame (arpFrame d src op smac sip tmac tip) := by
  have hread := Frame.mem_read (arpFrame d src op smac sip tmac tip)
  rw [arpFrame_length hd hsrc hop hs ht] at hread
  rintro ⟨-, hreply⟩
  exact hne ((arpFrame_fields hd hsrc hop hs ht hread).2.1.symm.trans hreply)

/-- A node sends no ARP answer. -/
theorem Received.notReply (hr : Received h T s f r) : ∀ g ∈ r.2, ¬ IsArpReplyFrame g := by
  cases hr with
  | echo g₀ hbrought hrequest hreply =>
      rintro g hg ⟨htype, -⟩
      obtain rfl := List.mem_singleton.mp hg
      exact absurd (hreply.etherType.symm.trans htype) (by decide)
  | arp q hbrought haccepted htype hq =>
      intro g hg
      cases hq with
      | request m' hm hanswer =>
          have hd : (f.mem.read 6 6).length = 6 := Mem.read_length _ _ _
          have ht : (f.mem.read 22 6).length = 6 := Mem.read_length _ _ _
          obtain rfl : g = m'.read 0 42 := List.mem_singleton.mp hg
          rw [hanswer]
          exact arpFrame_notReply hd h.mac_length rfl h.mac_length ht (by decide)
      | _ => cases hg
  | answered =>
      intro g hg
      obtain rfl := List.mem_singleton.mp hg
      exact Parcel.notReply _
  | _ =>
      intro g hg
      cases hg

/-- A new entry is as true as the answer. -/
theorem Station.KnowsOwners.learn {host : UInt8} {mac : List UInt8} (hs : s.KnowsOwners Owns)
    (h : Owns host mac) : (arpLearn s host mac).KnowsOwners Owns := by
  have hentry : ∀ j i, (Function.update s.arpTable j ⟨host, mac⟩ i).ip ≠ 0 →
      Owns (Function.update s.arpTable j ⟨host, mac⟩ i).ip
        (Function.update s.arpTable j ⟨host, mac⟩ i).mac := by
    intro j i hi
    by_cases hij : i = j
    · subst hij
      rw [Function.update_self]
      exact h
    · rw [Function.update_of_ne hij] at hi ⊢
      exact hs i hi
  cases hf : arpFind s host with
  | some j =>
      have hip : (s.arpTable j).ip = host := by
        have := (List.find?_range_eq_some.mp hf).1
        rwa [beq_iff_eq] at this
      rw [arpLearn_some hf, hip]
      exact hentry j
  | none =>
      rw [arpLearn_none hf]
      exact hentry s.writePosition

/-- What a node learns from a frame is as true as the frame. -/
theorem Received.knowsOwners (hr : Received h T s f r) (hf : TellsOwner Owns f)
    (hs : s.KnowsOwners Owns) : r.1.KnowsOwners Owns := by
  cases hr with
  | arp q hbrought haccepted htype hq =>
      cases hq with
      | reply hoperation => exact hs.learn (hf ⟨htype, hoperation⟩)
      | _ => exact hs
  | _ => exact hs

/-- A frame makes a node send no request. -/
theorem Received.told (hr : Received h T s f r) (hs : s.app.sent = []) :
    ∀ d ∈ r.1.app.sent, Told d := by
  cases hr with
  | answered d app v i hbrought happ hrecord =>
      intro c hc
      have hc' : c ∈ ((s.app.send (.answer i d.destinationPort v)).setOk i .ok).sent := hrecord ▸ hc
      rw [Network.setOk_sent, Network.send_sent, hs] at hc'
      rw [List.mem_singleton.mp hc']
      trivial
  | arp q hbrought haccepted htype hq =>
      intro c hc
      rw [hq.app, hs] at hc
      cases hc
  | taken d app hbrought happ hsent =>
      intro c hc
      have hc' : c ∈ app.sent := hc
      rw [hsent, hs] at hc'
      cases hc'
  | _ =>
      intro c hc
      have hc' : c ∈ s.app.sent := hc
      rw [hs] at hc'
      cases hc'

end frames

/-! ### Rounds -/

/-- The next hops of the remote rules have a host part.  The host part 0 is the one of the free
entries. -/
def Board.HostParts (b : Board) : Prop :=
  ∀ r ∈ b.table.data, ∀ ip ∈ r.remoteIP, ipGetHost (b.host.nextHop ip) ≠ 0

instance (b : Board) : Decidable b.HostParts :=
  decidable_of_iff (∀ r ∈ b.table.data, r.remoteIP.all (fun ip => ipGetHost (b.host.nextHop ip) != 0))
    (by simp [Board.HostParts, Option.all_eq_true])

/-- What a board does within a round: its entries stay true, and it sends no ARP answer.  Where no
host part has an owner, but all next hops have a host part, it sends no request of a remote rule. -/
structure Wired.Truthful (b : Board) (Owns : UInt8 → List UInt8 → Prop) (x : Wired) : Prop where
  sized : x.station.Sized
  table : x.station.KnowsOwners Owns
  frames : ∀ g ∈ x.out, ¬ IsArpReplyFrame g
  told : b.HostParts → (∀ host mac, ¬ Owns host mac) → ∀ d ∈ x.station.app.sent, Told d

section rounds

variable {b : Board} {L : TimeLib} {s : Station Network} {r : FrameRound} {x x' : Wired} {i : ℕ}
  {ip : UInt32} {mac : List UInt8} {Owns : UInt8 → List UInt8 → Prop}

theorem Board.HostParts.rule (hb : b.HostParts) (h : (b.table.rule i).remoteIP = some ip) :
    ipGetHost (b.host.nextHop ip) ≠ 0 := by
  by_cases hi : i < b.table.data.length
  · have hrule : b.table.rule i = b.table.data[i] := List.getD_eq_getElem _ _ hi
    apply hb b.table.data[i] (List.getElem_mem hi)
    rw [← hrule]
    exact h
  · have hrule : b.table.rule i = default := List.getD_eq_default _ _ (Nat.le_of_not_lt hi)
    rw [hrule] at h
    cases h

/-- The address that is found belongs to an owner of the host part. -/
theorem Station.KnowsOwners.search (hs : s.KnowsOwners Owns) (hip : ipGetHost ip ≠ 0)
    (h : arpSearchMAC s ip = some mac) : Owns (ipGetHost ip) mac := by
  rw [arpSearchMAC_eq] at h
  obtain ⟨i, hf, rfl⟩ := Option.map_eq_some_iff.mp h
  have hhost := (List.find?_range_eq_some.mp hf).1
  rw [beq_iff_eq] at hhost
  rw [← hhost] at hip ⊢
  exact hs i hip

/-- **A turn** of a board. -/
theorem Emits.truthful (h : Emits b x x') (hx : x.Truthful b Owns) : x'.Truthful b Owns := by
  obtain ⟨hsized, htable, hframes, htold⟩ := hx
  have hsame : ∀ {app : Network}, app.sent = x.station.app.sent →
      b.HostParts → (∀ host mac, ¬ Owns host mac) → ∀ d ∈ app.sent, Told d := by
    intro app hsent hb hnone d hd
    rw [hsent] at hd
    exact htold hb hnone d hd
  have hsend : ∀ {g₀ : Frame}, ¬ IsArpReplyFrame g₀ → ∀ g ∈ [g₀] ++ x.out, ¬ IsArpReplyFrame g := by
    intro g₀ h₀ g hg
    cases List.mem_append.mp hg with
    | inl hg => rwa [List.mem_singleton.mp hg]
    | inr hg => exact hframes g hg
  cases h with
  | nothing app hsent => exact ⟨hsized, htable, hframes, hsame hsent⟩
  | arp app i ip hip hsearch hsent =>
      exact ⟨hsized, htable, hsend (arpFrame_notReply rfl b.host.mac_length rfl b.host.mac_length rfl
        (by decide)), hsame hsent⟩
  | request app i ip mac hmac hip hsearch hsent =>
      refine ⟨hsized, htable, hsend (Parcel.notReply _), fun hb hnone => ?_⟩
      -- the next hop would have an owner
      exact absurd (htable.search (hb.rule hip) hsearch) (hnone _ mac)
  | broadcast app i port v hsent =>
      refine ⟨hsized, htable, hsend (Parcel.notReply _), fun hb hnone d hd => ?_⟩
      have hd' : d ∈ app.sent := hd
      rw [hsent] at hd'
      cases List.mem_cons.mp hd' with
      | inl heq => rw [heq]; trivial
      | inr hd => exact htold hb hnone d hd

/-- **A round** of a board. -/
theorem round_truthful (hsized : s.Sized) (hs : s.KnowsOwners Owns)
    (hr : ∀ f ∈ r.frame, TellsOwner Owns f) :
    Wired.Truthful b Owns ⟨(b.round L s r).1, (b.round L s r).2⟩ := by
  have hreceived : (b.processNetworkPackets { s with app := { s.app with sent := [] } }
      r.frame).Truthful b Owns := by
    cases hframe : r.frame with
    | none => exact ⟨hsized, hs, (fun g hg => by cases hg), fun _ _ d hd => by cases hd⟩
    | some f =>
        have hreceive : Received b.host b.table { s with app := { s.app with sent := [] } } f
            (receiveFrame b.host b.table _ f) := receiveFrame_received
        exact ⟨hreceive.sized hsized, hreceive.knowsOwners (hr f hframe) hs, hreceive.notReply,
          fun _ _ => hreceive.told rfl⟩
  have hchecked : ∀ x : Wired, x.Truthful b Owns → (b.checkRules L r.request x).Truthful b Owns := by
    intro x hx
    unfold Board.checkRules
    refine Sweep.invariant (Wired.Truthful b Owns) (fun i y _ hy => ?_)
      ⟨hx.sized, hx.table, hx.frames, hx.told⟩
    exact (b.checkRule_emits hy.sized).1.truthful hy
  have hsent : ∀ x : Wired, x.Truthful b Owns →
      (b.sendChangedRules r.changed x).Truthful b Owns :=
    fun x hx => Sweep.invariant (Wired.Truthful b Owns)
      (fun i y _ hy => b.sendChangedRule_emits.1.truthful hy) hx
  unfold Board.round
  exact hsent _ (hchecked _ ⟨hreceived.sized, hreceived.table, hreceived.frames, hreceived.told⟩)

end rounds

/-! ### Boards on a wire -/

/-- Boards on a wire on which the ARP answers of other stations are true; a board may hear all
frames. -/
def boards {ι : Type} (board : ι → Board) (L : TimeLib) (registers : ℕ → UInt8)
    (Owns : UInt8 → List UInt8 → Prop) : Stations ι (Station Network) Supplies Frame where
  start := fun _ => Station.init (Network.init registers)
  act := fun i s c f => (board i).round L s (c.round f)
  hears := fun _ _ => True
  foreign := TellsOwner Owns

instance {ι : Type} (board : ι → Board) (L : TimeLib) (registers : ℕ → UInt8)
    (Owns : UInt8 → List UInt8 → Prop) (i : ι) (f : Frame) :
    Decidable ((boards board L registers Owns).hears i f) := inferInstanceAs (Decidable True)

instance {ι : Type} (board : ι → Board) (L : TimeLib) (registers : ℕ → UInt8)
    (Owns : UInt8 → List UInt8 → Prop) [∀ host mac, Decidable (Owns host mac)] (f : Frame) :
    Decidable ((boards board L registers Owns).foreign f) :=
  inferInstanceAs (Decidable (IsArpReplyFrame f → Owns f.entry.1 f.entry.2))

/-- All boards know true addresses only, and no frame on the wire is an ARP answer of a board.  Where
no host part has an owner, but all next hops have a host part, no frame on the wire is a request. -/
structure Addressed {ι : Type} (board : ι → Board) (Owns : UInt8 → List UInt8 → Prop)
    (x : World ι (Station Network) Frame) : Prop where
  sized : ∀ i, (x.state i).Sized
  table : ∀ i, (x.state i).KnowsOwners Owns
  notReply : ∀ f ∈ x.wire, ¬ IsArpReplyFrame f
  told : (∀ i, (board i).HostParts) → (∀ host mac, ¬ Owns host mac) →
    ∀ i, ∀ d ∈ (x.state i).app.sent, Told d
  notRequest : (∀ i, (board i).HostParts) → (∀ host mac, ¬ Owns host mac) →
    ∀ f ∈ x.wire, ∀ p ∈ decode f, p.2.destinationPort = udpPort

section boards

variable {ι : Type} [DecidableEq ι] {board : ι → Board} {L : TimeLib} {registers : ℕ → UInt8}
  {Owns : UInt8 → List UInt8 → Prop} {x : World ι (Station Network) Frame}
  {e : Action ι Supplies Frame}

theorem Addressed.after (harr : (boards board L registers Owns).Arrives x e)
    (hx : Addressed board Owns x) : Addressed board Owns ((boards board L registers Owns).after x e) := by
  have hframe : ∀ f ∈ (e.input.round e.message).frame, TellsOwner Owns f := by
    intro f hf
    cases (harr f hf).2 with
    | inl hwire => exact fun hreply => absurd hreply (hx.notReply f hwire)
    | inr hforeign => exact hforeign
  have hround : Wired.Truthful (board e.station) Owns ⟨_, _⟩ := round_truthful (L := L)
    (hx.sized e.station) (hx.table e.station) hframe
  have hdatagrams : (∀ i, (board i).HostParts) → (∀ host mac, ¬ Owns host mac) →
      ∀ f ∈ ((boards board L registers Owns).outcome x e).2, ∀ p ∈ decode f,
        p.2.destinationPort = udpPort := by
    intro hb hnone f hf p hp
    have hmem : p ∈ ((board e.station).round L (x.state e.station)
        (e.input.round e.message)).2.filterMap decode := List.mem_filterMap.mpr ⟨f, hf, hp⟩
    rw [(round_eq (board e.station) L _ _ (hx.sized e.station)).2.2] at hmem
    obtain ⟨d, hd, rfl⟩ := List.mem_map.mp hmem
    have htold := hround.told (hb e.station) hnone d hd
    cases d with
    | request => cases htold
    | _ => rfl
  constructor
  case sized => exact after_forall hx.sized hround.sized
  case table => exact after_forall hx.table hround.table
  case notReply => exact List.forall_mem_append.mpr ⟨hx.notReply, hround.frames⟩
  case told =>
    exact fun hb hnone => after_forall (P := fun s : Station Network => ∀ d ∈ s.app.sent, Told d)
      (hx.told hb hnone) (hround.told (hb e.station) hnone)
  case notRequest =>
    exact fun hb hnone => List.forall_mem_append.mpr ⟨hx.notRequest hb hnone, hdatagrams hb hnone⟩

variable (board L registers Owns) in
theorem run_addressed {es : List (Action ι Supplies Frame)}
    (h : Run (boards board L registers Owns).Step (boards board L registers Owns).init es x) :
    Addressed board Owns x := by
  refine h.invariant (I := Addressed board Owns) ?_ ?_
  · rintro x e x' hx ⟨harr, rfl⟩
    exact hx.after harr
  · constructor
    case sized => exact fun _ => Station.sized_init _
    case table => exact fun _ _ hi => absurd rfl hi
    case notReply => exact fun f hf => by cases hf
    case told => exact fun _ _ _ d hd => by cases hd
    case notRequest => exact fun _ _ f hf => by cases hf

end boards

/-- **ARP tables are true.**  In every run of any number of boards that stay within their ARP tables,
if the ARP answers of other stations are true, then each MAC address that a board finds for an address
belongs to an owner of its host part, whatever is lost, repeated or reordered. -/
theorem addresses_true {ι : Type} [DecidableEq ι] (board : ι → Board) (L : TimeLib)
    (registers : ℕ → UInt8) (Owns : UInt8 → List UInt8 → Prop) {es : List (Action ι Supplies Frame)}
    {x : World ι (Station Network) Frame}
    (h : Run (Guarded (WithinTables board) (boards board L registers Owns).Step)
      (boards board L registers Owns).init es x) :
    ∀ i ip mac, ipGetHost ip ≠ 0 → arpSearchMAC (x.state i) ip = some mac →
      Owns (ipGetHost ip) mac := by
  intro i ip mac hip hsearch
  have hrun := h.mono fun _ _ _ hstep => hstep.2
  exact ((run_addressed board L registers Owns hrun).table i).search hip hsearch

/-- The host part 41 belongs to one MAC address. -/
def PeerOwns (host : UInt8) (mac : List UInt8) : Prop :=
  host = ipGetHost peerHost.ip ∧ mac = peerHost.mac

instance (host : UInt8) (mac : List UInt8) : Decidable (PeerOwns host mac) :=
  inferInstanceAs (Decidable (_ ∧ _))

/-- A asks for the address of 192.168.200.41, and gets an answer. -/
def answeredEvents : List (Action Side Supplies Frame) :=
  [⟨.a, ⟨5, emptyPackets, emptyPackets⟩, none⟩,
    ⟨.a, ⟨5, fun _ => none, emptyPackets⟩, some (arpFrame ownHost.mac peerHost.mac
      (be16Bytes arpReply) peerHost.mac peerHost.ip ownHost.mac ownHost.ip)⟩]

theorem addresses_true_on : ∃ x,
    Run (Guarded (WithinTables showPair.board)
        (boards showPair.board euTime (fun _ => 0) PeerOwns).Step)
      (boards showPair.board euTime (fun _ => 0) PeerOwns).init answeredEvents x ∧
    arpSearchMAC (x.state .a) peerHost.ip = some peerHost.mac ∧
    PeerOwns (ipGetHost peerHost.ip) peerHost.mac := by
  have h : (Run.exec (Run.guardOnce (WithinTables showPair.board)
      (boards showPair.board euTime (fun _ => 0) PeerOwns).once)
      (boards showPair.board euTime (fun _ => 0) PeerOwns).init answeredEvents).any
        (fun x => decide (arpSearchMAC (x.state .a) peerHost.ip = some peerHost.mac)) = true := by
    decide +kernel
  obtain ⟨x, hx, hc⟩ := Run.of_exec_any (Run.of_guardOnce (step_of_once _)) h
  have hsearch := of_decide_eq_true hc
  exact ⟨x, hx, hsearch, addresses_true showPair.board euTime (fun _ => 0) PeerOwns
    hx .a peerHost.ip peerHost.mac (by decide) hsearch⟩

/-- **Boards among themselves learn no address.**  In every run of any number of boards whose next hops
all have a host part, on a wire without ARP answers of other stations, whatever is lost, repeated or
reordered, no board ever has an entry in its ARP table, so no remote rule ever sends its request; all
datagrams are answers or broadcasts. -/
theorem addresses_never_learnt {ι : Type} [DecidableEq ι] (board : ι → Board) (L : TimeLib)
    (registers : ℕ → UInt8) (hb : ∀ i, (board i).HostParts) {es : List (Action ι Supplies Frame)}
    {x : World ι (Station Network) Frame}
    (h : Run (boards board L registers fun _ _ => False).Step
      (boards board L registers fun _ _ => False).init es x) :
    (∀ i k, ((x.state i).arpTable k).ip = 0) ∧ (∀ i, ∀ d ∈ (x.state i).app.sent, Told d) ∧
      ∀ f ∈ x.wire, ∀ p ∈ decode f, p.2.destinationPort = udpPort := by
  obtain ⟨-, htable, -, htold, hrequest⟩ := run_addressed board L registers _ h
  exact ⟨fun i k => Classical.byContradiction fun hne => htable i k hne, htold hb fun _ _ => id,
    hrequest hb fun _ _ => id⟩

/-- A asks for the address of B, which does not answer; another station asks for it in A's name, and A
gets what B answers. -/
def arpEvents : List (Action Side Supplies Frame) :=
  [⟨.a, ⟨5, emptyPackets, emptyPackets⟩, none⟩,
    ⟨.b, ⟨5, emptyPackets, fun _ => none⟩, some (arpGenerated ownHost peerHost.ip)⟩,
    ⟨.b, ⟨5, emptyPackets, fun _ => none⟩, some (arpFrame Usb.macBroadcast ownHost.mac
      (be16Bytes arpRequest) ownHost.mac ownHost.ip Usb.macBroadcast peerHost.ip)⟩,
    ⟨.a, ⟨5, fun _ => none, emptyPackets⟩, some (arpFrame ownHost.mac peerHost.mac
      (bytes16 arpReply) peerHost.mac peerHost.ip ownHost.mac ownHost.ip)⟩]

theorem showPair_hostParts (i : Side) : (showPair.board i).HostParts := by
  cases i <;> decide

theorem addresses_never_learnt_on : ∃ x,
    Run (boards showPair.board euTime (fun _ => 0) fun _ _ => False).Step
      (boards showPair.board euTime (fun _ => 0) fun _ _ => False).init arpEvents x ∧
    x.wire.length = 2 ∧ (∀ i k, ((x.state i).arpTable k).ip = 0) ∧
      (∀ i, ∀ d ∈ (x.state i).app.sent, Told d) ∧
      ∀ f ∈ x.wire, ∀ p ∈ decode f, p.2.destinationPort = udpPort := by
  have h : (Run.exec (boards showPair.board euTime (fun _ => 0) fun _ _ => False).once
      (boards showPair.board euTime (fun _ => 0) fun _ _ => False).init arpEvents).any
        (fun x => decide (x.wire.length = 2)) = true := by
    decide +kernel
  obtain ⟨x, hx, hc⟩ := Run.of_exec_any (step_of_once _) h
  exact ⟨x, hx, of_decide_eq_true hc,
    addresses_never_learnt showPair.board euTime (fun _ => 0) showPair_hostParts hx⟩

end TimeSwitch.Net
