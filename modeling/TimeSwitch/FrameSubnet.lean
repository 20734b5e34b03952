import TimeSwitch.Board

/-! # Remote rules on frames

Two boards of one subnet on a wire that carries frames.  Frames may be lost, repeated and reordered;
other stations may send any frames that do not claim the IP address of one of the boards.  Board A has
a remote rule for a rule of board B.

As the rounds of a board are those of its rules (`round_eq`), what a board says in its frames is what
its rules say in their messages (`spoken`), so A shows only values that B's rule has had
(`frames_show_true`). -/

namespace TimeSwitch.Net

open Rules Stations

/-- The inputs of a round besides the frame. -/
structure Supplies where
  now : UInt32
  request : ℕ → Option SendPacket
  changed : ℕ → Option SendPacket

/-- The round of a board with a received frame. -/
def Supplies.round (c : Supplies) (frame : Option Frame) : FrameRound :=
  ⟨frame, c.now, c.request, c.changed⟩

/-- A board that acts stays within its ARP table. -/
def WithinTables {ι : Type} (board : ι → Board) (x : World ι (Station Network) Frame)
    (e : Action ι Supplies Frame) : Prop :=
  ∀ f ∈ e.message, WithinTable (board e.station).host (x.state e.station) f

instance {ι : Type} (board : ι → Board) (x : World ι (Station Network) Frame)
    (e : Action ι Supplies Frame) : Decidable (WithinTables board x e) :=
  inferInstanceAs (Decidable (∀ f ∈ e.message, _))

/-- Two boards, and B's rule that A shows. -/
structure BoardPair where
  board : Side → Board
  lib : TimeLib
  rule : ℕ
  ip_ne : (board .a).host.ip ≠ (board .b).host.ip
  small : rule < (board .b).table.size

namespace BoardPair

variable (N : BoardPair)

/-- The nodes of the boards. -/
def subnet : Subnet := ⟨fun i => (N.board i).node, N.lib, N.rule, N.ip_ne, N.small⟩

/-- The two boards on the wire; a board may hear all frames.  The datagram in a frame of another
station has neither of their addresses. -/
def stations (registers : ℕ → UInt8) : Stations Side (Station Network) Supplies Frame where
  start := fun _ => Station.init (Network.init registers)
  act := fun i s c f => (N.board i).round N.lib s (c.round f)
  hears := fun _ _ => True
  foreign := fun f => ∀ p ∈ decode f,
    p.2.sourceIP ≠ (N.board .a).host.ip ∧ p.2.sourceIP ≠ (N.board .b).host.ip

instance (registers : ℕ → UInt8) (i : Side) (f : Frame) :
    Decidable ((N.stations registers).hears i f) := inferInstanceAs (Decidable True)

instance (registers : ℕ → UInt8) (f : Frame) : Decidable ((N.stations registers).foreign f) :=
  inferInstanceAs (Decidable (∀ p ∈ decode f, _))

/-- What a frame says is what its datagram says. -/
def Says (i : Side) (s : Station Network) (f : Frame) : Prop :=
  ∀ p ∈ decode f, N.subnet.Says i s.app ⟨none, p.2⟩

/-- The ARP tables hold MAC addresses. -/
def Sized (x : World Side (Station Network) Frame) : Prop := ∀ i, (x.state i).Sized

section steps

variable {N : BoardPair} {registers : ℕ → UInt8} {x : World Side (Station Network) Frame}
  {e : Action Side Supplies Frame}

theorem sized_after (hx : Sized x) : Sized ((N.stations registers).after x e) :=
  after_forall hx (round_eq (N.board e.station) N.lib (x.state e.station)
    (e.input.round e.message) (hx e.station)).1

/-- **The frames of a board say what its rules say.** -/
theorem truthful (hN : N.subnet.Distinct) (hport : N.subnet.OwnPort) (hx : Sized x) :
    (N.stations registers).Truthful N.Says x e := by
  obtain ⟨-, happ, hframes⟩ := round_eq (N.board e.station) N.lib (x.state e.station)
    (e.input.round e.message) (hx e.station)
  obtain ⟨r, hr⟩ : ∃ r, (N.board e.station).rulesRound (x.state e.station)
    (e.input.round e.message) = r := ⟨_, rfl⟩
  rw [hr] at happ hframes
  -- the same round of the rules
  have hround : r = (⟨r.now, r.uplink, r.ready⟩ : Surroundings).round
      (r.packet.map fun d => ⟨none, d⟩) := by
    unfold Surroundings.round
    cases r with
    | mk packet now uplink ready => cases packet <;> rfl
  have hrules : (N.subnet.stations registers).Truthful N.subnet.Says
      ⟨fun i => (x.state i).app, [], []⟩
      ⟨e.station, ⟨r.now, r.uplink, r.ready⟩, r.packet.map fun d => ⟨none, d⟩⟩ :=
    Subnet.truthful hN hport.keepsPort
  intro f hf
  cases hp : decode f with
  | none => exact Or.inl fun p hp' => by cases hp.symm.trans hp'
  | some p =>
      have hmem : p ∈ ((N.board e.station).round N.lib (x.state e.station)
          (e.input.round e.message)).2.filterMap decode := List.mem_filterMap.mpr ⟨f, hf, hp⟩
      rw [hframes] at hmem
      obtain ⟨d, hd, rfl⟩ := List.mem_map.mp hmem
      rw [hround] at happ
      have hafter : ((N.stations registers).outcome x e).1.app = _ := happ
      rw [happ] at hd
      have hsays := hrules _ (List.mem_map_of_mem hd)
      cases hsays with
      | inl h =>
          left
          intro p' hp'
          obtain rfl := Option.some.inj (hp.symm.trans hp')
          cases d <;> exact h
      | inr h =>
          right
          intro p' hp'
          obtain rfl := Option.some.inj (hp.symm.trans hp')
          rw [hafter]
          cases d <;> exact h

/-- A's rule `j` shows the start value, or one that B's rule had. -/
def Shows (N : BoardPair) (j : ℕ) (x : World Side (Station Network) Frame) : Prop :=
  ((x.state .a).app.rule j).value = 0 ∨
    ∃ s, x.Reached .b s ∧ ((x.state .a).app.rule j).value = (s.app.rule N.rule).value

/-- A takes values of B's rule from frames of B only. -/
theorem shows_after {j : ℕ} (hx : Sized x)
    (hremote : ((N.board .a).table.rule j).kind = .remote (N.board .b).host.ip)
    (hport : ((N.board .a).table.rule j).networkPort = N.subnet.port)
    (harr : (N.stations registers).Arrives x e) (hwire : ∀ f ∈ x.wire, Spoken N.Says x f)
    (hshows : N.Shows j x) : N.Shows j ((N.stations registers).after x e) := by
  have hkeep : ((((N.stations registers).after x e).state .a).app.rule j).value =
      ((x.state .a).app.rule j).value → N.Shows j ((N.stations registers).after x e) := by
    intro hv
    unfold Shows
    rw [hv]
    exact hshows.imp_right fun ⟨s, hs, h⟩ => ⟨s, Reached.after hs, h⟩
  cases hside : e.station with
  | a =>
      obtain ⟨-, happ, -⟩ := round_eq (N.board .a) N.lib (x.state .a) (e.input.round e.message)
        (hx .a)
      have hcomputes : ((N.board .a).table.rule j).kind.computes = false := by
        rw [hremote]
        rfl
      have hstate : (((N.stations registers).after x e).state .a).app =
          Rules.round (N.board .a).table N.lib { (x.state .a).app with sent := [] }
            ((N.board .a).rulesRound (x.state .a) (e.input.round e.message)) := by
        have hsame := after_state_same (S := N.stations registers) (x := x) (e := e)
        unfold Stations.outcome at hsame
        rw [hside] at hsame
        rw [hsame]
        exact happ
      have hvalue := Subnet.round_value (L := N.lib) (s := { (x.state .a).app with sent := [] })
        (r := (N.board .a).rulesRound (x.state .a) (e.input.round e.message)) hcomputes
      rw [← hstate] at hvalue
      have htaken : ((Rules.processNetworkPackets (N.board .a).table
          { (x.state .a).app with sent := [] }
          (e.message.bind (broughtDatagram (N.board .a).host))).rule j).value = _ ∨ _ :=
        processNetworkPackets_value hremote
      cases htaken with
      | inl hsame => exact hkeep (hvalue.trans hsame)
      | inr h =>
          obtain ⟨q, hq, hip, hqport, hne, hnew⟩ := h
          -- the datagram is in a frame that arrived
          obtain ⟨f, hf, hbrought⟩ := Option.bind_eq_some_iff.mp hq
          have hdecode : decode f = some (addressedAt f.mem) ∧ (addressedAt f.mem).2 = q := by
            unfold broughtDatagram at hbrought
            split_ifs at hbrought with hfor
            exact ⟨if_pos hfor.2.1, Option.some.inj hbrought⟩
          right
          cases (harr f hf).2 with
          | inl hwired =>
              obtain ⟨i, s, hs, hsays⟩ := hwire f hwired
              obtain ⟨hsrc, htells⟩ := hsays _ hdecode.1
              rw [hdecode.2] at hsrc htells
              have hi : i = .b := by
                cases i with
                | a => exact absurd (hsrc.symm.trans hip) N.ip_ne
                | b => rfl
              subst hi
              exact ⟨s, Reached.after hs,
                (hvalue.trans hnew).trans (htells rfl (hqport.trans hport) hne)⟩
          | inr hforeign =>
              have hother := (hforeign _ hdecode.1).2
              rw [hdecode.2] at hother
              exact absurd hip hother
  | b =>
      apply hkeep
      rw [after_state_of_ne (by rw [hside]; decide)]

end steps

/-- **Remote rules show only true values, on frames.**  In every run in which the boards stay within
their ARP tables, A's remote rule shows 0 or a value that B's rule has had, whatever happens to the
frames on the wire and whatever other stations send. -/
theorem frames_show_true (N : BoardPair) (hN : N.subnet.Distinct) (hown : N.subnet.OwnPort) {j : ℕ}
    (hremote : ((N.board .a).table.rule j).kind = .remote (N.board .b).host.ip)
    (hport : ((N.board .a).table.rule j).networkPort = N.subnet.port) (registers : ℕ → UInt8)
    {es : List (Action Side Supplies Frame)} {x : World Side (Station Network) Frame}
    (h : Run (Guarded (WithinTables N.board) (N.stations registers).Step) (N.stations registers).init
      es x) :
    ((x.state .a).app.rule j).value = 0 ∨
      ∃ s, x.Reached .b s ∧ ((x.state .a).app.rule j).value = (s.app.rule N.rule).value := by
  have hinv : Sized x ∧ (∀ f ∈ x.wire, Spoken N.Says x f) ∧ N.Shows j x := by
    refine h.invariant (I := fun x => Sized x ∧ (∀ f ∈ x.wire, Spoken N.Says x f) ∧ N.Shows j x) ?_
      ⟨fun _ => Station.sized_init _, (fun f hf => by cases hf), Or.inl rfl⟩
    rintro x e x' ⟨hx, hwire, hshows⟩ ⟨-, harr, rfl⟩
    exact ⟨sized_after hx, spoken_after (truthful hN hown hx) hwire,
      shows_after hx hremote hport harr hwire hshows⟩
  exact hinv.2.2

/-- The board 192.168.200.40 shows the rule of the board 192.168.200.41 that has the port 1. -/
def showPair : BoardPair where
  board
    | .a => ⟨ownHost, Subnet.showTable⟩
    | .b => ⟨peerHost, Subnet.portTable⟩
  lib := euTime
  rule := 0
  ip_ne := by decide
  small := by decide

/-- An empty packet for each rule -/
def emptyPackets : ℕ → Option SendPacket := fun _ => some ⟨Usb.packetLenMax, fun _ => 0, le_rfl⟩

/-- B broadcasts its value, and the frame arrives at A, after an ARP answer of B that another station
has made up. -/
def frameEvents : List (Action Side Supplies Frame) :=
  [⟨.b, ⟨5, emptyPackets, emptyPackets⟩, none⟩,
    ⟨.a, ⟨5, emptyPackets, emptyPackets⟩, some (arpFrame ownHost.mac peerHost.mac
      (be16Bytes arpReply) peerHost.mac peerHost.ip ownHost.mac ownHost.ip)⟩,
    ⟨.a, ⟨5, emptyPackets, emptyPackets⟩,
      some (broadcastParcel peerHost 1 [255, 255, 255, 255]).frame⟩]

theorem frames_show_true_on : ∃ x,
    Run (Guarded (WithinTables showPair.board) (showPair.stations fun _ => 0).Step)
      (showPair.stations fun _ => 0).init frameEvents x ∧
    ((x.state .a).app.rule 1).value = 0xFFFFFFFF ∧ (((x.state .a).app.rule 1).value = 0 ∨
      ∃ s, x.Reached .b s ∧ ((x.state .a).app.rule 1).value = (s.app.rule 0).value) := by
  have h : (Run.exec (Run.guardOnce (WithinTables showPair.board) (showPair.stations fun _ => 0).once)
      (showPair.stations fun _ => 0).init frameEvents).any
        (fun x => decide (((x.state .a).app.rule 1).value = 0xFFFFFFFF)) = true := by
    decide +kernel
  obtain ⟨x, hx, hc⟩ := Run.of_exec_any (Run.of_guardOnce (step_of_once _)) h
  exact ⟨x, hx, of_decide_eq_true hc,
    frames_show_true showPair (by decide) (by decide) rfl rfl (fun _ => 0) hx⟩

end BoardPair

end TimeSwitch.Net
