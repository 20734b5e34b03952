import TimeSwitch.Library.Stations
import TimeSwitch.RuleTurns

/-! # Remote rules

Two nodes of one subnet: node A has a remote rule for the rule `rule` of node B, which has the port
`port`.  The datagrams of both may be lost, repeated and reordered, and other stations may send
anything under their own address.

B tells the value of a rule in broadcasts and in answers, both from the port of the rule.  Its
values reach A unless another rule of B speaks from that port: a rule without a port broadcasts from
its index (`broadcastPort`), which may be the port of the rule (`KeepsPort`). -/

namespace TimeSwitch.Rules

/-! ### Datagrams -/

deriving instance DecidableEq for Datagram

/-- A datagram on the wire, with its destination; none is a broadcast. -/
structure Message where
  destinationIP : Option UInt32
  datagram : Datagram
deriving DecidableEq

/-- `SNTP_VERSIONMODECLIENT` -/
def versionModeClient : UInt8 := 0x1B

/-- The body of a request: that of `SNTP_GenerateRequest`, or the value 0 of a remote rule. -/
def RuleData.requestBody (r : RuleData) : List UInt8 :=
  match r.kind with
  | .sntp _ => versionModeClient :: List.replicate 47 0
  | _ => bytes32 0

/-- A node: its table and its address. -/
structure Node where
  table : RuleTable
  ip : UInt32

/-- The datagram of a sending; an answer goes back to the sender of the packet that was
received. -/
def Node.message (n : Node) (packet : Option Datagram) : Sending → Message
  | .broadcast _ port v =>
      ⟨none, ⟨n.ip, port, udpPort, udpHeaderSize + ruleValueSize, bytes32 v⟩⟩
  | .answer _ port v =>
      ⟨packet.map Datagram.sourceIP,
        ⟨n.ip, port, udpPort, udpHeaderSize + ruleValueSize, bytes32 v⟩⟩
  | .request i ip port =>
      ⟨some ip, ⟨n.ip, udpPort, port, udpHeaderSize + (n.table.rule i).requestBody.length,
        (n.table.rule i).requestBody⟩⟩

/-- The inputs of a round besides the packet. -/
structure Surroundings where
  now : UInt32
  uplink : ℕ → Uplink
  ready : ℕ → Bool

/-- The round of a node with a received datagram. -/
def Surroundings.round (c : Surroundings) (m : Option Message) : Round :=
  ⟨m.map Message.datagram, c.now, c.uplink, c.ready⟩

/-- A round of a node: the state after it, and what it puts on the wire. -/
def Node.act (n : Node) (L : TimeLib) (s : Network) (c : Surroundings) (m : Option Message) :
    Network × List Message :=
  let s' := Rules.round n.table L { s with sent := [] } (c.round m)
  (s', s'.sent.map (n.message (m.map Message.datagram)))

/-- Which of the two nodes. -/
inductive Side where
  | a
  | b
deriving DecidableEq

/-- Both nodes, and B's rule that A shows. -/
structure Subnet where
  node : Side → Node
  lib : TimeLib
  rule : ℕ
  ip_ne : (node .a).ip ≠ (node .b).ip
  small : rule < (node .b).table.size

namespace Subnet

variable (N : Subnet)

/-- The port of B's rule. -/
def port : UInt16 := ((N.node .b).table.rule N.rule).networkPort

/-- The two nodes on the wire.  A datagram of another station has neither of their addresses. -/
def stations (registers : ℕ → UInt8) : Stations Side Network Surroundings Message where
  start := fun _ => Network.init registers
  act := fun i => (N.node i).act N.lib
  hears := fun i m => m.destinationIP = some (N.node i).ip ∨
    m.destinationIP = none ∧ m.datagram.sourceIP ≠ (N.node i).ip
  foreign := fun m => m.datagram.sourceIP ≠ (N.node .a).ip ∧ m.datagram.sourceIP ≠ (N.node .b).ip

instance (registers : ℕ → UInt8) (i : Side) (m : Message) :
    Decidable ((N.stations registers).hears i m) :=
  inferInstanceAs (Decidable (_ ∨ _ ∧ _))

instance (registers : ℕ → UInt8) (m : Message) : Decidable ((N.stations registers).foreign m) :=
  inferInstanceAs (Decidable (_ ∧ _))

/-- The non-zero ports of B are pairwise distinct. -/
def Distinct : Prop :=
  ∀ i < (N.node .b).table.size, ∀ j < (N.node .b).table.size,
    ((N.node .b).table.rule i).networkPort ≠ 0 →
    ((N.node .b).table.rule i).networkPort = ((N.node .b).table.rule j).networkPort → i = j

instance : Decidable N.Distinct := by
  unfold Distinct
  infer_instance

end Subnet

/-! ### What a round sends -/

section sent

variable {T : RuleTable} {L : TimeLib} {s : Network} {d : Sending}

/-- `checkRules` sends requests. -/
theorem checkRules_sent {uplink : ℕ → Uplink} (h : d ∈ (checkRules T L uplink s).sent) :
    d ∈ s.sent ∨ ∃ i ip port, d = .request i ip port := by
  refine Sweep.invariant (f := checkRule T L uplink) (s := s.setOk 0 .ok) (n := T.size)
    (fun s' : Network => ∀ d ∈ s'.sent, d ∈ s.sent ∨ ∃ i ip port, d = .request i ip port)
    (fun i s' _ hs' => ?_) (fun d hd => Or.inl hd) d h
  rcases checkRule_cases T L uplink s' i with ⟨-, he⟩ | ⟨-, he⟩ | ⟨-, he⟩
  · rw [he]
    exact hs'
  · rw [he]
    exact hs'
  · intro d hd
    rw [he] at hd
    rcases evaluate_sent T L uplink s' i with hsent | ⟨ip, port, hsent⟩
    · exact hs' d (hsent ▸ hd)
    · have hd' : d ∈ Sending.request i ip port :: s'.sent := hsent ▸ hd
      rcases List.mem_cons.mp hd' with rfl | hd'
      · exact Or.inr ⟨i, ip, port, rfl⟩
      · exact hs' d hd'

/-- `sendChangedRules` broadcasts the values of the local rules that are flagged. -/
theorem sendChangedRules_sent {ready : ℕ → Bool} (n : ℕ)
    (h : d ∈ (sweep (sendChangedRule T ready) n s).sent) :
    d ∈ s.sent ∨ ∃ i < n, d = .broadcast i (broadcastPort T i) (s.rule i).value ∧
      (s.rule i).pending ∧ (T.rule i).isLocal = true ∧ ready i = true := by
  induction n with
  | zero => exact Or.inl h
  | succ n ih =>
      have hone : ∀ (s : Network) (i j : ℕ), j ≠ i →
          (sendChangedRule T ready s i).rule j = s.rule j :=
        fun s i j hj => sendChangedRule_of_ne T ready s hj
      have hrule : (sweep (sendChangedRule T ready) n s).rule n = s.rule n :=
        Sweep.get_ahead hone le_rfl
      rw [sweep] at h
      obtain ⟨s', hs'⟩ : ∃ s', sweep (sendChangedRule T ready) n s = s' := ⟨_, rfl⟩
      rw [hs'] at h hrule ih
      have hearlier : d ∈ s'.sent → d ∈ s.sent ∨ ∃ i < n + 1,
          d = .broadcast i (broadcastPort T i) (s.rule i).value ∧ (s.rule i).pending ∧
            (T.rule i).isLocal = true ∧ ready i = true := by
        intro h'
        rcases ih h' with h' | ⟨i, hi, h'⟩
        · exact Or.inl h'
        · exact Or.inr ⟨i, Nat.lt_succ_of_lt hi, h'⟩
      unfold sendChangedRule at h
      rw [hrule] at h
      split_ifs at h with hp hl hr
      · rw [Network.setOk_sent, Network.send_sent] at h
        rcases List.mem_cons.mp h with rfl | h
        · exact Or.inr ⟨n, Nat.lt_succ_self n, rfl, hp, hl, hr⟩
        · exact hearlier h
      · exact hearlier h
      · exact hearlier h
      · exact hearlier h

/-- A packet is answered if it is a request for a known local rule. -/
theorem processNetworkPackets_sent {packet : Option Datagram}
    (h : d ∈ (processNetworkPackets T s packet).sent) : d ∈ s.sent ∨ ∃ q ∈ packet,
      q.sourcePort = udpPort ∧ ∃ i, T.data.findIdx? (fun r => r.isLocal &&
        r.networkPort == q.destinationPort) = some i ∧ (s.rule i).ok ≠ .unknown ∧
        d = .answer i q.destinationPort (s.rule i).value := by
  rcases processNetworkPackets_cases (T := T) (s := s) packet with
    he | ⟨q, hq, ⟨hsrc, he⟩ | ⟨-, he⟩⟩
  · exact Or.inl (he ▸ h)
  · rcases udpCallbackRequest_cases (T := T) (s := s) q.data q.destinationPort with
      hr | ⟨i, hi, hu, hr⟩
    · rw [he, hr] at h
      exact Or.inl h
    · rw [he, hr, Network.setOk_sent, Network.send_sent] at h
      rcases List.mem_cons.mp h with rfl | h
      · exact Or.inr ⟨q, hq, hsrc, i, hi, hu, rfl⟩
      · exact Or.inl h
  · left
    rw [he] at h
    rcases udpCallbackReply_cases (T := T) (s := s) q.data q.sourceIP q.sourcePort with
      hr | ⟨i, -, ⟨_, _, _, _, _, _, hr | hr⟩ | hr⟩
    · rwa [hr] at h
    · rwa [hr] at h
    · rwa [hr] at h
    · rwa [hr] at h

/-- Broadcasts change no value. -/
theorem sendChangedRules_value (ready : ℕ → Bool) (i : ℕ) :
    ((sendChangedRules T ready s).rule i).value = (s.rule i).value :=
  Sweep.invariant (f := sendChangedRule T ready) (s := s) (n := T.size)
    (fun s' : Network => (s'.rule i).value = (s.rule i).value)
    (fun j s' _ hs' => (sendChangedRule_value T ready s' j i).1.trans hs') rfl

/-- Rules without a result of their own keep their value in `checkRules`. -/
theorem checkRules_value {uplink : ℕ → Uplink} {i : ℕ} (hi : (T.rule i).kind.computes = false) :
    ((checkRules T L uplink s).rule i).value = (s.rule i).value := by
  refine Sweep.invariant (f := checkRule T L uplink) (s := s.setOk 0 .ok) (n := T.size)
    (fun s' : Network => (s'.rule i).value = (s.rule i).value) (fun j s' _ hs' => ?_)
    (Network.setOk_value s 0 .ok i)
  by_cases hj : i = j
  · subst hj
    rcases checkRule_cases T L uplink s' i with ⟨-, he⟩ | ⟨-, he⟩ | ⟨-, he⟩
    · rw [he, Network.setOk_value]
      exact hs'
    · rw [he]
      exact hs'
    · rw [he, Network.settle_same, RuleState.settle_none (evaluate_none.mpr hi)]
      exact hs'
  · rw [checkRule_of_ne T L uplink s' hj]
    exact hs'

theorem takeReply_value_of_ne {i j : ℕ} (hij : i ≠ j) (timer v : UInt32) :
    ((takeReply s j timer v).rule i).value = (s.rule i).value := by
  unfold takeReply
  rw [Network.setRule_of_ne _ _ hij]

/-- A remote rule takes its value from a packet of its address and port. -/
theorem processNetworkPackets_value {packet : Option Datagram} {i : ℕ} {ip : UInt32}
    (hi : (T.rule i).kind = .remote ip) :
    ((processNetworkPackets T s packet).rule i).value = (s.rule i).value ∨ ∃ q ∈ packet,
      q.sourceIP = ip ∧ q.sourcePort = (T.rule i).networkPort ∧ q.sourcePort ≠ udpPort ∧
        ((processNetworkPackets T s packet).rule i).value = le32 q.data 0 := by
  rcases processNetworkPackets_cases (T := T) (s := s) packet with
    he | ⟨q, hq, ⟨-, he⟩ | ⟨hsrc, he⟩⟩
  · exact Or.inl (by rw [he])
  · left
    rw [he]
    rcases udpCallbackRequest_cases (T := T) (s := s) q.data q.destinationPort with
      hr | ⟨j, -, -, hr⟩
    · rw [hr]
    · rw [hr, Network.setOk_value]
      rfl
  · rw [he]
    rcases udpCallbackReply_cases (T := T) (s := s) q.data q.sourceIP q.sourcePort with
      hr | ⟨j, hj, h⟩
    · exact Or.inl (by rw [hr])
    · by_cases hij : i = j
      · subst hij
        rcases h with ⟨_, _, _, _, _, hkind, -⟩ | hr
        · rw [hi] at hkind
          cases hkind
        · have hfound := RuleTable.rule_of_find hj
          rw [Bool.and_eq_true, beq_iff_eq, beq_iff_eq] at hfound
          have hip : (T.rule i).remoteIP = some ip := by
            unfold RuleData.remoteIP
            rw [hi]
          refine Or.inr ⟨q, hq, ?_, hfound.2.symm, hsrc, ?_⟩
          · exact Option.some.inj (hfound.1.symm.trans hip)
          · rw [hr, takeReply, Network.setRule_same]
      · left
        rcases h with ⟨_, _, _, _, _, _, hr | hr⟩ | hr
        · rw [hr]
        · rw [hr, takeReply_value_of_ne hij]
        · rw [hr, takeReply_value_of_ne hij]

end sent

/-! ### What the nodes say -/

namespace Subnet

open Stations

variable (N : Subnet)

/-- B's state when it calls `sendChangedRules`. -/
def checked (x : World Side Network Message) (e : Action Side Surroundings Message) : Network :=
  afterCheck (N.node .b).table N.lib { x.state .b with sent := [] } (e.input.round e.message)

/-- Another rule of B, without a port, would broadcast from the port of B's rule. -/
def Borrows (i : ℕ) : Prop :=
  i ≠ N.rule ∧ ((N.node .b).table.rule i).networkPort = 0 ∧ UInt16.ofNat i = N.port

/-- In a round of B, no other local rule is broadcast from the port of B's rule, and no request to
port 0 is answered for another rule without a port. -/
def KeepsPort (x : World Side Network Message) (e : Action Side Surroundings Message) : Prop :=
  e.station = .b →
    (∀ i < (N.node .b).table.size, N.Borrows i → ((N.node .b).table.rule i).isLocal = true →
      ((N.checked x e).rule i).pending → e.input.ready i = false) ∧
    (N.port = 0 → ∀ m ∈ e.message, m.datagram.sourcePort = udpPort →
      m.datagram.destinationPort = 0 → ∀ i ∈ (N.node .b).table.data.findIdx?
        (fun r => r.isLocal && r.networkPort == 0),
      i = N.rule ∨ ((x.state .b).rule i).ok = .unknown)

instance (i : ℕ) : Decidable (N.Borrows i) := by
  unfold Borrows
  infer_instance

/-- B's rule has a port, and no other local rule of B without a port broadcasts from it. -/
def OwnPort : Prop := N.port ≠ 0 ∧
  ∀ i < (N.node .b).table.size, ((N.node .b).table.rule i).isLocal = true → ¬ N.Borrows i

instance : Decidable N.OwnPort := inferInstanceAs (Decidable (_ ∧ _))

instance (x : World Side Network Message) (e : Action Side Surroundings Message) :
    Decidable (N.KeepsPort x e) := by
  unfold KeepsPort
  infer_instance

/-- A message tells the address of its sender.  If it comes from the port of B's rule, and is not
a request, it tells the value of that rule. -/
def Says (i : Side) (s : Network) (m : Message) : Prop :=
  m.datagram.sourceIP = (N.node i).ip ∧
    (i = .b → m.datagram.sourcePort = N.port → m.datagram.sourcePort ≠ udpPort →
      le32 m.datagram.data 0 = (s.rule N.rule).value)

variable {N} {registers : ℕ → UInt8} {x : World Side Network Message}
  {e : Action Side Surroundings Message}

theorem message_sourceIP (n : Node) (packet : Option Datagram) (d : Sending) :
    (n.message packet d).datagram.sourceIP = n.ip := by
  cases d <;> rfl

/-- A rule of B that speaks from the port of B's rule is that rule, or borrows the port. -/
theorem broadcastPort_eq (hN : N.Distinct) {i : ℕ} (hi : i < (N.node .b).table.size)
    (hp : broadcastPort (N.node .b).table i = N.port) : i = N.rule ∨ N.Borrows i := by
  unfold broadcastPort at hp
  split_ifs at hp with h0
  · exact Or.inl (hN i hi N.rule N.small h0 hp)
  · by_cases hr : i = N.rule
    · exact Or.inl hr
    · exact Or.inr ⟨hr, not_not.mp h0, hp⟩

/-- The rule that answers a request to the port of B's rule. -/
theorem answerer_eq (hN : N.Distinct) (hok : N.KeepsPort x e) (he : e.station = .b) {m : Message}
    (hm : m ∈ e.message) (hsrc : m.datagram.sourcePort = udpPort) {i : ℕ}
    (hi : (N.node .b).table.data.findIdx?
      (fun r => r.isLocal && r.networkPort == m.datagram.destinationPort) = some i)
    (hu : ((x.state .b).rule i).ok ≠ .unknown) (hport : m.datagram.destinationPort = N.port) :
    i = N.rule := by
  have hfound := RuleTable.rule_of_find hi
  rw [Bool.and_eq_true, beq_iff_eq] at hfound
  by_cases h0 : N.port = 0
  · have hdst := hport.trans h0
    rw [hdst] at hi
    exact ((hok he).2 h0 m hm hsrc hdst i hi).resolve_right hu
  · have hlt : i < (N.node .b).table.size := (List.findIdx?_eq_some_iff_getElem.mp hi).1
    have hne : ((N.node .b).table.rule i).networkPort ≠ 0 := by
      rw [hfound.2, hport]
      exact h0
    exact hN i hlt N.rule N.small hne (hfound.2.trans hport)

/-- B's rounds that keep the port are truthful, and so are A's rounds. -/
theorem truthful (hN : N.Distinct) (hok : N.KeepsPort x e) :
    (N.stations registers).Truthful N.Says x e := by
  intro m hm
  obtain ⟨d, hd, rfl⟩ := List.mem_map.mp hm
  rcases hside : e.station with _ | _
  · exact Or.inl ⟨message_sourceIP .., fun h => by cases h⟩
  · have hafter : ((N.stations registers).outcome x e).1 =
        sendChangedRules (N.node .b).table e.input.ready (N.checked x e) := by
      unfold Stations.outcome
      rw [hside]
      rfl
    have hd' : d ∈ (sendChangedRules (N.node .b).table e.input.ready (N.checked x e)).sent := by
      rw [hside] at hd
      exact hd
    rcases sendChangedRules_sent _ hd' with hd' | ⟨i, hi, rfl, hp, hl, hready⟩
    · rcases checkRules_sent hd' with hd' | ⟨i, ip, port, rfl⟩
      · rcases processNetworkPackets_sent hd' with hd' | ⟨q, hq, hsrc, i, hfind, hu, rfl⟩
        · cases hd'
        · -- an answer to a request
          obtain ⟨r, hr, rfl⟩ := Option.map_eq_some_iff.mp hq
          refine Or.inl ⟨rfl, fun _ hport _ => ?_⟩
          obtain rfl := answerer_eq hN hok hside hr hsrc hfind hu hport
          exact le32_bytes32 _
      · exact Or.inl ⟨rfl, fun _ _ hne => absurd rfl hne⟩
    · -- a broadcast
      refine Or.inr ⟨rfl, fun _ hport _ => ?_⟩
      rcases broadcastPort_eq hN hi hport with rfl | hborrow
      · rw [hafter, sendChangedRules_value]
        exact le32_bytes32 _
      · have hno := (hok hside).1 i hi hborrow hl hp
        cases hno.symm.trans hready

/-! ### What A believes -/

/-- A's rule `j` shows the start value, or one that B's rule had. -/
def Shows (N : Subnet) (j : ℕ) (x : World Side Network Message) : Prop :=
  ((x.state .a).rule j).value = 0 ∨
    ∃ s, x.Reached .b s ∧ ((x.state .a).rule j).value = (s.rule N.rule).value

/-- The value of a remote rule after a round. -/
theorem round_value {T : RuleTable} {L : TimeLib} {s : Network} {r : Round} {j : ℕ}
    (hj : (T.rule j).kind.computes = false) : ((round T L s r).rule j).value =
      ((processNetworkPackets T s r.packet).rule j).value := by
  unfold round afterCheck
  rw [sendChangedRules_value, checkRules_value hj]
  rfl

/-- A takes values of B's rule from B only. -/
theorem shows_after {j : ℕ}
    (hremote : ((N.node .a).table.rule j).kind = .remote (N.node .b).ip)
    (hport : ((N.node .a).table.rule j).networkPort = N.port)
    (harr : (N.stations registers).Arrives x e)
    (hwire : ∀ m ∈ x.wire, Spoken N.Says x m) (hx : N.Shows j x) :
    N.Shows j ((N.stations registers).after x e) := by
  have hkeep : ((((N.stations registers).after x e).state .a).rule j).value =
      ((x.state .a).rule j).value → N.Shows j ((N.stations registers).after x e) := by
    intro hv
    unfold Shows
    rw [hv]
    exact hx.imp_right fun ⟨s, hs, h⟩ => ⟨s, Reached.after hs, h⟩
  rcases hside : e.station with _ | _
  · have hcomputes : ((N.node .a).table.rule j).kind.computes = false := by
      rw [hremote]
      rfl
    have hstate : (((N.stations registers).after x e).state .a).rule j =
        (round (N.node .a).table N.lib { x.state .a with sent := [] }
          (e.input.round e.message)).rule j := by
      have hsame := after_state_same (S := N.stations registers) (x := x) (e := e)
      unfold Stations.outcome at hsame
      rw [hside] at hsame
      rw [hsame]
      rfl
    have hvalue := congrArg RuleState.value hstate
    rw [round_value hcomputes] at hvalue
    rcases processNetworkPackets_value (s := { x.state .a with sent := [] }) hremote with
      hsame | ⟨q, hq, hip, hqport, hne, hnew⟩
    · exact hkeep (hvalue.trans hsame)
    · -- the packet was sent by B
      right
      obtain ⟨m, hm, rfl⟩ := Option.map_eq_some_iff.mp hq
      cases (harr m hm).2 with
      | inl hwired =>
          obtain ⟨i, s, hs, hsrc, htells⟩ := hwire m hwired
          have hi : i = .b := by
            cases i with
            | a => exact absurd (hsrc.symm.trans hip) N.ip_ne
            | b => rfl
          subst hi
          exact ⟨s, Reached.after hs, (hvalue.trans hnew).trans (htells rfl (hqport.trans hport) hne)⟩
      | inr hforeign => exact absurd hip hforeign.2
  · apply hkeep
    rw [after_state_of_ne (by rw [hside]; decide)]

/-- **Remote rules show only true values.**  As long as B's rounds keep the port of its rule, A's
remote rule shows 0 or a value that B's rule has had. -/
theorem remote_shows_true (N : Subnet) (hN : N.Distinct) {j : ℕ}
    (hremote : ((N.node .a).table.rule j).kind = .remote (N.node .b).ip)
    (hport : ((N.node .a).table.rule j).networkPort = N.port) (registers : ℕ → UInt8)
    {es : List (Action Side Surroundings Message)}
    (h : Run (Guarded N.KeepsPort (N.stations registers).Step) (N.stations registers).init es x) :
    ((x.state .a).rule j).value = 0 ∨
      ∃ s, x.Reached .b s ∧ ((x.state .a).rule j).value = (s.rule N.rule).value := by
  have hinv : (∀ m ∈ x.wire, Spoken N.Says x m) ∧ N.Shows j x := by
    refine h.invariant (I := fun x => (∀ m ∈ x.wire, Spoken N.Says x m) ∧ N.Shows j x) ?_
      ⟨(fun m hm => by cases hm), Or.inl rfl⟩
    rintro x e x' ⟨hwire, hshows⟩ ⟨hok, harr, rfl⟩
    exact ⟨spoken_after (truthful hN hok) hwire, shows_after hremote hport harr hwire hshows⟩
  exact hinv.2

theorem OwnPort.keepsPort (h : N.OwnPort) : N.KeepsPort x e :=
  fun _ => ⟨fun i hi hborrow hl _ => absurd hborrow (h.2 i hi hl), fun h0 => absurd h0 h.1⟩

/-- If all local rules of B have a port, its rounds keep them. -/
theorem keepsPort_of_ports (hports : ∀ r ∈ (N.node .b).table.data, r.isLocal = true →
    r.networkPort ≠ 0) : N.KeepsPort x e := by
  intro _
  have hrule : ∀ i < (N.node .b).table.size, ((N.node .b).table.rule i).isLocal = true →
      ((N.node .b).table.rule i).networkPort ≠ 0 := by
    intro i hi hl
    refine hports _ ?_ hl
    unfold RuleTable.rule
    rw [List.getD_eq_getElem _ _ hi]
    exact List.getElem_mem hi
  constructor
  · rintro i hi ⟨-, h0, -⟩ hl
    exact absurd h0 (hrule i hi hl)
  · intro _ m _ _ _ i hi
    have hfound := RuleTable.rule_of_find hi
    rw [Bool.and_eq_true, beq_iff_eq] at hfound
    have hlt : i < (N.node .b).table.size := (List.findIdx?_eq_some_iff_getElem.mp hi).1
    exact absurd hfound.2 (hrule i hlt hfound.1)

/-- A remote rule for the port 1 of the station 192.168.200.41. -/
def showTable : RuleTable where
  data := [⟨.logic LogicType.or 0 0 0, 0, 0⟩, ⟨.remote 0x29C8A8C0, 0, 1⟩]
  pos := by decide
  small := by decide

/-- A shows B's rule 0. -/
def subnetOf (table : RuleTable) : Subnet where
  node
    | .a => ⟨showTable, 0x28C8A8C0⟩
    | .b => ⟨table, 0x29C8A8C0⟩
  lib := euTime
  rule := 0
  ip_ne := show (0x28C8A8C0 : UInt32) ≠ 0x29C8A8C0 by decide
  small := table.pos

/-- B switches a rule with the port 1. -/
def portTable : RuleTable where
  data := [⟨.logic LogicType.forceOn 0 0 0, 0, 1⟩]
  pos := by decide
  small := by decide

/-- B switches a rule without a port, behind a rule with the port 1. -/
def indexTable : RuleTable where
  data := [⟨.logic LogicType.or 0 0 0, 0, 1⟩, ⟨.logic LogicType.forceOn 0 0 0, 0, 0⟩]
  pos := by decide
  small := by decide

/-- B's value is broadcast and arrives at A. -/
def broadcastEvents : List (Action Side Surroundings Message) :=
  [⟨.b, ⟨5, fun _ => .sent, fun _ => true⟩, none⟩,
    ⟨.a, ⟨5, fun _ => .sent, fun _ => true⟩, some ⟨none, ⟨0x29C8A8C0, 1, udpPort, 12,
      [255, 255, 255, 255]⟩⟩⟩]

theorem remote_shows_true_on : ∃ x, Run (Guarded (subnetOf portTable).KeepsPort
      ((subnetOf portTable).stations fun _ => 0).Step)
      ((subnetOf portTable).stations fun _ => 0).init broadcastEvents x ∧
    ((x.state .a).rule 1).value = 0xFFFFFFFF ∧ (((x.state .a).rule 1).value = 0 ∨
      ∃ s, x.Reached .b s ∧ ((x.state .a).rule 1).value = (s.rule 0).value) := by
  have h : (Run.exec (Run.guardOnce (subnetOf portTable).KeepsPort
      ((subnetOf portTable).stations fun _ => 0).once)
      ((subnetOf portTable).stations fun _ => 0).init broadcastEvents).any
      (fun x => decide (((x.state .a).rule 1).value = 0xFFFFFFFF)) = true := by
    decide +kernel
  obtain ⟨x, hx, hc⟩ := Run.of_exec_any (Run.of_guardOnce (step_of_once _)) h
  exact ⟨x, hx, of_decide_eq_true hc,
    remote_shows_true (subnetOf portTable) (by decide) rfl rfl (fun _ => 0) hx⟩

/-- B's rule 0 is always 0; its rule 1 broadcasts from its index. -/
theorem not_remote_shows_true : ¬ ∀ (N : Subnet) (j : ℕ) (registers : ℕ → UInt8)
    (es : List (Action Side Surroundings Message)) (x : World Side Network Message), N.Distinct →
    ((N.node .a).table.rule j).kind = .remote (N.node .b).ip →
    ((N.node .a).table.rule j).networkPort = N.port →
    Run (N.stations registers).Step (N.stations registers).init es x →
    ((x.state .a).rule j).value = 0 ∨
      ∃ s, x.Reached .b s ∧ ((x.state .a).rule j).value = (s.rule N.rule).value := by
  intro hall
  have h : (Run.exec ((subnetOf indexTable).stations fun _ => 0).once
      ((subnetOf indexTable).stations fun _ => 0).init broadcastEvents).any
      (fun x => decide (((x.state .a).rule 1).value ≠ 0 ∧ ((x.state .b).rule 0).value = 0 ∧
        ∀ p ∈ x.past, (p.2.rule 0).value = 0)) = true := by
    decide +kernel
  obtain ⟨x, hx, hc⟩ := Run.of_exec_any (step_of_once _) h
  obtain ⟨hne, hnow, hpast⟩ := of_decide_eq_true hc
  rcases hall (subnetOf indexTable) 1 (fun _ => 0) broadcastEvents x (by decide) rfl rfl hx with
    h0 | ⟨s, rfl | hs, hv⟩
  · exact hne h0
  · exact hne (hv.trans hnow)
  · exact hne (hv.trans (hpast _ hs))

end Subnet

end TimeSwitch.Rules
