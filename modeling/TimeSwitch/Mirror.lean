import TimeSwitch.Library.Replica
import TimeSwitch.Notification
import TimeSwitch.RemoteRules

/-! # Mirrored rules

Node A has a remote rule for a rule of node B, and what B sends reaches A in order and without loss.  Then
A's rule follows B's: once A has taken all messages, it has the value that B told last, and that is B's
value whenever the rule is `ok` and no notification was lost (`mirror_follows`).

This needs that no other station asks B for the rule while a change is pending: an answer counts as
notification, but only the station that asked hears it (`mirror_missed`). -/

namespace TimeSwitch.Rules

/-! ### The log of a round -/

section log

variable {T : RuleTable} {L : TimeLib} {l : List Sending} {s : Network} {i : ℕ}

theorem checkRule_behind (uplink : ℕ → Uplink) :
    checkRule T L uplink (s.behind l) i = (checkRule T L uplink s i).behind l := by
  have hsettle : (s.behind l).settle i (evaluate T L uplink (s.behind l) i) =
      (s.settle i (evaluate T L uplink s i)).behind l := by
    cases hk : (T.rule i).kind with
    | sntp | remote =>
        simp only [evaluate, hk, evalRemote]
        cases uplink i <;> rfl
    | _ =>
        simp only [evaluate, hk]
        rfl
  unfold checkRule
  rw [apply_ite (Network.behind l), apply_ite (Network.behind l), hsettle]
  rfl

theorem sendChangedRule_behind (ready : ℕ → Bool) :
    sendChangedRule T ready (s.behind l) i = (sendChangedRule T ready s i).behind l := by
  unfold sendChangedRule
  rw [apply_ite (Network.behind l), apply_ite (Network.behind l), apply_ite (Network.behind l)]
  rfl

/-- What a round does after the packet. -/
def pass (T : RuleTable) (L : TimeLib) (r : Round) (s : Network) : Network :=
  sendChangedRules T r.ready (checkRules T L r.uplink (s.setTime r.now))

/-- A pass does not look at the log. -/
theorem pass_behind (r : Round) : pass T L r (s.behind l) = (pass T L r s).behind l := by
  have hcheck := Sweep.simulates (f := checkRule T L r.uplink) (n := T.size)
    (s := (s.setTime r.now).setOk 0 .ok) (fun _ => True)
    (fun i s _ _ => ⟨trivial, (checkRule_behind (l := l) r.uplink).symm⟩) trivial
  have hsend := Sweep.simulates (f := sendChangedRule T r.ready) (n := T.size)
    (s := checkRules T L r.uplink (s.setTime r.now)) (fun _ => True)
    (fun i s _ _ => ⟨trivial, (sendChangedRule_behind (l := l) r.ready).symm⟩) trivial
  unfold pass
  exact (congrArg (sendChangedRules T r.ready) hcheck.2.symm).trans hsend.2.symm

/-- The log of a round: what the pass sends, the answer to the packet, and the log before. -/
theorem round_log (r : Round) : (round T L s r).sent =
    (pass T L r { processNetworkPackets T { s with sent := [] } r.packet with sent := [] }).sent ++
      ((processNetworkPackets T { s with sent := [] } r.packet).sent ++ s.sent) := by
  have hpacket : processNetworkPackets T s r.packet =
      (processNetworkPackets T { s with sent := [] } r.packet).behind s.sent :=
    processNetworkPackets_behind (s := { s with sent := [] }) (l := s.sent) r.packet
  have hround : round T L s r = pass T L r (processNetworkPackets T s r.packet) := rfl
  rw [hround, hpacket]
  generalize processNetworkPackets T { s with sent := [] } r.packet = p
  have hp : p.behind s.sent = ({ p with sent := [] } : Network).behind (p.sent ++ s.sent) := rfl
  rw [hp, pass_behind]
  rfl

end log

/-! ### The link -/

namespace Subnet

open Replica

variable (N : Subnet)

/-- A hears broadcasts and what is sent to its address. -/
def hears (m : Message) : Bool :=
  m.destinationIP = none ∨ m.destinationIP = some (N.node .a).ip

/-- B keeps its log, and what A hears of B goes into the queue. -/
def mirror : System Network Network Surroundings Message where
  primary := fun s c m => (round (N.node .b).table N.lib s (c.round m),
    ((N.node .b).act N.lib s c m).2.reverse.filter N.hears)
  replica := fun s c m => ((N.node .a).act N.lib s c m).1
  foreign := fun m => m.datagram.sourceIP ≠ (N.node .b).ip

/-- The start: the queue is empty. -/
def linkInit (registers : ℕ → UInt8) : Link Network Network Message :=
  ⟨Network.init registers, Network.init registers, []⟩

/-- The value that a message of B tells about the rule. -/
def tells (m : Message) : Option UInt32 :=
  if m.datagram.sourcePort = N.port then some (le32 m.datagram.data 0) else none

/-- The value that B told last; 0 if it told none. -/
def told (s : Network) : UInt32 := (s.lastSent N.rule).getD 0

/-- B loses no notification in the round, and while a change of the rule is pending only A asks for
it. -/
def KeepsMirror (s : Network) (c : Surroundings) (m : Option Message) : Prop :=
  Announces (N.node .b).table N.lib s (c.round m) ∧
  ∀ n ∈ m, n.datagram.sourcePort = udpPort → n.datagram.destinationPort = N.port →
    (s.rule N.rule).pending → n.datagram.sourceIP = (N.node .a).ip

instance (T : RuleTable) (L : TimeLib) (s : Network) (r : Round) : Decidable (Announces T L s r) := by
  unfold Announces
  infer_instance

instance (s : Network) (c : Surroundings) (m : Option Message) : Decidable (N.KeepsMirror s c m) :=
  inferInstanceAs (Decidable (_ ∧ _))

instance : DecidablePred N.mirror.foreign := fun m =>
  inferInstanceAs (Decidable (m.datagram.sourceIP ≠ (N.node .b).ip))

/-- A message of B; if it comes from the port of the rule, it holds a value. -/
structure FromB (m : Message) : Prop where
  source : m.datagram.sourceIP = (N.node .b).ip
  value : m.datagram.sourcePort = N.port → m.datagram.destinationPort = udpPort ∧
    m.datagram.length = udpHeaderSize + ruleValueSize ∧ m.datagram.data.length = ruleValueSize

/-- What holds of B between two rounds -/
def Honest (s : Network) : Prop := NoneLater (N.node .b).table s ∧ Told (N.node .b).table s

/-! ### What B says -/

section spoken

variable {N} {s : Network} {r : Round} {c : Surroundings} {m : Option Message}

/-- A message with the value of a rule -/
theorem tells_eq {n : Message} {i : ℕ} {v : UInt32}
    (hport : n.datagram.sourcePort = N.port ↔ i = N.rule) (hdata : n.datagram.data = bytes32 v) :
    N.tells n = if i = N.rule then some v else none := by
  unfold tells
  rw [hdata, le32_bytes32]
  exact if_congr hport rfl rfl

/-- The answer to a packet -/
theorem answer_cases (hs : s.sent = []) (packet : Option Datagram) :
    (processNetworkPackets (N.node .b).table s packet).sent = [] ∨ ∃ q ∈ packet,
      q.sourcePort = udpPort ∧ ∃ i < (N.node .b).table.size,
        ((N.node .b).table.rule i).networkPort = q.destinationPort ∧ (s.rule i).ok ≠ .unknown ∧
        (processNetworkPackets (N.node .b).table s packet).sent =
          [.answer i q.destinationPort (s.rule i).value] := by
  rcases processNetworkPackets_cases (T := (N.node .b).table) (s := s) packet with
    he | ⟨q, hq, ⟨hsrc, he⟩ | ⟨-, he⟩⟩
  · left
    rw [he, hs]
  · rcases udpCallbackRequest_cases (T := (N.node .b).table) (s := s) q.data q.destinationPort with
      hr | ⟨i, hi, hu, hr⟩
    · left
      rw [he, hr, hs]
    · right
      have hfound := RuleTable.rule_of_find hi
      rw [Bool.and_eq_true, beq_iff_eq] at hfound
      refine ⟨q, hq, hsrc, i, (List.findIdx?_eq_some_iff_getElem.mp hi).1, hfound.2, hu, ?_⟩
      rw [he, hr, Network.setOk_sent, Network.send_sent, hs]
  · left
    rw [he]
    rcases udpCallbackReply_cases (T := (N.node .b).table) (s := s) q.data q.sourceIP q.sourcePort
      with hr | ⟨i, -, ⟨_, _, _, _, _, _, hr | hr⟩ | hr⟩
    · rw [hr, hs]
    · rw [hr, hs]
    · rw [hr]
      exact hs
    · rw [hr]
      exact hs

/-- A pass sends requests and broadcasts. -/
theorem pass_sent {d : Sending} (hs : s.sent = []) (hd : d ∈ (pass (N.node .b).table N.lib r s).sent) :
    (∃ i ip port, d = .request i ip port) ∨ ∃ i < (N.node .b).table.size,
      ((N.node .b).table.rule i).isLocal = true ∧ ∃ v,
        d = .broadcast i (broadcastPort (N.node .b).table i) v := by
  rcases sendChangedRules_sent _ hd with hd | ⟨i, hi, hv, -, hl, -⟩
  · rcases checkRules_sent hd with hd | hreq
    · rw [Network.setTime_sent, hs] at hd
      cases hd
    · exact Or.inl hreq
  · exact Or.inr ⟨i, hi, hl, _, hv⟩

/-- What A hears of a pass tells what the log says. -/
theorem pass_tells (hN : N.Distinct) (hown : N.OwnPort) (hudp : N.port ≠ udpPort)
    (packet : Option Datagram) (hs : s.sent = []) :
    ∀ d ∈ (pass (N.node .b).table N.lib r s).sent,
      (if N.hears ((N.node .b).message packet d) then N.tells ((N.node .b).message packet d)
        else none) = d.valueOf N.rule := by
  intro d hd
  rcases pass_sent hs hd with ⟨i, ip, port, rfl⟩ | ⟨i, hi, hl, v, rfl⟩
  · have htells : N.tells ((N.node .b).message packet (.request i ip port)) = none :=
      if_neg (Ne.symm hudp)
    rw [htells, ite_self]
    rfl
  · have hheard : N.hears ((N.node .b).message packet
        (.broadcast i (broadcastPort (N.node .b).table i) v)) = true := by
      unfold hears
      exact decide_eq_true (Or.inl rfl)
    rw [if_pos hheard]
    refine tells_eq ⟨fun hport => ?_, ?_⟩ rfl
    · exact (broadcastPort_eq hN hi hport).resolve_right (hown.2 i hi hl)
    · rintro rfl
      exact if_pos hown.1

/-- What A hears of the answer to a packet is what the log says. -/
theorem answer_tells (hN : N.Distinct) (hown : N.OwnPort)
    (hn : (N.node .b).table.Notifies N.rule) (hs : N.Honest s) (hok : N.KeepsMirror s c m) :
    latest N.tells ((((processNetworkPackets (N.node .b).table { s with sent := [] }
        (m.map Message.datagram)).sent.map ((N.node .b).message (m.map Message.datagram))).reverse).filter
          N.hears) (N.told s) =
      ((processNetworkPackets (N.node .b).table { s with sent := [] }
        (m.map Message.datagram)).sent.findSome? (Sending.valueOf N.rule)).getD (N.told s) := by
  rcases answer_cases (N := N) (s := { s with sent := [] }) rfl (m.map Message.datagram) with
    he | ⟨q, hq, hsrc, i, hi, hport, hu, he⟩
  · rw [he]
    rfl
  · obtain ⟨n, hmem, rfl⟩ := Option.map_eq_some_iff.mp hq
    rw [he]
    have hrule : n.datagram.destinationPort = N.port ↔ i = N.rule := by
      constructor
      · intro h
        exact hN i hi N.rule N.small (by rw [hport, h]; exact hown.1) (hport.trans h)
      · rintro rfl
        exact hport.symm
    by_cases hheard : n.datagram.sourceIP = (N.node .a).ip
    · refine latest_log fun d hd => ?_
      obtain rfl := List.mem_singleton.mp hd
      have hhears : N.hears ((N.node .b).message (m.map Message.datagram)
          (.answer i n.datagram.destinationPort (s.rule i).value)) = true := by
        refine decide_eq_true (Or.inr ?_)
        obtain rfl := Option.mem_def.mp hmem
        exact congrArg some hheard
      exact (if_pos hhears).trans (tells_eq hrule rfl)
    · -- the answer goes elsewhere, but A knows the value already
      have hhears : N.hears ((N.node .b).message (m.map Message.datagram)
          (.answer i n.datagram.destinationPort (s.rule i).value)) = false := by
        obtain rfl := Option.mem_def.mp hmem
        refine decide_eq_false ?_
        rintro (h | h)
        · cases h
        · exact hheard (Option.some.inj h)
      have hknown : i = N.rule → (s.rule i).value = N.told s := by
        rintro rfl
        have hpending : ¬ (s.rule N.rule).pending := fun h =>
          hheard (hok.2 n hmem hsrc (hrule.mpr rfl) h)
        have hstate : (s.rule N.rule).ok = .ok := by
          unfold RuleState.pending at hpending
          cases hc : (s.rule N.rule).ok with
          | ok => rfl
          | unknown => exact absurd hc hu
          | changed => exact absurd (Or.inl hc) hpending
          | sendLater => exact absurd (Or.inr hc) hpending
        exact (hs.2 N.rule N.small hn hstate).symm
      rw [List.map_singleton, List.reverse_singleton, List.filter_cons_of_neg (by simp [hhears]),
        List.filter_nil, List.findSome?_singleton]
      show N.told s = (if i = N.rule then some (s.rule i).value else none).getD (N.told s)
      split_ifs with hi
      · exact (hknown hi).symm
      · rfl

/-- What B puts on the wire: the answer to the packet, and what the pass sends. -/
theorem act_messages (s : Network) (c : Surroundings) (m : Option Message) :
    (N.mirror.primary s c m).2 =
      (((processNetworkPackets (N.node .b).table { s with sent := [] }
        (m.map Message.datagram)).sent.map
          ((N.node .b).message (m.map Message.datagram))).reverse.filter N.hears) ++
      (((pass (N.node .b).table N.lib (c.round m)
        { processNetworkPackets (N.node .b).table { s with sent := [] } (m.map Message.datagram) with
          sent := [] }).sent.map
            ((N.node .b).message (m.map Message.datagram))).reverse.filter N.hears) := by
  have hlog := round_log (T := (N.node .b).table) (L := N.lib) (s := { s with sent := [] }) (c.round m)
  rw [List.append_nil] at hlog
  show ((round (N.node .b).table N.lib { s with sent := [] } (c.round m)).sent.map
    ((N.node .b).message (m.map Message.datagram))).reverse.filter N.hears = _
  rw [hlog, List.map_append, List.reverse_append, List.filter_append]
  rfl

/-- **B tells A its value.** -/
theorem primary_tells (hN : N.Distinct) (hown : N.OwnPort) (hudp : N.port ≠ udpPort)
    (hn : (N.node .b).table.Notifies N.rule) (hs : N.Honest s) (hok : N.KeepsMirror s c m) :
    latest N.tells (N.mirror.primary s c m).2 (N.told s) =
      N.told (N.mirror.primary s c m).1 := by
  have hlog := round_log (T := (N.node .b).table) (L := N.lib) (s := s) (c.round m)
  rw [act_messages, latest_append, answer_tells hN hown hn hs hok,
    latest_log (pass_tells hN hown hudp (m.map Message.datagram) rfl)]
  show _ = ((round (N.node .b).table N.lib s (c.round m)).lastSent N.rule).getD 0
  unfold Network.lastSent
  rw [hlog, List.findSome?_append, List.findSome?_append, Option.getD_or, Option.getD_or]
  rfl

theorem message_fromB (hudp : N.port ≠ udpPort) (packet : Option Datagram) (d : Sending) :
    N.FromB ((N.node .b).message packet d) := by
  cases d with
  | request i ip port => exact ⟨rfl, fun h => absurd h.symm hudp⟩
  | broadcast i port v => exact ⟨rfl, fun _ => ⟨rfl, rfl, rfl⟩⟩
  | answer i port v => exact ⟨rfl, fun _ => ⟨rfl, rfl, rfl⟩⟩

/-- A round keeps B honest. -/
theorem primary_honest (hs : N.Honest s) (hok : N.KeepsMirror s c m) :
    N.Honest (N.mirror.primary s c m).1 :=
  ⟨hs.1.round (c.round m), (told_round hs.1 hs.2 (c.round m)).mpr hok.1⟩

end spoken

/-! ### What A shows -/

section shown

variable {N} {t : Network} {c : Surroundings} {m : Option Message} {j : ℕ}

/-- Foreign messages do not change A's rule. -/
theorem replica_foreign (hj : ((N.node .a).table.rule j).kind = .remote (N.node .b).ip)
    (hm : ∀ n ∈ m, n.datagram.sourceIP ≠ (N.node .b).ip) :
    ((N.mirror.replica t c m).rule j).value = (t.rule j).value := by
  have hcomputes : ((N.node .a).table.rule j).kind.computes = false := by
    rw [hj]
    rfl
  have hvalue := round_value (L := N.lib) (s := { t with sent := [] }) (r := c.round m) hcomputes
  refine hvalue.trans ?_
  have htaken : ((processNetworkPackets (N.node .a).table { t with sent := [] }
      (c.round m).packet).rule j).value = _ ∨ _ := processNetworkPackets_value hj
  rcases htaken with h | ⟨q, hq, hip, -⟩
  · exact h
  · obtain ⟨n, hn, rfl⟩ := Option.map_eq_some_iff.mp hq
    exact absurd hip (hm n hn)

/-- **A believes B.** -/
theorem replica_takes (hj : ((N.node .a).table.rule j).kind = .remote (N.node .b).ip)
    (hfind : (N.node .a).table.data.findIdx? (fun r => r.remoteIP == some (N.node .b).ip &&
      r.networkPort == N.port) = some j) (hudp : N.port ≠ udpPort) {n : Message} (hn : N.FromB n) :
    ((N.mirror.replica t c (some n)).rule j).value = (N.tells n).getD (t.rule j).value := by
  have hcomputes : ((N.node .a).table.rule j).kind.computes = false := by
    rw [hj]
    rfl
  have hvalue := round_value (L := N.lib) (s := { t with sent := [] }) (r := c.round (some n)) hcomputes
  refine hvalue.trans ?_
  unfold tells
  split_ifs with hport
  · obtain ⟨hdst, hlen, hdata⟩ := hn.value hport
    have hreply : processNetworkPackets (N.node .a).table { t with sent := [] } (some n.datagram) =
        takeReply { t with sent := [] } j timerOff (le32 n.datagram.data 0) := by
      unfold processNetworkPackets udpProcessPacket udpCallbackReply
      dsimp only
      rw [if_neg (by rw [hlen, hdata]; exact lt_irrefl _), if_neg (by rw [hport]; exact hudp),
        if_pos hdst, hn.source, hport, hfind]
      simp only [hj]
      rw [if_neg (by rw [hdata]; exact fun h => h rfl)]
    show ((processNetworkPackets (N.node .a).table { t with sent := [] }
      (some n.datagram)).rule j).value = _
    rw [hreply, takeReply, Network.setRule_same]
    rfl
  · have htaken : ((processNetworkPackets (N.node .a).table { t with sent := [] }
        (some n.datagram)).rule j).value = _ ∨ _ := processNetworkPackets_value hj
    rcases htaken with h | ⟨q, hq, -, hqport, -⟩
    · exact h
    · cases hq
      have hfound := RuleTable.rule_of_find hfind
      rw [Bool.and_eq_true, beq_iff_eq, beq_iff_eq] at hfound
      exact absurd (hqport.trans hfound.2) hport

end shown

theorem mirror_laws {N : Subnet} (hN : N.Distinct) (hown : N.OwnPort) (hudp : N.port ≠ udpPort)
    (hn : (N.node .b).table.Notifies N.rule) {j : ℕ}
    (hj : ((N.node .a).table.rule j).kind = .remote (N.node .b).ip)
    (hfind : (N.node .a).table.data.findIdx? (fun r => r.remoteIP == some (N.node .b).ip &&
      r.networkPort == N.port) = some j) :
    N.mirror.Laws N.tells N.told (fun t => (t.rule j).value) N.Honest N.FromB N.KeepsMirror where
  keeps := fun _ _ _ hs hok => primary_honest hs hok
  sends := fun s c m _ _ n hmem => by
    obtain ⟨d, -, rfl⟩ := List.mem_map.mp (List.mem_reverse.mp (List.mem_filter.mp hmem).1)
    exact message_fromB hudp _ d
  primary := fun _ _ _ hs hok => primary_tells hN hown hudp hn hs hok
  replica := fun _ _ _ hm => replica_foreign hj hm
  take := fun _ _ _ hm => replica_takes hj hfind hudp hm

/-- **Mirrored rules.**  B's messages reach A in order and without loss; everything else on the network is
arbitrary.  In every run in which B loses no notification and only A asks for the rule while a change of it
is pending: the messages on their way bring A's rule to the value that B told last.  So when the rule is
`ok` and none of these messages tells of it, both rules have the same value. -/
theorem mirror_follows (N : Subnet) (hN : N.Distinct) (hown : N.OwnPort) (hudp : N.port ≠ udpPort)
    (hn : (N.node .b).table.Notifies N.rule) {j : ℕ}
    (hj : ((N.node .a).table.rule j).kind = .remote (N.node .b).ip)
    (hfind : (N.node .a).table.data.findIdx? (fun r => r.remoteIP == some (N.node .b).ip &&
      r.networkPort == N.port) = some j) (registers : ℕ → UInt8)
    {es : List (Event Surroundings Message)} {x : Link Network Network Message}
    (h : Run (Guarded (Allowed N.KeepsMirror) N.mirror.Step) (linkInit registers) es x) :
    latest N.tells x.queue (x.replica.rule j).value = N.told x.primary ∧
      ((x.primary.rule N.rule).ok = .ok → (∀ m ∈ x.queue, N.tells m = none) →
        (x.replica.rule j).value = (x.primary.rule N.rule).value) := by
  have hstart : Follows N.tells N.told (fun t => (t.rule j).value) N.Honest N.FromB
      (linkInit registers) :=
    ⟨⟨(fun _ _ h => by cases h), fun _ _ _ h => by cases h⟩, (fun m hm => by cases hm), rfl⟩
  obtain ⟨⟨-, htold⟩, -, hvalue⟩ := run_follows (mirror_laws hN hown hudp hn hj hfind) hstart h
  refine ⟨hvalue, fun hok hquiet => ?_⟩
  rw [latest_quiet hquiet] at hvalue
  exact hvalue.trans (htold N.rule N.small hn hok)

/-- A mirrors a constant of B. -/
def mirrorPair : Subnet where
  node
    | .a => ⟨⟨[⟨.logic LogicType.forceOff 0 0 0, 0, 0⟩, ⟨.remote 0x29C8A8C0, 0, 7⟩], by decide,
        by decide⟩, 0x28C8A8C0⟩
    | .b => ⟨⟨[⟨.logic LogicType.forceOff 0 0 0, 0, 0⟩, ⟨.logic LogicType.forceOn 0 0 0, 0, 7⟩],
        by decide, by decide⟩, 0x29C8A8C0⟩
  lib := euTime
  rule := 1
  ip_ne := by decide
  small := by decide

/-- Surroundings at the time 5. -/
def atFive (ready : Bool) : Surroundings := ⟨5, fun _ => .sent, fun _ => ready⟩

theorem mirror_follows_constant : ∃ x, Run (Guarded (Allowed mirrorPair.KeepsMirror)
      mirrorPair.mirror.Step) (linkInit fun _ => 0)
      [.primary (atFive true) none, .take (atFive true)] x ∧
    (x.primary.rule 1).value = 0xFFFFFFFF ∧ (x.replica.rule 1).value = (x.primary.rule 1).value := by
  have h : (Run.exec (Run.guardOnce (Allowed mirrorPair.KeepsMirror) mirrorPair.mirror.once)
      (linkInit fun _ => 0) [.primary (atFive true) none, .take (atFive true)]).any
      (fun x => decide ((x.primary.rule 1).value = 0xFFFFFFFF ∧ (x.primary.rule 1).ok = .ok ∧
        x.queue = [])) = true := by
    decide +kernel
  obtain ⟨x, hx, hc⟩ := Run.of_exec_any (Run.of_guardOnce (System.step_of_once _)) h
  obtain ⟨hvalue, hok, hqueue⟩ := of_decide_eq_true hc
  refine ⟨x, hx, hvalue, (mirror_follows mirrorPair (by decide) (by decide) (by decide) (by decide)
    (j := 1) rfl (by decide) (fun _ => 0) hx).2 hok fun m hm => ?_⟩
  rw [hqueue] at hm
  cases hm

/-- A request for the constant, from a third station. -/
def strangeRequest : Message :=
  ⟨some 0x29C8A8C0, ⟨0x32C8A8C0, udpPort, 7, 12, [0, 0, 0, 0]⟩⟩

/-- The USB queue of B is busy, and the third station gets the value before it is broadcast. -/
theorem mirror_missed : ∃ x, Run (Guarded (Allowed fun s c m =>
        Announces (mirrorPair.node .b).table mirrorPair.lib s (c.round m)) mirrorPair.mirror.Step)
      (linkInit fun _ => 0) [.primary (atFive false) none, .primary (atFive true) strangeRequest] x ∧
    x.queue = [] ∧ (x.primary.rule 1).ok = .ok ∧
      (x.replica.rule 1).value ≠ (x.primary.rule 1).value := by
  have h : (Run.exec (Run.guardOnce (Allowed fun s c m =>
        Announces (mirrorPair.node .b).table mirrorPair.lib s (c.round m)) mirrorPair.mirror.once)
      (linkInit fun _ => 0)
      [.primary (atFive false) none, .primary (atFive true) strangeRequest]).any
      (fun x => decide (x.queue = [] ∧ (x.primary.rule 1).ok = .ok ∧
        (x.replica.rule 1).value ≠ (x.primary.rule 1).value)) = true := by
    decide +kernel
  obtain ⟨x, hx, hc⟩ := Run.of_exec_any (Run.of_guardOnce (System.step_of_once _)) h
  exact ⟨x, hx, of_decide_eq_true hc⟩

end Subnet

end TimeSwitch.Rules
