import TimeSwitch.ClockRules
import TimeSwitch.RemoteRules

/-! # The pace of the requests

A remote rule that depends on the first rule is driven by its timer alone: a request sets it two seconds
ahead, the reply of a time server five minutes, and the value of another device ends the requests.  So
whatever the network does, the requests of a rule keep these distances (`requests_paced`), as long as the
clock does not go back. -/

namespace TimeSwitch.Rules

/-- The round sends a request of the rule. -/
def Requests (T : RuleTable) (L : TimeLib) (i : ℕ) (v : Network × Round) : Prop :=
  ∃ ip port, Sending.request i ip port ∈ (round T L { v.1 with sent := [] } v.2).sent

/-- The packet of the round is a reply for the rule, from a time server with the time `t`. -/
def Replied (T : RuleTable) (i : ℕ) (v : Network × Round) (t : UInt32) : Prop :=
  ∃ ip, (T.rule i).kind = .sntp ip ∧ ∃ d ∈ v.2.packet, d.length ≤ udpHeaderSize + d.data.length ∧
    d.sourcePort ≠ udpPort ∧ d.destinationPort = udpPort ∧
    T.data.findIdx? (fun r => r.remoteIP == some d.sourceIP && r.networkPort == d.sourcePort) = some i ∧
    ∃ a ∈ Sntp.processPacket d.data, a.time = t ∧ t ≠ 0

/-- Neither the packet nor the time until the pass sets the clock back, and it has not nearly run
through its 32 bits. -/
def Forward (T : RuleTable) (s : Network) (r : Round) : Prop :=
  s.time ≤ (processNetworkPackets T s r.packet).time ∧
    (processNetworkPackets T s r.packet).time ≤ r.now ∧ r.now.toNat + 300 < 2 ^ 32

instance (T : RuleTable) (s : Network) (r : Round) : Decidable (Forward T s r) :=
  inferInstanceAs (Decidable (_ ∧ _ ∧ _))

/-- After the time `t` the rule waits for `q` seconds. -/
inductive Pause (T : RuleTable) (L : TimeLib) (i : ℕ) (v : Network × Round) : ℕ → ℕ → Prop
  | request : Requests T L i v → Pause T L i v v.2.now.toNat 2
  | reply (t : UInt32) : Replied T i v t → Pause T L i v t.toNat 300

/-- The timer of the rule keeps the pauses. -/
def Waits (T : RuleTable) (L : TimeLib) (i : ℕ) (v : Network × Round) (s : Network) : Prop :=
  ∀ t q, Pause T L i v t q → t ≤ s.time.toNat ∧ t + q ≤ (s.rule i).timer.toNat

section turns

variable {T : RuleTable} {L : TimeLib} {s : Network} {r : Round} {i : ℕ}

/-- A request in the log comes from the turn of its rule. -/
theorem checkRules_request {u : ℕ → Uplink} {ip : UInt32} {port : UInt16} (n : ℕ)
    (h : Sending.request i ip port ∈ (sweep (checkRule T L u) n s).sent) :
    Sending.request i ip port ∈ s.sent ∨
      Due T (sweep (checkRule T L u) i s) i ∧ (T.rule i).isLocal = false ∧ u i = .sent := by
  induction n with
  | zero => exact Or.inl h
  | succ n ih =>
      rw [sweep] at h
      by_cases hq : Due T (sweep (checkRule T L u) n s) n ∧ (T.rule n).isLocal = false
      · obtain ⟨hdue, hremote⟩ := hq
        obtain ⟨server, hip⟩ := isLocal_eq_false.mp hremote
        rw [checkRule_sent_remote hdue hip] at h
        split_ifs at h with hsent
        · cases List.mem_cons.mp h with
          | inl hself =>
              right
              obtain ⟨rfl, -, -⟩ := Sending.request.inj hself
              exact ⟨hdue, hremote, hsent⟩
          | inr h => exact ih h
        · exact ih h
      · rw [checkRule_sent_quiet hq] at h
        exact ih h

theorem depends_remote {x : RuleData} (hremote : x.isLocal = false) (hdep : x.dependIndex = 0) :
    ∀ d ∈ x.depends, d = 0 := by
  intro d hd
  unfold RuleData.isLocal at hremote
  unfold RuleData.depends at hd
  cases hk : x.kind <;> simp_all

/-- What a remote rule that depends on the first rule does in its turn. -/
theorem remote_turn (hT : T.Sound) (h0 : (s.rule 0).value = 0) (hi : i < T.size)
    (hremote : (T.rule i).isLocal = false) (hdep : (T.rule i).dependIndex = 0) :
    (Due T (turnState T L s r i) i ↔
      ((processNetworkPackets T s r.packet).rule i).timer ≤ r.now) ∧
    ((round T L s r).rule i).timer =
      if ((processNetworkPackets T s r.packet).rule i).timer ≤ r.now then
        match r.uplink i with
        | .busy => ((processNetworkPackets T s r.packet).rule i).timer
        | .sent => r.now + 2
        | .unresolved => r.now + 1
      else ((processNetworkPackets T s r.packet).rule i).timer := by
  obtain ⟨hknown, hunchanged⟩ := steady_first (L := L) (r := r) hT h0 hi (depends_remote hremote hdep)
  have hrule : (turnState T L s r i).rule i = (processNetworkPackets T s r.packet).rule i :=
    turnState_ahead le_rfl (hT.ne_zero_of_remote hremote)
  have htime : (turnState T L s r i).time = r.now := turnState_time
  have hdue : Due T (turnState T L s r i) i ↔
      ((processNetworkPackets T s r.packet).rule i).timer ≤ r.now := by
    unfold Due
    rw [hknown, hunchanged, htime, hrule]
    simp
  refine ⟨hdue, ?_⟩
  have hsame : ((round T L s r).rule i).timer =
      ((checkRule T L r.uplink (turnState T L s r i) i).rule i).timer := by
    rw [← afterCheck_rule hi]
    exact (sameSwitch_sendChangedRules T r.ready (afterCheck T L s r) i).timer
  rw [hsame]
  rcases checkRule_cases T L r.uplink (turnState T L s r i) i with ⟨hu, -⟩ | ⟨hskip, he⟩ | ⟨hd, he⟩
  · cases hknown.symm.trans hu
  · rw [he, hrule, if_neg]
    exact fun h => not_due.mpr (Or.inr hskip) (hdue.mpr h)
  · have hnone : (evaluate T L r.uplink (turnState T L s r i) i).value = none :=
      evaluate_none.mpr (RuleKind.computes_of_remote hremote)
    rw [if_pos (hdue.mp hd), he, Network.settle_same, RuleState.settle_none hnone]
    obtain ⟨ip, hip⟩ := isLocal_eq_false.mp hremote
    unfold RuleData.remoteIP at hip
    unfold evaluate evalRemote
    rw [htime, hrule]
    cases hk : (T.rule i).kind with
    | sntp | remote =>
        simp only [hk]
        cases r.uplink i <;> rfl
    | _ => simp [hk] at hip

/-- A rule that takes over a reply gets its timer. -/
theorem takeReply_timer (j : ℕ) (timer v : UInt32) :
    ((takeReply s j timer v).rule i).timer = (s.rule i).timer ∨
      ((takeReply s j timer v).rule i).timer = timer := by
  unfold takeReply
  by_cases hij : i = j
  · subst hij
    right
    rw [Network.setRule_same]
  · left
    rw [Network.setRule_of_ne _ _ hij]

/-- A packet sets a timer from the time that it brings, or switches it off. -/
theorem packet_timer (packet : Option Datagram) :
    ((processNetworkPackets T s packet).rule i).timer = (s.rule i).timer ∨
      ((processNetworkPackets T s packet).rule i).timer =
        (processNetworkPackets T s packet).time + timeBetweenQueries ∨
      ((processNetworkPackets T s packet).rule i).timer = timerOff := by
  rcases processNetworkPackets_cases (T := T) (s := s) packet with
    he | ⟨d, -, ⟨-, he⟩ | ⟨-, he⟩⟩
  · left
    rw [he]
  · left
    rw [he]
    rcases udpCallbackRequest_cases (T := T) (s := s) d.data d.destinationPort with
      hr | ⟨j, -, -, hr⟩
    · rw [hr]
    · rw [hr]
      by_cases hij : i = j
      · subst hij
        rw [Network.setOk_same, Network.send_rule]
      · rw [Network.setOk_of_ne _ _ hij, Network.send_rule]
  · rw [he]
    unfold udpCallbackReply
    split
    · exact Or.inl rfl
    · rename_i j hj
      split
      · split
        · exact Or.inl rfl
        · rename_i a ha
          dsimp only
          split_ifs
          · exact Or.inl rfl
          · exact (takeReply_timer j _ _).imp_right Or.inl
      · split_ifs
        · exact Or.inl rfl
        · exact (takeReply_timer j _ _).imp_right Or.inr

/-- The reply of a time server sets the clock and the timer. -/
theorem Replied.effect {t : UInt32} (h : Replied T i (s, r) t) :
    (processNetworkPackets T s r.packet).time = t ∧
      ((processNetworkPackets T s r.packet).rule i).timer = t + timeBetweenQueries := by
  obtain ⟨ip, hk, d, hd, hlen, hsrc, hdst, hfind, a, ha, rfl, hne⟩ := h
  have hpacket : r.packet = some d := hd
  have hreply : processNetworkPackets T s r.packet =
      takeReply { s with tcnt1 := a.timer, time := a.time } i (a.time + timeBetweenQueries) a.time := by
    rw [hpacket]
    unfold processNetworkPackets udpProcessPacket udpCallbackReply
    dsimp only
    rw [if_neg (Nat.not_lt.mpr hlen), if_neg hsrc, if_pos hdst, hfind]
    simp only [hk, Option.mem_def.mp ha]
    rw [if_neg hne]
  rw [hreply]
  unfold takeReply
  rw [Network.setRule_same]
  exact ⟨rfl, rfl⟩

end turns

section runs

variable {T : RuleTable} {L : TimeLib} {s : Network} {r : Round} {i : ℕ} {v : Network × Round}

/-- A request is sent when the timer has expired. -/
theorem Requests.due (hT : T.Sound) (h0 : (s.rule 0).value = 0) (hi : i < T.size)
    (hremote : (T.rule i).isLocal = false) (hdep : (T.rule i).dependIndex = 0)
    (h : Requests T L i (s, r)) :
    ((processNetworkPackets T s r.packet).rule i).timer ≤ r.now ∧ r.uplink i = .sent := by
  obtain ⟨ip, port, hsent⟩ := h
  have hpacket : processNetworkPackets T s r.packet =
      (processNetworkPackets T { s with sent := [] } r.packet).behind s.sent :=
    processNetworkPackets_behind (s := { s with sent := [] }) (l := s.sent) r.packet
  rw [hpacket]
  rcases sendChangedRules_sent _ hsent with hsent | ⟨j, -, hbroadcast, -⟩
  · rcases checkRules_request _ hsent with hsent | ⟨hdue, -, hup⟩
    · rcases processNetworkPackets_sent hsent with hsent | ⟨q, -, -, j, -, -, hanswer⟩
      · cases hsent
      · cases hanswer
    · exact ⟨(remote_turn (s := { s with sent := [] }) hT h0 hi hremote hdep).1.mp hdue, hup⟩
  · cases hbroadcast

/-- The timer after a round, and the timer after the packet: the pass sets it ahead. -/
theorem round_timer_le (hT : T.Sound) (h0 : (s.rule 0).value = 0) (hi : i < T.size)
    (hremote : (T.rule i).isLocal = false) (hdep : (T.rule i).dependIndex = 0) (hf : Forward T s r) :
    ((processNetworkPackets T s r.packet).rule i).timer.toNat ≤
      ((round T L s r).rule i).timer.toNat := by
  have hnow := hf.2.2
  have htwo : (r.now + 2).toNat = r.now.toNat + 2 := by
    rw [UInt32.toNat_add, Nat.mod_eq_of_lt (by simp; omega)]
    rfl
  have hone : (r.now + 1).toNat = r.now.toNat + 1 := by
    rw [UInt32.toNat_add, Nat.mod_eq_of_lt (by simp; omega)]
    rfl
  rw [(remote_turn hT h0 hi hremote hdep).2]
  split_ifs with hle
  · have hle' := UInt32.le_iff_toNat_le.mp hle
    cases r.uplink i with
    | busy => exact le_rfl
    | sent =>
        show _ ≤ (r.now + 2).toNat
        omega
    | unresolved =>
        show _ ≤ (r.now + 1).toNat
        omega
  · exact le_rfl

/-- **A round** keeps the pauses. -/
theorem Waits.after_round (hT : T.Sound) (h0 : (s.rule 0).value = 0) (hi : i < T.size)
    (hremote : (T.rule i).isLocal = false) (hdep : (T.rule i).dependIndex = 0) (hf : Forward T s r)
    (h : Waits T L i v s) :
    (Requests T L i (s, r) → ∀ t q, Pause T L i v t q → t + q ≤ r.now.toNat) ∧
      Waits T L i v (round T L s r) := by
  have hstep := round_timer_le (L := L) hT h0 hi hremote hdep hf
  obtain ⟨hback, hread, hnow⟩ := hf
  have hback' := UInt32.le_iff_toNat_le.mp hback
  have hread' := UInt32.le_iff_toNat_le.mp hread
  -- no packet shortens a pause
  have hpacket : ∀ t q, Pause T L i v t q →
      t + q ≤ ((processNetworkPackets T s r.packet).rule i).timer.toNat := by
    intro t q hp
    obtain ⟨htime, htimer⟩ := h t q hp
    have hq : q ≤ 300 := by
      cases hp with
      | request => decide
      | reply => decide
    rcases packet_timer (T := T) (s := s) (i := i) r.packet with he | he | he
    · rw [he]
      exact htimer
    · rw [he, UInt32.toNat_add, Nat.mod_eq_of_lt (by simp [timeBetweenQueries]; omega)]
      show t + q ≤ _ + 300
      omega
    · rw [he]
      show t + q ≤ 4294967295
      omega
  constructor
  · intro hreq t q hp
    have hdue := UInt32.le_iff_toNat_le.mp (hreq.due hT h0 hi hremote hdep).1
    exact (hpacket t q hp).trans hdue
  · intro t q hp
    rw [round_time]
    exact ⟨(h t q hp).1.trans (hback'.trans hread'), (hpacket t q hp).trans hstep⟩

/-- **A round** begins its pause. -/
theorem waits_begin (hT : T.Sound) (h0 : (s.rule 0).value = 0) (hi : i < T.size)
    (hremote : (T.rule i).isLocal = false) (hdep : (T.rule i).dependIndex = 0) (hf : Forward T s r) :
    Waits T L i (s, r) (round T L s r) := by
  intro t q hp
  rw [round_time]
  cases hp with
  | request hreq =>
      obtain ⟨hdue, hup⟩ := hreq.due hT h0 hi hremote hdep
      refine ⟨le_rfl, ?_⟩
      have hnow := hf.2.2
      rw [(remote_turn hT h0 hi hremote hdep).2, if_pos hdue, hup]
      show r.now.toNat + 2 ≤ (r.now + 2).toNat
      rw [UInt32.toNat_add, Nat.mod_eq_of_lt (by simp; omega)]
      rfl
  | reply t hreply =>
      obtain ⟨htime, htimer⟩ := hreply.effect
      have hstep := round_timer_le (L := L) hT h0 hi hremote hdep hf
      obtain ⟨-, hread, hnow⟩ := hf
      rw [htime] at hread
      have hread' := UInt32.le_iff_toNat_le.mp hread
      refine ⟨hread', le_trans ?_ hstep⟩
      rw [htimer, UInt32.toNat_add, Nat.mod_eq_of_lt (by simp [timeBetweenQueries]; omega)]
      rfl

end runs

/-- **The pace of the requests.**  In every run in which the clock does not go back, a remote rule that
depends on the first rule sends its requests at least two seconds apart, and none within five minutes
after the reply of its time server. -/
theorem requests_paced (T : RuleTable) (hT : T.Sound) (L : TimeLib) (port : ℕ → UInt8)
    (rounds : List Round) {i : ℕ} (hi : i < T.size) (hremote : (T.rule i).isLocal = false)
    (hdep : (T.rule i).dependIndex = 0)
    (hforward : ∀ v ∈ Run.visits (round T L) (Network.init port) rounds, Forward T v.1 v.2) :
    (Run.visits (round T L) (Network.init port) rounds).Pairwise fun v w =>
      Requests T L i w → (Requests T L i v → v.2.now.toNat + 2 ≤ w.2.now.toNat) ∧
        ∀ t, Replied T i v t → t.toNat + 300 ≤ w.2.now.toNat := by
  have hrelated := Run.visits_related (I := Quiet T) (G := Forward T) (B := Waits T L i)
    (R := fun v w => Requests T L i w → ∀ t q, Pause T L i v t q → t + q ≤ w.2.now.toNat)
    (fun s r hs hf => ⟨(hs.check hT r).send r.ready, waits_begin hT hs.1 hi hremote hdep hf⟩)
    (fun v s r hs hf hw => hw.after_round hT hs.1 hi hremote hdep hf) (quiet_init T port) hforward
  refine hrelated.imp fun h hw => ⟨fun hv => h hw _ _ (.request hv), fun t ht => h hw _ _ (.reply t ht)⟩

/-- A time server -/
def clockTable : RuleTable where
  data := [⟨.logic LogicType.forceOff 0 0 0, 0, 0⟩, ⟨.sntp 0x03C8A8C0, 0, 123⟩]
  pos := by decide
  small := by decide

/-- Its reply of 2002-01-28, 16:51:12. -/
def clockReply : Datagram :=
  ⟨0x03C8A8C0, 123, udpPort, 56, [0x1C] ++ List.replicate 39 0 ++ [0xC0, 0, 0, 0, 0, 0, 0, 0]⟩

/-- Two requests, the reply, and a request five minutes later. -/
def clockRounds : List Round :=
  [.of 5 none, .of 7 none, .of 65551872 (some clockReply), .of 65552172 none]

theorem requests_paced_reply :
    (Run.visits (round clockTable euTime) (Network.init fun _ => 0) clockRounds).Pairwise fun v w =>
      Requests clockTable euTime 1 w →
        (Requests clockTable euTime 1 v → v.2.now.toNat + 2 ≤ w.2.now.toNat) ∧
        ∀ t, Replied clockTable 1 v t → t.toNat + 300 ≤ w.2.now.toNat :=
  requests_paced clockTable ⟨⟨rfl, rfl⟩, by decide, by decide⟩ euTime (fun _ => 0) clockRounds
    (by decide) rfl rfl (by decide +kernel)

end TimeSwitch.Rules
