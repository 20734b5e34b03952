import TimeSwitch.Rules

/-! # What a turn does

A turn of `checkRules` or `sendChangedRules` changes the state of its own rule only, and records
datagrams of its own rule only.  For the loops this makes a rule final after its turn.  A packet
changes at most one rule: an answer a local one, a reply a remote one. -/

namespace TimeSwitch.Rules

/-- The type of a rule with a result of its own: logic, relay, time switch or trigger. -/
def RuleKind.computes : RuleKind → Bool
  | .logic .. | .relay .. | .timeSwitch .. | .trigger .. => true
  | _ => false

theorem RuleKind.computes_of_remote {r : RuleData} (h : r.isLocal = false) :
    r.kind.computes = false := by
  revert h
  unfold RuleData.isLocal RuleKind.computes
  cases r.kind <;> simp

theorem dependUnknown_eq_true {T : RuleTable} {s : Network} {i : ℕ} :
    dependUnknown T s i = true ↔ ∃ d ∈ (T.rule i).depends, (s.rule d).ok = .unknown := by
  simp [dependUnknown]

theorem dependUnknown_eq_false {T : RuleTable} {s : Network} {i : ℕ} :
    dependUnknown T s i = false ↔ ∀ d ∈ (T.rule i).depends, (s.rule d).ok ≠ .unknown := by
  simp [dependUnknown]

theorem dependChanged_eq_true {T : RuleTable} {s : Network} {i : ℕ} :
    dependChanged T s i = true ↔ ∃ d ∈ (T.rule i).depends, (s.rule d).ok = .changed := by
  simp [dependChanged]

theorem dependChanged_eq_false {T : RuleTable} {s : Network} {i : ℕ} :
    dependChanged T s i = false ↔ ∀ d ∈ (T.rule i).depends, (s.rule d).ok ≠ .changed := by
  simp [dependChanged]

/-- A rule is evaluated in its turn. -/
def Due (T : RuleTable) (s : Network) (i : ℕ) : Prop :=
  dependUnknown T s i = false ∧ (dependChanged T s i = true ∨ (s.rule i).timer ≤ s.time)

instance (T : RuleTable) (s : Network) (i : ℕ) : Decidable (Due T s i) := by
  unfold Due; infer_instance

/-- The value that a datagram tells about a rule. -/
def Sending.valueOf (i : ℕ) : Sending → Option UInt32
  | .broadcast r _ v | .answer r _ v => if r = i then some v else none
  | .request .. => none

/-- The last value put on the network for a rule. -/
def Network.lastSent (s : Network) (i : ℕ) : Option UInt32 := s.sent.findSome? (Sending.valueOf i)

section state

variable {s : Network} {i j : ℕ} {e : Evaluation}

@[simp] theorem Network.settle_same : (s.settle i e).rule i = (s.rule i).settle e :=
  Network.setRule_same ..

@[simp] theorem Network.settle_of_ne (h : j ≠ i) : (s.settle i e).rule j = s.rule j :=
  Network.setRule_of_ne _ _ h

@[simp] theorem Network.settle_port : (s.settle i e).port = e.port := rfl
@[simp] theorem Network.settle_time : (s.settle i e).time = s.time := rfl

theorem Network.lastSent_congr {s' : Network} (h : s'.sent = s.sent) :
    s'.lastSent i = s.lastSent i := by
  unfold Network.lastSent
  rw [h]

/-- A datagram that tells nothing about a rule leaves its last value. -/
theorem Network.lastSent_cons {s' : Network} {d : Sending} (h : s'.sent = d :: s.sent)
    (hd : d.valueOf i = none) : s'.lastSent i = s.lastSent i := by
  unfold Network.lastSent
  rw [h, List.findSome?_cons, hd]

theorem Network.lastSent_cons_self {s' : Network} {d : Sending} {v : UInt32}
    (h : s'.sent = d :: s.sent) (hd : d.valueOf i = some v) : s'.lastSent i = some v := by
  unfold Network.lastSent
  rw [h, List.findSome?_cons, hd]

variable {r : RuleState}

theorem RuleState.settle_none (h : e.value = none) :
    r.settle e = ⟨e.timer, r.value, .unknown⟩ := by
  unfold RuleState.settle
  rw [h]

theorem RuleState.settle_changed {v : UInt32} (h : e.value = some v) (hv : r.value ≠ v) :
    r.settle e = ⟨e.timer, v, .changed⟩ := by
  unfold RuleState.settle
  rw [h]
  exact if_pos hv

theorem RuleState.settle_repeated (h : e.value = some r.value) :
    r.settle e = ⟨e.timer, r.value, if r.ok = .sendLater then .sendLater else .ok⟩ := by
  unfold RuleState.settle
  rw [h]
  exact if_neg (not_not_intro rfl)

theorem RuleState.settle_value {v : UInt32} (h : e.value = some v) : (r.settle e).value = v := by
  by_cases hv : r.value = v
  · subst hv
    rw [RuleState.settle_repeated h]
  · rw [RuleState.settle_changed h hv]

theorem RuleState.settle_unknown : (r.settle e).ok = .unknown ↔ e.value = none := by
  cases h : e.value with
  | none => simp [RuleState.settle_none h]
  | some v =>
      by_cases hv : r.value = v
      · subst hv
        rw [RuleState.settle_repeated h]
        split_ifs <;> simp
      · simp [RuleState.settle_changed h hv]

end state

section evaluation

variable {T : RuleTable} {L : TimeLib} {uplink : ℕ → Uplink} {s : Network} {i : ℕ}

/-- The types with a result are those whose evaluation gives one. -/
theorem evaluate_none :
    (evaluate T L uplink s i).value = none ↔ (T.rule i).kind.computes = false := by
  unfold evaluate RuleKind.computes evalRemote
  cases hk : (T.rule i).kind <;> cases uplink i <;> simp [hk]

variable (T L uplink s i) in
/-- An evaluation sends at most a request. -/
theorem evaluate_sent : (evaluate T L uplink s i).sent = s.sent ∨
    ∃ ip port, (evaluate T L uplink s i).sent = .request i ip port :: s.sent := by
  unfold evaluate evalRemote
  cases hk : (T.rule i).kind <;> cases uplink i <;> simp [hk]

/-- Only relays write registers. -/
theorem evaluate_port {p : ℕ} (h : ∀ bit, (T.rule i).kind ≠ .relay p bit) :
    (evaluate T L uplink s i).port p = s.port p := by
  unfold evaluate evalRemote
  cases hk : (T.rule i).kind with
  | relay q bit =>
      have hne : p ≠ q := by
        rintro rfl
        exact h bit hk
      simp [hk, hne]
  | _ => cases uplink i <;> simp [hk]

end evaluation

/-! ### The turns -/

section turns

variable (T : RuleTable) (L : TimeLib) (uplink : ℕ → Uplink) (ready : ℕ → Bool) (s : Network)
  (i : ℕ)

variable {T s i} in
/-- A rule is not evaluated on an unknown dependency, or when there is no reason to. -/
theorem not_due : ¬ Due T s i ↔ dependUnknown T s i = true ∨
    dependUnknown T s i = false ∧ dependChanged T s i = false ∧ s.time < (s.rule i).timer := by
  unfold Due
  cases dependUnknown T s i <;> cases dependChanged T s i <;> simp

/-- A turn of `checkRules`: the rule cannot be evaluated, need not be evaluated, or is evaluated. -/
theorem checkRule_cases :
    dependUnknown T s i = true ∧ checkRule T L uplink s i = s.setOk i .unknown ∨
    (dependUnknown T s i = false ∧ dependChanged T s i = false ∧ s.time < (s.rule i).timer) ∧
      checkRule T L uplink s i = s ∨
    Due T s i ∧ checkRule T L uplink s i = s.settle i (evaluate T L uplink s i) := by
  by_cases hd : Due T s i
  · right; right
    refine ⟨hd, ?_⟩
    unfold checkRule
    rw [if_neg (by simp [hd.1]), if_neg]
    rintro ⟨hc, ht⟩
    cases hd.2 with
    | inl h => exact absurd (hc.symm.trans h) (by decide)
    | inr h => exact absurd ht (UInt32.not_lt.mpr h)
  · rcases not_due.mp hd with hu | ⟨hu, hskip⟩
    · left
      exact ⟨hu, if_pos hu⟩
    · right; left
      refine ⟨⟨hu, hskip⟩, ?_⟩
      unfold checkRule
      rw [if_neg (by simp [hu]), if_pos hskip]

variable {i} in
theorem checkRule_of_ne {j : ℕ} (h : j ≠ i) :
    (checkRule T L uplink s i).rule j = s.rule j := by
  rcases checkRule_cases T L uplink s i with ⟨-, he⟩ | ⟨-, he⟩ | ⟨-, he⟩
  · simp [he, h]
  · rw [he]
  · simp [he, h]

theorem checkRule_time : (checkRule T L uplink s i).time = s.time := by
  rcases checkRule_cases T L uplink s i with ⟨-, he⟩ | ⟨-, he⟩ | ⟨-, he⟩ <;> simp [he]

/-- Evaluations tell no values. -/
theorem checkRule_lastSent (j : ℕ) : (checkRule T L uplink s i).lastSent j = s.lastSent j := by
  rcases checkRule_cases T L uplink s i with ⟨-, he⟩ | ⟨-, he⟩ | ⟨-, he⟩
  · exact Network.lastSent_congr (by rw [he]; rfl)
  · rw [he]
  · rcases evaluate_sent T L uplink s i with h | ⟨ip, port, h⟩
    · exact Network.lastSent_congr (by rw [he]; exact h)
    · exact Network.lastSent_cons (by rw [he]; exact h) rfl

/-- A new value is flagged. -/
theorem checkRule_value : ((checkRule T L uplink s i).rule i).value = (s.rule i).value ∨
    ((checkRule T L uplink s i).rule i).ok = .changed := by
  rcases checkRule_cases T L uplink s i with ⟨-, he⟩ | ⟨-, he⟩ | ⟨-, he⟩
  · left; simp [he]
  · left; rw [he]
  · rw [he, Network.settle_same]
    cases hv : (evaluate T L uplink s i).value with
    | none => left; rw [RuleState.settle_none hv]
    | some v =>
        by_cases h : (s.rule i).value = v
        · left; rw [RuleState.settle_value hv, h]
        · right; rw [RuleState.settle_changed hv h]

/-- A turn of `sendChangedRules`: the rule has nothing to send or cannot send, a value is sent, or a
remote rule is marked. -/
theorem sendChangedRule_cases :
    ((s.rule i).pending → (T.rule i).isLocal = true) ∧ sendChangedRule T ready s i = s ∨
    (s.rule i).pending ∧ (T.rule i).isLocal = true ∧ sendChangedRule T ready s i =
      (s.send (.broadcast i (broadcastPort T i) (s.rule i).value)).setOk i .ok ∨
    (s.rule i).pending ∧ (T.rule i).isLocal = false ∧
      sendChangedRule T ready s i = s.setOk i .sendLater := by
  unfold sendChangedRule
  split_ifs with hc hl
  · exact Or.inr (Or.inl ⟨hc, hl, rfl⟩)
  · exact Or.inl ⟨fun _ => hl, rfl⟩
  · exact Or.inr (Or.inr ⟨hc, by simpa using hl, rfl⟩)
  · exact Or.inl ⟨fun h => absurd h hc, rfl⟩

variable {i} in
theorem sendChangedRule_of_ne {j : ℕ} (h : j ≠ i) :
    (sendChangedRule T ready s i).rule j = s.rule j := by
  rcases sendChangedRule_cases T ready s i with ⟨-, he⟩ | ⟨-, -, he⟩ | ⟨-, -, he⟩
  · rw [he]
  · simp [he, h]
  · simp [he, h]

theorem sendChangedRule_port : (sendChangedRule T ready s i).port = s.port := by
  rcases sendChangedRule_cases T ready s i with ⟨-, he⟩ | ⟨-, -, he⟩ | ⟨-, -, he⟩ <;> simp [he]

variable {i} in
theorem sendChangedRule_lastSent {j : ℕ} (h : j ≠ i) :
    (sendChangedRule T ready s i).lastSent j = s.lastSent j := by
  rcases sendChangedRule_cases T ready s i with ⟨-, he⟩ | ⟨-, -, he⟩ | ⟨-, -, he⟩
  · rw [he]
  · refine Network.lastSent_cons (by rw [he]; rfl) ?_
    exact if_neg h.symm
  · exact Network.lastSent_congr (by rw [he]; rfl)

theorem sendChangedRule_time : (sendChangedRule T ready s i).time = s.time := by
  rcases sendChangedRule_cases T ready s i with ⟨-, he⟩ | ⟨-, -, he⟩ | ⟨-, -, he⟩ <;> rw [he] <;> rfl

theorem sendChangedRule_timer (j : ℕ) :
    ((sendChangedRule T ready s i).rule j).timer = (s.rule j).timer := by
  by_cases h : j = i
  · subst h
    rcases sendChangedRule_cases T ready s j with ⟨-, he⟩ | ⟨-, -, he⟩ | ⟨-, -, he⟩ <;> simp [he]
  · rw [sendChangedRule_of_ne T ready s h]

/-- Sending changes no value, and makes no rule known or unknown. -/
theorem sendChangedRule_value (j : ℕ) :
    ((sendChangedRule T ready s i).rule j).value = (s.rule j).value ∧
      (((sendChangedRule T ready s i).rule j).ok = .unknown ↔ (s.rule j).ok = .unknown) := by
  by_cases h : j = i
  · subst h
    have hp : (s.rule j).pending → (s.rule j).ok ≠ .unknown := by
      rintro (hp | hp) <;> simp [hp]
    rcases sendChangedRule_cases T ready s j with ⟨-, he⟩ | ⟨hs, -, he⟩ | ⟨hs, -, he⟩
    · simp [he]
    · simp [he, hp hs]
    · simp [he, hp hs]
  · simp [sendChangedRule_of_ne T ready s h]

end turns

/-! ### Requests -/

section requests

variable {T : RuleTable} {L : TimeLib} {u u' : ℕ → Uplink} {s : Network} {i : ℕ} {ip : UInt32}

theorem isLocal_eq_false {r : RuleData} : r.isLocal = false ↔ ∃ ip, r.remoteIP = some ip := by
  unfold RuleData.isLocal RuleData.remoteIP
  cases r.kind <;> simp

/-- Only the evaluation of a remote rule looks at the uplink. -/
theorem evaluate_congr (h : (T.rule i).isLocal = false → u i = u' i) :
    evaluate T L u s i = evaluate T L u' s i := by
  revert h
  unfold evaluate RuleData.isLocal
  cases hk : (T.rule i).kind <;> simp +contextual [hk]

theorem checkRule_congr (h : Due T s i → (T.rule i).isLocal = false → u i = u' i) :
    checkRule T L u s i = checkRule T L u' s i := by
  by_cases hd : Due T s i
  · unfold checkRule
    rw [evaluate_congr (h hd)]
  · rcases not_due.mp hd with hu | ⟨hu, hskip⟩
    · unfold checkRule
      rw [if_pos hu, if_pos hu]
    · have hu' : ¬ dependUnknown T s i = true := by simp [hu]
      unfold checkRule
      rw [if_neg hu', if_neg hu', if_pos hskip, if_pos hskip]

theorem evaluate_sent_remote (h : (T.rule i).remoteIP = some ip) : (evaluate T L u s i).sent =
    if u i = .sent then .request i ip (T.rule i).networkPort :: s.sent else s.sent := by
  revert h
  unfold evaluate evalRemote RuleData.remoteIP
  cases hk : (T.rule i).kind <;> cases u i <;> simp +contextual [hk]

theorem evaluate_sent_local (h : (T.rule i).isLocal = true) :
    (evaluate T L u s i).sent = s.sent := by
  revert h
  unfold evaluate RuleData.isLocal
  cases hk : (T.rule i).kind <;> simp [hk]

/-- A remote rule that is due sends a request if the uplink is free and resolved. -/
theorem checkRule_sent_remote (hd : Due T s i) (h : (T.rule i).remoteIP = some ip) :
    (checkRule T L u s i).sent =
      if u i = .sent then .request i ip (T.rule i).networkPort :: s.sent else s.sent := by
  rcases checkRule_cases T L u s i with ⟨hu, -⟩ | ⟨hskip, -⟩ | ⟨-, he⟩
  · exact absurd hd (not_due.mpr (Or.inl hu))
  · exact absurd hd (not_due.mpr (Or.inr hskip))
  · rw [he]
    exact evaluate_sent_remote h

/-- Other turns send nothing. -/
theorem checkRule_sent_quiet (h : ¬ (Due T s i ∧ (T.rule i).isLocal = false)) :
    (checkRule T L u s i).sent = s.sent := by
  rcases checkRule_cases T L u s i with ⟨-, he⟩ | ⟨-, he⟩ | ⟨hd, he⟩
  · rw [he]
    rfl
  · rw [he]
  · rw [he]
    exact evaluate_sent_local (by simpa using not_and.mp h hd)

end requests

/-! ### Packets -/

/-- What a packet can do to the rules. -/
inductive PacketEffect (T : RuleTable) (s s' : Network) : Prop
  | none : s'.rule = s.rule → s'.port = s.port → s'.sent = s.sent → PacketEffect T s s'
  | answer (i : ℕ) (port : UInt16) : (T.rule i).isLocal = true → (s.rule i).ok ≠ .unknown →
      s' = (s.send (.answer i port (s.rule i).value)).setOk i .ok → PacketEffect T s s'
  | reply (i : ℕ) (timer v : UInt32) : (T.rule i).isLocal = false →
      s'.rule = Function.update s.rule i
        ⟨timer, v, if (s.rule i).value = v then .ok else .changed⟩ →
      s'.port = s.port → s'.sent = s.sent → PacketEffect T s s'

section packets

variable {T : RuleTable} {s : Network}

/-- The rule that a callback finds satisfies its test. -/
theorem RuleTable.rule_of_find {p : RuleData → Bool} {i : ℕ}
    (h : T.data.findIdx? p = some i) : p (T.rule i) = true := by
  obtain ⟨hi, hp, -⟩ := List.findIdx?_eq_some_iff_getElem.mp h
  unfold RuleTable.rule
  rw [List.getD_eq_getElem _ _ hi]
  exact hp

theorem RuleData.remoteIP_isLocal {r : RuleData} {ip : UInt32} (h : r.remoteIP = some ip) :
    r.isLocal = false := by
  revert h
  unfold RuleData.remoteIP RuleData.isLocal
  cases r.kind <;> simp

/-- A request is answered if it finds a local rule with a known value. -/
theorem udpCallbackRequest_cases (packet : List UInt8) (port : UInt16) :
    udpCallbackRequest T s packet port = s ∨ ∃ i,
      T.data.findIdx? (fun r => r.isLocal && r.networkPort == port) = some i ∧
      (s.rule i).ok ≠ .unknown ∧ udpCallbackRequest T s packet port =
        (s.send (.answer i port (s.rule i).value)).setOk i .ok := by
  unfold udpCallbackRequest
  split_ifs with hlen
  · exact Or.inl rfl
  · split
    · exact Or.inl rfl
    · rename_i i hi
      split_ifs with hu
      · exact Or.inl rfl
      · exact Or.inr ⟨i, hi, hu, rfl⟩

/-- A reply that finds a rule is taken over; the one of a time server sets the time as well, and does
only this if the time is 0. -/
theorem udpCallbackReply_cases (packet : List UInt8) (ip : UInt32) (port : UInt16) :
    udpCallbackReply T s packet ip port = s ∨
      ∃ i, T.data.findIdx? (fun r => r.remoteIP == some ip && r.networkPort == port) = some i ∧
        ((∃ server tcnt1 time timer v, (T.rule i).kind = .sntp server ∧
          (udpCallbackReply T s packet ip port = { s with tcnt1 := tcnt1, time := time } ∨
            udpCallbackReply T s packet ip port =
              takeReply { s with tcnt1 := tcnt1, time := time } i timer v)) ∨
          udpCallbackReply T s packet ip port = takeReply s i timerOff (le32 packet 0)) := by
  unfold udpCallbackReply
  split
  · exact Or.inl rfl
  · rename_i i hi
    split
    · rename_i server hkind
      split
      · exact Or.inl rfl
      · rename_i r _
        refine Or.inr ⟨i, hi, Or.inl ⟨server, r.timer, r.time, r.time + timeBetweenQueries, r.time,
          hkind, ?_⟩⟩
        dsimp only
        split_ifs
        · exact Or.inl rfl
        · exact Or.inr rfl
    · split_ifs
      · exact Or.inl rfl
      · exact Or.inr ⟨i, hi, Or.inr rfl⟩

/-- A packet is a request, a reply, or nothing that changes the state. -/
theorem processNetworkPackets_cases (packet : Option Datagram) :
    processNetworkPackets T s packet = s ∨ ∃ d ∈ packet,
      (d.sourcePort = udpPort ∧ processNetworkPackets T s packet =
        udpCallbackRequest T s d.data d.destinationPort) ∨
      (d.sourcePort ≠ udpPort ∧ processNetworkPackets T s packet =
        udpCallbackReply T s d.data d.sourceIP d.sourcePort) := by
  cases packet with
  | none => exact Or.inl rfl
  | some d =>
      unfold processNetworkPackets udpProcessPacket
      dsimp only
      split_ifs with hlen hsource hdest
      · exact Or.inl rfl
      · exact Or.inr ⟨d, rfl, Or.inl ⟨hsource, rfl⟩⟩
      · exact Or.inr ⟨d, rfl, Or.inr ⟨hsource, rfl⟩⟩
      · exact Or.inl rfl

theorem udpCallbackRequest_effect (packet : List UInt8) (port : UInt16) :
    PacketEffect T s (udpCallbackRequest T s packet port) := by
  rcases udpCallbackRequest_cases (T := T) (s := s) packet port with he | ⟨i, hi, hu, he⟩
  · rw [he]
    exact .none rfl rfl rfl
  · have hp := RuleTable.rule_of_find hi
    rw [Bool.and_eq_true] at hp
    exact .answer i port hp.1 hu he

theorem udpCallbackReply_effect (packet : List UInt8) (ip : UInt32) (port : UInt16) :
    PacketEffect T s (udpCallbackReply T s packet ip port) := by
  rcases udpCallbackReply_cases (T := T) (s := s) packet ip port with he | ⟨i, hi, h⟩
  · rw [he]
    exact .none rfl rfl rfl
  · have hp := RuleTable.rule_of_find hi
    rw [Bool.and_eq_true, beq_iff_eq] at hp
    have hl := RuleData.remoteIP_isLocal hp.1
    rcases h with ⟨_, _, _, _, _, _, he | he⟩ | he
    · rw [he]
      exact .none rfl rfl rfl
    · rw [he]
      exact .reply i _ _ hl rfl rfl rfl
    · rw [he]
      exact .reply i _ _ hl rfl rfl rfl

/-- A packet answers for at most one local rule, or changes at most one remote rule. -/
theorem processNetworkPackets_effect (packet : Option Datagram) :
    PacketEffect T s (processNetworkPackets T s packet) := by
  rcases processNetworkPackets_cases (T := T) (s := s) packet with he | ⟨d, -, ⟨-, he⟩ | ⟨-, he⟩⟩
  · rw [he]
    exact .none rfl rfl rfl
  · rw [he]
    exact udpCallbackRequest_effect _ _
  · rw [he]
    exact udpCallbackReply_effect _ _ _

end packets

/-! ### The log -/

/-- A log behind the log of the state. -/
def Network.behind (l : List Sending) (s : Network) : Network := { s with sent := s.sent ++ l }

section behind

variable {T : RuleTable} {l : List Sending} {s : Network}

theorem udpCallbackRequest_behind (packet : List UInt8) (port : UInt16) :
    udpCallbackRequest T (s.behind l) packet port = (udpCallbackRequest T s packet port).behind l := by
  unfold udpCallbackRequest
  rw [apply_ite (Network.behind l)]
  cases T.data.findIdx? fun r => r.isLocal && r.networkPort == port with
  | none => rfl
  | some i =>
      dsimp only
      rw [apply_ite (Network.behind l)]
      rfl

theorem udpCallbackReply_behind (packet : List UInt8) (ip : UInt32) (port : UInt16) :
    udpCallbackReply T (s.behind l) packet ip port =
      (udpCallbackReply T s packet ip port).behind l := by
  unfold udpCallbackReply
  cases T.data.findIdx? fun r => r.remoteIP == some ip && r.networkPort == port with
  | none => rfl
  | some i =>
      dsimp only
      cases (T.rule i).kind with
      | sntp server =>
          cases Sntp.processPacket packet with
          | none => rfl
          | some r =>
              dsimp only
              rw [apply_ite (Network.behind l)]
              rfl
      | _ =>
          dsimp only
          rw [apply_ite (Network.behind l)]
          rfl

theorem processNetworkPackets_behind (packet : Option Datagram) :
    processNetworkPackets T (s.behind l) packet = (processNetworkPackets T s packet).behind l := by
  cases packet with
  | none => rfl
  | some d =>
      unfold processNetworkPackets udpProcessPacket
      dsimp only
      rw [apply_ite (Network.behind l), apply_ite (Network.behind l), apply_ite (Network.behind l),
        udpCallbackRequest_behind, udpCallbackReply_behind]

end behind

/-- The state of `checkRules` before the turn of the rule `i`. -/
def turnState (T : RuleTable) (L : TimeLib) (s : Network) (r : Round) (i : ℕ) : Network :=
  sweep (checkRule T L r.uplink) i ((beforeCheck T s r).setOk 0 .ok)

end TimeSwitch.Rules
