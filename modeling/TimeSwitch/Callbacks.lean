import TimeSwitch.Protocols
import TimeSwitch.RuleTurns

/-! # The callbacks of the rules

`UDP_Callback_Request` and `UDP_Callback_Reply` of `rules.c`, and `SNTP_ProcessPacket`, on the bytes of
the packet.  They test the length before they look at the payload, so they keep to its bytes
(`ruleCallbacks_inBounds`), and what they do depends on the payload only, as `Rules` has it
(`ruleCallbacks_serve`). -/

namespace TimeSwitch.Net

open Program ByteMemory Rules

/-- `SNTP_ProcessPacket`; the new time, or 0. -/
def sntpProcessPacket (packet length : ℕ) : Program Network UInt32 := do
  if length ≠ Sntp.headerSize then pure 0
  else do
    let versionMode ← load8 packet
    let sec ← load (packet + Sntp.transmitSec) 4
    let sub ← load (packet + Sntp.transmitSub) 4
    if versionMode &&& 0x3F ≠ Sntp.versionModeServer ∨ versionMode &&& 0xC0 = 0xC0 ∨
        be32 sec 0 = 0 ∧ be32 sub 0 = 0 then pure 0
    else do
      let s ← get
      let newTime := be32 sec 0 - Sntp.ntpOffset
      set { s with tcnt1 := Sntp.frac2timer (be32 sub 0), time := newTime }
      pure newTime

/-- `UDP_Callback_Request` of the rules -/
def ruleRequest (T : RuleTable) (packet : ℕ) (destinationPort : UInt16) (length : ℕ) :
    Program Network Bool := do
  if length ≠ ruleValueSize then pure false
  else do
    let packetValue ← load packet 4
    if le32 packetValue 0 ≠ 0 then pure false
    else do
      let s ← get
      match T.data.findIdx? (fun r => r.isLocal && r.networkPort == destinationPort) with
      | none => pure false
      | some i =>
          if (s.rule i).ok = .unknown then pure false
          else do
            store packet (bytes32 (s.rule i).value)
            set ((s.send (.answer i destinationPort (s.rule i).value)).setOk i .ok)
            pure true

/-- `UDP_Callback_Reply` of the rules -/
def ruleReply (T : RuleTable) (packet sourceIP : ℕ) (sourcePort : UInt16) (length : ℕ) :
    Program Network Unit := do
  let ip ← loadIP sourceIP
  match T.data.findIdx? (fun r => r.remoteIP == some ip && r.networkPort == sourcePort) with
  | none => pure ()
  | some i =>
      match (T.rule i).kind with
      | .sntp _ => do
          let newTime ← sntpProcessPacket packet length
          if newTime = 0 then pure ()
          else do
            let s ← get
            set (takeReply s i (newTime + timeBetweenQueries) newTime)
      | _ =>
          if length ≠ ruleValueSize then pure ()
          else do
            let value ← load packet 4
            let s ← get
            set (takeReply s i timerOff (le32 value 0))

/-- The callbacks of the rules. -/
def ruleCallbacks (T : RuleTable) : Callbacks Network := ⟨ruleRequest T, ruleReply T⟩

/-! ### The callbacks -/

/-- The callbacks keep to the payload and to the source address. -/
def Callbacks.InBounds {τ : Type} (cb : Callbacks τ) : Prop :=
  ∀ packet sourceIP port length n, packet + length ≤ n → sourceIP + 4 ≤ n →
    Program.InBounds n (cb.request packet port length) ∧
      Program.InBounds n (cb.reply packet sourceIP port length)

section callbacks

variable {T : RuleTable} {n packet sourceIP length : ℕ} {port : UInt16}

theorem sntpProcessPacket_inBounds (h : packet + length ≤ n) :
    InBounds n (sntpProcessPacket packet length) := by
  unfold sntpProcessPacket
  by_cases hlen : length ≠ Sntp.headerSize
  · rw [if_pos hlen]
    exact inBounds_pure 0
  · rw [if_neg hlen]
    rw [ne_eq, not_not] at hlen
    unfold Sntp.headerSize at hlen
    refine (inBounds_load8 (by omega)).bind fun _ => ?_
    refine (inBounds_load (by unfold Sntp.transmitSec; omega)).bind fun _ => ?_
    refine (inBounds_load (by unfold Sntp.transmitSub; omega)).bind fun _ => ?_
    refine (inBounds_pure 0).ite ?_
    exact inBounds_get.bind fun _ => (inBounds_set _).bind fun _ => inBounds_pure _

theorem ruleRequest_inBounds (h : packet + length ≤ n) :
    InBounds n (ruleRequest T packet port length) := by
  unfold ruleRequest
  by_cases hlen : length ≠ ruleValueSize
  · rw [if_pos hlen]
    exact inBounds_pure false
  · rw [if_neg hlen]
    rw [ne_eq, not_not] at hlen
    unfold ruleValueSize at hlen
    refine (inBounds_load (by omega)).bind fun _ => (inBounds_pure false).ite ?_
    refine inBounds_get.bind fun s => ?_
    split
    · exact inBounds_pure false
    · refine (inBounds_pure false).ite ((inBounds_store ?_).bind fun _ => ?_)
      · rw [bytes32_length]
        omega
      · exact (inBounds_set _).bind fun _ => inBounds_pure true

theorem ruleReply_inBounds (h : packet + length ≤ n) (hip : sourceIP + 4 ≤ n) :
    InBounds n (ruleReply T packet sourceIP port length) := by
  refine (inBounds_loadIP hip).bind fun ip => ?_
  split
  · exact inBounds_pure ()
  · split
    · refine (sntpProcessPacket_inBounds h).bind fun _ => (inBounds_pure ()).ite ?_
      exact inBounds_get.bind fun _ => inBounds_set _
    · by_cases hlen : length ≠ ruleValueSize
      · rw [if_pos hlen]
        exact inBounds_pure ()
      · rw [if_neg hlen]
        rw [ne_eq, not_not] at hlen
        unfold ruleValueSize at hlen
        refine (inBounds_load (by omega)).bind fun _ => ?_
        exact inBounds_get.bind fun _ => inBounds_set _

theorem ruleCallbacks_inBounds (T : RuleTable) : (ruleCallbacks T).InBounds :=
  fun _ _ _ _ _ h hip => ⟨ruleRequest_inBounds h, ruleReply_inBounds h hip⟩

end callbacks

/-! ### Services -/

/-- What a node does with payloads: a request is answered or not, with a payload of the same length,
and changes the state; a reply changes the state. -/
structure Service (τ : Type) where
  request (s : τ) (destinationPort : UInt16) (payload : List UInt8) : Bool × List UInt8 × τ
  request_length : ∀ s port payload, (request s port payload).2.1.length = payload.length
  reply (s : τ) (sourceIP : UInt32) (sourcePort : UInt16) (payload : List UInt8) : τ

/-- The callbacks do what the service says, and write the payload only. -/
structure Callbacks.Serve {τ : Type} (cb : Callbacks τ) (F : Service τ) : Prop where
  request : ∀ {packet length n : ℕ} (port : UInt16) (m : Mem) (s : τ), packet + length ≤ n →
    cb.request packet port length n m s =
      some ((F.request s port (m.read packet length)).1,
        m.blit packet (F.request s port (m.read packet length)).2.1,
        (F.request s port (m.read packet length)).2.2)
  reply : ∀ {packet sourceIP length n : ℕ} (port : UInt16) (m : Mem) (s : τ), packet + length ≤ n →
    sourceIP + 4 ≤ n → cb.reply packet sourceIP port length n m s =
      some ((), m, F.reply s (le32 (m.read sourceIP 4) 0) port (m.read packet length))

/-- The value of the answer to a request -/
def answerValue (T : RuleTable) (s : Network) (destinationPort : UInt16) (payload : List UInt8) :
    Option UInt32 :=
  if payload.length ≠ ruleValueSize ∨ le32 payload 0 ≠ 0 then none
  else
    match T.data.findIdx? (fun r => r.isLocal && r.networkPort == destinationPort) with
    | none => none
    | some i => if (s.rule i).ok = .unknown then none else some (s.rule i).value

theorem answerValue_length {T : RuleTable} {s : Network} {port : UInt16} {payload : List UInt8}
    {v : UInt32} (h : answerValue T s port payload = some v) : payload.length = 4 := by
  unfold answerValue at h
  by_cases hlen : payload.length ≠ ruleValueSize ∨ le32 payload 0 ≠ 0
  · rw [if_pos hlen] at h
    cases h
  · rw [not_or, not_not] at hlen
    exact hlen.1

/-- The rules as a service -/
def ruleService (T : RuleTable) : Service Network where
  request s port payload :=
    (((answerValue T s port payload).isSome),
      ((answerValue T s port payload).map bytes32).getD payload,
      udpCallbackRequest T s payload port)
  request_length s port payload := by
    cases h : answerValue T s port payload with
    | none => rfl
    | some v => exact (answerValue_length h).symm
  reply s ip port payload := udpCallbackReply T s payload ip port

section service

variable {T : RuleTable} {n packet sourceIP length : ℕ} {port : UInt16} {m : Mem} {s : Network}

theorem ruleRequest_eq (h : packet + length ≤ n) :
    ruleRequest T packet port length n m s =
      some ((answerValue T s port (m.read packet length)).isSome,
        m.blit packet (((answerValue T s port (m.read packet length)).map bytes32).getD
          (m.read packet length)),
        udpCallbackRequest T s (m.read packet length) port) := by
  have hread : (m.read packet length).length = length := Mem.read_length _ _ _
  have hsame := m.blit_read packet length
  unfold ruleRequest answerValue udpCallbackRequest
  rw [hread]
  by_cases hlen : length = ruleValueSize
  · subst hlen
    unfold ruleValueSize at *
    rw [if_neg (by decide), load_bind h]
    by_cases hzero : le32 (m.read packet 4) 0 = 0
    · have hpass : ¬ (4 ≠ 4 ∨ le32 (m.read packet 4) 0 ≠ 0) := by
        rw [hzero]
        decide
      rw [if_neg (not_not.mpr hzero), if_neg hpass, if_neg hpass, get_bind]
      cases T.data.findIdx? (fun r => r.isLocal && r.networkPort == port) with
      | none => simp [pure_eq, hsame]
      | some i =>
          by_cases hok : (s.rule i).ok = .unknown
          · simp [pure_eq, hsame, hok]
          · simp only [if_neg hok]
            rw [store_bind h, set_bind]
            rfl
    · have hpass : 4 ≠ 4 ∨ le32 (m.read packet 4) 0 ≠ 0 := Or.inr hzero
      rw [if_pos hzero, if_pos hpass, if_pos hpass]
      simp [pure_eq, hsame]
  · rw [if_pos hlen, if_pos (Or.inl hlen), if_pos (Or.inl hlen)]
    simp [pure_eq, hsame]

theorem be32_read {a i k : ℕ} (h : i + 4 ≤ k) :
    be32 (m.read (a + i) 4) 0 = be32 (m.read a k) i := by
  have hpart := Mem.read_part (rfl : m.read a k = _) h
  have hget : ∀ j < 4, (m.read (a + i) 4).getD j 0 = (m.read a k).getD (i + j) 0 := by
    intro j hj
    rw [hpart, List.getD_eq_getElem?_getD, List.getD_eq_getElem?_getD, List.getElem?_take_of_lt hj,
      List.getElem?_drop]
  unfold be32
  rw [hget 0 (by decide), hget (0 + 1) (by decide), hget (0 + 2) (by decide),
    hget (0 + 3) (by decide)]
  rfl

/-- The two forms of `SNTP_ProcessPacket`. -/
theorem sntpProcessPacket_eq (h : packet + length ≤ n) :
    sntpProcessPacket packet length n m s =
      match Sntp.processPacket (m.read packet length) with
      | none => some (0, m, s)
      | some r => some (r.time, m, { s with tcnt1 := r.timer, time := r.time }) := by
  have hread : (m.read packet length).length = length := Mem.read_length _ _ _
  unfold sntpProcessPacket Sntp.processPacket
  rw [hread]
  by_cases hlen : length = Sntp.headerSize
  · subst hlen
    have hsec := be32_read (m := m) (a := packet) (i := Sntp.transmitSec) (k := Sntp.headerSize)
      (by decide)
    have hsub := be32_read (m := m) (a := packet) (i := Sntp.transmitSub) (k := Sntp.headerSize)
      (by decide)
    have hmode : (m.read packet Sntp.headerSize).getD 0 0 = m packet := rfl
    unfold Sntp.headerSize Sntp.transmitSec Sntp.transmitSub at *
    rw [if_neg (by decide), if_neg (by decide), load8_bind (by omega), load_bind (by omega),
      load_bind (by omega), hsec, hsub, hmode]
    by_cases hreject : m packet &&& 0x3F ≠ Sntp.versionModeServer ∨ m packet &&& 0xC0 = 0xC0 ∨
        be32 (m.read packet 48) 40 = 0 ∧ be32 (m.read packet 48) 44 = 0
    · rw [if_pos hreject, if_pos hreject]
      rfl
    · rw [if_neg hreject, if_neg hreject]
      rfl
  · rw [if_pos hlen, if_pos hlen]
    rfl

theorem ruleReply_eq (h : packet + length ≤ n) (hip : sourceIP + 4 ≤ n) :
    ruleReply T packet sourceIP port length n m s =
      some ((), m, udpCallbackReply T s (m.read packet length) (le32 (m.read sourceIP 4) 0) port) := by
  have hread : (m.read packet length).length = length := Mem.read_length _ _ _
  have hvalue : ∀ i, (if length ≠ ruleValueSize then pure () else do
      let value ← load packet 4
      let s ← get
      set (takeReply s i timerOff (le32 value 0)) : Program Network Unit) n m s =
        some ((), m, if (m.read packet length).length ≠ ruleValueSize then s
          else takeReply s i timerOff (le32 (m.read packet length) 0)) := by
    intro i
    rw [hread]
    by_cases hlen : length = ruleValueSize
    · subst hlen
      unfold ruleValueSize at *
      rw [if_neg (by decide), if_neg (by decide), load_bind h]
      rfl
    · rw [if_pos hlen, if_pos hlen]
      rfl
  unfold ruleReply udpCallbackReply
  rw [loadIP_bind hip]
  cases T.data.findIdx? (fun r => r.remoteIP == some (le32 (m.read sourceIP 4) 0) &&
      r.networkPort == port) with
  | none => rfl
  | some i =>
      show (match (T.rule i).kind with
        | .sntp _ => _
        | _ => _ : Program Network Unit) n m s = some ((), m, match (T.rule i).kind with
          | .sntp _ => _
          | _ => _)
      cases (T.rule i).kind with
      | sntp ip =>
          have heq := sntpProcessPacket_eq (s := s) (m := m) h
          show (sntpProcessPacket packet length >>= _ : Program Network Unit) n m s = _
          cases hr : Sntp.processPacket (m.read packet length) with
          | none =>
              rw [hr] at heq
              rw [bind_eq heq]
              rfl
          | some r =>
              rw [hr] at heq
              rw [bind_eq heq]
              by_cases hzero : r.time = 0
              · simp only [if_pos hzero]
                rfl
              · simp only [if_neg hzero]
                rfl
      | _ => exact hvalue i

/-- The callbacks of the rules are the service of the rules. -/
theorem ruleCallbacks_serve (T : RuleTable) : (ruleCallbacks T).Serve (ruleService T) := by
  constructor
  · intro packet length n port m s h
    exact ruleRequest_eq h
  · intro packet sourceIP length n port m s h hip
    exact ruleReply_eq h hip

end service

end TimeSwitch.Net
