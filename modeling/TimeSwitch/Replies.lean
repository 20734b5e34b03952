import TimeSwitch.RuleTurns

/-! # Rejected replies

A reply that is not taken over leaves the clock, `TCNT1` and all rules as they are, with one exception:
the returned 0 of `SNTP_ProcessPacket` means an error, but the first second of 2000 is the time 0 as
well.  A reply of a time server with this time sets the clock and `TCNT1` before it is rejected
(`udpCallbackReply_clean_iff`). -/

namespace TimeSwitch.Rules

/-- `SNTP_ProcessPacket` with its assignments and the returned time. -/
def sntpProcessPacket (s : Network) (packet : List UInt8) : Network × UInt32 :=
  match Sntp.processPacket packet with
  | none => (s, 0)
  | some r => ({ s with tcnt1 := r.timer, time := r.time }, r.time)

/-- The rule that a reply is for. -/
def replyRule (T : RuleTable) (sourceIP : UInt32) (sourcePort : UInt16) : Option ℕ :=
  T.data.findIdx? (fun r => r.remoteIP == some sourceIP && r.networkPort == sourcePort)

/-- `type == ptSNTP` -/
def RuleKind.isSntp : RuleKind → Bool
  | .sntp _ => true
  | _ => false

/-- `UDP_Callback_Reply` takes a value from the packet. -/
def Taken (T : RuleTable) (s : Network) (packet : List UInt8) (ip : UInt32) (port : UInt16) : Prop :=
  ∃ i, replyRule T ip port = some i ∧
    if (T.rule i).kind.isSntp then (sntpProcessPacket s packet).2 ≠ 0
    else packet.length = ruleValueSize

/-- The clock, `TCNT1` and all rules are as before. -/
def Unchanged (s s' : Network) : Prop :=
  s'.time = s.time ∧ s'.tcnt1 = s.tcnt1 ∧ ∀ i, s'.rule i = s.rule i

/-- The reply is for the rule of a time server. -/
def FromServer (T : RuleTable) (ip : UInt32) (port : UInt16) : Prop :=
  ∃ i, replyRule T ip port = some i ∧ (T.rule i).kind.isSntp = true

/-- A rejected reply changes nothing, and the time of a server is set exactly. -/
structure CleanReply (T : RuleTable) (s : Network) (packet : List UInt8) (ip : UInt32)
    (port : UInt16) : Prop where
  rejected : ¬ Taken T s packet ip port → Unchanged s (udpCallbackReply T s packet ip port)
  set : (sntpProcessPacket s packet).2 ≠ 0 →
    (sntpProcessPacket s packet).2 = be32 packet Sntp.transmitSec - Sntp.ntpOffset ∧
      (sntpProcessPacket s packet).1.time = (sntpProcessPacket s packet).2 ∧
      (FromServer T ip port →
        (udpCallbackReply T s packet ip port).time = (sntpProcessPacket s packet).2)

/-- A valid reply whose transmit timestamp is in the first second of 2000. -/
def FirstSecond (packet : List UInt8) : Prop :=
  packet.length = Sntp.headerSize ∧ packet.getD 0 0 &&& 0x3F = Sntp.versionModeServer ∧
    packet.getD 0 0 &&& 0xC0 ≠ 0xC0 ∧ be32 packet Sntp.transmitSec = Sntp.ntpOffset

section replies

variable {T : RuleTable} {s : Network} {packet : List UInt8} {ip : UInt32} {port : UInt16} {i : ℕ}
  {r : Sntp.Reading}

/-! ### The time server -/

/-- What is read from an accepted packet. -/
theorem processPacket_reading (h : Sntp.processPacket packet = some r) :
    r = ⟨Sntp.frac2timer (be32 packet Sntp.transmitSub),
      be32 packet Sntp.transmitSec - Sntp.ntpOffset⟩ := by
  unfold Sntp.processPacket at h
  dsimp only at h
  split_ifs at h
  exact (Option.some.inj h).symm

/-- The time 0 of an accepted packet. -/
theorem firstSecond_iff :
    FirstSecond packet ↔ ∃ r, Sntp.processPacket packet = some r ∧ r.time = 0 := by
  have hzero : be32 packet Sntp.transmitSec - Sntp.ntpOffset = 0 ↔
      be32 packet Sntp.transmitSec = Sntp.ntpOffset := UInt32.sub_eq_iff_eq_add.trans (by simp)
  constructor
  · rintro ⟨hlen, hmode, hleap, hsec⟩
    refine ⟨⟨Sntp.frac2timer (be32 packet Sntp.transmitSub), _⟩, ?_, hzero.mpr hsec⟩
    unfold Sntp.processPacket
    dsimp only
    rw [if_neg (not_not_intro hlen), if_neg]
    rintro (h | h | ⟨h, -⟩)
    · exact h hmode
    · exact hleap h
    · exact absurd (hsec.symm.trans h) (by decide)
  · rintro ⟨r, h, htime⟩
    rw [processPacket_reading h] at htime
    unfold Sntp.processPacket at h
    dsimp only at h
    split_ifs at h with hlen hvalid
    simp only [not_or, not_not] at hlen hvalid
    exact ⟨hlen, hvalid.1, hvalid.2.1, hzero.mp htime⟩

theorem sntpProcessPacket_none (h : Sntp.processPacket packet = none) :
    sntpProcessPacket s packet = (s, 0) := by
  unfold sntpProcessPacket
  rw [h]

theorem sntpProcessPacket_some (h : Sntp.processPacket packet = some r) :
    sntpProcessPacket s packet = ({ s with tcnt1 := r.timer, time := r.time }, r.time) := by
  unfold sntpProcessPacket
  rw [h]

/-! ### The callback -/

theorem udpCallbackReply_none (h : replyRule T ip port = none) :
    udpCallbackReply T s packet ip port = s := by
  unfold replyRule at h
  unfold udpCallbackReply
  rw [h]

/-- The rules of a time server take over the returned time if it is not 0. -/
theorem udpCallbackReply_sntp (h : replyRule T ip port = some i)
    (hk : (T.rule i).kind.isSntp = true) :
    udpCallbackReply T s packet ip port =
      if (sntpProcessPacket s packet).2 = 0 then (sntpProcessPacket s packet).1
      else takeReply (sntpProcessPacket s packet).1 i
        ((sntpProcessPacket s packet).2 + timeBetweenQueries) (sntpProcessPacket s packet).2 := by
  obtain ⟨server, hkind⟩ : ∃ server, (T.rule i).kind = .sntp server := by
    cases hkind : (T.rule i).kind <;> simp [hkind, RuleKind.isSntp] at hk ⊢
  unfold replyRule at h
  unfold udpCallbackReply sntpProcessPacket
  rw [h]
  dsimp only
  rw [hkind]
  cases Sntp.processPacket packet with
  | none => rfl
  | some r => rfl

/-- The other remote rules take over a value of the right length. -/
theorem udpCallbackReply_remote (h : replyRule T ip port = some i)
    (hk : (T.rule i).kind.isSntp = false) :
    udpCallbackReply T s packet ip port =
      if packet.length ≠ ruleValueSize then s else takeReply s i timerOff (le32 packet 0) := by
  unfold replyRule at h
  unfold udpCallbackReply
  rw [h]
  dsimp only
  split
  · rename_i server hkind
    simp [hkind, RuleKind.isSntp] at hk
  · rfl

/-- A time server without a time for the rule changes nothing but its clock. -/
theorem rejected_server (h : replyRule T ip port = some i) (hk : (T.rule i).kind.isSntp = true)
    (hzero : (sntpProcessPacket s packet).2 = 0) :
    udpCallbackReply T s packet ip port = (sntpProcessPacket s packet).1 := by
  rw [udpCallbackReply_sntp h hk, if_pos hzero]

/-- All other rejected replies change nothing. -/
theorem rejected_unchanged (hreject : ¬ Taken T s packet ip port) (h : ¬ FromServer T ip port) :
    udpCallbackReply T s packet ip port = s := by
  cases hi : replyRule T ip port with
  | none => exact udpCallbackReply_none hi
  | some i =>
      have hk : (T.rule i).kind.isSntp = false := by
        rw [Bool.eq_false_iff]
        exact fun hk => h ⟨i, hi, hk⟩
      rw [udpCallbackReply_remote hi hk, if_pos]
      intro hlen
      apply hreject
      refine ⟨i, hi, ?_⟩
      rw [hk]
      exact hlen

/-- The clock after a reply of a time server. -/
theorem udpCallbackReply_time (h : FromServer T ip port) :
    (udpCallbackReply T s packet ip port).time = (sntpProcessPacket s packet).1.time := by
  obtain ⟨i, hi, hk⟩ := h
  rw [udpCallbackReply_sntp hi hk]
  split_ifs
  · rfl
  · rfl

/-- A returned time has been set. -/
theorem sntpProcessPacket_set (h : (sntpProcessPacket s packet).2 ≠ 0) :
    (sntpProcessPacket s packet).2 = be32 packet Sntp.transmitSec - Sntp.ntpOffset ∧
      (sntpProcessPacket s packet).1.time = (sntpProcessPacket s packet).2 := by
  cases hp : Sntp.processPacket packet with
  | none =>
      rw [sntpProcessPacket_none hp] at h
      exact absurd rfl h
  | some r =>
      rw [sntpProcessPacket_some hp, processPacket_reading hp]
      exact ⟨rfl, rfl⟩

/-- The returned 0 of a packet that is not of the first second means no effect. -/
theorem sntpProcessPacket_zero (h : (sntpProcessPacket s packet).2 = 0)
    (hp : ¬ FirstSecond packet) : (sntpProcessPacket s packet).1 = s := by
  cases hr : Sntp.processPacket packet with
  | none => rw [sntpProcessPacket_none hr]
  | some r =>
      rw [sntpProcessPacket_some hr] at h
      exact absurd (firstSecond_iff.mpr ⟨r, hr, h⟩) hp

/-- In the first second of 2000 the clock is set. -/
theorem sntpProcessPacket_firstSecond (h : FirstSecond packet) : sntpProcessPacket s packet =
    ({ s with tcnt1 := Sntp.frac2timer (be32 packet Sntp.transmitSub), time := 0 }, 0) := by
  obtain ⟨r, hr, htime⟩ := firstSecond_iff.mp h
  rw [sntpProcessPacket_some hr, htime]
  rw [processPacket_reading hr]

/-- A returned 0 leaves the clock as it is, except in the first second of 2000. -/
theorem sntpProcessPacket_keeps_iff (h : (sntpProcessPacket s packet).2 = 0) :
    (sntpProcessPacket s packet).1.time = s.time ∧ (sntpProcessPacket s packet).1.tcnt1 = s.tcnt1 ↔
      ¬ (FirstSecond packet ∧
        (s.time ≠ 0 ∨ s.tcnt1 ≠ Sntp.frac2timer (be32 packet Sntp.transmitSub))) := by
  by_cases hfirst : FirstSecond packet
  · rw [sntpProcessPacket_firstSecond hfirst, and_iff_right hfirst, not_or, not_not, not_not]
    exact and_congr eq_comm eq_comm
  · rw [sntpProcessPacket_zero h hfirst]
    exact iff_of_true ⟨rfl, rfl⟩ fun hf => hfirst hf.1

theorem sntpProcessPacket_rule (s : Network) (packet : List UInt8) :
    (sntpProcessPacket s packet).1.rule = s.rule := by
  cases h : Sntp.processPacket packet with
  | none => rw [sntpProcessPacket_none h]
  | some r => rw [sntpProcessPacket_some h]

end replies

/-! ### The theorem -/

/-- A rejected reply changes nothing, and a returned time has been set, except if the reply is for the
rule of a time server, it is of the first second of 2000, and clock or `TCNT1` are different. -/
theorem udpCallbackReply_clean_iff (T : RuleTable) (s : Network) (packet : List UInt8) (ip : UInt32)
    (port : UInt16) : CleanReply T s packet ip port ↔
      ¬ (FromServer T ip port ∧ FirstSecond packet ∧
        (s.time ≠ 0 ∨ s.tcnt1 ≠ Sntp.frac2timer (be32 packet Sntp.transmitSub))) := by
  constructor
  · rintro hclean ⟨⟨i, hi, hk⟩, hfirst⟩
    have hzero : (sntpProcessPacket s packet).2 = 0 := by
      rw [sntpProcessPacket_firstSecond hfirst.1]
    have hreject : ¬ Taken T s packet ip port := by
      rintro ⟨j, hj, ht⟩
      obtain rfl := Option.some.inj (hi.symm.trans hj)
      rw [hk] at ht
      exact ht hzero
    obtain ⟨htime, htimer, -⟩ := hclean.rejected hreject
    rw [rejected_server hi hk hzero] at htime htimer
    exact (sntpProcessPacket_keeps_iff hzero).mp ⟨htime, htimer⟩ hfirst
  · intro hok
    constructor
    · intro hreject
      by_cases hserver : FromServer T ip port
      · obtain ⟨i, hi, hk⟩ := hserver
        have hzero : (sntpProcessPacket s packet).2 = 0 := by
          by_contra hne
          apply hreject
          refine ⟨i, hi, ?_⟩
          rw [hk]
          exact hne
        obtain ⟨htime, htimer⟩ := (sntpProcessPacket_keeps_iff hzero).mpr
          fun hfirst => hok ⟨⟨i, hi, hk⟩, hfirst⟩
        rw [rejected_server hi hk hzero]
        exact ⟨htime, htimer, congrFun (sntpProcessPacket_rule s packet)⟩
      · rw [rejected_unchanged hreject hserver]
        exact ⟨rfl, rfl, fun _ => rfl⟩
    · intro hne
      obtain ⟨hsec, htime⟩ := sntpProcessPacket_set hne
      refine ⟨hsec, htime, fun hserver => ?_⟩
      rw [udpCallbackReply_time hserver, htime]

/-- A table with the rule of a time server. -/
def serverTable : RuleTable where
  data := [⟨.daylight, 0, 0⟩, ⟨.sntp 0x0101A8C0, 0, 123⟩]
  pos := by decide
  small := by decide

/-- The reply of a server in the first second of 2000. -/
def firstSecondReply : List UInt8 :=
  0x1C :: List.replicate 39 0 ++ [0xBC, 0x17, 0xC2, 0x00, 0, 0, 0, 1]

/-- It is rejected, but sets a clock that is at 1000. -/
theorem not_rejected_unchanged :
    ¬ ∀ (T : RuleTable) (s : Network) (packet : List UInt8) (ip : UInt32) (port : UInt16),
      CleanReply T s packet ip port := by
  intro h
  have hclean := h serverTable ((Network.init fun _ => 0).setTime 1000) firstSecondReply 0x0101A8C0 123
  have hreject : ¬ Taken serverTable ((Network.init fun _ => 0).setTime 1000) firstSecondReply
      0x0101A8C0 123 := by
    rintro ⟨i, hi, ht⟩
    obtain rfl : i = 1 := Option.some.inj (hi.symm.trans (by decide))
    revert ht
    decide +kernel
  have htime := (hclean.rejected hreject).1
  revert htime
  decide +kernel

end TimeSwitch.Rules
