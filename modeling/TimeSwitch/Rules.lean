import TimeSwitch.Library.Sweep
import TimeSwitch.Sntp
import TimeSwitch.Timestamp

/-! # The rules

`rules.c`: a table of rules, each with a value that depends on other rules, on the clock or on
another device of the network.  `checkRules` brings the values up to date, `sendChangedRules`
broadcasts the changes, and the two callbacks answer requests and take over replies.

* A rule number is an index of the table; the loops count in `uint8_t`, so a table has at most 255
  rules.
* `ruleValue_t` is `uint32_t`.
* Whether the USB queue is free for a packet, and whether a unicast finds the address of its
  destination, is an input of the loops (`Uplink`, `ready`).
* What the rules put on the network is recorded in `sent`, the latest first. -/

namespace TimeSwitch.Rules

/-! ### The table -/

/-- `ruleType_t` with the member of `data` that belongs to the type. -/
inductive RuleKind where
  | logic (type : UInt8) (second third fourth : ℕ)
  | relay (port : ℕ) (bitValue : UInt8)
  | input
  | timeSwitch (wdays : UInt8) (starthour startmin stophour stopmin : ℕ)
  | trigger (type hour min sec : UInt8)
  | daylight
  | sntp (ip : UInt32)
  | remote (ip : UInt32)
deriving DecidableEq, Repr

/-- `ruleData_t` -/
structure RuleData where
  kind : RuleKind
  dependIndex : ℕ
  networkPort : UInt16
deriving DecidableEq, Repr

instance : Inhabited RuleData := ⟨⟨.input, 0, 0⟩⟩

/-- `ruleData`: the table. -/
structure RuleTable where
  data : List RuleData
  pos : 0 < data.length
  small : data.length ≤ 255

namespace RuleTable

/-- `ARRAY_SIZE(ruleData)` -/
def size (T : RuleTable) : ℕ := T.data.length

/-- `ruleData[rule]` -/
def rule (T : RuleTable) (i : ℕ) : RuleData := T.data.getD i default

end RuleTable

/-- `type >= 0` -/
def RuleData.isLocal (r : RuleData) : Bool :=
  match r.kind with
  | .sntp _ | .remote _ => false
  | _ => true

/-- The rules whose state `checkDependency` looks at. -/
def RuleData.depends (r : RuleData) : List ℕ :=
  match r.kind with
  | .logic _ b c d => [r.dependIndex, b, c, d]
  | _ => [r.dependIndex]

/-- The register and the bit of a relay. -/
def RuleData.relay (r : RuleData) : Option (ℕ × UInt8) :=
  match r.kind with
  | .relay port bitValue => some (port, bitValue)
  | _ => none

/-- Every rule but the first depends only on earlier rules. -/
def RuleTable.Ordered (T : RuleTable) : Prop :=
  ∀ i < T.size, i ≠ 0 → ∀ d ∈ (T.rule i).depends, d < i

instance (T : RuleTable) : Decidable T.Ordered := by unfold RuleTable.Ordered; infer_instance

/-! ### Logic rules -/

namespace LogicType

def invA : UInt8 := 1
def invB : UInt8 := 2
def invC : UInt8 := 4
def invD : UInt8 := 8
def invQ1 : UInt8 := 16
def invQ2 : UInt8 := 32
def invQ : UInt8 := 64
def xor : UInt8 := 128

/-- `LogicORABCD` and `LogicRepeat` -/
def or : UInt8 := 0
/-- `LogicForceOff`, the `LogicANDAB` of the source -/
def forceOff : UInt8 := invA ^^^ invB ^^^ invQ1
/-- `LogicForceOn` -/
def forceOn : UInt8 := forceOff ^^^ invQ

end LogicType

/-- `(type & flag) == flag` -/
def hasFlag (type flag : UInt8) : Bool := type &&& flag == flag

/-- `if((type & flag) == flag) v = ~v` -/
def invertIf (type flag : UInt8) (v : UInt32) : UInt32 := if hasFlag type flag then ~~~v else v

/-- The gates of a logic rule. -/
def logicGate (type : UInt8) (a b c d : UInt32) : UInt32 :=
  let a := invertIf type LogicType.invA a
  let b := invertIf type LogicType.invB b
  let c := invertIf type LogicType.invC c
  let d := invertIf type LogicType.invD d
  let q₁ := if hasFlag type LogicType.xor then a ^^^ b else a ||| b
  let q₂ := if hasFlag type LogicType.xor then c ^^^ d else c ||| d
  let q₁ := invertIf type LogicType.invQ1 q₁
  let q₂ := invertIf type LogicType.invQ2 q₂
  let q := if hasFlag type LogicType.xor then q₁ ^^^ q₂ else q₁ ||| q₂
  invertIf type LogicType.invQ q

/-! ### State -/

/-- `ruleOK_t` -/
inductive RuleOK where
  | unknown
  | ok
  | changed
  | sendLater
deriving DecidableEq, Repr

/-- `ruleState_t` -/
structure RuleState where
  timer : UInt32
  value : UInt32
  ok : RuleOK
deriving DecidableEq

/-- `timerOff` -/
def timerOff : UInt32 := 0xFFFFFFFF

/-- A datagram of the rules: the broadcast of a changed value, the answer to a request, or the
request of a remote rule.  The first argument is the rule; the ports are those that are not
`UDP_PORT`. -/
inductive Sending where
  | broadcast (rule : ℕ) (sourcePort : UInt16) (value : UInt32)
  | answer (rule : ℕ) (sourcePort : UInt16) (value : UInt32)
  | request (rule : ℕ) (destinationIP : UInt32) (destinationPort : UInt16)
deriving DecidableEq

/-- The static variables of the rules and of the clock, the registers they use, and what was
sent. -/
structure Network where
  rule : ℕ → RuleState
  port : ℕ → UInt8
  clock : Clock
  time : UInt32
  tcnt1 : UInt16
  sent : List Sending

namespace Network

/-- The start; the port registers are arbitrary. -/
def init (port : ℕ → UInt8) : Network := ⟨fun _ => ⟨5, 0, .unknown⟩, port, Clock.init, 0, 0, []⟩

/-- Change the state of one rule. -/
def setRule (s : Network) (i : ℕ) (r : RuleState) : Network :=
  { s with rule := Function.update s.rule i r }

/-- `ruleState[i].ok = …` -/
def setOk (s : Network) (i : ℕ) (b : RuleOK) : Network := s.setRule i { s.rule i with ok := b }

/-- `time` returns `now`. -/
def setTime (s : Network) (now : UInt32) : Network := { s with time := now }

/-- Record a datagram. -/
def send (s : Network) (d : Sending) : Network := { s with sent := d :: s.sent }

variable (s : Network) (i : ℕ)

@[simp] theorem setRule_same (r : RuleState) : (s.setRule i r).rule i = r :=
  Function.update_self ..
@[simp] theorem setRule_of_ne {i j : ℕ} (r : RuleState) (h : j ≠ i) :
    (s.setRule i r).rule j = s.rule j := Function.update_of_ne h ..
@[simp] theorem setRule_port (r : RuleState) : (s.setRule i r).port = s.port := rfl
@[simp] theorem setRule_time (r : RuleState) : (s.setRule i r).time = s.time := rfl
@[simp] theorem setRule_sent (r : RuleState) : (s.setRule i r).sent = s.sent := rfl

@[simp] theorem setOk_same (b : RuleOK) : (s.setOk i b).rule i = { s.rule i with ok := b } :=
  setRule_same ..
@[simp] theorem setOk_of_ne {i j : ℕ} (b : RuleOK) (h : j ≠ i) :
    (s.setOk i b).rule j = s.rule j := setRule_of_ne _ _ h
theorem setOk_value (b : RuleOK) (j : ℕ) : ((s.setOk i b).rule j).value = (s.rule j).value := by
  by_cases h : j = i
  · subst h
    rw [setOk_same]
  · rw [setOk_of_ne _ _ h]
@[simp] theorem setOk_port (b : RuleOK) : (s.setOk i b).port = s.port := rfl
@[simp] theorem setOk_time (b : RuleOK) : (s.setOk i b).time = s.time := rfl
@[simp] theorem setOk_sent (b : RuleOK) : (s.setOk i b).sent = s.sent := rfl

@[simp] theorem setTime_rule (now : UInt32) : (s.setTime now).rule = s.rule := rfl
@[simp] theorem setTime_port (now : UInt32) : (s.setTime now).port = s.port := rfl
@[simp] theorem setTime_time (now : UInt32) : (s.setTime now).time = now := rfl
@[simp] theorem setTime_sent (now : UInt32) : (s.setTime now).sent = s.sent := rfl

@[simp] theorem send_rule (d : Sending) : (s.send d).rule = s.rule := rfl
@[simp] theorem send_port (d : Sending) : (s.send d).port = s.port := rfl
@[simp] theorem send_sent (d : Sending) : (s.send d).sent = d :: s.sent := rfl

end Network

/-! ### `checkRules` -/

/-- Some dependency of the rule is unknown: `checkDependency` returns true. -/
def dependUnknown (T : RuleTable) (s : Network) (i : ℕ) : Bool :=
  (T.rule i).depends.any (fun d => (s.rule d).ok = .unknown)

/-- The flag `dependChanged`, which `checkDependency` sets. -/
def dependChanged (T : RuleTable) (s : Network) (i : ℕ) : Bool :=
  (T.rule i).depends.any (fun d => (s.rule d).ok = .changed)

/-- What the request of a remote rule meets: a busy USB queue, nothing, or a destination without an
entry in the ARP table. -/
inductive Uplink where
  | busy
  | sent
  | unresolved
deriving DecidableEq

/-- What the switch of `checkRules` leaves: the timer of the rule, the resulting value, or none when
it sets the rule unknown, and the rest of the state. -/
structure Evaluation where
  timer : UInt32
  value : Option UInt32
  port : ℕ → UInt8
  clock : Clock
  sent : List Sending

/-- `wdays & _BV(tm_wday)` -/
def onWeekday (wdays : UInt8) (tm : Tm) : Bool := wdays.toNat.testBit tm.wday.toNat

/-- The case `ptTimeSwitch`: value, timer and clock. -/
def evalTimeSwitch (L : TimeLib) (clock : Clock) (now : UInt32) (wdays : UInt8)
    (starthour startmin stophour stopmin : ℕ) : UInt32 × UInt32 × Clock :=
  let clock := getStructTM L clock now
  if onWeekday wdays clock.tm then
    let start := calculateTimestamp L clock.tm starthour startmin
    let clock := { clock with tm := start.2 }
    if now < start.1 then (0, start.1, clock)
    else
      let stop := calculateTimestamp L clock.tm stophour stopmin
      let clock := { clock with tm := stop.2 }
      if now < stop.1 then (stop.1 - now, now + 1, clock) else (0, getMidnight clock, clock)
  else (0, getMidnight clock, clock)

/-- `TriggerRising` -/
def triggerRising : UInt8 := 1
/-- `TriggerFalling` -/
def triggerFalling : UInt8 := 2
/-- `TriggerMonoflopRetrigger` -/
def triggerMonoflopRetrigger : UInt8 := 4

/-- The case `ptTrigger`: value and timer, from the value `v` of the dependency. -/
def evalTrigger (now timer v : UInt32) (changed : Bool) (type hour min sec : UInt8) :
    UInt32 × UInt32 :=
  if changed ∧ (hasFlag type triggerMonoflopRetrigger ∨ timer = timerOff) then
    if hasFlag type triggerRising ∧ v ≠ 0 ∨ hasFlag type triggerFalling ∧ v = 0 then
      (1, now + (hour.toUInt32 * 60 + min.toUInt32) * 60 + sec.toUInt32)
    else (0, timer)
  else if timer ≠ timerOff then
    -- stay on even if the dependency switched off
    if now < timer then (1, timer) else (0, timerOff)
  else (v, timer)

/-- The register of a relay after it is switched. -/
def switchBit (register bitValue : UInt8) (v : UInt32) : UInt8 :=
  if v ≠ 0 then register ||| bitValue else register &&& ~~~bitValue

/-- The cases `ptSNTP` and `ptRemote`: the rule stays unknown until the reply. -/
def evalRemote (uplink : Uplink) (now : UInt32) (d : Sending) (e : Evaluation) : Evaluation :=
  match uplink with
  | .busy => e
  | .sent => { e with timer := now + 2, sent := d :: e.sent }
  | .unresolved => { e with timer := now + 1 }

/-- The switch of `checkRules` -/
def evaluate (T : RuleTable) (L : TimeLib) (uplink : ℕ → Uplink) (s : Network) (i : ℕ) :
    Evaluation :=
  let rule := T.rule i
  let v := (s.rule rule.dependIndex).value
  let e : Evaluation := ⟨(s.rule i).timer, none, s.port, s.clock, s.sent⟩
  match rule.kind with
  | .logic type b c d =>
      { e with
        timer := timerOff
        value := some (logicGate type v (s.rule b).value (s.rule c).value (s.rule d).value) }
  | .relay port bitValue =>
      { e with
        timer := timerOff
        value := some v
        port := Function.update s.port port (switchBit (s.port port) bitValue v) }
  | .timeSwitch wdays h m h' m' =>
      let r := evalTimeSwitch L s.clock s.time wdays h m h' m'
      { e with timer := r.2.1, value := some r.1, clock := r.2.2 }
  | .trigger type h m sec =>
      let r := evalTrigger s.time (s.rule i).timer v (dependChanged T s i) type h m sec
      { e with timer := r.2, value := some r.1 }
  | .sntp ip | .remote ip =>
      evalRemote (uplink i) s.time (.request i ip rule.networkPort) e
  | .input | .daylight => { e with timer := timerOff }

/-- The rule after its evaluation: `ruleSendLater` is kept, and a new value is flagged. -/
def RuleState.settle (r : RuleState) (e : Evaluation) : RuleState :=
  match e.value with
  | none => ⟨e.timer, r.value, .unknown⟩
  | some v =>
      if r.value ≠ v then ⟨e.timer, v, .changed⟩
      else ⟨e.timer, r.value, if r.ok = .sendLater then .sendLater else .ok⟩

/-- Take over an evaluation of the rule `i`. -/
def Network.settle (s : Network) (i : ℕ) (e : Evaluation) : Network :=
  { s with port := e.port, clock := e.clock, sent := e.sent }.setRule i ((s.rule i).settle e)

/-- The turn of a rule in `checkRules` -/
def checkRule (T : RuleTable) (L : TimeLib) (uplink : ℕ → Uplink) (s : Network) (i : ℕ) :
    Network :=
  if dependUnknown T s i then s.setOk i .unknown
  else if dependChanged T s i = false ∧ s.time < (s.rule i).timer then s
  else s.settle i (evaluate T L uplink s i)

/-- `checkRules` -/
def checkRules (T : RuleTable) (L : TimeLib) (uplink : ℕ → Uplink) (s : Network) : Network :=
  sweep (checkRule T L uplink) T.size (s.setOk 0 .ok)

/-! ### `sendChangedRules` -/

/-- `ok >= ruleChanged` -/
def RuleState.pending (r : RuleState) : Prop := r.ok = .changed ∨ r.ok = .sendLater

instance (r : RuleState) : Decidable r.pending := by unfold RuleState.pending; infer_instance

/-- `networkPort ? : rule` -/
def broadcastPort (T : RuleTable) (i : ℕ) : UInt16 :=
  if (T.rule i).networkPort ≠ 0 then (T.rule i).networkPort else UInt16.ofNat i

/-- The turn of a rule in `sendChangedRules` -/
def sendChangedRule (T : RuleTable) (ready : ℕ → Bool) (s : Network) (i : ℕ) : Network :=
  if (s.rule i).pending then
    if (T.rule i).isLocal then
      if ready i then (s.send (.broadcast i (broadcastPort T i) (s.rule i).value)).setOk i .ok
      else s
    else s.setOk i .sendLater
  else s

/-- `sendChangedRules` -/
def sendChangedRules (T : RuleTable) (ready : ℕ → Bool) (s : Network) : Network :=
  sweep (sendChangedRule T ready) T.size s

/-! ### Received packets -/

/-- `sizeof(ruleValue_t)` -/
def ruleValueSize : ℕ := 4

/-- `UDP_PORT` -/
def udpPort : UInt16 := 65432

/-- `sizeof(UDP_Header_t)` -/
def udpHeaderSize : ℕ := 8

/-- `SNTP_TimeBetweenQueries` -/
def timeBetweenQueries : UInt32 := 300

/-- `data.IP` of a remote rule -/
def RuleData.remoteIP (r : RuleData) : Option UInt32 :=
  match r.kind with
  | .sntp ip | .remote ip => some ip
  | _ => none

/-- `UDP_Callback_Request`: true with the value in the packet is an answer. -/
def udpCallbackRequest (T : RuleTable) (s : Network) (packet : List UInt8)
    (destinationPort : UInt16) : Network :=
  if packet.length ≠ ruleValueSize ∨ le32 packet 0 ≠ 0 then s
  else
    match T.data.findIdx? (fun r => r.isLocal && r.networkPort == destinationPort) with
    | none => s
    | some i =>
        if (s.rule i).ok = .unknown then s
        else (s.send (.answer i destinationPort (s.rule i).value)).setOk i .ok

/-- The end of `UDP_Callback_Reply`: take over value and timer. -/
def takeReply (s : Network) (i : ℕ) (timer value : UInt32) : Network :=
  s.setRule i ⟨timer, value, if (s.rule i).value = value then .ok else .changed⟩

/-- `UDP_Callback_Reply` -/
def udpCallbackReply (T : RuleTable) (s : Network) (packet : List UInt8) (sourceIP : UInt32)
    (sourcePort : UInt16) : Network :=
  match T.data.findIdx? (fun r => r.remoteIP == some sourceIP && r.networkPort == sourcePort) with
  | none => s
  | some i =>
      match (T.rule i).kind with
      | .sntp _ =>
          match Sntp.processPacket packet with
          | none => s
          | some r =>
              let s := { s with tcnt1 := r.timer, time := r.time }
              if r.time = 0 then s else takeReply s i (r.time + timeBetweenQueries) r.time
      | _ =>
          if packet.length ≠ ruleValueSize then s else takeReply s i timerOff (le32 packet 0)

/-- A UDP datagram as `IP_ProcessPacket` hands it over: the length field of its header, and all that
follows the header in the IP packet. -/
structure Datagram where
  sourceIP : UInt32
  sourcePort : UInt16
  destinationPort : UInt16
  length : ℕ
  data : List UInt8

/-- `UDP_ProcessPacket` -/
def udpProcessPacket (T : RuleTable) (s : Network) (d : Datagram) : Network :=
  if udpHeaderSize + d.data.length < d.length then s
  else if d.sourcePort = udpPort then udpCallbackRequest T s d.data d.destinationPort
  else if d.destinationPort = udpPort then udpCallbackReply T s d.data d.sourceIP d.sourcePort
  else s

/-! ### The main loop -/

/-- The inputs of a round: the packet that was received, the clock when `checkRules` reads it, and
the state of the USB queue. -/
structure Round where
  packet : Option Datagram
  now : UInt32
  uplink : ℕ → Uplink
  ready : ℕ → Bool

/-- `processNetworkPackets` -/
def processNetworkPackets (T : RuleTable) (s : Network) (packet : Option Datagram) : Network :=
  match packet with
  | none => s
  | some d => udpProcessPacket T s d

/-- The state when `checkRules` is called. -/
def beforeCheck (T : RuleTable) (s : Network) (r : Round) : Network :=
  (processNetworkPackets T s r.packet).setTime r.now

/-- The state after `checkRules`. -/
def afterCheck (T : RuleTable) (L : TimeLib) (s : Network) (r : Round) : Network :=
  checkRules T L r.uplink (beforeCheck T s r)

/-- A round of the main loop -/
def round (T : RuleTable) (L : TimeLib) (s : Network) (r : Round) : Network :=
  sendChangedRules T r.ready (afterCheck T L s r)

end TimeSwitch.Rules
