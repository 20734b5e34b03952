import TimeSwitch.Reception

/-! # A node on frames

A board is a node with its addresses.  Its rounds take a frame from the wire and put frames on it,
through the generators and the handlers of the network stack.  They are the rounds of the rules
(`round_refines`): the received frame is the datagram it brings, the uplink of a remote rule is what
the ARP table says, and the datagrams in the frames that are sent are the ones that the rules record,
in the same order. -/

namespace TimeSwitch.Net

open Program ByteMemory Rules

/-- A node with its addresses and its rules. -/
structure Board where
  host : Host
  table : RuleTable

/-- A packet of `USB_prepareTS`, with room for the largest frame and the bytes that were in it. -/
structure SendPacket where
  size : ℕ
  data : Mem
  room : Usb.packetLenMax ≤ size

/-- The inputs of a round: the frame that was received, the clock when `checkRules` reads it, and the
packets that the USB queue has for the rules in `checkRules` and in `sendChangedRules`. -/
structure FrameRound where
  frame : Option Frame
  now : UInt32
  request : ℕ → Option SendPacket
  changed : ℕ → Option SendPacket

/-- The state of a board within a round, and the frames given to `USB_Send`, the latest first. -/
structure Wired where
  station : Station Network
  out : List Frame

/-- The rules of a board change. -/
def Wired.setApp (x : Wired) (app : Network) : Wired :=
  { x with station := { x.station with app := app } }

/-- A frame is sent. -/
def Wired.send (x : Wired) (frames : List Frame) : Wired := { x with out := frames ++ x.out }

namespace Board

variable (b : Board) (L : TimeLib)

/-- The board as a node of the rules. -/
def node : Node := ⟨b.table, b.host.ip⟩

/-! ### Rounds -/

/-- `processNetworkPackets` -/
def processNetworkPackets (s : Station Network) (frame : Option Frame) : Wired :=
  match frame with
  | none => ⟨s, []⟩
  | some f =>
      let r := receiveFrame b.host b.table s f
      ⟨r.1, r.2⟩

/-- The station when the rules are checked. -/
def received (s : Station Network) (frame : Option Frame) : Station Network :=
  (b.processNetworkPackets { s with app := { s.app with sent := [] } } frame).station

/-- The cases `ptSNTP` and `ptRemote` of `checkRules`: what the request meets, and what is sent. -/
def sendRequest (packet : Option SendPacket) (s : Station Network) (i : ℕ) : Uplink × List Frame :=
  match packet with
  | none => (.busy, [])
  | some p =>
      match requestPacket b.host (b.table.rule i) p.size p.data s with
      | none => (.busy, [])
      | some (length, m, _) =>
          if 0 < length then (.sent, [m.read 0 length.toNat])
          else (.unresolved, [m.read 0 (-length).toNat])

/-- The turn of a rule in `checkRules` -/
def checkRule (packet : ℕ → Option SendPacket) (x : Wired) (i : ℕ) : Wired :=
  if Due b.table x.station.app i ∧ (b.table.rule i).isLocal = false then
    let r := b.sendRequest (packet i) x.station i
    (x.setApp (Rules.checkRule b.table L (fun _ => r.1) x.station.app i)).send r.2
  else x.setApp (Rules.checkRule b.table L (fun _ => .busy) x.station.app i)

/-- `checkRules` -/
def checkRules (packet : ℕ → Option SendPacket) (x : Wired) : Wired :=
  sweep (b.checkRule L packet) b.table.size (x.setApp (x.station.app.setOk 0 .ok))

/-- The broadcast of a rule in `sendChangedRules` -/
def sendChanged (packet : Option SendPacket) (s : Station Network) (i : ℕ) : List Frame :=
  match packet with
  | none => []
  | some p =>
      match changedPacket b.host (broadcastPort b.table i) (s.app.rule i).value p.size p.data s with
      | none => []
      | some (len, m, _) => [m.read 0 len]

/-- The turn of a rule in `sendChangedRules` -/
def sendChangedRule (packet : ℕ → Option SendPacket) (x : Wired) (i : ℕ) : Wired :=
  let x' := x.setApp
    (Rules.sendChangedRule b.table (fun i => (packet i).isSome) x.station.app i)
  if (x.station.app.rule i).pending ∧ (b.table.rule i).isLocal = true then
    x'.send (b.sendChanged (packet i) x.station i)
  else x'

/-- `sendChangedRules` -/
def sendChangedRules (packet : ℕ → Option SendPacket) (x : Wired) : Wired :=
  sweep (b.sendChangedRule packet) b.table.size x

/-- A round of the main loop: the state after it, and the frames that it puts on the wire. -/
def round (s : Station Network) (r : FrameRound) : Station Network × List Frame :=
  let x := b.processNetworkPackets { s with app := { s.app with sent := [] } } r.frame
  let x := b.checkRules L r.request (x.setApp (x.station.app.setTime r.now))
  let x := b.sendChangedRules r.changed x
  (x.station, x.out)

/-- A round as a step. -/
def Step (s : Station Network) (r : FrameRound) (s' : Station Network) : Prop := s' = (b.round L s r).1

/-- The frame of a round keeps the board within its ARP table. -/
def Within (s : Station Network) (r : FrameRound) : Prop := ∀ f ∈ r.frame, WithinTable b.host s f

/-! ### The rules of a round -/

/-- What the request of a remote rule meets, by the ARP table. -/
def uplink (s : Station Network) (packet : ℕ → Option SendPacket) (i : ℕ) : Uplink :=
  match packet i, (b.table.rule i).remoteIP with
  | some _, some ip => if (arpSearchMAC s (b.host.nextHop ip)).isSome then .sent else .unresolved
  | _, _ => .busy

/-- A round as the rules see it. -/
def rulesRound (s : Station Network) (r : FrameRound) : Rules.Round where
  packet := r.frame.bind (broughtDatagram b.host)
  now := r.now
  uplink := b.uplink (b.processNetworkPackets { s with app := { s.app with sent := [] } }
    r.frame).station r.request
  ready := fun i => (r.changed i).isSome

/-- The destination address and the datagram of a sending. -/
def wire (packet : Option Datagram) (d : Sending) : UInt32 × Datagram :=
  ((b.node.message packet d).destinationIP.getD b.host.broadcastIP,
    (b.node.message packet d).datagram)

end Board

/-! ### What a turn sends -/

/-- A turn of a board: its rules change, and it sends nothing, the frame of `ARP_GenerateRequest` for the
next hop of a remote rule, a request, or a broadcast. -/
inductive Emits (b : Board) (x : Wired) : Wired → Prop
  | nothing (app : Network) : app.sent = x.station.app.sent → Emits b x (x.setApp app)
  | arp (app : Network) (i : ℕ) (ip : UInt32) : (b.table.rule i).remoteIP = some ip →
      arpSearchMAC x.station (b.host.nextHop ip) = none → app.sent = x.station.app.sent →
      Emits b x ((x.setApp app).send [arpGenerated b.host (b.host.nextHop ip)])
  | request (app : Network) (i : ℕ) (ip : UInt32) (mac : List UInt8) (hmac : mac.length = 6) :
      (b.table.rule i).remoteIP = some ip →
      arpSearchMAC x.station (b.host.nextHop ip) = some mac →
      app.sent = .request i ip (b.table.rule i).networkPort :: x.station.app.sent →
      Emits b x ((x.setApp app).send [(unicastParcel b.host mac hmac ip (b.table.rule i).networkPort
        (b.table.rule i).requestBody).frame])
  | broadcast (app : Network) (i : ℕ) (port : UInt16) (v : UInt32) :
      app.sent = .broadcast i port v :: x.station.app.sent →
      Emits b x ((x.setApp app).send [(broadcastParcel b.host port (bytes32 v)).frame])

namespace Board

section turns

variable {b : Board} {L : TimeLib} {packet : ℕ → Option SendPacket} {x : Wired} {i : ℕ}
  {ip : UInt32}

theorem requestBody_length (r : RuleData) : r.requestBody.length ≤ 48 := by
  unfold RuleData.requestBody
  cases r.kind <;> simp

/-- The request of a remote rule, with an entry for the next hop. -/
theorem sendRequest_found {p : SendPacket} {s : Station Network} {mac : List UInt8}
    (hr : (b.table.rule i).remoteIP = some ip)
    (hsearch : arpSearchMAC s (b.host.nextHop ip) = some mac) (hmac : mac.length = 6) :
    b.sendRequest (some p) s i = (.sent, [(unicastParcel b.host mac hmac ip
      (b.table.rule i).networkPort (b.table.rule i).requestBody).frame]) := by
  have hroom := p.room
  unfold Usb.packetLenMax at hroom
  obtain ⟨m', hrequest, hin⟩ := requestPacket_found (m := p.data) hr hsearch hmac
    (n := p.size) (by omega)
  have hsent : m'.read 0 (42 + (b.table.rule i).requestBody.length) = _ := hin.sent
  unfold sendRequest
  dsimp only
  rw [hrequest]
  dsimp only
  rw [if_pos (by omega), Int.toNat_natCast, hsent]

/-- The request of a remote rule, without an entry for the next hop. -/
theorem sendRequest_missing {p : SendPacket} {s : Station Network}
    (hr : (b.table.rule i).remoteIP = some ip)
    (hsearch : arpSearchMAC s (b.host.nextHop ip) = none) :
    b.sendRequest (some p) s i = (.unresolved, [arpGenerated b.host (b.host.nextHop ip)]) := by
  have hroom := p.room
  unfold Usb.packetLenMax at hroom
  have hread : (p.data.blit 0 (arpGenerated b.host (b.host.nextHop ip))).read 0 42 = _ :=
    arpGenerated_read (S := b.host) (m := p.data) rfl
  unfold sendRequest
  dsimp only
  rw [requestPacket_missing hr hsearch (by omega)]
  dsimp only
  rw [if_neg (by decide)]
  show (Uplink.unresolved, [_]) = _
  rw [← hread]
  rfl

theorem uplink_none {s : Station Network} (hp : packet i = none) :
    b.uplink s packet i = .busy := by
  unfold uplink
  rw [hp]

theorem uplink_missing {p : SendPacket} {s : Station Network} (hp : packet i = some p)
    (hr : (b.table.rule i).remoteIP = some ip)
    (hsearch : arpSearchMAC s (b.host.nextHop ip) = none) : b.uplink s packet i = .unresolved := by
  unfold uplink
  rw [hp, hr]
  simp [hsearch]

theorem uplink_found {p : SendPacket} {s : Station Network} {mac : List UInt8}
    (hp : packet i = some p) (hr : (b.table.rule i).remoteIP = some ip)
    (hsearch : arpSearchMAC s (b.host.nextHop ip) = some mac) : b.uplink s packet i = .sent := by
  unfold uplink
  rw [hp, hr]
  simp [hsearch]

/-- **A turn of `checkRules`** is the one of the rules, and sends what it records. -/
theorem checkRule_emits (hs : x.station.Sized) : Emits b x (b.checkRule L packet x i) ∧
    (b.checkRule L packet x i).station.app =
      Rules.checkRule b.table L (b.uplink x.station packet) x.station.app i := by
  unfold checkRule
  by_cases hd : Due b.table x.station.app i ∧ (b.table.rule i).isLocal = false
  · obtain ⟨ip, hip⟩ := isLocal_eq_false.mp hd.2
    have hsame : ∀ {up}, b.uplink x.station packet i = up →
        Rules.checkRule b.table L (fun _ => up) x.station.app i =
            Rules.checkRule b.table L (b.uplink x.station packet) x.station.app i ∧
          (Rules.checkRule b.table L (fun _ => up) x.station.app i).sent = if up = .sent then
            .request i ip (b.table.rule i).networkPort :: x.station.app.sent
            else x.station.app.sent :=
      fun h => ⟨checkRule_congr fun _ _ => h.symm, checkRule_sent_remote hd.1 hip⟩
    rw [if_pos hd]
    cases hp : packet i with
    | none =>
        obtain ⟨happ, hsent⟩ := hsame (uplink_none hp)
        exact ⟨.nothing _ hsent, happ⟩
    | some p =>
        cases hsearch : arpSearchMAC x.station (b.host.nextHop ip) with
        | none =>
            obtain ⟨happ, hsent⟩ := hsame (uplink_missing hp hip hsearch)
            rw [sendRequest_missing hip hsearch]
            exact ⟨.arp _ i ip hip hsearch hsent, happ⟩
        | some mac =>
            obtain ⟨happ, hsent⟩ := hsame (uplink_found hp hip hsearch)
            rw [sendRequest_found hip hsearch (hs.search hsearch)]
            exact ⟨.request _ i ip mac (hs.search hsearch) hip hsearch hsent, happ⟩
  · rw [if_neg hd]
    exact ⟨.nothing _ (checkRule_sent_quiet hd),
      checkRule_congr fun hdue hremote => absurd ⟨hdue, hremote⟩ hd⟩

/-- The broadcast of a value -/
theorem sendChanged_some {p : SendPacket} {s : Station Network} :
    b.sendChanged (some p) s i = [(broadcastParcel b.host (broadcastPort b.table i)
      (bytes32 (s.app.rule i).value)).frame] := by
  have hroom := p.room
  unfold Usb.packetLenMax at hroom
  obtain ⟨m', hchanged, hin⟩ : ∃ m', changedPacket b.host (broadcastPort b.table i)
      (s.app.rule i).value p.size p.data s = some (46, m', s) ∧
      (broadcastParcel b.host (broadcastPort b.table i) (bytes32 (s.app.rule i).value)).In m' :=
    changedPacket_eq (by omega)
  have hsent : m'.read 0 46 = _ := hin.sent
  unfold sendChanged
  dsimp only
  rw [hchanged]
  dsimp only
  rw [hsent]

/-- **A turn of `sendChangedRules`** is the one of the rules, and sends what it records. -/
theorem sendChangedRule_emits : Emits b x (b.sendChangedRule packet x i) ∧
    (b.sendChangedRule packet x i).station.app =
      Rules.sendChangedRule b.table (fun i => (packet i).isSome) x.station.app i := by
  unfold sendChangedRule
  dsimp only
  refine ⟨?_, by split_ifs <;> rfl⟩
  unfold Rules.sendChangedRule
  by_cases hp : (x.station.app.rule i).pending
  · by_cases hl : (b.table.rule i).isLocal = true
    · rw [if_pos ⟨hp, hl⟩, if_pos hp, if_pos hl]
      cases hpacket : packet i with
      | none =>
          rw [if_neg (by simp [hpacket])]
          exact .nothing _ rfl
      | some p =>
          rw [if_pos (by simp [hpacket]), sendChanged_some]
          exact .broadcast _ i _ _ rfl
    · rw [if_neg fun h => hl h.2, if_pos hp, if_neg hl]
      exact .nothing _ rfl
  · rw [if_neg fun h => hp h.1, if_neg hp]
    exact .nothing _ rfl

end turns

end Board

/-! ### The loops of a round -/

/-- The frames that were sent carry the recorded datagrams, in the same order. -/
def Wired.Matches (b : Board) (packet : Option Datagram) (x : Wired) : Prop :=
  x.out.filterMap decode = x.station.app.sent.map (b.wire packet)

/-- The rules do not touch the ARP table. -/
def Wired.SameTable (x x' : Wired) : Prop := x'.station.arpTable = x.station.arpTable

section loops

variable {b : Board} {L : TimeLib} {packet : Option Datagram} {x x' : Wired}
  {packets : ℕ → Option SendPacket}

theorem Emits.sameTable (h : Emits b x x') : x.SameTable x' := by
  cases h <;> rfl

theorem Wired.SameTable.sized (h : x.SameTable x') (hs : x.station.Sized) : x'.station.Sized := by
  intro i
  rw [h]
  exact hs i

/-- The uplink looks at the ARP table only. -/
theorem Wired.SameTable.uplink (h : x.SameTable x') :
    b.uplink x'.station packets = b.uplink x.station packets := by
  unfold Board.uplink arpSearchMAC
  rw [h]

theorem decode_arpFrame {d src op smac tmac : List UInt8} {sip tip : UInt32} (hd : d.length = 6)
    (hsrc : src.length = 6) (hop : op.length = 2) (hs : smac.length = 6) (ht : tmac.length = 6) :
    decode (arpFrame d src op smac sip tmac tip) = none := by
  have hread := Frame.mem_read (arpFrame d src op smac sip tmac tip)
  rw [arpFrame_length hd hsrc hop hs ht] at hread
  apply decode_none
  rintro ⟨hip, -⟩
  exact absurd ((arpFrame_fields hd hsrc hop hs ht hread).1.symm.trans hip) (by decide)

/-- What a turn sends, it records. -/
theorem Emits.matches (h : Emits b x x') (hm : x.Matches b packet) : x'.Matches b packet := by
  unfold Wired.Matches at *
  cases h with
  | nothing app hsent =>
      show x.out.filterMap decode = app.sent.map (b.wire packet)
      rw [hsent, hm]
  | arp app i ip hip hsearch hsent =>
      show (_ :: x.out).filterMap decode = app.sent.map (b.wire packet)
      have hdecode : decode (arpGenerated b.host (b.host.nextHop ip)) = none :=
        decode_arpFrame rfl b.host.mac_length rfl b.host.mac_length rfl
      rw [hsent, List.filterMap_cons, hdecode, hm]
  | request app i ip mac hmac hip hsearch hsent =>
      have hlen := Board.requestBody_length (b.table.rule i)
      show (_ :: x.out).filterMap decode = app.sent.map (b.wire packet)
      rw [hsent, List.filterMap_cons, decode_parcel (Nat.lt_of_le_of_lt hlen (by decide)), hm]
      rfl
  | broadcast app i port v hsent =>
      show (_ :: x.out).filterMap decode = app.sent.map (b.wire packet)
      rw [hsent, List.filterMap_cons, decode_parcel (by simp [broadcastParcel]), hm]
      rfl

end loops

/-! ### Reception -/

section reception

variable {h : Host} {b : Board} {T : RuleTable} {s : Station Network} {f : Frame} {m : Mem}
  {r : Station Network × List Frame} {q : Bool × Mem × Station Network}

theorem IsIcmp.decode {g : Frame} {type : UInt8} (hg : IsIcmp g.mem type) : decode g = none := by
  apply decode_none
  rintro ⟨-, hudp⟩
  exact absurd (hg.protocol.symm.trans hudp) (by decide)

theorem ArpEffect.app (hq : ArpEffect h m s q) : q.2.2.app = s.app := by
  cases hq with
  | reply =>
      show (arpLearn s _ _).app = s.app
      unfold arpLearn
      split <;> rfl
  | _ => rfl

theorem ArpEffect.sized (hq : ArpEffect h m s q) (hs : s.Sized) : q.2.2.Sized := by
  cases hq with
  | reply => exact hs.learn (Mem.read_length _ _ _)
  | _ => exact hs

/-- What a node sends back for an ARP packet carries no datagram. -/
theorem ArpEffect.noDatagram (hq : ArpEffect h m s q) : q.1 = true →
    decode (q.2.1.read 0 42) = Option.none := by
  intro hreflect
  cases hq with
  | request m' hm hanswer =>
      have hd : (m.read 6 6).length = 6 := Mem.read_length _ _ _
      have ht : (m.read 22 6).length = 6 := Mem.read_length _ _ _
      show decode (m'.read 0 42) = Option.none
      rw [hanswer, decode_arpFrame hd h.mac_length rfl h.mac_length ht]
  | _ => cases hreflect

/-- For the rules, a frame is the datagram that it brings. -/
theorem Received.app (hr : Received h T s f r) :
    r.1.app = Rules.processNetworkPackets T s.app (broughtDatagram h f) := by
  cases hr with
  | ignored hbrought => rw [hbrought]; rfl
  | echo g hbrought => rw [hbrought]; rfl
  | arp q hbrought haccepted htype hq =>
      rw [hbrought]
      exact hq.app
  | taken d app hbrought happ hsent => rw [hbrought]; exact happ
  | answered d app v i hbrought happ => rw [hbrought]; exact happ

theorem Received.sized (hr : Received h T s f r) (hs : s.Sized) : r.1.Sized := by
  cases hr with
  | arp q hbrought haccepted htype hq => exact hq.sized hs
  | _ => exact hs

/-- What is sent back carries the recorded answer. -/
theorem Received.matches (hr : Received b.host b.table s f r) (hsent : s.app.sent = []) :
    Wired.Matches b (broughtDatagram b.host f) ⟨r.1, r.2⟩ := by
  unfold Wired.Matches
  cases hr with
  | ignored hbrought =>
      show [].filterMap decode = s.app.sent.map _
      rw [hsent]
      rfl
  | echo g hbrought hrequest hreply =>
      show [g].filterMap decode = s.app.sent.map _
      rw [hsent, List.filterMap_cons, hreply.decode]
      rfl
  | arp q hbrought haccepted htype hq =>
      show (if q.1 then [q.2.1.read 0 42] else []).filterMap decode = q.2.2.app.sent.map _
      rw [hq.app, hsent, List.map_nil, List.filterMap_eq_nil_iff]
      intro g hg
      by_cases hreflect : q.1 = true
      · rw [if_pos hreflect] at hg
        rw [List.mem_singleton.mp hg]
        exact hq.noDatagram hreflect
      · rw [if_neg hreflect] at hg
        cases hg
  | taken d app hbrought happ hempty =>
      show [].filterMap decode = app.sent.map _
      rw [hempty, hsent]
      rfl
  | answered d app v i hbrought happ hrecord hrequest =>
      show [(answerParcel b.host f.mem d v).frame].filterMap decode = app.sent.map _
      rw [hrecord, Network.setOk_sent, Network.send_sent, hsent, List.filterMap_cons,
        decode_parcel (by simp [answerParcel]), hbrought]
      show [(d.sourceIP, _)] = [(d.sourceIP, _)]
      rw [show (answerParcel b.host f.mem d v).destinationPort = udpPort from hrequest]
      rfl

end reception

/-! ### Rounds -/

section rounds

variable {b : Board} {L : TimeLib} {s : Station Network} {r : FrameRound} {x : Wired}
  {packet : ℕ → Option SendPacket} {i : ℕ} {g : Frame}

theorem processNetworkPackets_board (hs : s.Sized) (hsent : s.app.sent = []) (frame : Option Frame) :
    (b.processNetworkPackets s frame).station.Sized ∧
      (b.processNetworkPackets s frame).station.app =
        Rules.processNetworkPackets b.table s.app (frame.bind (broughtDatagram b.host)) ∧
      (b.processNetworkPackets s frame).Matches b (frame.bind (broughtDatagram b.host)) := by
  cases frame with
  | none =>
      refine ⟨hs, rfl, ?_⟩
      show [].filterMap decode = s.app.sent.map _
      rw [hsent]
      rfl
  | some f =>
      have hr : Received b.host b.table s f (receiveFrame b.host b.table s f) :=
        receiveFrame_received
      exact ⟨hr.sized hs, hr.app, hr.matches hsent⟩

/-- What the turns of a loop keep: the ARP table of its start, and that all is recorded. -/
structure InLoop (b : Board) (packet : Option Datagram) (x₀ x : Wired) : Prop where
  table : x₀.SameTable x
  sized : x.station.Sized
  recorded : x.Matches b packet

theorem Emits.inLoop {packet : Option Datagram} {x₀ x x' : Wired} (h : Emits b x x')
    (hx : InLoop b packet x₀ x) : InLoop b packet x₀ x' :=
  ⟨h.sameTable.trans hx.table, h.sameTable.sized hx.sized, h.matches hx.recorded⟩

/-- The first `n` turns of `checkRules` -/
theorem turns_board (L : TimeLib) {packet : Option Datagram} (packets : ℕ → Option SendPacket) (n : ℕ)
    {x : Wired} (hs : x.station.Sized) (hm : x.Matches b packet) :
    InLoop b packet x (sweep (b.checkRule L packets) n (x.setApp (x.station.app.setOk 0 .ok))) ∧
      (sweep (b.checkRule L packets) n (x.setApp (x.station.app.setOk 0 .ok))).station.app =
        sweep (Rules.checkRule b.table L (b.uplink x.station packets)) n
          (x.station.app.setOk 0 .ok) := by
  refine Sweep.simulates (f := b.checkRule L packets) (π := fun x : Wired => x.station.app)
    (g := Rules.checkRule b.table L (b.uplink x.station packets)) (InLoop b packet x)
    (fun i x' _ hx => ?_) ⟨rfl, hs, hm⟩
  obtain ⟨hemits, happ⟩ : Emits b x' (b.checkRule L packets x' i) ∧ _ :=
    Board.checkRule_emits hx.sized
  refine ⟨hemits.inLoop hx, ?_⟩
  rw [← hx.table.uplink]
  exact happ

theorem checkRules_board (L : TimeLib) {packet : Option Datagram} (packets : ℕ → Option SendPacket)
    {x : Wired} (hs : x.station.Sized) (hm : x.Matches b packet) :
    InLoop b packet x (b.checkRules L packets x) ∧ (b.checkRules L packets x).station.app =
      Rules.checkRules b.table L (b.uplink x.station packets) x.station.app :=
  turns_board L packets b.table.size hs hm

theorem sendChangedRules_board {packet : Option Datagram} (packets : ℕ → Option SendPacket)
    {x : Wired} (hs : x.station.Sized) (hm : x.Matches b packet) :
    InLoop b packet x (b.sendChangedRules packets x) ∧
      (b.sendChangedRules packets x).station.app =
        Rules.sendChangedRules b.table (fun i => (packets i).isSome) x.station.app := by
  refine Sweep.simulates (f := b.sendChangedRule packets) (π := fun x : Wired => x.station.app)
    (InLoop b packet x) (fun i x' _ hx => ?_) ⟨rfl, hs, hm⟩
  obtain ⟨hemits, happ⟩ : Emits b x' (b.sendChangedRule packets x' i) ∧ _ :=
    Board.sendChangedRule_emits
  exact ⟨hemits.inLoop hx, happ⟩

variable (b L s r) in
/-- **A round on frames is a round of the rules.** -/
theorem round_eq (hs : s.Sized) : (b.round L s r).1.Sized ∧
    (b.round L s r).1.app =
      Rules.round b.table L { s.app with sent := [] } (b.rulesRound s r) ∧
    (b.round L s r).2.filterMap decode =
      (b.round L s r).1.app.sent.map (b.wire (b.rulesRound s r).packet) := by
  have hs₀ : ({ s with app := { s.app with sent := [] } } : Station Network).Sized := hs
  obtain ⟨hs₁, happ₁, hm₁⟩ := processNetworkPackets_board (b := b) hs₀ rfl r.frame
  obtain ⟨x, hx⟩ : ∃ x, b.processNetworkPackets { s with app := { s.app with sent := [] } }
    r.frame = x := ⟨_, rfl⟩
  rw [hx] at hs₁ happ₁ hm₁
  obtain ⟨hloop₂, happ₂⟩ := checkRules_board L r.request
    (x := x.setApp (x.station.app.setTime r.now)) hs₁ hm₁
  obtain ⟨hloop₃, happ₃⟩ := sendChangedRules_board r.changed hloop₂.sized hloop₂.recorded
  have hround : b.round L s r = ((b.sendChangedRules r.changed (b.checkRules L r.request
      (x.setApp (x.station.app.setTime r.now)))).station, (b.sendChangedRules r.changed
        (b.checkRules L r.request (x.setApp (x.station.app.setTime r.now)))).out) := by
    unfold Board.round
    rw [hx]
  rw [hround]
  refine ⟨hloop₃.sized, ?_, hloop₃.recorded⟩
  unfold Rules.round afterCheck beforeCheck Board.rulesRound
  rw [hx]
  dsimp only
  rw [happ₃, happ₂, ← happ₁]
  rfl

/-- A turn changes the rules and nothing else of the station, and what was sent stays sent. -/
theorem checkRule_frame (app : Network) :
    { (b.checkRule L packet x i).station with app := app } = { x.station with app := app } ∧
      (g ∈ x.out → g ∈ (b.checkRule L packet x i).out) := by
  unfold Board.checkRule
  split_ifs
  · exact ⟨rfl, List.mem_append_right _⟩
  · exact ⟨rfl, id⟩

theorem sendChangedRule_frame (app : Network) :
    { (b.sendChangedRule packet x i).station with app := app } = { x.station with app := app } ∧
      (g ∈ x.out → g ∈ (b.sendChangedRule packet x i).out) := by
  unfold Board.sendChangedRule
  dsimp only
  split_ifs
  · exact ⟨rfl, List.mem_append_right _⟩
  · exact ⟨rfl, id⟩

variable (b L s r) in
/-- After the packet a round changes the rules and nothing else of the station. -/
theorem round_station : { (b.round L s r).1 with app := s.app } =
    { b.received s r.frame with app := s.app } := by
  obtain ⟨x, hx⟩ : ∃ x, b.processNetworkPackets { s with app := { s.app with sent := [] } }
    r.frame = x := ⟨_, rfl⟩
  unfold Board.round Board.received
  rw [hx]
  have hsame : ∀ y : Wired, { y.station with app := s.app } = { x.station with app := s.app } →
      { (b.sendChangedRules r.changed y).station with app := s.app } =
        { x.station with app := s.app } := fun y hy =>
    Sweep.invariant (fun y : Wired => { y.station with app := s.app } =
        { x.station with app := s.app })
      (fun i y _ h => (sendChangedRule_frame (g := []) s.app).1.trans h) hy
  apply hsame
  exact Sweep.invariant (f := b.checkRule L r.request) (n := b.table.size)
    (s := x.setApp ((x.station.app.setTime r.now).setOk 0 .ok))
    (fun y : Wired => { y.station with app := s.app } = { x.station with app := s.app })
    (fun i y _ h => (checkRule_frame (g := []) s.app).1.trans h) rfl

variable (b L) in
/-- A round that gets a frame within the ARP table leaves alone what lies behind it. -/
theorem round_within {k : ℕ} (hr : b.Within s r) (hk : arpTableSize ≤ k) :
    (b.round L s r).1.arpTable k = s.arpTable k := by
  have hstation := congrArg Station.arpTable (round_station b L s r)
  have htable : (b.round L s r).1.arpTable = (b.received s r.frame).arpTable := hstation
  rw [htable]
  cases hframe : r.frame with
  | none => rfl
  | some f =>
      have hreceived : Received b.host b.table { s with app := { s.app with sent := [] } } f
          (receiveFrame b.host b.table _ f) := receiveFrame_received
      exact hreceived.within (hr f hframe) hk

end rounds

/-- **Boards refine the rules.**  In every run of a board that stays within its ARP table, with any
frames and any memory in the packets that it sends, each round is a round of the rules with the datagram
that the frame brings and with the uplink of the ARP table; the frames that it sends are, besides ARP
and ICMP, those of the sendings that the rules record; and what lies behind the ARP table is left
alone. -/
theorem board_refines_rules (b : Board) (L : TimeLib) (registers : ℕ → UInt8)
    (rounds : List FrameRound)
    (hwithin : ∀ v ∈ Run.visits (fun s r => (b.round L s r).1)
      (Station.init (Network.init registers)) rounds, b.Within v.1 v.2) :
    ∀ v ∈ Run.visits (fun s r => (b.round L s r).1) (Station.init (Network.init registers)) rounds,
      (b.round L v.1 v.2).1.app =
        Rules.round b.table L { v.1.app with sent := [] } (b.rulesRound v.1 v.2) ∧
      (b.round L v.1 v.2).2.filterMap decode =
        (b.round L v.1 v.2).1.app.sent.map (b.wire (b.rulesRound v.1 v.2).packet) ∧
      ∀ k, arpTableSize ≤ k → (b.round L v.1 v.2).1.arpTable k = v.1.arpTable k := by
  intro v hv
  have hs : v.1.Sized := Run.visits_invariant (I := Station.Sized)
    (fun s r hs => (round_eq b L s r hs).1) (Station.sized_init _) v hv
  obtain ⟨-, happ, hframes⟩ := round_eq b L v.1 v.2 hs
  exact ⟨happ, hframes, fun k hk => round_within b L (hwithin v hv) hk⟩

/-- A board that switches a rule with the port 1. -/
def portBoard : Board := ⟨peerHost, Subnet.portTable⟩

/-- Its start -/
abbrev portStart : Station Network := Station.init (Network.init fun _ => 0)

/-- The board 192.168.200.40 tells its address. -/
def toldFrame : Frame :=
  arpFrame peerHost.mac ownHost.mac (be16Bytes arpReply) ownHost.mac ownHost.ip peerHost.mac peerHost.ip

/-- A round with this frame and with a packet for each broadcast -/
def firstRound : FrameRound :=
  ⟨some toldFrame, 5, fun _ => none, fun _ => some ⟨Usb.packetLenMax, fun _ => 0, le_rfl⟩⟩

theorem board_refines_rules_first :
    (portBoard.round euTime portStart firstRound).1.app.sent = [.broadcast 0 1 0xFFFFFFFF] ∧
    ((portBoard.round euTime portStart firstRound).1.arpTable 0).ip = 40 ∧
    (portBoard.round euTime portStart firstRound).1.app =
      Rules.round portBoard.table euTime { portStart.app with sent := [] }
        (portBoard.rulesRound portStart firstRound) ∧
    (portBoard.round euTime portStart firstRound).2.filterMap decode =
      (portBoard.round euTime portStart firstRound).1.app.sent.map
        (portBoard.wire (portBoard.rulesRound portStart firstRound).packet) := by
  have hwithin : ∀ v ∈ Run.visits (fun s r => (portBoard.round euTime s r).1) portStart [firstRound],
      portBoard.Within v.1 v.2 := by
    intro v hv f hf
    obtain rfl := List.mem_singleton.mp hv
    obtain rfl := Option.some.inj hf
    have hfirst : WithinTable portBoard.host portStart toldFrame := by decide +kernel
    exact hfirst
  obtain ⟨happ, hframes, -⟩ := board_refines_rules portBoard euTime (fun _ => 0) [firstRound] hwithin
    (portStart, firstRound) List.mem_cons_self
  dsimp only at happ hframes
  exact ⟨by decide +kernel, by decide +kernel, happ, hframes⟩

end TimeSwitch.Net
