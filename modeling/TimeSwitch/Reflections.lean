import TimeSwitch.Board

/-! # Answers to answers

A node sends back echo requests, ARP requests and the requests for a value.  What it sends is none of
these, so no other node sends it back again, with one exception: a request and its answer have the same
format, and are told apart by the port `UDP_PORT` of the sender.  If both nodes have a rule with the
port `UDP_PORT`, then the answer 0 is a request for the other node (`answers_unanswered`). -/

namespace TimeSwitch.Net

open Program ByteMemory Rules

section reflections

variable {A B : Host} {T T' : RuleTable} {s s' : Station Network} {f g g' : Frame}
  {r : Station Network × List Frame}

/-- A frame without a datagram brings none. -/
theorem broughtDatagram_decode {h : Host} {d : Datagram} (hd : broughtDatagram h f = some d) :
    ∃ ip, decode f = some (ip, d) := by
  unfold broughtDatagram at hd
  split_ifs at hd with hfor
  obtain rfl := Option.some.inj hd
  exact ⟨_, if_pos hfor.2.1⟩

/-- What a node sends back is an echo request, an ARP request, or the request for a value. -/
theorem Received.cause (hr : Received B T' s' g r) (hg : g' ∈ r.2) :
    IsIcmp g.mem 8 ∨ IsArpRequest B g.mem ∨ ∃ d v i ip, decode g = some (ip, d) ∧
      d.sourcePort = udpPort ∧ Asked T' s'.app d.destinationPort d.data v i := by
  cases hr with
  | echo g₀ hbrought hrequest hreply => exact Or.inl hrequest
  | arp q hbrought haccepted htype hq =>
      cases hq with
      | request m' hm hanswer => exact Or.inr (Or.inl hm)
      | _ => cases hg
  | answered d app v i hbrought happ hrecord hrequest hasked =>
      obtain ⟨ip, hd⟩ := broughtDatagram_decode hbrought
      exact Or.inr (Or.inr ⟨d, v, i, ip, hd, hrequest, hasked⟩)
  | _ => cases hg

/-- An echo reply is not sent back. -/
theorem IsIcmp.unanswered (hg : IsIcmp g.mem 0) (hr : Received B T' s' g r) : r.2 = [] := by
  refine List.eq_nil_iff_forall_not_mem.mpr fun g' hg' => ?_
  rcases hr.cause hg' with hrequest | hrequest | ⟨d, v, i, ip, hd, -⟩
  · exact absurd (hg.type.symm.trans hrequest.type) (by decide)
  · exact absurd (hg.etherType.symm.trans hrequest.etherType) (by decide)
  · cases hg.decode.symm.trans hd

/-- An ARP packet that is no request is not sent back. -/
theorem arpFrame_unanswered {d src op smac tmac : List UInt8} {sip tip : UInt32} (hd : d.length = 6)
    (hsrc : src.length = 6) (hop : op.length = 2) (hs : smac.length = 6) (ht : tmac.length = 6)
    (hne : op ≠ be16Bytes arpRequest)
    (hr : Received B T' s' (arpFrame d src op smac sip tmac tip) r) : r.2 = [] := by
  have hread := Frame.mem_read (arpFrame d src op smac sip tmac tip)
  rw [arpFrame_length hd hsrc hop hs ht] at hread
  obtain ⟨htype, hoperation, -⟩ := arpFrame_fields hd hsrc hop hs ht hread
  refine List.eq_nil_iff_forall_not_mem.mpr fun g' hg' => ?_
  rcases hr.cause hg' with hrequest | hrequest | ⟨d, v, i, ip, hdecode, -⟩
  · exact absurd (htype.symm.trans hrequest.etherType) (by decide)
  · exact hne (hoperation.symm.trans hrequest.operation)
  · cases (decode_arpFrame hd hsrc hop hs ht).symm.trans hdecode

/-- The answer to a request is sent back only as a request with a port `UDP_PORT`. -/
theorem answerParcel_cause {m : Mem} {d : Datagram} {v : UInt32} (hsource : d.sourcePort = udpPort)
    (hr : Received B T' s' (answerParcel A m d v).frame r) (hg : g' ∈ r.2) :
    d.destinationPort = udpPort ∧ v = 0 ∧
      ∃ j, (T'.rule j).isLocal = true ∧ (T'.rule j).networkPort = udpPort := by
  have hp : (answerParcel A m d v).In (Frame.mem (answerParcel A m d v).frame) := by
    rw [Parcel.in_iff, ← Parcel.frame_length]
    exact Frame.mem_read _
  rcases hr.cause hg with hrequest | hrequest | ⟨d', v', j, ip, hdecode, hport, hasked⟩
  · exact absurd (hrequest.protocol.symm.trans hp.protocol_read) (by decide)
  · exact absurd (hrequest.etherType.symm.trans hp.etherType_read) (by decide)
  · rw [decode_parcel (by simp [answerParcel])] at hdecode
    obtain ⟨-, rfl⟩ := Prod.mk.inj (Option.some.inj hdecode)
    have hzero := hasked.zero
    have hrule := hasked.networkPort
    refine ⟨hport, ?_, j, hasked.isLocal, hrule.trans hsource⟩
    rwa [show (answerParcel A m d v).payload = bytes32 v from rfl, le32_bytes32] at hzero

/-- **Answers are not answered.**  If a node sends back what another node has sent back, then both of
them have a local rule with the port `UDP_PORT`, and the value of the other node's rule is 0. -/
theorem answers_unanswered (A B : Host) (T T' : RuleTable) (s s' : Station Network) (f g g' : Frame)
    (hg : g ∈ (receiveFrame A T s f).2) (hg' : g' ∈ (receiveFrame B T' s' g).2) :
    (∃ i, (T.rule i).isLocal = true ∧ (T.rule i).networkPort = udpPort ∧
      (s.app.rule i).value = 0) ∧
    ∃ j, (T'.rule j).isLocal = true ∧ (T'.rule j).networkPort = udpPort := by
  have hA : Received A T s f (receiveFrame A T s f) := receiveFrame_received
  have hB : Received B T' s' g (receiveFrame B T' s' g) := receiveFrame_received
  generalize receiveFrame A T s f = r at hA hg
  cases hA with
  | echo g₀ hbrought hrequest hreply =>
      obtain rfl := List.mem_singleton.mp hg
      rw [hreply.unanswered hB] at hg'
      cases hg'
  | arp q hbrought haccepted htype hq =>
      cases hq with
      | request m' hm hanswer =>
          have hd : (f.mem.read 6 6).length = 6 := Mem.read_length _ _ _
          have ht : (f.mem.read 22 6).length = 6 := Mem.read_length _ _ _
          obtain rfl : g = m'.read 0 42 := List.mem_singleton.mp hg
          rw [hanswer] at hB hg'
          rw [arpFrame_unanswered hd A.mac_length rfl A.mac_length ht (by decide) hB] at hg'
          cases hg'
      | _ => cases hg
  | answered d app v i hbrought happ hrecord hrequest hasked =>
      obtain rfl := List.mem_singleton.mp hg
      obtain ⟨hport, hzero, hrule⟩ := answerParcel_cause hrequest hB hg'
      exact ⟨⟨i, hasked.isLocal, hasked.networkPort.trans hport, hasked.value.symm.trans hzero⟩, hrule⟩
  | _ => cases hg

end reflections

/-- A rule with the port `UDP_PORT` -/
def udpPortTable : RuleTable where
  data := [⟨.logic LogicType.forceOff 0 0 0, 0, udpPort⟩]
  pos := by decide
  small := by decide

/-- The value 0 is known. -/
def zeroStation : Station Network := Station.init ((Network.init fun _ => 0).setOk 0 .ok)

/-- The request of the node 192.168.200.41 for the value of this rule -/
def zeroRequest : Frame :=
  (unicastParcel peerHost ownHost.mac rfl ownHost.ip udpPort (bytes32 0)).frame

theorem answers_unanswered_udpPort : (∃ g ∈ (receiveFrame ownHost udpPortTable zeroStation
      zeroRequest).2, ∃ g', g' ∈ (receiveFrame peerHost udpPortTable zeroStation g).2) ∧
    (∃ i, (udpPortTable.rule i).isLocal = true ∧ (udpPortTable.rule i).networkPort = udpPort ∧
      (zeroStation.app.rule i).value = 0) ∧
    ∃ j, (udpPortTable.rule j).isLocal = true ∧ (udpPortTable.rule j).networkPort = udpPort := by
  have h : ∃ g ∈ (receiveFrame ownHost udpPortTable zeroStation zeroRequest).2,
      (receiveFrame peerHost udpPortTable zeroStation g).2 ≠ [] := by
    decide +kernel
  obtain ⟨g, hg, hne⟩ := h
  obtain ⟨g', hg'⟩ := List.exists_mem_of_ne_nil _ hne
  exact ⟨⟨g, hg, g', hg'⟩, answers_unanswered ownHost peerHost udpPortTable udpPortTable zeroStation
    zeroStation zeroRequest g g' hg hg'⟩

end TimeSwitch.Net
