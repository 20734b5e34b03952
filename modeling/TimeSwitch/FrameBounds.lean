import TimeSwitch.Callbacks
import TimeSwitch.FrameFilter

/-! # Frames are handled within their bounds

No handler checks that a packet has room for its header: the frame filter does, with the least
length and with the length field of the IP header.  So `IP_ProcessPacket` is safe for packets whose
length field is large enough and not larger than the packet (`ipProcessPacket_inBounds`), and the
others for packets of a sufficient size. -/

namespace TimeSwitch.Net

open Program ByteMemory

section handlers

variable {σ τ : Type} {h : Host} {cb : Callbacks τ} {n packet length : ℕ} {operation : UInt8}

/-- An answer to an ARP request. -/
theorem arpWriteHeader_inBounds (hn : packet + 28 ≤ n) :
    InBounds n (arpWriteHeader h packet operation (load (packet + 8) 6) (loadIP (packet + 14)) :
      Program σ ℕ) := by
  have hmac := h.mac_length
  refine (inBounds_store16 (by omega)).bind fun _ => ?_
  refine (inBounds_store16 (by omega)).bind fun _ => ?_
  refine (inBounds_store (by simp; omega)).bind fun _ => ?_
  refine (inBounds_store (by simp; omega)).bind fun _ => ?_
  refine (inBounds_store16 (by omega)).bind fun _ => ?_
  refine inBounds_load_bind (by omega) fun mac hlen => ?_
  refine (inBounds_store (by omega)).bind fun _ => ?_
  refine (inBounds_loadIP (by omega)).bind fun _ => ?_
  refine (inBounds_storeIP (by omega)).bind fun _ => ?_
  refine (inBounds_store (by omega)).bind fun _ => ?_
  exact (inBounds_storeIP (by omega)).bind fun _ => inBounds_pure 28

theorem arpProcessPacket_inBounds (hn : packet + 28 ≤ n) :
    InBounds n (arpProcessPacket h packet : Program (Station τ) Bool) := by
  refine (inBounds_loadIP (by omega)).bind fun _ => (inBounds_pure false).ite ?_
  refine (inBounds_load16 (by omega)).bind fun _ => ?_
  refine ((arpWriteHeader_inBounds hn).bind fun _ => inBounds_pure true).ite (InBounds.ite ?_
    (inBounds_pure false))
  refine (inBounds_loadIP (by omega)).bind fun _ => InBounds.ite ?_ (inBounds_pure false)
  refine (inBounds_load (by omega)).bind fun _ => inBounds_get.bind fun _ => ?_
  exact (inBounds_set _).bind fun _ => inBounds_pure false

theorem icmpProcessPacket_inBounds (hn : packet + 4 ≤ n) :
    InBounds n (icmpProcessPacket packet : Program σ Bool) := by
  refine (inBounds_load8 (by omega)).bind fun _ => (inBounds_load8 (by omega)).bind fun _ => ?_
  refine (inBounds_pure false).ite ?_
  refine (inBounds_store (by simp; omega)).bind fun _ => ?_
  refine (inBounds_load16 (by omega)).bind fun _ => ?_
  exact (inBounds_store16 (by omega)).bind fun _ => inBounds_pure true

theorem udpWriteHeader_inBounds {sourcePort destinationPort : ℕ} (hn : packet + 8 ≤ n) :
    InBounds n (udpWriteHeader packet sourcePort destinationPort length : Program σ ℕ) := by
  refine (inBounds_store16 (by omega)).bind fun _ => ?_
  refine (inBounds_store16 (by omega)).bind fun _ => ?_
  refine (inBounds_store16 (by omega)).bind fun _ => ?_
  exact (inBounds_store16 (by omega)).bind fun _ => inBounds_pure 8

theorem udpProcessPacket_inBounds (hcb : cb.InBounds) {sourceIP : ℕ} (hlen : 8 ≤ length)
    (hn : packet + length ≤ n) (hip : sourceIP + 4 ≤ n) :
    InBounds n (udpProcessPacket cb packet sourceIP length) := by
  refine (inBounds_load16 (by omega)).bind fun _ => (inBounds_pure false).ite ?_
  refine inBounds_sub_bind hlen ?_
  obtain ⟨length, rfl⟩ := Nat.exists_eq_add_of_le' hlen
  rw [Nat.add_sub_cancel]
  have hcall := fun port => hcb (packet + 8) sourceIP port length n (by omega) hip
  refine (inBounds_load16 (by omega)).bind fun sourcePort => ?_
  refine (inBounds_load16 (by omega)).bind fun destinationPort => InBounds.ite ?_ (InBounds.ite ?_
    (inBounds_pure false))
  · refine (inBounds_onApp (hcall _).1).bind fun _ => InBounds.ite ?_ (inBounds_pure false)
    refine (inBounds_load16 (by omega)).bind fun _ => (inBounds_load16 (by omega)).bind fun _ => ?_
    exact (udpWriteHeader_inBounds (by omega)).bind fun _ => inBounds_pure true
  · exact (inBounds_onApp (hcall _).2).bind fun _ => inBounds_pure false

theorem ipChecksumLoop_inBounds {words length16 checksum : ℕ} (hn : words + 2 * length16 ≤ n) :
    InBounds n (ipChecksumLoop words length16 checksum : Program σ ℕ) := by
  induction length16 generalizing words checksum with
  | zero => exact inBounds_pure checksum
  | succ k ih =>
      exact (inBounds_load16 (by omega)).bind fun _ => ih (by omega)

theorem ipWriteHeader_inBounds {protocol : UInt8} (hn : packet + 20 ≤ n) :
    InBounds n (ipWriteHeader h packet protocol (loadIP (packet + 12)) length :
      Program σ ℕ) := by
  refine (inBounds_store (by simp; omega)).bind fun _ => ?_
  refine (inBounds_store (by simp; omega)).bind fun _ => ?_
  refine (inBounds_store16 (by omega)).bind fun _ => ?_
  refine (inBounds_store16 (by omega)).bind fun _ => ?_
  refine (inBounds_store16 (by omega)).bind fun _ => ?_
  refine (inBounds_store (by simp; omega)).bind fun _ => ?_
  refine (inBounds_store (by simp; omega)).bind fun _ => ?_
  refine (inBounds_loadIP (by omega)).bind fun _ => ?_
  refine (inBounds_storeIP (by omega)).bind fun _ => ?_
  refine (inBounds_storeIP (by omega)).bind fun _ => ?_
  refine (inBounds_store16 (by omega)).bind fun _ => ?_
  refine InBounds.bind ?_ fun _ => (inBounds_store16 (by omega)).bind fun _ => inBounds_pure 20
  exact (ipChecksumLoop_inBounds (by omega)).bind fun _ => inBounds_pure _

/-- `IP_ProcessPacket` on a packet whose length field is neither too small nor too large. -/
theorem ipProcessPacket_inBounds (hcb : cb.InBounds) {m : Mem} {s : Station τ}
    (hmin : 28 ≤ swap16 (le16 (m.read (packet + 2) 2)))
    (hn : packet + swap16 (le16 (m.read (packet + 2) 2)) ≤ n) :
    SafeAt n (ipProcessPacket h cb packet length) m s := by
  unfold ipProcessPacket
  unfold SafeAt
  rw [load16_bind (by omega)]
  generalize swap16 (le16 (m.read (packet + 2) 2)) = ipLength at *
  refine InBounds.safeAt ?_ m s
  refine (inBounds_load8 (by omega)).bind fun _ => (inBounds_load16 (by omega)).bind fun _ => ?_
  refine (inBounds_pure false).ite ?_
  refine (inBounds_loadIP (by omega)).bind fun _ => (inBounds_pure false).ite ?_
  refine inBounds_sub_bind (by omega) ?_
  refine (inBounds_load8 (by omega)).bind fun _ => InBounds.bind ?_ fun _ => InBounds.ite ?_
    (inBounds_pure false)
  · refine InBounds.ite (icmpProcessPacket_inBounds (by omega)) (InBounds.ite ?_
      (inBounds_pure false))
    exact udpProcessPacket_inBounds hcb (by omega) (by omega) (by omega)
  · refine (inBounds_load8 (by omega)).bind fun _ => ?_
    exact (ipWriteHeader_inBounds (by omega)).bind fun _ => inBounds_pure true

end handlers

/-! ### Frames -/

section frames

variable {m : Mem} {i k v : ℕ}

theorem read_getD (h : i < k) : (m.read 0 k).getD i 0 = m i := by
  rw [List.getD_eq_getElem _ _ (by simpa using h), Mem.read_getElem, Nat.zero_add]

theorem le16_lt (bs : List UInt8) : le16 bs < 65536 := by
  have h0 := (bs.getD 0 0).toNat_lt
  have h1 := (bs.getD 1 0).toNat_lt
  unfold le16
  omega

theorem swap16_low (v : ℕ) : swap16 v % 256 = v / 256 % 256 := by
  unfold swap16
  rw [Nat.mul_comm, Nat.mul_add_mod, Nat.mod_mod]

theorem swap16_high (v : ℕ) : swap16 v / 256 % 256 = v % 256 := by
  have hlow : v / 256 % 256 < 256 := Nat.mod_lt _ (by decide)
  unfold swap16
  generalize v / 256 % 256 = b at *
  omega

theorem swap16_swap16 (h : v < 65536) : swap16 (swap16 v) = v := by
  rw [swap16, swap16_low, swap16_high]
  omega

/-- A field as the filter reads it. -/
theorem swap16_le16 (h : i + 1 < k) : swap16 (le16 (m.read i 2)) = Usb.be16 (m.read 0 k) i := by
  have h0 := (m i).toNat_lt
  have h1 := (m (i + 1)).toNat_lt
  have hread : m.read i 2 = [m i, m (i + 1)] := rfl
  unfold Usb.be16
  rw [read_getD (Nat.lt_of_succ_lt h), read_getD h, hread]
  unfold le16 swap16
  simp only [List.getD_cons_zero, List.getD_cons_succ]
  omega

/-- A field with a value. -/
theorem le16_eq (h : i + 1 < k) (hv : Usb.be16 (m.read 0 k) i = v) :
    le16 (m.read i 2) = swap16 v := by
  rw [← hv, ← swap16_le16 h, swap16_swap16 (le16_lt _)]

end frames

/-- **Frames are handled within their bounds.**  If the filter of a node accepts the first 24 bytes of
a packet with the length `L`, then its handling reads and writes only bytes below `L`, and no length
goes below 0, whatever the other bytes are. -/
theorem accepted_frames_in_bounds (T : Rules.RuleTable) (h : Host) (s : Station Rules.Network)
    (m : Mem) (L : ℕ) (hL : (Usb.filterOf h.mac ⟨m.read 0 24, []⟩).1 = some L) :
    SafeAt L (ethernetProcessPacket h (ruleCallbacks T) L) m s := by
  have hframe := (Usb.accepts_filterOf h.mac_length (m.read 0 24) [] [] L (by simp)).mp
    (by rwa [List.append_nil])
  have hcb := ruleCallbacks_inBounds T
  have hreflect : ∀ reflect : Bool, 42 ≤ L → InBounds L (if reflect = true then do
      let source ← load 6 6
      store 0 source
      store 6 h.mac
      pure true
    else pure false : Program (Station Rules.Network) Bool) := by
    intro reflect h42
    refine InBounds.ite ?_ (inBounds_pure false)
    refine inBounds_load_bind (by omega) fun source hlen => ?_
    refine (inBounds_store (by omega)).bind fun _ => ?_
    exact (inBounds_store (by rw [h.mac_length]; omega)).bind fun _ => inBounds_pure true
  unfold ethernetProcessPacket SafeAt
  rcases hframe.2 with ⟨harp, rfl⟩ | ⟨hip, hlen⟩
  · have htype := le16_eq (by decide) harp.etherType
    rw [load16_bind (by decide), htype]
    refine SafeAt.bind ?_ fun reflect => hreflect reflect le_rfl
    unfold ethernetSwitch
    rw [if_pos (by decide)]
    exact (arpProcessPacket_inBounds (by decide)).safeAt m s
  · have htype := le16_eq (by decide) hip.etherType
    have hmin := hip.lenMin
    have hfield : swap16 (le16 (m.read (14 + 2) 2)) = Usb.be16 (m.read 0 24) 16 :=
      swap16_le16 (by decide)
    unfold Usb.packetLenMin at hmin
    rw [load16_bind (by omega), htype]
    refine SafeAt.bind ?_ fun reflect => hreflect reflect (by omega)
    unfold ethernetSwitch SafeAt
    rw [if_neg (by decide), if_pos (by decide), sub_bind (by omega)]
    exact ipProcessPacket_inBounds hcb (by omega) (by omega)

/-- A request for the value of a rule. -/
def requestMemory : Mem := fun i =>
  (Usb.macOwn ++ [2, 0, 0, 0, 0, 0x41, 8, 0] ++ [0x45, 0, 0, 32, 0, 0, 0x40, 0, 64, 17, 0, 0] ++
    [192, 168, 200, 41, 192, 168, 200, 40] ++ [0xFF, 0x98, 0x12, 0x67, 0, 12, 0, 0] ++
    [0, 0, 0, 0]).getD i 0

/-- A rule whose value can be requested. -/
def answerTable : Rules.RuleTable where
  data := [⟨.logic Rules.LogicType.forceOff 0 0 0, 0, 4711⟩]
  pos := by decide
  small := by decide

theorem accepted_frames_in_bounds_request :
    (Usb.filterOf ownHost.mac ⟨requestMemory.read 0 24, []⟩).1 = some 46 ∧
      SafeAt 46 (ethernetProcessPacket ownHost (ruleCallbacks answerTable) 46) requestMemory
        (Station.init (Rules.Network.init fun _ => 0)) := by
  have hL : (Usb.filterOf ownHost.mac ⟨requestMemory.read 0 24, []⟩).1 = some 46 := by decide +kernel
  exact ⟨hL, accepted_frames_in_bounds answerTable ownHost _ requestMemory 46 hL⟩

end TimeSwitch.Net
