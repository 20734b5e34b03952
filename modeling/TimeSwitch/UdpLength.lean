import TimeSwitch.ArpAnswers

/-! # The length field of a datagram

`UDP_ProcessPacket` rejects a datagram whose length field is too large for the IP packet.  But to the
callbacks it gives the length of the IP payload, not the one of the datagram, and it does not test
that the field has room for the header.  So the bytes behind a datagram are taken as a part of it
(`udpProcessPacket_delivers`). -/

namespace TimeSwitch.Net

open Program ByteMemory

variable {τ : Type}

/-! ### Calls -/

/-- The place of the payload in the call of a callback. -/
structure Call where
  packet : ℕ
  length : ℕ

/-- A callback that is called with a payload. -/
def logCall {α : Type} (c : Call) (p : Program τ α) : Program (τ × List Call) α := fun n m s =>
  (p n m s.1).map fun r => (r.1, r.2.1, r.2.2, s.2 ++ [c])

/-- The callbacks, with a list of their calls. -/
def Callbacks.logged (cb : Callbacks τ) : Callbacks (τ × List Call) where
  request packet port length := logCall ⟨packet, length⟩ (cb.request packet port length)
  reply packet sourceIP port length :=
    logCall ⟨packet, length⟩ (cb.reply packet sourceIP port length)

/-- The length field of a datagram. -/
def udpLengthAt (m : Mem) (packet : ℕ) : ℕ := swap16 (le16 (m.read (packet + 4) 2))

/-- One of the ports is the one of the nodes. -/
def ForNode (m : Mem) (packet : ℕ) : Prop :=
  le16 (m.read packet 2) = udpPortAutomat ∨ le16 (m.read (packet + 2) 2) = udpPortAutomat

instance (m : Mem) (packet : ℕ) : Decidable (ForNode m packet) :=
  inferInstanceAs (Decidable (_ ∨ _))

/-- In an IP payload of `length` bytes, the callbacks get the payload of the datagram only, and the
rules do not see what lies behind the datagram. -/
structure DeliversDatagram (packet sourceIP length n : ℕ) (m : Mem) : Prop where
  calls : ∀ (τ : Type) (cb : Callbacks τ) (s : Station (τ × List Call)) r m' s', s.app.2 = [] →
    udpProcessPacket cb.logged packet sourceIP length n m s = some (r, m', s') →
    ∀ c ∈ s'.app.2, 8 ≤ udpLengthAt m packet ∧ udpLengthAt m packet ≤ length ∧
      c = ⟨packet + 8, udpLengthAt m packet - 8⟩
  behind : ∀ (T : Rules.RuleTable) (s : Station Rules.Network) (m' : Mem),
    m'.read packet (max 8 (udpLengthAt m packet)) = m.read packet (max 8 (udpLengthAt m packet)) →
    m'.read sourceIP 4 = m.read sourceIP 4 →
    (udpProcessPacket (ruleCallbacks T) packet sourceIP length n m' s).map (·.2.2) =
      (udpProcessPacket (ruleCallbacks T) packet sourceIP length n m s).map (·.2.2)

section calls

variable {n packet sourceIP length : ℕ} {m m' : Mem} {r : Bool}

theorem onApp_logCall {α : Type} {c : Call} {p : Program τ α} {x : α}
    {s s' : Station (τ × List Call)} (h : onApp (logCall c p) n m s = some (x, m', s')) :
    s'.app.2 = s.app.2 ++ [c] := by
  unfold onApp logCall at h
  cases hp : p n m s.app.1 with
  | none =>
      rw [hp] at h
      cases h
  | some y =>
      rw [hp] at h
      cases h
      rfl

/-- `UDP_ProcessPacket` calls at most one callback, with all that follows the header. -/
theorem udpProcessPacket_calls {cb : Callbacks τ} {s s' : Station (τ × List Call)}
    (hlen : 8 ≤ length) (hn : packet + length ≤ n)
    (h : udpProcessPacket cb.logged packet sourceIP length n m s = some (r, m', s')) :
    s'.app.2 = s.app.2 ++ if udpLengthAt m packet ≤ length ∧ ForNode m packet then
      [⟨packet + 8, length - 8⟩] else [] := by
  unfold udpProcessPacket at h
  rw [load16_bind (by omega)] at h
  unfold udpLengthAt ForNode
  by_cases hshort : length < swap16 (le16 (m.read (packet + 4) 2))
  · rw [if_pos hshort] at h
    rw [if_neg fun hcall => absurd hcall.1 (Nat.not_le.mpr hshort)]
    cases h
    simp
  · have hfits := Nat.not_lt.mp hshort
    rw [if_neg hshort, sub_bind hlen, load16_bind (by omega), load16_bind (by omega)] at h
    by_cases hsource : le16 (m.read packet 2) = udpPortAutomat
    · rw [if_pos hsource] at h
      rw [if_pos ⟨hfits, Or.inl hsource⟩]
      obtain ⟨answer, m₁, s₁, hcall, hrest⟩ := bind_eq_some h
      have hlog := onApp_logCall hcall
      cases answer with
      | false =>
          cases hrest
          exact hlog
      | true =>
          rw [if_pos rfl, load16_bind (by omega), load16_bind (by omega)] at hrest
          have hwrite : ∃ m₂, (do
              let _ ← udpWriteHeader packet (le16 (m₁.read (packet + 2) 2)) (le16 (m₁.read packet 2))
                (length - 8)
              pure true : Program (Station (τ × List Call)) Bool) n m₁ s₁ = some (true, m₂, s₁) :=
            udpWriteHeader_state (by omega) s₁
          obtain ⟨m₂, hwrite⟩ := hwrite
          rw [hwrite] at hrest
          cases hrest
          exact hlog
    · rw [if_neg hsource] at h
      by_cases hdest : le16 (m.read (packet + 2) 2) = udpPortAutomat
      · rw [if_pos hdest] at h
        rw [if_pos ⟨hfits, Or.inr hdest⟩]
        obtain ⟨x, m₁, s₁, hcall, hrest⟩ := bind_eq_some h
        have hlog := onApp_logCall hcall
        cases hrest
        exact hlog
      · rw [if_neg hdest] at h
        rw [if_neg fun hcall => hcall.2.elim hsource hdest]
        cases h
        simp

theorem logCall_inBounds {α : Type} {c : Call} {p : Program τ α} (h : InBounds n p) :
    InBounds n (logCall c p) := by
  intro m s
  obtain ⟨x, m', s', hp, hm⟩ := h m s.1
  refine ⟨x, m', (s', s.2 ++ [c]), ?_, hm⟩
  unfold logCall
  rw [hp]
  rfl

theorem Callbacks.InBounds.logged {cb : Callbacks τ} (h : cb.InBounds) : cb.logged.InBounds :=
  fun packet sourceIP port length n hn hip =>
    ⟨logCall_inBounds (h packet sourceIP port length n hn hip).1,
      logCall_inBounds (h packet sourceIP port length n hn hip).2⟩

theorem silentCallbacks_inBounds : silentCallbacks.InBounds :=
  fun _ _ _ _ _ _ _ => ⟨inBounds_pure false, inBounds_pure ()⟩

end calls

/-! ### Bytes behind the datagram -/

section behind

variable {T : Rules.RuleTable} {n packet sourceIP length : ℕ} {m m' : Mem} {s : Rules.Network}

theorem rules_notForNode (h : ¬ ForNode m packet) :
    Rules.udpProcessPacket T s (datagramAt m packet sourceIP length) = s := by
  rw [ForNode, not_or] at h
  unfold Rules.udpProcessPacket datagramAt
  dsimp only
  rw [if_neg (mt (port_iff _).mp h.1), if_neg (mt (port_iff _).mp h.2)]
  split_ifs <;> rfl

/-- The same datagram is followed by other bytes. -/
theorem rules_behind (h : length ≤ udpLengthAt m packet ∨ ¬ ForNode m packet) (hlen : 8 ≤ length)
    (hread : m'.read packet (max 8 (udpLengthAt m packet)) =
      m.read packet (max 8 (udpLengthAt m packet)))
    (hip : m'.read sourceIP 4 = m.read sourceIP 4) :
    Rules.udpProcessPacket T s (datagramAt m' packet sourceIP length) =
      Rules.udpProcessPacket T s (datagramAt m packet sourceIP length) := by
  have hpart : ∀ i k, i + k ≤ max 8 (udpLengthAt m packet) →
      m'.read (packet + i) k = m.read (packet + i) k := by
    intro i k hi
    rw [Mem.read_part hread hi, Mem.read_part rfl hi]
  have hsource : m'.read packet 2 = m.read packet 2 := hpart 0 2 (by omega)
  have hdest := hpart 2 2 (by omega)
  cases h with
  | inl hfield =>
      have hdatagram : datagramAt m' packet sourceIP length =
          datagramAt m packet sourceIP length := by
        unfold datagramAt
        rw [hip, hsource, hdest, hpart 4 2 (by omega), hpart 8 (length - 8) (by omega)]
      rw [hdatagram]
  | inr hother =>
      have hother' : ¬ ForNode m' packet := by
        unfold ForNode
        rwa [hsource, hdest]
      rw [rules_notForNode hother, rules_notForNode hother']

/-- A callback gets the bytes behind a datagram. -/
theorem not_delivers (hlen : 8 ≤ length) (hn : packet + length ≤ n) (hip : sourceIP + 4 ≤ n)
    (hfield : udpLengthAt m packet < length) (hnode : ForNode m packet) :
    ¬ DeliversDatagram packet sourceIP length n m := by
  intro h
  have hrun : SafeAt n (udpProcessPacket silentCallbacks.logged packet sourceIP length) m
      (Station.init ((), [])) :=
    udpProcessPacket_inBounds silentCallbacks_inBounds.logged hlen hn hip m _
  obtain ⟨r, m', s', hrun, -⟩ := hrun
  have hcalls := udpProcessPacket_calls hlen hn hrun
  rw [if_pos ⟨hfield.le, hnode⟩] at hcalls
  have hmem : (⟨packet + 8, length - 8⟩ : Call) ∈ s'.app.2 := by
    rw [hcalls]
    exact List.mem_append_right _ (List.mem_singleton_self _)
  obtain ⟨hmin, -, heq⟩ := h.calls Unit silentCallbacks _ r m' s' rfl hrun _ hmem
  have hsame : length - 8 = udpLengthAt m packet - 8 := congrArg Call.length heq
  omega

end behind

/-- **What is delivered.**  The callbacks get exactly the datagram if its length field is the length of
the IP payload.  A larger field is rejected; with a smaller one, also if it has no room for the
header, the callbacks get the bytes behind the datagram as well. -/
theorem udpProcessPacket_delivers {packet sourceIP length n : ℕ} (m : Mem) (hlen : 8 ≤ length)
    (hn : packet + length ≤ n) (hip : sourceIP + 4 ≤ n) :
    DeliversDatagram packet sourceIP length n m ↔
      length ≤ udpLengthAt m packet ∨ ¬ ForNode m packet := by
  constructor
  · intro h
    rw [← not_lt, ← not_and_or]
    exact fun hcall => not_delivers hlen hn hip hcall.1 hcall.2 h
  · intro h
    constructor
    · intro τ cb s r m' s' hempty hrun c hc
      rw [udpProcessPacket_calls hlen hn hrun, hempty, List.nil_append] at hc
      split_ifs at hc with hcall
      · have hfield := h.resolve_right (not_not_intro hcall.2)
        rw [le_antisymm hcall.1 hfield]
        exact ⟨hlen, le_rfl, List.mem_singleton.mp hc⟩
      · cases hc
    · intro T s m' hread hsource
      obtain ⟨r, m₁, hrun⟩ := udpProcessPacket_rules (T := T) (m := m) (s := s) hlen hn hip
      obtain ⟨r', m₁', hrun'⟩ := udpProcessPacket_rules (T := T) (m := m') (s := s) hlen hn hip
      rw [hrun, hrun', rules_behind h hlen hread hsource]
      rfl

theorem udpProcessPacket_delivers_request : DeliversDatagram 34 26 12 46 requestMemory :=
  (udpProcessPacket_delivers requestMemory (by decide) (by decide) (by decide)).mpr
    (Or.inl (by decide +kernel))

/-- A datagram without payload, and four bytes behind it. -/
def trailingMemory : Mem := fun i =>
  (Usb.macOwn ++ [2, 0, 0, 0, 0, 0x41, 8, 0] ++ [0x45, 0, 0, 32, 0, 0, 0x40, 0, 64, 17, 0, 0] ++
    [192, 168, 200, 41, 192, 168, 200, 40] ++ [0x12, 0x67, 0xFF, 0x98, 0, 8, 0, 0] ++
    [7, 0, 0, 0]).getD i 0

/-- A rule with the value of another node. -/
def trailingTable : Rules.RuleTable where
  data := [⟨.remote 0x29C8A8C0, 0, 4711⟩]
  pos := by decide
  small := by decide

/-- The rule takes the bytes behind the datagram as its value. -/
theorem not_deliversDatagram_trailing : ¬ DeliversDatagram 34 26 12 46 trailingMemory ∧
    (udpProcessPacket (ruleCallbacks trailingTable) 34 26 12 46 trailingMemory
      (Station.init (Rules.Network.init fun _ => 0))).map (fun r => (r.2.2.app.rule 0).value) =
        some 7 := by
  constructor
  · exact not_delivers (by decide) (by decide) (by decide) (by decide +kernel)
      (Or.inr (by decide +kernel))
  · decide +kernel

end TimeSwitch.Net
