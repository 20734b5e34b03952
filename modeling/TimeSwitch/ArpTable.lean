import TimeSwitch.Library.FifoMap
import TimeSwitch.Protocols

/-! # The ARP table

The table should be a map with room for 10 hosts.  It is as long as no eleventh host answers
(`arp_table_bounded_iff`): `writePosition` goes on to 10 after the last entry, and the entry of the
eleventh host is written behind the table. -/

namespace TimeSwitch.Net

open Program ByteMemory FifoMap

variable {τ : Type}

/-! ### Answers -/

/-- A packet as `ARP_ProcessPacket` gets it: the ARP header is at an offset in a buffer. -/
structure ArpPacket where
  size : ℕ
  mem : Mem
  packet : ℕ
  fits : packet + 28 ≤ size

namespace ArpPacket

/-- `Operation` -/
def operation (x : ArpPacket) : ℕ := le16 (x.mem.read (x.packet + 6) 2)

/-- `SenderMAC` -/
def senderMAC (x : ArpPacket) : List UInt8 := x.mem.read (x.packet + 8) 6

/-- `SenderIP` -/
def senderIP (x : ArpPacket) : UInt32 := le32 (x.mem.read (x.packet + 14) 4) 0

/-- `TargetIP` -/
def targetIP (x : ArpPacket) : UInt32 := le32 (x.mem.read (x.packet + 24) 4) 0

/-- The host part of the sender, with its address. -/
def entry (x : ArpPacket) : UInt8 × List UInt8 := (ipGetHost x.senderIP, x.senderMAC)

/-- An answer to this node, from its subnet. -/
structure IsReply (h : Host) (x : ArpPacket) : Prop where
  target : x.targetIP = h.ip
  operation : x.operation = swap16 arpReply
  net : ipCompareNet x.senderIP h.ip = true
  host : ipGetHost x.senderIP ≠ 0

instance (h : Host) (x : ArpPacket) : Decidable (x.IsReply h) :=
  decidable_of_iff (x.targetIP = h.ip ∧ x.operation = swap16 arpReply ∧
      ipCompareNet x.senderIP h.ip = true ∧ ipGetHost x.senderIP ≠ 0)
    ⟨fun ⟨ht, ho, hn, hh⟩ => ⟨ht, ho, hn, hh⟩, fun ⟨ht, ho, hn, hh⟩ => ⟨ht, ho, hn, hh⟩⟩

end ArpPacket

/-- The static variables after `ARP_ProcessPacket`. -/
def arpReceive (h : Host) (s : Station τ) (x : ArpPacket) : Station τ :=
  match arpProcessPacket h x.packet x.size x.mem s with
  | some r => r.2.2
  | none => s

/-- An answer is taken over into the table, and not sent back. -/
theorem arpProcessPacket_reply {h : Host} {s : Station τ} {x : ArpPacket} (hx : x.IsReply h) :
    arpProcessPacket h x.packet x.size x.mem s =
      some (false, x.mem, arpLearn s x.entry.1 x.entry.2) := by
  have hfits := x.fits
  have htarget := hx.target
  have hoperation := hx.operation
  have hnet := hx.net
  unfold ArpPacket.targetIP at htarget
  unfold ArpPacket.operation at hoperation
  unfold ArpPacket.senderIP at hnet
  unfold arpProcessPacket
  rw [loadIP_bind (by omega), if_neg (not_not_intro htarget), load16_bind (by omega),
    if_neg (by rw [hoperation]; decide), if_pos hoperation, loadIP_bind (by omega), if_pos hnet,
    load_bind (by omega), get_bind, set_bind, pure_eq]
  rfl

theorem arpReceive_reply {h : Host} {s : Station τ} {x : ArpPacket} (hx : x.IsReply h) :
    arpReceive h s x = arpLearn s x.entry.1 x.entry.2 := by
  unfold arpReceive
  rw [arpProcessPacket_reply hx]

/-! ### The table as a map -/

/-- The first entry of a host. -/
def arpFind (s : Station τ) (host : UInt8) : Option ℕ :=
  (List.range arpTableSize).find? (fun i => (s.arpTable i).ip == host)

/-- The indices at which `ARP_ProcessPacket` reads and writes the table. -/
def arpAccesses (s : Station τ) (host : UInt8) : List ℕ :=
  match arpFind s host with
  | some i => List.range (i + 1) ++ [i]
  | none => List.range arpTableSize ++ [s.writePosition]

/-- The used entries have different host parts. -/
def DistinctHosts (s : Station τ) : Prop :=
  ∀ i < arpTableSize, ∀ j < arpTableSize, (s.arpTable i).ip ≠ 0 →
    (s.arpTable i).ip = (s.arpTable j).ip → i = j

/-- `ARP_searchMAC` finds the entries of the map. -/
def SearchFinds (h : Host) (s : Station τ) (l : List (UInt8 × List UInt8)) : Prop :=
  ∀ ip, ipCompareNet ip h.ip = true → ipGetHost ip ≠ 0 →
    arpSearchMAC s ip = lookup l (ipGetHost ip)

/-- A reply, for the table and for the map with room for 10 hosts. -/
def arpStep (h : Host) (p : Station τ × List (UInt8 × List UInt8)) (x : ArpPacket) :
    Station τ × List (UInt8 × List UInt8) :=
  (arpReceive h p.1 x, insert arpTableSize p.2 x.entry.1 x.entry.2)

/-- A reply is taken over within the table, and the table is the map after it. -/
structure BoundedMap (h : Host) (p : Station τ × List (UInt8 × List UInt8)) (x : ArpPacket) :
    Prop where
  bounds : ∀ i ∈ arpAccesses p.1 x.entry.1, i < arpTableSize
  distinct : DistinctHosts (arpStep h p x).1
  search : SearchFinds h (arpStep h p x).1 (arpStep h p x).2

/-- The table holds the entries of the map, in the order in which they were made. -/
structure Holds (s : Station τ) (l : List (UInt8 × List UInt8)) : Prop where
  room : l.length ≤ arpTableSize
  nodup : (keys l).Nodup
  hosts : ∀ k ∈ keys l, k ≠ 0
  position : s.writePosition = l.length
  entries : ∀ i (hi : i < l.length), s.arpTable i = ⟨l[i].1, l[i].2⟩
  empty : ∀ i, l.length ≤ i → i < arpTableSize → (s.arpTable i).ip = 0

section table

variable {s : Station τ} {l : List (UInt8 × List UInt8)} {host : UInt8} {mac : List UInt8} {i : ℕ}

theorem holds_init (app : τ) : Holds (Station.init app) [] where
  room := Nat.zero_le _
  nodup := List.nodup_nil
  hosts k hk := by cases hk
  position := rfl
  entries i hi := absurd hi (Nat.not_lt_zero i)
  empty _ _ _ := rfl

theorem Holds.get_key (h : Holds s l) (hi : i < l.length) : (s.arpTable i).ip ∈ keys l := by
  rw [h.entries i hi]
  exact List.mem_map_of_mem (List.getElem_mem hi)

/-- An entry with a host part is one of the map. -/
theorem Holds.used (h : Holds s l) (hi : i < arpTableSize) (hne : (s.arpTable i).ip ≠ 0) :
    i < l.length := by
  by_contra hge
  exact hne (h.empty i (Nat.le_of_not_lt hge) hi)

theorem Holds.find_some (h : Holds s l) (hne : host ≠ 0) (hf : arpFind s host = some i) :
    i < l.length ∧ (s.arpTable i).ip = host := by
  obtain ⟨hip, hi, -⟩ := List.find?_range_eq_some.mp hf
  rw [beq_iff_eq] at hip
  exact ⟨h.used (List.mem_range.mp hi) (hip ▸ hne), hip⟩

theorem Holds.find_none (h : Holds s l) (hf : arpFind s host = none) : host ∉ keys l := by
  intro hmem
  obtain ⟨e, he, hkey⟩ := List.mem_map.mp hmem
  obtain ⟨i, hi, rfl⟩ := List.mem_iff_getElem.mp he
  have hip := List.find?_range_eq_none.mp hf i (hi.trans_le h.room)
  rw [h.entries i hi] at hip
  simp [hkey] at hip

theorem Holds.distinct (h : Holds s l) : DistinctHosts s := by
  intro i hi j hj hne heq
  have hi' := h.used hi hne
  have hj' := h.used hj (heq ▸ hne)
  rw [h.entries i hi', h.entries j hj'] at heq
  exact index_eq h.nodup hi' hj' heq

theorem arpSearchMAC_eq (s : Station τ) (ip : UInt32) :
    arpSearchMAC s ip = (arpFind s (ipGetHost ip)).map fun i => (s.arpTable i).mac := rfl

theorem Holds.search (h : Holds s l) (hn : Host) : SearchFinds hn s l := by
  intro ip _ hne
  rw [arpSearchMAC_eq]
  cases hf : arpFind s (ipGetHost ip) with
  | none => rw [lookup_of_notMem (h.find_none hf), Option.map_none]
  | some i =>
      obtain ⟨hi, hip⟩ := h.find_some hne hf
      have hentry := h.entries i hi
      rw [hentry] at hip
      have hmem : (ipGetHost ip, l[i].2) ∈ l := by
        rw [← hip]
        exact List.getElem_mem hi
      rw [lookup_of_mem h.nodup hmem, Option.map_some, hentry]

/-! ### A reply -/

theorem arpLearn_some (hf : arpFind s host = some i) : arpLearn s host mac =
    { s with
      arpTable := Function.update s.arpTable i ⟨(s.arpTable i).ip, mac⟩ } := by
  unfold arpFind at hf
  unfold arpLearn
  rw [hf]

theorem arpLearn_none (hf : arpFind s host = none) : arpLearn s host mac =
    { s with
      arpTable := Function.update s.arpTable s.writePosition ⟨host, mac⟩
      writePosition := if s.writePosition < arpTableSize then s.writePosition + 1 else 0 } := by
  unfold arpFind at hf
  unfold arpLearn
  rw [hf]

/-- What is taken over within the table leaves the memory behind it alone. -/
theorem arpLearn_within (hw : ∀ j ∈ arpAccesses s host, j < arpTableSize) (hi : arpTableSize ≤ i) :
    (arpLearn s host mac).arpTable i = s.arpTable i := by
  unfold arpAccesses at hw
  cases hf : arpFind s host with
  | some j =>
      rw [hf] at hw
      have hj := hw j (List.mem_append_right _ (List.mem_singleton_self j))
      rw [arpLearn_some hf]
      exact Function.update_of_ne (by omega) ..
  | none =>
      rw [hf] at hw
      have hj := hw s.writePosition (List.mem_append_right _ (List.mem_singleton_self _))
      rw [arpLearn_none hf]
      exact Function.update_of_ne (by omega) ..

/-- A host with an entry gets its new address there. -/
theorem Holds.learn_some (h : Holds s l) (hne : host ≠ 0) (hf : arpFind s host = some i) :
    Holds (arpLearn s host mac) (insert arpTableSize l host mac) := by
  obtain ⟨hi, hip⟩ := h.find_some hne hf
  have hmem : host ∈ keys l := hip ▸ h.get_key hi
  have hkeys : keys (insert arpTableSize l host mac) = keys l := keys_insert_of_mem hmem
  have hlen : (insert arpTableSize l host mac).length = l.length := by
    rw [insert_of_mem hmem, List.length_map]
  have hother : ∀ j < l.length, (s.arpTable j).ip = host → j = i := fun j hj hj' =>
    h.distinct j (hj.trans_le h.room) i (hi.trans_le h.room) (hj' ▸ hne) (hj'.trans hip.symm)
  rw [arpLearn_some hf]
  refine ⟨hlen.trans_le h.room, hkeys ▸ h.nodup, hkeys ▸ h.hosts, h.position.trans hlen.symm, ?_, ?_⟩
  · intro j hj
    simp only [insert_of_mem hmem, List.length_map] at hj
    have hentry := h.entries j hj
    simp only [insert_of_mem hmem, List.getElem_map]
    by_cases hji : j = i
    · subst hji
      have hkey : l[j].1 = host := by rw [← hip, hentry]
      rw [Function.update_self, if_pos hkey, hip]
    · have hkey : l[j].1 ≠ host := by
        intro hkey
        rw [← hkey] at hother
        exact hji (hother j hj (by rw [hentry]))
      rw [Function.update_of_ne hji, if_neg hkey, hentry]
  · intro j hj hlt
    rw [hlen] at hj
    show (Function.update s.arpTable i _ j).ip = 0
    rw [Function.update_of_ne (by omega)]
    exact h.empty j hj hlt

/-- A new host gets the next entry. -/
theorem Holds.learn_none (h : Holds s l) (hne : host ≠ 0) (hf : arpFind s host = none)
    (hroom : l.length < arpTableSize) :
    Holds (arpLearn s host mac) (insert arpTableSize l host mac) := by
  have hnew := h.find_none hf
  have hkeys := keys_insert_of_room (v := mac) hnew hroom
  have hins := insert_of_room (v := mac) hnew hroom
  have hlen : (insert arpTableSize l host mac).length = l.length + 1 := by
    rw [hins, List.length_append, List.length_singleton]
  rw [arpLearn_none hf, h.position, if_pos hroom]
  refine ⟨by omega, nodup_insert h.nodup (Or.inr hroom), ?_, hlen.symm, ?_, ?_⟩
  · rw [hkeys, List.forall_mem_append, List.forall_mem_singleton]
    exact ⟨h.hosts, hne⟩
  · intro j hj
    simp only [hins]
    by_cases hjl : j = l.length
    · subst hjl
      rw [Function.update_self, List.getElem_concat_length rfl]
    · have hlt : j < l.length := by omega
      rw [Function.update_of_ne hjl, List.getElem_append_left hlt]
      exact h.entries j hlt
  · intro j hj hlt
    rw [hlen] at hj
    show (Function.update s.arpTable l.length _ j).ip = 0
    rw [Function.update_of_ne (by omega)]
    exact h.empty j (by omega) hlt

/-- **A reply** is taken over as by the map if there is room for its host. -/
theorem Holds.learn (h : Holds s l) (hne : host ≠ 0) (hroom : HasRoom arpTableSize l host) :
    Holds (arpLearn s host mac) (insert arpTableSize l host mac) := by
  cases hf : arpFind s host with
  | some i => exact h.learn_some hne hf
  | none => exact h.learn_none hne hf (hroom.resolve_left (h.find_none hf))

/-- The accesses are within the table exactly if there is room for the host. -/
theorem Holds.bounds_iff (h : Holds s l) (hne : host ≠ 0) :
    (∀ i ∈ arpAccesses s host, i < arpTableSize) ↔ HasRoom arpTableSize l host := by
  unfold arpAccesses
  cases hf : arpFind s host with
  | some i =>
      obtain ⟨hi, hip⟩ := h.find_some hne hf
      have hlt := hi.trans_le h.room
      refine iff_of_true (fun j hj => ?_) (Or.inl (hip ▸ h.get_key hi))
      cases List.mem_append.mp hj with
      | inl hj =>
          have := List.mem_range.mp hj
          omega
      | inr hj =>
          rw [List.mem_singleton.mp hj]
          exact hlt
  | none =>
      have hnew := h.find_none hf
      unfold HasRoom
      rw [List.forall_mem_append, List.forall_mem_singleton, h.position, or_iff_right hnew]
      exact and_iff_right fun j hj => List.mem_range.mp hj

end table

/-! ### Runs -/

section runs

variable {h : Host} {p : Station τ × List (UInt8 × List UInt8)} {x : ArpPacket}

/-- **A step** of the table and of the map. -/
theorem boundedMap_iff (hp : Holds p.1 p.2) (hx : x.IsReply h) :
    (BoundedMap h p x ↔ HasRoom arpTableSize p.2 x.entry.1) ∧
      (HasRoom arpTableSize p.2 x.entry.1 → Holds (arpStep h p x).1 (arpStep h p x).2) := by
  have hbounds := hp.bounds_iff hx.host
  have hlearn : HasRoom arpTableSize p.2 x.entry.1 →
      Holds (arpStep h p x).1 (arpStep h p x).2 := by
    intro hroom
    unfold arpStep
    rw [arpReceive_reply hx]
    exact hp.learn hx.host hroom
  refine ⟨⟨fun hmap => hbounds.mp hmap.bounds, fun hroom => ?_⟩, hlearn⟩
  have hafter := hlearn hroom
  exact ⟨hbounds.mpr hroom, hafter.distinct, hafter.search h⟩

end runs

/-- The map does not depend on the table. -/
theorem visits_arpStep (h : Host) (Q : List (UInt8 × List UInt8) → UInt8 × List UInt8 → Prop)
    (s : Station τ) (l : List (UInt8 × List UInt8)) (xs : List ArpPacket) :
    (∀ v ∈ Run.visits (arpStep h) (s, l) xs, Q v.1.2 v.2.entry) ↔
      ∀ v ∈ Run.visits (fun l e => insert arpTableSize l e.1 e.2) l (xs.map ArpPacket.entry),
        Q v.1 v.2 := by
  induction xs generalizing s l with
  | nil => simp [Run.visits]
  | cons x xs ih =>
      simp only [Run.visits, List.map_cons, List.forall_mem_cons]
      exact and_congr_right fun _ => ih _ _

/-- **When the ARP table is a bounded map.**  In every run of answers from the own subnet all accesses
are within the table, the used entries belong to different hosts, and `ARP_searchMAC` finds what a map
with room for 10 hosts has: exactly if at most 10 different hosts have answered. -/
theorem arp_table_bounded_iff (h : Host) (app : τ) (xs : List ArpPacket)
    (hxs : ∀ x ∈ xs, x.IsReply h) :
    (∀ v ∈ Run.visits (arpStep h) (Station.init app, []) xs, BoundedMap h v.1 v.2) ↔
      (xs.map fun x => ipGetHost x.senderIP).toFinset.card ≤ 10 := by
  have hguard : ∀ v ∈ Run.visits (arpStep h) (Station.init app, []) xs, v.2.IsReply h :=
    fun v hv => hxs v.2 (Run.visits_mem hv)
  have hmap := Run.visits_exact (I := fun p => Holds p.1 p.2) (G := fun _ x => x.IsReply h)
    (P := BoundedMap h) (fun p x hp hx => boundedMap_iff hp hx) (holds_init app) hguard
  have hroom := visits_arpStep h (fun l e => HasRoom arpTableSize l e.1) (Station.init app) [] xs
  have hkeys : keys (xs.map ArpPacket.entry) = xs.map fun x => ipGetHost x.senderIP := by
    unfold keys
    rw [List.map_map]
    rfl
  have hcount := hasRoom_iff (l := []) (xs.map ArpPacket.entry) List.nodup_nil
    (Nat.zero_le arpTableSize)
  rw [hkeys] at hcount
  rw [hmap, hroom, hcount]
  simp [keys, arpTableSize]

/-- The answer of a host of the own subnet -/
def answerOf (host : UInt8) : ArpPacket where
  size := 28
  mem i := ([0, 1, 8, 0, 6, 4, 0, 2, 2, 0, 0, 0, 0, host, 192, 168, 200, host] ++ ownHost.mac ++
    bytes32 ownHost.ip).getD i 0
  packet := 0
  fits := le_rfl

theorem arp_table_bounded_two : (∀ x ∈ [1, 2, 1].map answerOf, x.IsReply ownHost) ∧
    ∀ v ∈ Run.visits (arpStep ownHost) (Station.init (), []) ([1, 2, 1].map answerOf),
      BoundedMap ownHost v.1 v.2 := by
  have hxs : ∀ x ∈ [1, 2, 1].map answerOf, x.IsReply ownHost := by decide +kernel
  exact ⟨hxs, (arp_table_bounded_iff ownHost () _ hxs).mpr (by decide +kernel)⟩

/-- The entry of the eleventh host is written behind the table. -/
theorem not_arp_table_bounded : ¬ ∀ (h : Host) (xs : List ArpPacket), (∀ x ∈ xs, x.IsReply h) →
    ∀ v ∈ Run.visits (arpStep h) (Station.init (), []) xs, BoundedMap h v.1 v.2 := by
  intro h
  have hrun := h ownHost ([1, 2, 3, 4, 5, 6, 7, 8, 9, 10, 11].map answerOf) (by decide +kernel)
  have hbounds : ∀ v ∈ Run.visits (arpStep ownHost) (Station.init (), [])
      ([1, 2, 3, 4, 5, 6, 7, 8, 9, 10, 11].map answerOf),
      ∀ i ∈ arpAccesses v.1.1 v.2.entry.1, i < arpTableSize := fun v hv => (hrun v hv).bounds
  revert hbounds
  decide +kernel

end TimeSwitch.Net
