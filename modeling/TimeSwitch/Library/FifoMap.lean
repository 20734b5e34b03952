import TimeSwitch.Library.Runs

/-! # Maps with room for some entries

A list of entries with different keys, the oldest one first.  A value for a key with an entry replaces
the value of this entry.  A new key gets an entry at the end, which pushes out the oldest one if there
is no room. -/

namespace FifoMap

variable {κ β : Type*} [DecidableEq κ]

def keys (l : List (κ × β)) : List κ := l.map Prod.fst

/-- Take over a value. -/
def insert (cap : ℕ) (l : List (κ × β)) (k : κ) (v : β) : List (κ × β) :=
  if k ∈ keys l then l.map (fun e => if e.1 = k then (k, v) else e)
  else if l.length < cap then l ++ [(k, v)]
  else l.tail ++ [(k, v)]

def lookup (l : List (κ × β)) (k : κ) : Option β :=
  (l.find? (fun e => decide (e.1 = k))).map Prod.snd

/-- A key that needs no room, or finds it. -/
def HasRoom (cap : ℕ) (l : List (κ × β)) (k : κ) : Prop := k ∈ keys l ∨ l.length < cap

section entries

variable {cap : ℕ} {l : List (κ × β)} {k : κ} {v : β}

omit [DecidableEq κ] in
@[simp] theorem keys_length : (keys l).length = l.length := List.length_map ..

omit [DecidableEq κ] in
/-- Entries with the same key are at the same place. -/
theorem index_eq {i j : ℕ} (hl : (keys l).Nodup) (hi : i < l.length) (hj : j < l.length)
    (h : l[i].1 = l[j].1) : i = j := by
  apply (List.getElem?_inj (keys_length.symm ▸ hi) hl).mp
  unfold keys
  rw [List.getElem?_map, List.getElem?_map, List.getElem?_eq_getElem hi, List.getElem?_eq_getElem hj]
  exact congrArg some h

theorem lookup_of_mem (hl : (keys l).Nodup) (h : (k, v) ∈ l) : lookup l k = some v := by
  unfold lookup
  cases hfind : l.find? (fun e => decide (e.1 = k)) with
  | none =>
      have hnone := List.find?_eq_none.mp hfind (k, v) h
      simp at hnone
  | some e =>
      have hkey := List.find?_some hfind
      have hmem := List.mem_of_find?_eq_some hfind
      rw [decide_eq_true_iff] at hkey
      rw [← List.inj_on_of_nodup_map hl h hmem hkey.symm]
      rfl

theorem lookup_of_notMem (h : k ∉ keys l) : lookup l k = none := by
  unfold lookup
  rw [Option.map_eq_none_iff, List.find?_eq_none]
  intro e he hkey
  rw [decide_eq_true_iff] at hkey
  exact h (hkey ▸ List.mem_map_of_mem he)

theorem insert_of_mem (h : k ∈ keys l) :
    insert cap l k v = l.map (fun e => if e.1 = k then (k, v) else e) := if_pos h

theorem insert_of_room (h : k ∉ keys l) (hroom : l.length < cap) :
    insert cap l k v = l ++ [(k, v)] := by
  unfold insert
  rw [if_neg h, if_pos hroom]

theorem keys_insert_of_mem (h : k ∈ keys l) : keys (insert cap l k v) = keys l := by
  rw [insert_of_mem h]
  unfold keys
  rw [List.map_map]
  apply List.map_congr_left
  intro e _
  show (if e.1 = k then (k, v) else e).1 = e.1
  split_ifs with hk
  · exact hk.symm
  · rfl

theorem keys_insert_of_room (h : k ∉ keys l) (hroom : l.length < cap) :
    keys (insert cap l k v) = keys l ++ [k] := by
  rw [insert_of_room h hroom]
  unfold keys
  rw [List.map_append]
  rfl

/-- With room no entry is lost, and the keys stay different. -/
theorem nodup_insert (hl : (keys l).Nodup) (hroom : HasRoom cap l k) :
    (keys (insert cap l k v)).Nodup := by
  by_cases h : k ∈ keys l
  · rwa [keys_insert_of_mem h]
  · rw [keys_insert_of_room h (hroom.resolve_left h)]
    refine List.nodup_append.mpr ⟨hl, List.nodup_singleton k, fun a ha b hb => ?_⟩
    rw [List.mem_singleton] at hb
    rintro rfl
    exact h (hb ▸ ha)

theorem length_insert_le (hlen : l.length ≤ cap) (hroom : HasRoom cap l k) :
    (insert cap l k v).length ≤ cap := by
  by_cases h : k ∈ keys l
  · rwa [insert_of_mem h, List.length_map]
  · have hlt := hroom.resolve_left h
    rw [insert_of_room h hlt, List.length_append, List.length_singleton]
    exact hlt

theorem keys_insert_toFinset (hroom : HasRoom cap l k) :
    (keys (insert cap l k v)).toFinset = (keys l).toFinset ∪ {k} := by
  by_cases h : k ∈ keys l
  · rw [keys_insert_of_mem h, Finset.union_eq_left.mpr]
    rw [Finset.singleton_subset_iff, List.mem_toFinset]
    exact h
  · rw [keys_insert_of_room h (hroom.resolve_left h), List.toFinset_append]
    rfl

end entries

/-- **All entries find room** exactly if there are not more keys than room. -/
theorem hasRoom_iff {cap : ℕ} {l : List (κ × β)} (es : List (κ × β)) (hl : (keys l).Nodup)
    (hlen : l.length ≤ cap) :
    (∀ v ∈ Run.visits (fun l e => insert cap l e.1 e.2) l es, HasRoom cap v.1 v.2.1) ↔
      ((keys l).toFinset ∪ (keys es).toFinset).card ≤ cap := by
  induction es generalizing l with
  | nil =>
      have hcard : (keys l).toFinset.card = l.length := by
        rw [List.toFinset_card_of_nodup hl, keys_length]
      simp [Run.visits, keys, ← hcard] at hlen ⊢
      exact hlen
  | cons e es ih =>
      rw [Run.visits, List.forall_mem_cons]
      have hunion : (keys l).toFinset ∪ (keys (e :: es)).toFinset =
          ((keys l).toFinset ∪ {e.1}) ∪ (keys es).toFinset := by
        rw [Finset.union_assoc]
        congr 1
        exact List.toFinset_cons
      by_cases hroom : HasRoom cap l e.1
      · have hih := ih (nodup_insert (v := e.2) hl hroom) (length_insert_le hlen hroom)
        rw [keys_insert_toFinset hroom] at hih
        rw [hunion, ← hih]
        exact and_iff_right hroom
      · -- the keys do not fit any more
        refine iff_of_false (fun h => hroom h.1) (Nat.not_le.mpr ?_)
        obtain ⟨hnew, hfull⟩ := not_or.mp hroom
        have hcard : ((keys l).toFinset ∪ {e.1}).card = l.length + 1 := by
          rw [Finset.card_union_of_disjoint, List.toFinset_card_of_nodup hl, keys_length,
            Finset.card_singleton]
          rw [Finset.disjoint_singleton_right, List.mem_toFinset]
          exact hnew
        rw [hunion]
        calc cap < l.length + 1 := by omega
          _ = ((keys l).toFinset ∪ {e.1}).card := hcard.symm
          _ ≤ _ := Finset.card_le_card Finset.subset_union_left

end FifoMap
