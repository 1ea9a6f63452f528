import ContentOps.Library.ValuePath

/-! Values up to the order of keys and up to what a function makes of their texts. -/

namespace PyData

/-- Dictionaries with the same keys in the same order are equal when they agree as mappings. -/
theorem Dict.eq_of_keys {κ α : Type*} [DecidableEq κ] {a b : Dict κ α} (hkeys : a.keys = b.keys)
    (hd : a.keys.Nodup) (h : ∀ k, a.get? k = b.get? k) : a = b := by
  induction a generalizing b with
  | nil =>
    cases b with
    | nil => rfl
    | cons q b => simp [Dict.keys] at hkeys
  | cons p a ih =>
    cases b with
    | nil => simp [Dict.keys] at hkeys
    | cons q b =>
      obtain ⟨k, v⟩ := p
      obtain ⟨k', v'⟩ := q
      obtain ⟨rfl, htail⟩ : k = k' ∧ Dict.keys a = Dict.keys b := by simpa [Dict.keys] using hkeys
      obtain ⟨hnot, hnodup⟩ := List.nodup_cons.mp hd
      have hnot : k ∉ Dict.keys a := hnot
      have hv : v = v' := by simpa using h k
      have hrest : ∀ j, Dict.get? a j = Dict.get? b j := by
        intro j
        by_cases hj : k = j
        · rw [← hj, Dict.get?_eq_none_iff.mpr hnot, Dict.get?_eq_none_iff.mpr (htail ▸ hnot)]
        · simpa [Dict.get?_cons_ne hj] using h j
      rw [hv, ih htail hnodup hrest]

namespace Value
variable {X : Type} (c : String → String)

mutual

/-- The keys in order, and every text replaced by its canonical form. -/
def canon : Value X → Value X
  | .dict d => .dict (Dict.sortByKey (canonEntries d))
  | .list vs => .list (canonItems vs)
  | .str s => .str (c s)
  | .null => .null
  | .bool b => .bool b
  | .int n => .int n
  | .scalar x => .scalar x

def canonItems : List (Value X) → List (Value X)
  | [] => []
  | v :: vs => canon v :: canonItems vs

def canonEntries : List (String × Value X) → Dict String (Value X)
  | [] => []
  | (k, v) :: d => (k, canon v) :: canonEntries d

end

theorem canonItems_eq (vs : List (Value X)) : canonItems c vs = vs.map (canon c) := by
  induction vs with
  | nil => rfl
  | cons v vs ih => rw [canonItems, ih, List.map_cons]

theorem canonEntries_eq (d : Dict String (Value X)) : canonEntries c d = d.mapVals (canon c) := by
  induction d with
  | nil => rfl
  | cons p d ih =>
    rw [canonEntries, ih]
    rfl

theorem wf_list_iff {vs : List (Value X)} : WF (.list vs) ↔ ∀ v ∈ vs, WF v := by
  rw [WF]
  induction vs with
  | nil => simp [WFList]
  | cons v vs ih => rw [WFList, ih, List.forall_mem_cons]

/-- Two dictionaries have one canonical form when they have it under every key. -/
theorem canon_dict_eq_iff {d e : Dict String (Value X)} (hd : d.keys.Nodup) (he : e.keys.Nodup) :
    canon c (.dict d) = canon c (.dict e) ↔
      ∀ k, (d.get? k).map (canon c) = (e.get? k).map (canon c) := by
  have hd' : (d.mapVals (canon c)).keys.Nodup := by rwa [Dict.keys_mapVals]
  have he' : (e.mapVals (canon c)).keys.Nodup := by rwa [Dict.keys_mapVals]
  rw [canon, canon, dict.injEq, canonEntries_eq, canonEntries_eq]
  constructor
  · intro h k
    rw [← Dict.get?_mapVals, ← Dict.get?_mapVals, ← Dict.get?_sortByKey hd', h,
      Dict.get?_sortByKey he']
  · intro h
    refine Dict.sortByKey_eq_of_perm (Dict.perm_of_sameMap hd' he' fun k => ?_) hd'
    rw [Dict.get?_mapVals, Dict.get?_mapVals, h]

/-- With the same keys in the same order it is the entries that count. -/
theorem canon_dict_eq_iff_entries {d e : Dict String (Value X)} (hkeys : e.keys = d.keys)
    (hd : d.keys.Nodup) :
    canon c (.dict e) = canon c (.dict d) ↔ canonEntries c e = canonEntries c d := by
  constructor
  · intro h
    rw [canon_dict_eq_iff c (hkeys ▸ hd) hd] at h
    rw [canonEntries_eq, canonEntries_eq]
    refine Dict.eq_of_keys (by rw [Dict.keys_mapVals, Dict.keys_mapVals, hkeys])
      (by rw [Dict.keys_mapVals, hkeys]; exact hd) fun k => ?_
    rw [Dict.get?_mapVals, Dict.get?_mapVals, h]
  · intro h
    rw [canon, canon, h]

/-- Two dictionaries that differ at one key at most. -/
theorem canon_dict_eq_iff_at {d e : Dict String (Value X)} {k : String} {v w : Value X}
    (hd : d.keys.Nodup) (he : e.keys.Nodup) (hdk : d.get? k = some v) (hek : e.get? k = some w)
    (hrest : ∀ j, k ≠ j → d.get? j = e.get? j) :
    canon c (.dict d) = canon c (.dict e) ↔ canon c v = canon c w := by
  rw [canon_dict_eq_iff c hd he]
  constructor
  · intro h
    have hk := h k
    rw [hdk, hek] at hk
    exact Option.some.inj hk
  · intro h j
    by_cases hj : k = j
    · rw [← hj, hdk, hek, Option.map_some, Option.map_some, h]
    · rw [hrest j hj]

end Value
end PyData
