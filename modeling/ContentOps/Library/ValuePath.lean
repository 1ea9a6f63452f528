import ContentOps.Library.Value

/-! Values that are the same up to the order of keys, and the places inside a value. -/

namespace PyData
namespace Value
variable {X : Type}

/-- The same JSON, whatever the order of the keys. -/
def Same (v w : Value X) : Prop := v.sortKeys = w.sortKeys

instance [DecidableEq X] (v w : Value X) : Decidable (Same v w) := decEq v.sortKeys w.sortKeys

@[simp] theorem Same.refl (v : Value X) : Same v v := rfl

theorem Same.symm {v w : Value X} (h : Same v w) : Same w v := Eq.symm h

theorem dict_of_same {d : Dict String (Value X)} {w : Value X} (h : Same (.dict d) w) :
    ∃ e, w = .dict e := by
  cases w with
  | dict e => exact ⟨e, rfl⟩
  | null | bool | int | scalar | str | list => simp [Same, sortKeys] at h

theorem same_dict_iff {d e : Dict String (Value X)} (hd : d.keys.Nodup) (he : e.keys.Nodup) :
    Same (.dict d) (.dict e) ↔ ∀ k, (d.get? k).map sortKeys = (e.get? k).map sortKeys := by
  unfold Same
  rw [sortKeys_dict, sortKeys_dict, dict.injEq, ← Dict.sortByKey_mapVals, ← Dict.sortByKey_mapVals]
  have hd' : (d.mapVals sortKeys).keys.Nodup := by rwa [Dict.keys_mapVals]
  have he' : (e.mapVals sortKeys).keys.Nodup := by rwa [Dict.keys_mapVals]
  constructor
  · intro h k
    rw [← Dict.get?_mapVals, ← Dict.get?_mapVals, ← Dict.get?_sortByKey hd', h,
      Dict.get?_sortByKey he']
  · intro h
    apply Dict.sortByKey_eq_of_perm _ hd'
    refine Dict.perm_of_sameMap hd' he' ?_
    intro k
    rw [Dict.get?_mapVals, Dict.get?_mapVals, h]

theorem same_get {d e : Dict String (Value X)} {k : String}
    (h : (d.get? k).map sortKeys = (e.get? k).map sortKeys) : Same (get d k) (get e k) := by
  unfold Same get
  cases hd : d.get? k <;> cases he : e.get? k <;> simp_all

/-- What a dictionary has under a key, and null elsewhere. -/
def child (s : String) : Value X → Value X
  | .dict d => get d s
  | _ => .null

/-- `_get_path` on a path split at its dots. -/
def getPath : List String → Value X → Value X
  | [], v => v
  | s :: p, v => getPath p (child s v)

@[simp] theorem getPath_null (p : List String) : getPath p (.null : Value X) = .null := by
  induction p with
  | nil => rfl
  | cons s p ih => exact ih

theorem WF.child {v : Value X} (h : v.WF) (s : String) : (child s v).WF := by
  cases v with
  | dict d =>
    show (get d s).WF
    unfold get
    cases hs : Dict.get? d s with
    | none => exact trivial
    | some w => exact (wf_dict_iff.mp h).2 _ (Dict.mem_of_get? hs)
  | null | bool | int | scalar | str | list => exact trivial

theorem WF.getPath {v : Value X} (h : v.WF) (p : List String) : (getPath p v).WF := by
  induction p generalizing v with
  | nil => exact h
  | cons s p ih => exact ih (h.child s)

theorem Same.child {v w : Value X} (hv : v.WF) (hw : w.WF) (h : Same v w) (s : String) :
    Same (child s v) (child s w) := by
  by_cases hvd : ∃ d, v = .dict d
  · obtain ⟨d, rfl⟩ := hvd
    obtain ⟨e, rfl⟩ := dict_of_same h
    exact same_get ((same_dict_iff (wf_dict_iff.mp hv).1 (wf_dict_iff.mp hw).1).mp h s)
  · have hnull : ∀ {u : Value X}, (¬ ∃ d, u = .dict d) → Value.child s u = .null := by
      intro u hu
      cases u with
      | dict d => exact absurd ⟨d, rfl⟩ hu
      | null | bool | int | scalar | str | list => rfl
    have hwd : ¬ ∃ e, w = .dict e := by
      rintro ⟨e, rfl⟩
      exact hvd (dict_of_same h.symm)
    rw [hnull hvd, hnull hwd]
    exact Same.refl _

theorem Same.getPath {v w : Value X} (hv : v.WF) (hw : w.WF) (h : Same v w) (p : List String) :
    Same (getPath p v) (getPath p w) := by
  induction p generalizing v w with
  | nil => exact h
  | cons s p ih => exact ih (hv.child s) (hw.child s) (h.child hv hw s)

/-- The value with null at a path it has. -/
def mask : List String → Value X → Value X
  | [], _ => .null
  | s :: p, .dict d =>
    match Dict.get? d s with
    | some v => .dict (Dict.set d s (mask p v))
    | none => .dict d
  | _ :: _, v => v

theorem mask_dict (s : String) (p : List String) (d : Dict String (Value X)) :
    ∃ e : Dict String (Value X), mask (s :: p) (.dict d) = .dict e ∧ (d.keys.Nodup → e.keys.Nodup) ∧
      ∀ k, e.get? k = if s = k then (d.get? k).map (mask p) else d.get? k := by
  cases hs : d.get? s with
  | none =>
    refine ⟨d, by rw [mask, hs], id, ?_⟩
    intro k
    split_ifs with hk
    · rw [← hk, hs]
      rfl
    · rfl
  | some v =>
    refine ⟨d.set s (mask p v), by rw [mask, hs], fun h => Dict.nodup_keys_set h _ _, ?_⟩
    intro k
    rw [Dict.get?_set]
    split_ifs with hk
    · rw [← hk, hs]
      rfl
    · rfl

theorem WF.mask (p : List String) {v : Value X} (h : v.WF) : (mask p v).WF := by
  induction p generalizing v with
  | nil => exact trivial
  | cons s p ih =>
    cases v with
    | dict d =>
      obtain ⟨e, he, hnodup, hget⟩ := mask_dict s p d
      rw [he]
      have hd := wf_dict_iff.mp h
      refine wf_dict_iff.mpr ⟨hnodup hd.1, ?_⟩
      rintro ⟨k, w⟩ hw
      have hk := hget k
      rw [Dict.get?_of_mem (hnodup hd.1) hw] at hk
      split_ifs at hk
      · obtain ⟨u, hu, rfl⟩ := Option.map_eq_some_iff.mp hk.symm
        exact ih (hd.2 _ (Dict.mem_of_get? hu))
      · exact hd.2 _ (Dict.mem_of_get? hk.symm)
    | null | bool | int | scalar | str | list => exact h

theorem mask_of_not_dict {v : Value X} (h : ∀ d, v ≠ .dict d) (s : String) (p : List String) :
    mask (s :: p) v = v := by
  cases v with
  | dict d => exact absurd rfl (h d)
  | null | bool | int | scalar | str | list => rfl

/-- Two values that agree at a path are the same exactly when they are the same elsewhere. -/
theorem same_mask_iff (p : List String) {v w : Value X} (hv : v.WF) (hw : w.WF)
    (h : Same (getPath p v) (getPath p w)) : Same v w ↔ Same (mask p v) (mask p w) := by
  induction p generalizing v w with
  | nil => exact ⟨fun _ => Same.refl _, fun _ => h⟩
  | cons s p ih =>
    by_cases hvd : ∃ d, v = .dict d
    · obtain ⟨d, rfl⟩ := hvd
      obtain ⟨d', hd', hdnodup, hdget⟩ := mask_dict s p d
      by_cases hwd : ∃ e, w = .dict e
      · obtain ⟨e, rfl⟩ := hwd
        obtain ⟨e', he', henodup, heget⟩ := mask_dict s p e
        have hd := wf_dict_iff.mp hv
        have he := wf_dict_iff.mp hw
        rw [hd', he', same_dict_iff hd.1 he.1, same_dict_iff (hdnodup hd.1) (henodup he.1)]
        -- Only the entry of the path's first segment is touched.
        have hentry : (Dict.get? d s).map sortKeys = (Dict.get? e s).map sortKeys ↔
            ((Dict.get? d s).map (mask p)).map sortKeys = ((Dict.get? e s).map (mask p)).map sortKeys := by
          cases ha : Dict.get? d s with
          | none => cases hb : Dict.get? e s <;> simp
          | some a =>
            cases hb : Dict.get? e s with
            | none => simp
            | some b =>
              have hih := ih (hd.2 _ (Dict.mem_of_get? ha)) (he.2 _ (Dict.mem_of_get? hb))
                (by simpa [Value.getPath, Value.child, get, ha, hb] using h)
              simpa [Same] using hih
        constructor
        · intro hall k
          rw [hdget, heget]
          split_ifs with hk
          · exact hk ▸ hentry.mp (hall s)
          · exact hall k
        · intro hall k
          have hk' := hall k
          rw [hdget, heget] at hk'
          split_ifs at hk' with hk
          · exact hk ▸ hentry.mpr (hk ▸ hk')
          · exact hk'
      · rw [hd', mask_of_not_dict (not_exists.mp hwd)]
        exact ⟨fun hs => absurd (dict_of_same hs) hwd, fun hs => absurd (dict_of_same hs) hwd⟩
    · rw [mask_of_not_dict (not_exists.mp hvd)]
      by_cases hwd : ∃ e, w = .dict e
      · obtain ⟨e, rfl⟩ := hwd
        obtain ⟨e', he', -, -⟩ := mask_dict s p e
        rw [he']
        exact ⟨fun hs => absurd (dict_of_same hs.symm) hvd,
          fun hs => absurd (dict_of_same hs.symm) hvd⟩
      · rw [mask_of_not_dict (not_exists.mp hwd)]

theorem child_mask (t s : String) (q : List String) (v : Value X) :
    child t (mask (s :: q) v) = if s = t then mask q (child t v) else child t v := by
  have hnull : mask q (.null : Value X) = .null := by cases q <;> rfl
  cases v with
  | dict d =>
    obtain ⟨e, he, -, hget⟩ := mask_dict s q d
    rw [he]
    unfold child get
    dsimp only
    rw [hget]
    split_ifs
    · cases Dict.get? d t with
      | none => exact hnull.symm
      | some w => rfl
    · rfl
  | null | bool | int | scalar | str | list =>
    simp only [mask, child, hnull, ite_self]

/-- Masking one path keeps an agreement at another. -/
theorem same_getPath_mask (p q : List String) {v w : Value X} (hv : v.WF) (hw : w.WF)
    (h : Same (getPath p v) (getPath p w)) :
    Same (getPath p (mask q v)) (getPath p (mask q w)) := by
  induction q generalizing p v w with
  | nil => exact Same.refl _
  | cons s q ih =>
    cases p with
    | nil => exact (same_mask_iff (s :: q) hv hw (Same.getPath hv hw h _)).mp h
    | cons t p =>
      unfold getPath
      rw [child_mask, child_mask]
      split_ifs
      · exact ih p (hv.child t) (hw.child t) h
      · exact h

/-- The value with null at each of the paths it has. -/
def maskAll (ps : List (List String)) (v : Value X) : Value X := ps.foldl (fun v p => mask p v) v

/-- Two values that agree at some paths are the same exactly when they are the same elsewhere. -/
theorem same_maskAll_iff (ps : List (List String)) {v w : Value X} (hv : v.WF) (hw : w.WF)
    (h : ∀ p ∈ ps, Same (getPath p v) (getPath p w)) :
    Same v w ↔ Same (maskAll ps v) (maskAll ps w) := by
  induction ps generalizing v w with
  | nil => exact Iff.rfl
  | cons q ps ih =>
    rw [same_mask_iff q hv hw (h q List.mem_cons_self)]
    apply ih (hv.mask q) (hw.mask q)
    intro p hp
    exact same_getPath_mask p q hv hw (h p (List.mem_cons_of_mem _ hp))

end Value
end PyData
