import ContentOps.Library.PyEq
import ContentOps.Library.ValuePath
import Mathlib.Data.List.Dedup

/-! The difference of two values as changes at paths of keys, and what applying changes does. -/

namespace PyData.Value
variable {X : Type}

def IsDict (v : Value X) : Prop := ∃ d, v = .dict d

/-! ## Changes -/

inductive ChangeKind where
  | added
  | removed
  | modified
deriving DecidableEq, Repr

structure Change where
  path : List String
  kind : ChangeKind
deriving DecidableEq, Repr

def Change.under (k : String) (c : Change) : Change := { c with path := k :: c.path }

/-- The change made to a value: a key is added where it is missing, removed or set where it is
there; `none` when it is not so. -/
def applyAt (kind : ChangeKind) (new : Value X) : List String → Value X → Option (Value X)
  | [], _ => if kind = .modified then some new else none
  | k :: path, .dict d =>
    match path, kind with
    | [], .added => if Dict.get? d k = none then some (.dict (Dict.set d k new)) else none
    | [], .removed => if Dict.get? d k = none then none else some (.dict (Dict.erase d k))
    | path, kind => (Dict.get? d k).bind fun v =>
        (applyAt kind new path v).map fun w => .dict (Dict.set d k w)
  | _ :: _, _ => none

/-- The change with the value that `target` has at its path. -/
def applyChange (target value : Value X) (c : Change) : Option (Value X) :=
  applyAt c.kind (getPath c.path target) c.path value

theorem applyAt_cons {kind : ChangeKind} {new : Value X} {k : String} {path : List String}
    {d : Dict String (Value X)} (h : path = [] → kind = .modified) :
    applyAt kind new (k :: path) (.dict d) =
      (d.get? k).bind fun v => (applyAt kind new path v).map fun w => .dict (d.set k w) := by
  rw [applyAt]
  · rintro hpath rfl
    exact absurd (h hpath) (by decide)
  · rintro hpath rfl
    exact absurd (h hpath) (by decide)

/-- A change further inside is made in the value of its first key. -/
theorem applyChange_under {d e : Dict String (Value X)} {k : String} {v w : Value X} {c : Change}
    (hd : d.get? k = some v) (he : e.get? k = some w)
    (hc : c.path = [] → c.kind = .modified) :
    applyChange (.dict e) (.dict d) (c.under k) =
      (applyChange w v c).map fun v' => .dict (d.set k v') := by
  obtain ⟨path, kind⟩ := c
  have htarget : getPath (k :: path) (.dict e) = getPath path w := by
    rw [getPath, child, get, he]
    rfl
  unfold applyChange Change.under
  dsimp only
  rw [htarget]
  rw [applyAt_cons hc, hd, Option.bind_some]

/-- The changes under one key, made one after another. -/
theorem foldlM_under {e : Dict String (Value X)} {k : String} {w : Value X}
    (he : e.get? k = some w) (cs : List Change)
    (hcs : ∀ c ∈ cs, c.path = [] → c.kind = .modified) (d : Dict String (Value X)) (v : Value X)
    (hd : d.get? k = some v) :
    (cs.map (Change.under k)).foldlM (applyChange (.dict e)) (.dict d) =
      (cs.foldlM (applyChange w) v).map fun v' => .dict (d.set k v') := by
  induction cs generalizing d v with
  | nil =>
    rw [List.map_nil, List.foldlM_nil, List.foldlM_nil]
    exact congrArg some (congrArg dict (Dict.set_eq_self hd).symm)
  | cons c cs ih =>
    obtain ⟨hc, hcs⟩ := List.forall_mem_cons.mp hcs
    rw [List.map_cons, List.foldlM_cons, List.foldlM_cons, applyChange_under hd he hc]
    cases applyChange w v c with
    | none => rfl
    | some v' =>
      have hstep := ih hcs (d.set k v') v' (Dict.get?_set_self d k v')
      simp only [Dict.set_set] at hstep
      exact hstep

def sortedKeys (d e : Dict String (Value X)) : List String :=
  (Dict.keys d ++ Dict.keys e).dedup.insertionSort (· ≤ ·)

theorem mem_sortedKeys {d e : Dict String (Value X)} {k : String} :
    k ∈ sortedKeys d e ↔ k ∈ Dict.keys d ∨ k ∈ Dict.keys e := by
  rw [sortedKeys, List.mem_insertionSort, List.mem_dedup, List.mem_append]

theorem nodup_sortedKeys (d e : Dict String (Value X)) : (sortedKeys d e).Nodup :=
  (List.perm_insertionSort _ _).nodup_iff.mpr (List.nodup_dedup _)

section
variable [ScalarEq X]

/-- Equal values, where what is the same value counts as equal to itself. -/
inductive Alike : Value X → Value X → Prop
  | same (v : Value X) : Alike v v
  | equal {v w : Value X} : pyEq v w = true → Alike v w
  | dict {d e : Dict String (Value X)} (hkeys : List.Perm (Dict.keys d) (Dict.keys e))
    (hvals : ∀ k v w, Dict.get? d k = some v → Dict.get? e k = some w → Alike v w) :
    Alike (.dict d) (.dict e)

mutual

/-- What has to change for the first value to become the second one. -/
def changes (v w : Value X) : List Change :=
  if pyEq v w then []
  else
    match v, w with
    | .dict d, .dict e =>
      let own := changesOfEntries d e
      (sortedKeys d e).flatMap fun k => (Dict.get? own k).getD [⟨[k], .added⟩]
    | _, _ => [⟨[], .modified⟩]

/-- The changes under each key of the first dictionary. -/
def changesOfEntries : List (String × Value X) → Dict String (Value X) → Dict String (List Change)
  | [], _ => []
  | (k, v) :: d, e =>
    (k, match Dict.get? e k with
      | some w => (changes v w).map (Change.under k)
      | none => [⟨[k], .removed⟩]) :: changesOfEntries d e

end

/-- The changes under one key of either dictionary. -/
def changesAt (d e : Dict String (Value X)) (k : String) : List Change :=
  match Dict.get? d k, Dict.get? e k with
  | none, _ => [⟨[k], .added⟩]
  | some _, none => [⟨[k], .removed⟩]
  | some v, some w => (changes v w).map (Change.under k)

theorem get?_changesOfEntries (d : List (String × Value X)) (e : Dict String (Value X))
    (k : String) : Dict.get? (changesOfEntries d e) k = (Dict.get? d k).map fun v =>
      match Dict.get? e k with
      | some w => (changes v w).map (Change.under k)
      | none => [⟨[k], .removed⟩] := by
  induction d with
  | nil => rfl
  | cons p d ih =>
    obtain ⟨k', v⟩ := p
    rw [changesOfEntries, Dict.get?_cons, Dict.get?_cons]
    split_ifs with hk
    · rw [hk]
      rfl
    · exact ih

theorem changes_of_pyEq {v w : Value X} (h : pyEq v w = true) : changes v w = [] := by
  unfold changes
  exact if_pos h

theorem changes_dict {d e : Dict String (Value X)} (h : pyEq (.dict d) (.dict e) = false) :
    changes (.dict d) (.dict e) = (sortedKeys d e).flatMap (changesAt d e) := by
  unfold changes
  rw [if_neg (by simp [h])]
  refine List.flatMap_congr fun k _ => ?_
  rw [get?_changesOfEntries, changesAt]
  cases Dict.get? d k <;> cases Dict.get? e k <;> rfl

theorem changes_of_not_dict {v w : Value X} (h : pyEq v w = false)
    (hdict : ¬(IsDict v ∧ IsDict w)) : changes v w = [⟨[], .modified⟩] := by
  unfold changes
  rw [if_neg (by simp [h])]
  split
  · next d e => exact absurd ⟨⟨d, rfl⟩, e, rfl⟩ hdict
  · rfl

end

/-! ## Dictionaries inside dictionaries -/

mutual

theorem dict_induction {P : Value X → Prop}
    (dict : ∀ d : List (String × Value X), (∀ p ∈ d, P p.2) → P (.dict d))
    (other : ∀ v, ¬IsDict v → P v) : ∀ v, P v
  | .dict d => dict d (entries_induction dict other d)
  | .null | .bool _ | .int _ | .scalar _ | .str _ | .list _ => other _ (by simp [IsDict])

theorem entries_induction {P : Value X → Prop}
    (dict : ∀ d : List (String × Value X), (∀ p ∈ d, P p.2) → P (.dict d))
    (other : ∀ v, ¬IsDict v → P v) : ∀ d : List (String × Value X), ∀ p ∈ d, P p.2
  | [] => fun _ hp => absurd hp List.not_mem_nil
  | (_, v) :: d => List.forall_mem_cons.mpr
      ⟨dict_induction dict other v, entries_induction dict other d⟩

end

mutual

/-- What holds of the keys of the value and of the dictionaries directly inside dictionaries. -/
def NestedKeys (P : String → Prop) : Value X → Prop
  | .dict d => NestedKeysOf P d
  | _ => True

def NestedKeysOf (P : String → Prop) : List (String × Value X) → Prop
  | [] => True
  | (k, v) :: d => P k ∧ NestedKeys P v ∧ NestedKeysOf P d

end

theorem nestedKeys_dict_iff {P : String → Prop} {d : List (String × Value X)} :
    NestedKeys P (.dict d) ↔ ∀ p ∈ d, P p.1 ∧ NestedKeys P p.2 := by
  rw [NestedKeys]
  induction d with
  | nil => simp [NestedKeysOf]
  | cons p d ih => rw [NestedKeysOf, ih, List.forall_mem_cons, and_assoc]

theorem nestedKeys_of_mem_sortedKeys {P : String → Prop} {d e : Dict String (Value X)}
    (hd : NestedKeys P (.dict d)) (he : NestedKeys P (.dict e)) {k : String}
    (hk : k ∈ sortedKeys d e) : P k := by
  rcases mem_sortedKeys.mp hk with hmem | hmem <;> obtain ⟨p, hp, rfl⟩ := List.mem_map.mp hmem
  · exact (nestedKeys_dict_iff.mp hd p hp).1
  · exact (nestedKeys_dict_iff.mp he p hp).1

section
variable [ScalarEq X]

/-- What holds of no changes, of a change as a whole and of the changes key by key, as far as it
holds of those under each key. -/
theorem changes_induction {Q : Value X → Value X → List Change → Prop}
    (same : ∀ v w, pyEq v w = true → Q v w [])
    (root : ∀ v w, pyEq v w = false → ¬(IsDict v ∧ IsDict w) → Q v w [⟨[], .modified⟩])
    (keys : ∀ d e : Dict String (Value X), pyEq (.dict d) (.dict e) = false →
      (∀ k v w, d.get? k = some v → e.get? k = some w → Q v w (changes v w)) →
      Q (.dict d) (.dict e) ((sortedKeys d e).flatMap (changesAt d e))) :
    ∀ v w, Q v w (changes v w) := by
  intro v
  induction v using dict_induction with
  | dict d ih =>
    intro w
    cases hsame : pyEq (.dict d) w with
    | true => exact changes_of_pyEq hsame ▸ same _ _ hsame
    | false =>
      by_cases hdict : IsDict (.dict d) ∧ IsDict w
      · obtain ⟨-, e, rfl⟩ := hdict
        rw [changes_dict hsame]
        exact keys d e hsame fun k v w hv _ => ih _ (Dict.mem_of_get? hv) w
      · exact changes_of_not_dict hsame hdict ▸ root _ _ hsame hdict
  | other v hv =>
    intro w
    have hdict : ¬(IsDict v ∧ IsDict w) := fun hboth => hv hboth.1
    cases hsame : pyEq v w with
    | true => exact changes_of_pyEq hsame ▸ same _ _ hsame
    | false => exact changes_of_not_dict hsame hdict ▸ root _ _ hsame hdict

/-! ## No changes -/

/-- Equal dictionaries have the same keys with equal values. -/
theorem pyEq_dict_of_get? {d e : Dict String (Value X)} (hd : d.keys.Nodup) (he : e.keys.Nodup)
    (h : ∀ k ∈ sortedKeys d e, ∃ v w, d.get? k = some v ∧ e.get? k = some w ∧ pyEq v w = true) :
    pyEq (.dict d) (.dict e) = true := by
  have hkeys : d.keys.Perm e.keys := by
    refine (List.perm_ext_iff_of_nodup hd he).mpr fun k => ⟨fun hk => ?_, fun hk => ?_⟩
    · obtain ⟨-, w, -, hw, -⟩ := h k (mem_sortedKeys.mpr (.inl hk))
      exact Dict.mem_keys_of_get? hw
    · obtain ⟨v, -, hv, -, -⟩ := h k (mem_sortedKeys.mpr (.inr hk))
      exact Dict.mem_keys_of_get? hv
  refine pyEq_dict_iff.mpr ⟨by simpa [Dict.keys] using hkeys.length_eq, fun p hp => ?_⟩
  obtain ⟨v, w, hv, hw, heq⟩ := h p.1 (mem_sortedKeys.mpr (.inl (List.mem_map_of_mem hp)))
  rw [Dict.get?_of_mem hd hp] at hv
  obtain rfl := Option.some.inj hv
  exact ⟨w, hw, heq⟩

theorem changesAt_eq_nil_iff {d e : Dict String (Value X)} {k : String} :
    changesAt d e k = [] ↔
      ∃ v w, d.get? k = some v ∧ e.get? k = some w ∧ changes v w = [] := by
  unfold changesAt
  cases Dict.get? d k <;> cases Dict.get? e k <;> simp

theorem pyEq_of_changes_eq_nil (v w : Value X) : v.WF → w.WF → changes v w = [] →
    pyEq v w = true := by
  refine changes_induction (Q := fun v w cs => v.WF → w.WF → cs = [] → pyEq v w = true) ?_ ?_ ?_ v w
  · exact fun _ _ hsame _ _ _ => hsame
  · exact fun _ _ _ _ _ _ hnil => absurd hnil (List.cons_ne_nil _ _)
  · intro d e _ ih hv hw hnil
    obtain ⟨hd, hdvals⟩ := wf_dict_iff.mp hv
    obtain ⟨he, hevals⟩ := wf_dict_iff.mp hw
    refine pyEq_dict_of_get? hd he fun k hk => ?_
    obtain ⟨v, w, hgetv, hgetw, hchanges⟩ :=
      changesAt_eq_nil_iff.mp (List.flatMap_eq_nil_iff.mp hnil k hk)
    exact ⟨v, w, hgetv, hgetw, ih k v w hgetv hgetw (hdvals _ (Dict.mem_of_get? hgetv))
      (hevals _ (Dict.mem_of_get? hgetw)) hchanges⟩

theorem changes_eq_nil_iff {v w : Value X} (hv : v.WF) (hw : w.WF) :
    changes v w = [] ↔ pyEq v w = true :=
  ⟨pyEq_of_changes_eq_nil v w hv hw, changes_of_pyEq⟩

/-! ## The paths of the changes -/

theorem path_of_mem_changesAt {d e : Dict String (Value X)} {k : String} {c : Change}
    (h : c ∈ changesAt d e k) : ∃ path, c.path = k :: path := by
  unfold changesAt at h
  cases hd : Dict.get? d k with
  | none =>
    rw [hd] at h
    obtain rfl := List.mem_singleton.mp h
    exact ⟨[], rfl⟩
  | some v =>
    cases he : Dict.get? e k with
    | none =>
      rw [hd, he] at h
      obtain rfl := List.mem_singleton.mp h
      exact ⟨[], rfl⟩
    | some w =>
      rw [hd, he] at h
      obtain ⟨c', -, rfl⟩ := List.mem_map.mp h
      exact ⟨c'.path, rfl⟩

theorem kind_of_path_nil (v w : Value X) : ∀ c ∈ changes v w, c.path = [] →
    c.kind = .modified ∧ ¬(IsDict v ∧ IsDict w) := by
  refine changes_induction (Q := fun v w cs => ∀ c ∈ cs, c.path = [] →
    c.kind = .modified ∧ ¬(IsDict v ∧ IsDict w)) ?_ ?_ ?_ v w
  · exact fun _ _ _ c hc => absurd hc List.not_mem_nil
  · exact fun _ _ _ hdict => List.forall_mem_singleton.mpr fun _ => ⟨rfl, hdict⟩
  · intro d e _ _ c hc hnil
    obtain ⟨k, -, hk⟩ := List.mem_flatMap.mp hc
    obtain ⟨path, hpath⟩ := path_of_mem_changesAt hk
    exact absurd (hpath.symm.trans hnil) (List.cons_ne_nil _ _)

/-- Further inside, a change is one of two dictionaries. -/
theorem isDict_of_path_cons (v w : Value X) : ∀ c ∈ changes v w, c.path ≠ [] →
    IsDict v ∧ IsDict w := by
  refine changes_induction (Q := fun v w cs => ∀ c ∈ cs, c.path ≠ [] → IsDict v ∧ IsDict w)
    ?_ ?_ ?_ v w
  · exact fun _ _ _ c hc => absurd hc List.not_mem_nil
  · exact fun _ _ _ _ => List.forall_mem_singleton.mpr fun hne => absurd rfl hne
  · exact fun d e _ _ _ _ _ => ⟨⟨d, rfl⟩, e, rfl⟩

theorem nodup_paths (v w : Value X) : ((changes v w).map Change.path).Nodup := by
  refine changes_induction (Q := fun _ _ cs => (cs.map Change.path).Nodup) ?_ ?_ ?_ v w
  · exact fun _ _ _ => List.nodup_nil
  · exact fun _ _ _ _ => List.nodup_singleton _
  · intro d e _ ih
    rw [List.map_flatMap, List.nodup_flatMap]
    constructor
    · intro k _
      unfold changesAt
      cases hv : Dict.get? d k with
      | none => exact List.nodup_singleton _
      | some v =>
        cases hw : Dict.get? e k with
        | none => exact List.nodup_singleton _
        | some w =>
          have hunder : ((changes v w).map (Change.under k)).map Change.path =
              ((changes v w).map Change.path).map (k :: ·) := by
            rw [List.map_map, List.map_map]
            rfl
          dsimp only
          rw [hunder]
          exact (ih k v w hv hw).map List.cons_injective
    · refine (nodup_sortedKeys d e).imp fun {k k'} hne => ?_
      intro path hpath hpath'
      obtain ⟨c, hc, rfl⟩ := List.mem_map.mp hpath
      obtain ⟨c', hc', heq⟩ := List.mem_map.mp hpath'
      obtain ⟨rest, hrest⟩ := path_of_mem_changesAt hc
      obtain ⟨rest', hrest'⟩ := path_of_mem_changesAt hc'
      rw [hrest, hrest'] at heq
      exact hne (List.cons.inj heq).1.symm

theorem changesAt_some {d e : Dict String (Value X)} {k : String} {v w : Value X}
    (hv : d.get? k = some v) (hw : e.get? k = some w) :
    changesAt d e k = (changes v w).map (Change.under k) := by
  unfold changesAt
  rw [hv, hw]

/-- The keys on the path of a change are keys of the two values. -/
theorem nestedKeys_of_mem_changes {P : String → Prop} (v w : Value X) : NestedKeys P v →
    NestedKeys P w → ∀ c ∈ changes v w, ∀ k ∈ c.path, P k := by
  refine changes_induction (Q := fun v w cs => NestedKeys P v → NestedKeys P w →
    ∀ c ∈ cs, ∀ k ∈ c.path, P k) ?_ ?_ ?_ v w
  · exact fun _ _ _ _ _ c hc => absurd hc List.not_mem_nil
  · exact fun _ _ _ _ _ _ => List.forall_mem_singleton.mpr fun k hk => absurd hk List.not_mem_nil
  · intro d e _ ih hv hw c hc
    obtain ⟨key, hkey, hc⟩ := List.mem_flatMap.mp hc
    have hPkey := nestedKeys_of_mem_sortedKeys hv hw hkey
    cases hdk : Dict.get? d key with
    | none =>
      rw [changesAt, hdk] at hc
      obtain rfl := List.mem_singleton.mp hc
      exact List.forall_mem_singleton.mpr hPkey
    | some v =>
      cases hek : Dict.get? e key with
      | none =>
        rw [changesAt, hdk, hek] at hc
        obtain rfl := List.mem_singleton.mp hc
        exact List.forall_mem_singleton.mpr hPkey
      | some w =>
        rw [changesAt_some hdk hek] at hc
        obtain ⟨c', hc', rfl⟩ := List.mem_map.mp hc
        have hv' := (nestedKeys_dict_iff.mp hv _ (Dict.mem_of_get? hdk)).2
        have hw' := (nestedKeys_dict_iff.mp hw _ (Dict.mem_of_get? hek)).2
        exact List.forall_mem_cons.mpr ⟨hPkey, ih key v w hdk hek hv' hw' c' hc'⟩

/-! ## Applying the changes -/

/-- One key done: it reads as in the target, and the other keys as before. -/
structure KeyDone (e c c' : Dict String (Value X)) (k : String) : Prop where
  nodup : c'.keys.Nodup
  here : Option.Rel Alike (c'.get? k) (e.get? k)
  elsewhere : ∀ k', k' ≠ k → c'.get? k' = c.get? k'

theorem exists_keyDone {d e c : Dict String (Value X)} {k : String} (hc : c.keys.Nodup)
    (hk : k ∈ sortedKeys d e) (hsame : c.get? k = d.get? k)
    (ih : ∀ v w, d.get? k = some v → e.get? k = some w →
      ∃ v', (changes v w).foldlM (applyChange w) v = some v' ∧ Alike v' w) :
    ∃ c' : Dict String (Value X),
      (changesAt d e k).foldlM (applyChange (.dict e)) (.dict c) = some (.dict c') ∧
      KeyDone e c c' k := by
  cases hd : d.get? k with
  | none =>
    have hmem : k ∈ e.keys :=
      (mem_sortedKeys.mp hk).resolve_left (Dict.get?_eq_none_iff.mp hd)
    obtain ⟨w, hw⟩ : ∃ w, e.get? k = some w :=
      Option.ne_none_iff_exists'.mp fun hnone => Dict.get?_eq_none_iff.mp hnone hmem
    refine ⟨c.set k w, ?_, Dict.nodup_keys_set hc k w, ?_, fun k' hne => ?_⟩
    · have htarget : getPath [k] (.dict e) = w := by
        rw [getPath, getPath, child, get, hw]
        rfl
      have happly : applyChange (.dict e) (.dict c) ⟨[k], .added⟩ = some (.dict (c.set k w)) := by
        unfold applyChange
        dsimp only
        rw [htarget]
        exact if_pos (hsame.trans hd)
      rw [changesAt, hd, List.foldlM_cons, happly]
      rfl
    · rw [Dict.get?_set_self, hw]
      exact .some (.same w)
    · rw [Dict.get?_set, if_neg hne.symm]
  | some v =>
    cases he : e.get? k with
    | none =>
      refine ⟨c.erase k, ?_, Dict.nodup_keys_erase hc k, ?_, fun k' hne => ?_⟩
      · have happly : applyChange (.dict e) (.dict c) ⟨[k], .removed⟩ = some (.dict (c.erase k)) :=
          if_neg (by simp [hsame, hd])
        rw [changesAt, hd, he, List.foldlM_cons, happly]
        rfl
      · rw [Dict.get?_erase, if_pos rfl, he]
        exact .none
      · rw [Dict.get?_erase, if_neg hne.symm]
    | some w =>
      obtain ⟨v', hv', halike⟩ := ih v w hd he
      refine ⟨c.set k v', ?_, Dict.nodup_keys_set hc k v', ?_, fun k' hne => ?_⟩
      · have hcs : ∀ c ∈ changes v w, c.path = [] → c.kind = .modified :=
          fun c hmem hpath => (kind_of_path_nil v w c hmem hpath).1
        rw [changesAt_some hd he, foldlM_under he _ hcs c v (hsame.trans hd), hv']
        rfl
      · rw [Dict.get?_set_self, he]
        exact .some halike
      · rw [Dict.get?_set, if_neg hne.symm]

/-- The loop over the keys: those done read as in the target, the others as before. -/
theorem exists_keysDone {d e : Dict String (Value X)}
    (ih : ∀ k v w, d.get? k = some v → e.get? k = some w →
      ∃ v', (changes v w).foldlM (applyChange w) v = some v' ∧ Alike v' w)
    (keys : List String) (hkeys : ∀ k ∈ keys, k ∈ sortedKeys d e) (hnodup : keys.Nodup)
    (c : Dict String (Value X)) (hc : c.keys.Nodup) (hsame : ∀ k ∈ keys, c.get? k = d.get? k) :
    ∃ c' : Dict String (Value X),
      (keys.flatMap (changesAt d e)).foldlM (applyChange (.dict e)) (.dict c) = some (.dict c') ∧
      c'.keys.Nodup ∧
      (∀ k ∈ keys, Option.Rel Alike (c'.get? k) (e.get? k)) ∧
      ∀ k, k ∉ keys → c'.get? k = c.get? k := by
  induction keys generalizing c with
  | nil => exact ⟨c, rfl, hc, by simp, fun _ _ => rfl⟩
  | cons k keys ihkeys =>
    obtain ⟨hk, hkeys⟩ := List.forall_mem_cons.mp hkeys
    obtain ⟨hsamek, hsame⟩ := List.forall_mem_cons.mp hsame
    obtain ⟨hnotMem, hnodup⟩ := List.nodup_cons.mp hnodup
    obtain ⟨c₁, hfold, hdone⟩ := exists_keyDone hc hk hsamek (ih k)
    have hsame₁ : ∀ k' ∈ keys, c₁.get? k' = d.get? k' := by
      intro k' hk'
      have hne : k' ≠ k := fun heq => hnotMem (heq ▸ hk')
      exact (hdone.elsewhere k' hne).trans (hsame k' hk')
    obtain ⟨c', hfold', hc', hall, hrest⟩ := ihkeys hkeys hnodup c₁ hdone.nodup hsame₁
    refine ⟨c', ?_, hc', List.forall_mem_cons.mpr ⟨?_, hall⟩, fun k' hk' => ?_⟩
    · rw [List.flatMap_cons, List.foldlM_append, hfold]
      exact hfold'
    · rw [hrest k hnotMem]
      exact hdone.here
    · obtain ⟨hne, hk'⟩ := not_or.mp (List.mem_cons.not.mp hk')
      exact (hrest k' hk').trans (hdone.elsewhere k' hne)

theorem alike_dict {d e : Dict String (Value X)} (hd : d.keys.Nodup) (he : e.keys.Nodup)
    (h : ∀ k, Option.Rel Alike (d.get? k) (e.get? k)) : Alike (.dict d) (.dict e) := by
  refine .dict ((List.perm_ext_iff_of_nodup hd he).mpr fun k => ?_) fun k v w hv hw => ?_
  · rw [← not_iff_not, ← Dict.get?_eq_none_iff, ← Dict.get?_eq_none_iff]
    have hk := h k
    constructor
    · intro hnone
      rw [hnone] at hk
      cases hget : e.get? k with
      | none => rfl
      | some w =>
        rw [hget] at hk
        cases hk
    · intro hnone
      rw [hnone] at hk
      cases hget : d.get? k with
      | none => rfl
      | some v =>
        rw [hget] at hk
        cases hk
  · have hk := h k
    rw [hv, hw] at hk
    cases hk
    assumption

/-- The changes, made one after another, turn the first value into the second one. -/
theorem exists_patched (v w : Value X) : v.WF → w.WF →
    ∃ v', (changes v w).foldlM (applyChange w) v = some v' ∧ Alike v' w := by
  refine changes_induction (Q := fun v w cs => v.WF → w.WF →
    ∃ v', cs.foldlM (applyChange w) v = some v' ∧ Alike v' w) ?_ ?_ ?_ v w
  · exact fun v w hsame _ _ => ⟨v, rfl, .equal hsame⟩
  · exact fun v w _ _ _ _ => ⟨w, rfl, .same w⟩
  · intro d e _ ih hv hw
    obtain ⟨hd, hdvals⟩ := wf_dict_iff.mp hv
    obtain ⟨he, hevals⟩ := wf_dict_iff.mp hw
    obtain ⟨c, hfold, hc, hall, hrest⟩ := exists_keysDone
      (fun k v w hdk hek => ih k v w hdk hek (hdvals _ (Dict.mem_of_get? hdk))
        (hevals _ (Dict.mem_of_get? hek)))
      (sortedKeys d e) (fun _ hk => hk) (nodup_sortedKeys d e) d hd (fun _ _ => rfl)
    refine ⟨.dict c, hfold, alike_dict hc he fun k => ?_⟩
    by_cases hk : k ∈ sortedKeys d e
    · exact hall k hk
    · obtain ⟨hkd, hke⟩ := not_or.mp (mem_sortedKeys.not.mp hk)
      rw [hrest k hk, Dict.get?_eq_none_iff.mpr hkd, Dict.get?_eq_none_iff.mpr hke]
      exact .none

end

end PyData.Value
