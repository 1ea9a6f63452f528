import ContentOps.Core.RoundTrip
import ContentOps.Library.ValueDiff

/-! What differs between two payloads, field by field: `field_diff` of `core/drift.py`. -/

namespace ContentOps
open PyData Value

structure FieldDiff where
  key : String
  kind : ChangeKind
  localRepr : Text
  remoteRepr : Text
deriving DecidableEq

section
variable {X : Type}
-- Python's `repr` of a value.
variable (repr : Value X → Text)

/-- `_short_repr`. -/
def shortRepr (v : Value X) : Text :=
  let s := repr v
  if 80 < s.length then s.take 77 ++ "...".toList else s

def subKey (start k : String) : String := if start = "" then k else start ++ "." ++ k

variable [Value.ScalarEq X]

mutual

/-- `_diff_walk`. -/
def diffWalk (v w : Value X) (start : String) : List FieldDiff :=
  if pyEq v w then []
  else
    match v, w with
    | .dict d, .dict e =>
      let own := diffEntries d e start
      (sortedKeys d e).flatMap fun k => (Dict.get? own k).getD
        [⟨subKey start k, .added, [], shortRepr repr (Value.get e k)⟩]
    -- Lists, scalars and values of different types: one modification.
    | v, w =>
      let key := if start = "" then "(root)" else start
      [⟨key, .modified, shortRepr repr v, shortRepr repr w⟩]

/-- What `_diff_walk` finds under each key of the local dictionary. -/
def diffEntries : List (String × Value X) → Dict String (Value X) → String →
    Dict String (List FieldDiff)
  | [], _, _ => []
  | (k, v) :: d, e, start =>
    (k, match Dict.get? e k with
      | some w => diffWalk v w (subKey start k)
      | none => [⟨subKey start k, .removed, shortRepr repr v, []⟩]) :: diffEntries d e start

end

/-- `field_diff`. -/
def fieldDiff (localPayload remotePayload : Value X) : List FieldDiff :=
  diffWalk repr (normalize localPayload) (normalize remotePayload) ""

/-! ## The walk and the changes -/

/-- The key path of a change, below a start. -/
def keyText (start : String) (path : List String) : String :=
  let key := path.foldl subKey start
  if key = "" then "(root)" else key

def fieldDiffOf (start : String) (v w : Value X) (c : Change) : FieldDiff where
  key := keyText start c.path
  kind := c.kind
  localRepr := if c.kind = .added then [] else shortRepr repr (getPath c.path v)
  remoteRepr := if c.kind = .removed then [] else shortRepr repr (getPath c.path w)

variable {repr}

theorem get?_diffEntries (d : List (String × Value X)) (e : Dict String (Value X))
    (start k : String) : Dict.get? (diffEntries repr d e start) k = (Dict.get? d k).map fun v =>
      match Dict.get? e k with
      | some w => diffWalk repr v w (subKey start k)
      | none => [⟨subKey start k, .removed, shortRepr repr v, []⟩] := by
  induction d with
  | nil => rfl
  | cons p d ih =>
    obtain ⟨k', v⟩ := p
    rw [diffEntries, Dict.get?_cons, Dict.get?_cons]
    split_ifs with hk
    · rw [hk]
      rfl
    · exact ih

theorem subKey_ne_empty {start k : String} (h : k ≠ "") : subKey start k ≠ "" := by
  unfold subKey
  split_ifs with hstart
  · exact h
  · intro heq
    have hchars := congrArg String.toList heq
    simp at hchars

theorem keyText_singleton (start : String) {k : String} (h : k ≠ "") :
    keyText start [k] = subKey start k :=
  if_neg (subKey_ne_empty h)

omit [Value.ScalarEq X] in
theorem fieldDiffOf_under {d e : Dict String (Value X)} {k : String} {v w : Value X}
    (hd : d.get? k = some v) (he : e.get? k = some w) (start : String) (c : Change) :
    fieldDiffOf repr start (.dict d) (.dict e) (c.under k) =
      fieldDiffOf repr (subKey start k) v w c := by
  have hpath : ∀ {f : Dict String (Value X)} {u : Value X}, f.get? k = some u →
      getPath (k :: c.path) (.dict f) = getPath c.path u := by
    intro f u hf
    rw [getPath, child, Value.get, hf]
    rfl
  unfold fieldDiffOf Change.under
  dsimp only
  rw [hpath hd, hpath he]
  rfl

/-- The walk reports the changes, each with its key path and the values at it. -/
theorem diffWalk_eq : ∀ v w : Value X, NestedKeys (· ≠ "") v → NestedKeys (· ≠ "") w →
    ∀ start, diffWalk repr v w start = (changes v w).map (fieldDiffOf repr start v w) := by
  intro v
  induction v using dict_induction with
  | dict d ih =>
    intro w hv hw start
    unfold diffWalk changes
    by_cases hsame : pyEq (.dict d) w = true
    · rw [if_pos hsame, if_pos hsame]
      rfl
    · rw [if_neg hsame, if_neg hsame]
      cases w with
      | dict e =>
        dsimp only
        rw [List.map_flatMap]
        refine List.flatMap_congr fun k hk => ?_
        have hne : k ≠ "" := nestedKeys_of_mem_sortedKeys hv hw hk
        have hkey := keyText_singleton start hne
        rw [get?_diffEntries, get?_changesOfEntries]
        cases hdk : Dict.get? d k with
        | none => simp [fieldDiffOf, hkey, getPath, child]
        | some v =>
          cases hek : Dict.get? e k with
          | none => simp [fieldDiffOf, hkey, getPath, child, Value.get, hdk]
          | some w =>
            have hmemd := Dict.mem_of_get? hdk
            have hmeme := Dict.mem_of_get? hek
            have hwalk := ih _ hmemd w (nestedKeys_dict_iff.mp hv _ hmemd).2
              (nestedKeys_dict_iff.mp hw _ hmeme).2 (subKey start k)
            simp only [Option.map_some, Option.getD_some]
            rw [hwalk, List.map_map]
            exact List.map_congr_left fun c _ => (fieldDiffOf_under hdk hek start c).symm
      | null | bool | int | scalar | str | list => rfl
  | other v hvd =>
    intro w _ _ start
    unfold diffWalk changes
    by_cases hsame : pyEq v w = true
    · rw [if_pos hsame, if_pos hsame]
      rfl
    · rw [if_neg hsame, if_neg hsame]
      cases v with
      | dict d => exact absurd ⟨d, rfl⟩ hvd
      | null | bool | int | scalar | str | list => rfl

/-! ## The key paths -/

/-- A key that a dotted path can name. -/
def IsPlainKey (k : String) : Prop := k ≠ "" ∧ '.' ∉ k.toList

/-- The path that the key of an entry names: an entry about the whole payload names none. -/
def namedPath (v w : Value X) (key : String) : List String :=
  match v, w with
  | .dict _, .dict _ => (key.toList.splitOn '.').map String.ofList
  | _, _ => []

theorem toList_foldl_subKey {start : String} (h : start ≠ "") (path : List String) :
    (path.foldl subKey start).toList = start.toList ++ path.flatMap fun k => '.' :: k.toList := by
  induction path generalizing start with
  | nil => exact (List.append_nil _).symm
  | cons k path ih =>
    have hsub : subKey start k = start ++ "." ++ k := if_neg h
    have hne : subKey start k ≠ "" := by
      rw [hsub]
      intro heq
      have hchars := congrArg String.toList heq
      simp at hchars
    rw [List.foldl_cons, ih hne, hsub, List.flatMap_cons]
    simp

theorem intercalate_toList (k : String) (path : List String) :
    ['.'].intercalate ((k :: path).map String.toList) =
      k.toList ++ path.flatMap fun k => '.' :: k.toList := by
  induction path generalizing k with
  | nil => simp
  | cons k' path ih =>
    rw [List.map_cons, List.map_cons, List.intercalate_cons_cons, ← List.map_cons, ih,
      List.flatMap_cons]
    simp

theorem splitOn_keyText {k : String} {path : List String} (h : ∀ k' ∈ k :: path, IsPlainKey k') :
    ((keyText "" (k :: path)).toList.splitOn '.').map String.ofList = k :: path := by
  have hk := (h k List.mem_cons_self).1
  have htext : (keyText "" (k :: path)).toList =
      ['.'].intercalate ((k :: path).map String.toList) := by
    have hfold : (k :: path).foldl subKey "" = path.foldl subKey k := rfl
    have hchars := toList_foldl_subKey hk path
    have hne : path.foldl subKey k ≠ "" := by
      intro heq
      rw [heq] at hchars
      have hnil := List.append_eq_nil_iff.mp hchars.symm
      exact hk (String.toList_inj.mp hnil.1)
    unfold keyText
    dsimp only
    rw [hfold, if_neg hne, hchars, intercalate_toList]
  have hdots : ∀ l ∈ (k :: path).map String.toList, '.' ∉ l := by
    intro l hl
    obtain ⟨k', hk', rfl⟩ := List.mem_map.mp hl
    exact (h k' hk').2
  rw [htext, List.splitOn_intercalate '.' hdots (by simp), List.map_map]
  simp [Function.comp_def]

/-- Every entry names the path of its change. -/
theorem namedPath_keyText {v w : Value X} {c : Change} (hc : c ∈ changes v w)
    (hplain : ∀ k ∈ c.path, IsPlainKey k) : namedPath v w (keyText "" c.path) = c.path := by
  cases hpath : c.path with
  | nil =>
    have hdict := (kind_of_path_nil v w c hc hpath).2
    unfold namedPath
    split
    · next d e => exact absurd ⟨⟨d, rfl⟩, e, rfl⟩ hdict
    · rfl
  | cons k path =>
    obtain ⟨⟨d, rfl⟩, e, rfl⟩ := isDict_of_path_cons v w c hc (by simp [hpath])
    exact splitOn_keyText (hpath ▸ hplain)

/-! ## What the entries explain -/

omit [Value.ScalarEq X] in
theorem nestedKeys_normalize {P : String → Prop} : ∀ v : Value X, NestedKeys P v →
    NestedKeys P (normalize v) := by
  intro v
  induction v using dict_induction with
  | dict d ih =>
    intro h
    rw [normalize_dict, nestedKeys_dict_iff]
    intro p hp
    obtain ⟨q, hq, rfl⟩ := List.mem_map.mp ((Dict.sortByKey_perm _).mem_iff.mp hp)
    obtain ⟨hkey, hval⟩ := nestedKeys_dict_iff.mp h q hq
    exact ⟨hkey, ih q hq hval⟩
  | other v hv =>
    intro _
    cases v with
    | dict d => exact absurd ⟨d, rfl⟩ hv
    | null | bool | int | scalar | str | list => simp [normalize, NestedKeys]

/-- The change that an entry stands for, made with the value that `target` has at its path. -/
def applyEntry (source target v : Value X) (f : FieldDiff) : Option (Value X) :=
  applyChange target v ⟨namedPath source target f.key, f.kind⟩

/-- The entries name distinct key paths, and adding, removing and setting the values there, one
entry after another, makes the one payload of the other. -/
structure Explains (source target : Value X) (entries : List FieldDiff) : Prop where
  distinct : (entries.map (·.key)).Nodup
  patches : ∃ v, entries.foldlM (applyEntry source target) source = some v ∧ Alike v target

theorem foldlM_congr_mem {α β : Type} {f g : α → β → Option α} {l : List β}
    (h : ∀ a, ∀ b ∈ l, f a b = g a b) (a : α) : l.foldlM f a = l.foldlM g a := by
  induction l generalizing a with
  | nil => rfl
  | cons b l ih =>
    rw [List.foldlM_cons, List.foldlM_cons, h a b List.mem_cons_self]
    exact congrArg _ (funext fun a' => ih (fun a c hc => h a c (List.mem_cons_of_mem _ hc)) a')

theorem explains_changes {v w : Value X} (hv : v.WF) (hw : w.WF) (hkv : NestedKeys IsPlainKey v)
    (hkw : NestedKeys IsPlainKey w) :
    Explains v w ((changes v w).map (fieldDiffOf repr "" v w)) := by
  have hnamed : ∀ c ∈ changes v w, namedPath v w (keyText "" c.path) = c.path :=
    fun c hc => namedPath_keyText hc (nestedKeys_of_mem_changes v w hkv hkw c hc)
  constructor
  · have hkeys : ((changes v w).map (fieldDiffOf repr "" v w)).map (·.key) =
        ((changes v w).map Change.path).map (keyText "") := by
      rw [List.map_map, List.map_map]
      rfl
    rw [hkeys]
    refine List.Nodup.map_on ?_ (nodup_paths v w)
    intro path hpath path' hpath' heq
    obtain ⟨c, hc, rfl⟩ := List.mem_map.mp hpath
    obtain ⟨c', hc', rfl⟩ := List.mem_map.mp hpath'
    rw [← hnamed c hc, heq, hnamed c' hc']
  · obtain ⟨patched, hfold, halike⟩ := exists_patched v w hv hw
    refine ⟨patched, ?_, halike⟩
    rw [List.foldlM_map, ← hfold]
    refine foldlM_congr_mem (fun u c hc => ?_) v
    have hpath : namedPath v w (fieldDiffOf repr "" v w c).key = c.path := hnamed c hc
    unfold applyEntry
    rw [hpath]
    rfl

omit [Value.ScalarEq X] in
theorem nestedKeys_ne_empty : ∀ v : Value X, NestedKeys IsPlainKey v → NestedKeys (· ≠ "") v := by
  intro v
  induction v using dict_induction with
  | dict d ih =>
    intro h
    refine nestedKeys_dict_iff.mpr fun p hp => ?_
    obtain ⟨hkey, hval⟩ := nestedKeys_dict_iff.mp h p hp
    exact ⟨hkey.1, ih p hp hval⟩
  | other v hv =>
    intro _
    cases v with
    | dict d => exact absurd ⟨d, rfl⟩ hv
    | null | bool | int | scalar | str | list => simp [NestedKeys]

theorem fieldDiff_eq (repr : Value X → Text) {localPayload remotePayload : Value X}
    (hkl : NestedKeys IsPlainKey localPayload) (hkr : NestedKeys IsPlainKey remotePayload) :
    fieldDiff repr localPayload remotePayload =
      (changes (normalize localPayload) (normalize remotePayload)).map
        (fieldDiffOf repr "" (normalize localPayload) (normalize remotePayload)) :=
  diffWalk_eq _ _ (nestedKeys_ne_empty _ (nestedKeys_normalize _ hkl))
    (nestedKeys_ne_empty _ (nestedKeys_normalize _ hkr)) ""

theorem explains_fieldDiff (repr : Value X → Text) {localPayload remotePayload : Value X}
    (hl : localPayload.WF) (hr : remotePayload.WF) (hkl : NestedKeys IsPlainKey localPayload)
    (hkr : NestedKeys IsPlainKey remotePayload) :
    Explains (normalize localPayload) (normalize remotePayload)
      (fieldDiff repr localPayload remotePayload) := by
  rw [fieldDiff_eq repr hkl hkr]
  exact explains_changes (normalize_wf _ hl) (normalize_wf _ hr) (nestedKeys_normalize _ hkl)
    (nestedKeys_normalize _ hkr)

/-- Where every scalar equals itself, to be alike is to be equal. -/
theorem pyEq_of_alike (hscalar : ∀ x : X, Value.ScalarEq.eq x x = true) {v w : Value X}
    (h : Alike v w) (hw : w.WF) : pyEq v w = true := by
  induction h with
  | same v => exact pyEq_self hscalar v hw
  | equal heq => exact heq
  | @dict d e hkeys _ ih =>
    obtain ⟨he, hvals⟩ := wf_dict_iff.mp hw
    have hd : d.keys.Nodup := hkeys.nodup_iff.mpr he
    refine pyEq_dict_iff.mpr ⟨by simpa [Dict.keys] using hkeys.length_eq, fun p hp => ?_⟩
    have hmem : p.1 ∈ Dict.keys e := hkeys.mem_iff.mp (List.mem_map_of_mem hp)
    obtain ⟨w, hget⟩ : ∃ w, e.get? p.1 = some w :=
      Option.ne_none_iff_exists'.mp fun hnone => Dict.get?_eq_none_iff.mp hnone hmem
    exact ⟨w, hget, ih p.1 p.2 w (Dict.get?_of_mem hd hp) hget (hvals _ (Dict.mem_of_get? hget))⟩

/-- The payload that the entries lead to compares equal to the remote one. -/
theorem exists_patched_pyEq (repr : Value X → Text)
    (hscalar : ∀ x : X, Value.ScalarEq.eq x x = true) {localPayload remotePayload : Value X}
    (hl : localPayload.WF) (hr : remotePayload.WF) (hkl : NestedKeys IsPlainKey localPayload)
    (hkr : NestedKeys IsPlainKey remotePayload) :
    ∃ v, (fieldDiff repr localPayload remotePayload).foldlM
        (applyEntry (normalize localPayload) (normalize remotePayload)) (normalize localPayload) =
        some v ∧ pyEq v (normalize remotePayload) = true := by
  obtain ⟨v, hfold, halike⟩ := (explains_fieldDiff repr hl hr hkl hkr).patches
  exact ⟨v, hfold, pyEq_of_alike hscalar halike (normalize_wf _ hr)⟩

/-- The entries are there exactly when the payloads do not match, and they explain how. -/
theorem fieldDiff_explains (repr : Value X → Text) (localPayload remotePayload : Value X)
    (hl : localPayload.WF) (hr : remotePayload.WF) (hkl : NestedKeys IsPlainKey localPayload)
    (hkr : NestedKeys IsPlainKey remotePayload) :
    (fieldDiff repr localPayload remotePayload = [] ↔
      payloadsMatch localPayload remotePayload = true) ∧
    Explains (normalize localPayload) (normalize remotePayload)
      (fieldDiff repr localPayload remotePayload) := by
  refine ⟨?_, explains_fieldDiff repr hl hr hkl hkr⟩
  rw [fieldDiff_eq repr hkl hkr, List.map_eq_nil_iff,
    changes_eq_nil_iff (normalize_wf _ hl) (normalize_wf _ hr)]
  rfl

end

/-! ## A rule whose query and entities changed -/

def localRule : Value Empty :=
  .dict [("query", .str "A  \r\nB"), ("entities", .dict [("host", .int 1), ("ip", .null)])]

def remoteRule : Value Empty :=
  .dict [("query", .str "A\nB"), ("entities", .dict [("host", .str "h"), ("user", .bool true)])]

theorem fieldDiff_explains_rule :
    (fieldDiff (fun _ => []) localRule remoteRule = [] ↔
      payloadsMatch localRule remoteRule = true) ∧
    Explains (normalize localRule) (normalize remoteRule)
      (fieldDiff (fun _ => []) localRule remoteRule) :=
  fieldDiff_explains _ localRule remoteRule
    (by simp [localRule, Value.WF, Value.WFDict, Dict.keys])
    (by simp [remoteRule, Value.WF, Value.WFDict, Dict.keys])
    (by simp [localRule, NestedKeys, NestedKeysOf, IsPlainKey])
    (by simp [remoteRule, NestedKeys, NestedKeysOf, IsPlainKey])

end ContentOps
