import ContentOps.Core.Drift
import ContentOps.Library.FieldText
import ContentOps.Library.JsonLine
import ContentOps.Library.JsonRoundTrip
import ContentOps.Library.KeyOrder

/-! `upstream/manifest.py`: the manifest that a watcher keeps of a catalog, and what changed in the
catalog since. -/

namespace ContentOps.Upstream
open PyData

/-! ## An entry and what a file gives back of it -/

section
variable {X : Type}

/-- An entry as the file gives it back. -/
def reloaded (e : Document X) : Document X := (Dict.sortByKey e).mapVals Value.sortKeys

theorem get?_reloaded {e : Document X} (he : (Value.dict e).WF) (key : String) :
    Dict.get? (reloaded e) key = (Dict.get? e key).map Value.sortKeys := by
  rw [reloaded, Dict.get?_mapVals, Dict.get?_sortByKey he.1]

theorem wfList_map_dict {entries : List (Document X)} (h : ∀ e ∈ entries, (Value.dict e).WF) :
    Value.WFList (entries.map .dict) := Value.wfList_iff.mpr (List.forall_mem_map.mpr h)

theorem sortKeys_list_dict (entries : List (Document X)) :
    (Value.list (entries.map .dict)).sortKeys = .list ((entries.map reloaded).map .dict) := by
  rw [Value.sortKeys, Value.sortKeysItems_eq_map, List.map_map, List.map_map]
  refine congrArg Value.list (List.map_congr_left fun e _ => ?_)
  rw [Function.comp_apply, Value.sortKeys_dict]
  rfl

theorem mapM_dict?_map (entries : List (Document X)) :
    (entries.map Value.dict).mapM Value.dict? = some entries := by
  induction entries with
  | nil => rfl
  | cons e entries ih => simp [List.mapM_cons, ih, Value.dict?]

/-- An entry whose name is a text. -/
structure Named (e : Document X) : Prop where
  wf : (Value.dict e).WF
  name : ∃ s, Dict.get? e "name" = some (.str s)

theorem Named.reloaded {e : Document X} (he : Named e) : Named (reloaded e) := by
  obtain ⟨s, hs⟩ := he.name
  refine ⟨?_, s, by rw [get?_reloaded he.wf, hs]; rfl⟩
  rw [Upstream.reloaded, ← Value.sortKeys_dict]
  exact he.wf.sortKeys

end

/-! ## What changed -/

section
variable {X : Type} [Value.ScalarEq X] (str : Value X → String)

/-- `str(entry.get("name") or "")`. -/
def entryName (entry : Document X) : String := Value.textOf str entry "name"

/-- `ManifestDiff`. -/
structure ManifestDiff (X : Type) where
  added : List (Document X) := []
  removed : List (Document X) := []
  changed : List (Document X × Document X) := []

def ManifestDiff.isEmpty (d : ManifestDiff X) : Bool :=
  d.added.isEmpty && d.removed.isEmpty && d.changed.isEmpty

def sortedByName (entries : List (Document X)) : List (Document X) :=
  entries.insertionSort fun a b => entryName str a ≤ entryName str b

/-- `{name: entry}`: of the entries of one name the last stands. -/
def byName (entries : List (Document X)) : Dict String (Document X) :=
  Dict.ofPairs (entries.map fun e => (entryName str e, e))

def computeDiff (old new : List (Document X)) : ManifestDiff X :=
  let byNameOld := byName str old
  let byNameNew := byName str new
  let changed := byNameNew.filterMap fun p => (byNameOld.get? p.1).bind fun prior =>
    if Value.pyEq (.dict prior) (.dict p.2) then none else some (prior, p.2)
  { added := sortedByName str
      ((byNameNew.filter fun p => (byNameOld.get? p.1).isNone).map Prod.snd)
    removed := sortedByName str
      ((byNameOld.filter fun p => (byNameNew.get? p.1).isNone).map Prod.snd)
    changed := changed.insertionSort fun a b => entryName str a.2 ≤ entryName str b.2 }

theorem isEmpty_insertionSort {α : Type*} (r : α → α → Prop) [DecidableRel r] (l : List α) :
    (l.insertionSort r).isEmpty = l.isEmpty := by
  rw [Bool.eq_iff_iff, List.isEmpty_iff_length_eq_zero, List.length_insertionSort,
    List.isEmpty_iff_length_eq_zero]

/-- The names are the same, and the entries under them compare equal. -/
def SameEntries (old new : List (Document X)) : Prop :=
  ∀ name, Option.Rel (fun prior entry => Value.pyEq (.dict prior) (.dict entry) = true)
    ((byName str old).get? name) ((byName str new).get? name)

theorem isEmpty_computeDiff_iff (old new : List (Document X)) :
    (computeDiff str old new).isEmpty = true ↔ SameEntries str old new := by
  have hold : (byName str old).keys.Nodup := Dict.nodup_keys_ofPairs _
  have hnew : (byName str new).keys.Nodup := Dict.nodup_keys_ofPairs _
  unfold computeDiff ManifestDiff.isEmpty sortedByName
  simp only [isEmpty_insertionSort, Bool.and_eq_true, List.isEmpty_iff, List.map_eq_nil_iff,
    List.filter_eq_nil_iff, List.filterMap_eq_nil_iff]
  constructor
  · rintro ⟨⟨hadded, hremoved⟩, hchanged⟩ name
    cases hgetOld : (byName str old).get? name with
    | none =>
      cases hgetNew : (byName str new).get? name with
      | none => exact .none
      | some entry => exact absurd (by simp [hgetOld]) (hadded _ (Dict.mem_of_get? hgetNew))
    | some prior =>
      cases hgetNew : (byName str new).get? name with
      | none => exact absurd (by simp [hgetNew]) (hremoved _ (Dict.mem_of_get? hgetOld))
      | some entry =>
        refine .some ?_
        by_contra hdiffer
        have hnone := hchanged _ (Dict.mem_of_get? hgetNew)
        simp [hgetOld, hdiffer] at hnone
  · intro h
    refine ⟨⟨fun p hp hnone => ?_, fun p hp hnone => ?_⟩, fun p hp => ?_⟩
    · have hrel := h p.1
      rw [Dict.get?_of_mem hnew hp, Option.isNone_iff_eq_none.mp hnone] at hrel
      cases hrel
    · have hrel := h p.1
      rw [Dict.get?_of_mem hold hp, Option.isNone_iff_eq_none.mp hnone] at hrel
      cases hrel
    · have hrel := h p.1
      rw [Dict.get?_of_mem hnew hp] at hrel
      cases hgetOld : (byName str old).get? p.1 with
      | none => rfl
      | some prior =>
        rw [hgetOld] at hrel
        cases hrel with
        | some heq => simp [heq]

theorem entryName_eq {e : Document X} {s : String}
    (hs : Dict.get? e "name" = some (.str s)) : entryName str e = s := by
  exact Value.textOf_of_get? str hs

theorem Named.entryName_reloaded {e : Document X} (he : Named e) :
    entryName str (Upstream.reloaded e) = entryName str e := by
  obtain ⟨s, hs⟩ := he.name
  have hreloaded : Dict.get? (Upstream.reloaded e) "name" = some (.str s) := by
    rw [get?_reloaded he.wf, hs]
    rfl
  rw [entryName_eq str hreloaded, entryName_eq str hs]

theorem mem_of_get?_byName {entries : List (Document X)} {name : String} {e : Document X}
    (h : (byName str entries).get? name = some e) : e ∈ entries := by
  obtain ⟨f, hf, hpair⟩ := List.mem_map.mp (Dict.mem_ofPairs (Dict.mem_of_get? h))
  exact (Prod.mk.inj hpair).2 ▸ hf

theorem entryName_of_get?_byName {entries : List (Document X)} {name : String} {e : Document X}
    (h : (byName str entries).get? name = some e) : entryName str e = name := by
  obtain ⟨f, hf, hpair⟩ := List.mem_map.mp (Dict.mem_ofPairs (Dict.mem_of_get? h))
  obtain ⟨hname, rfl⟩ := Prod.mk.inj hpair
  exact hname

theorem get?_byName_eq_none_iff {entries : List (Document X)} {name : String} :
    (byName str entries).get? name = none ↔ ∀ e ∈ entries, entryName str e ≠ name := by
  rw [Dict.get?_eq_none_iff, byName, Dict.mem_keys_ofPairs]
  simp [Dict.keys]

/-- Where the entries of a name are all alike, it is they that stand. -/
theorem get?_byName_of_unique {entries : List (Document X)} {name : String} {e : Document X}
    (hmem : e ∈ entries) (hname : entryName str e = name)
    (hunique : ∀ f ∈ entries, entryName str f = name → f = e) :
    (byName str entries).get? name = some e := by
  cases hget : (byName str entries).get? name with
  | none => exact absurd hname ((get?_byName_eq_none_iff str).mp hget e hmem)
  | some f =>
    rw [hunique f (mem_of_get?_byName str hget) (entryName_of_get?_byName str hget)]

theorem byName_reloaded {entries : List (Document X)} (h : ∀ e ∈ entries, Named e)
    (name : String) :
    (byName str ((sortedByName str entries).map reloaded)).get? name =
      ((byName str entries).get? name).map reloaded := by
  have hpairs : ((sortedByName str entries).map reloaded).map (fun e => (entryName str e, e)) =
      (sortedByName str entries).map fun e => (entryName str e, reloaded e) := by
    rw [List.map_map]
    refine List.map_congr_left fun e he => ?_
    rw [Function.comp_apply, (h e ((List.mem_insertionSort _).mp he)).entryName_reloaded str]
  have hvals : (entries.map fun e => (entryName str e, reloaded e)) =
      (entries.map fun e => (entryName str e, e)).map fun p => (p.1, reloaded p.2) := by
    rw [List.map_map]
    rfl
  unfold byName
  rw [hpairs, sortedByName, Dict.get?_ofPairs_insertionSort, hvals, Dict.get?_ofPairs,
    Dict.get?_ofPairs, List.filter_map, List.getLast?_map, Option.map_map, Option.map_map]
  rfl

end

/-! ## The file -/

section
variable {X : Type} [Value.ScalarEq X] [Json.FloatText X] (str : Value X → String)

def schemaVersion : Int := 1

/-- `load_manifest`; `none` is an exception. -/
def loadManifest (file : Option Text) : Option (List (Value X)) :=
  match file with
  | none => some []
  | some text =>
    if Text.isBlank text then some []
    else
      match (Json.loads text : Option (Value X)) with
      | some (.dict data) =>
        match (Dict.get? data "entries").getD (.list [] : Value X) with
        | .list entries => some entries
        | _ => none
      | _ => none

/-- `json.dumps(fields, indent=2, sort_keys=True) + "\n"`. -/
def fileText (fields : Document X) : Text :=
  Json.dumps (Json.indent2 true) (Value.dict fields).sortKeys ++ ['\n']

/-- What `write_manifest` writes. -/
def manifestText (entries : List (Document X)) : Text :=
  fileText [("schema_version", .int schemaVersion),
    ("entries", .list ((sortedByName str entries).map .dict))]

omit [Value.ScalarEq X] in
theorem isBlank_fileText (fields : Document X) : Text.isBlank (fileText fields) = false := by
  rw [fileText, Value.sortKeys_dict, Text.isBlank, List.all_append]
  have hblank := Json.isBlank_dumps_dict (Json.indent2 true)
    ((Dict.sortByKey fields).mapVals Value.sortKeys)
  rw [Text.isBlank] at hblank
  rw [hblank]
  rfl

omit [Value.ScalarEq X] in
theorem loads_fileText {fields : Document X} (h : (Value.dict fields).WF) :
    (Json.loads (fileText fields) : Option (Value X)) = some (.dict (reloaded fields)) := by
  rw [fileText, Json.loads_dumps_append (Json.indent2_blank true) h.sortKeys (by simp),
    Value.sortKeys_dict]
  rfl

omit [Json.FloatText X] in
theorem wfList_sortedByName {entries : List (Document X)}
    (h : ∀ e ∈ entries, (Value.dict e).WF) :
    Value.WFList ((sortedByName str entries).map .dict) :=
  wfList_map_dict fun e he => h e ((List.mem_insertionSort _).mp he)

theorem loadManifest_manifestText {entries : List (Document X)}
    (h : ∀ e ∈ entries, (Value.dict e).WF) :
    (loadManifest (some (manifestText str entries)) : Option (List (Value X))) =
      some (((sortedByName str entries).map reloaded).map .dict) := by
  have hwf : (Value.dict [("schema_version", .int schemaVersion),
      ("entries", .list ((sortedByName str entries).map .dict))] : Value X).WF :=
    ⟨by simp [Dict.keys], trivial, wfList_sortedByName str h, trivial⟩
  have hentries : Dict.get? (reloaded [("schema_version", .int schemaVersion),
      ("entries", .list ((sortedByName str entries).map .dict))] : Document X) "entries" =
        some (.list (((sortedByName str entries).map reloaded).map .dict)) := by
    rw [get?_reloaded hwf]
    exact congrArg some (sortKeys_list_dict _)
  simp only [loadManifest, manifestText, isBlank_fileText, loads_fileText hwf, hentries,
    Option.getD_some, Bool.false_eq_true, if_false]

omit [Value.ScalarEq X] in
theorem wf_of_loadManifest {file : Option Text} {entries : List (Value X)}
    (h : loadManifest file = some entries) : Value.WFList entries := by
  unfold loadManifest at h
  split at h
  · exact Option.some.inj h ▸ trivial
  · split at h
    · exact Option.some.inj h ▸ trivial
    · split at h
      · next data hloads =>
        split at h
        · next entries' hget =>
          obtain rfl := Option.some.inj h
          have hdata := Value.wf_dict_iff.mp (Json.loads_wf hloads)
          cases hkey : Dict.get? data "entries" with
          | none => rw [hkey] at hget; cases hget; trivial
          | some v =>
            rw [hkey, Option.getD_some] at hget
            subst hget
            exact hdata.2 _ (Dict.mem_of_get? hkey)
        · cases h
      · cases h

end
end ContentOps.Upstream
