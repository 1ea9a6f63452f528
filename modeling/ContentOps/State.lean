import ContentOps.Core.Discovery
import ContentOps.Library.JsonLine

/-! The state file of an environment, `state.py`: what it is saved as and how it is loaded. -/

namespace ContentOps
open PyData

structure AssetStateEntry where
  remoteId : String := ""
  lastAppliedAt : String := ""
  lastAppliedSha : String := ""
  status : String := "success"
deriving DecidableEq, Repr

/-- The entries of a kind, by envelope id. -/
abbrev Bucket := {b : Dict String AssetStateEntry // b.keys.Nodup}

structure EnvState where
  schemaVersion : String := "1.0"
  env : String := ""
  lastApplySha : String := ""
  lastApplyAt : String := ""
  managedAssets : Dict String Bucket := []
  distinct : managedAssets.keys.Nodup := by exact List.nodup_nil

/-- `==` of two states. -/
structure EnvState.Same (s t : EnvState) : Prop where
  schemaVersion : s.schemaVersion = t.schemaVersion
  env : s.env = t.env
  lastApplySha : s.lastApplySha = t.lastApplySha
  lastApplyAt : s.lastApplyAt = t.lastApplyAt
  managedAssets : ∀ kind,
    Option.Rel (fun b c => Dict.SameMap b.1 c.1) (s.managedAssets.get? kind)
      (t.managedAssets.get? kind)

def statePath (env : String) : Path :=
  if env = "" then ["state", "state.json"] else ["state", env, "state.json"]

/-- `path.with_suffix(".tmp")`. -/
def stateTmpPath (env : String) : Path := (statePath env).sibling "state.tmp"

/-! ## What it remembers -/

def Bucket.empty : Bucket := ⟨[], List.nodup_nil⟩

def Bucket.set (b : Bucket) (envelopeId : String) (e : AssetStateEntry) : Bucket :=
  ⟨b.1.set envelopeId e, Dict.nodup_keys_set b.2 _ _⟩

namespace EnvState

def bucket (s : EnvState) (assetKind : String) : Bucket :=
  (s.managedAssets.get? assetKind).getD Bucket.empty

def lookup (s : EnvState) (assetKind envelopeId : String) : Option AssetStateEntry :=
  (s.bucket assetKind).1.get? envelopeId

def isManaged (s : EnvState) (assetKind envelopeId : String) : Bool :=
  (s.bucket assetKind).1.contains envelopeId

/-- `remember`, at the time `now`. -/
def remember (s : EnvState) (assetKind envelopeId remoteId sha status now : String) : EnvState :=
  { s with
    managedAssets := s.managedAssets.set assetKind ((s.bucket assetKind).set envelopeId
      { remoteId, lastAppliedAt := now, lastAppliedSha := sha, status })
    distinct := Dict.nodup_keys_set s.distinct _ _ }

def assetCount (s : EnvState) : Nat := (s.managedAssets.map fun p => p.2.1.length).sum

theorem lookup_remember (s : EnvState) (assetKind envelopeId remoteId sha status now kind id) :
    (s.remember assetKind envelopeId remoteId sha status now).lookup kind id =
      if (assetKind, envelopeId) = (kind, id) then
        some { remoteId, lastAppliedAt := now, lastAppliedSha := sha, status }
      else s.lookup kind id := by
  unfold lookup bucket remember
  rw [Dict.get?_set]
  by_cases hkind : assetKind = kind
  · subst hkind
    rw [if_pos rfl, Option.getD_some, Bucket.set, Dict.get?_set]
    by_cases hid : envelopeId = id
    · rw [if_pos hid, if_pos (congrArg (Prod.mk assetKind) hid)]
    · rw [if_neg hid, if_neg fun h => hid (Prod.ext_iff.mp h).2]
      rfl
  · rw [if_neg hkind, if_neg fun h => hkind (Prod.ext_iff.mp h).1]

theorem isManaged_iff {s : EnvState} {kind id : String} :
    s.isManaged kind id = true ↔ ∃ e, s.lookup kind id = some e :=
  Option.isSome_iff_exists

end EnvState

/-! ## Saving -/

section
variable (X : Type)

/-- `asdict(entry)`. -/
def AssetStateEntry.asDict (e : AssetStateEntry) : Dict String (Value X) :=
  [("remote_id", .str e.remoteId), ("last_applied_at", .str e.lastAppliedAt),
    ("last_applied_sha", .str e.lastAppliedSha), ("status", .str e.status)]

def Bucket.asDict (b : Bucket) : Dict String (Value X) :=
  b.1.mapVals fun e => .dict (e.asDict X)

def EnvState.payload (s : EnvState) : Dict String (Value X) :=
  [("schema_version", .str s.schemaVersion), ("env", .str s.env),
    ("last_apply_sha", .str s.lastApplySha), ("last_apply_at", .str s.lastApplyAt),
    ("managed_assets", .dict (s.managedAssets.mapVals fun b => .dict (b.asDict X)))]

variable [Json.FloatText X]

def stateText (s : EnvState) : Text :=
  Json.dumps (Json.indent2 true) (Value.dict (s.payload X)).sortKeys

/-- `save_state`: the text is written beside the file and moved over it. -/
def saveState (s : EnvState) (files : FileTree) : FileTree :=
  ((files.write (stateTmpPath s.env) (stateText X s)).remove (stateTmpPath s.env)).write
    (statePath s.env) (stateText X s)

end

/-! ## Loading -/

section
variable {X : Type}

/-- A field of a record that holds a string or is not there. -/
def stateField (d : Dict String (Value X)) (key default : String) : Option String :=
  match d.get? key with
  | none => some default
  | some v => v.text?

/-- `AssetStateEntry(**entry)`; `none` is `TypeError`, or a field that holds no string. -/
def AssetStateEntry.ofDict (d : Dict String (Value X)) : Option AssetStateEntry := do
  let remoteId ← stateField d "remote_id" ""
  let lastAppliedAt ← stateField d "last_applied_at" ""
  let lastAppliedSha ← stateField d "last_applied_sha" ""
  let status ← stateField d "status" "success"
  if d.keys.all (· ∈ ["remote_id", "last_applied_at", "last_applied_sha", "status"]) then
    some { remoteId, lastAppliedAt, lastAppliedSha, status }
  else none

variable [Value.ScalarEq X]

def loadBucket (entries : Value X) : Option Bucket := do
  let d ← (entries.orElse (.dict [])).dict?
  let records := d.filterMap fun p => p.2.dict?.map (p.1, ·)
  let loaded ← records.mapM fun p => (AssetStateEntry.ofDict p.2).map (p.1, ·)
  some ⟨Dict.ofPairs loaded, Dict.nodup_keys_ofPairs _⟩

def EnvState.ofDict (env : String) (raw : Dict String (Value X)) : Option EnvState := do
  let managed ← ((Value.get raw "managed_assets").orElse (.dict [])).dict?
  let buckets ← managed.mapM fun p => (loadBucket p.2).map (p.1, ·)
  let schemaVersion ← stateField raw "schema_version" "1.0"
  let env ← stateField raw "env" env
  let lastApplySha ← stateField raw "last_apply_sha" ""
  let lastApplyAt ← stateField raw "last_apply_at" ""
  some
    { schemaVersion, env, lastApplySha, lastApplyAt
      managedAssets := Dict.ofPairs buckets
      distinct := Dict.nodup_keys_ofPairs _ }

/-- What `load_state` makes of the text of the file; `none` is an exception. -/
def stateOfText (X : Type) [Value.ScalarEq X] [Json.FloatText X] (env : String) (content : Text) :
    Option EnvState :=
  match (Json.loads content : Option (Value X)) with
  | none => some { env }
  | some raw => raw.dict?.bind (EnvState.ofDict env)

/-- `load_state`. -/
def loadState (X : Type) [Value.ScalarEq X] [Json.FloatText X] (env : String) (files : FileTree) :
    Option EnvState :=
  match files.read (statePath env) with
  | none => some { env }
  | some content => stateOfText X env content

/-! ## What is saved is loaded -/

omit [Value.ScalarEq X] in
theorem stateField_sortKeys {d : Dict String (Value X)} (hd : d.keys.Nodup) {key : String}
    (value : String) (hkey : d.get? key = some (.str value)) (default : String) :
    stateField (d.sortByKey.mapVals Value.sortKeys) key default = some value := by
  unfold stateField
  rw [Dict.get?_mapVals, Dict.get?_sortByKey hd, hkey]
  rfl

theorem orElse_dict (d : Dict String (Value X)) :
    (Value.dict d).orElse (.dict []) = .dict d := by
  cases d <;> rfl

omit [Value.ScalarEq X] in
theorem AssetStateEntry.nodup_asDict (e : AssetStateEntry) : (e.asDict X).keys.Nodup := by
  simp [asDict, Dict.keys]

omit [Value.ScalarEq X] in
theorem AssetStateEntry.ofDict_asDict (e : AssetStateEntry) :
    AssetStateEntry.ofDict ((e.asDict X).sortByKey.mapVals Value.sortKeys) = some e := by
  have hkeys : ((e.asDict X).sortByKey.mapVals Value.sortKeys).keys.all
      (· ∈ ["remote_id", "last_applied_at", "last_applied_sha", "status"]) = true := by
    rw [Dict.keys_mapVals, List.all_eq_true]
    intro k hk
    have hmem := ((Dict.sortByKey_perm (e.asDict X)).map Prod.fst).mem_iff.mp hk
    simpa [asDict] using hmem
  unfold ofDict
  rw [stateField_sortKeys e.nodup_asDict e.remoteId rfl,
    stateField_sortKeys e.nodup_asDict e.lastAppliedAt rfl,
    stateField_sortKeys e.nodup_asDict e.lastAppliedSha rfl,
    stateField_sortKeys e.nodup_asDict e.status rfl]
  exact if_pos hkeys

/-- A bucket with its ids in order. -/
def Bucket.sorted (b : Bucket) : Bucket := ⟨b.1.sortByKey, Dict.nodup_keys_sortByKey b.2⟩

theorem loadBucket_asDict (b : Bucket) :
    loadBucket (Value.dict (b.asDict X)).sortKeys = some b.sorted := by
  have hsorted : (Value.dict (b.asDict X)).sortKeys = .dict (b.1.sortByKey.mapVals fun e =>
      .dict ((e.asDict X).sortByKey.mapVals Value.sortKeys)) := by
    rw [Value.sortKeys_dict, Bucket.asDict, Dict.sortByKey_mapVals, Dict.mapVals_mapVals]
    congr 2
    funext e
    exact Value.sortKeys_dict _
  have hrecords : ∀ c : Dict String AssetStateEntry, (c.mapVals fun e =>
      Value.dict ((e.asDict X).sortByKey.mapVals Value.sortKeys)).filterMap
        (fun p => p.2.dict?.map (p.1, ·)) =
      c.mapVals fun e => (e.asDict X).sortByKey.mapVals Value.sortKeys := by
    intro c
    rw [Dict.mapVals, List.filterMap_map]
    change c.filterMap (some ∘ fun p => (p.1, (p.2.asDict X).sortByKey.mapVals Value.sortKeys)) = _
    rw [List.filterMap_eq_map]
    rfl
  have hloaded := Dict.mapM_mapVals (d := b.1.sortByKey) (h := id)
    (f := fun e => (e.asDict X).sortByKey.mapVals Value.sortKeys) (g := AssetStateEntry.ofDict)
    fun p _ => p.2.ofDict_asDict
  unfold loadBucket
  rw [hsorted, orElse_dict]
  simp only [Value.dict?_dict, Option.bind_eq_bind, Option.bind_some]
  rw [hrecords, hloaded, Dict.mapVals_id]
  simp only [Option.bind_some, Option.some.injEq, Bucket.sorted, Subtype.mk.injEq]
  exact Dict.ofPairs_of_nodup (Dict.nodup_keys_sortByKey b.2)

omit [Value.ScalarEq X] in
theorem EnvState.wf_payload (s : EnvState) : (Value.dict (s.payload X)).WF := by
  have hentry : ∀ e : AssetStateEntry, (Value.dict (e.asDict X)).WF := by
    intro e
    refine Value.wf_dict_iff.mpr ⟨e.nodup_asDict, ?_⟩
    simp [AssetStateEntry.asDict]
  have hbucket : ∀ b : Bucket, (Value.dict (b.asDict X)).WF := by
    intro b
    refine Value.wf_dict_iff.mpr ⟨?_, ?_⟩
    · rw [Bucket.asDict, Dict.keys_mapVals]
      exact b.2
    · intro p hp
      obtain ⟨q, -, rfl⟩ := List.mem_map.mp hp
      exact hentry q.2
  have hmanaged : (Value.dict (s.managedAssets.mapVals fun b => .dict (b.asDict X))).WF := by
    refine Value.wf_dict_iff.mpr ⟨?_, ?_⟩
    · rw [Dict.keys_mapVals]
      exact s.distinct
    · intro p hp
      obtain ⟨q, -, rfl⟩ := List.mem_map.mp hp
      exact hbucket q.2
  refine Value.wf_dict_iff.mpr ⟨by simp [payload, Dict.keys], ?_⟩
  simpa [payload] using hmanaged

theorem EnvState.ofDict_payload (s : EnvState) (env : String) :
    ∃ t, EnvState.ofDict env ((s.payload X).sortByKey.mapVals Value.sortKeys) = some t ∧
      s.Same t := by
  have hd : (s.payload X).keys.Nodup := by simp [payload, Dict.keys]
  have hmanaged : Value.get ((s.payload X).sortByKey.mapVals Value.sortKeys) "managed_assets" =
      .dict (s.managedAssets.sortByKey.mapVals fun b =>
        (Value.dict (b.asDict X)).sortKeys) := by
    unfold Value.get
    rw [Dict.get?_mapVals, Dict.get?_sortByKey hd]
    change Value.sortKeys (.dict _) = _
    rw [Value.sortKeys_dict, Dict.sortByKey_mapVals, Dict.mapVals_mapVals]
    rfl
  have hbuckets := Dict.mapM_mapVals (d := s.managedAssets.sortByKey) (h := Bucket.sorted)
    (f := fun b => (Value.dict (b.asDict X)).sortKeys) (g := loadBucket)
    fun p _ => loadBucket_asDict p.2
  unfold EnvState.ofDict
  rw [hmanaged, orElse_dict]
  simp only [Value.dict?_dict, Option.bind_eq_bind, Option.bind_some]
  rw [hbuckets, stateField_sortKeys hd s.schemaVersion rfl,
    stateField_sortKeys hd s.env rfl, stateField_sortKeys hd s.lastApplySha rfl,
    stateField_sortKeys hd s.lastApplyAt rfl]
  refine ⟨_, rfl, ⟨rfl, rfl, rfl, rfl, fun kind => ?_⟩⟩
  have hnodup : (s.managedAssets.sortByKey.mapVals Bucket.sorted).keys.Nodup := by
    rw [Dict.keys_mapVals]
    exact Dict.nodup_keys_sortByKey s.distinct
  dsimp only
  rw [Dict.ofPairs_of_nodup hnodup, Dict.get?_mapVals, Dict.get?_sortByKey s.distinct]
  cases s.managedAssets.get? kind with
  | none => exact .none
  | some b => exact .some fun id => (Dict.get?_sortByKey b.2 id).symm

/-- The saved text is read back as the state, also with a newline after it. -/
theorem stateOfText_stateText [Json.FloatText X] (s : EnvState) (env : String) {ws : Text}
    (hws : ws ∈ [[], ['\n']]) :
    ∃ t, stateOfText X env (stateText X s ++ ws) = some t ∧ s.Same t := by
  have hloads : (Json.loads (stateText X s ++ ws) : Option (Value X)) =
      some (Value.dict (s.payload X)).sortKeys :=
    Json.loads_dumps_append (Json.indent2_blank true) s.wf_payload.sortKeys hws
  unfold stateOfText
  rw [hloads, Value.sortKeys_dict]
  exact s.ofDict_payload env

end
end ContentOps
