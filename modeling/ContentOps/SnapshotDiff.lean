import ContentOps.Core.WriteDrift
import ContentOps.Library.JsonRoundTrip
import ContentOps.Library.ValuePath
import ContentOps.Restore

/-! `contentops snapshot-diff`, `snapshot_diff.py`: what changed from one archive of `collect` to
another. -/

namespace ContentOps.SnapshotDiff
open PyData Restore

/-- An asset kind and an envelope id, in the order of Python's tuples. -/
abbrev AssetKey := String ×ₗ String

structure IndexedAsset where
  asset : String
  envelopeId : String
  payloadHash : Text
  memberPath : String
  deriving DecidableEq

def IndexedAsset.key (i : IndexedAsset) : AssetKey := toLex (i.asset, i.envelopeId)

structure SnapshotDiffReport where
  created : List IndexedAsset
  deleted : List IndexedAsset
  updated : List (IndexedAsset × IndexedAsset)
  unchanged : Nat

def SnapshotDiffReport.totalA (r : SnapshotDiffReport) : Nat :=
  r.unchanged + r.deleted.length + r.updated.length

def SnapshotDiffReport.totalB (r : SnapshotDiffReport) : Nat :=
  r.unchanged + r.created.length + r.updated.length

/-- `_iter_yaml_members`. -/
def yamlMembers (members : List TarMember) : List TarMember :=
  members.filter fun m => m.isFile && (hasSuffix ".yml" m.name || hasSuffix ".yaml" m.name)

section
variable {X : Type} [Value.ScalarEq X] [Json.FloatText X]

/-- What the index takes from outside: the YAML loader, `str` of what is not a string, and the
SHA-256 digest. -/
structure IndexLibs (X : Type) extends Libs X where
  str : Value X → String
  sha256 : Text → Text

variable (libs : IndexLibs X)

/-- `str(raw.get(key) or "")`. -/
def IndexLibs.strAt (raw : Document X) (key : String) : String :=
  match Value.get raw key with
  | .str s => s
  | v => if v.truthy then libs.str v else ""

/-- `_payload_hash`. -/
def payloadHash (payload : Value X) : Text :=
  libs.sha256 (Json.dumps Json.compact payload.sortKeys)

/-- The kind of an envelope of either generation. -/
def assetOf (raw : Document X) : Option String :=
  let asset := libs.strAt raw "asset"
  let platform := libs.strAt raw "platform"
  if asset ≠ "" then some asset
  else if platform = "sentinel" then some "sentinel_analytic"
  else if platform = "defender" then some "defender_custom_detection"
  else none

def payloadOf (raw : Document X) : Value X :=
  let platform := libs.strAt raw "platform"
  match Value.get raw "payload" with
  | .null => if platform ≠ "" then Value.get raw platform else .null
  | payload => payload

/-- The round of `index_archive` for a member; `none` where it goes on to the next. -/
def indexMember (m : TarMember) : Option (AssetKey × IndexedAsset) := do
  let raw ← (← libs.safeLoad m.content).dict?
  let envelopeId := libs.strAt raw "id"
  if envelopeId = "" then none
  else
    let asset ← assetOf libs raw
    some (toLex (asset, envelopeId),
      ⟨asset, envelopeId, payloadHash libs (payloadOf libs raw), m.name⟩)

/-- `index_archive`. -/
def indexArchive (members : List TarMember) : Dict AssetKey IndexedAsset :=
  Dict.ofPairs ((yamlMembers members).filterMap (indexMember libs))

def sortedKeys (keys : List AssetKey) : List AssetKey := keys.insertionSort (· ≤ ·)

/-- `[idx[k] for k in sorted(keys - others)]`. -/
def missing (idx other : Dict AssetKey IndexedAsset) : List IndexedAsset :=
  (sortedKeys (idx.keys.filter (· ∉ other.keys))).filterMap idx.get?

/-- `[(idx_a[k], idx_b[k]) for k in sorted(keys_a & keys_b)]`. -/
def inBoth (idxA idxB : Dict AssetKey IndexedAsset) : List (IndexedAsset × IndexedAsset) :=
  (sortedKeys (idxA.keys.filter (· ∈ idxB.keys))).filterMap fun k =>
    (idxA.get? k).bind fun a => (idxB.get? k).map fun b => (a, b)

/-- `diff_archives`, on the two indexes. -/
def diffIndexes (idxA idxB : Dict AssetKey IndexedAsset) : SnapshotDiffReport where
  created := missing idxB idxA
  deleted := missing idxA idxB
  updated := (inBoth idxA idxB).filter fun p => p.1.payloadHash ≠ p.2.payloadHash
  unchanged := ((inBoth idxA idxB).filter fun p => p.1.payloadHash = p.2.payloadHash).length

/-- `diff_archives`. -/
def diffArchives (archiveA archiveB : List TarMember) : SnapshotDiffReport :=
  diffIndexes (indexArchive libs archiveA) (indexArchive libs archiveB)

/-! ## Archives of `collect` -/

def memberPath (m : TarMember) : Path := (m.name.toList.splitOn '/').map String.ofList

/-- The files of an archive. -/
def extracted (members : List TarMember) : FileTree :=
  (members.filter (·.isFile)).foldl (fun tree m => tree.write (memberPath m) m.content)
    Directory.empty

/-- A playbook as `collect` writes it: its definition is in the sidecar of its id. -/
def InSidecar (id : String) (payload : Document X) : Prop :=
  payload.get? "definition" = none ∧
    (payload.get? "definitionFile" = none ∨
      payload.get? "definitionFile" = some (.str (sidecarName id)))

/-- An envelope of an archive, and what it loads to. -/
structure Stored (tree : FileTree) where
  member : TarMember
  raw : Document X
  payload : Document X
  loaded : LoadedAsset X
  isRaw : libs.safeLoad member.content = some (.dict raw)
  wf : Value.WF (.dict raw : Value X)
  isPayload : raw.get? "payload" = some (.dict payload)
  isLoaded : loadAsset libs.toLibs tree (memberPath member) member.content = some loaded
  inSidecar : loaded.envelope.asset = .sentinelPlaybook → InSidecar loaded.envelope.id payload

def Stored.key {libs : IndexLibs X} {tree : FileTree} (e : Stored libs tree) : AssetKey :=
  toLex (e.loaded.envelope.asset.value, e.loaded.envelope.id)

/-- An archive of `collect`: its YAML members are envelopes, no two of one kind and id. -/
structure Archive where
  members : List TarMember
  envelopes : List (Stored libs (extracted members))
  covers : envelopes.map (·.member) = yamlMembers members
  unique : (envelopes.map Stored.key).Nodup

/-! ## Two indexes compared -/

section
variable {idxA idxB : Dict AssetKey IndexedAsset}

theorem length_filterMap_of_isSome {α β : Type*} {f : α → Option β} {l : List α}
    (h : ∀ x ∈ l, (f x).isSome) : (l.filterMap f).length = l.length := by
  induction l with
  | nil => rfl
  | cons x l ih =>
    obtain ⟨hx, hl⟩ := List.forall_mem_cons.mp h
    obtain ⟨y, hy⟩ := Option.isSome_iff_exists.mp hx
    rw [List.filterMap_cons_some hy, List.length_cons, List.length_cons, ih hl]

theorem length_filter_filterMap {α β : Type*} (f : α → Option β) (p : β → Bool) (l : List α) :
    ((l.filterMap f).filter p).length = (l.filter fun x => (f x).any p).length := by
  induction l with
  | nil => rfl
  | cons x l ih =>
    cases hx : f x with
    | none => simp [hx, ih]
    | some y => cases hp : p y <;> simp [hx, hp, ih]

theorem sortedKeys_perm (keys : List AssetKey) : (sortedKeys keys).Perm keys :=
  List.perm_insertionSort _ keys

theorem mem_missing {idx other : Dict AssetKey IndexedAsset} {i : IndexedAsset} :
    i ∈ missing idx other ↔ ∃ k, idx.get? k = some i ∧ k ∉ other.keys := by
  unfold missing
  simp only [List.mem_filterMap, (sortedKeys_perm _).mem_iff, List.mem_filter, decide_eq_true_eq]
  constructor
  · rintro ⟨k, ⟨-, hother⟩, hk⟩
    exact ⟨k, hk, hother⟩
  · rintro ⟨k, hk, hother⟩
    exact ⟨k, ⟨Dict.mem_keys_of_get? hk, hother⟩, hk⟩

theorem get?_isSome {idx : Dict AssetKey IndexedAsset} {k : AssetKey} (h : k ∈ idx.keys) :
    (idx.get? k).isSome :=
  Option.isSome_iff_ne_none.mpr fun hnone => Dict.get?_eq_none_iff.mp hnone h

theorem length_missing (idx other : Dict AssetKey IndexedAsset) :
    (missing idx other).length = (idx.keys.filter (· ∉ other.keys)).length := by
  unfold missing
  rw [length_filterMap_of_isSome, (sortedKeys_perm _).length_eq]
  intro k hk
  exact get?_isSome (List.mem_filter.mp ((sortedKeys_perm _).mem_iff.mp hk)).1

theorem mem_inBoth {p : IndexedAsset × IndexedAsset} :
    p ∈ inBoth idxA idxB ↔ ∃ k, idxA.get? k = some p.1 ∧ idxB.get? k = some p.2 := by
  obtain ⟨i, j⟩ := p
  unfold inBoth
  simp only [List.mem_filterMap, (sortedKeys_perm _).mem_iff, List.mem_filter, decide_eq_true_eq,
    Option.bind_eq_some_iff, Option.map_eq_some_iff, Prod.mk.injEq]
  constructor
  · rintro ⟨k, -, a, ha, b, hb, rfl, rfl⟩
    exact ⟨k, ha, hb⟩
  · rintro ⟨k, ha, hb⟩
    exact ⟨k, ⟨Dict.mem_keys_of_get? ha, Dict.mem_keys_of_get? hb⟩, i, ha, j, hb, rfl, rfl⟩

theorem length_inBoth : (inBoth idxA idxB).length = (idxA.keys.filter (· ∈ idxB.keys)).length := by
  unfold inBoth
  rw [length_filterMap_of_isSome, (sortedKeys_perm _).length_eq]
  intro k hk
  obtain ⟨hka, hkb⟩ := List.mem_filter.mp ((sortedKeys_perm _).mem_iff.mp hk)
  obtain ⟨i, hi⟩ := Option.isSome_iff_exists.mp (get?_isSome hka)
  obtain ⟨j, hj⟩ := Option.isSome_iff_exists.mp (get?_isSome (of_decide_eq_true hkb))
  rw [hi, hj]
  rfl

theorem length_split (idx other : Dict AssetKey IndexedAsset) :
    idx.length = (idx.keys.filter (· ∈ other.keys)).length +
      (idx.keys.filter (· ∉ other.keys)).length := by
  have hsplit := List.length_eq_length_filter_add (l := idx.keys) fun k => decide (k ∈ other.keys)
  have hnot : (fun k => decide (k ∉ other.keys)) = fun k => !decide (k ∈ other.keys) := by
    funext k
    by_cases hk : k ∈ other.keys <;> simp [hk]
  rw [hnot, ← hsplit]
  exact (List.length_map _).symm

variable (idxA idxB) in
theorem length_updated_unchanged : (diffIndexes idxA idxB).unchanged +
    (diffIndexes idxA idxB).updated.length = (inBoth idxA idxB).length := by
  have hsplit := List.length_eq_length_filter_add (l := inBoth idxA idxB)
    fun p => decide (p.1.payloadHash = p.2.payloadHash)
  simpa [diffIndexes] using hsplit.symm

/-- Every key of the first archive is counted once. -/
theorem totalA_diffIndexes : (diffIndexes idxA idxB).totalA = idxA.length := by
  have hboth := length_updated_unchanged idxA idxB
  have hdeleted : (diffIndexes idxA idxB).deleted.length = _ := length_missing idxA idxB
  rw [length_inBoth] at hboth
  unfold SnapshotDiffReport.totalA
  have hsplit := length_split idxA idxB
  omega

theorem totalB_diffIndexes (ha : idxA.keys.Nodup) (hb : idxB.keys.Nodup) :
    (diffIndexes idxA idxB).totalB = idxB.length := by
  have hboth := length_updated_unchanged idxA idxB
  have hcreated : (diffIndexes idxA idxB).created.length = _ := length_missing idxB idxA
  have hperm : (idxA.keys.filter (· ∈ idxB.keys)).Perm (idxB.keys.filter (· ∈ idxA.keys)) := by
    rw [List.perm_ext_iff_of_nodup (ha.filter _) (hb.filter _)]
    intro k
    simp only [List.mem_filter, decide_eq_true_eq]
    exact and_comm
  rw [length_inBoth, hperm.length_eq] at hboth
  unfold SnapshotDiffReport.totalB
  have hsplit := length_split idxB idxA
  omega

end

/-! ## What is stored and what is loaded -/

variable {libs : IndexLibs X} {tree : FileTree}

/-- A playbook's payload on disk, and with the definition of its sidecar in it. -/
structure Inlined (name : String) (onDisk loaded : Document X) : Prop where
  nodupDisk : onDisk.keys.Nodup
  nodupLoaded : loaded.keys.Nodup
  definition : onDisk.get? "definition" = none
  file : (onDisk.get? "definitionFile" = none ∧ loaded.get? "definition" = none) ∨
    (onDisk.get? "definitionFile" = some (.str name) ∧
      ∃ d, loaded.get? "definition" = some (.dict d))
  gone : loaded.get? "definitionFile" = none
  others : ∀ k, k ≠ "definition" → k ≠ "definitionFile" → loaded.get? k = onDisk.get? k

omit [Value.ScalarEq X] [Json.FloatText X] in
/-- Two playbooks load to the same where they are the same on disk and in their definitions. -/
theorem Inlined.same_iff {name : String} {d e d' e' : Document X} (h : Inlined name d e)
    (h' : Inlined name d' e') : Value.Same (.dict e) (.dict e') ↔
      Value.Same (.dict d) (.dict d') ∧
        Value.Same (Value.get e "definition") (Value.get e' "definition") := by
  rw [Value.same_dict_iff h.nodupLoaded h'.nodupLoaded,
    Value.same_dict_iff h.nodupDisk h'.nodupDisk]
  constructor
  · intro hsame
    refine ⟨?_, Value.same_get (hsame "definition")⟩
    intro k
    by_cases hdef : k = "definition"
    · rw [hdef, h.definition, h'.definition]
    by_cases hfile : k = "definitionFile"
    · subst hfile
      have hkey := hsame "definition"
      obtain ⟨hf, hd⟩ | ⟨hf, c, hd⟩ := h.file <;> obtain ⟨hf', hd'⟩ | ⟨hf', c', hd'⟩ := h'.file
      · rw [hf, hf']
      · rw [hd, hd'] at hkey
        cases hkey
      · rw [hd, hd'] at hkey
        cases hkey
      · rw [hf, hf']
    · rw [← h.others k hdef hfile, ← h'.others k hdef hfile]
      exact hsame k
  · rintro ⟨hdisk, hdefinition⟩ k
    by_cases hdef : k = "definition"
    · subst hdef
      have hkey := hdisk "definitionFile"
      unfold Value.get at hdefinition
      obtain ⟨hf, hd⟩ | ⟨hf, c, hd⟩ := h.file <;> obtain ⟨hf', hd'⟩ | ⟨hf', c', hd'⟩ := h'.file
      · rw [hd, hd']
      · rw [hf, hf'] at hkey
        cases hkey
      · rw [hf, hf'] at hkey
        cases hkey
      · rw [hd, hd'] at hdefinition ⊢
        exact congrArg some hdefinition
    by_cases hfile : k = "definitionFile"
    · rw [hfile, h.gone, h'.gone]
    · rw [h.others k hdef hfile, h'.others k hdef hfile]
      exact hdisk k

theorem Stored.parsed (e : Stored libs tree) :
    parseEnvelope libs.laxInt (.dict e.raw) = some (e.loaded.envelope, .dict e.payload) := by
  obtain ⟨-, raw, payload, hraw, hparse⟩ := loadAsset_eq_some e.isLoaded
  obtain rfl := Option.some.inj (e.isRaw.symm.trans hraw)
  obtain ⟨d, hd, -, rfl⟩ := parseEnvelope_eq_some hparse
  obtain rfl := Value.dict.inj hd
  rw [e.isPayload, Option.getD_some] at hparse
  exact hparse

theorem Stored.readFrom (e : Stored libs tree) : ReadFrom e.loaded.envelope e.raw := by
  obtain ⟨d, hd, hread, -⟩ := parseEnvelope_eq_some e.parsed
  obtain rfl := Value.dict.inj hd
  exact hread

theorem Stored.loaded_payload (e : Stored libs tree) :
    (if e.loaded.envelope.asset = .sentinelPlaybook then
      inlinePlaybookSidecar tree (memberPath e.member) (.dict e.payload)
    else some (.dict e.payload)) = some e.loaded.payload := by
  have hload := e.isLoaded
  unfold loadAsset at hload
  rw [e.isRaw, Option.bind_eq_bind, Option.bind_some, e.parsed, Option.bind_eq_bind,
    Option.bind_some] at hload
  obtain ⟨payload, hpayload, hload⟩ := Option.bind_eq_some_iff.mp hload
  rw [hpayload, ← Option.some.inj hload]

theorem Stored.payload_wf (e : Stored libs tree) : Value.WF (.dict e.payload : Value X) :=
  (Value.wf_dict_iff.mp e.wf).2 _ (Dict.mem_of_get? e.isPayload)

/-- The definition that an envelope loads with, null where it has none. -/
def Stored.definition (e : Stored libs tree) : Value X := Value.child "definition" e.loaded.payload

/-- A playbook loads to its payload with the definition of the sidecar. -/
theorem Stored.inlined (e : Stored libs tree)
    (hplaybook : e.loaded.envelope.asset = .sentinelPlaybook) :
    ∃ d, e.loaded.payload = .dict d ∧ Inlined (sidecarName e.loaded.envelope.id) e.payload d := by
  obtain ⟨hdefinition, hfile⟩ := e.inSidecar hplaybook
  have hnodup := (Value.wf_dict_iff.mp e.payload_wf).1
  have hload := e.loaded_payload
  rw [if_pos hplaybook] at hload
  unfold inlinePlaybookSidecar at hload
  rw [Value.dict?_dict] at hload
  dsimp only at hload
  rcases hfile with hfile | hfile
  · have hget : Value.get e.payload "definitionFile" = .null := by
      unfold Value.get
      rw [hfile]
      rfl
    rw [hget] at hload
    obtain hload := Option.some.inj hload
    exact ⟨e.payload, hload.symm, hnodup, hnodup, hdefinition, .inl ⟨hfile, hdefinition⟩, hfile,
      fun k _ _ => rfl⟩
  · have hget : Value.get e.payload "definitionFile" = .str (sidecarName e.loaded.envelope.id) := by
      unfold Value.get
      rw [hfile]
      rfl
    have hne : sidecarName e.loaded.envelope.id ≠ "" := by
      intro hnil
      have hlength := congrArg String.length hnil
      have hsuffix : ".workflow.json".length = 14 := rfl
      rw [sidecarName, String.length_append, hsuffix, String.length_empty] at hlength
      omega
    have hplain : ¬ e.payload.contains "definition" = true := by
      simp [Dict.contains, hdefinition]
    rw [hget, if_neg (by simp [Value.truthy, hne]), if_neg hplain] at hload
    obtain ⟨name, -, hload⟩ := Option.bind_eq_some_iff.mp hload
    split_ifs at hload
    obtain ⟨text, -, hload⟩ := Option.bind_eq_some_iff.mp hload
    obtain ⟨value, -, hload⟩ := Option.bind_eq_some_iff.mp hload
    obtain ⟨definition, -, hload⟩ := Option.bind_eq_some_iff.mp hload
    refine ⟨_, (Option.some.inj hload).symm, hnodup,
      Dict.nodup_keys_set (Dict.nodup_keys_erase hnodup _) _ _, hdefinition, .inr ⟨hfile, _,
        Dict.get?_set_self _ _ _⟩, ?_, ?_⟩
    · rw [Dict.get?_set, if_neg (by decide), Dict.get?_erase, if_pos rfl]
    · intro k hdef hother
      rw [Dict.get?_set, if_neg (Ne.symm hdef), Dict.get?_erase, if_neg (Ne.symm hother)]

/-! ## The index of an archive -/

def Stored.indexed (e : Stored libs tree) : IndexedAsset where
  asset := e.loaded.envelope.asset.value
  envelopeId := e.loaded.envelope.id
  payloadHash := payloadHash libs (.dict e.payload)
  memberPath := e.member.name

theorem Stored.key_indexed (e : Stored libs tree) : e.indexed.key = e.key := rfl

omit [Json.FloatText X] in
theorem strAt_of_get? {raw : Document X} {key s : String} (h : raw.get? key = some (.str s)) :
    libs.strAt raw key = s := by
  unfold IndexLibs.strAt Value.get
  rw [h]
  rfl

theorem indexMember_stored (e : Stored libs tree) :
    indexMember libs e.member = some (e.key, e.indexed) := by
  have hread := e.readFrom
  have hid : e.loaded.envelope.id ≠ "" := by
    intro hid
    have hvalid := hread.validId
    rw [hid] at hvalid
    exact absurd hvalid (by decide)
  have hasset : assetOf libs e.raw = some e.loaded.envelope.asset.value := by
    have hne : e.loaded.envelope.asset.value ≠ "" := by
      cases e.loaded.envelope.asset <;> decide
    unfold assetOf
    rw [strAt_of_get? hread.asset]
    exact if_pos hne
  have hpayload : payloadOf libs e.raw = .dict e.payload := by
    unfold payloadOf Value.get
    rw [e.isPayload]
    rfl
  unfold indexMember
  rw [e.isRaw, Option.bind_eq_bind, Option.bind_some, Value.dict?_dict, Option.bind_eq_bind,
    Option.bind_some, strAt_of_get? hread.id]
  dsimp only
  rw [if_neg hid, hasset, hpayload]
  rfl

theorem indexArchive_eq (a : Archive libs) :
    indexArchive libs a.members = a.envelopes.map fun e => (e.key, e.indexed) := by
  have hentries : (yamlMembers a.members).filterMap (indexMember libs) =
      a.envelopes.map fun e => (e.key, e.indexed) := by
    rw [← a.covers, List.filterMap_map, ← List.filterMap_eq_map]
    exact List.filterMap_congr fun e _ => indexMember_stored e
  unfold indexArchive
  rw [hentries, Dict.ofPairs_of_nodup]
  unfold Dict.keys
  rw [List.map_map]
  exact a.unique

theorem keys_index (a : Archive libs) :
    (indexArchive libs a.members).keys = a.envelopes.map Stored.key := by
  rw [indexArchive_eq]
  unfold Dict.keys
  rw [List.map_map]
  rfl

theorem get?_index (a : Archive libs) {k : AssetKey} {i : IndexedAsset} :
    (indexArchive libs a.members).get? k = some i ↔ ∃ e ∈ a.envelopes, e.key = k ∧ e.indexed = i := by
  have hnodup : (indexArchive libs a.members).keys.Nodup := by
    rw [keys_index]
    exact a.unique
  have hmem : (k, i) ∈ indexArchive libs a.members ↔
      ∃ e ∈ a.envelopes, e.key = k ∧ e.indexed = i := by
    rw [indexArchive_eq, List.mem_map]
    simp only [Prod.mk.injEq]
  rw [← hmem]
  exact ⟨Dict.mem_of_get?, Dict.get?_of_mem hnodup⟩

/-! ## Content -/

variable [DecidableEq X]

/-- Two envelopes of one kind and id that load to the same content. -/
def SameContent {tree' : FileTree} (e : Stored libs tree) (e' : Stored libs tree') : Prop :=
  Value.Same e.loaded.payload e'.loaded.payload

instance {tree' : FileTree} (e : Stored libs tree) (e' : Stored libs tree') :
    Decidable (SameContent e e') := inferInstanceAs (Decidable (Value.Same _ _))

/-- The report says what changed in the content of two archives. -/
structure ContentExact (a b : Archive libs) (report : SnapshotDiffReport) : Prop where
  created : ∀ k, k ∈ report.created.map IndexedAsset.key ↔
    k ∈ b.envelopes.map Stored.key ∧ k ∉ a.envelopes.map Stored.key
  deleted : ∀ k, k ∈ report.deleted.map IndexedAsset.key ↔
    k ∈ a.envelopes.map Stored.key ∧ k ∉ b.envelopes.map Stored.key
  updated : ∀ k, k ∈ report.updated.map (·.1.key) ↔
    ∃ e ∈ a.envelopes, ∃ e' ∈ b.envelopes, e.key = k ∧ e'.key = k ∧ ¬ SameContent e e'
  unchanged : report.unchanged =
    (a.envelopes.filter fun e => b.envelopes.any fun e' => e'.key = e.key ∧ SameContent e e').length
  totalA : report.totalA = a.envelopes.length
  totalB : report.totalB = b.envelopes.length

/-- No two payloads of the archives collide. -/
def NoCollision (a b : Archive libs) : Prop :=
  ∀ e ∈ a.envelopes, ∀ e' ∈ b.envelopes,
    e.indexed.payloadHash = e'.indexed.payloadHash →
      Json.dumps Json.compact (Value.sortKeys (.dict e.payload : Value X)) =
        Json.dumps Json.compact (Value.sortKeys (.dict e'.payload : Value X))

omit [DecidableEq X] in
/-- The hashes are equal where the payloads are the same on disk. -/
theorem hash_eq_iff {a b : Archive libs} (hsha : NoCollision a b) {e : Stored libs _}
    {e' : Stored libs _} (he : e ∈ a.envelopes) (he' : e' ∈ b.envelopes) :
    e.indexed.payloadHash = e'.indexed.payloadHash ↔
      Value.Same (.dict e.payload : Value X) (.dict e'.payload) := by
  constructor
  · intro hhash
    exact Json.dumps_injective Json.compact_blank e.payload_wf.sortKeys e'.payload_wf.sortKeys
      (hsha e he e' he' hhash)
  · intro hsame
    exact congrArg (fun v => libs.sha256 (Json.dumps Json.compact v)) hsame

omit [DecidableEq X] in
theorem key_eq_iff {tree' : FileTree} {e : Stored libs tree} {e' : Stored libs tree'} :
    e'.key = e.key ↔ e'.loaded.envelope.asset = e.loaded.envelope.asset ∧
      e'.loaded.envelope.id = e.loaded.envelope.id := by
  unfold Stored.key
  rw [toLex_inj, Prod.mk.injEq]
  exact and_congr_left fun _ => ⟨Asset.value_injective, congrArg Asset.value⟩

omit [DecidableEq X] in
/-- Two envelopes load to the same where they are the same on disk and, for playbooks, in their
sidecars. -/
theorem sameContent_iff {tree' : FileTree} {e : Stored libs tree} {e' : Stored libs tree'}
    (hkey : e'.key = e.key) :
    SameContent e e' ↔ Value.Same (.dict e.payload : Value X) (.dict e'.payload) ∧
      (e.loaded.envelope.asset = .sentinelPlaybook → Value.Same e.definition e'.definition) := by
  obtain ⟨hasset, hid⟩ := key_eq_iff.mp hkey
  unfold SameContent
  by_cases hplaybook : e.loaded.envelope.asset = .sentinelPlaybook
  · obtain ⟨d, hd, hinlined⟩ := e.inlined hplaybook
    obtain ⟨d', hd', hinlined'⟩ := e'.inlined (hasset.trans hplaybook)
    rw [hid] at hinlined'
    unfold Stored.definition
    rw [hd, hd', hinlined.same_iff hinlined']
    exact and_congr_right fun _ => ⟨fun h _ => h, fun h => h hplaybook⟩
  · have hload := e.loaded_payload
    have hload' := e'.loaded_payload
    rw [if_neg hplaybook] at hload
    rw [if_neg (by rwa [hasset])] at hload'
    rw [← Option.some.inj hload, ← Option.some.inj hload']
    exact (and_iff_left fun h => absurd h hplaybook).symm

/-! ## The report -/

omit [DecidableEq X] in
theorem mem_keys_missing (a b : Archive libs) (k : AssetKey) :
    k ∈ (missing (indexArchive libs b.members) (indexArchive libs a.members)).map IndexedAsset.key ↔
      k ∈ b.envelopes.map Stored.key ∧ k ∉ a.envelopes.map Stored.key := by
  simp only [List.mem_map, mem_missing, get?_index, keys_index]
  constructor
  · rintro ⟨i, ⟨k', ⟨e, he, rfl, rfl⟩, hother⟩, rfl⟩
    exact ⟨⟨e, he, rfl⟩, hother⟩
  · rintro ⟨⟨e, he, rfl⟩, hother⟩
    exact ⟨e.indexed, ⟨e.key, ⟨e, he, rfl, rfl⟩, hother⟩, rfl⟩

omit [DecidableEq X] in
theorem mem_keys_updated (a b : Archive libs) (k : AssetKey) :
    k ∈ (diffArchives libs a.members b.members).updated.map (·.1.key) ↔
      ∃ e ∈ a.envelopes, ∃ e' ∈ b.envelopes, e.key = k ∧ e'.key = k ∧
        e.indexed.payloadHash ≠ e'.indexed.payloadHash := by
  unfold diffArchives diffIndexes
  simp only [List.mem_map, List.mem_filter, mem_inBoth, get?_index, decide_eq_true_eq]
  constructor
  · rintro ⟨⟨i, j⟩, ⟨⟨k', ⟨e, he, rfl, rfl⟩, e', he', hkey, rfl⟩, hhash⟩, rfl⟩
    exact ⟨e, he, e', he', rfl, hkey, hhash⟩
  · rintro ⟨e, he, e', he', rfl, hkey, hhash⟩
    exact ⟨(e.indexed, e'.indexed),
      ⟨⟨e.key, ⟨e, he, rfl, rfl⟩, e', he', hkey, rfl⟩, hhash⟩, rfl⟩

omit [DecidableEq X] in
theorem unchanged_eq (a b : Archive libs) :
    (diffArchives libs a.members b.members).unchanged = (a.envelopes.filter fun e =>
      b.envelopes.any fun e' => e'.key = e.key ∧
        e.indexed.payloadHash = e'.indexed.payloadHash).length := by
  let idxA := indexArchive libs a.members
  let idxB := indexArchive libs b.members
  let pairAt := fun k => (idxA.get? k).bind fun i => (idxB.get? k).map fun j => (i, j)
  have hboth : (inBoth idxA idxB).Perm ((a.envelopes.map Stored.key).filterMap pairAt) := by
    unfold inBoth
    refine ((sortedKeys_perm _).filterMap _).trans (List.Perm.of_eq ?_)
    rw [keys_index a, List.filterMap_filter]
    apply List.filterMap_congr
    intro k _
    split_ifs with hk
    · rfl
    · have hnone : idxB.get? k = none := Dict.get?_eq_none_iff.mpr fun h => hk (decide_eq_true h)
      dsimp only [pairAt]
      rw [hnone]
      cases idxA.get? k <;> rfl
  have hpair : ∀ e ∈ a.envelopes,
      ((pairAt e.key).any fun p => decide (p.1.payloadHash = p.2.payloadHash)) =
        b.envelopes.any fun e' => e'.key = e.key ∧
          e.indexed.payloadHash = e'.indexed.payloadHash := by
    intro e he
    have hget : idxA.get? e.key = some e.indexed := (get?_index a).mpr ⟨e, he, rfl, rfl⟩
    dsimp only [pairAt]
    rw [hget, Option.bind_some, Option.any_map, Bool.eq_iff_iff, List.any_eq_true]
    cases hj : idxB.get? e.key with
    | none =>
      refine iff_of_false nofun ?_
      rintro ⟨e', he', hsame⟩
      have hsome := (get?_index b).mpr ⟨e', he', (of_decide_eq_true hsame).1, rfl⟩
      rw [show (indexArchive libs b.members).get? e.key = none from hj] at hsome
      cases hsome
    | some j =>
      obtain ⟨e', he', hkey, rfl⟩ := (get?_index b).mp hj
      constructor
      · intro hhash
        exact ⟨e', he', decide_eq_true ⟨hkey, of_decide_eq_true hhash⟩⟩
      · rintro ⟨e'', he'', hsame⟩
        obtain ⟨hkey', hhash⟩ := of_decide_eq_true hsame
        obtain rfl := List.inj_on_of_nodup_map b.unique he'' he' (hkey'.trans hkey.symm)
        exact decide_eq_true hhash
  calc (diffArchives libs a.members b.members).unchanged
      = (((a.envelopes.map Stored.key).filterMap pairAt).filter
          fun p => decide (p.1.payloadHash = p.2.payloadHash)).length :=
        (hboth.filter _).length_eq
    _ = (a.envelopes.filter fun e =>
          (pairAt e.key).any fun p => decide (p.1.payloadHash = p.2.payloadHash)).length := by
        rw [length_filter_filterMap, List.filter_map, List.length_map]
        rfl
    _ = _ := by rw [List.filter_congr hpair]

/-- The report is exact on content where no playbook changes in its sidecar alone. -/
theorem contentExact_iff (a b : Archive libs) (hsha : NoCollision a b) :
    ContentExact a b (diffArchives libs a.members b.members) ↔
      ∀ e ∈ a.envelopes, ∀ e' ∈ b.envelopes, e'.key = e.key →
        e.loaded.envelope.asset = .sentinelPlaybook →
          Value.Same (.dict e.payload : Value X) (.dict e'.payload) →
            Value.Same e.definition e'.definition := by
  constructor
  · intro hexact e he e' he' hkey hplaybook hdisk
    by_contra hdefinition
    have hchanged : ¬ SameContent e e' := by
      rw [sameContent_iff hkey]
      exact fun h => hdefinition (h.2 hplaybook)
    obtain ⟨f, hf, f', hf', hfkey, hfkey', hhash⟩ := (mem_keys_updated a b e.key).mp
      ((hexact.updated e.key).mpr ⟨e, he, e', he', rfl, hkey, hchanged⟩)
    obtain rfl := List.inj_on_of_nodup_map a.unique hf he hfkey
    obtain rfl := List.inj_on_of_nodup_map b.unique hf' he' (hfkey'.trans hkey.symm)
    exact hhash ((hash_eq_iff hsha hf hf').mpr hdisk)
  · intro hsidecars
    have hsame : ∀ e ∈ a.envelopes, ∀ e' ∈ b.envelopes, e'.key = e.key →
        (e.indexed.payloadHash = e'.indexed.payloadHash ↔ SameContent e e') := by
      intro e he e' he' hkey
      rw [hash_eq_iff hsha he he', sameContent_iff hkey]
      exact ⟨fun h => ⟨h, fun hp => hsidecars e he e' he' hkey hp h⟩, fun h => h.1⟩
    constructor
    · exact mem_keys_missing a b
    · exact mem_keys_missing b a
    · intro k
      rw [mem_keys_updated]
      constructor
      · rintro ⟨e, he, e', he', rfl, hkey, hhash⟩
        exact ⟨e, he, e', he', rfl, hkey, mt (hsame e he e' he' hkey).mpr hhash⟩
      · rintro ⟨e, he, e', he', rfl, hkey, hchanged⟩
        exact ⟨e, he, e', he', rfl, hkey, mt (hsame e he e' he' hkey).mp hchanged⟩
    · rw [unchanged_eq]
      congr 1
      apply List.filter_congr
      intro e he
      rw [Bool.eq_iff_iff, List.any_eq_true, List.any_eq_true]
      refine exists_congr fun e' => and_congr_right fun he' => ?_
      rw [decide_eq_true_eq, decide_eq_true_eq]
      exact and_congr_right fun hkey => hsame e he e' he' hkey
    · refine totalA_diffIndexes.trans ?_
      rw [indexArchive_eq, List.length_map]
    · have hnodup : ∀ c : Archive libs, (indexArchive libs c.members).keys.Nodup := by
        intro c
        rw [keys_index]
        exact c.unique
      refine (totalB_diffIndexes (hnodup a) (hnodup b)).trans ?_
      rw [indexArchive_eq, List.length_map]

end
/-! ## A changed sidecar -/

def isolateText : Text :=
  "id: isolate\nversion: 1.0.0\nasset: sentinel_playbook\nstatus: production
payload:\n  displayName: Isolate\n  definitionFile: isolate.workflow.json\n".toList

def isolatePayload : Document Empty :=
  [("displayName", .str "Isolate"), ("definitionFile", .str "isolate.workflow.json")]

def isolateDocument : Document Empty :=
  [("id", .str "isolate"), ("version", .str "1.0.0"), ("asset", .str "sentinel_playbook"),
    ("status", .str "production"), ("payload", .dict isolatePayload)]

def isolateLibs : IndexLibs Empty where
  safeLoad t := if t = isolateText then some (.dict isolateDocument) else none
  dump _ := []
  laxInt _ := none
  str _ := ""
  sha256 t := t

def isolateMember : TarMember := ⟨"playbooks/isolate.yml", true, isolateText⟩

theorem safeLoad_isolate :
    isolateLibs.safeLoad isolateMember.content = some (.dict isolateDocument) := by
  simp only [isolateLibs, isolateMember, if_true]

/-- The playbook with a definition in its sidecar. -/
def isolateMembers (definition : String) : List TarMember :=
  [isolateMember, ⟨"playbooks/isolate.workflow.json", true, definition.toList⟩]

def isolateLoaded (definition : Document Empty) : LoadedAsset Empty where
  path := ["playbooks", "isolate.yml"]
  envelope := ⟨"isolate", "1.0.0", .sentinelPlaybook, "production", none⟩
  payload := .dict [("displayName", .str "Isolate"), ("definition", .dict definition)]

def isolateStored (text : String) (definition : Document Empty)
    (h : loadAsset isolateLibs.toLibs (extracted (isolateMembers text)) (memberPath isolateMember)
      isolateMember.content = some (isolateLoaded definition)) :
    Stored isolateLibs (extracted (isolateMembers text)) where
  member := isolateMember
  raw := isolateDocument
  payload := isolatePayload
  loaded := isolateLoaded definition
  isRaw := safeLoad_isolate
  wf := by
    simp [Value.wf_dict_iff, isolateDocument, isolatePayload, Dict.keys]
  isPayload := rfl
  isLoaded := h
  inSidecar _ := ⟨rfl, .inr rfl⟩

theorem load_first : loadAsset isolateLibs.toLibs (extracted (isolateMembers "\x7b\x7d"))
    (memberPath isolateMember) isolateMember.content = some (isolateLoaded []) := by
  unfold loadAsset
  rw [safeLoad_isolate]
  rfl

theorem load_second : loadAsset isolateLibs.toLibs (extracted (isolateMembers "\x7b\"v\":1\x7d"))
    (memberPath isolateMember) isolateMember.content =
      some (isolateLoaded [("v", .int 1)]) := by
  unfold loadAsset
  rw [safeLoad_isolate]
  rfl

theorem yamlMembers_isolate (definition : String) :
    yamlMembers (isolateMembers definition) = [isolateMember] := by
  have hsidecar : ¬ (true && (hasSuffix ".yml" "playbooks/isolate.workflow.json" ||
      hasSuffix ".yaml" "playbooks/isolate.workflow.json")) = true := by decide
  unfold yamlMembers isolateMembers
  rw [List.filter_cons_of_pos (by decide), List.filter_cons_of_neg]
  · rfl
  · exact hsidecar

/-- An archive of the playbook alone. -/
abbrev isolateArchive (text : String) (definition : Document Empty)
    (h : loadAsset isolateLibs.toLibs (extracted (isolateMembers text)) (memberPath isolateMember)
      isolateMember.content = some (isolateLoaded definition)) : Archive isolateLibs where
  members := isolateMembers text
  envelopes := [isolateStored text definition h]
  covers := (yamlMembers_isolate text).symm
  unique := List.nodup_singleton _

abbrev firstArchive : Archive isolateLibs := isolateArchive _ _ load_first
abbrev secondArchive : Archive isolateLibs := isolateArchive _ _ load_second

/-- A playbook whose definition has changed counts as unchanged. -/
theorem isolate_not_contentExact : ¬ ContentExact firstArchive secondArchive
    (diffArchives isolateLibs firstArchive.members secondArchive.members) := by
  intro h
  let e := isolateStored _ _ load_first
  let e' := isolateStored _ _ load_second
  have hchanged : ¬ SameContent e e' := by decide
  have hupdated := (h.updated e.key).mpr
    ⟨e, List.mem_singleton_self e, e', List.mem_singleton_self e', rfl, rfl, hchanged⟩
  obtain ⟨f, hf, f', hf', -, -, hhash⟩ := (mem_keys_updated firstArchive secondArchive _).mp hupdated
  obtain rfl := List.mem_singleton.mp hf
  obtain rfl := List.mem_singleton.mp hf'
  exact hhash rfl

theorem contentExact_iff_first : ContentExact firstArchive firstArchive
    (diffArchives isolateLibs firstArchive.members firstArchive.members) := by
  refine (contentExact_iff firstArchive firstArchive fun _ _ _ _ hhash => hhash).mpr ?_
  intro e he e' he' _ _ _
  obtain rfl := List.mem_singleton.mp he
  obtain rfl := List.mem_singleton.mp he'
  exact Value.Same.refl _

end ContentOps.SnapshotDiff
