import ContentOps.Core.LocalPart
import ContentOps.Library.TextTable

/-! `drift-resolve`, `drift_resolve.py`: the remote version of one rule is written over the local
one. It is said to be `drift --write` for that rule, but it keeps nothing of the local file. -/

namespace ContentOps
open PyData

section
variable {X : Type} [Value.ScalarEq X]

def hasId (assetId : String) (envelope : Document X) : Bool :=
  (Value.get envelope "id").text? = some assetId

/-- The envelopes of a kind in the order of the listing; none where it fails. -/
def listedEnvelopes (h : DriftHandler X) : List (Document X) :=
  match h.listRemote with
  | .error _ => []
  | .ok items => disambiguateEnvelopeIds (items.filterMap h.toEnvelope)

variable [Json.FloatText X] (libs : Libs X)

/-- The entry of `find_entry_for` for an item listed under the id. -/
def foundEntry (tree : FileTree) (base : Path) (assetId : String) (asset : Asset)
    (envelope : Document X) : DriftEntry X :=
  let newPayload := (Dict.get? envelope "payload").getD (.dict [])
  match (localIndex libs tree base asset).get? assetId with
  | none => { asset, assetId, kind := .new, envelope := some envelope }
  | some (path, payload) =>
    if payloadsMatch payload newPayload then
      { asset, assetId, kind := .inSync, localPath := some path }
    else { asset, assetId, kind := .changed, envelope := some envelope, localPath := some path }

/-- `find_entry_for`. -/
def findEntryFor (handlers : List (DriftHandler X)) (tree : FileTree) (base : Path)
    (assetId : String) : Option (DriftEntry X) :=
  handlers.findSome? fun h =>
    ((listedEnvelopes h).find? (hasId assetId)).map (foundEntry libs tree base assetId h.asset)

omit [Value.ScalarEq X] [Json.FloatText X] in
/-- `resolve_remote` without `--dry-run`: the files afterwards; `none` is `DriftResolveError`. -/
def resolveRemote (entry : DriftEntry X) (tree : FileTree) : Option FileTree :=
  entry.envelope.map fun envelope =>
    let target := entry.localPath.getD (newTarget ["detections"] entry.asset entry.assetId)
    tree.write target (dumpEnvelopeYaml libs envelope)

/-! ## Against `drift --write` -/

variable (digits : Digits)

/-- Resolving the id of an entry leaves in its file what writing the entry does. -/
def ResolvesLikeWrite (handlers : List (DriftHandler X)) (tree : FileTree) (base : Path)
    (entry : DriftEntry X) : Prop :=
  ∃ found resolved written paths,
    findEntryFor libs handlers tree base entry.assetId = some found ∧
    found.localPath = entry.localPath ∧ resolveRemote libs found tree = some resolved ∧
    writeDrift libs digits [entry] tree base = some (written, paths) ∧
    ∀ path ∈ entry.localPath, resolved.read path = written.read path

/-- The first item listed under an id, with its kind. -/
def firstListed (handlers : List (DriftHandler X)) (assetId : String) :
    Option (Asset × Document X) :=
  handlers.findSome? fun h => ((listedEnvelopes h).find? (hasId assetId)).map (h.asset, ·)

/-- A key of two documents has values that the YAML writer makes the same of. -/
def SameAt (key : String) (d e : Document X) : Prop :=
  (Dict.get? d key).map represent = (Dict.get? e key).map represent

/-- The local file has nothing to be kept that the envelope of the tenant does not have. -/
structure NothingToKeep (doc envelope : Document X) : Prop where
  definition : Value.textAt envelope "asset" = Asset.sentinelPlaybook.value →
    ∃ payload, Dict.get? envelope "payload" = some (.dict payload) ∧ "definition" ∉ Dict.keys payload
  metadata : ∀ localMeta, (Value.get doc "metadata").dict? = some localMeta → localMeta ≠ [] →
    ∃ remoteMeta, Dict.get? envelope "metadata" = some (.dict remoteMeta) ∧
      representEntries (Dict.merge localMeta remoteMeta) = representEntries remoteMeta
  id : (Value.get doc "id").truthy = true → SameAt "id" doc envelope
  version : ∃ kept, withLocal libs digits doc envelope = some kept ∧ SameAt "version" kept envelope

/-- The entry is about the first item listed under its id, the id alone leads to the same file, and
that file has nothing to be kept. -/
def WritesTheSame (handlers : List (DriftHandler X)) (tree : FileTree) (base : Path)
    (entry : DriftEntry X) : Prop :=
  ∃ path envelope doc, entry.localPath = some path ∧ entry.envelope = some envelope ∧
    localDocument libs tree path = some doc ∧
    firstListed handlers entry.assetId = some (entry.asset, envelope) ∧
    (∃ payload, (localIndex libs tree base entry.asset).get? entry.assetId = some (path, payload)) ∧
    NothingToKeep libs digits doc envelope

/-- At most one item of the tenant is listed under the id. -/
def ListedOnce (handlers : List (DriftHandler X)) (assetId : String) : Prop :=
  ((handlers.flatMap fun h => (listedEnvelopes h).map (h.asset, ·)).filter
    (hasId assetId ·.2)).length ≤ 1

end

section
variable {X : Type}

theorem representEntries_eq_map (d : List (String × Value X)) :
    representEntries d = d.map fun p => (representString p.1, represent p.2) := by
  induction d with
  | nil => rfl
  | cons p d ih =>
    obtain ⟨k, v⟩ := p
    rw [representEntries, ih, List.map_cons]

/-- Documents with the same keys make the same text when each of their values does. -/
theorem representEntries_eq_iff {d e : Document X} (hkeys : Dict.keys e = Dict.keys d)
    (hd : (Dict.keys d).Nodup) :
    representEntries e = representEntries d ↔ ∀ key, SameAt key e d := by
  unfold SameAt
  induction d generalizing e with
  | nil =>
    obtain rfl : e = [] := List.map_eq_nil_iff.mp hkeys
    simp
  | cons p d ih =>
    obtain ⟨k, v⟩ := p
    cases e with
    | nil => simp [Dict.keys] at hkeys
    | cons q e =>
      obtain ⟨k', w⟩ := q
      simp only [Dict.keys, List.map_cons, List.cons.injEq] at hkeys
      obtain ⟨rfl, hkeys⟩ := hkeys
      obtain ⟨hk, hnodup⟩ := List.nodup_cons.mp hd
      have ih := ih hkeys hnodup
      rw [representEntries, representEntries, List.cons.injEq, Prod.mk.injEq, ih]
      constructor
      · rintro ⟨⟨-, hval⟩, hrest⟩ key
        rw [Dict.get?_cons, Dict.get?_cons]
        split_ifs
        · rw [Option.map_some, Option.map_some, hval]
        · exact hrest key
      · intro hall
        refine ⟨⟨rfl, ?_⟩, ?_⟩
        · simpa using hall k'
        · intro key
          by_cases hkey : k' = key
          · subst hkey
            have hnone : Dict.get? d k' = none := Dict.get?_eq_none_iff.mpr hk
            have hnone' : Dict.get? e k' = none := by
              rw [Dict.get?_eq_none_iff, Dict.keys, hkeys]
              exact hk
            rw [hnone, hnone']
          · simpa [Dict.get?_cons, hkey] using hall key

theorem dict_of_represent {v : Value X} {d : List (String × Value X)} (h : represent v = .dict d) :
    ∃ p, v = .dict p ∧ representEntries p = d := by
  cases v <;> simp_all [represent]

variable [Value.ScalarEq X]

/-! ## What is kept of the local file -/

omit [Value.ScalarEq X] in
theorem sameAt_metadata_iff {doc envelope : Document X} :
    SameAt "metadata" (preserveLocalMetadata doc envelope) envelope ↔
      ∀ localMeta, (Value.get doc "metadata").dict? = some localMeta → localMeta ≠ [] →
        ∃ remoteMeta, Dict.get? envelope "metadata" = some (.dict remoteMeta) ∧
          representEntries (Dict.merge localMeta remoteMeta) = representEntries remoteMeta := by
  unfold preserveLocalMetadata SameAt
  cases hlocal : (Value.get doc "metadata").dict? with
  | none => simp
  | some localMeta =>
    cases localMeta with
    | nil => simp
    | cons entry localMeta =>
      dsimp only
      cases hremote : (Value.get envelope "metadata").dict? with
      | some remoteMeta =>
        have hget : Dict.get? envelope "metadata" = some (.dict remoteMeta) :=
          Value.get?_of_get (Value.dict?_eq_some hremote) (by simp)
        simp [hget, represent]
      | none =>
        simp only [Dict.get?_set_self, Option.map_some, represent]
        constructor
        · intro hsame
          obtain ⟨v, hv, htext⟩ := Option.map_eq_some_iff.mp hsame.symm
          obtain ⟨remoteMeta, rfl, -⟩ := dict_of_represent htext
          simp [Value.get, hv, Value.dict?] at hremote
        · intro hall
          obtain ⟨remoteMeta, hv, -⟩ := hall _ rfl (by simp)
          simp [Value.get, hv, Value.dict?] at hremote

theorem sameAt_id_iff {doc envelope : Document X} :
    SameAt "id" (preserveLocalId doc envelope) envelope ↔
      ((Value.get doc "id").truthy = true → SameAt "id" doc envelope) := by
  unfold preserveLocalId SameAt
  dsimp only
  split_ifs with htruthy
  · have hget : Dict.get? doc "id" = some (Value.get doc "id") := by
      apply Value.get?_of_get rfl
      intro hnull
      rw [hnull] at htruthy
      exact absurd htruthy (by simp [Value.truthy])
    simp [hget, htruthy]
  · simp [htruthy]

/-- Keeping what the local file has leaves the text of an envelope alone exactly when each of the
three keys comes out the same. -/
theorem represent_withLocal_iff {libs : Libs X} {digits : Digits} {doc envelope kept : Document X}
    (hnodup : (Dict.keys envelope).Nodup) (h : withLocal libs digits doc envelope = some kept) :
    representEntries kept = representEntries envelope ↔
      SameAt "metadata" (preserveLocalMetadata doc envelope) envelope ∧
        SameAt "id" (preserveLocalId doc envelope) envelope ∧ SameAt "version" kept envelope := by
  let keys := ["metadata", "id", "version"]
  have hmeta := setsOnly_preserveLocalMetadata doc envelope
  have hid := setsOnly_preserveLocalId doc (preserveLocalMetadata doc envelope)
  have hversion := setsOnly_preserveLocalVersion h
  have hsets : SetsOnly keys envelope kept := setsOnly_withLocal h
  have hgetMeta : Dict.get? kept "metadata" = Dict.get? (preserveLocalMetadata doc envelope) "metadata" := by
    rw [hversion.others "metadata" (by decide), hid.others "metadata" (by decide)]
  have hgetId : Dict.get? kept "id" = Dict.get? (preserveLocalId doc envelope) "id" := by
    rw [hversion.others "id" (by decide)]
    exact preserveLocalId_congr (hmeta.others "id" (by decide))
  constructor
  · intro htext
    have hlength : (Dict.keys kept).length = (Dict.keys envelope).length := by
      have := congrArg List.length htext
      simpa [representEntries_eq_map, Dict.keys] using this
    have hkeys : Dict.keys kept = Dict.keys envelope :=
      (hsets.keys_start.eq_of_length hlength.symm).symm
    have hall := (representEntries_eq_iff hkeys hnodup).mp htext
    refine ⟨?_, ?_, hall "version"⟩
    · have := hall "metadata"
      unfold SameAt at this ⊢
      rwa [hgetMeta] at this
    · have := hall "id"
      unfold SameAt at this ⊢
      rwa [hgetId] at this
  · rintro ⟨hm, hi, hv⟩
    have hall : ∀ key, SameAt key kept envelope := by
      intro key
      unfold SameAt at hm hi hv ⊢
      by_cases h1 : key = "metadata"
      · rw [h1, hgetMeta, hm]
      by_cases h2 : key = "id"
      · rw [h2, hgetId, hi]
      by_cases h3 : key = "version"
      · rw [h3, hv]
      · rw [hsets.others key (by simp [keys, h1, h2, h3])]
    have hkeys : Dict.keys kept = Dict.keys envelope := by
      obtain ⟨extra, hextra⟩ := hsets.keys_start
      have hnil : extra = [] := by
        -- A key that was added is a key of one document only.
        cases extra with
        | nil => rfl
        | cons key extra =>
          exfalso
          have hkept := hsets.nodup hnodup
          rw [← hextra, List.nodup_append] at hkept
          have hnot : key ∉ Dict.keys envelope := fun hmem => hkept.2.2 key hmem key (by simp) rfl
          have hmem : key ∈ Dict.keys kept := by simp [← hextra]
          have hsame := hall key
          unfold SameAt at hsame
          rw [Dict.get?_eq_none_iff.mpr hnot, Option.map_none, Option.map_eq_none_iff,
            Dict.get?_eq_none_iff] at hsame
          exact hsame hmem
      rw [← hextra, hnil, List.append_nil]
    exact (representEntries_eq_iff hkeys hnodup).mpr hall

/-! ## The sidecar of a playbook -/

variable [Json.FloatText X]

omit [Value.ScalarEq X] in
/-- What stays of a payload on disk. -/
theorem get?_splitSidecars (envelope : Document X) : ∃ rest,
    Dict.get? (splitSidecars envelope).1 "payload" = some (.dict rest) ∧
      (rest = Dict.erase (((Value.get envelope "payload").dict?).getD []) "definition" ∨
        ∃ name, rest = Dict.set (Dict.erase (((Value.get envelope "payload").dict?).getD [])
          "definition") "definitionFile" (.str name)) := by
  unfold splitSidecars
  dsimp only
  split
  · exact ⟨_, Dict.get?_set_self _ _ _, .inr ⟨_, rfl⟩⟩
  · exact ⟨_, Dict.get?_set_self _ _ _, .inl rfl⟩

omit [Value.ScalarEq X] in
/-- The definition leaves the text of the envelope, so that text is only the same without one. -/
theorem definition_notMem_of_sameAt {envelope : Document X}
    (h : SameAt "payload" (splitSidecars envelope).1 envelope) :
    ∃ payload, Dict.get? envelope "payload" = some (.dict payload) ∧
      "definition" ∉ Dict.keys payload := by
  obtain ⟨rest, hrest, hshape⟩ := get?_splitSidecars envelope
  unfold SameAt at h
  rw [hrest, Option.map_some, represent] at h
  obtain ⟨v, hv, htext⟩ := Option.map_eq_some_iff.mp h.symm
  obtain ⟨payload, rfl, hpayload⟩ := dict_of_represent htext
  refine ⟨payload, hv, fun hmem => ?_⟩
  have hget : ((Value.get envelope "payload").dict?).getD [] = payload := by
    simp [Value.get, hv]
  rw [hget] at hshape
  let isDefinition : String → Bool := fun k => representString k = "definition"
  have hkeys : (Dict.keys rest).map representString = (Dict.keys payload).map representString := by
    have hfst := congrArg (List.map Prod.fst) hpayload
    rw [representEntries_eq_map, representEntries_eq_map, List.map_map, List.map_map] at hfst
    rw [Dict.keys, Dict.keys, List.map_map, List.map_map]
    exact hfst.symm
  have hrestKeys : (Dict.keys rest).filter isDefinition =
      ((Dict.keys payload).filter (· ≠ "definition")).filter isDefinition := by
    have herase : Dict.keys (Dict.erase payload "definition") =
        (Dict.keys payload).filter (· ≠ "definition") := by
      unfold Dict.keys Dict.erase
      rw [List.filter_map]
      rfl
    have hfile : isDefinition "definitionFile" = false := by decide +kernel
    rcases hshape with rfl | ⟨name, rfl⟩
    · rw [herase]
    · rw [Dict.keys_set]
      split_ifs
      · rw [herase]
      · rw [List.filter_append, herase]
        simp [hfile]
  have hcount : ((Dict.keys rest).filter isDefinition).length =
      ((Dict.keys payload).filter isDefinition).length := by
    have := congrArg (List.count "definition") hkeys
    rw [List.count_eq_countP, List.count_eq_countP, List.countP_map, List.countP_map,
      List.countP_eq_length_filter, List.countP_eq_length_filter] at this
    exact this
  have hsub : ((Dict.keys rest).filter isDefinition).Sublist ((Dict.keys payload).filter isDefinition) := by
    rw [hrestKeys]
    exact List.filter_sublist.filter _
  have hsame := hsub.eq_of_length hcount
  have hdef : "definition" ∈ (Dict.keys payload).filter isDefinition :=
    List.mem_filter.mpr ⟨hmem, by decide +kernel⟩
  rw [← hsame, hrestKeys] at hdef
  simpa using (List.mem_filter.mp (List.mem_filter.mp hdef).1).2

omit [Value.ScalarEq X] in
/-- Without a definition nothing moves to a sidecar. -/
theorem splitSidecarFiles_of_notMem {envelope : Document X}
    (h : Value.textAt envelope "asset" = Asset.sentinelPlaybook.value →
      ∃ payload, Dict.get? envelope "payload" = some (.dict payload) ∧
        "definition" ∉ Dict.keys payload) : splitSidecarFiles envelope = (envelope, []) := by
  unfold splitSidecarFiles
  split_ifs with hasset
  · obtain ⟨payload, hpayload, hnot⟩ := h hasset
    have hget : ((Value.get envelope "payload").dict?).getD [] = payload := by
      simp [Value.get, hpayload]
    have hdef : Value.get payload "definition" = .null := by
      unfold Value.get
      rw [Dict.get?_eq_none_iff.mpr hnot]
      rfl
    unfold splitSidecars
    dsimp only
    rw [hget, hdef]
    dsimp only
    rw [Dict.erase_of_notMem hnot, Dict.set_eq_self hpayload]
  · rfl

/-! ## The file after each of the two -/

theorem read_foldl_writeSidecar {target path : Path} (sidecars : Sidecars)
    (h : ∀ sidecar ∈ sidecars, target.sibling sidecar.1 ≠ path) (state : FileTree × List Path) :
    (sidecars.foldl (writeSidecar target) state).1.read path = state.1.read path := by
  induction sidecars generalizing state with
  | nil => rfl
  | cons sidecar sidecars ih =>
    have hrest := ih (fun s hs => h s (List.mem_cons_of_mem _ hs)) (writeSidecar target state sidecar)
    rw [List.foldl_cons, hrest]
    unfold writeSidecar
    split_ifs
    · rw [Directory.read_write, if_neg (h sidecar List.mem_cons_self)]
    · rfl

section
variable {libs : Libs X} {digits : Digits} {tree : FileTree} {base path : Path}
  {doc envelope : Document X} {entry : DriftEntry X}

variable (libs digits tree) in
/-- The text that writing a changed entry leaves in its file. -/
theorem read_writeDrift (hkind : entry.kind = .changed) (henvelope : entry.envelope = some envelope)
    (hlocal : entry.localPath = some path) (hpath : isUnder base ".yml" path = true)
    (hname : NoSidecarName envelope) :
    (writeDrift libs digits [entry] tree base).map (·.1.read path) =
      (preserveLocal libs digits tree path (splitSidecarFiles envelope).2
        (splitSidecarFiles envelope).1).map fun kept => some (dumpEnvelopeYaml libs kept) := by
  have hwrite : writeDrift libs digits [entry] tree base =
      writeEntry libs digits base (tree, []) entry := by
    unfold writeDrift entriesToWrite
    simp [hkind]
  have hother : ∀ sidecar ∈ (splitSidecarFiles envelope).2, path.sibling sidecar.1 ≠ path := by
    intro sidecar hmem
    rw [name_of_mem_splitSidecarFiles hname hmem]
    exact sidecarName_ne hpath
  rw [hwrite]
  unfold writeEntry
  rw [henvelope, hlocal]
  cases hsplit : splitSidecarFiles envelope with
  | mk rest sidecars =>
    rw [hsplit] at hother
    cases hkept : preserveLocal libs digits tree path sidecars rest with
    | none => simp [hsplit, hkept]
    | some kept => simp [hsplit, hkept, read_foldl_writeSidecar sidecars hother]

/-- Writing a changed entry leaves the remote text alone only where the local file has nothing to be
kept. -/
theorem nothingToKeep_of_dump_eq (hdump : Function.Injective libs.dump)
    (hnodup : (Dict.keys envelope).Nodup) (hdoc : localDocument libs tree path = some doc)
    {kept : Document X}
    (hkept : preserveLocal libs digits tree path (splitSidecarFiles envelope).2
      (splitSidecarFiles envelope).1 = some kept)
    (htext : dumpEnvelopeYaml libs kept = dumpEnvelopeYaml libs envelope) :
    NothingToKeep libs digits doc envelope := by
  have hentries : representEntries kept = representEntries envelope := by
    have := hdump htext
    simpa [represent] using this
  rw [preserveLocal_eq hdoc] at hkept
  obtain ⟨merged, hmerged, hbumped⟩ := Option.bind_eq_some_iff.mp hkept
  have hsets : SetsOnly ["metadata", "id", "version"] (splitSidecarFiles envelope).1 kept :=
    (setsOnly_withLocal hmerged).trans ((setsOnly_bumpForChangedSidecars hbumped).mono (by simp))
  have hdefinition : Value.textAt envelope "asset" = Asset.sentinelPlaybook.value →
      ∃ payload, Dict.get? envelope "payload" = some (.dict payload) ∧
        "definition" ∉ Dict.keys payload := by
    intro hasset
    have hsplit : splitSidecarFiles envelope = splitSidecars envelope := by
      unfold splitSidecarFiles
      rw [if_pos hasset]
    rw [hsplit] at hsets
    apply definition_notMem_of_sameAt
    have hkeys : Dict.keys kept = Dict.keys envelope := by
      have hstart := (setsOnly_splitSidecars envelope).keys_start.trans hsets.keys_start
      have hlength := congrArg List.length hentries
      rw [representEntries_eq_map, representEntries_eq_map, List.length_map, List.length_map] at hlength
      refine (hstart.eq_of_length ?_).symm
      rw [Dict.keys, Dict.keys, List.length_map, List.length_map, hlength]
    have hsame := (representEntries_eq_iff hkeys hnodup).mp hentries "payload"
    unfold SameAt at hsame ⊢
    rwa [hsets.others "payload" (by decide)] at hsame
  have hsplit := splitSidecarFiles_of_notMem hdefinition
  rw [hsplit] at hmerged hbumped
  have hsame : merged = kept := by
    simpa [bumpForChangedSidecars] using hbumped
  obtain rfl := hsame
  obtain ⟨hmeta, hid, hversion⟩ := (represent_withLocal_iff hnodup hmerged).mp hentries
  exact ⟨hdefinition, sameAt_metadata_iff.mp hmeta,
    sameAt_id_iff.mp hid, merged, hmerged, hversion⟩

end

/-! ## The file a changed entry is about -/

section
variable {libs : Libs X} {digits : Digits} {tree : FileTree} {base path : Path}

/-- Where the id leads to a file with another payload, its entry is a changed one. -/
theorem foundEntry_of_differs {asset : Asset} {assetId : String} {envelope : Document X}
    {payload : Value X}
    (hindex : (localIndex libs tree base asset).get? assetId = some (path, payload))
    (hdiffers : payloadsMatch payload ((Dict.get? envelope "payload").getD (.dict [])) = false) :
    foundEntry libs tree base assetId asset envelope =
      { asset, assetId, kind := .changed, envelope := some envelope, localPath := some path } := by
  unfold foundEntry
  dsimp only
  rw [hindex]
  dsimp only
  rw [hdiffers]
  rfl

theorem index_of_foundEntry {asset : Asset} {assetId : String} {envelope : Document X}
    (h : (foundEntry libs tree base assetId asset envelope).localPath = some path) :
    ∃ payload, (localIndex libs tree base asset).get? assetId = some (path, payload) := by
  unfold foundEntry at h
  dsimp only at h
  cases hget : (localIndex libs tree base asset).get? assetId with
  | none =>
    rw [hget] at h
    exact absurd h (by simp)
  | some localFile =>
    obtain ⟨localPath, payload⟩ := localFile
    rw [hget] at h
    dsimp only at h
    split_ifs at h <;> exact ⟨payload, by rw [Option.some.inj h]⟩

/-- What a report says of a changed entry. -/
structure ChangedFile (handlers : List (DriftHandler X)) (libs : Libs X) (tree : FileTree)
    (base : Path) (entry : DriftEntry X) (path : Path) (envelope doc : Document X) : Prop where
  localPath : entry.localPath = some path
  written : entry.envelope = some envelope
  listed : ∃ h ∈ handlers, h.asset = entry.asset ∧ envelope ∈ listedEnvelopes h
  hasId : hasId entry.assetId envelope = true
  under : isUnder base ".yml" path = true
  document : localDocument libs tree path = some doc
  differs : ∀ la ∈ loadedAssets libs tree base, la.path = path →
    payloadsMatch la.payload ((Dict.get? envelope "payload").getD (.dict [])) = false

theorem changedFile_of_mem {handlers : List (DriftHandler X)} {entry : DriftEntry X}
    (hentry : entry ∈ detectDrift libs handlers tree base) (hkind : entry.kind = .changed) :
    ∃ path envelope doc, ChangedFile handlers libs tree base entry path envelope doc := by
  obtain ⟨h, hh, hentry⟩ := List.mem_flatMap.mp hentry
  cases hlist : h.listRemote with
  | error message =>
    unfold handlerEntries at hentry
    rw [hlist, List.mem_singleton] at hentry
    rw [hentry] at hkind
    exact absurd hkind (by simp)
  | ok items =>
    obtain ⟨p, hp, hne, hreports⟩ := reports_of_mem hlist hentry
    have hlisted : itemEnvelope h items p ∈ listedEnvelopes h := by
      unfold listedEnvelopes
      rw [hlist]
      have henvelopes : (envelopePairs h items).map (·.envelope) = items.filterMap h.toEnvelope := by
        unfold envelopePairs
        rw [List.map_filterMap]
        congr 1
        funext r
        rw [Option.map_map]
        exact Option.map_id'
      dsimp only
      unfold disambiguateEnvelopeIds itemEnvelope
      rw [← henvelopes]
      exact List.mem_map_of_mem (List.mem_map_of_mem hp)
    have hid : hasId (Value.textAt (itemEnvelope h items p) "id") (itemEnvelope h items p) = true := by
      unfold hasId
      have htext : Value.get (itemEnvelope h items p) "id" =
          .str (Value.textAt (itemEnvelope h items p) "id") := by
        unfold Value.textAt at hne ⊢
        unfold Value.get
        split at hne
        · next s hs => rw [hs]; rfl
        · exact absurd rfl hne
      rw [htext]
      simp [Value.text?]
    cases hreports with
    | new => exact absurd hkind (by simp)
    | inSync => exact absurd hkind (by simp)
    | changed path payload hmatch hdiff =>
      obtain ⟨la, hla, rfl, rfl⟩ := mem_of_matchLocal hmatch
      obtain ⟨hunder, doc, hdoc⟩ := localDocument_of_mem hla
      refine ⟨la.path, itemEnvelope h items p, doc, rfl, rfl, ⟨h, hh, rfl, hlisted⟩, hid, hunder, hdoc, ?_⟩
      intro lb hlb hpath
      rw [loadedAssets_path_inj hlb hla hpath]
      exact hdiff

variable (libs tree base) in
theorem findEntryFor_eq (handlers : List (DriftHandler X)) (assetId : String) :
    findEntryFor libs handlers tree base assetId =
      (firstListed handlers assetId).map fun listed =>
        foundEntry libs tree base assetId listed.1 listed.2 := by
  unfold findEntryFor firstListed
  rw [List.map_findSome?]
  congr 1
  funext h
  rw [Function.comp_apply, Option.map_map]
  rfl

end

omit [Value.ScalarEq X] [Json.FloatText X] in
theorem findSome?_of_length_le_one {α β : Type} {f : α → List β} {p : β → Bool} {l : List α}
    (h : ((l.flatMap f).filter p).length ≤ 1) {a : α} {b : β} (ha : a ∈ l) (hb : b ∈ f a)
    (hp : p b = true) : l.findSome? (fun a => (f a).find? p) = some b := by
  have hfind : l.findSome? (fun a => (f a).find? p) = ((l.flatMap f).filter p).head? := by
    rw [List.head?_filter, List.find?_flatMap]
  have hmem : b ∈ (l.flatMap f).filter p :=
    List.mem_filter.mpr ⟨List.mem_flatMap.mpr ⟨a, ha, hb⟩, hp⟩
  rw [hfind]
  cases hfilter : (l.flatMap f).filter p with
  | nil => rw [hfilter] at hmem; exact absurd hmem (by simp)
  | cons c rest =>
    rw [hfilter] at hmem h
    obtain rfl : rest = [] := List.length_eq_zero_iff.mp (by simpa using h)
    rw [List.mem_singleton.mp hmem, List.head?_cons]

omit [Value.ScalarEq X] [Json.FloatText X] in
theorem firstListed_of_listedOnce {handlers : List (DriftHandler X)} {assetId : String}
    (h : ListedOnce handlers assetId) {g : DriftHandler X} (hg : g ∈ handlers)
    {envelope : Document X} (hlisted : envelope ∈ listedEnvelopes g)
    (hid : hasId assetId envelope = true) :
    firstListed handlers assetId = some (g.asset, envelope) := by
  have hfirst := findSome?_of_length_le_one h hg (List.mem_map_of_mem (f := (g.asset, ·)) hlisted) hid
  rw [← hfirst]
  unfold firstListed
  congr 1
  funext g'
  rw [List.find?_map]
  rfl

/-- Resolving a changed entry does what writing it does only for the first item listed under its id,
where that id leads to the same file and the file has nothing to be kept; and then it does. -/
theorem resolvesLikeWrite_iff (libs : Libs X) (digits : Digits) (handlers : List (DriftHandler X))
    (tree : FileTree) (base : Path) (hdump : Function.Injective libs.dump)
    (hplain : ∀ h ∈ handlers, ∀ envelope ∈ listedEnvelopes h,
      (Dict.keys envelope).Nodup ∧ NoSidecarName envelope)
    (entry : DriftEntry X) (hentry : entry ∈ detectDrift libs handlers tree base)
    (hkind : entry.kind = .changed) :
    (WritesTheSame libs digits handlers tree base entry →
        ResolvesLikeWrite libs digits handlers tree base entry) ∧
      (ListedOnce handlers entry.assetId →
        ResolvesLikeWrite libs digits handlers tree base entry →
          WritesTheSame libs digits handlers tree base entry) := by
  obtain ⟨path, envelope, doc, hfile⟩ := changedFile_of_mem hentry hkind
  obtain ⟨h, hh, hasset, hlisted⟩ := hfile.listed
  obtain ⟨hnodup, hname⟩ := hplain h hh envelope hlisted
  have hread := read_writeDrift libs digits tree hkind hfile.written
    hfile.localPath hfile.under hname
  constructor
  · rintro ⟨path', envelope', doc', hpath, henvelope, hdoc, hfirst, ⟨payload, hindex⟩, hkeep⟩
    obtain rfl : path = path' := by simpa [hfile.localPath] using hpath
    obtain rfl : envelope = envelope' := by simpa [hfile.written] using henvelope
    obtain rfl : doc = doc' := by simpa [hfile.document] using hdoc
    obtain ⟨la, hla, hlaPath, rfl⟩ := mem_of_get?_localIndex hindex
    have hfound := findEntryFor_eq libs tree base handlers entry.assetId
    rw [hfirst, Option.map_some, foundEntry_of_differs hindex (hfile.differs la hla hlaPath)] at hfound
    obtain ⟨kept, hkept, hversion⟩ := hkeep.version
    have hsplit := splitSidecarFiles_of_notMem hkeep.definition
    have htext : representEntries kept = representEntries envelope :=
      (represent_withLocal_iff hnodup hkept).mpr
        ⟨sameAt_metadata_iff.mpr hkeep.metadata, sameAt_id_iff.mpr hkeep.id, hversion⟩
    have hpreserve : preserveLocal libs digits tree path (splitSidecarFiles envelope).2
        (splitSidecarFiles envelope).1 = some kept := by
      rw [hsplit, preserveLocal_eq hfile.document, hkept, Option.bind_some]
      simp [bumpForChangedSidecars]
    rw [hpreserve, Option.map_some] at hread
    obtain ⟨⟨written, paths⟩, hwritten, hwrittenRead⟩ := Option.map_eq_some_iff.mp hread
    refine ⟨_, _, written, paths, hfound, hfile.localPath.symm, rfl, hwritten, ?_⟩
    intro q hq
    obtain rfl : path = q := by simpa [hfile.localPath] using hq
    rw [hwrittenRead]
    simp [dumpEnvelopeYaml, represent, htext]
  · rintro honce ⟨found, resolved, written, paths, hfound, hpath, hresolved, hwritten, hsame⟩
    have hfirst := firstListed_of_listedOnce honce hh hlisted hfile.hasId
    rw [hasset] at hfirst
    rw [findEntryFor_eq, hfirst, Option.map_some] at hfound
    obtain rfl := Option.some.inj hfound
    rw [hwritten, Option.map_some] at hread
    obtain ⟨kept, hkept, hkeptRead⟩ := Option.map_eq_some_iff.mp hread.symm
    obtain ⟨payload, hindex⟩ := index_of_foundEntry (hpath.trans hfile.localPath)
    refine ⟨path, envelope, doc, hfile.localPath, hfile.written, hfile.document, hfirst,
      ⟨payload, hindex⟩, ?_⟩
    apply nothingToKeep_of_dump_eq hdump hnodup hfile.document hkept
    obtain ⟨la, hla, hlaPath, rfl⟩ := mem_of_get?_localIndex hindex
    rw [foundEntry_of_differs hindex (hfile.differs la hla hlaPath)] at hresolved
    have hresolvedRead : resolved.read path = some (dumpEnvelopeYaml libs envelope) := by
      unfold resolveRemote at hresolved
      obtain rfl := Option.some.inj hresolved
      exact Directory.read_write_self _ _ _
    have hreads := hsame path (by rw [hfile.localPath]; rfl)
    rw [hresolvedRead, ← hkeptRead] at hreads
    exact (Option.some.inj hreads).symm

end
/-! ## A rule of one revision -/

deriving instance DecidableEq for DriftEntry

namespace Sample

/-- `foo.yml` with the severity of the tenant, in the given version. -/
def severeDocument (version : String) : Value Empty :=
  .dict [("id", .str "foo"), ("version", .str version), ("asset", .str "sentinel_analytic"),
    ("status", .str "production"), ("metadata", .dict [("arm_name", .str "AAA")]),
    ("payload", .dict [("displayName", .str "Foo"), ("severity", .str "High"),
      ("kind", .str "Scheduled")])]

def severeText (version : String) : Text :=
  "id: foo\nversion: ".toList ++ version.toList ++
    "\nasset: sentinel_analytic\nstatus: production\nmetadata:\n  arm_name: AAA
payload:\n  displayName: Foo\n  severity: High\n  kind: Scheduled\n".toList

def severeTable : List (Value Empty × Text) :=
  [(fooDocument, fooText), (severeDocument "1.0.0", severeText "1.0.0"),
    (severeDocument "1.0.1", severeText "1.0.1")]

def severeLibs : Libs Empty where
  safeLoad := TextTable.load severeTable
  dump := TextTable.dump severeTable
  laxInt _ := none

/-- ASCII digits, which is all that these versions have. -/
def asciiDigits : Digits where
  isdigit s := s ≠ "" && s.toList.all Char.isDigit
  int s := if s ≠ "" ∧ s.toList.all Char.isDigit then some (s.toList.foldl (fun n c => 10 * n + (c.toNat - 48)) 0)
    else none

/-- The rule of `foo.yml`, whose severity was set in the portal. -/
def severeRules : List (Document Empty) :=
  [[("name", .str "AAA"), ("kind", .str "Scheduled"),
    ("properties", .dict [("displayName", .str "Foo"), ("severity", .str "High")])]]

def severeHandlers : List (DriftHandler Empty) := [SentinelAnalytic.handler severeRules]

def severeEntry : DriftEntry Empty where
  asset := .sentinelAnalytic
  assetId := "foo"
  kind := .changed
  envelope := (severeDocument "1.0.0").dict?
  localPath := some fooPath

end Sample
open Sample

theorem severeEntry_mem : severeEntry ∈ detectDrift severeLibs severeHandlers fooTree base := by
  decide +kernel

/-- The report has one entry, a changed one; writing it makes version 1.0.1 of the file, and
resolving it leaves 1.0.0 there. -/
theorem severeEntry_not_resolvesLikeWrite :
    severeEntry ∈ detectDrift severeLibs severeHandlers fooTree base ∧
      severeEntry.kind = .changed ∧
      ((findEntryFor severeLibs severeHandlers fooTree base "foo").bind
        (resolveRemote severeLibs · fooTree)).map (·.read fooPath) = some (some (severeText "1.0.0")) ∧
      (writeDrift severeLibs asciiDigits [severeEntry] fooTree base).map (·.1.read fooPath) =
        some (some (severeText "1.0.1")) ∧
      ¬ ResolvesLikeWrite severeLibs asciiDigits severeHandlers fooTree base severeEntry := by
  have hresolved : ((findEntryFor severeLibs severeHandlers fooTree base "foo").bind
      (resolveRemote severeLibs · fooTree)).map (·.read fooPath) =
        some (some (severeText "1.0.0")) := by
    decide +kernel
  have hwritten : (writeDrift severeLibs asciiDigits [severeEntry] fooTree base).map
      (·.1.read fooPath) = some (some (severeText "1.0.1")) := by
    decide +kernel
  refine ⟨severeEntry_mem, rfl, hresolved, hwritten, ?_⟩
  rintro ⟨found, resolved, written, paths, hfound, -, hres, hwrite, hsame⟩
  have hfound : findEntryFor severeLibs severeHandlers fooTree base "foo" = some found := hfound
  rw [hfound, Option.bind_some, hres, Option.map_some, Option.some.injEq] at hresolved
  rw [hwrite, Option.map_some, Option.some.injEq] at hwritten
  have hread := hsame fooPath rfl
  rw [hresolved, hwritten] at hread
  exact absurd hread (by decide +kernel)

theorem resolves_severeEntry :
    Function.Injective severeLibs.dump ∧
      (∀ h ∈ severeHandlers, ∀ envelope ∈ listedEnvelopes h,
        (Dict.keys envelope).Nodup ∧ NoSidecarName envelope) ∧
      severeEntry ∈ detectDrift severeLibs severeHandlers fooTree base ∧
      (WritesTheSame severeLibs asciiDigits severeHandlers fooTree base severeEntry →
          ResolvesLikeWrite severeLibs asciiDigits severeHandlers fooTree base severeEntry) ∧
        (ListedOnce severeHandlers "foo" →
          ResolvesLikeWrite severeLibs asciiDigits severeHandlers fooTree base severeEntry →
            WritesTheSame severeLibs asciiDigits severeHandlers fooTree base severeEntry) := by
  have hdump : Function.Injective severeLibs.dump := TextTable.dump_injective (by decide +kernel)
  have hplain : ∀ h ∈ severeHandlers, ∀ envelope ∈ listedEnvelopes h,
      (Dict.keys envelope).Nodup ∧ NoSidecarName envelope := by
    intro h hh
    obtain rfl := List.mem_singleton.mp hh
    unfold NoSidecarName
    decide +kernel
  exact ⟨hdump, hplain, severeEntry_mem, resolvesLikeWrite_iff severeLibs asciiDigits severeHandlers
    fooTree base hdump hplain severeEntry severeEntry_mem rfl⟩

end ContentOps
