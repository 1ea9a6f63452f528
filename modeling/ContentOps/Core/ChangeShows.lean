import ContentOps.Core.RoundTrip
import ContentOps.Core.VersionBump
import ContentOps.Library.PyEq

/-! What the drift detection compares against what the version is raised for: the first looks at the
texts without the blanks at the ends of their lines, the second at what the YAML writer leaves. -/

namespace ContentOps
open PyData

section
variable {X : Type}

theorem represent_dict_of_stable {d : List (String × Value X)} (h : KeysStableEntries d) :
    represent (.dict d) = .dict (Dict.mapVals represent d) := by
  rw [represent, representEntries_of_stable fun p hp => ((keysStableEntries_iff.mp h) p hp).1]

mutual

theorem represent_wf : (v : Value X) → v.WF → KeysStable v → (represent v).WF
  | .dict d, hv, hs => by
    rw [KeysStable] at hs
    obtain ⟨hd, hvals⟩ := Value.wf_dict_iff.mp hv
    rw [represent_dict_of_stable hs, Value.wf_dict_iff, Dict.keys_mapVals]
    refine ⟨hd, fun p hp => ?_⟩
    obtain ⟨q, hq, rfl⟩ := List.mem_map.mp hp
    exact representEntries_wf d q hq (hvals q hq) ((keysStableEntries_iff.mp hs) q hq).2
  | .list vs, hv, hs => by
    rw [represent]
    exact representItems_wf vs hv hs
  | .null, _, _ | .bool _, _, _ | .int _, _, _ | .scalar _, _, _ | .str _, _, _ => by
    rw [represent]
    trivial

theorem representItems_wf : (vs : List (Value X)) → Value.WFList vs → KeysStableItems vs →
    Value.WFList (representItems vs)
  | [], _, _ => trivial
  | v :: vs, hv, hs => ⟨represent_wf v hv.1 hs.1, representItems_wf vs hv.2 hs.2⟩

theorem representEntries_wf : (d : List (String × Value X)) → ∀ p ∈ d, p.2.WF → KeysStable p.2 →
    (represent p.2).WF
  | [], _, hp => absurd hp List.not_mem_nil
  | (_, v) :: d, p, hp => fun hv hs => by
    rcases List.mem_cons.mp hp with rfl | hp
    · exact represent_wf v hv hs
    · exact representEntries_wf d p hp hv hs

end

variable [Value.ScalarEq X]

mutual

/-- Equal values are equal to the comparison of the drift detection. -/
theorem pyEq_normalize : (v w : Value X) → w.WF → Value.pyEq v w = true →
    Value.pyEq (normalize v) (normalize w) = true
  | .dict d, w, hw, h => by
    cases w with
    | dict e =>
      obtain ⟨he, hvals⟩ := Value.wf_dict_iff.mp hw
      obtain ⟨hlength, hentries⟩ := Value.pyEq_dict_iff.mp h
      rw [normalize_dict, normalize_dict, Value.pyEq_dict_iff]
      refine ⟨?_, fun p hp => ?_⟩
      · rw [(Dict.sortByKey_perm _).length_eq, (Dict.sortByKey_perm _).length_eq]
        simpa [Dict.mapVals] using hlength
      · obtain ⟨q, hq, rfl⟩ := List.mem_map.mp ((Dict.sortByKey_perm _).mem_iff.mp hp)
        obtain ⟨w, hget, heq⟩ := hentries q hq
        refine ⟨normalize w, ?_, ?_⟩
        · rw [Dict.get?_sortByKey (by rwa [Dict.keys_mapVals]), Dict.get?_mapVals, hget]
          rfl
        · exact pyEqEntries_normalize d q hq w (hvals _ (Dict.mem_of_get? hget)) heq
    | _ => exact absurd h (by simp [Value.pyEq])
  | .list vs, w, hw, h => by
    cases w with
    | list ws =>
      rw [normalize, normalize, Value.pyEq]
      rw [Value.pyEq] at h
      exact pyEqItems_normalize vs ws hw h
    | _ => exact absurd h (by simp [Value.pyEq])
  | .null, w, _, h | .bool _, w, _, h | .int _, w, _, h | .scalar _, w, _, h | .str _, w, _, h => by
    cases w <;> simp_all [Value.pyEq, normalize]

theorem pyEqItems_normalize : (vs ws : List (Value X)) → Value.WFList ws →
    Value.pyEqItems vs ws = true → Value.pyEqItems (normalizeItems vs) (normalizeItems ws) = true
  | [], ws, _, h => by
    cases ws with
    | nil => exact h
    | cons w ws => exact absurd h (by simp [Value.pyEqItems])
  | v :: vs, ws, hw, h => by
    cases ws with
    | nil => exact absurd h (by simp [Value.pyEqItems])
    | cons w ws =>
      rw [Value.pyEqItems, Bool.and_eq_true] at h
      rw [normalizeItems, normalizeItems, Value.pyEqItems, Bool.and_eq_true]
      exact ⟨pyEq_normalize v w hw.1 h.1, pyEqItems_normalize vs ws hw.2 h.2⟩

theorem pyEqEntries_normalize : (d : List (String × Value X)) → ∀ p ∈ d, ∀ w : Value X, w.WF →
    Value.pyEq p.2 w = true → Value.pyEq (normalize p.2) (normalize w) = true
  | [], _, hp => absurd hp List.not_mem_nil
  | (_, v) :: d, p, hp => fun w hw h => by
    rcases List.mem_cons.mp hp with rfl | hp
    · exact pyEq_normalize v w hw h
    · exact pyEqEntries_normalize d p hp w hw h

end

/-- The YAML writer leaves the keys of the document alone, and its text reads back. -/
structure WriterKeeps (libs : Libs X) (d : Document X) : Prop where
  wf : (Value.dict d).WF
  stable : KeysStableEntries d
  readsBack : libs.safeLoad (dumpEnvelopeYaml libs d) = some (represent (.dict d))

section
variable {libs : Libs X} {doc envelope : Document X}

omit [Value.ScalarEq X] in
theorem WriterKeeps.bodyWithoutVersion_eq {d : Document X} (h : WriterKeeps libs d) :
    bodyWithoutVersion libs d = Dict.erase (Dict.mapVals represent d) "version" := by
  unfold bodyWithoutVersion
  rw [h.readsBack, represent_dict_of_stable h.stable]

omit [Value.ScalarEq X] in
theorem WriterKeeps.get?_body {d : Document X} (h : WriterKeeps libs d) :
    Dict.get? (bodyWithoutVersion libs d) "payload" = (Dict.get? d "payload").map represent := by
  rw [h.bodyWithoutVersion_eq, Dict.get?_erase, if_neg (by decide), Dict.get?_mapVals]

omit [Value.ScalarEq X] in
theorem WriterKeeps.nodup_body {d : Document X} (h : WriterKeeps libs d) :
    (Dict.keys (bodyWithoutVersion libs d)).Nodup := by
  rw [h.bodyWithoutVersion_eq]
  refine (List.filter_sublist.map Prod.fst).nodup ?_
  rw [← Dict.keys, Dict.keys_mapVals]
  exact (Value.wf_dict_iff.mp h.wf).1

theorem pyEq_payload_of_body {written : Document X} (hwritten : WriterKeeps libs written)
    (hdoc : WriterKeeps libs doc)
    (h : Value.pyEq (.dict (bodyWithoutVersion libs written)) (.dict (bodyWithoutVersion libs doc)) =
      true) {payload : Value X} (hpayload : Dict.get? written "payload" = some payload) :
    ∃ localPayload, Dict.get? doc "payload" = some localPayload ∧
      Value.pyEq (represent payload) (represent localPayload) = true := by
  obtain ⟨-, hentries⟩ := Value.pyEq_dict_iff.mp h
  have hget : Dict.get? (bodyWithoutVersion libs written) "payload" = some (represent payload) := by
    rw [hwritten.get?_body, hpayload]
    rfl
  obtain ⟨w, hw, heq⟩ := hentries _ (Dict.mem_of_get? hget)
  rw [hdoc.get?_body] at hw
  obtain ⟨localPayload, hlocal, rfl⟩ := Option.map_eq_some_iff.mp hw
  exact ⟨localPayload, hlocal, heq⟩

/-- Where the written bodies are equal, the comparison of the drift detection sees equal payloads. -/
theorem payloadsMatch_of_body
    (hscalar : ∀ x y : X, Value.ScalarEq.eq x y = true → Value.ScalarEq.eq y x = true)
    {written : Document X} (hwritten : WriterKeeps libs written) (hdoc : WriterKeeps libs doc)
    (h : Value.pyEq (.dict (bodyWithoutVersion libs written)) (.dict (bodyWithoutVersion libs doc)) =
      true) : payloadsMatch (payloadOf doc) (payloadOf written) = true := by
  have hperm := Value.perm_keys_of_pyEq hwritten.nodup_body h
  unfold payloadOf
  cases hpayload : Dict.get? written "payload" with
  | none =>
    have hnone : Dict.get? (bodyWithoutVersion libs doc) "payload" = none := by
      rw [Dict.get?_eq_none_iff, ← hperm.mem_iff, ← Dict.get?_eq_none_iff, hwritten.get?_body,
        hpayload]
      rfl
    rw [hdoc.get?_body, Option.map_eq_none_iff] at hnone
    rw [hnone]
    simp [payloadsMatch, normalize_dict, Dict.mapVals, Dict.sortByKey, Value.pyEq_dict_iff]
  | some payload =>
    obtain ⟨localPayload, hlocal, heq⟩ := pyEq_payload_of_body hwritten hdoc h hpayload
    obtain ⟨-, hwvals⟩ := Value.wf_dict_iff.mp hwritten.wf
    obtain ⟨-, hdvals⟩ := Value.wf_dict_iff.mp hdoc.wf
    have hpmem := Dict.mem_of_get? hpayload
    have hlmem := Dict.mem_of_get? hlocal
    have hpstable := ((keysStableEntries_iff.mp hwritten.stable) _ hpmem).2
    have hlstable := ((keysStableEntries_iff.mp hdoc.stable) _ hlmem).2
    have hnormal := pyEq_normalize _ _ (represent_wf _ (hdvals _ hlmem) hlstable) heq
    rw [normalize_represent _ hpstable, normalize_represent _ hlstable] at hnormal
    rw [hlocal]
    exact Value.pyEq_symm hscalar _ _ (normalize_wf _ (hwvals _ hpmem))
      (normalize_wf _ (hdvals _ hlmem)) hnormal

theorem payloadOf_keptIdentity (v : Value X) :
    payloadOf (Dict.set (keptIdentity doc envelope) "version" v) = payloadOf envelope := by
  unfold payloadOf
  rw [Dict.get?_set, if_neg (by decide), keptIdentity,
    (setsOnly_preserveLocalId _ _).others "payload" (by simp),
    (setsOnly_preserveLocalMetadata _ _).others "payload" (by simp)]

variable [Json.FloatText X] {tree : FileTree} {base : Path} {asset : Asset}

/-- What is reported as changed is a local file whose payload is another one to the comparison. -/
theorem changed_of_mem_detectDrift {handlers : List (DriftHandler X)} {entry : DriftEntry X}
    (h : entry ∈ detectDrift libs handlers tree base) (hkind : entry.kind = .changed) :
    ∃ envelope, ∃ la ∈ loadedAssets libs tree base, entry.envelope = some envelope ∧
      entry.localPath = some la.path ∧ payloadsMatch la.payload (payloadOf envelope) = false := by
  obtain ⟨handler, -, h⟩ := List.mem_flatMap.mp h
  unfold handlerEntries at h
  split at h
  · obtain rfl := List.mem_singleton.mp h
    exact absurd hkind nofun
  · obtain ⟨⟨pair, id⟩, -, hentry⟩ := List.mem_filterMap.mp h
    dsimp only at hentry
    unfold driftEntry at hentry
    dsimp only at hentry
    split_ifs at hentry
    split at hentry
    · obtain rfl := Option.some.inj hentry
      exact absurd hkind nofun
    · next path payload hmatch =>
      obtain ⟨la, hla, rfl, rfl⟩ := mem_of_matchLocal hmatch
      split_ifs at hentry with hsame
      · obtain rfl := Option.some.inj hentry
        exact absurd hkind nofun
      · obtain rfl := Option.some.inj hentry
        exact ⟨_, la, hla, rfl, rfl, Bool.eq_false_of_not_eq_true hsame⟩

/-- The payload that is loaded from a local file. -/
theorem payload_of_mem {la : LoadedAsset X} (hla : la ∈ loadedAssets libs tree base)
    (hload : localDocument libs tree la.path = some doc) :
    (if la.envelope.asset = .sentinelPlaybook then
      inlinePlaybookSidecar tree la.path (payloadOf doc) else some (payloadOf doc)) =
        some la.payload := by
  obtain ⟨-, content, hread, hloaded⟩ := mem_loadedAssets.mp hla
  unfold loadAsset at hloaded
  obtain ⟨raw, hraw, hloaded⟩ := Option.bind_eq_some_iff.mp hloaded
  obtain ⟨⟨parsed, payload⟩, hparsed, hloaded⟩ := Option.bind_eq_some_iff.mp hloaded
  obtain ⟨payload', hpayload', hloaded⟩ := Option.bind_eq_some_iff.mp hloaded
  have henvelope : parsed = la.envelope := congrArg LoadedAsset.envelope (Option.some.inj hloaded)
  have hpayload : payload' = la.payload := congrArg LoadedAsset.payload (Option.some.inj hloaded)
  obtain ⟨d, rfl, -, hd⟩ := parseEnvelope_eq_some hparsed
  have hdoc : d = doc := by
    unfold localDocument at hload
    rw [hread, Option.bind_some, hraw] at hload
    exact Option.some.inj hload
  have hparsedPayload : payload = payloadOf doc := hdoc ▸ hd
  rw [← henvelope, ← hpayload, ← hparsedPayload]
  exact hpayload'

/-- What is reported as changed shows in what is written, for every kind without sidecars. -/
theorem changeShows_of_changed
    (hscalar : ∀ x y : X, Value.ScalarEq.eq x y = true → Value.ScalarEq.eq y x = true)
    {la : LoadedAsset X} (hla : la ∈ loadedAssets libs tree base)
    (hkind : la.envelope.asset ≠ .sentinelPlaybook)
    (hasset : Value.textAt envelope "asset" ≠ Asset.sentinelPlaybook.value)
    (hload : localDocument libs tree la.path = some doc)
    (hwritten : WriterKeeps libs
      (Dict.set (keptIdentity doc envelope) "version" (Value.get doc "version")))
    (hdoc : WriterKeeps libs doc)
    (hchanged : payloadsMatch la.payload (payloadOf envelope) = false) :
    ChangeShows libs tree envelope la.path doc := by
  have hpayload := payload_of_mem hla hload
  rw [if_neg hkind, Option.some.injEq] at hpayload
  unfold ChangeShows splitSidecarFiles
  rw [if_neg hasset]
  left
  unfold BodyDiffers
  by_contra hsame
  have hmatch := payloadsMatch_of_body hscalar hwritten hdoc (by simpa using hsame)
  rw [payloadOf_keptIdentity, hpayload, hchanged] at hmatch
  exact absurd hmatch (by decide)

/-! ## Playbooks -/

omit [Json.FloatText X] in
/-- Replacing the same key in equal dictionaries. -/
theorem pyEq_set_erase {a b : Document X} (key : String) {key' : String} {v : Value X}
    (ha : (Dict.keys a).Nodup) (hnot : key' ∉ Dict.keys a) (hv : Value.pyEq v v = true)
    (h : Value.pyEq (.dict a) (.dict b) = true) :
    Value.pyEq (.dict (Dict.set (Dict.erase a key) key' v))
      (.dict (Dict.set (Dict.erase b key) key' v)) = true := by
  have hperm := Value.perm_keys_of_pyEq ha h
  obtain ⟨-, hentries⟩ := Value.pyEq_dict_iff.mp h
  have hkeys : ∀ d : Document X, Dict.keys (Dict.erase d key) = (Dict.keys d).filter (· ≠ key) := by
    intro d
    unfold Dict.keys Dict.erase
    rw [List.filter_map]
    rfl
  have hlength : ∀ d : Document X, key' ∉ Dict.keys d →
      (Dict.set (Dict.erase d key) key' v).length = ((Dict.keys d).filter (· ≠ key)).length + 1 := by
    intro d hd
    have hmem : key' ∉ Dict.keys (Dict.erase d key) := by
      rw [hkeys]
      exact fun hmem => hd (List.mem_filter.mp hmem).1
    rw [Dict.set_of_notMem hmem, List.length_append, ← hkeys]
    simp [Dict.keys]
  refine Value.pyEq_dict_iff.mpr ⟨?_, fun p hp => ?_⟩
  · rw [hlength a hnot, hlength b (fun hb => hnot (hperm.mem_iff.mpr hb)),
      (hperm.filter (· ≠ key)).length_eq]
  · have hmem : key' ∉ Dict.keys (Dict.erase a key) := by
      rw [hkeys]
      exact fun hmem => hnot (List.mem_filter.mp hmem).1
    rw [Dict.set_of_notMem hmem] at hp
    rcases List.mem_append.mp hp with hp | hp
    · obtain ⟨hin, hne⟩ := List.mem_filter.mp hp
      have hne' : key ≠ p.1 := fun heq => absurd heq.symm (by simpa using hne)
      obtain ⟨w, hw, heq⟩ := hentries p hin
      refine ⟨w, ?_, heq⟩
      have hother : key' ≠ p.1 := fun heq => hnot (heq ▸ List.mem_map_of_mem hin)
      rw [Dict.get?_set, if_neg hother, Dict.get?_erase, if_neg hne', hw]
    · obtain rfl := List.mem_singleton.mp hp
      exact ⟨v, Dict.get?_set_self _ _ _, hv⟩

/-- What is inlined for a payload that names its sidecar. -/
theorem inlinePlaybookSidecar_eq_some {path : Path} {d : Document X} {name : String} {v : Value X}
    (hget : Dict.get? d "definitionFile" = some (.str name)) (hne : name ≠ "")
    (h : inlinePlaybookSidecar tree path (.dict d) = some v) :
    "definition" ∉ Dict.keys d ∧ ∃ definition,
      (tree.read (path.sibling name)).bind Json.loads = some (.dict definition) ∧
      v = .dict (Dict.set (Dict.erase d "definitionFile") "definition" (.dict definition)) := by
  have hsidecar : Value.get d "definitionFile" = .str name := by
    unfold Value.get
    rw [hget]
    rfl
  have htruthy : (Value.str name : Value X).truthy = true := by
    simpa [Value.truthy] using hne
  unfold inlinePlaybookSidecar at h
  dsimp only [Value.dict?] at h
  rw [hsidecar, htruthy] at h
  simp only [Bool.not_true, Bool.false_eq_true, if_false, Value.text?, Option.bind_eq_bind,
    Option.bind_some] at h
  split_ifs at h with hcontains hvalid
  obtain ⟨loaded, hloaded, h⟩ := Option.bind_eq_some_iff.mp h
  obtain ⟨parsed, hparsed, h⟩ := Option.bind_eq_some_iff.mp h
  obtain ⟨definition, hdefinition, h⟩ := Option.bind_eq_some_iff.mp h
  refine ⟨?_, definition, ?_, (Option.some.inj h).symm⟩
  · rw [← Dict.get?_eq_none_iff]
    simpa [Dict.contains] using hcontains
  · rw [hloaded, Option.bind_some, hparsed]
    cases parsed with
    | dict e =>
      obtain rfl := Option.some.inj hdefinition
      rfl
    | _ => exact absurd hdefinition (by simp)

/-- What is inlined for a local file whose text on disk is equal to what is written. -/
theorem payloadsMatch_of_inlined
    (hrefl : ∀ x : X, Value.ScalarEq.eq x x = true)
    (hscalar : ∀ x y : X, Value.ScalarEq.eq x y = true → Value.ScalarEq.eq y x = true)
    {path : Path} {id : String} {p d definition : Document X} {localPayload : Value X}
    (hid : isEnvelopeId id = true) (hp : (Value.dict p).WF) (hstable : KeysStableEntries p)
    (hfile : "definitionFile" ∉ Dict.keys p)
    (hdef : Dict.get? p "definition" = some (.dict definition))
    (hread : tree.read (path.sibling (sidecarName id)) =
      some (Json.dumps (Json.indent2 false) (Value.sortKeys (.dict definition)) ++ ['\n']))
    (hd : (Value.dict d).WF) (hdstable : KeysStableEntries d)
    (hname : ∀ name, Dict.get? d "definitionFile" = some (.str name) → representString name = name)
    (hinline : inlinePlaybookSidecar tree path (.dict d) = some localPayload)
    (h : Value.pyEq (represent (.dict (Dict.set (Dict.erase p "definition") "definitionFile"
      (.str (sidecarName id))))) (represent (.dict d)) = true) :
    payloadsMatch localPayload (.dict p) = true := by
  obtain ⟨hpnodup, hpvals⟩ := Value.wf_dict_iff.mp hp
  let written := Dict.set (Dict.erase p "definition") "definitionFile" (.str (sidecarName id))
  obtain ⟨back, hback, hnormal⟩ :=
    inlinePlaybookSidecar_written hid hp hstable hfile hdef hread
  -- The document on disk, with the texts as they are written.
  have hwritten : KeysStableEntries written := by
    rw [keysStableEntries_iff]
    intro q hq
    have hnot : "definitionFile" ∉ Dict.keys (Dict.erase p "definition") := fun hmem =>
      hfile ((List.filter_sublist.map Prod.fst).subset hmem)
    have hentry : q ∈ Dict.erase p "definition" ++ [("definitionFile", .str (sidecarName id))] := by
      rw [← Dict.set_of_notMem hnot]
      exact hq
    rcases List.mem_append.mp hentry with hq | hq
    · exact (keysStableEntries_iff.mp hstable) q (List.mem_filter.mp hq).1
    · obtain rfl := List.mem_singleton.mp hq
      exact ⟨(by decide +kernel : representString "definitionFile" = "definitionFile"), trivial⟩
  have hne : sidecarName id ≠ "" := by
    intro hempty
    have hvalid := isSidecarName_sidecarName hid
    rw [hempty] at hvalid
    exact absurd hvalid (by decide)
  rw [represent_dict_of_stable hwritten] at hback h
  rw [represent_dict_of_stable hdstable] at h
  have hsidecar : Dict.get? (Dict.mapVals represent written) "definitionFile" =
      some (Value.str (sidecarName id)) := by
    rw [Dict.get?_mapVals, Dict.get?_set_self]
    simp [represent, representString_sidecarName hid]
  -- The local file names the same sidecar.
  have hlocal : Dict.get? d "definitionFile" = some (.str (sidecarName id)) := by
    obtain ⟨-, hentries⟩ := Value.pyEq_dict_iff.mp h
    obtain ⟨w, hw, heq⟩ := hentries _ (Dict.mem_of_get? hsidecar)
    rw [Dict.get?_mapVals] at hw
    obtain ⟨v, hv, rfl⟩ := Option.map_eq_some_iff.mp hw
    cases v with
    | str s =>
      rw [represent, hname s hv] at heq
      rw [hv, of_decide_eq_true ((Value.pyEq_str_str _ _).symm.trans heq)]
    | _ => exact absurd heq (by simp [represent, Value.pyEq])
  obtain ⟨hnotWritten, definition', hloaded, hbackEq⟩ :=
    inlinePlaybookSidecar_eq_some hsidecar hne hback
  obtain ⟨hnotLocal, definition'', hloaded', hlocalEq⟩ :=
    inlinePlaybookSidecar_eq_some hlocal hne hinline
  have hsame : definition'' = definition' :=
    Value.dict.inj (Option.some.inj (hloaded'.symm.trans hloaded))
  rw [hsame] at hlocalEq
  have hdefinition : (Value.dict definition').WF := by
    have hsorted : Json.loads (Json.dumps (Json.indent2 false) (Value.sortKeys (.dict definition)) ++
        ['\n']) = some (Value.sortKeys (.dict definition)) := by
      apply Json.loads_dumps_append (Json.indent2_blank false) _ (by simp)
      exact (hpvals _ (Dict.mem_of_get? hdef)).sortKeys
    rw [hread, Option.bind_some, hsorted] at hloaded
    rw [← Option.some.inj hloaded]
    exact (hpvals _ (Dict.mem_of_get? hdef)).sortKeys
  have hdrep : (Value.dict (Dict.mapVals represent d)).WF := by
    rw [← represent_dict_of_stable hdstable]
    exact represent_wf _ hd hdstable
  have hnodup : (Dict.keys (Dict.mapVals represent written)).Nodup := by
    rw [Dict.keys_mapVals]
    exact Dict.nodup_keys_set ((List.filter_sublist.map Prod.fst).nodup hpnodup) _ _
  have hequal := pyEq_set_erase "definitionFile" hnodup hnotWritten
    (pyEq_self hrefl _ hdefinition) h
  have hnormalized := pyEq_normalize _ _ ((hdrep.erase _).set _ hdefinition) hequal
  have hlocalNormal : normalize (.dict (Dict.set (Dict.erase (Dict.mapVals represent d)
      "definitionFile") "definition" (.dict definition'))) = normalize localPayload := by
    have herase : Dict.erase (Dict.mapVals represent d) "definitionFile" =
        Dict.mapVals represent (Dict.erase d "definitionFile") := by
      unfold Dict.erase Dict.mapVals
      rw [List.filter_map]
      rfl
    have hrest : KeysStableEntries (Dict.erase d "definitionFile") := by
      rw [keysStableEntries_iff] at hdstable ⊢
      exact fun q hq => hdstable q (List.mem_filter.mp hq).1
    have hnotRest : "definition" ∉ Dict.keys (Dict.erase d "definitionFile") := fun hmem =>
      hnotLocal ((List.filter_sublist.map Prod.fst).subset hmem)
    have hmap := mapVals_normalize_represent hrest
    rw [hlocalEq, herase, Dict.set_of_notMem hnotRest, Dict.set_of_notMem (by
      rw [Dict.keys_mapVals]
      exact hnotRest), normalize_dict, normalize_dict]
    unfold Dict.mapVals at hmap ⊢
    rw [List.map_append, List.map_append]
    exact congrArg (fun entries => Value.dict (Dict.sortByKey (entries ++ _))) hmap
  rw [hbackEq] at hnormal
  rw [hnormal, hlocalNormal] at hnormalized
  refine Value.pyEq_symm hscalar _ _ (normalize_wf _ hp) (normalize_wf _ ?_) hnormalized
  rw [hlocalEq]
  exact (hd.erase _).set _ hdefinition

/-- What is reported as changed of a playbook shows in its envelope or in its sidecar. -/
theorem changeShows_of_changed_playbook
    (hrefl : ∀ x : X, Value.ScalarEq.eq x x = true)
    (hscalar : ∀ x y : X, Value.ScalarEq.eq x y = true → Value.ScalarEq.eq y x = true)
    {la : LoadedAsset X} (hla : la ∈ loadedAssets libs tree base)
    (hkind : la.envelope.asset = .sentinelPlaybook)
    (hasset : Value.textAt envelope "asset" = Asset.sentinelPlaybook.value)
    (hid : isEnvelopeId (Value.textAt envelope "id") = true)
    {p definition : Document X} (hp : payloadOf envelope = .dict p) (hwf : (Value.dict p).WF)
    (hstable : KeysStableEntries p) (hfile : "definitionFile" ∉ Dict.keys p)
    (hdef : Dict.get? p "definition" = some (.dict definition))
    (hload : localDocument libs tree la.path = some doc)
    (hname : ∀ d name, payloadOf doc = .dict d →
      Dict.get? d "definitionFile" = some (.str name) → representString name = name)
    (hwritten : WriterKeeps libs (Dict.set (keptIdentity doc (splitSidecars envelope).1) "version"
      (Value.get doc "version")))
    (hdoc : WriterKeeps libs doc)
    (hchanged : payloadsMatch la.payload (payloadOf envelope) = false) :
    ChangeShows libs tree envelope la.path doc := by
  have hinline := payload_of_mem hla hload
  rw [if_pos hkind] at hinline
  unfold ChangeShows splitSidecarFiles
  rw [if_pos hasset]
  by_contra hhidden
  obtain ⟨hbody, hsidecars⟩ := not_or.mp hhidden
  have hsplit := splitSidecars_eq hp hfile hdef
  have hread : tree.read (la.path.sibling (sidecarName (Value.textAt envelope "id"))) =
      some (Json.dumps (Json.indent2 false) (Value.sortKeys (.dict definition)) ++ ['\n']) := by
    rw [hsplit] at hsidecars
    simpa [sidecarChanged] using hsidecars
  have hpayload : Dict.get? (Dict.set (keptIdentity doc (splitSidecars envelope).1) "version"
      (Value.get doc "version")) "payload" =
        some (.dict (Dict.set (Dict.erase p "definition") "definitionFile"
          (.str (sidecarName (Value.textAt envelope "id"))))) := by
    rw [Dict.get?_set, if_neg (by decide), keptIdentity,
      (setsOnly_preserveLocalId _ _).others "payload" (by simp),
      (setsOnly_preserveLocalMetadata _ _).others "payload" (by simp), hsplit, Dict.get?_set_self]
  unfold BodyDiffers at hbody
  obtain ⟨localPayload, hlocal, heq⟩ :=
    pyEq_payload_of_body hwritten hdoc (by simpa using hbody) hpayload
  have hof : payloadOf doc = localPayload := by
    unfold payloadOf
    rw [hlocal]
    rfl
  cases localPayload with
  | dict d =>
    obtain ⟨-, hdvals⟩ := Value.wf_dict_iff.mp hdoc.wf
    have hmem := Dict.mem_of_get? hlocal
    have hmatch := payloadsMatch_of_inlined hrefl hscalar hid hwf hstable hfile hdef hread
      (hdvals _ hmem) ((keysStableEntries_iff.mp hdoc.stable) _ hmem).2
      (fun name => hname d name hof) (hof ▸ hinline) heq
    rw [hp, hmatch] at hchanged
    exact absurd hchanged (by decide)
  | _ => exact absurd heq (by simp [represent, Value.pyEq])

end
end
end ContentOps
