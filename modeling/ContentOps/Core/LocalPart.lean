import ContentOps.Core.DriftEntries
import ContentOps.Core.WriteDrift

/-! What writing an entry keeps of its local file: which keys of the envelope it sets, where the
definition of a playbook goes, and which file an entry is about. -/

namespace ContentOps
open PyData

section
variable {X : Type}

/-! ## Setting some keys -/

/-- A document in which only some keys have been set. -/
structure SetsOnly (keys : List String) (d e : Document X) : Prop where
  keys_start : Dict.keys d <+: Dict.keys e
  others : ∀ key, key ∉ keys → Dict.get? e key = Dict.get? d key
  nodup : (Dict.keys d).Nodup → (Dict.keys e).Nodup

theorem SetsOnly.refl (keys : List String) (d : Document X) : SetsOnly keys d d :=
  ⟨List.prefix_refl _, fun _ _ => rfl, id⟩

theorem SetsOnly.set {keys : List String} {d e : Document X} (h : SetsOnly keys d e) {key : String}
    (hkey : key ∈ keys) (v : Value X) : SetsOnly keys d (Dict.set e key v) where
  keys_start := by
    refine h.keys_start.trans ?_
    rw [Dict.keys_set]
    split_ifs
    · exact List.prefix_refl _
    · exact List.prefix_append _ _
  others key' hkey' := by
    have hne : key ≠ key' := by
      rintro rfl
      exact hkey' hkey
    rw [Dict.get?_set, if_neg hne, h.others key' hkey']
  nodup hd := Dict.nodup_keys_set (h.nodup hd) key v

theorem SetsOnly.trans {keys : List String} {d e f : Document X} (h : SetsOnly keys d e)
    (h' : SetsOnly keys e f) : SetsOnly keys d f :=
  ⟨h.keys_start.trans h'.keys_start, fun key hkey => (h'.others key hkey).trans (h.others key hkey),
    fun hd => h'.nodup (h.nodup hd)⟩

theorem setsOnly_preserveLocalMetadata (doc envelope : Document X) :
    SetsOnly ["metadata"] envelope (preserveLocalMetadata doc envelope) := by
  unfold preserveLocalMetadata
  split
  · exact .refl _ _
  · exact .refl _ _
  · split
    · exact (SetsOnly.refl _ _).set (by simp) _
    · exact (SetsOnly.refl _ _).set (by simp) _

theorem SetsOnly.mono {keys keys' : List String} {d e : Document X} (h : SetsOnly keys d e)
    (hsub : keys ⊆ keys') : SetsOnly keys' d e :=
  ⟨h.keys_start, fun key hkey => h.others key (fun hmem => hkey (hsub hmem)), h.nodup⟩

variable [Value.ScalarEq X]

theorem setsOnly_preserveLocalId (doc envelope : Document X) :
    SetsOnly ["id"] envelope (preserveLocalId doc envelope) := by
  unfold preserveLocalId
  dsimp only
  split_ifs
  · exact (SetsOnly.refl _ _).set (by simp) _
  · exact .refl _ _

theorem setsOnly_preserveLocalVersion {libs : Libs X} {digits : Digits} {doc envelope kept : Document X}
    (h : preserveLocalVersion libs digits doc envelope = some kept) :
    SetsOnly ["version"] envelope kept := by
  unfold preserveLocalVersion at h
  dsimp only at h
  split_ifs at h
  · obtain rfl := Option.some.inj h
    exact (SetsOnly.refl _ _).set (by simp) _
  · obtain ⟨bumped, -, rfl⟩ := Option.map_eq_some_iff.mp h
    exact ((SetsOnly.refl _ _).set (by simp) _).set (by simp) _
  · obtain rfl := Option.some.inj h
    exact .refl _ _

/-- The id that is kept does not depend on the metadata. -/
theorem preserveLocalId_congr {doc d e : Document X} (h : Dict.get? d "id" = Dict.get? e "id") :
    Dict.get? (preserveLocalId doc d) "id" = Dict.get? (preserveLocalId doc e) "id" := by
  unfold preserveLocalId
  dsimp only
  split_ifs
  · rw [Dict.get?_set_self, Dict.get?_set_self]
  · exact h

/-- An envelope with what is kept of the local file; `none` is an exception. -/
def withLocal (libs : Libs X) (digits : Digits) (doc envelope : Document X) :
    Option (Document X) :=
  preserveLocalVersion libs digits doc (preserveLocalId doc (preserveLocalMetadata doc envelope))

theorem setsOnly_withLocal {libs : Libs X} {digits : Digits} {doc envelope kept : Document X}
    (h : withLocal libs digits doc envelope = some kept) :
    SetsOnly ["metadata", "id", "version"] envelope kept := by
  have hmeta := setsOnly_preserveLocalMetadata doc envelope
  have hid := setsOnly_preserveLocalId doc (preserveLocalMetadata doc envelope)
  have hversion := setsOnly_preserveLocalVersion h
  exact ((hmeta.mono (by simp)).trans (hid.mono (by simp))).trans (hversion.mono (by simp))

theorem setsOnly_bumpForChangedSidecars {digits : Digits} {tree : FileTree} {path : Path}
    {doc envelope kept : Document X} {sidecars : Sidecars}
    (h : bumpForChangedSidecars digits tree path doc sidecars envelope = some kept) :
    SetsOnly ["version"] envelope kept := by
  unfold bumpForChangedSidecars at h
  dsimp only at h
  split_ifs at h
  · obtain rfl := Option.some.inj h
    exact .refl _ _
  · obtain ⟨bumped, -, rfl⟩ := Option.map_eq_some_iff.mp h
    exact (SetsOnly.refl _ _).set (by simp) _
  · obtain rfl := Option.some.inj h
    exact .refl _ _

section
variable {libs : Libs X} {digits : Digits} {tree : FileTree} {path : Path} {doc envelope : Document X}

theorem preserveLocal_eq (hdoc : localDocument libs tree path = some doc) (sidecars : Sidecars) :
    preserveLocal libs digits tree path sidecars envelope =
      (withLocal libs digits doc envelope).bind
        (bumpForChangedSidecars digits tree path doc sidecars) := by
  unfold preserveLocal
  rw [hdoc]
  rfl

end

/-! ## Sidecars -/

omit [Value.ScalarEq X] in
/-- The payload of a playbook does not name the file of its definition: no item of the tenant knows
of that file. -/
def NoSidecarName (envelope : Document X) : Prop :=
  Value.textAt envelope "asset" = Asset.sentinelPlaybook.value →
    Value.textAt (((Value.get envelope "payload").dict?).getD []) "definitionFile" = ""

variable [Json.FloatText X]

omit [Value.ScalarEq X] in
theorem setsOnly_splitSidecars (envelope : Document X) :
    SetsOnly ["payload"] envelope (splitSidecars envelope).1 := by
  unfold splitSidecars
  dsimp only
  split
  · exact (SetsOnly.refl _ _).set (by simp) _
  · exact (SetsOnly.refl _ _).set (by simp) _

omit [Value.ScalarEq X] in
/-- The sidecar of an envelope is named after its id. -/
theorem name_of_mem_splitSidecarFiles {envelope : Document X} (h : NoSidecarName envelope)
    {sidecar : String × Text} (hmem : sidecar ∈ (splitSidecarFiles envelope).2) :
    sidecar.1 = sidecarName (Value.textAt envelope "id") := by
  unfold splitSidecarFiles at hmem
  split_ifs at hmem with hasset
  · have hrest : Value.textAt (Dict.erase (((Value.get envelope "payload").dict?).getD [])
        "definition") "definitionFile" = "" := by
      have hpayload := h hasset
      unfold Value.textAt at hpayload ⊢
      rw [Dict.get?_erase, if_neg (by decide)]
      exact hpayload
    unfold splitSidecars at hmem
    dsimp only at hmem
    split at hmem
    · obtain rfl := List.mem_singleton.mp hmem
      rw [hrest]
      rfl
    · exact absurd hmem (by simp)
  · exact absurd hmem (by simp)

omit [Value.ScalarEq X] [Json.FloatText X] in
/-- A sidecar is no envelope. -/
theorem sidecarName_ne {base path target : Path} {id : String} (h : isUnder base ".yml" path = true) :
    target.sibling (sidecarName id) ≠ path := by
  intro hpath
  unfold isUnder at h
  simp only [Bool.and_eq_true, Option.any_eq_true] at h
  obtain ⟨-, last, hlast, hyml⟩ := h
  have hname : last = sidecarName id := by
    rw [← hpath, Path.sibling, List.getLast?_append] at hlast
    simpa using hlast.symm
  unfold hasSuffix at hyml
  rw [hname, decide_eq_true_eq] at hyml
  have hjson : ".json".toList <:+ (sidecarName id).toList :=
    ⟨id.toList ++ ".workflow".toList, by simp [sidecarName]⟩
  have hshort : ".yml".toList <:+ ".json".toList :=
    List.suffix_of_suffix_length_le hyml hjson (by decide)
  exact absurd hshort (by decide)

/-! ## The file of an entry -/

section
variable {libs : Libs X} {tree : FileTree} {base path : Path}

theorem localDocument_of_mem {la : LoadedAsset X} (h : la ∈ loadedAssets libs tree base) :
    isUnder base ".yml" la.path = true ∧ ∃ doc, localDocument libs tree la.path = some doc := by
  obtain ⟨hdiscover, content, hread, hload⟩ := mem_loadedAssets.mp h
  obtain ⟨-, raw, payload, hraw, hparse⟩ := loadAsset_eq_some hload
  obtain ⟨doc, rfl, -, -⟩ := parseEnvelope_eq_some hparse
  constructor
  · obtain ⟨p, hp, hpath⟩ := List.mem_map.mp hdiscover
    have hmatch := (Directory.mem_glob.mp hp).2
    rw [hpath, Bool.and_eq_true] at hmatch
    exact hmatch.1
  · refine ⟨doc, ?_⟩
    unfold localDocument
    rw [hread, Option.bind_some, hraw]
    rfl

theorem mem_of_get?_localIndex {asset : Asset} {key : String} {payload : Value X}
    (h : (localIndex libs tree base asset).get? key = some (path, payload)) :
    ∃ la ∈ loadedAssets libs tree base, la.path = path ∧ la.payload = payload := by
  unfold localIndex at h
  rw [get?_foldl_register] at h
  obtain ⟨la, hlast, heq⟩ := Option.map_eq_some_iff.mp h
  obtain ⟨rfl, rfl⟩ := Prod.mk.inj heq
  exact ⟨la, (List.mem_filter.mp (KeyIndex.mem_of_last hlast)).1, rfl, rfl⟩

theorem mem_of_matchLocal {asset : Asset} {remote : Document X} {assetId : String}
    {payload : Value X}
    (h : matchLocal (localIndex libs tree base asset) remote assetId = some (path, payload)) :
    ∃ la ∈ loadedAssets libs tree base, la.path = path ∧ la.payload = payload := by
  unfold matchLocal at h
  dsimp only at h
  rw [Option.orElse_eq_or, Option.or_eq_some_iff] at h
  rcases h with h | ⟨-, h⟩
  · split_ifs at h
    exact mem_of_get?_localIndex h
  · exact mem_of_get?_localIndex h

end

end
end ContentOps
