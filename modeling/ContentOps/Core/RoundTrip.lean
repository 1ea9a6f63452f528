import ContentOps.Core.WriteDrift
import ContentOps.Library.JsonRoundTrip
import ContentOps.Library.Tagged

/-! What a payload is after it was written to a file and read back. The writer and the comparison
clean a text in the same way, so the comparison sees no difference, unless a key of a mapping is
cleaned as well. -/

namespace ContentOps
open PyData

/-! ## Cleaning twice -/

theorem mem_unifyNewlines {t : Text} {c : Char} (h : c ∈ unifyNewlines t) : c ≠ '\r' := by
  fun_induction unifyNewlines t with
  | case1 cs ih =>
    rcases List.mem_cons.mp h with rfl | h
    · decide
    · exact ih h
  | case2 cs _ ih =>
    rcases List.mem_cons.mp h with rfl | h
    · decide
    · exact ih h
  | case3 c' cs hne hcr ih =>
    rcases List.mem_cons.mp h with rfl | h
    · rintro rfl
      exact hcr rfl
    · exact ih h
  | case4 => exact absurd h (by simp)

theorem rstrip_rstrip (t : Text) : Text.rstrip (Text.rstrip t) = Text.rstrip t := by
  unfold Text.rstrip
  exact List.rdropWhile_idempotent _ _

/-- No line of the text ends in white space. -/
def StableLines (t : Text) : Prop := ∀ l ∈ t.splitOn '\n', Text.rstrip l = l

theorem StableLines.rdropWhile {t : Text} (h : StableLines t) :
    StableLines (t.rdropWhile (· = '\n')) := by
  induction t using List.reverseRecOn with
  | nil => exact h
  | append_singleton t c ih =>
    by_cases hc : c = '\n'
    · rw [List.rdropWhile_concat_pos _ _ _ (by simpa using hc)]
      apply ih
      intro l hl
      apply h
      rw [hc, List.splitOn_append_cons_self]
      exact List.mem_append_left _ hl
    · rwa [List.rdropWhile_concat_neg _ _ _ (by simpa using hc)]

theorem rstrip_subset {t : Text} : Text.rstrip t ⊆ t := (List.rdropWhile_prefix _ t).subset

theorem stableLines_cleanText (t : Text) : StableLines (cleanText t) := by
  unfold cleanText
  apply StableLines.rdropWhile
  intro l hl
  rw [List.splitOn_intercalate] at hl
  · obtain ⟨l', -, rfl⟩ := List.mem_map.mp hl
    exact rstrip_rstrip l'
  · intro l hl hmem
    obtain ⟨l', hl', rfl⟩ := List.mem_map.mp hl
    exact notMem_of_mem_splitOn hl' (rstrip_subset hmem)
  · simp

theorem mem_intercalate {ls : List Text} {sep c : Char} :
    (c ∈ [sep].intercalate ls → c = sep ∨ ∃ l ∈ ls, c ∈ l) ∧
      ((∃ l ∈ ls, c ∈ l) → c ∈ [sep].intercalate ls) := by
  induction ls with
  | nil => simp
  | cons l ls ih =>
    cases ls with
    | nil => simpa using Or.inr
    | cons m ls =>
      rw [List.intercalate_cons_cons]
      simp only [List.mem_append, List.mem_singleton]
      constructor
      · rintro ((h | h) | h)
        · exact .inr ⟨l, List.mem_cons_self, h⟩
        · exact .inl h
        · rcases ih.1 h with h | ⟨l', hl', h⟩
          · exact .inl h
          · exact .inr ⟨l', List.mem_cons_of_mem _ hl', h⟩
      · rintro ⟨l', hl', h⟩
        rcases List.mem_cons.mp hl' with rfl | hl'
        · exact .inl (.inl h)
        · exact .inr (ih.2 ⟨l', hl', h⟩)

theorem mem_of_mem_splitOn {t l : Text} {sep c : Char} (hl : l ∈ t.splitOn sep) (hc : c ∈ l) :
    c ∈ t := by
  have hmem : c ∈ [sep].intercalate (t.splitOn sep) := mem_intercalate.2 ⟨l, hl, hc⟩
  rwa [List.intercalate_splitOn] at hmem

theorem notMem_cleanText (t : Text) : '\r' ∉ cleanText t := by
  intro hmem
  unfold cleanText at hmem
  rcases mem_intercalate.1 ((List.rdropWhile_prefix _ _).subset hmem) with h | ⟨l, hl, h⟩
  · exact absurd h (by decide)
  · obtain ⟨l', hl', rfl⟩ := List.mem_map.mp hl
    exact mem_unifyNewlines (mem_of_mem_splitOn hl' (rstrip_subset h)) rfl

theorem cleanText_of_stable {t : Text} (hcr : '\r' ∉ t) (hlines : StableLines t)
    (hend : t.rdropWhile (· = '\n') = t) : cleanText t = t := by
  have hnewlines : unifyNewlines t = t := unifyNewlines_eq_self fun c hc h => hcr (h ▸ hc)
  have hmap : (t.splitOn '\n').map Text.rstrip = t.splitOn '\n' :=
    (List.map_congr_left hlines).trans (List.map_id' _)
  unfold cleanText
  rw [hnewlines, hmap, List.intercalate_splitOn, hend]

theorem cleanText_cleanText (t : Text) : cleanText (cleanText t) = cleanText t := by
  apply cleanText_of_stable (notMem_cleanText t) (stableLines_cleanText t)
  unfold cleanText
  exact List.rdropWhile_idempotent _ _

/-- The text that is written is cleaned to what the text itself is cleaned to. -/
theorem cleanText_representText (t : Text) : cleanText (representText t) = cleanText t := by
  have hunify : cleanText (unifyNewlines t) = cleanText t := by
    unfold cleanText
    rw [unifyNewlines_eq_self fun c hc => mem_unifyNewlines hc]
  unfold representText
  dsimp only
  split_ifs
  · rw [cleanText_cleanText, hunify]
  · exact hunify

theorem representText_of_noSpace {t : Text} (h : ∀ c ∈ t, Text.isSpace c = false) :
    representText t = t := by
  have hcr : '\r' ∉ t := fun hmem => absurd (h _ hmem) (by decide)
  have hnl : '\n' ∉ t := fun hmem => absurd (h _ hmem) (by decide)
  have hstrip : Text.rstrip t = t := by
    unfold Text.rstrip
    rw [List.rdropWhile_eq_self_iff]
    intro hne
    simp [h _ (List.getLast_mem hne)]
  have hclean : cleanText t = t := by
    apply cleanText_of_stable hcr
    · intro l hl
      rw [List.splitOn_eq_singleton hnl, List.mem_singleton] at hl
      rw [hl, hstrip]
    · rw [List.rdropWhile_eq_self_iff]
      intro hne hlast
      exact hnl (of_decide_eq_true hlast ▸ List.getLast_mem hne)
  unfold representText
  dsimp only
  rw [unifyNewlines_eq_self fun c hc heq => hcr (heq ▸ hc), hclean, ite_self]

/-! ## Payloads -/

section
variable {X : Type}

mutual

/-- Every key of a mapping, at any depth, is one that the YAML writer leaves alone. -/
def KeysStable : Value X → Prop
  | .dict d => KeysStableEntries d
  | .list vs => KeysStableItems vs
  | .null | .bool _ | .int _ | .scalar _ | .str _ => True

def KeysStableItems : List (Value X) → Prop
  | [] => True
  | v :: vs => KeysStable v ∧ KeysStableItems vs

def KeysStableEntries : List (String × Value X) → Prop
  | [] => True
  | (k, v) :: d => representString k = k ∧ KeysStable v ∧ KeysStableEntries d

end

mutual

theorem normalize_represent : (v : Value X) → KeysStable v → normalize (represent v) = normalize v
  | .dict d, h => by
    rw [KeysStable] at h
    rw [represent, normalize, normalize, normalizeEntries_represent d h]
  | .list vs, h => by
    rw [KeysStable] at h
    rw [represent, normalize, normalize, normalizeItems_represent vs h]
  | .str s, _ => by
    rw [represent, normalize, normalize, representString, String.toList_ofList,
      cleanText_representText]
  | .null, _ | .bool _, _ | .int _, _ | .scalar _, _ => by rw [represent]

theorem normalizeItems_represent : (vs : List (Value X)) → KeysStableItems vs →
    normalizeItems (representItems vs) = normalizeItems vs
  | [], _ => by rw [representItems]
  | v :: vs, h => by
    rw [KeysStableItems] at h
    rw [representItems, normalizeItems, normalizeItems, normalize_represent v h.1,
      normalizeItems_represent vs h.2]

theorem normalizeEntries_represent : (d : List (String × Value X)) → KeysStableEntries d →
    normalizeEntries (representEntries d) = normalizeEntries d
  | [], _ => by rw [representEntries]
  | (k, v) :: d, h => by
    rw [KeysStableEntries] at h
    rw [representEntries, normalizeEntries, normalizeEntries, h.1, normalize_represent v h.2.1,
      normalizeEntries_represent d h.2.2]

end

theorem normalizeEntries_eq (d : List (String × Value X)) :
    normalizeEntries d = Dict.mapVals normalize d := by
  induction d with
  | nil => rfl
  | cons p d ih =>
    rw [normalizeEntries, ih]
    rfl

theorem normalize_dict (d : Document X) :
    normalize (.dict d) = .dict (Dict.sortByKey (Dict.mapVals normalize d)) := by
  rw [normalize, normalizeEntries_eq]
  rfl

theorem normalizeItems_eq (vs : List (Value X)) : normalizeItems vs = vs.map normalize := by
  induction vs with
  | nil => rfl
  | cons v vs ih => rw [normalizeItems, ih, List.map_cons]

/-- The comparison does not see the order of the keys. -/
theorem normalize_dict_of_perm {d e : Document X} (h : List.Perm d e) (hd : (Dict.keys d).Nodup) :
    normalize (.dict d) = normalize (.dict e) := by
  have hperm : List.Perm (Dict.mapVals normalize d) (Dict.mapVals normalize e) := h.map _
  rw [normalize_dict, normalize_dict, Dict.sortByKey_eq_of_perm hperm]
  rwa [Dict.keys_mapVals]

mutual

theorem normalize_sortKeys : (v : Value X) → v.WF → normalize v.sortKeys = normalize v
  | .dict d, h => by
    obtain ⟨hnodup, hvals⟩ := h
    have hsorted : Dict.mapVals normalize (Dict.mapVals Value.sortKeys (Dict.sortByKey d)) =
        Dict.mapVals normalize (Dict.sortByKey d) := by
      unfold Dict.mapVals
      rw [List.map_map]
      refine List.map_congr_left fun p hp => ?_
      rw [Function.comp_apply,
        normalizeEntries_sortKeys d hvals p ((Dict.sortByKey_perm d).mem_iff.mp hp)]
    rw [Value.sortKeys_dict, normalize_dict, hsorted, ← normalize_dict]
    exact normalize_dict_of_perm (Dict.sortByKey_perm d) (Dict.nodup_keys_sortByKey hnodup)
  | .list vs, h => by
    rw [Value.sortKeys, normalize, normalize, normalizeItems_sortKeys vs h]
  | .null, _ | .bool _, _ | .int _, _ | .scalar _, _ | .str _, _ => by rw [Value.sortKeys]

theorem normalizeItems_sortKeys : (vs : List (Value X)) → Value.WFList vs →
    normalizeItems (Value.sortKeysItems vs) = normalizeItems vs
  | [], _ => by rw [Value.sortKeysItems]
  | v :: vs, h => by
    rw [Value.sortKeysItems, normalizeItems, normalizeItems, normalize_sortKeys v h.1,
      normalizeItems_sortKeys vs h.2]

theorem normalizeEntries_sortKeys : (d : List (String × Value X)) → Value.WFDict d →
    ∀ p ∈ d, normalize p.2.sortKeys = normalize p.2
  | [], _ => by simp
  | (_, v) :: d, h => List.forall_mem_cons.mpr
    ⟨normalize_sortKeys v h.1, normalizeEntries_sortKeys d h.2⟩

end

/-! ## A payload matches itself -/

mutual

theorem normalize_wf : (v : Value X) → v.WF → (normalize v).WF
  | .dict d, h => by
    rw [normalize_dict]
    refine Value.wf_dict_iff.mpr ⟨?_, ?_⟩
    · apply Dict.nodup_keys_sortByKey
      rw [Dict.keys_mapVals]
      exact h.1
    · intro p hp
      obtain ⟨q, hq, rfl⟩ := List.mem_map.mp ((Dict.sortByKey_perm _).mem_iff.mp hp)
      exact normalizeEntries_wf d h.2 q hq
  | .list vs, h => by
    rw [normalize]
    exact normalizeItems_wf vs h
  | .null, _ | .bool _, _ | .int _, _ | .scalar _, _ | .str _, _ => by rw [normalize]; exact trivial

theorem normalizeItems_wf : (vs : List (Value X)) → Value.WFList vs → Value.WFList (normalizeItems vs)
  | [], _ => trivial
  | v :: vs, h => ⟨normalize_wf v h.1, normalizeItems_wf vs h.2⟩

theorem normalizeEntries_wf : (d : List (String × Value X)) → Value.WFDict d →
    ∀ p ∈ d, (normalize p.2).WF
  | [], _ => by simp
  | (_, v) :: d, h => List.forall_mem_cons.mpr ⟨normalize_wf v h.1, normalizeEntries_wf d h.2⟩

end

section
variable [Value.ScalarEq X]

mutual

theorem pyEq_self (hscalar : ∀ x : X, Value.ScalarEq.eq x x = true) :
    (v : Value X) → v.WF → Value.pyEq v v = true
  | .dict d, h => by
    have hentries := pyEqEntries_of_get? hscalar d h.2 d fun p hp => Dict.get?_of_mem h.1 hp
    simp [Value.pyEq, hentries]
  | .list vs, h => by
    rw [Value.pyEq]
    exact pyEqItems_self hscalar vs h
  | .scalar x, _ => by
    rw [Value.pyEq]
    exact hscalar x
  | .null, _ | .bool _, _ | .int _, _ | .str _, _ => by simp [Value.pyEq]

theorem pyEqItems_self (hscalar : ∀ x : X, Value.ScalarEq.eq x x = true) :
    (vs : List (Value X)) → Value.WFList vs → Value.pyEqItems vs vs = true
  | [], _ => by rw [Value.pyEqItems]
  | v :: vs, h => by
    rw [Value.pyEqItems, pyEq_self hscalar v h.1, pyEqItems_self hscalar vs h.2]
    rfl

theorem pyEqEntries_of_get? (hscalar : ∀ x : X, Value.ScalarEq.eq x x = true) :
    (d : List (String × Value X)) → Value.WFDict d → (e : Document X) →
      (∀ p ∈ d, Dict.get? e p.1 = some p.2) → Value.pyEqEntries d e = true
  | [], _, _, _ => by rw [Value.pyEqEntries]
  | (k, v) :: d, h, e, hget => by
    rw [Value.pyEqEntries, hget (k, v) List.mem_cons_self]
    dsimp only
    rw [pyEq_self hscalar v h.1,
      pyEqEntries_of_get? hscalar d h.2 e fun p hp => hget p (List.mem_cons_of_mem _ hp)]
    rfl

end

theorem payloadsMatch_self (hscalar : ∀ x : X, Value.ScalarEq.eq x x = true) {v : Value X}
    (h : v.WF) : payloadsMatch v v = true := pyEq_self hscalar _ (normalize_wf v h)

end
/-! ## The definition of a playbook -/

theorem keysStableEntries_iff {d : List (String × Value X)} :
    KeysStableEntries d ↔ ∀ p ∈ d, representString p.1 = p.1 ∧ KeysStable p.2 := by
  induction d with
  | nil => simp [KeysStableEntries]
  | cons p d ih => simp [KeysStableEntries, ih, and_assoc]

theorem representEntries_of_stable {d : List (String × Value X)}
    (h : ∀ p ∈ d, representString p.1 = p.1) : representEntries d = Dict.mapVals represent d := by
  induction d with
  | nil => rfl
  | cons p d ih =>
    obtain ⟨hp, hd⟩ := List.forall_mem_cons.mp h
    obtain ⟨k, v⟩ := p
    rw [representEntries, ih hd, hp]
    rfl

theorem mapVals_normalize_represent {d : List (String × Value X)} (h : KeysStableEntries d) :
    Dict.mapVals normalize (Dict.mapVals represent d) = Dict.mapVals normalize d := by
  unfold Dict.mapVals
  rw [List.map_map]
  refine List.map_congr_left fun p hp => ?_
  rw [Function.comp_apply, normalize_represent p.2 ((keysStableEntries_iff.mp h) p hp).2]

/-- The payload of a playbook as the tenant has it: a definition, if any, is a mapping, and there is
no name of a file. -/
structure RemoteDefinition (payload : Document X) : Prop where
  noFile : "definitionFile" ∉ Dict.keys payload
  isDict : ∀ v, Dict.get? payload "definition" = some v → ∃ d, v = .dict d

theorem isSpace_of_isIdChar {c : Char} (h : isIdChar c = true) : Text.isSpace c = false := by
  by_contra hspace
  have hmem := of_decide_eq_true (Bool.eq_true_of_not_eq_false hspace)
  have hnot := List.all_eq_true.mp (by decide : List.all _ (fun d => !isIdChar d) = true) c hmem
  rw [h] at hnot
  exact absurd hnot (by decide)

theorem idChars {id : String} (h : isEnvelopeId id = true) :
    ∀ c ∈ id.toList, isIdChar c = true ∨ c = '-' := by
  unfold isEnvelopeId at h
  simp only [Bool.and_eq_true, List.all_eq_true, Bool.or_eq_true, decide_eq_true_eq] at h
  exact h.2

theorem sidecarChars {id : String} (h : isEnvelopeId id = true) :
    ∀ c ∈ (sidecarName id).toList, isIdChar c = true ∨ c = '-' ∨ c = '.' := by
  intro c hc
  rw [sidecarName, String.toList_append, List.mem_append] at hc
  rcases hc with hc | hc
  · rcases idChars h c hc with h | h
    · exact .inl h
    · exact .inr (.inl h)
  · have hall : ".workflow.json".toList.all (fun c => isIdChar c || c = '-' || c = '.') = true := by
      decide
    simpa [or_assoc] using List.all_eq_true.mp hall c hc

theorem representString_sidecarName {id : String} (h : isEnvelopeId id = true) :
    representString (sidecarName id) = sidecarName id := by
  unfold representString
  rw [representText_of_noSpace, String.ofList_toList]
  intro c hc
  rcases sidecarChars h c hc with h | rfl | rfl
  · exact isSpace_of_isIdChar h
  · decide
  · decide

theorem isSidecarName_sidecarName {id : String} (h : isEnvelopeId id = true) :
    isSidecarName (sidecarName id) = true := by
  have hsuffix : hasSuffix ".workflow.json" (sidecarName id) = true := by
    unfold hasSuffix sidecarName
    rw [String.toList_append, decide_eq_true_eq]
    exact List.suffix_append _ _
  have hdot : sidecarName id ∉ [".", ".."] := by
    intro hmem
    have hlength : 14 ≤ (sidecarName id).toList.length := by
      rw [sidecarName, String.toList_append, List.length_append]
      have hworkflow : ".workflow.json".toList.length = 14 := by decide
      omega
    rcases List.mem_pair.mp hmem with h | h
    · rw [h] at hlength
      exact absurd hlength (by decide)
    · rw [h] at hlength
      exact absurd hlength (by decide)
  have hslash : ((sidecarName id).toList.any fun c => c = '/' || c = '\\') = false := by
    rw [List.any_eq_false]
    intro c hc hcontra
    have hbad : c = '/' ∨ c = '\\' := by simpa using hcontra
    rcases sidecarChars h c hc with h | rfl | rfl
    · rcases hbad with rfl | rfl
      · exact absurd h (by decide)
      · exact absurd h (by decide)
    · exact absurd hbad (by decide)
    · exact absurd hbad (by decide)
  unfold isSidecarName
  rw [hslash, hsuffix, decide_eq_true hdot]
  rfl

section
variable [Value.ScalarEq X] [Json.FloatText X]

/-- The definition is read from its sidecar again, and the comparison sees the payload that was
split. -/
theorem inlinePlaybookSidecar_written {tree : FileTree} {path : Path} {id : String}
    {payload definition : Document X} (hid : isEnvelopeId id = true)
    (hwf : (Value.dict payload).WF) (hstable : KeysStableEntries payload)
    (hfile : "definitionFile" ∉ Dict.keys payload)
    (hdef : Dict.get? payload "definition" = some (.dict definition))
    (hread : tree.read (path.sibling (sidecarName id)) =
      some (Json.dumps (Json.indent2 false) (Value.sortKeys (.dict definition)) ++ ['\n'])) :
    ∃ back : Document X,
      inlinePlaybookSidecar tree path (represent (.dict (Dict.set (Dict.erase payload "definition")
        "definitionFile" (.str (sidecarName id))))) = some (.dict back) ∧
      normalize (.dict back) = normalize (.dict payload) := by
  obtain ⟨hnodup, hvals⟩ := Value.wf_dict_iff.mp hwf
  let rest := Dict.erase payload "definition"
  have hrestStable : KeysStableEntries rest := by
    rw [keysStableEntries_iff] at hstable ⊢
    exact fun p hp => hstable p (List.mem_filter.mp hp).1
  have hrestKeys : ∀ p ∈ rest, representString p.1 = p.1 :=
    fun p hp => ((keysStableEntries_iff.mp hrestStable) p hp).1
  have hrestFile : "definitionFile" ∉ Dict.keys rest := by
    intro hmem
    obtain ⟨p, hp, hkey⟩ := List.mem_map.mp hmem
    exact hfile (hkey ▸ List.mem_map_of_mem (List.mem_filter.mp hp).1)
  have hrestDefinition : "definition" ∉ Dict.keys rest := by
    intro hmem
    obtain ⟨p, hp, hkey⟩ := List.mem_map.mp hmem
    exact absurd hkey (by simpa using (List.mem_filter.mp hp).2)
  let written := Dict.mapVals represent rest
  have hwrittenFile : "definitionFile" ∉ Dict.keys written := by
    rw [Dict.keys_mapVals]
    exact hrestFile
  have hwrittenDefinition : "definition" ∉ Dict.keys written := by
    rw [Dict.keys_mapVals]
    exact hrestDefinition
  -- The document on disk: the name of the file comes last.
  have hdocument : representEntries (Dict.set rest "definitionFile" (.str (sidecarName id))) =
      written ++ [("definitionFile", .str (sidecarName id))] := by
    have hstableSet : ∀ p ∈ rest ++ [("definitionFile", Value.str (sidecarName id))],
        representString p.1 = p.1 := by
      intro p hp
      rcases List.mem_append.mp hp with hp | hp
      · exact hrestKeys p hp
      · obtain rfl := List.mem_singleton.mp hp
        exact (by decide +kernel : representString "definitionFile" = "definitionFile")
    rw [Dict.set_of_notMem hrestFile, representEntries_of_stable hstableSet]
    simp [Dict.mapVals, written, represent, representString_sidecarName hid]
  have hload : Json.loads (Json.dumps (Json.indent2 false) (Value.sortKeys (.dict definition)) ++ ['\n']) =
      some (Value.sortKeys (.dict definition)) := by
    apply Json.loads_dumps_append (Json.indent2_blank false) _ (by simp)
    exact (hvals _ (Dict.mem_of_get? hdef)).sortKeys
  refine ⟨written ++ [("definition", Value.sortKeys (.dict definition))], ?_, ?_⟩
  · have hget : Value.get (written ++ [("definitionFile", .str (sidecarName id))]) "definitionFile" =
        .str (sidecarName id) := by
      unfold Value.get
      rw [Dict.get?_append, Dict.get?_eq_none_iff.mpr hwrittenFile]
      simp
    have htruthy : (Value.str (sidecarName id) : Value X).truthy = true := by
      have hne : sidecarName id ≠ "" := by
        intro hempty
        have hname := isSidecarName_sidecarName hid
        rw [hempty] at hname
        exact absurd hname (by decide)
      simpa [Value.truthy] using hne
    have hcontains : Dict.contains (written ++ [("definitionFile", .str (sidecarName id))])
        "definition" = false := by
      unfold Dict.contains
      rw [Dict.get?_append, Dict.get?_eq_none_iff.mpr hwrittenDefinition]
      simp
    have herase : Dict.erase (written ++ [("definitionFile", .str (sidecarName id))]) "definitionFile" =
        written := by
      have hwritten := Dict.erase_of_notMem hwrittenFile
      unfold Dict.erase at hwritten ⊢
      rw [List.filter_append, hwritten]
      simp
    unfold inlinePlaybookSidecar
    rw [represent, hdocument]
    dsimp only [Value.dict?]
    rw [hget, htruthy, hcontains]
    simp only [Bool.not_true, Bool.false_eq_true, if_false, Value.text?, Option.bind_eq_bind,
      Option.bind_some, isSidecarName_sidecarName hid]
    rw [hread, Option.bind_some, hload, Option.bind_some, herase, Value.sortKeys_dict]
    dsimp only [Value.dict?]
    rw [Option.bind_some, Dict.set_of_notMem hwrittenDefinition]
  · have hperm := Dict.erase_append_perm hnodup hdef
    have hlast : normalize (Value.sortKeys (.dict definition)) = normalize (.dict definition) :=
      normalize_sortKeys _ (hvals _ (Dict.mem_of_get? hdef))
    rw [← normalize_dict_of_perm hperm ((hperm.map Prod.fst).nodup_iff.mpr hnodup), normalize_dict,
      normalize_dict]
    have hparts : Dict.mapVals normalize (written ++ [("definition", Value.sortKeys (.dict definition))]) =
        Dict.mapVals normalize (rest ++ [("definition", .dict definition)]) := by
      have hwritten := mapVals_normalize_represent hrestStable
      unfold Dict.mapVals at hwritten ⊢
      rw [List.map_append, List.map_append, List.map_singleton, List.map_singleton, hlast]
      exact congrArg (· ++ _) hwritten
    rw [hparts]

end

/-! ## A file that was written -/

/-- The payload of an envelope; `.get("payload", {})`. -/
def payloadOf (envelope : Document X) : Value X := (Dict.get? envelope "payload").getD (.dict [])

/-- The payload of an envelope is what the comparison sees again after it was written. -/
structure PayloadSurvives (envelope : Document X) : Prop where
  wf : (payloadOf envelope).WF
  stable : KeysStable (payloadOf envelope)
  definition : Value.textAt envelope "asset" = Asset.sentinelPlaybook.value →
    ∃ payload, payloadOf envelope = .dict payload ∧ RemoteDefinition payload

theorem get?_representEntries {d : Document X} (h : ∀ k ∈ Dict.keys d, representString k = k)
    (key : String) : Dict.get? (representEntries d) key = (Dict.get? d key).map represent := by
  have hentries := representEntries_of_stable (d := d) fun p hp => h p.1 (List.mem_map_of_mem hp)
  rw [hentries, Dict.get?_mapVals]

theorem payload?_eq {envelope payload : Document X} (h : payloadOf envelope = .dict payload) :
    ((Value.get envelope "payload").dict?).getD [] = payload := by
  unfold payloadOf at h
  unfold Value.get
  cases hget : Dict.get? envelope "payload" with
  | none =>
    rw [hget] at h
    simpa [Value.dict?] using h
  | some v =>
    rw [hget, Option.getD_some] at h
    rw [Option.getD_some, h]
    rfl

section
variable [Value.ScalarEq X] [Json.FloatText X]

omit [Value.ScalarEq X] in
/-- How the definition of a playbook is split off. -/
theorem splitSidecars_eq {envelope p definition : Document X} (hp : payloadOf envelope = .dict p)
    (hfile : "definitionFile" ∉ Dict.keys p)
    (hdef : Dict.get? p "definition" = some (.dict definition)) :
    splitSidecars envelope =
      (Dict.set envelope "payload" (.dict (Dict.set (Dict.erase p "definition") "definitionFile"
        (.str (sidecarName (Value.textAt envelope "id"))))),
        [(sidecarName (Value.textAt envelope "id"),
          Json.dumps (Json.indent2 false) (Value.sortKeys (.dict definition)) ++ ['\n'])]) := by
  have hsome : Value.get p "definition" = .dict definition := by
    unfold Value.get
    rw [hdef]
    rfl
  have hname : Value.textAt (Dict.erase p "definition") "definitionFile" = "" := by
    unfold Value.textAt
    rw [Dict.get?_erase, if_neg (by decide), Dict.get?_eq_none_iff.mpr hfile]
  unfold splitSidecars
  dsimp only
  rw [payload?_eq hp, hsome]
  dsimp only
  rw [hname]
  rfl

/-- A file that holds an envelope, with the sidecar beside it, loads with the payload. -/
theorem loadAsset_written {libs : Libs X} {tree : FileTree} {path : Path} {content : Text}
    {envelope kept : Document X} {parsed : EnvelopeV2} {payload : Value X}
    (hsurvives : PayloadSurvives envelope)
    (hid : isEnvelopeId (Value.textAt envelope "id") = true)
    (hcontent : libs.safeLoad content = some (represent (.dict kept)))
    (hparse : parseEnvelope libs.laxInt (represent (.dict kept)) = some (parsed, payload))
    (hasset : parsed.asset.value = Value.textAt envelope "asset")
    (hkeys : ∀ k ∈ Dict.keys kept, representString k = k)
    (hpayload : Dict.get? kept "payload" = Dict.get? (splitSidecarFiles envelope).1 "payload")
    (hsidecars : ∀ sidecar ∈ (splitSidecarFiles envelope).2,
      tree.read (path.sibling sidecar.1) = some sidecar.2) :
    ∃ back, loadAsset libs tree path content = some { path, envelope := parsed, payload := back } ∧
      normalize back = normalize (payloadOf envelope) := by
  have hread : payload = represent (payloadOf (splitSidecarFiles envelope).1) := by
    obtain ⟨d, hd, -, hpayloadEq⟩ := parseEnvelope_eq_some hparse
    rw [represent] at hd
    obtain rfl := Value.dict.inj hd
    rw [hpayloadEq, get?_representEntries hkeys, hpayload]
    unfold payloadOf
    cases Dict.get? (splitSidecarFiles envelope).1 "payload" with
    | none => rfl
    | some v => rfl
  have hload : ∀ back, (if parsed.asset = .sentinelPlaybook then
        inlinePlaybookSidecar tree path payload else some payload) = some back →
      loadAsset libs tree path content = some { path, envelope := parsed, payload := back } := by
    intro back hback
    unfold loadAsset
    simp only [hcontent, hparse, hback, Option.bind_eq_bind, Option.bind_some]
  by_cases hplaybook : Value.textAt envelope "asset" = Asset.sentinelPlaybook.value
  · have hkind : parsed.asset = .sentinelPlaybook := Asset.value_injective (hasset.trans hplaybook)
    obtain ⟨p, hp, hremote⟩ := hsurvives.definition hplaybook
    have hget := payload?_eq hp
    have hstable : KeysStableEntries p := by
      have hall := hsurvives.stable
      rwa [hp, KeysStable] at hall
    have hwf := hsurvives.wf
    rw [hp] at hwf
    have hsplit : splitSidecarFiles envelope = splitSidecars envelope := by
      unfold splitSidecarFiles
      rw [if_pos hplaybook]
    rw [hsplit] at hread hsidecars
    cases hdef : Dict.get? p "definition" with
    | none =>
      have hnone : Value.get p "definition" = .null := by
        unfold Value.get
        rw [hdef]
        rfl
      have hrest : payloadOf (splitSidecars envelope).1 = .dict p := by
        unfold splitSidecars payloadOf
        dsimp only
        rw [hget, hnone]
        dsimp only
        rw [Dict.get?_set_self, Dict.erase_of_notMem (Dict.get?_eq_none_iff.mp hdef)]
        rfl
      refine ⟨represent (.dict p), hload _ ?_, ?_⟩
      · rw [if_pos hkind, hread, hrest, represent]
        unfold inlinePlaybookSidecar
        have hfile : Value.get (representEntries p) "definitionFile" = .null := by
          unfold Value.get
          rw [representEntries_of_stable fun q hq => ((keysStableEntries_iff.mp hstable) q hq).1,
            Dict.get?_mapVals, Dict.get?_eq_none_iff.mpr hremote.noFile]
          rfl
        simp [Value.dict?, hfile, Value.truthy]
      · rw [hp, normalize_represent _ (hp ▸ hsurvives.stable)]
    | some v =>
      obtain ⟨definition, rfl⟩ := hremote.isDict v hdef
      have hsplitEq := splitSidecars_eq hp hremote.noFile hdef
      rw [hsplitEq] at hread hsidecars
      obtain ⟨back, hinline, hback⟩ := inlinePlaybookSidecar_written hid hwf hstable hremote.noFile hdef
        (hsidecars _ List.mem_cons_self)
      refine ⟨.dict back, hload _ ?_, by rw [hback, hp]⟩
      rw [if_pos hkind, hread]
      unfold payloadOf
      rw [Dict.get?_set_self]
      exact hinline
  · have hkind : ¬ parsed.asset = .sentinelPlaybook := fun h => hplaybook (hasset ▸ h ▸ rfl)
    have hsplit : splitSidecarFiles envelope = (envelope, []) := by
      unfold splitSidecarFiles
      rw [if_neg hplaybook]
    rw [hsplit] at hread
    refine ⟨payload, hload _ (if_neg hkind), ?_⟩
    rw [hread, normalize_represent _ hsurvives.stable]

end

end
end ContentOps
