import ContentOps.Coverage.Matrix
import ContentOps.Library.Walk
import ContentOps.Library.OptionMap
import Mathlib.Data.List.Dedup

/-! The generator of the bundled matrix, `scripts/refresh_attack_matrix.py`: what it takes from a
STIX bundle, and to which current technique it leads each retired one. -/

namespace ContentOps.RefreshAttackMatrix
open PyData Coverage

structure ExternalReference where
  sourceName : Option String
  externalId : Option String

structure KillChainPhase where
  killChainName : Option String
  phaseName : String

/-- An object of the bundle; the flags are those that are `true`, a field that is absent or no text
is `none`, or the text that the code puts in its place. -/
structure StixObject where
  id : Option String := none
  type : Option String := none
  revoked : Bool := false
  deprecated : Bool := false
  externalReferences : List ExternalReference := []
  killChainPhases : List KillChainPhase := []
  name : String := ""
  isSubtechnique : Bool := false
  shortName : String := ""
  version : String := ""
  relationshipType : Option String := none
  sourceRef : String := ""
  targetRef : String := ""

namespace StixObject

/-- Deprecated or revoked content. -/
def retired (obj : StixObject) : Bool := obj.revoked || obj.deprecated

def isPattern (obj : StixObject) : Bool := obj.type = some "attack-pattern"

/-- `_technique_id`. -/
def techniqueId (obj : StixObject) : Option String :=
  obj.externalReferences.findSome? fun ref =>
    if ref.sourceName = some "mitre-attack" then
      ref.externalId.filter fun externalId => "T".toList <+: externalId.toList
    else none

/-- A relationship that says by what a technique is replaced. -/
def replaces (obj : StixObject) : Bool :=
  obj.type = some "relationship" && obj.relationshipType = some "revoked-by" && !obj.retired

end StixObject

abbrev Bundle := List StixObject

/-! ## The retired ids -/

/-- `by_stix_id`. -/
def byStixId (objects : Bundle) : Dict String StixObject :=
  Dict.ofPairs (objects.filterMap fun obj => obj.id.map fun id => (id, obj))

/-- The technique that a reference means. -/
def patternId (objects : Bundle) (ref : String) : Option String :=
  ((byStixId objects).get? ref).bind fun obj => if obj.isPattern then obj.techniqueId else none

/-- The two ids of a relationship that replaces one technique by another. -/
def link (objects : Bundle) (obj : StixObject) : Option (String × String) :=
  if obj.replaces then
    (patternId objects obj.sourceRef).bind fun old =>
      (patternId objects obj.targetRef).map fun new => (old, new)
  else none

/-- `edges`. -/
def edges (objects : Bundle) (currentIds : List String) : Dict String String :=
  Dict.ofPairs ((objects.filterMap (link objects)).filter fun p => p.1 ≠ p.2 ∧ p.1 ∉ currentIds)

/-- The `retired` of `_retired_ids`. -/
def retiredTechniques (objects : Bundle) (currentIds : List String) : List String :=
  ((objects.filter fun obj => obj.isPattern && obj.retired).filterMap (·.techniqueId)).filter
    fun id => id ∉ currentIds

/-- The loop of one old id, which is given a turn for every edge. -/
def endOf (edges : Dict String String) (currentIds : List String) (oldId targetId : String) :
    Option String :=
  Walk.follow edges.get? (· ∈ currentIds) edges.length [oldId] targetId

/-- `_retired_ids`; `none` is a loop that has not ended in its turns. -/
def retiredIds (objects : Bundle) (currentIds : List String) :
    Option (Dict String String × List String) := do
  let links := edges objects currentIds
  let ends ← links.sortByKey.mapM fun p => (endOf links currentIds p.1 p.2).map fun e => (p.1, e)
  let revoked := ends.filter fun p => p.2 ∈ currentIds
  let deprecated := (retiredTechniques objects currentIds).filter fun id => id ∉ Dict.keys revoked
  pure (Dict.sortByKey revoked, deprecated.dedup.insertionSort (· ≤ ·))

/-! ## The tables -/

-- `capitalize` is `str.capitalize`.
variable (capitalize : List Char → List Char)

/-- `_canonical_tactic`. -/
def canonicalTactic (short : String) : String :=
  let pascal := String.ofList ((short.toList.splitOn '-').flatMap capitalize)
  if pascal = "Stealth" ∨ pascal = "DefenseImpairment" then "DefenseEvasion" else pascal

/-- `_tactics_from_kill_chain`. -/
def tacticsFromKillChain (obj : StixObject) : List String :=
  (((obj.killChainPhases.filter (·.killChainName = some "mitre-attack")).map
    fun phase => canonicalTactic capitalize phase.phaseName).filter (· ≠ "")).eraseDups

def liveObjects (objects : Bundle) : Bundle := objects.filter (!·.retired)

/-- The attack patterns that `extract` puts into a table, with their ids. -/
def recordOf (obj : StixObject) : Option TechniqueRecord :=
  if obj.isPattern then
    obj.techniqueId.map fun tid =>
      { id := tid
        name := obj.name
        tactics := tacticsFromKillChain capitalize obj
        parentId :=
          if obj.isSubtechnique ∧ '.' ∈ tid.toList then
            some (String.ofList (tid.toList.takeWhile (· ≠ '.')))
          else none }
  else none

/-- One turn of the table of tactics; the first of a canonical name gives the row. -/
def addTactic (rows : Dict String TacticRecord) (obj : StixObject) : Dict String TacticRecord :=
  let canonical := canonicalTactic capitalize obj.shortName
  if obj.type ≠ some "x-mitre-tactic" then rows
  else if canonical = "DefenseEvasion" then
    rows.set canonical ⟨canonical, "defense-evasion", "Defense Evasion"⟩
  else if rows.contains canonical then rows
  else rows.set canonical ⟨canonical, obj.shortName, obj.name⟩

/-- `_collection_version`. -/
def collectionVersion (objects : Bundle) : String :=
  ((objects.find? fun obj => obj.type = some "x-mitre-collection" ∧ obj.version ≠ "").map
    (·.version)).getD ""

def sortRecords (records : List TechniqueRecord) : List TechniqueRecord :=
  records.insertionSort fun a b => a.id ≤ b.id

def parents (objects : Bundle) : List TechniqueRecord :=
  ((liveObjects objects).filter (!·.isSubtechnique)).filterMap (recordOf capitalize)

def subs (objects : Bundle) : List TechniqueRecord :=
  ((liveObjects objects).filter (·.isSubtechnique)).filterMap (recordOf capitalize)

def currentIds (objects : Bundle) : List String :=
  (parents capitalize objects ++ subs capitalize objects).map (·.id)

/-- `extract`. -/
def extract (objects : Bundle) : Option MatrixFile :=
  (retiredIds objects (currentIds capitalize objects)).map fun ids =>
    { source := "https://github.com/mitre-attack/attack-stix-data enterprise-attack"
      schemaVersion := 3
      attackVersion := collectionVersion objects
      tactics := (((liveObjects objects).foldl (addTactic capitalize) []).map (·.2)).insertionSort
        fun a b => a.id ≤ b.id
      techniques := sortRecords (parents capitalize objects)
      subTechniques := sortRecords (subs capitalize objects)
      revoked := ids.1
      deprecated := ids.2 }

/-! ## What the loop of an old id finds -/

/-- A live `revoked-by` relationship leads from one id to the other. -/
def RevokedBy (objects : Bundle) (a b : String) : Prop :=
  ∃ obj ∈ objects, link objects obj = some (a, b)

/-- The way of an id, which ends at the first current one. -/
def Leads (objects : Bundle) (current : List String) : String → String → Prop :=
  Relation.ReflTransGen fun a b => a ∉ current ∧ RevokedBy objects a b

def OneTarget (objects : Bundle) : Prop :=
  ∀ a b c, RevokedBy objects a b → RevokedBy objects a c → b = c

section
variable {objects : Bundle} {current : List String}

theorem nodup_edges : (edges objects current).keys.Nodup := Dict.nodup_keys_ofPairs _

theorem get?_edges (h : OneTarget objects) {a b : String} :
    (edges objects current).get? a = some b ↔ RevokedBy objects a b ∧ a ≠ b ∧ a ∉ current := by
  have hmem : ∀ {x y : String}, (x, y) ∈ (objects.filterMap (link objects)).filter
      (fun p => p.1 ≠ p.2 ∧ p.1 ∉ current) ↔ RevokedBy objects x y ∧ x ≠ y ∧ x ∉ current := by
    intro x y
    rw [List.mem_filter, List.mem_filterMap, decide_eq_true_iff]
    exact Iff.rfl
  constructor
  · intro hget
    exact hmem.mp (Dict.mem_ofPairs (Dict.mem_of_get? hget))
  · intro hlink
    have hkey : a ∈ Dict.keys (edges objects current) :=
      Dict.mem_keys_ofPairs.mpr (List.mem_map.mpr ⟨(a, b), hmem.mpr hlink, rfl⟩)
    obtain ⟨⟨_, c⟩, hc, rfl⟩ := List.mem_map.mp hkey
    have hlink' := hmem.mp (Dict.mem_ofPairs hc)
    obtain rfl := h _ _ _ hlink.1 hlink'.1
    exact Dict.get?_of_mem nodup_edges hc

theorem step_iff (h : OneTarget objects) {a b : String} :
    Walk.Step (edges objects current).get? (· ∈ current) a b ↔
      (a ∉ current ∧ RevokedBy objects a b) ∧ a ≠ b := by
  rw [Walk.Step, get?_edges h]
  tauto

/-- A turn for every edge is enough. -/
theorem endOf_isSome {old target : String} (h : (edges objects current).get? old = some target) :
    (endOf (edges objects current) current old target).isSome = true := by
  refine Walk.follow_isSome _ _ (edges objects current).keys ?_ _ _ _ ?_
  · intro a ha
    obtain ⟨b, hb⟩ := Option.isSome_iff_exists.mp ha
    exact Dict.mem_keys_of_get? hb
  · have hlength : (edges objects current).length = (edges objects current).keys.length :=
      (List.length_map _).symm
    rw [hlength]
    exact List.length_filter_lt_length_iff_exists.mpr ⟨old, Dict.mem_keys_of_get? h, by simp⟩

theorem leads_iff (h : OneTarget objects) {a b : String} :
    Relation.ReflTransGen (Walk.Step (edges objects current).get? (· ∈ current)) a b ↔
      Leads objects current a b := by
  constructor
  · exact Relation.ReflTransGen.mono (fun x y hxy => ((step_iff h).mp hxy).1) _ _
  · intro hleads
    exact Relation.ReflTransGen.mono (fun x y hxy => (step_iff h).mpr hxy) _ _
      (Walk.drop_self hleads)

/-- The loop finds the first current id on the way, where there is one. -/
theorem endOf_current (h : OneTarget objects) {old target found : String}
    (hedge : (edges objects current).get? old = some target) (hfound : found ∈ current) :
    endOf (edges objects current) current old target = some found ↔
      Leads objects current old found := by
  have hstep : Walk.Step (edges objects current).get? (· ∈ current) old target :=
    ⟨((get?_edges h).mp hedge).2.2, hedge⟩
  rw [← leads_iff h]
  constructor
  · intro hend
    exact .head hstep (Walk.reached_of_follow _ _ hend)
  · intro hleads
    obtain ⟨b, hb⟩ := Option.isSome_iff_exists.mp (endOf_isSome hedge)
    obtain ⟨c, hc, hrest⟩ : ∃ c, Walk.Step (edges objects current).get? (· ∈ current) old c ∧
        Relation.ReflTransGen (Walk.Step (edges objects current).get? (· ∈ current)) c found := by
      rcases Relation.ReflTransGen.cases_head hleads with rfl | hhead
      · exact absurd hfound hstep.1
      · exact hhead
    obtain rfl := hstep.unique hc
    have hseen : ∀ s ∈ [old], Relation.TransGen
        (Walk.Step (edges objects current).get? (· ∈ current)) s target := by
      intro s hs
      exact List.mem_singleton.mp hs ▸ .single hstep
    have hgoal : b ∈ current := Walk.goal_of_follow _ _ hseen hb hrest hfound
    rw [hb, Walk.goal_unique (Walk.reached_of_follow _ _ hb) hrest hgoal hfound]

/-- The two results, with what is in them. -/
structure RetiredIds (objects : Bundle) (current : List String) (revoked : Dict String String)
    (deprecated : List String) : Prop where
  nodup : revoked.keys.Nodup
  get? : ∀ id found, revoked.get? id = some found ↔
    id ∉ current ∧ found ∈ current ∧ Leads objects current id found
  mem : ∀ id, id ∈ deprecated ↔ id ∈ retiredTechniques objects current ∧ revoked.get? id = none

/-- Every old id has an end, and the table keeps the entries whose end is current. -/
theorem mapM_endOf (objects : Bundle) (current : List String) :
    ∃ ends, ((edges objects current).sortByKey.mapM fun p =>
        (endOf (edges objects current) current p.1 p.2).map fun e => (p.1, e)) = some ends ∧
      (Dict.keys ends).Nodup ∧
      ∀ old found, (old, found) ∈ ends ↔ ∃ target, (edges objects current).get? old = some target ∧
        endOf (edges objects current) current old target = some found := by
  have hnodup : (edges objects current).keys.Nodup := nodup_edges
  have hsorted := Dict.nodup_keys_sortByKey hnodup
  have hmem : ∀ {old target}, (old, target) ∈ (edges objects current).sortByKey ↔
      (edges objects current).get? old = some target := by
    intro old target
    rw [← Dict.get?_sortByKey nodup_edges]
    exact ⟨Dict.get?_of_mem hsorted, Dict.mem_of_get?⟩
  have hgo : ∀ p ∈ (edges objects current).sortByKey,
      ((endOf (edges objects current) current p.1 p.2).map fun e => (p.1, e)).isSome = true := by
    intro p hp
    rw [Option.isSome_map]
    exact endOf_isSome (hmem.mp hp)
  have hends := mapM_eq_some_iff.mpr ⟨hgo, rfl⟩
  refine ⟨_, hends, ?_, ?_⟩
  · have hmap := eq_map_of_mapM (g := fun p =>
        (p.1, (endOf (edges objects current) current p.1 p.2).getD "")) hends (by
      intro p _ q hq
      obtain ⟨e, he, rfl⟩ := Option.map_eq_some_iff.mp hq
      rw [he, Option.getD_some])
    rw [hmap, Dict.keys, List.map_map]
    exact hsorted
  · intro old found
    rw [mem_iff_of_mapM hends]
    constructor
    · rintro ⟨⟨_, target⟩, hp, hend⟩
      obtain ⟨e, he, heq⟩ := Option.map_eq_some_iff.mp hend
      obtain ⟨rfl, rfl⟩ := Prod.mk.inj heq
      exact ⟨target, hmem.mp hp, he⟩
    · rintro ⟨target, htarget, hend⟩
      exact ⟨(old, target), hmem.mpr htarget, by rw [hend]; rfl⟩

theorem retiredIds_spec (h : OneTarget objects) :
    ∃ revoked deprecated, retiredIds objects current = some (revoked, deprecated) ∧
      RetiredIds objects current revoked deprecated := by
  obtain ⟨ends, hends, hnodup, hmem⟩ := mapM_endOf objects current
  let revoked : Dict String String := ends.filter fun p => p.2 ∈ current
  have hkeys : revoked.keys.Nodup := hnodup.sublist (List.filter_sublist.map _)
  refine ⟨revoked.sortByKey, _, by rw [retiredIds, hends]; rfl,
    Dict.nodup_keys_sortByKey hkeys, ?_, ?_⟩
  · intro id found
    have hin : (id, found) ∈ revoked ↔ (id, found) ∈ ends ∧ found ∈ current := by
      rw [List.mem_filter, decide_eq_true_iff]
    rw [Dict.get?_sortByKey hkeys, ← and_assoc]
    constructor
    · intro hget
      obtain ⟨hend, hfound⟩ := hin.mp (Dict.mem_of_get? hget)
      obtain ⟨target, htarget, hend⟩ := (hmem id found).mp hend
      exact ⟨⟨((get?_edges h).mp htarget).2.2, hfound⟩, (endOf_current h htarget hfound).mp hend⟩
    · rintro ⟨⟨hid, hfound⟩, hleads⟩
      apply Dict.get?_of_mem hkeys
      -- a way from an id that is not current begins with one of its edges
      rcases Relation.ReflTransGen.cases_head ((leads_iff h).mpr hleads) with
        rfl | ⟨target, hstep, -⟩
      · exact absurd hfound hid
      · exact hin.mpr ⟨(hmem id found).mpr ⟨target, hstep.2,
          (endOf_current h hstep.2 hfound).mpr hleads⟩, hfound⟩
  · intro id
    rw [List.mem_insertionSort, List.mem_dedup, List.mem_filter, decide_eq_true_iff,
      Dict.get?_sortByKey hkeys, Dict.get?_eq_none_iff]

end

/-! ## Resolving an id of any release -/

section
variable (objects : Bundle)

def Current (id : String) : Prop :=
  ∃ obj ∈ objects, obj.isPattern = true ∧ obj.retired = false ∧ obj.techniqueId = some id

def Retired (id : String) : Prop :=
  ∃ obj ∈ objects, obj.isPattern = true ∧ obj.retired = true ∧ obj.techniqueId = some id

def OnePattern : Prop :=
  ∀ p ∈ objects, ∀ q ∈ objects, p.isPattern = true → q.isPattern = true →
    ∀ id, p.techniqueId = some id → q.techniqueId = some id → p = q

/-- The first current id on the way of `id`. -/
def First (id found : String) : Prop :=
  Current objects found ∧
    Relation.ReflTransGen (fun a b => ¬Current objects a ∧ RevokedBy objects a b) id found

/-- What the two tables and the reader say of every id. -/
structure ResolvedToEnd (revoked : Dict String String) (deprecated : List String)
    (resolve : String → Option String × TechniqueStatus) : Prop where
  key : ∀ id, ¬Current objects id → (id ∈ revoked.keys ↔
    ∃ found, Current objects found ∧ Relation.ReflTransGen (RevokedBy objects) id found)
  value : ∀ id found, revoked.get? id = some found → First objects id found
  notCurrent : ∀ id, Current objects id → id ∉ revoked.keys
  retired : ∀ id, Retired objects id → (id ∈ revoked.keys ↔ id ∉ deprecated)
  isCurrent : ∀ id, Current objects id → resolve id = (some id, .current)
  isRevoked : ∀ id found, revoked.get? id = some found → resolve id = (some found, .revoked)
  isDeprecated : ∀ id, Retired objects id → id ∉ revoked.keys → resolve id = (none, .deprecated)
  isUnknown : ∀ id, ¬Current objects id → ¬Retired objects id → resolve id = (none, .unknown)

end

variable {capitalize : List Char → List Char} {objects : Bundle}

theorem recordOf_id {obj : StixObject} {id : String} :
    (∃ r, recordOf capitalize obj = some r ∧ r.id = id) ↔
      obj.isPattern = true ∧ obj.techniqueId = some id := by
  unfold recordOf
  by_cases hpattern : obj.isPattern = true
  · rw [if_pos hpattern]
    cases obj.techniqueId with
    | none => simp
    | some tid => simp [hpattern]
  · simp [hpattern]

theorem mem_currentIds {id : String} :
    id ∈ currentIds capitalize objects ↔ Current objects id := by
  simp only [currentIds, parents, subs, liveObjects, List.map_append, List.mem_append,
    List.mem_map, List.mem_filterMap, List.mem_filter, Bool.not_eq_true']
  constructor
  · rintro (⟨r, ⟨obj, ⟨⟨hobj, hlive⟩, -⟩, hr⟩, rfl⟩ | ⟨r, ⟨obj, ⟨⟨hobj, hlive⟩, -⟩, hr⟩, rfl⟩) <;>
    · obtain ⟨hpattern, hid⟩ := recordOf_id.mp ⟨r, hr, rfl⟩
      exact ⟨obj, hobj, hpattern, hlive, hid⟩
  · rintro ⟨obj, hobj, hpattern, hlive, hid⟩
    obtain ⟨r, hr, rfl⟩ : ∃ r, recordOf capitalize obj = some r ∧ r.id = id :=
      recordOf_id.mpr ⟨hpattern, hid⟩
    cases hsub : obj.isSubtechnique with
    | false => exact Or.inl ⟨r, ⟨obj, ⟨⟨hobj, hlive⟩, hsub⟩, hr⟩, rfl⟩
    | true => exact Or.inr ⟨r, ⟨obj, ⟨⟨hobj, hlive⟩, hsub⟩, hr⟩, rfl⟩

theorem mem_retiredTechniques {current : List String} {id : String} :
    id ∈ retiredTechniques objects current ↔ Retired objects id ∧ id ∉ current := by
  simp only [retiredTechniques, List.mem_filter, List.mem_filterMap, Bool.and_eq_true,
    decide_eq_true_iff, Retired, and_assoc]

theorem not_current_of_retired (h : OnePattern objects) {id : String} (hid : Retired objects id) :
    ¬Current objects id := by
  rintro ⟨q, hq, hpattern, hlive, hqid⟩
  obtain ⟨p, hp, hpattern', hretired, hpid⟩ := hid
  obtain rfl := h p hp q hq hpattern' hpattern id hpid hqid
  exact absurd (hlive.symm.trans hretired) (by decide)

theorem contains_extract (normaliseTactic : String → Option String) {file : MatrixFile}
    (h : extract capitalize objects = some file) (id : String) :
    (AttackMatrix.fromDict normaliseTactic file).techniqueTactics.contains id = true ↔
      Current objects id := by
  have hcurrent : id ∈ currentIds capitalize objects ↔ Current objects id := mem_currentIds
  rw [AttackMatrix.contains_techniqueTactics, ← hcurrent]
  obtain ⟨ids, -, rfl⟩ := Option.map_eq_some_iff.mp h
  simp [sortRecords, currentIds, List.mem_insertionSort]

theorem ne_empty_of_techniqueId {obj : StixObject} {id : String} (h : obj.techniqueId = some id) :
    id ≠ "" := by
  obtain ⟨ref, -, href⟩ := List.exists_of_findSome?_eq_some h
  rintro rfl
  split_ifs at href
  obtain ⟨-, hprefix⟩ := Option.filter_eq_some_iff.mp href
  exact absurd hprefix (by decide)

section
variable {revoked : Dict String String} {deprecated : List String}

theorem first_iff {id found : String}
    (h : RetiredIds objects (currentIds capitalize objects) revoked deprecated) :
    revoked.get? id = some found ↔ ¬Current objects id ∧ First objects id found := by
  rw [h.get?, mem_currentIds, mem_currentIds, First, Leads]
  simp only [mem_currentIds]

theorem key_iff {id : String} (hid : ¬Current objects id)
    (h : RetiredIds objects (currentIds capitalize objects) revoked deprecated) :
    id ∈ revoked.keys ↔
      ∃ found, Current objects found ∧ Relation.ReflTransGen (RevokedBy objects) id found := by
  constructor
  · intro hkey
    obtain ⟨⟨_, found⟩, hmem, rfl⟩ := List.mem_map.mp hkey
    have hfirst := ((first_iff h).mp (Dict.get?_of_mem h.nodup hmem)).2
    exact ⟨found, hfirst.1, Relation.ReflTransGen.mono (fun a b hab => hab.2) _ _ hfirst.2⟩
  · rintro ⟨found, hfound, hreach⟩
    obtain ⟨first, hfirst, hleads⟩ := Walk.exists_first hreach hfound
    exact Dict.mem_keys_of_get? ((first_iff h).mpr ⟨hid, hfirst, hleads⟩)

end

theorem pattern_of_patternId {ref id : String} (h : patternId objects ref = some id) :
    ∃ obj ∈ objects, obj.isPattern = true ∧ obj.techniqueId = some id := by
  obtain ⟨obj, hobj, htid⟩ := Option.bind_eq_some_iff.mp h
  obtain ⟨obj', hmem, hid⟩ :=
    List.mem_filterMap.mp (Dict.mem_ofPairs (Dict.mem_of_get? hobj))
  obtain ⟨_, -, heq⟩ := Option.map_eq_some_iff.mp hid
  obtain rfl : obj' = obj := (Prod.mk.inj heq).2
  split_ifs at htid with hpattern
  exact ⟨obj', hmem, hpattern, htid⟩

/-- Only what MITRE retired has a way on. -/
theorem retired_of_revokedBy {id next : String} (h : RevokedBy objects id next)
    (hid : ¬Current objects id) : Retired objects id := by
  obtain ⟨obj, -, hlink⟩ := h
  unfold link at hlink
  split_ifs at hlink
  obtain ⟨old, hold, hnew⟩ := Option.bind_eq_some_iff.mp hlink
  obtain ⟨_, -, heq⟩ := Option.map_eq_some_iff.mp hnew
  obtain rfl : old = id := (Prod.mk.inj heq).1
  obtain ⟨p, hp, hpattern, htid⟩ := pattern_of_patternId hold
  cases hretired : p.retired with
  | true => exact ⟨p, hp, hpattern, hretired, htid⟩
  | false => exact absurd ⟨p, hp, hpattern, hretired, htid⟩ hid

def pattern (stixId id : String) (retired : Bool) : StixObject :=
  { id := some stixId, type := some "attack-pattern", revoked := retired
    externalReferences := [⟨some "mitre-attack", some id⟩] }

def replacement (source target : String) : StixObject :=
  { type := some "relationship", relationshipType := some "revoked-by", sourceRef := source
    targetRef := target }

def chainPatterns : List (String × String × Bool) :=
  [("a", "T1", true), ("b", "T2", true), ("c", "T3", false), ("d", "T4", true), ("e", "T5", true)]

def chainBundle : Bundle :=
  chainPatterns.map (fun c => pattern c.1 c.2.1 c.2.2) ++
    [replacement "a" "b", replacement "b" "c", replacement "d" "e", replacement "e" "d"]

theorem onePattern_chainBundle : OnePattern chainBundle := by
  have hpatterns : ∀ p ∈ chainBundle, p.isPattern = true →
      ∃ c ∈ chainPatterns, p = pattern c.1 c.2.1 c.2.2 := by
    intro p hp hpattern
    rcases List.mem_append.mp hp with hp | hp
    · obtain ⟨c, hc, rfl⟩ := List.mem_map.mp hp
      exact ⟨c, hc, rfl⟩
    · simp only [List.mem_cons, List.not_mem_nil, or_false] at hp
      rcases hp with rfl | rfl | rfl | rfl
      all_goals exact absurd hpattern (by decide)
  have htid : ∀ c ∈ chainPatterns, (pattern c.1 c.2.1 c.2.2).techniqueId = some c.2.1 := by decide
  have hinj : ∀ c ∈ chainPatterns, ∀ d ∈ chainPatterns, c.2.1 = d.2.1 → c = d := by decide
  intro p hp q hq hppat hqpat id hpid hqid
  obtain ⟨c, hc, rfl⟩ := hpatterns p hp hppat
  obtain ⟨d, hd, rfl⟩ := hpatterns q hq hqpat
  have heq : c.2.1 = d.2.1 := by
    rw [htid c hc] at hpid
    rw [htid d hd] at hqid
    exact (Option.some.inj hpid).trans (Option.some.inj hqid).symm
  rw [hinj c hc d hd heq]

theorem oneTarget_chainBundle : OneTarget chainBundle := by
  have hlinks : chainBundle.filterMap (link chainBundle) =
      [("T1", "T2"), ("T2", "T3"), ("T4", "T5"), ("T5", "T4")] := by decide
  have hmem : ∀ {a b}, RevokedBy chainBundle a b →
      (a, b) ∈ [("T1", "T2"), ("T2", "T3"), ("T4", "T5"), ("T5", "T4")] := by
    rintro a b ⟨obj, hobj, hlink⟩
    exact hlinks ▸ List.mem_filterMap.mpr ⟨obj, hobj, hlink⟩
  intro a b c hb hc
  have hunique : ∀ p ∈ [("T1", "T2"), ("T2", "T3"), ("T4", "T5"), ("T5", "T4")],
      ∀ q ∈ [("T1", "T2"), ("T2", "T3"), ("T4", "T5"), ("T5", "T4")], p.1 = q.1 → p.2 = q.2 := by
    decide
  exact hunique _ (hmem hb) _ (hmem hc) rfl

end ContentOps.RefreshAttackMatrix
