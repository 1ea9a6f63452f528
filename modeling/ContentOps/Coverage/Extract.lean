import ContentOps.Core.Envelope
import ContentOps.Coverage.Matrix
import Mathlib.Data.List.Dedup
import Mathlib.Data.List.Sort

/-! The ATT&CK attribution of one detection, `coverage/extract.py`: the ids on the rule, and those
of them that count. -/

namespace ContentOps.Coverage
open PyData

/-- `str.lower`, `str.upper` and the characters that `\d` matches. -/
structure Letters where
  lower : String → String
  upper : String → String
  isDecimal : Char → Bool

/-- `ALL_TACTICS`. -/
def allTactics : List String :=
  Metadata.tactics ++ ["PreAttack", "ImpairProcessControl", "InhibitResponseFunction"]

/-- `sorted(set(values))`. -/
def sortedSet (values : List String) : List String := values.dedup.insertionSort (· ≤ ·)

theorem mem_sortedSet {values : List String} {s : String} : s ∈ sortedSet values ↔ s ∈ values := by
  rw [sortedSet, List.mem_insertionSort, List.mem_dedup]

/-- `T####` or `T####.###`. -/
def isTechniqueId (isDecimal : Char → Bool) : Text → Bool
  | 'T' :: rest =>
    let number := rest.take 4
    let part := rest.drop 4
    number.length = 4 && number.all isDecimal &&
      (part = [] || part.length = 4 && part.head? = some '.' && (part.drop 1).all isDecimal)
  | _ => false

section
variable {X : Type} (letters : Letters)

/-- `normalise_technique_id`. -/
def normaliseTechniqueId (value : String) : Option String :=
  let candidate := letters.upper (String.ofList (Text.strip value.toList))
  if isTechniqueId letters.isDecimal candidate.toList then some candidate else none

/-- `normalise_tactic`. -/
def normaliseTactic (value : String) : Option String :=
  let letter := fun c => !(Text.isSpace c || c = '_' || c = '-')
  let key := letters.lower (String.ofList (value.toList.filter letter))
  if key ∈ ["stealth", "defenseimpairment"] then some "DefenseEvasion"
  else allTactics.find? fun tactic => lowerAscii tactic = key
where
  lowerAscii (s : String) : String := String.ofList (s.toList.map Char.toLower)

/-- `_str_list`. -/
def strList : Option (Value X) → List String
  | some (.str s) => if Text.isBlank s.toList then [] else [s]
  | some (.list vs) => (vs.filterMap Value.text?).filter fun s => !Text.isBlank s.toList
  | _ => []

/-- `_normalise_severity`. -/
def normaliseSeverity : Option (Value X) → Option String
  | some (.str s) =>
    let lowered := letters.lower (String.ofList (Text.strip s.toList))
    if s ≠ "" ∧ lowered ∈ Metadata.severities then some lowered else none
  | _ => none

/-- `_tactics`. -/
def claimedTactics (values : List String) : List String :=
  (values.filterMap (normaliseTactic letters)).eraseDups

/-- The claimed tactics, the raw technique ids and the severity that one source gives. -/
structure Reading where
  tactics : List String := []
  ids : List String := []
  severity : Option String := none
deriving DecidableEq

/-- `_defender_payload`. -/
def defenderPayload (payload : Dict String (Value X)) : Reading :=
  let alert := (do
    let action ← (← payload.get? "detectionAction").dict?
    (← action.get? "alertTemplate").dict?).getD []
  { tactics := claimedTactics letters ((alert.get? "category").bind Value.text?).toList
    ids := strList (alert.get? "mitreTechniques")
    severity := normaliseSeverity letters (alert.get? "severity") }

/-- `_sentinel_hunting_payload`. -/
def sentinelHuntingPayload (payload : Dict String (Value X)) : Reading where
  tactics := claimedTactics letters (strList (payload.get? "tactics"))
  ids := strList (payload.get? "techniques") ++ strList (payload.get? "subTechniques")

/-- `_sentinel_analytic_payload`. -/
def sentinelAnalyticPayload (payload : Dict String (Value X)) : Reading :=
  { sentinelHuntingPayload letters payload with
    severity := normaliseSeverity letters (payload.get? "severity") }

/-- `_PAYLOAD_READERS`. -/
def payloadReader : Asset → Option (Dict String (Value X) → Reading)
  | .defenderCustomDetection => some (defenderPayload letters)
  | .sentinelAnalytic => some (sentinelAnalyticPayload letters)
  | .sentinelHunting => some (sentinelHuntingPayload letters)
  | _ => none

/-- `_metadata_fields`: the strict metadata, or the raw block read leniently. -/
def metadataFields (metadata : Option Reading) (rawMetadata : Option (Dict String (Value X))) :
    Reading :=
  match metadata, rawMetadata with
  | some strict, _ => strict
  | none, none => {}
  | none, some raw =>
    { tactics := claimedTactics letters (strList (raw.get? "tactics"))
      ids := strList (raw.get? "techniques")
      severity := normaliseSeverity letters (raw.get? "severity") }

/-! ## Tags -/

/-- What becomes of one id on the rule. -/
inductive Tag where
  | invalid (value : String)
  | counted (id : String)
  | remapped (id current : String)
  | deprecated (id : String)
  | unknown (id : String)
deriving DecidableEq

/-- `display`. -/
def Tag.displayed? : Tag → Option String
  | .invalid _ => none
  | .counted id | .deprecated id | .unknown id => some id
  | .remapped _ current => some current

/-- `counted`. -/
def Tag.counted? : Tag → Option String
  | .counted id => some id
  | .remapped _ current => some current
  | _ => none

def Tag.invalid? : Tag → Option String
  | .invalid value => some value
  | _ => none

def Tag.deprecated? : Tag → Option String
  | .deprecated id => some id
  | _ => none

def Tag.unknown? : Tag → Option String
  | .unknown id => some id
  | _ => none

def Tag.remapped? : Tag → Option (String × String)
  | .remapped id current => some (id, current)
  | _ => none

variable (matrix : AttackMatrix)

def tagOf (rawId : String) : Tag :=
  match normaliseTechniqueId letters rawId with
  | none => .invalid (String.ofList (Text.strip rawId.toList))
  | some id =>
    match matrix.resolve id with
    | (_, .current) => .counted id
    | (some current, .revoked) => .remapped id current
    | (_, .deprecated) => .deprecated id
    | _ => .unknown id

structure ExtractedCoverage where
  tactics : List String := []
  techniques : List String := []
  severity : String := "informational"
  techniquesWithoutTactic : List String := []
  countedTechniques : List String := []
  tacticTechniques : List (String × List String) := []
  invalidIds : List String := []
  unknownIds : List String := []
  deprecatedIds : List String := []
  remappedIds : List (String × String) := []
  tacticsInferred : Bool := false
deriving DecidableEq

/-- `techniques_for`. -/
def ExtractedCoverage.techniquesFor (m : ExtractedCoverage) (tactic : String) : List String :=
  ((m.tacticTechniques.find? fun p => p.1 = tactic).map (·.2)).getD []

/-- `extract_mitre`. -/
def extractMitre (asset : Asset) (metadata : Option Reading)
    (rawMetadata : Option (Dict String (Value X))) (payload : Dict String (Value X)) :
    ExtractedCoverage :=
  match payloadReader letters asset with
  | none => {}
  | some reader =>
    let fromPayload := reader payload
    let fromMetadata := metadataFields letters metadata rawMetadata
    let tags := (fromMetadata.ids ++ fromPayload.ids).map (tagOf letters matrix)
    let display := tags.filterMap Tag.displayed?
    let counted := sortedSet (tags.filterMap Tag.counted?)
    let claimed := (fromMetadata.tactics ++ fromPayload.tactics).eraseDups
    let inferred := claimed = [] ∧ counted ≠ []
    let tactics := (if inferred then (counted.flatMap matrix.tacticsFor).eraseDups
      else claimed).insertionSort (· ≤ ·)
    let tacticTechniques := tactics.map fun tactic =>
      (tactic, counted.filter fun id => tactic ∈ matrix.tacticsFor id)
    { tactics
      techniques := sortedSet display
      severity := (fromMetadata.severity.or fromPayload.severity).getD "informational"
      techniquesWithoutTactic := sortedSet
        (display.filter fun id => id ∉ tacticTechniques.flatMap (·.2))
      countedTechniques := counted
      tacticTechniques
      invalidIds := (tags.filterMap Tag.invalid?).eraseDups
      unknownIds := sortedSet (tags.filterMap Tag.unknown?)
      deprecatedIds := sortedSet (tags.filterMap Tag.deprecated?)
      remappedIds := (tags.filterMap Tag.remapped?).dedup.insertionSort
        fun p q => p.1 < q.1 ∨ p.1 = q.1 ∧ p.2 ≤ q.2
      tacticsInferred := inferred }

/-! ## What counts -/

variable {letters matrix}

theorem displayed?_of_counted? {tag : Tag} {id : String} (h : tag.counted? = some id) :
    tag.displayed? = some id := by
  cases tag with
  | counted => exact h
  | remapped => exact h
  | _ => exact absurd h nofun

/-- An id that counts is one of the current matrix. -/
theorem contains_of_tagOf {rawId id : String}
    (h : (tagOf letters matrix rawId).counted? = some id) :
    matrix.techniqueTactics.contains id = true := by
  unfold tagOf at h
  cases hnormal : normaliseTechniqueId letters rawId with
  | none =>
    rw [hnormal] at h
    cases h
  | some tid =>
    rw [hnormal] at h
    dsimp only [AttackMatrix.resolve] at h
    split_ifs at h with hcurrent hrevoked hdeprecated
    · exact Option.some.inj h ▸ hcurrent
    · obtain ⟨current, hget, hcontains⟩ := (Option.any_eq_true _ _).mp hrevoked
      rw [hget] at h
      obtain rfl : current = id := Option.some.inj h
      simp only [Bool.and_eq_true] at hcontains
      exact hcontains.2
    · cases h
    · cases h

section
variable {asset : Asset} {metadata : Option Reading}
  {rawMetadata : Option (Dict String (Value X))} {payload : Dict String (Value X)} {id : String}

/-- An id that counts comes from a tag, and the tags are what the rule shows. -/
theorem exists_tag_of_counted
    (h : id ∈ (extractMitre letters matrix asset metadata rawMetadata payload).countedTechniques) :
    ∃ rawIds : List String,
      (extractMitre letters matrix asset metadata rawMetadata payload).techniques =
        sortedSet ((rawIds.map (tagOf letters matrix)).filterMap Tag.displayed?) ∧
      ∃ rawId ∈ rawIds, (tagOf letters matrix rawId).counted? = some id := by
  unfold extractMitre at h ⊢
  cases hreader : payloadReader (X := X) letters asset with
  | none =>
    rw [hreader] at h
    exact absurd h List.not_mem_nil
  | some reader =>
    simp only [hreader, mem_sortedSet, List.mem_filterMap, List.mem_map] at h
    obtain ⟨tag, ⟨rawId, hmem, rfl⟩, hid⟩ := h
    exact ⟨_, rfl, rawId, hmem, hid⟩

/-- What counts is shown as well. -/
theorem mem_techniques_of_counted
    (h : id ∈ (extractMitre letters matrix asset metadata rawMetadata payload).countedTechniques) :
    id ∈ (extractMitre letters matrix asset metadata rawMetadata payload).techniques := by
  obtain ⟨rawIds, hshown, rawId, hmem, hid⟩ := exists_tag_of_counted h
  rw [hshown, mem_sortedSet]
  exact List.mem_filterMap.mpr ⟨_, List.mem_map_of_mem hmem, displayed?_of_counted? hid⟩

theorem contains_of_counted
    (h : id ∈ (extractMitre letters matrix asset metadata rawMetadata payload).countedTechniques) :
    matrix.techniqueTactics.contains id = true := by
  obtain ⟨-, -, rawId, -, hid⟩ := exists_tag_of_counted h
  exact contains_of_tagOf hid

end

end

end ContentOps.Coverage
