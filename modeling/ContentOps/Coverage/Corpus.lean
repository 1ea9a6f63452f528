import ContentOps.Coverage.Extract
import ContentOps.Defender.Deploy
import Mathlib.Data.Finset.Sort

/-! The detections of the coverage reports, `coverage/corpus.py`: which of them count, and what they
cover in the matrix. -/

namespace ContentOps.Coverage
open PyData

/-! ## Scope -/

inductive Exclusion where
  | disabled
  | hunting
  | nonProduction
deriving DecidableEq

structure CoverageScope where
  productionOnly : Bool := true
  includeHunting : Bool := false
deriving DecidableEq

namespace CoverageScope

def exclusionReason (scope : CoverageScope) (asset : Asset) (status : String) (enabled : Bool) :
    Option Exclusion :=
  if status = "deprecated" ∨ enabled = false then some .disabled
  else if asset = .sentinelHunting ∧ scope.includeHunting = false then some .hunting
  else if scope.productionOnly = true ∧ status ≠ "production" then some .nonProduction
  else none

def label (scope : CoverageScope) : String :=
  (if scope.productionOnly then "enabled production detections"
    else "enabled detections of any status") ++
    " (hunting queries " ++ (if scope.includeHunting then "included" else "excluded") ++ ")"

end CoverageScope

section
variable {X : Type}

/-- `is_detection_enabled`. -/
def isDetectionEnabled (asset : Asset) (payload : Dict String (Value X)) : Bool :=
  match asset with
  | .sentinelAnalytic => !(payload.get? "enabled" matches some (.bool false))
  | .defenderCustomDetection => Defender.ruleStatus payload = "enabled"
  | _ => true

/-! ## Entries -/

/-- A detection file as `_parse_with_salvage` reads it, with the raw `status` and `metadata` of the
document. -/
structure Parsed (X : Type) where
  id : String
  asset : Asset
  status : String
  metadata : Option Reading
  rawMetadata : Option (Dict String (Value X))
  payload : Dict String (Value X)

structure CorpusEntry where
  id : String
  asset : Asset
  status : String
  enabled : Bool
  mitre : ExtractedCoverage
  exclusion : Option Exclusion
deriving DecidableEq

def CorpusEntry.inScope (e : CorpusEntry) : Bool := e.exclusion.isNone

structure Corpus where
  scope : CoverageScope
  matrix : AttackMatrix
  entries : List CorpusEntry

def Corpus.inScope (c : Corpus) : List CorpusEntry := c.entries.filter CorpusEntry.inScope

variable (letters : Letters)

/-- `entry_for` of a detection. -/
def entryFor (scope : CoverageScope) (matrix : AttackMatrix) (doc : Parsed X) : CorpusEntry :=
  let status := letters.lower (String.ofList (Text.strip doc.status.toList))
  let enabled := isDetectionEnabled doc.asset doc.payload
  { id := doc.id
    asset := doc.asset
    status
    enabled
    mitre := extractMitre letters matrix doc.asset doc.metadata doc.rawMetadata doc.payload
    exclusion := scope.exclusionReason doc.asset status enabled }

/-- `load_corpus` over the detections that a tree holds. -/
def loadCorpus (scope : CoverageScope) (matrix : AttackMatrix) (docs : List (Parsed X)) :
    Corpus where
  scope := scope
  matrix := matrix
  entries := (docs.filter fun doc => (payloadReader (X := X) letters doc.asset).isSome).map
    (entryFor letters scope matrix)

end

/-! ## What is covered -/

/-- `tid.split(".", 1)[0]`. -/
def parentOf (id : String) : String := String.ofList (id.toList.takeWhile (· ≠ '.'))

def isSub (id : String) : Bool := '.' ∈ id.toList

structure CoveredIds where
  tactics : Finset String
  techniques : Finset String
  subTechniques : Finset String

/-- `covered_ids`. -/
def coveredIds (entries : List CorpusEntry) (matrix : AttackMatrix) : CoveredIds :=
  let counted := entries.flatMap fun e => e.mitre.countedTechniques
  { tactics := ((entries.flatMap fun e => e.mitre.tactics).filter (· ∈ matrix.tactics)).toFinset
    techniques := ((counted.map parentOf).filter (· ∈ matrix.techniques)).toFinset
    subTechniques := (counted.filter (· ∈ matrix.subTechniques)).toFinset }

def Corpus.covered (c : Corpus) : CoveredIds := coveredIds c.inScope c.matrix

structure CoverageLevel where
  covered : ℕ
  total : ℕ

structure CoverageSummary where
  tactics : CoverageLevel
  techniques : CoverageLevel
  subTechniques : CoverageLevel
  attackVersion : String
  scopeLabel : String
  detectionsInScope : ℕ

/-- `summary_from_corpus`. -/
def summaryFromCorpus (c : Corpus) : CoverageSummary where
  tactics := ⟨c.covered.tactics.card, c.matrix.tactics.toFinset.card⟩
  techniques := ⟨c.covered.techniques.card, c.matrix.techniques.toFinset.card⟩
  subTechniques := ⟨c.covered.subTechniques.card, c.matrix.subTechniques.toFinset.card⟩
  attackVersion := c.matrix.attackVersion
  scopeLabel := c.scope.label
  detectionsInScope := c.inScope.length

section
variable {c : Corpus} {id : String}

theorem mem_covered_techniques : id ∈ c.covered.techniques ↔
    id ∈ c.matrix.techniques ∧
      ∃ e ∈ c.inScope, ∃ tid ∈ e.mitre.countedTechniques, parentOf tid = id := by
  simp only [Corpus.covered, coveredIds, List.mem_toFinset, List.mem_filter, decide_eq_true_iff,
    List.mem_map, List.mem_flatMap]
  constructor
  · rintro ⟨⟨tid, ⟨e, he, htid⟩, rfl⟩, hmatrix⟩
    exact ⟨hmatrix, e, he, tid, htid, rfl⟩
  · rintro ⟨hmatrix, e, he, tid, htid, rfl⟩
    exact ⟨⟨tid, ⟨e, he, htid⟩, rfl⟩, hmatrix⟩

theorem mem_covered_subTechniques : id ∈ c.covered.subTechniques ↔
    id ∈ c.matrix.subTechniques ∧ ∃ e ∈ c.inScope, id ∈ e.mitre.countedTechniques := by
  simp only [Corpus.covered, coveredIds, List.mem_toFinset, List.mem_filter, decide_eq_true_iff,
    List.mem_flatMap]
  exact and_comm

end

section
variable {X : Type} {letters : Letters} {scope : CoverageScope} {matrix : AttackMatrix}
  {docs : List (Parsed X)} {e : CorpusEntry} {id : String}

theorem mem_inScope_loadCorpus (h : e ∈ (loadCorpus letters scope matrix docs).inScope) :
    ∃ doc ∈ docs, e = entryFor letters scope matrix doc := by
  obtain ⟨doc, hdoc, rfl⟩ := List.mem_map.mp (List.mem_filter.mp h).1
  exact ⟨doc, (List.mem_filter.mp hdoc).1, rfl⟩

theorem shown_of_counted (h : e ∈ (loadCorpus letters scope matrix docs).inScope)
    (hid : id ∈ e.mitre.countedTechniques) : id ∈ e.mitre.techniques := by
  obtain ⟨doc, -, rfl⟩ := mem_inScope_loadCorpus h
  exact mem_techniques_of_counted hid

end

end ContentOps.Coverage
