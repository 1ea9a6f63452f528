import ContentOps.Coverage.Corpus
import Mathlib.Algebra.GroupWithZero.Nat

/-! The heatmap of `coverage/report.py` and the gaps report of `coverage/gaps.py`: the detections by
tactic, and the techniques of a reference list that they leave uncovered. -/

namespace ContentOps.Coverage
open PyData

/-! ## The heatmap -/

structure TacticCoverage where
  tactic : String
  detectionCount : ℕ := 0
  techniques : Dict String ℕ := []
  bySeverity : Dict String ℕ := Metadata.severities.map fun severity => (severity, 0)
  productionDetectionCount : ℕ := 0

/-- `counts[key] = counts.get(key, 0) + 1`. -/
def bump (counts : Dict String ℕ) (key : String) : Dict String ℕ :=
  counts.set key ((counts.get? key).getD 0 + 1)

/-- What an entry adds to the bucket of a tactic that it claims. -/
def TacticCoverage.add (bucket : TacticCoverage) (e : CorpusEntry) : TacticCoverage :=
  { bucket with
    detectionCount := bucket.detectionCount + 1
    productionDetectionCount :=
      bucket.productionDetectionCount + if e.status = "production" then 1 else 0
    bySeverity := bump bucket.bySeverity e.mitre.severity
    techniques := (e.mitre.techniquesFor bucket.tactic).foldl bump bucket.techniques }

/-- The bucket of a tactic after the loop over the entries. -/
def bucketOf (entries : List CorpusEntry) (tactic : String) : TacticCoverage :=
  (entries.flatMap fun e => (e.mitre.tactics.filter (· = tactic)).map fun _ => e).foldl
    TacticCoverage.add { tactic }

structure CoverageReport where
  tactics : List TacticCoverage
  totalDetections : ℕ
  totalWithMitreData : ℕ
  totalProductionDetections : ℕ
  scopeLabel : String
  productionOnly : Bool
  coveredTechniques : Option (Finset String)
  attackVersion : String

def CoveredIds.ids (covered : CoveredIds) : Finset String :=
  covered.techniques ∪ covered.subTechniques

/-- `compute_coverage`. -/
def computeCoverage (c : Corpus) : CoverageReport where
  tactics := allTactics.map (bucketOf c.inScope)
  totalDetections := c.inScope.length
  totalWithMitreData := c.inScope.countP fun e => e.mitre.tactics ≠ [] ∨ e.mitre.techniques ≠ []
  totalProductionDetections := c.inScope.countP fun e => e.status = "production"
  scopeLabel := c.scope.label
  productionOnly := c.scope.productionOnly
  coveredTechniques := some c.covered.ids
  attackVersion := c.matrix.attackVersion

/-! ## Reference lists -/

structure TechniqueRef where
  id : String
  name : String
  tactics : List String
deriving DecidableEq

/-- `_dedupe`: the first entry with each id. -/
def dedupeRefs : List TechniqueRef → List TechniqueRef
  | [] => []
  | ref :: refs => ref :: (dedupeRefs refs).filter fun r => r.id ≠ ref.id

/-- `_resolve_reference` of one entry. -/
def resolveRef (matrix : AttackMatrix) (matrixTactics : Bool) (ref : TechniqueRef) : TechniqueRef :=
  match matrix.resolve ref.id with
  | (none, _) => ref
  | (some current, status) =>
    let name := matrix.names.get? current
    if matrixTactics then
      { id := current, name := name.getD ref.name, tactics := matrix.tacticsFor current }
    else if status = .revoked then
      { id := current
        name := if ref.name = "" then name.getD "" else ref.name
        tactics := if ref.tactics = [] then matrix.tacticsFor current else ref.tactics }
    else ref

/-- `_resolve_reference`. -/
def resolveReference (matrix : AttackMatrix) (matrixTactics : Bool) (refs : List TechniqueRef) :
    List TechniqueRef := dedupeRefs (refs.map (resolveRef matrix matrixTactics))

/-- The full reference of `load_techniques`. -/
def fullReference (matrix : AttackMatrix) : List TechniqueRef :=
  (sortedSet matrix.techniques ++ sortedSet matrix.subTechniques).map fun id =>
    { id, name := (matrix.names.get? id).getD "", tactics := matrix.tacticsFor id }

/-! ## The gaps -/

structure TacticGaps where
  tactic : String
  uncovered : List TechniqueRef := []
  coveredCount : ℕ := 0
  totalInTactic : ℕ := 0

/-- One cell of the table. -/
def TacticGaps.add (covered : Finset String) (bucket : TacticGaps) (tech : TechniqueRef) :
    TacticGaps :=
  let bucket := { bucket with totalInTactic := bucket.totalInTactic + 1 }
  if tech.id ∈ covered then { bucket with coveredCount := bucket.coveredCount + 1 }
  else { bucket with uncovered := bucket.uncovered ++ [tech] }

/-- The cells of a tactic, one for each time that an entry names it. -/
def cellsOf (techniques : List TechniqueRef) (tactic : String) : List TechniqueRef :=
  techniques.flatMap fun tech => (tech.tactics.filter (· = tactic)).map fun _ => tech

/-- The bucket of a tactic after the loop over the reference. -/
def gapsOf (covered : Finset String) (techniques : List TechniqueRef) (tactic : String) :
    TacticGaps :=
  let bucket := (cellsOf techniques tactic).foldl (TacticGaps.add covered) { tactic }
  { bucket with uncovered := bucket.uncovered.insertionSort fun a b => a.id ≤ b.id }

structure GapsReport where
  tactics : List TacticGaps
  techniquesSource : String
  totalTechniques : ℕ
  totalUncovered : ℕ
  referenceCount : ℕ
  techniquesTotal : ℕ
  techniquesCovered : ℕ
  subTechniquesTotal : ℕ
  subTechniquesCovered : ℕ
  scopeLabel : String

/-- `_covered_technique_ids`. -/
def coveredTechniqueIds (report : CoverageReport) : Finset String :=
  let covered := match report.coveredTechniques with
    | some ids => ids
    | none => (report.tactics.flatMap fun t => t.techniques.keys).toFinset
  covered ∪ (covered.filter fun id => isSub id = true).image parentOf

/-- `compute_gaps`. -/
def computeGaps (report : CoverageReport) (techniques : List TechniqueRef) (source : String) :
    GapsReport :=
  let covered := coveredTechniqueIds report
  let tactics := allTactics.map (gapsOf covered techniques)
  let distinct := (techniques.map (·.id)).toFinset
  let parents := distinct.filter fun id => isSub id = false
  let subs := distinct \ parents
  { tactics
    techniquesSource := source
    totalTechniques := (tactics.map (·.totalInTactic)).sum
    totalUncovered := (tactics.map (·.uncovered.length)).sum
    referenceCount := distinct.card
    techniquesTotal := parents.card
    techniquesCovered := (parents ∩ covered).card
    subTechniquesTotal := subs.card
    subTechniquesCovered := (subs ∩ covered).card
    scopeLabel := report.scopeLabel }

/-! ## Loops -/

section
variable {covered : Finset String} {techniques : List TechniqueRef} {tactic id : String}

/-- What the loop keeps: every cell is counted on one side, and the uncovered ones are cells that
are not covered. -/
structure TacticGaps.Counts (covered : Finset String) (cells : List TechniqueRef) (g : TacticGaps) :
    Prop where
  total : g.coveredCount + g.uncovered.length = g.totalInTactic
  uncovered : ∀ tech, tech ∈ g.uncovered ↔ tech ∈ cells ∧ tech.id ∉ covered

theorem TacticGaps.Counts.add {cells : List TechniqueRef} {g : TacticGaps}
    (h : g.Counts covered cells) (tech : TechniqueRef) :
    (g.add covered tech).Counts covered (cells ++ [tech]) := by
  obtain ⟨htotal, huncovered⟩ := h
  unfold TacticGaps.add
  split_ifs with hcovered
  · refine ⟨by dsimp only; omega, fun t => ?_⟩
    rw [huncovered, List.mem_append, List.mem_singleton]
    constructor
    · rintro ⟨hmem, hnot⟩
      exact ⟨Or.inl hmem, hnot⟩
    · rintro ⟨hmem | rfl, hnot⟩
      · exact ⟨hmem, hnot⟩
      · exact absurd hcovered hnot
  · refine ⟨by simp only [List.length_append, List.length_singleton]; omega, fun t => ?_⟩
    rw [List.mem_append, List.mem_append, huncovered, List.mem_singleton]
    constructor
    · rintro (⟨hmem, hnot⟩ | rfl)
      · exact ⟨Or.inl hmem, hnot⟩
      · exact ⟨Or.inr rfl, hcovered⟩
    · rintro ⟨hmem | rfl, hnot⟩
      · exact Or.inl ⟨hmem, hnot⟩
      · exact Or.inr rfl

theorem counts_gapsOf (covered : Finset String) (techniques : List TechniqueRef) (tactic : String) :
    (gapsOf covered techniques tactic).Counts covered (cellsOf techniques tactic) := by
  have hloop : ∀ (cells before : List TechniqueRef) (g : TacticGaps), g.Counts covered before →
      (cells.foldl (TacticGaps.add covered) g).Counts covered (before ++ cells) := by
    intro cells
    induction cells with
    | nil => exact fun before g h => (List.append_nil before).symm ▸ h
    | cons tech cells ih =>
      intro before g h
      have hnext := ih _ _ (h.add tech)
      rwa [List.append_assoc] at hnext
  have hstart : TacticGaps.Counts covered [] { tactic } := ⟨rfl, fun tech => by simp⟩
  obtain ⟨htotal, huncovered⟩ := hloop (cellsOf techniques tactic) [] _ hstart
  refine ⟨?_, fun tech => ?_⟩
  · rw [gapsOf]
    dsimp only
    rw [List.length_insertionSort]
    exact htotal
  · rw [gapsOf]
    dsimp only
    rw [List.mem_insertionSort]
    exact huncovered tech

theorem mem_cellsOf {tech : TechniqueRef} :
    tech ∈ cellsOf techniques tactic ↔ tech ∈ techniques ∧ tactic ∈ tech.tactics := by
  rw [cellsOf, List.mem_flatMap]
  constructor
  · rintro ⟨ref, href, hmem⟩
    obtain ⟨t, ht, rfl⟩ := List.mem_map.mp hmem
    obtain ⟨htactic, heq⟩ := List.mem_filter.mp ht
    exact ⟨href, of_decide_eq_true heq ▸ htactic⟩
  · rintro ⟨hmem, htactic⟩
    refine ⟨tech, hmem, List.mem_map.mpr ⟨tactic, List.mem_filter.mpr ⟨htactic, ?_⟩, rfl⟩⟩
    exact decide_eq_true rfl

/-- An id is reported for some tactic exactly when an entry with it has a known tactic. -/
theorem exists_uncovered_iff :
    (∃ g ∈ allTactics.map (gapsOf covered techniques), ∃ tech ∈ g.uncovered, tech.id = id) ↔
      id ∉ covered ∧ ∃ tech ∈ techniques, tech.id = id ∧ ∃ t ∈ tech.tactics, t ∈ allTactics := by
  constructor
  · rintro ⟨g, hg, tech, htech, rfl⟩
    obtain ⟨t, ht, rfl⟩ := List.mem_map.mp hg
    obtain ⟨hcell, hnot⟩ := ((counts_gapsOf covered techniques t).uncovered tech).mp htech
    obtain ⟨hmem, htactic⟩ := mem_cellsOf.mp hcell
    exact ⟨hnot, tech, hmem, rfl, t, htactic, ht⟩
  · rintro ⟨hnot, tech, hmem, rfl, t, htactic, ht⟩
    refine ⟨_, List.mem_map_of_mem ht, tech, ?_, rfl⟩
    exact ((counts_gapsOf covered techniques t).uncovered tech).mpr
      ⟨mem_cellsOf.mpr ⟨hmem, htactic⟩, hnot⟩

theorem mem_keys_bump {counts : Dict String ℕ} {key : String} (h : id ∈ (bump counts key).keys) :
    id = key ∨ id ∈ counts.keys := by
  obtain ⟨p, hp, rfl⟩ := List.mem_map.mp h
  rcases Dict.mem_set hp with rfl | hmem
  · exact Or.inl rfl
  · exact Or.inr (List.mem_map_of_mem hmem)

theorem mem_keys_foldl_bump {keys : List String} {counts : Dict String ℕ}
    (h : id ∈ (keys.foldl bump counts).keys) : id ∈ keys ∨ id ∈ counts.keys := by
  induction keys generalizing counts with
  | nil => exact Or.inr h
  | cons key keys ih =>
    rcases ih h with hmem | hmem
    · exact Or.inl (List.mem_cons_of_mem _ hmem)
    · rcases mem_keys_bump hmem with rfl | hmem
      · exact Or.inl List.mem_cons_self
      · exact Or.inr hmem

theorem mem_keys_bucket {entries : List CorpusEntry} {bucket : TacticCoverage}
    (h : id ∈ (entries.foldl TacticCoverage.add bucket).techniques.keys) :
    id ∈ bucket.techniques.keys ∨ ∃ e ∈ entries, ∃ t, id ∈ e.mitre.techniquesFor t := by
  induction entries generalizing bucket with
  | nil => exact Or.inl h
  | cons e entries ih =>
    rcases ih h with hmem | ⟨e', he', t, hid⟩
    · rcases mem_keys_foldl_bump hmem with hid | hmem
      · exact Or.inr ⟨e, List.mem_cons_self, _, hid⟩
      · exact Or.inl hmem
    · exact Or.inr ⟨e', List.mem_cons_of_mem _ he', t, hid⟩

theorem mem_keys_bucketOf {entries : List CorpusEntry}
    (h : id ∈ (bucketOf entries tactic).techniques.keys) :
    ∃ e ∈ entries, ∃ t, id ∈ e.mitre.techniquesFor t := by
  rcases mem_keys_bucket h with hnil | ⟨e, he, t, hid⟩
  · exact absurd hnil List.not_mem_nil
  · obtain ⟨e', he', hmem⟩ := List.mem_flatMap.mp he
    obtain ⟨-, -, rfl⟩ := List.mem_map.mp hmem
    exact ⟨e', he', t, hid⟩

end

end ContentOps.Coverage
