import ContentOps.Coverage.Corpus
import ContentOps.Library.JsonRoundTrip

/-! The report's rows and summary, `report/assemble.py`, and the snapshot of them that the next
report is compared with, `report/snapshot.py`. -/

namespace ContentOps.Report
open PyData Coverage

structure ReportRow where
  ruleId : String
  assetKind : String
  status : String
  severity : String
  tactics : List String
  techniques : List String
  inCoverageScope : Bool
deriving DecidableEq

structure ReportSummary where
  total : ℕ
  production : ℕ
  experimental : ℕ
  deprecated : ℕ
  coverageCovered : ℕ
  coverageTotal : ℕ
  generatedAt : String
  coverageTacticsCovered : ℕ
  coverageTacticsTotal : ℕ
  coverageSubTechniquesCovered : ℕ
  coverageSubTechniquesTotal : ℕ
  inScopeDetections : ℕ
  coverageScope : String
  attackVersion : String

def reportRow (e : CorpusEntry) : ReportRow where
  ruleId := e.id
  assetKind := e.asset.value
  status := e.status
  severity := e.mitre.severity
  tactics := e.mitre.tactics
  techniques := e.mitre.techniques
  inCoverageScope := e.inScope

def statusCount (c : Corpus) (status : String) : ℕ := c.entries.countP fun e => e.status = status

/-- `assemble_report` of a corpus; the telemetry fields of the rows are filled in later. -/
def assembleReport (c : Corpus) (generatedAt : String) : List ReportRow × ReportSummary :=
  let rows := c.entries.map reportRow
  let cov := summaryFromCorpus c
  (rows,
    { total := rows.length
      production := statusCount c "production"
      experimental := statusCount c "experimental"
      deprecated := statusCount c "deprecated"
      coverageCovered := cov.techniques.covered
      coverageTotal := cov.techniques.total
      generatedAt
      coverageTacticsCovered := cov.tactics.covered
      coverageTacticsTotal := cov.tactics.total
      coverageSubTechniquesCovered := cov.subTechniques.covered
      coverageSubTechniquesTotal := cov.subTechniques.total
      inScopeDetections := cov.detectionsInScope
      coverageScope := cov.scopeLabel
      attackVersion := cov.attackVersion })

section
variable {X : Type}

/-! ## The snapshot -/

def texts (values : List String) : Value X := .list (values.map .str)

def ruleValue (r : ReportRow) : Value X := .dict
  [("rule_id", .str r.ruleId), ("status", .str r.status), ("severity", .str r.severity),
    ("asset_kind", .str r.assetKind), ("techniques", texts r.techniques),
    ("tactics", texts r.tactics), ("in_scope", .bool r.inCoverageScope)]

def summaryEntries (s : ReportSummary) : Dict String (Value X) :=
  [("total", .int s.total), ("production", .int s.production),
    ("experimental", .int s.experimental), ("deprecated", .int s.deprecated),
    ("coverage_tactics_covered", .int s.coverageTacticsCovered),
    ("coverage_tactics_total", .int s.coverageTacticsTotal),
    ("coverage_techniques_covered", .int s.coverageCovered),
    ("coverage_techniques_total", .int s.coverageTotal),
    ("coverage_sub_techniques_covered", .int s.coverageSubTechniquesCovered),
    ("coverage_sub_techniques_total", .int s.coverageSubTechniquesTotal),
    ("attack_version", .str s.attackVersion), ("coverage_scope", .str s.coverageScope),
    ("in_scope_detections", .int s.inScopeDetections)]

def snapshotEntries (rows : List ReportRow) (s : ReportSummary) : Dict String (Value X) :=
  [("schema_version", .int 2), ("generated_at", .str s.generatedAt),
    ("summary", .dict (summaryEntries s)),
    ("rules", .list ((rows.insertionSort fun r t => r.ruleId ≤ t.ruleId).map ruleValue))]

variable [Json.FloatText X] [Value.ScalarEq X]

/-- `render_snapshot`. -/
def renderSnapshot (rows : List ReportRow) (s : ReportSummary) : Text :=
  Json.dumps (X := X) (Json.indent2 true) (Value.sortKeys (.dict (snapshotEntries rows s))) ++
    ['\n']

/-! ## The comparison -/

structure ReportDelta where
  previousDate : String
  totalDelta : ℤ
  productionDelta : ℤ
  experimentalDelta : ℤ
  deprecatedDelta : ℤ
  newRuleIds : List String
  removedRuleIds : List String
  newTechniques : List String
  newSubTechniques : List String
  coverageTechniquesDelta : ℤ
  coverageSubTechniquesDelta : ℤ
  coverageComparable : Bool
  coverageNote : String
deriving DecidableEq

-- Python's `str` and `int` of a value; `none` is an exception.
variable (str : Value X → String) (int : Value X → Option ℤ)

/-- `str(summary.get(key) or "")`. -/
def textOr (summary : Dict String (Value X)) (key : String) : String :=
  match summary.get? key with
  | some (.str s) => s
  | some v => if v.truthy then str v else ""
  | none => ""

/-- `int(summary.get(key, 0))`. -/
def countAt (summary : Dict String (Value X)) (key : String) : Option ℤ :=
  int ((summary.get? key).getD (.int 0))

/-- `int(summary.get(key, 0) or 0)`. -/
def countOr (summary : Dict String (Value X)) (key : String) : Option ℤ :=
  int (((summary.get? key).getD (.int 0)).orElse (.int 0))

def versionName (version : String) : String :=
  if version = "" then "an unrecorded version" else "v" ++ version

/-- `_coverage_comparability`. -/
def coverageComparability (previous : Dict String (Value X)) (current : ReportSummary) :
    Option String :=
  let version := textOr str previous "attack_version"
  if version ≠ current.attackVersion then
    some ("ATT&CK matrix changed (" ++ versionName version ++ " -> " ++
      versionName current.attackVersion ++ "); coverage change not comparable")
  else if textOr str previous "coverage_scope" ≠ current.coverageScope then
    some "coverage scope changed; coverage change not comparable"
  else do
    let sizeNote := "ATT&CK matrix size changed; coverage change not comparable"
    let techniques ← countOr int previous "coverage_techniques_total"
    if techniques ≠ current.coverageTotal then pure sizeNote
    else
      let subTechniques ← countOr int previous "coverage_sub_techniques_total"
      if subTechniques ≠ current.coverageSubTechniquesTotal then pure sizeNote else pure ""

/-- The techniques that in-scope rules show, as parents. -/
def parentsOf (rules : List (List String)) : Finset String := (rules.flatten.map parentOf).toFinset

def subsOf (rules : List (List String)) : Finset String := (rules.flatten.filter isSub).toFinset

/-- The texts of a rule's `techniques`, when it is a list. -/
def textsOf : Option (Value X) → List String
  | some (.list vs) => vs.filterMap Value.text?
  | _ => []

/-- The techniques of a snapshot's rules that are in scope. -/
def shownIn (rules : List (Value X)) : List (List String) :=
  rules.filterMap fun r => r.dict?.bind fun d =>
    if d.get? "in_scope" matches some (.bool false) then none
    else some (textsOf (d.get? "techniques"))

def idsIn (rules : List (Value X)) : Finset String :=
  (rules.filterMap fun r => r.dict?.bind fun d => (d.get? "rule_id").bind Value.text?).toFinset

def sorted {α : Type} [LinearOrder α] (ids : Finset α) : List α := ids.sort (· ≤ ·)

/-- `previous.get(key, default) or default`. -/
def section? (previous : Dict String (Value X)) (key : String) : Option (Value X) :=
  (previous.get? key).filter Value.truthy

def rulesOf (previous : Dict String (Value X)) : List (Value X) :=
  match section? previous "rules" with
  | some (.list rules) => rules
  | _ => []

/-- A covered count, which is read where the reports are comparable. -/
def coveredAt (note : String) (summary : Dict String (Value X)) (key : String) : Option ℤ :=
  if note = "" then countAt int summary key else some 0

/-- `compute_delta` of a snapshot whose `summary` is a mapping and whose `rules` are a list; `none`
is an exception. -/
def computeDelta (previous : Dict String (Value X)) (rows : List ReportRow)
    (current : ReportSummary) : Option ReportDelta := do
  let summary ← ((section? previous "summary").getD (.dict [])).dict?
  let rules := rulesOf previous
  let shown := (rows.filter (·.inCoverageScope)).map (·.techniques)
  let ids := (rows.map (·.ruleId)).toFinset
  let generatedAt := Value.textAt previous "generated_at"
  let note ← coverageComparability str int summary current
  let total ← countAt int summary "total"
  let production ← countAt int summary "production"
  let experimental ← countAt int summary "experimental"
  let deprecated ← countAt int summary "deprecated"
  let techniques ← coveredAt int note summary "coverage_techniques_covered"
  let subTechniques ← coveredAt int note summary "coverage_sub_techniques_covered"
  pure
    { previousDate := if 10 ≤ generatedAt.length then String.ofList (generatedAt.toList.take 10)
        else "unknown"
      totalDelta := current.total - total
      productionDelta := current.production - production
      experimentalDelta := current.experimental - experimental
      deprecatedDelta := current.deprecated - deprecated
      newRuleIds := sorted (ids \ idsIn rules)
      removedRuleIds := sorted (idsIn rules \ ids)
      newTechniques :=
        if note = "" then sorted (parentsOf shown \ parentsOf (shownIn rules)) else []
      newSubTechniques := if note = "" then sorted (subsOf shown \ subsOf (shownIn rules)) else []
      coverageTechniquesDelta := if note = "" then current.coverageCovered - techniques else 0
      coverageSubTechniquesDelta :=
        if note = "" then current.coverageSubTechniquesCovered - subTechniques else 0
      coverageComparable := note = ""
      coverageNote := note }

end

end ContentOps.Report
