import ContentOps.Audit.Writer
import ContentOps.Core.Drift
import ContentOps.Library.Latest
import ContentOps.State

/-! What the audit chain tells about an asset: the row of `status/deployments.py`, where the index
knows a record by its id alone, and the deployment date of `report/assemble.py`, where a successful
delete counts as a deployment. -/

namespace ContentOps.Status
open PyData Audit

section
variable {X : Type} [Value.ScalarEq X] (str : Value X → String)

/-- `str(rec.get(key) or "")`. -/
def textOr (rec : Document X) (key : String) : String :=
  match Value.get rec key with
  | .str s => s
  | v => if v.truthy then str v else ""

/-- What an f-string makes of `rec.get(key, "")`. -/
def shownText (rec : Document X) (key : String) : String :=
  match rec.get? key with
  | none => ""
  | some (.str s) => s
  | some v => str v

/-! ## The index -/

/-- The lines of `audit/*.jsonl` that are JSON. -/
def auditValues [Json.FloatText X] (dir : AuditDir) : List (Value X) :=
  (((dir.glob isJsonl).flatMap fun file => (Text.splitlines file.2).map Text.strip).filter
    (· ≠ [])).filterMap Json.loads

/-- A record under its id; a record without one is left out. -/
def indexed (records : List (Document X)) : List (String × Document X) :=
  (records.map fun rec => (textOr str rec "id", rec)).filter fun p => p.1 ≠ ""

/-- `_latest_audit_index`, of the records of the chain. -/
def latestAuditIndex (records : List (Document X)) : Dict String (Document X) :=
  latestByKey (fun rec => textOr str rec "timestamp") (indexed str records)

inductive DeployClass where
  | inSync
  | failed
  | unmanaged
  | orphan
deriving DecidableEq, Repr

/-- `_classify`. -/
def classify (inGit inState : Bool) (stateStatus lastAuditStatus : String) : DeployClass :=
  if !inGit && inState then .orphan
  else if inGit && !inState then .unmanaged
  else if stateStatus = "failed" ∨ lastAuditStatus = "failed" then .failed
  else .inSync

structure RowData where
  inGit : Bool := false
  inState : Bool := false
  stateStatus : String := ""
  lastAppliedAt : String := ""
  lastAppliedSha : String := ""

abbrev Rows := Dict String (Dict String RowData)

/-- `rows.setdefault(kind, {}).setdefault(id, {})`, changed. -/
def Rows.update (rows : Rows) (kind id : String) (f : RowData → RowData) : Rows :=
  let kindRows := (rows.get? kind).getD []
  rows.set kind (kindRows.set id (f ((kindRows.get? id).getD {})))

/-- `_discover_kinds`. -/
def discoverKinds [Json.FloatText X] (libs : Libs X) (tree : FileTree)
    (detectionsRoot : Path) (state : EnvState) : Rows :=
  let fromGit := (loadedAssets libs tree detectionsRoot).foldl (fun (rows : Rows) la =>
    rows.update la.envelope.asset.value la.envelope.id fun data => { data with inGit := true }) []
  state.managedAssets.foldl (fun rows bucket => bucket.2.1.foldl (fun rows entry =>
    rows.update bucket.1 entry.1 fun data =>
      { data with
        inState := true
        stateStatus := entry.2.status
        lastAppliedAt := entry.2.lastAppliedAt
        lastAppliedSha := entry.2.lastAppliedSha }) rows) fromGit

/-- A row of the table, before its cells are escaped. -/
structure DeploymentRow where
  assetId : String
  cls : DeployClass
  adopted : Bool
  lastApplied : String
  sha : String
  lastAudit : String
deriving DecidableEq, Repr

/-- The text `action (status)` of a record. -/
def auditText (rec : Document X) : String :=
  shownText str rec "action" ++ " (" ++ shownText str rec "status" ++ ")"

def rowClass (data : RowData) (rec : Document X) : DeployClass :=
  classify data.inGit data.inState data.stateStatus (textOr str rec "status")

def deploymentRow (index : Dict String (Document X)) (id : String) (data : RowData) :
    DeploymentRow :=
  let rec' := (index.get? id).getD []
  let cls := rowClass str data rec'
  { assetId := id
    cls := cls
    adopted := decide (cls = .inSync) && decide (data.stateStatus = "adopted")
    lastApplied := if data.lastAppliedAt = "" then "—" else data.lastAppliedAt
    sha := if data.lastAppliedSha = "" then "—" else (data.lastAppliedSha.take 8).toString
    lastAudit := if rec'.isEmpty then "—" else auditText str rec' }

/-- The tables of the page, by kind. -/
def deploymentTables (rows : Rows) (records : List (Document X)) :
    Dict String (Dict String DeploymentRow) :=
  let index := latestAuditIndex str records
  rows.mapVals fun kindRows => kindRows.map fun p => (p.1, deploymentRow str index p.1 p.2)

/-- `render_deployments`, as far as its tables; `none` is `AttributeError`, for a line that is JSON
and no object. -/
def renderDeployments (rows : Rows) (values : List (Value X)) :
    Option (Dict String (Dict String DeploymentRow)) :=
  (values.mapM Value.dict?).map (deploymentTables str rows)

/-- The class and the last-audit cell of an asset. -/
def shownOf (tables : Dict String (Dict String DeploymentRow)) (kind id : String) :
    Option (DeployClass × String) :=
  ((tables.get? kind).bind fun rows => rows.get? id).map fun row => (row.cls, row.lastAudit)

/-! ## The deployment dates of the report -/

/-- The id and the timestamp of a record that counts for `_audit_deploy_dates`. -/
def deployPair (v : Value X) : Option (String × String) := do
  let rec' ← v.dict?
  let status ← (Value.get rec' "status").text?
  if status ≠ "success" then none
  else
    let ruleId ← (Value.get rec' "id").text?
    let ts ← (Value.get rec' "timestamp").text?
    some (ruleId, ts)

/-- `_audit_deploy_dates`. -/
def auditDeployDates (values : List (Value X)) : Dict String String :=
  latestByKey id (values.filterMap deployPair)

/-- A detection of the corpus, with what a row takes over from it. -/
structure CorpusEntry where
  id : String
  asset : Asset
  path : String
  title : String
  status : String

structure ReportRow where
  ruleId : String
  assetKind : String
  path : String
  title : String
  status : String
  deploymentDate : Option String

/-- The row loop of `assemble_report`. -/
def reportRows (corpus : List CorpusEntry) (values : List (Value X)) : List ReportRow :=
  let deployDates := auditDeployDates values
  corpus.map fun entry =>
    { ruleId := entry.id, assetKind := entry.asset.value, path := entry.path, title := entry.title
      status := entry.status, deploymentDate := deployDates.get? entry.id }

/-! ## The records of an asset -/

/-- The record is one of the asset. -/
def isOwn (kind id : String) (rec : Document X) : Bool :=
  (Value.get rec "asset").text? = some kind && (Value.get rec "id").text? = some id

def ownRecords (kind id : String) (values : List (Value X)) : List (Document X) :=
  (values.filterMap Value.dict?).filter (isOwn kind id)

/-- The timestamp of a record that says the asset was deployed. -/
def ownDate (kind id : String) (v : Value X) : Option String := do
  let rec' ← v.dict?
  let pair ← deployPair v
  if isOwn kind id rec' ∧ (Value.get rec' "action").text? ≠ some "delete" then some pair.2 else none

/-- The date is the greatest of these, or there is none of both. -/
def IsGreatest (dates : List String) : Option String → Prop
  | none => dates = []
  | some date => date ∈ dates ∧ ∀ d ∈ dates, d ≤ date

/-- What the page and the report show of the asset is what its own records say. -/
structure FromOwnRecords (rows : Rows) (corpus : List CorpusEntry) (kind id : String)
    (values : List (Value X)) : Prop where
  shown : ∃ tables, renderDeployments str rows values = some tables ∧
    shownOf tables kind id =
      shownOf (deploymentTables str rows (ownRecords kind id values)) kind id
  date : ∀ row ∈ reportRows corpus values, row.assetKind = kind → row.ruleId = id →
    IsGreatest (values.filterMap (ownDate kind id)) row.deploymentDate

/-- The latest of the records that have an id. -/
def latestRecord (records : List (Document X)) (id : String) : Option (Document X) :=
  (latestAuditIndex str records).get? id

/-- Two records read the same in the row: their text and, where the class hangs on it, whether they
say failed. -/
structure ReadsAs (data : RowData) (r o : Document X) : Prop where
  text : auditText str r = auditText str o
  failed : data.inGit = data.inState → data.stateStatus ≠ "failed" →
    (textOr str r "status" = "failed" ↔ textOr str o "status" = "failed")

/-- No other asset of the same id speaks for this one: each line of JSON is a record, the latest
record of the id is the asset's own or reads as the latest of those, and a success under the id that
is another kind's or a delete is not later than each deployment of the asset. -/
structure Undisturbed (rows : Rows) (corpus : List CorpusEntry) (kind id : String)
    (values : List (Value X)) : Prop where
  records : ∀ v ∈ values, (v.dict?).isSome = true
  latest : ∀ data, (rows.get? kind).bind (fun kindRows => kindRows.get? id) = some data →
    ∀ r, latestRecord str (values.filterMap Value.dict?) id = some r → isOwn kind id r = false →
      ∃ o, latestRecord str (ownRecords kind id values) id = some o ∧ ReadsAs str data r o
  dates : (∃ entry ∈ corpus, entry.asset.value = kind ∧ entry.id = id) →
    ∀ v ∈ values, ∀ ts, deployPair v = some (id, ts) → ownDate kind id v = none →
      ∃ d ∈ values.filterMap (ownDate kind id), ts ≤ d

end
end ContentOps.Status
