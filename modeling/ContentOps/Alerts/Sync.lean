import ContentOps.Alerts.Merge
import ContentOps.Alerts.Incidents
import Mathlib.Data.Finset.Dedup

/-! The daily export of `alerts/sync.py`: the days are exported one after another, the incidents
patch the files, the ledger is rebuilt, and the reconciliation exports stale days again. -/

namespace ContentOps.Alerts
open PyData

/-! ## What Graph adds -/

section
variable {T : Type}

/-- `_apply_graph_enrichment`. -/
def applyGraphEnrichment (a ga : NormalizedAlert T) : NormalizedAlert T :=
  { a with
    mitreTechniques := orList a.mitreTechniques ga.mitreTechniques
    detectionSource := orText a.detectionSource ga.detectionSource
    ruleId :=
      if ga.ruleId.getD "" ≠ "" ∧ (a.ruleId.getD "" = "" ∨ a.ruleId = some a.title) then ga.ruleId
      else a.ruleId }

/-- `enrich_from_graph`: the twin of an alert, else the first alert of its incident that has
something to add. -/
def enrichFromGraph (alerts graph : List (NormalizedAlert T)) : List (NormalizedAlert T) :=
  let byKey := sentinelByKey graph
  let byIncident := graphByIncident [] graph
  alerts.map fun a => match a.correlationKeys.findSome? byKey.get? with
    | some ga => applyGraphEnrichment a ga
    | none =>
      match ((a.incident?.bind byIncident.get?).getD []).find? fun ga =>
          ga.mitreTechniques ≠ [] ∨ ga.detectionSource ≠ "" with
      | some ga => applyGraphEnrichment a ga
      | none => a

end

/-! ## A day -/

structure ReconciliationRow where
  alertId : String
  currentStatus : String
  currentClassification : String

/-- What the services answer during a run. A listing that raises is `none`, and so is a row that no
alert can be read from; incidents and Graph alerts that were not fetched are empty. -/
structure Provider (T Row : Type) where
  listAlertsForDateJoined : String → Option (List Row)
  listAlertsForDate : String → Option (List Row)
  readRow : Row → Option (NormalizedAlert T)
  incidents : List ArmIncident
  graphAlerts : List (NormalizedAlert T)
  reconciliation : Option (List ReconciliationRow)

section
variable {T Row : Type} (cal : Calendar T) (p : Provider T Row)

/-- The alerts of the query layer. -/
def Provider.kqlAlerts (day : String) : Option (List (NormalizedAlert T)) :=
  ((p.listAlertsForDateJoined day).or (p.listAlertsForDate day)).map (·.filterMap p.readRow)

/-- The three layers of a day. -/
def layers (kql : List (NormalizedAlert T)) (incidents : List ArmIncident)
    (graph : List (NormalizedAlert T)) : List (NormalizedAlert T) :=
  let alerts := if graph = [] then kql else mergeAlerts graph kql
  let alerts := overlayArmIncidents cal alerts incidents
  if graph = [] then alerts else enrichFromGraph alerts graph

/-- `sync_day`, with the entries that it wrote if it did not skip the day; `none` when it raises. -/
def syncDay (dir : DailyDir) (day : String) (force : Bool) (incidents : List ArmIncident)
    (graph : List (NormalizedAlert T)) : Option (DailyDir × Option (List LedgerEntry)) :=
  if (dir.read (dailyFileName day)).isSome && !force then some (dir, none)
  else (p.kqlAlerts day).map fun kql =>
    let entries := (layers cal kql incidents graph).map (normalizeToEntry cal)
    (writeDailyFile dir day entries, some entries)

/-! ## The export -/

/-- The dates and switches of a run. -/
structure SyncPlan where
  primary : List String
  reexport : List String
  force : Bool := false
  enrich : Bool := true
  reconcile : Bool := true

structure Export where
  dir : DailyDir
  written : List (String × List LedgerEntry) := []

variable (plan : SyncPlan)

def SyncPlan.incidents : List ArmIncident := if plan.enrich then p.incidents else []

/-- The Graph alerts that were created on the day. -/
def SyncPlan.dayGraph (day : String) : List (NormalizedAlert T) :=
  if plan.enrich then p.graphAlerts.filter fun ga => ga.created.any (cal.utcDay · = day) else []

def exportDay (s : Export) (day : String) : Option Export :=
  (syncDay cal p s.dir day (plan.force || day ∈ plan.reexport) (plan.incidents p)
    (plan.dayGraph cal p day)).map fun (dir, entries) =>
      ⟨dir, s.written ++ (entries.map (day, ·)).toList⟩

def exportDays (dir : DailyDir) : Option Export :=
  (plan.primary ++ plan.reexport).foldlM (exportDay cal p plan) ⟨dir, []⟩

/-! ## The reconciliation -/

/-- The incident of the row is not in the state that the entry holds. -/
def needsRepair (row : ReconciliationRow) (e : LedgerEntry) : Bool :=
  (AlertClassification.fromSentinel row.currentClassification).value ≠ e.classification ||
    (lowerAscii row.currentStatus = "closed" && e.closedAt = none) ||
    (lowerAscii row.currentStatus ∈ ["new", "active"] && e.closedAt.isSome)

/-- The day that a row makes stale. -/
def staleDate (entries : Dict String LedgerEntry) (row : ReconciliationRow) : Option String := do
  let e ← if row.alertId = "" then none else entries.get? row.alertId
  if needsRepair row e && e.createdAt ≠ "" then
    (cal.fromisoformat (utcOffset e.createdAt)).map cal.day
  else none

def staleDates (entries : List LedgerEntry) (rows : List ReconciliationRow) : Finset String :=
  (rows.filterMap (staleDate cal (Dict.ofPairs (entries.map fun e => (e.alertId, e))))).toFinset

/-- The order in which a `set` is iterated. -/
structure SetOrder where
  list : Finset String → List String
  mem_list : ∀ s d, d ∈ list s ↔ d ∈ s

/-- One round of the repair; a day that cannot be listed is passed over. -/
def repairDay (s : DailyDir × Nat) (day : String) : DailyDir × Nat :=
  match syncDay cal p s.1 day true [] [] with
  | some (dir, _) => (dir, s.2 + 1)
  | none => s

/-- `_reconcile`: the files and the number of days repaired. -/
def reconcile (order : SetOrder) (dir : DailyDir) (entries : List LedgerEntry) : DailyDir × Nat :=
  match p.reconciliation with
  | some rows => (order.list (staleDates cal entries rows)).foldl (repairDay cal p) (dir, 0)
  | none => (dir, 0)

/-- A run of `sync_alerts` up to its reconciliation. -/
structure SyncRun where
  written : List (String × List LedgerEntry)
  /-- The files as the reconciliation finds them. -/
  before : DailyDir
  dir : DailyDir
  ledger : Text

def syncAlerts (order : SetOrder) (dir : DailyDir) : Option SyncRun :=
  (exportDays cal p plan dir).map fun s =>
    let before := overlayDailyFiles cal s.dir (plan.incidents p)
    let ledger := rebuildLedger before
    if plan.reconcile && plan.enrich then
      let (dir, repaired) := reconcile cal p order before (loadLedgerDeduped ledger)
      ⟨s.written, before, dir, if repaired > 0 then rebuildLedger dir else ledger⟩
    else ⟨s.written, before, before, ledger⟩

end
end ContentOps.Alerts
