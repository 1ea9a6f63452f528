import ContentOps.Alerts.DetectionHealth
import ContentOps.Alerts.Incidents
import Mathlib.Algebra.Order.BigOperators.Group.List

/-! The daily rollup store of `alerts/daily_store.py`: it is written anew from the ledger, unless the
ledger has no entry. -/

namespace ContentOps.Alerts
open PyData

structure DailyRollupEntry (X : Type) where
  date : String
  ruleDisplayName : String
  version : String
  assetKind : String
  severity : String
  alertCount : Int
  resolvedCount : Int
  tpCount : Int
  fpCount : Int
  benignCount : Int
  undeterminedCount : Int
  meanCloseHours : Option X

/-- The hours from one time to another, where Python can subtract them, and the rounded mean of
one or more hours. -/
structure Hours (T X : Type) where
  between : T → T → Option X
  mean : X → List X → X

/-! ## Reading -/

namespace DailyRollupEntry
variable {X : Type}

/-- `asdict(entry)`. -/
def asDict (e : DailyRollupEntry X) : Dict String (Value X) :=
  [("date", .str e.date), ("rule_display_name", .str e.ruleDisplayName),
    ("version", .str e.version), ("asset_kind", .str e.assetKind), ("severity", .str e.severity),
    ("alert_count", .int e.alertCount), ("resolved_count", .int e.resolvedCount),
    ("tp_count", .int e.tpCount), ("fp_count", .int e.fpCount),
    ("benign_count", .int e.benignCount), ("undetermined_count", .int e.undeterminedCount),
    ("mean_close_hours", (e.meanCloseHours.map Value.scalar).getD .null)]

def textField (d : Dict String (Value X)) (key : String) : Option String :=
  (d.get? key).bind Value.text?

def intField (d : Dict String (Value X)) (key : String) : Option Int :=
  match d.get? key with
  | some (.int n) => some n
  | _ => none

def floatField (d : Dict String (Value X)) (key : String) : Option (Option X) :=
  match d.get? key with
  | some .null => some none
  | some (.scalar x) => some (some x)
  | _ => none

/-- `DailyRollupEntry(**data)`; `none` is `TypeError`, or a field of another type than declared. -/
def ofDict (d : Dict String (Value X)) : Option (DailyRollupEntry X) := do
  let date ← textField d "date"
  let ruleDisplayName ← textField d "rule_display_name"
  let version ← textField d "version"
  let assetKind ← textField d "asset_kind"
  let severity ← textField d "severity"
  let alertCount ← intField d "alert_count"
  let resolvedCount ← intField d "resolved_count"
  let tpCount ← intField d "tp_count"
  let fpCount ← intField d "fp_count"
  let benignCount ← intField d "benign_count"
  let undeterminedCount ← intField d "undetermined_count"
  let meanCloseHours ← floatField d "mean_close_hours"
  if d.length = 12 then
    some { date, ruleDisplayName, version, assetKind, severity, alertCount, resolvedCount, tpCount,
           fpCount, benignCount, undeterminedCount, meanCloseHours }
  else none

theorem wf_asDict (e : DailyRollupEntry X) : (Value.dict e.asDict).WF := by
  refine Value.wf_dict_iff.mpr ⟨by simp [asDict, Dict.keys], ?_⟩
  cases h : e.meanCloseHours <;> simp [asDict, h, Value.WF]

theorem ofDict_asDict (e : DailyRollupEntry X) : ofDict e.asDict = some e := by
  obtain ⟨_, _, _, _, _, _, _, _, _, _, _, meanCloseHours⟩ := e
  cases meanCloseHours <;> rfl

end DailyRollupEntry

section
variable {X T : Type}

section
variable [Json.FloatText X]

def storeText (es : List (DailyRollupEntry X)) : Text :=
  jsonLinesText DailyRollupEntry.asDict es

/-- `load_daily_store`. -/
def loadDailyStore (X : Type) [Json.FloatText X] (store : Option Text) :
    List (DailyRollupEntry X) :=
  (store.map (loadJsonLines DailyRollupEntry.ofDict)).getD []

end

/-! ## Building -/

variable (py : Numbers X) (cal : Calendar T) (hours : Hours T X)

/-- `_build_detection_index`. -/
def buildDetectionIndex (ds : List Detection) : Dict String Detection :=
  Dict.ofPairs (ds.map fun d => (normalText py d.display, d))

/-- The time that a text of the ledger stands for. -/
def ledgerTime (s : String) : Option T :=
  if s = "" then none else cal.fromisoformat (utcOffset s)

/-- The day an entry was created, where that can be read. -/
def createdDay (e : LedgerEntry) : Option String := (ledgerTime cal e.createdAt).map cal.day

/-- `_group_alerts_by_date`. -/
def groupAlertsByDate (alerts : List LedgerEntry) : Dict String (List LedgerEntry) :=
  Dict.group (createdDay cal) alerts

def closeHours (e : LedgerEntry) : Option X := do
  let created ← ledgerTime cal e.createdAt
  let closed ← ledgerTime cal (e.closedAt.getD "")
  hours.between created closed

def rollupRow (index : Dict String Detection) (date title : String) (group : List LedgerEntry) :
    DailyRollupEntry X :=
  let det := index.get? (normalText py title)
  let countOf := fun c : String => ((group.countP fun e => e.classification = c : Nat) : Int)
  let times := group.filterMap (closeHours cal hours)
  { date := date
    ruleDisplayName := title
    version := (det.map (·.version)).getD ""
    assetKind := (det.map (·.asset.value)).getD ""
    severity := (group.head?.map (·.severity)).getD ""
    alertCount := group.length
    resolvedCount := (group.countP fun e => e.closedAt.any (· ≠ "") : Nat)
    tpCount := countOf "truePositive"
    fpCount := countOf "falsePositive"
    benignCount := countOf "benignPositive"
    undeterminedCount := countOf "undetermined"
    meanCloseHours := match times with
      | [] => none
      | first :: rest => some (hours.mean first rest) }

/-- The rows of a day, one for each title. -/
def dayRows (index : Dict String Detection) (date : String) (dayAlerts : List LedgerEntry) :
    List (DailyRollupEntry X) :=
  (Dict.group (fun e : LedgerEntry => some e.ruleDisplayName) dayAlerts).sortByKey.map fun g =>
    rollupRow py cal hours index date g.1 g.2

def newEntries (ds : List Detection) (alerts : List LedgerEntry) : List (DailyRollupEntry X) :=
  (groupAlertsByDate cal alerts).sortByKey.flatMap fun g =>
    dayRows py cal hours (buildDetectionIndex py ds) g.1 g.2

variable [Json.FloatText X]

/-- `prune_store`; `cutoff` is the first day that is kept. -/
def pruneStore (cutoff : String) (store : Option Text) : Option Text :=
  store.map fun content =>
    let entries : List (DailyRollupEntry X) := loadDailyStore X (some content)
    let kept := entries.filter fun e => cutoff ≤ e.date
    if kept.length < entries.length then storeText kept else content

/-- `build_daily_rollups`: the text of the store afterwards; `cutoff` is the day `retention_days`
before today. -/
def buildDailyRollups (ledger : Option Text) (ds : List Detection) (cutoff : String)
    (store : Option Text) : Option Text :=
  let allAlerts := (ledger.map loadLedger).getD []
  if allAlerts = [] then store
  else pruneStore (X := X) cutoff (some (storeText (newEntries py cal hours ds allAlerts)))

/-! ## Counts -/

theorem sum_classifications {es : List LedgerEntry}
    (h : ∀ e ∈ es, e.classification ∈
      ["truePositive", "falsePositive", "benignPositive", "undetermined"]) :
    es.countP (fun e => e.classification = "truePositive") +
      es.countP (fun e => e.classification = "falsePositive") +
      es.countP (fun e => e.classification = "benignPositive") +
      es.countP (fun e => e.classification = "undetermined") = es.length := by
  induction es with
  | nil => rfl
  | cons e es ih =>
    obtain ⟨he, hes⟩ := List.forall_mem_cons.mp h
    have hrest := ih hes
    simp only [List.countP_cons, List.length_cons]
    simp only [List.mem_cons, List.not_mem_nil, or_false] at he
    rcases he with he | he | he | he <;> rw [he] <;> simp <;> omega

omit [Json.FloatText X] in
theorem mem_newEntries {ds : List Detection} {alerts : List LedgerEntry} {row : DailyRollupEntry X}
    (h : row ∈ newEntries py cal hours ds alerts) : ∃ date title group,
      (∀ e ∈ group, e ∈ alerts) ∧
        row = rollupRow py cal hours (buildDetectionIndex py ds) date title group := by
  obtain ⟨day, hday, hrow⟩ := List.mem_flatMap.mp h
  obtain ⟨group, hgroup, rfl⟩ := List.mem_map.mp hrow
  rw [(Dict.sortByKey_perm _).mem_iff] at hday hgroup
  refine ⟨day.1, group.1, group.2, fun e he => ?_, rfl⟩
  rw [Dict.eq_filter_of_mem_group hgroup, Dict.eq_filter_of_mem_group hday] at he
  exact (List.mem_filter.mp (List.mem_filter.mp he).1).1

omit [Json.FloatText X] in
theorem sum_dayRows (index : Dict String Detection) (date : String) (dayAlerts : List LedgerEntry) :
    ((dayRows py cal hours index date dayAlerts).map (·.alertCount)).sum = dayAlerts.length := by
  have hlengths := Dict.sum_group (fun _ => true) (fun e : LedgerEntry => some e.ruleDisplayName)
    dayAlerts
  simp only [if_true, Option.any_some, List.countP_true] at hlengths
  unfold dayRows
  rw [List.map_map, ((Dict.sortByKey_perm _).map _).sum_eq, ← hlengths, Nat.cast_list_sum,
    List.map_map]
  rfl

omit [Json.FloatText X] in
/-- The rows from a day on count the entries that were created from this day on. -/
theorem sum_newEntries (ds : List Detection) (alerts : List LedgerEntry) (cutoff : String) :
    (((newEntries py cal hours ds alerts).filter fun e => cutoff ≤ e.date).map
      (·.alertCount)).sum = alerts.countP fun e => (createdDay cal e).any (cutoff ≤ ·) := by
  have hday : ∀ g : String × List LedgerEntry,
      (((dayRows py cal hours (buildDetectionIndex py ds) g.1 g.2).filter fun e =>
        cutoff ≤ e.date).map (·.alertCount)).sum =
          ((if cutoff ≤ g.1 then g.2.length else 0 : Nat) : Int) := by
    intro g
    have hdate : ∀ row ∈ dayRows py cal hours (buildDetectionIndex py ds) g.1 g.2,
        row.date = g.1 := by
      intro row hrow
      obtain ⟨group, -, rfl⟩ := List.mem_map.mp hrow
      rfl
    by_cases hcut : cutoff ≤ g.1
    · rw [List.filter_eq_self.mpr fun row hrow => decide_eq_true ((hdate row hrow).symm ▸ hcut),
        sum_dayRows, if_pos hcut]
    · rw [List.filter_eq_nil_iff.mpr fun row hrow => by simpa [hdate row hrow] using hcut,
        if_neg hcut]
      rfl
  have hgroups := Dict.sum_group (fun k => decide (cutoff ≤ k)) (createdDay cal) alerts
  unfold newEntries
  rw [List.filter_flatMap, List.map_flatMap, List.flatMap_def, List.sum_flatten, List.map_map]
  simp only [Function.comp_def, hday]
  rw [((Dict.sortByKey_perm _).map _).sum_eq, ← hgroups, Nat.cast_list_sum, List.map_map]
  simp only [Function.comp_def, decide_eq_true_eq]
  rfl

/-! ## The store as a function of the ledger -/

variable [Json.FloatLine X]

theorem pruneStore_storeText (cutoff : String) (es : List (DailyRollupEntry X)) :
    pruneStore (X := X) cutoff (some (storeText es)) =
      some (storeText (es.filter fun e => cutoff ≤ e.date)) := by
  have hload : loadDailyStore X (some (storeText es)) = es :=
    loadJsonLines_text DailyRollupEntry.wf_asDict DailyRollupEntry.ofDict_asDict es
  unfold pruneStore
  rw [Option.map_some, hload]
  dsimp only
  split_ifs with hremoved
  · rfl
  · have hall : es.filter (fun e => cutoff ≤ e.date) = es :=
      List.filter_sublist.eq_of_length_le (not_lt.mp hremoved)
    rw [hall]

theorem buildDailyRollups_eq {ledger : Option Text} (h : (ledger.map loadLedger).getD [] ≠ [])
    (ds : List Detection) (cutoff : String) (store : Option Text) :
    buildDailyRollups py cal hours ledger ds cutoff store =
      some (storeText ((newEntries py cal hours ds ((ledger.map loadLedger).getD [])).filter
        fun e => cutoff ≤ e.date)) := by
  unfold buildDailyRollups
  dsimp only
  rw [if_neg h, pruneStore_storeText]

/-- The store afterwards is a function of the ledger, the detections and the day, whose rows count
each entry of the window once and by its classification. -/
structure RebuiltFrom (ledger : Option Text) (ds : List Detection) (cutoff : String) : Prop where
  independent : ∀ store store', buildDailyRollups py cal hours ledger ds cutoff store =
    buildDailyRollups py cal hours ledger ds cutoff store'
  again : ∀ store, buildDailyRollups py cal hours ledger ds cutoff
      (buildDailyRollups py cal hours ledger ds cutoff store) =
    buildDailyRollups py cal hours ledger ds cutoff store
  classified : (∀ e ∈ (ledger.map loadLedger).getD [], e.classification ∈
      ["truePositive", "falsePositive", "benignPositive", "undetermined"]) →
    ∀ store, ∀ row ∈ loadDailyStore X (buildDailyRollups py cal hours ledger ds cutoff store),
      row.tpCount + row.fpCount + row.benignCount + row.undeterminedCount = row.alertCount
  counted : ∀ store,
    ((loadDailyStore X (buildDailyRollups py cal hours ledger ds cutoff store)).map
      (·.alertCount)).sum =
        ((ledger.map loadLedger).getD []).countP fun e => (createdDay cal e).any (cutoff ≤ ·)

end

end ContentOps.Alerts
