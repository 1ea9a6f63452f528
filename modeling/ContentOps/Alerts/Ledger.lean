import ContentOps.Alerts.JsonLines
import ContentOps.Alerts.Models
import Mathlib

/-! The ledger entries of `alerts/ledger.py`, the daily files that hold them and the ledger that is
rebuilt from these files. -/

namespace ContentOps.Alerts
open PyData

/-- Points in time of type `T`: `isoformat`, `datetime.fromisoformat`, and the day of each, by its
own offset and in UTC. -/
structure Calendar (T : Type) where
  isoformat : T → String
  fromisoformat : String → Option T
  day : T → String
  utcDay : T → String

def AlertClassification.value : AlertClassification → String
  | .truePositive => "truePositive"
  | .falsePositive => "falsePositive"
  | .benignPositive => "benignPositive"
  | .undetermined => "undetermined"

def AlertSeverity.value : AlertSeverity → String
  | .informational => "informational"
  | .low => "low"
  | .medium => "medium"
  | .high => "high"
  | .unknown => "unknown"

structure LedgerEntry where
  alertId : String
  ruleDisplayName : String
  classification : String
  closedAt : Option String
  severity : String
  source : String
  createdAt : String
  ruleId : Option String := none
  serviceSource : String := ""
  detectionSource : String := ""
  incidentNumber : Option Int := none
deriving DecidableEq

/-- The digits of `int(text)`, where single underscores may stand between them. -/
def parseDigits (t : Text) : Option Nat :=
  if t.all (fun c => c.isDigit || c = '_') && t.head?.any Char.isDigit &&
      t.getLast?.any Char.isDigit && !(['_', '_'] <:+: t) then
    some (Nat.ofDigitChars 10 (t.filter (· ≠ '_')) 0)
  else none

/-- `int(text)`, with ASCII digits; `none` is `ValueError`. -/
def parseInt (s : String) : Option Int :=
  match Text.strip s.toList with
  | '-' :: t => (parseDigits t).map fun n => -(n : Int)
  | '+' :: t => (parseDigits t).map (↑)
  | t => (parseDigits t).map (↑)

/-- `normalize_to_entry`. -/
def normalizeToEntry {T : Type} (cal : Calendar T) (a : NormalizedAlert T) : LedgerEntry where
  alertId := a.id
  ruleDisplayName := orText (a.ruleName.getD "") a.title
  classification := a.classification.value
  closedAt := a.resolved.map cal.isoformat
  severity := a.severity.value
  source := a.source
  createdAt := (a.created.map cal.isoformat).getD ""
  ruleId := a.ruleId
  serviceSource := a.serviceSource
  detectionSource := a.detectionSource
  incidentNumber := a.incident?.bind parseInt

/-! ## Lines of a file -/

namespace LedgerEntry

/-- `asdict(entry)`. -/
def asDict (e : LedgerEntry) : Dict String (Value Empty) :=
  [("alert_id", .str e.alertId), ("rule_display_name", .str e.ruleDisplayName),
    ("classification", .str e.classification), ("closed_at", .ofOption e.closedAt),
    ("severity", .str e.severity), ("source", .str e.source), ("created_at", .str e.createdAt),
    ("rule_id", .ofOption e.ruleId), ("service_source", .str e.serviceSource),
    ("detection_source", .str e.detectionSource),
    ("incident_number", (e.incidentNumber.map Value.int).getD .null)]

def line (e : LedgerEntry) : Text := Json.dumps Json.compact (.dict e.asDict)

def required (d : Dict String (Value Empty)) (key : String) : Option String :=
  (d.get? key).bind Value.text?

def defaulted (d : Dict String (Value Empty)) (key : String) : Option String :=
  match d.get? key with
  | none => some ""
  | some v => v.text?

def optionalInt : Value Empty → Option (Option Int)
  | .null => some none
  | .int n => some (some n)
  | _ => none

/-- `LedgerEntry(**data)`; `none` is `TypeError`, or a field of another type than declared. -/
def ofDict (d : Dict String (Value Empty)) : Option LedgerEntry := do
  let alertId ← required d "alert_id"
  let ruleDisplayName ← required d "rule_display_name"
  let classification ← required d "classification"
  let closedAt ← optionalText? (← d.get? "closed_at")
  let severity ← required d "severity"
  let source ← required d "source"
  let createdAt ← required d "created_at"
  let ruleId ← optionalText? (Value.get d "rule_id")
  let serviceSource ← defaulted d "service_source"
  let detectionSource ← defaulted d "detection_source"
  let incidentNumber ← optionalInt (Value.get d "incident_number")
  let fields := ["alert_id", "rule_display_name", "classification", "closed_at", "severity",
    "source", "created_at", "rule_id", "service_source", "detection_source", "incident_number"]
  if d.keys.all (· ∈ fields) then
    some { alertId, ruleDisplayName, classification, closedAt, severity, source, createdAt, ruleId,
           serviceSource, detectionSource, incidentNumber }
  else none

end LedgerEntry

def ledgerText (es : List LedgerEntry) : Text := Text.unlines (es.map LedgerEntry.line)

/-- `load_ledger` of a file with this text. -/
def loadLedger (content : Text) : List LedgerEntry :=
  ((((unifyNewlines content).splitOn '\n').map Text.strip).filter (· ≠ [])).filterMap fun line =>
    ((Json.loads line).bind Value.dict?).bind LedgerEntry.ofDict

/-- `list({e.alert_id: e for e in es}.values())`. -/
def dedupe (es : List LedgerEntry) : List LedgerEntry :=
  (Dict.ofPairs (es.map fun e => (e.alertId, e))).map (·.2)

/-! ## Daily files -/

/-- The files of a daily directory, by name. -/
abbrev DailyDir := Directory String Text

def isJsonlName (name : String) : Bool := hasSuffix ".jsonl" name

/-- `daily_file_path`; a day is its ISO date. -/
def dailyFileName (day : String) : String := day ++ ".jsonl"

theorem isJsonlName_dailyFileName (day : String) : isJsonlName (dailyFileName day) = true := by
  unfold isJsonlName dailyFileName hasSuffix
  rw [String.toList_append]
  exact decide_eq_true (List.suffix_append _ _)

def writeDailyFile (dir : DailyDir) (day : String) (es : List LedgerEntry) : DailyDir :=
  dir.write (dailyFileName day) (ledgerText es)

/-- The entries of a day's file, if there is one. -/
def dailyEntries (dir : DailyDir) (day : String) : Option (List LedgerEntry) :=
  (dir.read (dailyFileName day)).map loadLedger

def loadDailyFiles (dir : DailyDir) : List LedgerEntry :=
  (dir.glob isJsonlName).flatMap fun file => loadLedger file.2

/-- `rebuild_ledger_from_daily`: the text of the ledger. -/
def rebuildLedger (dir : DailyDir) : Text := ledgerText (dedupe (loadDailyFiles dir))

def loadLedgerDeduped (ledger : Text) : List LedgerEntry := dedupe (loadLedger ledger)

/-! ## What is written is loaded -/

theorem LedgerEntry.wf_asDict (e : LedgerEntry) : (Value.dict e.asDict).WF := by
  refine Value.wf_dict_iff.mpr ⟨by simp [asDict, Dict.keys], ?_⟩
  cases hn : e.incidentNumber <;> simp [asDict, hn, Value.WF]

theorem LedgerEntry.ofDict_asDict (e : LedgerEntry) : LedgerEntry.ofDict e.asDict = some e := by
  obtain ⟨_, _, _, closedAt, _, _, _, ruleId, _, _, incidentNumber⟩ := e
  cases closedAt <;> cases ruleId <;> cases incidentNumber <;> rfl

theorem loadLedger_ledgerText (es : List LedgerEntry) : loadLedger (ledgerText es) = es :=
  loadJsonLines_text LedgerEntry.wf_asDict LedgerEntry.ofDict_asDict es

end ContentOps.Alerts
