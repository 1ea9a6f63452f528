import ContentOps.Alerts.Ledger
import ContentOps.Library.KeyIndex

/-! ARM incidents over alerts, `alerts/merge.py`: once over the alerts of a day before they are
written, once over the daily files. -/

namespace ContentOps.Alerts
open PyData

/-- The fields of an ARM incident that the overlays read; a text that is absent is empty. -/
structure ArmIncident where
  alertIds : List String := []
  status : String := ""
  classification : String := ""
  classificationReason : String := ""
  closedTimeUtc : String := ""
  incidentNumber : Option Int := none
  ownerAssignedTo : String := ""
  ownerEmail : String := ""
deriving DecidableEq

def intText (n : Int) : String := String.ofList (Json.writeInt n)

-- `value.lower().replace(" ", "").replace("_", "")`.
def squeeze (s : String) : String :=
  String.ofList (((lowerAscii s).toList.filter (· ≠ ' ')).filter (· ≠ '_'))

def AlertStatus.fromSentinel (value : String) : AlertStatus :=
  if lowerAscii value = "new" then .new
  else if lowerAscii value = "active" then .inProgress
  else if lowerAscii value = "closed" then .resolved
  else .unknown

def AlertClassification.fromSentinel (value : String) : AlertClassification :=
  if squeeze value = "truepositive" then .truePositive
  else if squeeze value = "falsepositive" then .falsePositive
  else if squeeze value = "benignpositive" then .benignPositive
  else .undetermined

def AlertDetermination.fromSentinelReason (value : String) : AlertDetermination :=
  if squeeze value = "suspiciousactivity" then .maliciousUserActivity
  else if squeeze value = "suspiciousbutexpected" then .securityTesting
  else if squeeze value = "inaccuratedata" then .notEnoughDataToValidate
  else if squeeze value = "incorrectalertlogic" then .other
  else if squeeze value = "confirmedactivity" then .confirmedActivity
  else .unknown

-- `text.replace("Z", "+00:00")`.
def utcOffset (s : String) : String :=
  String.ofList (s.toList.flatMap fun c => if c = 'Z' then "+00:00".toList else [c])

section
variable {T : Type} (cal : Calendar T)

/-- The time of closing, where the text of it can be read. -/
def ArmIncident.closedTime (inc : ArmIncident) : Option T :=
  if inc.closedTimeUtc = "" then none else cal.fromisoformat (utcOffset inc.closedTimeUtc)

/-! ## Over the alerts -/

/-- The ids of the alerts that the incident patches: those it lists, or where it lists none, those
of the alerts that carry its number. -/
def ArmIncident.memoryKeys (alerts : List (NormalizedAlert T)) (inc : ArmIncident) : List String :=
  inc.alertIds ++ match inc.incidentNumber with
    | some n =>
      if n ≠ 0 ∧ inc.alertIds = [] then
        (alerts.filter fun a => a.incidentId = some (intText n)).map (·.id)
      else []
    | none => []

def ArmIncident.newStatus (inc : ArmIncident) (a : NormalizedAlert T) : AlertStatus :=
  if inc.status = "" then a.status else .fromSentinel inc.status

/-- The alert with the lifecycle of the incident. -/
def ArmIncident.overlay (inc : ArmIncident) (a : NormalizedAlert T) : NormalizedAlert T :=
  { a with
    status := inc.newStatus a
    classification :=
      if inc.classification = "" then a.classification else .fromSentinel inc.classification
    determination :=
      if inc.classificationReason = "" then a.determination
      else .fromSentinelReason inc.classificationReason
    resolved :=
      if inc.closedTimeUtc ≠ "" then (inc.closedTime cal).or a.resolved
      else if inc.newStatus a ≠ .resolved then none else a.resolved
    incidentId := (inc.incidentNumber.map intText).or a.incidentId
    assignedTo :=
      if inc.ownerAssignedTo ≠ "" then some inc.ownerAssignedTo
      else if inc.ownerEmail ≠ "" then some inc.ownerEmail else a.assignedTo
    source := "both" }

/-- `overlay_arm_incidents`. -/
def overlayArmIncidents (alerts : List (NormalizedAlert T)) (incidents : List ArmIncident) :
    List (NormalizedAlert T) :=
  let patchMap := KeyIndex.build (ArmIncident.memoryKeys alerts) id incidents
  alerts.map fun a => match patchMap.get? a.id with
    | some inc => inc.overlay cal a
    | none => a

/-! ## Over the daily files -/

def ArmIncident.isReopened (inc : ArmIncident) : Bool :=
  lowerAscii inc.status ∈ ["new", "active"]

/-- The classification that the incident states. -/
def ArmIncident.stated (inc : ArmIncident) : Option String :=
  if inc.classification = "" then none
  else some (AlertClassification.fromSentinel inc.classification).value

/-- The time of closing that the incident states; that of a reopened one does not count. -/
def ArmIncident.statedClosing (inc : ArmIncident) : Option String :=
  if inc.isReopened then none else (inc.closedTime cal).map cal.isoformat

/-- The entry was closed, and the incident is open again. -/
def ArmIncident.reverts (inc : ArmIncident) (e : LedgerEntry) : Bool :=
  inc.isReopened && e.closedAt.isSome

/-- `needs_update`. -/
def ArmIncident.changes (inc : ArmIncident) (e : LedgerEntry) : Bool :=
  inc.stated.any (· ≠ e.classification) || inc.reverts e ||
    (inc.statedClosing cal).any (some · ≠ e.closedAt) ||
    inc.incidentNumber.any (some · ≠ e.incidentNumber)

/-- The entry with the lifecycle of the incident, and whether anything of it changed. -/
def ArmIncident.patch (inc : ArmIncident) (e : LedgerEntry) : LedgerEntry × Bool :=
  if inc.changes cal e then
    ({ e with
        classification :=
          if inc.reverts e then inc.stated.getD "undetermined"
          else inc.stated.getD e.classification
        closedAt := if inc.reverts e then none else (inc.statedClosing cal).or e.closedAt
        incidentNumber := inc.incidentNumber.or e.incidentNumber
        source := "both" }, true)
  else (e, false)

/-- The incident of an entry: one that lists its alert, else one of its number. -/
def patchFor (incidents : List ArmIncident) (e : LedgerEntry) : Option ArmIncident :=
  ((KeyIndex.build ArmIncident.alertIds id incidents).get? e.alertId).or
    (e.incidentNumber.bind (KeyIndex.build (·.incidentNumber.toList) id incidents).get?)

def patchEntry (incidents : List ArmIncident) (e : LedgerEntry) : LedgerEntry × Bool :=
  match patchFor incidents e with
  | some inc => inc.patch cal e
  | none => (e, false)

/-- `apply_arm_overlay_to_daily_files`: a file is written again only when an entry changed. -/
def overlayDailyFiles (dir : DailyDir) (incidents : List ArmIncident) : DailyDir :=
  dir.mapContents fun name content =>
    if isJsonlName name then
      let patched := (loadLedger content).map (patchEntry cal incidents)
      if patched.any (·.2) then ledgerText (patched.map (·.1)) else content
    else content

end
end ContentOps.Alerts
