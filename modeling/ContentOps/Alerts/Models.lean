import ContentOps.Library.Text

/-! The source-agnostic alert of `alerts/models.py` and the merge of two of them. -/

namespace ContentOps.Alerts
open PyData

inductive AlertSeverity where
  | informational
  | low
  | medium
  | high
  | unknown
deriving DecidableEq, Repr

inductive AlertStatus where
  | new
  | inProgress
  | resolved
  | unknown
deriving DecidableEq, Repr

inductive AlertClassification where
  | truePositive
  | falsePositive
  | benignPositive
  | undetermined
deriving DecidableEq, Repr

inductive AlertDetermination where
  | unknown
  | apt
  | malware
  | phishing
  | compromisedAccount
  | securityPersonnel
  | securityTesting
  | unwantedSoftware
  | multiStagedAttack
  | maliciousUserActivity
  | notMalicious
  | notEnoughDataToValidate
  | confirmedActivity
  | lineOfBusinessApplication
  | other
deriving DecidableEq, Repr

/-- `T` is the type of points in time. -/
structure NormalizedAlert (T : Type) where
  id : String
  title : String
  severity : AlertSeverity
  status : AlertStatus
  classification : AlertClassification
  determination : AlertDetermination
  source : String
  serviceSource : String
  created : Option T := none
  resolved : Option T := none
  firstActivity : Option T := none
  lastActivity : Option T := none
  incidentId : Option String := none
  mitreTechniques : List String := []
  assignedTo : Option String := none
  description : String := ""
  ruleId : Option String := none
  ruleName : Option String := none
  detectionSource : String := ""
  providerAlertId : Option String := none
deriving DecidableEq

-- Python's `a or b`, by the type of `a`.
def orList (a b : List String) : List String := if a = [] then b else a

def orOptionText (a b : Option String) : Option String := if a = none ∨ a = some "" then b else a

namespace NormalizedAlert
variable {T : Type}

def merge (graph sentinel : NormalizedAlert T) : NormalizedAlert T where
  id := graph.id
  title := orText graph.title sentinel.title
  severity := if graph.severity ≠ .unknown then graph.severity else sentinel.severity
  status := if graph.status ≠ .unknown then graph.status else sentinel.status
  classification :=
    if graph.classification = .undetermined ∧ sentinel.classification ≠ .undetermined then
      sentinel.classification
    else graph.classification
  determination :=
    if graph.determination = .unknown ∧ sentinel.determination ≠ .unknown then
      sentinel.determination
    else graph.determination
  source := "both"
  serviceSource := orText graph.serviceSource sentinel.serviceSource
  created := graph.created.or sentinel.created
  resolved := graph.resolved.or sentinel.resolved
  firstActivity := graph.firstActivity.or sentinel.firstActivity
  lastActivity := graph.lastActivity.or sentinel.lastActivity
  incidentId := orOptionText graph.incidentId sentinel.incidentId
  mitreTechniques := orList graph.mitreTechniques sentinel.mitreTechniques
  assignedTo := orOptionText graph.assignedTo sentinel.assignedTo
  description := orText graph.description sentinel.description
  -- The analytic rule is known to Sentinel first.
  ruleId := orOptionText sentinel.ruleId graph.ruleId
  ruleName := orOptionText graph.ruleName sentinel.ruleName
  detectionSource := orText graph.detectionSource sentinel.detectionSource
  providerAlertId := orOptionText graph.providerAlertId sentinel.providerAlertId

/-- The incident an alert belongs to; the empty id is none. -/
def incident? (a : NormalizedAlert T) : Option String := a.incidentId.filter (· ≠ "")

/-- `_correlation_keys`. -/
def correlationKeys (a : NormalizedAlert T) : List String :=
  (a.providerAlertId.getD "" :: [a.id]).filter (· ≠ "")

end NormalizedAlert
end ContentOps.Alerts
