import ContentOps.Lifecycle.RuleKeys
import ContentOps.Library.DateTime
import ContentOps.Snippets

/-! The promotion gates of `lifecycle.py`. -/

namespace ContentOps.Lifecycle
open PyData

/-- The libraries of the lifecycle commands, with `datetime.fromisoformat(text).date()` as a day
number; `none` is `ValueError`. -/
structure LifecycleLibs (X : Type) extends Libs X, Numbers X where
  isoDay : String → Option Int

structure GateResult where
  name : String
  passed : Bool
  deferred : Bool := false
deriving DecidableEq, Repr

inductive QueryFailure where
  | workspaceKql (message : String)
  | other (message : String)
deriving DecidableEq, Repr

/-- What the workspace answers while one rule is gated. -/
structure WorkspaceAnswers (X : Type) where
  query : (kql workspaceId token : String) → Except QueryFailure (List (Row X))
  telemetry : (workspaceId token : String) → Except QueryFailure (List (Row X))

/-- The workspace id, the token and the error that the command looked up. -/
structure WorkspaceAccess where
  workspaceId : Option String
  token : Option String
  error : Option String
deriving DecidableEq, Repr

/-- `not workspace_id or not token`, the other way round. -/
def WorkspaceAccess.usable? (access : WorkspaceAccess) : Option (String × String) := do
  let workspaceId ← access.workspaceId.filter (· ≠ "")
  let token ← access.token.filter (· ≠ "")
  some (workspaceId, token)

section
variable {X : Type} [Value.ScalarEq X] (libs : LifecycleLibs X)

/-- `str(value)` of a scalar; the text of a list or of a mapping is no date. -/
def scalarText : Value X → Option String
  | .str s => some s
  | .int n => some (toString n)
  | .bool b => some (if b then "True" else "False")
  | .scalar x => some (libs.text x)
  | _ => none

/-- `_parse_iso_date`. -/
def parseIsoDate (value : Value X) : Option Int :=
  if value.truthy then
    (scalarText libs value).bind fun s =>
      libs.isoDay (normaliseZ (String.ofList (Text.strip s.toList)))
  else none

def gateCurrentlyExperimental (doc : Document X) : GateResult where
  name := "status_is_experimental"
  passed := Value.textAt doc "status" = "experimental"

/-- The day of `metadata.lastValidatedAt`. -/
def lastValidated (doc : Document X) : Option Int :=
  parseIsoDate libs (Value.get (dictAt doc "metadata") "lastValidatedAt")

def gateRecentValidation (doc : Document X) (maxAgeDays today : Int) : GateResult where
  name := "recent_validation"
  passed := match lastValidated libs doc with
    | none => false
    | some day => 0 ≤ today - day ∧ today - day ≤ maxAgeDays

/-- `_no_workspace_gate`. -/
def noWorkspaceGate (name : String) (error : Option String) : GateResult :=
  match error.filter (· ≠ "") with
  | some _ => { name, passed := false }
  | none => { name, passed := true, deferred := true }

/-- `kql_body_from_payload`. -/
def kqlBodyFromPayload (asset : Asset) (payload : Document X) : Option String :=
  asset.kqlFields.findSome? fun field =>
    ((Snippets.getDotted (.dict payload) field).bind Value.text?).filter fun s => Text.strip s.toList ≠ []

/-- The KQL of a rule; none where its kind has none. -/
def kqlBody (doc : Document X) : Option String :=
  (Asset.ofValue? (Value.textAt doc "asset")).bind (kqlBodyFromPayload · (dictAt doc "payload"))

def countQuery (kql : String) : String := kql ++ "\n| count"

def gateLiveTestPass (answers : WorkspaceAnswers X) (doc : Document X) (access : WorkspaceAccess) :
    GateResult :=
  match access.usable? with
  | none => noWorkspaceGate "live_test_pass" access.error
  | some (workspaceId, token) =>
    match kqlBody doc with
    | none => { name := "live_test_pass", passed := true }
    | some kql =>
      match answers.query (countQuery kql) workspaceId token with
      | .error _ => { name := "live_test_pass", passed := false }
      | .ok _ => { name := "live_test_pass", passed := true }

/-- `gate_fp_rate_threshold`; `none` is an exception of the row arithmetic. -/
def gateFpRateThreshold (answers : WorkspaceAnswers X) (doc : Document X) (access : WorkspaceAccess)
    (threshold : X) : Option GateResult :=
  match access.usable? with
  | none => some (noWorkspaceGate "fp_rate_threshold" access.error)
  | some (workspaceId, token) =>
    match answers.telemetry workspaceId token with
    | .error _ => some { name := "fp_rate_threshold", passed := false }
    | .ok rows => do
      let found ← (TelemetryIndex.ofRows libs.toNumbers rows).lookup libs.toNumbers
        (ruleKeysFromRaw libs.toNumbers doc)
      match found with
      | none => some { name := "fp_rate_threshold", passed := true }
      | some row => do
        let _ ← Row.count libs.toNumbers row "incidents_30d"
        match ← closedFpRate libs.toNumbers row with
        | none => some { name := "fp_rate_threshold", passed := true }
        | some rate => some { name := "fp_rate_threshold", passed := libs.le rate threshold }

structure GateOptions (X : Type) where
  maxValidationAgeDays : Int
  today : Int
  threshold : X

/-- `check_gates`. -/
def checkGates (answers : WorkspaceAnswers X) (options : GateOptions X) (access : WorkspaceAccess)
    (doc : Document X) : Option (List GateResult) := do
  let fpRate ← gateFpRateThreshold libs answers doc access options.threshold
  some [gateCurrentlyExperimental doc,
    gateRecentValidation libs doc options.maxValidationAgeDays options.today,
    gateLiveTestPass answers doc access, fpRate]

def allPassed (gates : List GateResult) : Bool := gates.all fun g => g.passed || g.deferred

end
end ContentOps.Lifecycle
