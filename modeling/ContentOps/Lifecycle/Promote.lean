import ContentOps.Lifecycle.Gates
import ContentOps.Lifecycle.Promotion

/-! `lifecycle promote`: a rule is found, gated and edited, one after the other for a list of
rules, with the workspace access that the command looked up. -/

namespace ContentOps.Lifecycle
open PyData

structure PromotionReport where
  ruleId : String
  path : Option Path
  currentStatus : String
  gates : List GateResult
  promoted : Bool := false

/-- `LifecycleError`, and any other exception. -/
inductive PromoteError where
  | lifecycle
  | other
deriving DecidableEq, Repr

/-- What a promotion finds around it. `walk` is the order in which `rglob` yields the files, and
`cohort` reads the cohort of a loaded file's metadata. -/
structure PromoteEnv (X : Type) where
  libs : LifecycleLibs X
  walk : List Path → List Path
  cohort : LoadedAsset X → Option String
  root : Path
  today : Int
  todayText : Text
  actor : Text
  threshold : X
  getCredential : Except QueryFailure Unit
  resolveWorkspaceId : Except QueryFailure (Option String)
  getToken : Except QueryFailure String
  answers : Nat → WorkspaceAnswers X

structure PromoteCommand where
  ruleId : Option String := none
  rulesCsv : Option String := none
  cohort : Option String := none
  maxValidationAgeDays : Int
  workspaceId : Option String
  noWorkspaceQuery : Bool
  force : Bool
  dryRun : Bool

section
variable {X : Type} [Value.ScalarEq X] (env : PromoteEnv X)

/-- `_find_envelope`. -/
def findEnvelope (tree : FileTree) (ruleId : String) : Option Path :=
  (env.walk (tree.glob (isUnder env.root ".yml")).keys).find? fun path =>
    match (tree.read path).bind env.libs.safeLoad with
    | some (.dict doc) => (Dict.get? doc "id").any fun v => Value.pyEq v (.str ruleId)
    | _ => false

/-- `promote`: the files afterwards and the report. -/
def promote (answers : WorkspaceAnswers X) (command : PromoteCommand) (access : WorkspaceAccess)
    (ruleId : String) (tree : FileTree) : Except PromoteError (FileTree × PromotionReport) :=
  match findEnvelope env tree ruleId with
  | none => .error .lifecycle
  | some path =>
    match tree.read path with
    | none => .error .other
    | some text =>
      match env.libs.safeLoad text with
      | none => .error .other
      | some (.dict doc) =>
        let options : GateOptions X :=
          { maxValidationAgeDays := command.maxValidationAgeDays, today := env.today
            threshold := env.threshold }
        match checkGates env.libs answers options access doc with
        | none => .error .other
        | some gates =>
          let report : PromotionReport :=
            { ruleId, path := some path, currentStatus := Value.textAt doc "status", gates }
          if !(allPassed gates || command.force) then .ok (tree, report)
          else if command.dryRun then .ok (tree, report)
          else
            match rewriteStatusToProduction text with
            | none => .error .lifecycle
            | some newText =>
              let newText := stampPromotion newText env.todayText env.actor
                (command.force && !allPassed gates)
              if newText = text then .ok (tree, report)
              else .ok (tree.write path newText, { report with promoted := true })
      | some _ => .error .lifecycle

/-- `promote_many` from the rule of a given number on: the files when it ends, and the reports
unless an exception ended it. -/
def promoteMany (command : PromoteCommand) (access : WorkspaceAccess) :
    Nat → List String → FileTree → FileTree × Option (List PromotionReport)
  | _, [], tree => (tree, some [])
  | i, ruleId :: ruleIds, tree =>
    match promote env (env.answers i) command access ruleId tree with
    | .ok (next, report) =>
      let (final, reports) := promoteMany command access (i + 1) ruleIds next
      (final, reports.map (report :: ·))
    | .error .lifecycle =>
      let report : PromotionReport :=
        { ruleId, path := some ["<not-found>"], currentStatus := ""
          gates := [{ name := "locate_envelope", passed := false }] }
      let (final, reports) := promoteMany command access (i + 1) ruleIds tree
      (final, reports.map (report :: ·))
    | .error .other => (tree, none)

def chosenWorkspaceId (command : PromoteCommand) : Except QueryFailure (Option String) :=
  match command.workspaceId.filter (· ≠ "") with
  | some workspaceId => .ok (some workspaceId)
  | none => env.resolveWorkspaceId

/-- The lookups of `lifecycle_promote_cmd` before any rule is gated. -/
def lookUpWorkspace (command : PromoteCommand) : WorkspaceAccess :=
  if command.noWorkspaceQuery then { workspaceId := none, token := none, error := none }
  else
    let failed : QueryFailure → WorkspaceAccess := fun failure =>
      { workspaceId := none, token := none
        error := some (match failure with
          | .workspaceKql message => "workspace auto-derive failed: " ++ message
          | .other message => "credential/token acquisition failed: " ++ message) }
    match env.getCredential with
    | .error failure => failed failure
    | .ok () =>
      match chosenWorkspaceId env command with
      | .error failure => failed failure
      | .ok resolved =>
        match resolved.filter (· ≠ "") with
        | none => { workspaceId := none, token := none, error := some "no workspace id resolved" }
        | some workspaceId =>
          match env.getToken with
          | .error failure => failed failure
          | .ok token => { workspaceId := some workspaceId, token := some token, error := none }

variable [Json.FloatText X]

/-- `_find_yamls_by_cohort`, ids only. -/
def cohortIds (tree : FileTree) (cohort : String) : List String :=
  (((loadedAssets env.libs.toLibs tree env.root).filter fun la => env.cohort la = some cohort).map
    (·.envelope.id)).insertionSort (· ≤ ·)

/-- The rules a bulk selector names; `none` is an exit. -/
def bulkRuleIds (command : PromoteCommand) (tree : FileTree) : Option (Option (List String)) :=
  match command.rulesCsv, command.cohort with
  | some csv, _ =>
    let ids := ((csv.toList.splitOn ',').map Text.strip).filter (· ≠ [])
    if ids = [] then none else some (some (ids.map String.ofList))
  | none, some cohort =>
    let ids := cohortIds env tree cohort
    if ids = [] then none else some (some ids)
  | none, none => some none

/-- `lifecycle_promote_cmd`: the files when it ends, and its reports unless it ended early. -/
def lifecyclePromoteCmd (command : PromoteCommand) (tree : FileTree) :
    FileTree × Option (List PromotionReport) :=
  let selectors := [command.ruleId, command.rulesCsv, command.cohort].filterMap (·.filter (· ≠ ""))
  if selectors.length ≠ 1 then (tree, none)
  else match bulkRuleIds env command tree with
    | none => (tree, none)
    | some (some ruleIds) =>
      promoteMany env command (lookUpWorkspace env command) 0 ruleIds tree
    | some none =>
      match promote env (env.answers 0) command (lookUpWorkspace env command)
          (command.ruleId.getD "") tree with
      | .ok (final, report) => (final, some [report])
      | .error _ => (tree, none)

end
end ContentOps.Lifecycle
