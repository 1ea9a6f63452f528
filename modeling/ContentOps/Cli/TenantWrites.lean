import ContentOps.Audit.Settled
import ContentOps.Cli.Prune
import ContentOps.Cli.DeployOrder

/-! What the commands that write to the tenant get back from their handlers, and the audit records
they make of it. -/

namespace ContentOps
open PyData Audit

inductive PlanAction where
  | create
  | update
  | disable
  | skip
  | noop
  | delete
deriving DecidableEq, Repr

def PlanAction.value : PlanAction → String
  | create => "create"
  | update => "update"
  | disable => "disable"
  | skip => "skip"
  | noop => "noop"
  | delete => "delete"

structure ActionResult where
  assetId : String
  assetKind : String
  action : PlanAction
  status : String
  detail : String := ""
  verified : Option Bool := none
  error : Option String := none
deriving DecidableEq

namespace ActionResult

def isError (r : ActionResult) : Bool :=
  r.status = "error" || "error-".toList.isPrefixOf r.status.toList

def isFailure (r : ActionResult) : Bool := r.isError || r.verified = some false

end ActionResult

/-- A result and what else its record takes up. -/
structure AuditPair where
  id : String
  asset : String
  owner : Option String := none
  workspace : Option String
  digest : Option String := none
  result : ActionResult

inductive DeleteAnswer where
  | returned (r : ActionResult)
  | notSupported (message : String)
  | raised (message : String)

/-- What a run is told by the clock, git, the environment, its handlers and the texts of the
exceptions that its steps raise. -/
structure Surroundings (X : Type) where
  timestamp : Nat → String
  sha : String
  actor : String
  workflowRun : Option String
  owner : LoadedAsset X → Option String
  snippetDigest : LoadedAsset X → LoadedAsset X → Option String
  snippetError : LoadedAsset X → String
  validateError : LoadedAsset X → String
  modeError : Asset → String
  apply : ApplyCall X → Except String ActionResult
  delete : Prune.Orphan → DeleteAnswer

/-- `_build_audit_record`. -/
def buildAuditRecord {X : Type} (env : Surroundings X) (successDetail : Option String) (n : Nat)
    (p : AuditPair) : AuditRecord where
  timestamp := env.timestamp n
  asset := p.asset
  id := p.id
  action := p.result.action.value
  status :=
    if p.result.isFailure then "failed" else if p.result.action = .skip then "skipped"
    else "success"
  sha := env.sha
  actor := env.actor
  workflowRun := env.workflowRun
  message :=
    if p.result.isFailure then
      some (orText (orText (p.result.error.getD "") p.result.detail) p.result.status)
    else if p.result.action = .skip then some p.result.detail |>.filter (· ≠ "")
    else successDetail
  metadataOwner := p.owner
  workspace := p.workspace
  snippetDigest := p.digest

/-! ## The results of a run -/

section
variable {X : Type} (env : Surroundings X)

/-- The result that stands for an exception of the step. -/
def errorResult (la : LoadedAsset X) (status detail : String) : ActionResult where
  assetId := la.envelope.id
  assetKind := la.envelope.asset.value
  action := .noop
  status := status
  detail := detail

/-- The result of a call of `handler.apply`. -/
def applyResult (c : ApplyCall X) : ActionResult :=
  match env.apply c with
  | .ok r => r
  | .error message => errorResult c.asset "error-apply" message

/-- The result of a call of `handler.delete`. -/
def deleteResult (o : Prune.Orphan) : ActionResult :=
  match env.delete o with
  | .returned r => r
  | .notSupported message =>
    { assetId := o.envelopeId, assetKind := o.asset.value, action := .skip, status := "skipped"
      detail := (message.take 200).toString }
  | .raised message =>
    { assetId := o.envelopeId, assetKind := o.asset.value, action := .delete
      status := "error-exception", detail := (message.take 200).toString
      error := some (message.take 200).toString }

def monitorModeDetail (a : Asset) : String :=
  "assetModes[" ++ a.value ++ "]=monitor — collect/drift/lint only; set `assetModes: \x7b" ++
    a.value ++ ": managed\x7d` on the workspace (or defender:) block in config/tenant.yml to " ++
      "enable apply and prune"

namespace WriteRun

/-- The result of a step of `apply` whose snippets are filled in. -/
def resolvedResult (run : WriteRun X) (active : Option String) (mode : Option AssetMode)
    (la resolved : LoadedAsset X) : ActionResult :=
  if !run.validate resolved then errorResult la "error-apply" (env.validateError resolved)
  else match mode with
    | none => errorResult la "error-apply" (env.modeError la.envelope.asset)
    | some .monitor =>
      { assetId := la.envelope.id, assetKind := la.envelope.asset.value, action := .skip
        status := "monitor", detail := monitorModeDetail la.envelope.asset }
    | some .managed =>
      applyResult env
        ⟨handlerWorkspace run.casefold run.config active la.envelope.asset, resolved⟩

/-- `_process_apply_asset`: the pair that it adds. -/
def applyPair (run : WriteRun X) (active name : Option String) (mode : Option AssetMode)
    (la : LoadedAsset X) : Option AuditPair :=
  if !run.isRegistered la.envelope.asset then none
  else match Snippets.applySnippets run.libs run.tree run.overridesRoot name la with
    | none => some
      { id := la.envelope.id, asset := la.envelope.asset.value, owner := env.owner la
        workspace := name
        result := errorResult la "error-validate"
          ("snippet substitution failed: " ++ env.snippetError la) }
    | some resolved => some
      { id := la.envelope.id, asset := la.envelope.asset.value, owner := env.owner la
        workspace := name, digest := env.snippetDigest la resolved
        result := run.resolvedResult env active mode la resolved }

/-- The pair of an asset in a round of `apply`. -/
def roundPair (run : WriteRun X) (entry : Option SentinelWorkspaceConfig) (la : LoadedAsset X) :
    Option AuditPair :=
  run.applyPair env (run.activeIn entry) (entry.map (·.workspaceName))
    (assetModeFor run.casefold run.config (run.activeIn entry) la.envelope.asset) la

variable [Value.ScalarEq X] [Json.FloatText X]

def applyPairs (run : WriteRun X) : List AuditPair :=
  match run.selection? with
  | none => []
  | some sel =>
    if !sel.writeAllowed then []
    else if sel.workspaces.isEmpty && run.role = some .integration then []
    else sel.entries.zipIdx.flatMap fun (entry, idx) =>
      (orderedForApply ((run.applyAssets sel).filter fun la =>
        idx = 0 || !la.envelope.asset.isDefender)).filterMap (run.roundPair env entry)

end WriteRun

variable [Value.ScalarEq X] [Json.FloatText X]

def RollbackRun.rollbackPairs (run : RollbackRun X) : List AuditPair :=
  match run.loop with
  | some (active, name, las) => las.filterMap fun la =>
    run.applyPair env active name
      (assetModeFor run.casefold run.config (name.filter (· ≠ "") |>.or active) la.envelope.asset) la
  | none => []

def RetryRun.retryPair (run : RetryRun X) (active : Option String) (la : LoadedAsset X) :
    AuditPair where
  id := la.envelope.id
  asset := la.envelope.asset.value
  owner := env.owner la
  workspace := active
  result :=
    if !run.validate la then errorResult la "error-apply" (env.validateError la)
    else applyResult env
      ⟨handlerWorkspace run.casefold run.config active la.envelope.asset, la⟩

/-- The pairs a retry collects until a kind has no handler. -/
def RetryRun.retryPairs (run : RetryRun X) : List AuditPair :=
  (run.loopAssets.takeWhile fun la => run.isRegistered la.envelope.asset).map
    (run.retryPair env (run.active?.getD none))

def prunePairs (run : Prune.Run X) : List AuditPair :=
  match run.prune with
  | .ok orphans => orphans.map fun o =>
    { id := o.envelopeId, asset := o.asset.value, workspace := run.workspace?.getD none
      result := deleteResult env o }
  | .error _ => []

/-! ## Commands that are audited -/

inductive TenantCommand (X : Type) where
  | apply (run : WriteRun X)
  | prune (run : Prune.Run X)
  | rollback (run : RollbackRun X) (fullSha : String)
  | retryFailed (run : RetryRun X)

namespace TenantCommand

/-- The results of the calls of `handler.apply` and `handler.delete`. -/
def callResults : TenantCommand X → List ActionResult
  | .apply run => run.applyCalls.map (applyResult env)
  | .prune run => (run.prune.toOption.getD []).map (deleteResult env)
  | .rollback run _ => run.rollbackCalls.map (applyResult env)
  | .retryFailed run => run.retryCalls.map (applyResult env)

def pairs : TenantCommand X → List AuditPair
  | .apply run => run.applyPairs env
  | .prune run => prunePairs env run
  | .rollback run _ => run.rollbackPairs env
  | .retryFailed run => run.retryPairs env

/-- An exception of the loop itself leaves the command. -/
def aborts : TenantCommand X → Bool
  | .retryFailed run => run.loopAssets.any fun la => !run.isRegistered la.envelope.asset
  | _ => false

def sink : TenantCommand X → Sink
  | .apply _ => .retrying
  | _ => .single

/-- The record of the `n`th pair. -/
def record (cmd : TenantCommand X) (n : Nat) (p : AuditPair) : AuditRecord :=
  match cmd with
  | .prune _ => buildAuditRecord env (some "pruned") n p
  | .rollback _ fullSha =>
    let base := buildAuditRecord env none n p
    let marker := "rollback to " ++ fullSha
    { base with
      message := some (if base.message.getD "" = "" then marker
        else marker ++ ": " ++ base.message.getD "") }
  | _ => buildAuditRecord env none n p

def records (cmd : TenantCommand X) : List AuditRecord := (cmd.pairs env).mapIdx (cmd.record env)

/-- The end of the command, with what other processes write meanwhile. -/
def finish (sha256 : Text → BitVec 256) (today : Date) (cmd : TenantCommand X)
    (others : Nat → Others) (last : List (List AuditRecord)) (dir : AuditDir) : AuditEnd :=
  if cmd.aborts || (cmd.pairs env).isEmpty then { dir := otherWrites X sha256 today dir last }
  else recordBatch X sha256 today cmd.sink others last dir (cmd.records env)

end TenantCommand
end
end ContentOps
