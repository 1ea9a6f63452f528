import ContentOps.Cli.Shared
import ContentOps.Core.DriftMatch

/-! `contentops prune`, `cli/commands/prune.py`: the remote items of each kind that no local file is
registered for are collected, and deleted unless a gate stops the run. -/

namespace ContentOps.Prune
open PyData

structure Options where
  asset : Option Asset := none
  dryRun : Bool := true
  yes : Bool := false
  maxDeletes : Int := 25
  includeLocked : Bool := false
  allowEmptyKind : Bool := false
  role : Option WorkspaceRole := none
  workspaceName : Option String := none

/-- What a run finds around it. The registry has one handler for each kind. -/
structure Run (X : Type) extends CliContext X where
  handler : Asset → DriftHandler X
  handler_asset : ∀ a, (handler a).asset = a
  options : Options

structure Orphan where
  asset : Asset
  envelopeId : String
  remoteId : String
deriving DecidableEq, Repr

/-- Why a run ends before it deletes. -/
inductive Stop where
  | roleAbsent
  | usage
  | configInvalid
  | purgeDenied
  | noHandlers
  | blind
  | emptyKind
  | nothingToPrune
  | maxDeletesExceeded
  | dryRun
deriving DecidableEq, Repr

section
variable {X : Type}

namespace Run

def willDelete (run : Run X) : Bool := !run.options.dryRun && run.options.yes

/-! ## Selecting the workspace -/

/-- `_skip_if_integration_role_absent`. -/
def integrationAbsent (run : Run X) : Bool :=
  run.options.role = some .integration && (run.options.workspaceName.filter (· ≠ "")).isNone &&
    match run.config with
    | .found cfg => (cfg.workspacesForRole .integration).isEmpty
    | _ => false

/-- The workspace the run is about; `none` is an exit. -/
def workspace? (run : Run X) : Option (Option String) :=
  resolveSingleWorkspace run.casefold run.config run.activeWorkspace run.options.role
    run.options.workspaceName

/-- `_resolve_safeguards_for_target`. -/
def safeguards (run : Run X) (active : Option String) : List WorkspaceSafeguards :=
  match run.config with
  | .found cfg =>
    let workspace := match active.filter (· ≠ "") with
      | some name => cfg.workspaceByName run.casefold name
      | none => match cfg.sentinelWorkspaces with
        | [w] => some w
        | _ => none
    let wantSentinel := run.options.asset.all Asset.isSentinel && !cfg.sentinelWorkspaces.isEmpty
    let wantDefender := run.options.asset.all Asset.isDefender
    (if wantSentinel then workspace.toList.map (·.toWorkspaceSafeguards) else []) ++
      (if wantDefender then cfg.defender.toList.map (·.toWorkspaceSafeguards) else [])
  | _ => []

def maxDeletes (run : Run X) (active : Option String) : Int :=
  (run.safeguards active).foldl (fun m s => min m s.maxDelete) run.options.maxDeletes

/-! ## The plan -/

/-- The drift-capable handlers of the run, less the kinds that are only monitored. -/
def handlers (run : Run X) (active : Option String) : List (DriftHandler X) :=
  ((((registeredKinds run.config run.disabledKinds).getD []).filter fun a =>
    run.options.asset.all (· = a)).map run.handler).filter fun h =>
      assetModeFor run.casefold run.config active h.asset ≠ some .monitor

end Run

/-- The orphan a remote item is, unless a local file is registered for it. -/
def orphanOf (h : DriftHandler X) (index : LocalIndex X) (remote : Document X) : Option Orphan :=
  match h.toEnvelope remote with
  | none => none
  | some envelope =>
    let envelopeId := Value.textAt envelope "id"
    let remoteId := remoteKey remote
    if envelopeId = "" ∨ remoteId = "" then none
    else if index.contains remoteId || index.contains envelopeId then none
    else some { asset := h.asset, envelopeId, remoteId }

/-- The lists the plan phase fills. -/
structure Plan where
  orphans : List Orphan := []
  skippedLocked : List Orphan := []
  emptyKinds : List (Asset × Nat) := []
  listErrors : List (Asset × String) := []
  listedOk : Nat := 0

variable [Value.ScalarEq X] [Json.FloatText X]

namespace Run

/-- The kind and id of every envelope that sets `localCustomization: true`. -/
def lockedIds (run : Run X) : List (Asset × String) :=
  ((loadedAssets run.libs run.tree run.base).filter fun la =>
    isLockedPath run.libs run.tree la.path).map fun la => (la.envelope.asset, la.envelope.id)

def index (run : Run X) (a : Asset) : LocalIndex X := localIndex run.libs run.tree run.base a

def isLocked (run : Run X) (o : Orphan) : Bool :=
  (o.asset, o.envelopeId) ∈ run.lockedIds && !run.options.includeLocked

/-- One round of the loop of the plan phase. -/
def planStep (run : Run X) (plan : Plan) (h : DriftHandler X) : Plan :=
  match h.listRemote with
  | .error message => { plan with listErrors := plan.listErrors ++ [(h.asset, message)] }
  | .ok items =>
    let isEmptyKind := !items.isEmpty && (run.index h.asset).isEmpty
    let found := if isEmptyKind && !run.options.allowEmptyKind then []
      else items.filterMap (orphanOf h (run.index h.asset))
    { plan with
      listedOk := plan.listedOk + 1
      emptyKinds := if isEmptyKind then plan.emptyKinds ++ [(h.asset, items.length)]
        else plan.emptyKinds
      skippedLocked := plan.skippedLocked ++ found.filter run.isLocked
      orphans := plan.orphans ++ found.filter fun o => !run.isLocked o }

def plan (run : Run X) (active : Option String) : Plan :=
  (run.handlers active).foldl run.planStep {}

/-- The gate that stops the run, if one does, once its workspace is known. -/
def stopReason (run : Run X) (active : Option String) : Option Stop :=
  let plan := run.plan active
  if run.config matches .invalid then some .configInvalid
  else if run.willDelete && (run.safeguards active).any fun s => !s.purgeAllowed then
    some .purgeDenied
  else if (registeredKinds run.config run.disabledKinds).isNone then some .configInvalid
  else if (run.handlers active).isEmpty then some .noHandlers
  else if plan.listErrors ≠ [] ∧ plan.listedOk = 0 then some .blind
  else if plan.emptyKinds ≠ [] ∧ !run.options.allowEmptyKind ∧ run.willDelete then some .emptyKind
  else if plan.orphans = [] then some .nothingToPrune
  else if run.maxDeletes active < plan.orphans.length then some .maxDeletesExceeded
  else if !run.willDelete then some .dryRun
  else none

/-- `prune_cmd`: the items whose deletion the handlers are asked for. -/
def prune (run : Run X) : Except Stop (List Orphan) :=
  if run.integrationAbsent then .error .roleAbsent
  else match run.workspace? with
    | none => .error .usage
    | some active =>
      match run.stopReason active with
      | some stop => .error stop
      | none => .ok (run.plan active).orphans

end Run
end
end ContentOps.Prune
