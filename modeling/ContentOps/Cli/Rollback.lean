import ContentOps.Cli.ApplySupport

/-! `contentops rollback`, `cli/commands/rollback.py`: the files of an earlier commit go through the
steps that `apply` has for an asset, with the locks of today. -/

namespace ContentOps
open PyData

/-- `_check_apply_write_allowed_or_exit` for a run about one kind lets it go on. -/
def Selection.writeAllowedFor (sel : Selection) (asset : Option Asset) : Bool :=
  match sel.cfg with
  | none => true
  | some cfg => sel.workspaces.all (·.writeAllowed) &&
      (asset.any (!·.isDefender) || cfg.defender.all (·.writeAllowed))

/-- The target of the rollback, `_rollback_target`; `none` is an exception. -/
def rollbackTarget (config : ConfigFile) (active : Option String) : Option Selection :=
  match config with
  | .missing => some ⟨none, []⟩
  | .invalid => none
  | .found cfg =>
    let named := match active.filter (· ≠ "") with
      | some name => cfg.sentinelWorkspaces.filter (·.workspaceName = name)
      | none => []
    some ⟨some cfg, if named.isEmpty then cfg.sentinelWorkspaces else named⟩

/-- `_skip_if_integration_role_absent`. -/
def skipsIntegration (config : ConfigFile) (role : Option WorkspaceRole)
    (workspaceName : Option String) : Bool :=
  role = some .integration && (workspaceName.getD "").isEmpty &&
    match config with
    | .found cfg => (cfg.workspacesForRole .integration).isEmpty
    | _ => false

/-- A rollback; `oldTree` holds the files of the commit, under `oldBase` its detections. `plans` says
for which assets the plan of their handler is no error. -/
structure RollbackRun (X : Type) extends WriteRun X where
  oldTree : FileTree
  oldBase : Path
  plans : LoadedAsset X → Bool
  asset : Option Asset := none
  ruleId : Option String := none
  maxApply : Int := 25
  dryRun : Bool := true
  yes : Bool := false

/-- `_process_apply_asset`, up to the call of the handler, for a named workspace. -/
def WriteRun.processAsset {X : Type} (run : WriteRun X) (active workspaceName : Option String)
    (la : LoadedAsset X) : Option (ApplyCall X) := do
  let resolved ← if run.isRegistered la.envelope.asset then
    Snippets.applySnippets run.libs run.tree run.overridesRoot workspaceName la
    else none
  if run.validate resolved ∧
      assetModeFor run.casefold run.config (workspaceName.filter (· ≠ "") |>.or active)
        la.envelope.asset = some .managed then
    some ⟨handlerWorkspace run.casefold run.config active la.envelope.asset, resolved⟩
  else none

namespace RollbackRun
variable {X : Type}

/-- The name that the steps of an asset are given. -/
def workspaceNameFor (sel : Selection) (active : Option String) : Option String :=
  match sel.workspaces with
  | [w] => some w.workspaceName
  | _ => active

variable [Value.ScalarEq X] [Json.FloatText X]

/-- `_locked_in_current_tree`: the lock of the file that has the asset now, else of the file that is
at its place. -/
def lockedNow (run : RollbackRun X) (la : LoadedAsset X) : Bool :=
  let today := (loadedAssets run.libs run.tree run.base).reverse.find? fun lb =>
    lb.envelope.asset = la.envelope.asset ∧ lb.envelope.id = la.envelope.id
  isLockedPath run.libs run.tree
    ((today.map (·.path)).getD (run.base ++ la.path.drop run.oldBase.length))

/-- The assets of the rollback after its filters. -/
def assets (run : RollbackRun X) (sel : Selection) : List (LoadedAsset X) :=
  (loadedAssets run.libs run.oldTree run.oldBase).filter fun la =>
    run.asset.all (la.envelope.asset = ·) &&
      (run.ruleId.filter (· ≠ "")).all (la.envelope.id = ·) &&
        engineEnabled run.config la.envelope.asset &&
          sel.admits la.envelope.asset la.envelope.status && !run.lockedNow la

/-- `_process_plan_asset` finds no error. -/
def plansWell (run : RollbackRun X) (active : Option String) (workspaceName : Option String)
    (la : LoadedAsset X) : Bool :=
  !run.isRegistered la.envelope.asset ||
    match Snippets.applySnippets run.libs run.tree run.overridesRoot workspaceName la with
    | none => false
    | some resolved => run.validate resolved &&
        match assetModeFor run.casefold run.config (workspaceName.filter (· ≠ "") |>.or active)
            la.envelope.asset with
        | none => false
        | some .monitor => true
        | some .managed => run.plans resolved

/-- What the loop of the rollback goes over: the active workspace, the name its steps are given, and
the assets. -/
def loop (run : RollbackRun X) : Option (Option String × Option String × List (LoadedAsset X)) := do
  if skipsIntegration run.config run.role run.workspaceName || run.dryRun || !run.yes then none
  else
    let active ← resolveSingleWorkspace run.casefold run.config run.activeWorkspace run.role
      run.workspaceName
    let sel ← rollbackTarget run.config active
    let name := workspaceNameFor sel active
    let las := run.assets sel
    if sel.writeAllowedFor run.asset && las.length ≤ run.maxApply &&
        las.all (run.plansWell active name) then
      some (active, name, las)
    else none

/-- The calls `rollback_cmd` makes. -/
def rollbackCalls (run : RollbackRun X) : List (ApplyCall X) :=
  match run.loop with
  | some (active, name, las) => las.filterMap (run.processAsset active name)
  | none => []

end RollbackRun
end ContentOps
