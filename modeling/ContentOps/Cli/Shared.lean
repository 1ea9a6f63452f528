import ContentOps.Config
import ContentOps.Core.Discovery

/-! What the commands share, `cli/commands/_shared.py` and `cli/handler_factories.py`: the workspace
a run is about, the modes of the kinds, the registered handlers and the locks. -/

namespace ContentOps
open PyData

/-- What a command finds around it: the libraries, the files, the tenant configuration and the
environment variables. -/
structure CliContext (X : Type) where
  libs : Libs X
  casefold : String → String
  tree : FileTree
  base : Path
  config : ConfigFile
  activeWorkspace : Option String
  disabledKinds : String

section
variable (casefold : String → String)

/-- `_resolve_single_workspace_or_exit`: the active workspace from then on; `none` is an exit. -/
def resolveSingleWorkspace (config : ConfigFile) (active : Option String)
    (role : Option WorkspaceRole) (workspaceName : Option String) : Option (Option String) :=
  if role = none ∧ workspaceName = none then some active
  else match config with
    | .missing | .invalid => none
    | .found cfg =>
      if cfg.sentinelWorkspaces.isEmpty then some active
      else match cfg.selectWorkspaces casefold role workspaceName with
        | some [w] => some (some w.workspaceName)
        | _ => none

/-- The mode of a kind for the active workspace: `asset_mode_for`. -/
def assetModeFor (config : ConfigFile) (active : Option String)
    (a : Asset) : Option AssetMode :=
  match config with
  | .missing => some a.defaultMode
  | .invalid => none
  | .found cfg =>
    if a.isDefender then some (cfg.defenderSafeguards.assetMode a)
    else match active.filter (· ≠ "") with
      | some name => some (((cfg.workspaceByName casefold name).map (·.assetMode a)).getD
          a.defaultMode)
      | none =>
        match cfg.sentinelWorkspaces with
        | [w] => some (w.assetMode a)
        | _ => some a.defaultMode

end

/-- `disabled_kinds` of the environment variable's text; `none` is `ValueError`. -/
def disabledKinds (raw : String) : Option (List Asset) :=
  (((raw.toList.splitOn ',').map Text.strip).filter (· ≠ [])).mapM fun t =>
    Asset.ofValue? (String.ofList t)

/-- The kinds `register_default_handlers` registers, in its order; `none` is an exception. -/
def registeredKinds (config : ConfigFile) (disabledRaw : String) : Option (List Asset) := do
  let (sentinel, defender) ← match config with
    | .missing => some (true, true)
    | .invalid => none
    | .found cfg => some (!cfg.sentinelWorkspaces.isEmpty, cfg.defender.any (·.enabled))
  let disabled ← disabledKinds disabledRaw
  let order : List Asset := [.sentinelAnalytic, .defenderCustomDetection, .sentinelHunting,
    .sentinelWatchlist, .sentinelParser, .sentinelDataConnector, .sentinelPlaybook,
    .sentinelAutomationRule]
  some (order.filter fun a => (if a.isDefender then defender else sentinel) &&
    !(a.isNonDetection && a ∈ disabled))

section
variable {X : Type}

/-- `_is_locked_path`. -/
def isLockedPath (libs : Libs X) (tree : FileTree) (p : Path) : Bool :=
  match ((tree.read p).bind libs.safeLoad).bind Value.dict? with
  | some raw => (raw.get? "localCustomization" matches some (.bool true))
  | none => false

end
end ContentOps
