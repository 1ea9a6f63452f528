import ContentOps.Core.Asset
import ContentOps.Library.Dict
import ContentOps.Library.Text

/-! The tenant configuration of `config.py`: workspaces, their safeguards, and how a run selects
among them. -/

namespace ContentOps
open PyData

inductive WorkspaceRole where
  | prod
  | integration
  | dev
  | test
deriving DecidableEq, Repr

inductive AssetMode where
  | managed
  | monitor
deriving DecidableEq, Repr

/-- `DEFAULT_ASSET_MODES`. -/
def Asset.defaultMode (a : Asset) : AssetMode := if a.isNonDetection then .monitor else .managed

def Asset.isDefender (a : Asset) : Bool := "defender_".toList <+: a.value.toList

def Asset.isSentinel (a : Asset) : Bool := "sentinel_".toList <+: a.value.toList

structure WorkspaceSafeguards where
  writeAllowed : Bool := true
  purgeAllowed : Bool := false
  maxDelete : Nat := 25
  assetModes : Dict Asset AssetMode := []

def WorkspaceSafeguards.assetMode (s : WorkspaceSafeguards) (a : Asset) : AssetMode :=
  (s.assetModes.get? a).getD a.defaultMode

structure SentinelWorkspaceConfig extends WorkspaceSafeguards where
  role : WorkspaceRole := .prod
  workspaceName : String

structure DefenderConfig extends WorkspaceSafeguards where
  enabled : Bool := true

structure TenantConfig where
  name : String
  defender : Option DefenderConfig := none
  sentinelWorkspaces : List SentinelWorkspaceConfig := []

/-- What `load_tenant_config` finds: no file, a file it rejects, or a configuration. -/
inductive ConfigFile where
  | missing
  | invalid
  | found (cfg : TenantConfig)

namespace TenantConfig

def workspacesForRole (cfg : TenantConfig) (role : WorkspaceRole) : List SentinelWorkspaceConfig :=
  cfg.sentinelWorkspaces.filter (·.role = role)

def defenderSafeguards (cfg : TenantConfig) : WorkspaceSafeguards :=
  (cfg.defender.map (·.toWorkspaceSafeguards)).getD {}

-- `casefold` is `str.casefold`.
variable (casefold : String → String)

/-- `none` is `KeyError`. -/
def workspaceByName (cfg : TenantConfig) (name : String) : Option SentinelWorkspaceConfig :=
  cfg.sentinelWorkspaces.find? fun w => casefold w.workspaceName = casefold name

/-- `select_workspaces`; `none` is an exception. -/
def selectWorkspaces (cfg : TenantConfig) (role : Option WorkspaceRole) (workspace : Option String) :
    Option (List SentinelWorkspaceConfig) :=
  match role, workspace with
  | some _, some _ => none
  | none, some name => (cfg.workspaceByName casefold name).map fun w => [w]
  | some r, none => some (cfg.workspacesForRole r)
  | none, none =>
    match cfg.sentinelWorkspaces with
    | [] => some []
    | [w] => some [w]
    | _ => none

end TenantConfig

end ContentOps
