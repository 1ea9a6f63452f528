import ContentOps.Cli.Shared
import ContentOps.Snippets
import Mathlib.Data.List.Sort

/-! What `apply` shares with the commands that write like it, `cli/commands/apply_support.py`, and
the calls of handlers that `cli/commands/apply.py` makes of it. -/

namespace ContentOps
open PyData

def WorkspaceRole.value : WorkspaceRole → String
  | .prod => "prod"
  | .integration => "integration"
  | .dev => "dev"
  | .test => "test"

/-- `allowed_statuses_for_env`: a name it does not know counts as production. -/
def allowedStatuses (envName : String) : List String :=
  let key := lowerAscii (String.ofList (Text.strip envName.toList))
  if key ∈ ["dev", "development", "sandbox", "local"] then
    ["experimental", "test", "production", "deprecated"]
  else if key = "test" then ["test", "deprecated"]
  else if key ∈ ["integration", "staging", "stage"] then ["test", "production", "deprecated"]
  else ["production", "deprecated"]

/-! ## The workspaces of a run -/

/-- What `_resolve_workspaces_for_run` returns. -/
structure Selection where
  cfg : Option TenantConfig
  workspaces : List SentinelWorkspaceConfig

/-- `_resolve_workspaces_for_run`; `none` is an exit. -/
def resolveWorkspacesForRun (casefold : String → String) (config : ConfigFile)
    (role : Option WorkspaceRole) (workspaceName : Option String) : Option Selection :=
  match config with
  | .missing => some ⟨none, []⟩
  | .invalid => none
  | .found cfg => (cfg.selectWorkspaces casefold role workspaceName).map fun ws => ⟨some cfg, ws⟩

namespace Selection

/-- `_check_apply_write_allowed_or_exit` lets the run go on. -/
def writeAllowed (sel : Selection) : Bool :=
  match sel.cfg with
  | none => true
  | some cfg => sel.workspaces.all (·.writeAllowed) && cfg.defender.all (·.writeAllowed)

/-- The environment whose statuses count; `none` when there is no configuration. -/
def gateKey (sel : Selection) : Option String :=
  sel.cfg.map fun cfg => (sel.workspaces.head?.map (·.role.value)).getD cfg.name

/-- `_filter_loaded_by_env_status` keeps an asset of this kind with this status. -/
def admits (sel : Selection) (asset : Asset) (status : String) : Bool :=
  match sel.gateKey with
  | none => true
  | some key =>
    if asset.isDefender && !sel.workspaces.isEmpty && key ∉ ["prod", "production"] then false
    else status ∈ allowedStatuses key

/-- The entries of the loop over workspaces; `none` is a run without one. -/
def entries (sel : Selection) : List (Option SentinelWorkspaceConfig) :=
  if sel.workspaces.isEmpty then [none] else sel.workspaces.map some

end Selection

/-- `_filter_disabled_engines` keeps the assets of this kind. -/
def engineEnabled (config : ConfigFile) (a : Asset) : Bool :=
  match config with
  | .found cfg =>
    if a.isDefender then cfg.defender.any (·.enabled) else !cfg.sentinelWorkspaces.isEmpty
  | _ => true

/-- The workspace the handler of a kind talks to, `_active_workspace`: none for Defender, and none
where the handler's first use of it raises. -/
def handlerWorkspace (casefold : String → String) (config : ConfigFile) (active : Option String)
    (a : Asset) : Option String :=
  match config with
  | .found cfg =>
    if a.isDefender then none
    else match active.filter (· ≠ "") with
      | some name => (cfg.workspaceByName casefold name).map (·.workspaceName)
      | none => match cfg.sentinelWorkspaces with
        | [w] => some w.workspaceName
        | _ => none
  | _ => none

/-- A call `handler.apply(asset)` of the handler bound to a workspace. -/
structure ApplyCall (X : Type) where
  workspace : Option String
  asset : LoadedAsset X

/-! ## The calls of `apply` -/

/-- A run that writes: `validate` says which assets their handler accepts. -/
structure WriteRun (X : Type) extends CliContext X where
  validate : LoadedAsset X → Bool
  role : Option WorkspaceRole := none
  workspaceName : Option String := none

namespace WriteRun
variable {X : Type}

def selection? (run : WriteRun X) : Option Selection :=
  resolveWorkspacesForRun run.casefold run.config run.role run.workspaceName

def isRegistered (run : WriteRun X) (a : Asset) : Bool :=
  a ∈ (registeredKinds run.config run.disabledKinds).getD []

def overridesRoot (run : WriteRun X) : Path := run.base.dropLast ++ ["overrides"]

/-- The active workspace in a round of the loop over workspaces. -/
def activeIn (run : WriteRun X) (entry : Option SentinelWorkspaceConfig) : Option String :=
  match entry with
  | some w => some w.workspaceName
  | none => run.activeWorkspace

/-- `_process_apply_asset`, up to the call of the handler. -/
def processApplyAsset (run : WriteRun X) (entry : Option SentinelWorkspaceConfig)
    (la : LoadedAsset X) : Option (ApplyCall X) := do
  let resolved ← if run.isRegistered la.envelope.asset then
    Snippets.applySnippets run.libs run.tree run.overridesRoot (entry.map (·.workspaceName)) la
    else none
  if run.validate resolved ∧
      assetModeFor run.casefold run.config (run.activeIn entry) la.envelope.asset =
        some .managed then
    some ⟨handlerWorkspace run.casefold run.config (run.activeIn entry) la.envelope.asset, resolved⟩
  else none

/-- A step hands over what has a handler, whose queries are found and that passes the gate. -/
theorem process_eq_some {registered : Bool} {x : Option (LoadedAsset X)}
    {gate : LoadedAsset X → Prop} [DecidablePred gate] {call : LoadedAsset X → ApplyCall X}
    {c : ApplyCall X}
    (h : (do
      let resolved ← if registered then x else none
      if gate resolved then some (call resolved) else none) = some c) :
    registered = true ∧ ∃ resolved, x = some resolved ∧ gate resolved ∧ call resolved = c := by
  cases registered with
  | false => exact absurd h (by simp)
  | true =>
    obtain ⟨resolved, hresolved, h⟩ := Option.bind_eq_some_iff.mp h
    dsimp only at h
    by_cases hgate : gate resolved
    · rw [if_pos hgate] at h
      exact ⟨rfl, resolved, hresolved, hgate, Option.some.inj h⟩
    · rw [if_neg hgate] at h
      exact absurd h (by simp)

variable [Value.ScalarEq X] [Json.FloatText X]

/-- `ordered_for_apply`. -/
def orderedForApply (las : List (LoadedAsset X)) : List (LoadedAsset X) :=
  let key := fun la : LoadedAsset X =>
    toLex (la.envelope.asset.applyOrder, "/".intercalate la.path)
  las.insertionSort fun la lb => key la ≤ key lb

/-- The assets that get past the filters of `apply_cmd`. -/
def applyAssets (run : WriteRun X) (sel : Selection) : List (LoadedAsset X) :=
  (loadedAssets run.libs run.tree run.base).filter fun la =>
    engineEnabled run.config la.envelope.asset && sel.admits la.envelope.asset la.envelope.status &&
      !isLockedPath run.libs run.tree la.path

/-- `_run_workspace_iteration`: the Defender assets are for the first round only. -/
def iterationCalls (run : WriteRun X) (las : List (LoadedAsset X))
    (entries : List (Option SentinelWorkspaceConfig)) : List (ApplyCall X) :=
  entries.zipIdx.flatMap fun (entry, idx) =>
    (orderedForApply (las.filter fun la => idx = 0 || !la.envelope.asset.isDefender)).filterMap
      (run.processApplyAsset entry)

/-- The calls `apply_cmd` makes, without `--asset` and `--changed-since`, with the check of the
dependencies skipped and without `--force-overwrite`. -/
def applyCalls (run : WriteRun X) : List (ApplyCall X) :=
  match run.selection? with
  | none => []
  | some sel =>
    if !sel.writeAllowed then []
    else if sel.workspaces.isEmpty && run.role = some .integration then []
    else run.iterationCalls (run.applyAssets sel) sel.entries

end WriteRun
end ContentOps
