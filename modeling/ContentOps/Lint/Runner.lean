import ContentOps.Core.Dependencies
import ContentOps.Lint.Kql

/-! The lint runner, `lint/runner.py`, and the rules of `lint/support_assets.py` that need the whole
tree. The rules for one file are parameters. -/

namespace ContentOps.Lint
open PyData Kql

structure LintedFile where
  path : Path
  asset : Option Asset
  findings : List LintFinding

/-- The rules that look at one file (`none` is an exception), what an exception of a load says, and
how Python writes values; only the rules for the whole tree report PAYLOAD007. -/
structure LintLib (X : Type) where
  lintPayload : LoadedAsset X → Option (List LintFinding)
  lintMetadata : LoadedAsset X → Bool → Option (List LintFinding)
  lintSupportAssetPayload : LoadedAsset X → Option (List LintFinding)
  /-- `lint_kql`, `lint_kql_placeholders` and `run_python_rules`. -/
  lintQuery : String → String → List LintFinding
  hasPartialAuthoring : LoadedAsset X → Bool
  loadDetail : Path → String × Option Nat
  str : Value X → String
  repr : String → String
  reprList : List String → String
  payload_own : ∀ la fs, lintPayload la = some fs → ∀ f ∈ fs, f.rule_id ≠ "PAYLOAD007"
  metadata_own : ∀ la strict fs, lintMetadata la strict = some fs →
    ∀ f ∈ fs, f.rule_id ≠ "PAYLOAD007"
  support_own : ∀ la fs, lintSupportAssetPayload la = some fs → ∀ f ∈ fs, f.rule_id ≠ "PAYLOAD007"
  query_own : ∀ query kind, ∀ f ∈ lintQuery query kind, f.rule_id ≠ "PAYLOAD007"

section
variable {X : Type} [Value.ScalarEq X] [Json.FloatText X] (lib : LintLib X)

/-! ## The rules for the whole tree -/

def missingPlaybook (pb : String) : LintFinding where
  rule_id := "PAYLOAD007"
  severity := "error"
  message := "RunPlaybook action references playbook " ++ lib.repr pb ++
    " but no detections/sentinel_playbook/" ++ pb ++ ".yml exists."
  line := none

def missingAnalytic (an : String) : LintFinding where
  rule_id := "PAYLOAD007"
  severity := "error"
  message := "condition references analytic:" ++ an ++ " but no detections/sentinel_analytic/" ++
    an ++ ".yml exists."
  line := none

def idsOf (kind : Asset) (loaded : List (LoadedAsset X)) : List String :=
  (loaded.filter (·.envelope.asset = kind)).map (·.envelope.id)

/-- The references of a rule to what is not among these ids; `none` is an exception. -/
def danglingRefs (playbooks analytics : List String) (la : LoadedAsset X) :
    Option (List LintFinding) := do
  let pbs ← AutomationRule.playbookRefs lib.str la.payload
  let ans ← AutomationRule.analyticRefs la.payload
  some ((pbs.filter (· ∉ playbooks)).map (missingPlaybook lib) ++
    (ans.filter (· ∉ analytics)).map missingAnalytic)

/-- The key of PAYLOAD009. -/
structure TriggerKey (X : Type) where
  triggersOn : String
  triggersWhen : String
  order : Value X

def TriggerKey.same (a b : TriggerKey X) : Bool :=
  a.triggersOn = b.triggersOn && a.triggersWhen = b.triggersWhen && a.order.pyEq b.order

/-- `str(logic.get(key, default))`. -/
def textOr (logic : Document X) (key default : String) : String :=
  match Dict.get? logic key with
  | none => default
  | some (.str s) => s
  | some v => lib.str v

/-- `none` is an exception: no mapping, or an order that cannot be hashed. -/
def triggerKey (la : LoadedAsset X) : Option (TriggerKey X) := do
  let payload ← la.payload.dict?
  let logic ← AutomationRule.mapping (Value.get payload "triggeringLogic")
  let order := Value.get payload "order"
  let key : TriggerKey X :=
    { triggersOn := textOr lib logic "triggersOn" "Incidents"
      triggersWhen := textOr lib logic "triggersWhen" "Created"
      order := order }
  match order with
  | .list _ | .dict _ => none
  | _ => some key

/-- `by_trigger.setdefault(key, []).append(la)`. -/
def addToGroup (key : TriggerKey X) (la : LoadedAsset X) :
    List (TriggerKey X × List (LoadedAsset X)) → List (TriggerKey X × List (LoadedAsset X))
  | [] => [(key, [la])]
  | (k, group) :: rest =>
    if k.same key then (k, group ++ [la]) :: rest else (k, group) :: addToGroup key la rest

def sharedOrder (key : TriggerKey X) (others : List String) : LintFinding where
  rule_id := "PAYLOAD009"
  severity := "warning"
  message := "order " ++ lib.str key.order ++ " is shared with " ++ lib.reprList others ++
    " on the same trigger (" ++ key.triggersOn ++ "/" ++ key.triggersWhen ++
    "); Sentinel runs same-order rules in an unspecified sequence. Give each rule a distinct order."
  line := none

def orderFindings (key : TriggerKey X) (group : List (LoadedAsset X)) :
    List (Path × List LintFinding) :=
  if (key.order matches .null) || group.length < 2 then []
  else
    let ids := (group.map (·.envelope.id)).insertionSort (· ≤ ·)
    group.map fun la => (la.path, [sharedOrder lib key (ids.filter (· ≠ la.envelope.id))])

/-- What the rules for the whole tree add for each path, in their order, of automation rules beside
these ids; `none` is an exception. -/
def repoFindings (playbooks analytics : List String) (rules : List (LoadedAsset X)) :
    Option (List (Path × List LintFinding)) := do
  let dangling ← rules.mapM fun la =>
    (danglingRefs lib playbooks analytics la).map fun found => (la.path, found)
  let keys ← rules.mapM fun la => (triggerKey lib la).map fun key => (key, la)
  let byTrigger := keys.foldl (fun groups p => addToGroup p.1 p.2 groups) []
  some (dangling.filter (·.2 ≠ []) ++ byTrigger.flatMap fun g => orderFindings lib g.1 g.2)

/-- `lint_support_assets_repo`. -/
def lintSupportAssetsRepo (loaded : List (LoadedAsset X)) :
    Option (List (Path × List LintFinding)) :=
  repoFindings lib (idsOf .sentinelPlaybook loaded) (idsOf .sentinelAnalytic loaded)
    (loaded.filter (·.envelope.asset = .sentinelAutomationRule))

/-! ## The rules for one file -/

/-- `_extract_query`. -/
def extractQuery (payload : Value X) (path : List String) : Option String :=
  match path with
  | [] => payload.text?
  | part :: rest => (payload.dict?.bind fun d => Dict.get? d part).bind fun v => extractQuery v rest

/-- `_query_for`. -/
def queryFor (la : LoadedAsset X) : Option String :=
  la.envelope.asset.kqlFields.findSome? (extractQuery la.payload)

/-- `_SUPPORT_ASSET_META_RULES`. -/
def supportAssetMetaRules : List String := ["META001", "META002", "META008"]

/-- The findings of the rules that look at this file only. -/
def fileFindings (strictPolicy : Bool) (la : LoadedAsset X) : Option (List LintFinding) := do
  let payload ← lib.lintPayload la
  let metadata ← lib.lintMetadata la (strictPolicy || lib.hasPartialAuthoring la)
  let rest ← (if la.envelope.asset.isNonDetection then
    (lib.lintSupportAssetPayload la).map fun support =>
      support ++ metadata.filter (·.rule_id ∈ supportAssetMetaRules)
    else some metadata)
  some (payload ++ rest ++ (queryFor la).elim [] fun q => lib.lintQuery q la.envelope.asset.value)

/-! ## The runner -/

/-- What a run reads. The snippet files are linted on their own. -/
structure LintRun (X : Type) where
  libs : Libs X
  lib : LintLib X
  tree : FileTree
  base : Path
  strictPolicy : Bool
  overrides : List (Path × LintFinding)
  overrides_own : ∀ p ∈ overrides, p.2.rule_id ≠ "PAYLOAD007"

namespace LintRun
variable (run : LintRun X)

def load (path : Path) : Option (LoadedAsset X) :=
  (run.tree.read path).bind (loadAsset run.libs run.tree path)

/-- The kind that a file names, where it can be read. -/
def assetKey (path : Path) : Option Asset := do
  let raw ← (← (run.tree.read path).bind run.libs.safeLoad).dict?
  Asset.ofValue? (← (Value.get raw "asset").text?)

/-- `_is_other_kind`. -/
def isOtherKind (path : Path) (kind : Asset) : Bool := (run.assetKey path).any (· ≠ kind)

def loadErrorFinding (path : Path) : LintFinding where
  rule_id := "ENVELOPE001"
  severity := "error"
  message := "Envelope does not load (" ++ (run.lib.loadDetail path).1 ++
    "); plan and apply skip this file."
  line := (run.lib.loadDetail path).2

/-- What one file comes to: its entry in the results, and the asset for the rules of the whole tree;
`none` is an exception. -/
def lintFile (filter : Option Asset) (path : Path) :
    Option (List LintedFile × List (LoadedAsset X)) :=
  match run.load path with
  | none =>
    if filter.any (run.isOtherKind path) then some ([], [])
    else some ([⟨path, none, [run.loadErrorFinding path]⟩], [])
  | some la =>
    if filter.any (la.envelope.asset ≠ ·) then some ([], [])
    else (fileFindings run.lib run.strictPolicy la).map fun findings =>
      (if findings ≠ [] ∨ (queryFor la).isSome then [⟨path, some la.envelope.asset, findings⟩]
        else [], [la])

/-- The findings of the whole tree join those of their file. -/
def extend (path : Path) (asset : Option Asset) (extra : List LintFinding) :
    List LintedFile → List LintedFile
  | [] => [⟨path, asset, extra⟩]
  | lf :: rest =>
    if lf.path = path then { lf with findings := lf.findings ++ extra } :: rest
    else lf :: extend path asset extra rest

/-- `lint_assets`; `none` is an exception. -/
def lintAssets (filter : Option Asset) : Option (List LintedFile) := do
  let files ← (discoverAssets run.tree run.base).mapM (run.lintFile filter)
  let results := files.flatMap (·.1)
  let allLoaded := files.flatMap (·.2)
  let supportLoaded := allLoaded.filter (·.envelope.asset.isNonDetection)
  let repo ← (if supportLoaded.isEmpty then some [] else lintSupportAssetsRepo run.lib allLoaded)
  let assetOf := fun path => (supportLoaded.find? (·.path = path)).map (·.envelope.asset)
  let results := repo.foldl (fun results p => extend p.1 (assetOf p.1) p.2 results) results
  some (results ++ run.overrides.map fun p => ⟨p.1, none, [p.2]⟩)

end LintRun
end
end ContentOps.Lint
