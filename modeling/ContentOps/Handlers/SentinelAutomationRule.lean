import ContentOps.Core.Drift
import ContentOps.Core.Slug
import ContentOps.Handlers.SentinelAnalytic
import ContentOps.Library.ValueTexts

/-! What the handler of automation rules sends and collects,
`handlers/sentinel_automation_rule.py` and `handlers/sentinel_automation_rule_models.py`. -/

namespace ContentOps.AutomationRule
open PyData

/-! ## Resource ids -/

-- How the patterns see a letter: the case does not count, and `re.IGNORECASE` takes four letters
-- outside ASCII for the ones they look like.
def foldChar (c : Char) : Char :=
  if c = '\u0130' ∨ c = '\u0131' then 'i' else if c = '\u017f' then 's'
  else if c = '\u212a' then 'k' else c.toLower

def sameFolded (literal : String) (t : Text) : Bool :=
  literal.toList.map foldChar = t.map foldChar

/-- The groups of `_LOGIC_APP_ID_RE`: subscription, resource group and name. -/
def logicAppParts (rid : String) : Option (String × String × String) :=
  match rid.toList.splitOn '/' with
  | [[], a, sub, b, rg, p, m, w, name] =>
    if sameFolded "subscriptions" a ∧ sub ≠ [] ∧ sameFolded "resourceGroups" b ∧ rg ≠ [] ∧
        sameFolded "providers" p ∧ sameFolded "Microsoft.Logic" m ∧ sameFolded "workflows" w ∧
        name ≠ [] then
      some (String.ofList sub, String.ofList rg, String.ofList name)
    else none
  | _ => none

/-- The groups of `_ALERT_RULE_ID_RE`: workspace and name. -/
def alertRuleParts (rid : String) : Option (String × String) :=
  match (rid.toList.splitOn '/').reverse with
  | name :: a :: m :: p :: rest =>
    let workspace := ['/'].intercalate rest.reverse
    if name ≠ [] ∧ sameFolded "alertRules" a ∧ sameFolded "Microsoft.SecurityInsights" m ∧
        sameFolded "providers" p ∧ workspace ≠ [] ∧ '\n' ∉ workspace then
      some (String.ofList workspace, String.ofList name)
    else none
  | _ => none

def logicAppResourceId (subscriptionId resourceGroup workflowName : String) : String :=
  "/subscriptions/" ++ subscriptionId ++ "/resourceGroups/" ++ resourceGroup ++
    "/providers/Microsoft.Logic/workflows/" ++ workflowName

def analyticRuleResourceId (workspacePath armName : String) : String :=
  workspacePath ++ "/providers/Microsoft.SecurityInsights/alertRules/" ++ armName

def playbookIdFromResourceId (lower : String → String) (rid subscriptionId resourceGroup : String) :
    Option String :=
  match logicAppParts rid with
  | none => none
  | some (sub, rg, name) =>
    if lower sub ≠ lower subscriptionId then none
    else if lower rg ≠ lower resourceGroup then none
    else
      let slug := Slug.displaynameSlug name (some name)
      if slug = "" then none else some slug

def analyticArmNameFromResourceId (lower : String → String) (rid workspacePath : String) :
    Option String :=
  match alertRuleParts rid with
  | none => none
  | some (workspace, name) => if lower workspace ≠ lower workspacePath then none else some name

/-! ## Points in time -/

/-- `parse_expiration` and `strftime`; what is written is read as a time that is written the same. -/
structure Expirations where
  Time : Type
  parse : String → Option Time
  strftime : Time → String
  /-- Not after now. -/
  past : Time → Bool
  stable : ∀ t, ∃ u, parse (strftime t) = some u ∧ strftime u = strftime t

/-- `normalize_expiration`. -/
def Expirations.normalize (times : Expirations) (s : String) : String :=
  match times.parse s with
  | none => s
  | some t => times.strftime t

theorem Expirations.normalize_normalize (times : Expirations) (s : String) :
    times.normalize (times.normalize s) = times.normalize s := by
  cases hs : times.parse s with
  | none =>
    have hone : times.normalize s = s := by rw [normalize, hs]
    rw [hone, hone]
  | some t =>
    obtain ⟨u, hu, heq⟩ := times.stable t
    have hone : times.normalize s = times.strftime t := by rw [normalize, hs]
    rw [hone, normalize, hu]
    exact heq

/-- `is_expired`. -/
def Expirations.isExpired (times : Expirations) (s : String) : Bool := (times.parse s).any times.past

/-! ## What the handler knows -/

/-- `str.lower`: a slash and a newline are no letters. -/
structure LowerCase where
  lower : String → String
  mem_iff : ∀ s, ∀ c ∈ ['/', '\n'], c ∈ (lower s).toList ↔ c ∈ s.toList
  head_iff : ∀ s, (lower s).toList.head? = some '/' ↔ s.toList.head? = some '/'
  empty_iff : ∀ s, lower s = "" ↔ s = ""

/-- The libraries, the configured workspace and the local analytics. -/
structure Handler extends LowerCase where
  times : Expirations
  subscriptionId : String
  resourceGroup : String
  workspaceName : String
  /-- `effective_playbooks_resource_group`. -/
  playbooksResourceGroup : String
  tenantId : Option String
  /-- The id and the `arm_name` of each local analytic, in the order they load. -/
  analytics : List (String × Option String)

namespace Handler
variable (h : Handler)

/-- `loganalytics_workspace_path`. -/
def workspacePath : String :=
  "/subscriptions/" ++ h.subscriptionId ++ "/resourceGroups/" ++ h.resourceGroup ++
    "/providers/Microsoft.OperationalInsights/workspaces/" ++ h.workspaceName

/-- `_analytics`. -/
def analyticIndex : Dict String String :=
  Dict.ofPairs (h.analytics.map fun a => (a.1, orText (a.2.getD "") a.1))

/-- `{arm: eid for eid, arm in self._analytics().items()}`. -/
def byArm : Dict String String := Dict.ofPairs (h.analyticIndex.map fun p => (p.2, p.1))

/-- `_resolve_playbook`. -/
def resolvePlaybook (playbookId : String) : String × Option String :=
  (logicAppResourceId h.subscriptionId h.playbooksResourceGroup playbookId, h.tenantId)

/-- `_resolve_analytic`; `none` is `ValueError`. -/
def resolveAnalytic (envelopeId : String) : Option String :=
  (h.analyticIndex.get? envelopeId).map (analyticRuleResourceId h.workspacePath)

end Handler

def analyticRefPrefix : Text := "analytic:".toList

def analyticRuleIdProperties : List String :=
  ["IncidentRelatedAnalyticRuleIds", "AlertAnalyticRuleIds"]

/-! ## Conditions -/

section
variable {X : Type} {m : Type → Type} [Monad m]

def isRuleIds (props : Document X) : Bool :=
  match Value.get props "propertyName" with
  | .str s => s ∈ analyticRuleIdProperties
  | _ => false

def rewriteValues (leaf : Value X → m (Value X)) : Value X → m (Value X)
  | .list vs => do return .list (← vs.mapM leaf)
  | v => pure v

mutual

/-- What `_reverse_condition` and `_resolve_condition` have in common: the values of a condition on
rule ids are rewritten, and those of the conditions nested in it. -/
def rewriteCondition (leaf : Value X → m (Value X)) : Value X → m (Value X)
  | .dict cond => do return .dict (← rewriteConditionEntries leaf cond)
  | v => pure v

def rewriteConditionEntries (leaf : Value X → m (Value X)) :
    List (String × Value X) → m (List (String × Value X))
  | [] => pure []
  | (k, v) :: rest => do
    let v ← if k = "conditionProperties" then rewriteProperties leaf v else pure v
    return (k, v) :: (← rewriteConditionEntries leaf rest)

def rewriteProperties (leaf : Value X → m (Value X)) : Value X → m (Value X)
  | .dict props => do return .dict (← rewritePropertiesEntries leaf (isRuleIds props) props)
  | v => pure v

def rewritePropertiesEntries (leaf : Value X → m (Value X)) (ruleIds : Bool) :
    List (String × Value X) → m (List (String × Value X))
  | [] => pure []
  | (k, v) :: rest => do
    let v ← if k = "innerConditions" ∨ k = "itemConditions" then rewriteNested leaf v
      else if k = "propertyValues" ∧ ruleIds then rewriteValues leaf v
      else pure v
    return (k, v) :: (← rewritePropertiesEntries leaf ruleIds rest)

def rewriteNested (leaf : Value X → m (Value X)) : Value X → m (Value X)
  | .list vs => do return .list (← rewriteConditions leaf vs)
  | v => pure v

def rewriteConditions (leaf : Value X → m (Value X)) : List (Value X) → m (List (Value X))
  | [] => pure []
  | v :: vs => do return (← rewriteCondition leaf v) :: (← rewriteConditions leaf vs)

end
end

namespace Handler
variable {X : Type} (h : Handler)

/-- A value in `_reverse_condition`. -/
def reverseValue : Value X → Value X
  | .str v =>
    match analyticArmNameFromResourceId h.lower v h.workspacePath with
    | none => .str v
    | some arm =>
      match (h.byArm.get? arm).filter (· ≠ "") with
      | none => .str v
      | some eid => .str (String.ofList (analyticRefPrefix ++ eid.toList))
  | v => v

/-- A value in `_resolve_condition`. -/
def resolveValue : Value X → Option (Value X)
  | .str v =>
    if analyticRefPrefix <+: v.toList then
      (h.resolveAnalytic (String.ofList (v.toList.drop analyticRefPrefix.length))).map .str
    else some (.str v)
  | v => some v

def reverseCondition (cond : Value X) : Value X :=
  Id.run (rewriteCondition (m := Id) h.reverseValue cond)

def resolveCondition (cond : Value X) : Option (Value X) := rewriteCondition h.resolveValue cond

/-! ## Actions -/

/-- `str(value)` of a text or of null. -/
def optionalText : Value X → String
  | .str s => s
  | _ => "None"

def configuration (action : Document X) : Document X :=
  ((Value.get action "actionConfiguration").dict?).getD []

/-- The tenant id goes when it is the configured one. -/
def dropTenant (cfg : Document X) : Document X :=
  match h.tenantId.filter (· ≠ "") with
  | none => cfg
  | some tenant =>
    if h.lower (optionalText ((Dict.get? cfg "tenantId").getD (.str ""))) = h.lower tenant then
      Dict.erase cfg "tenantId"
    else cfg

def addTenant (tenantId : Option String) (cfg : Document X) : Document X :=
  match tenantId.filter (· ≠ "") with
  | none => cfg
  | some tenant =>
    if Value.textAt cfg "tenantId" = "" then cfg.set "tenantId" (.str tenant) else cfg

/-- The configuration of a `RunPlaybook` action in `_reverse_action`. -/
def reverseTarget (cfg : Document X) : Document X :=
  let rid := Value.textAt cfg "logicAppResourceId"
  if rid = "" then cfg
  else
    match playbookIdFromResourceId h.lower rid h.subscriptionId h.playbooksResourceGroup with
    | none => cfg
    | some pid => h.dropTenant ((Dict.erase cfg "logicAppResourceId").set "playbook" (.str pid))

/-- `_reverse_action`. -/
def reverseAction (action : Document X) : Document X :=
  if Value.textAt action "actionType" ≠ "RunPlaybook" then action
  else action.set "actionConfiguration" (.dict (h.reverseTarget (configuration action)))

/-- The configuration of a `RunPlaybook` action in `to_automation_rule_arm_body`. -/
def resolveTarget (cfg : Document X) : Document X :=
  let playbook := Value.textAt cfg "playbook"
  if playbook = "" then cfg
  else
    let (resourceId, tenantId) := h.resolvePlaybook playbook
    addTenant tenantId ((Dict.erase cfg "playbook").set "logicAppResourceId" (.str resourceId))

/-- An action in `to_automation_rule_arm_body`. -/
def resolveAction (action : Document X) : Document X :=
  let cfg := configuration action
  action.set "actionConfiguration"
    (.dict (if Value.textAt action "actionType" = "RunPlaybook" then h.resolveTarget cfg else cfg))

/-! ## The whole rule -/

def normalizedLogic (logic : Document X) : Document X :=
  match Value.get logic "expirationTimeUtc" with
  | .str s => if s = "" then logic else logic.set "expirationTimeUtc" (.str (h.times.normalize s))
  | _ => logic

def items : Value X → List (Value X)
  | .list vs => vs
  | _ => []

def triggeringLogic (properties : Document X) : Document X :=
  ((Value.get properties "triggeringLogic").dict?).getD []

def serverPropertyFields : List String :=
  ["createdBy", "createdTimeUtc", "lastModifiedBy", "lastModifiedTimeUtc"]

/-- The properties in `_strip_server_fields`. -/
def stripServerFields (properties : Document X) : Document X :=
  properties.filter fun p => p.1 ∉ serverPropertyFields

def remoteProperties (remote : Document X) : Document X :=
  stripServerFields (((Value.get remote "properties").dict?).getD [])

/-- The payload that `to_envelope` makes of the properties of a rule. -/
def envelopePayload (properties : Document X) : Document X :=
  let logic := h.normalizedLogic (triggeringLogic properties)
  let logic := logic.set "conditions"
    (.list ((items (Value.get logic "conditions")).map h.reverseCondition))
  [("displayName", .str (Value.textAt properties "displayName")),
    ("order", (Dict.get? properties "order").getD (.int 1)),
    ("triggeringLogic", .dict logic),
    ("actions", .list ((items (Value.get properties "actions")).map fun a =>
      .dict (h.reverseAction ((a.dict?).getD []))))]

/-- `to_envelope`. -/
def toEnvelope (remote : Document X) : Option (Document X) :=
  let name := Value.textAt remote "name"
  if name = "" then none
  else
    let properties := remoteProperties remote
    let envId := Slug.displaynameSlug (Value.textAt properties "displayName") (some name)
    if envId = "" then none
    else
      let payload := h.envelopePayload properties
      let expiration := Value.textAt (triggeringLogic payload) "expirationTimeUtc"
      let status := if h.times.isExpired expiration then "deprecated" else "production"
      some [("id", .str envId), ("version", .str SentinelAnalytic.collectBaselineVersion),
        ("asset", .str Asset.sentinelAutomationRule.value), ("status", .str status),
        ("metadata", .dict [("arm_name", .str name)]), ("payload", .dict payload)]

/-- The properties in `to_automation_rule_arm_body`; `none` is an exception. -/
def armProperties (payload : Document X) : Option (Document X) := do
  let displayName ← Dict.get? payload "displayName"
  let order ← Dict.get? payload "order"
  let logic := h.normalizedLogic (triggeringLogic payload)
  let conditions ← (items (Value.get logic "conditions")).mapM h.resolveCondition
  some [("displayName", displayName), ("order", order),
    ("triggeringLogic", .dict (logic.set "conditions" (.list conditions))),
    ("actions", .list ((items (Value.get payload "actions")).map fun a =>
      .dict (h.resolveAction ((a.dict?).getD []))))]

end Handler
end ContentOps.AutomationRule
