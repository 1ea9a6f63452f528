import ContentOps.Cli.TenantWrites
import ContentOps.Core.WriteDrift
import ContentOps.Handlers.Verify

/-! The playbook handler, `handlers/sentinel_playbook.py` and its models: a Logic App workflow and
the API connections it uses. -/

namespace ContentOps.Playbook
open PyData

def managedTag : String := "contentops-managed"

def managedTagValue : String := "true"

def playbookTag : String := "contentops-playbook"

def maxEnvelopeIdLen : Nat := 64

def oauthOnlyApis : List String :=
  ["office365", "office365users", "outlook", "teams", "sharepointonline", "onedriveforbusiness",
    "excelonlinebusiness", "planner", "todo", "office365groups", "onedrive", "dynamicscrmonline"]

def managedIdentityApis : Dict String String :=
  [("azuresentinel", "alternative"), ("azuremonitorlogs", "parameterValueSet"),
    ("keyvault", "parameterValueSet"), ("azureblob", "parameterValueSet"),
    ("azurequeues", "parameterValueSet"), ("azuretables", "parameterValueSet"),
    ("servicebus", "parameterValueSet"), ("azureeventgridpublish", "parameterValueSet"),
    ("azureloganalyticsdatacollector", "parameterValueSet")]

/-! ## The payload -/

structure PlaybookConnection where
  name : String
  apiName : Option String
  authMode : Option String
  displayName : Option String
  connectionName : Option String
deriving DecidableEq

structure SentinelPlaybookPayload (X : Type) where
  location : Option String
  state : String
  tags : Dict String String
  connections : List PlaybookConnection
  definition : Document X
  parameters : Document X

section
variable (lower : String → String)

def PlaybookConnection.effectiveApiName (c : PlaybookConnection) : String :=
  lower (orText (c.apiName.getD "") c.name)

def PlaybookConnection.effectiveAuthMode (c : PlaybookConnection) : Option String :=
  c.authMode.or (managedIdentityApis.get? (c.effectiveApiName lower))

/-- `_deployable_from_ci`. -/
def PlaybookConnection.deployable (c : PlaybookConnection) : Bool :=
  c.effectiveApiName lower ∉ oauthOnlyApis && (c.effectiveAuthMode lower).isSome

def isConnectionNameChar (c : Char) : Bool := c.isAlphanum || c = '_' || c = '-'

variable {X : Type}

def connectionFields : List String :=
  ["name", "apiName", "auth", "authMode", "displayName", "connectionName"]

/-- `PlaybookConnection(**value)`; `none` is `ValidationError`. -/
def parseConnection (v : Value X) : Option PlaybookConnection := do
  let d ← v.dict?
  let name ← requiredText d "name"
  let apiName ← optionalText? (Value.get d "apiName")
  let authMode ← optionalText? (Value.get d "authMode")
  let displayName ← optionalText? (Value.get d "displayName")
  let connectionName ← optionalText? (Value.get d "connectionName")
  let c : PlaybookConnection := { name, apiName, authMode, displayName, connectionName }
  if (Dict.keys d).all (· ∈ connectionFields) ∧ name ≠ "" ∧ name.toList.all isConnectionNameChar ∧
      (Dict.contains d "auth" → requiredText d "auth" = some "managedIdentity") ∧
      authMode.all (· ∈ ["alternative", "parameterValueSet"]) ∧ c.deployable lower then some c
  else none

def payloadFields : List String :=
  ["location", "state", "identity", "tags", "connections", "roleAssignments", "definitionFile",
    "definition", "parameters"]

/-- A field with a default. -/
def withDefault (d : Document X) (key : String) (default : Value X) : Value X :=
  (Dict.get? d key).getD default

def items? : Value X → Option (List (Value X))
  | .list vs => some vs
  | _ => none

theorem items?_eq_some {v : Value X} {vs : List (Value X)} (h : items? v = some vs) :
    v = .list vs := by
  cases v <;> simp_all [items?]

/-- `SentinelPlaybookPayload(**payload)`; `none` is `ValidationError`. `references` are the
connections a definition reads, `validRole` accepts a role assignment. -/
def parsePayload (references : Document X → List String) (validRole : Value X → Bool)
    (v : Value X) : Option (SentinelPlaybookPayload X) := do
  let d ← v.dict?
  let location ← optionalText? (Value.get d "location")
  let state ← (withDefault d "state" (.str "Enabled")).text?
  let identity ← (withDefault d "identity" (.str "SystemAssigned")).text?
  let tags ← (← (withDefault d "tags" (.dict [])).dict?).mapM fun p => p.2.text?.map (p.1, ·)
  let entries ← items? (withDefault d "connections" (.list []))
  let connections ← entries.mapM (parseConnection lower)
  let roles ← items? (withDefault d "roleAssignments" (.list []))
  let definitionFile ← optionalText? (Value.get d "definitionFile")
  let definition ← (Value.get d "definition").dict?
  let parameters ← (withDefault d "parameters" (.dict [])).dict?
  if (Dict.keys d).all (· ∈ payloadFields) ∧ state ∈ ["Enabled", "Disabled"] ∧
      identity = "SystemAssigned" ∧ roles.all validRole ∧ definitionFile.all isSidecarName ∧
      ["triggers", "actions"].all (fun key => (Value.get definition key).dict?.isSome) ∧
      (connections.map (·.name)).Nodup ∧ !Dict.contains parameters "$connections" ∧
      (references definition).all (· ∈ connections.map (·.name)) then
    some { location, state, tags, connections, definition, parameters }
  else none

/-! ## Request bodies -/

def connectionArmName (envelopeId : String) (conn : PlaybookConnection) : String :=
  orText (conn.connectionName.getD "") (envelopeId ++ "-" ++ conn.name)

def managedApiId (subscriptionId location apiName : String) : String :=
  "/subscriptions/" ++ subscriptionId ++ "/providers/Microsoft.Web/locations/" ++ location ++
    "/managedApis/" ++ apiName

def toConnectionArmBody (conn : PlaybookConnection) (envelopeId location subscriptionId : String) :
    Document X :=
  let api : Value X := .dict
    [("id", .str (managedApiId subscriptionId location (conn.effectiveApiName lower)))]
  let auth : String × Value X :=
    if conn.effectiveAuthMode lower = some "alternative" then
      ("parameterValueType", .str "Alternative")
    else
      ("parameterValueSet", .dict [("name", .str "managedIdentityAuth"), ("values", .dict [])])
  [("location", .str location), ("kind", .str "V1"),
    ("tags", .dict [(managedTag, .str managedTagValue), (playbookTag, .str envelopeId)]),
    ("properties", .dict
      [("displayName", .str (orText (conn.displayName.getD "") conn.name)), ("api", api), auth])]

end

section
variable {X : Type}

def canonicalConnectionsParam : Value X :=
  .dict [("defaultValue", .dict []), ("type", .str "Object")]

/-- `d.get(key) or {}`. -/
def dictAt (d : Document X) (key : String) : Document X := ((Value.get d key).dict?).getD []

def toWorkflowArmBody (payload : SentinelPlaybookPayload X) (location : String)
    (connectionRefs : Dict String (Document X)) : Document X :=
  let declared := dictAt payload.definition "parameters"
  let declared := if connectionRefs ≠ [] ∧ !Dict.contains declared "$connections" then
    Dict.set declared "$connections" canonicalConnectionsParam else declared
  let definition := if declared = [] then payload.definition
    else Dict.set payload.definition "parameters" (.dict declared)
  let parameters := if connectionRefs = [] then payload.parameters
    else Dict.set payload.parameters "$connections"
      (.dict [("value", .dict (connectionRefs.mapVals .dict))])
  let properties : Document X :=
    [("state", .str payload.state), ("definition", .dict definition)] ++
      if parameters = [] then [] else [("parameters", .dict parameters)]
  [("location", .str location), ("identity", .dict [("type", .str "SystemAssigned")]),
    ("tags", .dict (Dict.set (payload.tags.mapVals .str) managedTag (.str managedTagValue))),
    ("properties", .dict properties)]

/-- The references in a workflow's `$connections`. -/
def connectionRefs (workflow : Document X) : Document X :=
  dictAt (dictAt (dictAt (dictAt workflow "properties") "parameters") "$connections") "value"

end
end ContentOps.Playbook
