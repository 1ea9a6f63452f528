import ContentOps.Handlers.SentinelPlaybook
import ContentOps.Handlers.SentinelAnalytic
import ContentOps.Core.Slug

/-! What the playbook handler asks of ARM: `apply`, `delete`, and the way back, `to_envelope`. -/

namespace ContentOps.Playbook
open PyData

/-- A resource of the playbook resource group. -/
inductive ArmResource where
  | workflow (name : String)
  | connection (name : String)
deriving DecidableEq

structure ArmResponse (X : Type) where
  statusCode : Nat
  text : String
  json : Document X

/-- `SentinelArmProvider` over the state `S` of the subscription. -/
structure Provider (X S : Type) where
  subscriptionId : String
  location : String
  resourceId : ArmResource → String
  get : S → ArmResource → ArmResponse X × S
  put : S → ArmResource → Document X → Option String → ArmResponse X × S
  delete : S → ArmResource → ArmResponse X × S
  listTagged : S → String → List (Document X) × S

section
variable {X : Type} [Value.ScalarEq X]

/-- `extract_etag`; `none` also for an empty one. -/
def extractEtag (remote : Document X) : Option String :=
  let top := Value.textAt remote "etag"
  let nested := Value.textAt (dictAt remote "properties") "etag"
  if top ≠ "" then some top else if nested ≠ "" then some nested else none

def lastSegment (s : String) : String := String.ofList ((s.toList.splitOn '/').getLast?.getD [])

variable (lower : String → String)

/-- `_playbook_projection`. -/
def playbookProjection (body : Document X) : Document X :=
  let props := dictAt body "properties"
  let definition := dictAt props "definition"
  let actions := dictAt definition "actions"
  let sorted (ss : List String) : Value X :=
    .list ((ss.insertionSort (· ≤ ·)).map .str)
  let location := lower (Value.textAt body "location")
  [("location", if location = "" then .null else .str location),
    ("state", Value.get props "state"),
    ("identityType", Value.get (dictAt body "identity") "type"),
    ("triggerNames", sorted (Dict.keys (dictAt definition "triggers"))),
    ("actionNames", sorted (Dict.keys actions)),
    ("actionTypes", sorted (actions.filterMap fun p => p.2.dict?.map (Value.textAt · "type"))),
    ("connectionApis", sorted ((connectionRefs body).filterMap fun p =>
      (p.2.dict?.map (Value.textAt · "id")).filter (· ≠ "") |>.map (lower ∘ lastSegment)))]

variable [Json.FloatText X] {H : Type} [DecidableEq H] (sha : Text → H) (hexdigest : H → String)
  {S : Type} (provider : Provider X S)

/-- `compute_projection_hash` of the projection. -/
def projectionHash (body : Document X) : H :=
  sha (Json.dumps Json.compact (Value.dict (playbookProjection lower body)).sortKeys)

def etagConflictMessage : String :=
  "Remote etag changed since plan; rerun contentops plan and resolve drift"

def resultOf (id : String) (action : PlanAction) (status detail : String)
    (verified : Option Bool) (error : Option String) : ActionResult where
  assetId := id
  assetKind := Asset.sentinelPlaybook.value
  action := action
  status := status
  detail := detail
  verified := verified
  error := error

def clipText (n : Nat) (s : String) : String := String.ofList (s.toList.take n)

/-- `_fail` of `_apply_connection`. -/
def connectionFailure (envelopeId : String) (conn : PlaybookConnection) (status message : String) :
    ActionResult :=
  let msg := clipText 200 ("connection '" ++ conn.name ++ "': " ++ message)
  resultOf envelopeId .update status msg (some false) (some msg)

omit [Json.FloatText X] in
/-- What is wrong with a connection that was read back. -/
def connectionProblem (conn : PlaybookConnection) (verify : ArmResponse X) : Option String :=
  let props := dictAt verify.json "properties"
  let apiId := Value.textAt (dictAt props "api") "id"
  let authOk := if conn.effectiveAuthMode lower = some "alternative" then
      Value.textAt props "parameterValueType" = "Alternative"
    else Value.textAt (dictAt props "parameterValueSet") "name" = "managedIdentityAuth"
  if verify.statusCode ≠ 200 then
    some ("post-apply GET returned " ++ toString verify.statusCode)
  else if !hasSuffix ("/managedapis/" ++ conn.effectiveApiName lower) (lower apiId) then
    some ("api id mismatch: '" ++ apiId ++ "'")
  else if authOk then none else some "connection is not managed-identity authenticated"

/-- `_apply_connection`: the reference for the workflow, or the failure. -/
def applyConnection (conn : PlaybookConnection) (envelopeId location : String) (s : S) :
    Except ActionResult (Document X) × S :=
  let resource := ArmResource.connection (connectionArmName envelopeId conn)
  let body := toConnectionArmBody lower conn envelopeId location provider.subscriptionId
  let fail := connectionFailure envelopeId conn
  let (existing, s) := provider.get s resource
  let etag := if existing.statusCode = 200 then extractEtag existing.json else none
  let (response, s) := provider.put s resource body etag
  if response.statusCode = 412 then (.error (fail "error-412" etagConflictMessage), s)
  else if response.statusCode ∉ [200, 201] then
    (.error (fail ("error-" ++ toString response.statusCode) (clipText 150 response.text)), s)
  else
    let (verify, s) := provider.get s resource
    match connectionProblem lower conn verify with
    | some message => (.error (fail "error-verify" message), s)
    | none =>
      (.ok [("connectionId", .str (orText (Value.textAt verify.json "id") (provider.resourceId resource))),
        ("connectionName", .str (connectionArmName envelopeId conn)),
        ("id", .str (Value.textAt (dictAt (dictAt verify.json "properties") "api") "id"))], s)

/-- The loop over the declared connections. -/
def applyConnections (envelopeId location : String) : List PlaybookConnection →
    Dict String (Document X) → S → Except ActionResult (Dict String (Document X)) × S
  | [], refs, s => (.ok refs, s)
  | conn :: conns, refs, s =>
    match applyConnection lower provider conn envelopeId location s with
    | (.error failure, s) => (.error failure, s)
    | (.ok ref, s) => applyConnections envelopeId location conns (refs.set conn.name ref) s

def workflowName (la : LoadedAsset X) : String :=
  orText (la.envelope.armName.getD "") la.envelope.id

/-- The PUT of the workflow and its verification. -/
def applyWorkflow (la : LoadedAsset X) (body : Document X) (s : S) : ActionResult × S :=
  let id := la.envelope.id
  let resource := ArmResource.workflow (workflowName la)
  let (existing, s) := provider.get s resource
  let etag := if existing.statusCode = 200 then extractEtag existing.json else none
  let (response, s) := provider.put s resource body etag
  if response.statusCode = 412 then
    (resultOf id .update "error-412" etagConflictMessage (some false) (some etagConflictMessage), s)
  else if response.statusCode ∉ [200, 201] then
    let text := clipText 200 response.text
    (resultOf id .update ("error-" ++ toString response.statusCode) text (some false) (some text), s)
  else
    let action := if existing.statusCode = 200 then PlanAction.update else PlanAction.create
    let (verify, s) := provider.get s resource
    if verify.statusCode ≠ 200 then
      let err := "post-apply GET returned " ++ toString verify.statusCode
      (resultOf id action "success" err (some false) (some err), s)
    else if projectionHash lower sha verify.json ≠ projectionHash lower sha body then
      let err := "post-apply hash mismatch: sent=" ++
        clipText 8 (hexdigest (projectionHash lower sha body)) ++ "... got=" ++
        clipText 8 (hexdigest (projectionHash lower sha verify.json)) ++ "..."
      (resultOf id action "success" err (some false) (some err), s)
    else (resultOf id action "success" "" (some true) none, s)

/-- `apply` with `dry_run=False`; `none` is the exception for a payload that does not validate. -/
def apply (parse : Value X → Option (SentinelPlaybookPayload X)) (la : LoadedAsset X) (s : S) :
    Option (ActionResult × S) :=
  if la.envelope.status ∈ ["experimental", "deprecated"] then
    some (resultOf la.envelope.id .skip "skipped"
      (if la.envelope.status = "experimental" then "experimental status — skipped"
        else "deprecated playbooks are not deleted by deploy; use `prune`") none none, s)
  else
    (parse la.payload).map fun payload =>
      let location := orText (payload.location.getD "") provider.location
      match applyConnections lower provider la.envelope.id location payload.connections [] s with
      | (.error failure, s) => (failure, s)
      | (.ok refs, s) =>
        applyWorkflow lower sha hexdigest provider la (toWorkflowArmBody payload location refs) s

/-- The deletions of the connections a listing names. -/
def deleteConnections : List (Document X) → S → S
  | [], s => s
  | item :: items, s =>
    let name := Value.textAt item "name"
    deleteConnections items
      (if name = "" then s else (provider.delete s (.connection name)).2)

/-- `delete`, up to the text of its result; `false` is a workflow that ARM did not delete. -/
def delete (remoteId : String) (s : S) : Bool × S :=
  let (response, s) := provider.delete s (.workflow remoteId)
  if response.statusCode ∉ [200, 204, 404] then (false, s)
  else
    let (tagged, s) := provider.listTagged s remoteId
    (true, deleteConnections provider tagged s)

end
/-! ## The way back -/

section
variable {X : Type} [Value.ScalarEq X]

def serverFields : List String := ["id", "type", "etag", "systemData"]

def serverPropertyFields : List String :=
  ["provisioningState", "createdTime", "changedTime", "version", "accessEndpoint",
    "endpointsConfiguration", "sku", "integrationServiceEnvironment", "integrationAccount"]

/-- The entry of `connections_from_remote` for one key of `$connections`. -/
def connectionEntry (lower : String → String) (remoteName key : String) (ref : Document X) :
    Document X :=
  let apiId := Value.textAt ref "id"
  let apiName := if apiId = "" then lower key else lower (lastSegment apiId)
  let connName := Value.textAt ref "connectionName"
  [("name", .str key)] ++ (if apiName ≠ lower key then [("apiName", .str apiName)] else []) ++
    if connName ≠ "" ∧ connName ≠ remoteName ++ "-" ++ key then
      [("connectionName", .str connName)] else []

/-- `none` when the value of a key is no mapping. -/
def connectionsFromRemote (lower : String → String) (remote : Document X) : Option (List (Value X)) :=
  (connectionRefs remote).mapM fun p =>
    p.2.dict?.map fun ref => .dict (connectionEntry lower (Value.textAt remote "name") p.1 ref)

/-- The definition without the declaration that `apply` puts in. -/
def withoutConnectionsParam (definition : Document X) : Document X :=
  let declared := dictAt definition "parameters"
  let declared := if Value.pyEq (Value.get declared "$connections") canonicalConnectionsParam then
    Dict.erase declared "$connections" else declared
  if declared = [] then Dict.erase definition "parameters"
  else Dict.set definition "parameters" (.dict declared)

/-- The payload of a collected workflow. -/
def collectedPayload (remote properties definition : Document X) (connections : List (Value X)) :
    Document X :=
  let parameters := Dict.erase (dictAt properties "parameters") "$connections"
  let tags := Dict.erase (dictAt remote "tags") managedTag
  let location := Value.get remote "location"
  let identity := Value.get (dictAt remote "identity") "type"
  [("state", (Dict.get? properties "state").getD (.str "Enabled"))] ++
    (if location.truthy then [("location", location)] else []) ++
    (if identity.truthy then [("identity", identity)] else []) ++
    (if tags ≠ [] then [("tags", .dict tags)] else []) ++
    (if connections ≠ [] then [("connections", .list connections)] else []) ++
    [("definition", .dict (withoutConnectionsParam definition))] ++
    if parameters ≠ [] then [("parameters", .dict parameters)] else []

/-- `SentinelPlaybookHandler.to_envelope`. -/
def toEnvelope (lower : String → String) (remote : Document X) : Option (Document X) :=
  let name := Value.textAt remote "name"
  let properties := (dictAt remote "properties").filter fun p => p.1 ∉ serverPropertyFields
  match Value.get properties "definition" with
  | .dict definition =>
    if name = "" then none
    else do
      let connections ← connectionsFromRemote lower remote
      let envelopeId := Slug.displaynameSlug name (some name)
      if envelopeId = "" then none
      else
        some [("id", .str envelopeId), ("version", .str SentinelAnalytic.collectBaselineVersion),
          ("asset", .str Asset.sentinelPlaybook.value), ("status", .str "production"),
          ("metadata", .dict [("arm_name", .str name)]),
          ("payload", .dict (collectedPayload remote properties definition connections))]
  | _ => none

end
end ContentOps.Playbook
