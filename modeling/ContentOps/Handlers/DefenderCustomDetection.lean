import ContentOps.Cli.TenantWrites
import ContentOps.Defender.Deploy
import ContentOps.Handlers.Verify

/-! `apply` of the Defender handler, and what its skip of an unchanged rule leaves in the tenant. -/

namespace ContentOps.Defender
open PyData

def serverFields : List String :=
  ["id", "createdDateTime", "lastModifiedDateTime", "createdBy", "lastModifiedBy",
    "lastExecutionDateTime", "detectorId", "lastRunDetails"]

def serverNestedFields : List (String × List String) :=
  [("queryCondition", ["lastModifiedDateTime"]), ("schedule", ["nextRunDateTime"])]

def baseHashedFields : List (List String) :=
  [["displayName"], ["queryCondition", "queryText"], ["schedule"], ["actions"],
    ["detectionAction", "alertTemplate", "severity"],
    ["detectionAction", "alertTemplate", "title"],
    ["detectionAction", "alertTemplate", "category"]]

def verifyAttempts : Nat := 6

section
variable {X : Type}

/-- One round of the loop over `_SERVER_NESTED_FIELDS`. -/
def stripNested (cleaned : Dict String (Value X)) (entry : String × List String) :
    Dict String (Value X) :=
  match cleaned.get? entry.1 with
  | some (.dict block) => cleaned.set entry.1 (.dict (block.filter fun p => p.1 ∉ entry.2))
  | _ => cleaned

def stripServerFields (remote : Dict String (Value X)) : Dict String (Value X) :=
  serverNestedFields.foldl stripNested (remote.filter fun p => p.1 ∉ serverFields)

/-- An answer of Graph to a write; `id` is the id in its body, empty where there is none. -/
structure Response where
  statusCode : Nat
  text : String
  id : String

/-- `DefenderClient` over the state `S` of the tenant; a request may raise. -/
structure Client (X S : Type) where
  listRules : S → Except String (List (Dict String (Value X))) × S
  getRule : S → String → Except String (Option (Dict String (Value X))) × S
  updateRule : S → String → Dict String (Value X) → Except String Response × S
  createRule : S → Dict String (Value X) → Except String Response × S

/-- The handler's indexes, once they are built, and the tenant. -/
structure Session (S : Type) where
  index : Option RuleIndex
  server : S

/-- A result, and the Graph rule it is about. -/
structure Applied where
  result : ActionResult
  graphId : Option String

variable {S H : Type} (client : Client X S)

def nameMapOrBuild (st : Session S) : Except String RuleIndex × Session S :=
  match st.index with
  | some index => (.ok index, st)
  | none =>
    match client.listRules st.server with
    | (.error e, s) => (.error e, { st with server := s })
    | (.ok rules, s) =>
      match buildRuleIndex rules with
      | none => (.error "Duplicate displayNames found in Defender API", { st with server := s })
      | some index => (.ok index, { index := some index, server := s })

variable [Value.ScalarEq X] [Json.FloatText X] [DecidableEq H] (sha : Text → H)
  (hexdigest : H → String)

/-- The body an envelope is written with. -/
def bodyOf (la : LoadedAsset X) : Dict String (Value X) :=
  toWireBody (la.payload.dict?.getD []) (la.envelope.status = "deprecated")

def fieldsOf (la : LoadedAsset X) : List (List String) := hashedFields baseHashedFields (bodyOf la)

/-- The test before a PATCH. -/
def isUnchanged (la : LoadedAsset X) (existing : Dict String (Value X)) : Bool :=
  computeContentHash sha (stripServerFields existing) (fieldsOf la) =
    computeContentHash sha (bodyOf la) (fieldsOf la) &&
  match (bodyOf la).get? "status" with
  | none => true
  | some (.str s) => ruleStatus existing = s
  | some _ => false

/-- The reads after a write: the last rule read and its hash. -/
def readBack (la : LoadedAsset X) (id : String) : Nat → Option (Dict String (Value X)) → Option H →
    S → Except String (Option (Dict String (Value X)) × Option H) × S
  | 0, remote, got, s => (.ok (remote, got), s)
  | n + 1, _, got, s =>
    match client.getRule s id with
    | (.error e, s) => (.error e, s)
    | (.ok none, s) => readBack la id n none got s
    | (.ok (some remote), s) =>
      let h := computeContentHash sha (stripServerFields remote) (fieldsOf la)
      if h = computeContentHash sha (bodyOf la) (fieldsOf la) then (.ok (some remote, some h), s)
      else readBack la id n (some remote) (some h) s

def resultOf (la : LoadedAsset X) (action : PlanAction) (status detail : String)
    (verified : Option Bool) (error : Option String) : ActionResult where
  assetId := la.envelope.id
  assetKind := Asset.defenderCustomDetection.value
  action := action
  status := status
  detail := detail
  verified := verified
  error := error

/-- The post-apply verification. -/
def verifyWrite (la : LoadedAsset X) (action : PlanAction) (id : String) (st : Session S) :
    Except String Applied × Session S :=
  let reads := if id = "" then (.ok (none, none), st.server)
    else readBack client sha la id verifyAttempts none none st.server
  let answer (r : ActionResult) : Except String Applied × Session S :=
    (.ok { result := r, graphId := if id = "" then none else some id },
      { st with server := reads.2 })
  let failed (err : String) := answer (resultOf la action "success" err (some false) (some err))
  match reads.1 with
  | .error e => failed ("post-apply GET failed: " ++ e)
  | .ok (none, _) => failed "post-apply GET returned 404"
  | .ok (some _, got) =>
    let sent := computeContentHash sha (bodyOf la) (fieldsOf la)
    if got ≠ some sent then
      failed ("post-apply hash mismatch: sent=" ++ head (some sent) ++ "... got=" ++ head got ++
        "...")
    else answer (resultOf la action "success" "" (some true) none)
where
  head (h : Option H) : String := String.ofList (((h.map hexdigest).getD "").toList.take 8)

/-- A write that Graph refused. -/
def refused (la : LoadedAsset X) (action : PlanAction) (id : Option String) (r : Response) :
    Applied where
  result :=
    let text := String.ofList (r.text.toList.take 200)
    resultOf la action ("error-" ++ toString r.statusCode) text (some false) (some text)
  graphId := id

/-- `apply` for a rule that exists: no request when it is unchanged, else a PATCH. -/
def applyUpdate (la : LoadedAsset X) (index : RuleIndex) (id : String) (st : Session S) :
    Except String Applied × Session S :=
  match client.getRule st.server id with
  | (.error e, s) => (.error e, { st with server := s })
  | (.ok existing, s) =>
    if existing.any (isUnchanged sha la) then
      (.ok { result := resultOf la .noop "success" "unchanged; update skipped" (some true) none
             graphId := some id }, { st with server := s })
    else
      match client.updateRule s id (bodyOf la) with
      | (.error e, s) => (.error e, { st with server := s })
      | (.ok r, s) =>
        if r.statusCode ≠ 200 then
          (.ok (refused la .update (some id) r), { st with server := s })
        else
          verifyWrite client sha hexdigest la
            (if la.envelope.status = "deprecated" then .disable else .update) id
            { index := some (index.record (displayName (bodyOf la)) id), server := s }

/-- `apply` for a rule that does not exist: a POST. -/
def applyCreate (la : LoadedAsset X) (index : RuleIndex) (st : Session S) :
    Except String Applied × Session S :=
  match client.createRule st.server (bodyOf la) with
  | (.error e, s) => (.error e, { st with server := s })
  | (.ok r, s) =>
    if r.statusCode ≠ 201 then (.ok (refused la .create none r), { st with server := s })
    else
      verifyWrite client sha hexdigest la .create r.id
        { index := some (if r.id = "" then index else index.record (displayName (bodyOf la)) r.id)
          server := s }

/-- `apply` with `dry_run=False`; the `Except` is an exception that leaves it. -/
def apply (la : LoadedAsset X) (st : Session S) : Except String Applied × Session S :=
  if la.envelope.status = "experimental" then
    (.ok { result := resultOf la .skip "skipped" "experimental" none none, graphId := none }, st)
  else
    match nameMapOrBuild client st with
    | (.error e, st) => (.error e, st)
    | (.ok index, st) =>
      match resolveGraphId index (displayName (bodyOf la)) la.envelope.armName with
      | some id => applyUpdate client sha hexdigest la index id st
      | none => applyCreate client sha hexdigest la index st

/-- What the verification answers: the rule it was asked about, and the action that was taken. -/
theorem verifyWrite_eq (la : LoadedAsset X) (action : PlanAction) (id : String) (st : Session S) :
    ∃ r : ActionResult, r.action = action ∧
      verifyWrite client sha hexdigest la action id st =
        (.ok { result := r, graphId := if id = "" then none else some id },
          { st with server :=
              if id = "" then st.server
              else (readBack client sha la id verifyAttempts none none st.server).2 }) := by
  unfold verifyWrite
  dsimp only
  rw [apply_ite Prod.snd]
  split
  · exact ⟨_, rfl, rfl⟩
  · exact ⟨_, rfl, rfl⟩
  · split_ifs
    all_goals exact ⟨_, rfl, rfl⟩

end
end ContentOps.Defender
