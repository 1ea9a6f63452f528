import ContentOps.Cli.TenantWrites
import ContentOps.Handlers.HashedFields
import ContentOps.Handlers.PlaybookApply
import ContentOps.Library.Interleaving
import ContentOps.Library.Register
import ContentOps.Utils.RequestRetry

/-! What `apply` of the handlers of ARM resources asks of the server: it reads the resource, writes
it under the etag that it read, and reads it back. Many of them run at once, beside whoever else
edits the workspace. -/

namespace ContentOps.ArmUpsert
open PyData HttpRetry

section
variable {X : Type} [Value.ScalarEq X]

/-- A version of a resource under its etag. -/
abbrev Version (X : Type) := String × Document X

/-- What ARM does with a resource: the etags it gives, what a GET shows of a version, and what a PUT
leaves of the version there is. An etag that is shown is the one of the version. -/
structure Arm (X : Type) [Value.ScalarEq X] where
  tags : Tagging String
  shown : Version X → Document X
  stored : Option (Document X) → Document X → Document X
  shown_etag : ∀ v e, Playbook.extractEtag (shown v) = some e → e = v.1

/-- A request that fails: with a status that is no answer about the resource, or before one. -/
inductive Failure where
  | status (code : Int) (text : String) (other : code ∉ [200, 201, 404, 412])
  | fault (f : Fault)

def Failure.outcome : Failure → Outcome
  | status code _ _ => .response { statusCode := code }
  | fault f => .fault f

/-- How one request goes: the answer arrives, the server acts on it and the answer is lost, or it
never gets there. -/
inductive Exchange where
  | answered
  | cutOff (failure : Failure)
  | refused (failure : Failure)

/-- One resource as its handler writes it. A lenient handler reads with `request("GET", ..)` and
takes any status but 200 for a resource without an etag; the others read with `get_resource`. -/
structure Upsert (X : Type) where
  assetId : String
  assetKind : String
  resource : String
  lenient : Bool
  body : Document X
  hashedFields : List (List String)
  disables : Bool
  /-- How many items the resource is to have, where that is checked. -/
  expectedItems : Option Nat

namespace Upsert

def result (u : Upsert X) (action : PlanAction) (status : String) (verified : Option Bool)
    (detail : String) : ActionResult where
  assetId := u.assetId
  assetKind := u.assetKind
  action := action
  status := status
  detail := detail
  verified := verified
  error := if verified = some true then none else some detail

def etagConflictMessage : String :=
  "Remote etag changed since plan; rerun contentops plan and resolve drift"

def conflict (u : Upsert X) : ActionResult :=
  u.result .update "error-412" (some false) etagConflictMessage

def failed (u : Upsert X) (code : Int) (text : String) : ActionResult :=
  u.result .update ("error-" ++ toString code) (some false) (String.ofList (text.toList.take 200))

/-- The action of an accepted write. -/
def action (u : Upsert X) (existed : Bool) : PlanAction :=
  if u.disables then .disable else if existed then .update else .create

end Upsert

/-- What an `apply` comes to before its first request: a result, an exception, or a write. -/
inductive Prepared (X : Type) where
  | finished (r : ActionResult)
  | raised
  | ready (u : Upsert X)

/-- The result of an `apply` that asks nothing of the server. -/
def unsent (envelope : EnvelopeV2) (action : PlanAction) (status detail : String) : ActionResult where
  assetId := envelope.id
  assetKind := envelope.asset.value
  action := action
  status := status
  detail := detail

/-- What the first read says of the resource. -/
inductive Reading (X : Type) where
  | unknown
  | absent
  | found (v : Version X)

def Reading.etag (arm : Arm X) : Reading X → Option String
  | .found v => Playbook.extractEtag (arm.shown v)
  | .unknown | .absent => none

/-- How far an `apply` is: before its first GET, its PUT, its second GET, the GET of the items. The
numbers count the attempts that a request took. -/
inductive Phase (X : Type) where
  | read (attempts : Nat)
  | write (seen : Reading X) (attempts : Nat)
  | verify (action : PlanAction) (attempts : Nat)
  | count (action : PlanAction) (attempts : Nat)
  | done (r : ActionResult)
  | raised (f : Fault)

/-- A write that the server accepted: what had been read, and what it replaced. -/
structure Write (ι X : Type) where
  agent : ι
  seen : Reading X
  replaced : Option (Version X)

variable {ι : Type}

/-- The resources, the `apply` of every agent and the writes so far, the latest first. -/
structure World (ι X : Type) where
  registers : String → Register String (Document X)
  phase : ι → Phase X
  writes : List (Write ι X)

def World.start (registers : String → Register String (Document X)) : World ι X where
  registers := registers
  phase _ := .read 0
  writes := []

/-- What can happen next: a request of an agent, with the number of items it would be told of, and
an edit or a removal by someone else. -/
inductive Move (ι X : Type) where
  | turn (agent : ι) (exchange : Exchange) (items : Nat)
  | edit (resource : String) (content : Document X)
  | remove (resource : String)

/-- A failed request is tried again, three times at most. -/
def again (failure : Failure) (attempts : Nat) : Bool :=
  retryable.again failure.outcome && attempts < 3

section
variable [Json.FloatText X] {H : Type} [DecidableEq H] (sha : Text → H) (hexdigest : H → String)
  (arm : Arm X)

def readFailed (u : Upsert X) : Failure → Phase X
  | .fault f => .raised f
  | .status _ _ _ => if u.lenient then .write .unknown 0 else .raised .other

/-- The first GET. -/
def readPhase (u : Upsert X) (current : Option (Version X)) (attempts : Nat) : Exchange → Phase X
  | .answered => .write (match current with | some v => .found v | none => .absent) 0
  | .cutOff failure | .refused failure =>
    if again failure attempts then .read (attempts + 1) else readFailed u failure

/-- The PUT failed. -/
def writeFailed (u : Upsert X) (seen : Reading X) (attempts : Nat) (failure : Failure) : Phase X :=
  if again failure attempts then .write seen (attempts + 1)
  else
    match failure with
    | .fault f => .raised f
    | .status code text _ => .done (u.failed code text)

def hashMismatchError (sent got : H) : String :=
  "post-apply hash mismatch: sent=" ++ String.ofList ((hexdigest sent).toList.take 8) ++
    "... got=" ++ String.ofList ((hexdigest got).toList.take 8) ++ "..."

def verifyFailed (u : Upsert X) (action : PlanAction) : Failure → Phase X
  | .fault f => .raised f
  | .status code _ _ =>
    if u.lenient then
      .done (u.result action "success" (some false) ("post-apply GET returned " ++ toString code))
    else .raised .other

/-- The second GET. -/
def verifyPhase (u : Upsert X) (current : Option (Version X)) (action : PlanAction)
    (attempts : Nat) : Exchange → Phase X
  | .answered =>
    match current with
    | none => .done (u.result action "success" (some false) "post-apply GET returned 404")
    | some v =>
      let sent := computeContentHash sha u.body u.hashedFields
      let got := computeContentHash sha (arm.shown v) u.hashedFields
      if got ≠ sent then
        .done (u.result action "success" (some false) (hashMismatchError hexdigest sent got))
      else if u.expectedItems.isSome then .count action 0
      else .done (u.result action "success" (some true) "")
  | .cutOff failure | .refused failure =>
    if again failure attempts then .verify action (attempts + 1) else verifyFailed u action failure

def itemFetchError (detail : String) : String := "post-apply watchlistItems GET failed: " ++ detail

def itemCountMismatchError (expected actual : Nat) : String :=
  "post-apply item-count mismatch: expected=" ++ toString expected ++ " actual=" ++
    toString actual ++ " (rawContent rows vs. remote watchlistItems)"

/-- Any exception of the GET of the items is a result of its own. -/
def countFailed (faultText : Fault → String) (u : Upsert X) (action : PlanAction) :
    Failure → Phase X
  | .fault f => .done (u.result action "success" (some false) (itemFetchError (faultText f)))
  | .status code text _ => .done (u.result action "success" (some false)
      (itemFetchError (toString code ++ " " ++ String.ofList (text.toList.take 160))))

/-- The GET of the items. -/
def countPhase (faultText : Fault → String) (u : Upsert X) (action : PlanAction)
    (attempts items : Nat) : Exchange → Phase X
  | .answered =>
    let expected := u.expectedItems.getD 0
    if items ≠ expected then
      .done (u.result action "success" (some false) (itemCountMismatchError expected items))
    else .done (u.result action "success" (some true) "")
  | .cutOff failure | .refused failure =>
    if again failure attempts then .count action (attempts + 1)
    else countFailed faultText u action failure

variable [DecidableEq ι] (faultText : Fault → String) (ups : ι → Upsert X)

def World.setPhase (w : World ι X) (i : ι) (p : Phase X) : World ι X :=
  { w with phase := Function.update w.phase i p }

def World.setRegister (w : World ι X) (resource : String) (r : Register String (Document X)) :
    World ι X :=
  { w with registers := Function.update w.registers resource r }

/-- The server acts on the PUT of an agent; `none` is a 412. -/
def World.put (w : World ι X) (i : ι) (seen : Reading X) : Option (World ι X) :=
  let r := w.registers (ups i).resource
  (r.replaceIf arm.tags (seen.etag arm)
      (arm.stored (r.current.map Prod.snd) (ups i).body)).map fun r' =>
    { w.setRegister (ups i).resource r' with
      writes := { agent := i, seen := seen, replaced := r.current } :: w.writes }

def World.writeTurn (w : World ι X) (i : ι) (seen : Reading X) (attempts : Nat) :
    Exchange → World ι X
  | .answered =>
    match w.put arm ups i seen with
    | none => w.setPhase i (.done (ups i).conflict)
    | some w' =>
      let existed := (w.registers (ups i).resource).current.isSome
      w'.setPhase i (.verify ((ups i).action existed) 0)
  | .cutOff failure =>
    ((w.put arm ups i seen).getD w).setPhase i (writeFailed (ups i) seen attempts failure)
  | .refused failure => w.setPhase i (writeFailed (ups i) seen attempts failure)

def World.step : Move ι X → World ι X → World ι X
  | .turn i exchange items, w =>
    let current := (w.registers (ups i).resource).current
    match w.phase i with
    | .read attempts => w.setPhase i (readPhase (ups i) current attempts exchange)
    | .write seen attempts => w.writeTurn arm ups i seen attempts exchange
    | .verify action attempts =>
      w.setPhase i (verifyPhase sha hexdigest arm (ups i) current action attempts exchange)
    | .count action attempts =>
      w.setPhase i (countPhase faultText (ups i) action attempts items exchange)
    | .done _ | .raised _ => w
  | .edit resource content, w =>
    w.setRegister resource ((w.registers resource).write arm.tags content)
  | .remove resource, w => w.setRegister resource (w.registers resource).remove

end
end
end ContentOps.ArmUpsert
