import ContentOps.AutomationRule.Conditions
import ContentOps.AutomationRule.Unchanged
import ContentOps.Core.Dependencies
import ContentOps.Library.Asking

/-! What the resolvers are asked for while the body of an automation rule is built,
`to_automation_rule_arm_body` of `handlers/sentinel_automation_rule_models.py`. -/

namespace ContentOps.AutomationRule
open PyData Asking

variable {X : Type}

/-! ## The conditions of a payload -/

mutual

/-- The `conditionProperties` that are come by in a condition, at any depth. -/
def visited : Value X → List (Document X)
  | .dict cond => visitedAt cond
  | _ => []

def visitedAt : List (String × Value X) → List (Document X)
  | [] => []
  | (k, v) :: rest => if k = "conditionProperties" then visitedProperties v else visitedAt rest

def visitedProperties : Value X → List (Document X)
  | .dict props =>
    props :: (visitedNestedAt "innerConditions" props ++ visitedNestedAt "itemConditions" props)
  | _ => []

def visitedNestedAt (key : String) : List (String × Value X) → List (Document X)
  | [] => []
  | (k, v) :: rest => if k = key then visitedNested v else visitedNestedAt key rest

def visitedNested : Value X → List (Document X)
  | .list vs => visitedConditions vs
  | _ => []

def visitedConditions : List (Value X) → List (Document X)
  | [] => []
  | v :: vs => visited v ++ visitedConditions vs

end

/-- `props.get("propertyName")` can be looked up in a set. -/
def hashableName (props : Document X) : Bool :=
  match Value.get props "propertyName" with
  | .list _ | .dict _ => false
  | _ => true

/-! ## The body -/

/-- What a resolver is asked for. -/
inductive Reference where
  | playbook (id : String)
  | analytic (id : String)
deriving DecidableEq, Repr

/-- The two resolvers; `none` is `ValueError`. -/
structure Resolvers where
  playbook : String → Option (String × Option String)
  analytic : String → Option String

namespace Resolvers
variable (r : Resolvers)

/-- Both know every id. -/
def Total : Prop := (∀ id, (r.playbook id).isSome) ∧ ∀ id, (r.analytic id).isSome

/-- A value in `_resolve_condition`. -/
def resolveValue : Value X → Asking Reference (Value X)
  | .str v =>
    if analyticRefPrefix <+: v.toList then do
      let id := String.ofList (v.toList.drop analyticRefPrefix.length)
      return .str (← ask (.analytic id) (r.analytic id))
    else pure (.str v)
  | v => pure v

/-- `_resolve_condition`; it fails with `TypeError` on a name that cannot be hashed. -/
def resolveCondition (cond : Value X) : Asking Reference (Value X) :=
  if (visited cond).all hashableName then rewriteCondition r.resolveValue cond else failure

/-- `str(value)`, where `str` is of what is no text. -/
def textOf (str : Value X → String) : Value X → String
  | .str s => s
  | v => str v

/-- An action in `to_automation_rule_arm_body`. -/
def resolveAction [Value.ScalarEq X] (str : Value X → String) (action : Document X) :
    Asking Reference (Value X) := do
  let cfg := Handler.configuration action
  let playbook := Value.get cfg "playbook"
  if Value.textAt action "actionType" = "RunPlaybook" ∧ playbook.truthy then
    let id := textOf str playbook
    let (resourceId, tenantId) ← ask (.playbook id) (r.playbook id)
    let cfg := (Dict.erase cfg "playbook").set "logicAppResourceId" (.str resourceId)
    return .dict (action.set "actionConfiguration" (.dict (Handler.addTenant tenantId cfg)))
  else return .dict (action.set "actionConfiguration" (.dict cfg))

/-- The properties in `to_automation_rule_arm_body`. -/
def toArmBody [Value.ScalarEq X] (h : Handler) (str : Value X → String) (payload : Document X) :
    Asking Reference (Document X) := do
  let displayName ← StateT.lift (Dict.get? payload "displayName")
  let order ← StateT.lift (Dict.get? payload "order")
  let logic := h.normalizedLogic (Handler.triggeringLogic payload)
  let conditions ← (Handler.items (Value.get logic "conditions")).mapM r.resolveCondition
  let actions ← (Handler.items (Value.get payload "actions")).mapM fun a =>
    r.resolveAction str ((a.dict?).getD [])
  return [("displayName", displayName), ("order", order),
    ("triggeringLogic", .dict (logic.set "conditions" (.list conditions))),
    ("actions", .list actions)]

end Resolvers
end ContentOps.AutomationRule
