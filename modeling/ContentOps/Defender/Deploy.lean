import ContentOps.Core.Discovery

/-! `defender/rule_status.py` and `defender/deploy.py`: the body a Defender rule is written with,
and the Graph rule it is written to. -/

namespace ContentOps.Defender
open PyData

/-! ## The enabled state -/

section
variable {X : Type}

def ruleStatuses : List String := ["enabled", "disabled", "autoDisabled"]

def autoDisabled : String := "autoDisabled"

def ruleStatus (rule : Dict String (Value X)) : String :=
  match rule.get? "status" with
  | some (.str s) => if s ∈ ruleStatuses then s else legacy
  | _ => legacy
where
  legacy := if rule.get? "isEnabled" matches some (.bool false) then "disabled" else "enabled"

/-- `to_wire_body`, which `to_defender_body` returns. -/
def toWireBody (payload : Dict String (Value X)) (deprecated : Bool) : Dict String (Value X) :=
  let body := payload.erase "isEnabled"
  if deprecated then body.set "status" (.str "disabled")
  else if ruleStatus payload = autoDisabled then body.erase "status"
  else body.set "status" (.str (ruleStatus payload))

/-- `hashed_fields`, each dotted path split. -/
def hashedFields [Value.ScalarEq X] (base : List (List String)) (body : Dict String (Value X)) :
    List (List String) :=
  if (Value.get body "description").truthy then base ++ [["description"]] else base

theorem wf_toWireBody {payload : Dict String (Value X)} (h : (Value.dict payload).WF)
    (deprecated : Bool) : (Value.dict (toWireBody payload deprecated)).WF := by
  have hset : ∀ s : String,
      (Value.dict (Dict.set (Dict.erase payload "isEnabled") "status" (.str s))).WF :=
    fun s => (h.erase _).set _ trivial
  unfold toWireBody
  dsimp only
  split_ifs
  · exact hset _
  · exact (h.erase _).erase _
  · exact hset _

end

/-! ## The rules by name and by id -/

/-- The displayName → Graph id map and the Graph ids that exist. -/
structure RuleIndex where
  nameMap : Dict String String
  graphIds : List String

section
variable {X : Type}

def displayName (rule : Dict String (Value X)) : String := Value.textAt rule "displayName"

def graphId (rule : Dict String (Value X)) : String := Value.textAt rule "id"

/-- The index of rules whose names are distinct. -/
def RuleIndex.ofRules (rules : List (Dict String (Value X))) : RuleIndex where
  nameMap := rules.map fun r => (displayName r, graphId r)
  graphIds := (rules.map graphId).filter (· ≠ "")

/-- `build_rule_index`; `none` is the exception for duplicate names. -/
def buildRuleIndex (rules : List (Dict String (Value X))) : Option RuleIndex :=
  if (rules.map displayName).Nodup then some (RuleIndex.ofRules rules) else none

end

def resolveGraphId (index : RuleIndex) (name : String) (armName : Option String) : Option String :=
  match armName.filter fun a => a ≠ "" ∧ a ∈ index.graphIds with
  | some a => some a
  | none => (index.nameMap.get? name).filter (· ≠ "")

/-- `record_graph_id`. -/
def RuleIndex.record (index : RuleIndex) (name id : String) : RuleIndex where
  nameMap := Dict.set (index.nameMap.filter fun p => p.2 ≠ id ∨ p.1 = name) name id
  graphIds := id :: index.graphIds

theorem resolveGraphId_of_armName {index : RuleIndex} {name a : String} (ha : a ≠ "")
    (hmem : a ∈ index.graphIds) : resolveGraphId index name (some a) = some a := by
  simp [resolveGraphId, Option.filter, ha, hmem]

/-- The rule is the one recorded in the file, or else the one with the name. -/
theorem resolveGraphId_eq_some {index : RuleIndex} {name id : String} {armName : Option String}
    (h : resolveGraphId index name armName = some id) :
    id ≠ "" ∧ (armName = some id ∧ id ∈ index.graphIds ∨
      (∀ a, armName = some a → a = "" ∨ a ∉ index.graphIds) ∧ index.nameMap.get? name = some id) := by
  unfold resolveGraphId at h
  split at h
  · next a ha =>
    obtain rfl := Option.some.inj h
    obtain ⟨harm, hlive⟩ := Option.filter_eq_some_iff.mp ha
    obtain ⟨hne, hmem⟩ := of_decide_eq_true hlive
    exact ⟨hne, .inl ⟨harm, hmem⟩⟩
  · next hnone =>
    obtain ⟨hname, hne⟩ := Option.filter_eq_some_iff.mp h
    refine ⟨of_decide_eq_true hne, .inr ⟨?_, hname⟩⟩
    rintro a rfl
    by_contra hlive
    obtain ⟨ha, hmem⟩ := not_or.mp hlive
    simp [ha, not_not.mp hmem] at hnone

theorem resolveGraphId_of_name {index : RuleIndex} {name : String} {armName : Option String}
    (h : ∀ a, armName = some a → a = "" ∨ a ∉ index.graphIds) :
    resolveGraphId index name armName = (index.nameMap.get? name).filter (· ≠ "") := by
  have hnone : armName.filter (fun a => a ≠ "" ∧ a ∈ index.graphIds) = none := by
    cases armName with
    | none => rfl
    | some a =>
      rcases h a rfl with rfl | hmem
      · simp
      · simp [hmem]
  rw [resolveGraphId, hnone]

theorem resolveGraphId_ne_empty {index : RuleIndex} {name id : String} {armName : Option String}
    (h : resolveGraphId index name armName = some id) : id ≠ "" :=
  (resolveGraphId_eq_some h).1

namespace RuleIndex

/-- After a write one name alone points at the rule. -/
theorem name_of_mem_record {index : RuleIndex} {name id m : String}
    (h : (m, id) ∈ (index.record name id).nameMap) : m = name := by
  rcases Dict.mem_set h with heq | hmem
  · exact (Prod.mk.inj heq).1
  · simpa using (List.mem_filter.mp hmem).2

theorem mem_of_mem_record {index : RuleIndex} {name id m g : String} (hg : g ≠ id)
    (h : (m, g) ∈ (index.record name id).nameMap) : (m, g) ∈ index.nameMap := by
  rcases Dict.mem_set h with heq | hmem
  · exact absurd (Prod.mk.inj heq).2 hg
  · exact (List.mem_filter.mp hmem).1

/-- A write of one rule leaves the resolution of every other envelope. -/
theorem resolveGraphId_record {index : RuleIndex} {name id name' : String}
    {armName' : Option String} (hname : name' ≠ name) (harm : armName' ≠ some id)
    (hres : resolveGraphId index name' armName' ≠ some id) (hid : id ≠ "") :
    resolveGraphId (index.record name id) name' armName' =
      resolveGraphId index name' armName' := by
  have hfilter : armName'.filter (fun a => a ≠ "" ∧ a ∈ (index.record name id).graphIds) =
      armName'.filter (fun a => a ≠ "" ∧ a ∈ index.graphIds) := by
    cases armName' with
    | none => rfl
    | some a =>
      have ha : a ≠ id := fun h => harm (congrArg some h)
      simp [Option.filter, record, ha]
  unfold resolveGraphId at hres ⊢
  rw [hfilter]
  split
  · rfl
  · next hnone =>
    rw [hnone] at hres
    show (Dict.get? (Dict.set _ name id) name').filter _ = _
    rw [Dict.get?_set, if_neg hname.symm]
    cases hget : index.nameMap.get? name' with
    | none => rw [Dict.get?_filter_eq_none hget]
    | some v =>
      have hv : v ≠ id := by
        rintro rfl
        exact hres (by simp [hget, hid])
      rw [Dict.get?_filter_of_pos hget (by simp [hv])]

end RuleIndex
end ContentOps.Defender
