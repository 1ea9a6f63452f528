import ContentOps.AutomationRule.ReferenceScan

/-! When the dependency check sees the references that apply resolves. -/

namespace ContentOps.AutomationRule
open PyData Asking

variable {X : Type}

/-! ## A condition with its values rewritten -/

section
variable (f : Value X → Value X)

def rewritten (p : Document X) : Document X := rewritePropertiesEntries (m := Id) f (isRuleIds p) p

mutual

/-- The same places are come by after the values are rewritten. -/
theorem visited_rewriteCondition (v : Value X) :
    visited (rewriteCondition (m := Id) f v) = (visited v).map (rewritten f) := by
  match v with
  | .dict cond =>
    rw [rewriteCondition, visited]
    exact visitedAt_rewriteConditionEntries cond
  | .null | .bool _ | .int _ | .scalar _ | .str _ | .list _ => rfl

theorem visitedAt_rewriteConditionEntries (d : List (String × Value X)) :
    visitedAt (rewriteConditionEntries (m := Id) f d) = (visitedAt d).map (rewritten f) := by
  match d with
  | [] => rfl
  | (k, v) :: rest =>
    rw [rewriteConditionEntries_id_cons, visitedAt, visitedAt]
    split_ifs
    · exact visitedProperties_rewriteProperties v
    · exact visitedAt_rewriteConditionEntries rest

theorem visitedProperties_rewriteProperties (v : Value X) :
    visitedProperties (rewriteProperties (m := Id) f v) =
      (visitedProperties v).map (rewritten f) := by
  match v with
  | .dict props =>
    have hid : rewriteProperties (m := Id) f (.dict props) = .dict (rewritten f props) := by
      rw [rewriteProperties]
      rfl
    have hinner := visitedNestedAt_rewritePropertiesEntries (isRuleIds props) "innerConditions"
      (.inl rfl) props
    have hitem := visitedNestedAt_rewritePropertiesEntries (isRuleIds props) "itemConditions"
      (.inr rfl) props
    rw [hid, visitedProperties, visitedProperties, List.map_cons, List.map_append, ← hinner, ← hitem]
    rfl
  | .null | .bool _ | .int _ | .scalar _ | .str _ | .list _ => rfl

theorem visitedNestedAt_rewritePropertiesEntries (ruleIds : Bool) (key : String)
    (hkey : key = "innerConditions" ∨ key = "itemConditions") (d : List (String × Value X)) :
    visitedNestedAt key (rewritePropertiesEntries (m := Id) f ruleIds d) =
      (visitedNestedAt key d).map (rewritten f) := by
  match d with
  | [] => rfl
  | (k, v) :: rest =>
    rw [rewritePropertiesEntries_id_cons, visitedNestedAt, visitedNestedAt]
    by_cases hk : k = key
    · rw [if_pos hk, if_pos hk, if_pos (hk ▸ hkey)]
      exact visitedNested_rewriteNested v
    · rw [if_neg hk, if_neg hk]
      exact visitedNestedAt_rewritePropertiesEntries ruleIds key hkey rest

theorem visitedNested_rewriteNested (v : Value X) :
    visitedNested (rewriteNested (m := Id) f v) = (visitedNested v).map (rewritten f) := by
  match v with
  | .list vs =>
    rw [rewriteNested, visitedNested]
    exact visitedConditions_rewriteConditions vs
  | .null | .bool _ | .int _ | .scalar _ | .str _ | .dict _ => rfl

theorem visitedConditions_rewriteConditions (vs : List (Value X)) :
    visitedConditions (rewriteConditions (m := Id) f vs) =
      (visitedConditions vs).map (rewritten f) := by
  match vs with
  | [] => rfl
  | v :: vs =>
    have hid : rewriteConditions (m := Id) f (v :: vs) =
        rewriteCondition (m := Id) f v :: rewriteConditions (m := Id) f vs := by
      rw [rewriteConditions]
      rfl
    rw [hid, visitedConditions, visitedConditions, List.map_append, visited_rewriteCondition v,
      visitedConditions_rewriteConditions vs]

end

/-- Only the values of a condition on rule ids are others. -/
theorem get_propertyValues_rewritten (p : Document X) (h : isRuleIds p) :
    Value.get (rewritten f p) "propertyValues" =
      rewriteValues (m := Id) f (Value.get p "propertyValues") := by
  have hget : Dict.get? (rewritten f p) "propertyValues" =
      (Dict.get? p "propertyValues").map (rewriteValues (m := Id) f) := by
    rw [rewritten, h]
    generalize p = d
    induction d with
    | nil => rfl
    | cons q d ih =>
      obtain ⟨k, v⟩ := q
      rw [rewritePropertiesEntries_id_cons]
      by_cases hk : k = "propertyValues"
      · subst hk
        rw [Dict.get?_cons_self, Dict.get?_cons_self]
        rfl
      · rw [Dict.get?_cons_ne hk, Dict.get?_cons_ne hk]
        exact ih
  rw [Value.get, hget, Value.get]
  cases Dict.get? p "propertyValues" <;> rfl

end

/-! ## Where both look -/

section
variable [Value.ScalarEq X]

/-- The scan goes through what the resolver goes through, and nothing else in it looks like a
reference. -/
structure ScansAlike (props : Document X) : Prop where
  values : isRuleIds props → (iterated (Value.get props "propertyValues")).isSome
  keys : isRuleIds props → ∀ d, Value.get props "propertyValues" = .dict d →
    ∀ k ∈ Dict.keys d, ¬ analyticRefPrefix <+: k.toList
  nested : ∀ key ∈ ["innerConditions", "itemConditions"], (iterated (Value.get props key)).isSome

/-- What the scan finds among the keys of values that are a mapping. -/
def keyRefs : Value X → List String
  | .dict d => (d.map fun p => (.str p.1 : Value X)).filterMap analyticRef
  | _ => []

omit [Value.ScalarEq X] in
theorem analyticRef_str_eq_none {s : String} :
    analyticRef (.str s : Value X) = none ↔ ¬ analyticRefPrefix <+: s.toList := by
  unfold analyticRef
  dsimp only
  split_ifs with h <;> simp [h]

omit [Value.ScalarEq X] in
theorem analyticRef_singleton (c : Char) : analyticRef (.str (String.singleton c) : Value X) = none := by
  have hprefix : ¬ analyticRefPrefix <+: (String.singleton c).toList := by
    intro h
    have hone : (String.singleton c).toList.length = 1 := by
      rw [String.toList_singleton, List.length_singleton]
    have hlen := hone ▸ h.length_le
    exact absurd hlen (by decide)
  exact analyticRef_str_eq_none.mpr hprefix

/-- The scan finds the values of a list, and the keys of a mapping. -/
theorem filterMap_iterated (v : Value X) :
    ((iterated v).getD []).filterMap analyticRef = (listed v).filterMap analyticRef ++ keyRefs v := by
  cases v with
  | list vs => exact (List.append_nil _).symm
  | dict d => rfl
  | str s =>
    rw [iterated, Option.getD_some]
    refine List.filterMap_eq_nil_iff.mpr fun w hw => ?_
    obtain ⟨c, -, rfl⟩ := List.mem_map.mp hw
    exact analyticRef_singleton c
  | null | bool | int | scalar =>
    unfold iterated
    dsimp only
    split_ifs <;> rfl

omit [Value.ScalarEq X] in
theorem keyRefs_eq_nil {v : Value X} : keyRefs v = [] ↔
    ∀ d, v = .dict d → ∀ k ∈ Dict.keys d, ¬ analyticRefPrefix <+: k.toList := by
  cases v with
  | dict d =>
    rw [keyRefs, List.filterMap_map, List.filterMap_eq_nil_iff]
    constructor
    · intro h d' hd k hk
      obtain rfl := Value.dict.inj hd
      obtain ⟨p, hp, rfl⟩ := List.mem_map.mp hk
      exact analyticRef_str_eq_none.mp (h p hp)
    · intro h p hp
      exact analyticRef_str_eq_none.mpr (h d rfl p.1 (List.mem_map_of_mem hp))
  | null | bool | int | scalar | str | list => simp [keyRefs]

/-- What the scan finds among keys of the conditions. -/
def keyRefsOf (props : Document X) : List String :=
  if isRuleIds props then keyRefs (Value.get props "propertyValues") else []

theorem scanned_eq (props : Document X) :
    (scanned props).map Reference.analytic =
      askedOf props ++ (keyRefsOf props).map Reference.analytic := by
  unfold scanned askedOf keyRefsOf
  split_ifs
  · rw [filterMap_iterated, List.map_append]
  · rfl

/-- What is found beyond what is asked for. -/
theorem scannedAll_eq (nodes : List (Document X)) :
    (((scannedAll nodes).map Reference.analytic : List Reference) : Multiset Reference) =
      askedAll nodes + ((nodes.flatMap keyRefsOf).map Reference.analytic : List Reference) := by
  induction nodes with
  | nil => rfl
  | cons p nodes ih =>
    have hcons : askedAll (p :: nodes) = (askedOf p : Multiset Reference) + askedAll nodes :=
      (Multiset.coe_add _ _).symm
    have hscanned : scannedAll (p :: nodes) = scanned p ++ scannedAll nodes := rfl
    rw [hcons, hscanned, List.map_append, scanned_eq, ← Multiset.coe_add, ih, ← Multiset.coe_add,
      List.flatMap_cons, List.map_append, ← Multiset.coe_add]
    exact add_add_add_comm _ _ _ _

theorem scansAlike_iff (nodes : List (Document X)) (hnames : ∀ p ∈ nodes, hashableName p) :
    (∀ p ∈ nodes, ScansAlike p) ↔
      (∀ p ∈ nodes, Scannable p) ∧ nodes.flatMap keyRefsOf = [] := by
  rw [List.flatMap_eq_nil_iff]
  have hkeys : ∀ p : Document X, keyRefsOf p = [] ↔
      (isRuleIds p → ∀ d, Value.get p "propertyValues" = .dict d →
        ∀ k ∈ Dict.keys d, ¬ analyticRefPrefix <+: k.toList) := by
    intro p
    rw [← keyRefs_eq_nil, keyRefsOf]
    split_ifs with h <;> simp [h]
  constructor
  · intro h
    exact ⟨fun p hp => ⟨hnames p hp, (h p hp).values, (h p hp).nested⟩,
      fun p hp => (hkeys p).mpr (h p hp).keys⟩
  · rintro ⟨hscan, hnil⟩ p hp
    exact ⟨(hscan p hp).2.1, (hkeys p).mp (hnil p hp), (hscan p hp).2.2⟩

/-! ## The whole body -/

/-- The conditions of a rule, at every depth. -/
def nodesOf (payload : Document X) : List (Document X) :=
  visitedConditions (Handler.conditionsOf payload)

variable (h : Handler) (str : Value X → String)

/-- No reference is left in what is sent. -/
structure Desugared (body : Document X) : Prop where
  playbooks : ∀ action ∈ Handler.actionsOf body, Value.textAt action "actionType" = "RunPlaybook" →
    ¬ (Value.get (Handler.configuration action) "playbook").truthy
  analytics : ∀ props ∈ nodesOf body, isRuleIds props →
    ∀ vs, iterated (Value.get props "propertyValues") = some vs → ∀ v ∈ vs, analyticRef v = none

/-- Whatever the resolvers make of the ids, a body is built from those that the scan finds, and
from no others. -/
def ScanAgrees (payload : Document X) : Prop :=
  ∀ (r : Resolvers) (body : Document X) (asked : List Reference),
    r.toArmBody h str payload [] = some (body, asked) →
    (∃ playbooks analytics, playbookRefs str (.dict payload) = some playbooks ∧
      analyticRefs (.dict payload) = some analytics ∧
      (asked : Multiset Reference) =
        (playbooks.map Reference.playbook : List Reference) +
          (analytics.map Reference.analytic : List Reference)) ∧
    ((∀ id rid, r.analytic id = some rid → ¬ analyticRefPrefix <+: rid.toList) → Desugared body)

/-! ### What building it asks for -/

variable {h str}

omit [Value.ScalarEq X] in
theorem asks_resolveCondition (r : Resolvers) {cond : Value X} (hwf : cond.WF) :
    Asks (r.Total ∧ ∀ p ∈ visited cond, hashableName p) (r.resolveCondition cond)
      (rewriteCondition (m := Id) r.resolvedValue cond) (askedAll (visited cond)) := by
  unfold Resolvers.resolveCondition
  split_ifs with hnames
  · exact (r.asks_rewriteCondition hwf).mono And.left
  · constructor
    · intro asked out asked' hfail
      exact absurd hfail (Option.some_ne_none _).symm
    · intro hboth
      exact absurd (List.all_eq_true.mpr hboth.2) hnames

omit [Value.ScalarEq X] in
theorem hashable_of_returned {r : Resolvers} {cond : Value X} {asked : List Reference}
    (hret : (r.resolveCondition cond asked).isSome) : ∀ p ∈ visited cond, hashableName p := by
  unfold Resolvers.resolveCondition at hret
  split_ifs at hret with hnames
  · exact List.all_eq_true.mp hnames
  · exact absurd hret Bool.false_ne_true

/-- The action that is sent when the resolver knows the playbook. -/
def resolvedAction (r : Resolvers) (str : Value X → String) (action : Document X) : Document X :=
  let cfg := Handler.configuration action
  let playbook := Value.get cfg "playbook"
  if Value.textAt action "actionType" = "RunPlaybook" ∧ playbook.truthy then
    let target := (r.playbook (Resolvers.textOf str playbook)).getD ("", none)
    action.set "actionConfiguration" (.dict (Handler.addTenant target.2
      ((Dict.erase cfg "playbook").set "logicAppResourceId" (.str target.1))))
  else action.set "actionConfiguration" (.dict cfg)

/-- What the playbook resolver is asked for by an action. -/
def playbookAsked (str : Value X → String) (action : Document X) : List Reference :=
  (playbookRef str (.dict action)).toList.map .playbook

theorem playbookRef_eq (action : Document X) : playbookRef str (.dict action) =
    if Value.textAt action "actionType" = "RunPlaybook" ∧
        (Value.get (Handler.configuration action) "playbook").truthy then
      some (Resolvers.textOf str (Value.get (Handler.configuration action) "playbook"))
    else none := by
  rw [playbookRef]
  by_cases htype : Value.textAt action "actionType" = "RunPlaybook"
  · rw [if_neg (not_not_intro htype)]
    cases hp : Value.get (Handler.configuration action) "playbook" with
    | str s => by_cases hs : s = "" <;> simp [htype, hs, Value.truthy, Resolvers.textOf]
    | null | bool | int | scalar | list | dict => simp [htype, Resolvers.textOf]
  · rw [if_pos htype, if_neg fun hboth => htype hboth.1]

theorem asks_resolveAction (r : Resolvers) (action : Document X) :
    Asks r.Total (r.resolveAction str action) (.dict (resolvedAction r str action))
      (playbookAsked str action : List Reference) := by
  unfold Resolvers.resolveAction resolvedAction playbookAsked
  rw [playbookRef_eq]
  dsimp only
  split_ifs with hplay
  · refine asks_map (a := (r.playbook _).getD ("", none)) (asks_ask (fun b hb => ?_) fun htotal =>
      htotal.1 _) fun target => Value.dict (action.set "actionConfiguration" (.dict
        (Handler.addTenant target.2 ((Dict.erase (Handler.configuration action) "playbook").set
          "logicAppResourceId" (.str target.1)))))
    rw [hb, Option.getD_some]
  · exact asks_pure _

omit [Value.ScalarEq X] in
theorem items_conditions (payload : Document X) :
    Handler.items (Value.get (h.normalizedLogic (Handler.triggeringLogic payload)) "conditions") =
      Handler.conditionsOf payload := by
  rw [Value.get, Handler.get?_normalizedLogic, if_neg (by decide)]
  rfl

/-- The properties that are sent when the resolvers know all the ids. -/
def resolvedBody (h : Handler) (r : Resolvers) (str : Value X → String)
    (payload : Document X) (displayName order : Value X) : Document X :=
  [("displayName", displayName), ("order", order),
    ("triggeringLogic", .dict ((h.normalizedLogic (Handler.triggeringLogic payload)).set "conditions"
      (.list ((Handler.conditionsOf payload).map (rewriteCondition (m := Id) r.resolvedValue))))),
    ("actions", .list ((Handler.actionsOf payload).map fun a => .dict (resolvedAction r str a)))]

omit [Value.ScalarEq X] in
theorem sum_askedAll (conds : List (Value X)) :
    (conds.map fun cond => askedAll (visited cond)).sum = askedAll (visitedConditions conds) := by
  induction conds with
  | nil => rfl
  | cons cond conds ih =>
    rw [List.map_cons, List.sum_cons, ih, visitedConditions, askedAll_append]

theorem coe_flatMap {α ρ : Type} (as : List α) (f : α → List ρ) :
    ((as.flatMap f : List ρ) : Multiset ρ) = (as.map fun a => (f a : Multiset ρ)).sum := by
  induction as with
  | nil => rfl
  | cons a as ih => rw [List.flatMap_cons, ← Multiset.coe_add, ih, List.map_cons, List.sum_cons]

omit [Value.ScalarEq X] in
theorem mem_visitedConditions {conds : List (Value X)} {cond : Value X} (hcond : cond ∈ conds)
    {p : Document X} (hp : p ∈ visited cond) : p ∈ visitedConditions conds := by
  induction conds with
  | nil => exact absurd hcond List.not_mem_nil
  | cons c conds ih =>
    rw [visitedConditions, List.mem_append]
    rcases List.mem_cons.mp hcond with rfl | hrest
    · exact .inl hp
    · exact .inr (ih hrest)

omit [Value.ScalarEq X] in
theorem exists_of_mem_visitedConditions {conds : List (Value X)} {p : Document X}
    (hp : p ∈ visitedConditions conds) : ∃ cond ∈ conds, p ∈ visited cond := by
  induction conds with
  | nil => exact absurd hp List.not_mem_nil
  | cons c conds ih =>
    rw [visitedConditions, List.mem_append] at hp
    rcases hp with hp | hp
    · exact ⟨c, List.mem_cons_self, hp⟩
    · obtain ⟨cond, hcond, hmem⟩ := ih hp
      exact ⟨cond, List.mem_cons_of_mem _ hcond, hmem⟩

variable (h str) in
/-- What building a body asks the two resolvers for. -/
theorem asks_toArmBody (r : Resolvers) {payload : Document X} (hwf : (Value.dict payload).WF)
    {displayName order : Value X} (hname : Dict.get? payload "displayName" = some displayName)
    (horder : Dict.get? payload "order" = some order) :
    Asks (r.Total ∧ ∀ p ∈ nodesOf payload, hashableName p) (r.toArmBody h str payload)
      (resolvedBody h r str payload displayName order)
      (askedAll (nodesOf payload) +
        ((Handler.actionsOf payload).flatMap (playbookAsked str) : List Reference)) := by
  have hconds : Asks (r.Total ∧ ∀ p ∈ nodesOf payload, hashableName p)
      ((Handler.conditionsOf payload).mapM r.resolveCondition)
      ((Handler.conditionsOf payload).map (rewriteCondition (m := Id) r.resolvedValue))
      ((Handler.conditionsOf payload).map fun cond => askedAll (visited cond)).sum :=
    asks_mapM fun cond hcond => (asks_resolveCondition r (Handler.wf_of_mem_conditionsOf hwf hcond)).mono
      fun hboth => ⟨hboth.1, fun p hp => hboth.2 p (mem_visitedConditions hcond hp)⟩
  have hactions : Asks (r.Total ∧ ∀ p ∈ nodesOf payload, hashableName p)
      ((Handler.items (Value.get payload "actions")).mapM fun a =>
        r.resolveAction str ((a.dict?).getD []))
      ((Handler.items (Value.get payload "actions")).map fun a =>
        (.dict (resolvedAction r str ((a.dict?).getD [])) : Value X))
      ((Handler.items (Value.get payload "actions")).map fun a =>
        ((playbookAsked str ((a.dict?).getD []) : List Reference) : Multiset Reference)).sum :=
    asks_mapM fun a _ => (asks_resolveAction r ((a.dict?).getD [])).mono And.left
  have hsum : ((Handler.items (Value.get payload "actions")).map fun a =>
      ((playbookAsked str ((a.dict?).getD []) : List Reference) : Multiset Reference)).sum =
        ((Handler.actionsOf payload).flatMap (playbookAsked str) : List Reference) := by
    rw [Handler.actionsOf, List.flatMap_map]
    exact (coe_flatMap _ _).symm
  have hsent : (Handler.items (Value.get payload "actions")).map
      (fun a => (.dict (resolvedAction r str ((a.dict?).getD [])) : Value X)) =
        (Handler.actionsOf payload).map fun a => .dict (resolvedAction r str a) := by
    rw [Handler.actionsOf, List.map_map]
    rfl
  rw [sum_askedAll] at hconds
  rw [hsum, hsent] at hactions
  have hrest := asks_map₂ hconds hactions fun conditions actions =>
    [("displayName", displayName), ("order", order),
      ("triggeringLogic", .dict ((h.normalizedLogic (Handler.triggeringLogic payload)).set
        "conditions" (.list conditions))), ("actions", .list actions)]
  rw [← zero_add (askedAll _ + _), ← zero_add (_ + _)]
  unfold Resolvers.toArmBody
  dsimp only
  rw [items_conditions]
  exact asks_bind (asks_lift hname) (asks_bind (asks_lift horder) hrest)

/-! ### What the scan finds in it -/

theorem yields_analyticRefs {payload : Document X} (hvalid : Handler.Validates payload) :
    Yields (analyticRefs (.dict payload)) (∀ p ∈ nodesOf payload, Scannable p)
      (scannedAll (nodesOf payload)) := by
  obtain ⟨logic, hlogic⟩ := hvalid.logic
  have htrigger : Handler.triggeringLogic payload = logic := by
    rw [Handler.triggeringLogic, Value.get, hlogic]
    rfl
  have hrefs : analyticRefs (.dict payload) = nestedRefs (Value.get logic "conditions") := by
    have hget : Value.get payload "triggeringLogic" = .dict logic := by
      rw [Value.get, hlogic]
      rfl
    simp only [analyticRefs, Value.dict?, hget, mapping, Option.bind_eq_bind, Option.bind_some]
  have hnodes : nodesOf payload = visitedNested (Value.get logic "conditions") := by
    rw [nodesOf, Handler.conditionsOf, htrigger]
    cases Value.get logic "conditions" <;> simp only [Handler.items, visitedNested, visitedConditions]
  have hiter : (iterated (Value.get logic "conditions")).isSome := by
    rw [Value.get]
    cases hget : Dict.get? logic "conditions" with
    | none => rfl
    | some v =>
      obtain ⟨vs, rfl⟩ := hvalid.conditions v (htrigger ▸ hget)
      rfl
  rw [hrefs, hnodes]
  exact (yields_nestedRefs _).congr (and_iff_right hiter) rfl

variable (str) in
theorem playbookRefs_eq {payload : Document X} (hvalid : Handler.Validates payload) :
    ∃ playbooks, playbookRefs str (.dict payload) = some playbooks ∧
      playbooks.map Reference.playbook =
        (Handler.actionsOf payload).flatMap (playbookAsked str) := by
  obtain ⟨vs, hactions, hdicts⟩ := hvalid.actions
  have hget : Value.get payload "actions" = .list vs := by
    rw [Value.get, hactions]
    rfl
  refine ⟨vs.filterMap (playbookRef str), ?_, ?_⟩
  · simp only [playbookRefs, Value.dict?, hget, iterated, Option.bind_eq_bind, Option.bind_some]
    rfl
  · rw [Handler.actionsOf, hget, Handler.items, List.flatMap_map]
    clear hget hactions
    induction vs with
    | nil => rfl
    | cons v vs ih =>
      obtain ⟨⟨a, rfl⟩, hrest⟩ := List.forall_mem_cons.mp hdicts
      rw [List.flatMap_cons, ← ih hrest, playbookAsked, Value.dict?, Option.getD_some]
      cases href : playbookRef str (.dict a) <;> simp [href]

/-! ### What is left in it -/

theorem nodesOf_resolvedBody (r : Resolvers) (payload : Document X) (displayName order : Value X) :
    nodesOf (resolvedBody h r str payload displayName order) =
      (nodesOf payload).map (rewritten r.resolvedValue) := by
  have hconds : Handler.conditionsOf (resolvedBody h r str payload displayName order) =
      (Handler.conditionsOf payload).map (rewriteCondition (m := Id) r.resolvedValue) := by
    have hlogic : Handler.triggeringLogic (resolvedBody h r str payload displayName order) =
        (h.normalizedLogic (Handler.triggeringLogic payload)).set "conditions" (.list
          ((Handler.conditionsOf payload).map (rewriteCondition (m := Id) r.resolvedValue))) := rfl
    rw [Handler.conditionsOf, hlogic, Value.get, Dict.get?_set_self]
    rfl
  rw [nodesOf, hconds, nodesOf]
  induction Handler.conditionsOf payload with
  | nil => rfl
  | cons cond conds ih =>
    rw [List.map_cons, visitedConditions, visitedConditions, List.map_append, ← ih,
      visited_rewriteCondition]

omit [Value.ScalarEq X] in
theorem analyticRef_resolvedValue {r : Resolvers}
    (hclean : ∀ id rid, r.analytic id = some rid → ¬ analyticRefPrefix <+: rid.toList) (v : Value X) :
    analyticRef (r.resolvedValue v) = none := by
  cases v with
  | str s =>
    unfold Resolvers.resolvedValue
    dsimp only
    split_ifs with hprefix
    · rw [analyticRef_str_eq_none]
      cases hid : r.analytic (String.ofList (s.toList.drop analyticRefPrefix.length)) with
      | none =>
        rw [Option.getD_none]
        decide
      | some rid => exact hclean _ _ hid
    · exact analyticRef_str_eq_none.mpr hprefix
  | null | bool | int | scalar | list | dict => rfl

/-- Where both looked alike, no reference is left. -/
theorem analyticRef_of_rewritten {r : Resolvers} {p : Document X} (halike : ScansAlike p)
    (hclean : ∀ id rid, r.analytic id = some rid → ¬ analyticRefPrefix <+: rid.toList)
    (hids : isRuleIds p) {vs : List (Value X)}
    (hvs : iterated (Value.get (rewritten r.resolvedValue p) "propertyValues") = some vs) :
    ∀ v ∈ vs, analyticRef v = none := by
  rw [get_propertyValues_rewritten _ _ hids] at hvs
  have hkeys := keyRefs_eq_nil.mpr (halike.keys hids)
  generalize Value.get p "propertyValues" = values at hvs hkeys
  have hnone : ∀ w : Value X, iterated w = some vs → listed w = [] → keyRefs w = [] →
      ∀ v ∈ vs, analyticRef v = none := by
    intro w hw hlist hkey
    have hall := filterMap_iterated w
    rw [hw, hlist, hkey, Option.getD_some] at hall
    exact List.filterMap_eq_nil_iff.mp hall
  cases values with
  | list ws =>
    have hid : rewriteValues (m := Id) r.resolvedValue (.list ws) =
        .list (ws.map r.resolvedValue) := congrArg Value.list (List.idRun_mapM ..)
    rw [hid] at hvs
    obtain rfl := Option.some.inj hvs
    intro v hv
    obtain ⟨w, -, rfl⟩ := List.mem_map.mp hv
    exact analyticRef_resolvedValue hclean w
  | null | bool | int | scalar | str | dict => exact hnone _ hvs rfl hkeys

theorem desugared_action (r : Resolvers) (action : Document X)
    (htype : Value.textAt (resolvedAction r str action) "actionType" = "RunPlaybook") :
    ¬ (Value.get (Handler.configuration (resolvedAction r str action)) "playbook").truthy := by
  have hconf : ∀ cfg : Document X, Handler.configuration
      (action.set "actionConfiguration" (.dict cfg)) = cfg := by
    intro cfg
    rw [Handler.configuration, Value.get, Dict.get?_set_self]
    rfl
  have hset : ∀ v : Value X, Value.textAt (action.set "actionConfiguration" v) "actionType" =
      Value.textAt action "actionType" := by
    intro v
    apply Handler.textAt_congr
    rw [Dict.get?_set, if_neg (by decide)]
  unfold resolvedAction at htype ⊢
  dsimp only at htype ⊢
  split_ifs at htype ⊢ with hplay
  · rw [hconf, Value.get, Handler.get?_addTenant_ne (by decide), Dict.get?_set, if_neg (by decide),
      Dict.get?_erase, if_pos rfl]
    exact Bool.false_ne_true
  · rw [hset] at htype
    rw [hconf]
    exact fun htruthy => hplay ⟨htype, htruthy⟩

theorem desugared_resolvedBody {r : Resolvers} {payload : Document X} {displayName order : Value X}
    (halike : ∀ p ∈ nodesOf payload, ScansAlike p)
    (hclean : ∀ id rid, r.analytic id = some rid → ¬ analyticRefPrefix <+: rid.toList) :
    Desugared (resolvedBody h r str payload displayName order) where
  playbooks := by
    intro action haction
    have hactions : Handler.actionsOf (resolvedBody h r str payload displayName order) =
        (Handler.actionsOf payload).map (resolvedAction r str) := by
      change (((Handler.actionsOf payload).map fun a => (.dict (resolvedAction r str a) : Value X)).map
        fun a => (a.dict?).getD []) = _
      rw [List.map_map]
      rfl
    rw [hactions] at haction
    obtain ⟨a, -, rfl⟩ := List.mem_map.mp haction
    exact desugared_action r a
  analytics := by
    intro props hprops hids vs hvs
    rw [nodesOf_resolvedBody] at hprops
    obtain ⟨p, hp, rfl⟩ := List.mem_map.mp hprops
    have hsame := isRuleIds_rewritePropertiesEntries r.resolvedValue (isRuleIds p) p
    exact analyticRef_of_rewritten (halike p hp) hclean (hsame ▸ hids) hvs

/-! ### The scan and the body -/

theorem hashable_of_built {r : Resolvers} {payload body : Document X} {asked asked' : List Reference}
    (hbuilt : r.toArmBody h str payload asked = some (body, asked')) :
    ∀ p ∈ nodesOf payload, hashableName p := by
  obtain ⟨⟨_, _⟩, -, hbuilt⟩ := Option.bind_eq_some_iff.mp hbuilt
  obtain ⟨⟨_, _⟩, -, hbuilt⟩ := Option.bind_eq_some_iff.mp hbuilt
  obtain ⟨⟨_, _⟩, hconds, -⟩ := Option.bind_eq_some_iff.mp hbuilt
  rw [items_conditions] at hconds
  intro p hp
  obtain ⟨cond, hcond, hmem⟩ := exists_of_mem_visitedConditions hp
  obtain ⟨asked, hret⟩ := returned_of_mapM hconds hcond
  exact hashable_of_returned hret p hmem

/-- Every id is known to these. -/
def knowing : Resolvers where
  playbook := fun _ => some ("", none)
  analytic := fun _ => some ""

theorem scanAgrees_of_scansAlike {payload : Document X} (hwf : (Value.dict payload).WF)
    (hvalid : Handler.Validates payload) (halike : ∀ p ∈ nodesOf payload, ScansAlike p) :
    ScanAgrees h str payload := by
  intro r body asked hbuilt
  obtain ⟨name, hname⟩ := hvalid.displayName
  obtain ⟨order, horder⟩ := hvalid.order
  obtain ⟨rfl, hasked⟩ := (asks_toArmBody h str r hwf hname horder).returned hbuilt
  obtain ⟨hscannable, hkeys⟩ :=
    (scansAlike_iff (nodesOf payload) (hashable_of_built hbuilt)).mp halike
  obtain ⟨playbooks, hplaybooks, hmap⟩ := playbookRefs_eq str hvalid
  refine ⟨⟨playbooks, scannedAll (nodesOf payload), hplaybooks, ?_, ?_⟩,
    desugared_resolvedBody halike⟩
  · exact (yields_analyticRefs hvalid _).mpr ⟨hscannable, rfl⟩
  · rw [hasked, hmap, scannedAll_eq, hkeys, List.map_nil, Multiset.coe_nil, add_zero, zero_add,
      add_comm]

theorem scansAlike_of_scanAgrees {payload : Document X} (hwf : (Value.dict payload).WF)
    (hvalid : Handler.Validates payload) (hagrees : ScanAgrees h str payload)
    (hnames : ∀ p ∈ nodesOf payload, hashableName p) : ∀ p ∈ nodesOf payload, ScansAlike p := by
  obtain ⟨name, hname⟩ := hvalid.displayName
  obtain ⟨order, horder⟩ := hvalid.order
  have hasks := asks_toArmBody h str knowing hwf hname horder
  have htotal : knowing.Total := ⟨fun _ => rfl, fun _ => rfl⟩
  obtain ⟨⟨body, asked⟩, hbuilt⟩ := Option.isSome_iff_exists.mp (hasks.returns ⟨htotal, hnames⟩ [])
  obtain ⟨-, hasked⟩ := hasks.returned hbuilt
  obtain ⟨⟨playbooks, analytics, hplaybooks, hanalytics, hsame⟩, -⟩ := hagrees _ _ _ hbuilt
  obtain ⟨hscannable, rfl⟩ := (yields_analyticRefs hvalid _).mp hanalytics
  obtain ⟨playbooks', hplaybooks', hmap⟩ := playbookRefs_eq str hvalid
  obtain rfl := Option.some.inj (hplaybooks.symm.trans hplaybooks')
  rw [scansAlike_iff _ hnames]
  refine ⟨hscannable, ?_⟩
  rw [hasked, hmap, scannedAll_eq, Multiset.coe_nil, zero_add, add_comm, add_right_inj,
    left_eq_add, Multiset.coe_eq_zero, List.map_eq_nil_iff] at hsame
  exact hsame

/-- The ids that apply resolves are those that the dependency check sees exactly when the values of
a condition on rule ids, and what is nested in a condition, are something that both go through. -/
theorem scanAgrees_iff {payload : Document X} (hwf : (Value.dict payload).WF)
    (hvalid : Handler.Validates payload) :
    ScanAgrees h str payload ↔
      (∃ p ∈ nodesOf payload, ¬ hashableName p) ∨ ∀ p ∈ nodesOf payload, ScansAlike p := by
  constructor
  · intro hagrees
    by_cases hnames : ∀ p ∈ nodesOf payload, hashableName p
    · exact .inr (scansAlike_of_scanAgrees hwf hvalid hagrees hnames)
    · push Not at hnames
      obtain ⟨p, hp, hname⟩ := hnames
      exact .inl ⟨p, hp, hname⟩
  · rintro (⟨p, hp, hname⟩ | halike)
    · intro r body asked hbuilt
      exact absurd (hashable_of_built hbuilt p hp) hname
    · exact scanAgrees_of_scansAlike hwf hvalid halike

end

/-! ## Values that are a mapping -/

def mappedProperties : Document Empty :=
  [("propertyName", .str "IncidentRelatedAnalyticRuleIds"), ("operator", .str "Contains"),
    ("propertyValues", .dict [("analytic:noisy-rule", .null)])]

def mappedRule : Document Empty :=
  [("displayName", .str "Tag the noise"), ("order", .int 1),
    ("triggeringLogic", .dict [("conditions", .list [.dict [("conditionType", .str "Property"),
      ("conditionProperties", .dict mappedProperties)]])]),
    ("actions", .list [.dict [("order", .int 1), ("actionType", .str "AddIncidentTask"),
      ("actionConfiguration", .dict [("title", .str "Triage")])]])]

theorem wf_mappedRule : (Value.dict mappedRule).WF := by
  simp [mappedRule, mappedProperties, Value.WF, Value.WFDict, Value.WFList, Dict.keys]

theorem validates_mappedRule : Handler.Validates mappedRule where
  keys := by decide
  displayName := ⟨_, rfl⟩
  order := ⟨_, rfl⟩
  logic := ⟨_, rfl⟩
  conditions := by
    rintro v hv
    obtain rfl := Option.some.inj hv
    exact ⟨_, rfl⟩
  actions := ⟨_, rfl, by
    intro v hv
    obtain rfl := List.mem_singleton.mp hv
    exact ⟨_, rfl⟩⟩
  configuration := by
    intro a ha
    obtain rfl := List.mem_singleton.mp ha
    exact ⟨_, rfl, fun htype => absurd htype (by decide)⟩

theorem nodesOf_mappedRule : nodesOf mappedRule = [mappedProperties] := rfl

/-- The check sees `noisy-rule` in it, and apply sends it as it is. -/
theorem mappedRule_scanned : (Value.dict mappedRule).WF ∧ Handler.Validates mappedRule ∧
    ¬ ScanAgrees Handler.socHandler (fun _ => "") mappedRule := by
  refine ⟨wf_mappedRule, validates_mappedRule, fun hagrees => ?_⟩
  have hnames : ∀ p ∈ nodesOf mappedRule, hashableName p := by
    intro p hp
    obtain rfl := List.mem_singleton.mp (nodesOf_mappedRule ▸ hp)
    rfl
  have halike := scansAlike_of_scanAgrees wf_mappedRule validates_mappedRule hagrees hnames
    mappedProperties (nodesOf_mappedRule ▸ List.mem_singleton_self _)
  exact halike.keys (by decide) _ rfl "analytic:noisy-rule" (by decide) (by decide)

theorem scanAgrees_iff_mappedRule :
    ScanAgrees Handler.socHandler (fun _ => "") mappedRule ↔
      (∃ p ∈ nodesOf mappedRule, ¬ hashableName p) ∨ ∀ p ∈ nodesOf mappedRule, ScansAlike p :=
  scanAgrees_iff wf_mappedRule validates_mappedRule

end ContentOps.AutomationRule
