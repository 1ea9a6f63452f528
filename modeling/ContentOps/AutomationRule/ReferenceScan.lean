import ContentOps.AutomationRule.ArmBody

/-! The references that the dependency check sees and those that apply resolves. -/

namespace ContentOps.AutomationRule
open PyData Asking

variable {X : Type}

/-! ## What the resolvers are asked for -/

/-- What the analytic resolver is asked for by a condition itself. -/
def askedOf (props : Document X) : List Reference :=
  if isRuleIds props then
    ((listed (Value.get props "propertyValues")).filterMap analyticRef).map .analytic
  else []

theorem visitedAt_of_notMem {d : List (String × Value X)}
    (h : "conditionProperties" ∉ Dict.keys d) : visitedAt d = [] := by
  induction d with
  | nil => rfl
  | cons p d ih =>
    obtain ⟨hne, hrest⟩ := not_or.mp (mt List.mem_cons.mpr h)
    rw [visitedAt, if_neg (Ne.symm hne), ih hrest]

theorem visitedNestedAt_of_notMem {key : String} {d : List (String × Value X)}
    (h : key ∉ Dict.keys d) : visitedNestedAt key d = [] := by
  induction d with
  | nil => rfl
  | cons p d ih =>
    obtain ⟨hne, hrest⟩ := not_or.mp (mt List.mem_cons.mpr h)
    rw [visitedNestedAt, if_neg (Ne.symm hne), ih hrest]

/-- What the conditions `nodes` ask for. -/
def askedAll (nodes : List (Document X)) : Multiset Reference := (nodes.flatMap askedOf : List Reference)

theorem askedAll_append (a b : List (Document X)) : askedAll (a ++ b) = askedAll a + askedAll b := by
  rw [askedAll, List.flatMap_append, ← Multiset.coe_add]
  rfl

theorem askedAll_nil : askedAll ([] : List (Document X)) = 0 := rfl

namespace Resolvers
variable (r : Resolvers)

/-- A value that the resolver knows, in its place. -/
def resolvedValue : Value X → Value X
  | .str v =>
    if analyticRefPrefix <+: v.toList then
      .str ((r.analytic (String.ofList (v.toList.drop analyticRefPrefix.length))).getD "")
    else .str v
  | v => v

theorem asks_resolveValue (v : Value X) :
    Asks r.Total (r.resolveValue v) (r.resolvedValue v)
      (((analyticRef v).toList.map .analytic : List Reference) : Multiset Reference) := by
  cases v with
  | str v =>
    unfold resolveValue resolvedValue analyticRef
    dsimp only
    split_ifs with hprefix
    · refine asks_map (asks_ask (fun b hb => ?_) fun htotal => htotal.2 _) Value.str
      rw [hb, Option.getD_some]
    · exact asks_pure _
  | null | bool | int | scalar | list | dict => exact asks_pure _

/-- What the values `w` ask for. -/
def askedValues (ruleIds : Bool) (w : Value X) : List Reference :=
  if ruleIds then ((listed w).filterMap analyticRef).map .analytic else []

theorem asks_rewriteValues (v : Value X) :
    Asks r.Total (rewriteValues r.resolveValue v) (rewriteValues (m := Id) r.resolvedValue v)
      ((askedValues true v : List Reference) : Multiset Reference) := by
  cases v with
  | list vs =>
    have hsum : (vs.map fun v => (((analyticRef v).toList.map .analytic : List Reference) :
        Multiset Reference)).sum = ((askedValues true (.list vs) : List Reference) :
          Multiset Reference) := by
      induction vs with
      | nil => rfl
      | cons v vs ih =>
        rw [List.map_cons, List.sum_cons, ih]
        cases hv : analyticRef v <;> simp [askedValues, listed, hv]
    have hmap := asks_map (asks_mapM fun v (_ : v ∈ vs) => r.asks_resolveValue v) Value.list
    rw [hsum] at hmap
    have hid : rewriteValues (m := Id) r.resolvedValue (.list vs) =
        .list (vs.map r.resolvedValue) := congrArg Value.list (List.idRun_mapM ..)
    rw [hid]
    exact hmap
  | null | bool | int | scalar | str | dict => exact asks_pure _

mutual

/-- A condition asks for what is referred to in the places that are visited. -/
theorem asks_rewriteCondition {v : Value X} (hwf : v.WF) :
    Asks r.Total (rewriteCondition r.resolveValue v) (rewriteCondition (m := Id) r.resolvedValue v)
      (askedAll (visited v)) := by
  match v, hwf with
  | .dict cond, hwf =>
    rw [rewriteCondition, rewriteCondition, visited]
    exact asks_map (asks_rewriteConditionEntries hwf.1 hwf.2) Value.dict
  | .null, _ | .bool _, _ | .int _, _ | .scalar _, _ | .str _, _ | .list _, _ => exact asks_pure _

theorem asks_rewriteConditionEntries {d : List (String × Value X)} (hnodup : (Dict.keys d).Nodup)
    (hwf : Value.WFDict d) :
    Asks r.Total (rewriteConditionEntries r.resolveValue d)
      (rewriteConditionEntries (m := Id) r.resolvedValue d) (askedAll (visitedAt d)) := by
  match d, hnodup, hwf with
  | [], _, _ => exact asks_pure _
  | (k, v) :: rest, hnodup, hwf =>
    obtain ⟨hk, hrest⟩ := List.nodup_cons.mp hnodup
    have htail := asks_map (asks_rewriteConditionEntries hrest hwf.2) fun rest => (k, v) :: rest
    rw [rewriteConditionEntries, rewriteConditionEntries_id_cons, visitedAt]
    split_ifs with hkey
    · subst hkey
      have hprops := asks_map₂ (asks_rewriteProperties hwf.1)
        (asks_rewriteConditionEntries hrest hwf.2) fun v rest => ("conditionProperties", v) :: rest
      rw [visitedAt_of_notMem hk, askedAll_nil, add_zero] at hprops
      exact hprops
    · exact htail

theorem asks_rewriteProperties {v : Value X} (hwf : v.WF) :
    Asks r.Total (rewriteProperties r.resolveValue v)
      (rewriteProperties (m := Id) r.resolvedValue v) (askedAll (visitedProperties v)) := by
  match v, hwf with
  | .dict props, hwf =>
    rw [rewriteProperties, rewriteProperties, visitedProperties]
    exact asks_map (asks_rewritePropertiesEntries (isRuleIds props) hwf.1 hwf.2) Value.dict
  | .null, _ | .bool _, _ | .int _, _ | .scalar _, _ | .str _, _ | .list _, _ => exact asks_pure _

theorem asks_rewritePropertiesEntries (ruleIds : Bool) {d : List (String × Value X)}
    (hnodup : (Dict.keys d).Nodup) (hwf : Value.WFDict d) :
    Asks r.Total (rewritePropertiesEntries r.resolveValue ruleIds d)
      (rewritePropertiesEntries (m := Id) r.resolvedValue ruleIds d)
      ((askedValues ruleIds (Value.get d "propertyValues") : List Reference) +
        askedAll (visitedNestedAt "innerConditions" d ++ visitedNestedAt "itemConditions" d)) := by
  match d, hnodup, hwf with
  | [], _, _ =>
    have hnone : askedValues ruleIds (.null : Value X) = [] := by cases ruleIds <;> rfl
    have hget : Value.get ([] : Document X) "propertyValues" = .null := rfl
    rw [hget, hnone]
    exact asks_pure _
  | (k, v) :: rest, hnodup, hwf =>
    obtain ⟨hk, hrest⟩ := List.nodup_cons.mp hnodup
    have htail := asks_rewritePropertiesEntries ruleIds hrest hwf.2
    have hnested := asks_rewriteNested hwf.1
    rw [askedAll_append] at htail ⊢
    rw [rewritePropertiesEntries, rewritePropertiesEntries_id_cons, visitedNestedAt,
      visitedNestedAt]
    have hother : ∀ key, k ≠ key → Value.get ((k, v) :: rest) key = Value.get rest key := by
      intro key hne
      rw [Value.get, Dict.get?_cons_ne hne, Value.get]
    -- The loop looks at three keys, and each of them stands at most once in the dictionary.
    by_cases hinner : k = "innerConditions"
    · subst hinner
      have hhead := asks_map₂ hnested htail fun v rest => ("innerConditions", v) :: rest
      rw [visitedNestedAt_of_notMem hk, askedAll_nil, zero_add, add_left_comm] at hhead
      rw [hother _ (by decide)]
      exact hhead
    by_cases hitem : k = "itemConditions"
    · subst hitem
      have hhead := asks_map₂ hnested htail fun v rest => ("itemConditions", v) :: rest
      rw [visitedNestedAt_of_notMem hk, askedAll_nil, add_zero, add_comm, add_assoc] at hhead
      rw [hother _ (by decide)]
      exact hhead
    rw [if_neg hinner, if_neg hitem, if_neg (not_or.mpr ⟨hinner, hitem⟩),
      if_neg (not_or.mpr ⟨hinner, hitem⟩)]
    by_cases hvalues : k = "propertyValues" ∧ ruleIds
    · rw [if_pos hvalues, if_pos hvalues]
      obtain ⟨rfl, rfl⟩ := hvalues
      have hnone : Value.get rest "propertyValues" = .null := by
        rw [Value.get, Dict.get?_eq_none_iff.mpr hk]
        rfl
      have hself : Value.get (("propertyValues", v) :: rest) "propertyValues" = v := by
        rw [Value.get, Dict.get?_cons_self]
        rfl
      have hhead := asks_map₂ (r.asks_rewriteValues v) htail fun v rest =>
        ("propertyValues", v) :: rest
      have hzero : askedValues true (.null : Value X) = [] := rfl
      rw [hnone, hzero, Multiset.coe_nil, zero_add] at hhead
      rw [hself]
      exact hhead
    · rw [if_neg hvalues, if_neg hvalues]
      have hhead := asks_map htail fun rest => (k, v) :: rest
      have hsame : askedValues ruleIds (Value.get ((k, v) :: rest) "propertyValues") =
          askedValues ruleIds (Value.get rest "propertyValues") := by
        by_cases hk : k = "propertyValues"
        · have hfalse : ruleIds = false := by
            cases ruleIds with
            | false => rfl
            | true => exact absurd ⟨hk, rfl⟩ hvalues
          rw [hfalse]
          rfl
        · rw [hother _ hk]
      rw [hsame]
      exact hhead

theorem asks_rewriteNested {v : Value X} (hwf : v.WF) :
    Asks r.Total (rewriteNested r.resolveValue v) (rewriteNested (m := Id) r.resolvedValue v)
      (askedAll (visitedNested v)) := by
  match v, hwf with
  | .list vs, hwf =>
    rw [rewriteNested, rewriteNested, visitedNested]
    exact asks_map (asks_rewriteConditions hwf) Value.list
  | .null, _ | .bool _, _ | .int _, _ | .scalar _, _ | .str _, _ | .dict _, _ => exact asks_pure _

theorem asks_rewriteConditions {vs : List (Value X)} (hwf : Value.WFList vs) :
    Asks r.Total (rewriteConditions r.resolveValue vs)
      (rewriteConditions (m := Id) r.resolvedValue vs) (askedAll (visitedConditions vs)) := by
  match vs, hwf with
  | [], _ => exact asks_pure _
  | v :: vs, hwf =>
    rw [rewriteConditions, rewriteConditions, visitedConditions, askedAll_append]
    exact asks_bind (asks_rewriteCondition hwf.1) (asks_map (asks_rewriteConditions hwf.2) _)

end

end Resolvers

/-! ## What the scan finds -/

section
variable [Value.ScalarEq X]

/-- What the scan finds in a condition itself. -/
def scanned (props : Document X) : List String :=
  if isRuleIds props then
    ((iterated (Value.get props "propertyValues")).getD []).filterMap analyticRef
  else []

/-- The scan gets past a condition. -/
def Scannable (props : Document X) : Prop :=
  hashableName props ∧
    (isRuleIds props → (iterated (Value.get props "propertyValues")).isSome) ∧
    ∀ key ∈ ["innerConditions", "itemConditions"], (iterated (Value.get props key)).isSome

/-- There is a result exactly when `P` holds, and it is `a`. -/
def Yields {α : Type} (x : Option α) (P : Prop) (a : α) : Prop := ∀ b, x = some b ↔ P ∧ a = b

theorem yields_some {α : Type} (a : α) : Yields (some a) True a := by
  intro b
  rw [Option.some.injEq, true_and]

theorem Yields.append {x y : Option (List String)} {P Q : Prop} {a b : List String}
    (hx : Yields x P a) (hy : Yields y Q b) :
    Yields (do return (← x) ++ (← y)) (P ∧ Q) (a ++ b) := by
  intro l
  constructor
  · intro h
    obtain ⟨u, hu, h⟩ := Option.bind_eq_some_iff.mp h
    obtain ⟨w, hw, h⟩ := Option.bind_eq_some_iff.mp h
    obtain ⟨hP, rfl⟩ := (hx u).mp hu
    obtain ⟨hQ, rfl⟩ := (hy w).mp hw
    exact ⟨⟨hP, hQ⟩, Option.some.inj h⟩
  · rintro ⟨⟨hP, hQ⟩, rfl⟩
    rw [(hx a).mpr ⟨hP, rfl⟩, (hy b).mpr ⟨hQ, rfl⟩]
    rfl

theorem Yields.congr {α : Type} {x : Option α} {P Q : Prop} {a b : α} (h : Yields x P a)
    (hPQ : P ↔ Q) (hab : a = b) : Yields x Q b := by
  intro c
  rw [h c, hPQ, hab]

/-- What the conditions `nodes` refer to. -/
def scannedAll (nodes : List (Document X)) : List String := nodes.flatMap scanned

theorem yields_valueRefs (props : Document X) :
    Yields (valueRefs props) (hashableName props ∧
      (isRuleIds props → (iterated (Value.get props "propertyValues")).isSome)) (scanned props) := by
  unfold valueRefs hashableName scanned
  generalize isRuleIds props = ids
  generalize Value.get props "propertyName" = name
  generalize iterated (Value.get props "propertyValues") = values
  intro b
  cases name <;> cases ids <;> cases values <;> simp

theorem yields_nestedRefs_of_ne_list {v : Value X} (hv : ∀ vs, v ≠ .list vs) :
    Yields (nestedRefs v) ((iterated v).isSome ∧ ∀ p ∈ visitedNested v, Scannable p)
      (scannedAll (visitedNested v)) := by
  have hrefs : nestedRefs v = (iterated v).map fun _ => [] := by
    cases v with
    | list vs => exact absurd rfl (hv vs)
    | null | bool | int | scalar | str | dict => simp only [nestedRefs]
  have hvisited : visitedNested v = [] := by
    cases v with
    | list vs => exact absurd rfl (hv vs)
    | null | bool | int | scalar | str | dict => simp only [visitedNested]
  rw [hrefs, hvisited]
  intro b
  cases iterated v <;> simp [scannedAll]

mutual

/-- The scan finds what is referred to in the places that are visited. -/
theorem yields_conditionRefs (v : Value X) :
    Yields (conditionRefs v) (∀ p ∈ visited v, Scannable p) (scannedAll (visited v)) := by
  match v with
  | .dict cond =>
    rw [conditionRefs, visited]
    exact yields_propertiesRefsAt cond
  | .null | .bool _ | .int _ | .scalar _ | .str _ | .list _ =>
    exact (yields_some []).congr (by simp [visited]) rfl

theorem yields_propertiesRefsAt (d : List (String × Value X)) :
    Yields (propertiesRefsAt d) (∀ p ∈ visitedAt d, Scannable p) (scannedAll (visitedAt d)) := by
  match d with
  | [] => exact (yields_some []).congr (by simp [visitedAt]) rfl
  | (k, v) :: rest =>
    rw [propertiesRefsAt, visitedAt]
    split_ifs
    · exact yields_propertiesRefs v
    · exact yields_propertiesRefsAt rest

theorem yields_propertiesRefs (v : Value X) :
    Yields (propertiesRefs v) (∀ p ∈ visitedProperties v, Scannable p)
      (scannedAll (visitedProperties v)) := by
  match v with
  | .dict props =>
    rw [propertiesRefs, visitedProperties]
    have hinner := yields_nestedRefsAt "innerConditions" props
    have hitem := yields_nestedRefsAt "itemConditions" props
    have hall := ((yields_valueRefs props).append hinner).append hitem
    have hsame : (do return (← valueRefs props) ++ (← nestedRefsAt "innerConditions" props) ++
          (← nestedRefsAt "itemConditions" props) : Option (List String)) =
        (valueRefs props >>= fun own => nestedRefsAt "innerConditions" props >>= fun inner =>
          pure (own ++ inner)) >>= fun refs =>
            nestedRefsAt "itemConditions" props >>= fun item => pure (refs ++ item) := by
      cases valueRefs props with
      | none => rfl
      | some own => cases nestedRefsAt "innerConditions" props <;> rfl
    rw [hsame]
    refine hall.congr ?_ ?_
    · rw [List.forall_mem_cons, List.forall_mem_append]
      simp only [Scannable, List.forall_mem_cons]
      tauto
    · rw [scannedAll, scannedAll, scannedAll, List.flatMap_cons, List.flatMap_append,
        List.append_assoc]
  | .null | .bool _ | .int _ | .scalar _ | .str _ | .list _ =>
    exact (yields_some []).congr (by simp [visitedProperties]) rfl

theorem yields_nestedRefsAt (key : String) (d : List (String × Value X)) :
    Yields (nestedRefsAt key d)
      ((iterated (Value.get d key)).isSome ∧ ∀ p ∈ visitedNestedAt key d, Scannable p)
      (scannedAll (visitedNestedAt key d)) := by
  match d with
  | [] => exact (yields_some []).congr (by simp [visitedNestedAt, Value.get, iterated, Dict.get?,
      Value.truthy]) rfl
  | (k, v) :: rest =>
    rw [nestedRefsAt, visitedNestedAt]
    split_ifs with hkey
    · subst hkey
      rw [Value.get, Dict.get?_cons_self]
      exact yields_nestedRefs v
    · rw [Value.get, Dict.get?_cons_ne hkey]
      exact yields_nestedRefsAt key rest

theorem yields_nestedRefs (v : Value X) :
    Yields (nestedRefs v) ((iterated v).isSome ∧ ∀ p ∈ visitedNested v, Scannable p)
      (scannedAll (visitedNested v)) := by
  match v with
  | .list vs =>
    rw [nestedRefs, visitedNested]
    exact (yields_conditionsRefs vs).congr (by simp [iterated]) rfl
  | .null | .bool _ | .int _ | .scalar _ | .str _ | .dict _ =>
    exact yields_nestedRefs_of_ne_list fun vs h => nomatch h

theorem yields_conditionsRefs (vs : List (Value X)) :
    Yields (conditionsRefs vs) (∀ p ∈ visitedConditions vs, Scannable p)
      (scannedAll (visitedConditions vs)) := by
  match vs with
  | [] => exact (yields_some []).congr (by simp [visitedConditions]) rfl
  | v :: vs =>
    rw [conditionsRefs, visitedConditions]
    refine ((yields_conditionRefs v).append (yields_conditionsRefs vs)).congr ?_ ?_
    · rw [List.forall_mem_append]
    · rw [scannedAll, scannedAll, scannedAll, List.flatMap_append]

end

end
end ContentOps.AutomationRule
