import ContentOps.Handlers.SentinelAutomationRule

/-! A condition that is collected and sent again: both directions walk the same places. -/

namespace ContentOps.AutomationRule
open PyData

section
variable {α β γ δ : Type}

/-- What comes out is, as `c` sees it, what there was. -/
def Kept (c : α → β) (x : Option α) (a : α) : Prop := ∃ out, x = some out ∧ c out = c a

theorem kept_pure (c : α → β) (a : α) : Kept c (some a) a := ⟨a, rfl, rfl⟩

theorem kept_some (c : α → β) (b a : α) : Kept c (some b) a ↔ c b = c a := by
  simp [Kept]

theorem kept_map {c : α → β} {c' : γ → δ} {f : α → γ} {x : Option α} {a : α}
    (h : ∀ out, x = some out → (c' (f out) = c' (f a) ↔ c out = c a)) :
    Kept c' (x.map f) (f a) ↔ Kept c x a := by
  constructor
  · rintro ⟨out, hout, heq⟩
    obtain ⟨out, hx, rfl⟩ := Option.map_eq_some_iff.mp hout
    exact ⟨out, hx, (h out hx).mp heq⟩
  · rintro ⟨out, hx, heq⟩
    exact ⟨f out, by rw [hx, Option.map_some], (h out hx).mpr heq⟩

theorem kept_cons {c : α → β} {x : Option α} {y : Option (List α)} {a : α} {as : List α} :
    Kept (List.map c) (x.bind fun v => y.map (v :: ·)) (a :: as) ↔
      Kept c x a ∧ Kept (List.map c) y as := by
  constructor
  · rintro ⟨out, hout, heq⟩
    obtain ⟨v, hv, hrest⟩ := Option.bind_eq_some_iff.mp hout
    obtain ⟨vs, hvs, rfl⟩ := Option.map_eq_some_iff.mp hrest
    obtain ⟨hhead, htail⟩ := List.cons.inj heq
    exact ⟨⟨v, hv, hhead⟩, vs, hvs, htail⟩
  · rintro ⟨⟨v, hv, hhead⟩, vs, hvs, htail⟩
    refine ⟨v :: vs, by rw [hv, hvs]; rfl, ?_⟩
    rw [List.map_cons, List.map_cons, hhead, htail]

theorem kept_mapM {c : α → β} (f : α → Option α) (as : List α) :
    Kept (List.map c) (as.mapM f) as ↔ ∀ a ∈ as, Kept c (f a) a := by
  induction as with
  | nil => exact iff_of_true (kept_pure _ _) (by simp)
  | cons a as ih =>
    have hcons : (a :: as).mapM f = (f a).bind fun v => (as.mapM f).map (v :: ·) := by
      rw [List.mapM_cons]
      cases f a with
      | none => rfl
      | some v => cases as.mapM f <;> rfl
    rw [hcons, kept_cons, ih, List.forall_mem_cons]

end

variable {X : Type}

/-! ## The values of a condition -/

def listed : Value X → List (Value X)
  | .list vs => vs
  | _ => []

mutual

/-- The values that are rewritten in a condition. -/
def ruleIdValues : Value X → List (Value X)
  | .dict cond => ruleIdValuesEntries cond
  | _ => []

def ruleIdValuesEntries : List (String × Value X) → List (Value X)
  | [] => []
  | (k, v) :: rest =>
    (if k = "conditionProperties" then ruleIdValuesProperties v else []) ++ ruleIdValuesEntries rest

def ruleIdValuesProperties : Value X → List (Value X)
  | .dict props => ruleIdValuesPropertiesEntries (isRuleIds props) props
  | _ => []

def ruleIdValuesPropertiesEntries (ruleIds : Bool) : List (String × Value X) → List (Value X)
  | [] => []
  | (k, v) :: rest =>
    (if k = "innerConditions" ∨ k = "itemConditions" then ruleIdValuesNested v
      else if k = "propertyValues" ∧ ruleIds then listed v
      else []) ++ ruleIdValuesPropertiesEntries ruleIds rest

def ruleIdValuesNested : Value X → List (Value X)
  | .list vs => ruleIdValuesConditions vs
  | _ => []

def ruleIdValuesConditions : List (Value X) → List (Value X)
  | [] => []
  | v :: vs => ruleIdValues v ++ ruleIdValuesConditions vs

end

/-! ## What a walk keeps -/

section
variable (leaf : Value X → Option (Value X))

theorem bind_bind_pure {α β γ : Type} (x : Option α) (y : Option β) (f : α → β → γ) :
    (x >>= fun a => y >>= fun b => pure (f a b)) = x.bind fun a => y.map (f a) := by
  cases x with
  | none => rfl
  | some a => cases y <;> rfl

theorem rewriteConditionEntries_cons (k : String) (v : Value X) (rest : List (String × Value X)) :
    rewriteConditionEntries leaf ((k, v) :: rest) =
      (if k = "conditionProperties" then rewriteProperties leaf v else some v).bind fun v =>
        (rewriteConditionEntries leaf rest).map ((k, v) :: ·) := by
  rw [rewriteConditionEntries]
  split_ifs
  · exact bind_bind_pure _ _ fun v rest => (k, v) :: rest
  · exact bind_bind_pure (some v) _ fun v rest => (k, v) :: rest

theorem rewritePropertiesEntries_cons (ruleIds : Bool) (k : String) (v : Value X)
    (rest : List (String × Value X)) :
    rewritePropertiesEntries leaf ruleIds ((k, v) :: rest) =
      (if k = "innerConditions" ∨ k = "itemConditions" then rewriteNested leaf v
        else if k = "propertyValues" ∧ ruleIds then rewriteValues leaf v
        else some v).bind fun v =>
          (rewritePropertiesEntries leaf ruleIds rest).map ((k, v) :: ·) := by
  rw [rewritePropertiesEntries]
  split_ifs
  · exact bind_bind_pure _ _ fun v rest => (k, v) :: rest
  · exact bind_bind_pure _ _ fun v rest => (k, v) :: rest
  · exact bind_bind_pure (some v) _ fun v rest => (k, v) :: rest

theorem rewriteConditions_cons (v : Value X) (vs : List (Value X)) :
    rewriteConditions leaf (v :: vs) =
      (rewriteCondition leaf v).bind fun v => (rewriteConditions leaf vs).map (v :: ·) := by
  rw [rewriteConditions]
  exact bind_bind_pure _ _ fun v vs => v :: vs

variable {leaf}

theorem keys_of_cons {x : Option (Value X)} {y : Option (List (String × Value X))} {k : String}
    {d out : List (String × Value X)} (h : (x.bind fun v => y.map ((k, v) :: ·)) = some out)
    (hrest : ∀ rest, y = some rest → Dict.keys rest = Dict.keys d) :
    Dict.keys out = k :: Dict.keys d := by
  obtain ⟨v, -, h⟩ := Option.bind_eq_some_iff.mp h
  obtain ⟨rest, hy, rfl⟩ := Option.map_eq_some_iff.mp h
  exact congrArg (k :: ·) (hrest rest hy)

theorem keys_rewriteConditionEntries {d out : List (String × Value X)}
    (h : rewriteConditionEntries leaf d = some out) : Dict.keys out = Dict.keys d := by
  induction d generalizing out with
  | nil =>
    obtain rfl := Option.some.inj h
    rfl
  | cons p d ih =>
    rw [rewriteConditionEntries_cons] at h
    exact keys_of_cons h fun rest hrest => ih hrest

theorem keys_rewritePropertiesEntries {ruleIds : Bool} {d out : List (String × Value X)}
    (h : rewritePropertiesEntries leaf ruleIds d = some out) : Dict.keys out = Dict.keys d := by
  induction d generalizing out with
  | nil =>
    obtain rfl := Option.some.inj h
    rfl
  | cons p d ih =>
    rw [rewritePropertiesEntries_cons] at h
    exact keys_of_cons h fun rest hrest => ih hrest

variable (c : String → String)

theorem kept_entries_cons {x : Option (Value X)} {y : Option (List (String × Value X))} {k : String}
    {v : Value X} {rest : List (String × Value X)} :
    Kept (Value.canonEntries c) (x.bind fun v => y.map ((k, v) :: ·)) ((k, v) :: rest) ↔
      Kept (Value.canon c) x v ∧ Kept (Value.canonEntries c) y rest := by
  constructor
  · rintro ⟨out, hout, heq⟩
    obtain ⟨w, hw, hrest⟩ := Option.bind_eq_some_iff.mp hout
    obtain ⟨ws, hws, rfl⟩ := Option.map_eq_some_iff.mp hrest
    obtain ⟨hhead, htail⟩ := List.cons.inj heq
    exact ⟨⟨w, hw, (Prod.mk.inj hhead).2⟩, ws, hws, htail⟩
  · rintro ⟨⟨w, hw, hhead⟩, ws, hws, htail⟩
    refine ⟨(k, w) :: ws, by rw [hw, hws]; rfl, ?_⟩
    rw [Value.canonEntries, Value.canonEntries, hhead, htail]

theorem kept_dict {x : Option (List (String × Value X))} {d : List (String × Value X)}
    (hnodup : (Dict.keys d).Nodup) (hkeys : ∀ out, x = some out → Dict.keys out = Dict.keys d) :
    Kept (Value.canon c) (x >>= fun d => pure (.dict d)) (.dict d) ↔
      Kept (Value.canonEntries c) x d := by
  have hmap : (x >>= fun d => pure (.dict d) : Option (Value X)) = x.map .dict := by
    cases x <;> rfl
  rw [hmap]
  exact kept_map fun out hout => Value.canon_dict_eq_iff_entries c (hkeys out hout) hnodup

theorem kept_list {x : Option (List (Value X))} {vs : List (Value X)} :
    Kept (Value.canon c) (x >>= fun vs => pure (.list vs)) (.list vs) ↔
      Kept (List.map (Value.canon c)) x vs := by
  have hmap : (x >>= fun vs => pure (.list vs) : Option (Value X)) = x.map .list := by
    cases x <;> rfl
  rw [hmap]
  refine kept_map fun out _ => ?_
  rw [Value.canon, Value.canon, Value.list.injEq, Value.canonItems_eq, Value.canonItems_eq]

theorem kept_rewriteValues (v : Value X) : Kept (Value.canon c) (rewriteValues leaf v) v ↔
    ∀ w ∈ listed v, Kept (Value.canon c) (leaf w) w := by
  cases v with
  | list vs => exact (kept_list c).trans (kept_mapM leaf vs)
  | null | bool | int | scalar | str | dict => exact iff_of_true (kept_pure _ _) (by simp [listed])

mutual

/-- A condition is kept when each of the values rewritten in it is. -/
theorem kept_rewriteCondition {v : Value X} (hwf : v.WF) :
    Kept (Value.canon c) (rewriteCondition leaf v) v ↔
      ∀ w ∈ ruleIdValues v, Kept (Value.canon c) (leaf w) w := by
  match v, hwf with
  | .dict cond, hwf =>
    rw [rewriteCondition, ruleIdValues,
      kept_dict c hwf.1 fun out hout => keys_rewriteConditionEntries hout]
    exact kept_rewriteConditionEntries hwf.2
  | .null, _ | .bool _, _ | .int _, _ | .scalar _, _ | .str _, _ | .list _, _ =>
    exact iff_of_true (kept_pure _ _) (by simp [ruleIdValues])

theorem kept_rewriteConditionEntries {d : List (String × Value X)} (hwf : Value.WFDict d) :
    Kept (Value.canonEntries c) (rewriteConditionEntries leaf d) d ↔
      ∀ w ∈ ruleIdValuesEntries d, Kept (Value.canon c) (leaf w) w := by
  match d, hwf with
  | [], _ => exact iff_of_true (kept_pure _ _) (by simp [ruleIdValuesEntries])
  | (k, v) :: rest, hwf =>
    have hrest := kept_rewriteConditionEntries hwf.2
    have hprops := kept_rewriteProperties hwf.1
    rw [rewriteConditionEntries_cons, kept_entries_cons, ruleIdValuesEntries, List.forall_mem_append,
      hrest]
    split_ifs
    · rw [hprops]
    · simp [kept_pure]

theorem kept_rewriteProperties {v : Value X} (hwf : v.WF) :
    Kept (Value.canon c) (rewriteProperties leaf v) v ↔
      ∀ w ∈ ruleIdValuesProperties v, Kept (Value.canon c) (leaf w) w := by
  match v, hwf with
  | .dict props, hwf =>
    rw [rewriteProperties, ruleIdValuesProperties,
      kept_dict c hwf.1 fun out hout => keys_rewritePropertiesEntries hout]
    exact kept_rewritePropertiesEntries (isRuleIds props) hwf.2
  | .null, _ | .bool _, _ | .int _, _ | .scalar _, _ | .str _, _ | .list _, _ =>
    exact iff_of_true (kept_pure _ _) (by simp [ruleIdValuesProperties])

theorem kept_rewritePropertiesEntries (ruleIds : Bool) {d : List (String × Value X)}
    (hwf : Value.WFDict d) :
    Kept (Value.canonEntries c) (rewritePropertiesEntries leaf ruleIds d) d ↔
      ∀ w ∈ ruleIdValuesPropertiesEntries ruleIds d, Kept (Value.canon c) (leaf w) w := by
  match d, hwf with
  | [], _ => exact iff_of_true (kept_pure _ _) (by simp [ruleIdValuesPropertiesEntries])
  | (k, v) :: rest, hwf =>
    have hrest := kept_rewritePropertiesEntries ruleIds hwf.2
    have hnested := kept_rewriteNested hwf.1
    rw [rewritePropertiesEntries_cons, kept_entries_cons, ruleIdValuesPropertiesEntries,
      List.forall_mem_append, hrest]
    split_ifs
    · rw [hnested]
    · rw [kept_rewriteValues]
    · simp [kept_pure]

theorem kept_rewriteNested {v : Value X} (hwf : v.WF) :
    Kept (Value.canon c) (rewriteNested leaf v) v ↔
      ∀ w ∈ ruleIdValuesNested v, Kept (Value.canon c) (leaf w) w := by
  match v, hwf with
  | .list vs, hwf =>
    rw [rewriteNested, ruleIdValuesNested, kept_list]
    exact kept_rewriteConditions hwf
  | .null, _ | .bool _, _ | .int _, _ | .scalar _, _ | .str _, _ | .dict _, _ =>
    exact iff_of_true (kept_pure _ _) (by simp [ruleIdValuesNested])

theorem kept_rewriteConditions {vs : List (Value X)} (hwf : Value.WFList vs) :
    Kept (List.map (Value.canon c)) (rewriteConditions leaf vs) vs ↔
      ∀ w ∈ ruleIdValuesConditions vs, Kept (Value.canon c) (leaf w) w := by
  match vs, hwf with
  | [], _ => exact iff_of_true (kept_pure _ _) (by simp [ruleIdValuesConditions])
  | v :: vs, hwf =>
    have hhead := kept_rewriteCondition hwf.1
    have htail := kept_rewriteConditions hwf.2
    rw [rewriteConditions_cons, kept_cons, ruleIdValuesConditions, List.forall_mem_append, hhead, htail]

end

end

/-! ## One walk after the other -/

section
variable (f : Value X → Value X) (g : Value X → Option (Value X))

theorem rewriteConditionEntries_id_cons (k : String) (v : Value X) (rest : List (String × Value X)) :
    rewriteConditionEntries (m := Id) f ((k, v) :: rest) =
      (k, if k = "conditionProperties" then rewriteProperties (m := Id) f v else v) ::
        rewriteConditionEntries (m := Id) f rest := by
  rw [rewriteConditionEntries]
  split_ifs <;> rfl

theorem rewritePropertiesEntries_id_cons (ruleIds : Bool) (k : String) (v : Value X)
    (rest : List (String × Value X)) :
    rewritePropertiesEntries (m := Id) f ruleIds ((k, v) :: rest) =
      (k, if k = "innerConditions" ∨ k = "itemConditions" then rewriteNested (m := Id) f v
        else if k = "propertyValues" ∧ ruleIds then rewriteValues (m := Id) f v else v) ::
        rewritePropertiesEntries (m := Id) f ruleIds rest := by
  rw [rewritePropertiesEntries]
  split_ifs <;> rfl

/-- A walk leaves the name of the property alone. -/
theorem isRuleIds_rewritePropertiesEntries (ruleIds : Bool) (props : List (String × Value X)) :
    isRuleIds (rewritePropertiesEntries (m := Id) f ruleIds props) = isRuleIds props := by
  have hget : Dict.get? (rewritePropertiesEntries (m := Id) f ruleIds props) "propertyName" =
      Dict.get? props "propertyName" := by
    induction props with
    | nil => rfl
    | cons p props ih =>
      obtain ⟨k, v⟩ := p
      rw [rewritePropertiesEntries_id_cons]
      by_cases hk : k = "propertyName"
      · subst hk
        simp
      · rw [Dict.get?_cons_ne hk, Dict.get?_cons_ne hk]
        exact ih
  unfold isRuleIds Value.get
  rw [hget]

theorem mapM_id_mapM (vs : List (Value X)) :
    (vs.mapM (m := Id) f).mapM g = vs.mapM fun v => g (f v) := by
  have hid : vs.mapM (m := Id) f = vs.map f := List.idRun_mapM ..
  rw [hid, List.mapM_map]
  rfl

theorem rewriteValues_comp (v : Value X) :
    rewriteValues g (rewriteValues (m := Id) f v) = rewriteValues (fun v => g (f v)) v := by
  cases v with
  | list vs =>
    have hid : rewriteValues (m := Id) f (.list vs) = .list (vs.mapM (m := Id) f) := rfl
    rw [hid, rewriteValues, rewriteValues, mapM_id_mapM]
  | null | bool | int | scalar | str | dict => rfl

mutual

/-- Rewriting every value twice is one walk. -/
theorem rewriteCondition_comp (v : Value X) :
    rewriteCondition g (rewriteCondition (m := Id) f v) = rewriteCondition (fun v => g (f v)) v := by
  match v with
  | .dict cond =>
    have hid : rewriteCondition (m := Id) f (.dict cond) =
      .dict (rewriteConditionEntries (m := Id) f cond) := by rw [rewriteCondition]; rfl
    rw [hid, rewriteCondition, rewriteCondition, rewriteConditionEntries_comp cond]
  | .null | .bool _ | .int _ | .scalar _ | .str _ | .list _ => rfl

theorem rewriteConditionEntries_comp (d : List (String × Value X)) :
    rewriteConditionEntries g (rewriteConditionEntries (m := Id) f d) =
      rewriteConditionEntries (fun v => g (f v)) d := by
  match d with
  | [] => rfl
  | (k, v) :: rest =>
    rw [rewriteConditionEntries_id_cons, rewriteConditionEntries_cons, rewriteConditionEntries_cons,
      rewriteConditionEntries_comp rest]
    split_ifs
    · rw [rewriteProperties_comp v]
    · rfl

theorem rewriteProperties_comp (v : Value X) :
    rewriteProperties g (rewriteProperties (m := Id) f v) =
      rewriteProperties (fun v => g (f v)) v := by
  match v with
  | .dict props =>
    have hid : rewriteProperties (m := Id) f (.dict props) =
      .dict (rewritePropertiesEntries (m := Id) f (isRuleIds props) props) := by
      rw [rewriteProperties]; rfl
    rw [hid, rewriteProperties, rewriteProperties, isRuleIds_rewritePropertiesEntries,
      rewritePropertiesEntries_comp (isRuleIds props) props]
  | .null | .bool _ | .int _ | .scalar _ | .str _ | .list _ => rfl

theorem rewritePropertiesEntries_comp (ruleIds : Bool) (d : List (String × Value X)) :
    rewritePropertiesEntries g ruleIds (rewritePropertiesEntries (m := Id) f ruleIds d) =
      rewritePropertiesEntries (fun v => g (f v)) ruleIds d := by
  match d with
  | [] => rfl
  | (k, v) :: rest =>
    rw [rewritePropertiesEntries_id_cons, rewritePropertiesEntries_cons,
      rewritePropertiesEntries_cons, rewritePropertiesEntries_comp ruleIds rest]
    split_ifs
    · rw [rewriteNested_comp v]
    · rw [rewriteValues_comp]
    · rfl

theorem rewriteNested_comp (v : Value X) :
    rewriteNested g (rewriteNested (m := Id) f v) = rewriteNested (fun v => g (f v)) v := by
  match v with
  | .list vs =>
    have hid : rewriteNested (m := Id) f (.list vs) = .list (rewriteConditions (m := Id) f vs) := by
      rw [rewriteNested]; rfl
    rw [hid, rewriteNested, rewriteNested, rewriteConditions_comp vs]
  | .null | .bool _ | .int _ | .scalar _ | .str _ | .dict _ => rfl

theorem rewriteConditions_comp (vs : List (Value X)) :
    rewriteConditions g (rewriteConditions (m := Id) f vs) =
      rewriteConditions (fun v => g (f v)) vs := by
  match vs with
  | [] => rfl
  | v :: vs =>
    have hid : rewriteConditions (m := Id) f (v :: vs) =
      rewriteCondition (m := Id) f v :: rewriteConditions (m := Id) f vs := by
      rw [rewriteConditions]; rfl
    rw [hid, rewriteConditions_cons, rewriteConditions_cons, rewriteCondition_comp v,
      rewriteConditions_comp vs]

end

end
end ContentOps.AutomationRule
