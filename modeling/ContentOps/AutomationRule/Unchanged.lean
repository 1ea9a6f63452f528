import ContentOps.AutomationRule.References

/-! When an automation rule that is collected and applied again is sent as it was. -/

namespace ContentOps.AutomationRule
open PyData

namespace Handler
section
variable {X : Type} (h : Handler)

/-- What `apply` sends for the envelope that `collect` makes of a rule. -/
def sentBack (remote : Document X) : Option (Document X) :=
  (h.toEnvelope remote).bind fun envelope =>
    h.armProperties (((Value.get envelope "payload").dict?).getD [])

/-- The properties up to the order of keys, the format of the expiration and the letter case of
subscriptions, groups and workspaces. -/
def canonRule (properties : Document X) : Value X :=
  .canon h.canonId (.dict (properties.set "triggeringLogic"
    (.dict (h.normalizedLogic (triggeringLogic properties)))))

def Unchanged (remote : Document X) : Prop :=
  Kept h.canonRule (h.sentBack remote) (remoteProperties remote)

def conditionsOf (properties : Document X) : List (Value X) :=
  items (Value.get (triggeringLogic properties) "conditions")

def actionsOf (properties : Document X) : List (Document X) :=
  (items (Value.get properties "actions")).map fun a => (a.dict?).getD []

/-- What of `SentinelAutomationRulePayload` counts for the way back. -/
structure Validates (properties : Document X) : Prop where
  keys : ∀ k ∈ Dict.keys properties, k ∈ ["displayName", "order", "triggeringLogic", "actions"]
  displayName : ∃ s, Dict.get? properties "displayName" = some (.str s)
  order : ∃ v, Dict.get? properties "order" = some v
  logic : ∃ d, Dict.get? properties "triggeringLogic" = some (.dict d)
  conditions : ∀ v, Dict.get? (triggeringLogic properties) "conditions" = some v →
    ∃ vs, v = .list vs
  actions : ∃ vs, Dict.get? properties "actions" = some (.list vs) ∧ ∀ v ∈ vs, ∃ a, v = .dict a
  configuration : ∀ a ∈ actionsOf properties, ∃ cfg,
    Dict.get? a "actionConfiguration" = some (.dict cfg) ∧
      (Value.textAt a "actionType" = "RunPlaybook" →
        (Value.textAt cfg "playbook" = "" ↔ Value.textAt cfg "logicAppResourceId" ≠ ""))

/-- Every Logic App and every rule id of a rule comes back. -/
structure ComesBack (properties : Document X) : Prop where
  listed : "conditions" ∈ Dict.keys (triggeringLogic properties)
  values : ∀ cond ∈ conditionsOf properties, ∀ v ∈ ruleIdValues cond, h.ValueKept v
  actions : ∀ action ∈ actionsOf properties, h.ActionKept action

variable {h}

/-! ## The triggering logic -/

variable (h) in
def normalizedValue : Value X → Value X
  | .str s => if s = "" then .str s else .str (h.times.normalize s)
  | v => v

theorem normalizedValue_normalizedValue (v : Value X) :
    h.normalizedValue (h.normalizedValue v) = h.normalizedValue v := by
  cases v with
  | str s =>
    unfold normalizedValue
    by_cases hs : s = ""
    · simp [hs]
    · simp only [hs, if_false]
      split_ifs with hempty
      · rfl
      · rw [Expirations.normalize_normalize]
  | null | bool | int | scalar | list | dict => rfl

theorem get?_normalizedLogic (d : Document X) (k : String) :
    Dict.get? (h.normalizedLogic d) k =
      if "expirationTimeUtc" = k then (Dict.get? d k).map h.normalizedValue else Dict.get? d k := by
  unfold normalizedLogic Value.get
  cases hget : Dict.get? d "expirationTimeUtc" with
  | none =>
    split_ifs with hk
    · rw [← hk, hget]
      exact hget
    · rfl
  | some v =>
    cases v with
    | str s =>
      simp only [Option.getD_some]
      by_cases hs : s = ""
      · rw [if_pos hs]
        split_ifs with hk
        · rw [← hk, hget]
          simp [normalizedValue, hs]
        · rfl
      · rw [if_neg hs, Dict.get?_set]
        split_ifs with hk
        · rw [← hk, hget]
          simp [normalizedValue, hs]
        · rfl
    | null | bool | int | scalar | list | dict =>
      split_ifs with hk
      · rw [← hk, hget]
        exact hget
      · rfl

theorem nodup_normalizedLogic {d : Document X} (hd : (Dict.keys d).Nodup) :
    (Dict.keys (h.normalizedLogic d)).Nodup := by
  unfold normalizedLogic
  split
  · split_ifs
    · exact hd
    · exact Dict.nodup_keys_set hd _ _
  · exact hd

/-- The logic that is sent, with the conditions put back into it. -/
theorem canon_logic_iff {d : Document X} (hd : (Dict.keys d).Nodup) (collected sent : List (Value X))
    (hlist : ∀ v, Dict.get? d "conditions" = some v → ∃ vs, v = .list vs) :
    Value.canon h.canonId (.dict (h.normalizedLogic ((h.normalizedLogic ((h.normalizedLogic d).set
        "conditions" (.list collected))).set "conditions" (.list sent)))) =
      Value.canon h.canonId (.dict (h.normalizedLogic d)) ↔
      "conditions" ∈ Dict.keys d ∧
        sent.map (Value.canon h.canonId) =
          (items (Value.get d "conditions")).map (Value.canon h.canonId) := by
  have hget : ∀ k, Dict.get? (h.normalizedLogic ((h.normalizedLogic ((h.normalizedLogic d).set
      "conditions" (.list collected))).set "conditions" (.list sent))) k =
      if "conditions" = k then some (.list sent) else Dict.get? (h.normalizedLogic d) k := by
    intro k
    by_cases hcond : "conditions" = k
    · subst hcond
      rw [if_pos rfl, get?_normalizedLogic, if_neg (by decide), Dict.get?_set_self]
    · rw [if_neg hcond, get?_normalizedLogic, Dict.get?_set, if_neg hcond, get?_normalizedLogic,
        Dict.get?_set, if_neg hcond, get?_normalizedLogic]
      split_ifs
      · simp [Function.comp_def, normalizedValue_normalizedValue]
      · rfl
  have hcond : Dict.get? (h.normalizedLogic d) "conditions" = Dict.get? d "conditions" := by
    rw [get?_normalizedLogic, if_neg (by decide)]
  rw [Value.canon_dict_eq_iff _ (nodup_normalizedLogic (Dict.nodup_keys_set (nodup_normalizedLogic
    (Dict.nodup_keys_set (nodup_normalizedLogic hd) _ _)) _ _)) (nodup_normalizedLogic hd)]
  simp only [hget]
  constructor
  · intro hall
    have hk := hall "conditions"
    rw [if_pos rfl, hcond] at hk
    cases hgetd : Dict.get? d "conditions" with
    | none => simp [hgetd] at hk
    | some v =>
      obtain ⟨vs, rfl⟩ := hlist v hgetd
      refine ⟨Dict.mem_keys_of_get? hgetd, ?_⟩
      simpa [hgetd, Value.get, items, Value.canon, Value.canonItems_eq] using hk
  · rintro ⟨hmem, heq⟩ k
    split_ifs with hk
    · rw [← hk, hcond]
      cases hgetd : Dict.get? d "conditions" with
      | none => exact absurd hmem (Dict.get?_eq_none_iff.mp hgetd)
      | some v =>
        obtain ⟨vs, rfl⟩ := hlist v hgetd
        simpa [hgetd, Value.get, items, Value.canon, Value.canonItems_eq] using heq
    · rfl

/-! ## The whole rule -/

variable (h) in
/-- The properties that are sent, with these conditions. -/
def sentProperties (properties : Document X) (conditions : List (Value X)) : Document X :=
  [("displayName", .str (Value.textAt properties "displayName")),
    ("order", (Dict.get? properties "order").getD (.int 1)),
    ("triggeringLogic", .dict ((h.normalizedLogic ((h.normalizedLogic
      (triggeringLogic properties)).set "conditions"
        (.list ((conditionsOf properties).map h.reverseCondition)))).set "conditions"
          (.list conditions))),
    ("actions", .list ((actionsOf properties).map fun a =>
      .dict (h.resolveAction (h.reverseAction a))))]

/-- One walk over the conditions makes the properties that are sent. -/
theorem armProperties_envelopePayload (properties : Document X) :
    h.armProperties (h.envelopePayload properties) =
      ((conditionsOf properties).mapM fun c => h.resolveCondition (h.reverseCondition c)).map
        (h.sentProperties properties) := by
  let collected : List (Value X) := (conditionsOf properties).map h.reverseCondition
  have hitems : items (Value.get (h.normalizedLogic (triggeringLogic properties)) "conditions") =
      conditionsOf properties := by
    rw [Value.get, get?_normalizedLogic, if_neg (by decide)]
    rfl
  have hlogic : triggeringLogic (h.envelopePayload properties) =
      (h.normalizedLogic (triggeringLogic properties)).set "conditions" (.list collected) := by
    change (h.normalizedLogic (triggeringLogic properties)).set "conditions"
      (.list ((items (Value.get (h.normalizedLogic (triggeringLogic properties)) "conditions")).map
        h.reverseCondition)) = _
    rw [hitems]
  have hconditions : items (Value.get (h.normalizedLogic ((h.normalizedLogic
      (triggeringLogic properties)).set "conditions" (.list collected))) "conditions") =
      collected := by
    rw [Value.get, get?_normalizedLogic, if_neg (by decide), Dict.get?_set_self]
    rfl
  have hactions : (items (Value.get (h.envelopePayload properties) "actions")).map
      (fun a => (.dict (h.resolveAction ((a.dict?).getD [])) : Value X)) =
      (actionsOf properties).map fun a => .dict (h.resolveAction (h.reverseAction a)) := by
    change (((items (Value.get properties "actions")).map fun a =>
      (.dict (h.reverseAction ((a.dict?).getD [])) : Value X)).map _) = _
    rw [actionsOf, List.map_map, List.map_map]
    rfl
  have hname : Dict.get? (h.envelopePayload properties) "displayName" =
      some (.str (Value.textAt properties "displayName")) := rfl
  have horder : Dict.get? (h.envelopePayload properties) "order" =
      some ((Dict.get? properties "order").getD (.int 1)) := rfl
  have hwalk : collected.mapM h.resolveCondition =
      (conditionsOf properties).mapM fun c => h.resolveCondition (h.reverseCondition c) :=
    List.mapM_map
  unfold armProperties
  rw [hname, horder, hlogic, hactions]
  dsimp only
  rw [hconditions, hwalk]
  cases (conditionsOf properties).mapM fun c => h.resolveCondition (h.reverseCondition c) <;> rfl

theorem sentBack_eq {remote envelope : Document X} (henv : h.toEnvelope remote = some envelope) :
    h.sentBack remote = h.armProperties (h.envelopePayload (remoteProperties remote)) := by
  rw [sentBack, henv]
  unfold toEnvelope at henv
  dsimp only at henv
  split_ifs at henv
  all_goals
    obtain rfl := Option.some.inj henv
    rfl

theorem canon_actions_iff {actions : List (Document X)}
    (hwf : ∀ a ∈ actions, (Value.dict a : Value X).WF)
    (hconf : ∀ a ∈ actions, ∃ cfg, Dict.get? a "actionConfiguration" = some (.dict cfg) ∧
      (Value.textAt a "actionType" = "RunPlaybook" →
        (Value.textAt cfg "playbook" = "" ↔ Value.textAt cfg "logicAppResourceId" ≠ ""))) :
    Value.canon h.canonId (.list (actions.map fun a => .dict (h.resolveAction (h.reverseAction a)))) =
      Value.canon h.canonId (.list (actions.map .dict)) ↔ ∀ a ∈ actions, h.ActionKept a := by
  rw [Value.canon, Value.canon, Value.list.injEq, Value.canonItems_eq, Value.canonItems_eq,
    List.map_map, List.map_map, List.map_inj_left]
  refine forall₂_congr fun a ha => ?_
  obtain ⟨cfg, hcfg, hone⟩ := hconf a ha
  have hparts := Value.wf_dict_iff.mp (hwf a ha)
  have hcfgwf := Value.wf_dict_iff.mp (hparts.2 _ (Dict.mem_of_get? hcfg))
  exact action_kept_iff hparts.1 hcfg hcfgwf.1 hone

theorem wf_of_mem_conditionsOf {properties : Document X} (hwf : (Value.dict properties).WF)
    {cond : Value X} (hcond : cond ∈ conditionsOf properties) : cond.WF := by
  have hchild : ∀ {v : Value X} (_ : v.WF) (k : String), (Value.get ((v.dict?).getD []) k).WF := by
    intro v hv k
    cases v with
    | dict d =>
      rw [Value.dict?, Option.getD_some, Value.get]
      cases hget : Dict.get? d k with
      | none => exact Value.wf_null
      | some w => exact (Value.wf_dict_iff.mp hv).2 _ (Dict.mem_of_get? hget)
    | null | bool | int | scalar | str | list => exact Value.wf_null
  have hlist := hchild (hchild hwf "triggeringLogic") "conditions"
  unfold conditionsOf triggeringLogic items at hcond
  split at hcond
  · next vs heq =>
    change (Value.get (((Value.get properties "triggeringLogic").dict?).getD []) "conditions").WF
      at hlist
    rw [heq] at hlist
    exact Value.wf_list_iff.mp hlist cond hcond
  · exact absurd hcond (by simp)

/-- The properties that are sent are those of the rule when their logic and their actions are. -/
theorem canonRule_sentProperties {properties : Document X} (hwf : (Value.dict properties).WF)
    (hvalid : Validates properties) (conditions : List (Value X)) :
    h.canonRule (h.sentProperties properties conditions) = h.canonRule properties ↔
      ("conditions" ∈ Dict.keys (triggeringLogic properties) ∧
        conditions.map (Value.canon h.canonId) =
          (conditionsOf properties).map (Value.canon h.canonId)) ∧
        ∀ action ∈ actionsOf properties, h.ActionKept action := by
  obtain ⟨name, hname⟩ := hvalid.displayName
  obtain ⟨order, horder⟩ := hvalid.order
  obtain ⟨d, hlogic⟩ := hvalid.logic
  obtain ⟨vs, hactions, hdicts⟩ := hvalid.actions
  obtain ⟨hnodup, hvalues⟩ := Value.wf_dict_iff.mp hwf
  have hd : triggeringLogic properties = d := by
    rw [triggeringLogic, Value.get, hlogic]
    rfl
  have hdwf := Value.wf_dict_iff.mp (hvalues _ (Dict.mem_of_get? hlogic))
  have hvs : vs = (actionsOf properties).map .dict := by
    rw [actionsOf, Value.get, hactions, List.map_map]
    refine (List.map_id vs).symm.trans (List.map_congr_left fun v hv => ?_)
    obtain ⟨a, rfl⟩ := hdicts v hv
    rfl
  have hactionswf : ∀ a ∈ actionsOf properties, (Value.dict a : Value X).WF := fun a ha =>
    (Value.wf_list_iff.mp (hvalues _ (Dict.mem_of_get? hactions))) _ (hvs ▸ List.mem_map_of_mem ha)
  have hlogic_iff := canon_logic_iff (h := h) hdwf.1 ((conditionsOf properties).map h.reverseCondition)
    conditions (hd ▸ hvalid.conditions)
  have hactions_iff := canon_actions_iff (h := h) hactionswf hvalid.configuration
  rw [← hvs] at hactions_iff
  have hsent : ∀ k, Dict.get? ((h.sentProperties properties conditions).set "triggeringLogic"
      (.dict (h.normalizedLogic (triggeringLogic (h.sentProperties properties conditions))))) k =
      if "displayName" = k then some (.str name) else if "order" = k then some order
      else if "triggeringLogic" = k then some (.dict (h.normalizedLogic ((h.normalizedLogic
        ((h.normalizedLogic d).set "conditions" (.list ((conditionsOf properties).map
          h.reverseCondition)))).set "conditions" (.list conditions))))
      else if "actions" = k then some (.list ((actionsOf properties).map fun a =>
        .dict (h.resolveAction (h.reverseAction a))))
      else none := by
    intro k
    have hname' : Value.textAt properties "displayName" = name := by rw [Value.textAt, hname]
    rw [← hd, ← hname', show order = (Dict.get? properties "order").getD (.int 1) by rw [horder]; rfl]
    change Dict.get? [("displayName", _), ("order", _), ("triggeringLogic", _), ("actions", _)] k = _
    rw [Dict.get?_cons, Dict.get?_cons, Dict.get?_cons, Dict.get?_cons, Dict.get?_nil]
    rfl
  have hkeys : (Dict.keys ((h.sentProperties properties conditions).set "triggeringLogic"
      (.dict (h.normalizedLogic (triggeringLogic (h.sentProperties properties conditions)))))).Nodup := by
    refine Dict.nodup_keys_set ?_ _ _
    change ["displayName", "order", "triggeringLogic", "actions"].Nodup
    decide
  unfold canonRule
  rw [Value.canon_dict_eq_iff _ hkeys (Dict.nodup_keys_set hnodup _ _)]
  simp only [hsent, Dict.get?_set, hd]
  rw [← hactions_iff]
  constructor
  · intro hall
    have hlog := hall "triggeringLogic"
    have hact := hall "actions"
    rw [if_neg (by decide), if_neg (by decide), if_pos rfl, if_pos rfl] at hlog
    rw [if_neg (by decide), if_neg (by decide), if_neg (by decide), if_pos rfl, if_neg (by decide),
      hactions] at hact
    refine ⟨?_, Option.some.inj hact⟩
    have := hlogic_iff.mp (Option.some.inj hlog)
    rwa [conditionsOf, hd]
  · rintro ⟨hcond, hact⟩ k
    rw [conditionsOf, hd] at hcond
    by_cases h1 : "displayName" = k
    · rw [← h1, if_pos rfl, if_neg (by decide), hname]
    by_cases h2 : "order" = k
    · rw [← h2, if_neg (by decide), if_pos rfl, if_neg (by decide), horder]
    by_cases h3 : "triggeringLogic" = k
    · rw [← h3, if_neg (by decide), if_neg (by decide), if_pos rfl, if_pos rfl, Option.map_some,
        Option.map_some, hlogic_iff.mpr hcond]
    by_cases h4 : "actions" = k
    · rw [← h4, if_neg (by decide), if_neg (by decide), if_neg (by decide), if_pos rfl,
        if_neg (by decide), hactions, Option.map_some, Option.map_some, hact]
    have hnone : Dict.get? properties k = none := by
      refine Dict.get?_eq_none_iff.mpr fun hk => ?_
      have hmem := hvalid.keys k hk
      simp only [List.mem_cons, List.not_mem_nil, or_false] at hmem
      rcases hmem with rfl | rfl | rfl | rfl
      exacts [h1 rfl, h2 rfl, h3 rfl, h4 rfl]
    rw [if_neg h1, if_neg h2, if_neg h3, if_neg h4, if_neg h3, hnone]

theorem kept_conditions_iff {properties : Document X} (hwf : (Value.dict properties).WF) :
    Kept (List.map (Value.canon h.canonId))
      ((conditionsOf properties).mapM fun c => h.resolveCondition (h.reverseCondition c))
      (conditionsOf properties) ↔
      ∀ cond ∈ conditionsOf properties, ∀ v ∈ ruleIdValues cond, h.ValueKept v := by
  rw [kept_mapM]
  exact forall₂_congr fun cond hcond => kept_condition_iff (wf_of_mem_conditionsOf hwf hcond)

theorem comesBack_of_unchanged {remote : Document X} (henv : (h.toEnvelope remote).isSome)
    (hwf : (Value.dict (remoteProperties remote)).WF) (hvalid : Validates (remoteProperties remote))
    (hunchanged : h.Unchanged remote) : h.ComesBack (remoteProperties remote) := by
  obtain ⟨envelope, henv⟩ := Option.isSome_iff_exists.mp henv
  obtain ⟨sent, hsent, heq⟩ := hunchanged
  rw [sentBack_eq henv, armProperties_envelopePayload] at hsent
  obtain ⟨conditions, hconditions, rfl⟩ := Option.map_eq_some_iff.mp hsent
  obtain ⟨⟨hlisted, hsame⟩, hactions⟩ := (canonRule_sentProperties hwf hvalid conditions).mp heq
  exact ⟨hlisted, (kept_conditions_iff hwf).mp ⟨conditions, hconditions, hsame⟩, hactions⟩

/-- A rule that is collected and applied again is sent as it was exactly when all its references
come back. -/
theorem unchanged_iff_comesBack {remote : Document X} (henv : (h.toEnvelope remote).isSome)
    (hwf : (Value.dict (remoteProperties remote)).WF) (hvalid : Validates (remoteProperties remote)) :
    h.Unchanged remote ↔ h.ComesBack (remoteProperties remote) := by
  refine ⟨comesBack_of_unchanged henv hwf hvalid, fun hback => ?_⟩
  obtain ⟨envelope, henv⟩ := Option.isSome_iff_exists.mp henv
  obtain ⟨conditions, hconditions, hsame⟩ := (kept_conditions_iff hwf).mpr hback.values
  refine ⟨h.sentProperties (remoteProperties remote) conditions, ?_, ?_⟩
  · rw [sentBack_eq henv, armProperties_envelopePayload, hconditions, Option.map_some]
  · exact (canonRule_sentProperties hwf hvalid conditions).mpr ⟨⟨hback.listed, hsame⟩, hback.actions⟩

end

/-! ## A Logic App with capital letters -/

def noTimes : Expirations where
  Time := Empty
  parse := fun _ => none
  strftime := Empty.elim
  past := Empty.elim
  stable := Empty.rec

def socHandler : Handler where
  toLowerCase := asciiCase
  times := noTimes
  subscriptionId := "sub"
  resourceGroup := "sentinel"
  workspaceName := "soc"
  playbooksResourceGroup := "playbooks"
  tenantId := some "tenant"
  analytics := []

def notifyConfiguration : Document Empty :=
  [("logicAppResourceId", .str
      "/subscriptions/sub/resourceGroups/playbooks/providers/Microsoft.Logic/workflows/Notify_SOC"),
    ("tenantId", .str "tenant")]

def notifyRule : Document Empty :=
  [("name", .str "rule"), ("properties", .dict
    [("displayName", .str "Notify the SOC"), ("order", .int 1),
      ("triggeringLogic", .dict [("isEnabled", .bool true), ("triggersOn", .str "Incidents"),
        ("triggersWhen", .str "Created"), ("conditions", .list [])]),
      ("actions", .list [.dict [("order", .int 1), ("actionType", .str "RunPlaybook"),
        ("actionConfiguration", .dict notifyConfiguration)]])])]

theorem wf_notifyRule : (Value.dict (remoteProperties notifyRule)).WF := by
  simp [notifyRule, remoteProperties, stripServerFields, serverPropertyFields, notifyConfiguration,
    Value.WF, Value.WFDict, Value.WFList, Value.get, Dict.get?, Value.dict?, Dict.keys]

theorem validates_notifyRule : Validates (remoteProperties notifyRule) where
  keys := by decide
  displayName := ⟨_, rfl⟩
  order := ⟨_, rfl⟩
  logic := ⟨_, rfl⟩
  conditions := by
    rintro v hv
    obtain rfl := Option.some.inj hv
    exact ⟨[], rfl⟩
  actions := ⟨_, rfl, by
    intro v hv
    obtain rfl := List.mem_singleton.mp hv
    exact ⟨_, rfl⟩⟩
  configuration := by
    intro a ha
    obtain rfl := List.mem_singleton.mp ha
    exact ⟨notifyConfiguration, rfl, fun _ => by decide⟩

theorem toEnvelope_notifyRule : (socHandler.toEnvelope notifyRule).isSome := by decide +kernel

/-- Collected as `playbook: notify-soc`, the action is sent for the workflow `notify-soc`. -/
theorem notifyRule_changed :
    (socHandler.toEnvelope notifyRule).isSome ∧ (Value.dict (remoteProperties notifyRule)).WF ∧
      Validates (remoteProperties notifyRule) ∧ ¬ socHandler.Unchanged notifyRule := by
  refine ⟨toEnvelope_notifyRule, wf_notifyRule, validates_notifyRule, fun hunchanged => ?_⟩
  have hback := comesBack_of_unchanged toEnvelope_notifyRule wf_notifyRule validates_notifyRule hunchanged
  have htarget : socHandler.TargetKept notifyConfiguration :=
    hback.actions _ (List.mem_singleton.mpr rfl) (by decide)
  obtain ⟨⟨sub, rg, hparts, -⟩, -⟩ := htarget.2 "notify-soc" (by decide +kernel)
  have hname : logicAppParts (Value.textAt notifyConfiguration "logicAppResourceId") =
      some ("sub", "playbooks", "Notify_SOC") := by decide +kernel
  simpa using hname.symm.trans hparts

theorem unchanged_iff_comesBack_notifyRule :
    socHandler.Unchanged notifyRule ↔ socHandler.ComesBack (remoteProperties notifyRule) :=
  unchanged_iff_comesBack toEnvelope_notifyRule wf_notifyRule validates_notifyRule

end Handler
end ContentOps.AutomationRule
