import ContentOps.AutomationRule.ResourceIds

/-! What becomes of the references of a rule that is collected and sent again: the rule ids of its
conditions and the Logic Apps of its actions. -/

namespace ContentOps.AutomationRule
open PyData

namespace Handler
section
variable {X : Type} (h : Handler)

/-! ## The values of a condition -/

/-- A rule id of a known analytic is written as the handler writes it, and nothing passes for a
reference. -/
def ValueKept : Value X → Prop
  | .str v => ¬ analyticRefPrefix <+: v.toList ∧
      ∀ workspace arm eid, alertRuleParts v = some (workspace, arm) →
        h.lower workspace = h.lower h.workspacePath → h.byArm.get? arm = some eid → eid ≠ "" →
          v = analyticRuleResourceId workspace arm
  | _ => True

variable {h}

/-- However many analytics have an ARM name: the one it is traced back to has it. -/
theorem analyticIndex_of_byArm {arm eid : String} (hget : h.byArm.get? arm = some eid) :
    h.analyticIndex.get? eid = some arm := by
  obtain ⟨⟨eid', arm'⟩, hmem, heq⟩ := List.mem_map.mp (Dict.mem_ofPairs (Dict.mem_of_get? hget))
  obtain ⟨rfl, rfl⟩ : arm' = arm ∧ eid' = eid := by simpa using heq
  exact Dict.get?_of_mem (Dict.nodup_keys_ofPairs _) hmem

theorem armName_eq_some {lower : String → String} {rid workspacePath arm : String} :
    analyticArmNameFromResourceId lower rid workspacePath = some arm ↔
      ∃ workspace, alertRuleParts rid = some (workspace, arm) ∧
        lower workspace = lower workspacePath := by
  unfold analyticArmNameFromResourceId
  cases hparts : alertRuleParts rid with
  | none => simp
  | some parts =>
    obtain ⟨workspace, name⟩ := parts
    by_cases hws : lower workspace = lower workspacePath
    · simp only [ne_eq, hws, not_true_eq_false, if_false, Option.some.injEq, Prod.mk.injEq]
      constructor
      · rintro rfl
        exact ⟨workspace, ⟨rfl, rfl⟩, hws⟩
      · rintro ⟨-, ⟨-, heq⟩, -⟩
        exact heq
    · simp only [ne_eq, hws, not_false_eq_true, if_true, Option.some.injEq, Prod.mk.injEq]
      refine iff_of_false (by simp) ?_
      rintro ⟨workspace', ⟨rfl, -⟩, hws'⟩
      exact hws hws'

theorem reverseValue_str (v : String) : h.reverseValue (.str v : Value X) =
    match analyticArmNameFromResourceId h.lower v h.workspacePath with
    | none => .str v
    | some arm =>
      match (h.byArm.get? arm).filter (· ≠ "") with
      | none => .str v
      | some eid => .str (String.ofList (analyticRefPrefix ++ eid.toList)) := rfl

theorem resolveValue_str (v : String) : h.resolveValue (.str v : Value X) =
    if analyticRefPrefix <+: v.toList then
      (h.resolveAnalytic (String.ofList (v.toList.drop analyticRefPrefix.length))).map .str
    else some (.str v) := rfl

theorem reverseValue_cases (v : String) :
    (∃ arm eid, analyticArmNameFromResourceId h.lower v h.workspacePath = some arm ∧
      h.byArm.get? arm = some eid ∧ eid ≠ "" ∧
        h.reverseValue (.str v : Value X) = .str (String.ofList (analyticRefPrefix ++ eid.toList))) ∨
      h.reverseValue (.str v : Value X) = .str v ∧
        ∀ arm eid, analyticArmNameFromResourceId h.lower v h.workspacePath = some arm →
          h.byArm.get? arm = some eid → eid = "" := by
  rw [reverseValue_str]
  cases harm : analyticArmNameFromResourceId h.lower v h.workspacePath with
  | none => exact .inr ⟨rfl, fun arm eid heq => absurd heq (by simp)⟩
  | some arm =>
    cases hfilter : (h.byArm.get? arm).filter (· ≠ "") with
    | none =>
      refine .inr ⟨by dsimp only; rw [hfilter], fun arm' eid heq hget => ?_⟩
      obtain rfl := Option.some.inj heq
      by_contra heid
      simp [hget, heid] at hfilter
    | some eid =>
      obtain ⟨hget, heid⟩ := Option.filter_eq_some_iff.mp hfilter
      exact .inl ⟨arm, eid, rfl, hget, by simpa using heid, by dsimp only; rw [hfilter]⟩

theorem resolveValue_reference (eid : String) :
    h.resolveValue (.str (String.ofList (analyticRefPrefix ++ eid.toList)) : Value X) =
      (h.resolveAnalytic eid).map .str := by
  rw [resolveValue_str, String.toList_ofList, if_pos (List.prefix_append _ _), List.drop_left,
    String.ofList_toList]

/-- A raw value that looks like a reference is not within the workspace. -/
theorem head?_of_reference {v : String} (href : analyticRefPrefix <+: v.toList) :
    v.toList.head? ≠ some '/' := by
  obtain ⟨rest, hrest⟩ := href
  have hstart : analyticRefPrefix = 'a' :: "nalytic:".toList := by decide
  rw [← hrest, hstart, List.cons_append, List.head?_cons]
  decide

theorem head?_toList_append {s : String} {c : Char} (hs : s.toList.head? = some c) (t : String) :
    (s ++ t).toList.head? = some c := by
  rw [String.toList_append, List.head?_append_of_ne_nil _ (fun heq => by simp [heq] at hs), hs]

theorem head?_workspacePath : h.workspacePath.toList.head? = some '/' := by
  unfold workspacePath
  iterate 5 apply head?_toList_append
  decide

theorem head?_analyticRuleResourceId (arm : String) :
    (analyticRuleResourceId h.workspacePath arm).toList.head? = some '/' := by
  unfold analyticRuleResourceId
  iterate 2 apply head?_toList_append
  exact head?_workspacePath

theorem kept_value_iff (v : Value X) :
    Kept (Value.canon h.canonId) (h.resolveValue (h.reverseValue v)) v ↔ h.ValueKept v := by
  cases v with
  | str v =>
    rcases reverseValue_cases v with ⟨arm, eid, harm, hget, heid, hrev⟩ | ⟨hrev, hnone⟩
    · -- traced back to an analytic, which has the ARM name that the id ends in
      obtain ⟨workspace, hparts, hws⟩ := armName_eq_some.mp harm
      have hresolve : h.resolveAnalytic eid = some (analyticRuleResourceId h.workspacePath arm) := by
        rw [resolveAnalytic, analyticIndex_of_byArm hget, Option.map_some]
      rw [hrev, resolveValue_reference, hresolve, Option.map_some, kept_some, Value.canon, Value.canon,
        Value.str.injEq, canonId_alertRule_eq_iff hparts hws]
      constructor
      · intro heq
        refine ⟨fun href => head?_of_reference href ?_, ?_⟩
        · obtain ⟨-, -, -, -, -, -, -, -, -, -, hne, -⟩ := alertRuleParts_eq_some.mp hparts
          obtain ⟨p, m, a, hlist⟩ := toList_of_alertRuleParts hparts
          rw [hlist, List.head?_append_of_ne_nil _ hne, ← h.head_iff, hws, h.head_iff]
          exact head?_workspacePath
        · intro workspace' arm' eid' hparts' _ _ _
          obtain ⟨rfl, rfl⟩ : workspace = workspace' ∧ arm = arm' := by
            simpa using hparts.symm.trans hparts'
          exact heq
      · rintro ⟨-, hwritten⟩
        exact hwritten workspace arm eid hparts hws hget heid
    · rw [hrev, resolveValue_str]
      by_cases href : analyticRefPrefix <+: v.toList
      · -- what is sent for it begins with a slash
        refine iff_of_false ?_ fun hkept => hkept.1 href
        rw [if_pos href]
        rintro ⟨out, hout, heq⟩
        obtain ⟨rid, hrid, rfl⟩ := Option.map_eq_some_iff.mp hout
        obtain ⟨arm, -, rfl⟩ := Option.map_eq_some_iff.mp hrid
        rw [Value.canon, Value.canon, Value.str.injEq] at heq
        have hhead := (head?_canonId (h := h) _).mpr (head?_analyticRuleResourceId (h := h) arm)
        rw [heq, head?_canonId] at hhead
        exact head?_of_reference href hhead
      · rw [if_neg href]
        refine iff_of_true (kept_pure _ _) ⟨href, fun workspace arm eid hparts hws hget heid => ?_⟩
        exact absurd (hnone arm eid (armName_eq_some.mpr ⟨workspace, hparts, hws⟩) hget) heid
  | null | bool | int | scalar | list | dict => exact iff_of_true (kept_pure _ _) trivial

/-- A condition comes back as it was when each of its rule ids does. -/
theorem kept_condition_iff {v : Value X} (hwf : v.WF) :
    Kept (Value.canon h.canonId) (h.resolveCondition (h.reverseCondition v)) v ↔
      ∀ w ∈ ruleIdValues v, h.ValueKept w := by
  have hcomp : h.resolveCondition (h.reverseCondition v) =
      rewriteCondition (fun v => h.resolveValue (h.reverseValue v)) v :=
    rewriteCondition_comp h.reverseValue h.resolveValue v
  rw [hcomp, kept_rewriteCondition _ hwf]
  simp only [kept_value_iff]

/-! ## Actions -/

variable (h) in
/-- The tenant id of an action is there, and where the configured one replaces it, it is that. -/
def TenantKept (cfg : Document X) : Prop :=
  ∀ tenant, h.tenantId.filter (· ≠ "") = some tenant →
    ∃ given, Dict.get? cfg "tenantId" = some (.str given) ∧
      (given = "" ∨ h.lower given = h.lower tenant → h.canonId tenant = h.canonId given)

variable (h) in
/-- A Logic App in the configured group is named as the playbook it is collected as. -/
def TargetKept (cfg : Document X) : Prop :=
  Value.textAt cfg "logicAppResourceId" ≠ "" ∧
    ∀ pid, playbookIdFromResourceId h.lower (Value.textAt cfg "logicAppResourceId") h.subscriptionId
        h.playbooksResourceGroup = some pid →
      SelfNamed (Value.textAt cfg "logicAppResourceId") pid ∧ Dict.get? cfg "playbook" = none ∧
        h.TenantKept cfg

variable (h) in
def ActionKept (action : Document X) : Prop :=
  Value.textAt action "actionType" = "RunPlaybook" → h.TargetKept (configuration action)

theorem get?_dropTenant_ne {cfg : Document X} {k : String} (hk : "tenantId" ≠ k) :
    Dict.get? (h.dropTenant cfg) k = Dict.get? cfg k := by
  unfold dropTenant
  split
  · rfl
  · split_ifs
    · rw [Dict.get?_erase, if_neg hk]
    · rfl

theorem get?_addTenant_ne {t : Option String} {cfg : Document X} {k : String}
    (hk : "tenantId" ≠ k) : Dict.get? (addTenant t cfg) k = Dict.get? cfg k := by
  unfold addTenant
  split
  · rfl
  · split_ifs
    · rw [Dict.get?_set, if_neg hk]
    · rfl

theorem nodup_dropTenant {cfg : Document X} (hd : (Dict.keys cfg).Nodup) :
    (Dict.keys (h.dropTenant cfg)).Nodup := by
  unfold dropTenant
  split
  · exact hd
  · split_ifs
    · exact Dict.nodup_keys_erase hd _
    · exact hd

theorem nodup_addTenant {t : Option String} {cfg : Document X} (hd : (Dict.keys cfg).Nodup) :
    (Dict.keys (addTenant t cfg)).Nodup := by
  unfold addTenant
  split
  · exact hd
  · split_ifs
    · exact Dict.nodup_keys_set hd _ _
    · exact hd

theorem textAt_congr {d e : Document X} {k : String} (hget : Dict.get? d k = Dict.get? e k) :
    Value.textAt d k = Value.textAt e k := by
  unfold Value.textAt
  rw [hget]

/-- The tenant id is dropped and set again, with other keys changed meanwhile. -/
theorem tenant_iff {cfg d e : Document X}
    (hd : Dict.get? d "tenantId" = Dict.get? cfg "tenantId")
    (he : Dict.get? e "tenantId" = Dict.get? (h.dropTenant d) "tenantId") :
    (Dict.get? (addTenant h.tenantId e) "tenantId").map (Value.canon h.canonId) =
        (Dict.get? cfg "tenantId").map (Value.canon h.canonId) ↔ h.TenantKept cfg := by
  unfold TenantKept addTenant
  unfold dropTenant at he
  cases htenant : h.tenantId.filter (· ≠ "") with
  | none =>
    simp only [htenant] at he
    simp only [he, hd]
    exact iff_of_true trivial fun _ h => absurd h (by simp)
  | some tenant =>
    simp only [htenant, hd] at he
    simp only [Option.some.injEq, forall_eq']
    cases hget : Dict.get? cfg "tenantId" with
    | none =>
      have hnone : Dict.get? e "tenantId" = none := by
        rw [he]
        split_ifs
        · rw [Dict.get?_erase, if_pos rfl]
        · rw [hd, hget]
      have hempty : Value.textAt e "tenantId" = "" := by rw [Value.textAt, hnone]
      rw [if_pos hempty, Dict.get?_set_self]
      exact iff_of_false (by simp) (by simp)
    | some v =>
      rw [hget] at he
      by_cases hstr : ∃ given, v = .str given
      · obtain ⟨given, rfl⟩ := hstr
        change Dict.get? e "tenantId" = Dict.get? (if h.lower given = h.lower tenant then
          Dict.erase d "tenantId" else d) "tenantId" at he
        by_cases hsame : h.lower given = h.lower tenant
        · rw [if_pos hsame, Dict.get?_erase, if_pos rfl] at he
          have hempty : Value.textAt e "tenantId" = "" := by rw [Value.textAt, he]
          rw [if_pos hempty, Dict.get?_set_self]
          simp [Value.canon, hsame]
        · rw [if_neg hsame, hd, hget] at he
          have hgiven : Value.textAt e "tenantId" = given := by rw [Value.textAt, he]
          rw [hgiven]
          by_cases hempty : given = ""
          · rw [if_pos hempty, Dict.get?_set_self]
            simp [Value.canon, hempty]
          · rw [if_neg hempty, he]
            simp [hempty, hsame]
      · have hempty : Value.textAt e "tenantId" = "" := by
          rw [Value.textAt, he]
          split_ifs
          · rw [Dict.get?_erase, if_pos rfl]
          · rw [hd, hget]
            cases v with
            | str given => exact absurd ⟨given, rfl⟩ hstr
            | null | bool | int | scalar | list | dict => rfl
        rw [if_pos hempty, Dict.get?_set_self]
        refine iff_of_false ?_ ?_
        · cases v with
          | str given => exact absurd ⟨given, rfl⟩ hstr
          | null | bool | int | scalar | list | dict => simp [Value.canon]
        · rintro ⟨given, heq, -⟩
          exact hstr ⟨given, Option.some.inj heq⟩

theorem slash_notMem_displaynameSlug (name : String) (fallbackId : Option String) :
    '/' ∉ (Slug.displaynameSlug name fallbackId).toList := by
  have hslug : ∀ s t, Slug.slugOf s = some t → '/' ∉ t.toList := by
    intro s t ht hmem
    unfold Slug.slugOf at ht
    dsimp only at ht
    split_ifs at ht with hid
    obtain rfl := Option.some.inj ht
    exact absurd (idChars hid _ hmem) (by decide)
  unfold Slug.displaynameSlug
  cases hname : Slug.slugOf name with
  | some t => exact hslug name t hname
  | none =>
    cases hfallback : fallbackId.bind Slug.slugOf with
    | none => simp
    | some t =>
      obtain ⟨s, -, hs⟩ := Option.bind_eq_some_iff.mp hfallback
      simpa [hfallback] using hslug s t hs

theorem playbookId_eq_some {lower : String → String} {rid S R pid : String}
    (hpid : playbookIdFromResourceId lower rid S R = some pid) :
    ∃ sub rg name, logicAppParts rid = some (sub, rg, name) ∧ lower sub = lower S ∧
      lower rg = lower R ∧ pid ≠ "" ∧ '/' ∉ pid.toList := by
  unfold playbookIdFromResourceId at hpid
  split at hpid
  · exact absurd hpid (by simp)
  · next sub rg name hparts =>
    dsimp only at hpid
    split_ifs at hpid with hsub hrg hslug
    refine ⟨sub, rg, name, hparts, not_not.mp hsub, not_not.mp hrg, ?_⟩
    obtain rfl := Option.some.inj hpid
    exact ⟨hslug, slash_notMem_displaynameSlug _ _⟩

/-- The target of an action comes back as it was. -/
theorem target_kept_iff {cfg : Document X} (hd : (Dict.keys cfg).Nodup)
    (hone : Value.textAt cfg "playbook" = "" ↔ Value.textAt cfg "logicAppResourceId" ≠ "") :
    Value.canon h.canonId (.dict (h.resolveTarget (h.reverseTarget cfg))) =
      Value.canon h.canonId (.dict cfg) ↔ h.TargetKept cfg := by
  by_cases hrid : Value.textAt cfg "logicAppResourceId" = ""
  · -- a target that is a playbook already is sent as a Logic App
    have hplaybook : Value.textAt cfg "playbook" ≠ "" := fun heq => hone.mp heq hrid
    refine iff_of_false (fun heq => ?_) fun hkept => hkept.1 hrid
    have hrev : h.reverseTarget cfg = cfg := by rw [reverseTarget, if_pos hrid]
    rw [hrev, resolveTarget, if_neg hplaybook] at heq
    have hnodup := nodup_addTenant (t := h.tenantId) (Dict.nodup_keys_set
      (Dict.nodup_keys_erase hd "playbook") "logicAppResourceId" (.str (h.resolvePlaybook (Value.textAt cfg "playbook")).1))
    have hk := (Value.canon_dict_eq_iff _ hnodup hd).mp heq "playbook"
    rw [get?_addTenant_ne (by decide), Dict.get?_set, if_neg (by decide), Dict.get?_erase,
      if_pos rfl] at hk
    have hnone : Dict.get? cfg "playbook" = none := by simpa using hk.symm
    exact hplaybook (by rw [Value.textAt, hnone])
  · have hplaybook : Value.textAt cfg "playbook" = "" := hone.mpr hrid
    cases hpid : playbookIdFromResourceId h.lower (Value.textAt cfg "logicAppResourceId")
        h.subscriptionId h.playbooksResourceGroup with
    | none =>
      have hrev : h.reverseTarget cfg = cfg := by
        unfold reverseTarget
        rw [if_neg hrid, hpid]
      rw [hrev, resolveTarget, if_pos hplaybook]
      exact iff_of_true rfl ⟨hrid, fun pid heq => absurd (hpid.symm.trans heq) (by simp)⟩
    | some pid =>
      obtain ⟨sub, rg, name, hparts, hsub, hrg, hpid0, hslash⟩ := playbookId_eq_some hpid
      let taken := (Dict.erase cfg "logicAppResourceId").set "playbook" (.str pid)
      let given := (Dict.erase (h.dropTenant taken) "playbook").set "logicAppResourceId"
        (.str (logicAppResourceId h.subscriptionId h.playbooksResourceGroup pid))
      have hrev : h.reverseTarget cfg = h.dropTenant taken := by
        unfold reverseTarget
        rw [if_neg hrid, hpid]
      have hname : Value.textAt (h.dropTenant taken) "playbook" = pid := by
        rw [Value.textAt, get?_dropTenant_ne (by decide), Dict.get?_set_self]
      have hres : h.resolveTarget (h.dropTenant taken) = addTenant h.tenantId given := by
        unfold resolveTarget
        rw [hname, if_neg hpid0]
        rfl
      have hnodup : (Dict.keys (addTenant h.tenantId given)).Nodup :=
        nodup_addTenant (Dict.nodup_keys_set (Dict.nodup_keys_erase (nodup_dropTenant
          (Dict.nodup_keys_set (Dict.nodup_keys_erase hd _) _ _)) _) _ _)
      have hraw : Dict.get? cfg "logicAppResourceId" =
          some (.str (Value.textAt cfg "logicAppResourceId")) :=
        Value.get?_of_textAt hrid
      have htaken : Dict.get? taken "tenantId" = Dict.get? cfg "tenantId" := by
        rw [Dict.get?_set, if_neg (by decide), Dict.get?_erase, if_neg (by decide)]
      have hgiven : Dict.get? given "tenantId" = Dict.get? (h.dropTenant taken) "tenantId" := by
        rw [Dict.get?_set, if_neg (by decide), Dict.get?_erase, if_neg (by decide)]
      have htenant := tenant_iff htaken hgiven
      have hid := canonId_logicApp_eq_iff (h := h) hparts hsub hrg hpid0 hslash
      rw [hrev, hres, Value.canon_dict_eq_iff _ hnodup hd]
      constructor
      · intro hall
        refine ⟨hrid, fun pid' hpid' => ?_⟩
        obtain rfl := Option.some.inj (hpid.symm.trans hpid')
        refine ⟨?_, ?_, htenant.mp (hall "tenantId")⟩
        · have hk := hall "logicAppResourceId"
          rw [get?_addTenant_ne (by decide), Dict.get?_set_self, hraw, Option.map_some,
            Option.map_some, Value.canon, Value.canon, Option.some.injEq, Value.str.injEq] at hk
          exact hid.mp hk
        · have hk := hall "playbook"
          rw [get?_addTenant_ne (by decide), Dict.get?_set, if_neg (by decide), Dict.get?_erase,
            if_pos rfl] at hk
          simpa using hk.symm
      · rintro ⟨-, hkept⟩ k
        obtain ⟨hself, hnone, hten⟩ := hkept pid hpid
        by_cases hk : "tenantId" = k
        · rw [← hk]
          exact htenant.mpr hten
        · rw [get?_addTenant_ne hk, Dict.get?_set]
          split_ifs with hraw'
          · rw [← hraw', hraw, Option.map_some, Option.map_some, Value.canon, Value.canon,
              hid.mpr hself]
          · rw [Dict.get?_erase]
            split_ifs with hplay
            · rw [← hplay, hnone]
            · rw [get?_dropTenant_ne hk, Dict.get?_set, if_neg hplay, Dict.get?_erase,
                if_neg hraw']

/-- An action comes back as it was. -/
theorem action_kept_iff {action cfg : Document X} (hd : (Dict.keys action).Nodup)
    (hcfg : Dict.get? action "actionConfiguration" = some (.dict cfg)) (hdcfg : (Dict.keys cfg).Nodup)
    (hone : Value.textAt action "actionType" = "RunPlaybook" →
      (Value.textAt cfg "playbook" = "" ↔ Value.textAt cfg "logicAppResourceId" ≠ "")) :
    Value.canon h.canonId (.dict (h.resolveAction (h.reverseAction action))) =
      Value.canon h.canonId (.dict action) ↔ h.ActionKept action := by
  have hconfiguration : configuration action = cfg := by
    rw [configuration, Value.get, hcfg]
    rfl
  unfold ActionKept
  rw [hconfiguration]
  by_cases htype : Value.textAt action "actionType" = "RunPlaybook"
  · have hrev : h.reverseAction action =
        action.set "actionConfiguration" (.dict (h.reverseTarget cfg)) := by
      rw [reverseAction, if_neg (not_not.mpr htype), hconfiguration]
    have htype' : Value.textAt (h.reverseAction action) "actionType" = "RunPlaybook" := by
      rw [← htype, hrev]
      exact textAt_congr (by rw [Dict.get?_set, if_neg (by decide)])
    have hconfiguration' : configuration (h.reverseAction action) = h.reverseTarget cfg := by
      rw [hrev, configuration, Value.get, Dict.get?_set_self]
      rfl
    have hres : h.resolveAction (h.reverseAction action) = (h.reverseAction action).set
        "actionConfiguration" (.dict (h.resolveTarget (h.reverseTarget cfg))) := by
      rw [resolveAction, if_pos htype', hconfiguration']
    rw [Value.canon_dict_eq_iff_at (k := "actionConfiguration") _
      (hres ▸ Dict.nodup_keys_set (hrev ▸ Dict.nodup_keys_set hd _ _) _ _) hd
      (by rw [hres, Dict.get?_set_self]) hcfg (fun j hj => by
        rw [hres, Dict.get?_set, if_neg hj, hrev, Dict.get?_set, if_neg hj]),
      target_kept_iff hdcfg (hone htype)]
    exact ⟨fun hkept _ => hkept, fun hkept => hkept htype⟩
  · have hrev : h.reverseAction action = action := by rw [reverseAction, if_pos htype]
    rw [hrev, resolveAction, if_neg htype, hconfiguration, Dict.set_eq_self hcfg]
    exact iff_of_true rfl fun htype' => absurd htype' htype

end
end Handler
end ContentOps.AutomationRule
