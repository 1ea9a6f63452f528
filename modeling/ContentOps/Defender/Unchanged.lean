import ContentOps.Defender.GraphRules

/-! When the Defender handler skips an update, and what the skipped PATCH would have changed. -/

namespace ContentOps.Defender
open PyData

section
variable {X : Type}

/-- What a rule in the tenant has under a key of a request body. -/
def remoteValue (existing : Dict String (Value X)) (key : String) : Value X :=
  if key = "status" then .str (ruleStatus existing)
  else Value.get (stripServerFields existing) key

/-- The rule in the tenant, as far as the keys of a body go. -/
def remoteUnder (body existing : Dict String (Value X)) : Dict String (Value X) :=
  body.map fun p => (p.1, remoteValue existing p.1)

/-- A PATCH with the body would leave the rule as it is. -/
def PatchIsNoop (body existing : Dict String (Value X)) : Prop :=
  ∀ key v, body.get? key = some v → Value.Same v (remoteValue existing key)

theorem get?_remoteUnder (body existing : Dict String (Value X)) (key : String) :
    Dict.get? (remoteUnder body existing) key =
      (body.get? key).map fun _ => remoteValue existing key := by
  induction body with
  | nil => rfl
  | cons p body ih =>
    obtain ⟨k, v⟩ := p
    simp only [remoteUnder, List.map_cons, Dict.get?_cons] at ih ⊢
    split_ifs with hk
    · rw [hk]
      rfl
    · exact ih

theorem keys_remoteUnder (body existing : Dict String (Value X)) :
    Dict.keys (remoteUnder body existing) = body.keys := by
  simp [remoteUnder, Dict.keys, Function.comp_def]

theorem wf_filter {d : Dict String (Value X)} (h : (Value.dict d).WF) (f : String × Value X → Bool) :
    (Value.dict (d.filter f)).WF := by
  have hd := Value.wf_dict_iff.mp h
  refine Value.wf_dict_iff.mpr ⟨?_, fun p hp => hd.2 p (List.mem_filter.mp hp).1⟩
  exact List.Sublist.nodup (List.Sublist.map _ List.filter_sublist) hd.1

theorem wf_stripServerFields {remote : Dict String (Value X)} (h : (Value.dict remote).WF) :
    (Value.dict (stripServerFields remote)).WF := by
  have hnested : ∀ (d : Dict String (Value X)) (entry : String × List String),
      (Value.dict d).WF → (Value.dict (stripNested d entry)).WF := by
    intro d entry hd
    unfold stripNested
    split
    · next block hblock =>
      have hb := (Value.wf_dict_iff.mp hd).2 _ (Dict.mem_of_get? hblock)
      exact hd.set _ (wf_filter hb _)
    · exact hd
  unfold stripServerFields serverNestedFields
  simp only [List.foldl_cons, List.foldl_nil]
  exact hnested _ _ (hnested _ _ (wf_filter h _))

theorem get?_stripServerFields (r : Dict String (Value X)) :
    Dict.get? (stripServerFields r) "displayName" = r.get? "displayName" := by
  have hfilter : ∀ d : Dict String (Value X),
      Dict.get? (d.filter fun p => p.1 ∉ serverFields) "displayName" = d.get? "displayName" := by
    intro d
    cases h : d.get? "displayName" with
    | none => exact Dict.get?_filter_eq_none h
    | some v => exact Dict.get?_filter_of_pos h (by simp [serverFields])
  have hnested : ∀ (d : Dict String (Value X)) (entry : String × List String),
      entry.1 ≠ "displayName" →
        Dict.get? (stripNested d entry) "displayName" = d.get? "displayName" := by
    intro d entry hne
    unfold stripNested
    split
    · exact (Dict.get?_set ..).trans (if_neg hne)
    · rfl
  unfold stripServerFields serverNestedFields
  simp only [List.foldl_cons, List.foldl_nil]
  rw [hnested _ _ (by decide), hnested _ _ (by decide), hfilter]

theorem displayName_stripServerFields (r : Dict String (Value X)) :
    displayName (stripServerFields r) = displayName r := by
  unfold displayName Value.textAt
  rw [get?_stripServerFields]

theorem wf_remoteUnder {body existing : Dict String (Value X)} (hb : body.keys.Nodup)
    (he : (Value.dict existing).WF) : (Value.dict (remoteUnder body existing)).WF := by
  refine Value.wf_dict_iff.mpr ⟨by rwa [keys_remoteUnder], ?_⟩
  intro q hq
  obtain ⟨p, -, rfl⟩ := List.mem_map.mp hq
  show (remoteValue existing p.1).WF
  unfold remoteValue
  split_ifs
  · exact trivial
  · exact (wf_stripServerFields he).child p.1

theorem patchIsNoop_iff {body existing : Dict String (Value X)} (hb : body.keys.Nodup) :
    PatchIsNoop body existing ↔ Value.Same (.dict body) (.dict (remoteUnder body existing)) := by
  rw [Value.same_dict_iff hb (by rwa [keys_remoteUnder])]
  unfold PatchIsNoop
  apply forall_congr'
  intro key
  rw [get?_remoteUnder]
  cases h : body.get? key with
  | none => simp
  | some v => simp [Value.Same]

end

section
variable {X H S : Type} [Value.ScalarEq X] [Json.FloatText X] [DecidableEq H] (client : Client X S)
  (sha : Text → H) (hexdigest : H → String)

/-- The fields that the test before a PATCH compares are the same. -/
def ComparedAgree (la : LoadedAsset X) (existing : Dict String (Value X)) : Prop :=
  (∀ p ∈ fieldsOf la, Value.Same (Value.getPath p (.dict (stripServerFields existing)))
    (Value.getPath p (.dict (bodyOf la)))) ∧
  ∀ v, (bodyOf la).get? "status" = some v → v = .str (ruleStatus existing)

/-- All that the body sets beside the compared fields is the same. -/
def OthersAgree (la : LoadedAsset X) (existing : Dict String (Value X)) : Prop :=
  Value.Same (Value.maskAll (fieldsOf la) (.dict (bodyOf la)))
    (Value.maskAll (fieldsOf la) (.dict (remoteUnder (bodyOf la) existing)))

omit [Json.FloatText X] in
theorem nodup_dotted_fieldsOf (la : LoadedAsset X) : ((fieldsOf la).map dotted).Nodup := by
  unfold fieldsOf hashedFields
  split_ifs <;> decide +kernel

omit [Value.ScalarEq X] [Json.FloatText X] in
theorem wf_bodyOf {la : LoadedAsset X} (h : la.payload.WF) : (Value.dict (bodyOf la)).WF := by
  unfold bodyOf
  apply wf_toWireBody
  cases hp : la.payload with
  | dict d => rwa [hp] at h
  | null | bool | int | scalar | str | list => exact ⟨List.nodup_nil, trivial⟩

theorem isUnchanged_iff (hsha : Function.Injective sha) {la : LoadedAsset X}
    {existing : Dict String (Value X)} (hla : la.payload.WF) (he : (Value.dict existing).WF) :
    isUnchanged sha la existing = true ↔ ComparedAgree la existing := by
  unfold isUnchanged ComparedAgree
  rw [Bool.and_eq_true, decide_eq_true_eq, computeContentHash_eq_iff sha hsha
    (nodup_dotted_fieldsOf la) (wf_stripServerFields he) (wf_bodyOf hla)]
  refine and_congr_right fun _ => ?_
  cases h : (bodyOf la).get? "status" with
  | none => simp
  | some v => cases v <;> simp [eq_comm]

/-- The rule that `apply` reads before it decides on a PATCH. -/
def existingRule (la : LoadedAsset X) (st : Session S) : Option (Dict String (Value X)) :=
  if la.envelope.status = "experimental" then none
  else
    match nameMapOrBuild client st with
    | (.error _, _) => none
    | (.ok index, st) =>
      match resolveGraphId index (displayName (bodyOf la)) la.envelope.armName with
      | none => none
      | some id =>
        match client.getRule st.server id with
        | (.error _, _) => none
        | (.ok existing, _) => existing

/-- `apply` returns NOOP with "unchanged; update skipped" and `verified=True`. -/
def SkipsUpdate (answer : Except String Applied × Session S) : Prop :=
  ∃ a, answer.1 = .ok a ∧ a.result.action = .noop ∧ a.result.detail = "unchanged; update skipped" ∧
    a.result.verified = some true

theorem not_skipsUpdate_verifyWrite {la : LoadedAsset X} {action : PlanAction} {id : String}
    {st : Session S} (h : action ≠ .noop) :
    ¬ SkipsUpdate (verifyWrite client sha hexdigest la action id st) := by
  obtain ⟨r, hr, heq⟩ := verifyWrite_eq client sha hexdigest la action id st
  rintro ⟨a, ha, hnoop, -⟩
  rw [heq] at ha
  obtain rfl := Except.ok.inj ha
  exact h (hr.symm.trans hnoop)

theorem not_skipsUpdate_applyCreate (la : LoadedAsset X) (index : RuleIndex) (st : Session S) :
    ¬ SkipsUpdate (applyCreate client sha hexdigest la index st) := by
  unfold applyCreate
  split
  · simp [SkipsUpdate]
  · split_ifs
    · simp [SkipsUpdate, refused, resultOf]
    all_goals exact not_skipsUpdate_verifyWrite client sha hexdigest (by simp)

theorem skipsUpdate_applyUpdate_iff (la : LoadedAsset X) (index : RuleIndex) (id : String)
    (st : Session S) :
    SkipsUpdate (applyUpdate client sha hexdigest la index id st) ↔
      ∃ existing, (client.getRule st.server id).1 = .ok (some existing) ∧
        isUnchanged sha la existing = true := by
  unfold applyUpdate
  split
  · next e s hget => simp [SkipsUpdate, hget]
  · next existing s hget =>
    rw [hget]
    by_cases hunchanged : existing.any (isUnchanged sha la) = true
    · rw [if_pos hunchanged]
      cases existing with
      | none => exact absurd hunchanged (by simp)
      | some r => exact ⟨fun _ => ⟨r, rfl, hunchanged⟩, fun _ => ⟨_, rfl, rfl, rfl, rfl⟩⟩
    · have hright : ¬ ∃ r, (Except.ok existing : Except String _) = .ok (some r) ∧
          isUnchanged sha la r = true := by
        rintro ⟨r, hr, hr'⟩
        obtain rfl := Except.ok.inj hr
        exact hunchanged hr'
      rw [if_neg hunchanged]
      refine iff_of_false ?_ hright
      split
      · simp [SkipsUpdate]
      · split_ifs
        · simp [SkipsUpdate, refused, resultOf]
        all_goals exact not_skipsUpdate_verifyWrite client sha hexdigest (by simp)

theorem skipsUpdate_iff (la : LoadedAsset X) (st : Session S) :
    SkipsUpdate (apply client sha hexdigest la st) ↔
      ∃ existing, existingRule client la st = some existing ∧ isUnchanged sha la existing = true := by
  unfold apply existingRule
  split_ifs with hexp
  · simp [SkipsUpdate, resultOf]
  · rcases hindex : nameMapOrBuild client st with ⟨e | index, st'⟩
    · simp [SkipsUpdate]
    · dsimp only
      cases hid : resolveGraphId index (displayName (bodyOf la)) la.envelope.armName with
      | none => simp [not_skipsUpdate_applyCreate]
      | some id =>
        dsimp only
        rw [skipsUpdate_applyUpdate_iff]
        rcases hget : client.getRule st'.server id with ⟨e | existing, s⟩ <;> simp

omit [Json.FloatText X] in
theorem fieldsOf_path {la : LoadedAsset X} {p : List String} (hp : p ∈ fieldsOf la) :
    ∃ key rest, p = key :: rest ∧ key ≠ "status" := by
  have hall : ∀ p ∈ baseHashedFields ++ [["description"]],
      p.head?.any (· ≠ "status") = true := by decide
  have hmem : p ∈ baseHashedFields ++ [["description"]] := by
    unfold fieldsOf hashedFields at hp
    split_ifs at hp
    · exact hp
    · exact List.mem_append_left _ hp
  cases p with
  | nil => exact absurd (hall _ hmem) (by simp)
  | cons key rest => exact ⟨key, rest, rfl, by simpa using hall _ hmem⟩

/-- A difference is among the compared fields, or there is none. -/
def Detects (la : LoadedAsset X) (existing : Dict String (Value X)) : Prop :=
  ComparedAgree la existing → OthersAgree la existing

omit [Json.FloatText X] in
theorem patchIsNoop_iff_othersAgree {la : LoadedAsset X} {existing : Dict String (Value X)}
    (hla : la.payload.WF) (he : (Value.dict existing).WF) (h : ComparedAgree la existing) :
    PatchIsNoop (bodyOf la) existing ↔ OthersAgree la existing := by
  have hbody := wf_bodyOf hla
  have hkeys : (bodyOf la).keys.Nodup := (Value.wf_dict_iff.mp hbody).1
  rw [patchIsNoop_iff hkeys]
  apply Value.same_maskAll_iff _ hbody (wf_remoteUnder hkeys he)
  intro p hp
  have hagree := (h.1 p hp).symm
  obtain ⟨key, rest, rfl, hkey⟩ := fieldsOf_path hp
  -- A path that starts at no key of the body reads null there.
  cases hget : (bodyOf la).get? key with
  | none =>
    have hnull : ∀ d : Dict String (Value X), d.get? key = none →
        Value.getPath (key :: rest) (.dict d) = .null := by
      intro d hd
      show Value.getPath rest (Value.get d key) = .null
      rw [Value.get, hd]
      exact Value.getPath_null rest
    rw [hnull _ hget, hnull _ (by rw [get?_remoteUnder, hget]; rfl)]
    exact Value.Same.refl _
  | some v =>
    have hremote : Value.get (remoteUnder (bodyOf la) existing) key =
        Value.get (stripServerFields existing) key := by
      rw [Value.get, get?_remoteUnder, hget]
      exact if_neg hkey
    show Value.Same _ (Value.getPath rest (Value.get (remoteUnder (bodyOf la) existing) key))
    rw [hremote]
    exact hagree

/-- An update is skipped soundly exactly when what differs is compared. -/
theorem skip_sound_iff (hsha : Function.Injective sha) {la : LoadedAsset X} (hla : la.payload.WF)
    (st : Session S)
    (hwf : ∀ existing, existingRule client la st = some existing → (Value.dict existing).WF) :
    (SkipsUpdate (apply client sha hexdigest la st) →
        ∃ existing, existingRule client la st = some existing ∧
          PatchIsNoop (bodyOf la) existing) ↔
      ∀ existing, existingRule client la st = some existing → Detects la existing := by
  rw [skipsUpdate_iff]
  constructor
  · intro h existing hread hagree
    have hskip := (isUnchanged_iff sha hsha hla (hwf existing hread)).mpr hagree
    obtain ⟨r, hr, hnoop⟩ := h ⟨existing, hread, hskip⟩
    obtain rfl := Option.some.inj (hread.symm.trans hr)
    exact (patchIsNoop_iff_othersAgree hla (hwf _ hread) hagree).mp hnoop
  · rintro h ⟨existing, hread, hskip⟩
    have hagree := (isUnchanged_iff sha hsha hla (hwf existing hread)).mp hskip
    exact ⟨existing, hread,
      (patchIsNoop_iff_othersAgree hla (hwf _ hread) hagree).mpr (h existing hread hagree)⟩

end

/-! ## A response action that never arrives -/

/-- The rule in the tenant has no response action, the file asks to isolate the device. -/
def isolateAction : Value Empty :=
  .dict [("@odata.type", .str "#isolateDevice"), ("identifier", .str "deviceId")]

def deployedRule : Dict String (Value Empty) :=
  ("id", .str "g1") :: ("status", .str "enabled") :: ruleBody "Beacon" "DeviceEvents" []

def authoredRule : LoadedAsset Empty :=
  ruleAsset "beacon" (some "g1") (ruleBody "Beacon" "DeviceEvents" [isolateAction])

def deployedSession : Session (Tenant Empty) where
  index := none
  server := Tenant.ofInventory [deployedRule]

theorem wf_deployedRule : (Value.dict deployedRule).WF := by
  simp [deployedRule, ruleBody, Value.WF, Value.WFDict, Value.WFList, Dict.keys]

theorem wf_authoredRule : authoredRule.payload.WF := by
  simp [authoredRule, ruleAsset, ruleBody, isolateAction, Value.WF, Value.WFDict, Value.WFList,
    Dict.keys]

theorem existingRule_authored :
    existingRule GraphRules.storing.client authoredRule deployedSession = some deployedRule := by
  decide +kernel

theorem skip_sound_iff_beacon :
    (SkipsUpdate (apply GraphRules.storing.client id String.ofList authoredRule deployedSession) →
        ∃ existing, existingRule GraphRules.storing.client authoredRule deployedSession =
          some existing ∧ PatchIsNoop (bodyOf authoredRule) existing) ↔
      ∀ existing, existingRule GraphRules.storing.client authoredRule deployedSession =
        some existing → Detects authoredRule existing := by
  apply skip_sound_iff GraphRules.storing.client id String.ofList Function.injective_id
    wf_authoredRule deployedSession
  intro existing h
  rw [existingRule_authored] at h
  exact Option.some.inj h ▸ wf_deployedRule

theorem skips_new_response_action :
    SkipsUpdate (apply GraphRules.storing.client id String.ofList authoredRule deployedSession) ∧
      existingRule GraphRules.storing.client authoredRule deployedSession = some deployedRule ∧
      ¬ PatchIsNoop (bodyOf authoredRule) deployedRule := by
  refine ⟨?_, existingRule_authored, ?_⟩
  · rw [skipsUpdate_iff]
    exact ⟨deployedRule, existingRule_authored, by decide +kernel⟩
  · rw [patchIsNoop_iff (by decide +kernel)]
    decide +kernel

end ContentOps.Defender
