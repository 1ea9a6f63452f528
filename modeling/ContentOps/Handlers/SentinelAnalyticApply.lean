import ContentOps.Handlers.ArmUpsert
import ContentOps.Handlers.SentinelRoundtrip

/-! The body that `apply` of the analytics-rule handler sends, and how it hashes for a rule that was
collected. -/

namespace ContentOps.SentinelAnalytic
open PyData

def fusionBodyAllowlist : List String :=
  ["alertRuleTemplateName", "enabled", "sourceSettings", "scenarioExclusionPatterns"]

def mlbaBodyAllowlist : List String := ["alertRuleTemplateName", "enabled"]

section
variable {X : Type} [Value.ScalarEq X]

/-- `to_sentinel_body`; a payload without a kind is a `KeyError`. -/
def toSentinelBody (payload : Document X) : Option (Value X × Document X) :=
  (payload.get? "kind").map fun kind => (kind, payload.erase "kind")

def bodyOf (kind : Value X) (properties : Document X) : Document X :=
  [("kind", kind), ("properties", .dict properties)]

/-- `body.get("kind") or "Scheduled"`. A kind that is no text is none of those that are named. -/
def kindMarker (kind : Value X) : String := ((kind.orElse (.str "Scheduled")).text?).getD ""

/-- The scrub of a version without a template. -/
def scrubTemplateVersion (properties : Document X) : Document X :=
  if (Value.get properties "templateVersion").truthy &&
      !(Value.get properties "alertRuleTemplateName").truthy then
    properties.erase "templateVersion"
  else properties

/-- The properties that ARM takes of a rule of the kind; `none` are all of them. -/
def bodyAllowlist (kind : String) : Option (List String) :=
  if kind = "Fusion" then some fusionBodyAllowlist
  else if kind = "MLBehaviorAnalytics" then some mlbaBodyAllowlist
  else none

def sanitise (kind : String) (properties : Document X) : Document X :=
  match bodyAllowlist kind with
  | some allowed => properties.filter fun p => allowed.contains p.1
  | none => properties

/-- The properties that are sent. -/
def sentProperties (status : String) (kind : Value X) (properties : Document X) : Document X :=
  let properties := sanitise (kindMarker kind) (scrubTemplateVersion properties)
  if status = "deprecated" then properties.set "enabled" (.bool false) else properties

/-- What is hashed of the body and of what is read back. -/
def applyHashedFields (kind : Value X) (properties : Document X) : List (List String) :=
  hashedFieldsForKind (kindMarker kind) (Value.get properties "alertRuleTemplateName").truthy

/-- `SentinelAnalyticHandler.apply` up to its first request. -/
def prepare (dryRun : Bool) (envelope : EnvelopeV2) (payload : Document X) :
    ArmUpsert.Prepared X :=
  if envelope.status = "experimental" then
    .finished (ArmUpsert.unsent envelope .skip "skipped" "experimental")
  else if dryRun then .finished (ArmUpsert.unsent envelope .update "dry-run" "")
  else
    match toSentinelBody payload with
    | none => .raised
    | some (kind, given) =>
      let properties := sentProperties envelope.status kind given
      .ready
        { assetId := envelope.id
          assetKind := envelope.asset.value
          resource := "alertRules/" ++ (envelope.armName.filter (· ≠ "")).getD envelope.id
          lenient := false
          body := bodyOf kind properties
          hashedFields := applyHashedFields kind properties
          disables := envelope.status = "deprecated"
          expectedItems := none }

/-! ## Reading a field through the steps -/

omit [Value.ScalarEq X] in
theorem getPath_bodyOf (kind : Value X) (properties : Document X) (field : String) :
    Value.getPath ["properties", field] (.dict (bodyOf kind properties)) =
      Value.get properties field := by
  simp [Value.getPath, Value.child, Value.get, bodyOf]

/-- The properties of a rule, none where they are no object. -/
def givenProperties (remote : Document X) : Document X :=
  (Value.get remote "properties").dict?.getD []

omit [Value.ScalarEq X] in
theorem getPath_remote (remote : Document X) (field : String) :
    Value.getPath ["properties", field] (.dict remote) =
      Value.get (givenProperties remote) field := by
  simp only [Value.getPath, Value.child, givenProperties]
  cases Value.get remote "properties" <;> rfl

omit [Value.ScalarEq X] in
theorem get?_dropEmpty_of_ne {d : Document X} {key field : String} (h : field ≠ key) :
    (dropEmpty d key).get? field = d.get? field := by
  unfold dropEmpty
  split
  · rw [Dict.get?_erase, if_neg h.symm]
  · rw [Dict.get?_erase, if_neg h.symm]
  · rfl

omit [Value.ScalarEq X] in
/-- An empty link reads as none. -/
theorem get_dropEmpty_of_empty {d : Document X} {key : String} (h : Value.get d key = .str "") :
    Value.get (dropEmpty d key) key = .null := by
  rw [dropEmpty, h]
  simp [Value.get, Dict.get?_erase]

omit [Value.ScalarEq X] in
theorem get_dropEmpty_self {d : Document X} {key : String} (h : Value.get d key ≠ .str "") :
    Value.get (dropEmpty d key) key = Value.get d key := by
  unfold dropEmpty
  split
  · next hget => rw [hget]; simp [Value.get, Dict.get?_erase]
  · next hget => exact absurd hget h
  · rfl

theorem get?_scrubTemplateVersion {d : Document X} {field : String} (h : field ≠ "templateVersion") :
    (scrubTemplateVersion d).get? field = d.get? field := by
  unfold scrubTemplateVersion
  split_ifs
  · rw [Dict.get?_erase, if_neg h.symm]
  · rfl

/-- A field that ARM takes of every kind. -/
def Kept (kind field : String) : Prop := ∀ allowed, bodyAllowlist kind = some allowed →
  allowed.contains field = true

omit [Value.ScalarEq X] in
theorem get?_sanitise {d : Document X} {kind field : String} (h : Kept kind field) :
    (sanitise kind d).get? field = d.get? field := by
  unfold sanitise
  cases hkind : bodyAllowlist kind with
  | none => rfl
  | some allowed =>
    cases hget : d.get? field with
    | none => exact Dict.get?_filter_eq_none hget
    | some v => exact Dict.get?_filter_of_pos hget (h allowed hkind)

/-- The fields that the envelope of a collected rule leaves out, or moves. -/
def movedFields : List String := ["kind", "lastModifiedUtc", "templateVersion"]

/-- A rule that is known by its template is hashed by what ARM takes of it. -/
theorem kept_templated {kind field : String} {bound : Bool} (hkind : (bodyAllowlist kind).isSome)
    (h : ["properties", field] ∈ hashedFieldsForKind kind bound) : Kept kind field := by
  have htemplated : kind = "Fusion" ∨ kind = "MLBehaviorAnalytics" := by
    unfold bodyAllowlist at hkind
    split_ifs at hkind with hfusion hmlba
    · exact Or.inl hfusion
    · exact Or.inr hmlba
    · exact absurd hkind (by simp)
  have hfields : hashedFieldsForKind kind bound = templatedHashedFields := by
    rcases htemplated with rfl | rfl <;> cases bound <;> rfl
  have hfield : field = "alertRuleTemplateName" ∨ field = "enabled" := by
    rw [hfields] at h
    simpa [templatedHashedFields] using h
  intro allowed hallowed
  rcases htemplated with rfl | rfl <;> obtain rfl := Option.some.inj hallowed <;>
    rcases hfield with rfl | rfl <;> rfl

/-- Every list of fields that can be hashed. -/
def projections : List (List (List String)) :=
  let plain := [scheduledHashedFields, nrtHashedFields, msiHashedFields]
  plain ++ [templatedHashedFields] ++ plain.map templateBoundProjection

theorem mem_projections (kind : String) (bound : Bool) :
    hashedFieldsForKind kind bound ∈ projections := by
  unfold hashedFieldsForKind plainHashedFields templateBindableKinds
  split_ifs <;> simp_all [projections]

/-- The fields of a projection are distinct properties, none of them moved. -/
def projectionKept (fields : List (List String)) : Bool :=
  (fields.all fun p => match p with
    | [top, field] => top == "properties" && !movedFields.contains field
    | _ => false) && decide (fields.map dotted).Nodup

theorem projectionKept_hashedFields (kind : String) (bound : Bool) :
    projectionKept (hashedFieldsForKind kind bound) = true := by
  have hall : ∀ fields ∈ projections, projectionKept fields = true := by
    decide +kernel
  exact hall _ (mem_projections kind bound)

/-- Every field that is hashed is a property that is sent as it was collected. -/
theorem kept_hashedFields {kind : String} {bound : Bool} {p : List String}
    (hp : p ∈ hashedFieldsForKind kind bound) :
    ∃ field, p = ["properties", field] ∧ field ∉ movedFields ∧ Kept kind field := by
  have hfield := List.all_eq_true.mp
    (Bool.and_eq_true_iff.mp (projectionKept_hashedFields kind bound)).1 p hp
  match p, hfield with
  | [top, field], hfield =>
    obtain ⟨htop, hmoved⟩ := Bool.and_eq_true_iff.mp hfield
    obtain rfl : top = "properties" := beq_iff_eq.mp htop
    refine ⟨field, rfl, by simpa using hmoved, ?_⟩
    cases hkind : bodyAllowlist kind with
    | some allowed => exact kept_templated (by rw [hkind]; rfl) hp
    | none => exact fun allowed hallowed => absurd (hkind.symm.trans hallowed) (by simp)

/-! ## A rule that was collected -/

/-- The kind that `to_envelope` gives a rule. -/
def collectedKind (remote : Document X) : Value X :=
  (Value.get remote "kind").orElse
    ((Value.get (givenProperties remote) "kind").orElse (.str "Scheduled"))

/-- The properties that `to_envelope` keeps. -/
def collectedProperties (remote : Document X) : Document X :=
  dropEmpty (dropEmpty ((givenProperties remote).erase "lastModifiedUtc") "alertRuleTemplateName")
    "templateVersion"

/-- The status that `to_envelope` gives a rule. -/
def collectedStatus (remote : Document X) : String :=
  if (((givenProperties remote).get? "enabled").getD (.bool true)).truthy then "production"
  else "deprecated"

omit [Value.ScalarEq X] in
theorem get?_collectedProperties {remote : Document X} {field : String}
    (hmoved : field ∉ movedFields) (hlink : field ≠ "alertRuleTemplateName") :
    (collectedProperties remote).get? field = (givenProperties remote).get? field := by
  simp only [movedFields, List.mem_cons, List.not_mem_nil, or_false, not_or] at hmoved
  obtain ⟨-, hmodified, hversion⟩ := hmoved
  rw [collectedProperties, get?_dropEmpty_of_ne hversion, get?_dropEmpty_of_ne hlink,
    Dict.get?_erase, if_neg (Ne.symm hmodified)]

theorem of_toEnvelope {remote env : Document X} (h : toEnvelope remote = some env) :
    Value.get env "payload" = .dict ((collectedProperties remote).set "kind"
      (collectedKind remote)) ∧ Value.textAt env "status" = collectedStatus remote := by
  have henabled : ((collectedProperties remote).set "kind" (collectedKind remote)).get? "enabled" =
      (givenProperties remote).get? "enabled" := by
    rw [Dict.get?_set, if_neg (by decide), get?_collectedProperties (by decide) (by decide)]
  unfold toEnvelope at h
  dsimp only at h
  split at h
  · cases h
  · split at h
    · cases h
    · obtain rfl := Option.some.inj h
      exact ⟨rfl, congrArg (fun v : Option (Value X) =>
        if (v.getD (.bool true)).truthy then "production" else "deprecated") henabled⟩

/-- The properties of the body for a rule that was collected. -/
def resentProperties (remote : Document X) : Document X :=
  sentProperties (collectedStatus remote) (collectedKind remote)
    (((collectedProperties remote).set "kind" (collectedKind remote)).erase "kind")

theorem get?_resentProperties {remote : Document X} {field : String}
    (hmoved : field ∉ movedFields) (hkept : Kept (kindMarker (collectedKind remote)) field) :
    (resentProperties remote).get? field =
      if collectedStatus remote = "deprecated" ∧ field = "enabled" then some (.bool false)
      else (collectedProperties remote).get? field := by
  have hmoved' := hmoved
  simp only [movedFields, List.mem_cons, List.not_mem_nil, or_false, not_or] at hmoved'
  obtain ⟨hkind, -, hversion⟩ := hmoved'
  have hsent : (sanitise (kindMarker (collectedKind remote)) (scrubTemplateVersion
      (((collectedProperties remote).set "kind" (collectedKind remote)).erase "kind"))).get? field =
      (collectedProperties remote).get? field := by
    rw [get?_sanitise hkept, get?_scrubTemplateVersion hversion, Dict.get?_erase,
      if_neg (Ne.symm hkind), Dict.get?_set, if_neg (Ne.symm hkind)]
  unfold resentProperties sentProperties
  dsimp only
  by_cases hstatus : collectedStatus remote = "deprecated"
  · rw [if_pos hstatus, Dict.get?_set]
    by_cases hfield : field = "enabled"
    · rw [if_pos hfield.symm, if_pos ⟨hstatus, hfield⟩]
    · rw [if_neg (Ne.symm hfield), if_neg (fun h => hfield h.2), hsent]
  · rw [if_neg hstatus, if_neg (fun h => hstatus h.1), hsent]

omit [Value.ScalarEq X] in
theorem get_collectedProperties_link (remote : Document X) :
    (Value.get (givenProperties remote) "alertRuleTemplateName" = .str "" →
        Value.get (collectedProperties remote) "alertRuleTemplateName" = .null) ∧
      (Value.get (givenProperties remote) "alertRuleTemplateName" ≠ .str "" →
        Value.get (collectedProperties remote) "alertRuleTemplateName" =
          Value.get (givenProperties remote) "alertRuleTemplateName") := by
  have herase : Value.get ((givenProperties remote).erase "lastModifiedUtc")
      "alertRuleTemplateName" = Value.get (givenProperties remote) "alertRuleTemplateName" := by
    simp [Value.get, Dict.get?_erase]
  have hversion : Value.get (collectedProperties remote) "alertRuleTemplateName" =
      Value.get (dropEmpty ((givenProperties remote).erase "lastModifiedUtc")
        "alertRuleTemplateName") "alertRuleTemplateName" := by
    rw [Value.get, collectedProperties, get?_dropEmpty_of_ne (by decide), ← Value.get]
  rw [hversion]
  constructor
  · exact fun h => get_dropEmpty_of_empty (herase.trans h)
  · exact fun h => (get_dropEmpty_self (by rwa [herase])).trans herase

omit [Value.ScalarEq X] in
theorem kept_switch_and_link (kind : String) :
    Kept kind "enabled" ∧ Kept kind "alertRuleTemplateName" := by
  constructor <;> intro allowed hallowed <;> unfold bodyAllowlist at hallowed <;>
    split_ifs at hallowed <;> obtain rfl := Option.some.inj hallowed <;> rfl

/-- The rule is disabled by `false` if at all, and one that is known by its template names it. -/
structure ResentAsRead (remote : Document X) : Prop where
  enabled : ∀ v, (givenProperties remote).get? "enabled" = some v → v.truthy = false →
    v = .bool false
  template : kindMarker (collectedKind remote) ∈
      ["Fusion", "MLBehaviorAnalytics", "ThreatIntelligence"] →
    Value.get (givenProperties remote) "alertRuleTemplateName" ≠ .str ""

theorem same_enabled_iff (remote : Document X) :
    Value.Same (Value.get (givenProperties remote) "enabled")
        (Value.get (resentProperties remote) "enabled") ↔
      ∀ v, (givenProperties remote).get? "enabled" = some v → v.truthy = false →
        v = .bool false := by
  have hresent : (resentProperties remote).get? "enabled" =
      if collectedStatus remote = "deprecated" ∧ "enabled" = "enabled" then some (.bool false)
      else (givenProperties remote).get? "enabled" := by
    rw [get?_resentProperties (by decide) (kept_switch_and_link _).1,
      get?_collectedProperties (by decide) (by decide)]
  unfold Value.get
  rw [hresent]
  cases hgiven : (givenProperties remote).get? "enabled" with
  | none =>
    have hproduction : collectedStatus remote = "production" := by
      rw [collectedStatus, hgiven]
      rfl
    simp [hproduction]
  | some v =>
    have hstatus : collectedStatus remote = if v.truthy then "production" else "deprecated" := by
      rw [collectedStatus, hgiven]
      rfl
    rw [hstatus]
    cases htruthy : v.truthy with
    | true =>
      rw [if_pos rfl, if_neg (fun h => absurd h.1 (by decide))]
      refine ⟨fun _ w hw hfalse => ?_, fun _ => Value.Same.refl _⟩
      exact absurd (Option.some.inj hw ▸ htruthy) (by simp [hfalse])
    | false =>
      rw [if_pos ⟨rfl, rfl⟩]
      constructor
      · intro hsame w hw _
        obtain rfl := Option.some.inj hw
        cases v <;> simp_all [Value.Same, Value.sortKeys]
      · intro h
        rw [h v rfl htruthy]
        exact Value.Same.refl _

/-- The link is hashed of the kinds that are known by their template, and where there is one. -/
theorem same_link_iff (remote : Document X) :
    (["properties", "alertRuleTemplateName"] ∈ applyHashedFields (collectedKind remote)
        (resentProperties remote) →
      Value.Same (Value.get (givenProperties remote) "alertRuleTemplateName")
        (Value.get (resentProperties remote) "alertRuleTemplateName")) ↔
      (kindMarker (collectedKind remote) ∈
          ["Fusion", "MLBehaviorAnalytics", "ThreatIntelligence"] →
        Value.get (givenProperties remote) "alertRuleTemplateName" ≠ .str "") := by
  have hresent : Value.get (resentProperties remote) "alertRuleTemplateName" =
      Value.get (collectedProperties remote) "alertRuleTemplateName" := by
    rw [Value.get, get?_resentProperties (by decide) (kept_switch_and_link _).2,
      if_neg (fun h => absurd h.2 (by decide)), ← Value.get]
  by_cases hempty : Value.get (givenProperties remote) "alertRuleTemplateName" = .str ""
  · have hnull := hresent.trans ((get_collectedProperties_link remote).1 hempty)
    rw [hnull, hempty]
    have hdiffer : ¬Value.Same (.str "" : Value X) .null := by simp [Value.Same, Value.sortKeys]
    have hunbound : applyHashedFields (collectedKind remote) (resentProperties remote) =
        plainHashedFields (kindMarker (collectedKind remote)) := by
      rw [applyHashedFields, hnull]
      rfl
    rw [hunbound]
    have hplain : ["properties", "alertRuleTemplateName"] ∈
        plainHashedFields (kindMarker (collectedKind remote)) ↔
        kindMarker (collectedKind remote) ∈
          ["Fusion", "MLBehaviorAnalytics", "ThreatIntelligence"] := by
      unfold plainHashedFields
      split_ifs <;> simp_all [scheduledHashedFields, nrtHashedFields, msiHashedFields,
        templatedHashedFields]
    rw [hplain]
    exact ⟨fun h hkind => absurd (h hkind) hdiffer, fun h hkind => absurd rfl (h hkind)⟩
  · rw [hresent, (get_collectedProperties_link remote).2 hempty]
    exact ⟨fun _ _ => hempty, fun _ _ => Value.Same.refl _⟩

theorem enabled_hashed (kind : Value X) (properties : Document X) :
    ["properties", "enabled"] ∈ applyHashedFields kind properties := by
  have hplain : ∀ kind, ["properties", "enabled"] ∈ plainHashedFields kind := by
    intro kind
    unfold plainHashedFields
    split_ifs <;> simp [scheduledHashedFields, nrtHashedFields, msiHashedFields,
      templatedHashedFields]
  unfold applyHashedFields hashedFieldsForKind
  split_ifs
  · exact List.mem_cons_of_mem _ (hplain _)
  · exact hplain _

/-- Field by field, the body that `apply` makes of a collected rule is the rule. -/
theorem same_hashedFields_iff (remote : Document X) :
    (∀ p ∈ applyHashedFields (collectedKind remote) (resentProperties remote),
      Value.Same (Value.getPath p (.dict remote))
        (Value.getPath p (.dict (bodyOf (collectedKind remote) (resentProperties remote))))) ↔
      ResentAsRead remote := by
  constructor
  · intro h
    refine ⟨(same_enabled_iff remote).mp ?_, (same_link_iff remote).mp fun hlink => ?_⟩
    · have hswitch := h _ (enabled_hashed _ _)
      rwa [getPath_remote, getPath_bodyOf] at hswitch
    · have hlinked := h _ hlink
      rwa [getPath_remote, getPath_bodyOf] at hlinked
  · rintro ⟨henabled, htemplate⟩ p hp
    obtain ⟨field, rfl, hmoved, hkept⟩ := kept_hashedFields hp
    rw [getPath_remote, getPath_bodyOf]
    by_cases hswitch : field = "enabled"
    · exact hswitch ▸ (same_enabled_iff remote).mpr henabled
    by_cases hlink : field = "alertRuleTemplateName"
    · exact hlink ▸ (same_link_iff remote).mpr htemplate (hlink ▸ hp)
    have hresent : Value.get (resentProperties remote) field =
        Value.get (givenProperties remote) field := by
      rw [Value.get, get?_resentProperties hmoved hkept, if_neg (fun h => hswitch h.2),
        get?_collectedProperties hmoved hlink, ← Value.get]
    rw [hresent]
    exact Value.Same.refl _

omit [Value.ScalarEq X] in
theorem wf_givenProperties {remote : Document X} (h : (Value.dict remote).WF) :
    (Value.dict (givenProperties remote)).WF := by
  unfold givenProperties
  have hproperties := h.child "properties"
  simp only [Value.child] at hproperties
  cases hget : Value.get remote "properties" with
  | dict given => exact hget ▸ hproperties
  | null | bool | int | scalar | str | list => simp [Value.dict?, Value.WF, Value.WFDict, Dict.keys]

omit [Value.ScalarEq X] in
theorem wf_dropEmpty {d : Document X} (h : (Value.dict d).WF) (key : String) :
    (Value.dict (dropEmpty d key)).WF := by
  unfold dropEmpty
  split
  · exact h.erase key
  · exact h.erase key
  · exact h

theorem wf_collectedKind {remote : Document X} (h : (Value.dict remote).WF) :
    (collectedKind remote).WF := by
  have horElse : ∀ {v w : Value X}, v.WF → w.WF → (v.orElse w).WF := by
    intro v w hv hw
    unfold Value.orElse
    split_ifs
    · exact hv
    · exact hw
  exact horElse (h.child "kind")
    (horElse ((wf_givenProperties h).child "kind") (Value.wf_str "Scheduled"))

theorem wf_sentProperties {d : Document X} (h : (Value.dict d).WF) (status : String)
    (kind : Value X) : (Value.dict (sentProperties status kind d)).WF := by
  have hscrubbed : (Value.dict (scrubTemplateVersion d)).WF := by
    unfold scrubTemplateVersion
    split_ifs
    · exact h.erase _
    · exact h
  have hsanitised : (Value.dict (sanitise (kindMarker kind) (scrubTemplateVersion d))).WF := by
    unfold sanitise
    split
    · exact wf_filter hscrubbed _
    · exact hscrubbed
  unfold sentProperties
  dsimp only
  split_ifs
  · exact hsanitised.set _ (by simp [Value.WF])
  · exact hsanitised

theorem wf_resentProperties {remote : Document X} (h : (Value.dict remote).WF) :
    (Value.dict (resentProperties remote)).WF := by
  have hcollected : (Value.dict (collectedProperties remote)).WF :=
    wf_dropEmpty (wf_dropEmpty ((wf_givenProperties h).erase _) _) _
  exact wf_sentProperties ((hcollected.set _ (wf_collectedKind h)).erase _) _ _

omit [Value.ScalarEq X] in
theorem wf_bodyOf {kind : Value X} {properties : Document X} (hkind : kind.WF)
    (h : (Value.dict properties).WF) : (Value.dict (bodyOf kind properties)).WF := by
  refine Value.wf_dict_iff.mpr ⟨by simp [bodyOf, Dict.keys], ?_⟩
  intro p hp
  rcases List.mem_cons.mp hp with rfl | hp
  · exact hkind
  · rwa [List.mem_singleton.mp hp]

theorem prepare_collected {remote : Document X} {envelope : EnvelopeV2}
    (hstatus : envelope.status = collectedStatus remote) :
    ∃ u, prepare false envelope ((collectedProperties remote).set "kind" (collectedKind remote)) =
        .ready u ∧ u.body = bodyOf (collectedKind remote) (resentProperties remote) ∧
      u.hashedFields = applyHashedFields (collectedKind remote) (resentProperties remote) := by
  have hlive : envelope.status ≠ "experimental" := by
    rw [hstatus, collectedStatus]
    split_ifs <;> decide
  unfold prepare toSentinelBody
  rw [if_neg hlive, if_neg (by decide), Dict.get?_set_self]
  refine ⟨_, rfl, ?_, ?_⟩ <;> rw [hstatus] <;> rfl

variable [Json.FloatText X] {H : Type} {sha : Text → H}

/-- `apply` finds the rule as it was collected unchanged exactly when it was disabled by `false`, if
at all, and names its template where it is known by it. -/
theorem hash_collected_iff (hsha : Function.Injective sha) {remote env payload : Document X}
    (hremote : (Value.dict remote).WF) (henv : toEnvelope remote = some env)
    (hpayload : Value.get env "payload" = .dict payload) {envelope : EnvelopeV2}
    (hstatus : envelope.status = Value.textAt env "status") :
    ∃ u, prepare false envelope payload = .ready u ∧
      (computeContentHash sha remote u.hashedFields = computeContentHash sha u.body u.hashedFields ↔
        ResentAsRead remote) := by
  obtain ⟨hpayload', hstatus'⟩ := of_toEnvelope henv
  obtain rfl := Value.dict.inj (hpayload'.symm.trans hpayload)
  obtain ⟨u, hu, hbody, hfields⟩ := prepare_collected (hstatus.trans hstatus')
  refine ⟨u, hu, ?_⟩
  have hdistinct : ((applyHashedFields (collectedKind remote) (resentProperties remote)).map
      dotted).Nodup :=
    of_decide_eq_true (Bool.and_eq_true_iff.mp (projectionKept_hashedFields _ _)).2
  rw [hbody, hfields, computeContentHash_eq_iff sha hsha hdistinct hremote
    (wf_bodyOf (wf_collectedKind hremote) (wf_resentProperties hremote))]
  exact same_hashedFields_iff remote

end

/-! A Fusion rule that is switched off. -/

def fusionRule : Document Empty :=
  [("name", .str "BuiltInFusion"), ("kind", .str "Fusion"),
    ("properties", .dict [("alertRuleTemplateName", .str "f71aba3d"), ("enabled", .bool false),
      ("displayName", .str "Advanced Multistage Attack Detection"),
      ("lastModifiedUtc", .str "2026-05-15T00:00:00Z")])]

def fusionPayload : Document Empty :=
  [("alertRuleTemplateName", .str "f71aba3d"), ("enabled", .bool false),
    ("displayName", .str "Advanced Multistage Attack Detection"), ("kind", .str "Fusion")]

def fusionEnvelope : Document Empty :=
  [("id", .str "advanced-multistage-attack-detection"), ("version", .str "1.0.0"),
    ("asset", .str "sentinel_analytic"), ("status", .str "deprecated"),
    ("metadata", .dict [("arm_name", .str "BuiltInFusion")]), ("payload", .dict fusionPayload)]

def fusionLoaded : EnvelopeV2 where
  id := "advanced-multistage-attack-detection"
  version := "1.0.0"
  asset := .sentinelAnalytic
  status := "deprecated"
  armName := some "BuiltInFusion"

theorem hash_collected_iff_fusion :
    ∃ u, prepare false fusionLoaded fusionPayload = .ready u ∧
      (computeContentHash id fusionRule u.hashedFields =
        computeContentHash id u.body u.hashedFields ↔ ResentAsRead fusionRule) :=
  hash_collected_iff Function.injective_id
    (by simp [fusionRule, Value.WF, Value.WFDict, Dict.keys])
    (show toEnvelope fusionRule = some fusionEnvelope by decide +kernel) rfl rfl

end ContentOps.SentinelAnalytic
