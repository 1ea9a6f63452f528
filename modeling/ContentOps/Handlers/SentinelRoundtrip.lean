import ContentOps.Handlers.HashedFields
import ContentOps.Utils.RoundtripDiff

/-! `sentinel_roundtrip.py` and the command `sentinel-roundtrip-diff`. -/

namespace ContentOps.SentinelRoundtrip
open PyData RoundtripDiff

/-- The bundle of `_SentinelDispatch`; what is stripped is given by its two tables. -/
structure Dispatch (X : Type) where
  resource : String
  serverFields : List String
  serverPropertyFields : List String
  hashedFields : Document X → List (List String)
  useLaPath : Bool

section
variable {X : Type}

/-- `_analytic_hashed_fields`. -/
def analyticHashedFields (body : Document X) : List (List String) :=
  let inner := Value.textAt ((Value.get body "properties").dict?.getD []) "kind"
  SentinelAnalytic.hashedFieldsForKind
    (orText (Value.textAt body "kind") (orText inner "Scheduled")) false

/-- `dispatch_for_asset`; an error is the text of the `ValueError`. -/
def dispatchForAsset : Asset → Except String (Dispatch X)
  | .sentinelAnalytic => .ok
      { resource := "alertRules"
        serverFields := SentinelAnalytic.serverFields
        serverPropertyFields := SentinelAnalytic.serverPropertyFields
        hashedFields := analyticHashedFields
        useLaPath := false }
  | .sentinelHunting => .ok
      { resource := "savedSearches"
        serverFields := SavedSearch.Hunting.serverFields
        serverPropertyFields := SavedSearch.Hunting.serverPropertyFields
        hashedFields := fun _ => SavedSearch.Hunting.hashedFields
        useLaPath := true }
  | .sentinelParser => .ok
      { resource := "savedSearches"
        serverFields := SavedSearch.Parser.serverFields
        serverPropertyFields := SavedSearch.Parser.serverPropertyFields
        hashedFields := fun _ => SavedSearch.Parser.hashedFields
        useLaPath := true }
  | .sentinelWatchlist => .ok
      { resource := "watchlists"
        serverFields := SentinelWatchlist.serverFields
        serverPropertyFields := SentinelWatchlist.serverPropertyFields
        hashedFields := fun _ => SentinelWatchlist.hashedFields
        useLaPath := false }
  | .defenderCustomDetection => .error
      ("sentinel-roundtrip-diff does not handle Defender envelopes. " ++
        "Use `contentops defender-roundtrip-diff <envelope_id>` instead.")
  | .sentinelPlaybook => .error
      ("sentinel-roundtrip-diff does not handle playbooks: they are " ++
        "Microsoft.Logic resources at resource-group scope with a structural " ++
        "projection, not a Microsoft.SecurityInsights sub-resource. Use " ++
        "`contentops drift --asset sentinel_playbook` instead.")
  | asset => .error
      ("sentinel-roundtrip-diff does not support asset kind '" ++ asset.value ++ "'. " ++
        "Supported: sentinel_analytic, sentinel_hunting, sentinel_parser, " ++
        "sentinel_watchlist. (sentinel_data_connector and " ++
        "sentinel_automation_rule use a _projection() helper instead of " ++
        "_HASHED_FIELDS; for their mismatches read the apply summary directly.)")

def Dispatch.stripServerFields (d : Dispatch X) (remote : Document X) : Document X :=
  stripServerManaged d.serverFields d.serverPropertyFields remote

variable [Json.FloatText X] (repr : Value X → Text)

/-- The differences that the command shows once it has the remote resource. -/
def sentinelRoundtripDiff (dispatch : Dispatch X) (raw : Bool) (payload remote : Document X) :
    List RoundtripDiff.FieldDiff :=
  diffBodies repr payload (if raw then remote else dispatch.stripServerFields remote)
    (dispatch.hashedFields payload)

/-- The fields of a dispatch are properties that its strip leaves alone. -/
structure Dispatch.Sound (d : Dispatch X) : Prop where
  serverFields : "properties" ∉ d.serverFields
  hashed : ∀ body, ∀ p ∈ d.hashedFields body,
    ∃ field, p = ["properties", field] ∧ field ∉ d.serverPropertyFields
  distinct : ∀ body, ((d.hashedFields body).map dotted).Nodup

/-- The fields are distinct properties, none of which the table names. -/
def fieldsKept (propertyFields : List String) (fields : List (List String)) : Bool :=
  (fields.all fun p => match p with
    | [top, field] => top == "properties" && !propertyFields.contains field
    | _ => false) && decide (fields.map dotted).Nodup

theorem property_of_fieldsKept {propertyFields : List String} {fields : List (List String)}
    (h : fieldsKept propertyFields fields = true) {p : List String} (hp : p ∈ fields) :
    ∃ field, p = ["properties", field] ∧ field ∉ propertyFields := by
  have hpath := List.all_eq_true.mp (Bool.and_eq_true_iff.mp h).1 p hp
  match p, hpath with
  | [top, field], hpath =>
    obtain ⟨htop, hfield⟩ := Bool.and_eq_true_iff.mp hpath
    exact ⟨field, by rw [beq_iff_eq.mp htop], by simpa using hfield⟩

omit [Json.FloatText X] in
theorem sound_of_fieldsKept {d : Dispatch X} (hserver : "properties" ∉ d.serverFields)
    (h : ∀ body, fieldsKept d.serverPropertyFields (d.hashedFields body) = true) : d.Sound where
  serverFields := hserver
  hashed := fun body _ hp => property_of_fieldsKept (h body) hp
  distinct := fun body => of_decide_eq_true (Bool.and_eq_true_iff.mp (h body)).2

theorem fieldsKept_analytic (kind : String) : fieldsKept SentinelAnalytic.serverPropertyFields
    (SentinelAnalytic.plainHashedFields kind) = true := by
  have hall : ∀ fields ∈ [SentinelAnalytic.scheduledHashedFields,
      SentinelAnalytic.nrtHashedFields, SentinelAnalytic.msiHashedFields,
      SentinelAnalytic.templatedHashedFields],
      fieldsKept SentinelAnalytic.serverPropertyFields fields = true := by
    decide +kernel
  apply hall
  unfold SentinelAnalytic.plainHashedFields
  split_ifs <;> simp

theorem fieldsKept_tables :
    fieldsKept SavedSearch.Hunting.serverPropertyFields SavedSearch.Hunting.hashedFields = true ∧
      fieldsKept SavedSearch.Parser.serverPropertyFields SavedSearch.Parser.hashedFields = true ∧
      fieldsKept SentinelWatchlist.serverPropertyFields SentinelWatchlist.hashedFields = true := by
  decide +kernel

omit [Json.FloatText X] in
theorem sound_dispatch {asset : Asset} {d : Dispatch X} (h : dispatchForAsset asset = .ok d) :
    d.Sound := by
  have hproperties : "properties" ∉ ["etag", "type", "systemData"] := by decide
  cases asset with
  | sentinelAnalytic =>
    obtain rfl := Except.ok.inj h
    exact sound_of_fieldsKept hproperties fun _ => fieldsKept_analytic _
  | sentinelHunting =>
    obtain rfl := Except.ok.inj h
    exact sound_of_fieldsKept hproperties fun _ => fieldsKept_tables.1
  | sentinelParser =>
    obtain rfl := Except.ok.inj h
    exact sound_of_fieldsKept hproperties fun _ => fieldsKept_tables.2.1
  | sentinelWatchlist =>
    obtain rfl := Except.ok.inj h
    exact sound_of_fieldsKept hproperties fun _ => fieldsKept_tables.2.2
  | defenderCustomDetection | sentinelPlaybook | sentinelDataConnector | sentinelAutomationRule =>
    simp [dispatchForAsset] at h

omit [Json.FloatText X] in
theorem same_null_iff {v : Value X} : Value.Same (.null : Value X) v ↔ v = .null := by
  cases v <;> simp [Value.Same, Value.sortKeys]

omit [Json.FloatText X] in
theorem getPath_stripServerFields {d : Dispatch X} (hd : d.Sound) (raw : Bool) {body : Document X}
    {p : List String} (hp : p ∈ d.hashedFields body) (remote : Document X) :
    Value.getPath p (.dict (if raw then remote else d.stripServerFields remote)) =
      Value.getPath p (.dict remote) := by
  obtain ⟨field, rfl, hfield⟩ := hd.hashed body p hp
  cases raw with
  | true => rfl
  | false => exact getPath_stripServerManaged hd.serverFields hfield remote

omit [Json.FloatText X] in
theorem wf_stripServerManaged {remote : Document X} (h : (Value.dict remote).WF)
    (serverFields propertyFields : List String) :
    (Value.dict (stripServerManaged serverFields propertyFields remote)).WF := by
  have hcleaned := wf_filter h fun p => !serverFields.contains p.1
  unfold stripServerManaged
  dsimp only
  split
  · rename_i block hget
    have hblock := (Value.wf_dict_iff.mp hcleaned).2 _ (Dict.mem_of_get? hget)
    exact hcleaned.set _ (wf_filter hblock _)
  · exact hcleaned

omit [Json.FloatText X] in
theorem wf_remoteForDiff {remote : Document X} (h : (Value.dict remote).WF) (d : Dispatch X)
    (raw : Bool) : (Value.dict (if raw then remote else d.stripServerFields remote)).WF := by
  cases raw with
  | true => exact h
  | false => exact wf_stripServerManaged h _ _

/-- The payload of an envelope has no `properties`: every field the resource has is a difference,
and no other. -/
theorem exitCode_sentinel_iff {asset : Asset} {d : Dispatch X} (hd : dispatchForAsset asset = .ok d)
    {payload remote : Document X} (hp : (Value.dict payload).WF)
    (hflat : payload.get? "properties" = none) (hr : (Value.dict remote).WF) (raw : Bool) :
    exitCode (sentinelRoundtripDiff repr d raw payload remote) = 0 ↔
      ∀ p ∈ d.hashedFields payload, Value.getPath p (.dict remote) = .null := by
  have hsound := sound_dispatch hd
  rw [sentinelRoundtripDiff, exitCode_diffBodies_iff repr hp (wf_remoteForDiff hr d raw)]
  refine forall₂_congr fun p hmem => ?_
  rw [getPath_stripServerFields hsound raw hmem]
  obtain ⟨field, rfl, -⟩ := hsound.hashed payload p hmem
  have hnull : Value.getPath ["properties", field] (.dict payload) = .null := by
    simp [Value.getPath, Value.child, Value.get, hflat]
  rw [hnull, same_null_iff]

/-- After a write that verified, the command exits clean only if the body that was sent sets none of
the hashed fields. -/
theorem exitCode_verified_iff {H : Type} {sha : Text → H} (hsha : Function.Injective sha)
    {asset : Asset} {d : Dispatch X} (hd : dispatchForAsset asset = .ok d)
    {payload sent remote : Document X} (hp : (Value.dict payload).WF)
    (hflat : payload.get? "properties" = none) (hs : (Value.dict sent).WF)
    (hr : (Value.dict remote).WF)
    (hverified : computeContentHash sha remote (d.hashedFields payload) =
      computeContentHash sha sent (d.hashedFields payload)) (raw : Bool) :
    exitCode (sentinelRoundtripDiff repr d raw payload remote) = 0 ↔
      ∀ p ∈ d.hashedFields payload, Value.getPath p (.dict sent) = .null := by
  have hsame := (computeContentHash_eq_iff sha hsha ((sound_dispatch hd).distinct payload)
    hr hs).mp hverified
  rw [exitCode_sentinel_iff repr hd hp hflat hr]
  refine forall₂_congr fun p hmem => ?_
  rw [← same_null_iff, ← same_null_iff]
  exact ⟨fun h => h.trans (hsame p hmem), fun h => h.trans (hsame p hmem).symm⟩

end

/-! A watchlist that came back as it was sent. -/

def vipPayload : Document Empty :=
  [("displayName", .str "VIP"), ("itemsSearchKey", .str "User")]

def vipWatchlist : Document Empty := [("properties", .dict vipPayload)]

def watchlistDispatch : Dispatch Empty where
  resource := "watchlists"
  serverFields := SentinelWatchlist.serverFields
  serverPropertyFields := SentinelWatchlist.serverPropertyFields
  hashedFields := fun _ => SentinelWatchlist.hashedFields
  useLaPath := false

theorem wf_vipPayload : (Value.dict vipPayload).WF := by
  simp [vipPayload, Value.WF, Value.WFDict, Dict.keys]

theorem wf_vipWatchlist : (Value.dict vipWatchlist).WF := by
  simp [vipWatchlist, vipPayload, Value.WF, Value.WFDict, Dict.keys]

theorem exitCode_verified_iff_vip :
    exitCode (sentinelRoundtripDiff (fun _ => []) watchlistDispatch false vipPayload
        vipWatchlist) = 0 ↔
      ∀ p ∈ watchlistDispatch.hashedFields vipPayload,
        Value.getPath p (.dict vipWatchlist) = .null :=
  exitCode_verified_iff (fun _ => []) Function.injective_id
    (show dispatchForAsset .sentinelWatchlist = .ok watchlistDispatch from rfl) wf_vipPayload
    (by decide +kernel) wf_vipWatchlist wf_vipWatchlist rfl false

end ContentOps.SentinelRoundtrip
