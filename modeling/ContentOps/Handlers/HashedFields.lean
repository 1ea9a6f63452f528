import ContentOps.Handlers.SentinelAnalytic
import ContentOps.Handlers.Verify

/-! What the handlers of ARM resources hash of a resource, and what they take off one as managed by
the server. A dotted path is split at its dots. -/

namespace ContentOps
open PyData

section
variable {X : Type}

/-- `_strip_server_fields` over the two tables of a handler. -/
def stripServerManaged (serverFields propertyFields : List String) (remote : Document X) :
    Document X :=
  let cleaned : Document X := remote.filter fun p => !serverFields.contains p.1
  match cleaned.get? "properties" with
  | some (.dict block) =>
    cleaned.set "properties" (.dict (block.filter fun p => !propertyFields.contains p.1))
  | _ => cleaned

theorem wf_filter {d : Document X} (h : (Value.dict d).WF) (keep : String × Value X → Bool) :
    (Value.dict (d.filter keep)).WF := by
  obtain ⟨hnodup, hall⟩ := Value.wf_dict_iff.mp h
  exact Value.wf_dict_iff.mpr ⟨hnodup.sublist (List.filter_sublist.map _),
    fun p hp => hall p (List.mem_filter.mp hp).1⟩

/-- A field that neither table names is read as before. -/
theorem getPath_stripServerManaged {serverFields propertyFields : List String}
    (hserver : "properties" ∉ serverFields) {field : String} (hfield : field ∉ propertyFields)
    (remote : Document X) :
    Value.getPath ["properties", field] (.dict (stripServerManaged serverFields propertyFields
      remote)) = Value.getPath ["properties", field] (.dict remote) := by
  have hkept : Dict.get? (remote.filter fun p => !serverFields.contains p.1) "properties" =
      remote.get? "properties" := by
    cases hget : remote.get? "properties" with
    | none => exact Dict.get?_filter_eq_none hget
    | some v => exact Dict.get?_filter_of_pos hget (by simpa using hserver)
  have hfieldKept : ∀ block : Document X,
      Dict.get? (block.filter fun p => !propertyFields.contains p.1) field = block.get? field := by
    intro block
    cases hget : block.get? field with
    | none => exact Dict.get?_filter_eq_none hget
    | some v => exact Dict.get?_filter_of_pos hget (by simpa using hfield)
  unfold stripServerManaged
  dsimp only
  rw [hkept]
  cases hget : remote.get? "properties" with
  | none =>
    simp only [Value.getPath, Value.child, Value.get]
    rw [hkept]
  | some v =>
    cases v with
    | dict block =>
      simp only [Value.getPath, Value.child, Value.get]
      rw [Dict.get?_set, if_pos rfl, hget]
      simp only [Option.getD_some]
      rw [hfieldKept]
    | null | bool | int | scalar | str | list =>
      simp only [Value.getPath, Value.child, Value.get]
      rw [hkept]

end

namespace SentinelAnalytic

def scheduledHashedFields : List (List String) :=
  [["properties", "displayName"], ["properties", "query"], ["properties", "severity"],
    ["properties", "tactics"], ["properties", "queryFrequency"], ["properties", "queryPeriod"],
    ["properties", "triggerOperator"], ["properties", "triggerThreshold"],
    ["properties", "enabled"]]

def nrtHashedFields : List (List String) :=
  [["properties", "displayName"], ["properties", "query"], ["properties", "severity"],
    ["properties", "tactics"], ["properties", "enabled"]]

def msiHashedFields : List (List String) :=
  [["properties", "displayName"], ["properties", "productFilter"],
    ["properties", "severitiesFilter"], ["properties", "displayNamesFilter"],
    ["properties", "displayNamesExcludeFilter"], ["properties", "enabled"]]

def templatedHashedFields : List (List String) :=
  [["properties", "alertRuleTemplateName"], ["properties", "enabled"]]

def templateBindableKinds : List String := ["Scheduled", "NRT", "MicrosoftSecurityIncidentCreation"]

def templateBoundProjection (fields : List (List String)) : List (List String) :=
  ["properties", "alertRuleTemplateName"] :: fields

/-- `_hashed_fields_for_kind` without `template_bound`. -/
def plainHashedFields (kind : String) : List (List String) :=
  if kind = "Scheduled" then scheduledHashedFields
  else if kind = "NRT" then nrtHashedFields
  else if kind = "MicrosoftSecurityIncidentCreation" then msiHashedFields
  else if kind = "Fusion" ∨ kind = "MLBehaviorAnalytics" ∨ kind = "ThreatIntelligence" then
    templatedHashedFields
  else scheduledHashedFields

/-- `_hashed_fields_for_kind`. -/
def hashedFieldsForKind (kind : String) (templateBound : Bool) : List (List String) :=
  if templateBound && templateBindableKinds.contains kind then
    templateBoundProjection (plainHashedFields kind)
  else plainHashedFields kind

def serverFields : List String := ["etag", "type", "systemData"]
def serverPropertyFields : List String := ["lastModifiedUtc", "provisioningState"]

end SentinelAnalytic

namespace SavedSearch.Hunting

def hashedFields : List (List String) :=
  [["properties", "displayName"], ["properties", "query"], ["properties", "category"],
    ["properties", "tags"]]

def serverFields : List String := ["etag", "type", "systemData"]
def serverPropertyFields : List String := ["etag", "provisioningState"]

end SavedSearch.Hunting

namespace SavedSearch.Parser

def hashedFields : List (List String) :=
  [["properties", "displayName"], ["properties", "query"], ["properties", "category"],
    ["properties", "functionAlias"], ["properties", "functionParameters"], ["properties", "tags"]]

def serverFields : List String := ["etag", "type", "systemData"]
def serverPropertyFields : List String := ["etag", "version", "provisioningState"]

end SavedSearch.Parser

namespace SentinelWatchlist

def hashedFields : List (List String) :=
  [["properties", "displayName"], ["properties", "itemsSearchKey"], ["properties", "provider"],
    ["properties", "contentType"]]

def serverFields : List String := ["etag", "type", "systemData"]

def serverPropertyFields : List String :=
  ["etag", "created", "updated", "createdBy", "updatedBy", "watchlistId", "tenantId",
    "watchlistAlias", "isDeleted", "provisioningState", "itemsCount", "numberOfLinesToSkip"]

end SentinelWatchlist
end ContentOps
