import ContentOps.Handlers.ArmUpsert
import ContentOps.Handlers.SentinelSavedSearch

/-! What `apply` of the handlers of hunting queries and of parsers sends. -/

namespace ContentOps.SavedSearch
open PyData

section
variable {X : Type}

/-- A tag as it is sent. -/
def SavedSearchTag.value (tag : SavedSearchTag) : Value X :=
  .dict [("name", .str tag.1), ("value", .str tag.2)]

/-- The properties that are set, in the order in which they are sent. -/
def Properties.document (p : Properties) : Document X :=
  let text (key : String) (v : Option String) : Document X := (v.map fun s => (key, .str s)).toList
  text "category" p.category ++ text "displayName" p.displayName ++ text "query" p.query ++
    (p.version.map fun n => ("version", .int n)).toList ++
    text "functionAlias" p.functionAlias ++ text "functionParameters" p.functionParameters ++
    (p.tags.map fun tags => ("tags", .list (tags.map SavedSearchTag.value))).toList

/-- What both handlers do with a body; `unwanted` says why a deprecated one is not sent. -/
def prepare (unwanted : String) (fields : List (List String)) (properties : Properties)
    (dryRun : Bool) (envelope : EnvelopeV2) : ArmUpsert.Prepared X :=
  if envelope.status = "experimental" then
    .finished (ArmUpsert.unsent envelope .skip "skipped" "experimental status — skipped")
  else if envelope.status = "deprecated" then
    .finished (ArmUpsert.unsent envelope .skip "skipped" unwanted)
  else if dryRun then .finished (ArmUpsert.unsent envelope .update "dry-run" "")
  else .ready
    { assetId := envelope.id
      assetKind := envelope.asset.value
      resource := "savedSearches/" ++ envelope.id
      lenient := true
      body := [("properties", .dict properties.document)]
      hashedFields := fields
      disables := false
      expectedItems := none }

/-- `SentinelHuntingHandler.apply` up to its first request. -/
def Hunting.prepare (dryRun : Bool) (envelope : EnvelopeV2) (payload : SentinelHuntingPayload) :
    ArmUpsert.Prepared X :=
  SavedSearch.prepare "deprecated hunting queries are not deleted by deploy; use `prune`"
    hashedFields (toSavedsearchArmBody payload) dryRun envelope

/-- `SentinelParserHandler.apply` up to its first request. -/
def Parser.prepare (dryRun : Bool) (envelope : EnvelopeV2) (payload : SentinelParserPayload) :
    ArmUpsert.Prepared X :=
  SavedSearch.prepare "deprecated parsers are not deleted by deploy; use `prune`"
    hashedFields (toParserArmBody payload) dryRun envelope

/-- What is sent is the given properties, unless the status is skipped. -/
theorem prepare_of_not_skipped {unwanted : String} {fields : List (List String)}
    {properties : Properties} {envelope : EnvelopeV2} (h : skipped envelope.status = false) :
    ∃ u : ArmUpsert.Upsert X, prepare unwanted fields properties false envelope = .ready u ∧
      u.resource = "savedSearches/" ++ envelope.id ∧
      u.body = [("properties", .dict properties.document)] := by
  unfold prepare skipped at *
  split_ifs with hexperimental hdeprecated <;> simp_all

/-- What is sent for a hunting query is its `Put`. -/
theorem Hunting.prepare_of_apply {loaded : Envelope SentinelHuntingPayload} {put : Put}
    (h : Hunting.apply loaded = some put) {envelope : EnvelopeV2} (hid : envelope.id = loaded.id)
    (hstatus : envelope.status = loaded.status) :
    ∃ u : ArmUpsert.Upsert X, Hunting.prepare false envelope loaded.payload = .ready u ∧
      u.resource = "savedSearches/" ++ put.resource ∧
      u.body = [("properties", .dict put.properties.document)] := by
  unfold Hunting.apply at h
  split_ifs at h with hskipped
  obtain rfl := Option.some.inj h
  rw [← hid]
  exact prepare_of_not_skipped (by rw [hstatus]; simpa using hskipped)

/-- What is sent for a parser is its `Put`. -/
theorem Parser.prepare_of_apply {loaded : Envelope SentinelParserPayload} {put : Put}
    (h : Parser.apply loaded = some put) {envelope : EnvelopeV2} (hid : envelope.id = loaded.id)
    (hstatus : envelope.status = loaded.status) :
    ∃ u : ArmUpsert.Upsert X, Parser.prepare false envelope loaded.payload = .ready u ∧
      u.resource = "savedSearches/" ++ put.resource ∧
      u.body = [("properties", .dict put.properties.document)] := by
  unfold Parser.apply at h
  split_ifs at h with hskipped
  obtain rfl := Option.some.inj h
  rw [← hid]
  exact prepare_of_not_skipped (by rw [hstatus]; simpa using hskipped)

end
end ContentOps.SavedSearch
