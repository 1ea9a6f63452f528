import ContentOps.Core.Drift

/-! The envelope the analytics-rule handler makes of a rule the ARM API lists. -/

namespace ContentOps.SentinelAnalytic
open PyData
variable {X : Type} [Value.ScalarEq X]

def collectBaselineVersion : String := "1.0.0"

omit [Value.ScalarEq X] in
-- ARM returns null for a rule without a template; only a real link is kept.
def dropEmpty (properties : Document X) (key : String) : Document X :=
  match Value.get properties key with
  | .null | .str "" => properties.erase key
  | _ => properties

/-- `SentinelAnalyticHandler.to_envelope`. -/
def toEnvelope (remote : Document X) : Option (Document X) :=
  let ruleId := Value.textAt remote "name"
  if ruleId = "" then none
  else
    let given : Document X := (Value.get remote "properties").dict?.getD []
    let kind := (Value.get remote "kind").orElse ((Value.get given "kind").orElse (.str "Scheduled"))
    let properties := (dropEmpty (dropEmpty (given.erase "lastModifiedUtc") "alertRuleTemplateName")
      "templateVersion").set "kind" kind
    let enabled := (properties.get? "enabled").getD (.bool true)
    let envelopeId := Slug.displaynameSlug (Value.textAt properties "displayName") ruleId
    if envelopeId = "" then none
    else
      let version :=
        if (Value.get given "alertRuleTemplateName").truthy then
          (Value.get given "templateVersion").orElse (.str collectBaselineVersion)
        else .str collectBaselineVersion
      some [("id", .str envelopeId), ("version", version),
        ("asset", .str Asset.sentinelAnalytic.value),
        ("status", .str (if enabled.truthy then "production" else "deprecated")),
        ("metadata", .dict [("arm_name", .str ruleId)]), ("payload", .dict properties)]

def handler (items : List (Document X)) : DriftHandler X where
  asset := .sentinelAnalytic
  listRemote := .ok items
  toEnvelope := toEnvelope

end ContentOps.SentinelAnalytic
