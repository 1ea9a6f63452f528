import Mathlib.Tactic.Common

/-! The asset kinds of `core/asset.py` and what is fixed for each of them. -/

namespace ContentOps

inductive Asset where
  | sentinelAnalytic
  | sentinelHunting
  | sentinelWatchlist
  | sentinelParser
  | sentinelDataConnector
  | defenderCustomDetection
  | sentinelAutomationRule
  | sentinelPlaybook
deriving DecidableEq, Repr

namespace Asset

def value : Asset → String
  | sentinelAnalytic => "sentinel_analytic"
  | sentinelHunting => "sentinel_hunting"
  | sentinelWatchlist => "sentinel_watchlist"
  | sentinelParser => "sentinel_parser"
  | sentinelDataConnector => "sentinel_data_connector"
  | defenderCustomDetection => "defender_custom_detection"
  | sentinelAutomationRule => "sentinel_automation_rule"
  | sentinelPlaybook => "sentinel_playbook"

def all : List Asset :=
  [sentinelAnalytic, sentinelHunting, sentinelWatchlist, sentinelParser, sentinelDataConnector,
    defenderCustomDetection, sentinelAutomationRule, sentinelPlaybook]

/-- `Asset(value)`; `none` is `ValueError`. -/
def ofValue? (s : String) : Option Asset := all.find? fun a => a.value = s

theorem ofValue?_value (a : Asset) : ofValue? a.value = some a := by
  cases a <;> decide +kernel

theorem value_of_ofValue? {s : String} {a : Asset} (h : ofValue? s = some a) : a.value = s := by
  unfold ofValue? at h
  simpa using List.find?_some h

theorem value_injective {a b : Asset} (h : a.value = b.value) : a = b := by
  have hb := ofValue?_value b
  rw [← h, ofValue?_value] at hb
  exact Option.some.inj hb

/-- `NON_DETECTION_ASSETS`. -/
def isNonDetection (a : Asset) : Bool := a ∈ [sentinelAutomationRule, sentinelPlaybook]

/-- The payload fields that carry KQL: `KQL_FIELDS_BY_ASSET`, with each dotted path split. -/
def kqlFields : Asset → List (List String)
  | sentinelAnalytic | sentinelHunting | sentinelParser => [["query"]]
  | defenderCustomDetection => [["queryText"], ["queryCondition", "queryText"]]
  | _ => []

/-- `APPLY_ORDER_BY_ASSET`. -/
def applyOrder : Asset → Nat
  | sentinelPlaybook => 10
  | sentinelAutomationRule => 90
  | _ => 50

end Asset
end ContentOps
