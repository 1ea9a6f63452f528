import ContentOps.Alerts.Models
import ContentOps.Library.Dict

/-! `merge_alerts`: two matching passes and the alerts they leave over. Every entry of the result is
kept with the alerts it comes from. -/

namespace ContentOps.Alerts
open PyData

/-- An entry of the result: an alert as it came in, or the value of one `merge` call. -/
inductive Entry (T : Type) where
  | graph (ga : NormalizedAlert T)
  | sentinel (sa : NormalizedAlert T)
  | merged (ga sa : NormalizedAlert T)
deriving DecidableEq

def Entry.alert {T : Type} : Entry T → NormalizedAlert T
  | .graph ga => ga
  | .sentinel sa => sa
  | .merged ga sa => .merge ga sa

/-- The local variables of `merge_alerts`. -/
structure Matching (T : Type) where
  result : List (Entry T) := []
  matchedGraph : List String := []
  matchedSentinel : List String := []

section
variable {T : Type}

def Matching.join (m : Matching T) (ga sa : NormalizedAlert T) : Matching T where
  result := m.result ++ [.merged ga sa]
  matchedGraph := m.matchedGraph ++ [ga.id]
  matchedSentinel := m.matchedSentinel ++ [sa.id]

/-- `dict.setdefault`. -/
def setDefault (d : Dict String (NormalizedAlert T)) (k : String) (a : NormalizedAlert T) :
    Dict String (NormalizedAlert T) := if d.contains k then d else d.set k a

def sentinelByKey (sentinel : List (NormalizedAlert T)) : Dict String (NormalizedAlert T) :=
  sentinel.foldl (fun d sa => sa.correlationKeys.foldl (fun d k => setDefault d k sa) d) []

def pass1Step (index : Dict String (NormalizedAlert T)) (m : Matching T) (ga : NormalizedAlert T) :
    Matching T :=
  match ga.correlationKeys.findSome? index.get? with
  | some sa => m.join ga sa
  | none => m

def pass1 (graph sentinel : List (NormalizedAlert T)) : Matching T :=
  graph.foldl (pass1Step (sentinelByKey sentinel)) {}

def incidentStep (matchedGraph : List String) (d : Dict String (List (NormalizedAlert T)))
    (ga : NormalizedAlert T) : Dict String (List (NormalizedAlert T)) :=
  match ga.incident? with
  | some i => if ga.id ∈ matchedGraph then d else d.set i ((d.get? i).getD [] ++ [ga])
  | none => d

def graphByIncident (matchedGraph : List String) (graph : List (NormalizedAlert T)) :
    Dict String (List (NormalizedAlert T)) :=
  graph.foldl (incidentStep matchedGraph) []

-- Only the Graph alerts that no earlier Sentinel alert of the incident has taken are merged.
def joinIncident (sa : NormalizedAlert T) (m : Matching T) (ga : NormalizedAlert T) : Matching T :=
  if ga.id ∈ m.matchedGraph then m
  else { m with
    result := m.result ++ [.merged ga sa]
    matchedGraph := m.matchedGraph ++ [ga.id] }

def pass2Step (byIncident : Dict String (List (NormalizedAlert T))) (m : Matching T)
    (sa : NormalizedAlert T) : Matching T :=
  if sa.id ∈ m.matchedSentinel then m
  else match sa.incident?.bind byIncident.get? with
    | some alerts =>
      let m := alerts.foldl (joinIncident sa) m
      { m with matchedSentinel := m.matchedSentinel ++ [sa.id] }
    | none => m

def pass2 (graph sentinel : List (NormalizedAlert T)) (m : Matching T) : Matching T :=
  sentinel.foldl (pass2Step (graphByIncident m.matchedGraph graph)) m

/-- The result with the origin of each entry. -/
def mergeEntries (graph sentinel : List (NormalizedAlert T)) : List (Entry T) :=
  if graph = [] then sentinel.map .sentinel
  else if sentinel = [] then graph.map .graph
  else
    let m := pass2 graph sentinel (pass1 graph sentinel)
    m.result ++ (graph.filter (·.id ∉ m.matchedGraph)).map .graph ++
      (sentinel.filter (·.id ∉ m.matchedSentinel)).map .sentinel

/-- `merge_alerts`. -/
def mergeAlerts (graph sentinel : List (NormalizedAlert T)) : List (NormalizedAlert T) :=
  (mergeEntries graph sentinel).map Entry.alert

end
end ContentOps.Alerts
