import ContentOps.Handlers.DefenderCustomDetection

/-! A tenant that keeps detection rules by id and answers every request with success. -/

namespace ContentOps.Defender
open PyData

/-- What Graph makes of a body: the rule a POST creates under an id, the rule a PATCH leaves, and
the ids of the rules it creates, in turn. -/
structure GraphRules (X : Type) where
  created : String → Dict String (Value X) → Dict String (Value X)
  patched : Dict String (Value X) → Dict String (Value X) → Dict String (Value X)
  newId : Nat → String

/-- The rules by id, and how many were created so far. -/
structure Tenant (X : Type) where
  rules : Dict String (Dict String (Value X))
  made : Nat

def Tenant.ofInventory {X : Type} (remote : List (Dict String (Value X))) : Tenant X where
  rules := remote.map fun r => (graphId r, r)
  made := 0

namespace GraphRules
variable {X : Type}

def client (graph : GraphRules X) : Client X (Tenant X) where
  listRules s := (.ok (s.rules.map Prod.snd), s)
  getRule s id := (.ok (s.rules.get? id), s)
  updateRule s id body :=
    match s.rules.get? id with
    | some old =>
      (.ok { statusCode := 200, text := "", id := id },
        { s with rules := s.rules.set id (graph.patched old body) })
    | none => (.ok { statusCode := 404, text := "", id := "" }, s)
  createRule s body :=
    let id := graph.newId s.made
    (.ok { statusCode := 201, text := "", id := id },
      { rules := s.rules.set id (graph.created id body), made := s.made + 1 })

@[simp] theorem client_getRule (graph : GraphRules X) (t : Tenant X) (id : String) :
    graph.client.getRule t id = (.ok (t.rules.get? id), t) := rfl

@[simp] theorem client_createRule (graph : GraphRules X) (t : Tenant X)
    (body : Dict String (Value X)) :
    graph.client.createRule t body =
      (.ok { statusCode := 201, text := "", id := graph.newId t.made },
        { rules := t.rules.set (graph.newId t.made) (graph.created (graph.newId t.made) body)
          made := t.made + 1 }) := rfl

theorem client_updateRule (graph : GraphRules X) {t : Tenant X} {id : String}
    {old : Dict String (Value X)} (h : t.rules.get? id = some old) (body : Dict String (Value X)) :
    graph.client.updateRule t id body =
      (.ok { statusCode := 200, text := "", id := id },
        { t with rules := t.rules.set id (graph.patched old body) }) := by
  unfold client
  dsimp only
  rw [h]

theorem client_updateRule_missing (graph : GraphRules X) {t : Tenant X} {id : String}
    (h : t.rules.get? id = none) (body : Dict String (Value X)) :
    graph.client.updateRule t id body =
      (.ok { statusCode := 404, text := "", id := "" }, t) := by
  unfold client
  dsimp only
  rw [h]

/-- A tenant that stores what it is sent: a PATCH replaces the keys of its body. -/
def storing : GraphRules X where
  created id body := body.set "id" (.str id)
  patched old body := body ++ old.filter fun p => p.1 ∉ body.keys
  newId n := String.ofList ("new-".toList ++ List.replicate n '0')

end GraphRules

/-- A valid rule: its displayName, query and response actions. -/
def ruleBody {X : Type} (name query : String) (responseActions : List (Value X)) :
    Dict String (Value X) :=
  [("displayName", .str name),
   ("queryCondition", .dict [("queryText", .str query)]),
   ("schedule", .dict [("period", .str "1H")]),
   ("detectionAction", .dict
     [("alertTemplate", .dict
        [("title", .str name), ("severity", .str "high"), ("category", .str "Execution"),
         ("impactedAssets", .list [.dict [("@odata.type", .str "#device"),
           ("identifier", .str "deviceId")]])]),
      ("responseActions", .list responseActions)])]

/-- An asset of the kind with a payload. -/
def ruleAsset {X : Type} (id : String) (armName : Option String)
    (payload : Dict String (Value X)) : LoadedAsset X where
  path := ["detections", "defender_custom_detection", id ++ ".yml"]
  envelope := { id, version := "1.0.0", asset := .defenderCustomDetection, status := "production",
                armName }
  payload := .dict payload

end ContentOps.Defender
