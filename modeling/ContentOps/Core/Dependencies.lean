import ContentOps.Handlers.SentinelAutomationRule
import ContentOps.Library.OptionMap

/-! The prerequisites of an asset, `core/dependencies.py`: those that the dependency file declares,
and what an automation rule refers to, `handlers/sentinel_automation_rule_models.py`. -/

namespace ContentOps
open PyData

/-! ## What an automation rule refers to -/

namespace AutomationRule

section
variable {X : Type} [Value.ScalarEq X]

/-- What a loop over `value or []` goes through; `none` is `TypeError`. -/
def iterated : Value X → Option (List (Value X))
  | .list vs => some vs
  | .dict d => some (d.map fun p => .str p.1)
  | .str s => some (s.toList.map fun c => .str (String.singleton c))
  | v => if v.truthy then none else some []

/-- `value or {}` where a mapping is needed; `none` is `AttributeError`. -/
def mapping : Value X → Option (Document X)
  | .dict d => some d
  | v => if v.truthy then none else some []

def analyticRef : Value X → Option String
  | .str v =>
    if analyticRefPrefix <+: v.toList then
      some (String.ofList (v.toList.drop analyticRefPrefix.length))
    else none
  | _ => none

/-- What the values of one condition refer to; `none` is `TypeError`. -/
def valueRefs (props : Document X) : Option (List String) :=
  match Value.get props "propertyName" with
  -- What cannot be hashed cannot be looked up among the names.
  | .list _ | .dict _ => none
  | _ =>
    if isRuleIds props then
      (iterated (Value.get props "propertyValues")).map (List.filterMap analyticRef)
    else some []

mutual

/-- `_walk` of `analytic_refs`, of a value that is skipped when it is no mapping. -/
def conditionRefs : Value X → Option (List String)
  | .dict cond => propertiesRefsAt cond
  | _ => some []

def propertiesRefsAt : List (String × Value X) → Option (List String)
  | [] => some []
  | (k, v) :: rest => if k = "conditionProperties" then propertiesRefs v else propertiesRefsAt rest

def propertiesRefs : Value X → Option (List String)
  | .dict props => do
    return (← valueRefs props) ++ (← nestedRefsAt "innerConditions" props) ++
      (← nestedRefsAt "itemConditions" props)
  | _ => some []

def nestedRefsAt (key : String) : List (String × Value X) → Option (List String)
  | [] => some []
  | (k, v) :: rest => if k = key then nestedRefs v else nestedRefsAt key rest

/-- A loop over conditions; only a list has mappings in it. -/
def nestedRefs : Value X → Option (List String)
  | .list vs => conditionsRefs vs
  | .dict d => (iterated (.dict d)).map fun _ => []
  | v => (iterated v).map fun _ => []

def conditionsRefs : List (Value X) → Option (List String)
  | [] => some []
  | v :: vs => do return (← conditionRefs v) ++ (← conditionsRefs vs)

end

/-- `analytic_refs`; `none` is an exception. -/
def analyticRefs (payload : Value X) : Option (List String) := do
  let logic ← mapping (Value.get (← payload.dict?) "triggeringLogic")
  nestedRefs (Value.get logic "conditions")

/-- The playbook of one action; `str` is of a value that is no text. -/
def playbookRef (str : Value X → String) : Value X → Option String
  | .dict action =>
    if Value.textAt action "actionType" ≠ "RunPlaybook" then none
    else match Value.get (Handler.configuration action) "playbook" with
      | .str s => if s = "" then none else some s
      | v => if v.truthy then some (str v) else none
  | _ => none

/-- `playbook_refs`; `none` is an exception. -/
def playbookRefs (str : Value X → String) (payload : Value X) : Option (List String) := do
  return (← iterated (Value.get (← payload.dict?) "actions")).filterMap (playbookRef str)

end
end AutomationRule

/-! ## The dependency graph -/

namespace Dependencies

structure AssetDependencies where
  tables : List String := []
  watchlists : List String := []
  parsers : List String := []
  detections : List String := []
  playbooks : List String := []
  external : List String := []

structure DependencyGraph where
  version : Int := 1
  assets : Dict String AssetDependencies := []

def DependencyGraph.forAsset (g : DependencyGraph) (assetId : String) : AssetDependencies :=
  (g.assets.get? assetId).getD {}

inductive MissingKind where
  | watchlist
  | parser
  | detection
  | playbook
  | analytic
deriving DecidableEq, Repr

structure DependencyViolation where
  assetId : String
  missingKind : MissingKind
  missingName : String
deriving DecidableEq, Repr

structure DependencyReport where
  violations : List DependencyViolation := []
  infoTables : Dict String (List String) := []
  infoExternal : Dict String (List String) := []

def DependencyReport.ok (r : DependencyReport) : Bool := r.violations.isEmpty

/-- The kind of asset a prerequisite has to be; any kind will do for a detection. -/
def MissingKind.asset? : MissingKind → Option Asset
  | watchlist => some .sentinelWatchlist
  | parser => some .sentinelParser
  | detection => none
  | playbook => some .sentinelPlaybook
  | analytic => some .sentinelAnalytic

/-- The sets that `_index_by_asset` returns. -/
structure AssetIndex where
  watchlists : List String := []
  parsers : List String := []
  allIds : List String := []
  playbooks : List String := []
  analytics : List String := []

section
variable {X : Type}

/-- One round of the loop of `_index_by_asset`. -/
def AssetIndex.add (index : AssetIndex) (la : LoadedAsset X) : AssetIndex :=
  let id := la.envelope.id
  let index := { index with allIds := id :: index.allIds }
  match la.envelope.asset with
  | .sentinelWatchlist => { index with watchlists := id :: index.watchlists }
  | .sentinelParser => { index with parsers := id :: index.parsers }
  | .sentinelPlaybook => { index with playbooks := id :: index.playbooks }
  | .sentinelAnalytic => { index with analytics := id :: index.analytics }
  | _ => index

def indexByAsset (las : List (LoadedAsset X)) : AssetIndex := las.foldl AssetIndex.add {}

/-- The set in which a prerequisite is looked up. -/
def AssetIndex.names (index : AssetIndex) : MissingKind → List String
  | .watchlist => index.watchlists
  | .parser => index.parsers
  | .detection => index.allIds
  | .playbook => index.playbooks
  | .analytic => index.analytics

variable [Value.ScalarEq X] (str : Value X → String)

/-- What `validate` looks up for an asset, in its order; `none` is an exception. -/
def prerequisites (g : DependencyGraph) (la : LoadedAsset X) :
    Option (List (MissingKind × String)) := do
  let deps := g.forAsset la.envelope.id
  let declared := deps.watchlists.map (.watchlist, ·) ++ deps.parsers.map (.parser, ·) ++
    deps.detections.map (.detection, ·) ++ deps.playbooks.map (.playbook, ·)
  -- What an automation rule refers to need not be declared.
  if la.envelope.asset = .sentinelAutomationRule then
    return declared ++ (← AutomationRule.playbookRefs str la.payload).map (.playbook, ·) ++
      (← AutomationRule.analyticRefs la.payload).map (.analytic, ·)
  else return declared

def assetViolations (g : DependencyGraph) (index : AssetIndex) (la : LoadedAsset X) :
    Option (List DependencyViolation) :=
  (prerequisites str g la).map fun reqs =>
    (reqs.filter fun r => r.2 ∉ index.names r.1).map fun r => ⟨la.envelope.id, r.1, r.2⟩

/-- What is told of the assets that have any of it. -/
def infoOf (g : DependencyGraph) (field : AssetDependencies → List String)
    (las : List (LoadedAsset X)) : Dict String (List String) :=
  las.foldl (fun info la =>
    let names := field (g.forAsset la.envelope.id)
    if names.isEmpty then info else info.set la.envelope.id names) []

/-- `validate`; `none` is an exception. -/
def validate (g : DependencyGraph) (las : List (LoadedAsset X)) : Option DependencyReport := do
  let violations ← las.mapM (assetViolations str g (indexByAsset las))
  some { violations := violations.flatten
         infoTables := infoOf g (·.tables) las
         infoExternal := infoOf g (·.external) las }

/-! ## What a report says -/

/-- The asset has the prerequisite. -/
def Requires (g : DependencyGraph) (la : LoadedAsset X) (kind : MissingKind) (name : String) : Prop :=
  ∃ reqs, prerequisites str g la = some reqs ∧ (kind, name) ∈ reqs

/-- The envelope is the prerequisite. -/
def Provides (la : LoadedAsset X) (kind : MissingKind) (name : String) : Prop :=
  la.envelope.id = name ∧ kind.asset?.all (la.envelope.asset = ·) = true

omit [Value.ScalarEq X] in
theorem mem_names_add {index : AssetIndex} {la : LoadedAsset X} {kind : MissingKind}
    {name : String} :
    name ∈ (index.add la).names kind ↔ name ∈ index.names kind ∨ Provides la kind name := by
  unfold AssetIndex.add Provides
  cases ha : la.envelope.asset <;> cases kind <;>
    simp [AssetIndex.names, MissingKind.asset?, or_comm, eq_comm]

omit [Value.ScalarEq X] in
theorem mem_names_foldl_add {las : List (LoadedAsset X)} {index : AssetIndex} {kind : MissingKind}
    {name : String} :
    name ∈ (las.foldl AssetIndex.add index).names kind ↔
      name ∈ index.names kind ∨ ∃ la ∈ las, Provides la kind name := by
  induction las generalizing index with
  | nil => simp
  | cons la las ih =>
    rw [List.foldl_cons, ih, mem_names_add, or_assoc]
    simp only [List.mem_cons, exists_eq_or_imp]

omit [Value.ScalarEq X] in
theorem mem_names_indexByAsset {las : List (LoadedAsset X)} {kind : MissingKind} {name : String} :
    name ∈ (indexByAsset las).names kind ↔ ∃ la ∈ las, Provides la kind name := by
  have hempty : name ∉ AssetIndex.names {} kind := by
    cases kind <;> exact List.not_mem_nil
  rw [indexByAsset, mem_names_foldl_add, or_iff_right hempty]

variable {str} {g : DependencyGraph}

/-- What an asset is reported for. -/
theorem mem_assetViolations {index : AssetIndex} {la : LoadedAsset X}
    {vs : List DependencyViolation} (h : assetViolations str g index la = some vs)
    {v : DependencyViolation} :
    v ∈ vs ↔ la.envelope.id = v.assetId ∧ Requires str g la v.missingKind v.missingName ∧
      v.missingName ∉ index.names v.missingKind := by
  obtain ⟨reqs, hreqs, rfl⟩ := Option.map_eq_some_iff.mp h
  have hrequires : ∀ kind name, Requires str g la kind name ↔ (kind, name) ∈ reqs := by
    intro kind name
    constructor
    · rintro ⟨reqs', hreqs', hmem⟩
      exact Option.some.inj (hreqs'.symm.trans hreqs) ▸ hmem
    · exact fun hmem => ⟨reqs, hreqs, hmem⟩
  rw [hrequires]
  constructor
  · intro hv
    obtain ⟨r, hr, rfl⟩ := List.mem_map.mp hv
    obtain ⟨hmem, hmissing⟩ := List.mem_filter.mp hr
    exact ⟨rfl, hmem, of_decide_eq_true hmissing⟩
  · rintro ⟨hid, hmem, hmissing⟩
    refine List.mem_map.mpr ⟨(v.missingKind, v.missingName), ?_, ?_⟩
    · exact List.mem_filter.mpr ⟨hmem, decide_eq_true hmissing⟩
    · rw [hid]

theorem mem_flatten_of_mapM {α β : Type*} {f : α → Option (List β)} {P : α → Prop} {b : β}
    {as : List α} {bss : List (List β)} (h : as.mapM f = some bss)
    (hf : ∀ a bs, f a = some bs → (b ∈ bs ↔ P a)) : b ∈ bss.flatten ↔ ∃ a ∈ as, P a := by
  rw [List.mem_flatten]
  constructor
  · rintro ⟨bs, hbs, hb⟩
    obtain ⟨a, ha, hfa⟩ := (mem_iff_of_mapM h).mp hbs
    exact ⟨a, ha, (hf a bs hfa).mp hb⟩
  · rintro ⟨a, ha, hP⟩
    obtain ⟨bs, hbs, hfa⟩ := mem_of_mapM h ha
    exact ⟨bs, hbs, (hf a bs hfa).mpr hP⟩

/-- A prerequisite is missing when none of the assets at hand is it. -/
theorem mem_violations {las : List (LoadedAsset X)} {report : DependencyReport}
    (h : validate str g las = some report) {v : DependencyViolation} :
    v ∈ report.violations ↔
      ∃ la ∈ las, la.envelope.id = v.assetId ∧ Requires str g la v.missingKind v.missingName ∧
        ∀ p ∈ las, ¬ Provides p v.missingKind v.missingName := by
  obtain ⟨vss, hvss, hreport⟩ := Option.bind_eq_some_iff.mp h
  obtain rfl := Option.some.inj hreport
  have hnone : v.missingName ∉ (indexByAsset las).names v.missingKind ↔
      ∀ p ∈ las, ¬ Provides p v.missingKind v.missingName := by
    rw [mem_names_indexByAsset]
    push Not
    rfl
  rw [← hnone]
  exact mem_flatten_of_mapM hvss fun _ _ hvs => mem_assetViolations hvs

end
end Dependencies
end ContentOps
