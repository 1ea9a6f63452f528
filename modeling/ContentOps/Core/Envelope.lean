import ContentOps.Core.Metadata

/-! The detection envelope of `core/envelope.py` and how it is read from a YAML document. -/

namespace ContentOps
open PyData

/-- The third-party functions the code relies on: `yaml.safe_load`, where `none` is `YAMLError`,
`yaml.dump` of a document whose strings are already as the representer leaves them, and pydantic's
reading of an `int` field. -/
structure Libs (X : Type) where
  safeLoad : Text → Option (Value X)
  dump : Value X → Text
  laxInt : Value X → Option Int

structure EnvelopeV2 where
  id : String
  version : String
  asset : Asset
  status : String
  armName : Option String
deriving DecidableEq, Repr

def isIdChar (c : Char) : Bool := c.isLower || c.isDigit

/-- `^[a-z0-9][a-z0-9\-]*[a-z0-9]$`. -/
def isEnvelopeId (s : String) : Bool :=
  let t := s.toList
  2 ≤ t.length && t.head?.any isIdChar && t.getLast?.any isIdChar &&
    t.all fun c => isIdChar c || c = '-'

def lifecycleStages : List String :=
  ["concept", "research", "engineering", "delivery", "optimization", "feedback"]

section
variable {X : Type}

/-- A field declared `str`. -/
def requiredText (d : Dict String (Value X)) (key : String) : Option String :=
  (d.get? key).bind Value.text?

/-- A field declared `str | None`. -/
def optionalText? : Value X → Option (Option String)
  | .null => some none
  | .str s => some (some s)
  | _ => none

def fullKeys (asset : Asset) : List String :=
  if asset.isNonDetection then ["owner", "runbookUrl"]
  else ["owner", "runbookUrl", "severity", "tactics", "techniques", "expectedAlertsPerDay",
    "fpHandling"]

/-- The `arm_name` that a `metadata` value yields; `none` when a block that has all the authoring
keys fails its strict model. -/
def metadataArmName (laxInt : Value X → Option Int) (asset : Asset) (metadata : Value X) :
    Option (Value X) :=
  match metadata with
  | .dict md =>
    let armName := Value.get md "arm_name"
    if md ≠ [] ∧ (fullKeys asset).all (Dict.contains md) then
      if Metadata.constructs (Metadata.modelFields laxInt asset) md then some armName else none
    -- A block without all of them falls back to its `arm_name`, and where the strict model
    -- accepts it, that is the field it reads.
    else some armName
  | _ => some .null

/-- `parse_envelope`; `none` is an exception. -/
def parseEnvelope (laxInt : Value X → Option Int) (raw : Value X) :
    Option (EnvelopeV2 × Value X) := do
  let d ← raw.dict?
  let asset ← Asset.ofValue? (← requiredText d "asset")
  let payload := (d.get? "payload").getD (.dict [])
  let armName ← metadataArmName laxInt asset (Value.get d "metadata")
  let id ← requiredText d "id"
  let version ← requiredText d "version"
  let status ← requiredText d "status"
  let armName ← optionalText? armName
  let stage ← optionalText? (Value.get d "lifecycleStage")
  if isEnvelopeId id ∧ stage.all (· ∈ lifecycleStages) then
    some ({ id, version, asset, status, armName }, payload)
  else none

/-- What an envelope that parses says about the document it comes from. -/
structure ReadFrom (e : EnvelopeV2) (d : Dict String (Value X)) : Prop where
  asset : d.get? "asset" = some (.str e.asset.value)
  id : d.get? "id" = some (.str e.id)
  version : d.get? "version" = some (.str e.version)
  validId : isEnvelopeId e.id = true
  armName : ∀ a, e.armName = some a → ∃ md : Dict String (Value X),
    d.get? "metadata" = some (.dict md) ∧ md.get? "arm_name" = some (.str a)

theorem get?_of_requiredText {d : Dict String (Value X)} {key s : String}
    (h : requiredText d key = some s) : d.get? key = some (.str s) := by
  obtain ⟨v, hv, hs⟩ := Option.bind_eq_some_iff.mp h
  rw [hv, Value.text?_eq_some hs]

theorem optionalText?_eq_some {v : Value X} {s : String} (h : optionalText? v = some (some s)) :
    v = .str s := by
  cases v <;> simp_all [optionalText?]

theorem metadataArmName_eq_str {laxInt : Value X → Option Int} {asset : Asset} {v : Value X}
    {a : String} (h : metadataArmName laxInt asset v = some (.str a)) :
    ∃ md : Dict String (Value X), v = .dict md ∧ md.get? "arm_name" = some (.str a) := by
  unfold metadataArmName at h
  split at h
  · next md =>
    refine ⟨md, rfl, ?_⟩
    refine Value.get?_of_get ?_ (by simp)
    dsimp only at h
    split_ifs at h <;> exact Option.some.inj h
  · exact absurd h (by simp)

theorem parseEnvelope_eq_some {laxInt : Value X → Option Int} {raw payload : Value X}
    {e : EnvelopeV2} (h : parseEnvelope laxInt raw = some (e, payload)) :
    ∃ d : Dict String (Value X), raw = .dict d ∧ ReadFrom e d ∧
      payload = (d.get? "payload").getD (.dict []) := by
  unfold parseEnvelope at h
  obtain ⟨d, hd, h⟩ := Option.bind_eq_some_iff.mp h
  obtain ⟨sa, hsa, h⟩ := Option.bind_eq_some_iff.mp h
  obtain ⟨asset, hasset, h⟩ := Option.bind_eq_some_iff.mp h
  obtain ⟨arm, harm, h⟩ := Option.bind_eq_some_iff.mp h
  obtain ⟨id, hid, h⟩ := Option.bind_eq_some_iff.mp h
  obtain ⟨version, hversion, h⟩ := Option.bind_eq_some_iff.mp h
  obtain ⟨status, -, h⟩ := Option.bind_eq_some_iff.mp h
  obtain ⟨armName, harmName, h⟩ := Option.bind_eq_some_iff.mp h
  obtain ⟨stage, -, hcond⟩ := Option.bind_eq_some_iff.mp h
  split_ifs at hcond with hvalid
  obtain ⟨rfl, rfl⟩ := Prod.mk.inj (Option.some.inj hcond)
  refine ⟨d, Value.dict?_eq_some hd, ⟨?_, get?_of_requiredText hid,
    get?_of_requiredText hversion, hvalid.1, ?_⟩, rfl⟩
  · rw [get?_of_requiredText hsa, Asset.value_of_ofValue? hasset]
  · rintro a rfl
    rw [optionalText?_eq_some harmName] at harm
    obtain ⟨md, hmd, ha⟩ := metadataArmName_eq_str harm
    exact ⟨md, Value.get?_of_get hmd (by simp), ha⟩

end
end ContentOps
