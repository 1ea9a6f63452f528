import ContentOps.Core.Asset
import ContentOps.Library.Value
import ContentOps.Library.Text

/-! The metadata models of `core/metadata.py`: the fields of `RuleMetadata` and
`SupportAssetMetadata`, and which values each of them accepts. -/

namespace ContentOps.Metadata
open PyData

/-! ## Regular expressions, on the text before a final newline as `$` allows -/

def dropFinalNewline (t : Text) : Text := if t.getLast? = some '\n' then t.dropLast else t

/-- `T\d{4}(\.\d{3})?`. -/
def techniqueRe (t : Text) : Bool :=
  match t with
  | 'T' :: a :: b :: c :: d :: rest =>
    [a, b, c, d].all Char.isDigit && (match rest with
      | [] => true
      | '.' :: sub => sub.length = 3 && sub.all Char.isDigit
      | _ => false)
  | _ => false

/-- `[^@\s]+@[^@\s]+\.[^@\s]+`. -/
def emailRe (t : Text) : Bool :=
  let atom := fun (s : Text) => !s.isEmpty && s.all fun c => c ≠ '@' && !Text.isSpace c
  match t.splitOn '@' with
  | [user, host] => atom user && (List.range host.length).any fun i =>
      host[i]? = some '.' && atom (host.take i) && atom (host.drop (i + 1))
  | _ => false

/-- `D3-[A-Z0-9]+`. -/
def d3fendRe (t : Text) : Bool :=
  match t with
  | 'D' :: '3' :: '-' :: rest => !rest.isEmpty && rest.all fun c => c.isUpper || c.isDigit
  | _ => false

def matches? (re : Text → Bool) (s : String) : Bool := re s.toList || re (dropFinalNewline s.toList)

def isHttp (s : String) : Bool := "http://".toList <+: s.toList || "https://".toList <+: s.toList

/-! ## Field types -/

section
variable {X : Type}

def isText (check : String → Bool) : Value X → Bool
  | .str s => check s
  | _ => false

def isNullOr (check : Value X → Bool) : Value X → Bool
  | .null => true
  | v => check v

def isListOf (check : Value X → Bool) : Value X → Bool
  | .list vs => vs.all check
  | _ => false

def isNonemptyListOf (check : Value X → Bool) : Value X → Bool
  | .list (v :: vs) => (v :: vs).all check
  | _ => false

def isAny (_ : String) : Bool := true

def isNonempty (s : String) : Bool := s ≠ ""

def isOneOf (values : List String) (s : String) : Bool := s ∈ values

structure Field (X : Type) where
  name : String
  required : Bool
  accepts : Value X → Bool

def tactics : List String :=
  ["Reconnaissance", "ResourceDevelopment", "InitialAccess", "Execution", "Persistence",
    "PrivilegeEscalation", "DefenseEvasion", "CredentialAccess", "Discovery", "LateralMovement",
    "Collection", "CommandAndControl", "Exfiltration", "Impact"]

def severities : List String := ["informational", "low", "medium", "high"]

/-- The fields of `_MetadataCommon`. -/
def commonFields : List (Field X) :=
  [⟨"owner", true, isText fun s => isNonempty s && matches? emailRe s⟩,
    ⟨"runbookUrl", true, isText fun s => isNonempty s && isHttp s⟩,
    ⟨"techniques", false, isListOf (isText (matches? techniqueRe))⟩,
    ⟨"cohort", false, isNullOr (isText isAny)⟩,
    ⟨"lastValidatedAt", false, isNullOr (isText isAny)⟩,
    ⟨"arm_name", false, isNullOr (isText isAny)⟩,
    ⟨"description", false, isNullOr (isText isAny)⟩,
    ⟨"attackDescription", false, isNullOr (isText isAny)⟩,
    ⟨"references", false, isListOf (isText isHttp)⟩,
    ⟨"falsePositives", false, isListOf (isText isAny)⟩,
    ⟨"blindSpots", false, isListOf (isText isAny)⟩,
    ⟨"responseActions", false, isListOf (isText isAny)⟩,
    ⟨"fpExpectedPerWeek", false, isNullOr (isText (isOneOf ["low", "medium", "high"]))⟩,
    ⟨"defensiveTechniques", false, isListOf (isText (matches? d3fendRe))⟩]

-- `laxInt` is how pydantic reads a value for an `int` field.
variable (laxInt : Value X → Option Int)

def isCount (v : Value X) : Bool := (laxInt v).any fun n => 0 ≤ n

def isGuidance (s : String) : Bool := !Text.isBlank s.toList

def ruleFields : List (Field X) := commonFields ++
  [⟨"severity", true, isText (isOneOf severities)⟩,
    ⟨"tactics", true, isNonemptyListOf (isText (isOneOf tactics))⟩,
    ⟨"expectedAlertsPerDay", true, isCount laxInt⟩,
    ⟨"fpHandling", true, isText fun s => isNonempty s && isGuidance s⟩]

def supportFields : List (Field X) := commonFields ++
  [⟨"severity", false, isNullOr (isText (isOneOf severities))⟩,
    ⟨"tactics", false, isListOf (isText (isOneOf tactics))⟩,
    ⟨"expectedAlertsPerDay", false, isNullOr (isCount laxInt)⟩,
    ⟨"fpHandling", false, isNullOr (isText isGuidance)⟩]

/-- The model a kind's metadata is validated with. -/
def modelFields (asset : Asset) : List (Field X) :=
  if asset.isNonDetection then supportFields laxInt else ruleFields laxInt

/-- Whether `model_cls(**raw)` constructs; no other keys are allowed. -/
def constructs (fields : List (Field X)) (raw : Dict String (Value X)) : Bool :=
  raw.keys.all (fun k => fields.any fun f => f.name = k) && fields.all fun f =>
    match raw.get? f.name with
    | some v => f.accepts v
    | none => !f.required

end
end ContentOps.Metadata
