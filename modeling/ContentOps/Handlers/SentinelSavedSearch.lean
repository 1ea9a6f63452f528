import ContentOps.Core.Envelope
import ContentOps.Handlers.SentinelAnalytic
import ContentOps.Library.Tagged

/-! What the handlers of hunting queries and of parsers collect and send,
`handlers/sentinel_hunting.py`, `handlers/sentinel_hunting_models.py` and
`handlers/sentinel_parser.py`: both are saved searches. -/

namespace ContentOps.SavedSearch
open PyData

/-! ## What both have in common -/

/-- `SavedSearchTag`: a name and a value. -/
abbrev SavedSearchTag := String × String

/-- The properties of a saved search that the handlers read or send; what is null counts as absent. -/
structure Properties where
  category : Option String := none
  displayName : Option String := none
  query : Option String := none
  version : Option Int := none
  functionAlias : Option String := none
  functionParameters : Option String := none
  tags : Option (List SavedSearchTag) := none
deriving DecidableEq, Repr

structure Remote where
  name : String
  properties : Properties
deriving DecidableEq, Repr

/-- What `to_envelope` returns, with a payload of the model `P`. -/
structure Envelope (P : Type) where
  id : String
  version : String := SentinelAnalytic.collectBaselineVersion
  asset : Asset
  status : String := "production"
  armName : Option String := none
  payload : P

/-- `PUT` on a saved search. -/
structure Put where
  resource : String
  properties : Properties
deriving DecidableEq, Repr

/-- `value or None`. -/
def orNone (s : Option String) : Option String := s.filter (· ≠ "")

/-- A list under `if values:`. -/
def listOrNone {α : Type} (values : List α) : Option (List α) :=
  if values.isEmpty then none else some values

/-- `[t for t in value.split(",") if t]`. -/
def splitValue (value : String) : List String :=
  ((value.toList.splitOn ',').filter (· ≠ [])).map String.ofList

/-- `",".join(values)`. -/
def joinValues (values : List String) : String :=
  String.ofList ([','].intercalate (values.map String.toList))

/-- A saved search is sent in every status but these two. -/
def skipped (status : String) : Bool := status = "experimental" ∨ status = "deprecated"

def tagsValid (tags : Option (List SavedSearchTag)) : Bool :=
  (tags.getD []).all fun tag => tag.1 ≠ ""

def textValid (displayName query : String) : Bool :=
  1 ≤ displayName.length ∧ displayName.length ≤ 255 ∧ query ≠ ""

/-! ## Hunting queries -/

namespace Hunting

def huntingCategory : String := "Hunting Queries"

structure SentinelHuntingPayload where
  displayName : String
  query : String
  category : String := huntingCategory
  description : Option String := none
  tactics : Option (List String) := none
  techniques : Option (List String) := none
  version : Int := 2
  functionAlias : Option String := none
  functionParameters : Option String := none
  tags : Option (List SavedSearchTag) := none
deriving DecidableEq, Repr

def SentinelHuntingPayload.validates (p : SentinelHuntingPayload) : Bool :=
  textValid p.displayName p.query && p.category = huntingCategory && 1 ≤ p.version &&
    tagsValid p.tags

/-- The variables of the loop over the tags in `to_envelope`. -/
structure TagFields where
  description : Option String := none
  tactics : Option (List String) := none
  techniques : Option (List String) := none
  extraTags : List SavedSearchTag := []

/-- One round of that loop. -/
def TagFields.add (fields : TagFields) (tag : SavedSearchTag) : TagFields :=
  if tag.1 = "description" then { fields with description := some tag.2 }
  else if tag.1 = "tactics" then { fields with tactics := some (splitValue tag.2) }
  else if tag.1 = "techniques" then { fields with techniques := some (splitValue tag.2) }
  else { fields with extraTags := fields.extraTags ++ [tag] }

/-- `to_envelope`, with the payload as the model reads it. -/
def toEnvelope (remote : Remote) : Option (Envelope SentinelHuntingPayload) :=
  let properties := remote.properties
  if remote.name = "" then none
  else if properties.category ≠ some huntingCategory then none
  else
    let fields := (properties.tags.getD []).foldl TagFields.add {}
    some
      { id := remote.name
        asset := .sentinelHunting
        armName := some remote.name
        payload :=
          { displayName := properties.displayName.getD ""
            query := properties.query.getD ""
            version := properties.version.getD 2
            functionAlias := orNone properties.functionAlias
            functionParameters := orNone properties.functionParameters
            description := orNone fields.description
            tactics := fields.tactics.bind listOrNone
            techniques := fields.techniques.bind listOrNone
            tags := listOrNone fields.extraTags } }

/-- `_tags_for`. -/
def tagsFor (payload : SentinelHuntingPayload) : List SavedSearchTag :=
  ((orNone payload.description).map fun v => ("description", v)).toList ++
    ((payload.tactics.bind listOrNone).map fun vs => ("tactics", joinValues vs)).toList ++
    ((payload.techniques.bind listOrNone).map fun vs => ("techniques", joinValues vs)).toList ++
    payload.tags.getD []

/-- The properties in `to_savedsearch_arm_body`. -/
def toSavedsearchArmBody (payload : SentinelHuntingPayload) : Properties where
  category := some payload.category
  displayName := some payload.displayName
  query := some payload.query
  version := some payload.version
  functionAlias := orNone payload.functionAlias
  functionParameters := orNone payload.functionParameters
  tags := listOrNone (tagsFor payload)

/-- The `PUT` of `apply`. -/
def apply (loaded : Envelope SentinelHuntingPayload) : Option Put :=
  if skipped loaded.status then none
  else some { resource := loaded.id, properties := toSavedsearchArmBody loaded.payload }

/-- The envelope that is made of a saved search, when it can be loaded. -/
def converted (remote : Remote) : Option (Envelope SentinelHuntingPayload) :=
  (toEnvelope remote).filter fun e => isEnvelopeId e.id && e.payload.validates

end Hunting

/-! ## Parsers -/

namespace Parser

def parserCategory : String := "Function"

structure SentinelParserPayload where
  displayName : String
  query : String
  category : String := parserCategory
  functionAlias : String
  functionParameters : Option String := none
  description : Option String := none
  version : Int := 2
  tags : Option (List SavedSearchTag) := none
deriving DecidableEq, Repr

def SentinelParserPayload.validates (p : SentinelParserPayload) : Bool :=
  textValid p.displayName p.query && p.category = parserCategory && p.functionAlias ≠ "" &&
    1 ≤ p.version && tagsValid p.tags

/-- The variables of the loop over the tags in `to_envelope`. -/
structure TagFields where
  description : Option String := none
  extraTags : List SavedSearchTag := []

/-- One round of that loop. -/
def TagFields.add (fields : TagFields) (tag : SavedSearchTag) : TagFields :=
  if tag.1 = "description" then { fields with description := some tag.2 }
  else { fields with extraTags := fields.extraTags ++ [tag] }

/-- `to_envelope`, with the payload as the model reads it. -/
def toEnvelope (remote : Remote) : Option (Envelope SentinelParserPayload) :=
  let properties := remote.properties
  if remote.name = "" then none
  else if properties.category ≠ some parserCategory then none
  else
    let fields := (properties.tags.getD []).foldl TagFields.add {}
    some
      { id := remote.name
        asset := .sentinelParser
        payload :=
          { displayName := properties.displayName.getD ""
            query := properties.query.getD ""
            functionAlias := (orNone properties.functionAlias).getD remote.name
            version := properties.version.getD 2
            functionParameters := orNone properties.functionParameters
            description := orNone fields.description
            tags := listOrNone fields.extraTags } }

/-- `_tags_for`. -/
def tagsFor (payload : SentinelParserPayload) : List SavedSearchTag :=
  ((orNone payload.description).map fun v => ("description", v)).toList ++ payload.tags.getD []

/-- The properties in `to_parser_arm_body`. -/
def toParserArmBody (payload : SentinelParserPayload) : Properties where
  category := some payload.category
  displayName := some payload.displayName
  query := some payload.query
  version := some payload.version
  functionAlias := some payload.functionAlias
  functionParameters := orNone payload.functionParameters
  tags := listOrNone (tagsFor payload)

/-- The `PUT` of `apply`. -/
def apply (loaded : Envelope SentinelParserPayload) : Option Put :=
  if skipped loaded.status then none
  else some { resource := loaded.id, properties := toParserArmBody loaded.payload }

/-- The envelope that is made of a saved search, when it can be loaded. -/
def converted (remote : Remote) : Option (Envelope SentinelParserPayload) :=
  (toEnvelope remote).filter fun e => isEnvelopeId e.id && e.payload.validates

end Parser
end ContentOps.SavedSearch
