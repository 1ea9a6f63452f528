import ContentOps.Core.Drift

/-! Writing drift to disk, `core/drift.py` and `utils/yaml_io.py`: what of the local file is kept,
the sidecar of a playbook, and the YAML text. -/

namespace ContentOps
open PyData

/-! ## Text as the YAML writer leaves it -/

/-- `_str_representer`: a text of several lines, or a long one, loses its trailing whitespace. -/
def representText (t : Text) : Text :=
  let t := unifyNewlines t
  if '\n' ∈ t ∨ 80 < t.length then cleanText t else t

def representString (s : String) : String := String.ofList (representText s.toList)

/-- `str.isdigit`, and `int` of a text; `none` is `ValueError`. -/
structure Digits where
  isdigit : String → Bool
  int : String → Option Nat

section
variable {X : Type}

mutual

/-- A document with every text, the keys included, as the representer hands it on. -/
def represent : Value X → Value X
  | .dict d => .dict (representEntries d)
  | .list vs => .list (representItems vs)
  | .str s => .str (representString s)
  | .null => .null
  | .bool b => .bool b
  | .int n => .int n
  | .scalar x => .scalar x

def representItems : List (Value X) → List (Value X)
  | [] => []
  | v :: vs => represent v :: representItems vs

def representEntries : List (String × Value X) → List (String × Value X)
  | [] => []
  | (k, v) :: d => (representString k, represent v) :: representEntries d

end

/-- `dump_envelope_yaml`. -/
def dumpEnvelopeYaml (libs : Libs X) (envelope : Document X) : Text :=
  libs.dump (represent (.dict envelope))

/-! ## What stays of the local file -/

/-- The document of a local file; a file that is not read or is no mapping has none. -/
def localDocument (libs : Libs X) (tree : FileTree) (path : Path) : Option (Document X) :=
  ((tree.read path).bind libs.safeLoad).bind Value.dict?

/-- `_bump_patch`; `none` is `ValueError`. -/
def bumpPatch (digits : Digits) : Value X → Option (Value X)
  | .str s =>
    match s.toList.splitOn '.' with
    | [major, minor, patch] =>
      if [major, minor, patch].all fun t => digits.isdigit (String.ofList t) then
        (digits.int (String.ofList patch)).map fun n =>
          .str (String.ofList (major ++ '.' :: minor ++ '.' :: Json.digitsOf (n + 1)))
      else some (.str s)
    | _ => some (.str s)
  | v => some v

/-- `_preserve_local_metadata`. -/
def preserveLocalMetadata (doc : Document X) (envelope : Document X) : Document X :=
  match (Value.get doc "metadata").dict? with
  | none | some [] => envelope
  | some localMeta =>
    match (Value.get envelope "metadata").dict? with
    | some remoteMeta => Dict.set envelope "metadata" (.dict (Dict.merge localMeta remoteMeta))
    | none => Dict.set envelope "metadata" (.dict localMeta)

variable [Value.ScalarEq X]

/-- `_preserve_local_id`. -/
def preserveLocalId (doc : Document X) (envelope : Document X) : Document X :=
  let id := Value.get doc "id"
  if id.truthy then Dict.set envelope "id" id else envelope

/-- `_body_without_version`. -/
def bodyWithoutVersion (libs : Libs X) (envelope : Document X) : Document X :=
  match libs.safeLoad (dumpEnvelopeYaml libs envelope) with
  | none => Dict.erase envelope "version"
  | some (.dict parsed) => Dict.erase parsed "version"
  | some _ => []

/-- `_preserve_local_version`; `none` is an exception. -/
def preserveLocalVersion (libs : Libs X) (digits : Digits) (doc : Document X)
    (envelope : Document X) : Option (Document X) :=
  let version := Value.get doc "version"
  if version.truthy then
    let envelope := Dict.set envelope "version" version
    if Value.pyEq (.dict (bodyWithoutVersion libs envelope)) (.dict (bodyWithoutVersion libs doc)) then
      some envelope
    else (bumpPatch digits version).map (Dict.set envelope "version" ·)
  else some envelope

/-! ## Sidecars -/

def sidecarName (id : String) : String := id ++ ".workflow.json"

abbrev Sidecars := Dict String Text

def sidecarChanged (tree : FileTree) (path : Path) (sidecar : String × Text) : Bool :=
  tree.read (path.sibling sidecar.1) ≠ some sidecar.2

/-- `_bump_for_changed_sidecars`; `none` is an exception. -/
def bumpForChangedSidecars (digits : Digits) (tree : FileTree) (path : Path) (doc : Document X)
    (sidecars : Sidecars) (envelope : Document X) : Option (Document X) :=
  let version := Value.get doc "version"
  if sidecars = [] ∨ !version.truthy ∨ !Value.pyEq (Value.get envelope "version") version then
    some envelope
  else if sidecars.any (sidecarChanged tree path) then
    (bumpPatch digits version).map (Dict.set envelope "version" ·)
  else some envelope

variable [Json.FloatText X]

/-- `split_sidecars`. -/
def splitSidecars (envelope : Document X) : Document X × Sidecars :=
  let payload := ((Value.get envelope "payload").dict?).getD []
  let rest := Dict.erase payload "definition"
  match Value.get payload "definition" with
  | .dict definition =>
    let name := orText (Value.textAt rest "definitionFile") (sidecarName (Value.textAt envelope "id"))
    (Dict.set envelope "payload" (.dict (Dict.set rest "definitionFile" (.str name))),
      [(name, Json.dumps (Json.indent2 false) (Value.sortKeys (.dict definition)) ++ ['\n'])])
  | _ => (Dict.set envelope "payload" (.dict rest), [])

/-- `split_sidecar_files`. -/
def splitSidecarFiles (envelope : Document X) : Document X × Sidecars :=
  if Value.textAt envelope "asset" = Asset.sentinelPlaybook.value then splitSidecars envelope
  else (envelope, [])

/-! ## Writing -/

/-- The envelope that goes to a file that exists; `none` is an exception. -/
def preserveLocal (libs : Libs X) (digits : Digits) (tree : FileTree) (path : Path)
    (sidecars : Sidecars) (envelope : Document X) : Option (Document X) :=
  match localDocument libs tree path with
  | none => some envelope
  | some doc => do
    let envelope := preserveLocalId doc (preserveLocalMetadata doc envelope)
    let envelope ← preserveLocalVersion libs digits doc envelope
    bumpForChangedSidecars digits tree path doc sidecars envelope

def writeSidecar (target : Path) (state : FileTree × List Path) (sidecar : String × Text) :
    FileTree × List Path :=
  if sidecarChanged state.1 target sidecar then
    (state.1.write (target.sibling sidecar.1) sidecar.2, state.2 ++ [target.sibling sidecar.1])
  else state

def newTarget (base : Path) (asset : Asset) (assetId : String) : Path :=
  base ++ [asset.value, assetId ++ ".yml"]

/-- One round of the loop of `write_drift`, on the files and the paths written; `none` is an
exception. -/
def writeEntry (libs : Libs X) (digits : Digits) (base : Path) (state : FileTree × List Path)
    (entry : DriftEntry X) : Option (FileTree × List Path) :=
  match entry.envelope with
  | none => some state
  | some envelope => do
    let (envelope, sidecars) := splitSidecarFiles envelope
    let (target, envelope) ← match entry.localPath with
      | some path => (preserveLocal libs digits state.1 path sidecars envelope).map (path, ·)
      | none => some (newTarget base entry.asset entry.assetId, envelope)
    some (sidecars.foldl (writeSidecar target)
      (state.1.write target (dumpEnvelopeYaml libs envelope), state.2 ++ [target]))

/-- `report.new + report.changed`. -/
def entriesToWrite (report : List (DriftEntry X)) : List (DriftEntry X) :=
  report.filter (·.kind = .new) ++ report.filter (·.kind = .changed)

/-- `write_drift`: the files afterwards and the paths written; `none` is an exception. -/
def writeDrift (libs : Libs X) (digits : Digits) (report : List (DriftEntry X)) (tree : FileTree)
    (base : Path) : Option (FileTree × List Path) :=
  (entriesToWrite report).foldlM (writeEntry libs digits base) (tree, [])

end
end ContentOps
