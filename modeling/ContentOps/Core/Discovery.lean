import ContentOps.Core.Envelope
import ContentOps.Library.Directory
import ContentOps.Library.Json
import Mathlib.Order.Lex
import Mathlib.Data.List.Lex

/-! The YAML files under a detections tree and how each is loaded, as `core/discovery.py` does it.
A path is the list of its parts, and a tree is read in the order `sorted` gives its paths. -/

namespace ContentOps
open PyData

abbrev Path := List String
abbrev FileTree := Directory Path Text

def Path.sibling (p : Path) (name : String) : Path := p.dropLast ++ [name]

def hasSuffix (suffix s : String) : Bool := suffix.toList <:+ s.toList

-- `str.lower`, for comparison with a text in small letters: no other letter turns into one of
-- the letters of these names.
def lowerAscii (s : String) : String := String.ofList (s.toList.map Char.toLower)

def skipSegments : List String := ["templates", "samples"]

def skipFilenames : List String := ["dependencies.yml", "drift_suppressions.yml"]

def isSkippedPath (p : Path) : Bool :=
  skipSegments.any (fun seg => seg ∈ p.map lowerAscii) ||
    (p.getLast?.map lowerAscii).any (· ∈ skipFilenames)

/-- `base.rglob("*" + suffix)`. -/
def isUnder (base : Path) (suffix : String) (p : Path) : Bool :=
  base <+: p && base.length < p.length && p.getLast?.any (hasSuffix suffix)

def discoverAssets (tree : FileTree) (base : Path) : List Path :=
  (tree.glob fun p => isUnder base ".yml" p && !isSkippedPath p).keys

structure LoadedAsset (X : Type) where
  path : Path
  envelope : EnvelopeV2
  payload : Value X

section
variable {X : Type} [Value.ScalarEq X] [Json.FloatText X]

def isSidecarName (name : String) : Bool :=
  !(name.toList.any fun c => c = '/' || c = '\\') && name ∉ [".", ".."] &&
    hasSuffix ".workflow.json" name

/-- `_inline_playbook_sidecar`; `none` is an exception. -/
def inlinePlaybookSidecar (tree : FileTree) (path : Path) (payload : Value X) :
    Option (Value X) :=
  match payload.dict? with
  | some d =>
    let sidecar := Value.get d "definitionFile"
    if !sidecar.truthy then some payload
    else if d.contains "definition" then none
    else do
      let name ← sidecar.text?
      if !isSidecarName name then none
      else do
        let definition ← (← Json.loads (← tree.read (path.sibling name))).dict?
        some (.dict ((d.erase "definitionFile").set "definition" (.dict definition)))
  | none => some payload

/-- `load_asset` of a file with this text; `none` is an exception. -/
def loadAsset (libs : Libs X) (tree : FileTree) (path : Path) (content : Text) :
    Option (LoadedAsset X) := do
  let raw ← libs.safeLoad content
  let parsed ← parseEnvelope libs.laxInt raw
  let payload ← (if parsed.1.asset = .sentinelPlaybook then
    inlinePlaybookSidecar tree path parsed.2 else some parsed.2)
  some { path, envelope := parsed.1, payload }

/-- `iter_loaded_assets`: the files that load, in path order. -/
def loadedAssets (libs : Libs X) (tree : FileTree) (base : Path) : List (LoadedAsset X) :=
  (discoverAssets tree base).filterMap fun p => (tree.read p).bind (loadAsset libs tree p)

variable {libs : Libs X} {tree : FileTree} {base : Path}

theorem loadAsset_eq_some {path : Path} {content : Text} {la : LoadedAsset X}
    (h : loadAsset libs tree path content = some la) : la.path = path ∧
      ∃ raw payload, libs.safeLoad content = some raw ∧
        parseEnvelope libs.laxInt raw = some (la.envelope, payload) := by
  unfold loadAsset at h
  obtain ⟨raw, hraw, h⟩ := Option.bind_eq_some_iff.mp h
  obtain ⟨⟨envelope, payload⟩, hparse, h⟩ := Option.bind_eq_some_iff.mp h
  obtain ⟨payload', -, h⟩ := Option.bind_eq_some_iff.mp h
  obtain rfl := Option.some.inj h
  exact ⟨rfl, raw, payload, hraw, hparse⟩

theorem mem_loadedAssets {la : LoadedAsset X} : la ∈ loadedAssets libs tree base ↔
    la.path ∈ discoverAssets tree base ∧ ∃ content, tree.read la.path = some content ∧
      loadAsset libs tree la.path content = some la := by
  unfold loadedAssets
  simp only [List.mem_filterMap, Option.bind_eq_some_iff]
  constructor
  · rintro ⟨p, hp, content, hread, hload⟩
    obtain rfl := (loadAsset_eq_some hload).1
    exact ⟨hp, content, hread, hload⟩
  · rintro ⟨hp, content, hread, hload⟩
    exact ⟨la.path, hp, content, hread, hload⟩

/-- A path is loaded to one asset. -/
theorem loadedAssets_path_inj {la lb : LoadedAsset X} (ha : la ∈ loadedAssets libs tree base)
    (hb : lb ∈ loadedAssets libs tree base) (hpath : la.path = lb.path) : la = lb := by
  obtain ⟨-, ca, hreada, hloada⟩ := mem_loadedAssets.mp ha
  obtain ⟨-, cb, hreadb, hloadb⟩ := mem_loadedAssets.mp hb
  rw [hpath] at hreada hloada
  rw [hreada, Option.some.injEq] at hreadb
  rw [hreadb, hloadb] at hloada
  exact (Option.some.inj hloada).symm

theorem id_ne_empty {la : LoadedAsset X} (h : la ∈ loadedAssets libs tree base) :
    la.envelope.id ≠ "" := by
  obtain ⟨-, content, -, hload⟩ := mem_loadedAssets.mp h
  obtain ⟨-, raw, payload, -, hparse⟩ := loadAsset_eq_some hload
  obtain ⟨d, -, hread, -⟩ := parseEnvelope_eq_some hparse
  intro hid
  have hvalid := hread.validId
  rw [hid] at hvalid
  exact absurd hvalid (by decide)

end
end ContentOps
