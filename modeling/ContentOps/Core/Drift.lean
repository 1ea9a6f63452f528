import ContentOps.Core.Discovery
import ContentOps.Core.Slug
import Mathlib.Data.Prod.Lex

/-! Drift detection, `core/drift.py`: the remote inventory of an asset kind is matched with the
local envelopes and classified. -/

namespace ContentOps
open PyData

abbrev Document (X : Type) := Dict String (Value X)

structure DriftHandler (X : Type) where
  asset : Asset
  listRemote : Except String (List (Document X))
  toEnvelope : Document X → Option (Document X)

inductive DriftKind where
  | new
  | changed
  | inSync
  | error
deriving DecidableEq, Repr

structure DriftEntry (X : Type) where
  asset : Asset
  assetId : String
  kind : DriftKind
  envelope : Option (Document X) := none
  localPath : Option Path := none
  error : Option String := none

/-! ## Comparing payloads -/

section
variable {X : Type}

/-- `\r\n` and `\r` become `\n`. -/
def unifyNewlines : Text → Text
  | '\r' :: '\n' :: cs => '\n' :: unifyNewlines cs
  | '\r' :: cs => '\n' :: unifyNewlines cs
  | c :: cs => c :: unifyNewlines cs
  | [] => []

theorem unifyNewlines_eq_self {t : Text} (h : ∀ c ∈ t, c ≠ '\r') : unifyNewlines t = t := by
  induction t with
  | nil => rfl
  | cons c t ih =>
    have hc := h c List.mem_cons_self
    rw [unifyNewlines, ih fun d hd => h d (List.mem_cons_of_mem _ hd)]
    · rintro _ rfl
      exact absurd rfl hc
    · rintro rfl
      exact absurd rfl hc

/-- The lines without their trailing whitespace, and no newline at the end. -/
def cleanText (t : Text) : Text :=
  (['\n'].intercalate (((unifyNewlines t).splitOn '\n').map Text.rstrip)).rdropWhile (· = '\n')

mutual

/-- `_normalize`. -/
def normalize : Value X → Value X
  | .dict d => .dict ((normalizeEntries d).insertionSort fun p q => p.1 ≤ q.1)
  | .list vs => .list (normalizeItems vs)
  | .str s => .str (String.ofList (cleanText s.toList))
  | .null => .null
  | .bool b => .bool b
  | .int n => .int n
  | .scalar x => .scalar x

def normalizeItems : List (Value X) → List (Value X)
  | [] => []
  | v :: vs => normalize v :: normalizeItems vs

def normalizeEntries : List (String × Value X) → List (String × Value X)
  | [] => []
  | (k, v) :: d => (k, normalize v) :: normalizeEntries d

end

/-! ## The local index -/

abbrev LocalIndex (X : Type) := Dict String (Path × Value X)

/-- One round of the loop of `_local_index`. -/
def register (index : LocalIndex X) (la : LoadedAsset X) : LocalIndex X :=
  let index := index.set la.envelope.id (la.path, la.payload)
  match la.envelope.armName with
  | some a => if a = "" then index else index.set a (la.path, la.payload)
  | none => index

/-- The authoritative name of a remote item. -/
def remoteKey (remote : Document X) : String :=
  orText (Value.textAt remote "name") (Value.textAt remote "id")

/-- The local file a remote item is matched with. -/
def matchLocal (index : LocalIndex X) (remote : Document X) (assetId : String) :
    Option (Path × Value X) :=
  let key := remoteKey remote
  (if key = "" then none else index.get? key).orElse fun _ => index.get? assetId

/-! ## The remote side -/

def envelopeKey (envelope : Document X) : String × String :=
  (Value.textAt envelope "asset", Value.textAt envelope "id")

def envelopeArmName (envelope : Document X) : String :=
  match envelope.get? "metadata" with
  | some (.dict md) => Value.textAt md "arm_name"
  | _ => ""

/-- One round of the loop of `disambiguate_envelope_ids`. -/
def disambiguateId (envelopes : List (Document X)) (envelope : Document X) : Document X :=
  if 1 < (envelopes.map envelopeKey).count (envelopeKey envelope) then
    envelope.set "id" (.str (Slug.disambiguate (Value.textAt envelope "id")
      (envelopeArmName envelope)))
  else envelope

def disambiguateEnvelopeIds (envelopes : List (Document X)) : List (Document X) :=
  envelopes.map (disambiguateId envelopes)

/-- An envelope and the remote item it was made from. -/
structure RemotePair (X : Type) where
  envelope : Document X
  remote : Document X

def pairKey (p : RemotePair X) : Lex (String × String) :=
  toLex (Value.textAt p.envelope "id", Value.textAt p.remote "name")

def remotePairs (h : DriftHandler X) (items : List (Document X)) : List (RemotePair X) :=
  (items.filterMap fun r => (h.toEnvelope r).map (⟨·, r⟩)).insertionSort
    fun p q => pairKey p ≤ pairKey q

/-! ## Classification -/

variable [Value.ScalarEq X]

def payloadsMatch (localPayload remotePayload : Value X) : Bool :=
  Value.pyEq (normalize localPayload) (normalize remotePayload)

/-- One round of the loop of `detect_drift`. -/
def driftEntry (asset : Asset) (index : LocalIndex X) (pair : RemotePair X) (disambiguated : String) :
    Option (DriftEntry X) :=
  let assetId := orText disambiguated (Value.textAt pair.envelope "id")
  if assetId = "" then none
  else
    let envelope := pair.envelope.set "id" (.str assetId)
    let newPayload := (envelope.get? "payload").getD (.dict [])
    match matchLocal index pair.remote assetId with
    | none => some { asset, assetId, kind := .new, envelope := some envelope }
    | some (path, payload) =>
      if payloadsMatch payload newPayload then
        some { asset, assetId, kind := .inSync, localPath := some path }
      else some { asset, assetId, kind := .changed, envelope := some envelope, localPath := some path }

variable [Json.FloatText X]

def assetsOfKind (libs : Libs X) (tree : FileTree) (base : Path) (asset : Asset) :
    List (LoadedAsset X) :=
  (loadedAssets libs tree base).filter (·.envelope.asset = asset)

/-- `_local_index`. -/
def localIndex (libs : Libs X) (tree : FileTree) (base : Path) (asset : Asset) : LocalIndex X :=
  (assetsOfKind libs tree base asset).foldl register []

def handlerEntries (libs : Libs X) (tree : FileTree) (base : Path) (h : DriftHandler X) :
    List (DriftEntry X) :=
  match h.listRemote with
  | .error message =>
    [{ asset := h.asset, assetId := "*", kind := .error, error := some message }]
  | .ok items =>
    let pairs := remotePairs h items
    let ids := (disambiguateEnvelopeIds (pairs.map (·.envelope))).map (Value.textAt · "id")
    (pairs.zip ids).filterMap fun (pair, id) =>
      driftEntry h.asset (localIndex libs tree base h.asset) pair id

/-- `detect_drift`. -/
def detectDrift (libs : Libs X) (handlers : List (DriftHandler X)) (tree : FileTree)
    (base : Path) : List (DriftEntry X) :=
  handlers.flatMap (handlerEntries libs tree base)

end
end ContentOps
