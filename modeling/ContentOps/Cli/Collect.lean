import ContentOps.Core.Drift
import ContentOps.Library.DateTime

/-! What `collect` does between listing the tenant and writing files, `cli/commands/collect.py` and
`collect_support.py`: the timestamp filter and the classification of the collected items. -/

namespace ContentOps
open PyData

/-- A handler whose `to_envelope` may also raise. -/
structure CollectHandler (X : Type) extends DriftHandler X where
  raises : Document X → Bool

def DriftHandler.steady {X : Type} (h : DriftHandler X) : CollectHandler X :=
  { h with raises := fun _ => false }

section
variable {X : Type}

/-! ## Listing -/

structure Listing (X : Type) where
  results : Dict String (List (Document X))
  failedKinds : Dict String String

def recordListing (listing : Listing X) (h : CollectHandler X) : Listing X :=
  match h.listRemote with
  | .ok items => { listing with results := listing.results.set h.asset.value items }
  | .error message =>
    { results := listing.results.set h.asset.value []
      failedKinds := listing.failedKinds.set h.asset.value message }

/-- `_list_remote_parallel`. -/
def listRemoteParallel (handlers : List (CollectHandler X)) : Listing X :=
  handlers.foldl recordListing { results := [], failedKinds := [] }

/-- What the listing of a kind leaves to classify. -/
def CollectHandler.listed (h : CollectHandler X) : List (Document X) :=
  match h.listRemote with
  | .ok items => items
  | .error _ => []

theorem recordListing_results (listing : Listing X) (h : CollectHandler X) :
    (recordListing listing h).results = listing.results.set h.asset.value h.listed := by
  unfold recordListing CollectHandler.listed
  cases h.listRemote <;> rfl

theorem results_foldl_of_notMem {handlers : List (CollectHandler X)} {a : Asset}
    (ha : a ∉ handlers.map (·.asset)) (listing : Listing X) :
    (handlers.foldl recordListing listing).results.get? a.value =
      listing.results.get? a.value := by
  induction handlers generalizing listing with
  | nil => rfl
  | cons h handlers ih =>
    obtain ⟨hne, hrest⟩ := not_or.mp (mt List.mem_cons.mpr ha)
    have hvalue : h.asset.value ≠ a.value := fun e => hne (Asset.value_injective e).symm
    rw [List.foldl_cons, ih hrest, recordListing_results, Dict.get?_set, if_neg hvalue]

/-- One handler a kind: each kind has the items of its own listing. -/
theorem results_of_mem {handlers : List (CollectHandler X)}
    (hassets : (handlers.map (·.asset)).Nodup) {h : CollectHandler X} (hh : h ∈ handlers) :
    (listRemoteParallel handlers).results.get? h.asset.value = some h.listed := by
  unfold listRemoteParallel
  generalize ({ results := [], failedKinds := [] } : Listing X) = listing
  induction handlers generalizing listing with
  | nil => exact absurd hh (by simp)
  | cons h' handlers ih =>
    obtain ⟨hnot, hrest⟩ := List.nodup_cons.mp hassets
    rw [List.foldl_cons]
    rcases List.mem_cons.mp hh with rfl | hh
    · rw [results_foldl_of_notMem hnot, recordListing_results, Dict.get?_set_self]
    · exact ih hrest hh _

/-! ## The timestamp filter -/

variable [Value.ScalarEq X] (fromisoformat : String → Option Stamp)

def timestampFields : List String :=
  ["lastUpdatedTimeUtc", "lastModifiedTimeUtc", "lastModifiedUtc", "lastUpdatedDateTime",
    "lastUpdated", "createdDateTime", "createdTimeUtc", "ingestedDateTime"]

/-- `_parse_since`. -/
def parseSince (value : String) : Option Stamp := fromisoformat (normaliseZ value)

/-- `_coerce`. -/
def coerceTimestamp (text : String) : Option Stamp :=
  if text = "" then none else fromisoformat (normaliseZ text)

/-- The first of the timestamp fields of a source that reads as a time. -/
def sourceTimestamp (source : Value X) : Option Stamp := do
  let d ← source.dict?
  timestampFields.findSome? fun field =>
    (Value.get d field).text?.bind (coerceTimestamp fromisoformat)

/-- `_remote_timestamp`. -/
def remoteTimestamp (remote : Document X) : Option Stamp :=
  let properties := (Value.get remote "properties").orElse (.dict [])
  [properties, .dict remote].findSome? (sourceTimestamp fromisoformat)

/-- Whether the filter drops an item; `none` is the `TypeError` of the comparison. -/
def isOlder (since : Option Stamp) (remote : Document X) : Option Bool :=
  match since, remoteTimestamp fromisoformat remote with
  | some since, some ts => ts.before? since
  | _, _ => some false

/-! ## Classification -/

/-- The items that stay, each with its envelope; `none` is an exception. -/
def collectPairs (h : CollectHandler X) (since : Option Stamp) :
    List (Document X) → Option (List (RemotePair X))
  | [] => some []
  | r :: rs => do
    if ← isOlder fromisoformat since r then collectPairs h since rs
    else if h.raises r then none
    else
      let rest ← collectPairs h since rs
      match h.toEnvelope r with
      | none => some rest
      | some envelope => some (⟨envelope, r⟩ :: rest)

/-- One round of the second loop of `_classify_collected_drift`. -/
def collectEntry (asset : Asset) (index : LocalIndex X) (envelope remote : Document X) :
    Option (DriftEntry X) :=
  let assetId := Value.textAt envelope "id"
  if assetId = "" then none
  else
    let newPayload := (envelope.get? "payload").getD (.dict [])
    match matchLocal index remote assetId with
    | none => some { asset, assetId, kind := .new, envelope := some envelope }
    | some (path, payload) =>
      if payloadsMatch payload newPayload then
        some { asset, assetId, kind := .inSync, localPath := some path }
      else some { asset, assetId, kind := .changed, envelope := some envelope, localPath := some path }

variable [Json.FloatText X]

def collectHandlerEntries (libs : Libs X) (results : Dict String (List (Document X)))
    (tree : FileTree) (base : Path) (since : Option Stamp) (h : CollectHandler X) :
    Option (List (DriftEntry X)) := do
  let index := localIndex libs tree base h.asset
  let pairs ← collectPairs fromisoformat h since ((results.get? h.asset.value).getD [])
  let envelopes := disambiguateEnvelopeIds (pairs.map (·.envelope))
  some ((envelopes.zip pairs).filterMap fun (envelope, pair) =>
    collectEntry h.asset index envelope pair.remote)

/-- `_classify_collected_drift`; `none` is an exception. -/
def classifyCollectedDrift (libs : Libs X) (handlers : List (CollectHandler X))
    (results : Dict String (List (Document X))) (tree : FileTree) (base : Path)
    (since : Option Stamp) : Option (List (DriftEntry X)) := do
  let entries ← handlers.mapM (collectHandlerEntries fromisoformat libs results tree base since)
  some entries.flatten

end
end ContentOps
