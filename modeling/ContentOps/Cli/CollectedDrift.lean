import ContentOps.Cli.Collect
import ContentOps.Core.DriftEntries
import Mathlib.Data.List.Flatten
import ContentOps.Library.OptionMap

/-! `collect` and `drift` classify the same inventory. The timestamp filter runs before the ids are
told apart, so an item can lose the collision that gave it its id. -/

namespace ContentOps
open PyData

section
variable {X : Type}

/-- The id survives the filter where the collisions do, or where a collision leaves the id alone. -/
theorem textAt_disambiguateId_eq_iff {kept all : List (Document X)} (hsub : kept.Sublist all)
    {e : Document X} :
    Value.textAt (disambiguateId kept e) "id" = Value.textAt (disambiguateId all e) "id" ↔
      (1 < (all.map envelopeKey).count (envelopeKey e) →
        1 < (kept.map envelopeKey).count (envelopeKey e) ∨
          Slug.disambiguate (Value.textAt e "id") (envelopeArmName e) = Value.textAt e "id") := by
  have hcount := (hsub.map envelopeKey).count_le (envelopeKey e)
  have hset : ∀ v, Value.textAt (e.set "id" (.str v)) "id" = v := by
    intro v
    simp [Value.textAt]
  unfold disambiguateId
  by_cases hall : 1 < (all.map envelopeKey).count (envelopeKey e)
  · by_cases hkept : 1 < (kept.map envelopeKey).count (envelopeKey e)
    · simp [hall, hkept]
    · simp only [hall, hkept, if_true, if_false, hset, forall_const, false_or]
      exact eq_comm
  · have hkept : ¬ 1 < (kept.map envelopeKey).count (envelopeKey e) := by omega
    simp [hall, hkept]

theorem zip_map_self {α β γ : Type} (l : List α) (f : α → β) (g : β × α → Option γ) :
    ((l.map f).zip l).filterMap g = l.filterMap fun a => g (f a, a) := by
  induction l with
  | nil => rfl
  | cons a l ih => simp only [List.map_cons, List.zip_cons_cons, List.filterMap_cons, ih]

variable [Value.ScalarEq X] (fromisoformat : String → Option Stamp)

/-- The items the filter keeps. -/
def keptItems (since : Option Stamp) (items : List (Document X)) : List (Document X) :=
  items.filter fun r => isOlder fromisoformat since r ≠ some true

theorem keptItems_none (items : List (Document X)) : keptItems fromisoformat none items = items := by
  apply List.filter_eq_self.mpr
  intro r _
  simp [isOlder]

theorem keptItems_sublist (since : Option Stamp) (h : DriftHandler X) (items : List (Document X)) :
    (envelopePairs h (keptItems fromisoformat since items)).Sublist (envelopePairs h items) :=
  List.filter_sublist.filterMap _

theorem collectPairs_eq_some {h : DriftHandler X} {since : Option Stamp} {items : List (Document X)}
    {pairs : List (RemotePair X)} :
    collectPairs fromisoformat h.steady since items = some pairs ↔
      (∀ r ∈ items, (isOlder fromisoformat since r).isSome) ∧
        pairs = envelopePairs h (keptItems fromisoformat since items) := by
  induction items generalizing pairs with
  | nil =>
    simp only [collectPairs, envelopePairs, keptItems, List.filter_nil, List.filterMap_nil,
      Option.some.injEq, List.not_mem_nil, false_implies, implies_true, true_and]
    exact eq_comm
  | cons r rs ih =>
    have hsplit : ∀ b, isOlder fromisoformat since r = some b →
        (collectPairs fromisoformat h.steady since (r :: rs) = some pairs ↔
          (∀ r ∈ rs, (isOlder fromisoformat since r).isSome) ∧
            pairs = envelopePairs h (keptItems fromisoformat since (r :: rs))) := by
      intro b hb
      cases b with
      | true =>
        have hkept : keptItems fromisoformat since (r :: rs) = keptItems fromisoformat since rs := by
          simp [keptItems, hb]
        simp only [collectPairs, hb, hkept, Option.bind_eq_bind, Option.bind_some, if_true, ih]
      | false =>
        have hkept : keptItems fromisoformat since (r :: rs) =
            r :: keptItems fromisoformat since rs := by
          simp [keptItems, hb]
        simp only [collectPairs, hb, hkept, Option.bind_eq_bind, Option.bind_some,
          Bool.false_eq_true, if_false, DriftHandler.steady, Option.bind_eq_some_iff]
        simp only [DriftHandler.steady] at ih
        constructor
        · rintro ⟨rest, hrest, hpairs⟩
          obtain ⟨hcomp, rfl⟩ := ih.mp hrest
          refine ⟨hcomp, ?_⟩
          cases he : h.toEnvelope r <;> simp_all [envelopePairs]
        · rintro ⟨hcomp, rfl⟩
          refine ⟨_, ih.mpr ⟨hcomp, rfl⟩, ?_⟩
          cases he : h.toEnvelope r <;> simp_all [envelopePairs]
    cases hold : isOlder fromisoformat since r with
    | none => simp [collectPairs, hold]
    | some b =>
      rw [hsplit b hold, List.forall_mem_cons]
      simp [hold]

theorem isOlder_isSome {since : Stamp} {r : Document X} :
    (isOlder fromisoformat (some since) r).isSome ↔
      ∀ ts, remoteTimestamp fromisoformat r = some ts → ts.aware = since.aware := by
  unfold isOlder
  cases hts : remoteTimestamp fromisoformat r with
  | none => simp
  | some ts => simp [Stamp.before?_isSome]

/-! ## Both reports entry by entry -/

/-- Classifying a collected item is what `detect_drift` does with the same id. -/
theorem collectEntry_eq (asset : Asset) (index : LocalIndex X) (envelopes : List (Document X))
    (p : RemotePair X) :
    collectEntry asset index (disambiguateId envelopes p.envelope) p.remote =
      driftEntry asset index p (Value.textAt (disambiguateId envelopes p.envelope) "id") := by
  unfold collectEntry driftEntry
  generalize hid : Value.textAt (disambiguateId envelopes p.envelope) "id" = assetId
  dsimp only
  by_cases hempty : assetId = ""
  · have hown := textAt_disambiguateId_eq_empty (hid.trans hempty)
    simp [hempty, orText, hown]
  · have hor : orText assetId (Value.textAt p.envelope "id") = assetId := if_neg hempty
    rw [hor, disambiguateId_eq_set hid hempty] <;> rfl

variable [Json.FloatText X]
variable (libs : Libs X) (tree : FileTree) (base : Path)

/-- The entry of an item among the collected envelopes. -/
def collectedEntryOf (since : Option Stamp) (h : DriftHandler X) (items : List (Document X))
    (p : RemotePair X) : Option (DriftEntry X) :=
  let envelopes := (envelopePairs h (keptItems fromisoformat since items)).map (·.envelope)
  collectEntry h.asset (localIndex libs tree base h.asset) (disambiguateId envelopes p.envelope)
    p.remote

/-- `_classify_collected_drift` after listing these handlers. -/
def collectedDrift (handlers : List (DriftHandler X)) (since : Option Stamp) :
    Option (List (DriftEntry X)) :=
  let handlers := handlers.map DriftHandler.steady
  classifyCollectedDrift fromisoformat libs handlers (listRemoteParallel handlers).results tree base
    since

/-- The same tenant, whose API lists the items of a kind in another order. -/
structure SameTenant (h h' : DriftHandler X) : Prop where
  asset : h'.asset = h.asset
  toEnvelope : h'.toEnvelope = h.toEnvelope
  items : ∃ items items', h.listRemote = .ok items ∧ h'.listRemote = .ok items' ∧ items'.Perm items

/-- `collect` reports what `drift` does, and with `--since` a part of it, item by item. -/
structure ClassifiesLikeDrift (handlers : List (DriftHandler X)) (since : Stamp) : Prop where
  everything : ∃ report, collectedDrift fromisoformat libs tree base handlers none = some report ∧
    ∀ handlers', List.Forall₂ SameTenant handlers handlers' →
      report.Perm (detectDrift libs handlers' tree base)
  filtered : ∃ report, collectedDrift fromisoformat libs tree base handlers (some since) =
      some report ∧ ∀ handlers', List.Forall₂ SameTenant handlers handlers' →
    report.Subperm (detectDrift libs handlers' tree base)
  kept : ∀ h ∈ handlers, ∀ items, h.listRemote = .ok items →
    ∀ p ∈ envelopePairs h (keptItems fromisoformat (some since) items),
      collectedEntryOf fromisoformat libs tree base (some since) h items p =
        entryOf libs tree base h items p

/-- The timestamps compare with the given one, and no item loses the collision of its id. -/
structure FilterIsHarmless (handlers : List (DriftHandler X)) (since : Stamp) : Prop where
  comparable : ∀ h ∈ handlers, ∀ items, h.listRemote = .ok items → ∀ r ∈ items, ∀ ts,
    remoteTimestamp fromisoformat r = some ts → ts.aware = since.aware
  collides : ∀ h ∈ handlers, ∀ items, h.listRemote = .ok items →
    ∀ p ∈ envelopePairs h (keptItems fromisoformat (some since) items),
      1 < ((envelopePairs h items).map (envelopeKey ·.envelope)).count (envelopeKey p.envelope) →
      1 < ((envelopePairs h (keptItems fromisoformat (some since) items)).map
        (envelopeKey ·.envelope)).count (envelopeKey p.envelope) ∨
      Slug.disambiguate (Value.textAt p.envelope "id") (envelopeArmName p.envelope) =
        Value.textAt p.envelope "id"

variable {libs tree base fromisoformat}

theorem collectHandlerEntries_eq_some {results : Dict String (List (Document X))}
    {since : Option Stamp} {h : DriftHandler X} {items : List (Document X)}
    (hitems : results.get? h.asset.value = some items) {entries : List (DriftEntry X)} :
    collectHandlerEntries fromisoformat libs results tree base since h.steady = some entries ↔
      (∀ r ∈ items, (isOlder fromisoformat since r).isSome) ∧
        entries = (envelopePairs h (keptItems fromisoformat since items)).filterMap
          (collectedEntryOf fromisoformat libs tree base since h items) := by
  have hresults : (results.get? h.steady.asset.value).getD [] = items := by
    rw [show h.steady.asset = h.asset from rfl, hitems]
    rfl
  have hzip : ∀ pairs : List (RemotePair X),
      ((disambiguateEnvelopeIds (pairs.map (·.envelope))).zip pairs).filterMap (fun x =>
          collectEntry h.asset (localIndex libs tree base h.asset) x.1 x.2.remote) =
        pairs.filterMap fun p => collectEntry h.asset (localIndex libs tree base h.asset)
          (disambiguateId (pairs.map (·.envelope)) p.envelope) p.remote := by
    intro pairs
    unfold disambiguateEnvelopeIds
    rw [List.map_map, zip_map_self]
    rfl
  unfold collectHandlerEntries
  simp only [hresults, Option.bind_eq_bind, Option.bind_eq_some_iff, collectPairs_eq_some,
    Option.some.injEq]
  constructor
  · rintro ⟨pairs, ⟨hcomp, rfl⟩, rfl⟩
    exact ⟨hcomp, hzip _⟩
  · rintro ⟨hcomp, rfl⟩
    exact ⟨_, ⟨hcomp, rfl⟩, hzip _⟩

/-- The entries of a report that is made kind by kind. -/
theorem mapM_flatten_eq_some {α β : Type} {f : α → Option (List β)} {P : α → Prop} {g : α → List β}
    {l : List α} (h : ∀ a ∈ l, ∀ bs, f a = some bs ↔ P a ∧ bs = g a) {report : List β} :
    (l.mapM f).map List.flatten = some report ↔ (∀ a ∈ l, P a) ∧ report = l.flatMap g := by
  constructor
  · intro hreport
    obtain ⟨bss, hbss, rfl⟩ := Option.map_eq_some_iff.mp hreport
    have hflat : bss = l.map g := eq_map_of_mapM hbss fun a ha bs hbs => ((h a ha bs).mp hbs).2
    refine ⟨fun a ha => ?_, by rw [hflat, List.flatMap_def]⟩
    obtain ⟨bs, -, hbs⟩ := mem_of_mapM hbss ha
    exact ((h a ha bs).mp hbs).1
  · rintro ⟨hall, rfl⟩
    have hmap : l.mapM f = some (l.map g) :=
      mapM_eq_map fun a ha => (h a ha (g a)).mpr ⟨hall a ha, rfl⟩
    rw [hmap, Option.map_some, List.flatMap_def]

theorem collectedDrift_eq_some {handlers : List (DriftHandler X)}
    (hassets : (handlers.map (·.asset)).Nodup) {since : Option Stamp} {report : List (DriftEntry X)} :
    collectedDrift fromisoformat libs tree base handlers since = some report ↔
      (∀ h ∈ handlers, ∀ r ∈ h.steady.listed, (isOlder fromisoformat since r).isSome) ∧
        report = handlers.flatMap fun h =>
          (envelopePairs h (keptItems fromisoformat since h.steady.listed)).filterMap
            (collectedEntryOf fromisoformat libs tree base since h h.steady.listed) := by
  have hresults : ∀ h ∈ handlers, (listRemoteParallel (handlers.map DriftHandler.steady)).results.get?
      h.asset.value = some h.steady.listed := by
    intro h hh
    refine results_of_mem ?_ (List.mem_map_of_mem (f := DriftHandler.steady) hh)
    rw [List.map_map]
    exact hassets
  unfold collectedDrift classifyCollectedDrift
  dsimp only
  rw [← mapM_flatten_eq_some fun h hh entries => collectHandlerEntries_eq_some (hresults h hh),
    List.mapM_map, Option.map_eq_bind]
  rfl

/-- A filtered item keeps its entry as long as it keeps its id. -/
theorem collectedEntryOf_eq_iff {since : Option Stamp} {h : DriftHandler X}
    {items : List (Document X)} {p : RemotePair X} :
    collectedEntryOf fromisoformat libs tree base since h items p = entryOf libs tree base h items p ↔
      Value.textAt (disambiguateId ((envelopePairs h (keptItems fromisoformat since items)).map
          (·.envelope)) p.envelope) "id" =
        Value.textAt (disambiguateId ((envelopePairs h items).map (·.envelope)) p.envelope) "id" := by
  have hperm : disambiguateId ((remotePairs h items).map (·.envelope)) =
      disambiguateId ((envelopePairs h items).map (·.envelope)) :=
    disambiguateId_perm ((remotePairs_perm h (List.Perm.refl items)).map _)
  unfold collectedEntryOf entryOf
  dsimp only
  rw [collectEntry_eq, hperm]
  constructor
  · intro hentry
    have hid := congrArg (Option.elim · "" DriftEntry.assetId) hentry
    rwa [driftEntry_assetId, driftEntry_assetId, orText_disambiguateId, orText_disambiguateId] at hid
  · intro hid
    rw [hid]

/-! ## The agreement -/

theorem entryOf_perm {h h' : DriftHandler X} (hasset : h'.asset = h.asset)
    (hto : h'.toEnvelope = h.toEnvelope) {items items' : List (Document X)}
    (hitems : items'.Perm items) : entryOf libs tree base h' items' = entryOf libs tree base h items := by
  have hpairs : ∀ items, envelopePairs h' items = envelopePairs h items := by
    intro items
    unfold envelopePairs
    rw [hto]
  have hperm : (remotePairs h' items').Perm (remotePairs h items) := by
    have hright := remotePairs_perm h (List.Perm.refl items)
    rw [← hpairs] at hright
    exact (remotePairs_perm h' hitems).trans hright.symm
  funext p
  unfold entryOf
  rw [disambiguateId_perm (hperm.map _), hasset]

theorem handlerEntries_perm {h h' : DriftHandler X} (hsame : SameTenant h h') :
    ((envelopePairs h h.steady.listed).filterMap (entryOf libs tree base h h.steady.listed)).Perm
      (handlerEntries libs tree base h') := by
  obtain ⟨items, items', hlist, hlist', hperm⟩ := hsame.items
  have hlisted : h.steady.listed = items := by
    unfold CollectHandler.listed DriftHandler.steady
    rw [hlist]
  have hpairs : (remotePairs h' items').Perm (envelopePairs h items) := by
    have := remotePairs_perm h' hperm
    unfold envelopePairs at this ⊢
    rwa [hsame.toEnvelope] at this
  rw [hlisted, handlerEntries_eq libs tree base h' hlist',
    entryOf_perm hsame.asset hsame.toEnvelope hperm]
  exact hpairs.symm.filterMap _

theorem detectDrift_perm {handlers handlers' : List (DriftHandler X)}
    (hsame : List.Forall₂ SameTenant handlers handlers') :
    (handlers.flatMap fun h =>
        (envelopePairs h h.steady.listed).filterMap (entryOf libs tree base h h.steady.listed)).Perm
      (detectDrift libs handlers' tree base) := by
  unfold detectDrift
  induction hsame with
  | nil => exact List.Perm.refl _
  | cons hh _ ih =>
    rw [List.flatMap_cons, List.flatMap_cons]
    exact (handlerEntries_perm hh).append ih

theorem collectedDrift_everything {handlers : List (DriftHandler X)}
    (hassets : (handlers.map (·.asset)).Nodup) :
    ∃ report, collectedDrift fromisoformat libs tree base handlers none = some report ∧
      ∀ handlers', List.Forall₂ SameTenant handlers handlers' →
        report.Perm (detectDrift libs handlers' tree base) := by
  refine ⟨_, (collectedDrift_eq_some hassets).mpr ⟨fun h _ r _ => rfl, rfl⟩, ?_⟩
  intro handlers' hsame
  have hentry : ∀ h : DriftHandler X,
      collectedEntryOf fromisoformat libs tree base none h h.steady.listed =
        entryOf libs tree base h h.steady.listed := by
    intro h
    funext p
    rw [collectedEntryOf_eq_iff, keptItems_none]
  simp only [keptItems_none, hentry]
  exact detectDrift_perm hsame

/-- `collect` classifies like `drift` exactly when the filter keeps the collisions of what it keeps
and the given time compares with the listed ones. -/
theorem classifiesLikeDrift_iff (libs : Libs X) (tree : FileTree) (base : Path)
    (fromisoformat : String → Option Stamp) (handlers : List (DriftHandler X)) (since : Stamp)
    (hlist : ∀ h ∈ handlers, ∃ items, h.listRemote = .ok items)
    (hassets : (handlers.map (·.asset)).Nodup) :
    ClassifiesLikeDrift fromisoformat libs tree base handlers since ↔
      FilterIsHarmless fromisoformat handlers since := by
  have hlisted : ∀ {h : DriftHandler X} {items}, h.listRemote = .ok items → h.steady.listed = items := by
    intro h items hok
    unfold CollectHandler.listed DriftHandler.steady
    rw [hok]
  have hkeeps : ∀ (h : DriftHandler X) items p,
      collectedEntryOf fromisoformat libs tree base (some since) h items p =
          entryOf libs tree base h items p ↔
        (1 < ((envelopePairs h items).map (envelopeKey ·.envelope)).count (envelopeKey p.envelope) →
          1 < ((envelopePairs h (keptItems fromisoformat (some since) items)).map
            (envelopeKey ·.envelope)).count (envelopeKey p.envelope) ∨
          Slug.disambiguate (Value.textAt p.envelope "id") (envelopeArmName p.envelope) =
            Value.textAt p.envelope "id") := by
    intro h items p
    rw [collectedEntryOf_eq_iff,
      textAt_disambiguateId_eq_iff ((keptItems_sublist fromisoformat (some since) h items).map (·.envelope)),
      List.map_map, List.map_map]
    rfl
  constructor
  · rintro ⟨-, ⟨report, hreport, -⟩, hkept⟩
    obtain ⟨hcomp, -⟩ := (collectedDrift_eq_some hassets).mp hreport
    refine ⟨?_, ?_⟩
    · intro h hh items hok r hr
      rw [← hlisted hok] at hr
      exact (isOlder_isSome fromisoformat).mp (hcomp h hh r hr)
    · intro h hh items hok p hp
      exact (hkeeps h items p).mp (hkept h hh items hok p hp)
  · rintro ⟨hcomp, hcoll⟩
    have hkept : ∀ h ∈ handlers, ∀ items, h.listRemote = .ok items →
        ∀ p ∈ envelopePairs h (keptItems fromisoformat (some since) items),
          collectedEntryOf fromisoformat libs tree base (some since) h items p =
            entryOf libs tree base h items p :=
      fun h hh items hok p hp => (hkeeps h items p).mpr (hcoll h hh items hok p hp)
    refine ⟨collectedDrift_everything hassets, ?_, hkept⟩
    have hsome : ∀ h ∈ handlers, ∀ r ∈ h.steady.listed,
        (isOlder fromisoformat (some since) r).isSome := by
      intro h hh r hr
      obtain ⟨items, hok⟩ := hlist h hh
      rw [hlisted hok] at hr
      exact (isOlder_isSome fromisoformat).mpr (hcomp h hh items hok r hr)
    refine ⟨_, (collectedDrift_eq_some hassets).mpr ⟨hsome, rfl⟩, ?_⟩
    intro handlers' hsame
    refine List.Subperm.trans (List.Sublist.subperm ?_) (detectDrift_perm hsame).subperm
    -- Each kept item has the entry that `drift` gives it, and they stand in the same order.
    refine List.Sublist.flatMap_right _ ?_
    intro h hh
    obtain ⟨items, hok⟩ := hlist h hh
    rw [hlisted hok, List.filterMap_congr (hkept h hh items hok)]
    exact (keptItems_sublist fromisoformat (some since) h items).filterMap _

end

/-! ## Two rules of one display name -/

namespace Sample

def datedRule (name modified : String) : Document Empty :=
  [("name", .str name), ("kind", .str "Scheduled"),
    ("properties", .dict [("displayName", .str "Foo"), ("lastModifiedUtc", .str modified)])]

/-- The rule of `foo.yml`, and a later one with the same display name. -/
def datedRules : List (Document Empty) :=
  [datedRule "AAA" "2026-01-01T00:00:00Z", datedRule "BBB" "2026-06-01T00:00:00Z"]

def isoTimes (text : String) : Option Stamp :=
  if text = "2026-01-01T00:00:00+00:00" then some ⟨1767225600000000, true⟩
  else if text = "2026-06-01T00:00:00+00:00" then some ⟨1780272000000000, true⟩
  else none

/-- `--since 2026-03-01T00:00:00Z`. -/
def march : Stamp := ⟨1772323200000000, true⟩

end Sample
open Sample

/-- The later rule loses its suffix, and with the bare id it takes the file of the earlier one. -/
theorem datedRules_not_classifiesLikeDrift :
    (collectedDrift isoTimes libs fooTree base [SentinelAnalytic.handler datedRules] (some march)).map
        (·.map fun e => (e.assetId, e.localPath)) = some [("foo", some fooPath)] ∧
      (detectDrift libs [SentinelAnalytic.handler datedRules] fooTree base).map
        (fun e => (e.assetId, e.localPath)) = [("foo-aaa", some fooPath), ("foo-bbb", none)] ∧
      ¬ ClassifiesLikeDrift isoTimes libs fooTree base [SentinelAnalytic.handler datedRules] march := by
  have hcollect : (collectedDrift isoTimes libs fooTree base [SentinelAnalytic.handler datedRules]
      (some march)).map (·.map fun e => (e.assetId, e.localPath)) = some [("foo", some fooPath)] := by
    decide +kernel
  have hdrift : (detectDrift libs [SentinelAnalytic.handler datedRules] fooTree base).map
      (fun e => (e.assetId, e.localPath)) = [("foo-aaa", some fooPath), ("foo-bbb", none)] := by
    decide +kernel
  refine ⟨hcollect, hdrift, ?_⟩
  rintro ⟨-, ⟨report, hreport, hsub⟩, -⟩
  rw [hreport, Option.map_some, Option.some.injEq] at hcollect
  have hsame : SameTenant (SentinelAnalytic.handler datedRules) (SentinelAnalytic.handler datedRules) :=
    ⟨rfl, rfl, datedRules, datedRules, rfl, rfl, List.Perm.refl _⟩
  have hsubset := List.map_subset (fun e => (e.assetId, e.localPath))
    (hsub _ (.cons hsame .nil)).subset
  rw [hcollect, hdrift] at hsubset
  exact absurd (hsubset List.mem_cons_self) (by decide)

theorem classifies_datedRules :
    (∀ h ∈ [SentinelAnalytic.handler datedRules], ∃ items, h.listRemote = .ok items) ∧
      ([SentinelAnalytic.handler datedRules].map (·.asset)).Nodup ∧
      (ClassifiesLikeDrift isoTimes libs fooTree base [SentinelAnalytic.handler datedRules] march ↔
        FilterIsHarmless isoTimes [SentinelAnalytic.handler datedRules] march) := by
  have hlist : ∀ h ∈ [SentinelAnalytic.handler datedRules], ∃ items, h.listRemote = .ok items := by
    intro h hh
    obtain rfl := List.mem_singleton.mp hh
    exact ⟨datedRules, rfl⟩
  have hassets : ([SentinelAnalytic.handler datedRules].map (·.asset)).Nodup := by decide
  exact ⟨hlist, hassets, classifiesLikeDrift_iff libs fooTree base isoTimes _ march hlist hassets⟩

end ContentOps
