import ContentOps.Handlers.SentinelAnalytic
import ContentOps.Library.KeyIndex

/-! Which local file a remote item is matched with. The index is one dictionary for ids and ARM
names, so an item can reach a file under a name that is not its own. -/

namespace ContentOps
open PyData

section
variable {X : Type}

/-! ## The keys of a local file -/

/-- The ARM name of a managed file. -/
def LoadedAsset.armKey? (la : LoadedAsset X) : Option String := la.envelope.armName.filter (· ≠ "")

def LoadedAsset.indexKeys (la : LoadedAsset X) : List String :=
  la.envelope.id :: la.armKey?.toList

def lastNamed (files : List (LoadedAsset X)) (k : String) : Option (LoadedAsset X) :=
  KeyIndex.last LoadedAsset.indexKeys files k

theorem register_eq (index : LocalIndex X) (la : LoadedAsset X) :
    register index la = KeyIndex.register LoadedAsset.indexKeys (fun la => (la.path, la.payload))
      index la := by
  unfold register KeyIndex.register LoadedAsset.indexKeys LoadedAsset.armKey?
  cases h : la.envelope.armName with
  | none => rfl
  | some a => by_cases ha : a = "" <;> simp [ha, Option.filter]

theorem get?_foldl_register (files : List (LoadedAsset X)) (k : String) :
    (files.foldl register []).get? k = (lastNamed files k).map fun la => (la.path, la.payload) := by
  have hfun : register (X := X) =
      KeyIndex.register LoadedAsset.indexKeys fun la => (la.path, la.payload) := by
    funext index la
    exact register_eq index la
  rw [hfun]
  exact KeyIndex.get?_build _ _ files k

/-! ## The file an item reaches -/

/-- The key an item is looked up with: its own name when a file is registered under it, and the
envelope id otherwise. -/
def lookupKey (files : List (LoadedAsset X)) (name assetId : String) : String :=
  if (lastNamed files name).isSome then name else assetId

theorem matchLocal_eq {files : List (LoadedAsset X)} (hids : ∀ la ∈ files, la.envelope.id ≠ "")
    (remote : Document X) (assetId : String) :
    matchLocal (files.foldl register []) remote assetId =
      (lastNamed files (lookupKey files (remoteKey remote) assetId)).map
        fun la => (la.path, la.payload) := by
  have hempty : lastNamed files "" = none := by
    apply KeyIndex.last_eq_none_iff.mpr
    intro la hla hmem
    rcases List.mem_cons.mp hmem with h | h
    · exact hids la hla h.symm
    · simp [LoadedAsset.armKey?, Option.filter_eq_some_iff] at h
  unfold matchLocal lookupKey
  simp only [get?_foldl_register]
  by_cases hkey : remoteKey remote = ""
  · simp [hkey, hempty]
  · cases hlast : lastNamed files (remoteKey remote) with
    | none => simp [hkey]
    | some la => simp [hkey, hlast]

/-! ## The entries of a report -/

theorem map_zip_map {α β γ : Type} (l : List α) (f : α → β) (g : α × β → Option γ) :
    (l.zip (l.map f)).filterMap g = l.filterMap fun a => g (a, f a) := by
  induction l with
  | nil => rfl
  | cons a l ih => simp only [List.map_cons, List.zip_cons_cons, List.filterMap_cons, ih]

/-- The envelope id an item gets among all of them. -/
def assetIdOf (pairs : List (RemotePair X)) (p : RemotePair X) : String :=
  orText (Value.textAt (disambiguateId (pairs.map (·.envelope)) p.envelope) "id")
    (Value.textAt p.envelope "id")

/-- The file the entry of an item is about; an item without an envelope id has no entry. -/
def reached (files : List (LoadedAsset X)) (pairs : List (RemotePair X)) (p : RemotePair X) :
    Option (LoadedAsset X) :=
  if assetIdOf pairs p = "" then none
  else lastNamed files (lookupKey files (remoteKey p.remote) (assetIdOf pairs p))

/-- No item of the inventory strays to a file that is not its own. -/
structure NoStray (files : List (LoadedAsset X)) (pairs : List (RemotePair X)) : Prop where
  /-- The name of an item is not the id of a file with another ARM name. -/
  ownName : ∀ p ∈ pairs, assetIdOf pairs p ≠ "" → ∀ la,
    lastNamed files (remoteKey p.remote) = some la → ∀ a, la.armKey? = some a →
      remoteKey p.remote = a
  /-- An item no file is registered for does not have the envelope id of a file with an ARM name. -/
  unknownName : ∀ p ∈ pairs, assetIdOf pairs p ≠ "" → lastNamed files (remoteKey p.remote) = none →
    ∀ la, lastNamed files (assetIdOf pairs p) = some la → la.armKey? = none
  /-- Two items are not looked up with the id of one file without an ARM name. -/
  sharedId : pairs.Pairwise fun p q => assetIdOf pairs p ≠ "" → assetIdOf pairs q ≠ "" → ∀ la,
    lastNamed files (lookupKey files (remoteKey p.remote) (assetIdOf pairs p)) = some la →
      la.armKey? = none → lookupKey files (remoteKey p.remote) (assetIdOf pairs p) ≠
        lookupKey files (remoteKey q.remote) (assetIdOf pairs q)

section
variable {files : List (LoadedAsset X)} {pairs : List (RemotePair X)}

theorem reached_eq_some {p : RemotePair X} {la : LoadedAsset X} :
    reached files pairs p = some la ↔ assetIdOf pairs p ≠ "" ∧
      lastNamed files (lookupKey files (remoteKey p.remote) (assetIdOf pairs p)) = some la := by
  unfold reached
  split_ifs with hid <;> simp [hid]

/-- Without a stray, an item that reaches a managed file has its name. -/
theorem NoStray.name_eq (h : NoStray files pairs) {p : RemotePair X} (hp : p ∈ pairs)
    {la : LoadedAsset X} (hr : reached files pairs p = some la) {a : String}
    (ha : la.armKey? = some a) : remoteKey p.remote = a := by
  obtain ⟨hid, hlast⟩ := reached_eq_some.mp hr
  unfold lookupKey at hlast
  split_ifs at hlast with hsome
  · exact h.ownName p hp hid la hlast a ha
  · have hnone := Option.not_isSome_iff_eq_none.mp hsome
    have hunmanaged := h.unknownName p hp hid hnone la hlast
    rw [hunmanaged] at ha
    exact absurd ha (by simp)

theorem reached_mem {p : RemotePair X} {la : LoadedAsset X} (hr : reached files pairs p = some la) : la ∈ files :=
  KeyIndex.mem_of_last (reached_eq_some.mp hr).2

/-- A file without an ARM name has its id as the only key. -/
theorem key_eq_of_unmanaged {k k' : String} {la : LoadedAsset X} (ha : la.armKey? = none)
    (hk : lastNamed files k = some la) (hk' : lastNamed files k' = some la) : k = k' := by
  have key : ∀ k, lastNamed files k = some la → k = la.envelope.id := by
    intro k hk
    have hmem := KeyIndex.key_mem_of_last hk
    simpa [LoadedAsset.indexKeys, ha] using hmem
  rw [key k hk, key k' hk']

theorem NoStray.apart (h : NoStray files pairs)
    (hnames : pairs.Pairwise fun p q => remoteKey p.remote ≠ remoteKey q.remote) :
    pairs.Pairwise fun p q => ∀ la, reached files pairs p = some la →
      reached files pairs q ≠ some la := by
  refine List.Pairwise.imp_of_mem ?_ (hnames.and h.sharedId)
  intro p q hp hq hpq la hrp hrq
  obtain ⟨hne, hshared⟩ := hpq
  cases ha : la.armKey? with
  | some a => exact hne ((h.name_eq hp hrp ha).trans (h.name_eq hq hrq ha).symm)
  | none =>
    obtain ⟨hidp, hlp⟩ := reached_eq_some.mp hrp
    obtain ⟨hidq, hlq⟩ := reached_eq_some.mp hrq
    exact hshared hidp hidq la hlp ha (key_eq_of_unmanaged ha hlp hlq)

/-- Where each item reaches a file of its own under its own name, none strays. -/
theorem NoStray.of_reached
    (hname : ∀ p ∈ pairs, ∀ la, reached files pairs p = some la → ∀ a, la.armKey? = some a →
      remoteKey p.remote = a)
    (hapart : pairs.Pairwise fun p q => ∀ la, reached files pairs p = some la →
      reached files pairs q ≠ some la) : NoStray files pairs where
  ownName p hp hid la hlast a ha := by
    have hkey : lookupKey files (remoteKey p.remote) (assetIdOf pairs p) = remoteKey p.remote := by
      rw [lookupKey, hlast]
      rfl
    rw [← hkey] at hlast
    exact hname p hp la (reached_eq_some.mpr ⟨hid, hlast⟩) a ha
  unknownName p hp hid hnone la hlast := by
    have hkey : lookupKey files (remoteKey p.remote) (assetIdOf pairs p) = assetIdOf pairs p := by
      rw [lookupKey, hnone]
      rfl
    cases ha : la.armKey? with
    | none => rfl
    | some a =>
      exfalso
      have hreach : reached files pairs p = some la := reached_eq_some.mpr ⟨hid, by rw [hkey, hlast]⟩
      have hkeyName := hname p hp la hreach a ha
      have hmem : remoteKey p.remote ∈ la.indexKeys := by
        simp [LoadedAsset.indexKeys, ha, hkeyName]
      have hsome := KeyIndex.last_isSome_of_mem (KeyIndex.mem_of_last hlast) hmem
      rw [show KeyIndex.last _ files (remoteKey p.remote) = none from hnone] at hsome
      exact absurd hsome (by simp)
  sharedId := by
    refine hapart.imp ?_
    intro p q hpq hidp hidq la hlast _ hkey
    apply hpq la (reached_eq_some.mpr ⟨hidp, hlast⟩)
    exact reached_eq_some.mpr ⟨hidq, by rw [← hkey, hlast]⟩

end

variable [Value.ScalarEq X] [Json.FloatText X]
variable (libs : Libs X) (tree : FileTree) (base : Path) (h : DriftHandler X)

/-- The entry for one item of the inventory. -/
def entryOf (items : List (Document X)) (p : RemotePair X) : Option (DriftEntry X) :=
  driftEntry h.asset (localIndex libs tree base h.asset) p
    (Value.textAt (disambiguateId ((remotePairs h items).map (·.envelope)) p.envelope) "id")

theorem handlerEntries_eq {items : List (Document X)} (hlist : h.listRemote = .ok items) :
    handlerEntries libs tree base h =
      (remotePairs h items).filterMap (entryOf libs tree base h items) := by
  unfold handlerEntries disambiguateEnvelopeIds
  rw [hlist]
  simp only [List.map_map]
  exact map_zip_map _ _ _

/-- No two entries share a local file. -/
def InjectiveMatching (entries : List (DriftEntry X)) : Prop :=
  (entries.filterMap (·.localPath)).Nodup

/-- A file with an ARM name is matched with the item of that name only. -/
def HonoursArmName (items : List (Document X)) : Prop :=
  ∀ p ∈ remotePairs h items, ∀ entry, entryOf libs tree base h items p = some entry →
    ∀ la ∈ assetsOfKind libs tree base h.asset, entry.localPath = some la.path →
      ∀ a, la.armKey? = some a → remoteKey p.remote = a

variable {libs tree base h}

omit [Json.FloatText X] in
/-- What one round of the loop reports: the matched file, for every item that has an id. -/
theorem driftEntry_localPath (asset : Asset) (index : LocalIndex X) (p : RemotePair X) (id : String) :
    (driftEntry asset index p id).map (·.localPath) =
      if orText id (Value.textAt p.envelope "id") = "" then none
      else some ((matchLocal index p.remote (orText id (Value.textAt p.envelope "id"))).map
        Prod.fst) := by
  unfold driftEntry
  dsimp only
  generalize orText id (Value.textAt p.envelope "id") = assetId
  split_ifs with hid
  · rfl
  · cases matchLocal index p.remote assetId with
    | none => rfl
    | some m =>
      dsimp only
      split_ifs <;> rfl

theorem entryOf_localPath (items : List (Document X)) (p : RemotePair X) :
    (entryOf libs tree base h items p).bind (·.localPath) =
      (reached (assetsOfKind libs tree base h.asset) (remotePairs h items) p).map (·.path) := by
  have hids : ∀ la ∈ assetsOfKind libs tree base h.asset, la.envelope.id ≠ "" :=
    fun la hla => id_ne_empty (List.mem_filter.mp hla).1
  have hjoin : ∀ o : Option (DriftEntry X),
      o.bind (·.localPath) = (o.map (·.localPath)).join := by
    rintro (_ | e) <;> rfl
  rw [hjoin, entryOf, driftEntry_localPath, ← assetIdOf]
  unfold reached localIndex
  split_ifs
  · rfl
  · rw [matchLocal_eq hids, Option.map_map]
    rfl

omit [Value.ScalarEq X] [Json.FloatText X] in
/-- The items of an inventory keep their names apart. -/
theorem remotePairs_apart {items : List (Document X)} (hnames : (items.map remoteKey).Nodup) :
    (remotePairs h items).Pairwise fun p q => remoteKey p.remote ≠ remoteKey q.remote := by
  have hsource : (items.filterMap fun r => (h.toEnvelope r).map fun e => (⟨e, r⟩ : RemotePair X)).Pairwise
      fun p q => remoteKey p.remote ≠ remoteKey q.remote := by
    rw [List.pairwise_filterMap]
    rw [List.Nodup, List.pairwise_map] at hnames
    refine hnames.imp ?_
    intro r r' hne p hp q hq
    obtain ⟨_, -, rfl⟩ := Option.map_eq_some_iff.mp hp
    obtain ⟨_, -, rfl⟩ := Option.map_eq_some_iff.mp hq
    exact hne
  exact (List.perm_insertionSort _ _).symm.pairwise hsource fun hpq => Ne.symm hpq

/-- Drift matching is injective and honours ARM names exactly when no item strays. -/
theorem matching_iff_noStray (libs : Libs X) (tree : FileTree) (base : Path) (h : DriftHandler X)
    (items : List (Document X)) (hlist : h.listRemote = .ok items)
    (hnames : (items.map remoteKey).Nodup) :
    InjectiveMatching (detectDrift libs [h] tree base) ∧ HonoursArmName libs tree base h items ↔
      NoStray (assetsOfKind libs tree base h.asset) (remotePairs h items) := by
  let files := assetsOfKind libs tree base h.asset
  let pairs := remotePairs h items
  have hfile : ∀ {la lb : LoadedAsset X}, la ∈ files → lb ∈ files → la.path = lb.path → la = lb :=
    fun ha hb => loadedAssets_path_inj (List.mem_filter.mp ha).1 (List.mem_filter.mp hb).1
  have hentry : ∀ p, (entryOf libs tree base h items p).bind (·.localPath) =
      (reached files pairs p).map (·.path) := entryOf_localPath items
  have hinj : InjectiveMatching (detectDrift libs [h] tree base) ↔
      pairs.Pairwise fun p q => ∀ la, reached files pairs p = some la →
        reached files pairs q ≠ some la := by
    unfold InjectiveMatching detectDrift
    rw [List.flatMap_singleton, handlerEntries_eq libs tree base h hlist, List.filterMap_filterMap,
      List.Nodup, List.pairwise_filterMap]
    simp only [hentry, Option.map_eq_some_iff]
    constructor
    · intro hpair
      refine hpair.imp ?_
      intro p q hpq la hp hq
      exact hpq la.path ⟨la, hp, rfl⟩ la.path ⟨la, hq, rfl⟩ rfl
    · intro hpair
      refine hpair.imp ?_
      rintro p q hpq _ ⟨la, hp, rfl⟩ _ ⟨lb, hq, rfl⟩ hpath
      obtain rfl := hfile (reached_mem hp) (reached_mem hq) hpath
      exact hpq la hp hq
  have hhon : HonoursArmName libs tree base h items ↔ ∀ p ∈ pairs, ∀ la,
      reached files pairs p = some la → ∀ a, la.armKey? = some a → remoteKey p.remote = a := by
    constructor
    · intro hh p hp la hr a ha
      have hbind := hentry p
      rw [hr, Option.map_some] at hbind
      obtain ⟨entry, he, hpath⟩ := Option.bind_eq_some_iff.mp hbind
      exact hh p hp entry he la (reached_mem hr) hpath a ha
    · intro hh p hp entry he la hla hpath a ha
      have hbind := hentry p
      rw [he, Option.bind_some, hpath] at hbind
      obtain ⟨lb, hr, hlb⟩ := Option.map_eq_some_iff.mp hbind.symm
      obtain rfl := hfile (reached_mem hr) hla hlb
      exact hh p hp lb hr a ha
  rw [hinj, hhon]
  constructor
  · rintro ⟨hapart, hname⟩
    exact .of_reached hname hapart
  · intro hstray
    exact ⟨hstray.apart (remotePairs_apart hnames), fun p hp la hr a ha => hstray.name_eq hp hr ha⟩

end

/-! ## A renamed rule and another one that took its old name -/

namespace Sample

def fooText : Text :=
  "id: foo\nversion: 1.0.0\nasset: sentinel_analytic\nstatus: production\nmetadata:\n  arm_name: AAA
payload:\n  displayName: Foo\n  kind: Scheduled\n".toList

def fooDocument : Value Empty :=
  .dict [("id", .str "foo"), ("version", .str "1.0.0"), ("asset", .str "sentinel_analytic"),
    ("status", .str "production"), ("metadata", .dict [("arm_name", .str "AAA")]),
    ("payload", .dict [("displayName", .str "Foo"), ("kind", .str "Scheduled")])]

/-- The libraries, as far as `foo.yml` needs them. -/
def libs : Libs Empty where
  safeLoad t := if t = fooText then some fooDocument else none
  dump v := if v = fooDocument then fooText else []
  laxInt _ := none

def base : Path := ["detections"]

def fooPath : Path := ["detections", "sentinel_analytic", "foo.yml"]

def fooTree : FileTree := Directory.empty.write fooPath fooText

def rule (name displayName : String) : Document Empty :=
  [("name", .str name), ("kind", .str "Scheduled"),
    ("properties", .dict [("displayName", .str displayName)])]

/-- The rule of `foo.yml` was renamed in the portal, and a new rule has its old name. -/
def rules : List (Document Empty) := [rule "AAA" "Renamed", rule "BBB" "Foo"]

end Sample
open Sample

theorem renamedRule_shares_file :
    (rules.map remoteKey).Nodup ∧
      ((assetsOfKind libs fooTree base .sentinelAnalytic).map (·.envelope.id)).Nodup ∧
      ((assetsOfKind libs fooTree base .sentinelAnalytic).filterMap (·.armKey?)).Nodup ∧
      (detectDrift libs [SentinelAnalytic.handler rules] fooTree base).filterMap (·.localPath) =
        [fooPath, fooPath] ∧
      ¬ (InjectiveMatching (detectDrift libs [SentinelAnalytic.handler rules] fooTree base) ∧
        HonoursArmName libs fooTree base (SentinelAnalytic.handler rules) rules) := by
  have hpaths : (detectDrift libs [SentinelAnalytic.handler rules] fooTree base).filterMap
      (·.localPath) = [fooPath, fooPath] := by
    decide +kernel
  have hfiles : (assetsOfKind libs fooTree base .sentinelAnalytic).map
      (fun la => (la.envelope.id, la.armKey?)) = [("foo", some "AAA")] := by
    decide +kernel
  obtain ⟨la, hla, hkeys⟩ := List.map_eq_singleton_iff.mp hfiles
  refine ⟨by decide +kernel, by simp [hla], ?_, hpaths, fun h => ?_⟩
  · rw [hla]
    simp [(Prod.mk.inj hkeys).2]
  · have hinj := h.1
    unfold InjectiveMatching at hinj
    rw [hpaths] at hinj
    exact absurd hinj (by decide)

theorem matching_fooRules :
    (SentinelAnalytic.handler rules).listRemote = .ok rules ∧ (rules.map remoteKey).Nodup ∧
      (InjectiveMatching (detectDrift libs [SentinelAnalytic.handler rules] fooTree base) ∧
          HonoursArmName libs fooTree base (SentinelAnalytic.handler rules) rules ↔
        NoStray (assetsOfKind libs fooTree base .sentinelAnalytic)
          (remotePairs (SentinelAnalytic.handler rules) rules)) :=
  ⟨rfl, by decide +kernel, matching_iff_noStray libs fooTree base (SentinelAnalytic.handler rules)
    rules rfl (by decide +kernel)⟩

end ContentOps
