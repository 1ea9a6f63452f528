import ContentOps.Cli.Prune

/-! What a pruning run deletes. An item is spared when a file that loads is registered for it; a
YAML file that names it and does not load spares nothing. -/

namespace ContentOps.Prune
open PyData

section
variable {X : Type}

/-- A YAML file of the tree that is no template, sample or control file. -/
def isDetectionFile (base p : Path) : Bool :=
  (isUnder base ".yml" p || isUnder base ".yaml" p) && !isSkippedPath p

/-- The document is about the item: its kind, and its name or its envelope id. -/
def NamesItem (raw : Document X) (asset : Asset) (remoteId envelopeId : String) : Prop :=
  raw.get? "asset" = some (.str asset.value) ∧ (raw.get? "id" = some (.str envelopeId) ∨
    ∃ md : Document X, raw.get? "metadata" = some (.dict md) ∧
      md.get? "arm_name" = some (.str remoteId))

namespace Run
variable [Value.ScalarEq X] [Json.FloatText X] (run : Run X)

/-- A YAML file of the tree names the item. -/
def IsNamed (asset : Asset) (remoteId envelopeId : String) : Prop :=
  ∃ p content raw, run.tree.read p = some content ∧ isDetectionFile run.base p = true ∧
    run.libs.safeLoad content = some (.dict raw) ∧ NamesItem raw asset remoteId envelopeId

/-- A file that loads has the name or the envelope id of the item among its keys. -/
def IsRegistered (asset : Asset) (remoteId envelopeId : String) : Prop :=
  ∃ la ∈ assetsOfKind run.libs run.tree run.base asset,
    remoteId ∈ la.indexKeys ∨ envelopeId ∈ la.indexKeys

/-- The kind was listed, and an item of it has this name and envelope id. -/
def IsListed (asset : Asset) (remoteId envelopeId : String) : Prop :=
  ∃ items, (run.handler asset).listRemote = .ok items ∧ ∃ r ∈ items, ∃ env,
    (run.handler asset).toEnvelope r = some env ∧ remoteKey r = remoteId ∧
      Value.textAt env "id" = envelopeId

/-- No gate stops the run, and it is about the workspace `active`. -/
structure Deletes (active : Option String) : Prop where
  roleThere : run.integrationAbsent = false
  resolved : run.workspace? = some active
  gates : run.stopReason active = none

/-- Every deleted item belongs to a managed kind that was listed, and no local file names it. -/
def DeletesOnlyOrphans : Prop :=
  ∀ os, run.prune = .ok os → ∀ o ∈ os,
    run.IsListed o.asset o.remoteId o.envelopeId ∧
      (∃ active, run.workspace? = some active ∧
        assetModeFor run.casefold run.config active o.asset = some .managed) ∧
      ¬ run.IsNamed o.asset o.remoteId o.envelopeId

/-- Every item of the pruned kinds that a local file names is registered. -/
def NamesRegistered : Prop :=
  ∀ active, run.Deletes active → ∀ h ∈ run.handlers active, ∀ remoteId envelopeId,
    remoteId ≠ "" → envelopeId ≠ "" → run.IsListed h.asset remoteId envelopeId →
      run.IsNamed h.asset remoteId envelopeId → run.IsRegistered h.asset remoteId envelopeId

variable {run}

theorem prune_eq_ok {os : List Orphan} : run.prune = .ok os ↔
    ∃ active, run.Deletes active ∧ (run.plan active).orphans = os := by
  unfold prune
  constructor
  · intro h
    split_ifs at h with hrole
    cases hres : run.workspace? with
    | none => simp [hres] at h
    | some active =>
      simp only [hres] at h
      cases hstop : run.stopReason active with
      | some stop => simp [hstop] at h
      | none =>
        simp only [hstop, Except.ok.injEq] at h
        exact ⟨active, ⟨by simpa using hrole, hres, hstop⟩, h⟩
  · rintro ⟨active, ⟨hrole, hres, hstop⟩, rfl⟩
    simp [hrole, hres, hstop]

/-! ## The index -/

theorem contains_index {asset : Asset} {k : String} :
    (run.index asset).contains k = true ↔
      ∃ la ∈ assetsOfKind run.libs run.tree run.base asset, k ∈ la.indexKeys := by
  unfold Dict.contains index localIndex
  rw [get?_foldl_register, Option.isSome_map]
  constructor
  · intro h
    obtain ⟨la, hla⟩ := Option.isSome_iff_exists.mp h
    exact ⟨la, KeyIndex.mem_of_last hla, KeyIndex.key_mem_of_last hla⟩
  · rintro ⟨la, hla, hk⟩
    exact KeyIndex.last_isSome_of_mem hla hk

theorem isRegistered_iff {asset : Asset} {remoteId envelopeId : String} :
    run.IsRegistered asset remoteId envelopeId ↔
      (run.index asset).contains remoteId = true ∨ (run.index asset).contains envelopeId = true := by
  rw [contains_index, contains_index]
  unfold IsRegistered
  constructor
  · rintro ⟨la, hla, hk | hk⟩
    · exact .inl ⟨la, hla, hk⟩
    · exact .inr ⟨la, hla, hk⟩
  · rintro (⟨la, hla, hk⟩ | ⟨la, hla, hk⟩)
    · exact ⟨la, hla, .inl hk⟩
    · exact ⟨la, hla, .inr hk⟩

/-- An item is an orphan when it has a name and an envelope id and neither is registered. -/
theorem orphanOf_eq_some {h : DriftHandler X} {r : Document X} {o : Orphan} :
    orphanOf h (run.index h.asset) r = some o ↔ o.asset = h.asset ∧ o.remoteId = remoteKey r ∧
      o.remoteId ≠ "" ∧ o.envelopeId ≠ "" ∧ ¬ run.IsRegistered h.asset o.remoteId o.envelopeId ∧
      ∃ env, h.toEnvelope r = some env ∧ o.envelopeId = Value.textAt env "id" := by
  rw [isRegistered_iff]
  unfold orphanOf
  obtain ⟨asset, envelopeId, remoteId⟩ := o
  cases henv : h.toEnvelope r with
  | none => simp
  | some env =>
    dsimp only
    split_ifs with hempty hreg
    · simp only [false_iff]
      rintro ⟨-, rfl, hr, he, -, _, heq, rfl⟩
      obtain rfl := Option.some.inj heq
      exact hempty.elim he hr
    · simp only [false_iff]
      rintro ⟨-, rfl, -, -, hnot, _, heq, rfl⟩
      obtain rfl := Option.some.inj heq
      exact hnot (by simpa [Bool.or_eq_true] using hreg)
    · simp only [Option.some.injEq, Orphan.mk.injEq]
      constructor
      · rintro ⟨rfl, rfl, rfl⟩
        push Not at hempty
        exact ⟨rfl, rfl, hempty.2, hempty.1, by simpa [Bool.or_eq_true] using hreg, env, rfl, rfl⟩
      · rintro ⟨rfl, rfl, -, -, -, _, rfl, rfl⟩
        exact ⟨rfl, rfl, rfl⟩

/-- A locked file is registered, so the lock never decides about an orphan. -/
theorem isLocked_orphan {h : DriftHandler X} {r : Document X} {o : Orphan}
    (ho : orphanOf h (run.index h.asset) r = some o) : run.isLocked o = false := by
  obtain ⟨hasset, -, -, -, hnot, -⟩ := orphanOf_eq_some.mp ho
  by_contra hlocked
  have hmem : (o.asset, o.envelopeId) ∈ run.lockedIds := by
    simp only [isLocked, Bool.not_eq_false, Bool.and_eq_true, decide_eq_true_eq] at hlocked
    exact hlocked.1
  obtain ⟨la, hla, hids⟩ := List.mem_map.mp hmem
  obtain ⟨hla, -⟩ := List.mem_filter.mp hla
  obtain ⟨ha, hid⟩ := Prod.mk.inj hids
  refine hnot ⟨la, List.mem_filter.mpr ⟨hla, ?_⟩, .inr ?_⟩
  · simp [ha, hasset]
  · simp [LoadedAsset.indexKeys, hid]

/-! ## The plan -/

/-- The kind has remote items and no local file. -/
def isEmptyKind (run : Run X) (h : DriftHandler X) (items : List (Document X)) : Bool :=
  !items.isEmpty && (run.index h.asset).isEmpty

/-- What one kind adds to the orphans. -/
def kindOrphans (run : Run X) (h : DriftHandler X) : List Orphan :=
  match h.listRemote with
  | .error _ => []
  | .ok items =>
    if run.isEmptyKind h items && !run.options.allowEmptyKind then []
    else items.filterMap (orphanOf h (run.index h.asset))

theorem planStep_orphans (plan : Plan) (h : DriftHandler X) :
    (run.planStep plan h).orphans = plan.orphans ++ run.kindOrphans h := by
  unfold planStep kindOrphans
  cases h.listRemote with
  | error message => simp
  | ok items =>
    dsimp only
    rw [← isEmptyKind, List.append_cancel_left_eq, List.filter_eq_self]
    intro o ho
    split_ifs at ho
    · exact absurd ho (by simp)
    · obtain ⟨r, -, hr⟩ := List.mem_filterMap.mp ho
      rw [isLocked_orphan hr]
      rfl

theorem plan_orphans (active : Option String) :
    (run.plan active).orphans = (run.handlers active).flatMap run.kindOrphans := by
  have key : ∀ (hs : List (DriftHandler X)) (plan : Plan),
      (hs.foldl run.planStep plan).orphans = plan.orphans ++ hs.flatMap run.kindOrphans := by
    intro hs
    induction hs with
    | nil => simp
    | cons h hs ih =>
      intro plan
      rw [List.foldl_cons, ih, planStep_orphans, List.append_assoc, List.flatMap_cons]
  exact key _ {}

theorem planStep_emptyKinds (plan : Plan) (h : DriftHandler X) {e : Asset × Nat}
    (he : e ∈ plan.emptyKinds) : e ∈ (run.planStep plan h).emptyKinds := by
  unfold planStep
  cases h.listRemote with
  | error message => exact he
  | ok items =>
    dsimp only
    split_ifs
    · exact List.mem_append_left _ he
    · exact he

/-- A kind without local files is put down, whatever kinds come after it. -/
theorem mem_emptyKinds {active : Option String} {h : DriftHandler X} {items : List (Document X)}
    (hh : h ∈ run.handlers active) (hlist : h.listRemote = .ok items)
    (hempty : run.isEmptyKind h items = true) :
    (h.asset, items.length) ∈ (run.plan active).emptyKinds := by
  have hkeep : ∀ (hs : List (DriftHandler X)) (plan : Plan),
      (h.asset, items.length) ∈ plan.emptyKinds →
        (h.asset, items.length) ∈ (hs.foldl run.planStep plan).emptyKinds := by
    intro hs
    induction hs with
    | nil => exact fun _ hp => hp
    | cons g hs ih => exact fun plan hp => ih _ (planStep_emptyKinds plan g hp)
  have hadd : ∀ plan : Plan, (h.asset, items.length) ∈ (run.planStep plan h).emptyKinds := by
    intro plan
    unfold planStep
    rw [hlist]
    dsimp only
    rw [← isEmptyKind, if_pos hempty]
    exact List.mem_append_right _ (List.mem_singleton_self _)
  have key : ∀ (hs : List (DriftHandler X)) (plan : Plan), h ∈ hs →
      (h.asset, items.length) ∈ (hs.foldl run.planStep plan).emptyKinds := by
    intro hs
    induction hs with
    | nil => exact fun _ hp => absurd hp (by simp)
    | cons g hs ih =>
      intro plan hp
      rcases List.mem_cons.mp hp with rfl | hp
      · exact hkeep hs _ (hadd plan)
      · exact ih _ hp
  exact key _ _ hh

/-! ## The gates -/

theorem Deletes.registered {active : Option String} (h : run.Deletes active) :
    (registeredKinds run.config run.disabledKinds).isSome = true := by
  have hgates := h.gates
  unfold stopReason at hgates
  dsimp only at hgates
  split_ifs at hgates with h₁ h₂ h₃
  exact Option.isSome_iff_ne_none.mpr (by simpa using h₃)

theorem Deletes.emptyKinds {active : Option String} (h : run.Deletes active) :
    (run.plan active).emptyKinds = [] ∨ run.options.allowEmptyKind = true := by
  have hgates := h.gates
  unfold stopReason at hgates
  dsimp only at hgates
  split_ifs at hgates with h₁ h₂ h₃ h₄ h₅ h₆ h₇ h₈ h₉
  by_contra hcon
  push Not at hcon
  apply h₆
  simpa [hcon.1, hcon.2] using h₉

/-- In a run that deletes, every kind that listed its items is considered. -/
theorem Deletes.mem_orphans {active : Option String} (h : run.Deletes active) {o : Orphan} :
    o ∈ (run.plan active).orphans ↔ ∃ g ∈ run.handlers active, ∃ items,
      g.listRemote = .ok items ∧ ∃ r ∈ items, orphanOf g (run.index g.asset) r = some o := by
  rw [plan_orphans, List.mem_flatMap]
  refine exists_congr fun g => and_congr_right fun hg => ?_
  unfold kindOrphans
  cases hlist : g.listRemote with
  | error message => simp
  | ok items =>
    have hconsidered : (run.isEmptyKind g items && !run.options.allowEmptyKind) = false := by
      cases hempty : run.isEmptyKind g items with
      | false => rfl
      | true =>
        have hmem := mem_emptyKinds hg hlist hempty
        rcases h.emptyKinds with hnil | hallow
        · rw [hnil] at hmem
          exact absurd hmem (by simp)
        · simp [hallow]
    simp [hconsidered]

omit [Value.ScalarEq X] [Json.FloatText X] in
theorem handler_of_mem {active : Option String} {g : DriftHandler X}
    (hg : g ∈ run.handlers active) : run.handler g.asset = g := by
  unfold handlers at hg
  obtain ⟨hg, -⟩ := List.mem_filter.mp hg
  obtain ⟨a, -, rfl⟩ := List.mem_map.mp hg
  rw [run.handler_asset]

theorem Deletes.managed {active : Option String} (h : run.Deletes active) {g : DriftHandler X}
    (hg : g ∈ run.handlers active) :
    assetModeFor run.casefold run.config active g.asset = some .managed := by
  have hmode := (List.mem_filter.mp hg).2
  have hreg := h.registered
  have hsome : ∃ m, assetModeFor run.casefold run.config active g.asset = some m := by
    unfold assetModeFor
    cases hc : run.config with
    | missing => exact ⟨_, rfl⟩
    | invalid => simp [registeredKinds, hc] at hreg
    | found cfg =>
      dsimp only
      split_ifs
      · exact ⟨_, rfl⟩
      · split
        · exact ⟨_, rfl⟩
        · split <;> exact ⟨_, rfl⟩
  obtain ⟨m, hm⟩ := hsome
  cases m with
  | managed => exact hm
  | monitor => simp [hm] at hmode

end Run

/-- A run deletes orphans only exactly when every item a local file names is registered. -/
theorem deletesOnlyOrphans_iff [Value.ScalarEq X] [Json.FloatText X] (run : Run X) :
    run.DeletesOnlyOrphans ↔ run.NamesRegistered := by
  constructor
  · intro h active hdel g hg remoteId envelopeId hremote henvelope hlisted hnamed
    by_contra hnot
    obtain ⟨items, hlist, r, hr, env, henv, rfl, rfl⟩ := hlisted
    rw [Run.handler_of_mem hg] at hlist henv
    have horphan : orphanOf g (run.index g.asset) r =
        some ⟨g.asset, Value.textAt env "id", remoteKey r⟩ :=
      Run.orphanOf_eq_some.mpr ⟨rfl, rfl, hremote, henvelope, hnot, env, henv, rfl⟩
    have hmem := hdel.mem_orphans.mpr ⟨g, hg, items, hlist, r, hr, horphan⟩
    have hprune : run.prune = .ok (run.plan active).orphans :=
      Run.prune_eq_ok.mpr ⟨active, hdel, rfl⟩
    exact (h _ hprune _ hmem).2.2 hnamed
  · intro h os hprune o ho
    obtain ⟨active, hdel, rfl⟩ := Run.prune_eq_ok.mp hprune
    obtain ⟨g, hg, items, hlist, r, hr, horphan⟩ := hdel.mem_orphans.mp ho
    obtain ⟨hasset, hremote, hremote', henvelope, hnot, env, henv, hid⟩ :=
      Run.orphanOf_eq_some.mp horphan
    have hlisted : run.IsListed o.asset o.remoteId o.envelopeId := by
      rw [hasset, hremote, hid]
      unfold Run.IsListed
      rw [Run.handler_of_mem hg]
      exact ⟨items, hlist, r, hr, env, henv, rfl, rfl⟩
    refine ⟨hlisted, ⟨active, hdel.resolved, hasset ▸ hdel.managed hg⟩, fun hnamed => hnot ?_⟩
    rw [hasset] at hlisted hnamed
    exact h active hdel g hg o.remoteId o.envelopeId hremote' henvelope hlisted hnamed

end

/-! ## A rule whose file lost its version -/

namespace Sample
open ContentOps.Sample

/-- `foo.yml` without the line of its version. -/
def brokenText : Text :=
  "id: foo\nasset: sentinel_analytic\nstatus: production\npayload:\n  displayName: Foo\n".toList

def brokenDocument : Document Empty :=
  [("id", .str "foo"), ("asset", .str "sentinel_analytic"), ("status", .str "production"),
    ("payload", .dict [("displayName", .str "Foo")])]

def barText : Text :=
  "id: bar\nversion: 1.0.0\nasset: sentinel_analytic\nstatus: production\n".toList

def barDocument : Document Empty :=
  [("id", .str "bar"), ("version", .str "1.0.0"), ("asset", .str "sentinel_analytic"),
    ("status", .str "production")]

def barPath : Path := ["detections", "sentinel_analytic", "bar.yml"]

def run : Run Empty where
  libs :=
    { safeLoad := fun t => if t = barText then some (.dict barDocument)
        else if t = brokenText then some (.dict brokenDocument) else none
      dump := fun _ => []
      laxInt := fun _ => none }
  casefold := id
  tree := (Directory.empty.write barPath barText).write fooPath brokenText
  base := base
  config := .found
    { name := "acme", sentinelWorkspaces := [{ workspaceName := "soc", purgeAllowed := true }] }
  activeWorkspace := none
  disabledKinds := ""
  handler a := { SentinelAnalytic.handler [rule "AAA" "Foo"] with asset := a }
  handler_asset _ := rfl
  options := { asset := some .sentinelAnalytic, dryRun := false, yes := true }

theorem prune_run : run.prune = .ok [⟨.sentinelAnalytic, "foo", "AAA"⟩] := by
  have hprune : run.prune.toOption = some [⟨.sentinelAnalytic, "foo", "AAA"⟩] := by
    decide +kernel
  cases h : run.prune with
  | error stop => simp [h, Except.toOption] at hprune
  | ok os => simpa [h, Except.toOption] using hprune

end Sample

theorem brokenFile_deleted : Sample.run.prune = .ok [⟨.sentinelAnalytic, "foo", "AAA"⟩] ∧
    Sample.run.IsNamed .sentinelAnalytic "AAA" "foo" ∧ ¬ Sample.run.DeletesOnlyOrphans := by
  have hnamed : Sample.run.IsNamed .sentinelAnalytic "AAA" "foo" := by
    refine ⟨ContentOps.Sample.fooPath, Sample.brokenText, Sample.brokenDocument, ?_, ?_, ?_, ?_⟩
    · exact Directory.read_write_self _ _ _
    · decide +kernel
    · decide +kernel
    · exact ⟨by decide +kernel, .inl (by decide +kernel)⟩
  exact ⟨Sample.prune_run, hnamed, fun h =>
    (h _ Sample.prune_run _ (List.mem_singleton_self _)).2.2 hnamed⟩

end ContentOps.Prune
