import ContentOps.Lint.Runner

/-! A lint of one kind beside a lint of the whole tree: which findings of a file the filter changes.
-/

namespace ContentOps.Lint
open PyData Kql

/-- The findings that the results have for a file. -/
def findingsAt (results : List LintedFile) (p : Path) : List LintFinding :=
  results.flatMap fun lf => if lf.path = p then lf.findings else []

/-- The findings that are added for a file. -/
def extrasAt (repo : List (Path × List LintFinding)) (p : Path) : List LintFinding :=
  repo.flatMap fun c => if c.1 = p then c.2 else []

section
variable {results : List LintedFile} {p : Path}

theorem findingsAt_extend (path : Path) (asset : Option Asset) (extra : List LintFinding)
    (results : List LintedFile) (p : Path) :
    (findingsAt (LintRun.extend path asset extra results) p).Perm
      (findingsAt results p ++ if path = p then extra else []) := by
  induction results with
  | nil => simp [LintRun.extend, findingsAt]
  | cons lf rest ih =>
    rw [LintRun.extend]
    by_cases hpath : lf.path = path
    · rw [if_pos hpath]
      simp only [findingsAt, List.flatMap_cons, hpath]
      split_ifs
      · rw [List.append_assoc, List.append_assoc]
        exact List.perm_append_comm.append_left _
      · rw [List.append_nil]
    · rw [if_neg hpath]
      simp only [findingsAt, List.flatMap_cons, List.append_assoc] at ih ⊢
      exact ih.append_left _

theorem findingsAt_foldl_extend (assetOf : Path → Option Asset)
    (repo : List (Path × List LintFinding)) (results : List LintedFile) (p : Path) :
    (findingsAt (repo.foldl (fun results c => LintRun.extend c.1 (assetOf c.1) c.2 results) results)
      p).Perm (findingsAt results p ++ extrasAt repo p) := by
  induction repo generalizing results with
  | nil => simp [extrasAt]
  | cons c repo ih =>
    rw [List.foldl_cons]
    refine (ih _).trans (((findingsAt_extend ..).append_right _).trans ?_)
    rw [List.append_assoc, extrasAt, extrasAt, List.flatMap_cons]

end

/-! ## The rules for the whole tree -/

section
variable {X : Type} [Value.ScalarEq X] {lib : LintLib X} {rules : List (LoadedAsset X)}

theorem mem_addToGroup {key : TriggerKey X} {la lb : LoadedAsset X}
    {groups : List (TriggerKey X × List (LoadedAsset X))} {g : TriggerKey X × List (LoadedAsset X)}
    (hg : g ∈ addToGroup key la groups) (hb : lb ∈ g.2) : lb = la ∨ ∃ g' ∈ groups, lb ∈ g'.2 := by
  induction groups with
  | nil =>
    obtain rfl := List.mem_singleton.mp hg
    exact Or.inl (List.mem_singleton.mp hb)
  | cons h rest ih =>
    obtain ⟨k, group⟩ := h
    rw [addToGroup] at hg
    split_ifs at hg with hsame
    · rcases List.mem_cons.mp hg with rfl | hrest
      · rcases List.mem_append.mp hb with hold | hnew
        · exact Or.inr ⟨_, List.mem_cons_self, hold⟩
        · exact Or.inl (List.mem_singleton.mp hnew)
      · exact Or.inr ⟨g, List.mem_cons_of_mem _ hrest, hb⟩
    · rcases List.mem_cons.mp hg with rfl | hrest
      · exact Or.inr ⟨_, List.mem_cons_self, hb⟩
      · rcases ih hrest with heq | ⟨g', hg', hmem⟩
        · exact Or.inl heq
        · exact Or.inr ⟨g', List.mem_cons_of_mem _ hg', hmem⟩

/-- A group has only rules in it. -/
theorem mem_of_group {keys : List (TriggerKey X × LoadedAsset X)}
    {g : TriggerKey X × List (LoadedAsset X)} {la : LoadedAsset X}
    (hg : g ∈ keys.foldl (fun groups p => addToGroup p.1 p.2 groups) []) (hla : la ∈ g.2) :
    ∃ p ∈ keys, p.2 = la := by
  have key : ∀ (keys : List (TriggerKey X × LoadedAsset X)) groups,
      g ∈ keys.foldl (fun groups p => addToGroup p.1 p.2 groups) groups →
      (∃ p ∈ keys, p.2 = la) ∨ ∃ g' ∈ groups, la ∈ g'.2 := by
    intro keys
    induction keys with
    | nil => exact fun groups hg => Or.inr ⟨g, hg, hla⟩
    | cons p keys ih =>
      intro groups hg
      rw [List.foldl_cons] at hg
      rcases ih _ hg with ⟨q, hq, heq⟩ | ⟨g', hg', hmem⟩
      · exact Or.inl ⟨q, List.mem_cons_of_mem _ hq, heq⟩
      · rcases mem_addToGroup hg' hmem with heq | hold
        · exact Or.inl ⟨p, List.mem_cons_self, heq.symm⟩
        · exact Or.inr hold
  rcases key keys [] hg with h | ⟨_, hnil, -⟩
  · exact h
  · exact absurd hnil List.not_mem_nil

/-- The rules for the whole tree speak of automation rules only. -/
theorem path_of_repoFindings {playbooks analytics : List String}
    {repo : List (Path × List LintFinding)}
    (h : repoFindings lib playbooks analytics rules = some repo) {c : Path × List LintFinding}
    (hc : c ∈ repo) : ∃ la ∈ rules, la.path = c.1 := by
  obtain ⟨dangling, hdangling, h⟩ := Option.bind_eq_some_iff.mp h
  obtain ⟨keys, hkeys, h⟩ := Option.bind_eq_some_iff.mp h
  obtain rfl := Option.some.inj h
  rcases List.mem_append.mp hc with hc | hc
  · obtain ⟨la, hla, hmap⟩ := (mem_iff_of_mapM hdangling).mp (List.mem_filter.mp hc).1
    obtain ⟨found, -, rfl⟩ := Option.map_eq_some_iff.mp hmap
    exact ⟨la, hla, rfl⟩
  · obtain ⟨g, hg, hc⟩ := List.mem_flatMap.mp hc
    unfold orderFindings at hc
    split_ifs at hc
    · exact absurd hc List.not_mem_nil
    · obtain ⟨la, hla, rfl⟩ := List.mem_map.mp hc
      obtain ⟨p, hp, rfl⟩ := mem_of_group hg hla
      obtain ⟨lb, hlb, hmap⟩ := (mem_iff_of_mapM hkeys).mp hp
      obtain ⟨_, -, rfl⟩ := Option.map_eq_some_iff.mp hmap
      exact ⟨lb, hlb, rfl⟩

@[simp] theorem repoFindings_nil (playbooks analytics : List String) :
    repoFindings lib playbooks analytics [] = some [] := rfl

/-- Whether the references can be read does not depend on what they are compared with. -/
theorem danglingRefs_isSome (playbooks analytics playbooks' analytics' : List String)
    (la : LoadedAsset X) :
    (danglingRefs lib playbooks analytics la).isSome =
      (danglingRefs lib playbooks' analytics' la).isSome := by
  unfold danglingRefs
  cases AutomationRule.playbookRefs lib.str la.payload with
  | none => rfl
  | some pbs =>
    cases AutomationRule.analyticRefs la.payload with
    | none => rfl
    | some ans => rfl

/-- What has to hold of a rule for the whole tree to be linted. -/
theorem repoFindings_isSome_iff {playbooks analytics : List String} :
    (repoFindings lib playbooks analytics rules).isSome = true ↔ ∀ la ∈ rules,
      (danglingRefs lib [] [] la).isSome = true ∧ (triggerKey lib la).isSome = true := by
  have hbind : (repoFindings lib playbooks analytics rules).isSome = true ↔
      (rules.mapM fun la => (danglingRefs lib playbooks analytics la).map fun found =>
        (la.path, found)).isSome = true ∧
      (rules.mapM fun la => (triggerKey lib la).map fun key => (key, la)).isSome = true := by
    unfold repoFindings
    cases rules.mapM fun la => (danglingRefs lib playbooks analytics la).map fun found =>
        (la.path, found) with
    | none => simp
    | some dangling =>
      cases rules.mapM fun la => (triggerKey lib la).map fun key => (key, la) with
      | none => simp
      | some keys => simp
  rw [hbind, isSome_mapM_iff, isSome_mapM_iff, ← forall₂_and]
  refine forall₂_congr fun la _ => ?_
  rw [Option.isSome_map, Option.isSome_map, danglingRefs_isSome playbooks analytics [] []]

end

/-! ## One file -/

section
variable {X : Type} [Value.ScalarEq X] [Json.FloatText X] {run : LintRun X}

namespace LintRun

/-- The envelopes of the whole tree. -/
def envelopes (run : LintRun X) : List (LoadedAsset X) := loadedAssets run.libs run.tree run.base

/-- The file has an envelope of this kind, or it names the kind and does not load. -/
def HasKind (run : LintRun X) (p : Path) (kind : Asset) : Prop :=
  (∃ la, run.load p = some la ∧ la.envelope.asset = kind) ∨
    run.load p = none ∧ run.assetKey p = some kind

theorem load_of_mem {la : LoadedAsset X} (h : la ∈ run.envelopes) :
    run.load la.path = some la := by
  obtain ⟨-, content, hread, hload⟩ := mem_loadedAssets.mp h
  rw [load, hread, Option.bind_some, hload]

/-- The filter is not seen where a file has its kind. -/
theorem lintFile_of_hasKind {p : Path} {kind : Asset} (h : run.HasKind p kind) :
    run.lintFile (some kind) p = run.lintFile none p := by
  unfold lintFile
  rcases h with ⟨la, hload, hkind⟩ | ⟨hload, hkey⟩
  · simp [hload, hkind]
  · simp [hload, isOtherKind, hkey]

theorem lintFile_isSome {p : Path} {kind : Asset} (h : (run.lintFile none p).isSome = true) :
    (run.lintFile (some kind) p).isSome = true := by
  unfold lintFile at h ⊢
  cases hload : run.load p with
  | none =>
    simp only
    split_ifs <;> rfl
  | some la =>
    rw [hload] at h
    simp only [Option.any_none, Bool.false_eq_true, if_false, Option.isSome_map] at h
    simp only
    split_ifs
    · rfl
    · rwa [Option.isSome_map]

/-- The asset that a file gives the rules for the whole tree. -/
theorem loaded_of_lintFile {filter : Option Asset} {p : Path}
    {r : List LintedFile × List (LoadedAsset X)} (h : run.lintFile filter p = some r) :
    r.2 = (run.load p).toList.filter fun la => filter.all (la.envelope.asset = ·) := by
  unfold lintFile at h
  cases hload : run.load p with
  | none =>
    simp only [hload] at h
    split_ifs at h <;> · obtain rfl := Option.some.inj h; rfl
  | some la =>
    simp only [hload] at h
    have hnot : filter.any (fun a => decide (la.envelope.asset ≠ a)) =
        !filter.all fun a => decide (la.envelope.asset = a) := by
      cases filter <;> simp
    split_ifs at h with hother
    · obtain rfl := Option.some.inj h
      rw [hnot, Bool.not_eq_true'] at hother
      rw [Option.toList_some, List.filter_cons_of_neg (by simpa using hother), List.filter_nil]
    · obtain ⟨findings, -, rfl⟩ := Option.map_eq_some_iff.mp h
      rw [hnot, Bool.not_eq_true', Bool.not_eq_false] at hother
      rw [Option.toList_some, List.filter_cons_of_pos (by simpa using hother), List.filter_nil]

theorem path_of_lintFile {filter : Option Asset} {p : Path}
    {r : List LintedFile × List (LoadedAsset X)} (h : run.lintFile filter p = some r)
    {lf : LintedFile} (hlf : lf ∈ r.1) : lf.path = p := by
  unfold lintFile at h
  cases hload : run.load p with
  | none =>
    simp only [hload] at h
    split_ifs at h
    · obtain rfl := Option.some.inj h
      exact absurd hlf List.not_mem_nil
    · obtain rfl := Option.some.inj h
      rw [List.mem_singleton.mp hlf]
  | some la =>
    simp only [hload] at h
    split_ifs at h
    · obtain rfl := Option.some.inj h
      exact absurd hlf List.not_mem_nil
    · obtain ⟨findings, -, rfl⟩ := Option.map_eq_some_iff.mp h
      dsimp only at hlf
      split_ifs at hlf
      · rw [List.mem_singleton.mp hlf]
      · exact absurd hlf List.not_mem_nil

/-! ## The whole run -/

/-- The findings of the rules for one file. -/
def ownFindings (run : LintRun X) (filter : Option Asset) (p : Path) : List LintFinding :=
  ((run.lintFile filter p).map fun r => r.1.flatMap (·.findings)).getD []

def entriesAt (run : LintRun X) (filter : Option Asset) (p : Path) : List LintFinding :=
  (discoverAssets run.tree run.base).flatMap fun q =>
    if q = p then run.ownFindings filter q else []

def overridesAt (run : LintRun X) (p : Path) : List LintFinding :=
  run.overrides.flatMap fun c => if c.1 = p then [c.2] else []

/-- The envelopes that a run keeps. -/
def kept (run : LintRun X) (filter : Option Asset) : List (LoadedAsset X) :=
  run.envelopes.filter fun la => filter.all (la.envelope.asset = ·)

theorem kept_of_mapM {filter : Option Asset} {files : List (List LintedFile × List (LoadedAsset X))}
    (h : (discoverAssets run.tree run.base).mapM (run.lintFile filter) = some files) :
    files.flatMap (·.2) = run.kept filter := by
  obtain ⟨hall, rfl⟩ := mapM_eq_some_iff.mp h
  have henvelopes : run.envelopes = (discoverAssets run.tree run.base).filterMap run.load := rfl
  rw [kept, henvelopes]
  generalize discoverAssets run.tree run.base = paths at hall
  induction paths with
  | nil => rfl
  | cons p paths ih =>
    obtain ⟨hp, hall⟩ := List.forall_mem_cons.mp hall
    obtain ⟨r, hr⟩ := Option.isSome_iff_exists.mp hp
    rw [List.filterMap_cons_some hr, List.flatMap_cons, ih hall, loaded_of_lintFile hr]
    cases hload : run.load p with
    | none => rw [List.filterMap_cons_none hload]; rfl
    | some la =>
      rw [List.filterMap_cons_some hload, ← List.singleton_append, List.filter_append]
      rfl

theorem findingsAt_of_mapM {filter : Option Asset}
    {files : List (List LintedFile × List (LoadedAsset X))}
    (h : (discoverAssets run.tree run.base).mapM (run.lintFile filter) = some files) (p : Path) :
    findingsAt (files.flatMap (·.1)) p = run.entriesAt filter p := by
  obtain ⟨hall, rfl⟩ := mapM_eq_some_iff.mp h
  unfold entriesAt findingsAt
  generalize discoverAssets run.tree run.base = paths at hall
  induction paths with
  | nil => rfl
  | cons q paths ih =>
    obtain ⟨hq, hall⟩ := List.forall_mem_cons.mp hall
    obtain ⟨r, hr⟩ := Option.isSome_iff_exists.mp hq
    rw [List.filterMap_cons_some hr, List.flatMap_cons, List.flatMap_append, ih hall,
      List.flatMap_cons, ownFindings, hr, Option.map_some, Option.getD_some]
    congr 1
    by_cases hpath : q = p
    · rw [if_pos hpath]
      exact List.flatMap_congr fun lf hlf => if_pos ((path_of_lintFile hr hlf).trans hpath)
    · rw [if_neg hpath]
      exact List.flatMap_eq_nil_iff.mpr fun lf hlf =>
        if_neg fun heq => hpath ((path_of_lintFile hr hlf).symm.trans heq)

omit [Json.FloatText X] in
/-- The rules for the whole tree find nothing where there is no automation rule. -/
theorem repo_eq (loaded : List (LoadedAsset X)) :
    (if (loaded.filter (·.envelope.asset.isNonDetection)).isEmpty then some []
      else lintSupportAssetsRepo run.lib loaded) = lintSupportAssetsRepo run.lib loaded := by
  split_ifs with hempty
  · have hnone : loaded.filter (·.envelope.asset = .sentinelAutomationRule) = [] := by
      rw [List.isEmpty_iff, List.filter_eq_nil_iff] at hempty
      rw [List.filter_eq_nil_iff]
      intro la hla hrule
      apply hempty la hla
      rw [of_decide_eq_true hrule]
      rfl
    rw [lintSupportAssetsRepo, hnone, repoFindings_nil]
  · rfl

theorem lintAssets_eq_some {filter : Option Asset} {r : List LintedFile}
    (h : run.lintAssets filter = some r) :
    ∃ repo, lintSupportAssetsRepo run.lib (run.kept filter) = some repo ∧ ∀ p,
      (findingsAt r p).Perm (run.entriesAt filter p ++ extrasAt repo p ++ run.overridesAt p) := by
  obtain ⟨files, hfiles, h⟩ := Option.bind_eq_some_iff.mp h
  dsimp only at h
  rw [repo_eq, kept_of_mapM hfiles] at h
  obtain ⟨repo, hrepo, h⟩ := Option.bind_eq_some_iff.mp h
  obtain rfl := Option.some.inj h
  refine ⟨repo, hrepo, fun p => ?_⟩
  rw [findingsAt, List.flatMap_append, List.flatMap_map, ← findingsAt_of_mapM hfiles]
  exact (findingsAt_foldl_extend (fun path => (((run.kept filter).filter
    (·.envelope.asset.isNonDetection)).find? (·.path = path)).map (·.envelope.asset)) repo
      (files.flatMap (·.1)) p).append_right (run.overridesAt p)

theorem lintAssets_isSome_iff {filter : Option Asset} :
    (run.lintAssets filter).isSome = true ↔
      (∀ p ∈ discoverAssets run.tree run.base, (run.lintFile filter p).isSome = true) ∧
        (lintSupportAssetsRepo run.lib (run.kept filter)).isSome = true := by
  rw [← isSome_mapM_iff]
  unfold lintAssets
  cases hfiles : (discoverAssets run.tree run.base).mapM (run.lintFile filter) with
  | none => simp
  | some files =>
    simp only [Option.bind_eq_bind, Option.bind_some, repo_eq, kept_of_mapM hfiles]
    cases lintSupportAssetsRepo run.lib (run.kept filter) with
    | none => simp
    | some repo => simp

/-! ## What the filter may change -/

def rules (run : LintRun X) : List (LoadedAsset X) :=
  run.envelopes.filter (·.envelope.asset = .sentinelAutomationRule)

/-- The reports of the two runs agree on the files of the kind, and the filtered one misses nothing
that the whole tree has. -/
structure FilterIndependent (run : LintRun X) (kind : Asset) : Prop where
  same : ∀ r, run.lintAssets none = some r → ∃ r', run.lintAssets (some kind) = some r' ∧
    ∀ p, run.HasKind p kind → (findingsAt r' p).Perm (findingsAt r p)
  playbook : ∀ r', run.lintAssets (some kind) = some r' → ∀ la ∈ run.rules, ∀ pbs,
    AutomationRule.playbookRefs run.lib.str la.payload = some pbs → ∀ pb ∈ pbs,
      pb ∈ idsOf .sentinelPlaybook run.envelopes →
        missingPlaybook run.lib pb ∉ findingsAt r' la.path
  analytic : ∀ r', run.lintAssets (some kind) = some r' → ∀ la ∈ run.rules, ∀ ans,
    AutomationRule.analyticRefs la.payload = some ans → ∀ an ∈ ans,
      an ∈ idsOf .sentinelAnalytic run.envelopes → missingAnalytic an ∉ findingsAt r' la.path

/-- No rule raises an exception when it is linted. -/
def RulesLint (run : LintRun X) : Prop :=
  ∀ la ∈ run.rules, (fileFindings run.lib run.strictPolicy la).isSome = true ∧
    (danglingRefs run.lib [] [] la).isSome = true ∧ (triggerKey run.lib la).isSome = true

/-- No automation rule refers to a playbook or an analytic rule of the tree. -/
def NothingProvided (run : LintRun X) : Prop :=
  ∀ la ∈ run.rules,
    (∀ pbs, AutomationRule.playbookRefs run.lib.str la.payload = some pbs →
      ∀ pb ∈ pbs, pb ∉ idsOf .sentinelPlaybook run.envelopes) ∧
    ∀ ans, AutomationRule.analyticRefs la.payload = some ans →
      ∀ an ∈ ans, an ∉ idsOf .sentinelAnalytic run.envelopes

theorem mem_envelopes {la : LoadedAsset X} : la ∈ run.envelopes ↔
    ∃ p ∈ discoverAssets run.tree run.base, run.load p = some la := List.mem_filterMap

theorem kept_rule (run : LintRun X) : run.kept (some .sentinelAutomationRule) = run.rules := by
  simp only [kept, rules, Option.all_some]

theorem repo_rule (run : LintRun X) :
    lintSupportAssetsRepo run.lib (run.kept (some .sentinelAutomationRule)) =
      repoFindings run.lib [] [] run.rules := by
  have hnone : ∀ kind, kind ≠ .sentinelAutomationRule → idsOf kind run.rules = [] := by
    intro kind hkind
    rw [idsOf, rules, List.filter_filter, List.filter_eq_nil_iff.mpr, List.map_nil]
    intro la _
    rw [Bool.and_eq_true, decide_eq_true_iff, decide_eq_true_iff]
    exact fun h => hkind (h.1.symm.trans h.2)
  rw [kept_rule, lintSupportAssetsRepo, hnone _ (by decide), hnone _ (by decide), rules,
    List.filter_filter]
  simp only [Bool.and_self]

theorem repo_other {kind : Asset} (h : kind ≠ .sentinelAutomationRule) :
    lintSupportAssetsRepo run.lib (run.kept (some kind)) = some [] := by
  have hnone : (run.kept (some kind)).filter (·.envelope.asset = .sentinelAutomationRule) = [] := by
    rw [kept, List.filter_filter, List.filter_eq_nil_iff]
    intro la _
    rw [Option.all_some, Bool.and_eq_true, decide_eq_true_iff, decide_eq_true_iff]
    exact fun hboth => h (hboth.2.symm.trans hboth.1)
  rw [lintSupportAssetsRepo, hnone, repoFindings_nil]

theorem lintAssets_rule_isSome_iff :
    (run.lintAssets (some .sentinelAutomationRule)).isSome = true ↔ run.RulesLint := by
  have hfile : ∀ p, (run.lintFile (some .sentinelAutomationRule) p).isSome = true ↔
      ∀ la, run.load p = some la → la.envelope.asset = .sentinelAutomationRule →
        (fileFindings run.lib run.strictPolicy la).isSome = true := by
    intro p
    unfold lintFile
    cases run.load p with
    | none =>
      simp only
      split_ifs <;> simp
    | some la =>
      simp only [Option.any_some, Option.some.injEq]
      split_ifs with hother
      · have hne := of_decide_eq_true hother
        simp only [Option.isSome_some, true_iff]
        rintro _ rfl hrule
        exact absurd hrule hne
      · have heq : la.envelope.asset = .sentinelAutomationRule := by simpa using hother
        rw [Option.isSome_map]
        constructor
        · rintro hsome _ rfl -
          exact hsome
        · exact fun h => h la rfl heq
  rw [lintAssets_isSome_iff, repo_rule, repoFindings_isSome_iff]
  constructor
  · rintro ⟨hfiles, hrepo⟩ la hla
    obtain ⟨henv, hrule⟩ := List.mem_filter.mp hla
    obtain ⟨p, hp, hload⟩ := mem_envelopes.mp henv
    exact ⟨(hfile p).mp (hfiles p hp) la hload (of_decide_eq_true hrule), hrepo la hla⟩
  · intro h
    refine ⟨fun p hp => (hfile p).mpr fun la hload hrule => ?_, fun la hla => (h la hla).2⟩
    exact (h la (List.mem_filter.mpr ⟨mem_envelopes.mpr ⟨p, hp, hload⟩, decide_eq_true hrule⟩)).1

theorem entriesAt_of_hasKind {p : Path} {kind : Asset} (h : run.HasKind p kind) :
    run.entriesAt (some kind) p = run.entriesAt none p := by
  unfold entriesAt
  refine List.flatMap_congr fun q _ => ?_
  split_ifs with hq
  · rw [ownFindings, ownFindings, hq, lintFile_of_hasKind h]
  · rfl

/-- The rules for the whole tree add nothing to a file of another kind. -/
theorem extrasAt_eq_nil {p : Path} {kind : Asset} (hkind : kind ≠ .sentinelAutomationRule)
    (h : run.HasKind p kind) {loaded : List (LoadedAsset X)} (hsub : loaded ⊆ run.envelopes)
    {repo : List (Path × List LintFinding)}
    (hrepo : lintSupportAssetsRepo run.lib loaded = some repo) : extrasAt repo p = [] := by
  refine List.flatMap_eq_nil_iff.mpr fun c hc => if_neg fun hpath => ?_
  obtain ⟨la, hla, hla'⟩ := path_of_repoFindings hrepo hc
  obtain ⟨hmem, hrule⟩ := List.mem_filter.mp hla
  have hload := load_of_mem (hsub hmem)
  rw [hla', hpath] at hload
  rcases h with ⟨lb, hlb, hasset⟩ | ⟨hnone, -⟩
  · obtain rfl := Option.some.inj (hload.symm.trans hlb)
    exact hkind (hasset.symm.trans (of_decide_eq_true hrule))
  · exact absurd (hload.symm.trans hnone) (by simp)

theorem lintAssets_isSome_of_none (kind : Asset) (h : (run.lintAssets none).isSome = true) :
    (run.lintAssets (some kind)).isSome = true := by
  obtain ⟨hfiles, hrepo⟩ := lintAssets_isSome_iff.mp h
  refine lintAssets_isSome_iff.mpr ⟨fun p hp => lintFile_isSome (hfiles p hp), ?_⟩
  rw [lintSupportAssetsRepo, repoFindings_isSome_iff] at hrepo ⊢
  intro la hla
  refine hrepo la ?_
  obtain ⟨hla, hrule⟩ := List.mem_filter.mp hla
  refine List.mem_filter.mpr ⟨?_, hrule⟩
  rw [kept]
  exact List.mem_filter.mpr ⟨(List.mem_filter.mp hla).1, rfl⟩

/-! ## Both directions -/

theorem repo_of_nothingProvided (h : run.NothingProvided) :
    lintSupportAssetsRepo run.lib (run.kept none) = repoFindings run.lib [] [] run.rules := by
  have hkept : run.kept none = run.envelopes := by
    rw [kept]
    exact List.filter_eq_self.mpr fun la _ => rfl
  rw [hkept, lintSupportAssetsRepo]
  have hrefs : ∀ la ∈ run.rules,
      (danglingRefs run.lib (idsOf .sentinelPlaybook run.envelopes)
        (idsOf .sentinelAnalytic run.envelopes) la).map (fun found => (la.path, found)) =
      (danglingRefs run.lib [] [] la).map fun found => (la.path, found) := by
    intro la hla
    obtain ⟨hpbs, hans⟩ := h la hla
    unfold danglingRefs
    cases hp : AutomationRule.playbookRefs run.lib.str la.payload with
    | none => rfl
    | some pbs =>
      cases ha : AutomationRule.analyticRefs la.payload with
      | none => rfl
      | some ans =>
        -- a reference to nothing of the tree is dangling beside every list of ids
        have hall : ∀ {refs ids : List String}, (∀ x ∈ refs, x ∉ ids) →
            refs.filter (· ∉ ids) = refs.filter (· ∉ ([] : List String)) := by
          intro refs ids hrefs
          refine List.filter_congr fun x hx => ?_
          simp [hrefs x hx]
        simp only [Option.bind_eq_bind, Option.bind_some, hall (hpbs pbs hp), hall (hans ans ha)]
  unfold repoFindings
  rw [← rules, mapM_congr hrefs]

omit [Value.ScalarEq X] [Json.FloatText X] in
theorem rule_id_of_fileFindings {lib : LintLib X} {strict : Bool} {la : LoadedAsset X}
    {findings : List LintFinding} (h : fileFindings lib strict la = some findings)
    {f : LintFinding} (hf : f ∈ findings) : f.rule_id ≠ "PAYLOAD007" := by
  obtain ⟨payload, hpayload, h⟩ := Option.bind_eq_some_iff.mp h
  obtain ⟨metadata, hmetadata, h⟩ := Option.bind_eq_some_iff.mp h
  obtain ⟨rest, hrest, h⟩ := Option.bind_eq_some_iff.mp h
  obtain rfl := Option.some.inj h
  rcases List.mem_append.mp hf with hf | hf
  · rcases List.mem_append.mp hf with hf | hf
    · exact lib.payload_own la payload hpayload f hf
    · split_ifs at hrest
      · obtain ⟨support, hsupport, rfl⟩ := Option.map_eq_some_iff.mp hrest
        rcases List.mem_append.mp hf with hf | hf
        · exact lib.support_own la support hsupport f hf
        · exact lib.metadata_own la _ metadata hmetadata f (List.mem_filter.mp hf).1
      · obtain rfl := Option.some.inj hrest
        exact lib.metadata_own la _ metadata hmetadata f hf
  · cases hquery : queryFor la with
    | none => simp [hquery] at hf
    | some q =>
      rw [hquery] at hf
      exact lib.query_own q _ f hf

theorem rule_id_of_entriesAt {filter : Option Asset} {p : Path} {f : LintFinding}
    (h : f ∈ run.entriesAt filter p) : f.rule_id ≠ "PAYLOAD007" := by
  obtain ⟨q, -, hq⟩ := List.mem_flatMap.mp h
  split_ifs at hq with hpath
  · unfold ownFindings lintFile at hq
    cases hload : run.load q with
    | none =>
      simp only [hload] at hq
      split_ifs at hq
      · exact absurd hq (by simp)
      · obtain rfl : f = run.loadErrorFinding q := by simpa using hq
        exact (by decide : "ENVELOPE001" ≠ "PAYLOAD007")
    | some la =>
      simp only [hload] at hq
      split_ifs at hq
      · exact absurd hq (by simp)
      · cases hfile : fileFindings run.lib run.strictPolicy la with
        | none => simp [hfile] at hq
        | some findings =>
          have hf : f ∈ findings := by
            rw [hfile, Option.map_some, Option.map_some, Option.getD_some] at hq
            split_ifs at hq
            · simpa using hq
            · exact absurd hq (by simp)
          exact rule_id_of_fileFindings hfile hf
  · exact absurd hq List.not_mem_nil

omit [Value.ScalarEq X] [Json.FloatText X] in
theorem rule_id_of_overridesAt {p : Path} {f : LintFinding} (h : f ∈ run.overridesAt p) :
    f.rule_id ≠ "PAYLOAD007" := by
  obtain ⟨c, hc, hf⟩ := List.mem_flatMap.mp h
  split_ifs at hf
  · obtain rfl := List.mem_singleton.mp hf
    exact run.overrides_own c hc
  · exact absurd hf List.not_mem_nil

/-- A filtered lint of the automation rules reports every reference. -/
theorem danglingRefs_reported {r' : List LintedFile}
    (h : run.lintAssets (some .sentinelAutomationRule) = some r') {la : LoadedAsset X}
    (hla : la ∈ run.rules) {found : List LintFinding}
    (hfound : danglingRefs run.lib [] [] la = some found) {f : LintFinding} (hf : f ∈ found) :
    f ∈ findingsAt r' la.path := by
  obtain ⟨repo, hrepo, hperm⟩ := lintAssets_eq_some h
  rw [repo_rule] at hrepo
  obtain ⟨dangling, hdangling, hrest⟩ := Option.bind_eq_some_iff.mp hrepo
  obtain ⟨keys, -, hrest⟩ := Option.bind_eq_some_iff.mp hrest
  obtain rfl := Option.some.inj hrest
  refine (hperm la.path).mem_iff.mpr (List.mem_append_left _ (List.mem_append_right _ ?_))
  refine List.mem_flatMap.mpr ⟨(la.path, found), List.mem_append_left _ ?_, by simpa using hf⟩
  refine List.mem_filter.mpr ⟨(mem_iff_of_mapM hdangling).mpr ⟨la, hla, by rw [hfound]; rfl⟩, ?_⟩
  simpa using List.ne_nil_of_mem hf

/-- A filter by kind changes no finding exactly when it is no filter by automation rules, or no rule
refers to what is in the tree. -/
theorem filterIndependent_iff (run : LintRun X) (kind : Asset) :
    run.FilterIndependent kind ↔
      (kind = .sentinelAutomationRule → run.RulesLint → run.NothingProvided) := by
  constructor
  · rintro h rfl hlint la hla
    obtain ⟨r', hr'⟩ := Option.isSome_iff_exists.mp (lintAssets_rule_isSome_iff.mpr hlint)
    obtain ⟨found, hfound⟩ := Option.isSome_iff_exists.mp (hlint la hla).2.1
    obtain ⟨pbs, hpbs, hrest⟩ := Option.bind_eq_some_iff.mp hfound
    obtain ⟨ans, hans, hrest⟩ := Option.bind_eq_some_iff.mp hrest
    obtain rfl := Option.some.inj hrest
    refine ⟨fun pbs' hpbs' pb hpb hprovided => ?_, fun ans' hans' an han hprovided => ?_⟩
    · obtain rfl := Option.some.inj (hpbs.symm.trans hpbs')
      refine h.playbook r' hr' la hla pbs hpbs' pb hpb hprovided ?_
      refine danglingRefs_reported hr' hla hfound (List.mem_append_left _ ?_)
      exact List.mem_map_of_mem (List.mem_filter.mpr ⟨hpb, by simp⟩)
    · obtain rfl := Option.some.inj (hans.symm.trans hans')
      refine h.analytic r' hr' la hla ans hans' an han hprovided ?_
      refine danglingRefs_reported hr' hla hfound (List.mem_append_right _ ?_)
      exact List.mem_map_of_mem (List.mem_filter.mpr ⟨han, by simp⟩)
  · intro hcond
    by_cases hkind : kind = .sentinelAutomationRule
    · subst hkind
      have hprovided : ∀ {r'}, run.lintAssets (some .sentinelAutomationRule) = some r' →
          run.NothingProvided := fun h =>
        hcond rfl (lintAssets_rule_isSome_iff.mp (by rw [h]; rfl))
      refine ⟨fun r hr => ?_, fun r' hr' la hla pbs hpbs pb hpb hmem => ?_,
        fun r' hr' la hla ans hans an han hmem => ?_⟩
      · obtain ⟨r', hr'⟩ := Option.isSome_iff_exists.mp
          (lintAssets_isSome_of_none .sentinelAutomationRule (by rw [hr]; rfl))
        refine ⟨r', hr', fun p hp => ?_⟩
        obtain ⟨repo, hrepo, hperm⟩ := lintAssets_eq_some hr
        obtain ⟨repo', hrepo', hperm'⟩ := lintAssets_eq_some hr'
        rw [repo_of_nothingProvided (hprovided hr')] at hrepo
        rw [repo_rule] at hrepo'
        obtain rfl := Option.some.inj (hrepo.symm.trans hrepo')
        refine (hperm' p).trans ?_
        rw [entriesAt_of_hasKind hp]
        exact (hperm p).symm
      · exact absurd hmem ((hprovided hr' la hla).1 pbs hpbs pb hpb)
      · exact absurd hmem ((hprovided hr' la hla).2 ans hans an han)
    · have hnever : ∀ {r' f p}, run.lintAssets (some kind) = some r' → f ∈ findingsAt r' p →
          f.rule_id ≠ "PAYLOAD007" := by
        intro r' f p hr' hf
        obtain ⟨repo, hrepo, hperm⟩ := lintAssets_eq_some hr'
        rw [repo_other hkind] at hrepo
        obtain rfl := Option.some.inj hrepo
        rcases List.mem_append.mp ((hperm p).mem_iff.mp hf) with hf | hf
        · rcases List.mem_append.mp hf with hf | hf
          · exact rule_id_of_entriesAt hf
          · exact absurd hf List.not_mem_nil
        · exact rule_id_of_overridesAt hf
      refine ⟨fun r hr => ?_, fun r' hr' la _ pbs _ pb _ _ hmem => hnever hr' hmem rfl,
        fun r' hr' la _ ans _ an _ _ hmem => hnever hr' hmem rfl⟩
      obtain ⟨r', hr'⟩ := Option.isSome_iff_exists.mp
        (lintAssets_isSome_of_none kind (by rw [hr]; rfl))
      refine ⟨r', hr', fun p hp => ?_⟩
      obtain ⟨repo, hrepo, hperm⟩ := lintAssets_eq_some hr
      obtain ⟨repo', hrepo', hperm'⟩ := lintAssets_eq_some hr'
      have hsub : ∀ filter, run.kept filter ⊆ run.envelopes :=
        fun filter la hla => (List.mem_filter.mp hla).1
      have hnil := extrasAt_eq_nil hkind hp (hsub _) hrepo
      have hnil' := extrasAt_eq_nil hkind hp (hsub _) hrepo'
      refine (hperm' p).trans ?_
      rw [entriesAt_of_hasKind hp, hnil', ← hnil]
      exact (hperm p).symm

end LintRun
end

/-! ## A rule that runs a playbook of the tree -/

namespace Sample

def playbookText : Text := "playbook".toList
def ruleText : Text := "rule".toList

def envelope (id : String) (asset : Asset) (payload : Document Empty) : Value Empty :=
  .dict [("id", .str id), ("version", .str "1.0.0"), ("asset", .str asset.value),
    ("status", .str "production"), ("payload", .dict payload)]

def rulePayload : Document Empty :=
  [("actions", .list [.dict [("actionType", .str "RunPlaybook"),
    ("actionConfiguration", .dict [("playbook", .str "block")])]])]

def lib : LintLib Empty where
  lintPayload _ := some []
  lintMetadata _ _ := some []
  lintSupportAssetPayload _ := some []
  lintQuery _ _ := []
  hasPartialAuthoring _ := false
  loadDetail _ := ("", none)
  str _ := ""
  repr t := t
  reprList ts := String.join ts
  payload_own _ _ h := by simp [← Option.some.inj h]
  metadata_own _ _ _ h := by simp [← Option.some.inj h]
  support_own _ _ h := by simp [← Option.some.inj h]
  query_own _ _ := by simp

def run : LintRun Empty where
  libs :=
    { safeLoad := fun t =>
        if t = playbookText then some (envelope "block" .sentinelPlaybook [])
        else if t = ruleText then some (envelope "on-create" .sentinelAutomationRule rulePayload)
        else none
      dump := fun _ => []
      laxInt := fun _ => none }
  lib := lib
  tree :=
    (Directory.empty.write ["detections", "sentinel_playbook", "block.yml"] playbookText).write
      ["detections", "sentinel_automation_rule", "on-create.yml"] ruleText
  base := ["detections"]
  strictPolicy := false
  overrides := []
  overrides_own := by simp

def ruleAsset : LoadedAsset Empty where
  path := ["detections", "sentinel_automation_rule", "on-create.yml"]
  envelope := { id := "on-create", version := "1.0.0", asset := .sentinelAutomationRule,
                status := "production", armName := none }
  payload := .dict rulePayload

end Sample

theorem Sample.rules_run : Sample.run.rules = [Sample.ruleAsset] := by
  have hfields : Sample.run.rules.map (fun la => (la.path, la.envelope, la.payload)) =
      [(Sample.ruleAsset.path, Sample.ruleAsset.envelope, Sample.ruleAsset.payload)] := by
    decide +kernel
  have hinj : Function.Injective
      fun la : LoadedAsset Empty => (la.path, la.envelope, la.payload) := by
    rintro ⟨p, e, v⟩ ⟨p', e', v'⟩ h
    simpa using h
  exact List.map_injective_iff.mpr hinj hfields

theorem Sample.rulesLint_run : Sample.run.RulesLint := by
  intro la hla
  rw [rules_run, List.mem_singleton] at hla
  subst hla
  exact ⟨rfl, by decide +kernel, by decide +kernel⟩

theorem filter_invents_reference : ¬Sample.run.FilterIndependent .sentinelAutomationRule := by
  intro h
  obtain ⟨r', hr'⟩ := Option.isSome_iff_exists.mp
    (LintRun.lintAssets_rule_isSome_iff.mpr Sample.rulesLint_run)
  have hla : Sample.ruleAsset ∈ Sample.run.rules := by
    rw [Sample.rules_run]
    exact List.mem_singleton_self _
  have hrefs : AutomationRule.playbookRefs Sample.run.lib.str Sample.ruleAsset.payload =
      some ["block"] := by decide +kernel
  have hprovided : "block" ∈ idsOf .sentinelPlaybook Sample.run.envelopes := by decide +kernel
  have hdangling : danglingRefs Sample.run.lib [] [] Sample.ruleAsset =
      some [missingPlaybook Sample.run.lib "block"] := by decide +kernel
  exact h.playbook r' hr' Sample.ruleAsset hla ["block"] hrefs "block" (List.mem_singleton_self _)
    hprovided (LintRun.danglingRefs_reported hr' hla hdangling (List.mem_singleton_self _))

end ContentOps.Lint
