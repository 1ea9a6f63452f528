import ContentOps.Cli.ApplySupport
import ContentOps.Utils.GitDiff

/-! The assets that `--changed-since` selects, `_load_assets_for_run` of
`cli/commands/apply_support.py`. -/

namespace ContentOps
open PyData

section
variable {X : Type} [Value.ScalarEq X] [Json.FloatText X] (libs : Libs X)

/-- `_filter_changed_since`; `none` is an exit. -/
def filterChangedSince (repo : GitRepo) (cwd : Path) (las : List (LoadedAsset X)) (ref : String) :
    Option (List (LoadedAsset X)) :=
  (changedPaths repo cwd ref).map fun diff => las.filter fun la => la.path ∈ diff

/-- `_filter_disabled_engines`; `none` is an exception. -/
def filterDisabledEngines (config : ConfigFile) (las : List (LoadedAsset X)) :
    Option (List (LoadedAsset X)) :=
  match config with
  | .invalid => none
  | _ => some (las.filter fun la => engineEnabled config la.envelope.asset)

/-- `_load_assets_for_run`; `none` is an exit or an exception. -/
def loadAssetsForRun (config : ConfigFile) (repo : GitRepo) (cwd base : Path) (asset : Option Asset)
    (changedSince : Option String) : Option (List (LoadedAsset X)) := do
  let las := loadedAssets libs repo.work base
  let las := match asset with
    | some target => las.filter fun la => la.envelope.asset = target
    | none => las
  let las ← match changedSince with
    | some ref => if ref = "" then some las else filterChangedSince repo cwd las ref
    | none => some las
  filterDisabledEngines config las

/-- The payload that is loaded from a file. -/
def loadedPayload (tree : FileTree) (p : Path) : Option (Value X) :=
  ((tree.read p).bind (loadAsset libs tree p)).map (·.payload)

/-- The payload with its snippets substituted for a workspace. -/
def substitutedPayload (tree : FileTree) (base : Path) (workspaceName : Option String) (p : Path) :
    Option (Value X) :=
  (((tree.read p).bind (loadAsset libs tree p)).bind
    (Snippets.applySnippets libs tree (base.dropLast ++ ["overrides"]) workspaceName)).map (·.payload)

/-- What the file deploys is not what it deployed in the older tree. -/
def ContentChanged (old work : FileTree) (base : Path) (workspaceName : Option String) (p : Path) :
    Prop :=
  loadedPayload libs old p ≠ loadedPayload libs work p ∨
    substitutedPayload libs old base workspaceName p ≠
      substitutedPayload libs work base workspaceName p

/-- The assets whose content has changed since the ref are selected. -/
def SelectsChanged (config : ConfigFile) (repo : GitRepo) (old : FileTree) (cwd base : Path)
    (workspaceName : Option String) (asset : Option Asset) (ref : String) : Prop :=
  ∀ la ∈ loadedAssets libs repo.work base,
    ContentChanged libs old repo.work base workspaceName la.path →
      ∃ las, loadAssetsForRun libs config repo cwd base asset (some ref) = some las ∧ la ∈ las

/-- Git prints a path that needs no quotes and that, without blanks around it, leads from the current
directory to the file. -/
def PrintedAs (repo : GitRepo) (old : FileTree) (cwd p : Path) : Prop :=
  ∃ rel, repo.Prints old cwd rel ∧ Plain rel ∧ readLine cwd (slashed rel) = some p

variable {libs} {config : ConfigFile} {repo : GitRepo} {old : FileTree} {cwd base : Path}
  {workspaceName : Option String} {asset : Option Asset} {ref : String}

omit [Value.ScalarEq X] [Json.FloatText X] in
theorem mem_filterDisabledEngines {las : List (LoadedAsset X)} {la : LoadedAsset X} :
    (∃ kept, filterDisabledEngines config las = some kept ∧ la ∈ kept) ↔
      la ∈ las ∧ config ≠ .invalid ∧ engineEnabled config la.envelope.asset = true := by
  unfold filterDisabledEngines
  cases config <;> simp

theorem isYaml_of_mem_loadedAssets {la : LoadedAsset X} {tree : FileTree}
    (h : la ∈ loadedAssets libs tree base) : la.path.getLast?.any (hasSuffix ".yml") = true := by
  obtain ⟨content, hmem⟩ := List.mem_map.mp (mem_loadedAssets.mp h).1
  have hpattern := (Directory.mem_glob.mp hmem.1).2
  rw [hmem.2] at hpattern
  exact (Bool.and_eq_true_iff.mp (Bool.and_eq_true_iff.mp hpattern).1).2

/-- The file itself has changed, below the top from which the command runs. -/
theorem printedAs_of_changed {p rel : Path} {content : Text} (hp : p = repo.top ++ rel)
    (hread : repo.work.read p = some content) (hchanged : repo.work.read p ≠ old.read p)
    (hseen : repo.tracked p = true ∨ repo.ignored p = false) (hplain : Plain rel)
    (hblank : Text.strip (slashed rel) = slashed rel) (hne : slashed rel ≠ []) :
    PrintedAs repo old repo.top p := by
  subst hp
  have hsome : (repo.work.read (repo.top ++ rel)).isSome := by rw [hread, Option.isSome_some]
  have hnames : ∀ name ∈ rel, IsName name := fun name hname =>
    repo.work_names _ (GitRepo.mem_keys_of_isSome hsome) name (List.mem_append_right _ hname)
  exact ⟨rel, GitRepo.prints_of_changed hsome hchanged hseen, hplain,
    readLine_slashed hnames hblank hne _⟩

/-- The asset is selected when git prints its own file and the run is about it. -/
theorem mem_loadAssetsForRun (href : repo.refs ref = some old) {la : LoadedAsset X}
    (hla : la ∈ loadedAssets libs repo.work base) :
    (∃ las, loadAssetsForRun libs config repo cwd base asset (some ref) = some las ∧ la ∈ las) ↔
      (asset.all (la.envelope.asset = ·) = true ∧ config ≠ .invalid ∧
        engineEnabled config la.envelope.asset = true) ∧ PrintedAs repo old cwd la.path := by
  have hprinted : (∃ diff, changedPaths repo cwd ref = some diff ∧ la.path ∈ diff) ↔
      PrintedAs repo old cwd la.path := by
    rw [GitRepo.mem_changedPaths href]
    constructor
    · rintro ⟨rel, hprints, hread⟩
      have hplain := plain_of_readLine (isYaml_of_mem_loadedAssets hla) hread
      exact ⟨rel, hprints, hplain, quotePath_of_not hplain ▸ hread⟩
    · rintro ⟨rel, hprints, hplain, hread⟩
      exact ⟨rel, hprints, (quotePath_of_not hplain).symm ▸ hread⟩
  have hasset : la ∈ (match asset with
      | some target => (loadedAssets libs repo.work base).filter
          fun la : LoadedAsset X => la.envelope.asset = target
      | none => loadedAssets libs repo.work base) ↔ asset.all (la.envelope.asset = ·) = true := by
    cases asset <;> simp [hla]
  have hne : ref ≠ "" := by
    rintro rfl
    exact absurd (href.symm.trans repo.refs_empty) (by simp)
  unfold loadAssetsForRun filterChangedSince
  dsimp only
  rw [if_neg hne, ← hasset, ← hprinted]
  constructor
  · rintro ⟨las, hrun, hmem⟩
    obtain ⟨selected, hselected, hengines⟩ := Option.bind_eq_some_iff.mp hrun
    obtain ⟨diff, hdiff, rfl⟩ := Option.map_eq_some_iff.mp hselected
    obtain ⟨hfilter, hconfig, hengine⟩ := mem_filterDisabledEngines.mp ⟨las, hengines, hmem⟩
    obtain ⟨hin, hpath⟩ := List.mem_filter.mp hfilter
    exact ⟨⟨hin, hconfig, hengine⟩, diff, hdiff, of_decide_eq_true hpath⟩
  · rintro ⟨⟨hin, hconfig, hengine⟩, diff, hdiff, hpath⟩
    have hkept := List.mem_filter (p := fun la : LoadedAsset X => la.path ∈ diff) |>.mpr
      ⟨hin, decide_eq_true hpath⟩
    obtain ⟨las, hengines, hmem⟩ := mem_filterDisabledEngines.mpr ⟨hkept, hconfig, hengine⟩
    exact ⟨las, Option.bind_eq_some_iff.mpr ⟨_, Option.map_eq_some_iff.mpr ⟨diff, hdiff, rfl⟩,
      hengines⟩, hmem⟩

/-- The changed assets are selected exactly when the run is about each of them and git prints its own
file as the code reads it. -/
theorem selectsChanged_iff (href : repo.refs ref = some old) :
    SelectsChanged libs config repo old cwd base workspaceName asset ref ↔
      ∀ la ∈ loadedAssets libs repo.work base,
        ContentChanged libs old repo.work base workspaceName la.path →
          (asset.all (la.envelope.asset = ·) = true ∧ config ≠ .invalid ∧
            engineEnabled config la.envelope.asset = true) ∧ PrintedAs repo old cwd la.path :=
  forall₂_congr fun _ hla => imp_congr_right fun _ => mem_loadAssetsForRun href hla

end

/-! ## A file name with an accent -/

namespace Sample

def cafePath : Path := ["r", "detections", "sentinel_analytic", "café.yml"]

def cafeDocument (query : String) : Document Empty :=
  [("id", .str "cafe"), ("version", .str "1.0.0"), ("asset", .str "sentinel_analytic"),
    ("status", .str "production"), ("payload", .dict [("query", .str query)])]

def cafeLibs : Libs Empty where
  safeLoad t := some (.dict (cafeDocument (String.ofList t)))
  dump _ := []
  laxInt _ := none

def oldCafe : FileTree := Directory.empty.write cafePath "old".toList

/-- The query of the rule has been edited since the ref. -/
def cafeRepo : GitRepo where
  top := ["r"]
  work := Directory.empty.write cafePath "new".toList
  refs ref := if ref = "main" then some oldCafe else none
  tracked _ := true
  ignored _ := false
  renamedAway _ _ := false
  refs_empty := rfl
  work_names := by
    have hkeys : (Directory.empty.write cafePath "new".toList : FileTree).entries.keys =
        [cafePath] := rfl
    rw [hkeys]
    decide
  refs_names := by
    intro ref tree htree
    obtain rfl : oldCafe = tree := by
      split_ifs at htree
      exact Option.some.inj htree
    have hkeys : oldCafe.entries.keys = [cafePath] := rfl
    rw [hkeys]
    decide

end Sample

theorem cafeRepo_not_selectsChanged :
    ¬ SelectsChanged Sample.cafeLibs .missing Sample.cafeRepo Sample.oldCafe ["r"]
      ["r", "detections"] none none "main" := by
  have hone : ((loadedAssets Sample.cafeLibs Sample.cafeRepo.work ["r", "detections"]).map (·.path)) =
      [Sample.cafePath] := by
    decide +kernel
  have hempty : (loadAssetsForRun Sample.cafeLibs .missing Sample.cafeRepo ["r"] ["r", "detections"]
      none (some "main")).any (·.isEmpty) = true := by
    decide +kernel
  -- The query that is loaded from a tree.
  let query := fun tree : FileTree =>
    ((loadedPayload Sample.cafeLibs tree Sample.cafePath).bind (·.dict?)).bind
      (requiredText · "query")
  have hqueries : query Sample.oldCafe = some "old" ∧ query Sample.cafeRepo.work = some "new" := by
    decide +kernel
  intro hselects
  obtain ⟨la, hla, hpath⟩ := List.mem_map.mp (hone ▸ List.mem_singleton_self Sample.cafePath)
  have hchanged : ContentChanged Sample.cafeLibs Sample.oldCafe Sample.cafeRepo.work
      ["r", "detections"] none la.path := by
    rw [hpath]
    refine .inl fun heq => ?_
    have hsame : query Sample.oldCafe = query Sample.cafeRepo.work :=
      congrArg (fun v => (v.bind (·.dict?)).bind (requiredText · "query")) heq
    rw [hqueries.1, hqueries.2] at hsame
    exact absurd hsame (by decide)
  obtain ⟨las, hrun, hmem⟩ := hselects la hla hchanged
  rw [hrun, Option.any_some, List.isEmpty_iff] at hempty
  exact absurd (hempty ▸ hmem) (by simp)

theorem selectsChanged_iff_cafeRepo :
    SelectsChanged Sample.cafeLibs .missing Sample.cafeRepo Sample.oldCafe ["r"]
        ["r", "detections"] none none "main" ↔
      ∀ la ∈ loadedAssets Sample.cafeLibs Sample.cafeRepo.work ["r", "detections"],
        ContentChanged Sample.cafeLibs Sample.oldCafe Sample.cafeRepo.work ["r", "detections"] none
            la.path →
          ((none : Option Asset).all (la.envelope.asset = ·) = true ∧ ConfigFile.missing ≠ .invalid ∧
            engineEnabled .missing la.envelope.asset = true) ∧
          PrintedAs Sample.cafeRepo Sample.oldCafe ["r"] la.path :=
  selectsChanged_iff rfl

end ContentOps
