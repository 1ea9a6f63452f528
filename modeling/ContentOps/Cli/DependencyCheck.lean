import ContentOps.Cli.ChangedSince
import ContentOps.Core.Dependencies

/-! The dependency check of `plan` and `apply`, `cli/commands/apply.py`: it is made among the assets
that the filters of the run have left. -/

namespace ContentOps
open PyData Dependencies

/-- `_check_apply_write_allowed_or_exit` lets the run go on. -/
def Selection.letsWrite (sel : Selection) (asset : Option Asset) (dryRun : Bool) : Bool :=
  match sel.cfg with
  | none => true
  | some cfg => dryRun || (sel.workspaces.all (·.writeAllowed) &&
      (!asset.all (·.isDefender) || cfg.defender.all (·.writeAllowed)))

/-- `_skip_if_integration_role_absent`. -/
def skipIfIntegrationRoleAbsent (config : ConfigFile) (role : Option WorkspaceRole)
    (workspaceName : Option String) : Bool :=
  match config with
  | .found cfg => role = some .integration && workspaceName.getD "" = "" &&
      (cfg.workspacesForRole .integration).isEmpty
  | _ => false

inductive CheckCommand where
  | plan
  | apply
deriving DecidableEq

/-- A run of `plan` or of `apply`; `str` is of a value that is no text. -/
structure CheckRun (X : Type) where
  libs : Libs X
  str : Value X → String
  casefold : String → String
  config : ConfigFile
  activeWorkspace : Option String := none
  disabledKinds : String := ""
  repo : GitRepo
  cwd : Path
  base : Path
  graph : DependencyGraph
  command : CheckCommand
  asset : Option Asset := none
  changedSince : Option String := none
  role : Option WorkspaceRole := none
  workspaceName : Option String := none
  dryRun : Bool := false
  skipDepsCheck : Bool := false

namespace CheckRun
variable {X : Type}

def selection? (run : CheckRun X) : Option Selection :=
  resolveWorkspacesForRun run.casefold run.config run.role run.workspaceName

/-- The file is one that `--changed-since` selects. -/
def SelectsPath (run : CheckRun X) (path : Path) : Prop :=
  match run.changedSince with
  | none => True
  | some ref => ref = "" ∨ ∃ diff, changedPaths run.repo run.cwd ref = some diff ∧ path ∈ diff

/-- Each of the filters of the run lets the asset through. -/
structure Keeps (run : CheckRun X) (la : LoadedAsset X) : Prop where
  asset : run.asset.all (la.envelope.asset = ·) = true
  changed : run.SelectsPath la.path
  engine : engineEnabled run.config la.envelope.asset = true
  status : run.command = .apply → ∀ sel, run.selection? = some sel →
    sel.admits la.envelope.asset la.envelope.status = true

variable [Value.ScalarEq X] [Json.FloatText X]

/-- The envelopes of the whole tree. -/
def envelopes (run : CheckRun X) : List (LoadedAsset X) :=
  loadedAssets run.libs run.repo.work run.base

def loaded (run : CheckRun X) : Option (List (LoadedAsset X)) :=
  loadAssetsForRun run.libs run.config run.repo run.cwd run.base run.asset run.changedSince

/-- The assets of `plan_cmd`; `none` is an exit or an end before the check. -/
def planAssets (run : CheckRun X) : Option (List (LoadedAsset X)) :=
  if skipIfIntegrationRoleAbsent run.config run.role run.workspaceName then none
  else do
    let _ ← resolveSingleWorkspace run.casefold run.config run.activeWorkspace run.role
      run.workspaceName
    let _ ← run.selection?
    let _ ← registeredKinds run.config run.disabledKinds
    run.loaded

/-- The assets of `apply_cmd`; `none` is an exit or an end before the check. -/
def applyAssets (run : CheckRun X) : Option (List (LoadedAsset X)) := do
  let sel ← run.selection?
  if !sel.letsWrite run.asset run.dryRun then none
  else if sel.workspaces.isEmpty && run.role = some .integration then none
  else
    let _ ← registeredKinds run.config run.disabledKinds
    -- Only `apply` looks at the statuses, after the filters it shares with `plan`.
    let las := (← run.loaded).filter fun la => sel.admits la.envelope.asset la.envelope.status
    if las.isEmpty then none else some las

/-- The assets that the check is about. -/
def checkedAssets (run : CheckRun X) : Option (List (LoadedAsset X)) :=
  if run.skipDepsCheck then none
  else match run.command with
    | .plan => run.planAssets
    | .apply => run.applyAssets

/-- The selected assets and what is reported of them; `none` is a run without a report. -/
def checked (run : CheckRun X) : Option (List (LoadedAsset X) × DependencyReport) := do
  let las ← run.checkedAssets
  return (las, ← validate run.str run.graph las)

/-! ## The verdicts -/

/-- What a selected asset is reported for is what the whole tree has none of, and the run over the
whole tree reports it as well. -/
structure VerdictsOfTree (run : CheckRun X) (las : List (LoadedAsset X)) (report : DependencyReport) :
    Prop where
  reported : ∀ v, v ∈ report.violations ↔
    ∃ la ∈ las, la.envelope.id = v.assetId ∧
      Requires run.str run.graph la v.missingKind v.missingName ∧
      ∀ p ∈ run.envelopes, ¬ Provides p v.missingKind v.missingName
  narrowed : ∀ full, validate run.str run.graph run.envelopes = some full →
    ∀ v ∈ report.violations, v ∈ full.violations

/-- What is there of the prerequisites of an asset that the filters keep, they keep an envelope of. -/
def KeepsPrerequisites (run : CheckRun X) : Prop :=
  ∀ la ∈ run.envelopes, run.Keeps la → ∀ kind name, Requires run.str run.graph la kind name →
    (∃ p ∈ run.envelopes, Provides p kind name) →
      ∃ p ∈ run.envelopes, run.Keeps p ∧ Provides p kind name

variable {run : CheckRun X} {las : List (LoadedAsset X)} {report : DependencyReport}

theorem mem_loaded (h : run.loaded = some las) {la : LoadedAsset X} :
    la ∈ las ↔ la ∈ run.envelopes ∧ run.asset.all (la.envelope.asset = ·) = true ∧
      run.SelectsPath la.path ∧ engineEnabled run.config la.envelope.asset = true := by
  have hengine : ∀ selected, filterDisabledEngines run.config selected = some las →
      (la ∈ las ↔ la ∈ selected ∧ engineEnabled run.config la.envelope.asset = true) := by
    intro selected hkept
    unfold filterDisabledEngines at hkept
    split at hkept
    · exact absurd hkept (by simp)
    · obtain rfl := Option.some.inj hkept
      exact List.mem_filter
  unfold loaded loadAssetsForRun at h
  unfold SelectsPath envelopes
  cases hsince : run.changedSince with
  | none =>
    rw [hsince] at h
    refine (hengine _ h).trans ?_
    cases run.asset <;> simp [and_assoc]
  | some ref =>
    rw [hsince] at h
    dsimp only at h ⊢
    split_ifs at h with hempty
    · refine (hengine _ h).trans ?_
      cases run.asset <;> simp [hempty, and_assoc]
    · obtain ⟨selected, hselected, hkept⟩ := Option.bind_eq_some_iff.mp h
      obtain ⟨diff, hdiff, rfl⟩ := Option.map_eq_some_iff.mp hselected
      refine (hengine _ hkept).trans ?_
      rw [List.mem_filter]
      cases run.asset <;> simp [hempty, hdiff, and_assoc]

/-- The filters of the run, in whatever order they come. -/
theorem mem_checkedAssets (h : run.checkedAssets = some las) {la : LoadedAsset X} :
    la ∈ las ↔ la ∈ run.envelopes ∧ run.Keeps la := by
  unfold checkedAssets at h
  split_ifs at h
  split at h
  · next hcommand =>
    unfold planAssets at h
    split_ifs at h
    obtain ⟨-, -, h⟩ := Option.bind_eq_some_iff.mp h
    obtain ⟨-, -, h⟩ := Option.bind_eq_some_iff.mp h
    obtain ⟨-, -, h⟩ := Option.bind_eq_some_iff.mp h
    rw [mem_loaded h]
    constructor
    · rintro ⟨hmem, hasset, hpath, hengine⟩
      exact ⟨hmem, hasset, hpath, hengine, fun happly => absurd (hcommand.symm.trans happly) nofun⟩
    · rintro ⟨hmem, hkeeps⟩
      exact ⟨hmem, hkeeps.asset, hkeeps.changed, hkeeps.engine⟩
  · next hcommand =>
    unfold applyAssets at h
    obtain ⟨sel, hsel, h⟩ := Option.bind_eq_some_iff.mp h
    split_ifs at h
    obtain ⟨-, -, h⟩ := Option.bind_eq_some_iff.mp h
    obtain ⟨all, hall, h⟩ := Option.bind_eq_some_iff.mp h
    dsimp only at h
    split_ifs at h
    obtain rfl := Option.some.inj h
    rw [List.mem_filter, mem_loaded hall]
    constructor
    · rintro ⟨⟨hmem, hasset, hpath, hengine⟩, hstatus⟩
      refine ⟨hmem, hasset, hpath, hengine, fun _ other hother => ?_⟩
      rwa [← Option.some.inj (hsel.symm.trans hother)]
    · rintro ⟨hmem, hkeeps⟩
      exact ⟨⟨hmem, hkeeps.asset, hkeeps.changed, hkeeps.engine⟩,
        hkeeps.status hcommand sel hsel⟩

/-- The verdicts are those of the whole tree exactly when the filters keep what there is of the
prerequisites of the assets they keep. -/
theorem verdictsOfTree_iff (h : run.checked = some (las, report)) :
    run.VerdictsOfTree las report ↔ run.KeepsPrerequisites := by
  obtain ⟨las', hlas, h⟩ := Option.bind_eq_some_iff.mp h
  obtain ⟨report', hreport, h⟩ := Option.bind_eq_some_iff.mp h
  obtain ⟨rfl, rfl⟩ := Prod.mk.inj (Option.some.inj h)
  have hmem : ∀ la, la ∈ las' ↔ la ∈ run.envelopes ∧ run.Keeps la :=
    fun _ => mem_checkedAssets hlas
  constructor
  · intro hverdicts la hla hkeeps kind name hrequires hprovided
    -- With every provider cut, the asset is reported for what the tree has.
    by_contra hnone
    push Not at hnone
    have hmissing : (⟨la.envelope.id, kind, name⟩ : DependencyViolation) ∈ report'.violations :=
      (mem_violations hreport).mpr ⟨la, (hmem la).mpr ⟨hla, hkeeps⟩, rfl, hrequires,
        fun p hp => hnone p ((hmem p).mp hp).1 ((hmem p).mp hp).2⟩
    obtain ⟨-, -, -, -, habsent⟩ := (hverdicts.reported _).mp hmissing
    obtain ⟨p, hp, hprovides⟩ := hprovided
    exact habsent p hp hprovides
  · intro hkept
    have hreported : ∀ v, v ∈ report'.violations ↔
        ∃ la ∈ las', la.envelope.id = v.assetId ∧
          Requires run.str run.graph la v.missingKind v.missingName ∧
          ∀ p ∈ run.envelopes, ¬ Provides p v.missingKind v.missingName := by
      intro v
      rw [mem_violations hreport]
      refine exists_congr fun la => and_congr_right fun hla => and_congr_right fun _ =>
        and_congr_right fun hrequires => ?_
      constructor
      · intro hmissing p hp hprovides
        obtain ⟨hin, hkeeps⟩ := (hmem la).mp hla
        obtain ⟨q, hq, hqkeeps, hqprovides⟩ := hkept la hin hkeeps _ _ hrequires ⟨p, hp, hprovides⟩
        exact hmissing q ((hmem q).mpr ⟨hq, hqkeeps⟩) hqprovides
      · exact fun hmissing p hp => hmissing p ((hmem p).mp hp).1
    refine ⟨hreported, fun full hfull v hv => ?_⟩
    obtain ⟨la, hla, hid, hrequires, hmissing⟩ := (hreported v).mp hv
    exact (mem_violations hfull).mpr ⟨la, ((hmem la).mp hla).1, hid, hrequires, hmissing⟩

end CheckRun

/-! ## A run about one kind -/

namespace Sample

def enrichPath : Path := ["r", "detections", "sentinel_playbook", "enrich.yml"]

def closeNoisePath : Path := ["r", "detections", "sentinel_automation_rule", "close-noise.yml"]

def runsEnrich : Value Empty :=
  .dict [("actionType", .str "RunPlaybook"),
    ("actionConfiguration", .dict [("playbook", .str "enrich")])]

def checkLibs : Libs Empty where
  safeLoad t := some (.dict (
    if t = "playbook".toList then
      [("id", .str "enrich"), ("version", .str "1.0.0"), ("asset", .str "sentinel_playbook"),
        ("status", .str "production")]
    else
      [("id", .str "close-noise"), ("version", .str "1.0.0"),
        ("asset", .str "sentinel_automation_rule"), ("status", .str "production"),
        ("payload", .dict [("actions", .list [runsEnrich])])]))
  dump _ := []
  laxInt _ := none

def checkTree : FileTree :=
  (Directory.empty.write enrichPath "playbook".toList).write closeNoisePath "rule".toList

def checkRepo : GitRepo where
  top := ["r"]
  work := checkTree
  refs _ := none
  tracked _ := true
  ignored _ := false
  renamedAway _ _ := false
  refs_empty := rfl
  work_names := by
    have hkeys : checkTree.entries.keys = [closeNoisePath, enrichPath] := by decide +kernel
    rw [hkeys]
    decide
  refs_names := by
    intro ref tree htree
    exact absurd htree nofun

def planRun : CheckRun Empty where
  libs := checkLibs
  str _ := ""
  casefold := id
  config := .missing
  repo := checkRepo
  cwd := ["r"]
  base := ["r", "detections"]
  graph := {}
  command := .plan

def rulesRun : CheckRun Empty := { planRun with asset := some .sentinelAutomationRule }

end Sample

open Sample in
/-- `plan --asset sentinel_automation_rule` reports the playbook that stands next to the rule. -/
theorem rulesOnly_not_verdictsOfTree :
    ∃ las report, rulesRun.checked = some (las, report) ∧
      ¬ rulesRun.VerdictsOfTree las report := by
  have hids : rulesRun.envelopes.map (fun la => (la.envelope.id, la.envelope.asset)) =
      [("close-noise", .sentinelAutomationRule), ("enrich", .sentinelPlaybook)] := by
    decide +kernel
  have hviolations : rulesRun.checked.map (fun c => c.2.violations) =
      some [⟨"close-noise", .playbook, "enrich"⟩] := by
    decide +kernel
  obtain ⟨⟨las, report⟩, hchecked, hreport⟩ := Option.map_eq_some_iff.mp hviolations
  refine ⟨las, report, hchecked, fun hverdicts => ?_⟩
  obtain ⟨-, -, -, -, habsent⟩ := (hverdicts.reported ⟨"close-noise", .playbook, "enrich"⟩).mp
    (hreport ▸ List.mem_singleton_self _)
  have hin : ("enrich", Asset.sentinelPlaybook) ∈
      rulesRun.envelopes.map fun la => (la.envelope.id, la.envelope.asset) := by
    rw [hids]
    decide
  obtain ⟨p, hp, heq⟩ := List.mem_map.mp hin
  obtain ⟨hid, hasset⟩ := Prod.mk.inj heq
  exact habsent p hp ⟨hid, decide_eq_true hasset⟩

open Sample in
theorem verdictsOfTree_iff_planRun :
    ∃ las report, planRun.checked = some (las, report) ∧
      (planRun.VerdictsOfTree las report ↔ planRun.KeepsPrerequisites) := by
  have hsome : planRun.checked.isSome = true := by decide +kernel
  obtain ⟨⟨las, report⟩, hchecked⟩ := Option.isSome_iff_exists.mp hsome
  exact ⟨las, report, hchecked, CheckRun.verdictsOfTree_iff hchecked⟩

end ContentOps
