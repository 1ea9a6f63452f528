import ContentOps.Cli.ApplySupport
import ContentOps.Core.DriftMatch

/-! `contentops retry-failed`, `cli/commands/lifecycle.py` and `audit_filter.py`, against `apply`: a
retried asset goes to its handler as it was loaded, past the lock, the mode of its kind and the
snippets. -/

namespace ContentOps
open PyData

/-! ## Failed records -/

/-- The records a retry is about: those of the latest file, those of a time window or those of a
run. -/
inductive Scope where
  | latest
  | since (inWindow : String → Bool)
  | runId (id : String)

section
variable {X : Type} [Value.ScalarEq X] [Json.FloatText X]

/-- `str(v or "")`; `none` for the lists and dictionaries, whose text is no id and no kind. -/
def recordText (v : Value X) : Option String :=
  if !v.truthy then some ""
  else match v with
    | .str s => some s
    | .bool _ => some "True"
    | .int n => some (String.ofList (Json.writeInt n))
    | .scalar x => some <|
      if Json.FloatText.write x = "Infinity".toList then "inf"
      else if Json.FloatText.write x = "-Infinity".toList then "-inf"
      else if Json.FloatText.write x = "NaN".toList then "nan"
      else String.ofList (Json.FloatText.write x)
    | _ => none

/-- `_matches`. -/
def Scope.matches (scope : Scope) (d : Document X) : Bool :=
  match scope with
  | .latest => true
  | .since inWindow => (Value.textAt d "timestamp" ≠ "") && inWindow (Value.textAt d "timestamp")
  | .runId id => recordText (Value.get d "workflow_run") = some id

def Scope.files (scope : Scope) (files : List Text) : List Text :=
  match scope with
  | .latest => files.getLast?.toList
  | .since _ | .runId _ => files

/-- The kind and id of a failed record in scope. -/
def failedPair (scope : Scope) (d : Document X) : Option (String × String) := do
  let asset ← recordText (Value.get d "asset")
  let id ← recordText (Value.get d "id")
  if scope.matches d && (Value.get d "status").pyEq (.str "failed") && asset ≠ "" && id ≠ "" then
    some (asset, id)
  else none

/-- `collect_failed_pairs`; `none` when a line is no record but reads as JSON. -/
def collectFailedPairs (scope : Scope) (files : List Text) : Option (List (String × String)) :=
  let lines := ((scope.files files).flatMap Text.splitlines).map Text.strip
  let records : List (Value X) := (lines.filter (· ≠ [])).filterMap Json.loads
  (records.mapM Value.dict?).map (·.filterMap (failedPair scope))

end

/-- A retry; `auditFiles` are the texts of `audit/*.jsonl`, by name. -/
structure RetryRun (X : Type) extends WriteRun X where
  auditFiles : Directory String Text
  scope : Scope
  dryRun : Bool

namespace RetryRun
variable {X : Type}

/-! ## The workspace of a retry -/

/-- The active workspace after `_resolve_single_workspace_or_exit`; `none` is an exit. -/
def active? (run : RetryRun X) : Option (Option String) :=
  resolveSingleWorkspace run.casefold run.config run.activeWorkspace run.role run.workspaceName

/-- The workspace that is active when `apply` comes to an asset. -/
def applyActive (run : RetryRun X) (sel : Selection) : Option String :=
  run.activeIn sel.workspaces.head?

variable {run : RetryRun X} {active : Option String} {sel : Selection}

/-- A retry is about one workspace at most, the active one unless the environment says otherwise. -/
theorem resolution_cases (hactive : run.active? = some active) (hsel : run.selection? = some sel) :
    (sel.workspaces = [] ∧ active = run.activeWorkspace) ∨
      ∃ cfg w, run.config = .found cfg ∧ sel.workspaces = [w] ∧
        ((active = some w.workspaceName ∧ ¬ (run.role = none ∧ run.workspaceName = none)) ∨
          (active = run.activeWorkspace ∧ run.role = none ∧ run.workspaceName = none ∧
            cfg.sentinelWorkspaces = [w])) := by
  unfold active? resolveSingleWorkspace at hactive
  unfold WriteRun.selection? resolveWorkspacesForRun at hsel
  split_ifs at hactive with hflags
  · obtain rfl := Option.some.inj hactive
    cases hc : run.config with
    | missing =>
      rw [hc] at hsel
      exact .inl ⟨by rw [← Option.some.inj hsel], rfl⟩
    | invalid => simp [hc] at hsel
    | found cfg =>
      simp only [hc, hflags.1, hflags.2, TenantConfig.selectWorkspaces] at hsel
      match hws : cfg.sentinelWorkspaces with
      | [] =>
        simp only [hws, Option.map_some, Option.some.injEq] at hsel
        exact .inl ⟨by rw [← hsel], rfl⟩
      | [w] =>
        simp only [hws, Option.map_some, Option.some.injEq] at hsel
        exact .inr ⟨cfg, w, rfl, by rw [← hsel], .inr ⟨rfl, hflags.1, hflags.2, hws⟩⟩
      | _ :: _ :: _ => simp [hws] at hsel
  · cases hc : run.config with
    | missing => simp [hc] at hactive
    | invalid => simp [hc] at hactive
    | found cfg =>
      simp only [hc] at hsel hactive
      obtain ⟨ws, hws, rfl⟩ := Option.map_eq_some_iff.mp hsel
      split_ifs at hactive with hempty
      · have hnil : cfg.sentinelWorkspaces = [] := by simpa using hempty
        refine .inl ⟨?_, (Option.some.inj hactive).symm⟩
        -- without workspaces only a role selects, and it selects nothing
        unfold TenantConfig.selectWorkspaces TenantConfig.workspaceByName
          TenantConfig.workspacesForRole at hws
        rw [hnil] at hws
        split at hws <;> simp_all
      · rw [hws] at hactive
        split at hactive
        · next w hone =>
          obtain rfl := Option.some.inj hone
          exact .inr ⟨cfg, w, rfl, rfl, .inl ⟨(Option.some.inj hactive).symm, hflags⟩⟩
        · exact absurd hactive (by simp)

theorem workspaces_le_one (hactive : run.active? = some active) (hsel : run.selection? = some sel) :
    sel.workspaces = [] ∨ ∃ w, sel.workspaces = [w] := by
  rcases resolution_cases hactive hsel with ⟨hnil, -⟩ | ⟨-, w, -, hw, -⟩
  · exact .inl hnil
  · exact .inr ⟨w, hw⟩

theorem handlerWorkspace_single {casefold : String → String} {cfg : TenantConfig}
    {w : SentinelWorkspaceConfig} (hws : cfg.sentinelWorkspaces = [w]) {a : Asset}
    (ha : a.isDefender = false) (active : Option String) :
    handlerWorkspace casefold (.found cfg) active a = some w.workspaceName ↔
      ∀ name, active = some name → name ≠ "" → casefold w.workspaceName = casefold name := by
  unfold handlerWorkspace TenantConfig.workspaceByName
  rcases active with _ | name
  · simp [ha, hws]
  · rcases eq_or_ne name "" with rfl | hname
    · simp [ha, hws, Option.filter]
    · by_cases hfold : casefold w.workspaceName = casefold name <;>
        simp [ha, hws, hname, hfold, Option.filter]

/-- The retry talks to the workspace `apply` talks to. -/
theorem handlerWorkspace_eq_iff (hactive : run.active? = some active)
    (hsel : run.selection? = some sel) (a : Asset) :
    handlerWorkspace run.casefold run.config active a =
        handlerWorkspace run.casefold run.config (run.applyActive sel) a ↔
      (run.role = none → run.workspaceName = none → a.isDefender = false →
        ∀ w ∈ sel.workspaces, ∀ name, run.activeWorkspace = some name → name ≠ "" →
          run.casefold w.workspaceName = run.casefold name) := by
  unfold applyActive WriteRun.activeIn
  rcases resolution_cases hactive hsel with ⟨hnil, rfl⟩ | ⟨cfg, w, hcfg, hone, hcases⟩
  · simp [hnil]
  · rw [hone, List.head?_cons]
    rcases hcases with ⟨rfl, hflags⟩ | ⟨rfl, hrole, hname, hws⟩
    · simp only [true_iff]
      exact fun hrole hname => absurd ⟨hrole, hname⟩ hflags
    · have hself : ∀ a : Asset, a.isDefender = false →
          handlerWorkspace run.casefold run.config (some w.workspaceName) a =
            some w.workspaceName := by
        intro a ha
        rw [hcfg, handlerWorkspace_single hws ha]
        rintro name hsome -
        rw [Option.some.inj hsome]
      cases ha : a.isDefender with
      | true => simp [hcfg, handlerWorkspace, ha]
      | false =>
        rw [hself a ha, hcfg, handlerWorkspace_single hws ha]
        simp [hrole, hname]

theorem engineEnabled_of_isRegistered {a : Asset} (h : run.isRegistered a = true) :
    engineEnabled run.config a = true := by
  unfold WriteRun.isRegistered registeredKinds at h
  unfold engineEnabled
  cases hc : run.config with
  | missing => rfl
  | invalid => simp [hc] at h
  | found cfg =>
    simp only [hc, decide_eq_true_eq] at h
    cases hd : disabledKinds run.disabledKinds with
    | none => simp [hd] at h
    | some disabled =>
      simp only [hd, Option.bind_eq_bind, Option.bind_some, Option.getD_some] at h
      have hengine := (List.mem_filter.mp h).2
      rw [Bool.and_eq_true] at hengine
      exact hengine.1

theorem processApplyAsset_eq_some {entry : Option SentinelWorkspaceConfig} {la : LoadedAsset X}
    {c : ApplyCall X} :
    run.processApplyAsset entry la = some c ↔ run.isRegistered la.envelope.asset = true ∧
      Snippets.applySnippets run.libs run.tree run.overridesRoot (entry.map (·.workspaceName)) la =
        some c.asset ∧ run.validate c.asset = true ∧
      assetModeFor run.casefold run.config (run.activeIn entry) la.envelope.asset =
        some .managed ∧
      c.workspace =
        handlerWorkspace run.casefold run.config (run.activeIn entry) la.envelope.asset := by
  obtain ⟨workspace, resolved⟩ := c
  unfold WriteRun.processApplyAsset
  cases hreg : run.isRegistered la.envelope.asset with
  | false => simp
  | true =>
    simp only [if_true, Option.bind_eq_bind, Option.bind_eq_some_iff, Option.ite_none_right_eq_some,
      Option.some.injEq, ApplyCall.mk.injEq, true_and]
    constructor
    · rintro ⟨_, happly, ⟨hvalid, hmode⟩, rfl, rfl⟩
      exact ⟨happly, hvalid, hmode, rfl⟩
    · rintro ⟨happly, hvalid, hmode, hws⟩
      exact ⟨_, happly, ⟨hvalid, hmode⟩, hws.symm, rfl⟩

theorem mem_orderedForApply {las : List (LoadedAsset X)} {la : LoadedAsset X} :
    la ∈ WriteRun.orderedForApply las ↔ la ∈ las :=
  (List.perm_insertionSort _ las).mem_iff

/-! ## The calls of a retry -/

section
variable [Value.ScalarEq X] [Json.FloatText X]

def failedPairs? (run : RetryRun X) : Option (List (String × String)) :=
  collectFailedPairs (X := X) run.scope (run.auditFiles.entries.map (·.2))

/-- The loaded assets that failed, as far as the environment admits their status. -/
def selected (run : RetryRun X) (sel : Selection) (failed : List (String × String)) :
    List (LoadedAsset X) :=
  ((loadedAssets run.libs run.tree run.base).filter fun la =>
    (la.envelope.asset.value, la.envelope.id) ∈ failed).filter fun la =>
      sel.admits la.envelope.asset la.envelope.status

/-- The calls `retry_failed_cmd` makes. A kind without a handler ends the loop. -/
def retryCalls (run : RetryRun X) : List (ApplyCall X) :=
  match run.active?, run.selection?, run.failedPairs? with
  | some active, some sel, some failed =>
    if run.dryRun || !sel.writeAllowed then []
    else (((run.selected sel failed).takeWhile fun la =>
      run.isRegistered la.envelope.asset).filter run.validate).map fun la =>
        ⟨handlerWorkspace run.casefold run.config active la.envelope.asset, la⟩
  | _, _, _ => []

/-! ## Where a retry is an apply -/

/-- The retry hands the asset to its handler. -/
structure Attempts (run : RetryRun X) (active : Option String) (sel : Selection)
    (la : LoadedAsset X) : Prop where
  resolved : run.active? = some active
  selection : run.selection? = some sel
  real : run.dryRun = false
  writeAllowed : sel.writeAllowed = true
  reached : ∃ failed, run.failedPairs? = some failed ∧
    la ∈ (run.selected sel failed).takeWhile fun la => run.isRegistered la.envelope.asset
  valid : run.validate la = true

/-- Every call of the retry is one `apply` makes for the asset and the workspace, of the same
payload, and no placeholder is left in it. -/
def IsApply (run : RetryRun X) : Prop :=
  ∀ c ∈ run.retryCalls, c ∈ run.applyCalls ∧ Snippets.NoPlaceholder c.asset

/-- What `apply` asks of an asset and a retry does not. -/
structure Covered (run : RetryRun X) (sel : Selection) (la : LoadedAsset X) : Prop where
  unlocked : isLockedPath run.libs run.tree la.path = false
  managed : assetModeFor run.casefold run.config (run.applyActive sel) la.envelope.asset =
    some .managed
  settled : Snippets.NoPlaceholder la
  roleThere : ¬ (sel.workspaces = [] ∧ run.role = some .integration)
  -- Without flags, an environment variable from before names the workspace of the tenant.
  current : run.role = none → run.workspaceName = none → la.envelope.asset.isDefender = false →
    ∀ w ∈ sel.workspaces, ∀ name, run.activeWorkspace = some name → name ≠ "" →
      run.casefold w.workspaceName = run.casefold name

theorem mem_retryCalls {c : ApplyCall X} : c ∈ run.retryCalls ↔
    ∃ active sel, run.Attempts active sel c.asset ∧
      c.workspace = handlerWorkspace run.casefold run.config active c.asset.envelope.asset := by
  unfold retryCalls
  constructor
  · intro h
    split at h
    · next active sel failed hactive hsel hfailed =>
      split_ifs at h with hgate
      · exact absurd h (by simp)
      · simp only [Bool.or_eq_true, Bool.not_eq_true', not_or, Bool.not_eq_true,
          Bool.not_eq_false] at hgate
        obtain ⟨la, hla, rfl⟩ := List.mem_map.mp h
        obtain ⟨hreached, hvalid⟩ := List.mem_filter.mp hla
        exact ⟨active, sel, ⟨hactive, hsel, hgate.1, hgate.2, ⟨failed, hfailed, hreached⟩, hvalid⟩,
          rfl⟩
    · exact absurd h (by simp)
  · rintro ⟨active, sel, ⟨hactive, hsel, hreal, hwrite, ⟨failed, hfailed, hreached⟩, hvalid⟩, hws⟩
    rw [hactive, hsel, hfailed]
    simp only [hreal, hwrite, Bool.not_true, Bool.or_self, Bool.false_eq_true, if_false]
    refine List.mem_map.mpr ⟨c.asset, List.mem_filter.mpr ⟨hreached, hvalid⟩, ?_⟩
    rw [← hws]

/-! ## The calls of `apply` in a run about one workspace -/

theorem mem_applyCalls (hsel : run.selection? = some sel) (hwrite : sel.writeAllowed = true)
    (hone : sel.workspaces = [] ∨ ∃ w, sel.workspaces = [w]) {c : ApplyCall X} :
    c ∈ run.applyCalls ↔ ¬ (sel.workspaces = [] ∧ run.role = some .integration) ∧
      ∃ la ∈ run.applyAssets sel, run.processApplyAsset sel.workspaces.head? la = some c := by
  have hentries : sel.entries = [sel.workspaces.head?] := by
    unfold Selection.entries
    rcases hone with hnil | ⟨w, hw⟩
    · rw [hnil]
      rfl
    · rw [hw]
      rfl
  unfold WriteRun.applyCalls
  rw [hsel]
  simp only [hentries, hwrite, Bool.not_true, Bool.false_eq_true, if_false, Bool.and_eq_true,
    List.isEmpty_iff, decide_eq_true_eq]
  split_ifs with hskip
  · simp [hskip]
  · simp only [WriteRun.iterationCalls, List.zipIdx_singleton, List.flatMap_cons, List.flatMap_nil,
      List.append_nil, decide_true, Bool.true_or, List.filter_true, List.mem_filterMap,
      mem_orderedForApply, hskip, not_false_eq_true, true_and]

/-! ## The comparison -/

theorem Attempts.loaded {la : LoadedAsset X} (h : run.Attempts active sel la) :
    la ∈ loadedAssets run.libs run.tree run.base ∧
      sel.admits la.envelope.asset la.envelope.status = true ∧
      run.isRegistered la.envelope.asset = true := by
  obtain ⟨failed, -, hreached⟩ := h.reached
  have hregistered := List.mem_takeWhile_imp hreached
  obtain ⟨hfailed, hadmits⟩ := List.mem_filter.mp (List.takeWhile_sublist _ |>.subset hreached)
  exact ⟨(List.mem_filter.mp hfailed).1, hadmits, hregistered⟩

/-- Such an asset is one that `apply` takes up unless it is locked. -/
theorem Attempts.mem_applyAssets {la : LoadedAsset X} (h : run.Attempts active sel la) :
    la ∈ run.applyAssets sel ↔ isLockedPath run.libs run.tree la.path = false := by
  obtain ⟨hloaded, hadmits, hregistered⟩ := h.loaded
  unfold WriteRun.applyAssets
  rw [List.mem_filter, engineEnabled_of_isRegistered hregistered, hadmits]
  simp [hloaded]

end
end RetryRun

/-- A retry does what `apply` does exactly when `apply` lets pass every asset that is retried. -/
theorem retry_isApply_iff {X : Type} [Value.ScalarEq X] [Json.FloatText X] (run : RetryRun X) :
    run.IsApply ↔ ∀ active sel la, run.Attempts active sel la → run.Covered sel la := by
  constructor
  · intro h active sel la hatt
    have hone := RetryRun.workspaces_le_one hatt.resolved hatt.selection
    have hcall : (⟨handlerWorkspace run.casefold run.config active la.envelope.asset, la⟩ :
        ApplyCall X) ∈ run.retryCalls := RetryRun.mem_retryCalls.mpr ⟨active, sel, hatt, rfl⟩
    obtain ⟨happly, hsettled⟩ := h _ hcall
    obtain ⟨hrole, lb, hlb, hproc⟩ :=
      (RetryRun.mem_applyCalls hatt.selection hatt.writeAllowed hone).mp happly
    obtain ⟨-, hsnip, -, hmode, hws⟩ := RetryRun.processApplyAsset_eq_some.mp hproc
    -- the asset of the call is the one retried: both are loaded from one path
    obtain rfl : la = lb := loadedAssets_path_inj hatt.loaded.1 (List.mem_filter.mp hlb).1
      (Snippets.applySnippets_eq_some hsnip).1
    exact
      { unlocked := hatt.mem_applyAssets.mp hlb
        managed := hmode
        settled := hsettled
        roleThere := hrole
        current := (RetryRun.handlerWorkspace_eq_iff hatt.resolved hatt.selection _).mp hws }
  · rintro h ⟨workspace, la⟩ hc
    obtain ⟨active, sel, hatt, hws⟩ := RetryRun.mem_retryCalls.mp hc
    have hcov := h active sel la hatt
    have hone := RetryRun.workspaces_le_one hatt.resolved hatt.selection
    refine ⟨?_, hcov.settled⟩
    rw [RetryRun.mem_applyCalls hatt.selection hatt.writeAllowed hone]
    refine ⟨hcov.roleThere, la, hatt.mem_applyAssets.mpr hcov.unlocked, ?_⟩
    rw [RetryRun.processApplyAsset_eq_some]
    refine ⟨hatt.loaded.2.2, Snippets.applySnippets_of_noPlaceholder _ _ _ _ hcov.settled,
      hatt.valid, hcov.managed, ?_⟩
    rw [hws]
    exact (RetryRun.handlerWorkspace_eq_iff hatt.resolved hatt.selection _).mpr hcov.current

/-! ## A locked rule that failed once -/

namespace Sample

def lockedText : Text :=
  "id: foo\nversion: 1.0.0\nasset: sentinel_analytic\nstatus: production
localCustomization: true\npayload:\n  displayName: Foo\n".toList

def lockedDocument : Document Empty :=
  [("id", .str "foo"), ("version", .str "1.0.0"), ("asset", .str "sentinel_analytic"),
    ("status", .str "production"), ("localCustomization", .bool true),
    ("payload", .dict [("displayName", .str "Foo")])]

def failedRecord : Text :=
  "\x7b\"asset\": \"sentinel_analytic\", \"id\": \"foo\", \"status\": \"failed\"\x7d\n".toList

def retry : RetryRun Empty where
  libs :=
    { safeLoad := fun t => if t = lockedText then some (.dict lockedDocument) else none
      dump := fun _ => []
      laxInt := fun _ => none }
  casefold := id
  tree := Directory.empty.write fooPath lockedText
  base := base
  config := .found { name := "acme", sentinelWorkspaces := [{ workspaceName := "soc" }] }
  activeWorkspace := none
  disabledKinds := ""
  validate _ := true
  auditFiles := Directory.empty.write "2026-01-01.jsonl" failedRecord
  scope := .latest
  dryRun := false

end Sample
open Sample

theorem lockedRule_retried :
    retry.retryCalls.map (fun c => (c.workspace, c.asset.envelope.id)) = [(some "soc", "foo")] ∧
      isLockedPath retry.libs retry.tree fooPath = true ∧ retry.applyCalls.length = 0 ∧
      ¬ retry.IsApply := by
  have hcalls : retry.retryCalls.map (fun c => (c.workspace, c.asset.envelope.id)) =
      [(some "soc", "foo")] := by
    decide +kernel
  have happly : retry.applyCalls.length = 0 := by decide +kernel
  refine ⟨hcalls, by decide +kernel, happly, fun h => ?_⟩
  obtain ⟨c, hc, -⟩ := List.map_eq_singleton_iff.mp hcalls
  have hmem := (h c (by simp [hc])).1
  rw [List.length_eq_zero_iff.mp happly] at hmem
  exact absurd hmem (by simp)

end ContentOps
