import ContentOps.Cli.TenantWrites

/-! When every result of a run that writes to the tenant ends in the audit chain or in the sidecar:
`apply` writes again after a race, the other commands do not. -/

namespace ContentOps
open PyData Audit

section
variable {X : Type} [Value.ScalarEq X] [Json.FloatText X] (env : Surroundings X)

/-! ## A pair for each call -/

omit [Value.ScalarEq X] [Json.FloatText X] in
theorem results_sublist {f : LoadedAsset X → Option (ApplyCall X)}
    {g : LoadedAsset X → Option AuditPair}
    (h : ∀ la c, f la = some c → ∃ p, g la = some p ∧ p.result = applyResult env c)
    (las : List (LoadedAsset X)) :
    ((las.filterMap f).map (applyResult env)).Sublist ((las.filterMap g).map (·.result)) := by
  induction las with
  | nil => exact List.Sublist.refl _
  | cons la las ih =>
    cases hf : f la with
    | none =>
      rw [List.filterMap_cons_none hf]
      cases hg : g la with
      | none => rwa [List.filterMap_cons_none hg]
      | some p =>
        rw [List.filterMap_cons_some hg, List.map_cons]
        exact ih.cons _
    | some c =>
      obtain ⟨p, hg, hresult⟩ := h la c hf
      rw [List.filterMap_cons_some hf, List.filterMap_cons_some hg, List.map_cons, List.map_cons,
        hresult]
      exact ih.cons_cons _

omit [Value.ScalarEq X] [Json.FloatText X] in
theorem WriteRun.roundPair_of_process (run : WriteRun X) (entry : Option SentinelWorkspaceConfig)
    (la : LoadedAsset X) (c : ApplyCall X) (h : run.processApplyAsset entry la = some c) :
    ∃ p, run.roundPair env entry la = some p ∧ p.result = applyResult env c := by
  unfold processApplyAsset at h
  obtain ⟨hreg, resolved, hresolved, hgate, rfl⟩ := process_eq_some h
  unfold roundPair applyPair
  rw [hreg, hresolved, hgate.2]
  refine ⟨_, rfl, ?_⟩
  unfold resolvedResult
  rw [hgate.1]
  rfl

omit [Value.ScalarEq X] [Json.FloatText X] in
theorem WriteRun.applyPair_of_process (run : WriteRun X) (active name : Option String)
    (la : LoadedAsset X) (c : ApplyCall X) (h : run.processAsset active name la = some c) :
    ∃ p, run.applyPair env active name (assetModeFor run.casefold run.config
      (name.filter (· ≠ "") |>.or active) la.envelope.asset) la = some p ∧
        p.result = applyResult env c := by
  unfold processAsset at h
  obtain ⟨hreg, resolved, hresolved, hgate, rfl⟩ := process_eq_some h
  unfold applyPair
  rw [hreg, hresolved, hgate.2]
  refine ⟨_, rfl, ?_⟩
  unfold resolvedResult
  rw [hgate.1]
  rfl

theorem RetryRun.callResults_sublist (run : RetryRun X) :
    (run.retryCalls.map (applyResult env)).Sublist ((run.retryPairs env).map (·.result)) := by
  have hloop : ∀ (active : Option String) (las : List (LoadedAsset X)),
      (((las.filter run.validate).map fun la => (⟨handlerWorkspace run.casefold run.config active
        la.envelope.asset, la⟩ : ApplyCall X)).map (applyResult env)).Sublist
          ((las.map (run.retryPair env active)).map (·.result)) := by
    intro active las
    rw [List.map_map, List.map_map]
    have hvalid : (las.filter run.validate).map (applyResult env ∘ fun la =>
        (⟨handlerWorkspace run.casefold run.config active la.envelope.asset, la⟩ : ApplyCall X)) =
          (las.filter run.validate).map ((·.result) ∘ run.retryPair env active) := by
      refine List.map_congr_left fun la hla => ?_
      simp [RetryRun.retryPair, (List.mem_filter.mp hla).2]
    rw [hvalid]
    exact List.filter_sublist.map _
  unfold retryCalls retryPairs loopAssets
  cases run.active? with
  | none => exact List.nil_sublist _
  | some active =>
    cases run.selection? with
    | none => exact List.nil_sublist _
    | some sel =>
      cases run.failedPairs? with
      | none => exact List.nil_sublist _
      | some failed =>
        dsimp only
        split
        · exact List.nil_sublist _
        · exact hloop active _

/-- The results of the calls are among the results that the records are made of. -/
theorem TenantCommand.callResults_sublist (cmd : TenantCommand X) :
    (cmd.callResults env).Sublist ((cmd.pairs env).map (·.result)) := by
  cases cmd with
  | apply run =>
    unfold callResults pairs WriteRun.applyCalls WriteRun.applyPairs
    dsimp only
    cases run.selection? with
    | none => exact List.Sublist.refl _
    | some sel =>
      dsimp only
      split_ifs
      · exact List.Sublist.refl _
      · exact List.Sublist.refl _
      · unfold WriteRun.iterationCalls
        rw [List.map_flatMap, List.map_flatMap]
        generalize sel.entries.zipIdx = rounds
        induction rounds with
        | nil => exact List.Sublist.refl _
        | cons entry rounds ih =>
          rw [List.flatMap_cons, List.flatMap_cons]
          exact (results_sublist env (run.roundPair_of_process env entry.1) _).append ih
  | prune run =>
    have hresults : (prunePairs env run).map (·.result) =
        (run.prune.toOption.getD []).map (deleteResult env) := by
      unfold prunePairs
      cases run.prune with
      | ok orphans => exact List.map_map
      | error stop => rfl
    exact hresults ▸ List.Sublist.refl _
  | rollback run fullSha =>
    unfold callResults pairs RollbackRun.rollbackCalls RollbackRun.rollbackPairs
    dsimp only
    cases run.loop with
    | none => exact List.Sublist.refl _
    | some loop => exact results_sublist env (run.applyPair_of_process env loop.1 loop.2.1) _
  | retryFailed run => exact run.callResults_sublist env

/-! ## The end of a run -/

namespace TenantCommand
variable (sha256 : Text → BitVec 256) (today : Date)

/-- Once the command has ended, each result of its calls has one record in the chain or, failing
that, in the sidecar. -/
def Audited (cmd : TenantCommand X) (others : Nat → Others) (last : List (List AuditRecord))
    (dir : AuditDir) : Prop :=
  cmd.callResults env = [] ∨
    (cmd.finish env sha256 today others last dir).Accounts X today (cmd.records env)

/-- Every result of a call is audited iff the loop ends and the attempts to write settle. -/
theorem audited_iff (cmd : TenantCommand X) (others : Nat → Others)
    (last : List (List AuditRecord)) (dir : AuditDir) :
    cmd.Audited env sha256 today others last dir ↔ cmd.callResults env = [] ∨
      (cmd.aborts = false ∧ Settles X sha256 today cmd.sink others dir (cmd.records env)) := by
  unfold Audited
  by_cases hnone : cmd.callResults env = []
  · exact iff_of_true (.inl hnone) (.inl hnone)
  · have hpairs : (cmd.pairs env).isEmpty = false := by
      rw [List.isEmpty_eq_false_iff]
      intro hempty
      have hsub := cmd.callResults_sublist env
      rw [hempty] at hsub
      exact hnone (List.sublist_nil.mp hsub)
    rw [or_iff_right hnone, or_iff_right hnone]
    unfold finish
    rw [hpairs, Bool.or_false]
    cases cmd.aborts with
    | true =>
      refine iff_of_false ?_ (by simp)
      simp [AuditEnd.Accounts]
    | false => simpa using accounts_recordBatch_iff X sha256 today cmd.sink others last dir _

end TenantCommand
end

/-! ## A retry that meets another writer -/

namespace Sample

def surroundings : Surroundings Empty where
  timestamp _ := "2026-01-31T12:00:00.000000Z"
  sha := "0f3c9a1"
  actor := "deployer"
  workflowRun := none
  owner _ := none
  snippetDigest _ _ := none
  snippetError _ := ""
  validateError _ := ""
  modeError _ := ""
  apply c := .ok
    { assetId := c.asset.envelope.id, assetKind := c.asset.envelope.asset.value, action := .update
      status := "updated", verified := some true }
  delete _ := .notSupported ""

/-- Between the two looks that the first attempt takes at the tail, another process writes. -/
def oneRace (k : Nat) : Others := fun n =>
  if k = 0 ∧ n = 2 then [[sampleRecord beforeMidnight "create"]] else []

end Sample

theorem retryOverwritten_not_audited :
    ¬ (TenantCommand.retryFailed Sample.retry).Audited Sample.surroundings positional lastOfJanuary
      Sample.oneRace [] Directory.empty := by
  have hcalled : (TenantCommand.retryFailed Sample.retry).callResults Sample.surroundings ≠ [] := by
    decide +kernel
  have hruns : ((TenantCommand.retryFailed Sample.retry).aborts ||
      ((TenantCommand.retryFailed Sample.retry).pairs Sample.surroundings).isEmpty) = false := by
    decide +kernel
  have hmoved : meeting Empty positional lastOfJanuary (Sample.oneRace 0) Directory.empty
      ((TenantCommand.retryFailed Sample.retry).records Sample.surroundings) = .moved := by
    decide +kernel
  unfold TenantCommand.Audited TenantCommand.finish
  rw [or_iff_right hcalled, hruns, if_neg (by decide), accounts_recordBatch_iff]
  intro hsettles
  have hclear : meeting Empty positional lastOfJanuary (Sample.oneRace 0) Directory.empty
      ((TenantCommand.retryFailed Sample.retry).records Sample.surroundings) = .clear := hsettles
  rw [hmoved] at hclear
  exact absurd hclear (by decide)

end ContentOps
