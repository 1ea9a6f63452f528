import ContentOps.Cli.TenantWrites
import ContentOps.Core.DriftMatch
import ContentOps.Library.KeyIndex
import ContentOps.State

/-! What the runs of `apply` leave in the state, `merge_apply_results`, and the report of the rules
that never reached the tenant, `undeployed.py`. A failed result is remembered like a success. -/

namespace ContentOps
open PyData

inductive ApplyStatus where
  | success
  | failed
  | skipped
deriving DecidableEq, Repr

def ApplyStatus.value : ApplyStatus → String
  | success => "success"
  | failed => "failed"
  | skipped => "skipped"

/-- An item of the results that are merged into the state. -/
structure ApplyOutcome where
  assetKind : String
  envelopeId : String
  remoteId : String
  status : ApplyStatus

def ApplyOutcome.key (r : ApplyOutcome) : String × String := (r.assetKind, r.envelopeId)

/-- What `apply_cmd` hands over of a result. -/
def AuditPair.outcome (p : AuditPair) : ApplyOutcome where
  assetKind := p.asset
  envelopeId := p.id
  remoteId := ""
  status :=
    if p.result.isFailure then .failed else if p.result.action = .skip then .skipped else .success

/-- The state and the audit chain are told the same about a result. -/
theorem AuditPair.outcome_status {X : Type} (env : Surroundings X) (successDetail : Option String)
    (n : Nat) (p : AuditPair) :
    (buildAuditRecord env successDetail n p).status = p.outcome.status.value := by
  unfold buildAuditRecord outcome
  dsimp only
  split_ifs <;> rfl

namespace EnvState

/-- The round of `merge_apply_results` for a result. -/
def mergeOutcome (sha : String) (s : EnvState) (r : ApplyOutcome) (now : String) : EnvState :=
  if r.status = .skipped then s
  else s.remember r.assetKind r.envelopeId r.remoteId sha r.status.value now

/-- `merge_apply_results`; `now n` is what `_now_iso` answers for the `n`-th result. -/
def mergeApplyResults (s : EnvState) (results : List ApplyOutcome) (sha startedAt : String)
    (now : Nat → String) : EnvState :=
  results.zipIdx.foldl (fun s r => s.mergeOutcome sha r.1 (now r.2))
    { s with
      lastApplySha := if sha = "" then s.lastApplySha else sha
      lastApplyAt := startedAt }

end EnvState

/-! ## The report -/

structure UndeployedRule where
  assetKind : String
  ruleId : String
  status : String
  path : Path
deriving DecidableEq, Repr

structure UndeployedReport where
  env : String
  stateAvailable : Bool
  totalRepo : Nat
  totalManaged : Nat
  undeployed : List UndeployedRule
deriving DecidableEq, Repr

namespace UndeployedReport

def productionUndeployed (r : UndeployedReport) : List UndeployedRule :=
  r.undeployed.filter (·.status = "production")

/-- The report has no row for the asset. -/
def Omits (r : UndeployedReport) (key : String × String) : Prop :=
  ∀ u ∈ r.undeployed, (u.assetKind, u.ruleId) ≠ key

end UndeployedReport

section
variable {X : Type} [Value.ScalarEq X] [Json.FloatText X] (lower : String → String)
  (libs : Libs X) (tree : FileTree) (detectionsRoot : Path)

/-- The kind and the id of an envelope, as the state has them. -/
def LoadedAsset.stateKey (la : LoadedAsset X) : String × String :=
  (la.envelope.asset.value, la.envelope.id)

def undeployedRule (la : LoadedAsset X) : UndeployedRule where
  assetKind := la.envelope.asset.value
  ruleId := la.envelope.id
  status := lower (String.ofList (Text.strip la.envelope.status.toList))
  path := la.path

/-- `find_undeployed`. -/
def findUndeployed (state : EnvState) : UndeployedReport :=
  let loaded := loadedAssets libs tree detectionsRoot
  let key := fun r : UndeployedRule =>
    toLex (decide (r.status ≠ "production"), toLex (r.assetKind, r.ruleId))
  { env := state.env
    stateAvailable := decide (0 < state.assetCount)
    totalRepo := loaded.length
    totalManaged := state.assetCount
    undeployed := ((loaded.filter fun la =>
      !state.isManaged la.envelope.asset.value la.envelope.id).map
        (undeployedRule lower)).insertionSort fun a b => key a ≤ key b }

variable {lower libs tree detectionsRoot}

/-- An envelope of the repository is left out exactly when the state has an entry for it. -/
theorem findUndeployed_omits_iff {state : EnvState} {la : LoadedAsset X}
    (hla : la ∈ loadedAssets libs tree detectionsRoot) :
    (findUndeployed lower libs tree detectionsRoot state).Omits la.stateKey ↔
      state.isManaged la.envelope.asset.value la.envelope.id = true := by
  have hrow : ∀ u, u ∈ (findUndeployed lower libs tree detectionsRoot state).undeployed ↔
      ∃ lb ∈ loadedAssets libs tree detectionsRoot,
        state.isManaged lb.envelope.asset.value lb.envelope.id = false ∧
          undeployedRule lower lb = u := by
    intro u
    unfold findUndeployed
    rw [(List.perm_insertionSort _ _).mem_iff]
    simp [and_assoc]
  constructor
  · intro homits
    by_contra hnot
    exact homits _ ((hrow _).mpr ⟨la, hla, by simpa using hnot, rfl⟩) rfl
  · intro hmanaged u hu hkey
    obtain ⟨lb, -, hunmanaged, rfl⟩ := (hrow u).mp hu
    obtain ⟨hkind, hid⟩ := Prod.mk.inj hkey
    rw [← hkind, ← hid] at hmanaged
    exact absurd (hunmanaged.symm.trans hmanaged) (by decide)

end

/-! ## Runs of apply -/

/-- What a run of `apply` merges into the state, and when. -/
structure MergedRun where
  sha : String
  outcomes : List ApplyOutcome
  startedAt : String
  now : Nat → String

namespace MergedRun

/-- The assets that the run has an entry written for. -/
def recorded (run : MergedRun) : List (String × String) :=
  (run.outcomes.filter fun r => r.status ≠ .skipped).map (·.key)

def succeeded (run : MergedRun) : List (String × String) :=
  (run.outcomes.filter fun r => r.status = .success).map (·.key)

theorem recorded_of_succeeded {run : MergedRun} {key : String × String}
    (h : key ∈ run.succeeded) : key ∈ run.recorded := by
  obtain ⟨r, hr, rfl⟩ := List.mem_map.mp h
  obtain ⟨hmem, hstatus⟩ := List.mem_filter.mp hr
  refine List.mem_map.mpr ⟨r, List.mem_filter.mpr ⟨hmem, ?_⟩, rfl⟩
  simp [of_decide_eq_true hstatus]

end MergedRun

namespace EnvState

def mergeRuns (s : EnvState) (runs : List MergedRun) : EnvState :=
  runs.foldl (fun s run => s.mergeApplyResults run.outcomes run.sha run.startedAt run.now) s

/-- The commit of the entry of an asset. -/
def appliedSha? (s : EnvState) (key : String × String) : Option String :=
  (s.lookup key.1 key.2).map (·.lastAppliedSha)

theorem appliedSha?_mergeOutcome (sha : String) (s : EnvState) (r : ApplyOutcome) (now : String)
    (key : String × String) :
    (s.mergeOutcome sha r now).appliedSha? key =
      if r.status ≠ .skipped ∧ r.key = key then some sha else s.appliedSha? key := by
  unfold mergeOutcome
  by_cases hskip : r.status = .skipped
  · rw [if_pos hskip, if_neg fun h => h.1 hskip]
  · unfold appliedSha?
    rw [if_neg hskip, lookup_remember]
    by_cases hkey : (r.assetKind, r.envelopeId) = key
    · rw [if_pos hkey, if_pos ⟨hskip, hkey⟩]
      rfl
    · rw [if_neg hkey, if_neg fun h => hkey h.2]

/-- A run leaves its own commit in the entries it writes and no other. -/
theorem appliedSha?_mergeApplyResults (s : EnvState) (run : MergedRun) (key : String × String) :
    (s.mergeApplyResults run.outcomes run.sha run.startedAt run.now).appliedSha? key =
      if key ∈ run.recorded then some run.sha else s.appliedSha? key := by
  have hfold : ∀ (rs : List ApplyOutcome) (n : Nat) (s : EnvState),
      ((rs.zipIdx n).foldl (fun s r => s.mergeOutcome run.sha r.1 (run.now r.2)) s).appliedSha?
        key = if ∃ r ∈ rs, r.status ≠ .skipped ∧ r.key = key then some run.sha
          else s.appliedSha? key := by
    intro rs
    induction rs with
    | nil => intro n s; simp
    | cons r rs ih =>
      intro n s
      rw [List.zipIdx_cons, List.foldl_cons, ih, appliedSha?_mergeOutcome]
      by_cases hlater : ∃ r ∈ rs, r.status ≠ .skipped ∧ r.key = key
      · obtain ⟨r', hr', h'⟩ := hlater
        rw [if_pos ⟨r', hr', h'⟩, if_pos ⟨r', List.mem_cons_of_mem r hr', h'⟩]
      · rw [if_neg hlater]
        simp only [List.exists_mem_cons_iff, or_iff_left hlater]
  unfold mergeApplyResults
  rw [hfold]
  have hrecorded : (∃ r ∈ run.outcomes, r.status ≠ .skipped ∧ r.key = key) ↔
      key ∈ run.recorded := by
    simp [MergedRun.recorded, and_assoc]
  simp only [hrecorded]
  rfl

/-- After any runs, an entry has the commit of the last run that wrote it. -/
theorem appliedSha?_mergeRuns (env : String) (runs : List MergedRun) (key : String × String) :
    (mergeRuns { env } runs).appliedSha? key =
      (KeyIndex.last MergedRun.recorded runs key).map (·.sha) := by
  induction runs using List.reverseRecOn with
  | nil => rfl
  | append_singleton runs run ih =>
    unfold mergeRuns at ih ⊢
    rw [List.foldl_append, List.foldl_cons, List.foldl_nil, appliedSha?_mergeApplyResults, ih,
      KeyIndex.last_append, KeyIndex.last_cons]
    by_cases hkey : key ∈ run.recorded
    · rw [if_pos hkey, if_pos hkey]
      rfl
    · rw [if_neg hkey, if_neg hkey]
      rfl

/-- The state claims no success that was not: the report leaves out only what a run succeeded
for, and an entry has the commit of the last run that did. -/
structure Truthful {X : Type} [Value.ScalarEq X] [Json.FloatText X] (lower : String → String)
    (libs : Libs X) (tree : FileTree) (detectionsRoot : Path) (runs : List MergedRun)
    (s : EnvState) : Prop where
  omits : ∀ la ∈ loadedAssets libs tree detectionsRoot,
    (findUndeployed lower libs tree detectionsRoot s).Omits la.stateKey →
      ∃ run ∈ runs, la.stateKey ∈ run.succeeded
  sha : ∀ kind id e, s.lookup kind id = some e →
    ∃ run, KeyIndex.last MergedRun.succeeded runs (kind, id) = some run ∧
      e.lastAppliedSha = run.sha

end EnvState

/-- Where the last run that wrote the entry of an asset did not succeed for it, an earlier run did,
and the last of these was of the same commit. -/
def FailuresCovered (runs : List MergedRun) : Prop :=
  ∀ earlier run later key, runs = earlier ++ run :: later →
    key ∈ run.recorded → key ∉ run.succeeded → (∀ r ∈ later, key ∉ r.recorded) →
      ∃ good, KeyIndex.last MergedRun.succeeded earlier key = some good ∧ good.sha = run.sha

namespace MergedRun
variable {earlier later : List MergedRun} {run : MergedRun} {key : String × String}

theorem last_recorded_eq (hkey : key ∈ run.recorded) (hlater : ∀ r ∈ later, key ∉ r.recorded) :
    KeyIndex.last recorded (earlier ++ run :: later) key = some run := by
  rw [KeyIndex.last_append, KeyIndex.last_cons, KeyIndex.last_eq_none_iff.mpr hlater, if_pos hkey]
  rfl

/-- Runs that write no entry for the asset do not succeed for it. -/
theorem last_succeeded_eq (hlater : ∀ r ∈ later, key ∉ r.recorded) :
    KeyIndex.last succeeded (earlier ++ run :: later) key =
      if key ∈ run.succeeded then some run else KeyIndex.last succeeded earlier key := by
  have hnone : KeyIndex.last succeeded later key = none :=
    KeyIndex.last_eq_none_iff.mpr fun r hr hkey => hlater r hr (recorded_of_succeeded hkey)
  rw [KeyIndex.last_append, KeyIndex.last_cons, hnone]
  by_cases hkey : key ∈ run.succeeded
  · rw [if_pos hkey, if_pos hkey]
    rfl
  · rw [if_neg hkey, if_neg hkey]
    rfl

end MergedRun

/-- The state of any runs is truthful iff no failure has the last word. -/
theorem truthful_iff_failuresCovered {X : Type} [Value.ScalarEq X] [Json.FloatText X]
    (lower : String → String) (libs : Libs X) (tree : FileTree) (detectionsRoot : Path)
    (env : String) (runs : List MergedRun) :
    (EnvState.mergeRuns { env } runs).Truthful lower libs tree detectionsRoot runs ↔
      FailuresCovered runs := by
  have hsha := EnvState.appliedSha?_mergeRuns env runs
  constructor
  · rintro ⟨-, hentry⟩ earlier run later ⟨kind, id⟩ rfl hrecorded hfailed hlater
    have hlast := hsha (kind, id)
    rw [MergedRun.last_recorded_eq hrecorded hlater] at hlast
    obtain ⟨e, he, hesha⟩ := Option.map_eq_some_iff.mp hlast
    obtain ⟨good, hgood, heq⟩ := hentry kind id e he
    rw [MergedRun.last_succeeded_eq hlater, if_neg hfailed] at hgood
    exact ⟨good, hgood, heq.symm.trans hesha⟩
  · intro hcovered
    -- An entry has the commit of the last run that wrote it, which succeeded or was covered.
    have hentry : ∀ kind id e, (EnvState.mergeRuns { env } runs).lookup kind id = some e →
        ∃ run, KeyIndex.last MergedRun.succeeded runs (kind, id) = some run ∧
          e.lastAppliedSha = run.sha := by
      intro kind id e he
      have happlied : (EnvState.mergeRuns { env } runs).appliedSha? (kind, id) =
          some e.lastAppliedSha := by
        unfold EnvState.appliedSha?
        rw [he]
        rfl
      rw [hsha] at happlied
      obtain ⟨run, hlast, hrun⟩ := Option.map_eq_some_iff.mp happlied
      have hrecorded := KeyIndex.key_mem_of_last hlast
      obtain ⟨earlier, later, rfl, hlater⟩ := KeyIndex.exists_split_of_last hlast
      rw [MergedRun.last_succeeded_eq hlater]
      by_cases hkey : (kind, id) ∈ run.succeeded
      · exact ⟨run, if_pos hkey, hrun.symm⟩
      · obtain ⟨good, hgood, heq⟩ :=
          hcovered earlier run later (kind, id) rfl hrecorded hkey hlater
        rw [if_neg hkey]
        exact ⟨good, hgood, hrun.symm.trans heq.symm⟩
    refine ⟨fun la hla homits => ?_, hentry⟩
    obtain ⟨e, he⟩ := EnvState.isManaged_iff.mp ((findUndeployed_omits_iff hla).mp homits)
    obtain ⟨run, hrun, -⟩ := hentry _ _ e he
    exact ⟨run, KeyIndex.mem_of_last hrun, KeyIndex.key_mem_of_last hrun⟩

/-! ## A rule that was never deployed -/

namespace Sample

/-- The only run that meets `foo.yml`, and the tenant refuses the rule. -/
def refusedRun : MergedRun where
  sha := "0f3c9a1"
  outcomes := [⟨"sentinel_analytic", "foo", "", .failed⟩]
  startedAt := "2026-01-31T12:00:00.000000Z"
  now _ := "2026-01-31T12:00:00.000001Z"

end Sample

theorem refusedRule_omitted :
    (loadedAssets Sample.libs Sample.fooTree Sample.base).map LoadedAsset.stateKey =
        [("sentinel_analytic", "foo")] ∧
      (findUndeployed id Sample.libs Sample.fooTree Sample.base
        (EnvState.mergeRuns { env := "prod" } [Sample.refusedRun])).undeployed = [] ∧
      ¬ (EnvState.mergeRuns { env := "prod" } [Sample.refusedRun]).Truthful id Sample.libs
        Sample.fooTree Sample.base [Sample.refusedRun] := by
  have hloaded : (loadedAssets Sample.libs Sample.fooTree Sample.base).map LoadedAsset.stateKey =
      [("sentinel_analytic", "foo")] := by
    decide +kernel
  have hreport : (findUndeployed id Sample.libs Sample.fooTree Sample.base
      (EnvState.mergeRuns { env := "prod" } [Sample.refusedRun])).undeployed = [] := by
    decide +kernel
  refine ⟨hloaded, hreport, fun htruthful => ?_⟩
  obtain ⟨la, hla, hkey⟩ := List.map_eq_singleton_iff.mp hloaded
  have homits : (findUndeployed id Sample.libs Sample.fooTree Sample.base
      (EnvState.mergeRuns { env := "prod" } [Sample.refusedRun])).Omits la.stateKey := by
    intro u hu
    rw [hreport] at hu
    exact absurd hu List.not_mem_nil
  obtain ⟨run, hrun, hsucceeded⟩ := htruthful.omits la (hla ▸ List.mem_singleton_self la) homits
  obtain rfl := List.mem_singleton.mp hrun
  exact absurd hsucceeded List.not_mem_nil

end ContentOps
