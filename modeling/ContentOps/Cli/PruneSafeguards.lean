import ContentOps.Cli.Orphans

/-! A pruning run and the safeguards of the tenant file: the workspace whose safeguards were looked
up is the one whose provider carries out the deletions. -/

namespace ContentOps.Prune
open PyData

/-- `_active_workspace` of `cli/handler_factories.py`; `none` is an exception, and then the provider
of the Sentinel handlers cannot be made. -/
def activeWorkspaceConfig (casefold : String → String) (cfg : TenantConfig)
    (active : Option String) : Option SentinelWorkspaceConfig :=
  match active.filter (· ≠ "") with
  | some name => cfg.workspaceByName casefold name
  | none =>
    match cfg.selectWorkspaces casefold none none with
    | some [w] => some w
    | _ => none

namespace Run
variable {X : Type} {run : Run X} {cfg : TenantConfig} {active : Option String}

/-- The two ways to find the workspace agree. -/
theorem mem_safeguards_of_active (hcfg : run.config = .found cfg)
    (hasset : run.options.asset.all Asset.isSentinel = true) {w : SentinelWorkspaceConfig}
    (hw : activeWorkspaceConfig run.casefold cfg active = some w) :
    w.toWorkspaceSafeguards ∈ run.safeguards active := by
  have hne : cfg.sentinelWorkspaces.isEmpty = false := by
    cases hws : cfg.sentinelWorkspaces with
    | nil =>
      unfold activeWorkspaceConfig at hw
      cases hname : active.filter (· ≠ "") with
      | some name =>
        simp only [hname] at hw
        simp [TenantConfig.workspaceByName, hws] at hw
      | none =>
        simp only [hname] at hw
        simp [TenantConfig.selectWorkspaces, hws] at hw
    | cons w ws => rfl
  unfold activeWorkspaceConfig at hw
  unfold safeguards
  simp only [hcfg, hasset, hne, Bool.not_false, Bool.and_self, if_true]
  apply List.mem_append_left
  cases hname : active.filter (· ≠ "") with
  | some name =>
    simp only [hname] at hw ⊢
    rw [hw]
    exact List.mem_singleton_self _
  | none =>
    simp only [hname, TenantConfig.selectWorkspaces] at hw ⊢
    cases hws : cfg.sentinelWorkspaces with
    | nil => simp [hws] at hw
    | cons v vs =>
      cases vs with
      | nil =>
        simp only [hws, Option.some.injEq] at hw
        subst hw
        exact List.mem_singleton_self _
      | cons v' vs => simp [hws] at hw

theorem mem_safeguards_of_defender (hcfg : run.config = .found cfg)
    (hasset : run.options.asset.all Asset.isDefender = true) {d : DefenderConfig}
    (hd : cfg.defender = some d) : d.toWorkspaceSafeguards ∈ run.safeguards active := by
  unfold safeguards
  simp only [hcfg, hasset, if_true, hd]
  exact List.mem_append_right _ (List.mem_singleton_self _)

theorem maxDeletes_le (run : Run X) (active : Option String) :
    run.maxDeletes active ≤ run.options.maxDeletes ∧
      ∀ s ∈ run.safeguards active, run.maxDeletes active ≤ s.maxDelete := by
  have key : ∀ (ss : List WorkspaceSafeguards) (m : Int),
      ss.foldl (fun m s => min m s.maxDelete) m ≤ m ∧
        ∀ s ∈ ss, ss.foldl (fun m s => min m s.maxDelete) m ≤ s.maxDelete := by
    intro ss
    induction ss with
    | nil => exact fun m => ⟨le_rfl, fun s hs => absurd hs (List.not_mem_nil)⟩
    | cons s ss ih =>
      intro m
      obtain ⟨hle, hall⟩ := ih (min m s.maxDelete)
      refine ⟨hle.trans (min_le_left _ _), fun t ht => ?_⟩
      rcases List.mem_cons.mp ht with rfl | ht
      · exact hle.trans (min_le_right _ _)
      · exact hall t ht
  exact key _ _

variable [Value.ScalarEq X] [Json.FloatText X]

theorem Deletes.purgeAllowed (h : run.Deletes active) {s : WorkspaceSafeguards}
    (hs : s ∈ run.safeguards active) : s.purgeAllowed = true := by
  have hgates := h.gates
  unfold stopReason at hgates
  dsimp only at hgates
  split_ifs at hgates with h₁ h₂ h₃ h₄ h₅ h₆ h₇ h₈ h₉
  have hdeletes : run.willDelete = true := by simpa using h₉
  by_contra hnot
  apply h₂
  rw [hdeletes, Bool.true_and, List.any_eq_true]
  exact ⟨s, hs, by simpa using hnot⟩

theorem Deletes.length_le (h : run.Deletes active) :
    ((run.plan active).orphans.length : Int) ≤ run.maxDeletes active := by
  have hgates := h.gates
  unfold stopReason at hgates
  dsimp only at hgates
  split_ifs at hgates with h₁ h₂ h₃ h₄ h₅ h₆ h₇ h₈ h₉
  exact not_lt.mp h₈

/-- A deleted item is of a kind that the run was asked for and that has a handler. -/
theorem Deletes.kind_of_mem (h : run.Deletes active) {o : Orphan}
    (ho : o ∈ (run.plan active).orphans) :
    run.options.asset.all (· = o.asset) = true ∧
      ∃ kinds, registeredKinds run.config run.disabledKinds = some kinds ∧ o.asset ∈ kinds := by
  obtain ⟨g, hg, items, -, r, -, horphan⟩ := h.mem_orphans.mp ho
  rw [(orphanOf_eq_some.mp horphan).1]
  obtain ⟨a, ha, rfl⟩ := List.mem_map.mp (List.mem_filter.mp hg).1
  rw [run.handler_asset]
  obtain ⟨hkind, hasked⟩ := List.mem_filter.mp ha
  obtain ⟨kinds, hkinds⟩ := Option.isSome_iff_exists.mp h.registered
  rw [hkinds, Option.getD_some] at hkind
  exact ⟨hasked, kinds, hkinds, hkind⟩

omit [Value.ScalarEq X] [Json.FloatText X] in
theorem engine_of_asked {o : Asset} (engine : Asset → Bool) (hengine : engine o = true)
    (h : run.options.asset.all (· = o) = true) : run.options.asset.all engine = true := by
  cases hasset : run.options.asset with
  | none => rfl
  | some a =>
    rw [hasset, Option.all_some, decide_eq_true_iff] at h
    rw [Option.all_some, h, hengine]

omit [Value.ScalarEq X] [Json.FloatText X] in
/-- A kind of the Defender engine is only registered where the tenant has its block. -/
theorem defender_of_registered (hcfg : run.config = .found cfg) {kinds : List Asset}
    (h : registeredKinds run.config run.disabledKinds = some kinds) {a : Asset} (ha : a ∈ kinds)
    (hdefender : a.isDefender = true) : ∃ d, cfg.defender = some d := by
  unfold registeredKinds at h
  rw [hcfg] at h
  cases hdisabled : disabledKinds run.disabledKinds with
  | none => simp [hdisabled] at h
  | some disabled =>
    simp only [hdisabled, Option.bind_eq_bind, Option.bind_some, Option.some.injEq] at h
    subst h
    have hon := (List.mem_filter.mp ha).2
    rw [Bool.and_eq_true, if_pos hdefender, Option.any_eq_true] at hon
    obtain ⟨d, hd, -⟩ := hon.1
    exact ⟨d, hd⟩

end Run

/-- What the tenant file allows of the deletions of a run: those of a Sentinel kind go through the
workspace of `_active_workspace`. -/
structure Allowed {X : Type} (run : Run X) (cfg : TenantConfig) (active : Option String)
    (deleted : List Orphan) : Prop where
  sentinel : ∀ o ∈ deleted, o.asset.isSentinel = true → ∀ w,
    activeWorkspaceConfig run.casefold cfg active = some w →
      w.purgeAllowed = true ∧ deleted.length ≤ w.maxDelete
  defender : ∀ o ∈ deleted, o.asset.isDefender = true →
    ∃ d, cfg.defender = some d ∧ d.purgeAllowed = true ∧ deleted.length ≤ d.maxDelete
  cap : (deleted.length : Int) ≤ run.options.maxDeletes

section
variable {X : Type} [Value.ScalarEq X] [Json.FloatText X]

/-- Every run that comes to its deletions keeps to the safeguards. -/
theorem prune_allowed (run : Run X) {cfg : TenantConfig} (hcfg : run.config = .found cfg)
    {deleted : List Orphan} (h : run.prune = .ok deleted) :
    ∃ active, run.workspace? = some active ∧ Allowed run cfg active deleted := by
  obtain ⟨active, hdel, rfl⟩ := Run.prune_eq_ok.mp h
  obtain ⟨hcap, hclamped⟩ := run.maxDeletes_le active
  have hlength := hdel.length_le
  refine ⟨active, hdel.resolved, ?_, ?_, hlength.trans hcap⟩
  · intro o ho hsentinel w hw
    obtain ⟨hasked, -⟩ := hdel.kind_of_mem ho
    have hmem := Run.mem_safeguards_of_active hcfg (Run.engine_of_asked _ hsentinel hasked) hw
    exact ⟨hdel.purgeAllowed hmem, by exact_mod_cast hlength.trans (hclamped _ hmem)⟩
  · intro o ho hdefender
    obtain ⟨hasked, kinds, hkinds, hkind⟩ := hdel.kind_of_mem ho
    obtain ⟨d, hd⟩ := Run.defender_of_registered hcfg hkinds hkind hdefender
    have hmem : d.toWorkspaceSafeguards ∈ run.safeguards active :=
      Run.mem_safeguards_of_defender hcfg (Run.engine_of_asked _ hdefender hasked) hd
    exact ⟨d, hd, hdel.purgeAllowed hmem, by exact_mod_cast hlength.trans (hclamped _ hmem)⟩

end

def Sample.tenant : TenantConfig :=
  { name := "acme", sentinelWorkspaces := [{ workspaceName := "soc", purgeAllowed := true }] }

theorem prune_allowed_sample : ∃ active, Sample.run.workspace? = some active ∧
    Allowed Sample.run Sample.tenant active [⟨.sentinelAnalytic, "foo", "AAA"⟩] :=
  prune_allowed Sample.run rfl Sample.prune_run

end ContentOps.Prune
