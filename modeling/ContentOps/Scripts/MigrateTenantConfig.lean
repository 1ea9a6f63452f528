import ContentOps.Library.Value

/-! The one-shot migration of a single-workspace tenant file, `scripts/migrate_tenant_config.py`:
the document it writes, what becomes of the keys it does not name, and a second run. -/

namespace ContentOps.MigrateTenantConfig
open PyData
variable {X : Type}

inductive MigrateError where
  | valueError (message : String)
  | keyError (key : String)
  | typeError
deriving DecidableEq

/-- `d[key]`. -/
def item (d : Dict String (Value X)) (key : String) : Except MigrateError (Value X) :=
  (d.get? key).elim (.error (.keyError key)) .ok

/-- The document that comes back, and whether it is a new one; the first is `raw` as the call leaves
it, which may have filled in an empty list. -/
structure Migrated (X : Type) where
  doc : Dict String (Value X)
  changed : Bool

/-- The entry that `migrate` makes of the old block. -/
def workspaceOf (block : Dict String (Value X)) : Except MigrateError (Dict String (Value X)) := do
  let subscription ← item block "subscriptionId"
  let group ← item block "resourceGroup"
  let workspace ← item block "workspaceName"
  pure [("role", .str "prod"), ("subscriptionId", subscription), ("resourceGroup", group),
    ("workspaceName", workspace), ("location", (block.get? "location").getD (.str "westeurope"))]

/-- The keys that have a place of their own in the new block. -/
def placed : List String := ["name", "tenantId", "defender", "sentinelWorkspaces"]

/-- The new block, of the old one without `sentinel`. -/
def newTenant (tenant : Dict String (Value X)) (name tenantId : Value X)
    (workspace : Dict String (Value X)) : Dict String (Value X) :=
  let head : Dict String (Value X) := [("name", name), ("tenantId", tenantId)]
  let head := ((tenant.get? "defender").map (head.set "defender")).getD head
  (head.set "sentinelWorkspaces" (.list [.dict workspace])).merge
    (tenant.filter fun p => p.1 ∉ placed)

def migrate (raw : Dict String (Value X)) : Except MigrateError (Migrated X) :=
  match raw.get? "tenant" with
  | some (.dict tenant) =>
    match Dict.get? tenant "sentinel" with
    | none =>
      if Dict.contains tenant "sentinelWorkspaces" then .ok ⟨raw, false⟩
      else .ok ⟨raw.set "tenant" (.dict (Dict.set tenant "sentinelWorkspaces" (.list []))), false⟩
    | some (.dict block) => do
      let workspace ← workspaceOf block
      let rest := Dict.erase tenant "sentinel"
      let name ← item rest "name"
      let tenantId ← item rest "tenantId"
      pure ⟨[("tenant", .dict (newTenant rest name tenantId workspace))], true⟩
    | some _ => .error .typeError
  | _ => .error (.valueError "expected top-level `tenant:` block")

/-! ## Which keys survive -/

section Dictionaries
variable {κ α : Type*} [DecidableEq κ]

theorem get?_merge {a b : Dict κ α} (hb : b.keys.Nodup) (k : κ) :
    (a.merge b).get? k = (b.get? k).or (a.get? k) := by
  unfold Dict.merge
  induction b generalizing a with
  | nil => rfl
  | cons p b ih =>
    obtain ⟨hp, hb⟩ : p.1 ∉ Dict.keys b ∧ (Dict.keys b).Nodup := List.nodup_cons.mp hb
    rw [List.foldl_cons, ih hb, Dict.get?_set]
    by_cases hk : p.1 = k
    · subst hk
      rw [Dict.get?_eq_none_iff.mpr hp, if_pos rfl, Dict.get?_cons_self]
      rfl
    · rw [if_neg hk, Dict.get?_cons_ne hk]

theorem get?_filter_keys (d : Dict κ α) (keep : κ → Bool) (k : κ) :
    Dict.get? (d.filter fun p => keep p.1) k = if keep k then d.get? k else none := by
  induction d with
  | nil => simp
  | cons p d ih =>
    by_cases hp : keep p.1 = true
    · rw [List.filter_cons_of_pos (by exact hp), Dict.get?_cons, Dict.get?_cons, ih]
      by_cases hk : p.1 = k
      · subst hk
        rw [if_pos rfl, if_pos rfl, if_pos hp]
      · rw [if_neg hk, if_neg hk]
    · rw [List.filter_cons_of_neg (by exact hp), ih, Dict.get?_cons]
      by_cases hk : p.1 = k
      · subst hk
        rw [if_neg hp, if_neg hp]
      · rw [if_neg hk]

end Dictionaries

theorem get?_newTenant {tenant workspace : Dict String (Value X)} {name tenantId : Value X}
    (htenant : tenant.keys.Nodup) (hname : tenant.get? "name" = some name)
    (hid : tenant.get? "tenantId" = some tenantId) (key : String) :
    (newTenant tenant name tenantId workspace).get? key =
      if "sentinelWorkspaces" = key then some (.list [.dict workspace]) else tenant.get? key := by
  unfold newTenant
  dsimp only
  have hrest : (Dict.keys (tenant.filter fun p => p.1 ∉ placed)).Nodup :=
    htenant.sublist (List.filter_sublist.map _)
  rw [get?_merge hrest, get?_filter_keys tenant (fun k => k ∉ placed), Dict.get?_set]
  by_cases hplaced : key ∈ placed
  · rw [if_neg (by simpa using hplaced), Option.none_or]
    split_ifs with hkey
    · rfl
    · simp only [placed, List.mem_cons, List.not_mem_nil, or_false] at hplaced
      rcases hplaced with rfl | rfl | rfl | rfl
      · cases tenant.get? "defender" <;> simp [hname, Dict.get?_set]
      · cases tenant.get? "defender" <;> simp [hid, Dict.get?_set]
      · cases tenant.get? "defender" <;> simp
      · exact absurd rfl hkey
  · have hworkspaces : "sentinelWorkspaces" ≠ key := by
      rintro rfl
      exact hplaced (by simp [placed])
    rw [if_pos (by simpa using hplaced), if_neg hworkspaces, if_neg hworkspaces]
    have hnone : Dict.get? (((tenant.get? "defender").map
        (Dict.set [("name", name), ("tenantId", tenantId)] "defender")).getD
          [("name", name), ("tenantId", tenantId)]) key = none := by
      simp only [placed, List.mem_cons, List.not_mem_nil, or_false, not_or] at hplaced
      obtain ⟨hn, hi, hd, -⟩ := hplaced
      cases tenant.get? "defender" <;>
        simp [Dict.get?_set, Ne.symm hn, Ne.symm hi, Ne.symm hd]
    rw [hnone, Option.or_none]

/-! ## A document of the old shape -/

def required : List String := ["subscriptionId", "resourceGroup", "workspaceName"]

structure Legacy (raw tenant block : Dict String (Value X)) (listed : List (Value X)) : Prop where
  topBlock : raw.get? "tenant" = some (.dict tenant)
  distinct : tenant.keys.Nodup
  name : tenant.contains "name" = true
  tenantId : tenant.contains "tenantId" = true
  sentinel : tenant.get? "sentinel" = some (.dict block)
  complete : ∀ key ∈ required, block.contains key = true
  earlier : (tenant.get? "sentinelWorkspaces").getD (.list []) = .list listed

/-- What `SentinelWorkspaceConfig` says of a key that is absent. -/
def documented : Dict String (Value X) := [("role", .str "prod"), ("location", .str "westeurope")]

/-- One workspace more, with all that the block said, and nothing else is another. -/
structure Kept (raw tenant block : Dict String (Value X)) (listed : List (Value X))
    (doc : Dict String (Value X)) : Prop where
  topLevel : ∀ key, key ≠ "tenant" → doc.get? key = raw.get? key
  workspaces : ∃ tenant' workspaces workspace,
    doc.get? "tenant" = some (.dict tenant') ∧
      (∀ key, key ≠ "sentinel" → key ≠ "sentinelWorkspaces" →
        Dict.get? tenant' key = tenant.get? key) ∧
      Dict.get? tenant' "sentinelWorkspaces" = some (.list workspaces) ∧
      List.Perm workspaces (.dict workspace :: listed) ∧
      ∀ key, Dict.get? workspace key = (block.get? key).or (documented.get? key)

structure PreservesMeaning (raw tenant block : Dict String (Value X)) (listed : List (Value X))
    (doc : Dict String (Value X)) : Prop where
  migrated : migrate raw = .ok ⟨doc, true⟩
  kept : Kept raw tenant block listed doc
  again : migrate doc = .ok ⟨doc, false⟩

/-- The keys of a workspace that the script knows. -/
def known : List String := ["subscriptionId", "resourceGroup", "workspaceName", "location"]

/-- There is nothing in the document that the script has no place for. -/
structure NothingElse (raw block : Dict String (Value X)) (listed : List (Value X)) : Prop where
  topLevel : ∀ key ∈ raw.keys, key = "tenant"
  earlier : listed = []
  keys : ∀ key v, block.get? key = some v → key ∈ known ∨ key = "role" ∧ v = .str "prod"

/-- The workspace of a complete block. -/
theorem workspaceOf_eq {block : Dict String (Value X)}
    (h : ∀ key ∈ required, block.contains key = true) :
    ∃ workspace, workspaceOf block = .ok workspace ∧ ∀ key, Dict.get? workspace key =
      if key = "role" then some (.str "prod")
      else if key ∈ known then (block.get? key).or (documented.get? key) else none := by
  obtain ⟨s, hs⟩ := Option.isSome_iff_exists.mp (h "subscriptionId" (by simp [required]))
  obtain ⟨g, hg⟩ := Option.isSome_iff_exists.mp (h "resourceGroup" (by simp [required]))
  obtain ⟨w, hw⟩ := Option.isSome_iff_exists.mp (h "workspaceName" (by simp [required]))
  refine ⟨_, by simp only [workspaceOf, item, hs, hg, hw]; rfl, fun key => ?_⟩
  by_cases hrole : key = "role"
  · rw [if_pos hrole, hrole, Dict.get?_cons_self]
  · rw [if_neg hrole, Dict.get?_cons_ne (Ne.symm hrole)]
    by_cases hknown : key ∈ known
    · rw [if_pos hknown]
      simp only [known, List.mem_cons, List.not_mem_nil, or_false] at hknown
      rcases hknown with rfl | rfl | rfl | rfl
      · simp [hs]
      · simp [hg]
      · simp [hw]
      · cases block.get? "location" <;> simp [documented]
    · rw [if_neg hknown, Dict.get?_eq_none_iff]
      simpa [Dict.keys, known] using hknown

theorem migrate_legacy {raw tenant block : Dict String (Value X)} {listed : List (Value X)}
    (h : Legacy raw tenant block listed) :
    ∃ name tenantId workspace, workspaceOf block = .ok workspace ∧
      migrate raw = .ok ⟨[("tenant",
        .dict (newTenant (tenant.erase "sentinel") name tenantId workspace))], true⟩ ∧
      ∀ key, Dict.get? (newTenant (tenant.erase "sentinel") name tenantId workspace) key =
        if "sentinelWorkspaces" = key then some (.list [.dict workspace])
        else if "sentinel" = key then none else tenant.get? key := by
  obtain ⟨name, hname⟩ := Option.isSome_iff_exists.mp h.name
  obtain ⟨tenantId, hid⟩ := Option.isSome_iff_exists.mp h.tenantId
  obtain ⟨workspace, hworkspace, -⟩ := workspaceOf_eq h.complete
  have hname' : (tenant.erase "sentinel").get? "name" = some name := by
    rw [Dict.get?_erase, if_neg (by decide), hname]
  have hid' : (tenant.erase "sentinel").get? "tenantId" = some tenantId := by
    rw [Dict.get?_erase, if_neg (by decide), hid]
  refine ⟨name, tenantId, workspace, hworkspace, ?_, fun key => ?_⟩
  · simp only [migrate, h.topBlock, h.sentinel, hworkspace, item, hname', hid']
    rfl
  · rw [get?_newTenant (Dict.nodup_keys_erase h.distinct _) hname' hid', Dict.get?_erase]

theorem migrate_again {tenant : Dict String (Value X)}
    (hsentinel : tenant.get? "sentinel" = none)
    (hworkspaces : tenant.contains "sentinelWorkspaces" = true) :
    migrate [("tenant", .dict tenant)] = .ok ⟨[("tenant", .dict tenant)], false⟩ := by
  simp only [migrate, Dict.get?_cons_self, hsentinel, if_pos hworkspaces]

theorem kept_of_nothingElse {raw tenant block workspace tenant' : Dict String (Value X)}
    {listed : List (Value X)} (h : NothingElse raw block listed)
    (hworkspace : ∀ key, Dict.get? workspace key = if key = "role" then some (.str "prod")
      else if key ∈ known then (block.get? key).or (documented.get? key) else none)
    (htenant : ∀ key, tenant'.get? key =
      if "sentinelWorkspaces" = key then some (.list [.dict workspace])
      else if "sentinel" = key then none else tenant.get? key) :
    Kept raw tenant block listed [("tenant", .dict tenant')] where
  topLevel key hkey := by
    have hraw : raw.get? key = none :=
      Dict.get?_eq_none_iff.mpr fun hmem => hkey (h.topLevel key hmem)
    rw [Dict.get?_cons_ne (Ne.symm hkey), Dict.get?_nil, hraw]
  workspaces := by
    refine ⟨tenant', [.dict workspace], workspace, Dict.get?_cons_self .., ?_, ?_, ?_, ?_⟩
    · intro key hs hw
      rw [htenant, if_neg (Ne.symm hw), if_neg (Ne.symm hs)]
    · rw [htenant, if_pos rfl]
    · rw [h.earlier]
    · intro key
      rw [hworkspace]
      cases hb : block.get? key with
      | some v =>
        rcases h.keys key v hb with hknown | ⟨rfl, rfl⟩
        · have hrole : key ≠ "role" := by
            rintro rfl
            exact absurd hknown (by decide)
          rw [if_neg hrole, if_pos hknown]
        · rfl
      | none =>
        -- an absent key: the two defaults are those of the model
        by_cases hrole : key = "role"
        · subst hrole
          rfl
        · rw [if_neg hrole]
          split_ifs with hknown
          · rfl
          · have hlocation : "location" ≠ key := by
              rintro rfl
              exact hknown (by decide)
            simp [documented, Ne.symm hrole, hlocation]

theorem nothingElse_of_kept {raw tenant block workspace tenant' : Dict String (Value X)}
    {listed : List (Value X)}
    (hworkspace : ∀ key, Dict.get? workspace key = if key = "role" then some (.str "prod")
      else if key ∈ known then (block.get? key).or (documented.get? key) else none)
    (htenant : tenant'.get? "sentinelWorkspaces" = some (.list [.dict workspace]))
    (h : Kept raw tenant block listed [("tenant", .dict tenant')]) :
    NothingElse raw block listed := by
  obtain ⟨_, workspaces, w, hdoc, -, hlist, hperm, hcarried⟩ := h.workspaces
  rw [Dict.get?_cons_self, Option.some.injEq, Value.dict.injEq] at hdoc
  subst hdoc
  rw [htenant, Option.some.injEq, Value.list.injEq] at hlist
  subst hlist
  have hlisted : listed = [] := by
    have hlength := hperm.length_eq
    rw [List.length_singleton, List.length_cons] at hlength
    exact List.length_eq_zero_iff.mp (by omega)
  subst hlisted
  have hw : workspace = w := by
    have heq := List.perm_singleton.mp hperm
    rw [List.cons.injEq, Value.dict.injEq] at heq
    exact heq.1
  subst hw
  refine ⟨fun key hkey => ?_, rfl, fun key v hv => ?_⟩
  · by_contra hne
    have hnone := h.topLevel key hne
    rw [Dict.get?_cons_ne (Ne.symm hne), Dict.get?_nil] at hnone
    exact Dict.get?_eq_none_iff.mp hnone.symm hkey
  · have hboth := hcarried key
    rw [hworkspace, hv, Option.some_or] at hboth
    split_ifs at hboth with hrole hknown
    · exact Or.inr ⟨hrole, (Option.some.inj hboth).symm⟩
    · exact Or.inl hknown

theorem nothingElse_of_preservesMeaning {raw tenant block doc : Dict String (Value X)}
    {listed : List (Value X)} (h : Legacy raw tenant block listed)
    (hdoc : PreservesMeaning raw tenant block listed doc) : NothingElse raw block listed := by
  obtain ⟨name, tenantId, workspace, hof, hmigrate, htenant⟩ := migrate_legacy h
  obtain ⟨workspace', hof', hworkspace⟩ := workspaceOf_eq h.complete
  obtain rfl : workspace' = workspace := Except.ok.inj (hof'.symm.trans hof)
  have hmigrated := hdoc.migrated
  rw [hmigrate, Except.ok.injEq, Migrated.mk.injEq] at hmigrated
  obtain ⟨rfl, -⟩ := hmigrated
  exact nothingElse_of_kept hworkspace (by rw [htenant, if_pos rfl]) hdoc.kept

/-- The migration preserves what the document says exactly when the document has nothing that the
script does not name. -/
theorem preservesMeaning_iff {raw tenant block : Dict String (Value X)} {listed : List (Value X)}
    (h : Legacy raw tenant block listed) :
    (∃ doc, PreservesMeaning raw tenant block listed doc) ↔ NothingElse raw block listed := by
  constructor
  · rintro ⟨doc, hdoc⟩
    exact nothingElse_of_preservesMeaning h hdoc
  · intro hnothing
    obtain ⟨name, tenantId, workspace, hof, hmigrate, htenant⟩ := migrate_legacy h
    obtain ⟨workspace', hof', hworkspace⟩ := workspaceOf_eq h.complete
    obtain rfl : workspace' = workspace := Except.ok.inj (hof'.symm.trans hof)
    refine ⟨_, hmigrate, kept_of_nothingElse hnothing hworkspace htenant, ?_⟩
    apply migrate_again
    · rw [htenant, if_neg (by decide), if_pos rfl]
    · rw [Dict.contains, htenant, if_pos rfl, Option.isSome_some]

/-! A tenant whose only workspace forbids writes. -/

def guardedBlock : Dict String (Value Unit) :=
  [("subscriptionId", .str "s"), ("resourceGroup", .str "g"), ("workspaceName", .str "w"),
    ("writeAllowed", .bool false)]

def plainBlock : Dict String (Value Unit) :=
  [("subscriptionId", .str "s"), ("resourceGroup", .str "g"), ("workspaceName", .str "w")]

def tenantWith (block : Dict String (Value Unit)) : Dict String (Value Unit) :=
  [("name", .str "production"), ("tenantId", .str "t"), ("sentinel", .dict block)]

theorem legacy_tenantWith (block : Dict String (Value Unit))
    (h : ∀ key ∈ required, block.contains key = true) :
    Legacy [("tenant", .dict (tenantWith block))] (tenantWith block) block [] where
  topBlock := Dict.get?_cons_self ..
  distinct := by simp [Dict.keys, tenantWith]
  name := rfl
  tenantId := rfl
  sentinel := rfl
  complete := h
  earlier := rfl

theorem not_preservesMeaning_guarded :
    Legacy [("tenant", .dict (tenantWith guardedBlock))] (tenantWith guardedBlock) guardedBlock [] ∧
      ¬∃ doc, PreservesMeaning [("tenant", .dict (tenantWith guardedBlock))]
        (tenantWith guardedBlock) guardedBlock [] doc := by
  have hlegacy := legacy_tenantWith guardedBlock (by decide)
  refine ⟨hlegacy, ?_⟩
  rintro ⟨doc, hdoc⟩
  have hnothing := nothingElse_of_preservesMeaning hlegacy hdoc
  rcases hnothing.keys "writeAllowed" (.bool false) rfl with hknown | ⟨hrole, -⟩
  · exact absurd hknown (by decide)
  · exact absurd hrole (by decide)

theorem preservesMeaning_plain :
    (∃ doc, PreservesMeaning [("tenant", .dict (tenantWith plainBlock))] (tenantWith plainBlock)
      plainBlock [] doc) ↔ NothingElse [("tenant", .dict (tenantWith plainBlock))] plainBlock [] :=
  preservesMeaning_iff (legacy_tenantWith plainBlock (by decide))

end ContentOps.MigrateTenantConfig
