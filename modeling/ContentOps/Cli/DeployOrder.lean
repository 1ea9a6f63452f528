import ContentOps.Cli.Rollback
import ContentOps.Cli.RetryFailed

/-! The order in which the commands that write hand the assets to their handlers: `apply` sorts by
the tier of the kind, `rollback` and `retry-failed` keep the order of the paths. -/

namespace ContentOps
open PyData

section
variable {X : Type}

/-- What the commands do within one workspace: the assets that are due, and those handed over. -/
structure Round (X : Type) where
  due : List (LoadedAsset X)
  applied : List (LoadedAsset X)

/-- Playbooks come before the other kinds and automation rules after them, each asset once. -/
structure Round.InDeployOrder (r : Round X) : Prop where
  playbooksFirst : r.applied.Pairwise fun la lb =>
    lb.envelope.asset = .sentinelPlaybook → la.envelope.asset = .sentinelPlaybook
  rulesLast : r.applied.Pairwise fun la lb =>
    la.envelope.asset = .sentinelAutomationRule → lb.envelope.asset = .sentinelAutomationRule
  once : (r.applied.map (·.path)).Perm (r.due.map (·.path)) ∧ (r.applied.map (·.path)).Nodup

theorem inTiers_iff (a b : Asset) : a.applyOrder ≤ b.applyOrder ↔
    (b = .sentinelPlaybook → a = .sentinelPlaybook) ∧
      (a = .sentinelAutomationRule → b = .sentinelAutomationRule) := by
  cases a <;> cases b <;> decide

theorem Round.inDeployOrder_iff (r : Round X) : r.InDeployOrder ↔
    r.applied.Pairwise (fun la lb => la.envelope.asset.applyOrder ≤ lb.envelope.asset.applyOrder) ∧
      (r.applied.map (·.path)).Perm (r.due.map (·.path)) ∧ (r.applied.map (·.path)).Nodup := by
  have htiers : r.applied.Pairwise (fun la lb : LoadedAsset X =>
      la.envelope.asset.applyOrder ≤ lb.envelope.asset.applyOrder) ↔
      (r.applied.Pairwise fun la lb =>
        lb.envelope.asset = .sentinelPlaybook → la.envelope.asset = .sentinelPlaybook) ∧
      (r.applied.Pairwise fun la lb =>
        la.envelope.asset = .sentinelAutomationRule →
          lb.envelope.asset = .sentinelAutomationRule) := by
    rw [← List.pairwise_and_iff]
    simp only [inTiers_iff]
  rw [htiers]
  constructor
  · rintro ⟨hfirst, hlast, honce⟩
    exact ⟨⟨hfirst, hlast⟩, honce⟩
  · rintro ⟨⟨hfirst, hlast⟩, honce⟩
    exact ⟨hfirst, hlast, honce⟩

variable [Value.ScalarEq X] [Json.FloatText X]

theorem loadedAssets_sorted (libs : Libs X) (tree : FileTree) (base : Path) :
    (loadedAssets libs tree base).Pairwise fun la lb => la.path < lb.path := by
  have hpaths : (discoverAssets tree base).Pairwise (· < ·) := by
    unfold discoverAssets Dict.keys
    rw [List.pairwise_map]
    exact tree.sorted.filter _
  unfold loadedAssets
  rw [List.pairwise_filterMap]
  refine hpaths.imp ?_
  intro p q hpq la hla lb hlb
  obtain ⟨_, -, hloada⟩ := Option.bind_eq_some_iff.mp hla
  obtain ⟨_, -, hloadb⟩ := Option.bind_eq_some_iff.mp hlb
  rw [(loadAsset_eq_some hloada).1, (loadAsset_eq_some hloadb).1]
  exact hpq

omit [Value.ScalarEq X] [Json.FloatText X] in
theorem nodup_paths {las : List (LoadedAsset X)}
    (h : las.Pairwise fun la lb => la.path < lb.path) : (las.map (·.path)).Nodup := by
  rw [List.Nodup, List.pairwise_map]
  exact h.imp fun hlt => ne_of_lt hlt

/-! ## The rounds of the commands -/

inductive WriteCommand (X : Type) where
  | apply (run : WriteRun X)
  | rollback (run : RollbackRun X)
  | retryFailed (run : RetryRun X)

namespace WriteRun

/-- The assets of a round that `_process_apply_asset` hands to their handler. -/
def due (run : WriteRun X) (entry : Option SentinelWorkspaceConfig) (las : List (LoadedAsset X)) :
    List (LoadedAsset X) :=
  las.filter fun la => (run.processApplyAsset entry la).isSome

/-- The loaded assets of a round of the loop over workspaces. -/
def inRound (las : List (LoadedAsset X)) (idx : Nat) : List (LoadedAsset X) :=
  las.filter fun la => idx = 0 || !la.envelope.asset.isDefender

def round (run : WriteRun X) (las : List (LoadedAsset X))
    (entry : Option SentinelWorkspaceConfig × Nat) : Round X where
  due := run.due entry.1 (inRound las entry.2)
  applied := ((orderedForApply (inRound las entry.2)).filterMap
    (run.processApplyAsset entry.1)).map (·.asset)

def rounds (run : WriteRun X) : List (Round X) :=
  match run.selection? with
  | none => []
  | some sel =>
    if !sel.writeAllowed then []
    else if sel.workspaces.isEmpty && run.role = some .integration then []
    else sel.entries.zipIdx.map (run.round (run.applyAssets sel))

/-- The rounds are the calls of `apply`. -/
theorem flatMap_rounds (run : WriteRun X) :
    run.rounds.flatMap (·.applied) = run.applyCalls.map (·.asset) := by
  unfold rounds applyCalls
  cases run.selection? with
  | none => rfl
  | some sel =>
    dsimp only
    split_ifs
    · rfl
    · rfl
    · unfold iterationCalls
      rw [List.flatMap_map, List.map_flatMap]
      rfl

end WriteRun

theorem WriteRun.mem_rounds (run : WriteRun X) {r : Round X} (h : r ∈ run.rounds) :
    ∃ las entry, (las.map (·.path)).Nodup ∧ r = run.round las entry := by
  unfold rounds at h
  split at h
  · exact absurd h List.not_mem_nil
  · next sel _ =>
    split_ifs at h
    · exact absurd h List.not_mem_nil
    · exact absurd h List.not_mem_nil
    · obtain ⟨entry, -, rfl⟩ := List.mem_map.mp h
      refine ⟨run.applyAssets sel, entry, ?_, rfl⟩
      exact nodup_paths ((loadedAssets_sorted _ _ _).filter _)

/-- The one round of a rollback. -/
def RollbackRun.round (run : RollbackRun X) : Round X where
  due := match run.loop with
    | some (active, name, las) => las.filter fun la => (run.processAsset active name la).isSome
    | none => []
  applied := run.rollbackCalls.map (·.asset)

/-- What the loop of a retry goes over. -/
def RetryRun.loopAssets (run : RetryRun X) : List (LoadedAsset X) :=
  match run.active?, run.selection?, run.failedPairs? with
  | some _, some sel, some failed =>
    if run.dryRun || !sel.writeAllowed then [] else run.selected sel failed
  | _, _, _ => []

def RetryRun.round (run : RetryRun X) : Round X where
  due := run.loopAssets.filter fun la => run.isRegistered la.envelope.asset && run.validate la
  applied := run.retryCalls.map (·.asset)

theorem RetryRun.applied_eq (run : RetryRun X) : run.round.applied =
    (run.loopAssets.takeWhile fun la => run.isRegistered la.envelope.asset).filter
      run.validate := by
  unfold round retryCalls loopAssets
  dsimp only
  cases run.active? with
  | none => rfl
  | some active =>
    cases run.selection? with
    | none => rfl
    | some sel =>
      cases run.failedPairs? with
      | none => rfl
      | some failed =>
        dsimp only
        split
        · rfl
        · rw [List.map_map]
          exact List.map_id _

def WriteCommand.rounds : WriteCommand X → List (Round X)
  | .apply run => run.rounds
  | .rollback run => [run.round]
  | .retryFailed run => [run.round]

/-! ## Rounds in path order -/

/-- In the order of the paths the kinds come in their tiers. -/
def PathsInTiers (las : List (LoadedAsset X)) : Prop :=
  ∀ la ∈ las, ∀ lb ∈ las, la.path < lb.path →
    la.envelope.asset.applyOrder ≤ lb.envelope.asset.applyOrder

omit [Value.ScalarEq X] [Json.FloatText X] in
theorem pairwise_tiers_iff {las : List (LoadedAsset X)}
    (h : las.Pairwise fun la lb => la.path < lb.path) :
    las.Pairwise (fun la lb => la.envelope.asset.applyOrder ≤ lb.envelope.asset.applyOrder) ↔
      PathsInTiers las := by
  constructor
  · intro htiers la hla lb hlb hlt
    induction las with
    | nil => exact absurd hla List.not_mem_nil
    | cons lc las ih =>
      obtain ⟨hhead, htail⟩ := List.pairwise_cons.mp h
      obtain ⟨hthead, httail⟩ := List.pairwise_cons.mp htiers
      rcases List.mem_cons.mp hla with rfl | hla'
      · rcases List.mem_cons.mp hlb with rfl | hlb'
        · exact le_refl _
        · exact hthead lb hlb'
      · rcases List.mem_cons.mp hlb with rfl | hlb'
        · exact absurd hlt (lt_asymm (hhead la hla'))
        · exact ih htail httail hla' hlb'
  · intro htiers
    exact h.imp_of_mem fun hla hlb hlt => htiers _ hla _ hlb hlt

/-- The step of an asset hands over the asset itself, with its queries filled in. -/
def KeepsIdentity (f : LoadedAsset X → Option (ApplyCall X)) : Prop :=
  ∀ la c, f la = some c → c.asset.path = la.path ∧ c.asset.envelope = la.envelope

omit [Value.ScalarEq X] [Json.FloatText X] in
theorem keepsIdentity_processAsset (run : WriteRun X) (active name : Option String) :
    KeepsIdentity (run.processAsset active name) := by
  intro la c h
  unfold WriteRun.processAsset at h
  obtain ⟨-, resolved, hresolved, -, rfl⟩ := WriteRun.process_eq_some h
  exact Snippets.applySnippets_eq_some hresolved

omit [Value.ScalarEq X] [Json.FloatText X] in
theorem keepsIdentity_processApplyAsset (run : WriteRun X)
    (entry : Option SentinelWorkspaceConfig) : KeepsIdentity (run.processApplyAsset entry) := by
  intro la c h
  unfold WriteRun.processApplyAsset at h
  obtain ⟨-, resolved, hresolved, -, rfl⟩ := WriteRun.process_eq_some h
  exact Snippets.applySnippets_eq_some hresolved

omit [Value.ScalarEq X] [Json.FloatText X] in
/-- The assets handed over are those that are due, in the same order. -/
theorem applied_map {f : LoadedAsset X → Option (ApplyCall X)} (hf : KeepsIdentity f)
    (las : List (LoadedAsset X)) :
    ((las.filterMap f).map (·.asset)).map (fun la => (la.path, la.envelope)) =
      (las.filter fun la => (f la).isSome).map fun la => (la.path, la.envelope) := by
  induction las with
  | nil => rfl
  | cons la las ih =>
    cases hla : f la with
    | none =>
      rw [List.filterMap_cons_none hla, List.filter_cons_of_neg (by simp [hla]), ih]
    | some c =>
      obtain ⟨hpath, henvelope⟩ := hf la c hla
      rw [List.filterMap_cons_some hla, List.filter_cons_of_pos (by simp [hla]), List.map_cons,
        List.map_cons, List.map_cons, ih, hpath, henvelope]

omit [Value.ScalarEq X] [Json.FloatText X] in
theorem applied_paths {f : LoadedAsset X → Option (ApplyCall X)} (hf : KeepsIdentity f)
    (las : List (LoadedAsset X)) :
    ((las.filterMap f).map (·.asset)).map (·.path) =
      (las.filter fun la => (f la).isSome).map (·.path) := by
  have h := congrArg (List.map Prod.fst) (applied_map hf las)
  simpa only [List.map_map, Function.comp_def] using h

omit [Value.ScalarEq X] [Json.FloatText X] in
theorem applied_tiers {f : LoadedAsset X → Option (ApplyCall X)} (hf : KeepsIdentity f)
    (las : List (LoadedAsset X)) :
    ((las.filterMap f).map (·.asset)).Pairwise
        (fun la lb => la.envelope.asset.applyOrder ≤ lb.envelope.asset.applyOrder) ↔
      (las.filter fun la => (f la).isSome).Pairwise
        fun la lb => la.envelope.asset.applyOrder ≤ lb.envelope.asset.applyOrder := by
  have h := congrArg (List.Pairwise fun p q : Path × EnvelopeV2 =>
    p.2.asset.applyOrder ≤ q.2.asset.applyOrder) (applied_map hf las)
  rw [List.pairwise_map, List.pairwise_map, List.pairwise_map] at h
  rw [List.pairwise_map]
  exact iff_of_eq h

/-! ## The order of each command -/

omit [Value.ScalarEq X] [Json.FloatText X] in
theorem WriteRun.inDeployOrder_round (run : WriteRun X) {las : List (LoadedAsset X)}
    (hlas : (las.map (·.path)).Nodup) (entry : Option SentinelWorkspaceConfig × Nat) :
    (run.round las entry).InDeployOrder := by
  have hkeeps := keepsIdentity_processApplyAsset run entry.1
  have hperm : (orderedForApply (inRound las entry.2)).Perm (inRound las entry.2) :=
    List.perm_insertionSort _ _
  have hsorted : (orderedForApply (inRound las entry.2)).Pairwise
      fun la lb => la.envelope.asset.applyOrder ≤ lb.envelope.asset.applyOrder := by
    have hkeys := List.pairwise_insertionSort (fun la lb : LoadedAsset X =>
      toLex (la.envelope.asset.applyOrder, "/".intercalate la.path) ≤
        toLex (lb.envelope.asset.applyOrder, "/".intercalate lb.path)) (inRound las entry.2)
    refine hkeys.imp fun hle => ?_
    exact (Prod.Lex.le_iff.mp hle).elim le_of_lt fun heq => heq.1.le
  have hpaths : (run.round las entry).applied.map (·.path) =
      ((orderedForApply (inRound las entry.2)).filter
        fun la => (run.processApplyAsset entry.1 la).isSome).map (·.path) := applied_paths hkeeps _
  have honce : ((run.round las entry).applied.map (·.path)).Perm
      ((run.round las entry).due.map (·.path)) := by
    rw [hpaths]
    exact (hperm.filter _).map _
  rw [Round.inDeployOrder_iff]
  refine ⟨(applied_tiers hkeeps _).mpr (hsorted.filter _), honce, ?_⟩
  apply honce.nodup_iff.mpr
  exact ((List.filter_sublist.trans List.filter_sublist).map _).nodup hlas

theorem RollbackRun.loop_sorted (run : RollbackRun X) {active name : Option String}
    {las : List (LoadedAsset X)} (h : run.loop = some (active, name, las)) :
    las.Pairwise fun la lb => la.path < lb.path := by
  unfold loop at h
  split at h
  · exact absurd h (by simp)
  · obtain ⟨active', -, h⟩ := Option.bind_eq_some_iff.mp h
    obtain ⟨sel, -, h⟩ := Option.bind_eq_some_iff.mp h
    dsimp only at h
    split at h
    · obtain ⟨-, -, rfl⟩ : active' = active ∧ workspaceNameFor sel active' = name ∧
          run.assets sel = las := by simpa using h
      exact (loadedAssets_sorted _ _ _).filter _
    · exact absurd h (by simp)

theorem RollbackRun.inDeployOrder_round_iff (run : RollbackRun X) :
    run.round.InDeployOrder ↔ PathsInTiers run.round.due := by
  rw [Round.inDeployOrder_iff]
  unfold round rollbackCalls
  cases hloop : run.loop with
  | none => simp [PathsInTiers]
  | some loop =>
    obtain ⟨active, name, las⟩ := loop
    have hkeeps := keepsIdentity_processAsset run.toWriteRun active name
    have hsorted := run.loop_sorted hloop
    dsimp only
    rw [applied_tiers hkeeps, applied_paths hkeeps, pairwise_tiers_iff (hsorted.filter _)]
    exact and_iff_left ⟨List.Perm.refl _, nodup_paths (hsorted.filter _)⟩

theorem RetryRun.loopAssets_sorted (run : RetryRun X) :
    run.loopAssets.Pairwise fun la lb => la.path < lb.path := by
  unfold loopAssets
  split
  · split
    · exact List.Pairwise.nil
    · exact ((loadedAssets_sorted _ _ _).filter _).filter _
  · exact List.Pairwise.nil

section
variable {las : List (LoadedAsset X)} (p q : LoadedAsset X → Bool)

omit [Value.ScalarEq X] [Json.FloatText X] in
theorem filter_eq_append : las.filter (fun la => p la && q la) =
    (las.takeWhile p).filter q ++ (las.dropWhile p).filter fun la => p la && q la := by
  have htaken : (las.takeWhile p).filter (fun la => p la && q la) =
      (las.takeWhile p).filter q := by
    refine List.filter_congr fun la hla => ?_
    rw [List.mem_takeWhile_imp hla, Bool.true_and]
  rw [← htaken, ← List.filter_append, List.takeWhile_append_dropWhile]

omit [Value.ScalarEq X] [Json.FloatText X] in
/-- A loop that ends at the first asset without `p` misses nothing iff these all come last. -/
theorem takeWhile_filter_eq_iff (h : las.Pairwise fun la lb => la.path < lb.path) :
    (las.takeWhile p).filter q = las.filter (fun la => p la && q la) ↔
      ∀ la ∈ las, p la = false → ∀ lb ∈ las.filter fun la => p la && q la, lb.path < la.path := by
  have hsplit : las.takeWhile p ++ las.dropWhile p = las := List.takeWhile_append_dropWhile
  rw [← hsplit, List.pairwise_append] at h
  obtain ⟨-, hdrop, hbetween⟩ := h
  constructor
  · intro heq la hla hp lb hlb
    rw [← heq] at hlb
    rw [← hsplit] at hla
    apply hbetween lb (List.mem_of_mem_filter hlb)
    rcases List.mem_append.mp hla with htaken | hdropped
    · rw [List.mem_takeWhile_imp htaken] at hp
      exact absurd hp (by decide)
    · exact hdropped
  · intro hlast
    have hnone : (las.dropWhile p).filter (fun la => p la && q la) = [] := by
      rw [List.filter_eq_nil_iff]
      intro lb hlb hpq
      cases hd : las.dropWhile p with
      | nil => simp [hd] at hlb
      | cons la rest =>
        have hne : las.dropWhile p ≠ [] := by simp [hd]
        have hp : p la = false := by
          have hhead := List.head_dropWhile_not p hne
          simpa [hd] using hhead
        have hlas : ∀ lc ∈ las.dropWhile p, lc ∈ las :=
          fun lc hlc => (List.dropWhile_sublist p).subset hlc
        have hbefore := hlast la (hlas la (by simp [hd])) hp lb
          (List.mem_filter.mpr ⟨hlas lb hlb, hpq⟩)
        rw [hd] at hlb hdrop
        rcases List.mem_cons.mp hlb with rfl | hrest
        · exact lt_irrefl _ hbefore
        · exact lt_asymm hbefore ((List.pairwise_cons.mp hdrop).1 lb hrest)
    rw [filter_eq_append, hnone, List.append_nil]

end

theorem RetryRun.inDeployOrder_round_iff (run : RetryRun X) :
    run.round.InDeployOrder ↔ PathsInTiers run.round.due ∧
      ∀ la ∈ run.loopAssets, run.isRegistered la.envelope.asset = false →
        ∀ lb ∈ run.round.due, lb.path < la.path := by
  have hsorted := run.loopAssets_sorted
  have hdue : run.round.due.Pairwise fun la lb => la.path < lb.path := hsorted.filter _
  have hall : run.round.applied = run.round.due ↔ ∀ la ∈ run.loopAssets,
      run.isRegistered la.envelope.asset = false → ∀ lb ∈ run.round.due, lb.path < la.path := by
    rw [applied_eq]
    exact takeWhile_filter_eq_iff (fun la => run.isRegistered la.envelope.asset) run.validate hsorted
  have hsub : run.round.applied.Sublist run.round.due := by
    rw [applied_eq]
    unfold round
    dsimp only
    rw [filter_eq_append]
    exact List.sublist_append_left _ _
  rw [Round.inDeployOrder_iff, ← hall, ← pairwise_tiers_iff hdue]
  constructor
  · rintro ⟨htiers, hperm, -⟩
    have heq : run.round.applied = run.round.due := by
      apply hsub.eq_of_length
      simpa using hperm.length_eq
    exact ⟨heq ▸ htiers, heq⟩
  · rintro ⟨htiers, heq⟩
    rw [heq]
    exact ⟨htiers, List.Perm.refl _, nodup_paths hdue⟩

/-! ## All commands -/

/-- The order of the paths is one to deploy in, and every kind that a retry comes to has a
handler. -/
def WriteCommand.Suited : WriteCommand X → Prop
  | .apply _ => True
  | .rollback run => PathsInTiers run.round.due
  | .retryFailed run => PathsInTiers run.round.due ∧
      ∀ la ∈ run.loopAssets, run.isRegistered la.envelope.asset = false →
        ∀ lb ∈ run.round.due, lb.path < la.path

/-- `apply` always keeps the deploy order; a rollback and a retry keep it iff the paths do. -/
theorem inDeployOrder_iff_suited (cmd : WriteCommand X) :
    (∀ r ∈ cmd.rounds, r.InDeployOrder) ↔ cmd.Suited := by
  cases cmd with
  | apply run =>
    refine iff_of_true (fun r hr => ?_) trivial
    obtain ⟨las, entry, hlas, rfl⟩ := run.mem_rounds hr
    exact run.inDeployOrder_round hlas entry
  | rollback run =>
    simp only [WriteCommand.rounds, List.mem_singleton, forall_eq]
    exact run.inDeployOrder_round_iff
  | retryFailed run =>
    simp only [WriteCommand.rounds, List.mem_singleton, forall_eq]
    exact run.inDeployOrder_round_iff

end

/-! ## An automation rule ahead of its analytic rule -/

namespace Sample

def ruleText : Text :=
  "id: close\nversion: 1.0.0\nasset: sentinel_automation_rule\nstatus: production\npayload:
  displayName: Close\n".toList

def ruleDocument : Document Empty :=
  [("id", .str "close"), ("version", .str "1.0.0"), ("asset", .str "sentinel_automation_rule"),
    ("status", .str "production"), ("payload", .dict [("displayName", .str "Close")])]

def bothFailed : Text :=
  "\x7b\"asset\": \"sentinel_automation_rule\", \"id\": \"close\", \"status\": \"failed\"\x7d
\x7b\"asset\": \"sentinel_analytic\", \"id\": \"foo\", \"status\": \"failed\"\x7d\n".toList

/-- Both rules failed in the last run; the automation rule has the smaller path. -/
def retryBoth : RetryRun Empty :=
  { retry with
    libs :=
      { safeLoad := fun t => if t = ruleText then some (.dict ruleDocument)
          else if t = lockedText then some (.dict lockedDocument) else none
        dump := fun _ => []
        laxInt := fun _ => none }
    tree := (Directory.empty.write fooPath lockedText).write (base ++ ["close.yml"]) ruleText
    auditFiles := Directory.empty.write "2026-01-01.jsonl" bothFailed }

end Sample

theorem retryBoth_not_inDeployOrder :
    ¬ ∀ r ∈ (WriteCommand.retryFailed Sample.retryBoth).rounds, r.InDeployOrder := by
  have hkinds : Sample.retryBoth.round.applied.map (·.envelope.asset) =
      [.sentinelAutomationRule, .sentinelAnalytic] := by
    decide +kernel
  intro h
  have hlast := (h _ (List.mem_singleton_self _)).rulesLast
  rw [← List.pairwise_map (f := fun la : LoadedAsset Empty => la.envelope.asset)
    (R := fun a b => a = .sentinelAutomationRule → b = .sentinelAutomationRule), hkinds] at hlast
  exact absurd hlast (by decide)

end ContentOps
