import ContentOps.Lifecycle.Promote

/-! Promotion is fail-closed: what has to hold of a rule whose file changes without `--force`. -/

namespace ContentOps.Lifecycle
open PyData

section
variable {X : Type} [Value.ScalarEq X]

/-- Both workspace gates were evaluated for a rule and found nothing against it. -/
structure Evaluated (libs : LifecycleLibs X) (answers : WorkspaceAnswers X) (threshold : X)
    (workspaceId token : String) (doc : Document X) : Prop where
  runs : ∀ kql, kqlBody doc = some kql → ∃ rows, answers.query (countQuery kql) workspaceId token = .ok rows
  rate : ∃ rows rate, answers.telemetry workspaceId token = .ok rows ∧
    closedRateOver libs.toNumbers
      (ruleRows libs.toNumbers rows (ruleKeysFromRaw libs.toNumbers doc)) = some rate ∧
    ∀ r, rate = some r → libs.le r threshold = true

/-- What the document of a rule has to say, and the workspace about it, to be promoted. -/
structure Cleared (env : PromoteEnv X) (command : PromoteCommand) (doc : Document X) : Prop where
  experimental : Value.textAt doc "status" = "experimental"
  validated : ∃ day, lastValidated env.libs doc = some day ∧
    env.today - command.maxValidationAgeDays ≤ day ∧ day ≤ env.today
  workspace : command.noWorkspaceQuery = true ∨ ∃ workspaceId token i,
    chosenWorkspaceId env command = .ok (some workspaceId) ∧ env.getToken = .ok token ∧
      Evaluated env.libs (env.answers i) env.threshold workspaceId token doc

/-- The access is what the lookups give: a workspace and a token, or an error, unless opted out. -/
def Accessed (env : PromoteEnv X) (command : PromoteCommand) (access : WorkspaceAccess) : Prop :=
  command.noWorkspaceQuery = true ∨ (∃ e, access.error = some e ∧ e ≠ "" ∧ access.usable? = none) ∨
    ∃ workspaceId token, access.usable? = some (workspaceId, token) ∧
      chosenWorkspaceId env command = .ok (some workspaceId) ∧ env.getToken = .ok token

omit [Value.ScalarEq X] in
theorem accessed_lookUpWorkspace (env : PromoteEnv X) (command : PromoteCommand)
    (htoken : ∀ token, env.getToken = .ok token → token ≠ "") :
    Accessed env command (lookUpWorkspace env command) := by
  unfold Accessed lookUpWorkspace
  by_cases hquery : command.noWorkspaceQuery = true
  · exact .inl hquery
  have hstart : ∀ (start message : String), start ≠ "" → start ++ message ≠ "" := by
    intro start message hstart hempty
    exact hstart (String.append_eq_empty_iff.mp hempty).1
  refine .inr ?_
  rw [if_neg hquery]
  dsimp only
  cases env.getCredential with
  | error failure =>
    refine .inl ⟨_, rfl, ?_, rfl⟩
    cases failure <;> exact hstart _ _ (by decide)
  | ok =>
    dsimp only
    cases hchosen : chosenWorkspaceId env command with
    | error failure =>
      refine .inl ⟨_, rfl, ?_, rfl⟩
      cases failure <;> exact hstart _ _ (by decide)
    | ok resolved =>
      dsimp only
      cases hid : resolved.filter (· ≠ "") with
      | none => exact .inl ⟨_, rfl, by decide, rfl⟩
      | some workspaceId =>
        obtain ⟨hresolved, hne⟩ := Option.filter_eq_some_iff.mp hid
        dsimp only
        cases htok : env.getToken with
        | error failure =>
          refine .inl ⟨_, rfl, ?_, rfl⟩
          cases failure <;> exact hstart _ _ (by decide)
        | ok token =>
          refine .inr ⟨workspaceId, token, ?_, by rw [hresolved], rfl⟩
          have hne' := htoken token htok
          simp only [decide_eq_true_eq] at hne
          simp [WorkspaceAccess.usable?, Option.filter, hne, hne']

/-- A workspace gate neither passes nor defers once the lookup has failed. -/
theorem noWorkspaceGate_failed (name : String) {error : String} (h : error ≠ "") :
    (noWorkspaceGate name (some error)).passed = false ∧
      (noWorkspaceGate name (some error)).deferred = false := by
  unfold noWorkspaceGate
  simp [Option.filter, h]

theorem fpRate_passed {libs : LifecycleLibs X} {answers : WorkspaceAnswers X} {doc : Document X}
    {access : WorkspaceAccess} {threshold : X} {workspaceId token : String}
    (haccess : access.usable? = some (workspaceId, token)) {gate : GateResult}
    (hgate : gateFpRateThreshold libs answers doc access threshold = some gate)
    (hpassed : (gate.passed || gate.deferred) = true) :
    ∃ rows rate, answers.telemetry workspaceId token = .ok rows ∧
      closedRateOver libs.toNumbers
        (ruleRows libs.toNumbers rows (ruleKeysFromRaw libs.toNumbers doc)) = some rate ∧
      ∀ r, rate = some r → libs.le r threshold = true := by
  unfold gateFpRateThreshold at hgate
  rw [haccess] at hgate
  dsimp only at hgate
  cases hrows : answers.telemetry workspaceId token with
  | error failure =>
    rw [hrows] at hgate
    obtain rfl := Option.some.inj hgate
    exact absurd hpassed (by decide)
  | ok rows =>
    rw [hrows] at hgate
    obtain ⟨found, hfound, hgate⟩ := Option.bind_eq_some_iff.mp hgate
    have hrate := closedFpRate_lookup hfound
    cases found with
    | none => exact ⟨rows, none, rfl, hrate.symm, by simp⟩
    | some row =>
      obtain ⟨_, -, hgate⟩ := Option.bind_eq_some_iff.mp hgate
      obtain ⟨rate, hrow, hgate⟩ := Option.bind_eq_some_iff.mp hgate
      rw [Option.elim_some, hrow] at hrate
      refine ⟨rows, rate, rfl, hrate.symm, ?_⟩
      rintro r rfl
      obtain rfl := Option.some.inj hgate
      simpa using hpassed

omit [Value.ScalarEq X] in
theorem liveTest_passed {answers : WorkspaceAnswers X} {doc : Document X} {access : WorkspaceAccess}
    {workspaceId token : String} (haccess : access.usable? = some (workspaceId, token))
    (hpassed : ((gateLiveTestPass answers doc access).passed ||
      (gateLiveTestPass answers doc access).deferred) = true) :
    ∀ kql, kqlBody doc = some kql →
      ∃ rows, answers.query (countQuery kql) workspaceId token = .ok rows := by
  intro kql hkql
  unfold gateLiveTestPass at hpassed
  rw [haccess] at hpassed
  dsimp only at hpassed
  rw [hkql] at hpassed
  dsimp only at hpassed
  cases hquery : answers.query (countQuery kql) workspaceId token with
  | error failure =>
    rw [hquery] at hpassed
    dsimp only at hpassed
    exact absurd hpassed (by decide)
  | ok rows => exact ⟨rows, rfl⟩

/-- Gates that all pass clear the rule. -/
theorem cleared_of_allPassed {env : PromoteEnv X} {command : PromoteCommand}
    {access : WorkspaceAccess} (haccess : Accessed env command access) {i : Nat} {doc : Document X}
    {gates : List GateResult}
    (hgates : checkGates env.libs (env.answers i)
      { maxValidationAgeDays := command.maxValidationAgeDays, today := env.today
        threshold := env.threshold } access doc = some gates)
    (hpassed : allPassed gates = true) : Cleared env command doc := by
  unfold checkGates at hgates
  obtain ⟨fpRate, hfp, hgates⟩ := Option.bind_eq_some_iff.mp hgates
  obtain rfl := Option.some.inj hgates
  unfold allPassed at hpassed
  simp only [List.all_cons, List.all_nil, Bool.and_true, Bool.and_eq_true] at hpassed
  obtain ⟨hstatus, hvalid, hlive, hrate⟩ := hpassed
  refine ⟨?_, ?_, ?_⟩
  · simpa [gateCurrentlyExperimental] using hstatus
  · unfold gateRecentValidation at hvalid
    cases hday : lastValidated env.libs doc with
    | none => simp [hday] at hvalid
    | some day =>
      simp only [hday, Bool.or_false, decide_eq_true_eq] at hvalid
      exact ⟨day, rfl, by omega, by omega⟩
  · rcases haccess with hquery | ⟨error, herror, hne, hnone⟩ | ⟨workspaceId, token, husable, hid, htoken⟩
    · exact .inl hquery
    · exfalso
      have hfailed := noWorkspaceGate_failed "live_test_pass" hne
      unfold gateLiveTestPass at hlive
      rw [hnone, herror] at hlive
      rw [hfailed.1, hfailed.2] at hlive
      exact absurd hlive (by decide)
    · exact .inr ⟨workspaceId, token, i, hid, htoken, liveTest_passed husable hlive,
        fpRate_passed husable hfp hrate⟩

/-- What one promotion does to the files. -/
theorem promote_step {env : PromoteEnv X} {command : PromoteCommand} {access : WorkspaceAccess}
    {i : Nat} {ruleId : String} {tree next : FileTree} {report : PromotionReport}
    (h : promote env (env.answers i) command access ruleId tree = .ok (next, report)) :
    next = tree ∨ command.dryRun = false ∧ ∃ path text doc gates newText,
      tree.read path = some text ∧ env.libs.safeLoad text = some (.dict doc) ∧
      checkGates env.libs (env.answers i)
        { maxValidationAgeDays := command.maxValidationAgeDays, today := env.today
          threshold := env.threshold } access doc = some gates ∧
      (allPassed gates = true ∨ command.force = true) ∧ next = tree.write path newText := by
  unfold promote at h
  cases hfind : findEnvelope env tree ruleId with
  | none => simp [hfind] at h
  | some path =>
    rw [hfind] at h
    dsimp only at h
    cases hread : tree.read path with
    | none => simp [hread] at h
    | some text =>
      rw [hread] at h
      dsimp only at h
      split at h
      · exact absurd h (by simp)
      · next doc hload =>
        split at h
        · exact absurd h (by simp)
        · next gates hgates =>
          split_ifs at h with hstop hdry
          · exact .inl (Prod.mk.inj (Except.ok.inj h)).1.symm
          · exact .inl (Prod.mk.inj (Except.ok.inj h)).1.symm
          · split at h
            · exact absurd h (by simp)
            · split_ifs at h with hsame
              · exact .inl (Prod.mk.inj (Except.ok.inj h)).1.symm
              · refine .inr ⟨by simpa using hdry, path, text, doc, gates, _, hread, hload, hgates, ?_,
                  (Prod.mk.inj (Except.ok.inj h)).1.symm⟩
                cases hall : allPassed gates <;> simp_all
      · exact absurd h (by simp)

/-- What holds of every file that a run has changed. -/
def Justified (env : PromoteEnv X) (command : PromoteCommand) (tree final : FileTree) : Prop :=
  ∀ path, final.read path ≠ tree.read path → ∃ text doc, tree.read path = some text ∧
    env.libs.safeLoad text = some (.dict doc) ∧ Cleared env command doc

theorem Justified.refl (env : PromoteEnv X) (command : PromoteCommand) (tree : FileTree) :
    Justified env command tree tree := fun _ h => absurd rfl h

theorem Justified.trans {env : PromoteEnv X} {command : PromoteCommand} {tree next final : FileTree}
    (h : Justified env command tree next) (h' : Justified env command next final) :
    Justified env command tree final := by
  intro path hpath
  by_cases hnext : next.read path = tree.read path
  · rw [← hnext] at hpath ⊢
    exact h' path hpath
  · exact h path hnext

theorem justified_promote {env : PromoteEnv X} {command : PromoteCommand} {access : WorkspaceAccess}
    (haccess : Accessed env command access) (hforce : command.force = false) {i : Nat}
    {ruleId : String} {tree next : FileTree} {report : PromotionReport}
    (h : promote env (env.answers i) command access ruleId tree = .ok (next, report)) :
    Justified env command tree next := by
  rcases promote_step h with rfl | ⟨-, path, text, doc, gates, newText, hread, hload, hgates, hpass, rfl⟩
  · exact .refl env command next
  · intro path' hpath
    rw [Directory.read_write] at hpath
    split_ifs at hpath with heq
    · subst heq
      have hall : allPassed gates = true := by simpa [hforce] using hpass
      exact ⟨text, doc, hread, hload, cleared_of_allPassed haccess hgates hall⟩
    · exact absurd rfl hpath

theorem justified_promoteMany {env : PromoteEnv X} {command : PromoteCommand}
    {access : WorkspaceAccess} (haccess : Accessed env command access)
    (hforce : command.force = false) (i : Nat) (ruleIds : List String) (tree : FileTree) :
    Justified env command tree (promoteMany env command access i ruleIds tree).1 := by
  induction ruleIds generalizing i tree with
  | nil => exact .refl env command tree
  | cons ruleId ruleIds ih =>
    unfold promoteMany
    cases hstep : promote env (env.answers i) command access ruleId tree with
    | ok result => exact (justified_promote haccess hforce hstep).trans (ih (i + 1) result.1)
    | error e =>
      cases e with
      | lifecycle => exact ih (i + 1) tree
      | other => exact .refl env command tree

theorem dryRun_promoteMany {env : PromoteEnv X} {command : PromoteCommand} {access : WorkspaceAccess}
    (hdry : command.dryRun = true) (i : Nat) (ruleIds : List String) (tree : FileTree) :
    (promoteMany env command access i ruleIds tree).1 = tree := by
  induction ruleIds generalizing i tree with
  | nil => rfl
  | cons ruleId ruleIds ih =>
    unfold promoteMany
    cases hstep : promote env (env.answers i) command access ruleId tree with
    | ok result =>
      have hsame : result.1 = tree := by
        rcases promote_step hstep with h | ⟨hlive, -⟩
        · exact h
        · rw [hdry] at hlive
          exact absurd hlive (by decide)
      rw [← hsame]
      exact ih (i + 1) result.1
    | error e =>
      cases e with
      | lifecycle => exact ih (i + 1) tree
      | other => rfl

variable [Json.FloatText X]

/-- Promotion is fail-closed: without `--force` only cleared rules change, and with `--dry-run`
nothing does. The sign-in library does not hand out an empty token. -/
theorem promotion_failClosed (env : PromoteEnv X) (command : PromoteCommand) (tree : FileTree)
    (htoken : ∀ token, env.getToken = .ok token → token ≠ "") :
    (command.dryRun = true → (lifecyclePromoteCmd env command tree).1 = tree) ∧
      (command.force = false →
        ∀ path, (lifecyclePromoteCmd env command tree).1.read path ≠ tree.read path →
          ∃ text doc, tree.read path = some text ∧ env.libs.safeLoad text = some (.dict doc) ∧
            Cleared env command doc) := by
  have haccess := accessed_lookUpWorkspace env command htoken
  unfold lifecyclePromoteCmd
  dsimp only
  split_ifs with hselect
  · exact ⟨fun _ => rfl, fun _ => Justified.refl env command tree⟩
  · cases bulkRuleIds env command tree with
    | none => exact ⟨fun _ => rfl, fun _ => Justified.refl env command tree⟩
    | some bulk =>
      cases bulk with
      | some ruleIds =>
        exact ⟨fun hdry => dryRun_promoteMany hdry 0 ruleIds tree,
          fun hforce => justified_promoteMany haccess hforce 0 ruleIds tree⟩
      | none =>
        dsimp only
        cases hstep : promote env (env.answers 0) command (lookUpWorkspace env command)
            (command.ruleId.getD "") tree with
        | error e => exact ⟨fun _ => rfl, fun _ => Justified.refl env command tree⟩
        | ok result =>
          refine ⟨?_, fun hforce => justified_promote haccess hforce hstep⟩
          intro hdry
          rcases promote_step hstep with h | ⟨hlive, -⟩
          · exact h
          · rw [hdry] at hlive
            exact absurd hlive (by decide)

end

/-! ## A rule that is promoted -/

namespace Sample

/-- The only float of the example. -/
inductive Half where
  | half

instance : Value.ScalarEq Half := ⟨fun _ _ => true, fun _ _ => false⟩

instance : Json.FloatText Half where
  write _ := "0.5".toList
  read t := if t = "0.5".toList then some .half else none
  scan_write _ rest hrest := by
    cases rest with
    | nil => rfl
    | cons c rest =>
      have hc : c ∈ [',', ']', '}', ' ', '\t', '\n', '\r'] := by
        simpa [Json.isDelimiter] using hrest c rfl
      simp only [List.mem_cons, List.not_mem_nil, or_false] at hc
      rcases hc with rfl | rfl | rfl | rfl | rfl | rfl | rfl <;> rfl
  head_write _ c hc := by
    obtain rfl : '0' = c := by simpa using hc
    decide
  read_write _ := rfl

def base : Path := ["detections"]
def fooPath : Path := ["detections", "sentinel_analytic", "foo.yml"]

def fooText : Text :=
  "id: foo\nstatus: experimental\nmetadata:\n  lastValidatedAt: '2026-06-01'\npayload:
  query: SigninLogs\n".toList

def fooDocument : Value Half :=
  .dict [("id", .str "foo"), ("status", .str "experimental"), ("asset", .str "sentinel_analytic"),
    ("metadata", .dict [("lastValidatedAt", .str "2026-06-01")]),
    ("payload", .dict [("query", .str "SigninLogs")])]

def fooTree : FileTree := Directory.empty.write fooPath fooText

def libs : LifecycleLibs Half where
  safeLoad t := if t = fooText then some fooDocument else none
  dump _ := []
  laxInt _ := none
  ofText _ := none
  truncate _ := none
  divide _ _ := some .half
  le _ _ := true
  text _ := "0.5"
  lower := id
  isoDay s := if s = "2026-06-01" then some 739768 else none

/-- Signed in, with a workspace where the rule runs and has closed one incident as false positive. -/
def env : PromoteEnv Half where
  libs := libs
  walk := id
  cohort _ := none
  root := base
  today := 739770
  todayText := "2026-06-03".toList
  actor := "ci".toList
  threshold := .half
  getCredential := .ok ()
  resolveWorkspaceId := .ok (some "w")
  getToken := .ok "t"
  answers _ :=
    { query := fun _ _ _ => .ok []
      telemetry := fun _ _ => .ok [[("rule_key", .str "id:foo"), ("closed_fp_30d", .int 1)]] }

def command : PromoteCommand where
  ruleId := some "foo"
  maxValidationAgeDays := 30
  workspaceId := none
  noWorkspaceQuery := false
  force := false
  dryRun := false

end Sample
open Sample

theorem foo_promoted :
    (∀ token, env.getToken = .ok token → token ≠ "") ∧
      (lifecyclePromoteCmd env command fooTree).1.read fooPath ≠ fooTree.read fooPath ∧
      ∃ text doc, fooTree.read fooPath = some text ∧ libs.safeLoad text = some (.dict doc) ∧
        Cleared env command doc := by
  have htoken : ∀ token, env.getToken = .ok token → token ≠ "" := by
    intro token h
    obtain rfl := Except.ok.inj h
    decide
  have hchanged : (lifecyclePromoteCmd env command fooTree).1.read fooPath ≠ fooTree.read fooPath := by
    decide +kernel
  exact ⟨htoken, hchanged, (promotion_failClosed env command fooTree htoken).2 rfl fooPath hchanged⟩

end ContentOps.Lifecycle
