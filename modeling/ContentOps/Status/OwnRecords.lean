import ContentOps.Core.DriftMatch
import ContentOps.Status.Deployments
import ContentOps.Library.OptionMap

/-! When the page and the report tell of an asset what its own audit records say. -/

namespace ContentOps.Status
open PyData Audit

section
variable {X : Type} [Value.ScalarEq X] {str : Value X → String} {rows : Rows} {kind id : String}

/-! ## The row of the page -/

theorem get?_latestAuditIndex (records : List (Document X)) :
    latestRecord str records id = if id = "" then none
      else latest (fun rec => textOr str rec "timestamp")
        (records.filter fun rec => textOr str rec "id" = id) := by
  have hpairs : ((indexed str records).filter fun p => p.1 = id).map (·.2) = if id = "" then []
      else records.filter fun rec => textOr str rec "id" = id := by
    unfold indexed
    rw [List.filter_filter, List.filter_map, List.map_map]
    have hid : ((·.2) ∘ fun rec : Document X => (textOr str rec "id", rec)) = fun rec => rec := rfl
    rw [hid, List.map_id']
    by_cases hempty : id = ""
    · rw [if_pos hempty, List.filter_eq_nil_iff]
      intro rec _
      simp [hempty]
    · rw [if_neg hempty]
      refine List.filter_congr fun rec _ => ?_
      by_cases hrec : textOr str rec "id" = id <;> simp [hrec, hempty]
  unfold latestRecord latestAuditIndex
  rw [get?_latestByKey, hpairs]
  split_ifs <;> rfl

theorem textOr_of_isOwn {rec : Document X} (h : isOwn kind id rec = true) :
    textOr str rec "id" = id := by
  unfold isOwn at h
  rw [Bool.and_eq_true, decide_eq_true_eq, decide_eq_true_eq] at h
  unfold textOr
  rw [Value.text?_eq_some h.2]

theorem latestRecord_ne_nil {records : List (Document X)} {r : Document X}
    (h : latestRecord str records id = some r) : r ≠ [] := by
  rw [get?_latestAuditIndex] at h
  split_ifs at h with hempty
  have hid := of_decide_eq_true (List.mem_filter.mp (latest_mem h)).2
  rintro rfl
  exact hempty hid.symm

/-- An own record that is the latest of the id is the latest own one. -/
theorem latestRecord_own {values : List (Value X)} {r : Document X}
    (h : latestRecord str (values.filterMap Value.dict?) id = some r)
    (hown : isOwn kind id r = true) :
    latestRecord str (ownRecords kind id values) id = some r := by
  rw [get?_latestAuditIndex] at h ⊢
  split_ifs at h ⊢ with hempty
  unfold ownRecords
  rw [List.filter_comm]
  exact latest_filter h hown

theorem latestRecord_own_none {values : List (Value X)}
    (h : latestRecord str (values.filterMap Value.dict?) id = none) :
    latestRecord str (ownRecords kind id values) id = none := by
  rw [get?_latestAuditIndex] at h ⊢
  split_ifs at h ⊢ with hempty
  · rfl
  · rw [latest_eq_none_iff] at h ⊢
    unfold ownRecords
    rw [List.filter_comm, h]
    rfl

/-- The class and the last-audit cell, from the data of the row and the record. -/
def shownRow (str : Value X → String) (data : RowData) (rec : Document X) :
    DeployClass × String :=
  (rowClass str data rec, if rec.isEmpty then "—" else auditText str rec)

theorem shownOf_deploymentTables (records : List (Document X)) :
    shownOf (deploymentTables str rows records) kind id =
      ((rows.get? kind).bind fun kindRows => kindRows.get? id).map fun data =>
        shownRow str data ((latestRecord str records id).getD []) := by
  have hrows : ∀ (kindRows : Dict String RowData) (index : Dict String (Document X)),
      (Dict.get? (kindRows.map fun p => (p.1, deploymentRow str index p.1 p.2)) id) =
        (kindRows.get? id).map fun data => deploymentRow str index id data := by
    intro kindRows index
    induction kindRows with
    | nil => rfl
    | cons p kindRows ih =>
      obtain ⟨key, data⟩ := p
      rw [List.map_cons, Dict.get?_cons, Dict.get?_cons]
      by_cases hkey : key = id
      · rw [if_pos hkey, if_pos hkey, hkey]
        rfl
      · rw [if_neg hkey, if_neg hkey, ih]
  unfold shownOf deploymentTables
  rw [Dict.get?_mapVals]
  cases rows.get? kind with
  | none => rfl
  | some kindRows =>
    simp only [Option.map_some, Option.bind_some]
    rw [hrows, Option.map_map]
    rfl

theorem shownRow_eq_iff {data : RowData} {r o : Document X} (hr : r ≠ []) (ho : o ≠ []) :
    shownRow str data r = shownRow str data o ↔ ReadsAs str data r o := by
  have hclass : rowClass str data r = rowClass str data o ↔
      (data.inGit = data.inState → data.stateStatus ≠ "failed" →
        (textOr str r "status" = "failed" ↔ textOr str o "status" = "failed")) := by
    unfold rowClass classify
    by_cases hstate : data.stateStatus = "failed"
    · simp [hstate]
    · by_cases hfr : textOr str r "status" = "failed" <;>
        by_cases hfo : textOr str o "status" = "failed" <;>
          cases data.inGit <;> cases data.inState <;> simp [hstate, hfr, hfo]
  unfold shownRow
  rw [Prod.mk.injEq, hclass, if_neg (by simpa using hr), if_neg (by simpa using ho)]
  exact ⟨fun h => ⟨h.2, h.1⟩, fun h => ⟨h.failed, h.text⟩⟩

/-- The cell of a record is never the dash that stands for none. -/
theorem shownRow_ne_nil {data : RowData} {r : Document X} (hr : r ≠ []) :
    shownRow str data r ≠ shownRow str data [] := by
  intro h
  have hcell : auditText str r = "—" := by
    have h2 := (Prod.mk.inj h).2
    rwa [if_neg (by simpa using hr), List.isEmpty_nil, if_pos rfl] at h2
  have hlast := congrArg (fun s : String => s.toList.getLast?) hcell
  unfold auditText at hlast
  simp only [String.toList_append, List.append_assoc] at hlast
  change ((_ ++ (_ ++ (_ ++ [')']))) : List Char).getLast? = some '—' at hlast
  rw [← List.append_assoc, ← List.append_assoc, List.getLast?_concat] at hlast
  exact absurd hlast (by decide)

theorem shown_iff (values : List (Value X)) :
    (∃ tables, renderDeployments str rows values = some tables ∧ shownOf tables kind id =
      shownOf (deploymentTables str rows (ownRecords kind id values)) kind id) ↔
    (∀ v ∈ values, (v.dict?).isSome = true) ∧
      ∀ data, (rows.get? kind).bind (fun kindRows => kindRows.get? id) = some data →
        ∀ r, latestRecord str (values.filterMap Value.dict?) id = some r →
          isOwn kind id r = false →
            ∃ o, latestRecord str (ownRecords kind id values) id = some o ∧
              ReadsAs str data r o := by
  have hrender : (∃ tables, renderDeployments str rows values = some tables ∧
      shownOf tables kind id =
        shownOf (deploymentTables str rows (ownRecords kind id values)) kind id) ↔
      (∀ v ∈ values, (v.dict?).isSome = true) ∧
        shownOf (deploymentTables str rows (values.filterMap Value.dict?)) kind id =
          shownOf (deploymentTables str rows (ownRecords kind id values)) kind id := by
    unfold renderDeployments
    constructor
    · rintro ⟨tables, htables, heq⟩
      obtain ⟨records, hrecords, rfl⟩ := Option.map_eq_some_iff.mp htables
      obtain ⟨hall, rfl⟩ := mapM_eq_some_iff.mp hrecords
      exact ⟨hall, heq⟩
    · rintro ⟨hall, heq⟩
      rw [mapM_eq_some_iff.mpr ⟨hall, rfl⟩]
      exact ⟨_, rfl, heq⟩
  rw [hrender, shownOf_deploymentTables, shownOf_deploymentTables]
  refine and_congr_right fun _ => ?_
  cases (rows.get? kind).bind fun kindRows => kindRows.get? id with
  | none => simp
  | some data =>
    rw [Option.map_some, Option.map_some, Option.some.injEq]
    simp only [Option.some.injEq, forall_eq']
    cases hall : latestRecord str (values.filterMap Value.dict?) id with
    | none =>
      rw [latestRecord_own_none hall]
      exact iff_of_true rfl fun r hr => absurd hr.symm (Option.some_ne_none r)
    | some r =>
      have hr := latestRecord_ne_nil hall
      simp only [Option.some.injEq, forall_eq', Option.getD_some]
      -- Only where the record that is shown is not the asset's own can the two differ.
      cases hown : isOwn kind id r with
      | true =>
        rw [latestRecord_own hall hown]
        exact iff_of_true rfl fun h => absurd h.symm Bool.false_ne_true
      | false =>
        cases hlast : latestRecord str (ownRecords kind id values) id with
        | none =>
          refine iff_of_false (shownRow_ne_nil hr) fun h => ?_
          obtain ⟨o, ho, -⟩ := h rfl
          exact absurd ho.symm (Option.some_ne_none o)
        | some o =>
          have ho := latestRecord_ne_nil hlast
          rw [Option.getD_some, shownRow_eq_iff hr ho]
          exact ⟨fun h _ => ⟨o, rfl, h⟩, fun h => by
            obtain ⟨o', ho', hreads⟩ := h rfl
            rwa [← Option.some.inj ho'] at hreads⟩

/-! ## The deployment date -/

omit [Value.ScalarEq X] in
theorem ownDate_eq_some {v : Value X} {ts : String} (h : ownDate kind id v = some ts) :
    deployPair v = some (id, ts) := by
  unfold ownDate at h
  obtain ⟨rec', hrec, h⟩ := Option.bind_eq_some_iff.mp h
  obtain ⟨⟨ruleId, date⟩, hpair, h⟩ := Option.bind_eq_some_iff.mp h
  dsimp only at h
  split_ifs at h with hown
  obtain rfl := Option.some.inj h
  have hid : (Value.get rec' "id").text? = some ruleId := by
    unfold deployPair at hpair
    simp only [hrec, Option.bind_eq_bind, Option.bind_some] at hpair
    obtain ⟨status, -, hpair⟩ := Option.bind_eq_some_iff.mp hpair
    split_ifs at hpair
    obtain ⟨ruleId', hruleId, hpair⟩ := Option.bind_eq_some_iff.mp hpair
    obtain ⟨ts', -, hpair⟩ := Option.bind_eq_some_iff.mp hpair
    rw [hruleId, (Prod.mk.inj (Option.some.inj hpair)).1]
  have hmine := hown.1
  unfold isOwn at hmine
  rw [Bool.and_eq_true, decide_eq_true_eq, decide_eq_true_eq, hid] at hmine
  rw [hpair, Option.some.inj hmine.2]

omit [Value.ScalarEq X] in
theorem get?_auditDeployDates (values : List (Value X)) :
    (auditDeployDates values).get? id = latest (fun ts : String => ts)
      (((values.filterMap deployPair).filter fun p => p.1 = id).map (·.2)) :=
  get?_latestByKey _ _ _

omit [Value.ScalarEq X] in
theorem isGreatest_date_iff (values : List (Value X)) :
    IsGreatest (values.filterMap (ownDate kind id)) ((auditDeployDates values).get? id) ↔
      ∀ v ∈ values, ∀ ts, deployPair v = some (id, ts) → ownDate kind id v = none →
        ∃ d ∈ values.filterMap (ownDate kind id), ts ≤ d := by
  have hmem : ∀ ts, ts ∈ ((values.filterMap deployPair).filter fun p => p.1 = id).map (·.2) ↔
      ∃ v ∈ values, deployPair v = some (id, ts) := by
    intro ts
    simp only [List.mem_map, List.mem_filter, List.mem_filterMap, decide_eq_true_eq]
    constructor
    · rintro ⟨⟨ruleId, date⟩, ⟨⟨v, hv, hpair⟩, rfl⟩, rfl⟩
      exact ⟨v, hv, hpair⟩
    · rintro ⟨v, hv, hpair⟩
      exact ⟨(id, ts), ⟨⟨v, hv, hpair⟩, rfl⟩, rfl⟩
  have hsub : ∀ ts ∈ values.filterMap (ownDate kind id),
      ts ∈ ((values.filterMap deployPair).filter fun p => p.1 = id).map (·.2) := by
    intro ts hts
    obtain ⟨v, hv, hdate⟩ := List.mem_filterMap.mp hts
    exact (hmem ts).mpr ⟨v, hv, ownDate_eq_some hdate⟩
  rw [get?_auditDeployDates]
  cases hlatest : latest (fun ts : String => ts)
      (((values.filterMap deployPair).filter fun p => p.1 = id).map (·.2)) with
  | none =>
    have hnil := latest_eq_none_iff.mp hlatest
    rw [hnil] at hmem hsub
    refine iff_of_true (List.eq_nil_iff_forall_not_mem.mpr fun ts hts => ?_) fun v hv ts hpair => ?_
    · exact absurd (hsub ts hts) List.not_mem_nil
    · exact absurd ((hmem ts).mpr ⟨v, hv, hpair⟩) List.not_mem_nil
  | some date =>
    have hle := le_of_latest hlatest
    constructor
    · rintro ⟨hdate, -⟩ v hv ts hpair -
      exact ⟨date, hdate, hle ts ((hmem ts).mpr ⟨v, hv, hpair⟩)⟩
    · intro hothers
      refine ⟨?_, fun d hd => hle d (hsub d hd)⟩
      obtain ⟨v, hv, hpair⟩ := (hmem date).mp (latest_mem hlatest)
      cases hown : ownDate kind id v with
      | some ts =>
        have heq := (ownDate_eq_some hown).symm.trans hpair
        obtain ⟨-, rfl⟩ := Prod.mk.inj (Option.some.inj heq)
        exact List.mem_filterMap.mpr ⟨v, hv, hown⟩
      | none =>
        -- A date that is not the asset's own is then the same as one that is.
        obtain ⟨d, hd, hdate⟩ := hothers v hv date hpair hown
        rwa [le_antisymm hdate (hle d (hsub d hd))]

omit [Value.ScalarEq X] in
theorem date_iff (corpus : List CorpusEntry) (values : List (Value X)) :
    (∀ row ∈ reportRows corpus values, row.assetKind = kind → row.ruleId = id →
      IsGreatest (values.filterMap (ownDate kind id)) row.deploymentDate) ↔
    ((∃ entry ∈ corpus, entry.asset.value = kind ∧ entry.id = id) →
      ∀ v ∈ values, ∀ ts, deployPair v = some (id, ts) → ownDate kind id v = none →
        ∃ d ∈ values.filterMap (ownDate kind id), ts ≤ d) := by
  rw [← isGreatest_date_iff]
  constructor
  · rintro h ⟨entry, hentry, hkind, rfl⟩
    exact h _ (List.mem_map.mpr ⟨entry, hentry, rfl⟩) hkind rfl
  · intro h row hrow hkind hid
    obtain ⟨entry, hentry, rfl⟩ := List.mem_map.mp hrow
    have hdate := h ⟨entry, hentry, hkind, hid⟩
    rw [← hid] at hdate ⊢
    exact hdate

theorem fromOwnRecords_iff (corpus : List CorpusEntry) (values : List (Value X)) :
    FromOwnRecords str rows corpus kind id values ↔
      Undisturbed str rows corpus kind id values := by
  constructor
  · rintro ⟨hshown, hdate⟩
    obtain ⟨hrecords, hlatest⟩ := (shown_iff values).mp hshown
    exact ⟨hrecords, hlatest, (date_iff corpus values).mp hdate⟩
  · rintro ⟨hrecords, hlatest, hdates⟩
    exact ⟨(shown_iff values).mpr ⟨hrecords, hlatest⟩, (date_iff corpus values).mpr hdates⟩

/-! ## Two chains -/

omit [Value.ScalarEq X] in
theorem filterMap_ownDate (values : List (Value X)) :
    values.filterMap (ownDate kind id) =
      (ownRecords kind id values).filterMap fun rec => ownDate kind id (.dict rec) := by
  unfold ownRecords
  rw [List.filterMap_filter, List.filterMap_filterMap]
  refine List.filterMap_congr fun v _ => ?_
  cases hv : v.dict? with
  | none =>
    unfold ownDate
    rw [hv]
    rfl
  | some rec =>
    obtain rfl := Value.dict?_eq_some hv
    rw [Option.bind_some]
    cases hown : isOwn kind id rec with
    | true => rw [if_pos rfl]
    | false =>
      rw [if_neg Bool.false_ne_true]
      unfold ownDate
      simp [hown]

theorem IsGreatest.unique {dates : List String} {o o' : Option String} (h : IsGreatest dates o)
    (h' : IsGreatest dates o') : o = o' := by
  cases o with
  | none =>
    obtain rfl : dates = [] := h
    cases o' with
    | none => rfl
    | some d => exact absurd h'.1 List.not_mem_nil
  | some d =>
    cases o' with
    | none =>
      obtain rfl : dates = [] := h'
      exact absurd h.1 List.not_mem_nil
    | some d' => rw [le_antisymm (h'.2 d h.1) (h.2 d' h'.1)]

/-- The page and the report say the same of the asset. -/
structure SameStatus (str : Value X → String) (rows : Rows) (corpus : List CorpusEntry)
    (kind id : String) (values values' : List (Value X)) : Prop where
  shown : (renderDeployments str rows values).map (shownOf · kind id) =
    (renderDeployments str rows values').map (shownOf · kind id)
  date : ∀ row ∈ reportRows corpus values, ∀ row' ∈ reportRows corpus values',
    row.assetKind = kind → row.ruleId = id → row'.assetKind = kind → row'.ruleId = id →
      row.deploymentDate = row'.deploymentDate

theorem FromOwnRecords.same {corpus : List CorpusEntry} {values values' : List (Value X)}
    (h : FromOwnRecords str rows corpus kind id values)
    (h' : FromOwnRecords str rows corpus kind id values')
    (hagree : ownRecords kind id values = ownRecords kind id values') :
    SameStatus str rows corpus kind id values values' := by
  constructor
  · obtain ⟨tables, htables, hshown⟩ := h.shown
    obtain ⟨tables', htables', hshown'⟩ := h'.shown
    rw [htables, htables', Option.map_some, Option.map_some, hshown, hshown', hagree]
  · intro row hrow row' hrow' hkind hid hkind' hid'
    have hdate := h.date row hrow hkind hid
    have hdate' := h'.date row' hrow' hkind' hid'
    rw [filterMap_ownDate, hagree, ← filterMap_ownDate] at hdate
    exact hdate.unique hdate'

variable [Json.FloatText X]

/-- What the page and the report show of an asset comes from its own records iff no other record
gets between, and then chains that agree on these records show the same. -/
theorem auditStatus_own_iff (str : Value X → String) (libs : Libs X) (tree : FileTree)
    (detectionsRoot : Path) (state : EnvState) (corpus : List CorpusEntry) (kind id : String)
    (dir : AuditDir) :
    let rows := discoverKinds libs tree detectionsRoot state
    (FromOwnRecords str rows corpus kind id (auditValues dir) ↔
      Undisturbed str rows corpus kind id (auditValues dir)) ∧
    ∀ dir' : AuditDir, ownRecords kind id (auditValues dir : List (Value X)) =
        ownRecords kind id (auditValues dir') →
      Undisturbed str rows corpus kind id (auditValues dir) →
      Undisturbed str rows corpus kind id (auditValues dir') →
        SameStatus str rows corpus kind id (auditValues dir) (auditValues dir') := by
  refine ⟨fromOwnRecords_iff corpus _, fun dir' hagree h h' => ?_⟩
  have hown := (fromOwnRecords_iff corpus _).mpr h
  exact hown.same ((fromOwnRecords_iff corpus _).mpr h') hagree

end
/-! ## A hunting query of the same id, and a deleted rule -/

namespace Sample
open ContentOps.Sample

def chainRecord (asset action status timestamp : String) : AuditRecord where
  timestamp := timestamp
  asset := asset
  id := "foo"
  action := action
  status := status
  sha := "0f3c9a1"
  actor := "ci"
  workflowRun := none
  message := none
  metadataOwner := none

def chain (records : List AuditRecord) : AuditDir :=
  Directory.empty.write "2026-03-02.jsonl" (Text.unlines (records.map (·.toJson Empty)))

/-- The rule is deployed, and then the hunting query of its id fails. -/
def otherKind : AuditDir := chain
  [chainRecord "sentinel_analytic" "create" "success" "2026-03-02T09:00:00.000000Z",
    chainRecord "sentinel_hunting" "create" "failed" "2026-03-02T10:00:00.000000Z"]

/-- The rule was pruned and has not been deployed. -/
def pruned : AuditDir := chain
  [chainRecord "sentinel_analytic" "delete" "success" "2026-03-02T11:00:00.000000Z"]

def deployed : EnvState := EnvState.remember { env := "prod" } "sentinel_analytic" "foo" "" "0f3c9a1"
  "success" "2026-03-02T09:00:00.000000Z"

def fooRows : Rows := discoverKinds libs fooTree base deployed

def str : Value Empty → String := fun _ => ""

end Sample
open ContentOps.Status.Sample

theorem otherKind_shown_failed :
    (renderDeployments str fooRows (auditValues otherKind)).map
        (shownOf · "sentinel_analytic" "foo") = some (some (.failed, "create (failed)")) ∧
      shownOf (deploymentTables str fooRows (ownRecords "sentinel_analytic" "foo"
        (auditValues otherKind))) "sentinel_analytic" "foo" =
          some (.inSync, "create (success)") ∧
      (auditDeployDates (auditValues pruned : List (Value Empty))).get? "foo" =
        some "2026-03-02T11:00:00.000000Z" ∧
      (auditValues pruned : List (Value Empty)).filterMap (ownDate "sentinel_analytic" "foo") =
        [] ∧
      ¬ FromOwnRecords str fooRows [] "sentinel_analytic" "foo" (auditValues otherKind) := by
  have hshown : (renderDeployments str fooRows (auditValues otherKind)).map
      (shownOf · "sentinel_analytic" "foo") = some (some (.failed, "create (failed)")) := by
    decide +kernel
  have hown : shownOf (deploymentTables str fooRows (ownRecords "sentinel_analytic" "foo"
      (auditValues otherKind))) "sentinel_analytic" "foo" =
        some (.inSync, "create (success)") := by
    decide +kernel
  refine ⟨hshown, hown, by decide +kernel, by decide +kernel, fun h => ?_⟩
  obtain ⟨tables, htables, heq⟩ := h.shown
  rw [htables, Option.map_some, heq, hown] at hshown
  exact absurd hshown (by decide)

end ContentOps.Status
