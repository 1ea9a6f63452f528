import ContentOps.Audit.Runs
import ContentOps.Cli.RetryFailed
import ContentOps.Library.FieldText
import ContentOps.Library.OptionMap
import Mathlib.Data.List.Sort

/-! `audit_query.py` over the files that the writer leaves: what `audit query` answers after any
run of calls. -/

namespace ContentOps.Audit
open PyData

structure QueryRow where
  timestamp : String
  asset : String
  id : String
  action : String
  status : String
  sha : String
  actor : String
  workflowRun : Option String
  message : Option String
  workspace : Option String
deriving DecidableEq, Repr

/-- The queries that return every record of a kind; `T` is the type of the points in time that
`--since` bounds. -/
inductive Query (T : Type) where
  | failures (since : Option T)
  | byActor (actor : String) (since : Option T)
  | rollbacks (since : Option T)
  | timeline (assetId : String)

section
variable {X : Type} [Value.ScalarEq X] (str : Value X → String)

/-- `_row_from`. -/
def rowFrom (rec : Dict String (Value X)) : QueryRow where
  timestamp := Value.textOf str rec "timestamp"
  asset := Value.textOf str rec "asset"
  id := Value.textOf str rec "id"
  action := Value.textOf str rec "action"
  status := Value.textOf str rec "status"
  sha := Value.textOf str rec "sha"
  actor := Value.textOf str rec "actor"
  workflowRun := Value.textOf? str rec "workflow_run"
  message := Value.textOf? str rec "message"
  workspace := Value.textOf? str rec "workspace"

variable {T : Type} [LinearOrder T] (instant : String → Option T)

/-- A timestamp in the window; `instant` reads it as a point in time. -/
def inWindow (since : Option T) (timestamp : String) : Bool :=
  match since with
  | none => true
  | some since => timestamp ≠ "" && ((instant timestamp).map fun ts => decide (since ≤ ts)).getD false

/-- `_within_since`. -/
def withinSince (since : Option T) (rec : Dict String (Value X)) : Bool :=
  match since, Value.get rec "timestamp" with
  | none, _ => true
  | some since, .str raw => inWindow instant (some since) raw
  | some _, _ => false

def Query.keeps (rec : Dict String (Value X)) : Query T → Bool
  | failures since =>
    (Value.get rec "status").pyEq (.str "failed") && withinSince instant since rec
  | byActor actor since => Value.textOf str rec "actor" = actor && withinSince instant since rec
  | rollbacks since =>
    "rollback to ".toList.isPrefixOf (Value.textOf str rec "message").toList &&
      withinSince instant since rec
  | timeline assetId => Value.textOf str rec "id" = assetId

variable [Json.FloatText X]

/-- `iter_records`. -/
def iterRecords (files : List Text) : List (Value X) :=
  (((files.flatMap Text.splitlines).map Text.strip).filter (· ≠ [])).filterMap Json.loads

def auditFiles (dir : AuditDir) : List Text := (dir.glob isJsonl).map Prod.snd

/-- The records of the files; `none` where a line reads as JSON and is no record. -/
def auditRecords (dir : AuditDir) : Option (List (Dict String (Value X))) :=
  (iterRecords (auditFiles dir)).mapM Value.dict?

/-- `query_failures`, `query_by_actor`, `query_rollbacks` and `query_timeline`. -/
def queryRows (query : Query T) (dir : AuditDir) : Option (List QueryRow) :=
  (auditRecords (X := X) dir).map fun records =>
    ((records.filter (query.keeps str instant ·)).map (rowFrom str)).insertionSort
      fun a b => a.timestamp ≤ b.timestamp

/-- One record of the walk in `query_latest`. -/
def latestStep (assetId : String) (latest : Option QueryRow × String)
    (rec : Dict String (Value X)) : Option QueryRow × String :=
  let ts := Value.textOf str rec "timestamp"
  if Value.textOf str rec "id" = assetId ∧ latest.2 < ts then (some (rowFrom str rec), ts)
  else latest

def queryLatest (assetId : String) (dir : AuditDir) : Option (List QueryRow) :=
  (auditRecords (X := X) dir).map fun records =>
    (records.foldl (latestStep str assetId) (none, "")).1.toList

end

/-! ## What the records that were written say -/

/-- The row of a written record. -/
def AuditRecord.row (r : AuditRecord) : QueryRow where
  timestamp := r.timestamp
  asset := r.asset
  id := r.id
  action := r.action
  status := r.status
  sha := r.sha
  actor := r.actor
  workflowRun := r.workflowRun.filter (· ≠ "")
  message := r.message.filter (· ≠ "")
  workspace := r.workspace.filter (· ≠ "")

def Query.selects {T : Type} [LinearOrder T] (instant : String → Option T) (r : AuditRecord) :
    Query T → Bool
  | failures since => r.status = "failed" && inWindow instant since r.timestamp
  | byActor actor since => r.actor = actor && inWindow instant since r.timestamp
  | rollbacks since =>
    "rollback to ".toList.isPrefixOf (r.message.getD "").toList &&
      inWindow instant since r.timestamp
  | timeline assetId => r.id = assetId

section
variable {X : Type} [Value.ScalarEq X] (str : Value X → String)

theorem rowFrom_asdict (r : AuditRecord) :
    rowFrom str (r.asdict : Dict String (Value X)) = r.row := by
  have htext : ∀ {key s : String}, (r.asdict : Dict String (Value X)).get? key = some (.str s) →
      Value.textOf str (r.asdict : Dict String (Value X)) key = s := Value.textOf_of_get? str
  have hoption : ∀ {key : String} {o : Option String},
      (r.asdict : Dict String (Value X)).get? key = some (.ofOption o) →
        Value.textOf? str (r.asdict : Dict String (Value X)) key = o.filter (· ≠ "") :=
    Value.textOf?_ofOption str
  simp only [rowFrom, AuditRecord.row, QueryRow.mk.injEq]
  exact ⟨htext rfl, htext rfl, htext rfl, htext rfl, htext rfl, htext rfl, htext rfl, hoption rfl,
    hoption rfl, hoption rfl⟩

variable {T : Type} [LinearOrder T] (instant : String → Option T)

omit [Value.ScalarEq X] in
theorem withinSince_asdict (since : Option T) (r : AuditRecord) :
    withinSince instant since (r.asdict : Dict String (Value X)) =
      inWindow instant since r.timestamp := by
  cases since <;> rfl

theorem keeps_asdict (query : Query T) (r : AuditRecord) :
    query.keeps str instant (r.asdict : Dict String (Value X)) = query.selects instant r := by
  have htext : ∀ {key s : String}, (r.asdict : Dict String (Value X)).get? key = some (.str s) →
      Value.textOf str (r.asdict : Dict String (Value X)) key = s := Value.textOf_of_get? str
  cases query with
  | failures since =>
    have hstatus : Value.get (r.asdict : Dict String (Value X)) "status" = .str r.status := rfl
    rw [Query.keeps, Query.selects, withinSince_asdict, hstatus, Value.pyEq_str_str]
  | byActor actor since => rw [Query.keeps, Query.selects, withinSince_asdict, htext rfl]
  | rollbacks since =>
    have hmessage : Value.textOf str (r.asdict : Dict String (Value X)) "message" =
        r.message.getD "" := Value.textOf_ofOption str rfl
    rw [Query.keeps, Query.selects, withinSince_asdict, hmessage]
  | timeline assetId => rw [Query.keeps, Query.selects, htext rfl]

theorem foldl_latestStep (assetId : String) {rs : List AuditRecord} {acc : Option QueryRow}
    {ts : String} (h : (ts :: rs.map AuditRecord.timestamp).Pairwise (· < ·)) :
    ((rs.map (AuditRecord.asdict (X := X))).foldl (latestStep str assetId) (acc, ts)).1 =
      ((rs.filter fun r => r.id = assetId).getLast?.map AuditRecord.row).or acc := by
  induction rs generalizing acc ts with
  | nil => rfl
  | cons r rs ih =>
    obtain ⟨hts, hrest⟩ := List.pairwise_cons.mp h
    have hlt : ts < r.timestamp := hts _ List.mem_cons_self
    have hid : Value.textOf str (r.asdict : Dict String (Value X)) "id" = r.id :=
      Value.textOf_of_get? str rfl
    have htimestamp : Value.textOf str (r.asdict : Dict String (Value X)) "timestamp" =
        r.timestamp := Value.textOf_of_get? str rfl
    rw [List.map_cons, List.foldl_cons, latestStep, hid, htimestamp]
    by_cases hmatch : r.id = assetId
    · rw [if_pos ⟨hmatch, hlt⟩, ih hrest, rowFrom_asdict, List.filter_cons_of_pos (by simpa),
        List.getLast?_cons]
      cases (rs.filter fun r => r.id = assetId).getLast? <;> rfl
    · rw [if_neg fun hboth => hmatch hboth.1, List.filter_cons_of_neg (by simpa)]
      refine ih (List.pairwise_cons.mpr ⟨fun t ht => hts t ?_, (List.pairwise_cons.mp hrest).2⟩)
      exact List.mem_cons_of_mem _ ht

variable [Json.FloatText X]

omit [Value.ScalarEq X] in
theorem strip_toJson (r : AuditRecord) : Text.strip (r.toJson X) = r.toJson X := by
  obtain ⟨mid, hmid⟩ := Json.dumps_dict_braces Json.compact (r.asdict : Dict String (Value X))
  rw [AuditRecord.toJson, hmid]
  exact Text.strip_eq_self (by decide) (by decide) mid

variable [Json.FloatLine X]

omit [Value.ScalarEq X] in
theorem Holds.auditRecords {dir : AuditDir} {rs : List AuditRecord} (h : Holds X dir rs) :
    auditRecords dir = some (rs.map AuditRecord.asdict : List (Dict String (Value X))) := by
  have hlines : ((auditFiles dir).flatMap Text.splitlines) = rs.map (·.toJson X) := by
    rw [← h.dirLines, Audit.dirLines, auditFiles, List.flatMap_map]
  have hvalues : (iterRecords (auditFiles dir) : List (Value X)) =
      (rs.map fun r => .dict r.asdict) := by
    have hstrip : rs.map (Text.strip ∘ fun r => r.toJson X) = rs.map (·.toJson X) :=
      List.map_congr_left fun r _ => strip_toJson r
    have hkept : (rs.map (·.toJson X)).filter (· ≠ []) = rs.map (·.toJson X) := by
      refine List.filter_eq_self.mpr fun line hline => ?_
      obtain ⟨r, -, rfl⟩ := List.mem_map.mp hline
      have hblank := r.isBlank_toJson (X := X)
      simp only [ne_eq, decide_not, Bool.not_eq_true', decide_eq_false_iff_not]
      rintro hnil
      rw [hnil] at hblank
      exact Bool.noConfusion hblank
    rw [iterRecords, hlines, List.map_map, hstrip, hkept, List.filterMap_map,
      ← List.filterMap_eq_map]
    exact List.filterMap_congr fun r _ => r.loads_toJson
  rw [Audit.auditRecords, hvalues, mapM_eq_some_iff]
  refine ⟨fun v hv => ?_, ?_⟩
  · obtain ⟨r, -, rfl⟩ := List.mem_map.mp hv
    rfl
  · rw [List.filterMap_map, ← List.filterMap_eq_map]
    rfl

/-! ## After a run -/

variable {sha256 : Text → BitVec 256}

theorem Holds.queryRows {dir : AuditDir} {rs : List AuditRecord} (h : Holds X dir rs)
    (hs : Sound X sha256 zeroHash "" rs) (query : Query T) :
    queryRows str instant query dir =
      some ((rs.filter (query.selects instant ·)).map AuditRecord.row) := by
  have hrows : ((rs.map AuditRecord.asdict).filter (query.keeps str instant ·)).map (rowFrom str) =
      (rs.filter (query.selects instant ·)).map AuditRecord.row := by
    rw [List.filter_map, List.map_map]
    have hselects : (fun r : AuditRecord => query.selects instant r) =
        (fun rec => query.keeps str instant rec) ∘ AuditRecord.asdict (X := X) :=
      funext fun r => (keeps_asdict str instant query r).symm
    rw [hselects]
    exact List.map_congr_left fun r _ => rowFrom_asdict str r
  rw [Audit.queryRows, h.auditRecords, Option.map_some, hrows]
  refine congrArg some (List.Pairwise.insertionSort_eq ?_)
  have hincreasing := (List.pairwise_cons.mp hs.increasing).2
  rw [List.pairwise_map] at hincreasing ⊢
  exact (hincreasing.imp fun hlt => le_of_lt hlt).filter _

theorem Holds.queryLatest {dir : AuditDir} {rs : List AuditRecord} (h : Holds X dir rs)
    (hs : Sound X sha256 zeroHash "" rs) (assetId : String) :
    queryLatest str assetId dir =
      some ((rs.filter fun r => r.id = assetId).getLast?.map AuditRecord.row).toList := by
  rw [Audit.queryLatest, h.auditRecords, Option.map_some, foldl_latestStep str assetId hs.increasing,
    Option.or_none]

omit [Value.ScalarEq X] [Json.FloatText X] [Json.FloatLine X] in
theorem asdict_injective : Function.Injective (AuditRecord.asdict (X := X)) := by
  intro r r' h
  have hoption : Function.Injective (Value.ofOption : Option String → Value X) := by
    intro a b hab
    cases a <;> cases b <;> simp_all [Value.ofOption]
  cases r
  cases r'
  simpa [AuditRecord.asdict, hoption.eq_iff] using h

omit [Value.ScalarEq X] in
theorem Holds.unique {dir : AuditDir} {rs rs' : List AuditRecord} (h : Holds X dir rs)
    (h' : Holds X dir rs') : rs = rs' := by
  have hrecords := h.auditRecords.symm.trans h'.auditRecords
  exact List.map_injective_iff.mpr asdict_injective (Option.some.inj hrecords)

omit [Value.ScalarEq X] in
/-- A call that fits in the calendar adds its batch, record by record. -/
theorem callStep_linked {run : Run} {used : Nat} {rs : List AuditRecord} {call : Call}
    (hg : run.Good X sha256 used rs) (hnames : NamesUpTo run.dir call.today)
    (hts : ∀ r ∈ call.records, PipelineTimestamp r.timestamp)
    (hfits : used + call.records.length ≤ lastYearMicroseconds) :
    ∃ chained, List.Forall₂ AuditRecord.LinkedAs call.records chained ∧
      Holds X (callStep X sha256 run call).dir (rs ++ chained) := by
  obtain ⟨chained, hchained, -⟩ := chainRecords_ok (X := X) sha256 (tailHash zeroHash rs) hfits
    (hg.within (by omega)).2.2 hts
  refine ⟨chained, chainRecords_linked hchained, ?_⟩
  have hadd := (hg.holds.congr (glob_replace run.dir call.today
    ((run.dir.read (fileName call.today)).getD [] ++ newBytes X chained))).append
      (isJsonl_fileName call.today) (by rw [glob_replace]; exact hnames) chained
  rw [read_replace] at hadd
  rw [callStep, writeRecords_of_holds hg.holds hg.sound, hchained]
  exact hadd

omit [Value.ScalarEq X] in
theorem foldl_callStep_linked {calls : List Call} {run : Run} {used : Nat} {rs : List AuditRecord}
    (hg : run.Good X sha256 used rs) (hdays : calls.Pairwise fun c d => c.today ≤ d.today)
    (hnames : ∀ c ∈ calls, NamesUpTo run.dir c.today)
    (hts : ∀ c ∈ calls, ∀ r ∈ c.records, PipelineTimestamp r.timestamp)
    (hfits : used + (calls.map (·.records.length)).sum ≤ lastYearMicroseconds) :
    ∃ added, List.Forall₂ AuditRecord.LinkedAs (calls.flatMap Call.records) added ∧
      Holds X (calls.foldl (callStep X sha256) run).dir (rs ++ added) ∧
      Sound X sha256 zeroHash "" (rs ++ added) := by
  induction calls generalizing run used rs with
  | nil => exact ⟨[], .nil, by simpa using hg.holds, by simpa using hg.sound⟩
  | cons call calls ih =>
    rw [List.pairwise_cons] at hdays
    rw [List.forall_mem_cons] at hnames hts
    rw [List.map_cons, List.sum_cons] at hfits
    obtain ⟨rs', hg', hlater⟩ := callStep_good hg hnames.1 hts.1
    obtain ⟨chained, hlinked, hholds⟩ := callStep_linked hg hnames.1 hts.1 (by omega)
    obtain rfl := hg'.holds.unique hholds
    obtain ⟨added, hadded, hdir, hsound⟩ := ih hg' hdays.2
      (fun d hd => hlater d.today (hdays.1 d hd) (hnames.2 d hd)) hts.2 (by omega)
    refine ⟨chained ++ added, ?_, ?_, ?_⟩
    · rw [List.flatMap_cons]
      exact List.rel_append hlinked hadded
    · rwa [List.foldl_cons, ← List.append_assoc]
    · rwa [← List.append_assoc]

variable (sha256) in
/-- After any calls, on days that do not go back, the queries answer with every record that was
offered and that they ask for, in the order it was offered, and the latest record of an id is the
last one offered. -/
theorem queries_after_calls (calls : List Call)
    (hdays : calls.Pairwise fun c d => c.today ≤ d.today)
    (hts : ∀ c ∈ calls, ∀ r ∈ c.records, PipelineTimestamp r.timestamp)
    (hfits : (calls.map (·.records.length)).sum ≤ lastYearMicroseconds) :
    ∃ written, List.Forall₂ AuditRecord.LinkedAs (calls.flatMap Call.records) written ∧
      (written.map AuditRecord.timestamp).Pairwise (· < ·) ∧
      (∀ query : Query T, queryRows str instant query (runCalls X sha256 calls).dir =
        some ((written.filter (query.selects instant ·)).map AuditRecord.row)) ∧
      ∀ assetId, queryLatest str assetId (runCalls X sha256 calls).dir =
        some ((written.filter fun r => r.id = assetId).getLast?.map AuditRecord.row).toList := by
  obtain ⟨written, hlinked, hholds, hsound⟩ := foldl_callStep_linked
    (Run.Good.init : Run.Good X sha256 {} 0 []) hdays (fun c _ => by simp [NamesUpTo]) hts
    (by rwa [Nat.zero_add])
  rw [List.nil_append] at hholds hsound
  exact ⟨written, hlinked, (List.pairwise_cons.mp hsound.increasing).2,
    fun query => hholds.queryRows str instant hsound query,
    fun assetId => hholds.queryLatest str hsound assetId⟩

theorem twoDays_pipeline : ∀ c ∈ twoDays, ∀ r ∈ c.records, PipelineTimestamp r.timestamp := by
  simp only [twoDays, sampleRecord, List.forall_mem_cons, List.not_mem_nil, false_imp_iff,
    implies_true, and_true]
  exact ⟨⟨⟨_, by decide, by decide, rfl⟩, ⟨_, by decide, by decide, rfl⟩⟩,
    ⟨_, by decide, by decide, rfl⟩⟩

theorem twoDays_days : twoDays.Pairwise fun c d => c.today ≤ d.today := by
  simp only [twoDays, List.pairwise_cons, List.mem_singleton, forall_eq, List.not_mem_nil,
    false_imp_iff, implies_true, List.Pairwise.nil, and_true]
  exact .inr ⟨rfl, .inl (by decide)⟩

/-- The clock goes back on the second day, and the record of that day is still the latest. -/
theorem queries_after_twoDays : ∃ row,
    queryLatest (fun _ : Value Empty => "") "suspicious-sign-in"
      (runCalls Empty positional twoDays).dir = some [row] ∧ row.action = "delete" := by
  obtain ⟨written, hlinked, -, -, hlatest⟩ := queries_after_calls (X := Empty) (T := String)
    (fun _ => "") some positional twoDays twoDays_days twoDays_pipeline (by decide)
  obtain ⟨r, updates, hr, hupdates, rfl⟩ := List.forall₂_cons_left_iff.mp hlinked
  obtain ⟨s, deletes, hs, hdeletes, rfl⟩ := List.forall₂_cons_left_iff.mp hupdates
  obtain ⟨t, others, ht, hothers, rfl⟩ := List.forall₂_cons_left_iff.mp hdeletes
  obtain rfl := List.forall₂_nil_left_iff.mp hothers
  have hid : ∀ {a b : AuditRecord}, a.LinkedAs b → b.id = a.id ∧ b.action = a.action := by
    intro a b hab
    rw [hab]
    exact ⟨rfl, rfl⟩
  refine ⟨t.row, ?_, (hid ht).2⟩
  rw [hlatest]
  have hids : r.id = "suspicious-sign-in" ∧ s.id = "suspicious-sign-in" ∧
      t.id = "suspicious-sign-in" := ⟨(hid hr).1, (hid hs).1, (hid ht).1⟩
  simp [hids]

omit [Json.FloatLine X] in
theorem failedPair_asdict (since : T) (r : AuditRecord) :
    failedPair (.since (inWindow instant (some since))) (r.asdict : Dict String (Value X)) =
      if (Query.failures (some since)).selects instant r && (r.asset ≠ "" && r.id ≠ "") then
        some (r.asset, r.id)
      else none := by
  have htext : ∀ s : String, recordText (.str s : Value X) = some s := by
    intro s
    by_cases hs : s = "" <;> simp [recordText, Value.truthy, hs]
  have hasset : Value.get (r.asdict : Dict String (Value X)) "asset" = .str r.asset := rfl
  have hid : Value.get (r.asdict : Dict String (Value X)) "id" = .str r.id := rfl
  have hstatus : Value.get (r.asdict : Dict String (Value X)) "status" = .str r.status := rfl
  have htimestamp : Value.textAt (r.asdict : Dict String (Value X)) "timestamp" = r.timestamp := rfl
  have hwindow : (r.timestamp ≠ "" && inWindow instant (some since) r.timestamp) =
      inWindow instant (some since) r.timestamp := by
    by_cases hts : r.timestamp = "" <;> simp [inWindow, hts]
  simp only [failedPair, Scope.matches, hasset, hid, hstatus, htimestamp, htext, hwindow,
    Value.pyEq_str_str, Query.selects, Option.bind_eq_bind, Option.bind_some]
  congr 1
  simp only [Bool.and_eq_true, eq_iff_iff]
  tauto

def oneFailure : List Call :=
  [⟨lastOfJanuary, [sampleRecord beforeMidnight "create",
    { sampleRecord beforeMidnight "update" with status := "failed" }]⟩]

end
end ContentOps.Audit
