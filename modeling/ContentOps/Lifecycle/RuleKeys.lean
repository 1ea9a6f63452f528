import ContentOps.Core.Drift
import ContentOps.Library.Grouping
import Mathlib

/-! The telemetry rows of a rule, `rule_keys.py`: the keys a rule can appear under, and the rows
found under them added up. -/

namespace ContentOps
open PyData

/-- What Python's numbers and texts do that a value alone does not say: `int` of a text and of
another number, true division, `<=`, `str` of a scalar and `str.lower`; `none` is an exception. -/
structure Numbers (X : Type) where
  ofText : String → Option Int
  truncate : X → Option Int
  divide : Int → Int → Option X
  le : X → X → Bool
  text : X → String
  lower : String → String

section
variable {X : Type} (py : Numbers X)

abbrev Row (X : Type) := Dict String (Value X)

/-! ## The keys -/

def isHexDigit (c : Char) : Bool :=
  c.isDigit || ('a' ≤ c && c ≤ 'f') || ('A' ≤ c && c ≤ 'F')

def isGuidText (t : Text) : Bool :=
  t.length = 36 && t.zipIdx.all fun (c, i) => if i ∈ [8, 13, 18, 23] then c = '-' else isHexDigit c

/-- What follows a workspace prefix, as `_WORKSPACE_PREFIX` matches it. -/
def afterWorkspacePrefix (t : Text) : Option Text :=
  match t.drop 36 with
  | '_' :: rest =>
    let body := if rest.getLast? = some '\n' then rest.dropLast else rest
    if isGuidText (t.take 36) ∧ body ≠ [] ∧ '\n' ∉ body then some body else none
  | _ => none

/-- `normalise_rule_id`. -/
def normaliseRuleId (value : Value X) : Option String :=
  value.text?.bind fun s =>
    let text := (Text.strip s.toList).rdropWhile (· = '/')
    if text = [] then none
    else
      let text := ((text.splitOn '/').getLast?).getD []
      let text := (afterWorkspacePrefix text).getD text
      let id := py.lower (String.ofList text)
      if id = "" then none else some id

/-- `normalise_rule_name`. -/
def normaliseRuleName (value : Value X) : Option String :=
  value.text?.bind fun s =>
    let name := py.lower (String.ofList (Text.strip s.toList))
    if name = "" then none else some name

/-- `_dedupe`. -/
def dedupeTexts (values : List (Option String)) : List String :=
  (Dict.ofPairs (((values.filterMap id).filter (· ≠ "")).map (·, ()))).keys

theorem nodup_dedupeTexts (values : List (Option String)) : (dedupeTexts values).Nodup :=
  Dict.nodup_keys_ofPairs _

structure RuleKeys where
  ids : List String
  names : List String

structure RuleKeys.Distinct (keys : RuleKeys) : Prop where
  ids : keys.ids.Nodup
  names : keys.names.Nodup

def dictAt (d : Document X) (key : String) : Document X := ((Value.get d key).dict?).getD []

/-- `_defender_alert_title`. -/
def defenderAlertTitle (payload : Document X) : Value X :=
  Value.get (dictAt (dictAt payload "detectionAction") "alertTemplate") "title"

/-- `rule_keys_from_raw`. -/
def ruleKeysFromRaw (doc : Document X) : RuleKeys :=
  let payload := dictAt doc "payload"
  let names := [Value.get payload "displayName", Value.get payload "DisplayName"] ++
    if Value.textAt doc "asset" = Asset.defenderCustomDetection.value then
      [defenderAlertTitle payload] else []
  let resource := orText (Value.textAt (dictAt doc "metadata") "arm_name") (Value.textAt doc "id")
  { ids := dedupeTexts [normaliseRuleId py (.str resource : Value X)]
    names := dedupeTexts (names.map (normaliseRuleName py)) }

theorem distinct_ruleKeysFromRaw (doc : Document X) : (ruleKeysFromRaw py doc).Distinct := by
  unfold ruleKeysFromRaw
  constructor
  · apply nodup_dedupeTexts
  · apply nodup_dedupeTexts

/-! ## The index -/

def afterPrefix? (start s : String) : Option String :=
  if start.toList <+: s.toList then some (String.ofList (s.toList.drop start.length)) else none

def idPrefix : String := "id:"
def namePrefix : String := "name:"

def Row.idKey (row : Row X) : Option String := afterPrefix? idPrefix (Value.textAt row "rule_key")

def Row.nameKey (row : Row X) : Option String :=
  if (Row.idKey row).isSome then none
  else (afterPrefix? namePrefix (Value.textAt row "rule_key")).or
    (normaliseRuleName py (Value.get row "rule_name"))

def Row.idRowName (row : Row X) : Option String :=
  if (Row.idKey row).isSome then normaliseRuleName py (Value.get row "rule_name") else none

/-- A row and its identity. -/
abbrev Numbered (X : Type) := Nat × Row X

structure TelemetryIndex (X : Type) where
  byId : Dict String (List (Numbered X))
  byName : Dict String (List (Numbered X))
  byIdRowName : Dict String (List (Numbered X))

def numbered (rows : List (Row X)) : List (Numbered X) := rows.zipIdx.map fun (row, i) => (i, row)

def TelemetryIndex.ofRows (rows : List (Row X)) : TelemetryIndex X where
  byId := Dict.group (fun r => Row.idKey r.2) (numbered rows)
  byName := Dict.group (fun r => Row.nameKey py r.2) (numbered rows)
  byIdRowName := Dict.group (fun r => Row.idRowName py r.2) (numbered rows)

/-- `_unique`. -/
def uniqueRows (rows : List (Numbered X)) : List (Row X) := (Dict.ofPairs rows).map (·.2)

def rowsUnder (index : Dict String (List (Numbered X))) (keys : List String) : List (Numbered X) :=
  keys.flatMap fun k => (index.get? k).getD []

def TelemetryIndex.rowsFor (index : TelemetryIndex X) (keys : RuleKeys) : List (Row X) :=
  let own := uniqueRows (rowsUnder index.byId keys.ids ++ rowsUnder index.byName keys.names)
  if own = [] then uniqueRows (rowsUnder index.byIdRowName keys.names) else own

/-! ## The rows of a rule -/

/-- A row under an id or a name of the rule. -/
def Row.IsOwn (keys : RuleKeys) (row : Row X) : Prop :=
  (∃ i ∈ keys.ids, Row.idKey row = some i) ∨ ∃ n ∈ keys.names, Row.nameKey py row = some n

/-- A row under another id that has a name of the rule. -/
def Row.IsNamed (keys : RuleKeys) (row : Row X) : Prop :=
  ∃ n ∈ keys.names, Row.idRowName py row = some n

instance (keys : RuleKeys) (row : Row X) : Decidable (Row.IsOwn py keys row) :=
  inferInstanceAs (Decidable (_ ∨ _))

instance (keys : RuleKeys) (row : Row X) : Decidable (Row.IsNamed py keys row) :=
  inferInstanceAs (Decidable (∃ n ∈ keys.names, Row.idRowName py row = some n))

/-- The rows that count for a rule: its own, and where it has none those with its name. -/
def ruleRows (rows : List (Row X)) (keys : RuleKeys) : List (Row X) :=
  let own := rows.filter fun row => Row.IsOwn py keys row
  if own = [] then rows.filter fun row => Row.IsNamed py keys row else own

variable {py}

theorem map_numbered (rows : List (Row X)) : (numbered rows).map (·.2) = rows := by
  unfold numbered
  rw [List.map_map]
  exact List.zipIdx_map_fst 0 rows

theorem nodup_keys_numbered (rows : List (Row X)) : (Dict.keys (numbered rows)).Nodup := by
  unfold Dict.keys numbered
  rw [List.map_map, show (Prod.fst ∘ fun (x : Row X × Nat) => (x.2, x.1)) = Prod.snd from rfl,
    List.zipIdx_map_snd]
  exact List.nodup_range'

/-- Each row counts once, however often and in whatever order its keys find it. -/
theorem uniqueRows_perm {found all : List (Numbered X)} {p : Row X → Prop} [DecidablePred p]
    (hkeys : (Dict.keys all).Nodup) (hmem : ∀ r, r ∈ found ↔ r ∈ all ∧ p r.2) :
    (uniqueRows found).Perm ((all.map (·.2)).filter p) := by
  have hfound : (Dict.ofPairs found).Nodup := .of_map _ (Dict.nodup_keys_ofPairs found)
  have hall : all.Nodup := .of_map _ hkeys
  have hperm : (Dict.ofPairs found).Perm (all.filter fun r => p r.2) := by
    rw [List.perm_ext_iff_of_nodup hfound (hall.filter _)]
    intro r
    rw [List.mem_filter, decide_eq_true_eq, ← hmem]
    refine ⟨Dict.mem_ofPairs, ?_⟩
    intro hr
    obtain ⟨r', hr', hsame⟩ := List.mem_map.mp
      (Dict.mem_keys_ofPairs.mpr (List.mem_map_of_mem hr))
    -- What is kept under the number of a row is the row itself.
    have heq : r' = r := List.inj_on_of_nodup_map hkeys
      ((hmem r').mp (Dict.mem_ofPairs hr')).1 ((hmem r).mp hr).1 hsame
    rwa [heq] at hr'
  unfold uniqueRows
  rw [List.filter_map]
  exact hperm.map _

theorem mem_rowsUnder (key : Row X → Option String) (rows : List (Numbered X)) (ks : List String)
    (r : Numbered X) :
    r ∈ rowsUnder (Dict.group (fun r => key r.2) rows) ks ↔
      r ∈ rows ∧ ∃ k ∈ ks, key r.2 = some k := by
  unfold rowsUnder
  simp only [Dict.get?_group, List.mem_flatMap, List.mem_filter, decide_eq_true_eq]
  tauto

/-- The index finds the rows of a rule. -/
theorem rowsFor_perm (rows : List (Row X)) (keys : RuleKeys) :
    ((TelemetryIndex.ofRows py rows).rowsFor keys).Perm (ruleRows py rows keys) := by
  let index := TelemetryIndex.ofRows py rows
  have hown : (uniqueRows (rowsUnder index.byId keys.ids ++ rowsUnder index.byName keys.names)).Perm
      (rows.filter fun row => Row.IsOwn py keys row) := by
    have hfound : ∀ r, r ∈ rowsUnder index.byId keys.ids ++ rowsUnder index.byName keys.names ↔
        r ∈ numbered rows ∧ Row.IsOwn py keys r.2 := by
      intro r
      have hid := mem_rowsUnder Row.idKey (numbered rows) keys.ids r
      have hname := mem_rowsUnder (Row.nameKey py) (numbered rows) keys.names r
      rw [List.mem_append]
      exact (or_congr hid hname).trans and_or_left.symm
    have hrows := uniqueRows_perm (nodup_keys_numbered rows) hfound
    rwa [map_numbered] at hrows
  have hnamed : (uniqueRows (rowsUnder index.byIdRowName keys.names)).Perm
      (rows.filter fun row => Row.IsNamed py keys row) := by
    have hrows := uniqueRows_perm (p := Row.IsNamed py keys) (nodup_keys_numbered rows)
      (mem_rowsUnder (Row.idRowName py) (numbered rows) keys.names)
    rwa [map_numbered] at hrows
  unfold TelemetryIndex.rowsFor ruleRows
  dsimp only
  by_cases hnone : rows.filter (fun row => Row.IsOwn py keys row) = []
  · have hempty := hown
    rw [hnone] at hempty
    rw [if_pos hempty.eq_nil, if_pos hnone]
    exact hnamed
  · have hne : uniqueRows (rowsUnder index.byId keys.ids ++ rowsUnder index.byName keys.names) ≠ [] := by
      intro hempty
      rw [hempty] at hown
      exact hnone hown.nil_eq.symm
    rw [if_neg hne, if_neg hnone]
    exact hown

/-! ## Rows added up -/

variable (py) [Value.ScalarEq X]

def countColumns : List String :=
  ["alerts_30d", "incidents_30d", "closed_tp_30d", "closed_fp_30d", "closed_bp_30d"]

/-- `int(v)`. -/
def Numbers.toInt : Value X → Option Int
  | .int n => some n
  | .bool b => some (Value.ofBool b)
  | .str s => py.ofText s
  | .scalar x => py.truncate x
  | _ => none

/-- `int(row.get(column) or 0)`. -/
def Row.count (row : Row X) (column : String) : Option Int :=
  let v := Value.get row column
  if v.truthy then py.toInt v else some 0

def mergeColumn (rows : List (Row X)) (merged : Row X) (column : String) : Option (Row X) :=
  if ∀ row ∈ rows, Value.get row column matches .null then some merged
  else (rows.mapM fun row => Row.count py row column).map fun counts =>
    merged.set column (.int counts.sum)

/-- `merge_rows` of one row or more; `none` is an exception. -/
def mergeRows (rows : List (Row X)) : Option (Row X) := do
  countColumns.foldlM (mergeColumn py rows) (← rows.head?)

/-- `lookup`: nothing for a rule without rows. -/
def TelemetryIndex.lookup (index : TelemetryIndex X) (keys : RuleKeys) : Option (Option (Row X)) :=
  let rows := index.rowsFor keys
  if rows = [] then some none else (mergeRows py rows).map some

/-- `closed_fp_rate`. -/
def closedFpRate (row : Row X) : Option (Option X) := do
  let tp ← Row.count py row "closed_tp_30d"
  let fp ← Row.count py row "closed_fp_30d"
  let bp ← Row.count py row "closed_bp_30d"
  if tp + fp + bp = 0 then some none else (py.divide fp (tp + fp + bp)).map some

/-- A column of some rows added up; `none` is an exception. -/
def columnTotal (rows : List (Row X)) (column : String) : Option Int :=
  (rows.mapM fun row => Row.count py row column).map List.sum

variable {py}

theorem count_of_null {row : Row X} {column : String} (h : Value.get row column = .null) :
    Row.count py row column = some 0 := by
  unfold Row.count
  rw [h]
  rfl

theorem count_set_int (row : Row X) (column : String) (n : Int) :
    Row.count py (Dict.set row column (.int n)) column = some n := by
  have hget : Value.get (Dict.set row column (.int n)) column = .int n := by
    simp [Value.get]
  unfold Row.count
  rw [hget]
  by_cases hn : n = 0 <;> simp [Value.truthy, Numbers.toInt, hn]

theorem columnTotal_cons (row : Row X) (rows : List (Row X)) (column : String) :
    columnTotal py (row :: rows) column =
      (Row.count py row column).bind fun n => (columnTotal py rows column).map (n + ·) := by
  unfold columnTotal
  rw [List.mapM_cons]
  cases Row.count py row column with
  | none => rfl
  | some n => cases rows.mapM fun row => Row.count py row column <;> rfl

theorem columnTotal_perm {rows rows' : List (Row X)} (h : rows.Perm rows') (column : String) :
    columnTotal py rows column = columnTotal py rows' column := by
  induction h with
  | nil => rfl
  | cons row _ ih => rw [columnTotal_cons, columnTotal_cons, ih]
  | swap row row' rows =>
    simp only [columnTotal_cons]
    cases Row.count py row column with
    | none => cases Row.count py row' column <;> rfl
    | some n =>
      cases Row.count py row' column with
      | none => rfl
      | some m =>
        cases columnTotal py rows column with
        | none => rfl
        | some total => exact congrArg some (Int.add_left_comm m n total)
  | trans _ _ ih ih' => exact ih.trans ih'

theorem columnTotal_of_null {rows : List (Row X)} {column : String}
    (h : ∀ row ∈ rows, Value.get row column matches .null) : columnTotal py rows column = some 0 := by
  induction rows with
  | nil => rfl
  | cons row rows ih =>
    obtain ⟨hrow, hrows⟩ := List.forall_mem_cons.mp h
    have hnull : Value.get row column = .null := by
      revert hrow
      cases Value.get row column <;> simp
    rw [columnTotal_cons, count_of_null hnull, ih hrows]
    rfl

/-- Merging column after column leaves in each one the total of its rows. -/
theorem foldlM_mergeColumn {rows : List (Row X)} {row : Row X} (hrow : row ∈ rows)
    {columns : List String} (hcolumns : columns.Nodup) {start merged : Row X}
    (hstart : ∀ c ∈ columns, Value.get start c = Value.get row c)
    (h : columns.foldlM (mergeColumn py rows) start = some merged) :
    (∀ c, c ∉ columns → Value.get merged c = Value.get start c) ∧
      ∀ c ∈ columns, Row.count py merged c = columnTotal py rows c := by
  induction columns generalizing start with
  | nil =>
    obtain rfl := Option.some.inj h
    exact ⟨fun _ _ => rfl, by simp⟩
  | cons column columns ih =>
    obtain ⟨hnot, hcolumns⟩ := List.nodup_cons.mp hcolumns
    obtain ⟨hfirst, hrest⟩ := List.forall_mem_cons.mp hstart
    rw [List.foldlM_cons] at h
    obtain ⟨next, hnext, h⟩ := Option.bind_eq_some_iff.mp h
    have hstep : (∀ c, c ≠ column → Value.get next c = Value.get start c) ∧
        Row.count py next column = columnTotal py rows column := by
      unfold mergeColumn at hnext
      split_ifs at hnext with hnull
      · obtain rfl := Option.some.inj hnext
        refine ⟨fun _ _ => rfl, ?_⟩
        have hcell : Value.get start column = .null := by
          have := hnull row hrow
          revert this
          rw [← hfirst]
          cases Value.get start column <;> simp
        rw [count_of_null hcell, columnTotal_of_null hnull]
      · obtain ⟨counts, hcounts, rfl⟩ := Option.map_eq_some_iff.mp hnext
        refine ⟨?_, ?_⟩
        · intro c hc
          simp [Value.get, Dict.get?_set, Ne.symm hc]
        · rw [count_set_int, columnTotal, hcounts]
          rfl
    have hkeep : ∀ c ∈ columns, Value.get next c = Value.get row c := by
      intro c hc
      have hne : c ≠ column := by
        rintro rfl
        exact hnot hc
      rw [hstep.1 c hne, hrest c hc]
    obtain ⟨hother, htotals⟩ := ih hcolumns hkeep h
    refine ⟨?_, ?_⟩
    · intro c hc
      obtain ⟨hne, hc⟩ := not_or.mp (mt List.mem_cons.mpr hc)
      rw [hother c hc, hstep.1 c hne]
    · rw [List.forall_mem_cons]
      refine ⟨?_, htotals⟩
      rw [← hstep.2]
      unfold Row.count
      rw [hother column hnot]

theorem count_mergeRows {rows : List (Row X)} {merged : Row X} (h : mergeRows py rows = some merged)
    {column : String} (hcolumn : column ∈ countColumns) :
    Row.count py merged column = columnTotal py rows column := by
  unfold mergeRows at h
  obtain ⟨row, hrow, h⟩ := Option.bind_eq_some_iff.mp h
  have hmem : row ∈ rows := List.mem_of_mem_head? hrow
  exact (foldlM_mergeColumn hmem (by decide) (fun _ _ => rfl) h).2 column hcolumn

variable (py) in
/-- The share of the incidents closed as false positives among those closed with a verdict, over
some rows: `none` where there are none of these. -/
def closedRateOver (rows : List (Row X)) : Option (Option X) := do
  let tp ← columnTotal py rows "closed_tp_30d"
  let fp ← columnTotal py rows "closed_fp_30d"
  let bp ← columnTotal py rows "closed_bp_30d"
  if tp + fp + bp = 0 then some none else (py.divide fp (tp + fp + bp)).map some

theorem closedRateOver_perm {rows rows' : List (Row X)} (h : rows.Perm rows') :
    closedRateOver py rows = closedRateOver py rows' := by
  unfold closedRateOver
  rw [columnTotal_perm h, columnTotal_perm h, columnTotal_perm h]

/-- The rate of the merged row is the rate over all rows of the rule. -/
theorem closedFpRate_lookup {rows : List (Row X)} {keys : RuleKeys} {found : Option (Row X)}
    (h : (TelemetryIndex.ofRows py rows).lookup py keys = some found) :
    found.elim (some none) (closedFpRate py) = closedRateOver py (ruleRows py rows keys) := by
  rw [← closedRateOver_perm (rowsFor_perm rows keys)]
  unfold TelemetryIndex.lookup at h
  dsimp only at h
  split_ifs at h with hempty
  · obtain rfl := Option.some.inj h
    rw [hempty]
    rfl
  · obtain ⟨merged, hmerged, rfl⟩ := Option.map_eq_some_iff.mp h
    rw [Option.elim_some]
    unfold closedFpRate closedRateOver
    rw [count_mergeRows hmerged (by decide), count_mergeRows hmerged (by decide),
      count_mergeRows hmerged (by decide)]

end
end ContentOps
