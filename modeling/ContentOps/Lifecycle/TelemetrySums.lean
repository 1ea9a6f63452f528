import ContentOps.Lifecycle.RuleKeys
import ContentOps.Library.OptionMap

/-! The counts of a rule are those of its telemetry rows, each counted once. -/

namespace ContentOps
open PyData

section
variable {X : Type} {py : Numbers X} [Value.ScalarEq X]

/-- `candidates`. -/
def RuleKeys.candidates (keys : RuleKeys) : List String :=
  keys.ids.map (idPrefix ++ ·) ++ keys.names.map (namePrefix ++ ·)

def Row.ruleKey (row : Row X) : String := Value.textAt row "rule_key"

/-- Rows as the telemetry query gives them: no two of one key, hence no row twice, and each key
that of an id or of a name. -/
structure IsTelemetry (rows : List (Row X)) : Prop where
  distinct : (rows.map Row.ruleKey).Nodup
  keyed : ∀ row ∈ rows, ∃ s, row.ruleKey = idPrefix ++ s ∨ row.ruleKey = namePrefix ++ s

theorem afterPrefix?_eq_some (start s rest : String) :
    afterPrefix? start s = some rest ↔ s = start ++ rest := by
  unfold afterPrefix?
  constructor
  · intro h
    split_ifs at h with hstart
    obtain ⟨tail, htail⟩ := hstart
    obtain rfl := Option.some.inj h
    rw [← String.toList_inj, String.toList_append, ← htail, String.toList_ofList,
      ← String.length_toList, List.drop_left]
  · rintro rfl
    rw [String.toList_append, if_pos (List.prefix_append _ _), ← String.length_toList,
      List.drop_left, String.ofList_toList]

theorem idPrefix_ne_namePrefix (s t : String) : idPrefix ++ s ≠ namePrefix ++ t := by
  intro h
  have hchars := congrArg String.toList h
  rw [String.toList_append, String.toList_append] at hchars
  have hfirst : some 'i' = some 'n' := congrArg List.head? hchars
  exact absurd hfirst (by decide)

omit [Value.ScalarEq X] in
/-- A row of telemetry is a rule's own where its key is one of the rule's. -/
theorem isOwn_iff {row : Row X}
    (hkeyed : ∃ s, row.ruleKey = idPrefix ++ s ∨ row.ruleKey = namePrefix ++ s) (keys : RuleKeys) :
    Row.IsOwn py keys row ↔ row.ruleKey ∈ keys.candidates := by
  have hid : ∀ i, Row.idKey row = some i ↔ row.ruleKey = idPrefix ++ i :=
    afterPrefix?_eq_some idPrefix row.ruleKey
  have hname : ∀ n, Row.nameKey py row = some n ↔ row.ruleKey = namePrefix ++ n := by
    intro n
    obtain ⟨s, hs | hs⟩ := hkeyed
    · have hnone : Row.nameKey py row = none := by
        unfold Row.nameKey
        rw [(hid s).mpr hs]
        rfl
      rw [hnone, hs]
      exact ⟨nofun, fun h => absurd h (idPrefix_ne_namePrefix s n)⟩
    · have hnone : Row.idKey row = none := by
        apply Option.eq_none_iff_forall_ne_some.mpr
        intro i hi
        exact idPrefix_ne_namePrefix i s (((hid i).mp hi).symm.trans hs)
      have hafter := (afterPrefix?_eq_some namePrefix row.ruleKey s).mpr hs
      unfold Row.nameKey
      rw [hnone, Option.isSome_none, if_neg (by decide), show Value.textAt row "rule_key" =
        row.ruleKey from rfl, hafter, Option.some_or, ← afterPrefix?_eq_some, hafter]
  unfold Row.IsOwn RuleKeys.candidates
  rw [List.mem_append, List.mem_map, List.mem_map]
  simp only [hid, hname, eq_comm]

/-! ## Looking up -/

theorem lookup_eq_none {rows : List (Row X)} {keys : RuleKeys} :
    (TelemetryIndex.ofRows py rows).lookup py keys = some none ↔ ruleRows py rows keys = [] := by
  have hperm : ((TelemetryIndex.ofRows py rows).rowsFor keys).Perm (ruleRows py rows keys) :=
    rowsFor_perm rows keys
  unfold TelemetryIndex.lookup
  dsimp only
  split_ifs with hempty
  · rw [hempty] at hperm
    exact iff_of_true rfl hperm.nil_eq.symm
  · have hne : ruleRows py rows keys ≠ [] := by
      intro hnil
      rw [hnil] at hperm
      exact hempty hperm.eq_nil
    cases mergeRows py ((TelemetryIndex.ofRows py rows).rowsFor keys) <;> simp [hne]

omit [Value.ScalarEq X] in
theorem ruleRows_eq_nil {rows : List (Row X)} {keys : RuleKeys} :
    ruleRows py rows keys = [] ↔
      ∀ row ∈ rows, ¬ Row.IsOwn py keys row ∧ ¬ Row.IsNamed py keys row := by
  unfold ruleRows
  dsimp only
  split_ifs with hown
  · simp only [List.filter_eq_nil_iff, decide_eq_true_eq] at hown ⊢
    exact ⟨fun h row hrow => ⟨hown row hrow, h row hrow⟩, fun h row hrow => (h row hrow).2⟩
  · refine iff_of_false hown ?_
    intro h
    apply hown
    simp only [List.filter_eq_nil_iff, decide_eq_true_eq]
    exact fun row hrow => (h row hrow).1

omit [Value.ScalarEq X] in
/-- Where the rule has rows of its own, these are the rows with its keys. -/
theorem ruleRows_of_own {rows : List (Row X)} (h : IsTelemetry rows) {keys : RuleKeys}
    (hown : ∃ row ∈ rows, row.ruleKey ∈ keys.candidates) :
    ruleRows py rows keys = rows.filter fun row => row.ruleKey ∈ keys.candidates := by
  have hsame : rows.filter (fun row => Row.IsOwn py keys row) =
      rows.filter fun row => row.ruleKey ∈ keys.candidates := by
    apply List.filter_congr
    intro row hrow
    exact decide_eq_decide.mpr (isOwn_iff (h.keyed row hrow) keys)
  obtain ⟨row, hrow, hkey⟩ := hown
  have hne : rows.filter (fun row => row.ruleKey ∈ keys.candidates) ≠ [] := by
    intro hnil
    exact List.filter_eq_nil_iff.mp hnil row hrow (decide_eq_true hkey)
  unfold ruleRows
  dsimp only
  rw [hsame, if_neg hne]

variable (py) in
/-- The count of a column in what a lookup finds. -/
def TelemetryIndex.count (index : TelemetryIndex X) (column : String) (keys : RuleKeys) :
    Option Int := do
  (← index.lookup py keys).elim (some 0) (Row.count py · column)

theorem count_lookup {rows : List (Row X)} {keys : RuleKeys} {found : Option (Row X)}
    (h : (TelemetryIndex.ofRows py rows).lookup py keys = some found) {column : String}
    (hcolumn : column ∈ countColumns) :
    found.elim (some 0) (Row.count py · column) =
      columnTotal py (ruleRows py rows keys) column := by
  rw [← columnTotal_perm (rowsFor_perm rows keys)]
  unfold TelemetryIndex.lookup at h
  dsimp only at h
  split_ifs at h with hempty
  · obtain rfl := Option.some.inj h
    rw [hempty]
    rfl
  · obtain ⟨merged, hmerged, rfl⟩ := Option.map_eq_some_iff.mp h
    exact count_mergeRows hmerged hcolumn

/-! ## Sums -/

theorem columnTotal_eq_sum {rows : List (Row X)} {column : String} {weight : Row X → Int}
    (h : ∀ row ∈ rows, Row.count py row column = some (weight row)) :
    columnTotal py rows column = some (rows.map weight).sum := by
  induction rows with
  | nil => rfl
  | cons row rows ih =>
    obtain ⟨hrow, hrows⟩ := List.forall_mem_cons.mp h
    rw [columnTotal_cons, hrow, ih hrows]
    rfl

theorem count_of_columnTotal {rows : List (Row X)} {column : String} {total : Int}
    (h : columnTotal py rows column = some total) :
    ∀ row ∈ rows, Row.count py row column = some ((Row.count py row column).getD 0) := by
  induction rows generalizing total with
  | nil => exact fun row hrow => absurd hrow List.not_mem_nil
  | cons row rows ih =>
    rw [columnTotal_cons] at h
    obtain ⟨n, hrow, h⟩ := Option.bind_eq_some_iff.mp h
    obtain ⟨rest, hrest, -⟩ := Option.map_eq_some_iff.mp h
    rw [List.forall_mem_cons]
    refine ⟨?_, ih hrest⟩
    rw [hrow]
    rfl

/-- Merging fails only on a count that is no number. -/
theorem mergeRows_isSome {rows : List (Row X)} (hne : rows ≠ [])
    (h : ∀ row ∈ rows, ∀ c ∈ countColumns, (Row.count py row c).isSome) :
    (mergeRows py rows).isSome := by
  have hcolumns : ∀ (columns : List String) (start : Row X), columns ⊆ countColumns →
      (columns.foldlM (mergeColumn py rows) start).isSome := by
    intro columns
    induction columns with
    | nil => exact fun _ _ => rfl
    | cons column columns ih =>
      intro start hsub
      obtain ⟨hcolumn, hsub⟩ := List.cons_subset.mp hsub
      have hnext : ∃ next, mergeColumn py rows start column = some next := by
        unfold mergeColumn
        split_ifs
        · exact ⟨start, rfl⟩
        · have hrows : ∀ row ∈ rows,
              Row.count py row column = some ((Row.count py row column).getD 0) := by
            intro row hrow
            obtain ⟨n, hn⟩ := Option.isSome_iff_exists.mp (h row hrow column hcolumn)
            rw [hn]
            rfl
          obtain ⟨counts, hcounts, -⟩ := Option.map_eq_some_iff.mp (columnTotal_eq_sum hrows)
          rw [hcounts]
          exact ⟨_, rfl⟩
      obtain ⟨next, hnext⟩ := hnext
      rw [List.foldlM_cons, hnext]
      exact ih next hsub
  obtain ⟨row, rows, rfl⟩ := List.exists_cons_of_ne_nil hne
  exact hcolumns countColumns row (List.Subset.refl _)

/-- Detections that share no key, each with a row of its own, count together at most what all rows
count. -/
theorem counts_le_total {rows : List (Row X)} (h : IsTelemetry rows) {family : List RuleKeys}
    (hdisjoint : family.Pairwise fun a b => a.candidates.Disjoint b.candidates)
    (hown : ∀ keys ∈ family, ∃ row ∈ rows, row.ruleKey ∈ keys.candidates) {column : String}
    (hcolumn : column ∈ countColumns)
    (hcounts : ∀ row ∈ rows, ∀ n, Row.count py row column = some n → 0 ≤ n)
    {found : List Int} {total : Int}
    (hfound : family.mapM ((TelemetryIndex.ofRows py rows).count py column) = some found)
    (htotal : columnTotal py rows column = some total) : found.sum ≤ total := by
  let weight := fun row => (Row.count py row column).getD 0
  let part := fun (keys : RuleKeys) (row : Row X) => decide (row.ruleKey ∈ keys.candidates)
  have hcount : ∀ row ∈ rows, Row.count py row column = some (weight row) :=
    count_of_columnTotal htotal
  have heach : found = family.map fun keys => ((rows.filter (part keys)).map weight).sum := by
    refine eq_map_of_mapM hfound ?_
    intro keys hkeys n hn
    obtain ⟨row, hlookup, hn⟩ := Option.bind_eq_some_iff.mp hn
    rw [count_lookup hlookup hcolumn, ruleRows_of_own h (hown keys hkeys),
      columnTotal_eq_sum fun row hrow => hcount row (List.mem_of_mem_filter hrow)] at hn
    exact (Option.some.inj hn).symm
  have hall : total = (rows.map weight).sum :=
    Option.some.inj (htotal.symm.trans (columnTotal_eq_sum hcount))
  rw [heach, hall]
  refine sum_parts_le (fun row hrow => hcounts row hrow _ (hcount row hrow)) ?_
  refine hdisjoint.imp ?_
  intro a b hab row ha
  exact decide_eq_false fun hb => hab (of_decide_eq_true ha) hb

/-- Telemetry is summed without loss and without counting a row twice. -/
theorem lookup_sums {rows : List (Row X)} (h : IsTelemetry rows) :
    (∀ keys, (TelemetryIndex.ofRows py rows).lookup py keys = some none →
      ∀ row ∈ rows, row.ruleKey ∉ keys.candidates ∧ ¬ Row.IsNamed py keys row) ∧
    (∀ keys, (∃ row ∈ rows, row.ruleKey ∈ keys.candidates) →
      ∀ found, (TelemetryIndex.ofRows py rows).lookup py keys = some found →
        ∃ merged, found = some merged ∧ ∀ column ∈ countColumns, Row.count py merged column =
          columnTotal py (rows.filter fun row => row.ruleKey ∈ keys.candidates) column) ∧
    (∀ family : List RuleKeys,
      (family.Pairwise fun a b => a.candidates.Disjoint b.candidates) →
      (∀ keys ∈ family, ∃ row ∈ rows, row.ruleKey ∈ keys.candidates) →
      ∀ column ∈ countColumns, (∀ row ∈ rows, ∀ n, Row.count py row column = some n → 0 ≤ n) →
      ∀ found total,
        family.mapM ((TelemetryIndex.ofRows py rows).count py column) = some found →
        columnTotal py rows column = some total → found.sum ≤ total) ∧
    ((∀ row ∈ rows, ∀ column ∈ countColumns, (Row.count py row column).isSome) →
      ∀ keys, ((TelemetryIndex.ofRows py rows).lookup py keys).isSome) := by
  refine ⟨?_, ?_, ?_, ?_⟩
  · intro keys hnone row hrow
    have hrows := ruleRows_eq_nil.mp (lookup_eq_none.mp hnone) row hrow
    exact ⟨mt (isOwn_iff (h.keyed row hrow) keys).mpr hrows.1, hrows.2⟩
  · intro keys hown found hfound
    cases found with
    | none =>
      obtain ⟨row, hrow, hkey⟩ := hown
      have hrows := ruleRows_eq_nil.mp (lookup_eq_none.mp hfound) row hrow
      exact absurd ((isOwn_iff (h.keyed row hrow) keys).mpr hkey) hrows.1
    | some merged =>
      refine ⟨merged, rfl, ?_⟩
      intro column hcolumn
      have hrule : ruleRows py rows keys = _ := ruleRows_of_own h hown
      rw [← hrule]
      exact count_lookup hfound hcolumn
  · intro family hdisjoint hown column hcolumn hcounts found total
    exact counts_le_total h hdisjoint hown hcolumn hcounts
  · intro hcounts keys
    unfold TelemetryIndex.lookup
    dsimp only
    split_ifs with hempty
    · rfl
    · rw [Option.isSome_map]
      apply mergeRows_isSome hempty
      intro row hrow
      refine hcounts row ?_
      have hrule := (rowsFor_perm rows keys).subset hrow
      unfold ruleRows at hrule
      dsimp only at hrule
      split_ifs at hrule <;> exact List.mem_of_mem_filter hrule

end

/-- A rule with alerts under its id and an incident under its name, and a second rule. -/
def splitRows : List (Row Empty) :=
  [[("rule_key", .str "id:beacon"), ("alerts_30d", .int 3)],
   [("rule_key", .str "name:beacon found"), ("alerts_30d", .int 2), ("incidents_30d", .int 1)],
   [("rule_key", .str "id:spray"), ("alerts_30d", .int 5)]]

def asciiNumbers : Numbers Empty where
  ofText _ := none
  truncate x := x.elim
  divide _ _ := none
  le x _ := x.elim
  text x := x.elim
  lower s := String.ofList (s.toList.map Char.toLower)

theorem lookup_sums_splitRows :
    let index := TelemetryIndex.ofRows asciiNumbers splitRows
    let beacon : RuleKeys := ⟨["beacon"], ["beacon found"]⟩
    let spray : RuleKeys := ⟨["spray"], []⟩
    index.count asciiNumbers "alerts_30d" beacon = some 5 ∧
      ∀ found, [beacon, spray].mapM (index.count asciiNumbers "alerts_30d") = some found →
        found.sum ≤ 10 := by
  have hrows : IsTelemetry splitRows := by
    constructor
    · decide
    · intro row hrow
      fin_cases hrow
      · exact ⟨"beacon", .inl rfl⟩
      · exact ⟨"beacon found", .inr rfl⟩
      · exact ⟨"spray", .inl rfl⟩
  obtain ⟨-, hown, hfamily, hsome⟩ := @lookup_sums Empty asciiNumbers _ splitRows hrows
  constructor
  · have hlookup := hsome ?_ ⟨["beacon"], ["beacon found"]⟩
    · obtain ⟨found, hfound⟩ := Option.isSome_iff_exists.mp hlookup
      obtain ⟨merged, rfl, hcounts⟩ := hown _ ⟨_, List.mem_cons_self, by decide⟩ found hfound
      unfold TelemetryIndex.count
      rw [hfound]
      exact (hcounts "alerts_30d" (by decide)).trans rfl
    · decide
  · intro found hfound
    refine hfamily _ ?_ ?_ "alerts_30d" (by decide) ?_ found 10 hfound rfl
    · rw [List.pairwise_pair]
      have hkeys : ∀ key ∈ ["id:beacon", "name:beacon found"], key ∉ ["id:spray"] := by decide
      exact fun key => hkeys key
    · decide
    · decide

end ContentOps
