import ContentOps.Report.Snapshot

/-! The comparison of two reports beside what their rules cover: a row shows every id on its rule,
the coverage counts those of the matrix, and rules are told apart by their id alone. -/

namespace ContentOps.Report
open PyData Coverage

/-! ## The snapshot read back -/

section
variable {X : Type}

/-- A mapping as it is read back from its text. -/
def readBack (d : Dict String (Value X)) : Dict String (Value X) :=
  d.sortByKey.mapVals Value.sortKeys

theorem get?_readBack {d : Dict String (Value X)} (hd : d.keys.Nodup) (key : String) :
    (readBack d).get? key = (d.get? key).map Value.sortKeys := by
  rw [readBack, Dict.get?_mapVals, Dict.get?_sortByKey hd]

def ruleEntries (r : ReportRow) : Dict String (Value X) :=
  [("rule_id", .str r.ruleId), ("status", .str r.status), ("severity", .str r.severity),
    ("asset_kind", .str r.assetKind), ("techniques", texts r.techniques),
    ("tactics", texts r.tactics), ("in_scope", .bool r.inCoverageScope)]

theorem nodup_ruleEntries (r : ReportRow) : (ruleEntries (X := X) r).keys.Nodup := by
  simp [ruleEntries, Dict.keys]

theorem nodup_summaryEntries (s : ReportSummary) : (summaryEntries (X := X) s).keys.Nodup := by
  simp [summaryEntries, Dict.keys]

theorem nodup_snapshotEntries (rows : List ReportRow) (s : ReportSummary) :
    (snapshotEntries (X := X) rows s).keys.Nodup := by
  simp [snapshotEntries, Dict.keys]

theorem wfList_map {α : Type} {f : α → Value X} (h : ∀ x, (f x).WF) (l : List α) :
    Value.WFList (l.map f) := by
  induction l with
  | nil => exact trivial
  | cons x l ih => exact ⟨h x, ih⟩

theorem wf_ruleValue (r : ReportRow) : (ruleValue (X := X) r).WF := by
  have htexts : ∀ values : List String, (texts (X := X) values).WF := fun values =>
    wfList_map (f := Value.str) Value.wf_str values
  exact ⟨nodup_ruleEntries r, trivial, trivial, trivial, trivial, htexts _, htexts _, trivial,
    trivial⟩

theorem wf_snapshotEntries (rows : List ReportRow) (s : ReportSummary) :
    (Value.dict (snapshotEntries (X := X) rows s)).WF := by
  have hsummary : (Value.dict (summaryEntries (X := X) s)).WF := by
    refine ⟨nodup_summaryEntries s, ?_⟩
    simp [summaryEntries, Value.WFDict, Value.WF]
  exact ⟨nodup_snapshotEntries rows s, trivial, trivial, hsummary, wfList_map wf_ruleValue _,
    trivial⟩

theorem sortKeysItems_map {α : Type} (f : α → Value X) (l : List α) :
    Value.sortKeysItems (l.map f) = l.map fun x => (f x).sortKeys := by
  induction l with
  | nil => rfl
  | cons x l ih => rw [List.map_cons, Value.sortKeysItems, ih, List.map_cons]

theorem loads_renderSnapshot [Json.FloatText X] (rows : List ReportRow) (s : ReportSummary) :
    (Json.loads (renderSnapshot (X := X) rows s) : Option (Value X)) =
      some (.dict (readBack (snapshotEntries rows s))) := by
  rw [renderSnapshot, Json.loads_dumps_append (Json.indent2_blank true)
    (wf_snapshotEntries rows s).sortKeys (by simp), Value.sortKeys_dict]
  rfl

/-! ## What the comparison finds in it -/

def sortedRows (rows : List ReportRow) : List ReportRow :=
  rows.insertionSort fun r t => r.ruleId ≤ t.ruleId

def rulesReadBack (rows : List ReportRow) : List (Value X) :=
  (sortedRows rows).map fun r => .dict (readBack (ruleEntries r))

theorem get?_rules (rows : List ReportRow) (s : ReportSummary) :
    (readBack (snapshotEntries (X := X) rows s)).get? "rules" =
      some (.list (rulesReadBack rows)) := by
  rw [get?_readBack (nodup_snapshotEntries rows s)]
  change some (Value.list (Value.sortKeysItems ((sortedRows rows).map ruleValue))) = _
  rw [sortKeysItems_map]
  refine congrArg (fun vs => some (Value.list vs)) (List.map_congr_left fun r _ => ?_)
  exact Value.sortKeys_dict (ruleEntries r)

theorem get?_summary (rows : List ReportRow) (s : ReportSummary) :
    (readBack (snapshotEntries (X := X) rows s)).get? "summary" =
      some (.dict (readBack (summaryEntries s))) := by
  rw [get?_readBack (nodup_snapshotEntries rows s)]
  exact congrArg some (Value.sortKeys_dict (summaryEntries s))

/-- The techniques that rows in scope show. -/
def shownBy (rows : List ReportRow) : List (List String) :=
  (rows.filter (·.inCoverageScope)).map (·.techniques)

theorem textsOf_readBack (r : ReportRow) :
    textsOf ((readBack (ruleEntries (X := X) r)).get? "techniques") = r.techniques := by
  rw [get?_readBack (nodup_ruleEntries r)]
  change (Value.sortKeysItems (r.techniques.map Value.str)).filterMap Value.text? = r.techniques
  rw [sortKeysItems_map, List.filterMap_map]
  exact List.filterMap_some

theorem shownIn_rulesReadBack (rows : List ReportRow) :
    shownIn (rulesReadBack (X := X) rows) = shownBy (sortedRows rows) := by
  unfold rulesReadBack shownBy
  induction sortedRows rows with
  | nil => rfl
  | cons r rows ih =>
    have hscope : (readBack (ruleEntries (X := X) r)).get? "in_scope" =
        some (.bool r.inCoverageScope) := get?_readBack (nodup_ruleEntries r) _
    rw [List.map_cons, shownIn, List.filterMap_cons, ← shownIn, ih]
    dsimp only [Value.dict?, Option.bind_some]
    rw [hscope, textsOf_readBack]
    cases hin : r.inCoverageScope with
    | false => simp [hin]
    | true => simp [hin]

theorem idsIn_rulesReadBack (rows : List ReportRow) :
    idsIn (rulesReadBack (X := X) rows) = ((sortedRows rows).map (·.ruleId)).toFinset := by
  unfold rulesReadBack idsIn
  rw [List.filterMap_map]
  refine congrArg List.toFinset ?_
  rw [← List.filterMap_eq_map]
  refine List.filterMap_congr fun r _ => ?_
  have hid : (readBack (ruleEntries (X := X) r)).get? "rule_id" = some (.str r.ruleId) :=
    get?_readBack (nodup_ruleEntries r) _
  change ((readBack (ruleEntries (X := X) r)).get? "rule_id").bind Value.text? = _
  rw [hid]
  rfl

theorem perm_sortedRows (rows : List ReportRow) : (sortedRows rows).Perm rows :=
  List.perm_insertionSort _ rows

theorem perm_shownBy {rows rows' : List ReportRow} (h : rows.Perm rows') :
    (shownBy rows).Perm (shownBy rows') := (h.filter _).map _

theorem parentsOf_sortedRows (rows : List ReportRow) :
    parentsOf (shownBy (sortedRows rows)) = parentsOf (shownBy rows) :=
  List.toFinset_eq_of_perm _ _ ((perm_shownBy (perm_sortedRows rows)).flatten.map _)

theorem subsOf_sortedRows (rows : List ReportRow) :
    subsOf (shownBy (sortedRows rows)) = subsOf (shownBy rows) :=
  List.toFinset_eq_of_perm _ _ ((perm_shownBy (perm_sortedRows rows)).flatten.filter _)

section
variable [Value.ScalarEq X] {str : Value X → String} {int : Value X → Option ℤ}

omit [Value.ScalarEq X] in
theorem countAt_readBack (hint : ∀ n, int (.int n) = some n) {s : ReportSummary} {key : String}
    {n : ℤ} (h : (summaryEntries (X := X) s).get? key = some (.int n)) :
    countAt int (readBack (summaryEntries s)) key = some n := by
  rw [countAt, get?_readBack (nodup_summaryEntries s), h]
  exact hint n

theorem countOr_readBack (hint : ∀ n, int (.int n) = some n) {s : ReportSummary} {key : String}
    {n : ℤ} (h : (summaryEntries (X := X) s).get? key = some (.int n)) :
    countOr int (readBack (summaryEntries s)) key = some n := by
  rw [countOr, get?_readBack (nodup_summaryEntries s), h]
  change int ((Value.int n).orElse (.int 0)) = some n
  rcases eq_or_ne n 0 with rfl | hn
  · exact hint 0
  · simpa [Value.orElse, Value.truthy, hn] using hint n

theorem textOr_readBack {s : ReportSummary} {key text : String}
    (h : (summaryEntries (X := X) s).get? key = some (.str text)) :
    textOr str (readBack (summaryEntries s)) key = text := by
  rw [textOr, get?_readBack (nodup_summaryEntries s), h]
  rfl

theorem section?_getD_dict (previous : Dict String (Value X)) {key : String}
    {d : Dict String (Value X)} (h : previous.get? key = some (.dict d)) :
    (section? previous key).getD (.dict []) = .dict d := by
  rw [section?, h]
  cases d <;> rfl

variable {rows rows' : List ReportRow} {s s' : ReportSummary}

theorem coverageComparability_readBack (hint : ∀ n, int (.int n) = some n)
    (hversion : s.attackVersion = s'.attackVersion) (hscope : s.coverageScope = s'.coverageScope)
    (htechniques : s.coverageTotal = s'.coverageTotal)
    (hsubs : s.coverageSubTechniquesTotal = s'.coverageSubTechniquesTotal) :
    coverageComparability str int (readBack (summaryEntries s)) s' = some "" := by
  have hversionText : textOr str (readBack (summaryEntries s)) "attack_version" =
      s.attackVersion := textOr_readBack rfl
  have hscopeText : textOr str (readBack (summaryEntries s)) "coverage_scope" =
      s.coverageScope := textOr_readBack rfl
  unfold coverageComparability
  rw [hversionText, hscopeText, countOr_readBack hint (n := s.coverageTotal) rfl,
    countOr_readBack hint (n := s.coverageSubTechniquesTotal) rfl]
  simp [hversion, hscope, htechniques, hsubs]

/-- The comparison with a snapshot of the same matrix and scope. -/
def deltaBetween (rows rows' : List ReportRow) (s s' : ReportSummary) : ReportDelta :=
  let oldIds := (rows.map (·.ruleId)).toFinset
  let newIds := (rows'.map (·.ruleId)).toFinset
  { previousDate := if 10 ≤ s.generatedAt.length then String.ofList (s.generatedAt.toList.take 10)
      else "unknown"
    totalDelta := s'.total - s.total
    productionDelta := s'.production - s.production
    experimentalDelta := s'.experimental - s.experimental
    deprecatedDelta := s'.deprecated - s.deprecated
    newRuleIds := sorted (newIds \ oldIds)
    removedRuleIds := sorted (oldIds \ newIds)
    newTechniques := sorted (parentsOf (shownBy rows') \ parentsOf (shownBy rows))
    newSubTechniques := sorted (subsOf (shownBy rows') \ subsOf (shownBy rows))
    coverageTechniquesDelta := s'.coverageCovered - s.coverageCovered
    coverageSubTechniquesDelta := s'.coverageSubTechniquesCovered - s.coverageSubTechniquesCovered
    coverageComparable := true
    coverageNote := "" }

theorem computeDelta_readBack (hint : ∀ n, int (.int n) = some n)
    (hversion : s.attackVersion = s'.attackVersion) (hscope : s.coverageScope = s'.coverageScope)
    (htechniques : s.coverageTotal = s'.coverageTotal)
    (hsubs : s.coverageSubTechniquesTotal = s'.coverageSubTechniquesTotal) :
    computeDelta str int (readBack (snapshotEntries rows s)) rows' s' =
      some (deltaBetween rows rows' s s') := by
  have hgenerated : Value.textAt (readBack (snapshotEntries (X := X) rows s)) "generated_at" =
      s.generatedAt := by
    rw [Value.textAt, get?_readBack (nodup_snapshotEntries rows s)]
    rfl
  have hrules : rulesOf (readBack (snapshotEntries (X := X) rows s)) = rulesReadBack rows := by
    rw [rulesOf, section?, get?_rules]
    cases rulesReadBack (X := X) rows <;> rfl
  unfold computeDelta
  rw [section?_getD_dict _ (get?_summary rows s), hgenerated]
  dsimp only [Value.dict?, Option.bind_eq_bind, Option.bind_some]
  rw [hrules, coverageComparability_readBack hint hversion hscope htechniques hsubs,
    countAt_readBack hint (n := s.total) rfl, countAt_readBack hint (n := s.production) rfl,
    countAt_readBack hint (n := s.experimental) rfl,
    countAt_readBack hint (n := s.deprecated) rfl, shownIn_rulesReadBack, idsIn_rulesReadBack,
    parentsOf_sortedRows, subsOf_sortedRows,
    List.toFinset_eq_of_perm _ _ ((perm_sortedRows rows).map (·.ruleId))]
  dsimp only [Option.bind_some, coveredAt]
  rw [if_pos rfl, if_pos rfl, countAt_readBack hint (n := s.coverageCovered) rfl,
    countAt_readBack hint (n := s.coverageSubTechniquesCovered) rfl]
  rfl

end

end

/-! ## Two corpora -/

section
variable (c : Coverage.Corpus)

/-- The parent techniques that the rows in scope show. -/
def shownTechniques : Finset String := parentsOf (c.inScope.map fun e => e.mitre.techniques)

def shownSubTechniques : Finset String := subsOf (c.inScope.map fun e => e.mitre.techniques)

def ruleIds : Finset String := (c.entries.map (·.id)).toFinset

/-- How many rules have the id of another kind's rule. -/
def sharedIds : ℕ := c.entries.length - (ruleIds c).card

end

section
variable {c : Coverage.Corpus} {id : String}

theorem shownBy_rows (generatedAt : String) :
    shownBy (assembleReport c generatedAt).1 = c.inScope.map fun e => e.mitre.techniques := by
  rw [assembleReport, shownBy, Coverage.Corpus.inScope, List.filter_map, List.map_map]
  rfl

theorem card_ruleIds_le : (ruleIds c).card ≤ c.entries.length := by
  have hcard := List.toFinset_card_le (c.entries.map (·.id))
  rwa [List.length_map] at hcard

theorem mem_shownTechniques : id ∈ shownTechniques c ↔
    ∃ e ∈ c.inScope, ∃ tid ∈ e.mitre.techniques, parentOf tid = id := by
  simp [shownTechniques, parentsOf]

theorem mem_shownSubTechniques : id ∈ shownSubTechniques c ↔
    isSub id = true ∧ ∃ e ∈ c.inScope, id ∈ e.mitre.techniques := by
  simp only [shownSubTechniques, subsOf, List.mem_toFinset, List.mem_filter, List.mem_flatten,
    List.mem_map, exists_exists_and_eq_and]
  exact and_comm

end

section
variable {X : Type} (letters : Letters) (scope : CoverageScope)

theorem covered_subset_shown (matrix : AttackMatrix) (docs : List (Parsed X)) :
    (loadCorpus letters scope matrix docs).covered.techniques ⊆
      shownTechniques (loadCorpus letters scope matrix docs) := by
  intro id hid
  obtain ⟨-, e, he, tid, htid, hparent⟩ := mem_covered_techniques.mp hid
  exact mem_shownTechniques.mpr ⟨e, he, tid, shown_of_counted he htid, hparent⟩

theorem coveredSubs_subset_shown {matrix : AttackMatrix}
    (hmatrix : ∀ id ∈ matrix.subTechniques, isSub id = true)
    (docs : List (Parsed X)) :
    (loadCorpus letters scope matrix docs).covered.subTechniques ⊆
      shownSubTechniques (loadCorpus letters scope matrix docs) := by
  intro id hid
  obtain ⟨hsub, e, he, htid⟩ := mem_covered_subTechniques.mp hid
  exact mem_shownSubTechniques.mpr ⟨hmatrix id hsub, e, he, shown_of_counted he htid⟩

end

/-- Two shown sets differ as the covered ones in them do. -/
theorem shown_sdiff_eq_iff {shown shown' covered covered' : Finset String} (h : covered ⊆ shown)
    (h' : covered' ⊆ shown') :
    shown' \ shown = covered' \ covered ↔
      shown' \ covered' ⊆ shown ∧ Disjoint (shown \ covered) covered' := by
  constructor
  · intro heq
    refine ⟨fun id hid => ?_, Finset.disjoint_left.mpr fun id hid hid' => ?_⟩
    · obtain ⟨hshown, hcovered⟩ := Finset.mem_sdiff.mp hid
      by_contra hold
      have hnew := heq ▸ Finset.mem_sdiff.mpr ⟨hshown, hold⟩
      exact hcovered (Finset.mem_sdiff.mp hnew).1
    · obtain ⟨hshown, hcovered⟩ := Finset.mem_sdiff.mp hid
      have hnew := heq.symm ▸ Finset.mem_sdiff.mpr ⟨hid', hcovered⟩
      exact (Finset.mem_sdiff.mp hnew).2 hshown
  · rintro ⟨hstray, hdisjoint⟩
    ext id
    rw [Finset.mem_sdiff, Finset.mem_sdiff]
    constructor
    · rintro ⟨hshown, hold⟩
      refine ⟨?_, fun hcovered => hold (h hcovered)⟩
      by_contra hcovered
      exact hold (hstray (Finset.mem_sdiff.mpr ⟨hshown, hcovered⟩))
    · rintro ⟨hcovered', hcovered⟩
      refine ⟨h' hcovered', fun hshown => ?_⟩
      exact Finset.disjoint_left.mp hdisjoint (Finset.mem_sdiff.mpr ⟨hshown, hcovered⟩) hcovered'

/-- Numbers differ by what is gained less what is lost. -/
theorem card_sub_card (a b : Finset String) :
    (b.card : ℤ) - a.card = (b \ a).card - (a \ b).card := by
  have hb := Finset.card_sdiff_add_card_inter b a
  have ha := Finset.card_sdiff_add_card_inter a b
  rw [Finset.inter_comm] at ha
  omega

theorem sorted_inj {a b : Finset String} : sorted a = sorted b ↔ a = b := by
  constructor
  · intro h
    rw [← Finset.sort_toFinset a (· ≤ ·), ← Finset.sort_toFinset b (· ≤ ·)]
    exact congrArg List.toFinset h
  · exact congrArg sorted

def IsZero (d : ReportDelta) : Prop :=
  d.totalDelta = 0 ∧ d.productionDelta = 0 ∧ d.experimentalDelta = 0 ∧ d.deprecatedDelta = 0 ∧
    d.coverageTechniquesDelta = 0 ∧ d.coverageSubTechniquesDelta = 0 ∧ d.newRuleIds = [] ∧
    d.removedRuleIds = [] ∧ d.newTechniques = [] ∧ d.newSubTechniques = []

/-- The comparison says how the coverage and the rules of two corpora differ. -/
structure Consistent (a b : Coverage.Corpus) (d : ReportDelta) : Prop where
  comparable : d.coverageComparable = true
  newTechniques : d.newTechniques = sorted (b.covered.techniques \ a.covered.techniques)
  newSubTechniques :
    d.newSubTechniques = sorted (b.covered.subTechniques \ a.covered.subTechniques)
  techniquesDelta : d.coverageTechniquesDelta =
    (b.covered.techniques \ a.covered.techniques).card -
      (a.covered.techniques \ b.covered.techniques).card
  subTechniquesDelta : d.coverageSubTechniquesDelta =
    (b.covered.subTechniques \ a.covered.subTechniques).card -
      (a.covered.subTechniques \ b.covered.subTechniques).card
  totalDelta : d.totalDelta = d.newRuleIds.length - d.removedRuleIds.length
  unchanged : a = b → IsZero d

/-- The ids that are shown without counting change nothing, and the same number of rules share their
id. -/
structure StraysAgree (a b : Coverage.Corpus) : Prop where
  shownBefore : shownTechniques b \ b.covered.techniques ⊆ shownTechniques a
  notCovered : Disjoint (shownTechniques a \ a.covered.techniques) b.covered.techniques
  subsShownBefore : shownSubTechniques b \ b.covered.subTechniques ⊆ shownSubTechniques a
  subsNotCovered :
    Disjoint (shownSubTechniques a \ a.covered.subTechniques) b.covered.subTechniques
  sharedIds : sharedIds a = sharedIds b

section
variable {X : Type} [Json.FloatText X] [Value.ScalarEq X]

/-- The comparison of one corpus's report with the snapshot of another's. -/
def reportDelta (str : Value X → String) (int : Value X → Option ℤ) (a b : Coverage.Corpus)
    (timeA timeB : String) : Option ReportDelta := do
  let previous ← Json.loads (renderSnapshot (X := X) (assembleReport a timeA).1
    (assembleReport a timeA).2)
  computeDelta str int (← previous.dict?) (assembleReport b timeB).1 (assembleReport b timeB).2

variable {str : Value X → String} {int : Value X → Option ℤ} {a b : Coverage.Corpus}

theorem reportDelta_eq (hint : ∀ n, int (.int n) = some n) (hmatrix : a.matrix = b.matrix)
    (hscope : a.scope = b.scope) (timeA timeB : String) :
    reportDelta str int a b timeA timeB =
      some (deltaBetween (assembleReport a timeA).1 (assembleReport b timeB).1
        (assembleReport a timeA).2 (assembleReport b timeB).2) := by
  rw [reportDelta, loads_renderSnapshot]
  refine computeDelta_readBack hint ?_ ?_ ?_ ?_
  · exact congrArg AttackMatrix.attackVersion hmatrix
  · exact congrArg CoverageScope.label hscope
  · exact congrArg (fun m : AttackMatrix => m.techniques.toFinset.card) hmatrix
  · exact congrArg (fun m : AttackMatrix => m.subTechniques.toFinset.card) hmatrix

theorem totalDelta_iff (a b : Coverage.Corpus) :
    (b.entries.length : ℤ) - a.entries.length =
        (sorted (ruleIds b \ ruleIds a)).length - (sorted (ruleIds a \ ruleIds b)).length ↔
      sharedIds a = sharedIds b := by
  have hcards := card_sub_card (ruleIds a) (ruleIds b)
  have ha := card_ruleIds_le (c := a)
  have hb := card_ruleIds_le (c := b)
  rw [sorted, sorted, Finset.length_sort, Finset.length_sort, ← hcards, sharedIds, sharedIds]
  omega

theorem isZero_deltaBetween_self (c : Coverage.Corpus) (timeA timeB : String) :
    IsZero (deltaBetween (assembleReport c timeA).1 (assembleReport c timeB).1
      (assembleReport c timeA).2 (assembleReport c timeB).2) := by
  have hsorted : sorted (∅ : Finset String) = [] := Finset.sort_empty _
  simp [IsZero, deltaBetween, assembleReport, hsorted]

end

/-- A corpus shows what it covers. -/
structure ShowsCovered (c : Coverage.Corpus) : Prop where
  techniques : c.covered.techniques ⊆ shownTechniques c
  subTechniques : c.covered.subTechniques ⊆ shownSubTechniques c

/-- The comparison of two corpora's reports. -/
def corporaDelta (a b : Coverage.Corpus) (timeA timeB : String) : ReportDelta :=
  deltaBetween (assembleReport a timeA).1 (assembleReport b timeB).1
    (assembleReport a timeA).2 (assembleReport b timeB).2

section
variable (a b : Coverage.Corpus) (timeA timeB : String)

theorem newTechniques_corporaDelta : (corporaDelta a b timeA timeB).newTechniques =
    sorted (shownTechniques b \ shownTechniques a) := by
  rw [corporaDelta, deltaBetween, shownBy_rows, shownBy_rows]
  rfl

theorem newSubTechniques_corporaDelta : (corporaDelta a b timeA timeB).newSubTechniques =
    sorted (shownSubTechniques b \ shownSubTechniques a) := by
  rw [corporaDelta, deltaBetween, shownBy_rows, shownBy_rows]
  rfl

theorem ids_assembleReport :
    (((assembleReport a timeA).1.map (·.ruleId)).toFinset) = ruleIds a := by
  rw [assembleReport, List.map_map]
  rfl

theorem totalDelta_corporaDelta : (corporaDelta a b timeA timeB).totalDelta =
    (b.entries.length : ℤ) - a.entries.length := by
  simp [corporaDelta, deltaBetween, assembleReport]

/-- The rules that the comparison lists make up its total exactly when the shared ids do. -/
theorem listed_corporaDelta_iff : (corporaDelta a b timeA timeB).totalDelta =
    (corporaDelta a b timeA timeB).newRuleIds.length -
      (corporaDelta a b timeA timeB).removedRuleIds.length ↔ sharedIds a = sharedIds b := by
  rw [← totalDelta_iff, totalDelta_corporaDelta, corporaDelta, deltaBetween, ids_assembleReport,
    ids_assembleReport]

end

theorem consistent_deltaBetween_iff {a b : Coverage.Corpus} (ha : ShowsCovered a)
    (hb : ShowsCovered b) (timeA timeB : String) :
    Consistent a b (corporaDelta a b timeA timeB) ↔ StraysAgree a b := by
  have htechniques := shown_sdiff_eq_iff ha.techniques hb.techniques
  have hsubs := shown_sdiff_eq_iff ha.subTechniques hb.subTechniques
  have hnew := newTechniques_corporaDelta a b timeA timeB
  have hnewSubs := newSubTechniques_corporaDelta a b timeA timeB
  constructor
  · intro h
    obtain ⟨hshown, hcovered⟩ := htechniques.mp (sorted_inj.mp (hnew.symm.trans h.newTechniques))
    obtain ⟨hshownSubs, hcoveredSubs⟩ :=
      hsubs.mp (sorted_inj.mp (hnewSubs.symm.trans h.newSubTechniques))
    exact ⟨hshown, hcovered, hshownSubs, hcoveredSubs,
      (listed_corporaDelta_iff a b timeA timeB).mp h.totalDelta⟩
  · intro h
    refine ⟨rfl, ?_, ?_, card_sub_card a.covered.techniques b.covered.techniques,
      card_sub_card a.covered.subTechniques b.covered.subTechniques, ?_, ?_⟩
    · exact hnew.trans (congrArg sorted (htechniques.mpr ⟨h.shownBefore, h.notCovered⟩))
    · exact hnewSubs.trans (congrArg sorted (hsubs.mpr ⟨h.subsShownBefore, h.subsNotCovered⟩))
    · exact (listed_corporaDelta_iff a b timeA timeB).mpr h.sharedIds
    · rintro rfl
      exact isZero_deltaBetween_self a timeA timeB

section
variable {X Y : Type} [Json.FloatText Y] [Value.ScalarEq Y]

end

/-! ## A tag that does not count -/

namespace Sample

def letters : Letters where
  lower := id
  upper := id
  isDecimal := Char.isDigit

def matrix : AttackMatrix where
  attackVersion := "17.0"
  tactics := ["Execution"]
  techniques := ["T1059"]
  subTechniques := ["T1059.001"]
  techniqueTactics := [("T1059", ["Execution"]), ("T1059.001", ["Execution"])]
  names := []
  revoked := []
  deprecated := ["T1064"]

def rule (id : String) (techniques : List String) : Parsed Empty where
  id := id
  asset := .sentinelAnalytic
  status := "production"
  metadata := none
  rawMetadata := none
  payload := [("techniques", texts techniques)]

def corpus (docs : List (Parsed Empty)) : Coverage.Corpus := loadCorpus letters {} matrix docs

def toInt : Value Empty → Option ℤ
  | .int n => some n
  | _ => none

theorem sub_of_mem : ∀ id ∈ matrix.subTechniques, isSub id = true := by decide

theorem showsCovered (docs : List (Parsed Empty)) : ShowsCovered (corpus docs) :=
  ⟨covered_subset_shown letters {} matrix docs, coveredSubs_subset_shown letters {} sub_of_mem docs⟩

end Sample

end ContentOps.Report
