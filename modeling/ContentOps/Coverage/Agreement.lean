import ContentOps.Coverage.Report

/-! The coverage reports beside each other: the heatmap, the gaps report and the summary count the
same ids, and a custom reference list is matched with them as it is written. -/

namespace ContentOps.Coverage
open PyData

/-- The ids of a matrix file are written as tags are normalised, and every sub-technique has its
parent in the file. -/
structure ProperFile (letters : Letters) (raw : MatrixFile) : Prop where
  techniques : ∀ t ∈ raw.techniques, normaliseTechniqueId letters t.id = some t.id ∧
    isSub t.id = false
  subTechniques : ∀ t ∈ raw.subTechniques, normaliseTechniqueId letters t.id = some t.id ∧
    isSub t.id = true ∧ parentOf t.id ∈ raw.techniques.map (·.id)
  revoked : ∀ id ∈ raw.revoked.keys, normaliseTechniqueId letters id = some id

def matrixOf (letters : Letters) (raw : MatrixFile) : AttackMatrix :=
  AttackMatrix.fromDict (normaliseTactic letters) raw

theorem parentOf_of_not_isSub {id : String} (h : isSub id = false) : parentOf id = id := by
  have hdot : '.' ∉ id.toList := of_decide_eq_false h
  have htake : id.toList.takeWhile (· ≠ '.') = id.toList :=
    List.takeWhile_eq_self_iff.mpr fun c hc => decide_eq_true fun heq => hdot (heq ▸ hc)
  rw [parentOf, htake, String.ofList_toList]

section
variable {X : Type} {letters : Letters} {raw : MatrixFile} {scope : CoverageScope}
  {docs : List (Parsed X)} {id : String}

namespace ProperFile
variable (hraw : ProperFile letters raw)
include hraw

theorem not_isSub (h : id ∈ (matrixOf letters raw).techniques) : isSub id = false := by
  obtain ⟨t, ht, rfl⟩ := List.mem_map.mp h
  exact (hraw.techniques t ht).2

theorem sub_isSub (h : id ∈ (matrixOf letters raw).subTechniques) : isSub id = true := by
  obtain ⟨t, ht, rfl⟩ := List.mem_map.mp h
  exact (hraw.subTechniques t ht).2.1

theorem parentOf_mem (h : id ∈ (matrixOf letters raw).subTechniques) :
    parentOf id ∈ (matrixOf letters raw).techniques := by
  obtain ⟨t, ht, rfl⟩ := List.mem_map.mp h
  exact (hraw.subTechniques t ht).2.2

theorem normal (h : (matrixOf letters raw).techniqueTactics.contains id = true) :
    normaliseTechniqueId letters id = some id := by
  have hmem := (AttackMatrix.contains_techniqueTactics _ raw id).mp h
  rw [List.map_append, List.mem_append] at hmem
  rcases hmem with hmem | hmem
  · obtain ⟨t, ht, rfl⟩ := List.mem_map.mp hmem
    exact (hraw.techniques t ht).1
  · obtain ⟨t, ht, rfl⟩ := List.mem_map.mp hmem
    exact (hraw.subTechniques t ht).1

/-- An id that is not written in the normal way is in no table of current or revoked ids. -/
theorem resolve_eq_none (h : normaliseTechniqueId letters id ≠ some id) :
    ((matrixOf letters raw).resolve id).1 = none := by
  have hrevoked : (matrixOf letters raw).revoked.get? id = none := by
    rw [Dict.get?_eq_none_iff]
    exact fun hkey => h (hraw.revoked id (Dict.mem_keys_ofPairs.mp hkey))
  rw [AttackMatrix.resolve, if_neg fun hcontains => h (hraw.normal hcontains), hrevoked]
  split_ifs with hfalse
  · rfl
  · rfl
  · rfl

end ProperFile

theorem mem_matrix_of_contains (h : (matrixOf letters raw).techniqueTactics.contains id = true) :
    id ∈ (matrixOf letters raw).techniques ∨ id ∈ (matrixOf letters raw).subTechniques := by
  have hmem := (AttackMatrix.contains_techniqueTactics _ raw id).mp h
  rwa [List.map_append, List.mem_append] at hmem

/-! ## What is covered -/

theorem matrix_of_counted {e : CorpusEntry}
    (he : e ∈ (loadCorpus letters scope (matrixOf letters raw) docs).inScope)
    (hid : id ∈ e.mitre.countedTechniques) :
    (matrixOf letters raw).techniqueTactics.contains id = true := by
  obtain ⟨doc, -, rfl⟩ := mem_inScope_loadCorpus he
  exact contains_of_counted hid

theorem mem_ids_of_counted (hraw : ProperFile letters raw) {e : CorpusEntry}
    (he : e ∈ (loadCorpus letters scope (matrixOf letters raw) docs).inScope)
    (hid : id ∈ e.mitre.countedTechniques) :
    id ∈ (loadCorpus letters scope (matrixOf letters raw) docs).covered.ids := by
  rw [CoveredIds.ids, Finset.mem_union]
  rcases mem_matrix_of_contains (matrix_of_counted he hid) with htechnique | hsub
  · refine Or.inl (mem_covered_techniques.mpr ⟨htechnique, e, he, id, hid, ?_⟩)
    exact parentOf_of_not_isSub (hraw.not_isSub htechnique)
  · exact Or.inr (mem_covered_subTechniques.mpr ⟨hsub, e, he, hid⟩)

theorem contains_of_mem_ids
    (h : id ∈ (loadCorpus letters scope (matrixOf letters raw) docs).covered.ids) :
    (matrixOf letters raw).techniqueTactics.contains id = true := by
  refine (AttackMatrix.contains_techniqueTactics _ raw id).mpr ?_
  rw [List.map_append, List.mem_append]
  rcases Finset.mem_union.mp h with hid | hid
  · exact Or.inl (mem_covered_techniques.mp hid).1
  · exact Or.inr (mem_covered_subTechniques.mp hid).1

/-- The parents that the gaps report adds are covered already. -/
theorem coveredTechniqueIds_eq (hraw : ProperFile letters raw) :
    coveredTechniqueIds (computeCoverage (loadCorpus letters scope (matrixOf letters raw) docs)) =
      (loadCorpus letters scope (matrixOf letters raw) docs).covered.ids := by
  refine Finset.union_eq_left.mpr fun parent hparent => ?_
  obtain ⟨id, hid, rfl⟩ := Finset.mem_image.mp hparent
  obtain ⟨hcovered, hsub⟩ := Finset.mem_filter.mp hid
  rcases Finset.mem_union.mp hcovered with htechnique | hsubTechnique
  · have hnot := hraw.not_isSub (mem_covered_techniques.mp htechnique).1
    exact absurd (hsub.symm.trans hnot) nofun
  · obtain ⟨hmatrix, e, he, hcounted⟩ := mem_covered_subTechniques.mp hsubTechnique
    exact Finset.mem_union_left _
      (mem_covered_techniques.mpr ⟨hraw.parentOf_mem hmatrix, e, he, id, hcounted, rfl⟩)

theorem mem_counted_of_techniquesFor {asset : Asset} {metadata : Option Reading}
    {rawMetadata : Option (Dict String (Value X))} {payload : Dict String (Value X)}
    {matrix : AttackMatrix} {tactic : String}
    (h : id ∈
      (extractMitre letters matrix asset metadata rawMetadata payload).techniquesFor tactic) :
    id ∈ (extractMitre letters matrix asset metadata rawMetadata payload).countedTechniques := by
  unfold extractMitre at h ⊢
  cases hreader : payloadReader (X := X) letters asset with
  | none =>
    rw [hreader] at h
    exact absurd h List.not_mem_nil
  | some reader =>
    simp only [hreader] at h ⊢
    unfold ExtractedCoverage.techniquesFor at h
    dsimp only at h
    cases hfind : List.find? (fun p : String × List String => p.1 = tactic) _ with
    | none =>
      rw [hfind] at h
      exact absurd h List.not_mem_nil
    | some p =>
      rw [hfind] at h
      obtain ⟨t, -, rfl⟩ := List.mem_map.mp (List.mem_of_find?_eq_some hfind)
      exact (List.mem_filter.mp h).1

/-! ## Custom lists -/

/-- The id counts for a detection in scope, when it is read as a tag. -/
def IsCounted (letters : Letters) (c : Corpus) (rawId : String) : Prop :=
  ∃ id, (tagOf letters c.matrix rawId).counted? = some id ∧
    ∃ e ∈ c.inScope, id ∈ e.mitre.countedTechniques

theorem resolveRef_of_normal {matrix : AttackMatrix} {ref : TechniqueRef}
    (hnormal : normaliseTechniqueId letters ref.id = some ref.id)
    (h : (tagOf letters matrix ref.id).counted? = some id) :
    (resolveRef matrix false ref).id = id := by
  unfold tagOf at h
  rw [hnormal] at h
  dsimp only at h
  unfold resolveRef
  cases hresolve : matrix.resolve ref.id with
  | mk current status =>
    rw [hresolve] at h
    cases status with
    | current =>
      obtain rfl : ref.id = id := by simpa [Tag.counted?] using h
      cases current <;> rfl
    | revoked =>
      cases current with
      | none => exact absurd h nofun
      | some current => exact Option.some.inj h
    | deprecated => cases current <;> exact absurd h nofun
    | unknown => cases current <;> exact absurd h nofun

theorem resolveRef_of_eq_none {matrix : AttackMatrix} {ref : TechniqueRef}
    (h : (matrix.resolve ref.id).1 = none) : (resolveRef matrix false ref).id = ref.id := by
  unfold resolveRef
  cases hresolve : matrix.resolve ref.id with
  | mk current status =>
    rw [hresolve] at h
    obtain rfl : current = none := h
    rfl

/-- The reports count alike, what the heatmap lists is no gap, and no entry of the custom list that
counts is one. -/
structure ReportsAgree (letters : Letters) (c : Corpus) (refs : List TechniqueRef)
    (source : String) : Prop where
  techniquesCovered :
    (computeGaps (computeCoverage c) (fullReference c.matrix) source).techniquesCovered =
      (summaryFromCorpus c).techniques.covered
  techniquesTotal :
    (computeGaps (computeCoverage c) (fullReference c.matrix) source).techniquesTotal =
      (summaryFromCorpus c).techniques.total
  subTechniquesCovered :
    (computeGaps (computeCoverage c) (fullReference c.matrix) source).subTechniquesCovered =
      (summaryFromCorpus c).subTechniques.covered
  subTechniquesTotal :
    (computeGaps (computeCoverage c) (fullReference c.matrix) source).subTechniquesTotal =
      (summaryFromCorpus c).subTechniques.total
  bucketed : ∀ reference, ∀ bucket ∈ (computeCoverage c).tactics, ∀ id ∈ bucket.techniques.keys,
    ∀ g ∈ (computeGaps (computeCoverage c) reference source).tactics,
      ∀ tech ∈ g.uncovered, tech.id ≠ id
  counted : ∀ reference, ∀ g ∈ (computeGaps (computeCoverage c) reference source).tactics,
    g.coveredCount + g.uncovered.length = g.totalInTactic
  custom : ∀ ref ∈ refs, IsCounted letters c ref.id →
    ∀ g ∈ (computeGaps (computeCoverage c) (resolveReference c.matrix false refs) source).tactics,
      ∀ tech ∈ g.uncovered, tech.id ≠ (resolveRef c.matrix false ref).id

/-- The parents of a reference list, as the gaps report tells them apart. -/
def parentsIn (reference : List TechniqueRef) : Finset String :=
  (reference.map (·.id)).toFinset.filter fun id => isSub id = false

def subsIn (reference : List TechniqueRef) : Finset String :=
  (reference.map (·.id)).toFinset \ parentsIn reference

theorem mem_fullReference {matrix : AttackMatrix} :
    id ∈ ((fullReference matrix).map (·.id)).toFinset ↔
      id ∈ matrix.techniques ∨ id ∈ matrix.subTechniques := by
  simp [fullReference, mem_sortedSet]

section
variable (hraw : ProperFile letters raw)
include hraw

theorem parentsIn_fullReference :
    parentsIn (fullReference (matrixOf letters raw)) =
      (matrixOf letters raw).techniques.toFinset := by
  ext id
  rw [parentsIn, Finset.mem_filter, mem_fullReference, List.mem_toFinset]
  constructor
  · rintro ⟨hid | hid, hnot⟩
    · exact hid
    · exact absurd ((hraw.sub_isSub hid).symm.trans hnot) nofun
  · exact fun hid => ⟨Or.inl hid, hraw.not_isSub hid⟩

theorem subsIn_fullReference :
    subsIn (fullReference (matrixOf letters raw)) =
      (matrixOf letters raw).subTechniques.toFinset := by
  ext id
  rw [subsIn, parentsIn_fullReference hraw, Finset.mem_sdiff, mem_fullReference, List.mem_toFinset,
    List.mem_toFinset]
  constructor
  · rintro ⟨hid | hid, hnot⟩
    · exact absurd hid hnot
    · exact hid
  · refine fun hid => ⟨Or.inr hid, fun htechnique => ?_⟩
    exact absurd ((hraw.sub_isSub hid).symm.trans (hraw.not_isSub htechnique)) nofun

theorem techniques_inter : (matrixOf letters raw).techniques.toFinset ∩
    (loadCorpus letters scope (matrixOf letters raw) docs).covered.ids =
      (loadCorpus letters scope (matrixOf letters raw) docs).covered.techniques := by
  ext id
  rw [Finset.mem_inter, List.mem_toFinset, CoveredIds.ids, Finset.mem_union]
  constructor
  · rintro ⟨hid, hcovered | hsub⟩
    · exact hcovered
    · have hmatrix := hraw.sub_isSub (mem_covered_subTechniques.mp hsub).1
      exact absurd (hmatrix.symm.trans (hraw.not_isSub hid)) nofun
  · exact fun hid => ⟨(mem_covered_techniques.mp hid).1, Or.inl hid⟩

theorem subTechniques_inter : (matrixOf letters raw).subTechniques.toFinset ∩
    (loadCorpus letters scope (matrixOf letters raw) docs).covered.ids =
      (loadCorpus letters scope (matrixOf letters raw) docs).covered.subTechniques := by
  ext id
  rw [Finset.mem_inter, List.mem_toFinset, CoveredIds.ids, Finset.mem_union]
  constructor
  · rintro ⟨hid, hcovered | hsub⟩
    · have hmatrix := hraw.not_isSub (mem_covered_techniques.mp hcovered).1
      exact absurd ((hraw.sub_isSub hid).symm.trans hmatrix) nofun
    · exact hsub
  · exact fun hid => ⟨(mem_covered_subTechniques.mp hid).1, Or.inr hid⟩

theorem bucketed_covered {bucket : TacticCoverage}
    (hbucket : bucket ∈
      (computeCoverage (loadCorpus letters scope (matrixOf letters raw) docs)).tactics)
    (hid : id ∈ bucket.techniques.keys) :
    id ∈ (loadCorpus letters scope (matrixOf letters raw) docs).covered.ids := by
  obtain ⟨tactic, -, rfl⟩ := List.mem_map.mp hbucket
  obtain ⟨e, he, t, ht⟩ := mem_keys_bucketOf hid
  refine mem_ids_of_counted hraw he ?_
  obtain ⟨doc, -, rfl⟩ := mem_inScope_loadCorpus he
  exact mem_counted_of_techniquesFor ht

theorem uncovered_notMem {reference : List TechniqueRef} {source : String} {g : TacticGaps}
    (hg : g ∈ (computeGaps (computeCoverage (loadCorpus letters scope (matrixOf letters raw) docs))
      reference source).tactics) {tech : TechniqueRef} (htech : tech ∈ g.uncovered) :
    tech.id ∉ (loadCorpus letters scope (matrixOf letters raw) docs).covered.ids := by
  obtain ⟨tactic, -, rfl⟩ := List.mem_map.mp hg
  rw [← coveredTechniqueIds_eq hraw]
  exact (((counts_gapsOf _ reference tactic).uncovered tech).mp htech).2

/-- The four reports agree exactly when the entries of the custom list that count are written in the
normal way, or have no tactic that the gaps report knows. -/
theorem reportsAgree_iff (scope : CoverageScope) (docs : List (Parsed X)) (refs : List TechniqueRef)
    (source : String) :
    ReportsAgree letters (loadCorpus letters scope (matrixOf letters raw) docs) refs source ↔
      ∀ ref ∈ refs,
        IsCounted letters (loadCorpus letters scope (matrixOf letters raw) docs) ref.id →
        normaliseTechniqueId letters ref.id = some ref.id ∨
          ∀ tech ∈ resolveReference (matrixOf letters raw) false refs, tech.id = ref.id →
            ∀ t ∈ tech.tactics, t ∉ allTactics := by
  constructor
  · intro h ref href hcounted
    rw [or_iff_not_imp_left]
    intro hnormal tech htech heq t ht hknown
    have hid := resolveRef_of_eq_none (hraw.resolve_eq_none hnormal)
    have hnot : ref.id ∉ coveredTechniqueIds
        (computeCoverage (loadCorpus letters scope (matrixOf letters raw) docs)) := by
      rw [coveredTechniqueIds_eq hraw]
      exact fun hcovered => hnormal (hraw.normal (contains_of_mem_ids hcovered))
    obtain ⟨g, hg, tech', htech', heq'⟩ := exists_uncovered_iff.mpr
      ⟨hnot, tech, htech, heq, t, ht, hknown⟩
    exact h.custom ref href hcounted g hg tech' htech' (heq'.trans hid.symm)
  · intro h
    refine ⟨?_, ?_, ?_, ?_, ?_, ?_, ?_⟩
    · change (parentsIn (fullReference (matrixOf letters raw)) ∩ coveredTechniqueIds _).card = _
      rw [parentsIn_fullReference hraw, coveredTechniqueIds_eq hraw, techniques_inter hraw]
      rfl
    · change (parentsIn (fullReference (matrixOf letters raw))).card = _
      rw [parentsIn_fullReference hraw]
      rfl
    · change (subsIn (fullReference (matrixOf letters raw)) ∩ coveredTechniqueIds _).card = _
      rw [subsIn_fullReference hraw, coveredTechniqueIds_eq hraw, subTechniques_inter hraw]
      rfl
    · change (subsIn (fullReference (matrixOf letters raw))).card = _
      rw [subsIn_fullReference hraw]
      rfl
    · intro reference bucket hbucket id hid g hg tech htech heq
      exact uncovered_notMem hraw hg htech (heq ▸ bucketed_covered hraw hbucket hid)
    · intro reference g hg
      obtain ⟨tactic, -, rfl⟩ := List.mem_map.mp hg
      exact (counts_gapsOf _ reference tactic).total
    · intro ref href hcounted g hg tech htech heq
      obtain ⟨id, htag, e, he, hid⟩ := hcounted
      have hnot := uncovered_notMem hraw hg htech
      by_cases hnormal : normaliseTechniqueId letters ref.id = some ref.id
      · rw [heq, resolveRef_of_normal hnormal htag] at hnot
        exact hnot (mem_ids_of_counted hraw he hid)
      · have hunknown := (h ref href ⟨id, htag, e, he, hid⟩).resolve_left hnormal
        obtain ⟨-, tech', htech', heq', t, ht, hknown⟩ :=
          exists_uncovered_iff.mp ⟨g, hg, tech, htech, heq⟩
        have hwritten := heq'.trans (resolveRef_of_eq_none (hraw.resolve_eq_none hnormal))
        exact hunknown tech' htech' hwritten t ht hknown

end

end

/-! ## An id with a space before it -/

namespace Sample

def letters : Letters where
  lower := id
  upper := id
  isDecimal := Char.isDigit

def raw : MatrixFile where
  source := ""
  schemaVersion := 1
  attackVersion := "17.0"
  tactics := [⟨"TA0002", "execution", "Execution"⟩]
  techniques := [⟨"T1059", "", ["Execution"], none⟩]
  subTechniques := [⟨"T1059.001", "", ["Execution"], some "T1059"⟩]
  revoked := []
  deprecated := []

def rule : Parsed Empty where
  id := "a"
  asset := .sentinelAnalytic
  status := "production"
  metadata := none
  rawMetadata := none
  payload := [("techniques", .list [.str "T1059"])]

def corpus : Corpus := loadCorpus letters {} (matrixOf letters raw) [rule]

def spaced : TechniqueRef := ⟨" T1059", "", ["Execution"]⟩

theorem proper : ProperFile letters raw := ⟨by decide, by decide, by decide⟩

end Sample

theorem reportsAgree_sample :
    ReportsAgree Sample.letters Sample.corpus [⟨"T1059", "", ["Execution"]⟩] "custom" :=
  (reportsAgree_iff Sample.proper {} [Sample.rule] [⟨"T1059", "", ["Execution"]⟩] "custom").mpr
    (by
      intro ref href _
      obtain rfl := List.mem_singleton.mp href
      exact Or.inl (by decide))

/-- The entry is a gap although its technique is covered. -/
theorem not_reportsAgree_spaced :
    ¬ ReportsAgree Sample.letters Sample.corpus [Sample.spaced] "custom" := by
  intro h
  have hcounted : IsCounted Sample.letters Sample.corpus Sample.spaced.id :=
    ⟨"T1059", by decide,
      entryFor Sample.letters {} (matrixOf Sample.letters Sample.raw) Sample.rule, by decide,
      by decide⟩
  obtain ⟨g, hg, tech, htech, heq⟩ := (@exists_uncovered_iff
    (coveredTechniqueIds (computeCoverage Sample.corpus))
    (resolveReference Sample.corpus.matrix false [Sample.spaced]) Sample.spaced.id).mpr
      ⟨by decide, Sample.spaced, by decide, rfl, "Execution", by decide, by decide⟩
  exact h.custom Sample.spaced List.mem_cons_self hcounted g hg tech htech (heq.trans (by decide))

end ContentOps.Coverage
