import ContentOps.Core.Drift
import ContentOps.Library.DateTime

/-! Suppressed drift, `drift_suppressions.py`: entries of a drift report are taken out of it while a
suppression names them. -/

namespace ContentOps
open PyData

instance (d e : Date) : Decidable (d ≤ e) := inferInstanceAs (Decidable (_ ∨ _))

structure Suppression where
  asset : String
  id : String
  reason : String
  expires : Date

/-- `self.expires < today`. -/
def Suppression.expired (s : Suppression) (today : Date) : Bool := !(today ≤ s.expires)

section
variable {X : Type}

def Suppression.matchesEntry (s : Suppression) (entry : DriftEntry X) : Bool :=
  s.asset = entry.asset.value && s.id = entry.assetId

structure FilterResult (X : Type) where
  filtered : List (DriftEntry X) := []
  suppressed : List (DriftEntry X) := []
  expired : List Suppression := []
  unused : List Suppression := []

/-- `by_key`: one suppression for each asset and id. -/
def byKey (suppressions : List Suppression) : Dict (String × String) Suppression :=
  Dict.ofPairs (suppressions.map fun s => ((s.asset, s.id), s))

def entryKey (entry : DriftEntry X) : String × String := (entry.asset.value, entry.assetId)

/-- One entry in the loop; the first component is `matched_keys`. -/
def suppressStep (suppressions : List Suppression) (today : Date)
    (state : List (String × String) × FilterResult X) (entry : DriftEntry X) :
    List (String × String) × FilterResult X :=
  let (matched, out) := state
  match (byKey suppressions).get? (entryKey entry) with
  | none => (matched, { out with filtered := out.filtered ++ [entry] })
  | some s =>
    let matched := matched ++ [entryKey entry]
    if s.expired today then
      (matched, { out with expired := out.expired ++ [s], filtered := out.filtered ++ [entry] })
    else (matched, { out with suppressed := out.suppressed ++ [entry] })

def applySuppressions (report : List (DriftEntry X)) (suppressions : List Suppression)
    (today : Date) : FilterResult X :=
  let (matched, out) := report.foldl (suppressStep suppressions today) ([], {})
  { out with unused := suppressions.filter fun s => !matched.contains (s.asset, s.id) }

/-! ## What one entry adds -/

variable {suppressions : List Suppression} {today : Date}

/-- The suppression that stands for an entry has not expired. -/
def isSuppressed (suppressions : List Suppression) (today : Date) (entry : DriftEntry X) : Bool :=
  ((byKey suppressions).get? (entryKey entry)).any fun s => !s.expired today

def isNamed (suppressions : List Suppression) (entry : DriftEntry X) : Bool :=
  ((byKey suppressions).get? (entryKey entry)).isSome

theorem matchesEntry_iff (s : Suppression) (entry : DriftEntry X) :
    s.matchesEntry entry = true ↔ (s.asset, s.id) = entryKey entry := by
  simp [Suppression.matchesEntry, entryKey]

variable (suppressions today) in
theorem suppressStep_eq (matched : List (String × String)) (out : FilterResult X)
    (entry : DriftEntry X) :
    ∃ expired, suppressStep suppressions today (matched, out) entry =
      (matched ++ ([entry].filter (isNamed suppressions)).map entryKey,
        { filtered := out.filtered ++ [entry].filter fun e => !isSuppressed suppressions today e
          suppressed := out.suppressed ++ [entry].filter (isSuppressed suppressions today)
          expired := expired
          unused := out.unused }) := by
  unfold suppressStep isNamed isSuppressed
  cases hget : (byKey suppressions).get? (entryKey entry) with
  | none => exact ⟨out.expired, by simp [hget]⟩
  | some s =>
    by_cases hs : s.expired today = true
    · exact ⟨out.expired ++ [s], by simp [hget, hs]⟩
    · exact ⟨out.expired, by simp [hget, hs]⟩

variable (suppressions today) in
/-- The loop sorts the entries into two lists and keeps their order. -/
theorem foldl_suppressStep (report : List (DriftEntry X)) (matched : List (String × String))
    (out : FilterResult X) :
    ∃ expired, report.foldl (suppressStep suppressions today) (matched, out) =
      (matched ++ (report.filter (isNamed suppressions)).map entryKey,
        { filtered := out.filtered ++ report.filter fun e => !isSuppressed suppressions today e
          suppressed := out.suppressed ++ report.filter (isSuppressed suppressions today)
          expired := expired
          unused := out.unused }) := by
  induction report generalizing matched out with
  | nil => exact ⟨out.expired, by simp⟩
  | cons entry report ih =>
    obtain ⟨expired, hstep⟩ := suppressStep_eq suppressions today matched out entry
    rw [List.foldl_cons, hstep]
    obtain ⟨expired', hrest⟩ := ih (matched ++ ([entry].filter (isNamed suppressions)).map entryKey)
      { filtered := out.filtered ++ [entry].filter fun e => !isSuppressed suppressions today e
        suppressed := out.suppressed ++ [entry].filter (isSuppressed suppressions today)
        expired := expired
        unused := out.unused }
    refine ⟨expired', hrest.trans ?_⟩
    have hcons : ∀ p : DriftEntry X → Bool,
        (entry :: report).filter p = [entry].filter p ++ report.filter p := fun p => by
      rw [← List.filter_append, List.singleton_append]
    simp only [hcons, List.append_assoc, List.map_append]

/-! ## Which suppression stands for an entry -/

theorem mem_of_byKey {entry : DriftEntry X} {s : Suppression}
    (h : (byKey suppressions).get? (entryKey entry) = some s) :
    s ∈ suppressions ∧ s.matchesEntry entry = true := by
  obtain ⟨s', hs', heq⟩ := List.mem_map.mp (Dict.mem_ofPairs (Dict.mem_of_get? h))
  obtain ⟨hkey, rfl⟩ := Prod.mk.inj heq
  exact ⟨hs', (matchesEntry_iff s' entry).mpr hkey⟩

variable (suppressions) in
theorem isNamed_iff (entry : DriftEntry X) :
    isNamed suppressions entry = true ↔ ∃ s ∈ suppressions, s.matchesEntry entry = true := by
  unfold isNamed
  constructor
  · intro h
    obtain ⟨s, hs⟩ := Option.isSome_iff_exists.mp h
    exact ⟨s, mem_of_byKey hs⟩
  · rintro ⟨s, hs, hfor⟩
    by_contra hnone
    have hnot := Dict.get?_eq_none_iff.mp (Option.not_isSome_iff_eq_none.mp hnone)
    refine hnot (Dict.mem_keys_ofPairs.mpr ?_)
    exact List.mem_map.mpr ⟨_, List.mem_map_of_mem hs, (matchesEntry_iff s entry).mp hfor⟩

theorem exists_of_isSuppressed {entry : DriftEntry X}
    (h : isSuppressed suppressions today entry = true) :
    ∃ s ∈ suppressions, s.matchesEntry entry = true ∧ s.expired today = false := by
  obtain ⟨s, hs, hactive⟩ := (Option.any_eq_true _ _).mp h
  obtain ⟨hmem, hfor⟩ := mem_of_byKey hs
  exact ⟨s, hmem, hfor, by simpa using hactive⟩

theorem isSuppressed_of_forall {entry : DriftEntry X} (hnamed : isNamed suppressions entry = true)
    (h : ∀ s ∈ suppressions, s.matchesEntry entry = true → s.expired today = false) :
    isSuppressed suppressions today entry = true := by
  obtain ⟨s, hs⟩ := Option.isSome_iff_exists.mp hnamed
  obtain ⟨hmem, hfor⟩ := mem_of_byKey hs
  exact (Option.any_eq_true _ _).mpr ⟨s, hs, by simp [h s hmem hfor]⟩

/-! ## The result -/

/-- The entries are split by `p` in their order, and what is unused names none of them. -/
structure SplitBy (report : List (DriftEntry X)) (suppressions : List Suppression)
    (out : FilterResult X) (p : DriftEntry X → Bool) : Prop where
  suppressed : out.suppressed = report.filter p
  filtered : out.filtered = report.filter fun e => !p e
  unused : out.unused = suppressions.filter fun s => report.all fun e => !s.matchesEntry e

theorem splitBy_isSuppressed (report : List (DriftEntry X)) (suppressions : List Suppression)
    (today : Date) :
    SplitBy report suppressions (applySuppressions report suppressions today)
      (isSuppressed suppressions today) := by
  obtain ⟨expired, hrun⟩ :=
    foldl_suppressStep suppressions today report [] {}
  unfold applySuppressions
  rw [hrun]
  refine ⟨by simp, by simp, ?_⟩
  refine List.filter_congr fun s hs => ?_
  rw [Bool.eq_iff_iff, Bool.not_eq_true', ← Bool.not_eq_true, List.contains_iff_mem,
    List.all_eq_true]
  constructor
  · intro hnot e he
    cases hfor : s.matchesEntry e with
    | false => rfl
    | true =>
      have hnamed := (isNamed_iff suppressions e).mpr ⟨s, hs, hfor⟩
      refine absurd ?_ hnot
      rw [List.nil_append, (matchesEntry_iff s e).mp hfor]
      exact List.mem_map_of_mem (List.mem_filter.mpr ⟨he, hnamed⟩)
  · intro hall hmem
    obtain ⟨e, he, heq⟩ := List.mem_map.mp (List.nil_append _ ▸ hmem)
    have hfor := (matchesEntry_iff s e).mpr heq.symm
    simpa [hfor] using hall e (List.mem_filter.mp he).1

/-- Only changed entries are taken out, and a suppression is used when a changed entry has its
name. -/
structure SplitsChanged (report : List (DriftEntry X)) (suppressions : List Suppression)
    (today : Date) (out : FilterResult X) : Prop where
  suppressed : out.suppressed = report.filter fun e => e.kind = .changed &&
    suppressions.any fun s => s.matchesEntry e && !s.expired today
  filtered : out.filtered = report.filter fun e => !(e.kind = .changed &&
    suppressions.any fun s => s.matchesEntry e && !s.expired today)
  unused : out.unused = suppressions.filter fun s =>
    report.all fun e => !(e.kind = .changed && s.matchesEntry e)

end

def midMay : Date := ⟨2024, 5, 17, by decide, by decide, by decide⟩

def tunedRule : Suppression := ⟨"sentinel_analytic", "foo", "tuned in the portal", midMay⟩

def fooInSync : DriftEntry Empty := ⟨.sentinelAnalytic, "foo", .inSync, none, none, none⟩

end ContentOps
