import ContentOps.Alerts.OverlayAgreement

/-! The overlay of ARM incidents over the daily files, a second time: the incident of an entry stays
the same and has nothing left to change. -/

namespace ContentOps.Alerts
open PyData

section
variable {T : Type} (cal : Calendar T)

/-- The changed entries of each file that has some. -/
def changedEntries (dir : DailyDir) (incidents : List ArmIncident) : List Nat :=
  ((dir.glob isJsonlName).map fun file =>
    ((loadLedger file.2).map (patchEntry cal incidents)).countP (·.2)).filter (· ≠ 0)

/-- What `apply_arm_overlay_to_daily_files` returns: `(files_patched, entries_updated)`. -/
def overlayResult (dir : DailyDir) (incidents : List ArmIncident) : Nat × Nat :=
  ((changedEntries cal dir incidents).length, (changedEntries cal dir incidents).sum)

/-! ## One entry -/

/-- What an incident says of an entry that it has just patched is there already. -/
theorem changes_patch {inc : ArmIncident} {e : LedgerEntry} (hchanges : inc.changes cal e = true) :
    inc.changes cal (inc.patch cal e).1 = false := by
  have hclass : (inc.stated.any fun c => c ≠ (inc.patch cal e).1.classification) = false := by
    unfold ArmIncident.patch
    rw [if_pos hchanges]
    cases inc.stated with
    | none => rfl
    | some c => simp
  have hclosed : (inc.patch cal e).1.closedAt =
      if inc.reverts e then none else (inc.statedClosing cal).or e.closedAt := by
    unfold ArmIncident.patch
    rw [if_pos hchanges]
  -- A reopened incident states no time of closing, so at most one of the two says anything.
  have hreverts : inc.reverts (inc.patch cal e).1 = false := by
    unfold ArmIncident.reverts at hclosed ⊢
    rw [hclosed]
    unfold ArmIncident.statedClosing
    cases inc.isReopened <;> cases e.closedAt <;> rfl
  have hclosing :
      ((inc.statedClosing cal).any fun c => some c ≠ (inc.patch cal e).1.closedAt) = false := by
    rw [hclosed]
    unfold ArmIncident.reverts ArmIncident.statedClosing
    cases inc.isReopened with
    | true => rfl
    | false => cases inc.closedTime cal <;> simp
  have hnumber :
      (inc.incidentNumber.any fun n => some n ≠ (inc.patch cal e).1.incidentNumber) = false := by
    unfold ArmIncident.patch
    rw [if_pos hchanges]
    cases inc.incidentNumber with
    | none => rfl
    | some n => simp
  unfold ArmIncident.changes
  rw [hclass, hreverts, hclosing, hnumber]
  rfl

theorem patch_patch (inc : ArmIncident) (e : LedgerEntry) :
    inc.patch cal (inc.patch cal e).1 = ((inc.patch cal e).1, false) := by
  by_cases hchanges : inc.changes cal e = true
  · have hsame := changes_patch cal hchanges
    generalize (inc.patch cal e).1 = patched at hsame ⊢
    unfold ArmIncident.patch
    rw [if_neg (by simp [hsame])]
  · have hkeeps : inc.patch cal e = (e, false) := by
      unfold ArmIncident.patch
      rw [if_neg hchanges]
    rw [hkeeps]
    exact hkeeps

theorem alertId_patch (inc : ArmIncident) (e : LedgerEntry) :
    (inc.patch cal e).1.alertId = e.alertId := by
  unfold ArmIncident.patch
  split_ifs <;> rfl

theorem incidentNumber_patch (inc : ArmIncident) (e : LedgerEntry) :
    (inc.patch cal e).1.incidentNumber = inc.incidentNumber.or e.incidentNumber :=
  congrArg Lifecycle.incidentNumber (lifecycle_patch cal inc e)

/-- The patched entry is matched to the incident that patched it. -/
theorem fileIncident_patch {incidents : List ArmIncident} {inc : ArmIncident} {e : LedgerEntry}
    (h : fileIncident e incidents = some inc) :
    fileIncident (inc.patch cal e).1 incidents = some inc := by
  unfold fileIncident at h ⊢
  rw [alertId_patch, incidentNumber_patch]
  rcases Option.or_eq_some_iff.mp h with hlisted | ⟨hlisted, hnumbered⟩
  · rw [hlisted]
    rfl
  · -- An incident found by the number of the entry has this number, and so has the entry after.
    obtain ⟨n, hn, hlast⟩ := Option.bind_eq_some_iff.mp hnumbered
    have hkey : n ∈ inc.incidentNumber.toList :=
      @KeyIndex.key_mem_of_last _ _ _ (fun i : ArmIncident => i.incidentNumber.toList) _ _ _ hlast
    rw [Option.mem_toList.mp hkey, hlisted, Option.some_or, Option.none_or, Option.bind_some]
    exact hlast

theorem patchEntry_of_none {incidents : List ArmIncident} {e : LedgerEntry}
    (h : fileIncident e incidents = none) : patchEntry cal incidents e = (e, false) := by
  unfold patchEntry
  simp only [patchFor_eq, h]

theorem patchEntry_of_some {incidents : List ArmIncident} {e : LedgerEntry} {inc : ArmIncident}
    (h : fileIncident e incidents = some inc) : patchEntry cal incidents e = inc.patch cal e := by
  unfold patchEntry
  simp only [patchFor_eq, h]

theorem patchEntry_patchEntry (incidents : List ArmIncident) (e : LedgerEntry) :
    patchEntry cal incidents (patchEntry cal incidents e).1 =
      ((patchEntry cal incidents e).1, false) := by
  cases hinc : fileIncident e incidents with
  | none =>
    have hkeeps := patchEntry_of_none cal hinc
    rw [hkeeps]
    exact hkeeps
  | some inc =>
    rw [patchEntry_of_some cal hinc, patchEntry_of_some cal (fileIncident_patch cal hinc)]
    exact patch_patch cal inc e

/-- The entry afterwards differs in its lifecycle and its source only, and not at all when no
incident matches it. -/
structure OverlaidFrom (incidents : List ArmIncident) (e e' : LedgerEntry) : Prop where
  rest : { e' with
    classification := e.classification
    closedAt := e.closedAt
    incidentNumber := e.incidentNumber
    source := e.source } = e
  unmatched : fileIncident e incidents = none → e' = e

theorem overlaidFrom_patchEntry (incidents : List ArmIncident) (e : LedgerEntry) :
    OverlaidFrom incidents e (patchEntry cal incidents e).1 := by
  unfold patchEntry
  rw [patchFor_eq]
  cases hinc : fileIncident e incidents with
  | none => exact ⟨rfl, fun _ => rfl⟩
  | some inc =>
    refine ⟨?_, fun hnone => absurd (hinc.symm.trans hnone) (Option.some_ne_none inc)⟩
    dsimp only
    unfold ArmIncident.patch
    split_ifs <;> rfl

/-! ## The files -/

/-- The text of a file afterwards, from the text before. -/
def overlaidText (incidents : List ArmIncident) (name : String) (content : Text) : Text :=
  if isJsonlName name then
    let patched := (loadLedger content).map (patchEntry cal incidents)
    if patched.any (·.2) then ledgerText (patched.map (·.1)) else content
  else content

theorem read_overlayDailyFiles (dir : DailyDir) (incidents : List ArmIncident) (name : String) :
    (overlayDailyFiles cal dir incidents).read name =
      (dir.read name).map (overlaidText cal incidents name) :=
  Directory.read_mapContents dir (overlaidText cal incidents) name

theorem loadLedger_overlaidText (incidents : List ArmIncident) {name : String}
    (hname : isJsonlName name = true) (content : Text) :
    loadLedger (overlaidText cal incidents name content) =
      (loadLedger content).map fun e => (patchEntry cal incidents e).1 := by
  unfold overlaidText
  rw [if_pos hname]
  dsimp only
  by_cases hany : ((loadLedger content).map (patchEntry cal incidents)).any (·.2) = true
  · rw [if_pos hany, loadLedger_ledgerText, List.map_map]
    rfl
  · rw [if_neg hany]
    symm
    refine (List.map_congr_left fun e he => ?_).trans (List.map_id _)
    refine patchEntry_unchanged cal (Bool.eq_false_iff.mpr fun hchanged => hany ?_)
    exact List.any_eq_true.mpr ⟨_, List.mem_map_of_mem he, hchanged⟩

/-- No entry of an overlaid file changes again. -/
theorem patched_overlaidText (incidents : List ArmIncident) {name : String}
    (hname : isJsonlName name = true) (content : Text) :
    ∀ p ∈ (loadLedger (overlaidText cal incidents name content)).map (patchEntry cal incidents),
      p.2 = false := by
  rw [loadLedger_overlaidText cal incidents hname, List.map_map]
  intro p hp
  obtain ⟨e, -, rfl⟩ := List.mem_map.mp hp
  exact congrArg Prod.snd (patchEntry_patchEntry cal incidents e)

theorem overlaidText_overlaidText (incidents : List ArmIncident) (name : String) (content : Text) :
    overlaidText cal incidents name (overlaidText cal incidents name content) =
      overlaidText cal incidents name content := by
  by_cases hname : isJsonlName name = true
  · have hnone := patched_overlaidText cal incidents hname content
    generalize overlaidText cal incidents name content = after at hnone ⊢
    unfold overlaidText
    rw [if_pos hname]
    refine if_neg fun hany => ?_
    obtain ⟨p, hp, hchanged⟩ := List.any_eq_true.mp hany
    rw [hnone p hp] at hchanged
    exact Bool.false_ne_true hchanged
  · have hkeeps : ∀ content, overlaidText cal incidents name content = content :=
      fun _ => if_neg hname
    rw [hkeeps]

theorem overlayResult_again (dir : DailyDir) (incidents : List ArmIncident) :
    overlayResult cal (overlayDailyFiles cal dir incidents) incidents = (0, 0) := by
  have hnone : changedEntries cal (overlayDailyFiles cal dir incidents) incidents = [] := by
    unfold changedEntries
    rw [List.filter_eq_nil_iff]
    intro n hn
    obtain ⟨⟨name, after⟩, hfile, rfl⟩ := List.mem_map.mp hn
    obtain ⟨hread, hname⟩ := Directory.mem_glob.mp hfile
    dsimp only at hread hname ⊢
    rw [read_overlayDailyFiles] at hread
    obtain ⟨content, -, rfl⟩ := Option.map_eq_some_iff.mp hread
    have hcount := List.countP_eq_zero.mpr fun p hp =>
      Bool.eq_false_iff.mp (patched_overlaidText cal incidents hname content p hp)
    simpa using hcount
  unfold overlayResult
  rw [hnone]
  rfl

/-- A second overlay of the same incidents changes nothing, and the first keeps every entry in its
place and, but for its lifecycle and source, as it was. -/
theorem overlayDailyFiles_idempotent (dir : DailyDir) (incidents : List ArmIncident) :
    overlayResult cal (overlayDailyFiles cal dir incidents) incidents = (0, 0) ∧
      overlayDailyFiles cal (overlayDailyFiles cal dir incidents) incidents =
        overlayDailyFiles cal dir incidents ∧
      ∀ name, Option.Rel (fun before after =>
          (isJsonlName name = false → after = before) ∧
            List.Forall₂ (OverlaidFrom incidents) (loadLedger before) (loadLedger after))
        (dir.read name) ((overlayDailyFiles cal dir incidents).read name) := by
  refine ⟨overlayResult_again cal dir incidents, ?_, fun name => ?_⟩
  · refine Directory.ext_read fun name => ?_
    rw [read_overlayDailyFiles, read_overlayDailyFiles, Option.map_map]
    congr 1
    funext content
    exact overlaidText_overlaidText cal incidents name content
  · rw [read_overlayDailyFiles]
    cases dir.read name with
    | none => exact .none
    | some content =>
      refine .some ⟨fun hname => if_neg (by simp [hname]), ?_⟩
      by_cases hname : isJsonlName name = true
      · rw [loadLedger_overlaidText cal incidents hname, List.forall₂_map_right_iff,
          List.forall₂_same]
        exact fun e _ => overlaidFrom_patchEntry cal incidents e
      · have hkeeps : overlaidText cal incidents name content = content := if_neg hname
        rw [hkeeps, List.forall₂_same]
        exact fun e _ => ⟨rfl, fun _ => rfl⟩

end
end ContentOps.Alerts
