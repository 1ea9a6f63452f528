import ContentOps.Alerts.Incidents

/-! When the two overlays of ARM incidents leave an alert with the same lifecycle. They do not pick
its incident alike, and they treat an incident that was opened again differently. -/

namespace ContentOps.Alerts
open PyData

theorem parseDigits_digitsOf (n : Nat) : parseDigits (Json.digitsOf n) = some n := by
  have hdigit : ∀ c ∈ Json.digitsOf n, c.isDigit = true := fun c hc => Json.digitsOf_isDigit hc
  have hunder : '_' ∉ Json.digitsOf n := fun hc => absurd (hdigit _ hc) (by decide)
  have hne : Json.digitsOf n ≠ [] := Json.digitsOf_ne_nil n
  have hhead := List.head?_eq_some_head hne
  have hlast := List.getLast?_eq_some_getLast hne
  have hinside : ¬ ['_', '_'] <:+: Json.digitsOf n := fun h => hunder (h.subset (by simp))
  have hfilter : (Json.digitsOf n).filter (· ≠ '_') = Json.digitsOf n :=
    List.filter_eq_self.mpr fun c hc => decide_eq_true fun h => hunder (h ▸ hc)
  unfold parseDigits
  rw [hfilter, if_pos, Json.digitsOf, Nat.ofDigitChars_ten_toDigits]
  rw [hhead, hlast]
  simp [hinside, hdigit _ (List.head_mem hne), hdigit _ (List.getLast_mem hne)]
  exact fun c hc => .inl (hdigit c hc)

/-- `int(str(n))`. -/
theorem parseInt_intText (n : Int) : parseInt (intText n) = some n := by
  have hspace : ∀ m, ∀ c ∈ Json.digitsOf m, Text.isSpace c = false := fun m c hc =>
    Text.isSpace_eq_false_of_isDigit (Json.digitsOf_isDigit hc)
  have hsign : ∀ m : Nat, ∀ t, ('-' :: t ≠ Json.digitsOf m) ∧ ('+' :: t ≠ Json.digitsOf m) := by
    intro m t
    constructor <;> intro ht <;>
      exact absurd (Json.digitsOf_isDigit (ht ▸ List.mem_cons_self)) (by decide)
  unfold parseInt intText
  rw [String.toList_ofList]
  cases n with
  | ofNat m =>
    have hwrite : Json.writeInt (Int.ofNat m) = Json.digitsOf m := rfl
    rw [hwrite, Text.strip_eq_self_of_forall (hspace m)]
    split
    · next t ht => exact absurd ht.symm (hsign m t).1
    · next t ht => exact absurd ht.symm (hsign m t).2
    · rw [parseDigits_digitsOf]
      rfl
  | negSucc m =>
    have hwrite : Json.writeInt (Int.negSucc m) = '-' :: Json.digitsOf (m + 1) := rfl
    have hstrip : Text.strip ('-' :: Json.digitsOf (m + 1)) = '-' :: Json.digitsOf (m + 1) := by
      apply Text.strip_eq_self_of_forall
      intro c hc
      rcases List.mem_cons.mp hc with rfl | hc
      · decide
      · exact hspace _ c hc
    rw [hwrite, hstrip]
    simp only [parseDigits_digitsOf]
    rfl

theorem intText_ne_empty (n : Int) : intText n ≠ "" := by
  intro h
  have hnone : parseInt "" = none := by decide
  rw [← h, parseInt_intText] at hnone
  exact absurd hnone (by simp)

theorem bind_parseInt_intText (n : Int) :
    (Option.filter (· ≠ "") (some (intText n))).bind parseInt = some n := by
  rw [Option.filter_some, if_pos (decide_eq_true (intText_ne_empty n)), Option.bind_some,
    parseInt_intText]

structure Lifecycle where
  classification : String
  closedAt : Option String
  incidentNumber : Option Int
deriving DecidableEq

def LedgerEntry.lifecycle (e : LedgerEntry) : Lifecycle :=
  ⟨e.classification, e.closedAt, e.incidentNumber⟩

section
variable {T : Type} (cal : Calendar T)

/-- Whichever way the incidents arrive, the lifecycle of the alert comes out the same. -/
def OverlaysAgree (a : NormalizedAlert T) (incidents : List ArmIncident) : Prop :=
  ∀ (dir : DailyDir) (day : String),
    (dailyEntries (overlayDailyFiles cal
      (writeDailyFile dir day [normalizeToEntry cal a]) incidents) day).map
        (·.map LedgerEntry.lifecycle) =
      some ((overlayArmIncidents cal [a] incidents).map fun b => (normalizeToEntry cal b).lifecycle)

/-! ## The incidents that are picked -/

def memoryIncident (a : NormalizedAlert T) (incidents : List ArmIncident) : Option ArmIncident :=
  KeyIndex.last (ArmIncident.memoryKeys [a]) incidents a.id

def fileIncident (e : LedgerEntry) (incidents : List ArmIncident) : Option ArmIncident :=
  (KeyIndex.last ArmIncident.alertIds incidents e.alertId).or
    (e.incidentNumber.bind (KeyIndex.last (·.incidentNumber.toList) incidents))

theorem overlayArmIncidents_singleton (a : NormalizedAlert T) (incidents : List ArmIncident) :
    overlayArmIncidents cal [a] incidents = [match memoryIncident a incidents with
      | some inc => inc.overlay cal a
      | none => a] := by
  simp only [overlayArmIncidents, KeyIndex.get?_build, Option.map_id_fun, id_eq, List.map_cons,
    List.map_nil, memoryIncident] <;> rfl

theorem patchFor_eq (incidents : List ArmIncident) (e : LedgerEntry) :
    patchFor incidents e = fileIncident e incidents := by
  have hnumber : (KeyIndex.build (·.incidentNumber.toList) id incidents).get? =
      KeyIndex.last (·.incidentNumber.toList) incidents := by
    funext n
    rw [KeyIndex.get?_build, Option.map_id_fun, id_eq]
  unfold patchFor fileIncident
  rw [KeyIndex.get?_build, Option.map_id_fun, id_eq, hnumber]

/-! ## What an incident says -/

/-- The overlay in memory leaves the alert a time of closing. -/
def ArmIncident.keepsClosing (inc : ArmIncident) (a : NormalizedAlert T) : Bool :=
  inc.closedTimeUtc ≠ "" || inc.newStatus a = .resolved

/-- The lifecycle that the overlay in memory gives the alert. -/
def ArmIncident.memoryLifecycle (inc : ArmIncident) (a : NormalizedAlert T) : Lifecycle where
  classification := inc.stated.getD a.classification.value
  closedAt :=
    if inc.keepsClosing a then ((inc.closedTime cal).or a.resolved).map cal.isoformat else none
  incidentNumber := inc.incidentNumber.or (normalizeToEntry cal a).incidentNumber

/-- The lifecycle that the overlay of the files gives the entry. -/
def ArmIncident.fileLifecycle (inc : ArmIncident) (e : LedgerEntry) : Lifecycle where
  classification :=
    if inc.reverts e then inc.stated.getD "undetermined" else inc.stated.getD e.classification
  closedAt := if inc.reverts e then none else (inc.statedClosing cal).or e.closedAt
  incidentNumber := inc.incidentNumber.or e.incidentNumber

theorem incidentNumber_overlay (inc : ArmIncident) (a : NormalizedAlert T) :
    (normalizeToEntry cal (inc.overlay cal a)).incidentNumber =
      inc.incidentNumber.or (normalizeToEntry cal a).incidentNumber := by
  have hincident : (inc.overlay cal a).incident? =
      ((inc.incidentNumber.map intText).or a.incidentId).filter (· ≠ "") := rfl
  unfold normalizeToEntry
  dsimp only
  rw [hincident]
  cases inc.incidentNumber with
  | none => rfl
  | some n =>
    rw [Option.map_some, Option.some_or, bind_parseInt_intText, Option.some_or]

theorem resolved_overlay (inc : ArmIncident) (a : NormalizedAlert T) :
    (inc.overlay cal a).resolved =
      if inc.keepsClosing a then (inc.closedTime cal).or a.resolved else none := by
  unfold ArmIncident.overlay ArmIncident.keepsClosing ArmIncident.closedTime
  dsimp only
  by_cases htime : inc.closedTimeUtc = ""
  · by_cases hstatus : inc.newStatus a = .resolved <;> simp [htime, hstatus]
  · simp [htime]

theorem lifecycle_overlay (inc : ArmIncident) (a : NormalizedAlert T) :
    (normalizeToEntry cal (inc.overlay cal a)).lifecycle = inc.memoryLifecycle cal a := by
  have hclass : (inc.overlay cal a).classification.value =
      inc.stated.getD a.classification.value := by
    unfold ArmIncident.overlay ArmIncident.stated
    by_cases hstates : inc.classification = ""
    · rw [if_pos hstates]
      dsimp only
      rw [if_pos hstates, Option.getD_none]
    · rw [if_neg hstates]
      dsimp only
      rw [if_neg hstates, Option.getD_some]
  have hclosed : (inc.overlay cal a).resolved.map cal.isoformat =
      if inc.keepsClosing a then ((inc.closedTime cal).or a.resolved).map cal.isoformat
      else none := by
    rw [resolved_overlay, apply_ite (Option.map cal.isoformat), Option.map_none]
  unfold ArmIncident.memoryLifecycle
  rw [← hclass, ← hclosed, ← incidentNumber_overlay]
  rfl

theorem lifecycle_patch (inc : ArmIncident) (e : LedgerEntry) :
    (inc.patch cal e).1.lifecycle = inc.fileLifecycle cal e := by
  unfold ArmIncident.patch
  split
  · rfl
  · next hkeeps =>
    simp only [ArmIncident.changes, Bool.or_eq_true, not_or, Bool.not_eq_true] at hkeeps
    obtain ⟨⟨⟨hclass, hreverts⟩, hclosing⟩, hnumber⟩ := hkeeps
    unfold LedgerEntry.lifecycle ArmIncident.fileLifecycle
    rw [hreverts]
    simp only [Bool.false_eq_true, if_false, Lifecycle.mk.injEq]
    refine ⟨?_, ?_, ?_⟩
    · cases hs : inc.stated <;> simp_all
    · cases hs : inc.statedClosing cal <;> simp_all
    · cases hs : inc.incidentNumber <;> simp_all

theorem patch_unchanged {inc : ArmIncident} {e : LedgerEntry} (h : (inc.patch cal e).2 = false) :
    (inc.patch cal e).1 = e := by
  unfold ArmIncident.patch at h ⊢
  split
  · next hchanges => rw [if_pos hchanges] at h; exact absurd h (by simp)
  · rfl

/-! ## The patched file -/

theorem patchEntry_unchanged {incidents : List ArmIncident} {e : LedgerEntry}
    (h : (patchEntry cal incidents e).2 = false) : (patchEntry cal incidents e).1 = e := by
  unfold patchEntry at h ⊢
  cases hpatch : patchFor incidents e with
  | none => rfl
  | some inc =>
    simp only [hpatch] at h ⊢
    exact patch_unchanged cal h

/-- Written again or not, the file holds the patched entries. -/
theorem dailyEntries_overlayDailyFiles (dir : DailyDir) (incidents : List ArmIncident)
    (day : String) :
    dailyEntries (overlayDailyFiles cal dir incidents) day =
      (dailyEntries dir day).map (·.map fun e => (patchEntry cal incidents e).1) := by
  unfold dailyEntries overlayDailyFiles
  rw [Directory.read_mapContents, isJsonlName_dailyFileName, Option.map_map, Option.map_map]
  congr 1
  funext content
  simp only [Function.comp_apply, if_true]
  split
  · rw [loadLedger_ledgerText, List.map_map]
    rfl
  · next hsame =>
    symm
    refine (List.map_congr_left fun e he => ?_).trans (List.map_id _)
    refine patchEntry_unchanged cal (Bool.eq_false_iff.mpr fun hchanged => hsame ?_)
    exact List.any_eq_true.mpr ⟨_, List.mem_map_of_mem he, hchanged⟩

@[simp] theorem dailyEntries_writeDailyFile (dir : DailyDir) (day : String)
    (es : List LedgerEntry) : dailyEntries (writeDailyFile dir day es) day = some es := by
  unfold dailyEntries writeDailyFile
  rw [Directory.read_write_self, Option.map_some, loadLedger_ledgerText]

/-- The lifecycle that the picked incident, if any, gives the alert in memory. -/
def memoryLifecycle (a : NormalizedAlert T) (incidents : List ArmIncident) : Lifecycle :=
  match memoryIncident a incidents with
  | some inc => inc.memoryLifecycle cal a
  | none => (normalizeToEntry cal a).lifecycle

def fileLifecycle (e : LedgerEntry) (incidents : List ArmIncident) : Lifecycle :=
  match fileIncident e incidents with
  | some inc => inc.fileLifecycle cal e
  | none => e.lifecycle

theorem overlaysAgree_iff_lifecycle (a : NormalizedAlert T) (incidents : List ArmIncident) :
    OverlaysAgree cal a incidents ↔
      fileLifecycle cal (normalizeToEntry cal a) incidents = memoryLifecycle cal a incidents := by
  have hfile : (patchEntry cal incidents (normalizeToEntry cal a)).1.lifecycle =
      fileLifecycle cal (normalizeToEntry cal a) incidents := by
    unfold patchEntry fileLifecycle
    rw [patchFor_eq]
    cases fileIncident (normalizeToEntry cal a) incidents with
    | none => rfl
    | some inc => exact lifecycle_patch cal inc _
  have hmemory : (overlayArmIncidents cal [a] incidents).map
      (fun b => (normalizeToEntry cal b).lifecycle) = [memoryLifecycle cal a incidents] := by
    rw [overlayArmIncidents_singleton, List.map_singleton]
    unfold memoryLifecycle
    cases memoryIncident a incidents with
    | none => rfl
    | some inc => rw [lifecycle_overlay]
  unfold OverlaysAgree
  simp only [dailyEntries_overlayDailyFiles, dailyEntries_writeDailyFile, Option.map_some,
    List.map_singleton, hmemory, hfile, Option.some.injEq, List.cons.injEq, and_true]
  exact ⟨fun h => h Directory.empty "", fun h _ _ => h⟩

/-! ## Two picks of one incident -/

theorem fileIncident_isSome_of_memoryIncident {a : NormalizedAlert T}
    {incidents : List ArmIncident} {inc : ArmIncident}
    (h : memoryIncident a incidents = some inc) :
    (fileIncident (normalizeToEntry cal a) incidents).isSome = true := by
  have hmem := KeyIndex.mem_of_last h
  have hkey := KeyIndex.key_mem_of_last h
  unfold fileIncident
  rw [Option.isSome_or]
  rcases List.mem_append.mp hkey with hlists | hnumber
  · have hfound : (KeyIndex.last ArmIncident.alertIds incidents a.id).isSome = true :=
      KeyIndex.last_isSome_of_mem hmem hlists
    exact Bool.or_eq_true_iff.mpr (.inl hfound)
  · cases hn : inc.incidentNumber with
    | none =>
      rw [hn] at hnumber
      exact absurd hnumber List.not_mem_nil
    | some n =>
      have hid : a.incidentId = some (intText n) := by
        by_contra hid
        simp [hn, hid] at hnumber
      have hentry : (normalizeToEntry cal a).incidentNumber = some n := by
        unfold normalizeToEntry NormalizedAlert.incident?
        dsimp only
        rw [hid, bind_parseInt_intText]
      have hfound : (KeyIndex.last (·.incidentNumber.toList) incidents n).isSome = true :=
        KeyIndex.last_isSome_of_mem hmem (by simp [hn])
      rw [hentry, Option.bind_some]
      exact Bool.or_eq_true_iff.mpr (.inr hfound)

theorem incidentNumber_of_memoryIncident_none {a : NormalizedAlert T}
    {incidents : List ArmIncident} {inc : ArmIncident} (hm : memoryIncident a incidents = none)
    (hf : fileIncident (normalizeToEntry cal a) incidents = some inc) :
    inc.incidentNumber = (normalizeToEntry cal a).incidentNumber := by
  rcases Option.or_eq_some_iff.mp hf with hlists | ⟨-, hnumber⟩
  · have hmem := KeyIndex.mem_of_last hlists
    have hid : a.id ∈ inc.alertIds := KeyIndex.key_mem_of_last hlists
    have hnot := KeyIndex.last_eq_none_iff.mp hm inc hmem
    exact absurd (List.mem_append_left _ hid) hnot
  · obtain ⟨n, hn, hlast⟩ := Option.bind_eq_some_iff.mp hnumber
    have hkey := KeyIndex.key_mem_of_last hlast
    rw [hn]
    exact Option.mem_toList.mp hkey

/-! ## When they agree -/

/-- The incident says of the alert what is known. -/
structure ArmIncident.Silent (inc : ArmIncident) (a : NormalizedAlert T) : Prop where
  classification : inc.stated = none ∨ inc.stated = some a.classification.value
  reopened : inc.isReopened = true → a.resolved = none
  closing : inc.isReopened = false → inc.closedTime cal = none ∨
    (inc.closedTime cal).map cal.isoformat = a.resolved.map cal.isoformat

/-- Both overlays take the same from the incident: it is closed for both or for neither, and one
that was opened again does not hide a classification that it does not state. -/
structure ArmIncident.ReadAlike (inc : ArmIncident) (a : NormalizedAlert T) : Prop where
  closing : inc.keepsClosing a = !inc.isReopened ∨ (inc.closedTime cal = none ∧ a.resolved = none)
  classification : inc.isReopened = true → a.resolved ≠ none → inc.classification = "" →
    a.classification = .undetermined

/-- What one incident says in memory is what another says in the files. -/
structure ArmIncident.SaysAs (p q : ArmIncident) (a : NormalizedAlert T) : Prop where
  classification : p.stated.getD a.classification.value = q.stated.getD
    (if q.isReopened = true ∧ a.resolved ≠ none then "undetermined" else a.classification.value)
  closing :
    (if p.keepsClosing a then ((p.closedTime cal).or a.resolved).map cal.isoformat else none) =
      if q.isReopened then none else ((q.closedTime cal).or a.resolved).map cal.isoformat
  number : p.incidentNumber.or (normalizeToEntry cal a).incidentNumber =
    q.incidentNumber.or (normalizeToEntry cal a).incidentNumber

def SameStory (a : NormalizedAlert T) (incidents : List ArmIncident) : Prop :=
  match fileIncident (normalizeToEntry cal a) incidents, memoryIncident a incidents with
  | none, _ => True
  | some q, none => q.Silent cal a
  | some q, some p => if p = q then p.ReadAlike cal a else p.SaysAs cal q a

theorem fileLifecycle_eq (inc : ArmIncident) (a : NormalizedAlert T) :
    inc.fileLifecycle cal (normalizeToEntry cal a) =
      { classification := inc.stated.getD
          (if inc.isReopened = true ∧ a.resolved ≠ none then "undetermined"
            else a.classification.value)
        closedAt := if inc.isReopened then none
          else ((inc.closedTime cal).or a.resolved).map cal.isoformat
        incidentNumber := inc.incidentNumber.or (normalizeToEntry cal a).incidentNumber } := by
  have hclosed : (normalizeToEntry cal a).closedAt = a.resolved.map cal.isoformat := rfl
  have hclass : (normalizeToEntry cal a).classification = a.classification.value := rfl
  unfold ArmIncident.fileLifecycle ArmIncident.reverts ArmIncident.statedClosing
  rw [hclosed, hclass]
  cases inc.isReopened <;> cases a.resolved <;> cases inc.closedTime cal <;> rfl

theorem fileLifecycle_eq_iff_silent {inc : ArmIncident} {a : NormalizedAlert T}
    (h : inc.incidentNumber = (normalizeToEntry cal a).incidentNumber) :
    inc.fileLifecycle cal (normalizeToEntry cal a) = (normalizeToEntry cal a).lifecycle ↔
      inc.Silent cal a := by
  have hlife : (normalizeToEntry cal a).lifecycle = ⟨a.classification.value,
      a.resolved.map cal.isoformat, (normalizeToEntry cal a).incidentNumber⟩ := rfl
  rw [fileLifecycle_eq, hlife, h, Lifecycle.mk.injEq, Option.or_self]
  constructor
  · rintro ⟨hclass, hclosing, -⟩
    have hreopened : inc.isReopened = true → a.resolved = none := by
      intro hopen
      rw [if_pos hopen] at hclosing
      exact Option.map_eq_none_iff.mp hclosing.symm
    refine ⟨?_, hreopened, ?_⟩
    · cases hs : inc.stated with
      | none => exact .inl rfl
      | some c =>
        rw [hs, Option.getD_some] at hclass
        exact .inr (congrArg some hclass)
    · intro hopen
      rw [hopen] at hclosing
      cases ht : inc.closedTime cal with
      | none => exact .inl rfl
      | some t =>
        rw [ht] at hclosing
        exact .inr hclosing
  · rintro ⟨hclass, hreopened, hclosing⟩
    refine ⟨?_, ?_, rfl⟩
    · rw [if_neg fun hboth => hboth.2 (hreopened hboth.1)]
      rcases hclass with hs | hs <;> rw [hs] <;> rfl
    · cases hopen : inc.isReopened with
      | true =>
        rw [hreopened hopen]
        rfl
      | false =>
        rcases hclosing hopen with ht | ht
        · rw [ht]
          rfl
        · cases hc : inc.closedTime cal with
          | none => rfl
          | some t =>
            rw [hc] at ht
            exact ht

theorem fileLifecycle_eq_iff_saysAs {p q : ArmIncident} {a : NormalizedAlert T} :
    q.fileLifecycle cal (normalizeToEntry cal a) = p.memoryLifecycle cal a ↔
      p.SaysAs cal q a := by
  rw [fileLifecycle_eq]
  unfold ArmIncident.memoryLifecycle
  rw [Lifecycle.mk.injEq]
  constructor
  · rintro ⟨hclass, hclosing, hnumber⟩
    exact ⟨hclass.symm, hclosing.symm, hnumber.symm⟩
  · rintro ⟨hclass, hclosing, hnumber⟩
    exact ⟨hclass.symm, hclosing.symm, hnumber.symm⟩

theorem value_eq_undetermined_iff (c : AlertClassification) :
    c.value = "undetermined" ↔ c = .undetermined := by
  cases c <;> decide

theorem saysAs_self_iff {inc : ArmIncident} {a : NormalizedAlert T} :
    inc.SaysAs cal inc a ↔ inc.ReadAlike cal a := by
  have hstated : inc.stated = none ↔ inc.classification = "" := by
    unfold ArmIncident.stated
    split <;> simp [*]
  have hclosing : ((if inc.keepsClosing a then
        ((inc.closedTime cal).or a.resolved).map cal.isoformat else none) =
      if inc.isReopened then none else ((inc.closedTime cal).or a.resolved).map cal.isoformat) ↔
      (inc.keepsClosing a = !inc.isReopened ∨ (inc.closedTime cal = none ∧ a.resolved = none)) := by
    cases inc.keepsClosing a <;> cases inc.isReopened <;> cases inc.closedTime cal <;>
      cases a.resolved <;> simp
  have hclass : (inc.stated.getD a.classification.value = inc.stated.getD
      (if inc.isReopened = true ∧ a.resolved ≠ none then "undetermined"
        else a.classification.value)) ↔
      (inc.isReopened = true → a.resolved ≠ none → inc.classification = "" →
        a.classification = .undetermined) := by
    rw [← hstated, ← value_eq_undetermined_iff]
    cases inc.stated with
    | some c => simp
    | none =>
      rw [Option.getD_none, Option.getD_none]
      split
      · next hboth => exact ⟨fun h _ _ _ => h, fun h => h hboth.1 hboth.2 rfl⟩
      · next hnot => exact iff_of_true rfl fun hopen hres => absurd ⟨hopen, hres⟩ hnot
  exact ⟨fun h => ⟨hclosing.mp h.closing, hclass.mp h.classification⟩,
    fun h => ⟨hclass.mpr h.classification, hclosing.mpr h.closing, rfl⟩⟩

theorem overlaysAgree_iff (a : NormalizedAlert T) (incidents : List ArmIncident) :
    OverlaysAgree cal a incidents ↔ SameStory cal a incidents := by
  rw [overlaysAgree_iff_lifecycle]
  unfold fileLifecycle memoryLifecycle SameStory
  cases hf : fileIncident (normalizeToEntry cal a) incidents with
  | none =>
    cases hm : memoryIncident a incidents with
    | none => exact iff_of_true rfl trivial
    | some p =>
      have hsome := fileIncident_isSome_of_memoryIncident cal hm
      rw [hf] at hsome
      exact absurd hsome (by decide)
  | some q =>
    cases hm : memoryIncident a incidents with
    | none =>
      exact fileLifecycle_eq_iff_silent cal (incidentNumber_of_memoryIncident_none cal hm hf)
    | some p =>
      dsimp only
      rw [fileLifecycle_eq_iff_saysAs]
      split
      · next heq => rw [heq, saysAs_self_iff]
      · exact Iff.rfl

end

/-- A closed alert whose incident is opened again without a classification: in memory it stays a
true positive, in the files it becomes undetermined. -/
theorem reopened_not_overlaysAgree :
    ¬ OverlaysAgree (⟨id, some, id, id⟩ : Calendar String)
      { id := "a1", title := "Sign-in", severity := .high, status := .resolved
        classification := .truePositive, determination := .unknown, source := "sentinel"
        serviceSource := "", created := some "2026-05-01", resolved := some "2026-05-02" }
      [{ alertIds := ["a1"], status := "Active" }] := by
  rw [overlaysAgree_iff_lifecycle]
  decide

end ContentOps.Alerts
