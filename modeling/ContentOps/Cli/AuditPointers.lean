import ContentOps.Cli.Audited

/-! Where the report of `apply` says that the audit records are, `cli/commands/apply.py` and
`apply_report.py`. -/

namespace ContentOps
open PyData Audit

/-! ## The report -/

/-- `f"{rel}#L{line}"` of a file of the audit directory. -/
structure AuditPointer where
  file : String
  line : Nat
deriving DecidableEq, Repr

structure AssetResult where
  asset : String
  id : String
  action : String
  status : String
  verified : Option Bool := none
  auditPointer : Option AuditPointer := none
  detail : Option String := none
  error : Option String := none
deriving DecidableEq

/-- `_classify`. -/
def classify (r : ActionResult) : String :=
  if r.isFailure then "failed" else if r.action = .skip then "skipped" else "success"

/-- `_result_to_row`. -/
def resultToRow (p : AuditPair) : AssetResult where
  asset := p.asset
  id := p.id
  action := p.result.action.value
  status := classify p.result
  verified := p.result.verified
  detail := (some p.result.detail).filter (· ≠ "")
  error := p.result.error.filter (· ≠ "")

/-- The rows of `build_report`. -/
def buildRows (pairs : List AuditPair) (auditPath : Option String) (auditFirstLine : Option Nat) :
    List AssetResult :=
  pairs.mapIdx fun offset p =>
    { resultToRow p with
      auditPointer := do return { file := ← auditPath, line := (← auditFirstLine) + offset } }

/-- `existing_lines`. -/
def existingLines (dir : AuditDir) (name : String) : Nat :=
  ((Text.splitlines ((dir.read name).getD [])).filter fun line => !Text.isBlank line).length

/-! ## The batch -/

section
variable (X : Type) [Json.FloatText X] (sha256 : Text → BitVec 256)

/-- `write_records_with_retry`, with `n` attempts after the first, each on the day that it asks for;
with the day of the last attempt. -/
def writeRecordsWithRetryOn (records : List AuditRecord) :
    Nat → (Nat → Date) → (Nat → Others) → AuditDir → Date × Writer × AuditDir
  | 0, days, others, dir => (days 0, attempt X sha256 (days 0) (others 0) dir records)
  | n + 1, days, others, dir =>
    let s := attempt X sha256 (days 0) (others 0) dir records
    match s.1.pc with
    | .raised (.concurrentWrite _) =>
      writeRecordsWithRetryOn records n (fun k => days (k + 1)) (fun k => others (k + 1)) s.2
    | _ => (days 0, s)

/-- What other processes write, each batch on a day of its own. -/
def datedWrites (dir : AuditDir) (batches : List (Date × List AuditRecord)) : AuditDir :=
  batches.foldl (fun dir batch => otherWrite X sha256 batch.1 dir batch.2) dir

/-- A run of `apply` from where it counts the lines, with what the clock says and what other
processes write meanwhile. -/
structure BatchRun where
  env : Surroundings X
  pairs : List AuditPair
  countDay : Date
  between : List (Date × List AuditRecord)
  days : Nat → Date
  others : Nat → Others
  after : List (Date × List AuditRecord)

variable {X}

namespace BatchRun
variable (run : BatchRun X) (dir : AuditDir)

def records : List AuditRecord := run.pairs.mapIdx (buildAuditRecord run.env none)

/-- The retries of the run. -/
def written : Date × Writer × AuditDir :=
  writeRecordsWithRetryOn X sha256 run.records 2 run.days run.others
    (datedWrites X sha256 dir run.between)

/-- The directory at the end and the rows of the report; an exception that is no race leaves the
command before the report. -/
def finish : AuditDir × List AssetResult :=
  let existing := existingLines dir (fileName run.countDay)
  let (day, w, dir) := run.written sha256 dir
  match w.pc with
  | .returned =>
    (datedWrites X sha256 dir run.after,
      buildRows run.pairs (some (fileName day)) (some (existing + 1)))
  | .raised (.concurrentWrite _) =>
    (datedWrites X sha256 (writeOrphanRecords X day dir run.records) run.after,
      buildRows run.pairs none none)
  | _ => (datedWrites X sha256 dir run.after, [])

/-- The line that the pointer of each row names is the record that was made of its pair. -/
def PointersHold : Prop :=
  ∀ (i : Nat) (p : AuditPair) (row : AssetResult) (ptr : AuditPointer),
    run.pairs[i]? = some p → (run.finish sha256 dir).2[i]? = some row →
    row.auditPointer = some ptr → ∃ r : AuditRecord,
      1 ≤ ptr.line ∧
      ((((run.finish sha256 dir).1.read ptr.file).getD []).splitOn '\n')[ptr.line - 1]? =
        some (r.toJson X) ∧
      (buildAuditRecord run.env none i p).LinkedAs r ∧
      r.asset = row.asset ∧ r.id = row.id ∧ r.action = row.action ∧ r.status = row.status

end BatchRun

/-! ## The attempt that decides -/

variable (X) in
/-- The day, the others and the directory of the last attempt. -/
def lastAttempt (records : List AuditRecord) :
    Nat → (Nat → Date) → (Nat → Others) → AuditDir → Date × Others × AuditDir
  | 0, days, others, dir => (days 0, others 0, dir)
  | n + 1, days, others, dir =>
    let s := attempt X sha256 (days 0) (others 0) dir records
    match s.1.pc with
    | .raised (.concurrentWrite _) =>
      lastAttempt records n (fun k => days (k + 1)) (fun k => others (k + 1)) s.2
    | _ => (days 0, others 0, dir)

variable {sha256}

theorem writeRecordsWithRetryOn_eq (records : List AuditRecord) (n : Nat) (days : Nat → Date)
    (others : Nat → Others) (dir : AuditDir) :
    writeRecordsWithRetryOn X sha256 records n days others dir =
      let a := lastAttempt X sha256 records n days others dir
      (a.1, attempt X sha256 a.1 a.2.1 a.2.2 records) := by
  induction n generalizing days others dir with
  | zero => rfl
  | succ n ih =>
    rw [writeRecordsWithRetryOn, lastAttempt]
    dsimp only
    split
    · exact ih _ _ _
    · rfl

/-- An attempt that returns is the last one. -/
theorem lastAttempt_of_returned {records : List AuditRecord} {n : Nat} {days : Nat → Date}
    {others : Nat → Others} {dir : AuditDir}
    (h : (attempt X sha256 (days 0) (others 0) dir records).1.pc = .returned) :
    lastAttempt X sha256 records n days others dir = (days 0, others 0, dir) := by
  cases n with
  | zero => rfl
  | succ n =>
    rw [lastAttempt, h]

/-- What an attempt that returns leaves in the file of its day. -/
theorem attempt_returned {today : Date} {others : Others} {dir : AuditDir} {records : List AuditRecord}
    (h : (attempt X sha256 today others dir records).1.pc = .returned) :
    List.Forall₂ AuditRecord.LinkedAs records (attempt X sha256 today others dir records).1.chained ∧
      (attempt X sha256 today others dir records).2.read (fileName today) =
        some (((world X sha256 today others dir 1).read (fileName today)).getD [] ++
          newBytes X (attempt X sha256 today others dir records).1.chained) := by
  have hspec := attempt_spec X sha256 today others dir records
  cases hm : meeting X sha256 today others dir records <;> rw [hm] at hspec
  · obtain ⟨e, hpc, -⟩ := hspec
    rw [h] at hpc
    cases hpc
  · obtain ⟨⟨m, hpc⟩, -⟩ := hspec
    rw [h] at hpc
    cases hpc
  · obtain ⟨e, hpc, -⟩ := hspec
    rw [h] at hpc
    cases hpc
  · exact hspec.2

/-- Whatever day it is, the others only put lines behind a file. -/
theorem otherWrite_grows (day today : Date) (dir : AuditDir) (batch : List AuditRecord) :
    (dir.read (fileName day)).getD [] <+:
      ((otherWrite X sha256 today dir batch).read (fileName day)).getD [] := by
  have htmp : tmpName today ≠ fileName day := by
    intro heq
    have hjsonl := isJsonl_fileName day
    rw [← heq, isJsonl_tmpName] at hjsonl
    exact absurd hjsonl Bool.false_ne_true
  rcases otherWrite_cases X sha256 today dir batch with ⟨-, more, hwrite⟩ | ⟨-, hsame⟩
  · rw [hwrite, Directory.read_write]
    by_cases hday : fileName today = fileName day
    · rw [if_pos hday, hday]
      exact List.prefix_append _ _
    · rw [if_neg hday, Directory.read_remove, if_neg htmp, Directory.read_write, if_neg htmp]
  · rw [hsame]

theorem datedWrites_grow (day : Date) (dir : AuditDir) (batches : List (Date × List AuditRecord)) :
    (dir.read (fileName day)).getD [] <+:
      ((datedWrites X sha256 dir batches).read (fileName day)).getD [] := by
  induction batches generalizing dir with
  | nil => exact List.prefix_rfl
  | cons batch batches ih => exact (otherWrite_grows day batch.1 dir batch.2).trans (ih _)

/-! ## The lines -/

theorem splitOn_unlines_append {lines : List Text} (h : ∀ l ∈ lines, '\n' ∉ l) (rest : Text) :
    (Text.unlines lines ++ rest).splitOn '\n' = lines ++ rest.splitOn '\n' := by
  induction lines with
  | nil => rfl
  | cons l lines ih =>
    obtain ⟨hl, hlines⟩ := List.forall_mem_cons.mp h
    have hcons : Text.unlines (l :: lines) ++ rest = l ++ '\n' :: (Text.unlines lines ++ rest) := by
      simp [Text.unlines]
    rw [hcons, List.splitOn_append_cons_self_of_not_mem hl, ih hlines]
    rfl

namespace BatchRun
variable (sha256) (run : BatchRun X) (dir : AuditDir)

/-- The file of the day, as the attempt that decides reads it. -/
def textRead : Text :=
  let (day, others, dir₀) := lastAttempt X sha256 run.records 2 run.days run.others
    (datedWrites X sha256 dir run.between)
  ((world X sha256 day others dir₀ 1).read (fileName day)).getD []

/-- That text has as many lines as were counted, and ends the last of them. -/
def Counted : Prop :=
  ∃ lines : List Text, (∀ l ∈ lines, '\n' ∉ l) ∧ run.textRead sha256 dir = Text.unlines lines ∧
    lines.length = existingLines dir (fileName run.countDay)

/-- What a run that writes its batch leaves in the file of the day. -/
theorem written_returned (h : (run.written sha256 dir).2.1.pc = .returned) :
    List.Forall₂ AuditRecord.LinkedAs run.records (run.written sha256 dir).2.1.chained ∧
      (run.written sha256 dir).2.2.read (fileName (run.written sha256 dir).1) =
        some (run.textRead sha256 dir ++ newBytes X (run.written sha256 dir).2.1.chained) := by
  unfold written at h ⊢
  rw [writeRecordsWithRetryOn_eq] at h ⊢
  exact attempt_returned h

variable {sha256 run dir}

/-- A row of the report has a pointer only when the batch was written. -/
theorem pointer_of_row {i : Nat} {p : AuditPair} {row : AssetResult} {ptr : AuditPointer}
    (hp : run.pairs[i]? = some p) (hrow : (run.finish sha256 dir).2[i]? = some row)
    (hptr : row.auditPointer = some ptr) :
    (run.written sha256 dir).2.1.pc = .returned ∧
      (run.finish sha256 dir).1 = datedWrites X sha256 (run.written sha256 dir).2.2 run.after ∧
      ptr = ⟨fileName (run.written sha256 dir).1,
        existingLines dir (fileName run.countDay) + 1 + i⟩ ∧
      row = { resultToRow p with auditPointer := some ptr } := by
  unfold finish at hrow ⊢
  dsimp only at hrow ⊢
  cases hpc : (run.written sha256 dir).2.1.pc with
  | returned =>
    rw [hpc] at hrow
    dsimp only at hrow ⊢
    rw [buildRows, List.getElem?_mapIdx, hp] at hrow
    obtain rfl := Option.some.inj hrow
    obtain rfl := Option.some.inj hptr
    exact ⟨rfl, rfl, rfl, rfl⟩
  | raised e =>
    rw [hpc] at hrow
    cases e with
    | concurrentWrite m =>
      dsimp only at hrow
      rw [buildRows, List.getElem?_mapIdx, hp] at hrow
      obtain rfl := Option.some.inj hrow
      exact absurd hptr (Option.some_ne_none _).symm
    | typeError | attributeError | overflowError | fileNotFound name =>
      exact absurd hrow (by simp)
  | tail | existing | writeTmp | recheck | finish current =>
    rw [hpc] at hrow
    exact absurd hrow (by simp)

theorem exists_linked {records chained : List AuditRecord} {i : Nat} {r : AuditRecord}
    (h : List.Forall₂ AuditRecord.LinkedAs records chained) (hr : records[i]? = some r) :
    ∃ c, chained[i]? = some c ∧ r.LinkedAs c := by
  induction h generalizing i with
  | nil => exact absurd hr (by simp)
  | cons hhead _ ih =>
    cases i with
    | zero =>
      obtain rfl := Option.some.inj hr
      exact ⟨_, rfl, hhead⟩
    | succ i => exact ih hr

/-- However the others write, every pointer of the report holds when the attempt that decides reads
as many lines as were counted. -/
theorem pointersHold_of_counted [Json.FloatLine X] (hcounted : run.Counted sha256 dir) :
    run.PointersHold sha256 dir := by
  intro i p row ptr hp hrow hptr
  obtain ⟨hpc, hdir, rfl, hroweq⟩ := pointer_of_row hp hrow hptr
  obtain ⟨lines, hlines, hread, hlen⟩ := hcounted
  rw [hdir]
  obtain ⟨hlinked, hfile⟩ := run.written_returned sha256 dir hpc
  rw [hread] at hfile
  have hrecord : run.records[i]? = some (buildAuditRecord run.env none i p) := by
    rw [records, List.getElem?_mapIdx, hp, Option.map_some]
  obtain ⟨r, hr, hlink⟩ := exists_linked hlinked hrecord
  refine ⟨r, Nat.le_add_right_of_le (Nat.le_add_left 1 _), ?_, hlink, ?_⟩
  · -- The batch stands behind the lines that were counted, and what is written later behind it.
    obtain ⟨more, hmore⟩ := @datedWrites_grow X _ sha256 _ _ run.after
    rw [hfile, Option.getD_some, newBytes] at hmore
    have hjson : ∀ l ∈ (run.written sha256 dir).2.1.chained.map (·.toJson X), '\n' ∉ l := by
      intro l hl hmem
      obtain ⟨c, -, rfl⟩ := List.mem_map.mp hl
      exact absurd (c.isLine_toJson (X := X) _ hmem) (by decide)
    rw [← hmore, List.append_assoc, splitOn_unlines_append hlines, splitOn_unlines_append hjson]
    have hindex : existingLines dir (fileName run.countDay) + 1 + i - 1 = lines.length + i := by
      omega
    rw [hindex, List.getElem?_append_right (Nat.le_add_right _ _), Nat.add_sub_cancel_left,
      List.getElem?_append_left, List.getElem?_map, hr, Option.map_some]
    rw [List.length_map]
    exact (List.getElem?_eq_some_iff.mp hr).1
  · have hc : r = { buildAuditRecord run.env none i p with
        timestamp := r.timestamp, prevHash := r.prevHash, recordHash := r.recordHash } := hlink
    rw [hroweq, hc]
    exact ⟨rfl, rfl, rfl, rfl⟩

/-- It does when every attempt is made on the day of the count, the file has no blank line then, and
nothing is put behind it before the attempt reads it. -/
theorem counted_of_quiet {lines : List Text} (hlines : ∀ l ∈ lines, Text.IsLine l ∧ !Text.isBlank l)
    (hfile : (dir.read (fileName run.countDay)).getD [] = Text.unlines lines)
    (hquiet : run.textRead sha256 dir = (dir.read (fileName run.countDay)).getD []) :
    run.Counted sha256 dir := by
  refine ⟨lines, ?_, hquiet.trans hfile, ?_⟩
  · intro l hl hmem
    exact absurd ((hlines l hl).1 _ hmem) (by decide)
  · rw [existingLines, hfile, Text.splitlines_unlines fun l hl => (hlines l hl).1,
      List.filter_eq_self.mpr fun l hl => (hlines l hl).2]

end BatchRun

end

/-! ## A blank line -/

namespace Sample

def updated : AuditPair where
  id := "suspicious-sign-in"
  asset := "sentinel_analytic"
  workspace := none
  result :=
    { assetId := "suspicious-sign-in", assetKind := "sentinel_analytic", action := .update
      status := "updated", verified := some true }

/-- One result is written and nobody else writes. -/
def quietRun : BatchRun Empty where
  env := surroundings
  pairs := [updated]
  countDay := lastOfJanuary
  between := []
  days _ := lastOfJanuary
  others _ _ := []
  after := []

def blankLine : AuditDir := Directory.empty.write (fileName lastOfJanuary) ['\n']

end Sample

theorem attempt_of_clear {dir : AuditDir} {records : List AuditRecord}
    (hclear : meeting Empty positional lastOfJanuary (fun _ => []) dir records = .clear) :
    (attempt Empty positional lastOfJanuary (fun _ => []) dir records).1.pc = .returned := by
  have hspec := attempt_spec Empty positional lastOfJanuary (fun _ => []) dir records
  rw [hclear] at hspec
  exact hspec.1

theorem attempt_blankLine : (attempt Empty positional lastOfJanuary (fun _ => []) Sample.blankLine
    Sample.quietRun.records).1.pc = .returned := attempt_of_clear (by decide +kernel)

theorem written_blankLine : Sample.quietRun.written positional Sample.blankLine =
    (lastOfJanuary, attempt Empty positional lastOfJanuary (fun _ => []) Sample.blankLine
      Sample.quietRun.records) := by
  have hfirst := @lastAttempt_of_returned _ _ _ _ 2 (fun _ => lastOfJanuary)
    (fun _ _ => []) _ attempt_blankLine
  unfold BatchRun.written
  rw [writeRecordsWithRetryOn_eq, show lastAttempt Empty positional Sample.quietRun.records 2 Sample.quietRun.days
    Sample.quietRun.others (datedWrites Empty positional Sample.blankLine
      Sample.quietRun.between) = _ from hfirst]

theorem finish_blankLine : (Sample.quietRun.finish positional Sample.blankLine).1 =
      (attempt Empty positional lastOfJanuary (fun _ => []) Sample.blankLine
        Sample.quietRun.records).2 ∧
    (Sample.quietRun.finish positional Sample.blankLine).2 =
      buildRows [Sample.updated] (some (fileName lastOfJanuary)) (some 1) := by
  have hnone : existingLines Sample.blankLine (fileName lastOfJanuary) = 0 := by decide +kernel
  have hcount : existingLines Sample.blankLine (fileName Sample.quietRun.countDay) = 0 := hnone
  unfold BatchRun.finish
  rw [written_blankLine]
  dsimp only
  rw [attempt_blankLine, hcount]
  exact ⟨rfl, rfl⟩

/-- The blank line is not counted, and the pointer of the only row names it. -/
theorem blankLine_named : ¬ Sample.quietRun.PointersHold positional Sample.blankLine := by
  intro hholds
  obtain ⟨hdir, hrows⟩ := finish_blankLine
  obtain ⟨-, hfile⟩ := attempt_returned attempt_blankLine
  have hread : ((world Empty positional lastOfJanuary (fun _ => []) Sample.blankLine 1).read
      (fileName lastOfJanuary)).getD [] = Text.unlines [[]] := by
    change (Sample.blankLine.read (fileName lastOfJanuary)).getD [] = _
    rw [Sample.blankLine, Directory.read_write_self]
    rfl
  have hpointed := hholds 0 Sample.updated _ ⟨fileName lastOfJanuary, 1⟩ rfl
    (by rw [hrows]; rfl) rfl
  obtain ⟨r, -, hline, -⟩ := hpointed
  rw [hdir, hfile, Option.getD_some, hread,
    splitOn_unlines_append fun l hl => by simp [List.mem_singleton.mp hl]] at hline
  have hblank := AuditRecord.isBlank_toJson (X := Empty) r
  rw [← Option.some.inj hline] at hblank
  exact absurd hblank (by decide)

/-- An empty directory is read as it was counted. -/
theorem pointersHold_of_counted_emptyDir :
    Sample.quietRun.PointersHold positional Directory.empty := by
  have hreturned : (attempt Empty positional lastOfJanuary (fun _ => []) Directory.empty
      Sample.quietRun.records).1.pc = .returned := attempt_of_clear (by decide +kernel)
  have hlast := @lastAttempt_of_returned _ _ _ _ 2 (fun _ => lastOfJanuary)
    (fun _ _ => []) _ hreturned
  refine BatchRun.pointersHold_of_counted ⟨[], by simp, ?_, rfl⟩
  have hread : Sample.quietRun.textRead positional Directory.empty =
      ((world Empty positional lastOfJanuary (fun _ => []) Directory.empty 1).read
        (fileName lastOfJanuary)).getD [] := by
    unfold BatchRun.textRead
    rw [show lastAttempt Empty positional Sample.quietRun.records 2 Sample.quietRun.days
      Sample.quietRun.others (datedWrites Empty positional Directory.empty
        Sample.quietRun.between) = _ from hlast]
  rw [hread]
  rfl

end ContentOps
