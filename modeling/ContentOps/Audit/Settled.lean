import ContentOps.Audit.Retry
import ContentOps.Audit.Interleaved

/-! When every record of a command ends in the chain or in the sidecar, whatever other processes
write meanwhile. -/

namespace ContentOps.Audit
open PyData

/-- The same chain: the two directories differ in files that are no `*.jsonl` only. -/
def SameChain (dir dir' : AuditDir) : Prop := ∀ name, isJsonl name = true → dir.read name = dir'.read name

theorem SameChain.refl (dir : AuditDir) : SameChain dir dir := fun _ _ => rfl

theorem SameChain.trans {a b c : AuditDir} (h : SameChain a b) (h' : SameChain b c) :
    SameChain a c := fun name hn => (h name hn).trans (h' name hn)

theorem SameChain.symm {a b : AuditDir} (h : SameChain a b) : SameChain b a :=
  fun name hn => (h name hn).symm

theorem SameChain.write_of_not {a b : AuditDir} (h : SameChain a b) {name : String}
    (hn : isJsonl name = false) (content : Text) : SameChain (a.write name content) b := by
  intro name' hn'
  have hne : name ≠ name' := by
    rintro rfl
    exact absurd hn' (by simp [hn])
  rw [Directory.read_write, if_neg hne]
  exact h name' hn'

theorem SameChain.remove_of_not {a b : AuditDir} (h : SameChain a b) {name : String}
    (hn : isJsonl name = false) : SameChain (a.remove name) b := by
  intro name' hn'
  have hne : name ≠ name' := by
    rintro rfl
    exact absurd hn' (by simp [hn])
  rw [Directory.read_remove, if_neg hne]
  exact h name' hn'

theorem SameChain.write {a b : AuditDir} (h : SameChain a b) (name : String) (content : Text) :
    SameChain (a.write name content) (b.write name content) := by
  intro name' hn'
  rw [Directory.read_write, Directory.read_write]
  split
  · rfl
  · exact h name' hn'

theorem orphanName_ne (today : Date) :
    orphanName today ≠ fileName today ∧ orphanName today ≠ tmpName today := by
  have hname : (orphanName today).toList = today.isoText ++ ".jsonl.orphan".toList :=
    String.toList_ofList
  constructor
  · intro h
    rw [h, fileName, String.toList_ofList, List.append_cancel_left_eq] at hname
    exact absurd hname (by decide)
  · intro h
    rw [h, tmpName, String.toList_ofList, List.append_cancel_left_eq] at hname
    exact absurd hname (by decide)

theorem isJsonl_orphanName (today : Date) : isJsonl (orphanName today) = false := by
  have hname : (orphanName today).toList = today.isoText ++ ".jsonl.orphan".toList :=
    String.toList_ofList
  rw [isJsonl, hname, List.isSuffixOf, List.reverse_append]
  rfl

section
variable {X : Type} [Json.FloatText X] {sha256 : Text → BitVec 256} {today : Date}

theorem SameChain.lastRecordTail {a b : AuditDir} (h : SameChain a b) :
    lastRecordTail X a = lastRecordTail X b := by
  unfold Audit.lastRecordTail
  rw [Directory.glob_congr h]

theorem SameChain.read_fileName {a b : AuditDir} (h : SameChain a b) :
    a.read (fileName today) = b.read (fileName today) := h _ (isJsonl_fileName today)

/-! ## What another process does -/

/-- A call that nobody disturbs finds the tail where it was. -/
theorem writeRecords_eq (dir : AuditDir) (batch : List AuditRecord) :
    writeRecords X sha256 today dir batch =
      match lastRecordTail X dir with
      | .error e => (dir, .error e)
      | .ok (prevHash, prevTimestamp) =>
        match chainRecords X sha256 batch prevHash prevTimestamp with
        | .error e => (dir, .error e)
        | .ok chained =>
          let content := (dir.read (fileName today)).getD [] ++ newBytes X chained
          (((dir.write (tmpName today) content).remove (tmpName today)).write (fileName today)
            content, .ok (fileName today)) := by
  unfold writeRecords
  cases htail : lastRecordTail X dir with
  | error e => rfl
  | ok tail =>
    obtain ⟨prevHash, prevTimestamp⟩ := tail
    dsimp only
    cases hc : chainRecords X sha256 batch prevHash prevTimestamp with
    | error e => rfl
    | ok chained =>
      have hagain : lastRecordTail X (dir.write (tmpName today)
          ((dir.read (fileName today)).getD [] ++ newBytes X chained)) =
            .ok (prevHash, prevTimestamp) := by
        rw [((SameChain.refl dir).write_of_not (isJsonl_tmpName today) _).lastRecordTail, htail]
      simp [hagain]

variable (X sha256 today) in
/-- What one batch of another process does: today's file grows and the temp file is gone, or
nothing happens. -/
theorem otherWrite_cases (dir : AuditDir) (batch : List AuditRecord) :
    ((writeRecords X sha256 today dir batch).2.toBool = true ∧ ∃ more,
      otherWrite X sha256 today dir batch =
        ((dir.write (tmpName today) ((dir.read (fileName today)).getD [] ++ more)).remove
          (tmpName today)).write (fileName today) ((dir.read (fileName today)).getD [] ++ more)) ∨
    ((writeRecords X sha256 today dir batch).2.toBool = false ∧
      otherWrite X sha256 today dir batch = dir) := by
  unfold otherWrite
  rw [writeRecords_eq]
  cases lastRecordTail X dir with
  | error e => exact .inr ⟨rfl, rfl⟩
  | ok tail =>
    obtain ⟨prevHash, prevTimestamp⟩ := tail
    dsimp only
    cases chainRecords X sha256 batch prevHash prevTimestamp with
    | error e => exact .inr ⟨rfl, rfl⟩
    | ok chained => exact .inl ⟨rfl, newBytes X chained, rfl⟩

variable (X sha256 today) in
theorem SameChain.otherWrite {a b : AuditDir} (h : SameChain a b) (batch : List AuditRecord) :
    SameChain (otherWrite X sha256 today a batch) (otherWrite X sha256 today b batch) ∧
      (writeRecords X sha256 today a batch).2.toBool =
        (writeRecords X sha256 today b batch).2.toBool := by
  unfold Audit.otherWrite
  rw [writeRecords_eq, writeRecords_eq, h.lastRecordTail, h.read_fileName]
  cases Audit.lastRecordTail X b with
  | error e => exact ⟨h, rfl⟩
  | ok tail =>
    obtain ⟨prevHash, prevTimestamp⟩ := tail
    dsimp only
    cases chainRecords X sha256 batch prevHash prevTimestamp with
    | error e => exact ⟨h, rfl⟩
    | ok chained =>
      refine ⟨SameChain.write ?_ _ _, rfl⟩
      have htmp := isJsonl_tmpName today
      exact ((h.write_of_not htmp _).remove_of_not htmp).trans
        (((SameChain.refl b).write_of_not htmp _).remove_of_not htmp).symm

variable (X sha256 today) in
theorem SameChain.otherWrites {a b : AuditDir} (h : SameChain a b)
    (batches : List (List AuditRecord)) :
    SameChain (otherWrites X sha256 today a batches) (otherWrites X sha256 today b batches) ∧
      anyCompletes X sha256 today a batches = anyCompletes X sha256 today b batches := by
  induction batches generalizing a b with
  | nil => exact ⟨h, rfl⟩
  | cons batch batches ih =>
    obtain ⟨hstep, hcompletes⟩ := h.otherWrite X sha256 today batch
    obtain ⟨hrest, hany⟩ := ih hstep
    exact ⟨hrest, by rw [anyCompletes, anyCompletes, hcompletes, hany]⟩

/-- The temp file survives the others iff none of them writes. -/
theorem read_tmp_otherWrites (dir : AuditDir) (batches : List (List AuditRecord)) :
    (otherWrites X sha256 today dir batches).read (tmpName today) =
      if anyCompletes X sha256 today dir batches then none else dir.read (tmpName today) := by
  induction batches generalizing dir with
  | nil => rfl
  | cons batch batches ih =>
    have hrest := ih (otherWrite X sha256 today dir batch)
    unfold otherWrites at hrest ⊢
    rw [List.foldl_cons, hrest, anyCompletes]
    rcases otherWrite_cases X sha256 today dir batch with
      ⟨hdone, more, hwrite⟩ | ⟨hraised, hsame⟩
    · have hgone : (otherWrite X sha256 today dir batch).read (tmpName today) = none := by
        rw [hwrite, Directory.read_write, if_neg (tmpName_ne_fileName today).symm,
          Directory.read_remove_self]
      rw [hdone, hgone, ite_self, Bool.true_or, if_pos rfl]
    · rw [hraised, hsame, Bool.false_or]

variable (X sha256 today) in
/-- The others only put lines behind today's file, and leave the sidecar alone. -/
theorem otherWrites_grow (dir : AuditDir) (batches : List (List AuditRecord)) :
    ((dir.read (fileName today)).getD [] <+:
      ((otherWrites X sha256 today dir batches).read (fileName today)).getD []) ∧
      (otherWrites X sha256 today dir batches).read (orphanName today) =
        dir.read (orphanName today) := by
  obtain ⟨hfile, htmp⟩ := orphanName_ne today
  induction batches generalizing dir with
  | nil => exact ⟨List.prefix_rfl, rfl⟩
  | cons batch batches ih =>
    obtain ⟨hstart, horphan⟩ := ih (otherWrite X sha256 today dir batch)
    unfold otherWrites at hstart horphan ⊢
    rw [List.foldl_cons, horphan]
    rcases otherWrite_cases X sha256 today dir batch with
      ⟨-, more, hwrite⟩ | ⟨-, hsame⟩
    · rw [hwrite] at hstart ⊢
      rw [Directory.read_write_self, Option.getD_some] at hstart
      refine ⟨(List.prefix_append _ more).trans hstart, ?_⟩
      rw [Directory.read_write, if_neg hfile.symm, Directory.read_remove, if_neg htmp.symm,
        Directory.read_write, if_neg htmp.symm]
    · rw [hsame] at hstart ⊢
      exact ⟨hstart, rfl⟩

/-! ## The exceptions of a call -/

theorem lastRecordTail_error {dir : AuditDir} {e : PyError} (h : lastRecordTail X dir = .error e) :
    e = .attributeError := by
  unfold lastRecordTail at h
  generalize (dir.glob isJsonl).reverse.flatMap _ = lines at h
  induction lines with
  | nil => exact absurd h (by simp [findTail])
  | cons line lines ih =>
    have hline : ∀ e', tailOfLine X line = .error e' → e' = .attributeError := by
      intro e' he'
      unfold tailOfLine at he'
      repeat' split at he'
      all_goals first | exact (Except.error.inj he').symm | exact absurd he' (by simp)
    rw [findTail] at h
    cases htail : tailOfLine X line with
    | error e' =>
      rw [htail] at h
      obtain rfl : e' = e := Except.error.inj h
      exact hline e' htail
    | ok tail =>
      rw [htail] at h
      cases tail with
      | none => exact ih h
      | some tail => exact absurd h (by simp [bind, Except.bind, pure, Except.pure])

theorem chainRecords_error {records : List AuditRecord} {h ts : String} {e : PyError}
    (hc : chainRecords X sha256 records h ts = .error e) : e = .overflowError := by
  induction records generalizing h ts with
  | nil => exact absurd hc (by simp [chainRecords])
  | cons r records ih =>
    have hts : ∀ e', monotonicTimestamp ts r.timestamp = .error e' → e' = .overflowError := by
      intro e' he'
      unfold monotonicTimestamp at he'
      repeat' split at he'
      all_goals first | exact (Except.error.inj he').symm | exact absurd he' (by simp)
    rw [chainRecords] at hc
    cases hbump : monotonicTimestamp ts r.timestamp with
    | error e' =>
      rw [hbump] at hc
      obtain rfl : e' = e := Except.error.inj hc
      exact hts e' hbump
    | ok bumped =>
      rw [hbump] at hc
      dsimp only [bind, Except.bind] at hc
      split at hc
      · next e' hrest =>
        obtain rfl : e' = e := Except.error.inj hc
        exact ih hrest
      · exact absurd hc (by simp [pure, Except.pure])

/-- An exception that no wrapper expects. -/
def PyError.Unexpected : PyError → Prop
  | .concurrentWrite _ => False
  | _ => True

/-! ## One attempt -/

variable {others : Others} {dir : AuditDir} {records : List AuditRecord}

theorem steps_raised {s : Writer × AuditDir} {n : Nat} {e : PyError}
    (h : (steps X sha256 today others s n).1.pc = .raised e) (k : Nat) :
    (steps X sha256 today others s (n + k)).1.pc = .raised e := by
  induction k with
  | zero => exact h
  | succ k ih =>
    have hstep : ∀ dir', ((steps X sha256 today others s (n + k)).1.step X sha256 today dir').1.pc =
        .raised e := by
      intro dir'
      unfold Writer.step
      rw [ih]
      exact ih
    exact hstep _

theorem meeting_of_tail {prevHash prevTimestamp : String} {chained : List AuditRecord}
    (htail : lastRecordTail X (world X sha256 today others dir 0) = .ok (prevHash, prevTimestamp))
    (hc : chainRecords X sha256 records prevHash prevTimestamp = .ok chained) :
    meeting X sha256 today others dir records =
      match lastRecordTail X (world X sha256 today others dir 3) with
      | .error _ => .unreadable
      | .ok (current, _) =>
        if current ≠ prevHash then .moved
        else if anyCompletes X sha256 today (world X sha256 today others dir 2) (others 3) ||
            anyCompletes X sha256 today (world X sha256 today others dir 3) (others 4) then
          .interrupted
        else .clear := by
  unfold meeting
  rw [htail]
  cases lastRecordTail X (world X sha256 today others dir 3) with
  | error e => rfl
  | ok tail => simp [hc, Except.toBool]

/-- The call before its second look at the tail. -/
theorem steps_three {prevHash prevTimestamp : String} {chained : List AuditRecord}
    (htail : lastRecordTail X (world X sha256 today others dir 0) = .ok (prevHash, prevTimestamp))
    (hc : chainRecords X sha256 records prevHash prevTimestamp = .ok chained) :
    let content := ((world X sha256 today others dir 1).read (fileName today)).getD [] ++
      newBytes X chained
    steps X sha256 today others (.start records, dir) 3 =
      (⟨records, .recheck, prevHash, chained, content⟩,
        (world X sha256 today others dir 2).write (tmpName today) content) := by
  have h1 : steps X sha256 today others (.start records, dir) 1 =
      (⟨records, .existing, prevHash, chained, []⟩, world X sha256 today others dir 0) := by
    show (Writer.start records).step X sha256 today (world X sha256 today others dir 0) = _
    simp [Writer.step, Writer.start, htail, hc]
  have h2 : steps X sha256 today others (.start records, dir) 2 =
      (⟨records, .writeTmp, prevHash, chained, ((world X sha256 today others dir 1).read
        (fileName today)).getD [] ++ newBytes X chained⟩, world X sha256 today others dir 1) := by
    rw [steps, h1]
    rfl
  rw [steps, h2]
  rfl

variable (X sha256 today) in
/-- What becomes of an attempt, by what it meets. -/
theorem attempt_spec (others : Others) (dir : AuditDir) (records : List AuditRecord) :
    match meeting X sha256 today others dir records with
    | .unreadable | .interrupted =>
      ∃ e, (attempt X sha256 today others dir records).1.pc = .raised e ∧ e.Unexpected
    | .moved =>
      (∃ m, (attempt X sha256 today others dir records).1.pc = .raised (.concurrentWrite m)) ∧
        SameChain (attempt X sha256 today others dir records).2 (world X sha256 today others dir 4)
    | .clear =>
      (attempt X sha256 today others dir records).1.pc = .returned ∧
        List.Forall₂ AuditRecord.LinkedAs records
          (attempt X sha256 today others dir records).1.chained ∧
        (attempt X sha256 today others dir records).2.read (fileName today) =
          some (((world X sha256 today others dir 1).read (fileName today)).getD [] ++
            newBytes X (attempt X sha256 today others dir records).1.chained) := by
  cases htail : lastRecordTail X (world X sha256 today others dir 0) with
  | error e =>
    have hmeets : meeting X sha256 today others dir records = .unreadable := by
      unfold meeting
      rw [htail]
    have hraised : (steps X sha256 today others (.start records, dir) 1).1.pc = .raised e := by
      show ((Writer.start records).step X sha256 today (world X sha256 today others dir 0)).1.pc = _
      simp [Writer.step, Writer.start, Writer.raise, htail]
    rw [hmeets]
    refine ⟨e, steps_raised hraised 4, ?_⟩
    rw [lastRecordTail_error htail]
    trivial
  | ok tail =>
    obtain ⟨prevHash, prevTimestamp⟩ := tail
    cases hc : chainRecords X sha256 records prevHash prevTimestamp with
    | error e =>
      have hmeets : meeting X sha256 today others dir records = .unreadable := by
        unfold meeting
        rw [htail]
        cases lastRecordTail X (world X sha256 today others dir 3) with
        | error e => rfl
        | ok tail => simp [hc, Except.toBool]
      have hraised : (steps X sha256 today others (.start records, dir) 1).1.pc = .raised e := by
        show ((Writer.start records).step X sha256 today (world X sha256 today others dir 0)).1.pc = _
        simp [Writer.step, Writer.start, Writer.raise, htail, hc]
      rw [hmeets]
      refine ⟨e, steps_raised hraised 4, ?_⟩
      rw [chainRecords_error hc]
      trivial
    | ok chained =>
      rw [meeting_of_tail htail hc]
      have hthree := steps_three htail hc
      set content := ((world X sha256 today others dir 1).read (fileName today)).getD [] ++
        newBytes X chained
      have hsame₂ : SameChain ((world X sha256 today others dir 2).write (tmpName today) content)
          (world X sha256 today others dir 2) :=
        (SameChain.refl _).write_of_not (isJsonl_tmpName today) _
      obtain ⟨hsame₃, hany₃⟩ := hsame₂.otherWrites X sha256 today (others 3)
      set dir₃ := otherWrites X sha256 today
        ((world X sha256 today others dir 2).write (tmpName today) content) (others 3)
      have htail₃ : lastRecordTail X dir₃ =
          lastRecordTail X (world X sha256 today others dir 3) := hsame₃.lastRecordTail
      cases hagain : lastRecordTail X (world X sha256 today others dir 3) with
      | error e =>
        have hraised : (steps X sha256 today others (.start records, dir) 4).1.pc = .raised e := by
          rw [steps, hthree]
          simp [Writer.step, Writer.raise, htail₃, hagain, dir₃]
        refine ⟨e, steps_raised hraised 1, ?_⟩
        rw [lastRecordTail_error hagain]
        trivial
      | ok tail' =>
        obtain ⟨current, currentTimestamp⟩ := tail'
        have hfour : steps X sha256 today others (.start records, dir) 4 =
            (⟨records, .finish current, prevHash, chained, content⟩, dir₃) := by
          rw [steps, hthree]
          simp [Writer.step, htail₃, hagain, dir₃]
        have hworld₃ : SameChain dir₃ (world X sha256 today others dir 3) := hsame₃
        obtain ⟨hsame₄, hany₄⟩ := hworld₃.otherWrites X sha256 today (others 4)
        set dir₄ := otherWrites X sha256 today dir₃ (others 4)
        have hfinish : attempt X sha256 today others dir records =
            (⟨records, .finish current, prevHash, chained, content⟩ : Writer).step X sha256 today
              dir₄ := by
          unfold attempt
          rw [steps, hfour]
        have htmp : dir₄.read (tmpName today) =
            if anyCompletes X sha256 today (world X sha256 today others dir 2) (others 3) ||
              anyCompletes X sha256 today (world X sha256 today others dir 3) (others 4) then none
            else some content := by
          rw [read_tmp_otherWrites, read_tmp_otherWrites, hany₃, hany₄, Directory.read_write_self]
          cases anyCompletes X sha256 today (world X sha256 today others dir 2) (others 3) <;>
            cases anyCompletes X sha256 today (world X sha256 today others dir 3) (others 4) <;> rfl
        dsimp only
        by_cases hmoved : current = prevHash
        · rw [if_neg (not_not.mpr hmoved)]
          by_cases hhit : (anyCompletes X sha256 today (world X sha256 today others dir 2)
              (others 3) || anyCompletes X sha256 today (world X sha256 today others dir 3)
                (others 4)) = true
          · rw [if_pos hhit] at htmp ⊢
            refine ⟨.fileNotFound (tmpName today), ?_, trivial⟩
            rw [hfinish]
            simp [Writer.step, Writer.raise, hmoved, htmp]
          · rw [if_neg hhit] at htmp ⊢
            have hreplaced : attempt X sha256 today others dir records =
                (⟨records, .returned, prevHash, chained, content⟩,
                  (dir₄.remove (tmpName today)).write (fileName today) content) := by
              rw [hfinish]
              simp [Writer.step, hmoved, htmp]
            rw [hreplaced]
            exact ⟨rfl, chainRecords_linked hc, Directory.read_write_self ..⟩
        · rw [if_pos hmoved]
          have hleft : attempt X sha256 today others dir records =
              ((⟨records, .finish current, prevHash, chained, content⟩ : Writer).raise
                (.concurrentWrite (raceMessage prevHash current)), dir₄.remove (tmpName today)) := by
            rw [hfinish]
            simp [Writer.step, hmoved]
          rw [hleft]
          exact ⟨⟨_, rfl⟩, hsame₄.remove_of_not (isJsonl_tmpName today)⟩

theorem suffix_of_read {dir : AuditDir} {name : String} {before after : Text}
    (h : dir.read name = some (before ++ after)) : after <:+ (dir.read name).getD [] := by
  rw [h]
  exact List.suffix_append _ _

/-! ## All attempts -/

theorem SameChain.world {dir' : AuditDir} (h : SameChain dir dir') (n : Nat) :
    SameChain (world X sha256 today others dir n) (world X sha256 today others dir' n) := by
  induction n with
  | zero => exact (h.otherWrites X sha256 today _).1
  | succ n ih => exact (ih.otherWrites X sha256 today _).1

theorem SameChain.meeting {dir' : AuditDir} (h : SameChain dir dir') :
    meeting X sha256 today others dir records = meeting X sha256 today others dir' records := by
  unfold Audit.meeting
  rw [(h.world 0).lastRecordTail, (h.world 3).lastRecordTail,
    ((h.world 2).otherWrites X sha256 today _).2, ((h.world 3).otherWrites X sha256 today _).2]

theorem SameChain.settlesWithin {dir' : AuditDir} (h : SameChain dir dir') (n : Nat)
    (others : Nat → Others) : SettlesWithin X sha256 today records n others dir ↔
      SettlesWithin X sha256 today records n others dir' := by
  induction n generalizing others dir dir' with
  | zero => rw [SettlesWithin, SettlesWithin, h.meeting]
  | succ n ih => rw [SettlesWithin, SettlesWithin, h.meeting, ih (h.world 4)]

variable (X sha256 today) in
/-- The retries end in the chain or in a race, iff they settle. -/
theorem writeRecordsWithRetry_spec (n : Nat) (others : Nat → Others) (dir : AuditDir)
    (records : List AuditRecord) :
    let s := writeRecordsWithRetry X sha256 today records n others dir
    (SettlesWithin X sha256 today records n others dir ∧
      ((∃ m, s.1.pc = .raised (.concurrentWrite m)) ∨
        (s.1.pc = .returned ∧ List.Forall₂ AuditRecord.LinkedAs records s.1.chained ∧
          newBytes X s.1.chained <:+ (s.2.read (fileName today)).getD []))) ∨
    (¬ SettlesWithin X sha256 today records n others dir ∧
      ∃ e, s.1.pc = .raised e ∧ e.Unexpected) := by
  induction n generalizing others dir with
  | zero =>
    have hspec := attempt_spec X sha256 today (others 0) dir records
    simp only [writeRecordsWithRetry, SettlesWithin]
    cases hm : meeting X sha256 today (others 0) dir records <;> rw [hm] at hspec
    · exact .inr ⟨by simp, hspec⟩
    · exact .inl ⟨by simp, .inl hspec.1⟩
    · exact .inr ⟨by simp, hspec⟩
    · exact .inl ⟨by simp, .inr ⟨hspec.1, hspec.2.1, suffix_of_read hspec.2.2⟩⟩
  | succ n ih =>
    have hspec := attempt_spec X sha256 today (others 0) dir records
    have hends : ∀ e : PyError, e.Unexpected →
        (attempt X sha256 today (others 0) dir records).1.pc = .raised e →
          writeRecordsWithRetry X sha256 today records (n + 1) others dir =
            attempt X sha256 today (others 0) dir records := by
      intro e he hpc
      rw [writeRecordsWithRetry, hpc]
      cases e with
      | concurrentWrite m => exact absurd he not_false
      | _ => rfl
    simp only [SettlesWithin]
    cases hm : meeting X sha256 today (others 0) dir records <;> rw [hm] at hspec
    · obtain ⟨e, hpc, he⟩ := hspec
      rw [hends e he hpc]
      exact .inr ⟨by simp, e, hpc, he⟩
    · obtain ⟨⟨m, hpc⟩, hsame⟩ := hspec
      have hagain : writeRecordsWithRetry X sha256 today records (n + 1) others dir =
          writeRecordsWithRetry X sha256 today records n (fun k => others (k + 1))
            (attempt X sha256 today (others 0) dir records).2 := by
        rw [writeRecordsWithRetry, hpc]
      rw [hagain, ← hsame.settlesWithin n]
      simpa using ih (fun k => others (k + 1)) (attempt X sha256 today (others 0) dir records).2
    · obtain ⟨e, hpc, he⟩ := hspec
      rw [hends e he hpc]
      exact .inr ⟨by simp, e, hpc, he⟩
    · have hdone : writeRecordsWithRetry X sha256 today records (n + 1) others dir =
          attempt X sha256 today (others 0) dir records := by
        rw [writeRecordsWithRetry, hspec.1]
      rw [hdone]
      exact .inl ⟨.inl rfl, .inr ⟨hspec.1, hspec.2.1, suffix_of_read hspec.2.2⟩⟩

/-! ## The end of a command -/

theorem accounts_of_returned {s : Writer × AuditDir} (last : List (List AuditRecord))
    (hlinked : List.Forall₂ AuditRecord.LinkedAs records s.1.chained)
    (hfile : newBytes X s.1.chained <:+ (s.2.read (fileName today)).getD []) :
    AuditEnd.Accounts X today records
      { dir := otherWrites X sha256 today s.2 last, chained := [s.1.chained] } := by
  have hgrow := (otherWrites_grow X sha256 today s.2 last).1
  exact .inl ⟨s.1.chained, rfl, rfl, hlinked, hfile.isInfix.trans hgrow.isInfix⟩

variable (X sha256 today) in
/-- Whatever the others do, every record is accounted for iff the attempts settle. -/
theorem accounts_recordBatch_iff (sink : Sink) (others : Nat → Others)
    (last : List (List AuditRecord)) (dir : AuditDir) (records : List AuditRecord) :
    (recordBatch X sha256 today sink others last dir records).Accounts X today records ↔
      Settles X sha256 today sink others dir records := by
  cases sink with
  | single =>
    have hspec := attempt_spec X sha256 today (others 0) dir records
    have hraised : ∀ e, (attempt X sha256 today (others 0) dir records).1.pc = .raised e →
        ¬ (recordBatch X sha256 today .single others last dir records).Accounts X today records := by
      intro e hpc
      unfold recordBatch AuditEnd.Accounts
      simp [hpc]
    unfold Settles
    cases hm : meeting X sha256 today (others 0) dir records <;> rw [hm] at hspec
    · obtain ⟨e, hpc, -⟩ := hspec
      exact iff_of_false (hraised e hpc) (by simp)
    · obtain ⟨⟨m, hpc⟩, -⟩ := hspec
      exact iff_of_false (hraised _ hpc) (by simp)
    · obtain ⟨e, hpc, -⟩ := hspec
      exact iff_of_false (hraised e hpc) (by simp)
    · obtain ⟨hpc, hlinked, hfile⟩ := hspec
      refine iff_of_true ?_ rfl
      unfold recordBatch
      simp only [hpc]
      exact accounts_of_returned last hlinked (suffix_of_read hfile)
  | retrying =>
    unfold Settles
    rcases writeRecordsWithRetry_spec X sha256 today 2 others dir records with
      ⟨hsettles, ⟨m, hpc⟩ | ⟨hpc, hlinked, hfile⟩⟩ | ⟨hnot, e, hpc, he⟩
    · refine iff_of_true ?_ hsettles
      unfold recordBatch
      simp only [hpc]
      refine .inr ⟨rfl, rfl, ?_⟩
      dsimp only
      rw [(otherWrites_grow X sha256 today _ last).2, writeOrphanRecords,
        Directory.read_write_self, Option.getD_some]
      exact List.suffix_append _ _
    · refine iff_of_true ?_ hsettles
      unfold recordBatch
      simp only [hpc]
      exact accounts_of_returned last hlinked hfile
    · refine iff_of_false ?_ hnot
      unfold recordBatch AuditEnd.Accounts
      simp only [hpc]
      cases e with
      | concurrentWrite m => exact absurd he not_false
      | _ => simp

end
end ContentOps.Audit
