import ContentOps.Audit.Commitment
import ContentOps.Audit.Settled

/-! Damaged lines in the audit files. One that is no JSON is passed over by every reader, one that is
JSON and no object stops them. -/

namespace ContentOps.Audit
open PyData

section
variable {X : Type} [Json.FloatText X]

variable (X) in
/-- The line is blank, no JSON, or an object. -/
def NoStrayValue (line : Text) : Prop :=
  Text.isBlank line = true ∨
    ∀ v : Value X, Json.loads line = some v → ∃ d, v = .dict d

variable (X) in
/-- The line is not blank and no object with both hash fields. -/
def Damaged (line : Text) : Prop :=
  Text.isBlank line = false ∧ ∀ d : Dict String (Value X), Json.loads line = some (.dict d) →
    ¬ ((d.get? "record_hash").isSome = true ∧ (d.get? "prev_hash").isSome = true)

variable [Value.ScalarEq X] {sha256 : Text → BitVec 256}

/-! ## The verifier -/

/-- One line is walked over iff it holds no JSON value other than an object. -/
theorem verifyLine_ok_iff {w : Walk X} {l : String × Nat × Text} :
    (∃ w', verifyLine sha256 w l = .ok w') ↔ NoStrayValue X l.2.2 := by
  obtain ⟨file, ln, line⟩ := l
  unfold verifyLine NoStrayValue
  dsimp only
  by_cases hblank : Text.isBlank line = true
  · rw [if_pos hblank]
    exact iff_of_true ⟨w, rfl⟩ (.inl hblank)
  · rw [if_neg hblank, or_iff_right hblank]
    cases hloads : (Json.loads line : Option (Value X)) with
    | none => exact iff_of_true ⟨_, rfl⟩ fun v hv => absurd hv.symm (Option.some_ne_none v)
    | some v =>
      cases v with
      | dict d =>
        refine iff_of_true ?_ fun v hv => ⟨d, (Option.some.inj hv).symm⟩
        dsimp only
        cases Dict.get? d "record_hash" with
        | none => exact ⟨_, rfl⟩
        | some storedHash =>
          cases Dict.get? d "prev_hash" with
          | none => exact ⟨_, rfl⟩
          | some actualPrev => exact ⟨_, rfl⟩
      | _ =>
        refine iff_of_false (fun h => ?_) fun h => ?_
        · obtain ⟨w', hw'⟩ := h
          exact absurd hw' (by simp)
        · obtain ⟨d, hd⟩ := h _ rfl
          cases hd

theorem verifyLine_reports {w w' : Walk X} {l : String × Nat × Text}
    (hstep : verifyLine sha256 w l = .ok w') (hdamaged : Damaged X l.2.2) :
    ∃ b ∈ w'.breaks, b.file = l.1 ∧ b.lineNumber = l.2.1 := by
  obtain ⟨file, ln, line⟩ := l
  obtain ⟨hblank, hfields⟩ := hdamaged
  unfold verifyLine at hstep
  dsimp only at hblank hstep
  rw [if_neg (by simp [hblank])] at hstep
  have hreport : ∀ bs : List (ChainBreak X), ∃ b ∈ bs ++ [(⟨file, ln, w.expectedPrev,
      .missingField⟩ : ChainBreak X)], b.file = file ∧ b.lineNumber = ln :=
    fun bs => ⟨_, List.mem_append_right bs (List.mem_singleton_self _), rfl, rfl⟩
  split at hstep
  · cases hstep
    exact hreport w.breaks
  · next d hloads =>
    have hmissing := hfields d hloads
    split at hstep
    · next hstored hprev => exact absurd ⟨by rw [hstored]; rfl, by rw [hprev]; rfl⟩ hmissing
    · cases hstep
      exact hreport w.breaks
  · cases hstep

theorem foldlM_verifyLine_ok_iff {lines : List (String × Nat × Text)} {w : Walk X} :
    (∃ w', lines.foldlM (verifyLine sha256) w = .ok w') ↔
      ∀ l ∈ lines, NoStrayValue X l.2.2 := by
  induction lines generalizing w with
  | nil => exact iff_of_true ⟨w, rfl⟩ fun l hl => absurd hl List.not_mem_nil
  | cons l lines ih =>
    rw [List.forall_mem_cons]
    constructor
    · rintro ⟨w', hwalk⟩
      obtain ⟨w₁, hstep, hrest⟩ := foldlM_cons_ok hwalk
      exact ⟨verifyLine_ok_iff.mp ⟨w₁, hstep⟩, ih.mp ⟨w', hrest⟩⟩
    · rintro ⟨hl, hlines⟩
      obtain ⟨w₁, hstep⟩ : ∃ w₁, verifyLine sha256 w l = .ok w₁ := verifyLine_ok_iff.mpr hl
      obtain ⟨w', hrest⟩ := (ih (w := w₁)).mpr hlines
      refine ⟨w', ?_⟩
      rw [List.foldlM_cons, hstep]
      exact hrest

/-- A walk that ends has reported every damaged line. -/
theorem foldlM_verifyLine_reports {lines : List (String × Nat × Text)} {w w' : Walk X}
    (hwalk : lines.foldlM (verifyLine sha256) w = .ok w') :
    ∀ l ∈ lines, Damaged X l.2.2 → ∃ b ∈ w'.breaks, b.file = l.1 ∧ b.lineNumber = l.2.1 := by
  induction lines generalizing w with
  | nil => exact fun l hl => absurd hl List.not_mem_nil
  | cons l lines ih =>
    obtain ⟨w₁, hstep, hrest⟩ := foldlM_cons_ok hwalk
    intro l' hl' hdamaged
    rcases List.mem_cons.mp hl' with rfl | hl'
    · obtain ⟨b, hb, hat⟩ := verifyLine_reports hstep hdamaged
      exact ⟨b, (foldlM_breaks hrest).subset hb, hat⟩
    · exact ih hrest l' hl' hdamaged

/-! ## The tail and the batch -/

omit [Value.ScalarEq X] in
theorem findTail_ok {lines : List Text} (h : ∀ line ∈ lines, NoStrayValue X line) :
    ∃ tail, findTail X lines = .ok tail := by
  induction lines with
  | nil => exact ⟨_, rfl⟩
  | cons line lines ih =>
    have hline : ∃ tail, tailOfLine X line = .ok tail := by
      unfold tailOfLine
      rcases h line List.mem_cons_self with hblank | hvalue
      · rw [if_pos hblank]
        exact ⟨none, rfl⟩
      · split_ifs
        · exact ⟨none, rfl⟩
        · cases hloads : (Json.loads line : Option (Value X)) with
          | none => exact ⟨none, rfl⟩
          | some v =>
            obtain ⟨d, rfl⟩ := hvalue v hloads
            dsimp only
            split
            · split_ifs
              · exact ⟨_, rfl⟩
              · split <;> exact ⟨_, rfl⟩
            · exact ⟨_, rfl⟩
    obtain ⟨tail, htail⟩ := hline
    unfold findTail
    rw [htail]
    cases tail with
    | some found => exact ⟨found, rfl⟩
    | none => exact ih fun l hl => h l (List.mem_cons_of_mem line hl)

/-- The timestamps of the records can each be put after the one before, from this one on. -/
def FollowOn (timestamp : String) (records : List AuditRecord) : Prop :=
  ∃ last, (records.map (·.timestamp)).foldlM monotonicTimestamp timestamp = .ok last

omit [Value.ScalarEq X] in
theorem chainRecords_ok_iff {records : List AuditRecord} {prevHash timestamp : String} :
    (∃ chained, chainRecords X sha256 records prevHash timestamp = .ok chained) ↔
      FollowOn timestamp records := by
  induction records generalizing prevHash timestamp with
  | nil => exact iff_of_true ⟨[], rfl⟩ ⟨timestamp, rfl⟩
  | cons r records ih =>
    unfold FollowOn at ih ⊢
    rw [List.map_cons, List.foldlM_cons]
    constructor
    · rintro ⟨chained, h⟩
      obtain ⟨bumped, rest, hbumped, hrest, -⟩ := chainRecords_cons_iff.mp h
      rw [hbumped]
      exact ih.mp ⟨rest, hrest⟩
    · rintro ⟨last, h⟩
      cases hbumped : monotonicTimestamp timestamp r.timestamp with
      | error e =>
        rw [hbumped] at h
        cases h
      | ok bumped =>
        rw [hbumped] at h
        obtain ⟨rest, hrest⟩ := ih.mpr ⟨last, h⟩
        exact ⟨_, chainRecords_cons_iff.mpr ⟨bumped, rest, hbumped, hrest, rfl⟩⟩

omit [Value.ScalarEq X] in
theorem glob_writeTmp (dir : AuditDir) (today : Date) (content : Text) :
    lastRecordTail X (dir.write (tmpName today) content) = lastRecordTail X dir := by
  unfold lastRecordTail
  rw [Directory.glob_write_of_not (isJsonl_tmpName today)]

/-- What the batch can raise besides the error of a race. -/
def RaisesRaceOnly (result : Except PyError String) : Prop :=
  ∀ e, result = .error e → ∃ message, e = .concurrentWrite message

omit [Value.ScalarEq X] in
/-- Once the tail is found, only a batch whose timestamps run out raises. -/
theorem writeRecords_raises_iff {dir : AuditDir} {records : List AuditRecord} {today : Date}
    {prevHash prevTimestamp : String} (htail : lastRecordTail X dir = .ok (prevHash, prevTimestamp)) :
    RaisesRaceOnly (writeRecords X sha256 today dir records).2 ↔
      FollowOn prevTimestamp records := by
  rw [← @chainRecords_ok_iff X _ sha256 _ prevHash]
  unfold RaisesRaceOnly writeRecords
  rw [htail]
  dsimp only
  cases hchained : chainRecords X sha256 records prevHash prevTimestamp with
  | error e =>
    obtain rfl := chainRecords_error hchained
    refine iff_of_false (fun h => ?_) fun h => ?_
    · obtain ⟨message, hmessage⟩ := h _ rfl
      cases hmessage
    · obtain ⟨chained, hchained⟩ := h
      cases hchained
  | ok chained =>
    refine iff_of_true (fun e he => ?_) ⟨chained, rfl⟩
    dsimp only at he
    rw [glob_writeTmp, htail] at he
    simp at he

/-! ## All readers -/

/-- The verifier and its summary come to an end with every damaged line reported, and the batch is
written or meets a race. -/
structure Survives (X : Type) [Json.FloatText X] [Value.ScalarEq X] (sha256 : Text → BitVec 256)
    (dir : AuditDir) (today : Date) (records : List AuditRecord) : Prop where
  verified : ∃ result : ChainVerificationResult X, verifyChain sha256 dir = .ok result ∧
    ∀ l ∈ numberedLines dir, Damaged X l.2.2 →
      ∃ b ∈ result.breaks, b.file = l.1 ∧ b.lineNumber = l.2.1
  summarised : ∃ summary, headSummary X sha256 dir = .ok summary
  written : RaisesRaceOnly (writeRecords X sha256 today dir records).2

/-- No line is JSON other than an object, and the timestamps of the batch can follow the last one. -/
structure Passable (X : Type) [Json.FloatText X] (dir : AuditDir) (records : List AuditRecord) :
    Prop where
  lines : ∀ line ∈ dirLines dir, NoStrayValue X line
  timestamps : ∀ prevHash prevTimestamp,
    lastRecordTail X dir = .ok (prevHash, prevTimestamp) → FollowOn prevTimestamp records

theorem verifyChain_ok_iff {dir : AuditDir} :
    (∃ result : ChainVerificationResult X, verifyChain sha256 dir = .ok result) ↔
      ∀ line ∈ dirLines dir, NoStrayValue X line := by
  have hlines : (∀ line ∈ dirLines dir, NoStrayValue X line) ↔
      ∀ l ∈ numberedLines dir, NoStrayValue X l.2.2 := by
    rw [← lines_numberedLines, List.forall_mem_map]
  rw [hlines, ← @foldlM_verifyLine_ok_iff X _ _ sha256 _ {}]
  unfold verifyChain
  cases (numberedLines dir).foldlM (verifyLine sha256) ({} : Walk X) with
  | error e =>
    refine iff_of_false (fun h => ?_) fun h => ?_
    · obtain ⟨result, hresult⟩ := h
      cases hresult
    · obtain ⟨w, hw⟩ := h
      cases hw
  | ok w => exact iff_of_true ⟨_, rfl⟩ ⟨w, rfl⟩

end

/-! ## A line that is a number -/

namespace Sample

/-- A file whose tail was overwritten by a digit. -/
def strayDigit : AuditDir := Directory.empty.write "2026-03-02.jsonl" "7\n".toList

end Sample

end ContentOps.Audit
