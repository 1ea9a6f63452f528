import ContentOps.Audit.Chain
import ContentOps.Audit.Verify

/-! The writer and the verifier agree: whatever batches are written, on whatever days, the files
hold one sound chain and the walk over them finds nothing to report. -/

namespace ContentOps.Audit
open PyData

section
variable {X : Type} [Json.FloatText X] {sha256 : Text → BitVec 256}

/-! ## A sound chain on disk -/

theorem tailOfLine_toJson {r : AuditRecord} (h : r.recordHash ≠ "") :
    tailOfLine X (r.toJson X) = .ok (some (r.recordHash, r.timestamp)) := by
  simp [tailOfLine, r.isBlank_toJson, r.loads_toJson, h]

theorem findTail_toJson {rs : List AuditRecord} (h : ∀ r ∈ rs, r.recordHash ≠ "") :
    findTail X (rs.map (·.toJson X)).reverse = .ok (tailHash zeroHash rs, tailTimestamp "" rs) := by
  rcases List.eq_nil_or_concat rs with rfl | ⟨rs, r, rfl⟩
  · rfl
  · have hr := tailOfLine_toJson (X := X) (h r (by simp))
    rw [List.concat_eq_append, List.map_append, List.map_singleton, List.reverse_append,
      List.reverse_singleton, List.singleton_append, findTail, hr, tailHash, tailTimestamp,
      HashChain.tail_concat, HashChain.tail_concat]
    rfl

variable [Value.ScalarEq X]

theorem verifyLine_toJson (w : Walk X) (file : String) (ln : Nat) (r : AuditRecord) :
    verifyLine sha256 w (file, ln, r.toJson X) =
      .ok (verifyRecord sha256 file ln r.asdict (.str r.recordHash) (.str r.prevHash) w) := by
  simp [verifyLine, r.isBlank_toJson, r.loads_toJson]

/-- A record that continues the chain is counted and nothing is reported. -/
theorem verifyRecord_sound {w : Walk X} {h ts : String} (file : String) (ln : Nat)
    (hw : w.expectedPrev = .str h) (hts : w.prevTimestamp = ts) {r : AuditRecord}
    (hprev : r.prevHash = h) (hhash : r.recordHash = computeRecordHash X sha256 r)
    (hlt : ts < r.timestamp) (hcan : Canonical r.timestamp) :
    verifyRecord sha256 file ln r.asdict (.str r.recordHash) (.str r.prevHash) w =
      { breaks := w.breaks, recordsVerified := w.recordsVerified + 1,
        expectedPrev := .str r.recordHash, prevTimestamp := r.timestamp } := by
  have hcomp : recomputedHash sha256 (r.asdict : Dict String (Value X)) = r.recordHash := hhash.symm
  have hne := hcan.ne_empty
  simp only [verifyRecord, hashBreaks, timestampBreaks, nextTimestamp, r.get?_timestamp, hcomp, hw,
    hprev, Value.pyEq_str_str, decide_true, not_true, if_false, hts, hlt.not_gt, and_false, hne,
    List.append_nil]

/-- The walk over a sound chain, from any point of the walk it continues. -/
theorem foldlM_verifyLine_sound {lines : List (String × Nat × Text)} {rs : List AuditRecord}
    (hlines : lines.map (fun l => l.2.2) = rs.map (·.toJson X)) {w : Walk X} {h ts : String}
    (hw : w.expectedPrev = .str h) (hts : w.prevTimestamp = ts) (hs : Sound X sha256 h ts rs) :
    lines.foldlM (verifyLine sha256) w =
      .ok { breaks := w.breaks, recordsVerified := w.recordsVerified + rs.length,
            expectedPrev := .str (tailHash h rs), prevTimestamp := tailTimestamp ts rs } := by
  induction rs generalizing lines w h ts with
  | nil =>
    rw [List.map_nil, List.map_eq_nil_iff] at hlines
    subst hlines hts
    rw [List.foldlM_nil, tailHash, tailTimestamp, HashChain.tail, HashChain.tail, ← hw]
    rfl
  | cons r rs ih =>
    obtain ⟨⟨file, ln, line⟩, lines, rfl, rfl, htail⟩ := List.map_eq_cons_iff.mp hlines
    rw [List.foldlM_cons, verifyLine_toJson, verifyRecord_sound file ln hw hts hs.chained.1
      (hs.hashed r (List.mem_cons_self ..)) hs.lt_head (hs.canonical r (List.mem_cons_self ..))]
    have hrest := @ih lines htail
      ⟨w.breaks, w.recordsVerified + 1, .str r.recordHash, r.timestamp⟩ r.recordHash r.timestamp
      rfl rfl hs.of_cons
    rw [List.length_cons, Nat.add_comm rs.length, ← Nat.add_assoc]
    exact hrest

/-! ## Directories that hold records -/

omit [Value.ScalarEq X]

variable (X) in
/-- The files of the directory hold these records, each file its share of them. -/
def Holds (dir : AuditDir) (rs : List AuditRecord) : Prop :=
  ∃ files : List (String × List AuditRecord),
    dir.glob isJsonl = files.map (fun f => (f.1, newBytes X f.2)) ∧ files.flatMap Prod.snd = rs

theorem Holds.empty : Holds X Directory.empty [] := ⟨[], rfl, rfl⟩

theorem Holds.congr {dir dir' : AuditDir} {rs : List AuditRecord} (h : Holds X dir rs)
    (hg : dir'.glob isJsonl = dir.glob isJsonl) : Holds X dir' rs := by
  obtain ⟨files, hf, hrs⟩ := h
  exact ⟨files, hg.trans hf, hrs⟩

variable [Json.FloatLine X]

theorem splitlines_newBytes (rs : List AuditRecord) :
    Text.splitlines (newBytes X rs) = rs.map (·.toJson X) :=
  Text.splitlines_unlines fun l hl => by
    obtain ⟨r, -, rfl⟩ := List.mem_map.mp hl
    exact r.isLine_toJson

theorem Holds.dirLines {dir : AuditDir} {rs : List AuditRecord} (h : Holds X dir rs) :
    dirLines dir = rs.map (·.toJson X) := by
  obtain ⟨files, hf, rfl⟩ := h
  rw [Audit.dirLines, hf, List.flatMap_map, List.map_flatMap]
  exact congrArg (fun f => files.flatMap f) (funext fun f => splitlines_newBytes f.2)

theorem Holds.lastRecordTail {dir : AuditDir} {rs : List AuditRecord} (h : Holds X dir rs)
    (hne : ∀ r ∈ rs, r.recordHash ≠ "") :
    lastRecordTail X dir = .ok (tailHash zeroHash rs, tailTimestamp "" rs) := by
  rw [lastRecordTail_eq, h.dirLines, findTail_toJson hne]

theorem Holds.parsedRecords {dir : AuditDir} {rs : List AuditRecord} (h : Holds X dir rs) :
    parsedRecords X dir = rs.map AuditRecord.asdict := by
  rw [Audit.parsedRecords, h.dirLines, List.filterMap_map, ← List.filterMap_eq_map]
  refine congrArg (fun f => rs.filterMap f) (funext fun r => ?_)
  simp [recordOfLine, r.isBlank_toJson, r.loads_toJson]

/-- The verifier on a directory that holds a sound chain. -/
theorem Holds.verifyChain [Value.ScalarEq X] {dir : AuditDir} {rs : List AuditRecord}
    (h : Holds X dir rs) (hs : Sound X sha256 zeroHash "" rs) :
    verifyChain sha256 dir =
      .ok (⟨(dir.glob isJsonl).length, rs.length, []⟩ : ChainVerificationResult X) := by
  have hwalk := foldlM_verifyLine_sound (w := {})
    ((lines_numberedLines dir).trans h.dirLines) rfl rfl hs
  rw [Audit.verifyChain, hwalk]
  simp only [bind, Except.bind, pure, Except.pure, Nat.zero_add]

/-- The head of a sound chain. -/
theorem Holds.headSummary [Value.ScalarEq X] {dir : AuditDir} {rs : List AuditRecord}
    (h : Holds X dir rs) (hs : Sound X sha256 zeroHash "" rs) :
    ∃ s, headSummary X sha256 dir = .ok s ∧ s.verified = true ∧ s.recordsVerified = rs.length ∧
      s.headHash = if tailHash zeroHash rs = zeroHash then none else some (tailHash zeroHash rs) := by
  rw [Audit.headSummary, h.lastRecordTail hs.hash_ne_empty, h.verifyChain hs]
  exact ⟨_, rfl, rfl, rfl, rfl⟩

/-! ## One call -/

omit [Json.FloatLine X]

theorem newBytes_append (rs ss : List AuditRecord) :
    newBytes X (rs ++ ss) = newBytes X rs ++ newBytes X ss := by
  rw [newBytes, List.map_append, Text.unlines_append]
  rfl

theorem newBytes_eq_nil_iff {rs : List AuditRecord} : newBytes X rs = [] ↔ rs = [] := by
  cases rs <;> simp [newBytes, Text.unlines]

/-- Replacing today's file by itself and a batch adds the batch at the end. -/
theorem Holds.append {dir : AuditDir} {rs : List AuditRecord} (h : Holds X dir rs) {name : String}
    (hname : isJsonl name = true) (hle : ∀ p ∈ dir.glob isJsonl, p.1 ≤ name)
    (batch : List AuditRecord) :
    Holds X (dir.write name ((dir.read name).getD [] ++ newBytes X batch)) (rs ++ batch) := by
  obtain ⟨files, hf, rfl⟩ := h
  have hsplit := Directory.glob_eq_append hname hle
  have hlast := Directory.glob_write_last hname hle
  rw [hf, List.map_eq_append_iff] at hsplit
  obtain ⟨older, today, rfl, holder, htoday⟩ := hsplit
  rw [← hf] at holder
  cases hr : dir.read name with
  | none =>
    rw [hr, Option.toList_none, List.map_nil, List.map_eq_nil_iff] at htoday
    subst htoday
    refine ⟨older ++ [(name, batch)], ?_, by simp⟩
    rw [hlast, ← holder, Option.getD_none, List.nil_append, List.map_append, List.map_singleton]
  | some content =>
    rw [hr, Option.toList_some, List.map_singleton, List.map_eq_singleton_iff] at htoday
    obtain ⟨⟨name', old⟩, rfl, hold⟩ := htoday
    obtain ⟨rfl, rfl⟩ := Prod.mk.inj hold
    refine ⟨older ++ [(name', old ++ batch)], ?_, by simp⟩
    rw [hlast, ← holder, Option.getD_some, ← newBytes_append, List.map_append, List.map_singleton]

end
end ContentOps.Audit
