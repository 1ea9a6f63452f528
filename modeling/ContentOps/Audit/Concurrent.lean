import ContentOps.Audit.Runs
import ContentOps.Library.Interleaving
import Mathlib.Logic.Function.Basic

/-! Two calls of `write_records` on one day, their file system steps in any order. -/

namespace ContentOps.Audit
open PyData

/-- Where a call stands. -/
inductive Pc where
  | tail
  | existing
  | writeTmp
  | recheck
  | finish (current : String)
  | returned
  | raised (e : PyError)
deriving DecidableEq

/-- A call and its local variables. -/
structure Writer where
  records : List AuditRecord
  pc : Pc := .tail
  prevHash : String := ""
  chained : List AuditRecord := []
  content : Text := []

def Writer.start (records : List AuditRecord) : Writer := { records := records }

def Writer.raise (w : Writer) (e : PyError) : Writer := { w with pc := .raised e }

section
variable (X : Type) [Json.FloatText X] (sha256 : Text → BitVec 256) (today : Date)

/-- The next step of a call: look up the tail and chain, read today's file, write the temp file,
look up the tail again, then raise or replace. -/
def Writer.step (w : Writer) (dir : AuditDir) : Writer × AuditDir :=
  match w.pc with
  | .tail => match lastRecordTail X dir with
    | .error e => (w.raise e, dir)
    | .ok (prevHash, prevTimestamp) =>
      match chainRecords X sha256 w.records prevHash prevTimestamp with
      | .error e => (w.raise e, dir)
      | .ok chained => ({ w with pc := .existing, prevHash := prevHash, chained := chained }, dir)
  | .existing =>
    ({ w with
        pc := .writeTmp
        content := (dir.read (fileName today)).getD [] ++ newBytes X w.chained }, dir)
  | .writeTmp => ({ w with pc := .recheck }, dir.write (tmpName today) w.content)
  | .recheck => match lastRecordTail X dir with
    | .error e => (w.raise e, dir)
    | .ok (current, _) => ({ w with pc := .finish current }, dir)
  | .finish current =>
    if current ≠ w.prevHash then
      (w.raise (.concurrentWrite (raceMessage w.prevHash current)), dir.remove (tmpName today))
    else match dir.read (tmpName today) with
      | none => (w.raise (.fileNotFound (tmpName today)), dir)
      | some bytes =>
        ({ w with pc := .returned }, (dir.remove (tmpName today)).write (fileName today) bytes)
  | .returned => (w, dir)
  | .raised _ => (w, dir)

inductive Who where
  | first
  | second
deriving DecidableEq

def Who.other : Who → Who
  | .first => .second
  | .second => .first

/-- The shared directory and the two calls. -/
structure Sys where
  dir : AuditDir
  writer : Who → Writer

def Sys.step (who : Who) (s : Sys) : Sys :=
  let (w, dir) := (s.writer who).step X sha256 today s.dir
  ⟨dir, Function.update s.writer who w⟩

def Sys.start (dir : AuditDir) (first second : List AuditRecord) : Sys where
  dir := dir
  writer
    | .first => .start first
    | .second => .start second

/-- The lines of today's file. -/
def todaysLines (dir : AuditDir) : List Text :=
  Text.splitlines ((dir.read (fileName today)).getD [])

/-- Every record of every call that returned is in today's file exactly once, and the verifier
finds no break. -/
def NothingLost [Value.ScalarEq X] (s : Sys) : Prop :=
  (∀ who, (s.writer who).pc = .returned →
    List.Forall₂ AuditRecord.LinkedAs (s.writer who).records (s.writer who).chained ∧
      ∀ r ∈ (s.writer who).chained, (todaysLines today s.dir).count (r.toJson X) = 1) ∧
  ∃ result : ChainVerificationResult X,
    verifyChain sha256 s.dir = .ok result ∧ result.breaks = []

/-- A call that is about to replace today's file finds its own bytes in the temp file, if it finds
one. -/
def OwnBytes (who : Who) (s : Sys) : Prop :=
  (s.writer who).pc = .finish (s.writer who).prevHash →
    ∀ bytes ∈ s.dir.read (tmpName today), bytes = (s.writer who).content

/-- SHA-256 tells the records on disk apart and sends none of them to zero. -/
def TellsApart (dir : AuditDir) : Prop :=
  (∀ a ∈ parsedRecords X dir, ∀ b ∈ parsedRecords X dir,
    sha256 (unhashedText a) = sha256 (unhashedText b) → unhashedText a = unhashedText b) ∧
  ∀ a ∈ parsedRecords X dir, sha256 (unhashedText a) ≠ 0

instance (who : Who) (s : Sys) : Decidable (OwnBytes today who s) :=
  inferInstanceAs (Decidable (_ → _))

instance [DecidableEq X] (dir : AuditDir) : Decidable (TellsApart X sha256 dir) :=
  inferInstanceAs (Decidable (_ ∧ _))

/-- A call that is left alone does what `write_records` does. -/
theorem iterate_step_eq_writeRecords (dir : AuditDir) (records : List AuditRecord) :
    let alone := (fun p : Writer × AuditDir => p.1.step X sha256 today p.2)^[5]
      (Writer.start records, dir)
    let (dir', result) := writeRecords X sha256 today dir records
    alone.2 = dir' ∧
      alone.1.pc = match result with
        | .ok _ => .returned
        | .error e => .raised e := by
  simp only [Function.iterate_succ, Function.iterate_zero, Function.comp_apply, id_eq, writeRecords]
  cases htail : lastRecordTail X dir with
  | error e => simp [Writer.step, Writer.start, Writer.raise, htail]
  | ok tail =>
    obtain ⟨prevHash, prevTimestamp⟩ := tail
    cases hc : chainRecords X sha256 records prevHash prevTimestamp with
    | error e => simp [Writer.step, Writer.start, Writer.raise, htail, hc]
    | ok chained =>
      simp only [Writer.step, Writer.start, htail, hc]
      cases hagain : lastRecordTail X (dir.write (tmpName today)
          ((dir.read (fileName today)).getD [] ++ newBytes X chained)) with
      | error e => simp [Writer.raise]
      | ok current =>
        by_cases hmoved : current.1 = prevHash
        · simp [hmoved]
        · simp [hmoved, Writer.raise]

end
end ContentOps.Audit
