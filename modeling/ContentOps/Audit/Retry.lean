import ContentOps.Audit.Concurrent

/-! A call of `write_records` while other processes write, `write_records_with_retry`, and the
sidecar that `apply` falls back to. -/

namespace ContentOps.Audit
open PyData

/-- The batches that other processes write before each step of a call. -/
abbrev Others := Nat → List (List AuditRecord)

/-- `f"{date.today():%Y-%m-%d}.jsonl.orphan"`. -/
def orphanName (today : Date) : String := String.ofList (today.isoText ++ ".jsonl.orphan".toList)

/-- How a command writes its records: once, or again after each race and then to the sidecar. -/
inductive Sink where
  | single
  | retrying
deriving DecidableEq

section
variable (X : Type) [Json.FloatText X] (sha256 : Text → BitVec 256) (today : Date)

/-- Another process has written a batch; a call of it that raised does not count. -/
def otherWrite (dir : AuditDir) (batch : List AuditRecord) : AuditDir :=
  match writeRecords X sha256 today dir batch with
  | (dir', .ok _) => dir'
  | (_, .error _) => dir

def otherWrites (dir : AuditDir) (batches : List (List AuditRecord)) : AuditDir :=
  batches.foldl (otherWrite X sha256 today) dir

/-- The first `n` steps of a call. -/
def steps (others : Others) (s : Writer × AuditDir) : Nat → Writer × AuditDir
  | 0 => s
  | n + 1 =>
    let s' := steps others s n
    s'.1.step X sha256 today (otherWrites X sha256 today s'.2 (others n))

/-- A whole call among others. -/
def attempt (others : Others) (dir : AuditDir) (records : List AuditRecord) : Writer × AuditDir :=
  steps X sha256 today others (.start records, dir) 5

/-- `write_records_with_retry`, with `n` attempts after the first. -/
def writeRecordsWithRetry (records : List AuditRecord) :
    Nat → (Nat → Others) → AuditDir → Writer × AuditDir
  | 0, others, dir => attempt X sha256 today (others 0) dir records
  | n + 1, others, dir =>
    let s := attempt X sha256 today (others 0) dir records
    match s.1.pc with
    | .raised (.concurrentWrite _) =>
      writeRecordsWithRetry records n (fun k => others (k + 1)) s.2
    | _ => s

/-- `write_orphan_records`. -/
def writeOrphanRecords (dir : AuditDir) (records : List AuditRecord) : AuditDir :=
  dir.write (orphanName today) ((dir.read (orphanName today)).getD [] ++ newBytes X records)

/-- The directory at the end of a command, and what it wrote to the chain and to the sidecar. -/
structure AuditEnd where
  dir : AuditDir
  chained : List (List AuditRecord) := []
  orphaned : List (List AuditRecord) := []

/-- The end of a command that has called its handlers; it waits for the others once more. -/
def recordBatch (sink : Sink) (others : Nat → Others) (last : List (List AuditRecord))
    (dir : AuditDir) (records : List AuditRecord) : AuditEnd :=
  let s := match sink with
    | .single => attempt X sha256 today (others 0) dir records
    | .retrying => writeRecordsWithRetry X sha256 today records 2 others dir
  let e : AuditEnd := match sink, s.1.pc with
    | _, .returned => { dir := s.2, chained := [s.1.chained] }
    | .retrying, .raised (.concurrentWrite _) =>
      { dir := writeOrphanRecords X today s.2 records, orphaned := [records] }
    | _, _ => { dir := s.2 }
  { e with dir := otherWrites X sha256 today e.dir last }

/-- Each record stands once in the chain or, failing that, once in the sidecar. -/
def AuditEnd.Accounts (records : List AuditRecord) (e : AuditEnd) : Prop :=
  (∃ chained, e.chained = [chained] ∧ e.orphaned = [] ∧
    List.Forall₂ AuditRecord.LinkedAs records chained ∧
      newBytes X chained <:+: (e.dir.read (fileName today)).getD []) ∨
  (e.chained = [] ∧ e.orphaned = [records] ∧
    newBytes X records <:+ (e.dir.read (orphanName today)).getD [])

/-! ## Where the others write -/

/-- The directory before step `n` of a call, but for what the call itself did. -/
def world (others : Others) (dir : AuditDir) : Nat → AuditDir
  | 0 => otherWrites X sha256 today dir (others 0)
  | n + 1 => otherWrites X sha256 today (world others dir n) (others (n + 1))

/-- Some batch is written. -/
def anyCompletes (dir : AuditDir) : List (List AuditRecord) → Bool
  | [] => false
  | batch :: batches =>
    (writeRecords X sha256 today dir batch).2.toBool ||
      anyCompletes (otherWrite X sha256 today dir batch) batches

/-- What a call runs into: a tail that cannot be read or chained to, a tail that moved between its
two looks at it, another writer that takes the temp file away, or nothing. -/
inductive Meeting where
  | unreadable
  | moved
  | interrupted
  | clear
deriving DecidableEq

def meeting (others : Others) (dir : AuditDir) (records : List AuditRecord) : Meeting :=
  match lastRecordTail X (world X sha256 today others dir 0),
      lastRecordTail X (world X sha256 today others dir 3) with
  | .ok (prevHash, prevTimestamp), .ok (current, _) =>
    if !(chainRecords X sha256 records prevHash prevTimestamp).toBool then .unreadable
    else if current ≠ prevHash then .moved
    else if anyCompletes X sha256 today (world X sha256 today others dir 2) (others 3) ||
        anyCompletes X sha256 today (world X sha256 today others dir 3) (others 4) then .interrupted
    else .clear
  | _, _ => .unreadable

/-- The first of `n + 1` attempts that meets no moved tail meets nothing else, or all meet one. -/
def SettlesWithin (records : List AuditRecord) : Nat → (Nat → Others) → AuditDir → Prop
  | 0, others, dir => meeting X sha256 today (others 0) dir records ∈ [.moved, .clear]
  | n + 1, others, dir =>
    meeting X sha256 today (others 0) dir records = .clear ∨
      (meeting X sha256 today (others 0) dir records = .moved ∧
        SettlesWithin records n (fun k => others (k + 1))
          (world X sha256 today (others 0) dir 4))

def Settles (sink : Sink) (others : Nat → Others) (dir : AuditDir) (records : List AuditRecord) :
    Prop :=
  match sink with
  | .single => meeting X sha256 today (others 0) dir records = .clear
  | .retrying => SettlesWithin X sha256 today records 2 others dir

end
end ContentOps.Audit
