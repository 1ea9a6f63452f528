import ContentOps.Audit.Record

/-! The writer: timestamps that only move forward, the chain of a batch, the tail on disk and the
replacement of today's file. -/

namespace ContentOps.Audit
open PyData

/-- `root / "audit"`: the text of each file under its name. -/
abbrev AuditDir := Directory String Text

/-- `*.jsonl`. -/
def isJsonl (name : String) : Bool := ".jsonl".toList.isSuffixOf name.toList

/-- `f"{date.today():%Y-%m-%d}.jsonl"`. -/
def fileName (today : Date) : String := String.ofList (today.isoText ++ ".jsonl".toList)

/-- `path.with_name(path.name + ".tmp")`. -/
def tmpName (today : Date) : String := String.ofList (today.isoText ++ ".jsonl.tmp".toList)

/-- `_monotonic_timestamp`. -/
def monotonicTimestamp (prevTs candidate : String) : Except PyError String :=
  if prevTs = "" ∨ prevTs < candidate then .ok candidate
  else match DateTime.strptime prevTs with
    | none => .ok candidate
    | some dtPrev => match dtPrev.addMicrosecond with
      | none => .error .overflowError
      | some bumped => .ok bumped.strftime

section
variable (X : Type) [Json.FloatText X]

/-- A record with its predecessor's hash, its timestamp and its own hash. -/
def linkRecord (sha256 : Text → BitVec 256) (r : AuditRecord) (prevHash timestamp : String) :
    AuditRecord :=
  let withPrev := { r with timestamp := timestamp, prevHash := prevHash, recordHash := "" }
  { withPrev with recordHash := computeRecordHash X sha256 withPrev }

/-- `_chain_records`. -/
def chainRecords (sha256 : Text → BitVec 256) :
    List AuditRecord → (prevHash prevTimestamp : String) → Except PyError (List AuditRecord)
  | [], _, _ => .ok []
  | r :: records, prevHash, prevTimestamp => do
    let bumpedTs ← monotonicTimestamp prevTimestamp r.timestamp
    let chained := linkRecord X sha256 r prevHash bumpedTs
    let rest ← chainRecords sha256 records chained.recordHash bumpedTs
    return chained :: rest

/-- One line of the search in `_last_record_tail`: the tail if the line holds one. -/
def tailOfLine (line : Text) : Except PyError (Option (String × String)) :=
  if Text.isBlank line then .ok none
  else match (Json.loads line : Option (Value X)) with
    | none => .ok none
    | some (.dict rec) => match Dict.get? rec "record_hash" with
      | some (.str rh) =>
        if rh = "" then .ok none
        else match Dict.get? rec "timestamp" with
          | some (.str ts) => .ok (some (rh, ts))
          | _ => .ok (some (rh, ""))
      | _ => .ok none
    | some _ => .error .attributeError

def findTail : List Text → Except PyError (String × String)
  | [] => .ok (zeroHash, "")
  | line :: lines => do
    match ← tailOfLine X line with
    | some tail => return tail
    | none => findTail lines

/-- `_last_record_tail`. -/
def lastRecordTail (dir : AuditDir) : Except PyError (String × String) :=
  findTail X ((dir.glob isJsonl).reverse.flatMap fun file => (Text.splitlines file.2).reverse)

/-- The message of `AuditConcurrentWriteError`. -/
def raceMessage (prevHash currentPrevHash : String) : String :=
  "audit tail moved during write (expected predecessor " ++ (prevHash.take 12).toString ++
    "..., now " ++ (currentPrevHash.take 12).toString ++ "...). Another writer raced this one; retry."

def newBytes (chained : List AuditRecord) : Text := Text.unlines (chained.map (·.toJson X))

/-- `write_records`: the directory it leaves, and the name of the file it returns or the
exception it raises. -/
def writeRecords (sha256 : Text → BitVec 256) (today : Date) (dir : AuditDir)
    (records : List AuditRecord) : AuditDir × Except PyError String :=
  match lastRecordTail X dir with
  | .error e => (dir, .error e)
  | .ok (prevHash, prevTimestamp) =>
    match chainRecords X sha256 records prevHash prevTimestamp with
    | .error e => (dir, .error e)
    | .ok chained =>
      let existing := (dir.read (fileName today)).getD []
      let content := existing ++ newBytes X chained
      let withTmp := dir.write (tmpName today) content
      match lastRecordTail X withTmp with
      | .error e => (withTmp, .error e)
      | .ok (currentPrevHash, _) =>
        if currentPrevHash ≠ prevHash then
          (withTmp.remove (tmpName today), .error (.concurrentWrite (raceMessage prevHash currentPrevHash)))
        else
          ((withTmp.remove (tmpName today)).write (fileName today) content, .ok (fileName today))

end

section
variable {X : Type} [Json.FloatText X] {sha256 : Text → BitVec 256}

@[simp] theorem linkRecord_prevHash (r : AuditRecord) (h ts : String) :
    (linkRecord X sha256 r h ts).prevHash = h := rfl

@[simp] theorem linkRecord_timestamp (r : AuditRecord) (h ts : String) :
    (linkRecord X sha256 r h ts).timestamp = ts := rfl

/-- The stored hash is the hash of the record that stores it. -/
theorem linkRecord_recordHash (r : AuditRecord) (h ts : String) :
    (linkRecord X sha256 r h ts).recordHash =
      computeRecordHash X sha256 (linkRecord X sha256 r h ts) := by
  rw [computeRecordHash, linkRecord, AuditRecord.toJsonUnhashed_recordHash]
  rfl

theorem chainRecords_cons_iff {r : AuditRecord} {records chained : List AuditRecord}
    {h ts : String} : chainRecords X sha256 (r :: records) h ts = .ok chained ↔
      ∃ bumped rest, monotonicTimestamp ts r.timestamp = .ok bumped ∧
        chainRecords X sha256 records (linkRecord X sha256 r h bumped).recordHash bumped =
          .ok rest ∧ chained = linkRecord X sha256 r h bumped :: rest := by
  rw [chainRecords]
  cases monotonicTimestamp ts r.timestamp with
  | error e => simp [bind, Except.bind]
  | ok bumped =>
    simp only [bind, Except.bind, pure, Except.pure, Except.ok.injEq, exists_and_left,
      exists_eq_left']
    cases chainRecords X sha256 records (linkRecord X sha256 r h bumped).recordHash bumped with
    | error e => simp
    | ok rest => simp [eq_comm]

end

theorem isJsonl_fileName (today : Date) : isJsonl (fileName today) = true := by
  simp [isJsonl, fileName]

theorem isJsonl_tmpName (today : Date) : isJsonl (tmpName today) = false := by
  have htmp : (tmpName today).toList = today.isoText ++ ".jsonl.tmp".toList := String.toList_ofList
  rw [isJsonl, htmp, List.isSuffixOf, List.reverse_append]
  rfl

end ContentOps.Audit
