import ContentOps.Audit.Writer
import Mathlib.Data.List.Infix

/-! The verifier: one walk over the lines of all files, and the head it is notarised with. -/

namespace ContentOps.Audit
open PyData

inductive Reason where
  | prevHashMismatch
  | recordHashInvalid
  | missingField
  | timestampRegression
deriving DecidableEq, Repr

structure ChainBreak (X : Type) where
  file : String
  lineNumber : Nat
  expectedPrevHash : Value X
  reason : Reason

structure ChainVerificationResult (X : Type) where
  filesChecked : Nat
  recordsVerified : Nat
  breaks : List (ChainBreak X)

/-- The local variables of `verify_chain`. -/
structure Walk (X : Type) where
  breaks : List (ChainBreak X) := []
  recordsVerified : Nat := 0
  expectedPrev : Value X := .str zeroHash
  prevTimestamp : String := ""

/-- `for ln, line in enumerate(content.splitlines(), start=1)`, for every file in turn. -/
def numberedLines (dir : AuditDir) : List (String × Nat × Text) :=
  (dir.glob isJsonl).flatMap fun file =>
    (Text.splitlines file.2).zipIdx.map fun (line, i) => (file.1, i + 1, line)

section
variable {X : Type} [Json.FloatText X] [Value.ScalarEq X]

/-- What `"record_hash" not in d or "prev_hash" not in d` and the code after it raise when `d` is
no dictionary. -/
def fieldError : Value X → PyError
  | .list vs =>
    if vs.any (Value.pyEq · (.str "record_hash")) ∧ vs.any (Value.pyEq · (.str "prev_hash")) then
      .typeError
    else .attributeError
  | .str s =>
    if "record_hash".toList <:+: s.toList ∧ "prev_hash".toList <:+: s.toList then .typeError
    else .attributeError
  | _ => .typeError

/-- `json.dumps(d_for_hash, separators=(",", ":"))`. -/
def unhashedText (d : Dict String (Value X)) : Text :=
  Json.dumps Json.compact (.dict (d.erase "record_hash"))

/-- The hash `verify_chain` recomputes for a parsed record. -/
def recomputedHash (sha256 : Text → BitVec 256) (d : Dict String (Value X)) : String :=
  hexdigest (sha256 (unhashedText d))

def hashBreaks (sha256 : Text → BitVec 256) (file : String) (ln : Nat) (d : Dict String (Value X))
    (storedHash actualPrev expectedPrev : Value X) : List (ChainBreak X) :=
  if ¬ Value.pyEq storedHash (.str (recomputedHash sha256 d)) then
    [⟨file, ln, expectedPrev, .recordHashInvalid⟩]
  else if ¬ Value.pyEq actualPrev expectedPrev then [⟨file, ln, expectedPrev, .prevHashMismatch⟩]
  else []

def timestampBreaks (file : String) (ln : Nat) (d : Dict String (Value X)) (w : Walk X) :
    List (ChainBreak X) :=
  match d.get? "timestamp" with
  | some (.str ts) =>
    if w.prevTimestamp ≠ "" ∧ ts < w.prevTimestamp then
      [⟨file, ln, w.expectedPrev, .timestampRegression⟩]
    else []
  | _ => []

def nextTimestamp (d : Dict String (Value X)) (prevTimestamp : String) : String :=
  match d.get? "timestamp" with
  | some (.str ts) => if ts = "" then prevTimestamp else ts
  | _ => prevTimestamp

def verifyRecord (sha256 : Text → BitVec 256) (file : String) (ln : Nat) (d : Dict String (Value X))
    (storedHash actualPrev : Value X) (w : Walk X) : Walk X where
  breaks := w.breaks ++ hashBreaks sha256 file ln d storedHash actualPrev w.expectedPrev ++
    timestampBreaks file ln d w
  recordsVerified := w.recordsVerified + 1
  expectedPrev := storedHash
  prevTimestamp := nextTimestamp d w.prevTimestamp

def verifyLine (sha256 : Text → BitVec 256) (w : Walk X) :
    String × Nat × Text → Except PyError (Walk X)
  | (file, ln, line) =>
    if Text.isBlank line then .ok w
    else match (Json.loads line : Option (Value X)) with
      | none =>
        .ok { w with breaks := w.breaks ++ [⟨file, ln, w.expectedPrev, .missingField⟩] }
      | some (.dict d) =>
        match Dict.get? d "record_hash", Dict.get? d "prev_hash" with
        | some storedHash, some actualPrev =>
          .ok (verifyRecord sha256 file ln d storedHash actualPrev w)
        | _, _ => .ok { w with breaks := w.breaks ++ [⟨file, ln, w.expectedPrev, .missingField⟩] }
      | some v => .error (fieldError v)

/-- `verify_chain`. -/
def verifyChain (sha256 : Text → BitVec 256) (dir : AuditDir) :
    Except PyError (ChainVerificationResult X) := do
  let w ← (numberedLines dir).foldlM (verifyLine sha256) {}
  return ⟨(dir.glob isJsonl).length, w.recordsVerified, w.breaks⟩

structure HeadSummary where
  headHash : Option String
  tailTimestamp : Option String
  filesChecked : Nat
  recordsVerified : Nat
  chainBreaks : Nat
  verified : Bool

variable (X) in
/-- `head_summary`. -/
def headSummary (sha256 : Text → BitVec 256) (dir : AuditDir) : Except PyError HeadSummary := do
  let (headHash, tailTs) ← lastRecordTail X dir
  let result : ChainVerificationResult X ← verifyChain sha256 dir
  return {
    headHash := if headHash = zeroHash then none else some headHash
    tailTimestamp := if tailTs = "" then none else some tailTs
    filesChecked := result.filesChecked
    recordsVerified := result.recordsVerified
    chainBreaks := result.breaks.length
    verified := result.breaks.isEmpty }

/-! ## The records of a directory -/

/-- The record a line holds. -/
def recordOfLine (line : Text) : Option (Dict String (Value X)) :=
  if Text.isBlank line then none
  else match (Json.loads line : Option (Value X)) with
    | some (.dict d) => some d
    | _ => none

def dirLines (dir : AuditDir) : List Text :=
  (dir.glob isJsonl).flatMap fun file => Text.splitlines file.2

variable (X) in
/-- The parsed records, file by file in the order of the names. -/
def parsedRecords (dir : AuditDir) : List (Dict String (Value X)) := (dirLines dir).filterMap recordOfLine

theorem lines_numberedLines (dir : AuditDir) :
    (numberedLines dir).map (fun l => l.2.2) = dirLines dir := by
  simp only [numberedLines, dirLines, List.map_flatMap, List.map_map]
  refine congrArg (fun f => (dir.glob isJsonl).flatMap f) (funext fun file => ?_)
  exact List.zipIdx_map_fst 0 _

theorem reverse_dirLines (dir : AuditDir) : (dirLines dir).reverse =
    (dir.glob isJsonl).reverse.flatMap fun file => (Text.splitlines file.2).reverse := by
  rw [dirLines, List.reverse_flatMap]
  rfl

omit [Value.ScalarEq X] in
theorem lastRecordTail_eq (dir : AuditDir) :
    lastRecordTail X dir = findTail X (dirLines dir).reverse := by
  rw [lastRecordTail, reverse_dirLines]

end
end ContentOps.Audit
