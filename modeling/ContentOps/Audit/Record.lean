import ContentOps.Library.DateTime
import ContentOps.Library.Directory
import ContentOps.Library.HashChain
import ContentOps.Library.JsonLine

/-! The audit record of `audit/writer.py`, its serialization and its hash. -/

namespace ContentOps.Audit
open PyData

/-- The exceptions the audit code can raise. -/
inductive PyError where
  | typeError
  | attributeError
  | overflowError
  | fileNotFound (name : String)
  | concurrentWrite (message : String)
deriving DecidableEq, Repr

/-- `hashlib.sha256(...).hexdigest()`, from the 256 bits of the digest. -/
def hexdigest (digest : BitVec 256) : String := String.ofList (FixedWidth.pad 16 64 digest.toNat)

/-- `ZERO_HASH`. -/
def zeroHash : String := String.ofList (List.replicate 64 '0')

theorem hexdigest_zero : hexdigest 0 = zeroHash := rfl

theorem hexdigest_injective : Function.Injective hexdigest := by
  intro a b h
  refine BitVec.eq_of_toNat_eq (FixedWidth.pad_injective (k := 64) (by decide) (by decide) ?_ ?_
    (String.ofList_injective h))
  · exact lt_of_lt_of_eq a.isLt (by norm_num)
  · exact lt_of_lt_of_eq b.isLt (by norm_num)

theorem hexdigest_ne_empty (digest : BitVec 256) : hexdigest digest ≠ "" := by
  intro h
  have hlen := congrArg (fun s => s.toList.length) h
  simp [hexdigest] at hlen

structure AuditRecord where
  timestamp : String
  asset : String
  id : String
  action : String
  status : String
  sha : String
  actor : String
  workflowRun : Option String
  message : Option String
  metadataOwner : Option String
  workspace : Option String := none
  snippetDigest : Option String := none
  prevHash : String := zeroHash
  recordHash : String := ""
deriving DecidableEq

/-- `asdict(self)`. -/
def AuditRecord.asdict {X : Type} (r : AuditRecord) : Dict String (Value X) :=
  [("timestamp", .str r.timestamp), ("asset", .str r.asset), ("id", .str r.id),
    ("action", .str r.action), ("status", .str r.status), ("sha", .str r.sha),
    ("actor", .str r.actor), ("workflow_run", .ofOption r.workflowRun),
    ("message", .ofOption r.message), ("metadata_owner", .ofOption r.metadataOwner),
    ("workspace", .ofOption r.workspace), ("snippet_digest", .ofOption r.snippetDigest),
    ("prev_hash", .str r.prevHash), ("record_hash", .str r.recordHash)]

section
variable (X : Type) [Json.FloatText X]

def AuditRecord.toJsonUnhashed (r : AuditRecord) : Text :=
  Json.dumps Json.compact (.dict ((r.asdict : Dict String (Value X)).erase "record_hash"))

def AuditRecord.toJson (r : AuditRecord) : Text :=
  Json.dumps Json.compact (.dict (r.asdict : Dict String (Value X)))

/-- `_compute_record_hash`. -/
def computeRecordHash (sha256 : Text → BitVec 256) (r : AuditRecord) : String :=
  hexdigest (sha256 (r.toJsonUnhashed X))

end

section
variable {X : Type}

theorem AuditRecord.wf_asdict (r : AuditRecord) : (Value.dict (r.asdict : Dict String (Value X))).WF := by
  rw [Value.wf_dict_iff]
  refine ⟨by simp [asdict, Dict.keys], ?_⟩
  simp [asdict]

@[simp] theorem AuditRecord.get?_timestamp (r : AuditRecord) :
    (r.asdict : Dict String (Value X)).get? "timestamp" = some (.str r.timestamp) := rfl

@[simp] theorem AuditRecord.get?_prev_hash (r : AuditRecord) :
    (r.asdict : Dict String (Value X)).get? "prev_hash" = some (.str r.prevHash) := rfl

@[simp] theorem AuditRecord.get?_record_hash (r : AuditRecord) :
    (r.asdict : Dict String (Value X)).get? "record_hash" = some (.str r.recordHash) := rfl

variable [Json.FloatText X]

theorem AuditRecord.loads_toJson (r : AuditRecord) :
    Json.loads (r.toJson X) = some (.dict (r.asdict : Dict String (Value X))) :=
  Json.loads_dumps Json.compact_blank r.wf_asdict

theorem AuditRecord.isBlank_toJson (r : AuditRecord) : Text.isBlank (r.toJson X) = false :=
  Json.isBlank_dumps_dict ..

theorem AuditRecord.isLine_toJson [Json.FloatLine X] (r : AuditRecord) : Text.IsLine (r.toJson X) :=
  Json.isLine_dumps _

/-- The hash of a record does not look at the hash the record stores. -/
theorem AuditRecord.toJsonUnhashed_recordHash (r : AuditRecord) (h : String) :
    ({ r with recordHash := h } : AuditRecord).toJsonUnhashed X = r.toJsonUnhashed X := rfl

end
end ContentOps.Audit
