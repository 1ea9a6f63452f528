import ContentOps.Audit.Soundness

/-! Runs of `write_records`, one call after the other, from an empty directory. -/

namespace ContentOps.Audit
open PyData

/-- One call: the day it is made on and its batch. -/
structure Call where
  today : Date
  records : List AuditRecord

/-- What a run has done so far: the directory, the records of the calls that returned, and
whether some call raised. -/
structure Run where
  dir : AuditDir := Directory.empty
  written : Nat := 0
  raised : Bool := false

section
variable (X : Type) [Json.FloatText X] (sha256 : Text → BitVec 256)

def callStep (run : Run) (call : Call) : Run :=
  match writeRecords X sha256 call.today run.dir call.records with
  | (dir, .ok _) => { run with dir := dir, written := run.written + call.records.length }
  | (dir, .error _) => { run with dir := dir, raised := true }

def runCalls (calls : List Call) : Run := calls.foldl (callStep X sha256) {}

/-- What holds between two calls, when `used` records have been offered so far. -/
structure Run.Good (run : Run) (used : Nat) (rs : List AuditRecord) : Prop where
  holds : Holds X run.dir rs
  sound : Sound X sha256 zeroHash "" rs
  written : run.written = rs.length
  within : used ≤ lastYearMicroseconds →
    run.raised = false ∧ rs.length = used ∧ Within used (tailTimestamp "" rs)

variable {X sha256}

theorem Run.Good.init : Run.Good X sha256 {} 0 [] :=
  ⟨Holds.empty, Sound.nil _ _, rfl, fun _ => ⟨rfl, rfl, .inl rfl⟩⟩

/-- Every name is that of a day up to `today`. -/
def NamesUpTo (dir : AuditDir) (today : Date) : Prop :=
  ∀ p ∈ dir.glob isJsonl, p.1 ≤ fileName today

theorem fileName_le {d e : Date} (h : d ≤ e) : fileName d ≤ fileName e := by
  have hd : (fileName d).toList = d.isoText ++ ".jsonl".toList := String.toList_ofList
  have he : (fileName e).toList = e.isoText ++ ".jsonl".toList := String.toList_ofList
  rw [String.le_iff_toList_le, hd, he]
  exact Date.isoText_append_le h _

theorem glob_replace (dir : AuditDir) (today : Date) (content : Text) :
    ((dir.write (tmpName today) content).remove (tmpName today)).glob isJsonl =
      dir.glob isJsonl := by
  rw [Directory.glob_remove_of_not (isJsonl_tmpName today),
    Directory.glob_write_of_not (isJsonl_tmpName today)]

theorem read_replace (dir : AuditDir) (today : Date) (content : Text) :
    ((dir.write (tmpName today) content).remove (tmpName today)).read (fileName today) =
      dir.read (fileName today) := by
  have hne : tmpName today ≠ fileName today := by
    intro h
    have hjsonl := isJsonl_fileName today
    rw [← h, isJsonl_tmpName] at hjsonl
    exact Bool.noConfusion hjsonl
  rw [Directory.read_remove, if_neg hne, Directory.read_write, if_neg hne]

theorem NamesUpTo.write {dir : AuditDir} {today later : Date} (h : NamesUpTo dir later)
    (hle : today ≤ later) (content : Text) : NamesUpTo (dir.write (fileName today) content) later := by
  intro p hp
  obtain ⟨hread, hj⟩ := Directory.mem_glob.mp hp
  rw [Directory.read_write] at hread
  split_ifs at hread with hname
  · exact hname ▸ fileName_le hle
  · exact h p (Directory.mem_glob.mpr ⟨hread, hj⟩)

variable [Json.FloatLine X]

/-- A call on a directory that holds a sound chain: its batch is chained and added, or the chaining
raises and the directory stays as it was. -/
theorem writeRecords_of_holds {dir : AuditDir} {rs : List AuditRecord} (hd : Holds X dir rs)
    (hs : Sound X sha256 zeroHash "" rs) (today : Date) (records : List AuditRecord) :
    writeRecords X sha256 today dir records =
      match chainRecords X sha256 records (tailHash zeroHash rs) (tailTimestamp "" rs) with
      | .error e => (dir, .error e)
      | .ok chained =>
        let content := (dir.read (fileName today)).getD [] ++ newBytes X chained
        (((dir.write (tmpName today) content).remove (tmpName today)).write (fileName today) content,
          .ok (fileName today)) := by
  have htail := hd.lastRecordTail hs.hash_ne_empty
  rw [writeRecords, htail]
  dsimp only
  cases chainRecords X sha256 records (tailHash zeroHash rs) (tailTimestamp "" rs) with
  | error e => rfl
  | ok chained =>
    have htmp : Holds X (dir.write (tmpName today)
        ((dir.read (fileName today)).getD [] ++ newBytes X chained)) rs :=
      hd.congr (Directory.glob_write_of_not (isJsonl_tmpName today) _ _)
    simp only [htmp.lastRecordTail hs.hash_ne_empty, ne_eq, not_true_eq_false, if_false]

theorem callStep_good {run : Run} {used : Nat} {rs : List AuditRecord} {call : Call}
    (hg : run.Good X sha256 used rs) (hnames : NamesUpTo run.dir call.today)
    (hts : ∀ r ∈ call.records, PipelineTimestamp r.timestamp) :
    ∃ rs', (callStep X sha256 run call).Good X sha256 (used + call.records.length) rs' ∧
      ∀ later, call.today ≤ later → NamesUpTo run.dir later →
        NamesUpTo (callStep X sha256 run call).dir later := by
  have hwrite := writeRecords_of_holds hg.holds hg.sound call.today call.records
  have hfloor := hg.sound.floor_tail (.inl rfl)
  rw [callStep, hwrite]
  cases hc : chainRecords X sha256 call.records (tailHash zeroHash rs) (tailTimestamp "" rs) with
  | error e =>
    refine ⟨rs, ⟨hg.holds, hg.sound, hg.written, fun hle => ?_⟩, fun _ _ h => h⟩
    obtain ⟨chained, hok, -⟩ := chainRecords_ok (X := X) sha256 (tailHash zeroHash rs) hle
      (hg.within (by omega)).2.2 hts
    rw [hok] at hc
    cases hc
  | ok chained =>
    have hsound := hg.sound.append
      (chainRecords_sound hfloor (fun r hr => (hts r hr).canonical) hc)
    let content := (run.dir.read (fileName call.today)).getD [] ++ newBytes X chained
    have hadd := (hg.holds.congr (glob_replace run.dir call.today content)).append
      (isJsonl_fileName call.today) (by rw [glob_replace]; exact hnames) chained
    rw [read_replace] at hadd
    refine ⟨rs ++ chained, ⟨hadd, hsound, ?_, fun hle => ?_⟩, fun later hlater h => ?_⟩
    · rw [List.length_append, chainRecords_length hc, hg.written]
    · obtain ⟨hraised, hlen, hw⟩ := hg.within (by omega)
      obtain ⟨chained', hok, hw'⟩ := chainRecords_ok (X := X) sha256 (tailHash zeroHash rs) hle hw hts
      rw [hc, Except.ok.injEq] at hok
      subst hok
      refine ⟨hraised, by rw [List.length_append, chainRecords_length hc, hlen], ?_⟩
      rwa [tailTimestamp, HashChain.tail_append]
    · refine NamesUpTo.write ?_ hlater _
      rw [NamesUpTo, glob_replace]
      exact h

theorem foldl_callStep_good {calls : List Call} {run : Run} {used : Nat} {rs : List AuditRecord}
    (hg : run.Good X sha256 used rs) (hdays : calls.Pairwise fun c d => c.today ≤ d.today)
    (hnames : ∀ c ∈ calls, NamesUpTo run.dir c.today)
    (hts : ∀ c ∈ calls, ∀ r ∈ c.records, PipelineTimestamp r.timestamp) :
    ∃ rs', (calls.foldl (callStep X sha256) run).Good X sha256
      (used + (calls.map (·.records.length)).sum) rs' := by
  induction calls generalizing run used rs with
  | nil => exact ⟨rs, hg⟩
  | cons c calls ih =>
    rw [List.pairwise_cons] at hdays
    rw [List.forall_mem_cons] at hnames hts
    obtain ⟨rs', hg', hlater⟩ := callStep_good hg hnames.1 hts.1
    rw [List.foldl_cons, List.map_cons, List.sum_cons, ← Nat.add_assoc]
    exact ih hg' hdays.2 (fun d hd => hlater d.today (hdays.1 d hd) (hnames.2 d hd)) hts.2

variable (X sha256) in
/-- Any run of calls whose days do not go back leaves files the verifier accepts: it counts
exactly the records written and the stored timestamps increase strictly over all of them. No call
raises while the batches fit in the calendar. -/
theorem runCalls_verified [Value.ScalarEq X] (calls : List Call)
    (hdays : calls.Pairwise fun c d => c.today ≤ d.today)
    (hts : ∀ c ∈ calls, ∀ r ∈ c.records, PipelineTimestamp r.timestamp) :
    (∃ result : ChainVerificationResult X,
      verifyChain sha256 (runCalls X sha256 calls).dir = .ok result ∧ result.breaks = [] ∧
        result.recordsVerified = (runCalls X sha256 calls).written) ∧
    (∃ stamps : List String,
      (parsedRecords X (runCalls X sha256 calls).dir).map (·.get? "timestamp") =
        stamps.map (fun ts => some (.str ts)) ∧ stamps.Pairwise (· < ·)) ∧
    ((calls.map (·.records.length)).sum ≤ lastYearMicroseconds →
      (runCalls X sha256 calls).raised = false ∧
        (runCalls X sha256 calls).written = (calls.map (·.records.length)).sum) := by
  obtain ⟨rs, hg⟩ := foldl_callStep_good (Run.Good.init : Run.Good X sha256 {} 0 []) hdays
    (fun c _ => by simp [NamesUpTo]) hts
  rw [Nat.zero_add] at hg
  refine ⟨⟨_, hg.holds.verifyChain hg.sound, rfl, hg.written.symm⟩,
    ⟨rs.map AuditRecord.timestamp, ?_, (List.pairwise_cons.mp hg.sound.increasing).2⟩,
    fun hle => ?_⟩
  · rw [runCalls, hg.holds.parsedRecords, List.map_map, List.map_map]
    rfl
  · obtain ⟨hraised, hlen, -⟩ := hg.within hle
    exact ⟨hraised, hg.written.trans hlen⟩

end

/-- A small stand-in for a digest: the characters as digits of one number. -/
def positional (t : Text) : BitVec 256 :=
  BitVec.ofNat 256 (t.foldl (fun n c => n * 0x110000 + c.toNat + 1) 0)

def sampleRecord (timestamp : DateTime) (action : String) : AuditRecord where
  timestamp := timestamp.strftime
  asset := "sentinel_analytic"
  id := "suspicious-sign-in"
  action := action
  status := "success"
  sha := "0f3c9a1"
  actor := "deployer"
  workflowRun := some "1871"
  message := none
  metadataOwner := some "soc"

def lastOfJanuary : Date := ⟨2026, 1, 31, by decide, by decide, by decide⟩

def beforeMidnight : DateTime := ⟨⟨2026, 1, 31, 23, 59, 59, 999999⟩, by decide⟩

def theDayBefore : DateTime := ⟨⟨2026, 1, 30, 8, 0, 0, 0⟩, by decide⟩

/-- Two days; on the second one the clock has gone back. -/
def twoDays : List Call :=
  [⟨lastOfJanuary, [sampleRecord beforeMidnight "create", sampleRecord beforeMidnight "update"]⟩,
    ⟨⟨2026, 2, 1, by decide, by decide, by decide⟩, [sampleRecord theDayBefore "delete"]⟩]

theorem runCalls_verified_twoDays : ∃ result : ChainVerificationResult Empty,
    verifyChain positional (runCalls Empty positional twoDays).dir = .ok result ∧
      result.breaks = [] ∧ result.recordsVerified = 3 := by
  have hpipeline : ∀ c ∈ twoDays, ∀ r ∈ c.records, PipelineTimestamp r.timestamp := by
    simp only [twoDays, sampleRecord, List.forall_mem_cons, List.not_mem_nil, false_imp_iff,
      implies_true, and_true]
    exact ⟨⟨⟨_, by decide, by decide, rfl⟩, ⟨_, by decide, by decide, rfl⟩⟩,
      ⟨_, by decide, by decide, rfl⟩⟩
  have hdays : twoDays.Pairwise fun c d => c.today ≤ d.today := by
    simp only [twoDays, List.pairwise_cons, List.mem_singleton, forall_eq, List.not_mem_nil,
      false_imp_iff, implies_true, List.Pairwise.nil, and_true]
    exact .inr ⟨rfl, .inl (by decide)⟩
  obtain ⟨⟨result, hv, hb, hc⟩, -, hall⟩ := runCalls_verified Empty positional twoDays hdays hpipeline
  exact ⟨result, hv, hb, hc.trans (hall (by decide)).2⟩

end ContentOps.Audit
