import ContentOps.Audit.Concurrent

/-! As long as no call replaces today's file by the other call's bytes, no order of the steps loses
a batch. -/

namespace ContentOps.Audit
open PyData

section
variable {X : Type} [Json.FloatText X] {sha256 : Text → BitVec 256} {today : Date}

/-! ## Today's file -/

variable (X today) in
/-- The directory during the day: the earlier files hold `older`, today's file holds `added`. -/
structure Day (older : List (String × List AuditRecord)) (dir : AuditDir)
    (added : List AuditRecord) : Prop where
  names : NamesUpTo dir today
  older : (dir.glob isJsonl).filter (fun p => p.1 < fileName today) =
    older.map fun f => (f.1, newBytes X f.2)
  today : (dir.read (fileName today)).getD [] = newBytes X added

variable {older : List (String × List AuditRecord)}

/-- The records on disk. -/
def onDisk (older : List (String × List AuditRecord)) (added : List AuditRecord) :
    List AuditRecord := older.flatMap Prod.snd ++ added

theorem onDisk_append (rs ss : List AuditRecord) :
    onDisk older (rs ++ ss) = onDisk older rs ++ ss := (List.append_assoc ..).symm

theorem tmpName_ne_fileName (today : Date) : tmpName today ≠ fileName today := by
  intro h
  have hjsonl := isJsonl_fileName today
  rw [← h, isJsonl_tmpName] at hjsonl
  exact Bool.noConfusion hjsonl

theorem Day.congr {dir dir' : AuditDir} {added : List AuditRecord} (h : Day X today older dir added)
    (hg : dir'.glob isJsonl = dir.glob isJsonl)
    (hr : dir'.read (fileName today) = dir.read (fileName today)) :
    Day X today older dir' added where
  names := by
    rw [NamesUpTo, hg]
    exact h.names
  older := hg ▸ h.older
  today := hr ▸ h.today

theorem Day.write_tmp {dir : AuditDir} {added : List AuditRecord}
    (h : Day X today older dir added) (content : Text) :
    Day X today older (dir.write (tmpName today) content) added :=
  h.congr (Directory.glob_write_of_not (isJsonl_tmpName today) dir content)
    (by rw [Directory.read_write, if_neg (tmpName_ne_fileName today)])

theorem Day.remove_tmp {dir : AuditDir} {added : List AuditRecord}
    (h : Day X today older dir added) : Day X today older (dir.remove (tmpName today)) added :=
  h.congr (Directory.glob_remove_of_not (isJsonl_tmpName today) dir)
    (by rw [Directory.read_remove, if_neg (tmpName_ne_fileName today)])

theorem Day.write_today {dir : AuditDir} {added added' : List AuditRecord}
    (h : Day X today older dir added) :
    Day X today older (dir.write (fileName today) (newBytes X added')) added' where
  names := h.names.write (Date.le_refl today) _
  older := by
    rw [Directory.glob_write_last (isJsonl_fileName today) h.names, List.filter_append,
      List.filter_filter]
    simp only [Bool.and_self, lt_irrefl, decide_false, Bool.false_eq_true, not_false_eq_true,
      List.filter_cons_of_neg, List.filter_nil, List.append_nil, h.older]
  today := by rw [Directory.read_write_self, Option.getD_some]

theorem Day.holds {dir : AuditDir} {added : List AuditRecord} (h : Day X today older dir added) :
    Holds X dir (onDisk older added) := by
  have hsplit := Directory.glob_eq_append (isJsonl_fileName today) h.names
  have htoday := h.today
  rw [h.older] at hsplit
  cases hr : dir.read (fileName today) with
  | none =>
    rw [hr, Option.toList_none, List.map_nil, List.append_nil] at hsplit
    rw [hr, Option.getD_none, eq_comm, newBytes_eq_nil_iff] at htoday
    exact ⟨older, hsplit, by rw [htoday, onDisk, List.append_nil]⟩
  | some content =>
    rw [hr, Option.toList_some, List.map_singleton] at hsplit
    rw [hr, Option.getD_some] at htoday
    refine ⟨older ++ [(fileName today, added)], ?_, by simp [onDisk]⟩
    rw [hsplit, htoday, List.map_append, List.map_singleton]

/-- A directory that holds records up to today is a directory during the day. -/
theorem Holds.day {dir : AuditDir} {rs : List AuditRecord} (h : Holds X dir rs)
    (hnames : NamesUpTo dir today) :
    ∃ older added, onDisk older added = rs ∧ Day X today older dir added := by
  obtain ⟨files, hf, rfl⟩ := h
  have hsplit := Directory.glob_eq_append (isJsonl_fileName today) hnames
  rw [hf, List.map_eq_append_iff] at hsplit
  obtain ⟨older, last, rfl, holder, hlast⟩ := hsplit
  rw [← hf] at holder
  cases hr : dir.read (fileName today) with
  | none =>
    rw [hr, Option.toList_none, List.map_nil, List.map_eq_nil_iff] at hlast
    subst hlast
    exact ⟨older, [], by simp [onDisk], hnames, holder.symm, by rw [hr]; rfl⟩
  | some content =>
    rw [hr, Option.toList_some, List.map_singleton, List.map_eq_singleton_iff] at hlast
    obtain ⟨⟨name, added⟩, rfl, heq⟩ := hlast
    obtain ⟨-, hcontent⟩ := Prod.mk.inj heq
    exact ⟨older, added, by simp [onDisk], hnames, holder.symm, by rw [hr]; exact hcontent.symm⟩

/-! ## The tail as a witness -/

theorem timestamp_of_toJsonUnhashed {r s : AuditRecord}
    (h : r.toJsonUnhashed X = s.toJsonUnhashed X) : r.timestamp = s.timestamp := by
  have herase := Value.dict.inj (Json.dumps_injective (X := X) Json.compact_blank
    (r.wf_asdict.erase "record_hash") (s.wf_asdict.erase "record_hash") h)
  have hget := congrArg (fun d => Dict.get? d "timestamp") herase
  simp only [Dict.get?_erase] at hget
  simpa using hget

theorem timestamp_of_toJson {r s : AuditRecord} (h : r.toJson X = s.toJson X) :
    r.timestamp = s.timestamp := by
  have hdict := Value.dict.inj
    (Json.dumps_injective (X := X) Json.compact_blank r.wf_asdict s.wf_asdict h)
  simpa using congrArg (fun d => Dict.get? d "timestamp") hdict

theorem Sound.nodup_toJson {h ts : String} {rs : List AuditRecord} (hs : Sound X sha256 h ts rs) :
    (rs.map (·.toJson X)).Nodup := by
  have hincr := (List.pairwise_cons.mp hs.increasing).2
  rw [List.pairwise_map] at hincr
  rw [List.Nodup, List.pairwise_map]
  exact hincr.imp fun hlt heq => hlt.ne (timestamp_of_toJson heq)

/-- Sound records that are told apart have different hashes. -/
theorem nodup_recordHash {dir : AuditDir} {rs : List AuditRecord} [Json.FloatLine X]
    (hd : Holds X dir rs) (hs : Sound X sha256 zeroHash "" rs) (ht : TellsApart X sha256 dir) :
    (rs.map AuditRecord.recordHash).Nodup := by
  have hparsed := hd.parsedRecords
  have hincr := (List.pairwise_cons.mp hs.increasing).2
  rw [List.pairwise_map] at hincr
  rw [List.Nodup, List.pairwise_map]
  refine hincr.imp_of_mem fun {r s} hr hs' hlt heq => ?_
  rw [hs.hashed r hr, hs.hashed s hs'] at heq
  have htext := ht.1 r.asdict (hparsed ▸ List.mem_map_of_mem hr) s.asdict
    (hparsed ▸ List.mem_map_of_mem hs') (hexdigest_injective heq)
  exact hlt.ne (timestamp_of_toJsonUnhashed htext)

/-- If the tail is still the one of a prefix, nothing has been added to the prefix. -/
theorem eq_of_tailHash_eq [Json.FloatLine X] {dir : AuditDir} {rs ss : List AuditRecord}
    (hd : Holds X dir (onDisk older (rs ++ ss)))
    (hs : Sound X sha256 zeroHash "" (onDisk older (rs ++ ss))) (ht : TellsApart X sha256 dir)
    (heq : tailHash zeroHash (onDisk older (rs ++ ss)) = tailHash zeroHash (onDisk older rs)) :
    ss = [] := by
  have hnodup := nodup_recordHash hd hs ht
  have hparsed := hd.parsedRecords
  rw [onDisk_append] at hnodup heq hparsed
  refine HashChain.eq_nil_of_tail_eq AuditRecord.recordHash hnodup (fun r hr h => ?_) heq
  have hmem : r ∈ onDisk older (rs ++ ss) := by
    rw [onDisk_append]
    exact List.mem_append_right _ hr
  have hhex : hexdigest (sha256 (r.toJsonUnhashed X)) = hexdigest 0 :=
    (hs.hashed r hmem).symm.trans h
  refine ht.2 r.asdict ?_ (hexdigest_injective hhex)
  rw [hparsed]
  exact List.mem_map_of_mem (List.mem_append_right _ hr)

/-! ## The invariant -/

/-- The call has looked up the tail when `base` was on disk, and chained its batch onto it. -/
structure Writer.Based (older : List (String × List AuditRecord)) (X : Type) [Json.FloatText X]
    (sha256 : Text → BitVec 256) (w : Writer) (base : List AuditRecord) : Prop where
  prevHash : w.prevHash = tailHash zeroHash (onDisk older base)
  sound : Sound X sha256 (tailHash zeroHash (onDisk older base))
    (tailTimestamp "" (onDisk older base)) w.chained
  linked : List.Forall₂ AuditRecord.LinkedAs w.records w.chained

/-- The bytes the call writes are today's file and its batch, unless the file has moved on. -/
def Writer.UpToDate (X : Type) [Json.FloatText X] (w : Writer) (base added : List AuditRecord) :
    Prop := base = added → w.content = newBytes X (added ++ w.chained)

def Pc.Done : Pc → Prop
  | .returned => True
  | .raised _ => True
  | _ => False

variable (X sha256 today older) in
/-- What a call knows about the directory at each of its steps; `peer` is where the other call
stands. -/
def Writer.Inv (w : Writer) (peer : Pc) (dir : AuditDir) (added : List AuditRecord) : Prop :=
  match w.pc with
  | .tail => True
  | .existing => ∃ base, base <+: added ∧ w.Based older X sha256 base
  | .writeTmp => ∃ base, base <+: added ∧ w.Based older X sha256 base ∧ w.UpToDate X base added
  | .recheck => ∃ base, base <+: added ∧ w.Based older X sha256 base ∧ w.UpToDate X base added
  | .finish current => current = w.prevHash → ∃ base, base <+: added ∧
      w.Based older X sha256 base ∧ w.UpToDate X base added ∧
        (base = added ∨ dir.read (tmpName today) = none ∧ peer.Done)
  | .returned => List.Forall₂ AuditRecord.LinkedAs w.records w.chained ∧ w.chained <:+: added
  | .raised _ => True

/-- More records on disk, and no temp file: what a call still knows then. -/
theorem Writer.Inv.extend {w : Writer} {peer peer' : Pc} {dir dir' : AuditDir}
    {added batch : List AuditRecord} (h : w.Inv X sha256 today older peer dir added)
    (htmp : dir'.read (tmpName today) = none) (hpeer : peer'.Done) :
    w.Inv X sha256 today older peer' dir' (added ++ batch) := by
  have hcontent : ∀ base, base <+: added → w.UpToDate X base added →
      w.UpToDate X base (added ++ batch) := by
    rintro base hbase hup rfl
    have hnil : batch = [] := by
      have hlen := hbase.length_le
      rw [List.length_append] at hlen
      exact List.length_eq_zero_iff.mp (by omega)
    subst hnil
    rw [List.append_nil] at hup ⊢
    exact hup rfl
  unfold Writer.Inv at h ⊢
  split at h
  · trivial
  · obtain ⟨base, hbase, hb⟩ := h
    exact ⟨base, hbase.trans (List.prefix_append ..), hb⟩
  · obtain ⟨base, hbase, hb, hup⟩ := h
    exact ⟨base, hbase.trans (List.prefix_append ..), hb, hcontent base hbase hup⟩
  · obtain ⟨base, hbase, hb, hup⟩ := h
    exact ⟨base, hbase.trans (List.prefix_append ..), hb, hcontent base hbase hup⟩
  · intro hcur
    obtain ⟨base, hbase, hb, hup, -⟩ := h hcur
    exact ⟨base, hbase.trans (List.prefix_append ..), hb, hcontent base hbase hup,
      .inr ⟨htmp, hpeer⟩⟩
  · exact ⟨h.1, h.2.trans (List.prefix_append ..).isInfix⟩
  · trivial

/-- The other call moves without adding records: it is not done, or it leaves no temp file. -/
theorem Writer.Inv.frame {w : Writer} {peer peer' : Pc} {dir dir' : AuditDir}
    {added : List AuditRecord} (h : w.Inv X sha256 today older peer dir added)
    (hframe : peer.Done → dir.read (tmpName today) = none →
      dir'.read (tmpName today) = none ∧ peer'.Done) :
    w.Inv X sha256 today older peer' dir' added := by
  unfold Writer.Inv at h ⊢
  split at h
  · trivial
  · exact h
  · exact h
  · exact h
  · intro hcur
    obtain ⟨base, hbase, hb, hup, hnow⟩ := h hcur
    exact ⟨base, hbase, hb, hup, hnow.imp_right fun hn => hframe hn.2 hn.1⟩
  · exact h
  · trivial

/-! ## One step -/

variable (X sha256 today older) in
/-- What a step leaves for both calls: more records or the same ones, and a peer that is not
surprised. -/
structure Writer.StepGood (w : Writer) (peer : Pc) (added : List AuditRecord) (w' : Writer)
    (dir dir' : AuditDir) (batch : List AuditRecord) : Prop where
  day : Day X today older dir' (added ++ batch)
  sound : Sound X sha256 zeroHash "" (onDisk older (added ++ batch))
  inv : w'.Inv X sha256 today older peer dir' (added ++ batch)
  records : w'.records = w.records
  frame : (dir'.read (tmpName today) = none ∧ w'.pc.Done) ∨
    batch = [] ∧ (w.pc.Done → dir.read (tmpName today) = none →
      dir'.read (tmpName today) = none ∧ w'.pc.Done)

/-- A step that touches neither a listed file nor the records. -/
theorem Writer.StepGood.quiet {w w' : Writer} {peer : Pc} {added : List AuditRecord}
    {dir dir' : AuditDir} (hday : Day X today older dir' added)
    (hsound : Sound X sha256 zeroHash "" (onDisk older added))
    (hinv : w'.Inv X sha256 today older peer dir' added) (hrec : w'.records = w.records)
    (hframe : w.pc.Done → dir.read (tmpName today) = none →
      dir'.read (tmpName today) = none ∧ w'.pc.Done) :
    w.StepGood X sha256 today older peer added w' dir dir' [] where
  day := by rwa [List.append_nil]
  sound := by rwa [List.append_nil]
  inv := by rwa [List.append_nil]
  records := hrec
  frame := .inr ⟨rfl, hframe⟩

variable [Json.FloatLine X]

/-- Looking up the tail and chaining onto it. -/
theorem Writer.step_tail {w : Writer} {peer : Pc} {dir : AuditDir} {added : List AuditRecord}
    (hpc : w.pc = .tail) (hday : Day X today older dir added)
    (hsound : Sound X sha256 zeroHash "" (onDisk older added))
    (hrec : ∀ r ∈ w.records, Canonical r.timestamp) :
    w.StepGood X sha256 today older peer added (w.step X sha256 today dir).1 dir
      (w.step X sha256 today dir).2 [] := by
  have htail := hday.holds.lastRecordTail hsound.hash_ne_empty
  have hnot : ¬ w.pc.Done := by rw [hpc]; exact id
  rw [Writer.step, hpc]
  simp only [htail]
  cases hc : chainRecords X sha256 w.records (tailHash zeroHash (onDisk older added))
      (tailTimestamp "" (onDisk older added)) with
  | error e => exact .quiet hday hsound trivial rfl fun h => absurd h hnot
  | ok chained =>
    refine .quiet hday hsound ⟨added, List.prefix_rfl, ⟨rfl, ?_, chainRecords_linked hc⟩⟩ rfl
      fun h => absurd h hnot
    exact chainRecords_sound (hsound.floor_tail (.inl rfl)) hrec hc

omit [Json.FloatLine X] in
/-- Reading today's file: the bytes to write continue what is there. -/
theorem Writer.step_existing {w : Writer} {peer : Pc} {dir : AuditDir} {added : List AuditRecord}
    (hpc : w.pc = .existing) (hday : Day X today older dir added)
    (hsound : Sound X sha256 zeroHash "" (onDisk older added))
    (hinv : w.Inv X sha256 today older peer dir added) :
    w.StepGood X sha256 today older peer added (w.step X sha256 today dir).1 dir
      (w.step X sha256 today dir).2 [] := by
  have hnot : ¬ w.pc.Done := by rw [hpc]; exact id
  rw [Writer.Inv, hpc] at hinv
  obtain ⟨base, hbase, hb⟩ := hinv
  rw [Writer.step, hpc]
  refine .quiet hday hsound ⟨base, hbase, ⟨hb.prevHash, hb.sound, hb.linked⟩, fun _ => ?_⟩ rfl
    fun h => absurd h hnot
  rw [hday.today, newBytes_append]

omit [Json.FloatLine X] in
/-- Writing the temp file. -/
theorem Writer.step_writeTmp {w : Writer} {peer : Pc} {dir : AuditDir} {added : List AuditRecord}
    (hpc : w.pc = .writeTmp) (hday : Day X today older dir added)
    (hsound : Sound X sha256 zeroHash "" (onDisk older added))
    (hinv : w.Inv X sha256 today older peer dir added) :
    w.StepGood X sha256 today older peer added (w.step X sha256 today dir).1 dir
      (w.step X sha256 today dir).2 [] := by
  have hnot : ¬ w.pc.Done := by rw [hpc]; exact id
  rw [Writer.Inv, hpc] at hinv
  obtain ⟨base, hbase, hb, hup⟩ := hinv
  rw [Writer.step, hpc]
  exact .quiet (hday.write_tmp w.content) hsound
    ⟨base, hbase, ⟨hb.prevHash, hb.sound, hb.linked⟩, hup⟩ rfl fun h => absurd h hnot

/-- Looking up the tail again: if it has not moved, nothing has been added since. -/
theorem Writer.step_recheck {w : Writer} {peer : Pc} {dir : AuditDir} {added : List AuditRecord}
    (hpc : w.pc = .recheck) (hday : Day X today older dir added)
    (hsound : Sound X sha256 zeroHash "" (onDisk older added))
    (hinv : w.Inv X sha256 today older peer dir added) (happart : TellsApart X sha256 dir) :
    w.StepGood X sha256 today older peer added (w.step X sha256 today dir).1 dir
      (w.step X sha256 today dir).2 [] := by
  have htail := hday.holds.lastRecordTail hsound.hash_ne_empty
  have hnot : ¬ w.pc.Done := by rw [hpc]; exact id
  rw [Writer.Inv, hpc] at hinv
  obtain ⟨base, hbase, hb, hup⟩ := hinv
  rw [Writer.step, hpc]
  simp only [htail]
  refine .quiet hday hsound (fun hcur => ?_) rfl fun h => absurd h hnot
  have hsame : tailHash zeroHash (onDisk older added) = tailHash zeroHash (onDisk older base) :=
    hcur.trans hb.prevHash
  refine ⟨base, hbase, ⟨hb.prevHash, hb.sound, hb.linked⟩, hup, .inl ?_⟩
  obtain ⟨more, rfl⟩ := hbase
  rw [eq_of_tailHash_eq hday.holds hsound happart hsame, List.append_nil]

omit [Json.FloatLine X] in
/-- Raising, or replacing today's file. -/
theorem Writer.step_finish {w : Writer} {peer : Pc} {dir : AuditDir} {added : List AuditRecord}
    {current : String} (hpc : w.pc = .finish current) (hday : Day X today older dir added)
    (hsound : Sound X sha256 zeroHash "" (onDisk older added))
    (hinv : w.Inv X sha256 today older peer dir added)
    (hown : w.pc = .finish w.prevHash → ∀ bytes ∈ dir.read (tmpName today), bytes = w.content) :
    ∃ batch, w.StepGood X sha256 today older peer added (w.step X sha256 today dir).1 dir
      (w.step X sha256 today dir).2 batch := by
  rw [Writer.Inv, hpc] at hinv
  rw [Writer.step, hpc]
  dsimp only
  split_ifs with hcur
  · refine ⟨[], .quiet hday.remove_tmp hsound trivial rfl fun _ _ => ⟨?_, trivial⟩⟩
    rw [Directory.read_remove_self]
  · rw [ne_eq, not_not] at hcur
    obtain ⟨base, hbase, hb, hup, hnow⟩ := hinv hcur
    cases htmp : dir.read (tmpName today) with
    | none => exact ⟨[], .quiet hday hsound trivial rfl fun _ _ => ⟨htmp, trivial⟩⟩
    | some bytes =>
      obtain rfl : base = added := hnow.resolve_right fun h => by simp [htmp] at h
      have hbytes : bytes = newBytes X (base ++ w.chained) :=
        (hown (by rw [hpc, hcur]) bytes htmp).trans (hup rfl)
      refine ⟨w.chained, ?_, ?_, ⟨hb.linked, List.suffix_append .. |>.isInfix⟩, rfl,
        .inl ⟨?_, trivial⟩⟩
      · rw [hbytes]
        exact hday.remove_tmp.write_today
      · rw [onDisk_append]
        exact hsound.append hb.sound
      · rw [Directory.read_write, if_neg (tmpName_ne_fileName today).symm,
          Directory.read_remove_self]

/-- Any step of a call. -/
theorem Writer.step_good {w : Writer} {peer : Pc} {dir : AuditDir} {added : List AuditRecord}
    (hday : Day X today older dir added) (hsound : Sound X sha256 zeroHash "" (onDisk older added))
    (hinv : w.Inv X sha256 today older peer dir added)
    (hrec : ∀ r ∈ w.records, Canonical r.timestamp) (happart : TellsApart X sha256 dir)
    (hown : w.pc = .finish w.prevHash → ∀ bytes ∈ dir.read (tmpName today), bytes = w.content) :
    ∃ batch, w.StepGood X sha256 today older peer added (w.step X sha256 today dir).1 dir
      (w.step X sha256 today dir).2 batch := by
  cases hpc : w.pc with
  | tail => exact ⟨[], Writer.step_tail hpc hday hsound hrec⟩
  | existing => exact ⟨[], Writer.step_existing hpc hday hsound hinv⟩
  | writeTmp => exact ⟨[], Writer.step_writeTmp hpc hday hsound hinv⟩
  | recheck => exact ⟨[], Writer.step_recheck hpc hday hsound hinv happart⟩
  | finish current => exact Writer.step_finish hpc hday hsound hinv hown
  | returned =>
    have hstep : w.step X sha256 today dir = (w, dir) := by rw [Writer.step, hpc]
    rw [hstep]
    exact ⟨[], .quiet hday hsound hinv rfl fun h htmp => ⟨htmp, h⟩⟩
  | raised e =>
    have hstep : w.step X sha256 today dir = (w, dir) := by rw [Writer.step, hpc]
    rw [hstep]
    exact ⟨[], .quiet hday hsound hinv rfl fun h htmp => ⟨htmp, h⟩⟩

end
end ContentOps.Audit
