import ContentOps.Audit.Writer

/-! What `_chain_records` makes of a batch: a chain of hashed records whose timestamps increase. -/

namespace ContentOps.Audit
open PyData

/-- A timestamp the pipeline emits: `%Y-%m-%dT%H:%M:%S.%fZ`, in the years the format is fixed in. -/
def PipelineTimestamp (ts : String) : Prop :=
  ∃ d : DateTime, 1000 ≤ d.1.year ∧ d.1.year ≤ 9998 ∧ ts = d.strftime

def Canonical (ts : String) : Prop := ∃ d : DateTime, ts = d.strftime

theorem PipelineTimestamp.canonical {ts : String} (h : PipelineTimestamp ts) : Canonical ts :=
  let ⟨d, _, _, hd⟩ := h
  ⟨d, hd⟩

/-- The timestamp a batch starts from: none yet, or one on disk. -/
def Floor (ts : String) : Prop := ts = "" ∨ Canonical ts

theorem Canonical.ne_empty {ts : String} (h : Canonical ts) : ts ≠ "" := by
  obtain ⟨d, rfl⟩ := h
  intro he
  have hlen := congrArg (fun s => s.toList.length) he
  simp [DateTime.strftime, Clock.isoText] at hlen

theorem Canonical.empty_lt {ts : String} (h : Canonical ts) : "" < ts := by
  have hne : ts.toList ≠ [] := fun e => h.ne_empty (String.toList_inj.mp e)
  rw [String.lt_iff_toList_lt]
  obtain ⟨c, cs, hcs⟩ := List.exists_cons_of_ne_nil hne
  rw [hcs]
  exact List.nil_lt_cons c cs

theorem monotonicTimestamp_spec {prevTs candidate ts : String} (hprev : Floor prevTs)
    (hcand : Canonical candidate) (h : monotonicTimestamp prevTs candidate = .ok ts) :
    prevTs < ts ∧ Canonical ts := by
  unfold monotonicTimestamp at h
  split_ifs at h with hfast
  · rw [Except.ok.injEq] at h
    subst h
    refine ⟨?_, hcand⟩
    rcases hfast with rfl | hlt
    · exact hcand.empty_lt
    · exact hlt
  · rw [not_or] at hfast
    obtain ⟨d, rfl⟩ := hprev.resolve_left hfast.1
    rw [DateTime.strptime_strftime] at h
    dsimp only at h
    split at h
    · exact absurd h (by simp)
    · next e he =>
      rw [Except.ok.injEq] at h
      exact ⟨h ▸ DateTime.strftime_lt_addMicrosecond he, e, h.symm⟩

/-- Timestamps the calendar still has room for: `n` microseconds of its last year are used. -/
def Within (n : Nat) (ts : String) : Prop :=
  ts = "" ∨ ∃ d : DateTime, ts = d.strftime ∧ d.1.lastYear ≤ n

theorem Within.floor {n : Nat} {ts : String} (h : Within n ts) : Floor ts :=
  h.imp_right fun ⟨d, hd, _⟩ => ⟨d, hd⟩

theorem PipelineTimestamp.within {ts : String} (h : PipelineTimestamp ts) (n : Nat) :
    Within n ts := by
  obtain ⟨d, -, hy, hd⟩ := h
  refine .inr ⟨d, hd, ?_⟩
  rw [Clock.lastYear_of_lt (by omega)]
  exact Nat.zero_le n

theorem monotonicTimestamp_ok {n : Nat} (hn : n < lastYearMicroseconds) {prevTs candidate : String}
    (hprev : Within n prevTs) (hcand : PipelineTimestamp candidate) :
    ∃ ts, monotonicTimestamp prevTs candidate = .ok ts ∧ Within (n + 1) ts := by
  unfold monotonicTimestamp
  split_ifs with hfast
  · exact ⟨candidate, rfl, hcand.within _⟩
  · rw [not_or] at hfast
    obtain ⟨d, rfl, hd⟩ := hprev.resolve_left hfast.1
    obtain ⟨hy, hnext⟩ := (Clock.lastYear_next d.2).resolve_right (by omega)
    have hadd : d.addMicrosecond = some ⟨d.1.next, d.2.next hy⟩ := dif_pos hy
    rw [DateTime.strptime_strftime]
    simp only [hadd]
    exact ⟨_, rfl, .inr ⟨_, rfl, by simpa using hnext.trans (Nat.succ_le_succ hd)⟩⟩

section
variable (X : Type) [Json.FloatText X] (sha256 : Text → BitVec 256)

/-- Records that continue a chain whose tail is `(h, ts)`. -/
structure Sound (h ts : String) (rs : List AuditRecord) : Prop where
  chained : HashChain.Chained AuditRecord.prevHash AuditRecord.recordHash h rs
  hashed : ∀ r ∈ rs, r.recordHash = computeRecordHash X sha256 r
  increasing : (ts :: rs.map AuditRecord.timestamp).Pairwise (· < ·)
  canonical : ∀ r ∈ rs, Canonical r.timestamp

/-- The tail of a chain of records: the hash and the timestamp of the last one. -/
def tailHash (h : String) (rs : List AuditRecord) : String :=
  HashChain.tail AuditRecord.recordHash h rs

def tailTimestamp (ts : String) (rs : List AuditRecord) : String :=
  HashChain.tail AuditRecord.timestamp ts rs

variable {X sha256}

theorem Sound.nil (h ts : String) : Sound X sha256 h ts [] :=
  ⟨trivial, by simp, by simp, by simp⟩

theorem Sound.cons {h ts : String} {r : AuditRecord} {rs : List AuditRecord}
    (hprev : r.prevHash = h) (hhash : r.recordHash = computeRecordHash X sha256 r)
    (hts : ts < r.timestamp) (hcan : Canonical r.timestamp)
    (hrs : Sound X sha256 r.recordHash r.timestamp rs) : Sound X sha256 h ts (r :: rs) where
  chained := ⟨hprev, hrs.chained⟩
  hashed := List.forall_mem_cons.mpr ⟨hhash, hrs.hashed⟩
  increasing := by
    have hpw := hrs.increasing
    rw [List.pairwise_cons] at hpw
    rw [List.map_cons, List.pairwise_cons]
    refine ⟨List.forall_mem_cons.mpr ⟨hts, fun t ht => hts.trans (hpw.1 t ht)⟩, hrs.increasing⟩
  canonical := List.forall_mem_cons.mpr ⟨hcan, hrs.canonical⟩

theorem Sound.of_cons {h ts : String} {r : AuditRecord} {rs : List AuditRecord}
    (hs : Sound X sha256 h ts (r :: rs)) : Sound X sha256 r.recordHash r.timestamp rs where
  chained := hs.chained.2
  hashed := (List.forall_mem_cons.mp hs.hashed).2
  increasing := (List.pairwise_cons.mp hs.increasing).2
  canonical := (List.forall_mem_cons.mp hs.canonical).2

theorem Sound.lt_head {h ts : String} {r : AuditRecord} {rs : List AuditRecord}
    (hs : Sound X sha256 h ts (r :: rs)) : ts < r.timestamp :=
  (List.pairwise_cons.mp hs.increasing).1 _ (List.mem_cons_self ..)

theorem Sound.append {h ts : String} {rs ss : List AuditRecord} (hr : Sound X sha256 h ts rs)
    (hs : Sound X sha256 (tailHash h rs) (tailTimestamp ts rs) ss) :
    Sound X sha256 h ts (rs ++ ss) := by
  induction rs generalizing h ts with
  | nil => exact hs
  | cons r rs ih =>
    exact Sound.cons hr.chained.1 (hr.hashed r (List.mem_cons_self ..)) hr.lt_head
      (hr.canonical r (List.mem_cons_self ..)) (ih hr.of_cons hs)

theorem Sound.floor_tail {h ts : String} {rs : List AuditRecord} (hs : Sound X sha256 h ts rs)
    (hts : Floor ts) : Floor (tailTimestamp ts rs) := by
  rcases List.eq_nil_or_concat rs with rfl | ⟨rs, r, rfl⟩
  · exact hts
  · rw [tailTimestamp, List.concat_eq_append, HashChain.tail_concat]
    exact .inr (hs.canonical r (by simp))

theorem Sound.hash_ne_empty {h ts : String} {rs : List AuditRecord} (hs : Sound X sha256 h ts rs) :
    ∀ r ∈ rs, r.recordHash ≠ "" := fun r hr =>
  hs.hashed r hr ▸ hexdigest_ne_empty _

/-- A chained batch continues the chain it was given the tail of. -/
theorem chainRecords_sound {records chained : List AuditRecord} {h ts : String} (hts : Floor ts)
    (hrs : ∀ r ∈ records, Canonical r.timestamp)
    (hc : chainRecords X sha256 records h ts = .ok chained) : Sound X sha256 h ts chained := by
  induction records generalizing h ts chained with
  | nil =>
    cases hc
    exact Sound.nil h ts
  | cons r records ih =>
    rw [List.forall_mem_cons] at hrs
    obtain ⟨bumped, rest, hb, hrest, rfl⟩ := chainRecords_cons_iff.mp hc
    obtain ⟨hlt, hcan⟩ := monotonicTimestamp_spec hts hrs.1 hb
    exact Sound.cons rfl (linkRecord_recordHash r h bumped) hlt hcan (ih (.inr hcan) hrs.2 hrest)

/-- The record that stands for `r` in a chain: only the timestamp and the hashes are its own. -/
def AuditRecord.LinkedAs (r c : AuditRecord) : Prop :=
  c = { r with timestamp := c.timestamp, prevHash := c.prevHash, recordHash := c.recordHash }

theorem chainRecords_linked {records chained : List AuditRecord} {h ts : String}
    (hc : chainRecords X sha256 records h ts = .ok chained) :
    List.Forall₂ AuditRecord.LinkedAs records chained := by
  induction records generalizing h ts chained with
  | nil =>
    cases hc
    exact .nil
  | cons r records ih =>
    obtain ⟨bumped, rest, -, hrest, rfl⟩ := chainRecords_cons_iff.mp hc
    exact .cons rfl (ih hrest)

theorem chainRecords_length {records chained : List AuditRecord} {h ts : String}
    (hc : chainRecords X sha256 records h ts = .ok chained) :
    chained.length = records.length := (chainRecords_linked hc).length_eq.symm

/-- A batch that fits in what is left of the calendar is chained. -/
theorem chainRecords_ok (sha256 : Text → BitVec 256) {n : Nat} {records : List AuditRecord}
    (h : String) {ts : String}
    (hn : n + records.length ≤ lastYearMicroseconds) (hts : Within n ts)
    (hrs : ∀ r ∈ records, PipelineTimestamp r.timestamp) :
    ∃ chained, chainRecords X sha256 records h ts = .ok chained ∧
      Within (n + records.length) (tailTimestamp ts chained) := by
  induction records generalizing n h ts with
  | nil => exact ⟨[], rfl, hts⟩
  | cons r records ih =>
    rw [List.forall_mem_cons] at hrs
    rw [List.length_cons] at hn ⊢
    obtain ⟨bumped, hb, hw⟩ := monotonicTimestamp_ok (by omega) hts hrs.1
    obtain ⟨rest, hrest, hw'⟩ := ih (n := n + 1) (linkRecord X sha256 r h bumped).recordHash
      (by omega) hw hrs.2
    refine ⟨_, chainRecords_cons_iff.mpr ⟨bumped, rest, hb, hrest, rfl⟩, ?_⟩
    rw [← Nat.add_assoc, Nat.add_right_comm]
    exact hw'

end
end ContentOps.Audit
