import ContentOps.Audit.Runs

/-! The notarised head commits to the history: two verified directories with one head hash hold
the same records. -/

namespace ContentOps.Audit
open PyData

section
variable {X : Type}

/-- A field that holds a string. -/
def fieldText (d : Dict String (Value X)) (key : String) : String :=
  match d.get? key with
  | some (.str s) => s
  | _ => ""

theorem fieldText_eq {d : Dict String (Value X)} {key s : String} (h : d.get? key = some (.str s)) :
    fieldText d key = s := by
  rw [fieldText, h]

variable [Json.FloatText X]

theorem recordOfLine_some {line : Text} {d : Dict String (Value X)} (h : recordOfLine line = some d) :
    Text.isBlank line = false ∧ Json.loads line = some (.dict d) := by
  unfold recordOfLine at h
  split_ifs at h with hb
  refine ⟨by simpa using hb, ?_⟩
  split at h
  · next e he =>
    rw [Option.some.injEq] at h
    rw [he, h]
  · exact absurd h (by simp)

theorem wf_of_mem_parsedRecords {dir : AuditDir} {d : Dict String (Value X)}
    (h : d ∈ parsedRecords X dir) : (Value.dict d).WF := by
  obtain ⟨line, -, hline⟩ := List.mem_filterMap.mp h
  exact Json.loads_wf (recordOfLine_some hline).2

variable [Value.ScalarEq X] {sha256 : Text → BitVec 256}

/-- A parsed record whose stored hash is the hash of the rest of it. -/
def Hashed (sha256 : Text → BitVec 256) (d : Dict String (Value X)) : Prop :=
  d.get? "record_hash" = some (.str (recomputedHash sha256 d))

/-- A line the verifier has nothing to say about: blank, or a record that continues the chain. -/
theorem verifyLine_clean {w w' : Walk X} {l : String × Nat × Text} {h : String}
    (hw : w.expectedPrev = .str h) (hstep : verifyLine sha256 w l = .ok w') (hb : w'.breaks = []) :
    w.breaks = [] ∧
      ((Text.isBlank l.2.2 = true ∧ w' = w) ∨
        ∃ d : Dict String (Value X), recordOfLine l.2.2 = some d ∧ Hashed sha256 d ∧
          d.get? "prev_hash" = some (.str h) ∧ w'.expectedPrev = .str (recomputedHash sha256 d) ∧
          w'.recordsVerified = w.recordsVerified + 1) := by
  obtain ⟨file, ln, line⟩ := l
  simp only [verifyLine] at hstep
  split_ifs at hstep with hblank
  · rw [Except.ok.injEq] at hstep
    subst hstep
    exact ⟨hb, .inl ⟨hblank, rfl⟩⟩
  · have hrec : ∀ d : Dict String (Value X), Json.loads line = some (Value.dict d) →
        recordOfLine line = some d := by
      intro d hd
      rw [recordOfLine, if_neg hblank, hd]
    split at hstep
    · rw [Except.ok.injEq] at hstep
      exact absurd (hstep ▸ hb) (by simp)
    · next d hd =>
      split at hstep
      · next storedHash actualPrev hstored hprev =>
        rw [Except.ok.injEq] at hstep
        subst hstep
        simp only [verifyRecord, List.append_eq_nil_iff] at hb
        obtain ⟨⟨hwb, hhash⟩, -⟩ := hb
        unfold hashBreaks at hhash
        split_ifs at hhash with hs hp
        rw [hw] at hp
        have hs := Value.eq_str_of_pyEq hs
        have hp := Value.eq_str_of_pyEq hp
        subst hs hp
        exact ⟨hwb, .inr ⟨d, hrec d hd, hstored, hprev, rfl, rfl⟩⟩
      · rw [Except.ok.injEq] at hstep
        exact absurd (hstep ▸ hb) (by simp)
    · cases hstep

/-- Nothing reported is taken back. -/
theorem verifyLine_breaks {w w' : Walk X} {l : String × Nat × Text}
    (hstep : verifyLine sha256 w l = .ok w') : w.breaks <+: w'.breaks := by
  obtain ⟨file, ln, line⟩ := l
  simp only [verifyLine] at hstep
  split_ifs at hstep
  · rw [Except.ok.injEq] at hstep
    exact hstep ▸ List.prefix_rfl
  · split at hstep
    · rw [Except.ok.injEq] at hstep
      exact hstep ▸ List.prefix_append ..
    · split at hstep <;> rw [Except.ok.injEq] at hstep
      · rw [← hstep, verifyRecord, List.append_assoc]
        exact List.prefix_append ..
      · exact hstep ▸ List.prefix_append ..
    · cases hstep

theorem foldlM_cons_ok {lines : List (String × Nat × Text)} {l : String × Nat × Text}
    {w w' : Walk X} (h : (l :: lines).foldlM (verifyLine sha256) w = .ok w') :
    ∃ w₁, verifyLine sha256 w l = .ok w₁ ∧ lines.foldlM (verifyLine sha256) w₁ = .ok w' := by
  rw [List.foldlM_cons] at h
  cases hstep : verifyLine sha256 w l with
  | error e =>
    rw [hstep] at h
    cases h
  | ok w₁ =>
    rw [hstep] at h
    exact ⟨w₁, rfl, h⟩

theorem foldlM_breaks {lines : List (String × Nat × Text)} {w w' : Walk X}
    (h : lines.foldlM (verifyLine sha256) w = .ok w') : w.breaks <+: w'.breaks := by
  induction lines generalizing w with
  | nil =>
    cases h
    exact List.prefix_rfl
  | cons l lines ih =>
    obtain ⟨w₁, hstep, hrest⟩ := foldlM_cons_ok h
    exact (verifyLine_breaks hstep).trans (ih hrest)

/-- A line the verifier passes over, or takes for a record. -/
def Accounted (X : Type) [Json.FloatText X] (sha256 : Text → BitVec 256) (line : Text) : Prop :=
  Text.isBlank line = true ∨
    ∃ d : Dict String (Value X), recordOfLine line = some d ∧ Hashed sha256 d

/-- The records of a clean walk form a chain, and every line is a record or blank. -/
theorem foldlM_clean {lines : List (String × Nat × Text)} {w w' : Walk X} {h : String}
    (hw : w.expectedPrev = .str h) (hwalk : lines.foldlM (verifyLine sha256) w = .ok w')
    (hb : w'.breaks = []) :
    (∀ line ∈ lines.map (fun l => l.2.2), Accounted X sha256 line) ∧
      HashChain.Chained (fun d => fieldText d "prev_hash") (recomputedHash sha256) h
        ((lines.map (fun l => l.2.2)).filterMap (recordOfLine (X := X))) ∧
      w'.recordsVerified = w.recordsVerified +
        ((lines.map (fun l => l.2.2)).filterMap (recordOfLine (X := X))).length := by
  induction lines generalizing w h with
  | nil =>
    cases hwalk
    exact ⟨by simp, trivial, rfl⟩
  | cons l lines ih =>
    obtain ⟨w₁, hstep, hrest⟩ := foldlM_cons_ok hwalk
    have hb₁ : w₁.breaks = [] := List.prefix_nil.mp (hb ▸ foldlM_breaks hrest)
    rw [List.map_cons, List.forall_mem_cons]
    obtain ⟨-, ⟨hblank, rfl⟩ | ⟨d, hd, hhash, hprev, hexp, hcount⟩⟩ :=
      verifyLine_clean hw hstep hb₁
    · obtain ⟨hlines, hchain, hn⟩ := ih hw hrest
      have hnone : recordOfLine (X := X) l.2.2 = none := if_pos hblank
      rw [List.filterMap_cons_none hnone]
      exact ⟨⟨.inl hblank, hlines⟩, hchain, hn⟩
    · obtain ⟨hlines, hchain, hn⟩ := ih hexp hrest
      rw [List.filterMap_cons_some hd, List.length_cons]
      refine ⟨⟨.inr ⟨d, hd, hhash⟩, hlines⟩, ⟨fieldText_eq hprev, hchain⟩, ?_⟩
      omega

theorem verifyChain_clean {dir : AuditDir} {result : ChainVerificationResult X}
    (h : verifyChain sha256 dir = .ok result) (hb : result.breaks = []) :
    (∀ line ∈ dirLines dir, Accounted X sha256 line) ∧
      HashChain.Chained (fun d => fieldText d "prev_hash") (recomputedHash sha256) zeroHash
        (parsedRecords X dir) ∧
      result.recordsVerified = (parsedRecords X dir).length := by
  unfold verifyChain at h
  cases hwalk : (numberedLines dir).foldlM (verifyLine sha256) ({} : Walk X) with
  | error e =>
    rw [hwalk] at h
    cases h
  | ok w =>
    rw [hwalk] at h
    cases h
    have hclean := foldlM_clean rfl hwalk hb
    rwa [lines_numberedLines, Nat.zero_add] at hclean

omit [Value.ScalarEq X] in
theorem tailOfLine_record {line : Text} {d : Dict String (Value X)} (hd : recordOfLine line = some d)
    (hhash : Hashed sha256 d) :
    ∃ ts, tailOfLine X line = .ok (some (recomputedHash sha256 d, ts)) := by
  obtain ⟨hb, hload⟩ := recordOfLine_some hd
  have hne : recomputedHash sha256 d ≠ "" := hexdigest_ne_empty _
  rw [tailOfLine, if_neg (by simp [hb]), hload]
  simp only [show Dict.get? d "record_hash" = _ from hhash, if_neg hne]
  split <;> exact ⟨_, rfl⟩

omit [Value.ScalarEq X] in
/-- On lines the verifier accounts for, the tail that is looked up is the tail it ended on. -/
theorem findTail_accounted {lines : List Text} (h : ∀ line ∈ lines, Accounted X sha256 line) :
    ∃ ts, findTail X lines.reverse =
      .ok (HashChain.tail (recomputedHash sha256) zeroHash
        (lines.filterMap (recordOfLine (X := X))), ts) := by
  induction lines using List.reverseRecOn with
  | nil => exact ⟨"", rfl⟩
  | append_singleton lines line ih =>
    rw [List.reverse_append, List.reverse_singleton, List.singleton_append, List.filterMap_append]
    rcases h line (by simp) with hblank | ⟨d, hd, hhash⟩
    · have hnone : recordOfLine (X := X) line = none := if_pos hblank
      obtain ⟨ts, hts⟩ := ih fun l hl => h l (by simp [hl])
      refine ⟨ts, ?_⟩
      rw [findTail, tailOfLine, if_pos hblank, List.filterMap_cons_none hnone, List.filterMap_nil,
        List.append_nil]
      exact hts
    · obtain ⟨ts, hts⟩ := tailOfLine_record hd hhash
      refine ⟨ts, ?_⟩
      rw [findTail, hts, List.filterMap_cons_some hd, List.filterMap_nil, HashChain.tail_concat]
      rfl

/-- What a verified summary says about its directory. -/
theorem headSummary_verified {dir : AuditDir} {s : HeadSummary}
    (h : headSummary X sha256 dir = .ok s) (hv : s.verified = true) :
    (∀ line ∈ dirLines dir, Accounted X sha256 line) ∧
      HashChain.Chained (fun d => fieldText d "prev_hash") (recomputedHash sha256) zeroHash
        (parsedRecords X dir) ∧
      s.recordsVerified = (parsedRecords X dir).length ∧
      s.headHash =
        (let head := HashChain.tail (recomputedHash sha256) zeroHash (parsedRecords X dir)
        if head = zeroHash then none else some head) := by
  unfold headSummary at h
  cases htail : lastRecordTail X dir with
  | error e =>
    rw [htail] at h
    cases h
  | ok tail =>
    cases hverify : verifyChain (X := X) sha256 dir with
    | error e =>
      rw [htail, hverify] at h
      cases h
    | ok result =>
      rw [htail, hverify] at h
      cases h
      obtain ⟨hlines, hchain, hn⟩ := verifyChain_clean hverify (by simpa using hv)
      refine ⟨hlines, hchain, hn, ?_⟩
      obtain ⟨ts, hts⟩ := findTail_accounted hlines
      rw [lastRecordTail_eq, hts, Except.ok.injEq] at htail
      rw [← htail]
      rfl

omit [Value.ScalarEq X] in
theorem hashed_of_mem {dir : AuditDir} (h : ∀ line ∈ dirLines dir, Accounted X sha256 line)
    {d : Dict String (Value X)} (hd : d ∈ parsedRecords X dir) : Hashed sha256 d := by
  obtain ⟨line, hline, hrec⟩ := List.mem_filterMap.mp hd
  rcases h line hline with hblank | ⟨e, he, hhash⟩
  · rw [recordOfLine, if_pos hblank] at hrec
    cases hrec
  · rw [he, Option.some.injEq] at hrec
    exact hrec ▸ hhash

omit [Value.ScalarEq X] in
/-- The serialization covers every field but the stored hash. -/
theorem sameMap_of_unhashedText {a b : Dict String (Value X)} (ha : (Value.dict a).WF)
    (hb : (Value.dict b).WF) (hah : Hashed sha256 a) (hbh : Hashed sha256 b)
    (h : unhashedText a = unhashedText b) :
    fieldText a "prev_hash" = fieldText b "prev_hash" ∧ Dict.SameMap a b := by
  have herase : Dict.erase a "record_hash" = Dict.erase b "record_hash" :=
    Value.dict.inj (Json.dumps_injective Json.compact_blank (ha.erase _) (hb.erase _) h)
  have hhash : recomputedHash sha256 a = recomputedHash sha256 b :=
    congrArg (fun t => hexdigest (sha256 t)) h
  have hstored : Dict.get? a "record_hash" = Dict.get? b "record_hash" := by
    rw [Hashed] at hah hbh
    rw [hah, hbh, hhash]
  have hsame : Dict.SameMap a b := Dict.sameMap_of_erase hstored herase
  exact ⟨by rw [fieldText, fieldText, hsame], hsame⟩

variable (X sha256) in
/-- Two directories that verify and have the same head hash hold the same records in the same
order, when SHA-256 tells their records apart and sends none of them to zero. -/
theorem headSummary_commits (d₁ d₂ : AuditDir) (s₁ s₂ : HeadSummary)
    (h₁ : headSummary X sha256 d₁ = .ok s₁) (h₂ : headSummary X sha256 d₂ = .ok s₂)
    (hv₁ : s₁.verified = true) (hv₂ : s₂.verified = true) (hhead : s₁.headHash = s₂.headHash)
    (hinj : ∀ a ∈ parsedRecords X d₁, ∀ b ∈ parsedRecords X d₂,
      sha256 (unhashedText a) = sha256 (unhashedText b) → unhashedText a = unhashedText b)
    (hzero : ∀ a ∈ parsedRecords X d₁ ++ parsedRecords X d₂, sha256 (unhashedText a) ≠ 0) :
    List.Forall₂ Dict.SameMap (parsedRecords X d₁) (parsedRecords X d₂) ∧
      s₁.recordsVerified = s₂.recordsVerified := by
  obtain ⟨hl₁, hc₁, hn₁, hh₁⟩ := headSummary_verified h₁ hv₁
  obtain ⟨hl₂, hc₂, hn₂, hh₂⟩ := headSummary_verified h₂ hv₂
  have hne : ∀ a ∈ parsedRecords X d₁ ++ parsedRecords X d₂,
      recomputedHash sha256 a ≠ zeroHash := by
    intro a ha h
    have hhex : hexdigest (sha256 (unhashedText a)) = hexdigest 0 := h
    exact hzero a ha (hexdigest_injective hhex)
  have htail : HashChain.tail (recomputedHash sha256) zeroHash (parsedRecords X d₁) =
      HashChain.tail (recomputedHash sha256) zeroHash (parsedRecords X d₂) := by
    rw [hh₁, hh₂] at hhead
    dsimp only at hhead
    split_ifs at hhead with e₁ e₂
    · exact e₁.trans e₂.symm
    · exact Option.some.inj hhead
  have hsame : List.Forall₂ Dict.SameMap (parsedRecords X d₁) (parsedRecords X d₂) := by
    refine HashChain.forall₂_of_tail_eq hc₁ hc₂ (fun a ha => hne a (List.mem_append_left _ ha))
      (fun b hb => hne b (List.mem_append_right _ hb)) (fun a ha b hb hab => ?_) htail
    have hhex : hexdigest (sha256 (unhashedText a)) = hexdigest (sha256 (unhashedText b)) := hab
    exact sameMap_of_unhashedText (wf_of_mem_parsedRecords ha) (wf_of_mem_parsedRecords hb)
      (hashed_of_mem hl₁ ha) (hashed_of_mem hl₂ hb)
      (hinj a ha b hb (hexdigest_injective hhex))
  exact ⟨hsame, by rw [hn₁, hn₂, hsame.length_eq]⟩

end

def firstRecord : AuditRecord :=
  linkRecord Empty positional (sampleRecord beforeMidnight "create") zeroHash
    beforeMidnight.strftime

def secondRecord : AuditRecord :=
  linkRecord Empty positional (sampleRecord theDayBefore "delete") firstRecord.recordHash
    (DateTime.strftime ⟨⟨2026, 2, 1, 0, 0, 0, 0⟩, by decide⟩)

/-- The two records in one file. -/
def oneFile : AuditDir :=
  Directory.empty.write "2026-01-31.jsonl" (newBytes Empty [firstRecord, secondRecord])

/-- The two records in two files. -/
def twoFiles : AuditDir :=
  (Directory.empty.write "2026-01-31.jsonl" (newBytes Empty [firstRecord])).write
    "2026-02-01.jsonl" (newBytes Empty [secondRecord])

theorem sampleRecords_sound : Sound Empty positional zeroHash "" [firstRecord, secondRecord] := by
  refine Sound.cons rfl (linkRecord_recordHash _ _ _) (Canonical.empty_lt ⟨_, rfl⟩) ⟨_, rfl⟩ ?_
  exact Sound.cons rfl (linkRecord_recordHash _ _ _) (by decide +kernel) ⟨_, rfl⟩ (Sound.nil _ _)

theorem oneFile_holds : Holds Empty oneFile [firstRecord, secondRecord] :=
  ⟨[("2026-01-31.jsonl", [firstRecord, secondRecord])], rfl, rfl⟩

theorem twoFiles_holds : Holds Empty twoFiles [firstRecord, secondRecord] :=
  ⟨[("2026-01-31.jsonl", [firstRecord]), ("2026-02-01.jsonl", [secondRecord])], rfl, rfl⟩

theorem positional_sampleRecords :
    let first := positional (unhashedText (X := Empty) firstRecord.asdict)
    let second := positional (unhashedText (X := Empty) secondRecord.asdict)
    first ≠ second ∧ first ≠ 0 ∧ second ≠ 0 := by
  decide +kernel

theorem headSummary_commits_twoFiles : ∃ s₁ s₂ : HeadSummary,
    headSummary Empty positional oneFile = .ok s₁ ∧
      headSummary Empty positional twoFiles = .ok s₂ ∧ s₁.headHash = s₂.headHash ∧
        List.Forall₂ Dict.SameMap (parsedRecords Empty oneFile) (parsedRecords Empty twoFiles) ∧
          s₁.recordsVerified = s₂.recordsVerified := by
  obtain ⟨s₁, h₁, hv₁, -, hh₁⟩ := oneFile_holds.headSummary sampleRecords_sound
  obtain ⟨s₂, h₂, hv₂, -, hh₂⟩ := twoFiles_holds.headSummary sampleRecords_sound
  have hp₁ := oneFile_holds.parsedRecords
  have hp₂ := twoFiles_holds.parsedRecords
  obtain ⟨hne, hzero₁, hzero₂⟩ := positional_sampleRecords
  have hhead := hh₁.trans hh₂.symm
  refine ⟨s₁, s₂, h₁, h₂, hhead,
    headSummary_commits Empty positional oneFile twoFiles s₁ s₂ h₁ h₂ hv₁ hv₂ hhead ?_ ?_⟩
  · rw [hp₁, hp₂]
    simp only [List.map_cons, List.map_nil, List.forall_mem_cons, List.not_mem_nil, false_imp_iff,
      implies_true, and_true, true_and]
    exact ⟨fun h => absurd h hne, fun h => absurd h.symm hne⟩
  · rw [hp₁, hp₂]
    intro d hd
    obtain ⟨r, hr, rfl⟩ := List.mem_map.mp ((List.mem_append.mp hd).elim id id)
    rcases List.mem_pair.mp hr with rfl | rfl
    · exact hzero₁
    · exact hzero₂

end ContentOps.Audit
