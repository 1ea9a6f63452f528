import ContentOps.Audit.Interleaved

/-! Runs of two calls: when nothing is lost, and a run that loses a batch. -/

namespace ContentOps.Audit
open PyData Interleaving

section
variable {X : Type} [Json.FloatText X] {sha256 : Text → BitVec 256} {today : Date}
variable {older : List (String × List AuditRecord)}

@[simp] theorem Who.other_ne (who : Who) : who.other ≠ who := by cases who <;> decide

@[simp] theorem Who.other_other (who : Who) : who.other.other = who := by cases who <;> rfl

theorem Who.eq_or_eq_other (who p : Who) : p = who ∨ p = who.other := by
  cases who <;> cases p <;> simp [Who.other]

variable (X sha256 today older) in
/-- The directory holds one sound chain, and each call knows what it needs to. -/
structure Sys.Inv (s : Sys) (added : List AuditRecord) : Prop where
  day : Day X today older s.dir added
  sound : Sound X sha256 zeroHash "" (onDisk older added)
  writer : ∀ who, (s.writer who).Inv X sha256 today older (s.writer who.other).pc s.dir added
  records : ∀ who, ∀ r ∈ (s.writer who).records, Canonical r.timestamp

theorem Sys.Inv.start {dir : AuditDir} {first second added : List AuditRecord}
    (hday : Day X today older dir added) (hsound : Sound X sha256 zeroHash "" (onDisk older added))
    (hts : ∀ r ∈ first ++ second, PipelineTimestamp r.timestamp) :
    (Sys.start dir first second).Inv X sha256 today older added where
  day := hday
  sound := hsound
  writer who := by cases who <;> trivial
  records who := by
    cases who with
    | first => exact fun r hr => (hts r (List.mem_append_left _ hr)).canonical
    | second => exact fun r hr => (hts r (List.mem_append_right _ hr)).canonical

variable [Json.FloatLine X]

theorem Sys.Inv.step {s : Sys} {added : List AuditRecord} {who : Who}
    (h : s.Inv X sha256 today older added) (hown : OwnBytes today who s)
    (happart : TellsApart X sha256 s.dir) :
    ∃ added', (Sys.step X sha256 today who s).Inv X sha256 today older added' := by
  obtain ⟨batch, hgood⟩ := Writer.step_good h.day h.sound (h.writer who) (h.records who) happart hown
  refine ⟨added ++ batch, hgood.day, hgood.sound, fun p => ?_, fun p => ?_⟩
  · rcases who.eq_or_eq_other p with rfl | rfl
    · simpa [Sys.step] using hgood.inv
    · have hother := h.writer who.other
      rw [Who.other_other] at hother
      simp only [Sys.step, Who.other_other, Function.update_self,
        Function.update_of_ne who.other_ne]
      rcases hgood.frame with ⟨htmp, hdone⟩ | ⟨rfl, hframe⟩
      · exact hother.extend htmp hdone
      · rw [List.append_nil]
        exact hother.frame hframe
  · rcases who.eq_or_eq_other p with rfl | rfl
    · simpa [Sys.step, hgood.records] using h.records p
    · simpa [Sys.step, Function.update_of_ne who.other_ne] using h.records who.other

theorem Sys.Inv.nothingLost [Value.ScalarEq X] {s : Sys} {added : List AuditRecord}
    (h : s.Inv X sha256 today older added) : NothingLost X sha256 today s := by
  have hlines : todaysLines today s.dir = added.map (·.toJson X) := by
    rw [todaysLines, h.day.today, splitlines_newBytes]
  have hnodup : (added.map (·.toJson X)).Nodup :=
    h.sound.nodup_toJson.sublist ((List.sublist_append_right _ added).map _)
  refine ⟨fun who hpc => ?_, ⟨_, h.day.holds.verifyChain h.sound, rfl⟩⟩
  have hinv := h.writer who
  rw [Writer.Inv, hpc] at hinv
  refine ⟨hinv.1, fun r hr => ?_⟩
  rw [hlines]
  exact List.count_eq_one_of_mem hnodup (List.mem_map_of_mem (hinv.2.subset hr))

variable (X sha256 today) in
/-- In every run of two calls in which a call that replaces today's file finds its own bytes in the
temp file, or none, no batch of a call that returned is lost and the chain verifies, after every
step. -/
theorem nothingLost_of_ownBytes [Value.ScalarEq X] (dir : AuditDir)
    (rs first second : List AuditRecord) (schedule : List Who) (hdir : Holds X dir rs)
    (hsound : Sound X sha256 zeroHash "" rs) (hnames : NamesUpTo dir today)
    (hts : ∀ r ∈ first ++ second, PipelineTimestamp r.timestamp)
    (happart : Along (Sys.step X sha256 today) (fun _ s => TellsApart X sha256 s.dir)
      (Sys.start dir first second) schedule)
    (hown : Along (Sys.step X sha256 today) (OwnBytes today) (Sys.start dir first second) schedule) :
    NothingLost X sha256 today
      (run (Sys.step X sha256 today) (Sys.start dir first second) schedule) := by
  obtain ⟨older, added, hadded, hday⟩ := hdir.day hnames
  have hinv := run_invariant (fun s => ∃ added, Sys.Inv X sha256 today older s added)
    (fun who s ⟨added, h⟩ hg => h.step hg.1 hg.2)
    ⟨added, Sys.Inv.start hday (hadded ▸ hsound) hts⟩ (hown.and happart)
  obtain ⟨added', h⟩ := hinv
  exact h.nothingLost

end

/-! ## The race -/

def raceFirst : AuditRecord := sampleRecord ⟨⟨2026, 1, 31, 12, 0, 0, 0⟩, by decide⟩ "create"

def raceSecond : AuditRecord := sampleRecord ⟨⟨2026, 1, 31, 12, 0, 0, 5⟩, by decide⟩ "delete"

/-- Both calls pass the second look at the tail before either of them replaces the file. -/
def race : List Who :=
  [.first, .second, .first, .second, .first, .second, .first, .second, .first, .second]

/-- The first call returns, with the second call's bytes in place of its own; the second one finds
no temp file to move. -/
theorem race_loses_batch :
    ¬ NothingLost Empty positional lastOfJanuary (run (Sys.step Empty positional lastOfJanuary)
      (Sys.start Directory.empty [raceFirst] [raceSecond]) race) := by
  intro h
  have hlost : ((run (Sys.step Empty positional lastOfJanuary)
      (Sys.start Directory.empty [raceFirst] [raceSecond]) race).writer .first).pc = .returned ∧
      ∃ r ∈ ((run (Sys.step Empty positional lastOfJanuary)
        (Sys.start Directory.empty [raceFirst] [raceSecond]) race).writer .first).chained,
        (todaysLines lastOfJanuary (run (Sys.step Empty positional lastOfJanuary)
          (Sys.start Directory.empty [raceFirst] [raceSecond]) race).dir).count (r.toJson Empty) =
            0 := by
    decide +kernel
  obtain ⟨hpc, r, hr, hcount⟩ := hlost
  have hone := (h.1 .first hpc).2 r hr
  omega

/-- The second call looks up the tail before the first one replaces the file. -/
def overtaken : List Who := [.first, .first, .first, .second, .first, .first]

theorem nothingLost_overtaken : NothingLost Empty positional lastOfJanuary
    (run (Sys.step Empty positional lastOfJanuary)
      (Sys.start Directory.empty [raceFirst] [raceSecond]) overtaken) := by
  refine nothingLost_of_ownBytes Empty positional lastOfJanuary Directory.empty [] [raceFirst]
    [raceSecond] overtaken Holds.empty (Sound.nil _ _) (by simp [NamesUpTo]) ?_ ?_ ?_
  · simp only [raceFirst, raceSecond, sampleRecord, List.cons_append, List.nil_append,
      List.forall_mem_cons, List.not_mem_nil, false_imp_iff, implies_true, and_true]
    exact ⟨⟨_, by decide, by decide, rfl⟩, ⟨_, by decide, by decide, rfl⟩⟩
  · decide +kernel
  · decide +kernel

end ContentOps.Audit
