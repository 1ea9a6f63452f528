import ContentOps.Defender.Unchanged
import ContentOps.Utils.RoundtripDiff

/-! `defender-roundtrip-diff`: what the command shows of a rule whose verification failed. -/

namespace ContentOps.Defender
open PyData RoundtripDiff

section
variable {X : Type} [Value.ScalarEq X] [Json.FloatText X] (repr : Value X → Text)

/-- The differences that the command shows, without `--raw`: the payload is compared as it is. -/
def defenderRoundtripDiff (la : LoadedAsset X) (remote : Document X) : List RoundtripDiff.FieldDiff :=
  diffBodies repr (la.payload.dict?.getD []) (stripServerFields remote) baseHashedFields

/-- The description is left alone, or it is the one the body asks for. -/
def DescriptionAgrees (la : LoadedAsset X) (remote : Document X) : Prop :=
  (Value.get (bodyOf la) "description").truthy →
    Value.Same (Value.get (stripServerFields remote) "description")
      (Value.get (bodyOf la) "description")

omit [Value.ScalarEq X] [Json.FloatText X] in
theorem get_toWireBody (payload : Document X) (deprecated : Bool) {key : String}
    (hstatus : key ≠ "status") (henabled : key ≠ "isEnabled") :
    Value.get (toWireBody payload deprecated) key = Value.get payload key := by
  have herase : Dict.get? (payload.erase "isEnabled") key = payload.get? key := by
    rw [Dict.get?_erase, if_neg (Ne.symm henabled)]
  have hset : ∀ v : Value X, Dict.get? ((payload.erase "isEnabled").set "status" v) key =
      payload.get? key := by
    intro v
    rw [Dict.get?_set, if_neg (Ne.symm hstatus), herase]
  have hdrop : Dict.get? ((payload.erase "isEnabled").erase "status") key = payload.get? key := by
    rw [Dict.get?_erase, if_neg (Ne.symm hstatus), herase]
  unfold Value.get toWireBody
  dsimp only
  split_ifs
  · rw [hset]
  · rw [hdrop]
  · rw [hset]

omit [Value.ScalarEq X] [Json.FloatText X] in
/-- What the command compares is what `apply` sends. -/
theorem getPath_toWireBody (payload : Document X) (deprecated : Bool) {p : List String}
    (hp : p ∈ baseHashedFields) :
    Value.getPath p (.dict (toWireBody payload deprecated)) = Value.getPath p (.dict payload) := by
  have hall : ∀ p ∈ baseHashedFields, p.head?.any fun s => s ≠ "status" ∧ s ≠ "isEnabled" := by
    decide
  have hhead := hall p hp
  cases p with
  | nil => simp at hhead
  | cons s rest =>
    have hs : s ≠ "status" ∧ s ≠ "isEnabled" := by simpa using hhead
    change Value.getPath rest (Value.get (toWireBody payload deprecated) s) =
      Value.getPath rest (Value.get payload s)
    rw [get_toWireBody payload deprecated hs.1 hs.2]

variable {H S : Type} [DecidableEq H] (sha : Text → H) (hexdigest : H → String)
  (client : Client X S)

omit [DecidableEq H] in
/-- The hash comparison of `apply` is the diagnosis and, where a description is set, its text. -/
theorem hash_agrees_iff (hsha : Function.Injective sha) {la : LoadedAsset X} {remote : Document X}
    (hla : la.payload.WF) (hr : (Value.dict remote).WF) :
    computeContentHash sha (stripServerFields remote) (fieldsOf la) =
        computeContentHash sha (bodyOf la) (fieldsOf la) ↔
      exitCode (defenderRoundtripDiff repr la remote) = 0 ∧ DescriptionAgrees la remote := by
  have hpayload : (Value.dict (la.payload.dict?.getD [])).WF := by
    cases hp : la.payload with
    | dict d => simpa [hp, Value.dict?] using hla
    | null | bool | int | scalar | str | list => simp [Value.dict?, Value.WF, Value.WFDict, Dict.keys]
  have hbase : exitCode (defenderRoundtripDiff repr la remote) = 0 ↔
      ∀ p ∈ baseHashedFields, Value.Same (Value.getPath p (.dict (stripServerFields remote)))
        (Value.getPath p (.dict (bodyOf la))) := by
    rw [defenderRoundtripDiff, exitCode_diffBodies_iff repr hpayload (wf_stripServerFields hr)]
    refine forall₂_congr fun p hp => ?_
    rw [bodyOf, getPath_toWireBody _ _ hp]
    exact ⟨fun h => h.symm, fun h => h.symm⟩
  rw [computeContentHash_eq_iff sha hsha (nodup_dotted_fieldsOf la) (wf_stripServerFields hr)
    (wf_bodyOf hla), hbase]
  unfold fieldsOf hashedFields DescriptionAgrees
  split_ifs with hdesc
  · rw [List.forall_mem_append]
    simp [hdesc, Value.getPath, Value.child]
  · simp [hdesc]

/-- The rule that is read last comes from Graph, and its hash is the one that is compared. -/
theorem readBack_last {la : LoadedAsset X} {id : String} {n : Nat}
    {first last : Option (Document X)} {got got' : Option H} {s s' : S}
    (hfirst : first = none)
    (h : readBack client sha la id n first got s = (.ok (last, got'), s')) {r : Document X}
    (hr : last = some r) :
    got' = some (computeContentHash sha (stripServerFields r) (fieldsOf la)) ∧
      ∃ s₁ s₂, client.getRule s₁ id = (.ok (some r), s₂) := by
  suffices hgen : ∀ r, last = some r → first = some r ∧ got = got' ∨
      got' = some (computeContentHash sha (stripServerFields r) (fieldsOf la)) ∧
        ∃ s₁ s₂, client.getRule s₁ id = (.ok (some r), s₂) by
    rcases hgen r hr with ⟨hsome, -⟩ | hread
    · rw [hfirst] at hsome
      exact absurd hsome (by simp)
    · exact hread
  clear hfirst hr
  induction n generalizing first got s with
  | zero =>
    simp only [readBack, Prod.mk.injEq, Except.ok.injEq] at h
    exact fun r hr => Or.inl ⟨h.1.1.trans hr, h.1.2⟩
  | succ n ih =>
    rw [readBack] at h
    cases hget : client.getRule s id with
    | mk answer s₁ =>
      rw [hget] at h
      cases answer with
      | error e => simp at h
      | ok rule =>
        cases rule with
        | none =>
          intro r hr
          rcases ih h r hr with ⟨hnone, -⟩ | hread
          · exact absurd hnone (by simp)
          · exact Or.inr hread
        | some rule =>
          dsimp only at h
          split_ifs at h
          · simp only [Prod.mk.injEq, Except.ok.injEq] at h
            obtain ⟨⟨rfl, rfl⟩, -⟩ := h
            intro r hr
            obtain rfl := Option.some.inj hr
            exact Or.inr ⟨rfl, s, s₁, hget⟩
          · intro r hr
            rcases ih h r hr with ⟨hrule, hgot⟩ | hread
            · obtain rfl := Option.some.inj hrule
              exact Or.inr ⟨hgot.symm, s, s₁, hget⟩
            · exact Or.inr hread

/-- The verification of a write holds exactly when a rule was read at last that the command finds
no difference in, and whose description agrees. -/
theorem verified_iff_roundtrip (hsha : Function.Injective sha) {la : LoadedAsset X}
    (hla : la.payload.WF) (hrules : ∀ s id r s', client.getRule s id = (.ok (some r), s') →
      (Value.dict r).WF) (action : PlanAction) {id : String} (hid : id ≠ "") (st : Session S) :
    (∃ a st', verifyWrite client sha hexdigest la action id st = (.ok a, st') ∧
        a.result.verified = some true) ↔
      ∃ remote got s', readBack client sha la id verifyAttempts none none st.server =
          (.ok (some remote, got), s') ∧
        exitCode (defenderRoundtripDiff repr la remote) = 0 ∧ DescriptionAgrees la remote := by
  unfold verifyWrite
  dsimp only
  rw [if_neg hid]
  cases hread : readBack client sha la id verifyAttempts none none st.server with
  | mk answer s' =>
    cases answer with
    | error e => simp [resultOf]
    | ok last =>
      obtain ⟨last, got⟩ := last
      cases last with
      | none => simp [resultOf]
      | some remote =>
        obtain ⟨hgot, s₁, s₂, hget⟩ := readBack_last sha client rfl hread rfl
        have hagree := hash_agrees_iff repr sha hsha hla (hrules _ _ _ _ hget)
        rw [hgot]
        dsimp only
        split_ifs with hne
        · have hnot : ¬ (exitCode (defenderRoundtripDiff repr la remote) = 0 ∧
              DescriptionAgrees la remote) :=
            fun h => hne (congrArg some (hagree.mpr h))
          simp [resultOf, hnot]
        · have hyes := hagree.mp (Option.some.inj (not_not.mp hne))
          simp [resultOf, hyes]

end

/-- A tenant that answers every read with one rule. -/
def answering (rule : Document Empty) : Client Empty Unit where
  listRules _ := (.ok [rule], ())
  getRule _ _ := (.ok (some rule), ())
  updateRule _ id _ := (.ok { statusCode := 200, text := "", id := id }, ())
  createRule _ _ := (.ok { statusCode := 409, text := "", id := "" }, ())

theorem verified_iff_roundtrip_beacon :
    (∃ a st', verifyWrite (answering deployedRule) id String.ofList authoredRule .update "g1"
          ⟨none, ()⟩ = (.ok a, st') ∧ a.result.verified = some true) ↔
      ∃ remote got s', readBack (answering deployedRule) id authoredRule "g1" verifyAttempts none
          none () = (.ok (some remote, got), s') ∧
        exitCode (defenderRoundtripDiff (fun _ => []) authoredRule remote) = 0 ∧
          DescriptionAgrees authoredRule remote :=
  verified_iff_roundtrip (fun _ => []) id String.ofList (answering deployedRule)
    Function.injective_id wf_authoredRule
    (fun _ _ _ _ h => by
      obtain rfl := Option.some.inj (Except.ok.inj (Prod.mk.inj h).1)
      exact wf_deployedRule)
    .update (by decide) ⟨none, ()⟩

end ContentOps.Defender
