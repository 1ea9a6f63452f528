import ContentOps.Defender.Unchanged

/-! What one call of the Defender handler's `apply` does to the tenant and to the handler's indexes,
and one run of it over a list. -/

namespace ContentOps.Defender
open PyData

section
variable {X H : Type} [Value.ScalarEq X] [Json.FloatText X] [DecidableEq H] (graph : GraphRules X)
  (sha : Text → H) (hexdigest : H → String)

def nameOf (la : LoadedAsset X) : String := displayName (bodyOf la)

/-- The envelope is one that `apply` does not skip. -/
def Live (la : LoadedAsset X) : Prop := la.envelope.status ≠ "experimental"

/-- The call wrote its rule. -/
def Applied.Writes (a : Applied) : Prop := a.result.action ∈ [PlanAction.create, .update, .disable]

/-- The outcomes of `apply` in a tenant that answers every request. -/
inductive Visit (la : LoadedAsset X) (index : RuleIndex) (t : Tenant X) :
    Applied → RuleIndex → Tenant X → Prop
  | skipped {a : Applied} (hlive : ¬ Live la) (hid : a.graphId = none) : Visit la index t a index t
  | missing {a : Applied} {id : String} (hlive : Live la)
      (htarget : resolveGraphId index (nameOf la) la.envelope.armName = some id)
      (hrule : t.rules.get? id = none) (hid : a.graphId = some id) : Visit la index t a index t
  | unchanged {a : Applied} {id : String} {old : Dict String (Value X)} (hlive : Live la)
      (htarget : resolveGraphId index (nameOf la) la.envelope.armName = some id)
      (hrule : t.rules.get? id = some old) (hsame : isUnchanged sha la old = true)
      (hid : a.graphId = some id) (hwrites : ¬ a.Writes) : Visit la index t a index t
  | patched {a : Applied} {id : String} {old : Dict String (Value X)} (hlive : Live la)
      (htarget : resolveGraphId index (nameOf la) la.envelope.armName = some id)
      (hrule : t.rules.get? id = some old) (hdiff : isUnchanged sha la old = false)
      (hid : a.graphId = some id) (hwrites : a.Writes) :
      Visit la index t a (index.record (nameOf la) id)
        { t with rules := t.rules.set id (graph.patched old (bodyOf la)) }
  | created {a : Applied} (hlive : Live la)
      (htarget : resolveGraphId index (nameOf la) la.envelope.armName = none)
      (hid : a.graphId = some (graph.newId t.made)) (hwrites : a.Writes) :
      Visit la index t a (index.record (nameOf la) (graph.newId t.made))
        { rules := t.rules.set (graph.newId t.made)
            (graph.created (graph.newId t.made) (bodyOf la))
          made := t.made + 1 }

theorem readBack_server (la : LoadedAsset X) (id : String) (n : Nat)
    (remote : Option (Dict String (Value X))) (got : Option H) (t : Tenant X) :
    (readBack graph.client sha la id n remote got t).2 = t := by
  induction n generalizing remote got with
  | zero => rfl
  | succ n ih =>
    unfold readBack
    rw [GraphRules.client_getRule]
    cases t.rules.get? id with
    | none => exact ih none got
    | some r =>
      dsimp only
      split_ifs
      · rfl
      · exact ih _ _

/-- A write that Graph accepted: the verification only reads. -/
theorem verifyWrite_client (la : LoadedAsset X) (action : PlanAction) {id : String} (hid : id ≠ "")
    (index : RuleIndex) (t : Tenant X) :
    ∃ a : Applied, a.result.action = action ∧ a.graphId = some id ∧
      verifyWrite graph.client sha hexdigest la action id ⟨some index, t⟩ =
        (.ok a, ⟨some index, t⟩) := by
  obtain ⟨r, hr, heq⟩ := verifyWrite_eq graph.client sha hexdigest la action id ⟨some index, t⟩
  rw [if_neg hid, if_neg hid, readBack_server] at heq
  exact ⟨_, hr, rfl, heq⟩

theorem apply_visit (hnew : ∀ n, graph.newId n ≠ "") (la : LoadedAsset X) (index : RuleIndex)
    (t : Tenant X) :
    ∃ a index' t', apply graph.client sha hexdigest la ⟨some index, t⟩ =
      (.ok a, ⟨some index', t'⟩) ∧ Visit graph sha la index t a index' t' := by
  by_cases hexp : la.envelope.status = "experimental"
  · exact ⟨_, index, t, if_pos hexp, .skipped (not_not.mpr hexp) rfl⟩
  · unfold apply nameMapOrBuild
    rw [if_neg hexp]
    dsimp only
    cases htarget : resolveGraphId index (displayName (bodyOf la)) la.envelope.armName with
    | none =>
      obtain ⟨a, haction, hid, heq⟩ := verifyWrite_client graph sha hexdigest la .create
        (hnew t.made) (index.record (nameOf la) (graph.newId t.made))
        { rules := t.rules.set (graph.newId t.made)
            (graph.created (graph.newId t.made) (bodyOf la))
          made := t.made + 1 }
      refine ⟨a, _, _, ?_, .created hexp htarget hid (by simp [Applied.Writes, haction])⟩
      unfold applyCreate
      simpa [hnew, nameOf] using heq
    | some id =>
      unfold applyUpdate
      dsimp only
      rw [GraphRules.client_getRule]
      dsimp only
      cases hrule : t.rules.get? id with
      | none =>
        rw [GraphRules.client_updateRule_missing graph hrule]
        exact ⟨_, index, t, rfl, .missing hexp htarget hrule rfl⟩
      | some old =>
        rw [Option.any_some]
        cases hsame : isUnchanged sha la old with
        | true =>
          refine ⟨_, index, t, rfl, .unchanged hexp htarget hrule hsame rfl ?_⟩
          simp [Applied.Writes, resultOf]
        | false =>
          rw [GraphRules.client_updateRule graph hrule]
          have hid : id ≠ "" := resolveGraphId_ne_empty htarget
          obtain ⟨a, haction, hid, heq⟩ := verifyWrite_client graph sha hexdigest la
            (if la.envelope.status = "deprecated" then .disable else .update) hid
            (index.record (nameOf la) id)
            { t with rules := t.rules.set id (graph.patched old (bodyOf la)) }
          refine ⟨a, _, _, heq, .patched hexp htarget hrule hsame hid ?_⟩
          rw [Applied.Writes, haction]
          split_ifs <;> simp

/-- One run of `apply` over a list. -/
def applyRun : List (LoadedAsset X) → Session (Tenant X) →
    List (LoadedAsset X × Except String Applied) × Session (Tenant X)
  | [], st => ([], st)
  | la :: las, st =>
    let answer := apply graph.client sha hexdigest la st
    let rest := applyRun las answer.2
    ((la, answer.1) :: rest.1, rest.2)

end
end ContentOps.Defender
