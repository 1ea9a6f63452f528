import ContentOps.Core.Drift
import ContentOps.Handlers.Verify

/-! `utils/roundtrip_diff.py`: which of the hashed fields two bodies differ in. -/

namespace ContentOps.RoundtripDiff
open PyData

/-- One field's values on both sides, as they are shown, and the verdict. -/
structure FieldDiff where
  field : String
  differs : Bool
  localRepr : Text
  remoteRepr : Text

section
variable {X : Type} [Json.FloatText X] (repr : Value X → Text)

def canonical (v : Value X) : Text := Json.dumps Json.compact v.sortKeys

/-- `_short_repr` over Python's `repr`. -/
def shortRepr (v : Value X) : Text :=
  let s := match v with
    | .list _ | .dict _ => canonical v
    | _ => repr v
  if 240 < s.length then s.take (240 - 3) ++ "...".toList else s

def diffBodies (localBody remote : Document X) (fields : List (List String)) : List FieldDiff :=
  fields.map fun p =>
    { field := dotted p
      differs := canonical (Value.getPath p (.dict localBody)) ≠
        canonical (Value.getPath p (.dict remote))
      localRepr := shortRepr repr (Value.getPath p (.dict localBody))
      remoteRepr := shortRepr repr (Value.getPath p (.dict remote)) }

/-- How the diagnostic commands exit once they have both bodies. -/
def exitCode (diffs : List FieldDiff) : Nat := if diffs.any (·.differs) then 2 else 0

theorem canonical_eq_iff {v w : Value X} (hv : v.WF) (hw : w.WF) :
    canonical v = canonical w ↔ Value.Same v w :=
  ⟨Json.dumps_injective Json.compact_blank hv.sortKeys hw.sortKeys,
    fun h => congrArg (Json.dumps Json.compact) h⟩

theorem exitCode_eq_zero_iff (diffs : List FieldDiff) :
    exitCode diffs = 0 ↔ ∀ d ∈ diffs, d.differs = false := by
  unfold exitCode
  split_ifs with h
  · obtain ⟨d, hd, hdiffers⟩ := List.any_eq_true.mp h
    refine iff_of_false (by decide) fun hall => ?_
    rw [hall d hd] at hdiffers
    exact absurd hdiffers (by decide)
  · refine iff_of_true rfl fun d hd => ?_
    by_contra hdiffers
    exact h (List.any_eq_true.mpr ⟨d, hd, by simpa using hdiffers⟩)

theorem exitCode_eq_two_iff (diffs : List FieldDiff) :
    exitCode diffs = 2 ↔ ¬ exitCode diffs = 0 := by
  unfold exitCode
  split_ifs <;> decide

theorem exitCode_diffBodies_iff {localBody remote : Document X} (hl : (Value.dict localBody).WF)
    (hr : (Value.dict remote).WF) (fields : List (List String)) :
    exitCode (diffBodies repr localBody remote fields) = 0 ↔
      ∀ p ∈ fields, Value.Same (Value.getPath p (.dict localBody))
        (Value.getPath p (.dict remote)) := by
  rw [exitCode_eq_zero_iff, diffBodies, List.forall_mem_map]
  refine forall₂_congr fun p _ => ?_
  rw [← canonical_eq_iff (hl.getPath p) (hr.getPath p)]
  simp

/-- The diagnosis and the hash speak of the same fields. -/
theorem exitCode_diffBodies_iff_hash {H : Type} {sha : Text → H} (hsha : Function.Injective sha)
    {fields : List (List String)} (hf : (fields.map dotted).Nodup) {localBody remote : Document X}
    (hl : (Value.dict localBody).WF) (hr : (Value.dict remote).WF) :
    exitCode (diffBodies repr localBody remote fields) = 0 ↔
      computeContentHash sha localBody fields = computeContentHash sha remote fields := by
  rw [exitCode_diffBodies_iff repr hl hr, computeContentHash_eq_iff sha hsha hf hl hr]

end
end ContentOps.RoundtripDiff
