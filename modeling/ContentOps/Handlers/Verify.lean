import ContentOps.Library.JsonRoundTrip
import ContentOps.Library.ValuePath

/-! `handlers/_verify.py`: the hash of some fields of a resource. -/

namespace ContentOps
open PyData

section
variable {X H : Type} [Json.FloatText X] (sha : Text → H)

def dotted (path : List String) : String := ".".intercalate path

/-- `{field: _get_path(body, field) for field in fields}`. -/
def projection (body : Dict String (Value X)) (fields : List (List String)) :
    Dict String (Value X) :=
  Dict.ofPairs (fields.map fun p => (dotted p, Value.getPath p (.dict body)))

def computeContentHash (body : Dict String (Value X)) (fields : List (List String)) : H :=
  sha (Json.dumps Json.compact (Value.dict (projection body fields)).sortKeys)

omit [Json.FloatText X] in
theorem projection_eq {fields : List (List String)} (hf : (fields.map dotted).Nodup)
    (body : Dict String (Value X)) :
    projection body fields = fields.map fun p => (dotted p, Value.getPath p (.dict body)) := by
  unfold projection
  apply Dict.ofPairs_of_nodup
  rw [Dict.keys, List.map_map]
  exact hf

/-- Without collisions, hashes agree exactly when every field does. -/
theorem computeContentHash_eq_iff (hsha : Function.Injective sha) {fields : List (List String)}
    (hf : (fields.map dotted).Nodup) {a b : Dict String (Value X)} (ha : (Value.dict a).WF)
    (hb : (Value.dict b).WF) :
    computeContentHash sha a fields = computeContentHash sha b fields ↔
      ∀ p ∈ fields, Value.Same (Value.getPath p (.dict a)) (Value.getPath p (.dict b)) := by
  have hkeys : ∀ d : Dict String (Value X),
      (Dict.keys (fields.map fun p => (dotted p, Value.getPath p (.dict d)))).Nodup := by
    intro d
    rw [Dict.keys, List.map_map]
    exact hf
  have hwf : ∀ d : Dict String (Value X), (Value.dict d).WF →
      (Value.dict (fields.map fun p => (dotted p, Value.getPath p (.dict d)))).WF := by
    intro d hd
    refine Value.wf_dict_iff.mpr ⟨hkeys d, ?_⟩
    intro q hq
    obtain ⟨p, -, rfl⟩ := List.mem_map.mp hq
    exact hd.getPath p
  unfold computeContentHash
  rw [hsha.eq_iff, projection_eq hf, projection_eq hf]
  constructor
  · intro h p hp
    have hsame := Json.dumps_injective Json.compact_blank (hwf a ha).sortKeys (hwf b hb).sortKeys h
    have hget := (Value.same_dict_iff (hkeys a) (hkeys b)).mp hsame (dotted p)
    rw [Dict.get?_of_mem (hkeys a) (List.mem_map_of_mem hp),
      Dict.get?_of_mem (hkeys b) (List.mem_map_of_mem hp)] at hget
    exact Option.some.inj hget
  · intro h
    have hsame : Value.Same (.dict (fields.map fun p => (dotted p, Value.getPath p (.dict a))))
        (.dict (fields.map fun p => (dotted p, Value.getPath p (.dict b)))) := by
      unfold Value.Same
      rw [Value.sortKeys_dict, Value.sortKeys_dict, ← Dict.sortByKey_mapVals,
        ← Dict.sortByKey_mapVals]
      congr 2
      simp only [Dict.mapVals, List.map_map]
      exact List.map_congr_left fun p hp => congrArg (Prod.mk _) (h p hp)
    rw [show Value.sortKeys _ = Value.sortKeys _ from hsame]

end
end ContentOps
