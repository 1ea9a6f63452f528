import ContentOps.Library.Dict
import Mathlib.Data.String.Basic

/-! The bundled ATT&CK matrix of `coverage/matrix.py`: how an id of any release is resolved in the
current one. -/

namespace ContentOps.Coverage
open PyData

inductive TechniqueStatus where
  | current
  | revoked
  | deprecated
  | unknown
deriving DecidableEq, Repr

/-- An entry of the tables `techniques` and `sub_techniques`. -/
structure TechniqueRecord where
  id : String
  name : String
  tactics : List String
  parentId : Option String := none
deriving DecidableEq

structure TacticRecord where
  id : String
  shortName : String
  name : String
deriving DecidableEq

/-- `data/mitre_attack_full.json`. -/
structure MatrixFile where
  source : String
  schemaVersion : Nat
  attackVersion : String
  tactics : List TacticRecord
  techniques : List TechniqueRecord
  subTechniques : List TechniqueRecord
  revoked : Dict String String
  deprecated : List String

/-- `AttackMatrix`; the sets are lists. -/
structure AttackMatrix where
  attackVersion : String
  tactics : List String
  techniques : List String
  subTechniques : List String
  techniqueTactics : Dict String (List String)
  names : Dict String String
  revoked : Dict String String
  deprecated : List String

namespace AttackMatrix

/-- `resolve`. -/
def resolve (m : AttackMatrix) (techniqueId : String) : Option String × TechniqueStatus :=
  if m.techniqueTactics.contains techniqueId then (some techniqueId, .current)
  else if ((m.revoked.get? techniqueId).any fun r => r ≠ "" && m.techniqueTactics.contains r) then
    (m.revoked.get? techniqueId, .revoked)
  else if techniqueId ∈ m.deprecated then (none, .deprecated)
  else (none, .unknown)

def tacticsFor (m : AttackMatrix) (techniqueId : String) : List String :=
  (m.techniqueTactics.get? techniqueId).getD []

-- `normaliseTactic` is `normalise_tactic` of a text.
variable (normaliseTactic : String → Option String)

/-- `from_dict`. -/
def fromDict (raw : MatrixFile) : AttackMatrix :=
  let entries := raw.techniques ++ raw.subTechniques
  { attackVersion := raw.attackVersion
    tactics := raw.tactics.map (·.id)
    techniques := raw.techniques.map (·.id)
    subTechniques := raw.subTechniques.map (·.id)
    techniqueTactics :=
      Dict.ofPairs (entries.map fun e => (e.id, (e.tactics.filterMap normaliseTactic).eraseDups))
    names := Dict.ofPairs (entries.map fun e => (e.id, e.name))
    revoked := Dict.ofPairs raw.revoked
    deprecated := raw.deprecated }

theorem contains_techniqueTactics (raw : MatrixFile) (id : String) :
    (fromDict normaliseTactic raw).techniqueTactics.contains id = true ↔
      id ∈ (raw.techniques ++ raw.subTechniques).map (·.id) := by
  have hkeys : (Dict.get? (fromDict normaliseTactic raw).techniqueTactics id).isSome = true ↔
      id ∈ Dict.keys (fromDict normaliseTactic raw).techniqueTactics := by
    rw [← not_iff_not, Bool.not_eq_true, Option.isSome_eq_false_iff, Option.isNone_iff_eq_none,
      Dict.get?_eq_none_iff]
  rw [Dict.contains, hkeys, fromDict, Dict.mem_keys_ofPairs]
  simp [Dict.keys]

end AttackMatrix

end ContentOps.Coverage
