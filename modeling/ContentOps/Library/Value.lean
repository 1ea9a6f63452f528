import ContentOps.Library.Dict
import Mathlib.Data.String.Basic

/-! The plain data that `json.loads` and `yaml.safe_load` return. `X` is the type of the
scalars beyond null, booleans, integers and strings: floats, and the dates of YAML. -/

namespace PyData

inductive Value (X : Type) where
  | null
  | bool (b : Bool)
  | int (n : Int)
  | scalar (x : X)
  | str (s : String)
  | list (vs : List (Value X))
  | dict (d : List (String × Value X))

namespace Value
variable {X : Type}

mutual

def decEq [DecidableEq X] : (v w : Value X) → Decidable (v = w)
  | .null, w => match w with
    | .null => isTrue rfl
    | .bool _ | .int _ | .scalar _ | .str _ | .list _ | .dict _ => isFalse (by simp)
  | .bool a, w => match w with
    | .bool b => decidable_of_iff (a = b) (by simp)
    | .null | .int _ | .scalar _ | .str _ | .list _ | .dict _ => isFalse (by simp)
  | .int a, w => match w with
    | .int b => decidable_of_iff (a = b) (by simp)
    | .null | .bool _ | .scalar _ | .str _ | .list _ | .dict _ => isFalse (by simp)
  | .scalar a, w => match w with
    | .scalar b => decidable_of_iff (a = b) (by simp)
    | .null | .bool _ | .int _ | .str _ | .list _ | .dict _ => isFalse (by simp)
  | .str a, w => match w with
    | .str b => decidable_of_iff (a = b) (by simp)
    | .null | .bool _ | .int _ | .scalar _ | .list _ | .dict _ => isFalse (by simp)
  | .list a, w => match w with
    | .list b => @decidable_of_iff _ (a = b) (by simp) (decEqList a b)
    | .null | .bool _ | .int _ | .scalar _ | .str _ | .dict _ => isFalse (by simp)
  | .dict a, w => match w with
    | .dict b => @decidable_of_iff _ (a = b) (by simp) (decEqDict a b)
    | .null | .bool _ | .int _ | .scalar _ | .str _ | .list _ => isFalse (by simp)

def decEqList [DecidableEq X] : (vs ws : List (Value X)) → Decidable (vs = ws)
  | [], [] => isTrue rfl
  | [], _ :: _ => isFalse (by simp)
  | _ :: _, [] => isFalse (by simp)
  | v :: vs, w :: ws =>
    haveI := decEq v w
    haveI := decEqList vs ws
    decidable_of_iff (v = w ∧ vs = ws) (by simp)

def decEqDict [DecidableEq X] : (d e : List (String × Value X)) → Decidable (d = e)
  | [], [] => isTrue rfl
  | [], _ :: _ => isFalse (by simp)
  | _ :: _, [] => isFalse (by simp)
  | (k, v) :: d, (l, w) :: e =>
    haveI := decEq v w
    haveI := decEqDict d e
    decidable_of_iff (k = l ∧ v = w ∧ d = e) (by simp [and_assoc])

end

instance [DecidableEq X] : DecidableEq (Value X) := decEq

mutual

/-- Every dictionary in the value has distinct keys, as Python's dictionaries do. -/
def WF : Value X → Prop
  | .list vs => WFList vs
  | .dict d => (Dict.keys d).Nodup ∧ WFDict d
  | .null | .bool _ | .int _ | .scalar _ | .str _ => True

def WFList : List (Value X) → Prop
  | [] => True
  | v :: vs => WF v ∧ WFList vs

def WFDict : List (String × Value X) → Prop
  | [] => True
  | (_, v) :: d => WF v ∧ WFDict d

end

@[simp] theorem wf_null : WF (.null : Value X) := trivial
@[simp] theorem wf_str (s : String) : WF (.str s : Value X) := trivial

theorem wfDict_iff {d : List (String × Value X)} : WFDict d ↔ ∀ p ∈ d, WF p.2 := by
  induction d with
  | nil => simp [WFDict]
  | cons p d ih => simp [WFDict, ih]

theorem wf_dict_iff {d : List (String × Value X)} :
    WF (.dict d) ↔ (Dict.keys d).Nodup ∧ ∀ p ∈ d, WF p.2 := by
  rw [WF, wfDict_iff]

theorem WF.erase {d : Dict String (Value X)} (h : WF (.dict d)) (k : String) : WF (.dict (d.erase k)) := by
  rw [wf_dict_iff] at h ⊢
  exact ⟨Dict.nodup_keys_erase h.1 k, fun p hp => h.2 p (List.mem_filter.mp hp).1⟩

theorem WF.set {d : Dict String (Value X)} (h : WF (.dict d)) (k : String) {v : Value X}
    (hv : v.WF) : WF (.dict (d.set k v)) := by
  rw [wf_dict_iff] at h ⊢
  refine ⟨Dict.nodup_keys_set h.1 k v, ?_⟩
  intro p hp
  rcases Dict.mem_set hp with rfl | hmem
  · exact hv
  · exact h.2 p hmem

mutual

/-- The keys of every dictionary in order, as `sort_keys=True` writes them. -/
def sortKeys : Value X → Value X
  | .dict d => .dict (Dict.sortByKey (sortKeysEntries d))
  | .list vs => .list (sortKeysItems vs)
  | .null => .null
  | .bool b => .bool b
  | .int n => .int n
  | .scalar x => .scalar x
  | .str s => .str s

def sortKeysItems : List (Value X) → List (Value X)
  | [] => []
  | v :: vs => sortKeys v :: sortKeysItems vs

def sortKeysEntries : List (String × Value X) → Dict String (Value X)
  | [] => []
  | (k, v) :: d => (k, sortKeys v) :: sortKeysEntries d

end

theorem sortKeys_dict (d : Dict String (Value X)) :
    sortKeys (.dict d) = .dict (d.sortByKey.mapVals sortKeys) := by
  have hentries : ∀ d : Dict String (Value X), sortKeysEntries d = d.mapVals sortKeys := by
    intro d
    induction d with
    | nil => rfl
    | cons p d ih =>
      rw [sortKeysEntries, ih]
      rfl
  rw [sortKeys, hentries, Dict.sortByKey_mapVals]

mutual

theorem WF.sortKeys {v : Value X} (h : v.WF) : v.sortKeys.WF := by
  match v, h with
  | .dict d, h =>
    rw [sortKeys_dict]
    obtain ⟨hnodup, hvals⟩ := h
    refine wf_dict_iff.mpr ⟨?_, ?_⟩
    · rw [Dict.keys_mapVals]
      exact Dict.nodup_keys_sortByKey hnodup
    · intro p hp
      obtain ⟨q, hq, rfl⟩ := List.mem_map.mp hp
      exact WFDict.sortKeys hvals q ((Dict.sortByKey_perm d).mem_iff.mp hq)
  | .list vs, h => exact WFList.sortKeys h
  | .null, _ | .bool _, _ | .int _, _ | .scalar _, _ | .str _, _ => exact trivial

theorem WFList.sortKeys {vs : List (Value X)} (h : WFList vs) : WFList (sortKeysItems vs) := by
  match vs, h with
  | [], _ => exact trivial
  | _ :: _, ⟨hv, hvs⟩ => exact ⟨WF.sortKeys hv, WFList.sortKeys hvs⟩

theorem WFDict.sortKeys {d : List (String × Value X)} (h : WFDict d) :
    ∀ p ∈ d, p.2.sortKeys.WF := by
  match d, h with
  | [], _ => simp
  | (_, v) :: d, ⟨hv, hd⟩ =>
    exact List.forall_mem_cons.mpr ⟨WF.sortKeys hv, WFDict.sortKeys hd⟩

end

/-- How the scalars compare with one another and with integers under Python's `==`. -/
class ScalarEq (X : Type) where
  eq : X → X → Bool
  eqInt : X → Int → Bool

instance : ScalarEq Empty := ⟨fun x => x.elim, fun x => x.elim⟩

section PyEq
variable [ScalarEq X]

/-- Booleans are the integers 0 and 1. -/
def ofBool (b : Bool) : Int := if b then 1 else 0

mutual

/-- Python's `==`. -/
def pyEq : Value X → Value X → Bool
  | .null, .null => true
  | .bool a, .bool b => a = b
  | .bool a, .int n | .int n, .bool a => n = ofBool a
  | .int m, .int n => m = n
  | .scalar x, .scalar y => ScalarEq.eq x y
  | .scalar x, .int n | .int n, .scalar x => ScalarEq.eqInt x n
  | .scalar x, .bool b | .bool b, .scalar x => ScalarEq.eqInt x (ofBool b)
  | .str s, .str t => s = t
  | .list vs, .list ws => pyEqItems vs ws
  | .dict d, .dict e => d.length = e.length && pyEqEntries d e
  | _, _ => false

def pyEqItems : List (Value X) → List (Value X) → Bool
  | [], [] => true
  | v :: vs, w :: ws => pyEq v w && pyEqItems vs ws
  | _, _ => false

def pyEqEntries : List (String × Value X) → Dict String (Value X) → Bool
  | [], _ => true
  | (k, v) :: d, e => (match e.get? k with
      | some w => pyEq v w
      | none => false) && pyEqEntries d e

end

@[simp] theorem pyEq_str_str (s t : String) : pyEq (.str s : Value X) (.str t) = (s = t : Bool) := by
  rw [pyEq]

theorem eq_str_of_pyEq {v : Value X} {s : String} (h : pyEq v (.str s) = true) : v = .str s := by
  cases v <;> simp_all [pyEq]

/-- Python's truth of a value; a scalar that equals 0 is false. -/
def truthy : Value X → Bool
  | .null => false
  | .bool b => b
  | .int n => n ≠ 0
  | .scalar x => !ScalarEq.eqInt x 0
  | .str s => s ≠ ""
  | .list vs => !vs.isEmpty
  | .dict d => !d.isEmpty

/-- `a or b`. -/
def orElse (a b : Value X) : Value X := if a.truthy then a else b

end PyEq

/-- A string or null: the value of a field declared `str | None`. -/
def ofOption : Option String → Value X
  | none => .null
  | some s => .str s

def dict? : Value X → Option (Dict String (Value X))
  | .dict d => some d
  | _ => none

def text? : Value X → Option String
  | .str s => some s
  | _ => none

@[simp] theorem dict?_dict (d : Dict String (Value X)) : (dict d).dict? = some d := rfl

theorem dict?_eq_some {v : Value X} {d : Dict String (Value X)} (h : v.dict? = some d) :
    v = .dict d := by
  cases v <;> simp_all [dict?]

theorem text?_eq_some {v : Value X} {s : String} (h : v.text? = some s) : v = .str s := by
  cases v <;> simp_all [text?]

/-- `d.get(key)`. -/
def get (d : Dict String (Value X)) (key : String) : Value X := (d.get? key).getD .null

/-- `d.get(key) or ""` for a key that holds a string or nothing. -/
def textAt (d : Dict String (Value X)) (key : String) : String :=
  match d.get? key with
  | some (.str s) => s
  | _ => ""

theorem get?_of_textAt {d : Dict String (Value X)} {key : String} (h : textAt d key ≠ "") :
    d.get? key = some (.str (textAt d key)) := by
  unfold textAt at h ⊢
  split at h
  · next s hs => rw [hs]
  · exact absurd rfl h

theorem get?_of_get {d : Dict String (Value X)} {key : String} {v : Value X}
    (h : get d key = v) (hv : v ≠ .null) : d.get? key = some v := by
  unfold get at h
  cases hm : d.get? key with
  | none => exact absurd (by simpa [hm] using h.symm) hv
  | some w => simpa [hm] using h

@[simp] theorem wf_ofOption (s : Option String) : WF (ofOption s : Value X) := by
  cases s <;> trivial

end Value
end PyData
