import ContentOps.Library.JsonRoundTrip

/-! A document format given by a table: the documents of the table have their texts, and any other
document has a JSON text. It reads back what it writes, also a mapping that has a key twice. -/

namespace TextTable
open PyData

section
variable {X : Type}

mutual

/-- A document in lists only, so that mappings with a key twice can be written as well. -/
def flatten : Value X → Value X
  | .dict d => .list (.int 1 :: flattenEntries d)
  | .list vs => .list (.int 0 :: flattenItems vs)
  | .str s => .str s
  | .null => .null
  | .bool b => .bool b
  | .int n => .int n
  | .scalar x => .scalar x

def flattenItems : List (Value X) → List (Value X)
  | [] => []
  | v :: vs => flatten v :: flattenItems vs

def flattenEntries : List (String × Value X) → List (Value X)
  | [] => []
  | (k, v) :: d => .str k :: flatten v :: flattenEntries d

end

mutual

def unflatten : Value X → Value X
  | .list (.int 1 :: entries) => .dict (unflattenEntries entries)
  | .list (_ :: items) => .list (unflattenItems items)
  | v => v

def unflattenItems : List (Value X) → List (Value X)
  | [] => []
  | v :: vs => unflatten v :: unflattenItems vs

def unflattenEntries : List (Value X) → List (String × Value X)
  | .str k :: v :: rest => (k, unflatten v) :: unflattenEntries rest
  | _ => []

end

mutual

theorem unflatten_flatten : (v : Value X) → unflatten (flatten v) = v
  | .dict d => by rw [flatten, unflatten, unflattenEntries_flatten d]
  | .list vs => by
    rw [flatten, unflatten, unflattenItems_flatten vs]
    simp
  | .null | .bool _ | .int _ | .scalar _ | .str _ => by simp [flatten, unflatten]

theorem unflattenItems_flatten : (vs : List (Value X)) → unflattenItems (flattenItems vs) = vs
  | [] => by rw [flattenItems, unflattenItems]
  | v :: vs => by
    rw [flattenItems, unflattenItems, unflatten_flatten v, unflattenItems_flatten vs]

theorem unflattenEntries_flatten :
    (d : List (String × Value X)) → unflattenEntries (flattenEntries d) = d
  | [] => by simp [flattenEntries, unflattenEntries]
  | (k, v) :: d => by
    rw [flattenEntries, unflattenEntries, unflatten_flatten v, unflattenEntries_flatten d]

end

mutual

theorem wf_flatten : (v : Value X) → (flatten v).WF
  | .dict d => by
    rw [flatten]
    exact ⟨trivial, wf_flattenEntries d⟩
  | .list vs => by
    rw [flatten]
    exact ⟨trivial, wf_flattenItems vs⟩
  | .null | .bool _ | .int _ | .scalar _ | .str _ => by rw [flatten]; exact trivial

theorem wf_flattenItems : (vs : List (Value X)) → Value.WFList (flattenItems vs)
  | [] => trivial
  | v :: vs => by
    rw [flattenItems]
    exact ⟨wf_flatten v, wf_flattenItems vs⟩

theorem wf_flattenEntries : (d : List (String × Value X)) → Value.WFList (flattenEntries d)
  | [] => trivial
  | (k, v) :: d => by
    rw [flattenEntries]
    exact ⟨trivial, wf_flatten v, wf_flattenEntries d⟩

end

/-! ## The table -/

variable [DecidableEq X] [Json.FloatText X]

def dump (table : List (Value X × Text)) (v : Value X) : Text :=
  match table.find? (·.1 = v) with
  | some row => row.2
  | none => '!' :: Json.dumps Json.compact (flatten v)

def load (table : List (Value X × Text)) (t : Text) : Option (Value X) :=
  match table.find? (·.2 = t) with
  | some row => some row.1
  | none =>
    match t with
    | '!' :: rest => (Json.loads rest).map unflatten
    | _ => none

/-- No text stands for two documents, and none looks like the text of a document outside. -/
def Proper (table : List (Value X × Text)) : Prop :=
  (table.map (·.2)).Nodup ∧ ∀ row ∈ table, row.2.head? ≠ some '!'

instance (table : List (Value X × Text)) : Decidable (Proper table) :=
  inferInstanceAs (Decidable (_ ∧ _))

theorem load_dump {table : List (Value X × Text)} (h : Proper table) (v : Value X) :
    load table (dump table v) = some v := by
  obtain ⟨hnodup, hhead⟩ := h
  unfold dump
  cases hfind : table.find? (·.1 = v) with
  | some row =>
    have hrow := List.mem_of_find?_eq_some hfind
    have hdoc : row.1 = v := by simpa using List.find?_some hfind
    have htext : table.find? (·.2 = row.2) = some row := by
      cases hback : table.find? (·.2 = row.2) with
      | none => simpa using List.find?_eq_none.mp hback row hrow
      | some other =>
        have hsame : other.2 = row.2 := by simpa using List.find?_some hback
        rw [List.inj_on_of_nodup_map hnodup (List.mem_of_find?_eq_some hback) hrow hsame]
    unfold load
    dsimp only
    rw [htext]
    exact congrArg some hdoc
  | none =>
    have htext : table.find? (·.2 = '!' :: Json.dumps Json.compact (flatten v)) = none := by
      rw [List.find?_eq_none]
      intro row hrow heq
      apply hhead row hrow
      rw [of_decide_eq_true heq, List.head?_cons]
    unfold load
    dsimp only
    rw [htext]
    change (Json.loads (Json.dumps Json.compact (flatten v))).map unflatten = some v
    rw [Json.loads_dumps Json.compact_blank (wf_flatten v), Option.map_some, unflatten_flatten]

theorem dump_injective {table : List (Value X × Text)} (h : Proper table) :
    Function.Injective (dump table) := by
  intro v w hvw
  have hload := load_dump h v
  rw [hvw, load_dump h w] at hload
  exact (Option.some.inj hload).symm

end
end TextTable
