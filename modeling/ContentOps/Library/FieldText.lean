import ContentOps.Library.Value

/-! The fields of a parsed document as texts. `str` is Python's `str` of what is no text. -/

namespace PyData.Value
variable {X : Type} [ScalarEq X] (str : Value X → String)

/-- `str(d.get(key) or "")`. -/
def textOf (d : Dict String (Value X)) (key : String) : String :=
  match get d key with
  | .str s => s
  | v => if v.truthy then str v else ""

/-- `str(d[key]) if d.get(key) else None`. -/
def textOf? (d : Dict String (Value X)) (key : String) : Option String :=
  if (get d key).truthy then some (textOf str d key) else none

theorem textOf_of_get? {d : Dict String (Value X)} {key s : String}
    (h : d.get? key = some (.str s)) : textOf str d key = s := by
  simp [textOf, get, h]

theorem textOf_ofOption {d : Dict String (Value X)} {key : String} {o : Option String}
    (h : d.get? key = some (.ofOption o)) : textOf str d key = o.getD "" := by
  rw [textOf, get, h]
  cases o <;> rfl

theorem textOf?_ofOption {d : Dict String (Value X)} {key : String} {o : Option String}
    (h : d.get? key = some (.ofOption o)) : textOf? str d key = o.filter (· ≠ "") := by
  rw [textOf?, textOf, get, h]
  cases o with
  | none => rfl
  | some s => by_cases hs : s = "" <;> simp [ofOption, truthy, Option.filter, hs]

end PyData.Value
