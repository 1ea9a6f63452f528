import Mathlib.Data.List.Basic
import Mathlib.Tactic.Common

/-! Sequences of brackets of several kinds that close in the order in which they open. -/

namespace PyData
variable {α : Type*} {opener : α → Option α}

/-- Balanced sequences, for `opener c` the bracket that `c` closes. -/
inductive Balanced (opener : α → Option α) : List α → Prop
  | nil : Balanced opener []
  | wrap {o c : α} {inner rest : List α} : opener c = some o → Balanced opener inner →
      Balanced opener rest → Balanced opener (o :: (inner ++ c :: rest))

/-- What may follow the open brackets `stack`, the last one first. -/
def BalancedUnder (opener : α → Option α) : List α → List α → Prop
  | [], t => Balanced opener t
  | o :: stack, t => ∃ inner c rest, t = inner ++ c :: rest ∧ Balanced opener inner ∧
      opener c = some o ∧ BalancedUnder opener stack rest

theorem Balanced.cons_iff {o : α} {t : List α} :
    Balanced opener (o :: t) ↔ BalancedUnder opener [o] t := by
  constructor
  · rintro (_ | ⟨hc, hinner, hrest⟩)
    exact ⟨_, _, _, rfl, hinner, hc, hrest⟩
  · rintro ⟨inner, c, rest, rfl, hinner, hc, hrest⟩
    exact .wrap hc hinner hrest

/-- A balanced sequence starts with no closing bracket, where none opens as well. -/
theorem Balanced.not_cons (hopen : ∀ c o, opener c = some o → opener o = none) {c o : α}
    (hc : opener c = some o) (t : List α) : ¬ Balanced opener (c :: t) := by
  rintro (_ | ⟨hc', -, -⟩)
  have hnone := hopen _ _ hc'
  rw [hc] at hnone
  cases hnone

/-- An opening bracket goes on the stack. -/
theorem balancedUnder_open {o : α} (ho : opener o = none) (stack t : List α) :
    BalancedUnder opener stack (o :: t) ↔ BalancedUnder opener (o :: stack) t := by
  cases stack with
  | nil => exact Balanced.cons_iff
  | cons o' stack =>
    constructor
    · rintro ⟨inner', c', rest', heq, hinner', hc', hrest'⟩
      cases hinner' with
      | nil =>
        obtain ⟨rfl, -⟩ := List.cons.inj heq
        rw [ho] at hc'
        cases hc'
      | wrap hc hinner hrest =>
        rw [List.cons_append, List.append_assoc, List.cons_append] at heq
        obtain ⟨rfl, rfl⟩ := List.cons.inj heq
        exact ⟨_, _, _, rfl, hinner, hc, _, _, _, rfl, hrest, hc', hrest'⟩
    · rintro ⟨inner, c, _, rfl, hinner, hc, inner', c', rest', rfl, hinner', hc', hrest'⟩
      refine ⟨o :: (inner ++ c :: inner'), c', rest', ?_, .wrap hc hinner hinner', hc', hrest'⟩
      simp

/-- A closing bracket takes its opening one off the stack. -/
theorem balancedUnder_close (hopen : ∀ c o, opener c = some o → opener o = none) {c o : α}
    (hc : opener c = some o) (o' : α) (stack t : List α) :
    BalancedUnder opener (o' :: stack) (c :: t) ↔ o = o' ∧ BalancedUnder opener stack t := by
  constructor
  · rintro ⟨inner, c', rest, heq, hinner, hc', hrest⟩
    cases inner with
    | nil =>
      obtain ⟨rfl, rfl⟩ := List.cons.inj heq
      exact ⟨Option.some.inj (hc.symm.trans hc'), hrest⟩
    | cons b inner =>
      obtain ⟨rfl, -⟩ := List.cons.inj heq
      exact absurd hinner (Balanced.not_cons hopen hc inner)
  · rintro ⟨rfl, hrest⟩
    exact ⟨[], c, t, rfl, .nil, hc, hrest⟩

theorem not_balancedUnder_nil {o : α} {stack : List α} :
    ¬ BalancedUnder opener (o :: stack) [] := by
  rintro ⟨inner, c, rest, heq, -⟩
  cases inner <;> cases heq

end PyData
