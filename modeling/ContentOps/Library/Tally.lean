import ContentOps.Library.Dict
import Mathlib

/-! Counting rows against items from either side, and a dictionary in which the first value of a key
stands. -/

namespace PyData
variable {α β : Type*}

/-- The items of each row, or the rows of each item: the total is the same. -/
theorem sum_countP_comm (p : α → β → Bool) (rows : List α) (items : List β) :
    (rows.map fun a => items.countP (p a)).sum =
      (items.map fun b => rows.countP fun a => p a b).sum := by
  have hrow : ∀ (a : α) (rows : List α), (items.map fun b => (a :: rows).countP fun a => p a b).sum =
      items.countP (p a) + (items.map fun b => rows.countP fun a => p a b).sum := by
    intro a rows
    induction items with
    | nil => rfl
    | cons b items ih =>
      rw [List.map_cons, List.sum_cons, List.map_cons, List.sum_cons, ih, List.countP_cons,
        List.countP_cons]
      omega
  induction rows with
  | nil => simp
  | cons a rows ih => rw [List.map_cons, List.sum_cons, hrow, ih]

/-- A sum of positive numbers is as small as their number iff each of them is one. -/
theorem sum_eq_length_iff {f : α → Nat} {items : List α} (hf : ∀ a ∈ items, 1 ≤ f a) :
    (items.map f).sum = items.length ↔ ∀ a ∈ items, f a = 1 := by
  induction items with
  | nil => exact iff_of_true rfl fun a ha => absurd ha List.not_mem_nil
  | cons a items ih =>
    obtain ⟨ha, hitems⟩ := List.forall_mem_cons.mp hf
    have hge : ∀ items : List α, (∀ a ∈ items, 1 ≤ f a) → items.length ≤ (items.map f).sum := by
      intro items
      induction items with
      | nil => exact fun _ => le_rfl
      | cons b items ih =>
        intro h
        obtain ⟨hb, hrest⟩ := List.forall_mem_cons.mp h
        have hle := ih hrest
        rw [List.map_cons, List.sum_cons, List.length_cons]
        omega
    have hle := hge items hitems
    rw [List.map_cons, List.sum_cons, List.length_cons, List.forall_mem_cons, ← ih hitems]
    omega

namespace Dict
variable {κ : Type*} [DecidableEq κ]

/-- `d.setdefault(k, v)` for each pair. -/
def firsts (ps : List (κ × α)) : Dict κ α :=
  ps.foldl (fun d p => if d.contains p.1 then d else d ++ [p]) []

theorem foldl_setdefault (ps : List (κ × α)) (d : Dict κ α) :
    (∀ p ∈ ps.foldl (fun d p => if d.contains p.1 then d else d ++ [p]) d, p ∈ d ∨ p ∈ ps) ∧
      ∀ k, (ps.foldl (fun d p => if d.contains p.1 then d else d ++ [p]) d).get? k =
        (d.get? k).or ((ps.find? fun p => p.1 = k).map (·.2)) := by
  induction ps generalizing d with
  | nil => exact ⟨fun p hp => .inl hp, fun k => (Option.or_none).symm⟩
  | cons q ps ih =>
    rw [List.foldl_cons]
    by_cases hq : d.contains q.1 = true
    · rw [if_pos hq]
      obtain ⟨hmem, hget⟩ := ih d
      refine ⟨fun p hp => (hmem p hp).imp_right (List.mem_cons_of_mem q), fun k => ?_⟩
      rw [hget, List.find?_cons]
      by_cases hk : q.1 = k
      · obtain ⟨v, hv⟩ := Option.isSome_iff_exists.mp (hk ▸ hq)
        rw [hv, Option.some_or, Option.some_or]
      · rw [decide_eq_false hk]
    · rw [if_neg hq]
      obtain ⟨hmem, hget⟩ := ih (d ++ [q])
      refine ⟨fun p hp => ?_, fun k => ?_⟩
      · rcases hmem p hp with hp | hp
        · rcases List.mem_append.mp hp with hp | hp
          · exact .inl hp
          · exact .inr (List.mem_singleton.mp hp ▸ List.mem_cons_self)
        · exact .inr (List.mem_cons_of_mem q hp)
      · rw [hget, get?_append, List.find?_cons, Option.or_assoc, get?_cons]
        by_cases hk : q.1 = k
        · rw [decide_eq_true hk, if_pos hk]
          rfl
        · rw [decide_eq_false hk, if_neg hk]
          rfl

theorem mem_firsts {ps : List (κ × α)} {p : κ × α} (h : p ∈ firsts ps) : p ∈ ps :=
  ((foldl_setdefault ps []).1 p h).resolve_left List.not_mem_nil

theorem get?_firsts (ps : List (κ × α)) (k : κ) :
    (firsts ps).get? k = (ps.find? fun p => p.1 = k).map (·.2) :=
  (foldl_setdefault ps []).2 k

end Dict
end PyData
