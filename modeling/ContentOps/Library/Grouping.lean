import ContentOps.Library.Dict
import Mathlib

/-! Rows gathered in a dictionary under a key that only some of them have, and sums over parts of
the rows. -/

namespace PyData.Dict
variable {κ α : Type*} [DecidableEq κ]

/-- `d.setdefault(k, []).append(a)`. -/
def gather (d : Dict κ (List α)) (k : κ) (a : α) : Dict κ (List α) :=
  d.set k ((d.get? k).getD [] ++ [a])

def group (key : α → Option κ) (rows : List α) : Dict κ (List α) :=
  rows.foldl (fun d a => (key a).elim d (d.gather · a)) []

theorem get?_gather (d : Dict κ (List α)) (k : κ) (a : α) (k' : κ) :
    ((d.gather k a).get? k').getD [] = (d.get? k').getD [] ++ if k = k' then [a] else [] := by
  unfold gather
  rw [get?_set]
  split_ifs with h
  · rw [h]
    rfl
  · exact (List.append_nil _).symm

theorem get?_group (key : α → Option κ) (rows : List α) (k : κ) :
    ((group key rows).get? k).getD [] = rows.filter fun a => key a = some k := by
  have key' : ∀ d : Dict κ (List α),
      ((rows.foldl (fun d a => (key a).elim d (d.gather · a)) d).get? k).getD [] =
        (d.get? k).getD [] ++ rows.filter fun a => key a = some k := by
    induction rows with
    | nil => simp
    | cons a rows ih =>
      intro d
      rw [List.foldl_cons, ih, List.filter_cons]
      cases hk : key a with
      | none => simp
      | some k' =>
        simp only [Option.elim_some, get?_gather, Option.some.injEq, decide_eq_true_eq]
        split_ifs <;> simp
  exact key' []

theorem nodup_keys_group (key : α → Option κ) (rows : List α) : (group key rows).keys.Nodup := by
  have hfold : ∀ d : Dict κ (List α), d.keys.Nodup →
      (rows.foldl (fun d a => (key a).elim d (d.gather · a)) d).keys.Nodup := by
    induction rows with
    | nil => exact fun d hd => hd
    | cons a rows ih =>
      intro d hd
      rw [List.foldl_cons]
      apply ih
      cases key a with
      | none => exact hd
      | some k => exact nodup_keys_set hd k _
  exact hfold [] List.nodup_nil

/-- The rows under a key are those that have it. -/
theorem eq_filter_of_mem_group {key : α → Option κ} {rows : List α} {p : κ × List α}
    (h : p ∈ group key rows) : p.2 = rows.filter fun a => key a = some p.1 := by
  rw [← get?_group, get?_of_mem (nodup_keys_group key rows) h]
  rfl

theorem sum_set (w : κ × α → Nat) (d : Dict κ α) (k : κ) (v : α) :
    ((d.set k v).map w).sum + ((d.get? k).map fun v => w (k, v)).getD 0 =
      (d.map w).sum + w (k, v) := by
  induction d with
  | nil => simp [set, get?]
  | cons p d ih =>
    obtain ⟨k', v'⟩ := p
    rw [set, get?_cons]
    by_cases hk : k' = k
    · subst hk
      rw [if_pos rfl, if_pos rfl, List.map_cons, List.sum_cons, List.map_cons, List.sum_cons,
        Option.map_some, Option.getD_some]
      omega
    · rw [if_neg hk, if_neg hk, List.map_cons, List.sum_cons, List.map_cons, List.sum_cons]
      omega

/-- The groups of the keys that count have together as many rows as have such a key. -/
theorem sum_group (p : κ → Bool) (key : α → Option κ) (rows : List α) :
    ((group key rows).map fun g => if p g.1 then g.2.length else 0).sum =
      rows.countP fun a => (key a).any p := by
  have hfold : ∀ d : Dict κ (List α),
      ((rows.foldl (fun d a => (key a).elim d (d.gather · a)) d).map
        fun g => if p g.1 then g.2.length else 0).sum =
        (d.map fun g => if p g.1 then g.2.length else 0).sum +
          rows.countP fun a => (key a).any p := by
    induction rows with
    | nil => exact fun d => rfl
    | cons a rows ih =>
      intro d
      rw [List.foldl_cons, ih, List.countP_cons]
      cases key a with
      | none =>
        rw [Option.elim_none, Option.any_none]
        simp
      | some k =>
        have hset := sum_set (fun g : κ × List α => if p g.1 then g.2.length else 0) d k
          ((d.get? k).getD [] ++ [a])
        rw [Option.elim_some, Option.any_some]
        unfold gather
        cases hk : p k <;> cases hget : d.get? k <;>
          simp only [hk, hget, Option.map_some, Option.map_none, Option.getD_some, Option.getD_none,
            List.length_append, List.length_singleton, List.nil_append, if_true, if_false,
            Bool.false_eq_true] at hset ⊢ <;>
          omega
  exact (hfold []).trans (Nat.zero_add _)

end PyData.Dict

namespace PyData
variable {ι α M : Type*}

/-- Each row is in at most one part of a family of disjoint ones, so their sums stay below the sum
of all rows. -/
theorem sum_parts_le [AddCommMonoid M] [PartialOrder M] [IsOrderedAddMonoid M] {weight : α → M}
    {part : ι → α → Bool} {family : List ι} {rows : List α} (hweight : ∀ a ∈ rows, 0 ≤ weight a)
    (hdisjoint : family.Pairwise fun i j => ∀ a, part i a = true → part j a = false) :
    (family.map fun i => ((rows.filter (part i)).map weight).sum).sum ≤ (rows.map weight).sum := by
  induction family generalizing rows with
  | nil =>
    apply List.sum_nonneg
    intro x hx
    obtain ⟨a, ha, rfl⟩ := List.mem_map.mp hx
    exact hweight a ha
  | cons i family ih =>
    obtain ⟨hfirst, hrest⟩ := List.pairwise_cons.mp hdisjoint
    have hothers : ∀ j ∈ family,
        (rows.filter fun a => !part i a).filter (part j) = rows.filter (part j) := by
      intro j hj
      rw [List.filter_filter]
      apply List.filter_congr
      intro a _
      have := hfirst j hj a
      cases hi : part i a <;> simp_all
    have hkept : ∀ a ∈ rows.filter (fun a => !part i a), 0 ≤ weight a :=
      fun a ha => hweight a (List.mem_of_mem_filter ha)
    have htail : (family.map fun j => ((rows.filter (part j)).map weight).sum).sum ≤
        ((rows.filter fun a => !part i a).map weight).sum := by
      have hsums := ih hkept hrest
      rwa [List.map_congr_left fun j hj => by rw [hothers j hj]] at hsums
    calc _ = ((rows.filter (part i)).map weight).sum +
          (family.map fun j => ((rows.filter (part j)).map weight).sum).sum := List.sum_cons
      _ ≤ _ := add_le_add_right htail _
      _ = (rows.map weight).sum := by
        rw [← List.sum_append, ← List.map_append]
        exact ((List.filter_append_perm (part i) rows).map weight).sum_eq

end PyData
