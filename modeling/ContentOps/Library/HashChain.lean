import Mathlib.Data.List.Forall2
import Mathlib.Data.List.Induction
import Mathlib.Tactic.Common

/-! Chains of entries in which each entry points at the hash of the one before it. -/

namespace HashChain
variable {α β H : Type*}

section Chained
variable (prev own : α → H)

/-- The entries follow one another, the first one following `h`. -/
def Chained (h : H) : List α → Prop
  | [] => True
  | a :: l => prev a = h ∧ Chained (own a) l

/-- The hash the next entry has to point at. -/
def tail (h : H) : List α → H
  | [] => h
  | a :: l => tail (own a) l

theorem tail_append (h : H) (l m : List α) :
    tail own h (l ++ m) = tail own (tail own h l) m := by
  induction l generalizing h with
  | nil => rfl
  | cons a l ih => exact ih (own a)

@[simp] theorem tail_concat (h : H) (l : List α) (a : α) : tail own h (l ++ [a]) = own a := by
  rw [tail_append]
  rfl

theorem chained_append (h : H) (l m : List α) :
    Chained prev own h (l ++ m) ↔
      Chained prev own h l ∧ Chained prev own (tail own h l) m := by
  induction l generalizing h with
  | nil => simp [Chained, tail]
  | cons a l ih => simp only [List.cons_append, Chained, tail, ih, and_assoc]

theorem tail_eq_iff_nil {h : H} {l : List α} (hown : ∀ a ∈ l, own a ≠ h) :
    tail own h l = h ↔ l = [] := by
  rcases List.eq_nil_or_concat l with rfl | ⟨l, a, rfl⟩
  · simp [tail]
  · simpa using hown a (by simp)

/-- Entries with hashes of their own move the tail. -/
theorem eq_nil_of_tail_eq {h : H} {l u : List α} (hnodup : ((l ++ u).map own).Nodup)
    (hown : ∀ a ∈ u, own a ≠ h) (ht : tail own h (l ++ u) = tail own h l) : u = [] := by
  rcases List.eq_nil_or_concat u with rfl | ⟨u, a, rfl⟩
  · rfl
  · exfalso
    rw [List.concat_eq_append] at hnodup hown ht
    rw [← List.append_assoc, tail_concat] at ht
    rcases List.eq_nil_or_concat l with rfl | ⟨l, b, rfl⟩
    · exact hown a (by simp) ht
    · rw [List.concat_eq_append, tail_concat] at ht
      simp only [List.concat_eq_append, List.map_append, List.map_cons, List.map_nil,
        List.nodup_append] at hnodup
      exact hnodup.2.2 (own b) (by simp) (own a) (by simp) ht.symm

end Chained

/-- The tail of a chain commits to all of it: two chains from one origin with one tail are entry
by entry alike, when entries with one hash are alike and no entry hashes to the origin. -/
theorem forall₂_of_tail_eq {prev own : α → H} {prev' own' : β → H} {R : α → β → Prop} {h : H}
    {l : List α} {m : List β} (hl : Chained prev own h l) (hm : Chained prev' own' h m)
    (hlo : ∀ a ∈ l, own a ≠ h) (hmo : ∀ b ∈ m, own' b ≠ h)
    (hR : ∀ a ∈ l, ∀ b ∈ m, own a = own' b → prev a = prev' b ∧ R a b)
    (ht : tail own h l = tail own' h m) : List.Forall₂ R l m := by
  induction l using List.reverseRecOn generalizing m with
  | nil =>
    have hnil : m = [] := (tail_eq_iff_nil own' hmo).mp ht.symm
    exact hnil ▸ List.Forall₂.nil
  | append_singleton l a ih =>
    rcases List.eq_nil_or_concat m with rfl | ⟨m, b, rfl⟩
    · exact absurd ((tail_concat own h l a).symm.trans ht) (hlo a (by simp))
    · rw [List.concat_eq_append] at *
      rw [chained_append] at hl hm
      rw [tail_concat, tail_concat] at ht
      obtain ⟨hprev, hab⟩ := hR a (by simp) b (by simp) ht
      have hpre : List.Forall₂ R l m :=
        ih hl.1 hm.1 (fun c hc => hlo c (by simp [hc])) (fun c hc => hmo c (by simp [hc]))
          (fun c hc e he => hR c (by simp [hc]) e (by simp [he]))
          (hl.2.1.symm.trans (hprev.trans hm.2.1))
      exact List.rel_append hpre (List.Forall₂.cons hab List.Forall₂.nil)

end HashChain
