import Mathlib.Logic.Relation
import Mathlib.Data.List.Basic

/-! Following a partial function from a node until a goal, a dead end or a node that was met before.
The walk ends, and it ends in a goal exactly when the function leads to one. -/

namespace Walk
variable {κ : Type*}

/-- One turn of a walk: from a node that is no goal. -/
def Step (next : κ → Option κ) (goal : κ → Prop) (a b : κ) : Prop := ¬goal a ∧ next a = some b

/-- `none` is a walk that has not ended after so many turns. -/
def follow [DecidableEq κ] (next : κ → Option κ) (goal : κ → Prop) [DecidablePred goal] :
    ℕ → List κ → κ → Option κ
  | 0, _, _ => none
  | turns + 1, seen, a =>
    if goal a then some a
    else match next a with
      | none => some a
      | some b => if a ∈ seen then some a else follow next goal turns (a :: seen) b

section Steps
variable {next : κ → Option κ} {goal : κ → Prop}

theorem Step.unique {a b c : κ} (hb : Step next goal a b) (hc : Step next goal a c) : b = c :=
  Option.some.inj (hb.2.symm.trans hc.2)

/-- On a cycle every node that can be reached is on the cycle. -/
theorem cycle_of_reached {a b : κ} (hcycle : Relation.TransGen (Step next goal) a a)
    (h : Relation.ReflTransGen (Step next goal) a b) : Relation.TransGen (Step next goal) b b := by
  induction h with
  | refl => exact hcycle
  | tail _ hstep ih =>
    obtain ⟨c, hc, hback⟩ := Relation.TransGen.head'_iff.mp ih
    obtain rfl := hc.unique hstep
    exact Relation.TransGen.tail' hback hstep

theorem not_goal_of_cycle {a b : κ} (hcycle : Relation.TransGen (Step next goal) a a)
    (h : Relation.ReflTransGen (Step next goal) a b) : ¬goal b := by
  obtain ⟨c, hc, -⟩ := Relation.TransGen.head'_iff.mp (cycle_of_reached hcycle h)
  exact hc.1

/-- Two walks to a goal meet in the same one. -/
theorem goal_unique {a b c : κ} (hb : Relation.ReflTransGen (Step next goal) a b)
    (hc : Relation.ReflTransGen (Step next goal) a c) (hgb : goal b) (hgc : goal c) : b = c := by
  have hends : ∀ {x y}, goal x → Relation.ReflTransGen (Step next goal) x y → x = y := by
    intro x y hx hxy
    rcases Relation.ReflTransGen.cases_head hxy with heq | ⟨z, hz, -⟩
    · exact heq
    · exact absurd hx hz.1
  have hunique : Relator.RightUnique (Step next goal) := fun _ _ _ h₁ h₂ => h₁.unique h₂
  rcases Relation.ReflTransGen.total_of_right_unique hunique hb hc with h | h
  · exact hends hgb h
  · exact (hends hgc h).symm

/-- A path to a goal meets a first one. -/
theorem exists_first {R : κ → κ → Prop} {a b : κ} (h : Relation.ReflTransGen R a b) (hb : goal b) :
    ∃ c, goal c ∧ Relation.ReflTransGen (fun x y => ¬goal x ∧ R x y) a c := by
  induction h using Relation.ReflTransGen.head_induction_on with
  | refl => exact ⟨b, hb, .refl⟩
  | @head x y hstep _ ih =>
    by_cases hx : goal x
    · exact ⟨x, hx, .refl⟩
    · obtain ⟨c, hc, hpath⟩ := ih
      exact ⟨c, hc, .head ⟨hx, hstep⟩ hpath⟩

/-- Steps from a node to itself lead nowhere. -/
theorem drop_self {R : κ → κ → Prop} {a b : κ} (h : Relation.ReflTransGen R a b) :
    Relation.ReflTransGen (fun x y => R x y ∧ x ≠ y) a b := by
  induction h with
  | refl => exact .refl
  | @tail x y _ hstep ih =>
    by_cases hxy : x = y
    · exact hxy ▸ ih
    · exact ih.tail ⟨hstep, hxy⟩

end Steps

variable [DecidableEq κ] (next : κ → Option κ) (goal : κ → Prop) [DecidablePred goal]

/-- Enough turns: one for each node with a successor that is not seen yet, and one more. -/
theorem follow_isSome (nodes : List κ) (hnodes : ∀ a, (next a).isSome = true → a ∈ nodes)
    (turns : ℕ) (seen : List κ) (a : κ)
    (h : (nodes.filter fun b => b ∉ seen).length < turns) :
    (follow next goal turns seen a).isSome = true := by
  induction turns generalizing seen a with
  | zero => exact absurd h (Nat.not_lt_zero _)
  | succ turns ih =>
    rw [follow]
    by_cases hgoal : goal a
    · rw [if_pos hgoal, Option.isSome_some]
    · rw [if_neg hgoal]
      cases hnext : next a with
      | none => rfl
      | some b =>
        by_cases hseen : a ∈ seen
        · simp only [if_pos hseen, Option.isSome_some]
        · simp only [if_neg hseen]
          apply ih
          -- the node of this turn is no longer among the unseen ones
          have hmem : a ∈ nodes.filter fun b => b ∉ seen :=
            List.mem_filter.mpr ⟨hnodes a (by rw [hnext]; rfl), by simpa using hseen⟩
          have hless : (nodes.filter fun b => b ∉ a :: seen).length <
              (nodes.filter fun b => b ∉ seen).length := by
            have hsplit : (nodes.filter fun b => b ∉ a :: seen) =
                (nodes.filter fun b => b ∉ seen).filter fun b => b ≠ a := by
              rw [List.filter_filter]
              exact List.filter_congr fun c _ => by simp
            rw [hsplit]
            exact List.length_filter_lt_length_iff_exists.mpr ⟨a, hmem, by simp⟩
          omega

/-- The walk only moves along steps. -/
theorem reached_of_follow {turns : ℕ} {seen : List κ} {a b : κ}
    (h : follow next goal turns seen a = some b) :
    Relation.ReflTransGen (Step next goal) a b := by
  induction turns generalizing seen a with
  | zero => exact absurd h nofun
  | succ turns ih =>
    rw [follow] at h
    by_cases hgoal : goal a
    · rw [if_pos hgoal, Option.some.injEq] at h
      exact h ▸ .refl
    · rw [if_neg hgoal] at h
      cases hnext : next a with
      | none =>
        simp only [hnext, Option.some.injEq] at h
        exact h ▸ .refl
      | some c =>
        simp only [hnext] at h
        split_ifs at h with hseen
        · exact Option.some.inj h ▸ .refl
        · exact .head ⟨hgoal, hnext⟩ (ih h)

/-- A walk that started with what it has seen does not miss a goal. -/
theorem goal_of_follow {turns : ℕ} {seen : List κ} {a b c : κ}
    (hseen : ∀ s ∈ seen, Relation.TransGen (Step next goal) s a)
    (h : follow next goal turns seen a = some b)
    (hreach : Relation.ReflTransGen (Step next goal) a c) (hc : goal c) : goal b := by
  induction turns generalizing seen a with
  | zero => exact absurd h nofun
  | succ turns ih =>
    rw [follow] at h
    by_cases hgoal : goal a
    · rw [if_pos hgoal, Option.some.injEq] at h
      exact h ▸ hgoal
    · rw [if_neg hgoal] at h
      obtain ⟨d, hd, hrest⟩ :
          ∃ d, Step next goal a d ∧ Relation.ReflTransGen (Step next goal) d c := by
        rcases Relation.ReflTransGen.cases_head hreach with heq | hhead
        · exact absurd (heq ▸ hc) hgoal
        · exact hhead
      simp only [hd.2] at h
      split_ifs at h with hmem
      · exact absurd hc (not_goal_of_cycle (hseen a hmem) hreach)
      · refine ih (fun s hs => ?_) h hrest
        rcases List.mem_cons.mp hs with rfl | hs
        · exact .single hd
        · exact (hseen s hs).tail hd

end Walk
