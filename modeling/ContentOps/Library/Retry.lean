import Mathlib.Logic.Function.Iterate
import Mathlib.Data.List.Basic

/-! Repeating an action until its outcome is final or no repetition is left, with a pause before
each repetition. The pause may fail, and then its failure is what the caller sees. -/

namespace Retry

inductive Ended (O : Type*) where
  | outcome (o : O)
  | pauseFailed
deriving DecidableEq

/-- The outcomes in their order, what the caller sees, and the state afterwards. -/
structure Ran (S O : Type*) where
  outcomes : List O
  ended : Ended O
  state : S

variable {S O : Type*} (again : O → Bool) (pause : ℕ → O → Bool) (act : S → O × S)

/-- `left` is the number of repetitions that remain, `attempts` that of those before. -/
def run : ℕ → ℕ → S → Ran S O
  | 0, _, s => ⟨[(act s).1], .outcome (act s).1, (act s).2⟩
  | left + 1, attempts, s =>
    if again (act s).1 then
      if pause (attempts + 1) (act s).1 then
        let rest := run left (attempts + 1) (act s).2
        { rest with outcomes := (act s).1 :: rest.outcomes }
      else ⟨[(act s).1], .pauseFailed, (act s).2⟩
    else ⟨[(act s).1], .outcome (act s).1, (act s).2⟩

/-- The outcome of the action when it is done for the `i`-th time. -/
def outcomeAt (s : S) (i : ℕ) : O := (act ((fun t => (act t).2)^[i] s)).1

/-- No pause of a run fails. -/
def PausesGo (left attempts : ℕ) (s : S) : Prop :=
  ∀ i < left, (∀ j ≤ i, again (outcomeAt act s j) = true) →
    pause (attempts + i + 1) (outcomeAt act s i) = true

variable {again pause act}

theorem outcomeAt_succ (s : S) (i : ℕ) :
    outcomeAt act s (i + 1) = outcomeAt act (act s).2 i := by
  rw [outcomeAt, outcomeAt, Function.iterate_succ_apply]

theorem length_run (left attempts : ℕ) (s : S) :
    (run again pause act left attempts s).outcomes.length ≤ left + 1 ∧
      0 < (run again pause act left attempts s).outcomes.length := by
  induction left generalizing attempts s with
  | zero => simp [run]
  | succ left ih =>
    rw [run]
    split_ifs
    · have hrest := ih (attempts + 1) (act s).2
      dsimp only
      rw [List.length_cons]
      omega
    · simp
    · simp

theorem pausesGo_zero (attempts : ℕ) (s : S) : PausesGo again pause act 0 attempts s :=
  fun _ hi => absurd hi (Nat.not_lt_zero _)

/-- A run that repeats goes on as the run after it does. -/
theorem pausesGo_succ_iff {left attempts : ℕ} {s : S} (hagain : again (act s).1 = true)
    (hpause : pause (attempts + 1) (act s).1 = true) :
    PausesGo again pause act (left + 1) attempts s ↔
      PausesGo again pause act left (attempts + 1) (act s).2 := by
  constructor
  · intro h i hi hall
    have hnext := h (i + 1) (by omega) (by
      intro j hj
      cases j with
      | zero => exact hagain
      | succ j =>
        rw [outcomeAt_succ]
        exact hall j (by omega))
    rw [outcomeAt_succ] at hnext
    rwa [show attempts + 1 + i + 1 = attempts + (i + 1) + 1 by omega]
  · intro h i hi hall
    cases i with
    | zero => exact hpause
    | succ i =>
      have hnext := h i (by omega) fun j hj => by
        have hj' := hall (j + 1) (by omega)
        rwa [outcomeAt_succ] at hj'
      rw [outcomeAt_succ]
      rwa [show attempts + (i + 1) + 1 = attempts + 1 + i + 1 by omega]

/-- The caller sees the last outcome exactly when no pause fails. -/
theorem ended_run_iff (left attempts : ℕ) (s : S) :
    (run again pause act left attempts s).outcomes.getLast?.map .outcome =
        some (run again pause act left attempts s).ended ↔
      PausesGo again pause act left attempts s := by
  induction left generalizing attempts s with
  | zero => simp [run, pausesGo_zero]
  | succ left ih =>
    rw [run]
    split_ifs with hagain hpause
    · rw [pausesGo_succ_iff hagain hpause, ← ih]
      have hne : (run again pause act left (attempts + 1) (act s).2).outcomes ≠ [] :=
        List.length_pos_iff.mp (length_run _ _ _).2
      dsimp only
      rw [List.getLast?_cons]
      cases hlast : (run again pause act left (attempts + 1) (act s).2).outcomes.getLast? with
      | none => exact absurd (List.getLast?_eq_none_iff.mp hlast) hne
      | some o => rfl
    · -- the pause fails: no outcome is seen
      constructor
      · exact fun h => absurd h (by simp)
      · intro h
        have hzero := h 0 (by omega) fun j hj => by rwa [Nat.le_zero.mp hj]
        exact absurd hzero hpause
    · constructor
      · intro _ i _ hall
        exact absurd (hall 0 (Nat.zero_le i)) hagain
      · exact fun _ => rfl

/-- A count that an action raises by one at most, and not at all where it is repeated. -/
theorem run_count_le {count : S → ℕ} (hact : ∀ s, count (act s).2 ≤ count s + 1)
    (hagain : ∀ s, again (act s).1 = true → count (act s).2 = count s) (left attempts : ℕ) (s : S) :
    count (run again pause act left attempts s).state ≤ count s + 1 := by
  induction left generalizing attempts s with
  | zero => exact hact s
  | succ left ih =>
    rw [run]
    split_ifs with h
    · have hrest := ih (attempts + 1) (act s).2
      rwa [hagain s h] at hrest
    · exact hact s
    · exact hact s

end Retry
