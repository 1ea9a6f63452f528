import Mathlib.Tactic.Common

/-! Processes that share a state and take their steps in any order. -/

namespace Interleaving
variable {P S : Type*} (step : P → S → S)

/-- The state after the steps of a schedule. -/
def run (s : S) (schedule : List P) : S := schedule.foldl (fun s p => step p s) s

/-- Every step of the schedule is taken in a state that meets `guard`. -/
def Along (guard : P → S → Prop) : S → List P → Prop
  | _, [] => True
  | s, p :: ps => guard p s ∧ Along guard (step p s) ps

theorem run_append (s : S) (ps qs : List P) : run step s (ps ++ qs) = run step (run step s ps) qs :=
  List.foldl_append

variable {step}

theorem Along.and {g g' : P → S → Prop} {s : S} {schedule : List P} (h : Along step g s schedule)
    (h' : Along step g' s schedule) : Along step (fun p s => g p s ∧ g' p s) s schedule := by
  induction schedule generalizing s with
  | nil => trivial
  | cons p ps ih => exact ⟨⟨h.1, h'.1⟩, ih h.2 h'.2⟩

instance decidableAlong (guard : P → S → Prop) [∀ p s, Decidable (guard p s)] :
    ∀ (s : S) (schedule : List P), Decidable (Along step guard s schedule)
  | _, [] => isTrue trivial
  | s, p :: ps =>
    haveI := decidableAlong guard (step p s) ps
    inferInstanceAs (Decidable (guard p s ∧ Along step guard (step p s) ps))

/-- What every guarded step preserves holds after every guarded run. -/
theorem run_invariant {guard : P → S → Prop} (inv : S → Prop)
    (hstep : ∀ p s, inv s → guard p s → inv (step p s)) {s : S} {schedule : List P}
    (hs : inv s) (hg : Along step guard s schedule) : inv (run step s schedule) := by
  induction schedule generalizing s with
  | nil => exact hs
  | cons p ps ih => exact ih (hstep p s hs hg.1) hg.2

/-- What every step preserves holds after every run. -/
theorem run_invariant_of_step (inv : S → Prop) (hstep : ∀ p s, inv s → inv (step p s)) {s : S}
    (hs : inv s) (schedule : List P) : inv (run step s schedule) := by
  induction schedule generalizing s with
  | nil => exact hs
  | cons p ps ih => exact ih (hstep p s hs)

end Interleaving
