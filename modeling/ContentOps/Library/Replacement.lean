import Mathlib.Data.List.Basic
import Mathlib.Data.List.Infix
import Mathlib.Tactic.Common
import Mathlib.Tactic.Linarith

/-! Replacing a literal everywhere in a list, from left to right: when the occurrences replaced are
the ones that were marked. -/

namespace PyData
variable {α : Type*} [DecidableEq α]

/-- `R` puts `new` for every occurrence of `old`. -/
structure Replaces (old new : List α) (R : List α → List α) : Prop where
  nil : R [] = []
  hit : ∀ t, R (old ++ t) = new ++ R t
  miss : ∀ a t, ¬old <+: a :: t → R (a :: t) = a :: R t

/-- Two occurrences of the literal cannot overlap. -/
structure Unbordered (old : List α) : Prop where
  ne_nil : old ≠ []
  border : ∀ s, s <:+ old → s <+: old → s = [] ∨ s = old

def occurrences (old : List α) : List α → ℕ
  | [] => 0
  | a :: t => (if old <+: a :: t then 1 else 0) + occurrences old t

/-- A text in which some places are marked, with `token` at each of them. -/
def render (token : List α) (segments : List (Option α)) : List α :=
  segments.flatMap fun s => s.elim token ([·])

omit [DecidableEq α] in
@[simp] theorem render_nil (token : List α) : render token [] = [] := rfl

omit [DecidableEq α] in
@[simp] theorem render_mark (token : List α) (segments : List (Option α)) :
    render token (none :: segments) = token ++ render token segments := rfl

omit [DecidableEq α] in
@[simp] theorem render_char (token : List α) (a : α) (segments : List (Option α)) :
    render token (some a :: segments) = a :: render token segments := rfl

omit [DecidableEq α] in
theorem render_append (token : List α) (s t : List (Option α)) :
    render token (s ++ t) = render token s ++ render token t := List.flatMap_append

omit [DecidableEq α] in
@[simp] theorem render_map_some (token t : List α) : render token (t.map some) = t := by
  induction t with
  | nil => rfl
  | cons a t ih => rw [List.map_cons, render_char, ih]

section
variable {old new : List α} {R : List α → List α}

omit [DecidableEq α] in
/-- A proper end of the literal does not start with the literal, whatever follows. -/
theorem Unbordered.not_prefix (h : Unbordered old) {w : List α} (hw : w <:+ old) (hne : w ≠ [])
    (hold : w ≠ old) (t : List α) : ¬w <+: old ++ t := by
  intro hstart
  have hborder := List.prefix_of_prefix_length_le hstart (List.prefix_append old t) hw.length_le
  exact (h.border w hw hborder).elim hne hold

omit [DecidableEq α] in
theorem Unbordered.not_prefix_append (h : Unbordered old) {w : List α} (hw : w <:+ old)
    (hne : w ≠ []) (hold : w ≠ old) (t : List α) : ¬old <+: w ++ t := by
  intro hstart
  have hborder := List.prefix_of_prefix_length_le (List.prefix_append w t) hstart hw.length_le
  exact (h.border w hw hborder).elim hne hold

theorem occurrences_append (h : Unbordered old) {w : List α} (hw : w <:+ old) (hold : w ≠ old)
    (t : List α) : occurrences old (w ++ t) = occurrences old t := by
  induction w with
  | nil => rfl
  | cons a w ih =>
    have hshort : w.length < old.length := hw.length_le
    have hw' : w <:+ old := (List.suffix_cons a w).trans hw
    rw [List.cons_append, occurrences, ← List.cons_append,
      if_neg (h.not_prefix_append hw (List.cons_ne_nil a w) hold t), Nat.zero_add]
    exact ih hw' fun heq => absurd hshort (by simp [heq])

/-- The occurrences of the literal after one of its own. -/
theorem occurrences_old_append (h : Unbordered old) (t : List α) :
    occurrences old (old ++ t) = occurrences old t + 1 := by
  obtain ⟨a, w, rfl⟩ := List.exists_cons_of_ne_nil h.ne_nil
  have hproper : w ≠ a :: w := fun heq => by simpa using congrArg List.length heq
  rw [List.cons_append, occurrences, ← List.cons_append, if_pos (List.prefix_append _ t),
    occurrences_append h (List.suffix_cons a w) hproper, Nat.add_comm]

/-- From the left a text is used up in occurrences of the literal and single elements. -/
theorem replace_induction (hold : old ≠ []) {P : List α → Prop} (nil : P [])
    (hit : ∀ t, P t → P (old ++ t)) (miss : ∀ a t, ¬old <+: a :: t → P t → P (a :: t)) :
    ∀ t, P t := by
  have main : ∀ n, ∀ t : List α, t.length ≤ n → P t := by
    intro n
    induction n with
    | zero =>
      intro t ht
      obtain rfl := List.length_eq_zero_iff.mp (Nat.le_zero.mp ht)
      exact nil
    | succ n ih =>
      intro t ht
      cases t with
      | nil => exact nil
      | cons a t =>
        by_cases hstart : old <+: a :: t
        · obtain ⟨rest, hrest⟩ := hstart
          have hlength := congrArg List.length hrest
          have hpos := List.length_pos_iff.mpr hold
          rw [List.length_append, List.length_cons] at hlength
          rw [List.length_cons] at ht
          rw [← hrest]
          exact hit rest (ih rest (by omega))
        · exact miss a t hstart (ih t (Nat.le_of_succ_le_succ ht))
  exact fun t => main t.length t le_rfl

theorem Replaces.length_eq (hR : Replaces old new R) (h : Unbordered old) (t : List α) :
    (R t).length + occurrences old t * old.length = t.length + occurrences old t * new.length := by
  induction t using replace_induction h.ne_nil with
  | nil => rw [hR.nil, occurrences, Nat.zero_mul, Nat.zero_mul]
  | hit t ih =>
    rw [hR.hit, occurrences_old_append h, List.length_append, List.length_append]
    linarith
  | miss a t hstart ih =>
    rw [hR.miss a t hstart, occurrences, if_neg hstart, Nat.zero_add, List.length_cons,
      List.length_cons]
    omega

/-- A literal replaced by itself. -/
theorem Replaces.eq_self (hR : Replaces old old R) (h : Unbordered old) (t : List α) : R t = t := by
  induction t using replace_induction h.ne_nil with
  | nil => exact hR.nil
  | hit t ih => rw [hR.hit, ih]
  | miss a t hstart ih => rw [hR.miss a t hstart, ih]

/-! ## Marked occurrences -/

theorem length_render (old new : List α) (segments : List (Option α)) :
    (render new segments).length + segments.count none * old.length =
      (render old segments).length + segments.count none * new.length := by
  induction segments with
  | nil => simp
  | cons s segments ih =>
    cases s with
    | none =>
      rw [render_mark, render_mark, List.count_cons_self, List.length_append, List.length_append]
      linarith
    | some a =>
      rw [render_char, render_char, List.count_cons_of_ne (by simp), List.length_cons,
        List.length_cons]
      omega

theorem count_le_occurrences (h : Unbordered old) (segments : List (Option α)) :
    segments.count none ≤ occurrences old (render old segments) := by
  induction segments with
  | nil => exact Nat.zero_le _
  | cons s segments ih =>
    cases s with
    | none =>
      rw [render_mark, occurrences_old_append h, List.count_cons_self]
      exact Nat.succ_le_succ ih
    | some a =>
      rw [render_char, occurrences, List.count_cons_of_ne (by simp)]
      exact ih.trans (Nat.le_add_left _ _)

omit [DecidableEq α] in
/-- A proper end of the literal in a marked text is not part of a mark. -/
theorem exists_segments_of_prefix (h : Unbordered old) {w : List α} (hw : w <:+ old)
    (hold : w ≠ old) {segments : List (Option α)} (hstart : w <+: render old segments) :
    ∃ rest, segments = w.map some ++ rest := by
  induction w generalizing segments with
  | nil => exact ⟨segments, rfl⟩
  | cons b w ih =>
    cases segments with
    | nil => exact absurd hstart (by simp)
    | cons s segments =>
      cases s with
      | none => exact absurd hstart (h.not_prefix hw (List.cons_ne_nil b w) hold _)
      | some a =>
        rw [render_char, List.cons_prefix_cons] at hstart
        have hshort : w.length < old.length := hw.length_le
        obtain ⟨rest, rfl⟩ := ih ((List.suffix_cons b w).trans hw)
          (fun heq => absurd hshort (by simp [heq])) hstart.2
        exact ⟨rest, by rw [hstart.1, List.map_cons, List.cons_append]⟩

/-- Replacing the literal in a marked text replaces the marks alone, exactly when it occurs nowhere
else or is replaced by itself. -/
theorem Replaces.render_iff (hR : Replaces old new R) (h : Unbordered old)
    (segments : List (Option α)) : R (render old segments) = render new segments ↔
      new = old ∨ occurrences old (render old segments) = segments.count none := by
  constructor
  · intro heq
    induction segments with
    | nil => exact .inr rfl
    | cons s segments ih =>
      cases s with
      | none =>
        rw [render_mark, render_mark, hR.hit] at heq
        rw [render_mark, occurrences_old_append h, List.count_cons_self, Nat.add_right_cancel_iff]
        exact ih (List.append_cancel_left heq)
      | some a =>
        rw [render_char, occurrences, List.count_cons_of_ne (by simp)]
        by_cases hstart : old <+: a :: render old segments
        · -- An occurrence outside the marks: its replacement leaves the text as it was.
          left
          obtain ⟨b, w, rfl⟩ := List.exists_cons_of_ne_nil h.ne_nil
          obtain ⟨rfl, hw⟩ := List.cons_prefix_cons.mp hstart
          obtain ⟨rest, rfl⟩ := exists_segments_of_prefix h (List.suffix_cons b w)
            (fun heq => by simpa using congrArg List.length heq) hw
          have htext : ∀ token : List α, render token (some b :: (w.map some ++ rest)) =
              (b :: w) ++ render token rest := by
            intro token
            rw [render_char, render_append, render_map_some, List.cons_append]
          rw [htext, htext, hR.hit] at heq
          have hlength := congrArg List.length heq
          rw [List.length_append, List.length_append] at hlength
          have hreplaced := hR.length_eq h (render (b :: w) rest)
          have hrendered := length_render (b :: w) new rest
          have hcount := count_le_occurrences h rest
          have hsame : new.length = (b :: w).length := by
            obtain ⟨k, hk⟩ := Nat.exists_eq_add_of_le hcount
            rw [hk] at hreplaced
            refine Nat.eq_of_mul_eq_mul_left (Nat.succ_pos k) ?_
            linarith
          exact (List.append_inj heq hsame).1
        · rw [render_char, render_char, hR.miss a _ hstart] at heq
          rw [if_neg hstart, Nat.zero_add]
          exact ih (List.cons.inj heq).2
  · rintro (rfl | hcount)
    · exact hR.eq_self h _
    · induction segments with
      | nil => exact hR.nil
      | cons s segments ih =>
        cases s with
        | none =>
          rw [render_mark, occurrences_old_append h, List.count_cons_self,
            Nat.add_right_cancel_iff] at hcount
          rw [render_mark, render_mark, hR.hit, ih hcount]
        | some a =>
          rw [render_char, occurrences, List.count_cons_of_ne (by simp)] at hcount
          have hle := count_le_occurrences h segments
          split_ifs at hcount with hstart
          · omega
          · rw [Nat.zero_add] at hcount
            rw [render_char, render_char, hR.miss a _ hstart, ih hcount]

end
end PyData
