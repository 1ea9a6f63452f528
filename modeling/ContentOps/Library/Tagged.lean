import Mathlib.Data.List.Count
import Mathlib.Data.List.Perm.Basic
import Mathlib.Tactic.Common

/-! Lists of names with values, of which some names are taken out and put back, and values that are
joined by a separator. -/

namespace PyData

section
variable {κ α : Type*} [DecidableEq κ]

/-- The values that a name has, in their order. -/
def valuesAt (tags : List (κ × α)) (name : κ) : List α :=
  (tags.filter fun tag => tag.1 = name).map Prod.snd

theorem valuesAt_cons (tag : κ × α) (tags : List (κ × α)) (name : κ) :
    valuesAt (tag :: tags) name =
      if tag.1 = name then tag.2 :: valuesAt tags name else valuesAt tags name := by
  unfold valuesAt
  split_ifs with h
  · rw [List.filter_cons_of_pos (by simpa using h), List.map_cons]
  · rw [List.filter_cons_of_neg (by simpa using h)]

theorem valuesAt_append (a b : List (κ × α)) (name : κ) :
    valuesAt (a ++ b) name = valuesAt a name ++ valuesAt b name := by
  rw [valuesAt, List.filter_append, List.map_append]
  rfl

theorem count_valuesAt [DecidableEq α] (tags : List (κ × α)) (name : κ) (v : α) :
    (valuesAt tags name).count v = tags.count (name, v) := by
  induction tags with
  | nil => rfl
  | cons tag tags ih =>
    obtain ⟨k, w⟩ := tag
    rw [valuesAt_cons, List.count_cons]
    by_cases hk : k = name
    · subst hk
      rw [if_pos rfl, List.count_cons, ih]
      congr 1
      simp
    · rw [if_neg hk, ih]
      simp [hk]

/-- Two lists have the same items when each name has the same values in both. -/
theorem perm_iff_valuesAt {a b : List (κ × α)} :
    a.Perm b ↔ ∀ name, (valuesAt a name).Perm (valuesAt b name) := by
  classical
  constructor
  · intro h name
    exact (h.filter _).map _
  · intro h
    rw [List.perm_iff_count]
    rintro ⟨name, v⟩
    rw [← count_valuesAt, ← count_valuesAt]
    exact (h name).count_eq v

/-- The names that `found` knows a value of, in the order of `names`. -/
def named (found : κ → Option α) (names : List κ) : List (κ × α) :=
  names.filterMap fun name => (found name).map fun v => (name, v)

omit [DecidableEq κ] in
theorem named_nil (found : κ → Option α) : named found [] = [] := rfl

omit [DecidableEq κ] in
theorem named_cons (found : κ → Option α) (n : κ) (names : List κ) :
    named found (n :: names) = ((found n).map fun v => (n, v)).toList ++ named found names := by
  cases hf : found n <;> simp [named, hf]

theorem valuesAt_named {found : κ → Option α} {names : List κ} (hnames : names.Nodup) (name : κ) :
    valuesAt (named found names) name = if name ∈ names then (found name).toList else [] := by
  induction names with
  | nil => rfl
  | cons n names ih =>
    obtain ⟨hn, hrest⟩ := List.nodup_cons.mp hnames
    have htail := ih hrest
    rw [named_cons, valuesAt_append, htail]
    by_cases heq : n = name
    · subst heq
      rw [if_neg hn, if_pos List.mem_cons_self, List.append_nil]
      cases found n with
      | none => rfl
      | some v => simp [valuesAt]
    · have hhead : valuesAt ((found n).map fun v => (n, v)).toList name = [] := by
        cases found n with
        | none => rfl
        | some v => simp [valuesAt, heq]
      rw [hhead, List.nil_append]
      simp [List.mem_cons, Ne.symm heq]

/-- The last value of each of the names, as `again` writes it, before what has another name. -/
def putBack (again : κ → α → Option α) (names : List κ) (tags : List (κ × α)) : List (κ × α) :=
  named (fun name => (valuesAt tags name).getLast?.bind (again name)) names ++
    tags.filter fun tag => tag.1 ∉ names

/-- The name has no value, or one that is written as it was. -/
def KeptAt (again : κ → α → Option α) (tags : List (κ × α)) (name : κ) : Prop :=
  valuesAt tags name = [] ∨ ∃ v, valuesAt tags name = [v] ∧ again name v = some v

theorem valuesAt_others {names : List κ} {tags : List (κ × α)} (name : κ) :
    valuesAt (tags.filter fun tag => tag.1 ∉ names) name =
      if name ∈ names then [] else valuesAt tags name := by
  unfold valuesAt
  rw [List.filter_filter]
  split_ifs with hmem
  · have hnone : (tags.filter fun tag => decide (tag.1 = name) && decide (tag.1 ∉ names)) = [] := by
      refine List.filter_eq_nil_iff.mpr fun tag _ hboth => ?_
      obtain ⟨rfl, hnot⟩ : tag.1 = name ∧ tag.1 ∉ names := by simpa using hboth
      exact hnot hmem
    rw [hnone, List.map_nil]
  · congr 1
    refine List.filter_congr fun tag _ => ?_
    by_cases heq : tag.1 = name
    · simp [heq, hmem]
    · simp [heq]

theorem perm_last_iff {again : α → Option α} {values : List α} :
    (values.getLast?.bind again).toList.Perm values ↔
      values = [] ∨ ∃ v, values = [v] ∧ again v = some v := by
  match values with
  | [] => simp
  | [v] =>
    rw [List.getLast?_singleton, Option.bind_some]
    cases hv : again v with
    | none => simp [hv]
    | some w => simp [hv]
  | v :: w :: rest =>
    have hshort : ((v :: w :: rest).getLast?.bind again).toList.length ≤ 1 := by
      cases (v :: w :: rest).getLast?.bind again <;> simp
    constructor
    · intro hperm
      have hlen := hperm.length_eq
      simp only [List.length_cons] at hlen
      omega
    · rintro (h | ⟨_, h, -⟩)
      · exact absurd h (List.cons_ne_nil _ _)
      · exact absurd (List.cons.inj h).2 (List.cons_ne_nil _ _)

/-- Nothing is lost when each name has at most one value, and one that is written as it was. -/
theorem perm_putBack_iff {again : κ → α → Option α} {names : List κ} (hnames : names.Nodup)
    (tags : List (κ × α)) :
    (putBack again names tags).Perm tags ↔ ∀ name ∈ names, KeptAt again tags name := by
  rw [perm_iff_valuesAt]
  refine forall_congr' fun name => ?_
  rw [putBack, valuesAt_append, valuesAt_named hnames, valuesAt_others]
  split_ifs with hmem
  · rw [List.append_nil, perm_last_iff, KeptAt]
    exact ⟨fun h _ => h, fun h => h hmem⟩
  · exact iff_of_true (List.Perm.refl _) fun h => absurd h hmem

end

/-! ## Joined values -/

theorem notMem_of_mem_splitOn {sep : Char} {t l : List Char} (h : l ∈ t.splitOn sep) : sep ∉ l := by
  induction t generalizing l with
  | nil =>
    obtain rfl := List.mem_singleton.mp h
    simp
  | cons c t ih =>
    rw [List.splitOn_cons_eq_if_modifyHead] at h
    split_ifs at h with hc
    · rcases List.mem_cons.mp h with rfl | h
      · simp
      · exact ih h
    · cases hsplit : t.splitOn sep with
      | nil => exact absurd hsplit (List.splitOn_ne_nil sep t)
      | cons first rest =>
        rw [hsplit] at h ih
        rcases List.mem_cons.mp h with rfl | h
        · have hfirst := ih List.mem_cons_self
          intro hmem
          rcases List.mem_cons.mp hmem with rfl | hmem
          · exact hc (by simp)
          · exact hfirst hmem
        · exact ih (List.mem_cons_of_mem _ h)

/-- A text is joined again from its pieces without the empty ones only when none is empty. -/
theorem intercalate_filter_splitOn_iff {sep : Char} {t : List Char} :
    ((t.splitOn sep).filter (· ≠ []) ≠ [] ∧
      [sep].intercalate ((t.splitOn sep).filter (· ≠ [])) = t) ↔ ∀ piece ∈ t.splitOn sep, piece ≠ [] := by
  constructor
  · rintro ⟨hne, hjoin⟩ piece hpiece
    have hseps : ∀ l ∈ (t.splitOn sep).filter (· ≠ []), sep ∉ l := fun l hl =>
      notMem_of_mem_splitOn (List.mem_of_mem_filter hl)
    have hsplit := List.splitOn_intercalate sep hseps hne
    rw [hjoin] at hsplit
    rw [hsplit] at hpiece
    simpa using (List.mem_filter.mp hpiece).2
  · intro hall
    have hself : (t.splitOn sep).filter (· ≠ []) = t.splitOn sep :=
      List.filter_eq_self.mpr fun piece hpiece => decide_eq_true (hall piece hpiece)
    rw [hself]
    exact ⟨List.splitOn_ne_nil sep t, List.intercalate_splitOn sep⟩

end PyData
