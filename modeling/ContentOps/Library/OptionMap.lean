import Mathlib.Data.List.Basic

/-! Mapping a function that may fail over a list: it goes through where the function does so on
every element, and then nothing is left out. -/

namespace PyData
variable {α β : Type*} {f : α → Option β} {xs : List α} {ys : List β}

theorem mapM_eq_some_iff :
    xs.mapM f = some ys ↔ (∀ x ∈ xs, (f x).isSome = true) ∧ ys = xs.filterMap f := by
  induction xs generalizing ys with
  | nil =>
    refine ⟨fun h => ⟨fun x hx => absurd hx List.not_mem_nil, (Option.some.inj h).symm⟩, ?_⟩
    exact fun h => congrArg some h.2.symm
  | cons x xs ih =>
    rw [List.mapM_cons]
    cases hx : f x with
    | none => simp [hx]
    | some y =>
      rw [List.filterMap_cons_some hx, List.forall_mem_cons, hx]
      cases hxs : xs.mapM f with
      | none =>
        have hnot : ¬ ∀ x ∈ xs, (f x).isSome = true := fun h => by
          simpa [hxs] using ih.mpr ⟨h, rfl⟩
        simp [hnot]
      | some zs =>
        obtain ⟨hall, rfl⟩ := ih.mp hxs
        refine ⟨fun h => ⟨⟨rfl, hall⟩, (Option.some.inj h).symm⟩, fun h => ?_⟩
        exact congrArg some h.2.symm

theorem isSome_mapM_iff : (xs.mapM f).isSome = true ↔ ∀ x ∈ xs, (f x).isSome = true := by
  constructor
  · intro h
    obtain ⟨ys, hys⟩ := Option.isSome_iff_exists.mp h
    exact (mapM_eq_some_iff.mp hys).1
  · intro h
    rw [mapM_eq_some_iff.mpr ⟨h, rfl⟩, Option.isSome_some]

theorem mem_of_mapM (h : xs.mapM f = some ys) {x : α} (hx : x ∈ xs) :
    ∃ y ∈ ys, f x = some y := by
  obtain ⟨hall, rfl⟩ := mapM_eq_some_iff.mp h
  obtain ⟨y, hy⟩ := Option.isSome_iff_exists.mp (hall x hx)
  exact ⟨y, List.mem_filterMap.mpr ⟨x, hx, hy⟩, hy⟩

theorem mem_iff_of_mapM (h : xs.mapM f = some ys) {y : β} : y ∈ ys ↔ ∃ x ∈ xs, f x = some y := by
  obtain ⟨-, rfl⟩ := mapM_eq_some_iff.mp h
  exact List.mem_filterMap

theorem mapM_congr {g : α → Option β} (h : ∀ x ∈ xs, f x = g x) : xs.mapM f = xs.mapM g := by
  induction xs with
  | nil => rfl
  | cons x xs ih =>
    obtain ⟨hx, hxs⟩ := List.forall_mem_cons.mp h
    rw [List.mapM_cons, List.mapM_cons, hx, ih hxs]

theorem mapM_eq_map {g : α → β} (h : ∀ x ∈ xs, f x = some (g x)) : xs.mapM f = some (xs.map g) := by
  refine mapM_eq_some_iff.mpr ⟨fun x hx => by rw [h x hx]; rfl, ?_⟩
  rw [← List.filterMap_eq_map]
  exact (List.filterMap_congr h).symm

/-- What came out is the image under any function that agrees where the other one succeeds. -/
theorem eq_map_of_mapM {g : α → β} (h : xs.mapM f = some ys)
    (hg : ∀ x ∈ xs, ∀ y, f x = some y → y = g x) : ys = xs.map g := by
  obtain ⟨hall, rfl⟩ := mapM_eq_some_iff.mp h
  rw [← List.filterMap_eq_map]
  refine List.filterMap_congr fun x hx => ?_
  obtain ⟨y, hy⟩ := Option.isSome_iff_exists.mp (hall x hx)
  rw [hy, hg x hx y hy, Function.comp_apply]

end PyData
