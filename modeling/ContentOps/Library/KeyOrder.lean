import ContentOps.Library.PyEq
import Mathlib.Data.List.Induction
import Mathlib.Data.List.Sort

/-! Sorting rows by their key leaves the rows of one key in their order, so the dictionary made of
the rows, in which the last row of a key stands, is the same mapping before and after. Nor does
Python's equality see the order that `sort_keys=True` writes. -/

namespace PyData

/-- Options that a relation pairs stay paired under functions that keep it. -/
theorem rel_map {α β γ δ : Type*} {r : α → β → Prop} {s : γ → δ → Prop} {f : α → γ} {g : β → δ}
    {a : Option α} {b : Option β} (h : Option.Rel r a b)
    (hmap : ∀ x y, a = some x → r x y → s (f x) (g y)) : Option.Rel s (a.map f) (b.map g) := by
  cases h with
  | none => exact .none
  | some h => exact .some (hmap _ _ rfl h)

/-- Rows that the order does not tell apart stay in their order. -/
theorem filter_insertionSort {α : Type*} {r : α → α → Prop} [DecidableRel r] [Std.Total r]
    [IsTrans α r] {p : α → Bool} {l : List α}
    (h : ∀ a ∈ l, p a = true → ∀ b ∈ l, p b = true → r a b) :
    (l.insertionSort r).filter p = l.filter p := by
  have hpairwise : (l.filter p).Pairwise r := by
    refine List.Pairwise.imp_of_mem ?_ (List.pairwise_of_forall fun _ _ => trivial)
    intro a b ha hb _
    obtain ⟨ha, hpa⟩ := List.mem_filter.mp ha
    obtain ⟨hb, hpb⟩ := List.mem_filter.mp hb
    exact h a ha hpa b hb hpb
  have hsub : List.Sublist ((l.filter p).filter p) ((l.insertionSort r).filter p) :=
    (List.sublist_insertionSort hpairwise List.filter_sublist).filter p
  rw [List.filter_filter] at hsub
  simp only [Bool.and_self] at hsub
  refine (hsub.eq_of_length ?_).symm
  exact (((List.perm_insertionSort r l).filter p).length_eq).symm

namespace Dict
variable {κ α : Type*} [DecidableEq κ]

/-- `dict(pairs)` holds the last value of each key. -/
theorem get?_ofPairs (ps : List (κ × α)) (k : κ) :
    (ofPairs ps).get? k = ((ps.filter fun p => p.1 = k).getLast?).map Prod.snd := by
  induction ps using List.reverseRecOn with
  | nil => rfl
  | append_singleton ps p ih =>
    have hset : ofPairs (ps ++ [p]) = (ofPairs ps).set p.1 p.2 := by
      simp [ofPairs, List.foldl_append]
    rw [hset, get?_set, List.filter_append]
    by_cases hk : p.1 = k
    · simp [hk]
    · simp [hk, ih]

/-- Sorting the pairs by their keys does not change the mapping. -/
theorem get?_ofPairs_insertionSort {ι : Type*} [LinearOrder κ] (key : ι → κ) (value : ι → α)
    (rows : List ι) (k : κ) :
    (ofPairs ((rows.insertionSort fun a b => key a ≤ key b).map fun a => (key a, value a))).get? k =
      (ofPairs (rows.map fun a => (key a, value a))).get? k := by
  have hfilter : ∀ rows : List ι, (rows.map fun a => (key a, value a)).filter (fun p => p.1 = k) =
      (rows.filter fun a => key a = k).map fun a => (key a, value a) := by
    intro rows
    rw [List.filter_map]
    rfl
  rw [get?_ofPairs, get?_ofPairs, hfilter, hfilter, filter_insertionSort]
  intro a _ ha b _ hb
  exact le_of_eq ((of_decide_eq_true ha).trans (of_decide_eq_true hb).symm)

end Dict

namespace Value
variable {X : Type}

theorem wfList_iff {vs : List (Value X)} : WFList vs ↔ ∀ v ∈ vs, v.WF := by
  induction vs with
  | nil => simp [WFList]
  | cons v vs ih => simp [WFList, ih]

theorem sortKeysItems_eq_map (vs : List (Value X)) : sortKeysItems vs = vs.map sortKeys := by
  induction vs with
  | nil => rfl
  | cons v vs ih => rw [sortKeysItems, ih, List.map_cons]

variable [ScalarEq X]

/-- The order of its keys does not change what a dictionary equals. -/
theorem pyEq_of_perm {d e : List (String × Value X)} (h : d.Perm e) (v : Value X) :
    pyEq (.dict d) v = pyEq (.dict e) v := by
  cases v with
  | dict f =>
    rw [Bool.eq_iff_iff, pyEq_dict_iff, pyEq_dict_iff, h.length_eq]
    simp only [h.mem_iff]
  | _ => simp [pyEq]

/-- What equals a dictionary of texts holds the same texts. -/
theorem perm_of_pyEq_texts {d : List (String × Value X)} {t : Dict String String}
    (hd : (Dict.keys d).Nodup) (h : pyEq (.dict d) (.dict (t.mapVals .str)) = true) :
    List.Perm d (t.mapVals .str) := by
  obtain ⟨hlength, hentries⟩ := pyEq_dict_iff.mp h
  refine (List.subperm_of_subset (List.Nodup.of_map _ hd) fun p hp => ?_).perm_of_length_le
    hlength.ge
  obtain ⟨w, hget, heq⟩ := hentries p hp
  obtain ⟨⟨k, s⟩, hs, hpair⟩ := List.mem_map.mp (Dict.mem_of_get? hget)
  obtain ⟨rfl, rfl⟩ := Prod.mk.inj hpair
  have hvalue : p.2 = .str s := eq_str_of_pyEq heq
  exact List.mem_map.mpr ⟨(p.1, s), hs, by rw [← hvalue]⟩

mutual

/-- Nor does the order that `sort_keys=True` writes. -/
theorem pyEq_sortKeys : (v : Value X) → v.WF → (w : Value X) → pyEq v.sortKeys w = pyEq v w
  | .dict d, h, w => by
    rw [sortKeys_dict]
    cases w with
    | dict e =>
      rw [Bool.eq_iff_iff, pyEq_dict_iff, pyEq_dict_iff, Dict.mapVals, List.length_map,
        Dict.sortByKey, List.length_insertionSort, List.forall_mem_map]
      refine and_congr_right fun _ => forall_congr' fun p => ?_
      have hmem : p ∈ Dict.sortByKey d ↔ p ∈ d := (Dict.sortByKey_perm d).mem_iff
      refine (imp_congr_left hmem).trans (imp_congr_right fun hp => ?_)
      simp only [pyEqEntries_sortKeys d h.2 p hp]
    | _ => simp [pyEq]
  | .list vs, h, w => by
    rw [sortKeys]
    cases w with
    | list ws =>
      rw [pyEq, pyEq]
      exact pyEqItems_sortKeys vs h ws
    | _ => simp [pyEq]
  | .scalar _, _, _ | .null, _, _ | .bool _, _, _ | .int _, _, _ | .str _, _, _ => by rw [sortKeys]

theorem pyEqItems_sortKeys : (vs : List (Value X)) → WFList vs → (ws : List (Value X)) →
    pyEqItems (sortKeysItems vs) ws = pyEqItems vs ws
  | [], _, _ => by rw [sortKeysItems]
  | v :: vs, h, ws => by
    rw [sortKeysItems]
    cases ws with
    | nil => simp [pyEqItems]
    | cons w ws =>
      rw [pyEqItems, pyEqItems, pyEq_sortKeys v h.1, pyEqItems_sortKeys vs h.2]

theorem pyEqEntries_sortKeys : (d : List (String × Value X)) → WFDict d → ∀ p ∈ d,
    ∀ w : Value X, pyEq p.2.sortKeys w = pyEq p.2 w
  | [], _ => by simp
  | (_, v) :: d, h => List.forall_mem_cons.mpr ⟨pyEq_sortKeys v h.1, pyEqEntries_sortKeys d h.2⟩

end

end Value
end PyData
