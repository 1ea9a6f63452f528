import ContentOps.Library.Value

/-! Python's `==` on plain data: what it says of two dictionaries, and its symmetry. -/

namespace PyData.Value
variable {X : Type} [ScalarEq X]

theorem pyEqEntries_iff {d : List (String × Value X)} {e : Dict String (Value X)} :
    pyEqEntries d e = true ↔ ∀ p ∈ d, ∃ w, e.get? p.1 = some w ∧ pyEq p.2 w = true := by
  induction d with
  | nil => simp [pyEqEntries]
  | cons p d ih =>
    obtain ⟨k, v⟩ := p
    rw [pyEqEntries, Bool.and_eq_true, ih, List.forall_mem_cons]
    refine and_congr_left fun _ => ?_
    cases e.get? k with
    | none => simp
    | some w => simp

theorem pyEq_dict_iff {d e : List (String × Value X)} :
    pyEq (.dict d) (.dict e) = true ↔
      d.length = e.length ∧ ∀ p ∈ d, ∃ w, Dict.get? e p.1 = some w ∧ pyEq p.2 w = true := by
  rw [pyEq, Bool.and_eq_true, decide_eq_true_iff, pyEqEntries_iff]

/-- Equal dictionaries have the same keys. -/
theorem perm_keys_of_pyEq {d e : List (String × Value X)} (hd : (Dict.keys d).Nodup)
    (h : pyEq (.dict d) (.dict e) = true) : List.Perm (Dict.keys d) (Dict.keys e) := by
  obtain ⟨hlength, hentries⟩ := pyEq_dict_iff.mp h
  refine (List.subperm_of_subset hd fun k hk => ?_).perm_of_length_le ?_
  · obtain ⟨p, hp, rfl⟩ := List.mem_map.mp hk
    obtain ⟨w, hw, -⟩ := hentries p hp
    exact List.mem_map.mpr ⟨(p.1, w), Dict.mem_of_get? hw, rfl⟩
  · simp [Dict.keys, hlength]

mutual

theorem pyEq_symm (hscalar : ∀ x y : X, ScalarEq.eq x y = true → ScalarEq.eq y x = true) :
    (v w : Value X) → v.WF → w.WF → pyEq v w = true → pyEq w v = true
  | .dict d, w, hv, hw, h => by
    cases w with
    | dict e =>
      obtain ⟨hd, hvals⟩ := wf_dict_iff.mp hv
      obtain ⟨he, hvals'⟩ := wf_dict_iff.mp hw
      obtain ⟨hlength, hentries⟩ := pyEq_dict_iff.mp h
      refine pyEq_dict_iff.mpr ⟨hlength.symm, fun q hq => ?_⟩
      have hkey : q.1 ∈ Dict.keys d :=
        (perm_keys_of_pyEq hd h).mem_iff.mpr (List.mem_map_of_mem hq)
      obtain ⟨p, hp, hpq⟩ := List.mem_map.mp hkey
      obtain ⟨w, hw, heq⟩ := hentries p hp
      rw [hpq, Dict.get?_of_mem he hq] at hw
      obtain rfl := Option.some.inj hw
      refine ⟨p.2, hpq ▸ Dict.get?_of_mem hd hp, ?_⟩
      exact pyEqEntries_symm hscalar d p hp q.2 (hvals p hp) (hvals' q hq) heq
    | _ => exact absurd h (by simp [pyEq])
  | .list vs, w, hv, hw, h => by
    cases w with
    | list ws =>
      rw [pyEq] at h ⊢
      exact pyEqItems_symm hscalar vs ws hv hw h
    | _ => exact absurd h (by simp [pyEq])
  | .scalar x, w, _, _, h => by
    cases w with
    | scalar y =>
      rw [pyEq] at h ⊢
      exact hscalar x y h
    | _ => simp_all [pyEq]
  | .null, w, _, _, h | .bool _, w, _, _, h | .int _, w, _, _, h | .str _, w, _, _, h => by
    cases w <;> simp_all [pyEq]

theorem pyEqItems_symm (hscalar : ∀ x y : X, ScalarEq.eq x y = true → ScalarEq.eq y x = true) :
    (vs ws : List (Value X)) → WFList vs → WFList ws → pyEqItems vs ws = true →
      pyEqItems ws vs = true
  | [], ws, _, _, h => by
    cases ws with
    | nil => exact h
    | cons w ws => exact absurd h (by simp [pyEqItems])
  | v :: vs, ws, hv, hw, h => by
    cases ws with
    | nil => exact absurd h (by simp [pyEqItems])
    | cons w ws =>
      rw [pyEqItems, Bool.and_eq_true] at h ⊢
      exact ⟨pyEq_symm hscalar v w hv.1 hw.1 h.1, pyEqItems_symm hscalar vs ws hv.2 hw.2 h.2⟩

theorem pyEqEntries_symm (hscalar : ∀ x y : X, ScalarEq.eq x y = true → ScalarEq.eq y x = true) :
    (d : List (String × Value X)) → ∀ p ∈ d, ∀ w : Value X, p.2.WF → w.WF →
      pyEq p.2 w = true → pyEq w p.2 = true
  | [], _, hp => absurd hp List.not_mem_nil
  | (_, v) :: d, p, hp => fun w hv hw h => by
    rcases List.mem_cons.mp hp with rfl | hp
    · exact pyEq_symm hscalar v w hv hw h
    · exact pyEqEntries_symm hscalar d p hp w hv hw h

end

end PyData.Value
