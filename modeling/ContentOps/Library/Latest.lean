import ContentOps.Library.Dict

/-! The latest item for each key, where among items of one rank the first one stands. -/

namespace PyData
variable {κ α γ : Type*} [LinearOrder γ] (rank : α → γ)

def keepLatest (best : Option α) (a : α) : Option α :=
  match best with
  | none => some a
  | some b => if rank b < rank a then some a else some b

/-- The first of the items of the greatest rank. -/
def latest (items : List α) : Option α := items.foldl (keepLatest rank) none

theorem foldl_keepLatest (b : α) (items : List α) :
    ∃ a, items.foldl (keepLatest rank) (some b) = some a ∧
      ((a = b ∧ ∀ c ∈ items, rank c ≤ rank b) ∨
        ∃ earlier later, items = earlier ++ a :: later ∧ rank b < rank a ∧
          (∀ c ∈ earlier, rank c < rank a) ∧ ∀ c ∈ later, rank c ≤ rank a) := by
  induction items generalizing b with
  | nil => exact ⟨b, rfl, .inl ⟨rfl, fun c hc => absurd hc List.not_mem_nil⟩⟩
  | cons c items ih =>
    rw [List.foldl_cons]
    by_cases hlt : rank b < rank c
    · have hstep : keepLatest rank (some b) c = some c := if_pos hlt
      rw [hstep]
      obtain ⟨a, ha, hcase⟩ := ih c
      refine ⟨a, ha, .inr ?_⟩
      rcases hcase with ⟨rfl, hle⟩ | ⟨earlier, later, rfl, hca, hearlier, hlater⟩
      · exact ⟨[], items, rfl, hlt, fun d hd => absurd hd List.not_mem_nil, hle⟩
      · refine ⟨c :: earlier, later, rfl, hlt.trans hca, fun d hd => ?_, hlater⟩
        rcases List.mem_cons.mp hd with rfl | hd
        · exact hca
        · exact hearlier d hd
    · have hstep : keepLatest rank (some b) c = some b := if_neg hlt
      rw [hstep]
      obtain ⟨a, ha, hcase⟩ := ih b
      refine ⟨a, ha, ?_⟩
      rcases hcase with ⟨rfl, hle⟩ | ⟨earlier, later, rfl, hba, hearlier, hlater⟩
      · refine .inl ⟨rfl, fun d hd => ?_⟩
        rcases List.mem_cons.mp hd with rfl | hd
        · exact not_lt.mp hlt
        · exact hle d hd
      · refine .inr ⟨c :: earlier, later, rfl, hba, fun d hd => ?_, hlater⟩
        rcases List.mem_cons.mp hd with rfl | hd
        · exact (not_lt.mp hlt).trans_lt hba
        · exact hearlier d hd

variable {rank} {items : List α} {a : α}

theorem latest_eq_none_iff : latest rank items = none ↔ items = [] := by
  cases items with
  | nil => exact iff_of_true rfl rfl
  | cons b items =>
    obtain ⟨a, ha, -⟩ := foldl_keepLatest rank b items
    refine iff_of_false (fun h => ?_) (List.cons_ne_nil b items)
    exact absurd (ha.symm.trans h) (Option.some_ne_none a)

/-- Everything before the latest item has a smaller rank and nothing after it a greater one. -/
theorem latest_eq_some_iff : latest rank items = some a ↔
    ∃ earlier later, items = earlier ++ a :: later ∧ (∀ c ∈ earlier, rank c < rank a) ∧
      ∀ c ∈ later, rank c ≤ rank a := by
  have hsplit : ∀ {items : List α} {a : α}, latest rank items = some a →
      ∃ earlier later, items = earlier ++ a :: later ∧ (∀ c ∈ earlier, rank c < rank a) ∧
        ∀ c ∈ later, rank c ≤ rank a := by
    intro items a h
    cases items with
    | nil => exact absurd h.symm (Option.some_ne_none a)
    | cons b items =>
      obtain ⟨a', ha', hcase⟩ := foldl_keepLatest rank b items
      obtain rfl := Option.some.inj (ha'.symm.trans h)
      rcases hcase with ⟨rfl, hle⟩ | ⟨earlier, later, rfl, hba, hearlier, hlater⟩
      · exact ⟨[], items, rfl, fun c hc => absurd hc List.not_mem_nil, hle⟩
      · refine ⟨b :: earlier, later, rfl, fun c hc => ?_, hlater⟩
        rcases List.mem_cons.mp hc with rfl | hc
        · exact hba
        · exact hearlier c hc
  refine ⟨hsplit, ?_⟩
  rintro ⟨earlier, later, rfl, hearlier, hlater⟩
  -- Whatever is kept before the item has a smaller rank, so the item takes its place.
  have hreach : ∀ best : Option α, (∀ b, best = some b → rank b < rank a) →
      (earlier ++ a :: later).foldl (keepLatest rank) best = some a := by
    induction earlier with
    | nil =>
      intro best hbest
      have htake : keepLatest rank best a = some a := by
        cases best with
        | none => rfl
        | some b => exact if_pos (hbest b rfl)
      rw [List.nil_append, List.foldl_cons, htake]
      obtain ⟨a', ha', hcase⟩ := foldl_keepLatest rank a later
      rcases hcase with ⟨rfl, -⟩ | ⟨xs, ys, rfl, hlt, -⟩
      · exact ha'
      · exact absurd (hlater a' (by simp)) (not_le.mpr hlt)
    | cons c earlier ih =>
      intro best hbest
      rw [List.cons_append, List.foldl_cons]
      have hc := hearlier c List.mem_cons_self
      apply ih fun d hd => hearlier d (List.mem_cons_of_mem c hd)
      intro b hb
      cases best with
      | none =>
        obtain rfl := Option.some.inj hb
        exact hc
      | some b' =>
        unfold keepLatest at hb
        dsimp only at hb
        split_ifs at hb
        · obtain rfl := Option.some.inj hb
          exact hc
        · exact hbest b hb
  exact hreach none fun b hb => absurd hb.symm (Option.some_ne_none b)

theorem latest_mem (h : latest rank items = some a) : a ∈ items := by
  obtain ⟨earlier, later, rfl, -⟩ := latest_eq_some_iff.mp h
  exact List.mem_append_right earlier List.mem_cons_self

theorem le_of_latest (h : latest rank items = some a) : ∀ c ∈ items, rank c ≤ rank a := by
  obtain ⟨earlier, later, rfl, hearlier, hlater⟩ := latest_eq_some_iff.mp h
  intro c hc
  rcases List.mem_append.mp hc with hc | hc
  · exact (hearlier c hc).le
  · rcases List.mem_cons.mp hc with rfl | hc
    · exact le_rfl
    · exact hlater c hc

/-- An item that is the latest of all is the latest of those it is among. -/
theorem latest_filter {p : α → Bool} (h : latest rank items = some a) (hp : p a = true) :
    latest rank (items.filter p) = some a := by
  obtain ⟨earlier, later, rfl, hearlier, hlater⟩ := latest_eq_some_iff.mp h
  refine latest_eq_some_iff.mpr ⟨earlier.filter p, later.filter p, ?_, ?_, ?_⟩
  · rw [List.filter_append, List.filter_cons_of_pos hp]
  · exact fun c hc => hearlier c (List.mem_filter.mp hc).1
  · exact fun c hc => hlater c (List.mem_filter.mp hc).1

/-! ## By key -/

section
variable [DecidableEq κ] (rank)

def keepLatestAt (d : Dict κ α) (p : κ × α) : Dict κ α :=
  match d.get? p.1 with
  | none => d.set p.1 p.2
  | some b => if rank b < rank p.2 then d.set p.1 p.2 else d

def latestByKey (ps : List (κ × α)) : Dict κ α := ps.foldl (keepLatestAt rank) []

theorem get?_keepLatestAt (d : Dict κ α) (p : κ × α) (k : κ) :
    (keepLatestAt rank d p).get? k =
      if p.1 = k then keepLatest rank (d.get? k) p.2 else d.get? k := by
  unfold keepLatestAt
  by_cases hk : p.1 = k
  · subst hk
    rw [if_pos rfl]
    cases h : d.get? p.1 with
    | none => exact Dict.get?_set_self d p.1 p.2
    | some b =>
      unfold keepLatest
      dsimp only
      split_ifs
      · exact Dict.get?_set_self d p.1 p.2
      · exact h
  · rw [if_neg hk]
    cases d.get? p.1 with
    | none => rw [Dict.get?_set, if_neg hk]
    | some b =>
      dsimp only
      split_ifs
      · rw [Dict.get?_set, if_neg hk]
      · rfl

theorem get?_latestByKey (ps : List (κ × α)) (k : κ) :
    (latestByKey rank ps).get? k = latest rank ((ps.filter fun p => p.1 = k).map (·.2)) := by
  have hfold : ∀ d : Dict κ α, (ps.foldl (keepLatestAt rank) d).get? k =
      ((ps.filter fun p => p.1 = k).map (·.2)).foldl (keepLatest rank) (d.get? k) := by
    induction ps with
    | nil => exact fun d => rfl
    | cons p ps ih =>
      intro d
      rw [List.foldl_cons, ih, get?_keepLatestAt, List.filter_cons]
      by_cases hk : p.1 = k
      · rw [if_pos hk, if_pos (decide_eq_true hk), List.map_cons, List.foldl_cons]
      · rw [if_neg hk, if_neg (by simpa using hk)]
  exact hfold []

end
end PyData
