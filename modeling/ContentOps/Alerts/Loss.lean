import ContentOps.Alerts.Provenance

/-! When `merge_alerts` keeps every alert: no two Sentinel alerts may contest one incident. -/

namespace ContentOps.Alerts
open PyData

section
variable {T : Type}

/-- The Graph alert is in the result as it is, or an argument of a `merge` call in it. -/
def GraphRepresented (graph sentinel : List (NormalizedAlert T)) (ga : NormalizedAlert T) : Prop :=
  .graph ga ∈ mergeEntries graph sentinel ∨ ∃ sa, .merged ga sa ∈ mergeEntries graph sentinel

def SentinelRepresented (graph sentinel : List (NormalizedAlert T)) (sa : NormalizedAlert T) :
    Prop :=
  .sentinel sa ∈ mergeEntries graph sentinel ∨ ∃ ga, .merged ga sa ∈ mergeEntries graph sentinel

def NothingDropped (graph sentinel : List (NormalizedAlert T)) : Prop :=
  (∀ ga ∈ graph, GraphRepresented graph sentinel ga) ∧
    ∀ sa ∈ sentinel, SentinelRepresented graph sentinel sa

/-- The second pass may merge these two: they belong to one incident, and no alert id correlates
the Sentinel alert. -/
def suits (graph sentinel : List (NormalizedAlert T)) (ga sa : NormalizedAlert T) : Bool :=
  !isCorrelated graph sentinel sa && ga.incident?.isSome && ga.incident? = sa.incident?

/-- A Graph alert without a partner suits one Sentinel alert at most. -/
def NoContest (graph sentinel : List (NormalizedAlert T)) : Prop :=
  ∀ ga ∈ graph, partner sentinel ga = none → ∀ sa ∈ sentinel, ∀ sb ∈ sentinel,
    suits graph sentinel ga sa = true → suits graph sentinel ga sb = true → sa.id = sb.id

variable {graph sentinel : List (NormalizedAlert T)}

theorem suits_iff {ga sa : NormalizedAlert T} : suits graph sentinel ga sa = true ↔
    isCorrelated graph sentinel sa = false ∧ ∃ i, ga.incident? = some i ∧ sa.incident? = some i := by
  simp only [suits, Bool.and_eq_true, Bool.not_eq_true', decide_eq_true_eq, and_assoc,
    Option.isSome_iff_exists]
  refine and_congr_right fun _ => ⟨?_, ?_⟩
  · rintro ⟨⟨i, hi⟩, heq⟩
    exact ⟨i, hi, heq ▸ hi⟩
  · rintro ⟨i, hi, hj⟩
    exact ⟨⟨i, hi⟩, hi.trans hj.symm⟩

/-- Whom a Graph alert suits depends on its incident only. -/
theorem suits_congr {ga gb : NormalizedAlert T} (h : ga.incident? = gb.incident?) :
    suits graph sentinel ga = suits graph sentinel gb := by
  funext sa
  unfold suits
  rw [h]

/-! ## The state after some Sentinel alerts -/

variable (graph sentinel) in
/-- What the second pass has done once it has been through `done`: it has given each waiting Graph
alert to the first alert of `done` that it suits. -/
structure After (done : List (NormalizedAlert T)) (m : Matching T) : Prop where
  merged : ∀ ga sa, .merged ga sa ∈ m.result ↔ .merged ga sa ∈ (pass1 graph sentinel).result ∨
    ga ∈ graph ∧ partner sentinel ga = none ∧ done.find? (suits graph sentinel ga) = some sa
  allMerged : ∀ e ∈ m.result, ∃ ga sa, e = .merged ga sa
  matchedGraph : ∀ ga ∈ graph, ga.id ∈ m.matchedGraph ↔
    (partner sentinel ga).isSome = true ∨ (done.find? (suits graph sentinel ga)).isSome = true
  matchedSentinel : ∀ sa ∈ sentinel, sa.id ∈ m.matchedSentinel ↔
    isCorrelated graph sentinel sa = true ∨
    sa ∈ done ∧ ∃ ga ∈ graph, partner sentinel ga = none ∧ suits graph sentinel ga sa = true

theorem After.init (hg : (graph.map (·.id)).Nodup) :
    After graph sentinel [] (pass1 graph sentinel) where
  merged := by simp
  allMerged e he := by
    obtain ⟨ga, -, sa, -, rfl⟩ := mem_result_pass1.mp he
    exact ⟨ga, sa, rfl⟩
  matchedGraph ga hga := by simp [mem_matchedGraph_pass1 hg hga]
  matchedSentinel sa _ := by simp [mem_matchedSentinel_pass1]

theorem find?_concat (p : NormalizedAlert T → Bool) (done : List (NormalizedAlert T))
    (sa : NormalizedAlert T) :
    (done ++ [sa]).find? p = (done.find? p).or (if p sa then some sa else none) := by
  rw [List.find?_append, List.find?_singleton]

/-- A Sentinel alert that suits no waiting Graph alert changes nothing. -/
theorem After.skip {done : List (NormalizedAlert T)} {m : Matching T} {sa : NormalizedAlert T}
    (h : After graph sentinel done m)
    (hno : ∀ ga ∈ graph, partner sentinel ga = none → suits graph sentinel ga sa = false) :
    After graph sentinel (done ++ [sa]) m := by
  have hfind : ∀ ga ∈ graph, partner sentinel ga = none →
      (done ++ [sa]).find? (suits graph sentinel ga) = done.find? (suits graph sentinel ga) := by
    intro ga hga hp
    rw [find?_concat, hno ga hga hp]
    exact Option.or_none
  refine ⟨fun ga sb => ?_, h.allMerged, fun ga hga => ?_, fun sb hsb => ?_⟩
  · rw [h.merged]
    refine or_congr_right (and_congr_right fun hga => and_congr_right fun hp => ?_)
    rw [hfind ga hga hp]
  · rw [h.matchedGraph ga hga]
    cases hp : partner sentinel ga with
    | none => rw [hfind ga hga hp]
    | some sb => simp
  · rw [h.matchedSentinel sb hsb]
    refine or_congr_right ⟨fun ⟨hmem, hex⟩ => ⟨List.mem_append_left _ hmem, hex⟩, ?_⟩
    rintro ⟨hmem, ga, hga, hp, hs⟩
    rcases List.mem_append.mp hmem with hmem | hmem
    · exact ⟨hmem, ga, hga, hp, hs⟩
    · rw [List.mem_singleton.mp hmem, hno ga hga hp] at hs
      exact Bool.noConfusion hs

theorem mem_waiting (hg : (graph.map (·.id)).Nodup) {i : String} {ga : NormalizedAlert T} :
    ga ∈ waiting (pass1 graph sentinel).matchedGraph graph i ↔
      ga ∈ graph ∧ partner sentinel ga = none ∧ ga.incident? = some i := by
  rw [waiting, List.mem_filter, decide_eq_true_eq]
  refine and_congr_right fun hga => and_congr_left fun _ => ?_
  rw [mem_matchedGraph_pass1 hg hga, Option.not_isSome_iff_eq_none]

/-- A Sentinel alert that is given the Graph alerts waiting for its incident, as far as they still
wait. -/
theorem After.joined (hg : (graph.map (·.id)).Nodup) {done : List (NormalizedAlert T)}
    {m : Matching T} {sa : NormalizedAlert T} {i : String} (h : After graph sentinel done m)
    (hs : (sentinel.map (·.id)).Nodup) (hsa : sa ∈ sentinel)
    (hsuits : ∀ ga, suits graph sentinel ga sa = true ↔ ga.incident? = some i)
    (hne : waiting (pass1 graph sentinel).matchedGraph graph i ≠ []) :
    After graph sentinel (done ++ [sa])
      (let m' := (waiting (pass1 graph sentinel).matchedGraph graph i).foldl (joinIncident sa) m
      { m' with matchedSentinel := m'.matchedSentinel ++ [sa.id] }) := by
  have hwn : ((waiting (pass1 graph sentinel).matchedGraph graph i).map (·.id)).Nodup :=
    hg.sublist (List.filter_sublist.map _)
  obtain ⟨hres, hgraph, hsent⟩ := foldl_joinIncident sa hwn m
  -- A waiting alert of the incident still waits iff no earlier Sentinel alert suited it.
  have hfree : ∀ ga, ga ∈ waiting (pass1 graph sentinel).matchedGraph graph i →
      (ga.id ∉ m.matchedGraph ↔ done.find? (suits graph sentinel ga) = none) := by
    intro ga hga
    obtain ⟨hmem, hp, -⟩ := (mem_waiting hg).mp hga
    rw [h.matchedGraph ga hmem, hp, Option.isSome_none, ← Option.not_isSome_iff_eq_none]
    simp
  refine ⟨fun ga sb => ?_, fun e he => ?_, fun ga hga => ?_, fun sb hsb => ?_⟩
  · simp only [hres, List.mem_append, h.merged, List.mem_map, List.mem_filter, decide_eq_true_eq,
      Entry.merged.injEq, find?_concat, Option.or_eq_some_iff, or_assoc]
    refine or_congr_right ?_
    constructor
    · rintro (⟨hga, hp, hf⟩ | ⟨gb, ⟨hgb, hfresh⟩, rfl, rfl⟩)
      · exact ⟨hga, hp, .inl hf⟩
      · obtain ⟨hmem, hp, hgi⟩ := (mem_waiting hg).mp hgb
        exact ⟨hmem, hp, .inr ⟨(hfree _ hgb).mp hfresh, by rw [if_pos ((hsuits _).mpr hgi)]⟩⟩
    · rintro ⟨hga, hp, hf | ⟨hnone, hlast⟩⟩
      · exact .inl ⟨hga, hp, hf⟩
      · split_ifs at hlast with hsuit
        have hw := (mem_waiting hg).mpr ⟨hga, hp, (hsuits ga).mp hsuit⟩
        exact .inr ⟨ga, ⟨hw, (hfree ga hw).mpr hnone⟩, rfl, Option.some.inj hlast⟩
  · simp only [hres, List.mem_append, List.mem_map] at he
    rcases he with he | ⟨ga, -, rfl⟩
    · exact h.allMerged e he
    · exact ⟨ga, sa, rfl⟩
  · rw [hgraph, h.matchedGraph ga hga, find?_concat, or_assoc, Option.isSome_or, Bool.or_eq_true]
    cases hp : partner sentinel ga with
    | some sb => simp
    | none =>
      have hw : ga.id ∈ (waiting (pass1 graph sentinel).matchedGraph graph i).map (·.id) ↔
          suits graph sentinel ga sa = true := by
        rw [hsuits]
        constructor
        · intro hid
          obtain ⟨gb, hgb, hid⟩ := List.mem_map.mp hid
          obtain ⟨hmem, -, hgi⟩ := (mem_waiting hg).mp hgb
          exact List.inj_on_of_nodup_map hg hmem hga hid ▸ hgi
        · exact fun hgi => List.mem_map_of_mem ((mem_waiting hg).mpr ⟨hga, hp, hgi⟩)
      rw [hw]
      by_cases hsuit : suits graph sentinel ga sa = true <;> simp [hsuit]
  · obtain ⟨ga, hga⟩ := List.exists_mem_of_ne_nil _ hne
    obtain ⟨hmem, hp, hgi⟩ := (mem_waiting hg).mp hga
    simp only [hsent, List.mem_append, List.mem_singleton, h.matchedSentinel sb hsb, or_assoc]
    refine or_congr_right ?_
    constructor
    · rintro (⟨hdone, hex⟩ | hid)
      · exact ⟨.inl hdone, hex⟩
      · obtain rfl := List.inj_on_of_nodup_map hs hsb hsa hid
        exact ⟨.inr rfl, ga, hmem, hp, (hsuits ga).mpr hgi⟩
    · rintro ⟨hdone | rfl, hex⟩
      · exact .inl ⟨hdone, hex⟩
      · exact .inr rfl

/-- One more Sentinel alert. -/
theorem After.step (hg : (graph.map (·.id)).Nodup) (hs : (sentinel.map (·.id)).Nodup)
    {done : List (NormalizedAlert T)} {m : Matching T} {sa : NormalizedAlert T}
    (h : After graph sentinel done m) (hsa : sa ∈ sentinel) (hnew : sa ∉ done) :
    After graph sentinel (done ++ [sa])
      (pass2Step (graphByIncident (pass1 graph sentinel).matchedGraph graph) m sa) := by
  unfold pass2Step
  split_ifs with hmatched
  · have hcor := ((h.matchedSentinel sa hsa).mp hmatched).resolve_right fun h => hnew h.1
    exact h.skip fun ga _ _ => by simp [suits, hcor]
  · have hunc : isCorrelated graph sentinel sa = false := by
      by_contra hcor
      exact hmatched ((h.matchedSentinel sa hsa).mpr (.inl (Bool.not_eq_false _ ▸ hcor)))
    cases hi : sa.incident? with
    | none =>
      refine h.skip fun ga _ _ => ?_
      rw [Bool.eq_false_iff, ne_eq, suits_iff]
      rintro ⟨-, i, -, hi'⟩
      rw [hi] at hi'
      cases hi'
    | some i =>
      have hsuits : ∀ ga, suits graph sentinel ga sa = true ↔ ga.incident? = some i := by
        intro ga
        rw [suits_iff]
        constructor
        · rintro ⟨-, j, hj, hj'⟩
          exact hj.trans (hj'.symm.trans hi)
        · exact fun hga => ⟨hunc, i, hga, hi⟩
      rw [Option.bind_some, get?_graphByIncident, addWaiting]
      split_ifs with hempty
      · refine h.skip fun ga hga hp => ?_
        rw [Bool.eq_false_iff, ne_eq, hsuits]
        intro hgi
        have hmem := (mem_waiting hg).mpr ⟨hga, hp, hgi⟩
        rw [hempty] at hmem
        cases hmem
      · rw [Option.getD_none, List.nil_append]
        exact h.joined hg hs hsa hsuits hempty

theorem after_pass2 (hg : (graph.map (·.id)).Nodup) (hs : (sentinel.map (·.id)).Nodup) :
    After graph sentinel sentinel (pass2 graph sentinel (pass1 graph sentinel)) := by
  have key : ∀ done rest, sentinel = done ++ rest → ∀ m, After graph sentinel done m →
      After graph sentinel sentinel
        (rest.foldl (pass2Step (graphByIncident (pass1 graph sentinel).matchedGraph graph)) m) := by
    intro done rest
    induction rest generalizing done with
    | nil =>
      intro heq m h
      rw [List.append_nil] at heq
      exact heq ▸ h
    | cons sa rest ih =>
      intro heq m h
      have hnew : sa ∉ done := by
        intro hmem
        rw [heq, List.map_append, List.nodup_append] at hs
        exact hs.2.2 _ (List.mem_map_of_mem hmem) _ (by simp) rfl
      have hsa : sa ∈ sentinel := heq ▸ by simp
      exact ih (done ++ [sa]) (by rw [heq, List.append_assoc, List.singleton_append]) _
        (h.step hg hs hsa hnew)
  exact key [] sentinel rfl _ (After.init hg)

/-! ## The entries of the result -/

theorem mem_mergeEntries_graph (hg : graph ≠ []) (hs : sentinel ≠ []) {m : Matching T}
    (hm : m = pass2 graph sentinel (pass1 graph sentinel)) (h : After graph sentinel sentinel m)
    {ga : NormalizedAlert T} :
    .graph ga ∈ mergeEntries graph sentinel ↔ ga ∈ graph ∧ ga.id ∉ m.matchedGraph := by
  have hnot : Entry.graph ga ∉ m.result := by
    intro hmem
    obtain ⟨_, _, he⟩ := h.allMerged _ hmem
    cases he
  simp [mergeEntries, hg, hs, ← hm, hnot]

theorem mem_mergeEntries_sentinel (hg : graph ≠ []) (hs : sentinel ≠ []) {m : Matching T}
    (hm : m = pass2 graph sentinel (pass1 graph sentinel)) (h : After graph sentinel sentinel m)
    {sa : NormalizedAlert T} :
    .sentinel sa ∈ mergeEntries graph sentinel ↔ sa ∈ sentinel ∧ sa.id ∉ m.matchedSentinel := by
  have hnot : Entry.sentinel sa ∉ m.result := by
    intro hmem
    obtain ⟨_, _, he⟩ := h.allMerged _ hmem
    cases he
  simp [mergeEntries, hg, hs, ← hm, hnot]

theorem mem_mergeEntries_merged (hg : graph ≠ []) (hs : sentinel ≠ []) {m : Matching T}
    (hm : m = pass2 graph sentinel (pass1 graph sentinel)) {ga sa : NormalizedAlert T} :
    .merged ga sa ∈ mergeEntries graph sentinel ↔ .merged ga sa ∈ m.result := by
  simp [mergeEntries, hg, hs, ← hm]

/-- Every Graph alert is kept, whatever the Sentinel alerts are. -/
theorem graphRepresented (hg : (graph.map (·.id)).Nodup) (hs : (sentinel.map (·.id)).Nodup)
    {ga : NormalizedAlert T} (hga : ga ∈ graph) : GraphRepresented graph sentinel ga := by
  have hgne := List.ne_nil_of_mem hga
  by_cases hsne : sentinel = []
  · exact .inl (by simp [mergeEntries, hgne, hsne, hga])
  · have h := after_pass2 hg hs
    by_cases hm : ga.id ∈ (pass2 graph sentinel (pass1 graph sentinel)).matchedGraph
    · right
      simp only [mem_mergeEntries_merged hgne hsne rfl, h.merged]
      cases hp : partner sentinel ga with
      | some sa => exact ⟨sa, .inl (mem_result_pass1.mpr ⟨ga, hga, sa, hp, rfl⟩)⟩
      | none =>
        have hfind := ((h.matchedGraph ga hga).mp hm).resolve_left (by simp [hp])
        obtain ⟨sa, hsa⟩ := Option.isSome_iff_exists.mp hfind
        exact ⟨sa, .inr ⟨hga, rfl, hsa⟩⟩
    · exact .inl ((mem_mergeEntries_graph hgne hsne rfl h).mpr ⟨hga, hm⟩)

/-- A Sentinel alert that suits a waiting Graph alert is kept iff it is the first such alert. -/
theorem sentinelRepresented_iff_find? (hg : (graph.map (·.id)).Nodup)
    (hs : (sentinel.map (·.id)).Nodup) {ga sa : NormalizedAlert T} (hga : ga ∈ graph)
    (hp : partner sentinel ga = none) (hsa : sa ∈ sentinel)
    (hsuit : suits graph sentinel ga sa = true) :
    SentinelRepresented graph sentinel sa ↔
      sentinel.find? (suits graph sentinel ga) = some sa := by
  have hgne := List.ne_nil_of_mem hga
  have hsne := List.ne_nil_of_mem hsa
  have h := after_pass2 hg hs
  have hmatched := (h.matchedSentinel sa hsa).mpr (.inr ⟨hsa, ga, hga, hp, hsuit⟩)
  obtain ⟨hunc, i, hgi, hsi⟩ := suits_iff.mp hsuit
  unfold SentinelRepresented
  rw [mem_mergeEntries_sentinel hgne hsne rfl h]
  simp only [hmatched, not_true_eq_false, and_false, false_or,
    mem_mergeEntries_merged hgne hsne rfl, h.merged]
  constructor
  · rintro ⟨gb, hpass1 | ⟨-, -, hfind⟩⟩
    · exfalso
      obtain ⟨gc, hgc, sc, hpc, he⟩ := mem_result_pass1.mp hpass1
      obtain ⟨rfl, rfl⟩ := Entry.merged.inj he
      have hcor : isCorrelated graph sentinel sa = true := by
        rw [isCorrelated, List.any_eq_true]
        exact ⟨gb, hgc, by simp [hpc]⟩
      rw [hunc] at hcor
      exact Bool.noConfusion hcor
    · have hsuit' := List.find?_some hfind
      obtain ⟨-, j, hgj, hsj⟩ := suits_iff.mp hsuit'
      have heq : ga.incident? = gb.incident? := hgi.trans ((hsi.symm.trans hsj).trans hgj.symm)
      rw [suits_congr heq]
      exact hfind
  · exact fun hfind => ⟨ga, .inr ⟨hga, hp, hfind⟩⟩

/-- A Sentinel alert that suits no waiting Graph alert is kept. -/
theorem sentinelRepresented_of_no_suit (hg : (graph.map (·.id)).Nodup)
    (hs : (sentinel.map (·.id)).Nodup) {sa : NormalizedAlert T} (hsa : sa ∈ sentinel)
    (hno : ∀ ga ∈ graph, partner sentinel ga = none → suits graph sentinel ga sa = false) :
    SentinelRepresented graph sentinel sa := by
  have hsne := List.ne_nil_of_mem hsa
  by_cases hgne : graph = []
  · exact .inl (by simp [mergeEntries, hgne, hsa])
  · have h := after_pass2 hg hs
    by_cases hm : sa.id ∈ (pass2 graph sentinel (pass1 graph sentinel)).matchedSentinel
    · have hcor := ((h.matchedSentinel sa hsa).mp hm).resolve_right (by
        rintro ⟨-, ga, hga, hp, hsuit⟩
        rw [hno ga hga hp] at hsuit
        exact Bool.noConfusion hsuit)
      rw [isCorrelated, List.any_eq_true] at hcor
      obtain ⟨ga, hga, hany⟩ := hcor
      obtain ⟨sb, hp, hid⟩ := Option.any_eq_true _ _ |>.mp hany
      obtain rfl := List.inj_on_of_nodup_map hs (partner_mem hp) hsa (of_decide_eq_true hid)
      refine .inr ⟨ga, ?_⟩
      rw [mem_mergeEntries_merged hgne hsne rfl, h.merged]
      exact .inl (mem_result_pass1.mpr ⟨ga, hga, sb, hp, rfl⟩)
    · exact .inl ((mem_mergeEntries_sentinel hgne hsne rfl h).mpr ⟨hsa, hm⟩)

/-- Nothing is dropped exactly when no two Sentinel alerts contest a Graph alert. -/
theorem nothingDropped_iff_noContest (graph sentinel : List (NormalizedAlert T))
    (hg : (graph.map (·.id)).Nodup) (hs : (sentinel.map (·.id)).Nodup) :
    NothingDropped graph sentinel ↔ NoContest graph sentinel := by
  constructor
  · intro h ga hga hp sa hsa sb hsb ha hb
    have hfa := (sentinelRepresented_iff_find? hg hs hga hp hsa ha).mp (h.2 sa hsa)
    have hfb := (sentinelRepresented_iff_find? hg hs hga hp hsb hb).mp (h.2 sb hsb)
    rw [hfa, Option.some.injEq] at hfb
    rw [hfb]
  · intro h
    refine ⟨fun ga hga => graphRepresented hg hs hga, fun sa hsa => ?_⟩
    by_cases hex : ∃ ga ∈ graph, partner sentinel ga = none ∧ suits graph sentinel ga sa = true
    · obtain ⟨ga, hga, hp, hsuit⟩ := hex
      rw [sentinelRepresented_iff_find? hg hs hga hp hsa hsuit]
      have hsome : (sentinel.find? (suits graph sentinel ga)).isSome = true :=
        List.find?_isSome.mpr ⟨sa, hsa, hsuit⟩
      obtain ⟨sb, hfind⟩ := Option.isSome_iff_exists.mp hsome
      have hid := h ga hga hp sb (List.mem_of_find?_eq_some hfind) sa hsa
        (List.find?_some hfind) hsuit
      rw [hfind, List.inj_on_of_nodup_map hs (List.mem_of_find?_eq_some hfind) hsa hid]
    · refine sentinelRepresented_of_no_suit hg hs hsa fun ga hga hp => ?_
      by_contra hsuit
      exact hex ⟨ga, hga, hp, by simpa using hsuit⟩

end

/-! ## One Graph alert and two Sentinel alerts of one incident -/

/-- An alert of incident 7 that carries no alert id of another source. -/
def incidentAlert (id source : String) : NormalizedAlert Unit where
  id := id
  title := "Sign-in from a new country"
  severity := .high
  status := .new
  classification := .undetermined
  determination := .unknown
  source := source
  serviceSource := source
  incidentId := some "7"

def graphAlert := incidentAlert "g1" "graph"
def firstSentinel := incidentAlert "s1" "sentinel"
def secondSentinel := incidentAlert "s2" "sentinel"

theorem mergeEntries_contest :
    mergeEntries [graphAlert] [firstSentinel, secondSentinel] =
      [.merged graphAlert firstSentinel] := by
  decide +kernel

theorem secondSentinel_dropped :
    ([graphAlert].map (·.id)).Nodup ∧ ([firstSentinel, secondSentinel].map (·.id)).Nodup ∧
      mergeAlerts [graphAlert] [firstSentinel, secondSentinel] = [.merge graphAlert firstSentinel] ∧
      ¬ SentinelRepresented [graphAlert] [firstSentinel, secondSentinel] secondSentinel ∧
      ¬ NothingDropped [graphAlert] [firstSentinel, secondSentinel] := by
  have hnot : ¬ SentinelRepresented [graphAlert] [firstSentinel, secondSentinel] secondSentinel := by
    have hne : secondSentinel ≠ firstSentinel := by decide
    unfold SentinelRepresented
    rw [mergeEntries_contest]
    simp [hne]
  refine ⟨by decide, by decide, ?_, hnot, fun h => hnot (h.2 _ (by simp))⟩
  rw [mergeAlerts, mergeEntries_contest]
  rfl

theorem nothingDropped_oneSentinel :
    ([graphAlert].map (·.id)).Nodup ∧ ([firstSentinel].map (·.id)).Nodup ∧
      (NothingDropped [graphAlert] [firstSentinel] ↔ NoContest [graphAlert] [firstSentinel]) :=
  ⟨by decide, by decide, nothingDropped_iff_noContest _ _ (by decide) (by decide)⟩

end ContentOps.Alerts
