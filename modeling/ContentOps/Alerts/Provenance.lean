import ContentOps.Alerts.Merge

/-! Which calls of `merge` the two passes of `merge_alerts` make. -/

namespace ContentOps.Alerts
open PyData

section
variable {T : Type}

/-- The Sentinel alert that a Graph alert correlates with: its first key that some Sentinel alert
has, and the first alert that has it. -/
def partner (sentinel : List (NormalizedAlert T)) (ga : NormalizedAlert T) :
    Option (NormalizedAlert T) :=
  ga.correlationKeys.findSome? fun k => sentinel.find? fun sa => k ∈ sa.correlationKeys

/-- Some Graph alert correlates with `sa`. -/
def isCorrelated (graph sentinel : List (NormalizedAlert T)) (sa : NormalizedAlert T) : Bool :=
  graph.any fun ga => (partner sentinel ga).any fun sb => sb.id = sa.id

/-! ## The first pass -/

theorem get?_setDefault (d : Dict String (NormalizedAlert T)) (k' : String) (a : NormalizedAlert T)
    (k : String) :
    (setDefault d k' a).get? k = (d.get? k).or (if k' = k then some a else none) := by
  unfold setDefault
  split_ifs with hc hk hk
  · subst hk
    obtain ⟨v, hv⟩ := Option.isSome_iff_exists.mp hc
    rw [hv]
    rfl
  · rw [Option.or_none]
  · subst hk
    have hnone : d.get? k' = none := Option.not_isSome_iff_eq_none.mp hc
    rw [Dict.get?_set_self, hnone]
    rfl
  · rw [Dict.get?_set, if_neg hk, Option.or_none]

theorem get?_foldl_setDefault (keys : List String) (d : Dict String (NormalizedAlert T))
    (a : NormalizedAlert T) (k : String) :
    (keys.foldl (fun d k => setDefault d k a) d).get? k =
      (d.get? k).or (if k ∈ keys then some a else none) := by
  induction keys generalizing d with
  | nil => simp
  | cons k' keys ih =>
    rw [List.foldl_cons, ih, get?_setDefault, Option.or_assoc]
    congr 1
    by_cases hk : k' = k
    · simp [hk]
    · simp [hk, Ne.symm hk]

/-- The index finds the first Sentinel alert that has the key. -/
theorem get?_sentinelByKey (sentinel : List (NormalizedAlert T)) (k : String) :
    (sentinelByKey sentinel).get? k = sentinel.find? fun sa => k ∈ sa.correlationKeys := by
  have key : ∀ d : Dict String (NormalizedAlert T),
      (sentinel.foldl (fun d sa => sa.correlationKeys.foldl (fun d k => setDefault d k sa) d)
        d).get? k = (d.get? k).or (sentinel.find? fun sa => k ∈ sa.correlationKeys) := by
    induction sentinel with
    | nil => simp
    | cons sa sentinel ih =>
      intro d
      rw [List.foldl_cons, ih, get?_foldl_setDefault, Option.or_assoc, List.find?_cons]
      congr 1
      by_cases hk : k ∈ sa.correlationKeys <;> simp [hk]
  exact key []

theorem findSome?_sentinelByKey (sentinel : List (NormalizedAlert T)) (ga : NormalizedAlert T) :
    ga.correlationKeys.findSome? (sentinelByKey sentinel).get? = partner sentinel ga :=
  congrArg ga.correlationKeys.findSome? (funext fun k => get?_sentinelByKey sentinel k)

theorem partner_mem {sentinel : List (NormalizedAlert T)} {ga sa : NormalizedAlert T}
    (h : partner sentinel ga = some sa) : sa ∈ sentinel := by
  obtain ⟨k, -, hk⟩ := List.exists_of_findSome?_eq_some h
  exact List.mem_of_find?_eq_some hk

/-- The first pass merges every Graph alert with its partner. -/
theorem foldl_pass1Step (sentinel graph : List (NormalizedAlert T)) (m : Matching T) :
    graph.foldl (pass1Step (sentinelByKey sentinel)) m =
      { result := m.result ++ graph.filterMap fun ga => (partner sentinel ga).map (Entry.merged ga)
        matchedGraph := m.matchedGraph ++
          (graph.filter fun ga => (partner sentinel ga).isSome).map (·.id)
        matchedSentinel := m.matchedSentinel ++
          graph.filterMap fun ga => (partner sentinel ga).map (·.id) } := by
  induction graph generalizing m with
  | nil => simp
  | cons ga graph ih =>
    rw [List.foldl_cons, ih, pass1Step, findSome?_sentinelByKey]
    cases hp : partner sentinel ga with
    | none => simp [hp]
    | some sa => simp [hp, Matching.join]

section Pass1
variable {graph sentinel : List (NormalizedAlert T)}

theorem mem_result_pass1 {e : Entry T} : e ∈ (pass1 graph sentinel).result ↔
    ∃ ga ∈ graph, ∃ sa, partner sentinel ga = some sa ∧ e = .merged ga sa := by
  rw [pass1, foldl_pass1Step]
  simp only [List.nil_append, List.mem_filterMap, Option.map_eq_some_iff, eq_comm (b := e)]

theorem mem_matchedGraph_pass1 (hg : (graph.map (·.id)).Nodup) {ga : NormalizedAlert T}
    (hga : ga ∈ graph) :
    ga.id ∈ (pass1 graph sentinel).matchedGraph ↔ (partner sentinel ga).isSome = true := by
  rw [pass1, foldl_pass1Step]
  simp only [List.nil_append, List.mem_map, List.mem_filter]
  constructor
  · rintro ⟨gb, ⟨hgb, hp⟩, hid⟩
    exact List.inj_on_of_nodup_map hg hgb hga hid ▸ hp
  · exact fun hp => ⟨ga, ⟨hga, hp⟩, rfl⟩

theorem mem_matchedSentinel_pass1 {sa : NormalizedAlert T} :
    sa.id ∈ (pass1 graph sentinel).matchedSentinel ↔ isCorrelated graph sentinel sa = true := by
  rw [pass1, foldl_pass1Step]
  simp [isCorrelated, Option.any_eq_true]

end Pass1

/-! ## The second pass -/

/-- The Graph alerts that wait for a Sentinel alert of incident `i`. -/
def waiting (matchedGraph : List String) (graph : List (NormalizedAlert T)) (i : String) :
    List (NormalizedAlert T) :=
  graph.filter fun ga => ga.id ∉ matchedGraph ∧ ga.incident? = some i

/-- What an incident's list becomes when `alerts` are added to it. -/
def addWaiting (old : Option (List (NormalizedAlert T))) (alerts : List (NormalizedAlert T)) :
    Option (List (NormalizedAlert T)) :=
  if alerts = [] then old else some (old.getD [] ++ alerts)

theorem addWaiting_append (old : Option (List (NormalizedAlert T)))
    (alerts more : List (NormalizedAlert T)) :
    addWaiting (addWaiting old alerts) more = addWaiting old (alerts ++ more) := by
  cases alerts <;> cases more <;> simp [addWaiting]

theorem get?_incidentStep (matchedGraph : List String) (d : Dict String (List (NormalizedAlert T)))
    (ga : NormalizedAlert T) (i : String) :
    (incidentStep matchedGraph d ga).get? i =
      addWaiting (d.get? i) (waiting matchedGraph [ga] i) := by
  unfold incidentStep waiting addWaiting
  cases hi : ga.incident? with
  | none => simp [hi]
  | some j =>
    by_cases hm : ga.id ∈ matchedGraph
    · simp [hm]
    · by_cases hj : j = i
      · subst hj
        simp [hm, hi]
      · simp [hm, hi, hj, Dict.get?_set]

theorem get?_graphByIncident (matchedGraph : List String) (graph : List (NormalizedAlert T))
    (i : String) :
    (graphByIncident matchedGraph graph).get? i =
      addWaiting none (waiting matchedGraph graph i) := by
  have key : ∀ d : Dict String (List (NormalizedAlert T)),
      (graph.foldl (incidentStep matchedGraph) d).get? i =
        addWaiting (d.get? i) (waiting matchedGraph graph i) := by
    induction graph with
    | nil => exact fun d => rfl
    | cons ga graph ih =>
      intro d
      have hw : waiting matchedGraph (ga :: graph) i =
          waiting matchedGraph [ga] i ++ waiting matchedGraph graph i := by
        rw [waiting, ← List.singleton_append, List.filter_append]
        rfl
      rw [List.foldl_cons, ih, get?_incidentStep, addWaiting_append, hw]
  exact key []

theorem foldl_joinIncident (sa : NormalizedAlert T) {alerts : List (NormalizedAlert T)}
    (hn : (alerts.map (·.id)).Nodup) (m : Matching T) :
    (alerts.foldl (joinIncident sa) m).result =
        m.result ++ (alerts.filter (·.id ∉ m.matchedGraph)).map (Entry.merged · sa) ∧
      (∀ x, x ∈ (alerts.foldl (joinIncident sa) m).matchedGraph ↔
        x ∈ m.matchedGraph ∨ x ∈ alerts.map (·.id)) ∧
      (alerts.foldl (joinIncident sa) m).matchedSentinel = m.matchedSentinel := by
  induction alerts generalizing m with
  | nil => simp
  | cons ga alerts ih =>
    rw [List.map_cons, List.nodup_cons] at hn
    obtain ⟨hres, hgraph, hsent⟩ := ih hn.2 (joinIncident sa m ga)
    rw [List.foldl_cons, hres, hsent]
    by_cases hga : ga.id ∈ m.matchedGraph
    · have hjoin : joinIncident sa m ga = m := if_pos hga
      rw [hjoin] at hgraph ⊢
      refine ⟨by simp [hga], fun x => ?_, rfl⟩
      rw [hgraph x, List.map_cons, List.mem_cons]
      constructor
      · exact fun h => h.imp_right .inr
      · rintro (h | rfl | h)
        · exact .inl h
        · exact .inl hga
        · exact .inr h
    · have hjoin : joinIncident sa m ga = { m with
          result := m.result ++ [.merged ga sa]
          matchedGraph := m.matchedGraph ++ [ga.id] } := if_neg hga
      rw [hjoin] at hgraph ⊢
      -- A later alert has another id, so the id just added hides none of them.
      have hfilter : alerts.filter (fun gb => gb.id ∉ m.matchedGraph ++ [ga.id]) =
          alerts.filter (fun gb => gb.id ∉ m.matchedGraph) := by
        refine List.filter_congr fun gb hgb => ?_
        have hne : gb.id ≠ ga.id := fun e => hn.1 (e ▸ List.mem_map_of_mem hgb)
        simp [hne]
      refine ⟨by rw [hfilter]; simp [hga], fun x => ?_, rfl⟩
      rw [hgraph x, List.mem_append, List.mem_singleton, List.map_cons, List.mem_cons, or_assoc]

end
end ContentOps.Alerts
