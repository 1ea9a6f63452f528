import ContentOps.Alerts.Sync
import ContentOps.Alerts.Provenance
import ContentOps.Alerts.OverlayAgreement
import Mathlib.Data.Finset.Sort

/-! The alerts that a reconciliation leaves in the daily files. The repair of a day exports it
without its Graph alerts. -/

namespace ContentOps.Alerts
open PyData

/-! ## Ids of a merge -/

section
variable {T : Type} {graph sentinel : List (NormalizedAlert T)}

/-- The result so far has an entry of each matched Graph alert, under its id. -/
structure Matching.Tracks (graph : List (NormalizedAlert T)) (m : Matching T) : Prop where
  ids : m.result.map (fun e => e.alert.id) = m.matchedGraph
  known : m.matchedGraph ⊆ graph.map (·.id)

theorem Matching.Tracks.append {m n : Matching T} (h : m.Tracks graph) {ga sa : NormalizedAlert T}
    (hga : ga ∈ graph) (hres : n.result = m.result ++ [.merged ga sa])
    (hids : n.matchedGraph = m.matchedGraph ++ [ga.id]) : n.Tracks graph := by
  constructor
  · rw [hres, hids, List.map_append, h.ids]
    rfl
  · rw [hids]
    exact List.append_subset.mpr ⟨h.known,
      List.cons_subset.mpr ⟨List.mem_map_of_mem hga, List.nil_subset _⟩⟩

variable (graph sentinel) in
theorem tracks_pass1 : (pass1 graph sentinel).Tracks graph := by
  have key : ∀ (rest : List (NormalizedAlert T)) (m : Matching T), rest ⊆ graph → m.Tracks graph →
      (rest.foldl (pass1Step (sentinelByKey sentinel)) m).Tracks graph := by
    intro rest
    induction rest with
    | nil => exact fun m _ hm => hm
    | cons ga rest ih =>
      intro m hsub hm
      obtain ⟨hga, hrest⟩ := List.cons_subset.mp hsub
      apply ih _ hrest
      unfold pass1Step
      split
      · exact hm.append hga rfl rfl
      · exact hm
  exact key graph {} (List.Subset.refl _) ⟨rfl, List.nil_subset _⟩

theorem tracks_joinIncident (sa : NormalizedAlert T) {alerts : List (NormalizedAlert T)}
    (hsub : alerts ⊆ graph) {m : Matching T} (hm : m.Tracks graph) :
    (alerts.foldl (joinIncident sa) m).Tracks graph := by
  induction alerts generalizing m with
  | nil => exact hm
  | cons ga alerts ih =>
    obtain ⟨hga, hrest⟩ := List.cons_subset.mp hsub
    apply ih hrest
    unfold joinIncident
    split
    · exact hm
    · exact hm.append hga rfl rfl

theorem graphByIncident_subset {matchedGraph : List String} {i : String}
    {alerts : List (NormalizedAlert T)}
    (h : (graphByIncident matchedGraph graph).get? i = some alerts) : alerts ⊆ graph := by
  rw [get?_graphByIncident] at h
  unfold addWaiting at h
  split at h
  · exact absurd h (by simp)
  · obtain rfl := Option.some.inj h
    exact List.filter_subset_self graph

variable (sentinel) in
theorem tracks_pass2 {m : Matching T} (hm : m.Tracks graph) :
    (pass2 graph sentinel m).Tracks graph := by
  unfold pass2
  generalize hindex : m.matchedGraph = matched
  clear hindex
  induction sentinel generalizing m with
  | nil => exact hm
  | cons sa sentinel ih =>
    apply ih
    unfold pass2Step
    split
    · exact hm
    · split
      · next alerts halerts =>
        obtain ⟨i, -, hi⟩ := Option.bind_eq_some_iff.mp halerts
        obtain ⟨hids, hknown⟩ := tracks_joinIncident sa (graphByIncident_subset hi) hm
        exact ⟨hids, hknown⟩
      · exact hm

variable (sentinel) in
/-- Of the two sources of a merge, every Graph alert keeps its id; the others are alerts of the
query. -/
theorem mem_ids_mergeAlerts (hg : graph ≠ []) :
    graph.map (·.id) ⊆ (mergeAlerts graph sentinel).map (·.id) ∧
      (mergeAlerts graph sentinel).map (·.id) ⊆ graph.map (·.id) ++ sentinel.map (·.id) := by
  unfold mergeAlerts mergeEntries
  rw [if_neg hg]
  split
  · rw [List.map_map, List.map_map]
    exact ⟨List.Subset.refl _, List.subset_append_left _ _⟩
  · obtain ⟨hids, hknown⟩ := tracks_pass2 sentinel (tracks_pass1 graph sentinel)
    generalize pass2 graph sentinel (pass1 graph sentinel) = m at hids hknown
    have hmerged : ((m.result ++ (graph.filter (·.id ∉ m.matchedGraph)).map Entry.graph ++
        (sentinel.filter (·.id ∉ m.matchedSentinel)).map Entry.sentinel).map Entry.alert).map
          (·.id) =
        m.matchedGraph ++ (graph.filter (·.id ∉ m.matchedGraph)).map (·.id) ++
          (sentinel.filter (·.id ∉ m.matchedSentinel)).map (·.id) := by
      rw [← hids, List.map_append, List.map_append, List.map_append, List.map_append]
      simp only [List.map_map]
      rfl
    rw [hmerged]
    constructor
    · intro i hi
      obtain ⟨ga, hga, rfl⟩ := List.mem_map.mp hi
      apply List.mem_append_left
      by_cases hmatched : ga.id ∈ m.matchedGraph
      · exact List.mem_append_left _ hmatched
      · exact List.mem_append_right _
          (List.mem_map_of_mem (List.mem_filter.mpr ⟨hga, decide_eq_true hmatched⟩))
    · apply List.append_subset.mpr
      constructor
      · apply List.append_subset.mpr
        constructor
        · exact fun i hi => List.mem_append_left _ (hknown hi)
        · exact fun i hi => List.mem_append_left _ (List.map_subset _ (List.filter_subset_self _) hi)
      · exact fun i hi => List.mem_append_right _ (List.map_subset _ (List.filter_subset_self _) hi)

end

/-! ## Ids of a day -/

section
variable {T Row : Type} (cal : Calendar T) (p : Provider T Row) (plan : SyncPlan)

def ids (es : List LedgerEntry) : List String := es.map (·.alertId)

theorem ids_normalizeToEntry (alerts : List (NormalizedAlert T)) :
    ids (alerts.map (normalizeToEntry cal)) = alerts.map (·.id) := by
  unfold ids
  rw [List.map_map]
  rfl

theorem map_id_overlayArmIncidents (alerts : List (NormalizedAlert T))
    (incidents : List ArmIncident) :
    (overlayArmIncidents cal alerts incidents).map (·.id) = alerts.map (·.id) := by
  unfold overlayArmIncidents
  rw [List.map_map]
  apply List.map_congr_left
  intro a _
  dsimp only [Function.comp_apply]
  split <;> rfl

theorem map_id_enrichFromGraph (alerts graph : List (NormalizedAlert T)) :
    (enrichFromGraph alerts graph).map (·.id) = alerts.map (·.id) := by
  unfold enrichFromGraph
  rw [List.map_map]
  apply List.map_congr_left
  intro a _
  dsimp only [Function.comp_apply]
  split
  · rfl
  · split <;> rfl

theorem map_id_layers (kql : List (NormalizedAlert T)) (incidents : List ArmIncident)
    (graph : List (NormalizedAlert T)) :
    (layers cal kql incidents graph).map (·.id) =
      (if graph = [] then kql else mergeAlerts graph kql).map (·.id) := by
  unfold layers
  dsimp only
  split
  · rw [map_id_overlayArmIncidents]
  · rw [map_id_enrichFromGraph, map_id_overlayArmIncidents]

/-- All ids that a day is written with are ids of its query, iff those of its Graph alerts are. -/
theorem layers_subset_iff (kql : List (NormalizedAlert T)) (incidents : List ArmIncident)
    (graph : List (NormalizedAlert T)) :
    (layers cal kql incidents graph).map (·.id) ⊆ kql.map (·.id) ↔
      graph.map (·.id) ⊆ kql.map (·.id) := by
  rw [map_id_layers]
  split
  · next hg =>
    rw [hg]
    exact iff_of_true (List.Subset.refl _) (List.nil_subset _)
  · next hg =>
    obtain ⟨hkeeps, honly⟩ := mem_ids_mergeAlerts kql hg
    constructor
    · exact fun h => List.Subset.trans hkeeps h
    · exact fun h => List.Subset.trans honly (List.append_subset.mpr ⟨h, List.Subset.refl _⟩)

theorem alertId_patchEntry (incidents : List ArmIncident) (e : LedgerEntry) :
    (patchEntry cal incidents e).1.alertId = e.alertId := by
  unfold patchEntry
  split
  · unfold ArmIncident.patch
    split <;> rfl
  · rfl

/-! ## The export -/

/-- What the run writes for a day. -/
def dayWrite (day : String) : Option (List LedgerEntry) :=
  (p.kqlAlerts day).map fun kql =>
    (layers cal kql (plan.incidents p) (plan.dayGraph cal p day)).map (normalizeToEntry cal)

/-- Each day that was written stands in its file. -/
def Export.Stands (s : Export) : Prop :=
  ∀ day es, (day, es) ∈ s.written → dayWrite cal p plan day = some es ∧
    dailyEntries s.dir day = some es

theorem dailyEntries_writeDailyFile_ne {dir : DailyDir} {day day' : String} (h : day ≠ day')
    (es : List LedgerEntry) :
    dailyEntries (writeDailyFile dir day' es) day = dailyEntries dir day := by
  have hname : dailyFileName day ≠ dailyFileName day' := by
    intro he
    have htexts := congrArg String.toList he
    unfold dailyFileName at htexts
    rw [String.toList_append, String.toList_append, List.append_left_inj] at htexts
    exact h (String.toList_inj.mp htexts)
  unfold dailyEntries writeDailyFile
  rw [Directory.read_write, if_neg (Ne.symm hname)]

theorem stands_exportDay {s s' : Export} {day : String} (hs : s.Stands cal p plan)
    (h : exportDay cal p plan s day = some s') : s'.Stands cal p plan := by
  unfold exportDay at h
  obtain ⟨⟨dir, entries⟩, hday, rfl⟩ := Option.map_eq_some_iff.mp h
  unfold syncDay at hday
  split at hday
  · obtain ⟨rfl, rfl⟩ := Prod.mk.inj (Option.some.inj hday)
    intro d es hmem
    rcases List.mem_append.mp hmem with hmem | hmem
    · exact hs d es hmem
    · exact absurd hmem List.not_mem_nil
  · obtain ⟨kql, hkql, heq⟩ := Option.map_eq_some_iff.mp hday
    obtain ⟨rfl, rfl⟩ := Prod.mk.inj heq
    have hwrite : dayWrite cal p plan day = some ((layers cal kql (plan.incidents p)
        (plan.dayGraph cal p day)).map (normalizeToEntry cal)) := by
      unfold dayWrite
      rw [hkql, Option.map_some]
    intro d es hmem
    by_cases hd : d = day
    · subst hd
      have hes : dayWrite cal p plan d = some es := by
        rcases List.mem_append.mp hmem with hmem | hmem
        · exact (hs d es hmem).1
        · obtain ⟨-, rfl⟩ := Prod.mk.inj (List.mem_singleton.mp hmem)
          exact hwrite
      rw [hes] at hwrite
      rw [dailyEntries_writeDailyFile, ← hwrite]
      exact ⟨hes, rfl⟩
    · rw [dailyEntries_writeDailyFile_ne hd]
      rcases List.mem_append.mp hmem with hmem | hmem
      · exact hs d es hmem
      · exact absurd (Prod.mk.inj (List.mem_singleton.mp hmem)).1 hd

theorem stands_exportDays {dir : DailyDir} {s : Export} (h : exportDays cal p plan dir = some s) :
    s.Stands cal p plan := by
  have key : ∀ (days : List String) (s₀ : Export), s₀.Stands cal p plan →
      days.foldlM (exportDay cal p plan) s₀ = some s → s.Stands cal p plan := by
    intro days
    induction days with
    | nil =>
      intro s₀ hs₀ hrun
      exact Option.some.inj hrun ▸ hs₀
    | cons day days ih =>
      intro s₀ hs₀ hrun
      obtain ⟨s₁, hday, hrest⟩ := Option.bind_eq_some_iff.mp hrun
      exact ih s₁ (stands_exportDay cal p plan hs₀ hday) hrest
  exact key _ ⟨dir, []⟩ (fun _ _ hmem => absurd hmem List.not_mem_nil) h

/-! ## The repair -/

/-- What the repair writes for a day. -/
def repairWrite (day : String) : Option (List LedgerEntry) :=
  (p.kqlAlerts day).map fun kql => (layers cal kql [] []).map (normalizeToEntry cal)

theorem repairDay_eq (s : DailyDir × Nat) (day : String) :
    repairDay cal p s day = match repairWrite cal p day with
      | some es => (writeDailyFile s.1 day es, s.2 + 1)
      | none => s := by
  unfold repairDay syncDay repairWrite
  rw [if_neg (by simp)]
  cases p.kqlAlerts day <;> rfl

theorem dailyEntries_repair (days : List String) (s : DailyDir × Nat) (day : String) :
    dailyEntries (days.foldl (repairDay cal p) s).1 day =
      if day ∈ days then (repairWrite cal p day).or (dailyEntries s.1 day)
      else dailyEntries s.1 day := by
  induction days generalizing s with
  | nil => simp
  | cons d days ih =>
    have hstep : dailyEntries (repairDay cal p s d).1 day =
        if day = d then (repairWrite cal p day).or (dailyEntries s.1 day)
        else dailyEntries s.1 day := by
      rw [repairDay_eq]
      by_cases hd : day = d
      · subst hd
        cases repairWrite cal p day <;> simp
      · rw [if_neg hd]
        cases repairWrite cal p d with
        | none => rfl
        | some es => exact dailyEntries_writeDailyFile_ne hd es
    rw [List.foldl_cons, ih, hstep]
    by_cases hd : day = d
    · rw [if_pos hd, if_pos (List.mem_cons.mpr (.inl hd)), ← Option.or_assoc, Option.or_self,
        ite_self]
    · have hmem : day ∈ d :: days ↔ day ∈ days := by simp [hd]
      rw [if_neg hd]
      simp only [hmem]

/-- Nothing is written without being counted. -/
theorem repair_count (days : List String) (s : DailyDir × Nat) :
    s.2 < (days.foldl (repairDay cal p) s).2 ∨ days.foldl (repairDay cal p) s = s := by
  induction days generalizing s with
  | nil => exact .inr rfl
  | cons d days ih =>
    rw [List.foldl_cons]
    have hstep : s.2 < (repairDay cal p s d).2 ∨ repairDay cal p s d = s := by
      rw [repairDay_eq]
      cases repairWrite cal p d with
      | none => exact .inr rfl
      | some es => exact .inl (Nat.lt_succ_self _)
    rcases hstep with hlt | heq
    · rcases ih (repairDay cal p s d) with hrest | hrest
      · exact .inl (hlt.trans hrest)
      · exact .inl (hrest.symm ▸ hlt)
    · rw [heq]
      exact ih s

/-! ## The ledger -/

theorem ids_dedupe {es : List LedgerEntry} {i : String} : i ∈ ids (dedupe es) ↔ i ∈ ids es := by
  have hkeys : ids (dedupe es) = (Dict.ofPairs (es.map fun e => (e.alertId, e))).keys := by
    unfold ids dedupe Dict.keys
    rw [List.map_map]
    apply List.map_congr_left
    intro pair hpair
    obtain ⟨e, -, rfl⟩ := List.mem_map.mp (Dict.mem_ofPairs hpair)
    rfl
  have hpairs : Dict.keys (es.map fun e => (e.alertId, e)) = ids es := by
    unfold ids Dict.keys
    rw [List.map_map]
    rfl
  rw [hkeys, Dict.mem_keys_ofPairs, hpairs]

/-- The ledger lists what any daily file lists. -/
theorem ids_subset_ledger {dir : DailyDir} {day : String} {es : List LedgerEntry}
    (h : dailyEntries dir day = some es) :
    ids es ⊆ ids (loadLedgerDeduped (rebuildLedger dir)) := by
  obtain ⟨content, hread, rfl⟩ := Option.map_eq_some_iff.mp h
  have hfile : (dailyFileName day, content) ∈ dir.glob isJsonlName :=
    Directory.mem_glob.mpr ⟨hread, isJsonlName_dailyFileName day⟩
  have hall : loadLedger content ⊆ loadDailyFiles dir := by
    intro e he
    exact List.mem_flatMap.mpr ⟨(dailyFileName day, content), hfile, he⟩
  intro i hi
  unfold loadLedgerDeduped rebuildLedger
  rw [loadLedger_ledgerText, ids_dedupe, ids_dedupe]
  exact List.map_subset _ hall hi

/-! ## A run -/

/-- The days that the reconciliation finds stale. -/
def SyncRun.stale (r : SyncRun) : Finset String :=
  if plan.reconcile && plan.enrich then
    match p.reconciliation with
    | some rows => staleDates cal (loadLedgerDeduped (rebuildLedger r.before)) rows
    | none => ∅
  else ∅

/-- Every alert that the run wrote to the file of a day is still there and in the ledger. -/
def SyncRun.KeepsWritten (r : SyncRun) : Prop :=
  ∀ day es, (day, es) ∈ r.written →
    ids es ⊆ ids ((dailyEntries r.dir day).getD []) ∧ ids es ⊆ ids (loadLedgerDeduped r.ledger)

variable {order : SetOrder} {dir : DailyDir} {r : SyncRun}

theorem written_syncAlerts (h : syncAlerts cal p plan order dir = some r) {day : String}
    {es : List LedgerEntry} (hmem : (day, es) ∈ r.written) :
    dayWrite cal p plan day = some es ∧ dailyEntries r.before day =
      some (es.map fun e => (patchEntry cal (plan.incidents p) e).1) := by
  obtain ⟨s, hs, rfl⟩ := Option.map_eq_some_iff.mp h
  have hwritten : (day, es) ∈ s.written := by
    dsimp only at hmem
    split at hmem <;> exact hmem
  have hbefore : dailyEntries (overlayDailyFiles cal s.dir (plan.incidents p)) day =
      some (es.map fun e => (patchEntry cal (plan.incidents p) e).1) := by
    rw [dailyEntries_overlayDailyFiles, (stands_exportDays cal p plan hs day es hwritten).2,
      Option.map_some]
  refine ⟨(stands_exportDays cal p plan hs day es hwritten).1, ?_⟩
  dsimp only
  split <;> exact hbefore

theorem dailyEntries_syncAlerts (h : syncAlerts cal p plan order dir = some r) (day : String) :
    dailyEntries r.dir day =
      if day ∈ r.stale cal p plan then (repairWrite cal p day).or (dailyEntries r.before day)
      else dailyEntries r.before day := by
  obtain ⟨s, hs, rfl⟩ := Option.map_eq_some_iff.mp h
  unfold SyncRun.stale reconcile
  split
  · cases hrows : p.reconciliation with
    | none => simp
    | some rows =>
      dsimp only
      rw [dailyEntries_repair]
      simp only [order.mem_list]
  · simp

theorem ledger_syncAlerts (h : syncAlerts cal p plan order dir = some r) :
    r.ledger = rebuildLedger r.dir := by
  obtain ⟨s, hs, rfl⟩ := Option.map_eq_some_iff.mp h
  unfold reconcile
  split
  · cases hrows : p.reconciliation with
    | none => rfl
    | some rows =>
      dsimp only
      split
      · rfl
      · next hzero =>
        rcases repair_count cal p (order.list _) (_, 0) with hlt | heq
        · exact absurd hlt hzero
        · rw [heq]
  · rfl

theorem ids_file_iff (h : syncAlerts cal p plan order dir = some r) {day : String}
    {es : List LedgerEntry} (hmem : (day, es) ∈ r.written) :
    ids es ⊆ ids ((dailyEntries r.dir day).getD []) ↔ (day ∈ r.stale cal p plan →
      ∀ kql, p.kqlAlerts day = some kql →
        (plan.dayGraph cal p day).map (·.id) ⊆ kql.map (·.id)) := by
  obtain ⟨hday, hbefore⟩ := written_syncAlerts cal p plan h hmem
  obtain ⟨kql, hkql, rfl⟩ := Option.map_eq_some_iff.mp hday
  rw [dailyEntries_syncAlerts cal p plan h, hbefore]
  split
  · next hstale =>
    have hrepair : ids ((layers cal kql [] []).map (normalizeToEntry cal)) = kql.map (·.id) := by
      rw [ids_normalizeToEntry, map_id_layers, if_pos rfl]
    unfold repairWrite
    rw [hkql, Option.map_some, Option.some_or, Option.getD_some, hrepair, ids_normalizeToEntry,
      layers_subset_iff]
    constructor
    · exact fun hsub _ kql' hkql' => Option.some.inj hkql' ▸ hsub
    · exact fun hcond => hcond hstale kql rfl
  · next hfresh =>
    have hpatched : ∀ es : List LedgerEntry,
        ids (es.map fun e => (patchEntry cal (plan.incidents p) e).1) = ids es := by
      intro es
      unfold ids
      rw [List.map_map]
      exact List.map_congr_left fun e _ => alertId_patchEntry cal _ e
    rw [Option.getD_some, hpatched]
    exact iff_of_true (List.Subset.refl _) fun hstale => absurd hstale hfresh

end

/-! ## An alert that is lost -/

/-- An alert of the query and one of Graph on a day whose incident was closed since. -/
def twoSources : Provider String (NormalizedAlert String) where
  listAlertsForDateJoined := fun _ => none
  listAlertsForDate := fun _ => some [
    { id := "kql-1", title := "Sign-in", severity := .high, status := .new
      classification := .undetermined, determination := .unknown, source := "sentinel"
      serviceSource := "", created := some "2026-05-01" }]
  readRow := some
  incidents := []
  graphAlerts := [
    { id := "graph-1", title := "Mail", severity := .low, status := .new
      classification := .undetermined, determination := .unknown, source := "graph"
      serviceSource := "", created := some "2026-05-01" }]
  reconciliation := some [⟨"kql-1", "Closed", "TruePositive"⟩]

def SetOrder.sorted : SetOrder where
  list s := s.sort (· ≤ ·)
  mem_list _ _ := Finset.mem_sort _

/-- Some alert that the run wrote is not in the file of its day. -/
def SyncRun.drops (r : SyncRun) : Bool :=
  r.written.any fun (day, es) =>
    (ids es).any fun i => i ∉ ids ((dailyEntries r.dir day).getD [])

theorem SyncRun.not_keepsWritten_of_drops {r : SyncRun} (h : r.drops = true) :
    ¬ r.KeepsWritten := by
  obtain ⟨⟨day, es⟩, hmem, hdrops⟩ := List.any_eq_true.mp h
  obtain ⟨i, hi, hlost⟩ := List.any_eq_true.mp hdrops
  exact fun hkeeps => of_decide_eq_true hlost ((hkeeps day es hmem).1 hi)

end ContentOps.Alerts
