import ContentOps.Playbook.Collected

/-! Which connections the deletion of a playbook takes along, after any sequence of applies. -/

namespace ContentOps.Playbook
open PyData

section
variable {X : Type}

/-- ARM keeps the tags and the `$connections` of a body. -/
structure Stores (kept : ArmResource → Document X → Document X) : Prop where
  tag : ∀ r body, ownerTag (kept r body) = ownerTag body
  refs : ∀ r body, connectionRefs (kept r body) = connectionRefs body

/-- The workflow refers to the connection. -/
def Refers (workflow : Document X) (connection : String) : Prop :=
  ∃ key ref, (connectionRefs workflow).get? key = some (.dict ref) ∧
    Value.textAt ref "connectionName" = connection

/-- The workflow of that name, if there is one, refers to the connection. -/
def Referenced (s : ArmStore X) (workflow connection : String) : Prop :=
  ∃ doc, s.workflows.get? workflow = some doc ∧ Refers doc connection

variable (lower : String → String) (kept : ArmResource → Document X → Document X)
  (subscriptionId location : String)

theorem connectionArmName_ne_empty (id : String) (conn : PlaybookConnection) :
    connectionArmName id conn ≠ "" := by
  unfold connectionArmName orText
  split_ifs with h
  · intro hnil
    have hlist := congrArg String.toList hnil
    simp at hlist
  · exact h

theorem ownerTag_toConnectionArmBody (conn : PlaybookConnection) (id place sub : String) :
    ownerTag (toConnectionArmBody lower conn id place sub : Document X) = id := by
  unfold ownerTag toConnectionArmBody
  simp [dictAt, Value.get, Value.textAt, Dict.get?, managedTag, playbookTag]

theorem workflows_putConnections (envelopeId place : String) (conns : List PlaybookConnection)
    (s : ArmStore X) :
    (putConnections lower kept subscriptionId envelopeId place conns s).workflows = s.workflows := by
  induction conns generalizing s with
  | nil => rfl
  | cons c conns ih => exact ih _

/-- A connection that is put carries the tag of its playbook; the others stay as they were. -/
theorem connections_putConnections {kept : ArmResource → Document X → Document X}
    (hkept : Stores kept) (envelopeId place : String) (conns : List PlaybookConnection)
    (s : ArmStore X) (name : String) :
    (name ∈ conns.map (connectionArmName envelopeId) → ∃ doc,
        (putConnections lower kept subscriptionId envelopeId place conns s).connections.get? name =
          some doc ∧ ownerTag doc = envelopeId) ∧
      (name ∉ conns.map (connectionArmName envelopeId) →
        (putConnections lower kept subscriptionId envelopeId place conns s).connections.get? name =
          s.connections.get? name) := by
  induction conns generalizing s with
  | nil => exact ⟨fun h => absurd h (by simp), fun _ => rfl⟩
  | cons c conns ih =>
    obtain ⟨hin, hout⟩ := ih (s.put kept (.connection (connectionArmName envelopeId c))
      (toConnectionArmBody lower c envelopeId place subscriptionId))
    have hhead : (s.put kept (.connection (connectionArmName envelopeId c))
        (toConnectionArmBody lower c envelopeId place subscriptionId)).connections.get? name =
          if connectionArmName envelopeId c = name then
            some (kept (.connection (connectionArmName envelopeId c))
              (toConnectionArmBody lower c envelopeId place subscriptionId))
          else s.connections.get? name := Dict.get?_set ..
    rw [List.map_cons, List.mem_cons, not_or]
    constructor
    · intro hmem
      by_cases htail : name ∈ conns.map (connectionArmName envelopeId)
      · exact hin htail
      · have hname : name = connectionArmName envelopeId c := hmem.resolve_right htail
        refine ⟨_, (hout htail).trans (hhead.trans (if_pos hname.symm)), ?_⟩
        rw [hkept.tag, ownerTag_toConnectionArmBody]
    · rintro ⟨hne, htail⟩
      exact (hout htail).trans (hhead.trans (if_neg (Ne.symm hne)))

theorem get?_deleteConnections (sub place : String) (items : List (Document X)) (s : ArmStore X)
    (name : String) (hname : name ≠ "") :
    (deleteConnections (storeProvider kept sub place) items s).connections.get? name =
      if name ∈ items.map (Value.textAt · "name") then none else s.connections.get? name := by
  induction items generalizing s with
  | nil => simp [deleteConnections]
  | cons item items ih =>
    unfold deleteConnections
    dsimp only
    rw [ih, List.map_cons]
    by_cases hitem : Value.textAt item "name" = name
    · have hne : Value.textAt item "name" ≠ "" := hitem ▸ hname
      rw [if_neg hne]
      have hgone : (s.delete (.connection (Value.textAt item "name"))).connections.get? name =
          none := (Dict.get?_erase ..).trans (if_pos hitem)
      simp [hitem, storeProvider]
      intro _
      rw [← hitem] at hgone ⊢
      exact hgone
    · have hstay : (if Value.textAt item "name" = "" then s
          else (s.delete (.connection (Value.textAt item "name")))).connections.get? name =
            s.connections.get? name := by
        split_ifs
        · rfl
        · exact (Dict.get?_erase ..).trans (if_neg hitem)
      have hmem : name ∈ Value.textAt item "name" :: items.map (Value.textAt · "name") ↔
          name ∈ items.map (Value.textAt · "name") := by
        simp [Ne.symm hitem]
      rw [if_congr hmem rfl rfl]
      congr 1

end

section
variable {X : Type} [Value.ScalarEq X] [Json.FloatText X] {H : Type} [DecidableEq H]
  (lower : String → String) (sha : Text → H) (hexdigest : H → String)
  (kept : ArmResource → Document X → Document X) (subscriptionId location : String)
  (parse : Value X → Option (SentinelPlaybookPayload X))

/-- The ARM names of the connections an envelope declares. -/
def declaredNames (la : LoadedAsset X) : List String :=
  match parse la.payload with
  | some payload => payload.connections.map (connectionArmName la.envelope.id)
  | none => []

/-- A call of `apply` that succeeds. -/
def Applies (la : LoadedAsset X) (s s' : ArmStore X) : Prop :=
  ∃ r, apply lower sha hexdigest (storeProvider kept subscriptionId location) parse la s =
    some (r, s') ∧ r.status = "success"

/-- Calls of `apply` that succeed, one after the other. -/
inductive Runs (s₀ : ArmStore X) : List (LoadedAsset X) → ArmStore X → Prop
  | start : Runs s₀ [] s₀
  | step {las : List (LoadedAsset X)} {la : LoadedAsset X} {s s' : ArmStore X} (h : Runs s₀ las s)
      (happlies : Applies lower sha hexdigest kept subscriptionId location parse la s s') :
      Runs s₀ (las ++ [la]) s'

/-- The envelope is the last one of its workflow that was applied. -/
def LastApplied (las : List (LoadedAsset X)) (la : LoadedAsset X) : Prop :=
  ∃ before after, las = before ++ la :: after ∧ ∀ other ∈ after, workflowName other ≠ workflowName la

/-- Deleting the playbook takes along the connections of its last apply that no other playbook's
workflow refers to, and none that one does. -/
def DeletesOwn (las : List (LoadedAsset X)) (s : ArmStore X) (la : LoadedAsset X) : Prop :=
  let s' := (delete (storeProvider kept subscriptionId location) (workflowName la) s).2
  (∀ c ∈ declaredNames parse la, (∀ other ∈ las, workflowName other ≠ workflowName la →
      ¬ Referenced s (workflowName other) c) → s'.connections.get? c = none) ∧
    ∀ other ∈ las, workflowName other ≠ workflowName la → ∀ c, Referenced s (workflowName other) c →
      s'.connections.get? c = s.connections.get? c

/-- The envelope's workflow has the envelope's id for its name, and no connection that it declares
is one that another playbook's workflow refers to. -/
def KeepsApart (las : List (LoadedAsset X)) (s : ArmStore X) (la : LoadedAsset X) : Prop :=
  workflowName la = la.envelope.id ∧ ∀ c ∈ declaredNames parse la, ∀ other ∈ las,
    workflowName other ≠ workflowName la → ¬ Referenced s (workflowName other) c

/-- A run whose steps all keep the playbooks apart. -/
inductive ApartRuns (s₀ : ArmStore X) : List (LoadedAsset X) → ArmStore X → Prop
  | start : ApartRuns s₀ [] s₀
  | step {las : List (LoadedAsset X)} {la : LoadedAsset X} {s s' : ArmStore X}
      (h : ApartRuns s₀ las s) (hapart : KeepsApart parse las s la)
      (happlies : Applies lower sha hexdigest kept subscriptionId location parse la s s') :
      ApartRuns s₀ (las ++ [la]) s'

/-- What an apply that succeeds changes. -/
structure Changes (la : LoadedAsset X) (s s' : ArmStore X) : Prop where
  own : ∀ c, Referenced s' (workflowName la) c ↔ c ∈ declaredNames parse la
  others : ∀ w, w ≠ workflowName la → s'.workflows.get? w = s.workflows.get? w
  tagged : ∀ c ∈ declaredNames parse la, ∃ doc, s'.connections.get? c = some doc ∧
    ownerTag doc = la.envelope.id
  untouched : ∀ c, c ∉ declaredNames parse la → s'.connections.get? c = s.connections.get? c

variable {lower sha hexdigest kept subscriptionId location}

omit [Value.ScalarEq X] [Json.FloatText X] in
theorem connectionRefs_of_refs_nil (payload : SentinelPlaybookPayload X) (place : String)
    (h : Dict.contains payload.parameters "$connections" = false) :
    connectionRefs (toWorkflowArmBody payload place []) = [] := by
  have hget : Dict.get? payload.parameters "$connections" = none := by
    simpa [Dict.contains] using h
  unfold connectionRefs toWorkflowArmBody
  dsimp only
  by_cases hnil : payload.parameters = []
  · simp [hnil, dictAt, Value.get, Dict.get?]
    rfl
  · simp [hnil, dictAt, Value.get, Dict.get?, hget]
    rfl

omit [Value.ScalarEq X] in
theorem Applies.changes (hkept : Stores kept) {references : Document X → List String}
    {validRole : Value X → Bool} {la : LoadedAsset X} {s s' : ArmStore X}
    (h : Applies lower sha hexdigest kept subscriptionId location
      (parsePayload lower references validRole) la s s') :
    Changes (parsePayload lower references validRole) la s s' := by
  obtain ⟨r, happly, hr⟩ := h
  obtain ⟨payload, refs, hparse, hsent⟩ :=
    apply_store lower kept subscriptionId location sha hexdigest happly hr
  obtain ⟨d, vs, -, -, -, hnodup, hparams⟩ := parsePayload_connections hparse
  set place := orText (payload.location.getD "") location
  have hnames : declaredNames (parsePayload lower references validRole) la =
      payload.connections.map (connectionArmName la.envelope.id) := by
    rw [declaredNames, hparse]
  have hworkflow : s'.workflows.get? (workflowName la) =
      some (kept (.workflow (workflowName la)) (toWorkflowArmBody payload place refs)) := by
    rw [hsent.store]
    exact Dict.get?_set_self ..
  -- The references that were sent are those of the declared connections.
  have hrefs : ∀ c, Refers (toWorkflowArmBody payload place refs) c ↔
      c ∈ payload.connections.map (connectionArmName la.envelope.id) := by
    intro c
    constructor
    · rintro ⟨key, ref, hget, rfl⟩
      have hne : refs ≠ [] := by
        rintro rfl
        rw [connectionRefs_of_refs_nil payload place hparams] at hget
        exact absurd hget (by simp)
      rw [connectionRefs_toWorkflowArmBody payload place hne, Dict.get?_mapVals] at hget
      obtain ⟨ref', href', heq⟩ := Option.map_eq_some_iff.mp hget
      obtain rfl := Value.dict.inj heq
      by_cases hconn : ∃ conn ∈ payload.connections, conn.name = key
      · obtain ⟨conn, hmem, rfl⟩ := hconn
        obtain ⟨ref'', hget'', hname⟩ := hsent.refs hnodup conn hmem
        obtain rfl := Option.some.inj (href'.symm.trans hget'')
        exact List.mem_map.mpr ⟨conn, hmem, hname.symm⟩
      · have hnone := hsent.others key fun conn hmem heq => hconn ⟨conn, hmem, heq⟩
        exact absurd (href'.symm.trans hnone) (by simp)
    · intro hc
      obtain ⟨conn, hmem, rfl⟩ := List.mem_map.mp hc
      obtain ⟨ref, hget, hname⟩ := hsent.refs hnodup conn hmem
      have hne : refs ≠ [] := by
        rintro rfl
        exact absurd hget (by simp)
      refine ⟨conn.name, ref, ?_, hname⟩
      rw [connectionRefs_toWorkflowArmBody payload place hne, Dict.get?_mapVals, hget]
      rfl
  refine ⟨?_, ?_, ?_, ?_⟩
  · intro c
    rw [hnames, ← hrefs c, Referenced, hworkflow]
    unfold Refers
    simp [hkept.refs]
  · intro w hw
    rw [hsent.store]
    show (Dict.set _ _ _).get? w = _
    rw [Dict.get?_set, if_neg (Ne.symm hw), workflows_putConnections]
  · intro c hc
    rw [hnames] at hc
    rw [hsent.store]
    exact (connections_putConnections lower subscriptionId hkept la.envelope.id place
      payload.connections s c).1 hc
  · intro c hc
    rw [hnames] at hc
    rw [hsent.store]
    exact (connections_putConnections lower subscriptionId hkept la.envelope.id place
      payload.connections s c).2 hc

variable {references : Document X → List String} {validRole : Value X → Bool}
  {las : List (LoadedAsset X)} {la b : LoadedAsset X} {s₀ s s' : ArmStore X}

omit [Value.ScalarEq X] [Json.FloatText X] in
theorem lastApplied_concat (h : LastApplied (las ++ [la]) b) :
    b = la ∨ workflowName b ≠ workflowName la ∧ LastApplied las b := by
  obtain ⟨before, after, heq, hafter⟩ := h
  rcases List.eq_nil_or_concat' after with rfl | ⟨after, x, rfl⟩
  · exact .inl (List.append_inj_right' heq rfl |> List.cons.inj).1.symm
  · have heq' : las ++ [la] = (before ++ b :: after) ++ [x] := by simpa using heq
    obtain rfl := (List.cons.inj (List.append_inj_right' heq' rfl)).1
    refine .inr ⟨(hafter la (by simp)).symm, before, after, List.append_inj_left' heq' rfl, ?_⟩
    exact fun other hother => hafter other (List.mem_append_left _ hother)

omit [Value.ScalarEq X] [Json.FloatText X] in
theorem exists_lastApplied (h : b ∈ las) :
    ∃ last, LastApplied las last ∧ workflowName last = workflowName b := by
  induction las using List.reverseRecOn with
  | nil => exact absurd h (by simp)
  | append_singleton las x ih =>
    by_cases hname : workflowName x = workflowName b
    · exact ⟨x, ⟨las, [], rfl, by simp⟩, hname⟩
    · have hmem : b ∈ las := by
        rcases List.mem_append.mp h with h | h
        · exact h
        · exact absurd (congrArg workflowName (List.mem_singleton.mp h)).symm hname
      obtain ⟨last, ⟨before, after, rfl, hafter⟩, hlast⟩ := ih hmem
      refine ⟨last, ⟨before, after ++ [x], by simp, ?_⟩, hlast⟩
      intro other hother
      rcases List.mem_append.mp hother with hother | hother
      · exact hafter other hother
      · rw [List.mem_singleton.mp hother, hlast]
        exact hname

omit [Value.ScalarEq X] [Json.FloatText X] in
theorem ne_empty_of_mem_declaredNames {parse : Value X → Option (SentinelPlaybookPayload X)}
    {c : String} (h : c ∈ declaredNames parse la) : c ≠ "" := by
  unfold declaredNames at h
  split at h
  · obtain ⟨conn, -, rfl⟩ := List.mem_map.mp h
    exact connectionArmName_ne_empty _ conn
  · exact absurd h (by simp)

/-- Every connection that a workflow refers to has the tag of that workflow. -/
structure Owned (parse : Value X → Option (SentinelPlaybookPayload X)) (las : List (LoadedAsset X))
    (s : ArmStore X) : Prop where
  tag : ∀ b ∈ las, ∀ c, Referenced s (workflowName b) c →
    ∃ doc, s.connections.get? c = some doc ∧ ownerTag doc = workflowName b
  last : ∀ b, LastApplied las b → ∀ c, Referenced s (workflowName b) c ↔ c ∈ declaredNames parse b

omit [Value.ScalarEq X] [Json.FloatText X] in
theorem Owned.step {parse : Value X → Option (SentinelPlaybookPayload X)} (h : Owned parse las s)
    (hapart : KeepsApart parse las s la) (hchanges : Changes parse la s s') :
    Owned parse (las ++ [la]) s' := by
  have hothers : ∀ w, w ≠ workflowName la → ∀ c, Referenced s' w c ↔ Referenced s w c := by
    intro w hw c
    rw [Referenced, Referenced, hchanges.others w hw]
  constructor
  · intro b hb c hc
    by_cases hname : workflowName b = workflowName la
    · rw [hname] at hc ⊢
      rw [hapart.1]
      exact hchanges.tagged c ((hchanges.own c).mp hc)
    · have hmem : b ∈ las := by
        rcases List.mem_append.mp hb with hb | hb
        · exact hb
        · exact absurd (congrArg workflowName (List.mem_singleton.mp hb)) hname
      have hold := (hothers _ hname c).mp hc
      rw [hchanges.untouched c fun hdeclared => hapart.2 c hdeclared b hmem hname hold]
      exact h.tag b hmem c hold
  · intro b hb c
    rcases lastApplied_concat hb with rfl | ⟨hname, hlast⟩
    · exact hchanges.own c
    · rw [hothers _ hname]
      exact h.last b hlast c

omit [Value.ScalarEq X] in
theorem ApartRuns.owned (hkept : Stores kept)
    (h : ApartRuns lower sha hexdigest kept subscriptionId location
      (parsePayload lower references validRole) s₀ las s) :
    Owned (parsePayload lower references validRole) las s := by
  induction h with
  | start =>
    refine ⟨fun b hb => absurd hb (by simp), ?_⟩
    rintro b ⟨before, after, heq, -⟩
    exact absurd heq (by simp)
  | step _ hapart happlies ih => exact ih.step hapart (happlies.changes hkept)

omit [Value.ScalarEq X] [Json.FloatText X] in
/-- What the deletion leaves: the tag of the connection decides. -/
theorem get?_delete (w c : String) (hc : c ≠ "") :
    (delete (storeProvider kept subscriptionId location) w s).2.connections.get? c =
      if (s.connections.get? c).any fun doc => ownerTag doc = w then none
      else s.connections.get? c := by
  unfold delete
  dsimp only [storeProvider]
  rw [if_neg (by decide)]
  have hget := get?_deleteConnections kept subscriptionId location
    ((s.connections.keys.filter fun name =>
      (s.connections.get? name).any fun doc => ownerTag doc = w).map fun name =>
        [("name", .str name)]) (s.delete (.workflow w)) c hc
  have hnames : ∀ names : List String,
      (names.map fun name => [("name", (.str name : Value X))]).map (Value.textAt · "name") =
        names := by
    intro names
    simp [Value.textAt, Dict.get?, Function.comp_def]
  rw [hnames] at hget
  refine hget.trans ?_
  by_cases htag : (s.connections.get? c).any (fun doc => ownerTag doc = w) = true
  · rw [if_pos htag, if_pos]
    obtain ⟨doc, hdoc, -⟩ := (Option.any_eq_true _ _).mp htag
    exact List.mem_filter.mpr ⟨Dict.mem_keys_of_get? hdoc, htag⟩
  · have hnot : c ∉ s.connections.keys.filter fun name =>
        (s.connections.get? name).any fun doc => ownerTag doc = w :=
      fun hmem => htag (List.mem_filter.mp hmem).2
    rw [if_neg htag]
    exact if_neg hnot

omit [Value.ScalarEq X] in
/-- In every state that such a run reaches, deleting a playbook takes along its own connections. -/
theorem deletesOwn_of_apartRuns (hkept : Stores kept)
    (hrun : ApartRuns lower sha hexdigest kept subscriptionId location
      (parsePayload lower references validRole) s₀ las s) (hb : LastApplied las b) :
    DeletesOwn kept subscriptionId location (parsePayload lower references validRole) las s b := by
  have howned := hrun.owned hkept
  have hmem : b ∈ las := by
    obtain ⟨before, after, rfl, -⟩ := hb
    exact List.mem_append_right _ List.mem_cons_self
  constructor
  · intro c hc _
    obtain ⟨doc, hdoc, htag⟩ := howned.tag b hmem c ((howned.last b hb c).mpr hc)
    rw [get?_delete _ c (ne_empty_of_mem_declaredNames hc), hdoc, Option.any_some]
    exact if_pos (decide_eq_true htag)
  · intro other hother hname c hc
    obtain ⟨doc, hdoc, htag⟩ := howned.tag other hother c hc
    obtain ⟨last, hlast, hlastName⟩ := exists_lastApplied hother
    have hdeclared := (howned.last last hlast c).mp (hlastName ▸ hc)
    rw [get?_delete _ c (ne_empty_of_mem_declaredNames hdeclared), hdoc, Option.any_some]
    exact if_neg fun h => hname (htag.symm.trans (of_decide_eq_true h))

end

theorem stores_id {X : Type} : Stores (X := X) fun _ body => body := ⟨fun _ _ => rfl, fun _ _ => rfl⟩

/-- The same workflow under a name that is its own slug. -/
def slugWorkflow : Document Empty := notifyWorkflow.set "name" (.str "notify-soc")

/-- The collected workflow, applied to an empty resource group. -/
def slugRun : Option (LoadedAsset Empty × ActionResult × ArmStore Empty) :=
  (collectedAsset lowerAscii slugWorkflow).bind fun la =>
    (apply lowerAscii id String.ofList (storeProvider (fun _ body => body) "sub" "westeurope")
      (parsePayload lowerAscii (fun _ => []) fun _ => true) la emptyGroup).map (la, ·)

theorem deletesOwn_slugWorkflow : ∃ la s,
    ApartRuns lowerAscii id String.ofList (fun _ body => body) "sub" "westeurope"
      (parsePayload lowerAscii (fun _ => []) fun _ => true) emptyGroup [la] s ∧
    DeletesOwn (fun _ body => body) "sub" "westeurope"
      (parsePayload lowerAscii (fun _ => []) fun _ => true) [la] s la := by
  have hrun : slugRun.any (fun out => workflowName out.1 = out.1.envelope.id ∧
      out.2.1.status = "success") = true := by decide +kernel
  obtain ⟨⟨la, r, s⟩, hout, hr⟩ := (Option.any_eq_true _ _).mp hrun
  obtain ⟨hname, hstatus⟩ := of_decide_eq_true hr
  obtain ⟨la, -, hmap⟩ := Option.bind_eq_some_iff.mp hout
  obtain ⟨out, happly, heq⟩ := Option.map_eq_some_iff.mp hmap
  obtain ⟨rfl, rfl⟩ := Prod.mk.inj heq
  have hruns : ApartRuns lowerAscii id String.ofList (fun _ body => body) "sub" "westeurope"
      (parsePayload lowerAscii (fun _ => []) fun _ => true) emptyGroup ([] ++ [la]) s :=
    .step .start ⟨hname, fun _ _ _ h => absurd h (by simp)⟩ ⟨r, happly, hstatus⟩
  exact ⟨la, s, hruns, deletesOwn_of_apartRuns stores_id hruns ⟨[], [], rfl, by simp⟩⟩

/-- The connection has the id `notify-soc` for its tag, the deletion looks for `Notify_SOC`. -/
theorem notifyRun_leaves_connection : ∃ la s,
    Runs lowerAscii id String.ofList (fun _ body => body) "sub" "westeurope"
      (parsePayload lowerAscii (fun _ => []) fun _ => true) emptyGroup [la] s ∧
    ¬ DeletesOwn (fun _ body => body) "sub" "westeurope"
      (parsePayload lowerAscii (fun _ => []) fun _ => true) [la] s la := by
  have hrun : ((collectedAsset lowerAscii notifyWorkflow).bind fun la =>
      (apply lowerAscii id String.ofList (storeProvider (fun _ body => body) "sub" "westeurope")
        (parsePayload lowerAscii (fun _ => []) fun _ => true) la emptyGroup).map (la, ·)).any
      (fun out => out.2.1.status = "success" ∧
        "notify-soc-azuresentinel" ∈
          declaredNames (parsePayload lowerAscii (fun _ => []) fun _ => true) out.1 ∧
        ((delete (storeProvider (fun _ body => body) "sub" "westeurope") (workflowName out.1)
          out.2.2).2.connections.get? "notify-soc-azuresentinel").isSome) = true := by
    decide +kernel
  obtain ⟨⟨la, r, s⟩, hout, hr⟩ := (Option.any_eq_true _ _).mp hrun
  obtain ⟨hstatus, hdeclared, hleft⟩ := of_decide_eq_true hr
  obtain ⟨la, -, hmap⟩ := Option.bind_eq_some_iff.mp hout
  obtain ⟨out, happly, heq⟩ := Option.map_eq_some_iff.mp hmap
  obtain ⟨rfl, rfl⟩ := Prod.mk.inj heq
  have hruns : Runs lowerAscii id String.ofList (fun _ body => body) "sub" "westeurope"
      (parsePayload lowerAscii (fun _ => []) fun _ => true) emptyGroup ([] ++ [la]) s :=
    .step .start ⟨r, happly, hstatus⟩
  refine ⟨la, s, hruns, fun howns => ?_⟩
  have hgone := howns.1 "notify-soc-azuresentinel" hdeclared fun other hother hne =>
    absurd (congrArg workflowName (List.mem_singleton.mp hother)) hne
  rw [hgone] at hleft
  exact absurd hleft (by simp)

end ContentOps.Playbook
