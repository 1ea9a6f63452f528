import ContentOps.Playbook.ArmStore
import ContentOps.Library.OptionMap

/-! A collected playbook that is applied again: which of its API connections stay where they are. -/

namespace ContentOps.Playbook
open PyData

section
variable {X : Type} {lower : String → String}

/-- What of a payload that validates the requests are made of. -/
theorem parsePayload_connections {references : Document X → List String}
    {validRole : Value X → Bool} {v : Value X} {payload : SentinelPlaybookPayload X}
    (h : parsePayload lower references validRole v = some payload) :
    ∃ d vs, v = .dict d ∧ withDefault d "connections" (.list []) = .list vs ∧
      vs.mapM (parseConnection lower) = some payload.connections ∧
      (payload.connections.map (·.name)).Nodup ∧
      Dict.contains payload.parameters "$connections" = false := by
  unfold parsePayload at h
  obtain ⟨d, hd, h⟩ := Option.bind_eq_some_iff.mp h
  obtain ⟨place, -, h⟩ := Option.bind_eq_some_iff.mp h
  obtain ⟨state, -, h⟩ := Option.bind_eq_some_iff.mp h
  obtain ⟨identity, -, h⟩ := Option.bind_eq_some_iff.mp h
  obtain ⟨tagEntries, -, h⟩ := Option.bind_eq_some_iff.mp h
  obtain ⟨tags, -, h⟩ := Option.bind_eq_some_iff.mp h
  obtain ⟨entries, hentries, h⟩ := Option.bind_eq_some_iff.mp h
  obtain ⟨connections, hconnections, h⟩ := Option.bind_eq_some_iff.mp h
  obtain ⟨roles, -, h⟩ := Option.bind_eq_some_iff.mp h
  obtain ⟨definitionFile, -, h⟩ := Option.bind_eq_some_iff.mp h
  obtain ⟨definition, -, h⟩ := Option.bind_eq_some_iff.mp h
  obtain ⟨parameters, -, h⟩ := Option.bind_eq_some_iff.mp h
  split_ifs at h with hvalid
  obtain rfl := Option.some.inj h
  obtain ⟨-, -, -, -, -, -, hnodup, hparameters, -⟩ := hvalid
  exact ⟨d, entries, Value.dict?_eq_some hd, items?_eq_some hentries, hconnections, hnodup,
    by simpa using hparameters⟩

theorem parseConnection_dict {d : Document X} {conn : PlaybookConnection}
    (h : parseConnection lower (.dict d) = some conn) :
    requiredText d "name" = some conn.name ∧
      optionalText? (Value.get d "connectionName") = some conn.connectionName := by
  unfold parseConnection at h
  obtain ⟨d', hd, h⟩ := Option.bind_eq_some_iff.mp h
  obtain rfl := Option.some.inj hd
  obtain ⟨name, hname, h⟩ := Option.bind_eq_some_iff.mp h
  obtain ⟨apiName, -, h⟩ := Option.bind_eq_some_iff.mp h
  obtain ⟨authMode, -, h⟩ := Option.bind_eq_some_iff.mp h
  obtain ⟨displayName, -, h⟩ := Option.bind_eq_some_iff.mp h
  obtain ⟨connectionName, hconn, h⟩ := Option.bind_eq_some_iff.mp h
  dsimp only at h
  split_ifs at h
  obtain rfl := Option.some.inj h
  exact ⟨hname, hconn⟩

/-- The connection that the entry of a key of `$connections` declares. -/
theorem parseConnection_entry {remoteName key : String} {ref : Document X}
    {conn : PlaybookConnection}
    (h : parseConnection lower (.dict (connectionEntry lower remoteName key ref)) = some conn) :
    conn.name = key ∧ conn.connectionName =
      if Value.textAt ref "connectionName" ≠ "" ∧
        Value.textAt ref "connectionName" ≠ remoteName ++ "-" ++ key
      then some (Value.textAt ref "connectionName") else none := by
  obtain ⟨hname, hconn⟩ := parseConnection_dict h
  refine ⟨(Option.some.inj hname).symm, ?_⟩
  unfold connectionEntry Value.get at hconn
  dsimp only at hconn
  rw [List.append_assoc, List.singleton_append, Dict.get?_cons_ne (by decide),
    Dict.get?_append] at hconn
  have hapi : ∀ (c : Prop) [Decidable c] (s : String),
      Dict.get? (if c then [("apiName", (.str s : Value X))] else []) "connectionName" = none := by
    intro c _ s
    split_ifs <;> simp [Dict.get?]
  rw [hapi, Option.none_or] at hconn
  split_ifs at hconn ⊢
  all_goals exact (Option.some.inj hconn).symm

end

/-! ## The asset that is collected -/

section
variable {X : Type} [Value.ScalarEq X]

/-- The asset that the collected envelope is loaded as. -/
def collectedAsset (lower : String → String) (remote : Document X) : Option (LoadedAsset X) :=
  (toEnvelope lower remote).map fun envelope =>
    { path := ["detections", "sentinel_playbook", Value.textAt envelope "id" ++ ".yml"]
      envelope :=
        { id := Value.textAt envelope "id"
          version := Value.textAt envelope "version"
          asset := .sentinelPlaybook
          status := Value.textAt envelope "status"
          armName := some (Value.textAt (dictAt envelope "metadata") "arm_name") }
      payload := Value.get envelope "payload" }

structure CollectedAs (lower : String → String) (remote : Document X) (la : LoadedAsset X) : Prop where
  name : Value.textAt remote "name" ≠ ""
  id : la.envelope.id = Slug.displaynameSlug (Value.textAt remote "name")
    (some (Value.textAt remote "name"))
  armName : la.envelope.armName = some (Value.textAt remote "name")
  connections : ∃ d entries, la.payload = .dict d ∧
    connectionsFromRemote lower remote = some entries ∧
      withDefault d "connections" (.list []) = .list entries

theorem connections_collectedPayload (remote properties definition : Document X)
    (connections : List (Value X)) :
    withDefault (collectedPayload remote properties definition connections) "connections"
      (.list []) = .list connections := by
  have hskip : ∀ (c : Prop) [Decidable c] (k : String) (v : Value X), k ≠ "connections" →
      Dict.get? (if c then [(k, v)] else []) "connections" = none := by
    intro c _ k v hk
    split_ifs <;> simp [Dict.get?, hk]
  unfold withDefault collectedPayload
  simp only [Dict.get?_append, hskip _ "location" _ (by decide), hskip _ "identity" _ (by decide),
    hskip _ "tags" _ (by decide), hskip _ "parameters" _ (by decide)]
  split_ifs with hne
  · simp [Dict.get?]
  · simp [Dict.get?, not_not.mp hne]

theorem collectedAsset_eq_some {lower : String → String} {remote : Document X} {la : LoadedAsset X}
    (h : collectedAsset lower remote = some la) : CollectedAs lower remote la := by
  obtain ⟨envelope, henv, rfl⟩ := Option.map_eq_some_iff.mp h
  unfold toEnvelope at henv
  dsimp only at henv
  split at henv
  · next definition hdefinition =>
    split_ifs at henv with hname hslug
    · obtain ⟨entries, -, henv⟩ := Option.bind_eq_some_iff.mp henv
      exact absurd henv (by simp)
    · obtain ⟨entries, hentries, henv⟩ := Option.bind_eq_some_iff.mp henv
      obtain rfl := Option.some.inj henv
      have hget := connections_collectedPayload remote
        ((dictAt remote "properties").filter fun p => p.1 ∉ serverPropertyFields) definition entries
      refine ⟨hname, ?_, ?_, _, entries, ?_, hentries, hget⟩
      · simp [Value.textAt, Dict.get?]
      · simp [dictAt, Value.get, Value.textAt, Dict.get?]
      · simp [Value.get, Dict.get?]
  · exact absurd henv (by simp)

end

/-! ## Applying it -/

section
variable {X : Type} (lower : String → String) (kept : ArmResource → Document X → Document X)
  (subscriptionId location : String)

/-- The connections are put where they were, and the workflow refers to them there. -/
def KeepsConnections (remote : Document X) (after : ArmStore X) : Prop :=
  ∃ body, (ArmResource.workflow (Value.textAt remote "name"), body) ∈ after.puts ∧
    ∀ key ref, (connectionRefs remote).get? key = some (.dict ref) →
      Value.textAt ref "connectionName" ≠ "" →
        (∃ b, (ArmResource.connection (Value.textAt ref "connectionName"), b) ∈ after.puts) ∧
          ∃ ref', (connectionRefs body).get? key = some (.dict ref') ∧
            Value.textAt ref' "connectionName" = Value.textAt ref "connectionName"

theorem puts_putConnections (envelopeId place : String) (conns : List PlaybookConnection)
    (s : ArmStore X) :
    (putConnections lower kept subscriptionId envelopeId place conns s).puts = s.puts ++
      conns.map fun c => (ArmResource.connection (connectionArmName envelopeId c),
        toConnectionArmBody lower c envelopeId place subscriptionId) := by
  induction conns generalizing s with
  | nil => simp [putConnections]
  | cons c conns ih =>
    have hrest := ih (s.put kept (.connection (connectionArmName envelopeId c))
      (toConnectionArmBody lower c envelopeId place subscriptionId))
    unfold putConnections at hrest ⊢
    rw [List.foldl_cons, hrest, List.map_cons]
    simp [ArmStore.put]

variable {lower kept subscriptionId location}

theorem connectionRefs_toWorkflowArmBody (payload : SentinelPlaybookPayload X) (place : String)
    {refs : Dict String (Document X)} (h : refs ≠ []) :
    connectionRefs (toWorkflowArmBody payload place refs) = refs.mapVals .dict := by
  have hparams : Dict.set payload.parameters "$connections"
      (.dict [("value", .dict (refs.mapVals .dict))]) ≠ [] := by
    intro hnil
    have hget := Dict.get?_set_self payload.parameters "$connections"
      (.dict [("value", .dict (refs.mapVals .dict))])
    rw [hnil] at hget
    exact absurd hget (by simp)
  unfold connectionRefs toWorkflowArmBody
  simp only [if_neg h, if_neg hparams]
  simp [dictAt, Value.get, Dict.get?]

/-- A connection keeps its name unless it has the one that the handler leaves out of the file and
the slug of the workflow's name is another text. -/
theorem connectionArmName_entry {remoteName key id : String} {ref : Document X}
    {conn : PlaybookConnection}
    (h : parseConnection lower (.dict (connectionEntry lower remoteName key ref)) = some conn)
    (hne : Value.textAt ref "connectionName" ≠ "") :
    connectionArmName id conn = Value.textAt ref "connectionName" ↔
      id = remoteName ∨ Value.textAt ref "connectionName" ≠ remoteName ++ "-" ++ key := by
  obtain ⟨hname, hconn⟩ := parseConnection_entry h
  unfold connectionArmName
  rw [hconn, hname]
  by_cases hdefault : Value.textAt ref "connectionName" = remoteName ++ "-" ++ key
  · simp only [hdefault, ne_eq, not_true_eq_false, and_false, if_false, or_false, Option.getD_none]
    constructor
    · intro heq
      have hlist := congrArg String.toList heq
      exact String.toList_injective (by simpa [orText] using hlist)
    · rintro rfl
      simp [orText]
  · simp [hne, hdefault, orText]

variable [Value.ScalarEq X] [Json.FloatText X] {H : Type} [DecidableEq H] {sha : Text → H}
  {hexdigest : H → String} {references : Document X → List String} {validRole : Value X → Bool}

/-- Applying a collected playbook leaves its connections in place exactly when the slug of the
workflow's name is that name, or no connection has the name the handler leaves out of the file. -/
theorem keepsConnections_iff {remote : Document X} {la : LoadedAsset X} {s s' : ArmStore X}
    {r : ActionResult} (hla : collectedAsset lower remote = some la) (hs : s.puts = [])
    (happly : apply lower sha hexdigest (storeProvider kept subscriptionId location)
      (parsePayload lower references validRole) la s = some (r, s')) (hr : r.status = "success") :
    KeepsConnections remote s' ↔
      Slug.displaynameSlug (Value.textAt remote "name") (some (Value.textAt remote "name")) =
          Value.textAt remote "name" ∨
        ∀ key ref, (connectionRefs remote).get? key = some (.dict ref) →
          Value.textAt ref "connectionName" ≠ Value.textAt remote "name" ++ "-" ++ key := by
  have hcol := collectedAsset_eq_some hla
  obtain ⟨payload, refs, hparse, hsent⟩ :=
    apply_store lower kept subscriptionId location sha hexdigest happly hr
  obtain ⟨d, vs, hd, hvs, hconns, hnodup, -⟩ := parsePayload_connections hparse
  obtain ⟨d', entries, hd', hentries, hentries'⟩ := hcol.connections
  obtain rfl : d = d' := Value.dict.inj (hd.symm.trans hd')
  obtain rfl : vs = entries := Value.list.inj (hvs.symm.trans hentries')
  set name := Value.textAt remote "name" with hname
  have hworkflow : workflowName la = name := by
    simp [workflowName, hcol.armName, orText, hcol.name, hname]
  -- Each key of `$connections` is a connection of the payload.
  have hdeclared : ∀ key ref, (connectionRefs remote).get? key = some (.dict ref) →
      ∃ conn ∈ payload.connections,
        parseConnection lower (.dict (connectionEntry lower name key ref)) = some conn := by
    intro key ref hget
    obtain ⟨entry, hmem, hentry⟩ := mem_of_mapM hentries (Dict.mem_of_get? hget)
    obtain ⟨conn, hconn, hparsed⟩ := mem_of_mapM hconns hmem
    obtain rfl := Option.some.inj hentry
    exact ⟨conn, hconn, hparsed⟩
  set place := orText (payload.location.getD "") location with hplace
  have hputs : s'.puts = (payload.connections.map fun c =>
      (ArmResource.connection (connectionArmName la.envelope.id c),
        toConnectionArmBody lower c la.envelope.id place subscriptionId)) ++
      [(.workflow name, toWorkflowArmBody payload place refs)] := by
    rw [hsent.store, ← hworkflow]
    show (putConnections ..).puts ++ [_] = _
    rw [puts_putConnections, hs, List.nil_append]
  -- What the workflow refers to under the key of a connection.
  have hrefs : ∀ conn ∈ payload.connections, ∃ ref',
      (connectionRefs (toWorkflowArmBody payload place refs)).get? conn.name = some (.dict ref') ∧
        Value.textAt ref' "connectionName" = connectionArmName la.envelope.id conn := by
    intro conn hconn
    obtain ⟨ref', hget, hconnName⟩ := hsent.refs hnodup conn hconn
    have hne : refs ≠ [] := by
      rintro rfl
      exact absurd hget (by simp)
    refine ⟨ref', ?_, hconnName⟩
    rw [connectionRefs_toWorkflowArmBody payload place hne, Dict.get?_mapVals, hget]
    rfl
  constructor
  · rintro ⟨body, hbody, hkeeps⟩
    have hbody' : body = toWorkflowArmBody payload place refs := by
      rw [hputs] at hbody
      rcases List.mem_append.mp hbody with hmem | hmem
      · obtain ⟨c, -, heq⟩ := List.mem_map.mp hmem
        exact absurd (Prod.mk.inj heq).1 (by simp)
      · exact (Prod.mk.inj (List.mem_singleton.mp hmem)).2
    subst hbody'
    by_contra hcon
    obtain ⟨hslug, hall⟩ := not_or.mp hcon
    push Not at hall
    obtain ⟨key, ref, hget, hdefault⟩ := hall
    have hne : Value.textAt ref "connectionName" ≠ "" := by
      rw [hdefault]
      intro h
      have hlist := congrArg String.toList h
      simp at hlist
    obtain ⟨conn, hconn, hparsed⟩ := hdeclared key ref hget
    obtain ⟨-, ref', hget', hsame⟩ := hkeeps key ref hget hne
    obtain ⟨ref'', hget'', hname''⟩ := hrefs conn hconn
    rw [(parseConnection_entry hparsed).1, hget'] at hget''
    obtain rfl := Value.dict.inj (Option.some.inj hget'')
    have hkept := (connectionArmName_entry hparsed hne).mp (hname''.symm.trans hsame)
    rcases hkept with hid | hnot
    · exact hslug (hcol.id.symm.trans hid)
    · exact hnot hdefault
  · intro hcond
    refine ⟨toWorkflowArmBody payload place refs,
      hputs ▸ List.mem_append_right _ List.mem_cons_self, ?_⟩
    intro key ref hget hne
    obtain ⟨conn, hconn, hparsed⟩ := hdeclared key ref hget
    have hkept : connectionArmName la.envelope.id conn = Value.textAt ref "connectionName" :=
      (connectionArmName_entry hparsed hne).mpr
        (hcond.imp (fun h => hcol.id.trans h) fun h => h key ref hget)
    constructor
    · refine ⟨toConnectionArmBody lower conn la.envelope.id place subscriptionId, ?_⟩
      rw [hputs, ← hkept]
      exact List.mem_append_left _ (List.mem_map_of_mem (f := fun c =>
        (ArmResource.connection (connectionArmName la.envelope.id c),
          toConnectionArmBody lower c la.envelope.id place subscriptionId)) hconn)
    · obtain ⟨ref', hget', hname'⟩ := hrefs conn hconn
      rw [(parseConnection_entry hparsed).1] at hget'
      exact ⟨ref', hget', hname'.trans hkept⟩

end

/-! ## A name that is not its own slug -/

def notifyWorkflow : Document Empty :=
  [("name", .str "Notify_SOC"), ("location", .str "westeurope"),
   ("identity", .dict [("type", .str "SystemAssigned")]),
   ("properties", .dict
     [("state", .str "Enabled"),
      ("definition", .dict [("triggers", .dict []), ("actions", .dict [])]),
      ("parameters", .dict [("$connections", .dict [("value", .dict
        [("azuresentinel", .dict
          [("connectionName", .str "Notify_SOC-azuresentinel"),
           ("id", .str "/managedApis/azuresentinel")])])])])])]

def emptyGroup : ArmStore Empty := { workflows := [], connections := [], puts := [] }

/-- The collected workflow, applied to an empty resource group. -/
def notifyRun : Option (ActionResult × ArmStore Empty) :=
  (collectedAsset lowerAscii notifyWorkflow).bind fun la =>
    apply lowerAscii id String.ofList (storeProvider (fun _ body => body) "sub" "westeurope")
      (parsePayload lowerAscii (fun _ => []) fun _ => true) la emptyGroup

theorem notifyRun_moves_connection :
    ∃ la r after, collectedAsset lowerAscii notifyWorkflow = some la ∧
      apply lowerAscii id String.ofList (storeProvider (fun _ body => body) "sub" "westeurope")
        (parsePayload lowerAscii (fun _ => []) fun _ => true) la emptyGroup = some (r, after) ∧
      r.status = "success" ∧ r.verified = some true ∧ ¬ KeepsConnections notifyWorkflow after := by
  have hrun : notifyRun.any (fun out => out.1.status = "success" ∧ out.1.verified = some true ∧
      .connection "Notify_SOC-azuresentinel" ∉ out.2.puts.map Prod.fst) = true := by
    decide +kernel
  obtain ⟨⟨r, after⟩, hout, hr⟩ := (Option.any_eq_true _ _).mp hrun
  obtain ⟨la, hla, happly⟩ := Option.bind_eq_some_iff.mp hout
  obtain ⟨hstatus, hverified, hputs⟩ := of_decide_eq_true hr
  refine ⟨la, r, after, hla, happly, hstatus, hverified, ?_⟩
  rintro ⟨body, -, hkeeps⟩
  obtain ⟨⟨b, hb⟩, -⟩ := hkeeps "azuresentinel" _ rfl (by decide)
  exact hputs (List.mem_map_of_mem (f := Prod.fst) hb)

theorem keepsConnections_iff_notify :
    ∃ la r after, collectedAsset lowerAscii notifyWorkflow = some la ∧
      apply lowerAscii id String.ofList (storeProvider (fun _ body => body) "sub" "westeurope")
        (parsePayload lowerAscii (fun _ => []) fun _ => true) la emptyGroup = some (r, after) ∧
      (KeepsConnections notifyWorkflow after ↔
        Slug.displaynameSlug (Value.textAt notifyWorkflow "name")
            (some (Value.textAt notifyWorkflow "name")) = Value.textAt notifyWorkflow "name" ∨
          ∀ key ref, (connectionRefs notifyWorkflow).get? key = some (.dict ref) →
            Value.textAt ref "connectionName" ≠
              Value.textAt notifyWorkflow "name" ++ "-" ++ key) := by
  have hrun : notifyRun.any (fun out => out.1.status = "success") = true := by decide +kernel
  obtain ⟨⟨r, after⟩, hout, hr⟩ := (Option.any_eq_true _ _).mp hrun
  obtain ⟨la, hla, happly⟩ := Option.bind_eq_some_iff.mp hout
  exact ⟨la, r, after, hla, happly,
    keepsConnections_iff hla rfl happly (of_decide_eq_true hr)⟩

end ContentOps.Playbook
