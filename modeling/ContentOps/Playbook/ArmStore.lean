import ContentOps.Handlers.PlaybookApply

/-! A resource group that keeps what is PUT, and what a successful `apply` leaves in it. -/

namespace ContentOps.Playbook
open PyData

structure ArmStore (X : Type) where
  workflows : Dict String (Document X)
  connections : Dict String (Document X)
  puts : List (ArmResource × Document X)

section
variable {X : Type}

def ArmStore.read (s : ArmStore X) : ArmResource → Option (Document X)
  | .workflow name => s.workflows.get? name
  | .connection name => s.connections.get? name

/-- A PUT; `kept` is what ARM makes of the body. -/
def ArmStore.put (kept : ArmResource → Document X → Document X) (s : ArmStore X) (r : ArmResource)
    (body : Document X) : ArmStore X :=
  let s := { s with puts := s.puts ++ [(r, body)] }
  match r with
  | .workflow name => { s with workflows := s.workflows.set name (kept r body) }
  | .connection name => { s with connections := s.connections.set name (kept r body) }

def ArmStore.delete (s : ArmStore X) : ArmResource → ArmStore X
  | .workflow name => { s with workflows := s.workflows.erase name }
  | .connection name => { s with connections := s.connections.erase name }

/-- The playbook a connection is tagged with. -/
def ownerTag (connection : Document X) : String :=
  Value.textAt (dictAt connection "tags") playbookTag

/-- The resource group as the handler sees it. -/
def storeProvider (kept : ArmResource → Document X → Document X)
    (subscriptionId location : String) : Provider X (ArmStore X) where
  subscriptionId := subscriptionId
  location := location
  resourceId r := match r with
    | .workflow name => "/workflows/" ++ name
    | .connection name => "/connections/" ++ name
  get s r := (match s.read r with
    | some doc => { statusCode := 200, text := "", json := doc }
    | none => { statusCode := 404, text := "", json := [] }, s)
  put s r body _ := ({ statusCode := 200, text := "", json := [] }, s.put kept r body)
  delete s r := ({ statusCode := 200, text := "", json := [] }, s.delete r)
  listTagged s v := ((s.connections.keys.filter fun name =>
    (s.connections.get? name).any fun doc => ownerTag doc = v).map fun name =>
      [("name", .str name)], s)

variable (lower : String → String) (kept : ArmResource → Document X → Document X)
  (subscriptionId location : String)

/-- The PUTs of the connections, in declared order. -/
def putConnections (envelopeId place : String) (conns : List PlaybookConnection)
    (s : ArmStore X) : ArmStore X :=
  conns.foldl (fun s c => s.put kept (.connection (connectionArmName envelopeId c))
    (toConnectionArmBody lower c envelopeId place subscriptionId)) s

theorem applyConnection_store {conn : PlaybookConnection} {envelopeId place : String}
    {s s' : ArmStore X} {ref : Document X}
    (h : applyConnection lower (storeProvider kept subscriptionId location) conn envelopeId place s =
      (.ok ref, s')) :
    s' = s.put kept (.connection (connectionArmName envelopeId conn))
        (toConnectionArmBody lower conn envelopeId place subscriptionId) ∧
      Value.textAt ref "connectionName" = connectionArmName envelopeId conn := by
  unfold applyConnection at h
  dsimp only [storeProvider] at h
  rw [if_neg (by decide), if_neg (by decide)] at h
  split at h
  · exact absurd (Prod.mk.inj h).1 (by simp)
  · obtain ⟨href, rfl⟩ := Prod.mk.inj h
    obtain rfl := Except.ok.inj href
    exact ⟨rfl, rfl⟩

theorem applyConnections_error {envelopeId place : String} {conns : List PlaybookConnection}
    {refs : Dict String (Document X)} {s s' : ArmStore X} {failure : ActionResult}
    (h : applyConnections lower (storeProvider kept subscriptionId location) envelopeId place conns
      refs s = (.error failure, s')) : failure.status = "error-verify" := by
  induction conns generalizing refs s with
  | nil => exact absurd (Prod.mk.inj h).1 (by simp)
  | cons conn conns ih =>
    unfold applyConnections at h
    cases hconn : applyConnection lower (storeProvider kept subscriptionId location) conn envelopeId
        place s with
    | mk answer s₁ =>
      rw [hconn] at h
      cases answer with
      | ok ref => exact ih h
      | error failure' =>
        obtain rfl := Except.error.inj (Prod.mk.inj h).1
        unfold applyConnection at hconn
        dsimp only [storeProvider] at hconn
        rw [if_neg (by decide), if_neg (by decide)] at hconn
        split at hconn
        · exact (Except.error.inj (Prod.mk.inj hconn).1) ▸ rfl
        · exact absurd (Prod.mk.inj hconn).1 (by simp)

/-- The references of the connections that were PUT. -/
theorem applyConnections_store {envelopeId place : String} {conns : List PlaybookConnection}
    {refs refs' : Dict String (Document X)} {s s' : ArmStore X}
    (h : applyConnections lower (storeProvider kept subscriptionId location) envelopeId place conns
      refs s = (.ok refs', s')) :
    s' = putConnections lower kept subscriptionId envelopeId place conns s ∧
      (∀ name, (∀ c ∈ conns, c.name ≠ name) → refs'.get? name = refs.get? name) ∧
      ((conns.map (·.name)).Nodup → ∀ c ∈ conns, ∃ ref, refs'.get? c.name = some ref ∧
        Value.textAt ref "connectionName" = connectionArmName envelopeId c) := by
  induction conns generalizing refs s with
  | nil =>
    obtain ⟨href, rfl⟩ := Prod.mk.inj h
    obtain rfl := Except.ok.inj href
    exact ⟨rfl, fun _ _ => rfl, by simp⟩
  | cons conn conns ih =>
    unfold applyConnections at h
    cases hconn : applyConnection lower (storeProvider kept subscriptionId location) conn envelopeId
        place s with
    | mk answer s₁ =>
      rw [hconn] at h
      cases answer with
      | error failure => exact absurd (Prod.mk.inj h).1 (by simp)
      | ok ref =>
        obtain ⟨rfl, href⟩ := applyConnection_store lower kept subscriptionId location hconn
        obtain ⟨hs, hothers, hrefs⟩ := ih h
        refine ⟨hs, ?_, ?_⟩
        · intro name hname
          rw [hothers name fun c hc => hname c (List.mem_cons_of_mem _ hc), Dict.get?_set,
            if_neg (hname conn List.mem_cons_self)]
        · intro hnodup c hc
          obtain ⟨hnotin, htail⟩ := List.nodup_cons.mp hnodup
          rcases List.mem_cons.mp hc with rfl | hc
          · refine ⟨ref, ?_, href⟩
            rw [hothers c.name ?_, Dict.get?_set_self]
            intro c' hc' heq
            exact hnotin (List.mem_map.mpr ⟨c', hc', heq⟩)
          · exact hrefs htail c hc

variable [Value.ScalarEq X] [Json.FloatText X] {H : Type} [DecidableEq H] (sha : Text → H)
  (hexdigest : H → String)

omit [Value.ScalarEq X] in
theorem applyWorkflow_store (la : LoadedAsset X) (body : Document X) (s : ArmStore X) :
    (applyWorkflow lower sha hexdigest (storeProvider kept subscriptionId location) la body s).2 =
      s.put kept (.workflow (workflowName la)) body := by
  unfold applyWorkflow
  dsimp only [storeProvider]
  rw [if_neg (by decide), if_neg (by decide)]
  split_ifs <;> rfl

/-- What a call that succeeds sent: its connections, then its workflow. -/
structure Sent (la : LoadedAsset X) (payload : SentinelPlaybookPayload X) (s s' : ArmStore X)
    (refs : Dict String (Document X)) : Prop where
  store : s' = (putConnections lower kept subscriptionId la.envelope.id
      (orText (payload.location.getD "") location) payload.connections s).put kept
    (.workflow (workflowName la))
    (toWorkflowArmBody payload (orText (payload.location.getD "") location) refs)
  others : ∀ name, (∀ c ∈ payload.connections, c.name ≠ name) → refs.get? name = none
  refs : (payload.connections.map (·.name)).Nodup → ∀ c ∈ payload.connections,
    ∃ ref, refs.get? c.name = some ref ∧
      Value.textAt ref "connectionName" = connectionArmName la.envelope.id c

omit [Value.ScalarEq X] in
theorem apply_store {parse : Value X → Option (SentinelPlaybookPayload X)} {la : LoadedAsset X}
    {s s' : ArmStore X} {r : ActionResult}
    (h : apply lower sha hexdigest (storeProvider kept subscriptionId location) parse la s =
      some (r, s')) (hr : r.status = "success") :
    ∃ payload refs, parse la.payload = some payload ∧
      Sent lower kept subscriptionId location la payload s s' refs := by
  unfold apply at h
  by_cases hskip : la.envelope.status ∈ ["experimental", "deprecated"]
  · rw [if_pos hskip] at h
    obtain ⟨rfl, -⟩ := Prod.mk.inj (Option.some.inj h)
    exact absurd hr (by simp [resultOf])
  · rw [if_neg hskip] at h
    obtain ⟨payload, hparse, heq⟩ := Option.map_eq_some_iff.mp h
    cases hconns : applyConnections lower (storeProvider kept subscriptionId location)
        la.envelope.id (orText (payload.location.getD "") location) payload.connections [] s with
    | mk answer s₁ =>
      have hconns' := hconns
      dsimp only [storeProvider] at heq hconns'
      rw [hconns'] at heq
      cases answer with
      | error failure =>
        obtain ⟨rfl, -⟩ := Prod.mk.inj heq
        have herror := applyConnections_error lower kept subscriptionId location hconns
        exact absurd (herror.symm.trans hr) (by decide)
      | ok refs =>
        obtain ⟨hs, hothers, hrefs⟩ := applyConnections_store lower kept subscriptionId location
          hconns
        refine ⟨payload, refs, hparse, ?_, hothers, hrefs⟩
        have hstore := congrArg Prod.snd heq
        rw [← hs]
        exact hstore.symm.trans (applyWorkflow_store lower kept subscriptionId location sha
          hexdigest la _ s₁)

end
end ContentOps.Playbook
