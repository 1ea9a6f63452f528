import ContentOps.Defender.Visit

/-! Which Graph rule each file of a Defender run is applied to, and when the order of the files is
of no importance. -/

namespace ContentOps.Defender
open PyData

section
variable {X : Type} (graph : GraphRules X) (remote : List (Dict String (Value X)))

/-- What Graph is relied on for: a write keeps the displayName it sends, a new rule's content does
not depend on its id, ids of new rules are new. -/
structure GraphRules.Conforms : Prop where
  named : ∀ id body, displayName (graph.created id body) = displayName body
  renamed : ∀ old body n, body.get? "displayName" = some (.str n) →
    displayName (graph.patched old body) = n
  content : ∀ id id' body, stripServerFields (graph.created id body) =
    stripServerFields (graph.created id' body)
  wf : ∀ old body, (Value.dict old).WF → (Value.dict body).WF →
    (Value.dict (graph.patched old body)).WF
  newId_ne : ∀ n, graph.newId n ≠ ""
  newId_injective : Function.Injective graph.newId

/-- A run's files and the inventory it finds. -/
structure Batch (las : List (LoadedAsset X)) : Prop where
  remoteNames : (remote.map displayName).Nodup
  remoteIds : (remote.map graphId).Nodup
  names : (las.map nameOf).Nodup
  armNames : (las.filterMap (·.envelope.armName)).Nodup
  named : ∀ la ∈ las, (bodyOf la).get? "displayName" = some (.str (nameOf la))
  wf : ∀ la ∈ las, la.payload.WF
  wfRemote : ∀ r ∈ remote, (Value.dict r).WF
  newRemote : ∀ n, graph.newId n ∉ remote.map graphId
  newArmName : ∀ n, ∀ la ∈ las, la.envelope.armName ≠ some (graph.newId n)

/-- One file finds by its displayName the rule that another has recorded. -/
def Takes (e f : LoadedAsset X) : Prop :=
  Live e ∧ Live f ∧ ∃ r ∈ remote, graphId r ≠ "" ∧ f.envelope.armName = some (graphId r) ∧
    displayName r = nameOf e ∧
    ∀ a, e.envelope.armName = some a → a = "" ∨ a ∉ remote.map graphId

/-- The rule of a file, from the inventory alone. -/
def target (la : LoadedAsset X) : Option String :=
  resolveGraphId (RuleIndex.ofRules remote) (nameOf la) la.envelope.armName

variable {graph remote}

theorem mem_graphIds {id : String} :
    id ∈ (RuleIndex.ofRules remote).graphIds ↔ id ∈ remote.map graphId ∧ id ≠ "" := by
  simp [RuleIndex.ofRules]

theorem get?_nameMap {las : List (LoadedAsset X)} (hbatch : Batch graph remote las) {name id : String} :
    (RuleIndex.ofRules remote).nameMap.get? name = some id ↔
      ∃ r ∈ remote, displayName r = name ∧ graphId r = id := by
  have hkeys : (RuleIndex.ofRules remote).nameMap.keys.Nodup := by
    unfold RuleIndex.ofRules Dict.keys
    rw [List.map_map]
    exact hbatch.remoteNames
  constructor
  · intro h
    obtain ⟨r, hr, heq⟩ := List.mem_map.mp (Dict.mem_of_get? h)
    exact ⟨r, hr, (Prod.mk.inj heq).1, (Prod.mk.inj heq).2⟩
  · rintro ⟨r, hr, rfl, rfl⟩
    exact Dict.get?_of_mem hkeys (List.mem_map_of_mem hr)

theorem get?_inventory {las : List (LoadedAsset X)} (hbatch : Batch graph remote las)
    {r : Dict String (Value X)} (hr : r ∈ remote) :
    (Tenant.ofInventory remote).rules.get? (graphId r) = some r := by
  have hkeys : (Tenant.ofInventory remote).rules.keys.Nodup := by
    unfold Tenant.ofInventory Dict.keys
    rw [List.map_map]
    exact hbatch.remoteIds
  exact Dict.get?_of_mem hkeys (List.mem_map_of_mem (f := fun r => (graphId r, r)) hr)

theorem target_mem {la : LoadedAsset X} {id : String} (h : target remote la = some id) :
    id ∈ remote.map graphId := by
  rcases (resolveGraphId_eq_some h).2 with ⟨-, hmem⟩ | ⟨-, hname⟩
  · exact (mem_graphIds.mp hmem).1
  · obtain ⟨r, hr, heq⟩ := List.mem_map.mp (Dict.mem_of_get? hname)
    exact (Prod.mk.inj heq).2 ▸ List.mem_map_of_mem hr

theorem inventory_of_mem {id : String} (h : id ∈ remote.map graphId) :
    ∃ r, (Tenant.ofInventory remote).rules.get? id = some r := by
  cases hget : (Tenant.ofInventory remote).rules.get? id with
  | some r => exact ⟨r, rfl⟩
  | none =>
    refine absurd ?_ (Dict.get?_eq_none_iff.mp hget)
    unfold Tenant.ofInventory Dict.keys
    rwa [List.map_map]

/-- The rule of a file is one of the inventory. -/
theorem target_eq_some {las : List (LoadedAsset X)} (hbatch : Batch graph remote las)
    {la : LoadedAsset X} {id : String} (h : target remote la = some id) :
    id ≠ "" ∧ ∃ r ∈ remote, graphId r = id ∧ (la.envelope.armName = some id ∨
      displayName r = nameOf la ∧
        ∀ a, la.envelope.armName = some a → a = "" ∨ a ∉ remote.map graphId) := by
  obtain ⟨hne, hcase⟩ := resolveGraphId_eq_some h
  refine ⟨hne, ?_⟩
  rcases hcase with ⟨harm, hmem⟩ | ⟨hdead, hname⟩
  · obtain ⟨r, hr, hid⟩ := List.mem_map.mp (mem_graphIds.mp hmem).1
    exact ⟨r, hr, hid, .inl harm⟩
  · obtain ⟨r, hr, hrname, hid⟩ := (get?_nameMap hbatch).mp hname
    refine ⟨r, hr, hid, .inr ⟨hrname, ?_⟩⟩
    intro a ha
    rcases hdead a ha with rfl | hnot
    · exact .inl rfl
    · rw [mem_graphIds] at hnot
      tauto

/-- Two files have one rule only where one of them takes the other's. -/
theorem target_ne {las : List (LoadedAsset X)} (hbatch : Batch graph remote las)
    {e f : LoadedAsset X} (he : Live e) (hf : Live f) (hnames : nameOf e ≠ nameOf f)
    (harms : ∀ a, e.envelope.armName = some a → f.envelope.armName ≠ some a)
    (hef : ¬ Takes remote e f) (hfe : ¬ Takes remote f e) {id : String}
    (h : target remote e = some id) : target remote f ≠ some id := by
  intro h'
  obtain ⟨hne, r, hr, hrid, hcase⟩ := target_eq_some hbatch h
  obtain ⟨-, r', hr', hrid', hcase'⟩ := target_eq_some hbatch h'
  obtain rfl : r = r' := List.inj_on_of_nodup_map hbatch.remoteIds hr hr' (hrid.trans hrid'.symm)
  subst hrid
  rcases hcase with harm | ⟨hname, hdead⟩ <;> rcases hcase' with harm' | ⟨hname', hdead'⟩
  · exact harms _ harm harm'
  · exact hfe ⟨hf, he, r, hr, hne, harm, hname', hdead'⟩
  · exact hef ⟨he, hf, r, hr, hne, harm', hname, hdead⟩
  · exact hnames (hname.symm.trans hname')

/-- The files have names and rules of their own. -/
def Apart (remote : List (Dict String (Value X))) (las : List (LoadedAsset X)) : Prop :=
  las.Pairwise fun e f => Live e → Live f → nameOf f ≠ nameOf e ∧
    ∀ id, target remote e = some id → target remote f ≠ some id

theorem Batch.perm {las las' : List (LoadedAsset X)} (hbatch : Batch graph remote las)
    (h : las'.Perm las) : Batch graph remote las' where
  remoteNames := hbatch.remoteNames
  remoteIds := hbatch.remoteIds
  names := (h.map nameOf).nodup_iff.mpr hbatch.names
  armNames := (h.filterMap _).nodup_iff.mpr hbatch.armNames
  named := fun la hla => hbatch.named la (h.mem_iff.mp hla)
  wf := fun la hla => hbatch.wf la (h.mem_iff.mp hla)
  wfRemote := hbatch.wfRemote
  newRemote := hbatch.newRemote
  newArmName := fun n la hla => hbatch.newArmName n la (h.mem_iff.mp hla)

theorem Batch.apart {las : List (LoadedAsset X)} (hbatch : Batch graph remote las)
    (htakes : ∀ e ∈ las, ∀ f ∈ las, ¬ Takes remote e f) : Apart remote las := by
  have hnames := List.pairwise_map.mp hbatch.names
  have harms := List.pairwise_filterMap.mp hbatch.armNames
  refine (hnames.and harms).imp_of_mem ?_
  rintro e f he hf ⟨hname, harm⟩ helive hflive
  refine ⟨hname.symm, ?_⟩
  intro id hid
  refine target_ne hbatch helive hflive hname ?_ (htakes e he f hf) (htakes f hf e he) hid
  exact fun a ha ha' => harm a ha a ha' rfl

end

section
variable {X H : Type} [Value.ScalarEq X] [Json.FloatText X] [DecidableEq H] (graph : GraphRules X)
  (sha : Text → H) (hexdigest : H → String) (remote : List (Dict String (Value X)))

/-- The run over a list, from the inventory. -/
def runOf (las : List (LoadedAsset X)) :
    List (LoadedAsset X × Except String Applied) × Session (Tenant X) :=
  applyRun graph sha hexdigest las { index := none, server := Tenant.ofInventory remote }

/-- The rule that a call wrote. -/
def writtenId : Except String Applied → Option String
  | .ok a => if a.result.action ∈ [PlanAction.create, .update, .disable] then a.graphId else none
  | .error _ => none

/-- No two files write one rule. -/
def WritesApart (las : List (LoadedAsset X)) : Prop :=
  ((runOf graph sha hexdigest remote las).1.filterMap fun p => writtenId p.2).Nodup

/-- A file's rule has the content at the end of the run. -/
def EndsAs (las : List (LoadedAsset X)) (la : LoadedAsset X) (content : Dict String (Value X)) :
    Prop :=
  ∃ a id rule, (la, .ok a) ∈ (runOf graph sha hexdigest remote las).1 ∧ a.graphId = some id ∧
    (runOf graph sha hexdigest remote las).2.server.rules.get? id = some rule ∧
    stripServerFields rule = content

/-- What the file's rule ends up as, when nothing else touches it. -/
def settledRule (la : LoadedAsset X) : Dict String (Value X) :=
  match (target remote la).bind (Tenant.ofInventory remote).rules.get? with
  | some old => if isUnchanged sha la old then old else graph.patched old (bodyOf la)
  | none => graph.created "" (bodyOf la)

variable {graph sha hexdigest remote}

omit [Value.ScalarEq X] [Json.FloatText X] in
theorem graphId_of_writtenId {answer : Except String Applied} {id : String}
    (h : writtenId answer = some id) : ∃ a, answer = .ok a ∧ a.graphId = some id := by
  cases answer with
  | error e => exact absurd h (by simp [writtenId])
  | ok a =>
    unfold writtenId at h
    dsimp only at h
    split_ifs at h
    exact ⟨a, rfl, h⟩

/-- Every file still to come finds its rule, as it was. -/
def Ready (graph : GraphRules X) (remote : List (Dict String (Value X)))
    (las : List (LoadedAsset X)) (index : RuleIndex) (t : Tenant X) : Prop :=
  ∀ la ∈ las, Live la →
    resolveGraphId index (nameOf la) la.envelope.armName = target remote la ∧
      (∀ n, la.envelope.armName ≠ some (graph.newId n)) ∧
      ∀ id, target remote la = some id →
        t.rules.get? id = (Tenant.ofInventory remote).rules.get? id

/-- What is known of a file once it was applied: `start` rules had been created before. -/
def Settles (graph : GraphRules X) (sha : Text → H) (remote : List (Dict String (Value X)))
    (start : Nat) (la : LoadedAsset X) (answer : Except String Applied) (t : Tenant X) : Prop :=
  ∃ a, answer = .ok a ∧ (¬ Live la → a.graphId = none) ∧ (Live la → ∃ id rule,
    a.graphId = some id ∧ t.rules.get? id = some rule ∧
      stripServerFields rule = stripServerFields (settledRule graph sha remote la) ∧
      (target remote la = some id ∨
        target remote la = none ∧ ∃ k, start ≤ k ∧ k < t.made ∧ id = graph.newId k))

variable {la : LoadedAsset X} {las : List (LoadedAsset X)} {index index' : RuleIndex}
  {t t' : Tenant X} {a : Applied}

theorem Visit.made_le (h : Visit graph sha la index t a index' t') : t.made ≤ t'.made := by
  cases h with
  | created => exact Nat.le_succ _
  | skipped | missing | unchanged | patched => exact Nat.le_refl _

/-- A call touches no rule but the one it resolves to or creates. -/
theorem Visit.frame (h : Visit graph sha la index t a index' t') {id : String}
    (hres : Live la → resolveGraphId index (nameOf la) la.envelope.armName ≠ some id)
    (hnew : graph.newId t.made ≠ id) : t'.rules.get? id = t.rules.get? id := by
  cases h with
  | skipped | missing | unchanged => rfl
  | @patched id' old hlive htarget =>
    have hne : id' ≠ id := fun heq => hres hlive (heq ▸ htarget)
    exact (Dict.get?_set ..).trans (if_neg hne)
  | created => exact (Dict.get?_set ..).trans (if_neg hnew)

theorem Ready.step (hc : graph.Conforms) (hnew : ∀ n, graph.newId n ∉ remote.map graphId)
    (hready : Ready graph remote (la :: las) index t) (hapart : Apart remote (la :: las))
    (h : Visit graph sha la index t a index' t') : Ready graph remote las index' t' := by
  have htail : Ready graph remote las index t :=
    fun f hf => hready f (List.mem_cons_of_mem _ hf)
  have hhead := fun f hf => (List.pairwise_cons.mp hapart).1 f hf
  cases h with
  | skipped | missing | unchanged => exact htail
  | @patched id old hlive htarget =>
    intro f hf hflive
    obtain ⟨hres, harm, hrules⟩ := htail f hf hflive
    have hid : target remote la = some id :=
      (hready la List.mem_cons_self hlive).1.symm.trans htarget
    obtain ⟨hname, hne⟩ := hhead f hf hlive hflive
    have hfid : target remote f ≠ some id := hne id hid
    have hempty : id ≠ "" := resolveGraphId_ne_empty htarget
    refine ⟨?_, harm, ?_⟩
    · rw [RuleIndex.resolveGraphId_record hname ?_ (by rwa [hres]) hempty, hres]
      intro hfarm
      apply hfid
      rw [target, hfarm]
      exact resolveGraphId_of_armName hempty (mem_graphIds.mpr ⟨target_mem hid, hempty⟩)
    · intro id' hid'
      have hne' : id ≠ id' := fun heq => hfid (heq ▸ hid')
      rw [← hrules id' hid']
      exact (Dict.get?_set ..).trans (if_neg hne')
  | created hlive htarget =>
    intro f hf hflive
    obtain ⟨hres, harm, hrules⟩ := htail f hf hflive
    have hfid : target remote f ≠ some (graph.newId t.made) :=
      fun heq => hnew _ (target_mem heq)
    refine ⟨?_, harm, ?_⟩
    · rw [RuleIndex.resolveGraphId_record (hhead f hf hlive hflive).1 (harm _) (by rwa [hres])
        (hc.newId_ne _), hres]
    · intro id' hid'
      have hne' : graph.newId t.made ≠ id' := fun heq => hfid (heq ▸ hid')
      rw [← hrules id' hid']
      exact (Dict.get?_set ..).trans (if_neg hne')

theorem Visit.settles (hc : graph.Conforms) (hready : Ready graph remote (la :: las) index t)
    (h : Visit graph sha la index t a index' t') :
    Settles graph sha remote t.made la (.ok a) t' := by
  refine ⟨a, rfl, ?_, ?_⟩
  · intro hlive
    cases h with
    | skipped _ hid => exact hid
    | missing h | unchanged h | patched h | created h => exact absurd h hlive
  · intro hlive
    obtain ⟨hres, -, hrules⟩ := hready la List.mem_cons_self hlive
    cases h with
    | skipped h => exact absurd hlive h
    | @missing id _ htarget hrule =>
      have hid := hres.symm.trans htarget
      obtain ⟨r, hr⟩ := inventory_of_mem (target_mem hid)
      rw [← hrules id hid, hrule] at hr
      exact absurd hr (by simp)
    | @unchanged id old _ htarget hrule hsame hid =>
      have htid := hres.symm.trans htarget
      refine ⟨id, old, hid, hrule, ?_, .inl htid⟩
      rw [settledRule, htid, Option.bind_some, ← hrules id htid, hrule]
      exact congrArg stripServerFields (if_pos hsame).symm
    | @patched id old _ htarget hrule hdiff hid =>
      have htid := hres.symm.trans htarget
      refine ⟨id, _, hid, Dict.get?_set_self .., ?_, .inl htid⟩
      rw [settledRule, htid, Option.bind_some, ← hrules id htid, hrule]
      simp [hdiff]
    | created _ htarget hid =>
      have hnone := hres.symm.trans htarget
      refine ⟨_, _, hid, Dict.get?_set_self .., ?_,
        .inr ⟨hnone, t.made, Nat.le_refl _, Nat.lt_succ_self _, rfl⟩⟩
      rw [settledRule, hnone]
      exact hc.content _ _ _

/-- What a run leaves, when its files have rules of their own. -/
structure RunSpec (graph : GraphRules X) (sha : Text → H) (remote : List (Dict String (Value X)))
    (las : List (LoadedAsset X)) (t : Tenant X)
    (out : List (LoadedAsset X × Except String Applied) × Session (Tenant X)) : Prop where
  files : out.1.map Prod.fst = las
  made : t.made ≤ out.2.server.made
  frame : ∀ id, (∀ la ∈ las, Live la → target remote la ≠ some id) →
    (∀ k, t.made ≤ k → graph.newId k ≠ id) → out.2.server.rules.get? id = t.rules.get? id
  settles : ∀ p ∈ out.1, Settles graph sha remote t.made p.1 p.2 out.2.server
  apart : out.1.Pairwise fun p q => ∀ a b, p.2 = .ok a → q.2 = .ok b →
    ∀ id, a.graphId = some id → b.graphId ≠ some id

theorem applyRun_spec (hc : graph.Conforms) (hnew : ∀ n, graph.newId n ∉ remote.map graphId)
    (las : List (LoadedAsset X)) (index : RuleIndex) (t : Tenant X)
    (hready : Ready graph remote las index t) (hapart : Apart remote las) :
    RunSpec graph sha remote las t
      (applyRun graph sha hexdigest las { index := some index, server := t }) := by
  induction las generalizing index t with
  | nil => exact ⟨rfl, Nat.le_refl _, fun _ _ _ => rfl, by simp [applyRun], .nil⟩
  | cons la las ih =>
    obtain ⟨a, index', t', heq, hvisit⟩ :=
      apply_visit graph sha hexdigest hc.newId_ne la index t
    have hrest := ih index' t' (hready.step hc hnew hapart hvisit)
      (List.pairwise_cons.mp hapart).2
    have hmade := hvisit.made_le
    unfold applyRun
    rw [heq]
    dsimp only
    set out := applyRun graph sha hexdigest las { index := some index', server := t' } with hout
    obtain ⟨a', ha', hskipped, hsettled⟩ := hvisit.settles hc hready
    obtain rfl := Except.ok.inj ha'
    -- The rule of the first file is none of those that the others touch.
    have hown : ∀ id, Live la → (target remote la = some id ∨
        target remote la = none ∧ ∃ k, t.made ≤ k ∧ k < t'.made ∧ id = graph.newId k) →
        (∀ f ∈ las, Live f → target remote f ≠ some id) ∧
          ∀ k, t'.made ≤ k → graph.newId k ≠ id := by
      rintro id hlive (hid | ⟨-, k, -, hk, rfl⟩)
      · refine ⟨fun f hf hflive => ((List.pairwise_cons.mp hapart).1 f hf hlive hflive).2 id hid, ?_⟩
        exact fun k _ heq => hnew k (heq ▸ target_mem hid)
      · refine ⟨fun f _ _ heq => hnew k (target_mem heq), ?_⟩
        intro k' hk' heq
        exact absurd (hc.newId_injective heq) (by omega)
    refine ⟨congrArg (la :: ·) hrest.files, hmade.trans hrest.made, ?_, ?_, ?_⟩
    · intro id hid hfresh
      rw [hrest.frame id (fun f hf => hid f (List.mem_cons_of_mem _ hf))
        fun k hk => hfresh k (hmade.trans hk)]
      refine hvisit.frame ?_ (hfresh _ (Nat.le_refl _))
      intro hlive
      rw [(hready la List.mem_cons_self hlive).1]
      exact hid la List.mem_cons_self hlive
    · rintro p hp
      rcases List.mem_cons.mp hp with rfl | hp
      · refine ⟨a, rfl, hskipped, ?_⟩
        intro hlive
        obtain ⟨id, rule, hid, hrule, hcontent, hcase⟩ := hsettled hlive
        obtain ⟨hothers, hfresh⟩ := hown id hlive hcase
        refine ⟨id, rule, hid, (hrest.frame id hothers hfresh).trans hrule, hcontent, ?_⟩
        rcases hcase with hid | ⟨hnone, k, hk, hk', rfl⟩
        · exact .inl hid
        · exact .inr ⟨hnone, k, hk, lt_of_lt_of_le hk' hrest.made, rfl⟩
      · obtain ⟨b, hb, hbskip, hbset⟩ := hrest.settles p hp
        refine ⟨b, hb, hbskip, ?_⟩
        intro hlive
        obtain ⟨id, rule, hid, hrule, hcontent, hcase⟩ := hbset hlive
        refine ⟨id, rule, hid, hrule, hcontent, ?_⟩
        rcases hcase with hid | ⟨hnone, k, hk, hk', rfl⟩
        · exact .inl hid
        · exact .inr ⟨hnone, k, hmade.trans hk, hk', rfl⟩
    · refine List.pairwise_cons.mpr ⟨?_, hrest.apart⟩
      rintro ⟨f, answer⟩ hf b c hb hc' id hbid hcid
      obtain rfl := Except.ok.inj hb
      have hfmem : f ∈ las := hrest.files ▸ List.mem_map_of_mem (f := Prod.fst) hf
      obtain ⟨c', hc'', hcskip, hcset⟩ := hrest.settles _ hf
      obtain rfl := Except.ok.inj (hc'.symm.trans hc'')
      by_cases hlive : Live la
      · by_cases hflive : Live f
        · obtain ⟨id', rule, hid', -, -, hcase⟩ := hsettled hlive
          obtain rfl := Option.some.inj (hid'.symm.trans hbid)
          obtain ⟨id'', rule', hid'', -, -, hcase'⟩ := hcset hflive
          obtain rfl := Option.some.inj (hid''.symm.trans hcid)
          obtain ⟨hothers, hfresh⟩ := hown _ hlive hcase
          rcases hcase' with htarget | ⟨-, k, hk, -, hkid⟩
          · exact hothers f hfmem hflive htarget
          · exact hfresh k hk hkid.symm
        · exact absurd ((hcskip hflive).symm.trans hcid) (by simp)
      · exact absurd ((hskipped hlive).symm.trans hbid) (by simp)

/-- The indexes are built by the first call that needs them. -/
theorem applyRun_build {t : Tenant X} {index : RuleIndex}
    (h : buildRuleIndex (t.rules.map Prod.snd) = some index) (las : List (LoadedAsset X)) :
    (applyRun graph sha hexdigest las { index := none, server := t }).1 =
        (applyRun graph sha hexdigest las { index := some index, server := t }).1 ∧
      (applyRun graph sha hexdigest las { index := none, server := t }).2.server =
        (applyRun graph sha hexdigest las { index := some index, server := t }).2.server := by
  induction las with
  | nil => exact ⟨rfl, rfl⟩
  | cons la las ih =>
    by_cases hexp : la.envelope.status = "experimental"
    · have hskip : ∀ st : Session (Tenant X), apply graph.client sha hexdigest la st =
          (.ok { result := resultOf la .skip "skipped" "experimental" none none, graphId := none },
            st) := fun st => if_pos hexp
      unfold applyRun
      rw [hskip, hskip]
      exact ⟨congrArg (List.cons _) ih.1, ih.2⟩
    · have hbuild : nameMapOrBuild graph.client { index := none, server := t } =
          (.ok index, { index := some index, server := t }) := by
        unfold nameMapOrBuild GraphRules.client
        dsimp only
        rw [h]
      have hsame : apply graph.client sha hexdigest la { index := none, server := t } =
          apply graph.client sha hexdigest la { index := some index, server := t } := by
        unfold apply
        rw [hbuild, if_neg hexp, if_neg hexp]
        rfl
      unfold applyRun
      rw [hsame]
      exact ⟨rfl, rfl⟩

theorem runOf_eq (hbatch : Batch graph remote las) :
    (runOf graph sha hexdigest remote las).1 = (applyRun graph sha hexdigest las
        { index := some (RuleIndex.ofRules remote), server := Tenant.ofInventory remote }).1 ∧
      (runOf graph sha hexdigest remote las).2.server = (applyRun graph sha hexdigest las
        { index := some (RuleIndex.ofRules remote), server := Tenant.ofInventory remote }).2.server := by
  apply applyRun_build
  have hrules : (Tenant.ofInventory remote).rules.map Prod.snd = remote := by
    simp [Tenant.ofInventory, Function.comp_def]
  rw [hrules]
  exact if_pos hbatch.remoteNames

variable (sha hexdigest) in
theorem runOf_spec (hc : graph.Conforms) (hbatch : Batch graph remote las)
    (htakes : ∀ e ∈ las, ∀ f ∈ las, ¬ Takes remote e f) :
    RunSpec graph sha remote las (Tenant.ofInventory remote)
      (applyRun graph sha hexdigest las
        { index := some (RuleIndex.ofRules remote), server := Tenant.ofInventory remote }) := by
  apply applyRun_spec hc hbatch.newRemote las _ _ ?_ (hbatch.apart htakes)
  exact fun la hla _ => ⟨rfl, fun n => hbatch.newArmName n la hla, fun _ _ => rfl⟩

/-- Without taking, each file's rule ends as the inventory and the file say. -/
theorem endsAs_iff (hc : graph.Conforms) (hbatch : Batch graph remote las)
    (htakes : ∀ e ∈ las, ∀ f ∈ las, ¬ Takes remote e f) {content : Dict String (Value X)} :
    EndsAs graph sha hexdigest remote las la content ↔
      la ∈ las ∧ Live la ∧ content = stripServerFields (settledRule graph sha remote la) := by
  have hspec := runOf_spec sha hexdigest hc hbatch htakes
  unfold EndsAs
  rw [(runOf_eq hbatch).1, (runOf_eq hbatch).2]
  constructor
  · rintro ⟨a, id, rule, hmem, hid, hrule, rfl⟩
    obtain ⟨b, hb, hskip, hsettled⟩ := hspec.settles _ hmem
    obtain rfl := Except.ok.inj hb
    have hlive : Live la := by
      by_contra hexp
      exact absurd ((hskip hexp).symm.trans hid) (by simp)
    obtain ⟨id', rule', hid', hrule', hcontent, -⟩ := hsettled hlive
    obtain rfl := Option.some.inj (hid.symm.trans hid')
    obtain rfl := Option.some.inj (hrule.symm.trans hrule')
    exact ⟨hspec.files ▸ List.mem_map_of_mem (f := Prod.fst) hmem, hlive, hcontent⟩
  · rintro ⟨hla, hlive, rfl⟩
    rw [← hspec.files] at hla
    obtain ⟨⟨la', answer⟩, hmem, rfl⟩ := List.mem_map.mp hla
    obtain ⟨a, rfl, -, hsettled⟩ := hspec.settles _ hmem
    obtain ⟨id, rule, hid, hrule, hcontent, -⟩ := hsettled hlive
    exact ⟨a, id, rule, hmem, hid, hrule, hcontent⟩

/-! ## A file that takes another's rule -/

/-- The rule carries the name, and no other name points at it. -/
def Held (id name : String) (index : RuleIndex) (t : Tenant X) : Prop :=
  (∃ r, t.rules.get? id = some r ∧ displayName r = name) ∧
    ∀ m, (m, id) ∈ index.nameMap → m = name

theorem Visit.held {id name : String} (h : Visit graph sha la index t a index' t')
    (hheld : Held id name index t) (hname : nameOf la ≠ name)
    (harm : la.envelope.armName ≠ some id) (hnew : graph.newId t.made ≠ id) :
    Held id name index' t' := by
  have hres : resolveGraphId index (nameOf la) la.envelope.armName ≠ some id := by
    intro heq
    rcases (resolveGraphId_eq_some heq).2 with ⟨harm', -⟩ | ⟨-, hget⟩
    · exact harm harm'
    · exact hname (hheld.2 _ (Dict.mem_of_get? hget))
  refine ⟨by rw [h.frame (fun _ => hres) hnew]; exact hheld.1, ?_⟩
  intro m hm
  cases h with
  | skipped | missing | unchanged => exact hheld.2 m hm
  | @patched id' old _ htarget =>
    have hne : id ≠ id' := fun heq => hres (heq ▸ htarget)
    exact hheld.2 m (RuleIndex.mem_of_mem_record hne hm)
  | created => exact hheld.2 m (RuleIndex.mem_of_mem_record hnew.symm hm)

variable (sha hexdigest) in
/-- A rule that is held keeps its name to the end of the run. -/
theorem applyRun_held (hc : graph.Conforms) {id name : String} (las : List (LoadedAsset X))
    (index : RuleIndex) (t : Tenant X) (hheld : Held id name index t)
    (hnames : ∀ la ∈ las, nameOf la ≠ name) (harms : ∀ la ∈ las, la.envelope.armName ≠ some id)
    (hnew : ∀ k, t.made ≤ k → graph.newId k ≠ id) :
    ∃ r, (applyRun graph sha hexdigest las { index := some index, server := t }).2.server.rules.get?
      id = some r ∧ displayName r = name := by
  induction las generalizing index t with
  | nil => exact hheld.1
  | cons la las ih =>
    obtain ⟨a, index', t', heq, hvisit⟩ :=
      apply_visit graph sha hexdigest hc.newId_ne la index t
    have hheld' := hvisit.held hheld (hnames la List.mem_cons_self) (harms la List.mem_cons_self)
      (hnew _ (Nat.le_refl _))
    have hrest := ih index' t' hheld' (fun f hf => hnames f (List.mem_cons_of_mem _ hf))
      (fun f hf => harms f (List.mem_cons_of_mem _ hf))
      (fun k hk => hnew k (hvisit.made_le.trans hk))
    unfold applyRun
    rw [heq]
    exact hrest

/-- A rule whose update is skipped has the displayName of the file. -/
theorem displayName_of_isUnchanged (hsha : Function.Injective sha) {old : Dict String (Value X)}
    (hla : la.payload.WF) (hold : (Value.dict old).WF)
    (hnamed : (bodyOf la).get? "displayName" = some (.str (nameOf la)))
    (h : isUnchanged sha la old = true) : displayName old = nameOf la := by
  have hagree := ((isUnchanged_iff sha hsha hla hold).mp h).1 ["displayName"] (by
    unfold fieldsOf hashedFields
    split_ifs
    · exact List.mem_append_left _ List.mem_cons_self
    · exact List.mem_cons_self)
  have hbody : Value.get (bodyOf la) "displayName" = .str (nameOf la) := by
    rw [Value.get, hnamed]
    rfl
  have hget : Value.get (stripServerFields old) "displayName" = .str (nameOf la) := by
    have hsame : (Value.get (stripServerFields old) "displayName").sortKeys =
        (Value.get (bodyOf la) "displayName").sortKeys := hagree
    rw [hbody] at hsame
    cases hv : Value.get (stripServerFields old) "displayName" with
    | str s => simpa [hv, Value.sortKeys] using hsame
    | null | bool | int | scalar | list | dict => simp [hv, Value.sortKeys] at hsame
  have hsome := Value.get?_of_get hget (by simp)
  rw [get?_stripServerFields] at hsome
  simp [displayName, Value.textAt, hsome]

theorem map_fst_applyRun (las : List (LoadedAsset X)) (st : Session (Tenant X)) :
    (applyRun graph sha hexdigest las st).1.map Prod.fst = las := by
  induction las generalizing st with
  | nil => rfl
  | cons la las ih => exact congrArg (List.cons la) (ih _)

section
variable {e f : LoadedAsset X} {rest : List (LoadedAsset X)}

/-- A file whose rule has another displayName writes it. -/
theorem Visit.writes (hsha : Function.Injective sha) (h : Visit graph sha la index t a index' t')
    (hlive : Live la) (hla : la.payload.WF)
    (hnamed : (bodyOf la).get? "displayName" = some (.str (nameOf la))) {id : String}
    (htarget : resolveGraphId index (nameOf la) la.envelope.armName = some id)
    {old : Dict String (Value X)} (hrule : t.rules.get? id = some old)
    (hold : (Value.dict old).WF) (hne : displayName old ≠ nameOf la) :
    a.graphId = some id ∧ index' = index.record (nameOf la) id ∧
      t' = { t with rules := t.rules.set id (graph.patched old (bodyOf la)) } := by
  cases h with
  | skipped h => exact absurd hlive h
  | missing _ htarget' hnone =>
    obtain rfl := Option.some.inj (htarget.symm.trans htarget')
    exact absurd (hrule.symm.trans hnone) (by simp)
  | unchanged _ htarget' hrule' hsame =>
    obtain rfl := Option.some.inj (htarget.symm.trans htarget')
    obtain rfl := Option.some.inj (hrule.symm.trans hrule')
    exact absurd (displayName_of_isUnchanged hsha hla hold hnamed hsame) hne
  | patched _ htarget' hrule' _ hid =>
    obtain rfl := Option.some.inj (htarget.symm.trans htarget')
    obtain rfl := Option.some.inj (hrule.symm.trans hrule')
    exact ⟨hid, rfl, rfl⟩
  | created _ hnone => exact absurd (htarget.symm.trans hnone) (by simp)

omit [Value.ScalarEq X] [Json.FloatText X] in
theorem held_created (hc : graph.Conforms) :
    Held (graph.newId t.made) (nameOf la) (index.record (nameOf la) (graph.newId t.made))
      { rules := t.rules.set (graph.newId t.made) (graph.created (graph.newId t.made) (bodyOf la))
        made := t.made + 1 } :=
  ⟨⟨_, Dict.get?_set_self .., hc.named _ _⟩, fun _ => RuleIndex.name_of_mem_record⟩

omit [Value.ScalarEq X] [Json.FloatText X] in
/-- The rule just written is held under the name of its file. -/
theorem held_patched (hc : graph.Conforms) {old : Dict String (Value X)} {id : String}
    (hnamed : (bodyOf la).get? "displayName" = some (.str (nameOf la))) :
    Held id (nameOf la) (index.record (nameOf la) id)
      { t with rules := t.rules.set id (graph.patched old (bodyOf la)) } :=
  ⟨⟨_, Dict.get?_set_self .., hc.renamed _ _ _ hnamed⟩,
    fun _ => RuleIndex.name_of_mem_record⟩

variable (hexdigest) in
/-- Its name gone from the other's rule, the file creates a rule. -/
theorem endsAs_taker_second (hc : graph.Conforms) (hsha : Function.Injective sha)
    (hbatch : Batch graph remote (f :: e :: rest)) (htakes : Takes remote e f) :
    ∃ content, EndsAs graph sha hexdigest remote (f :: e :: rest) e content ∧
      displayName content = nameOf e := by
  obtain ⟨helive, hflive, r, hr, hrid, harm, hname, hdead⟩ := htakes
  have hfmem : f ∈ f :: e :: rest := List.mem_cons_self
  have hnames := hbatch.names
  simp only [List.map_cons, List.nodup_cons, List.mem_cons, not_or, List.mem_map, not_exists,
    not_and] at hnames
  obtain ⟨a, index₁, t₁, heq₁, hvisit₁⟩ := apply_visit graph sha hexdigest hc.newId_ne f
    (RuleIndex.ofRules remote) (Tenant.ofInventory remote)
  have hmem : graphId r ∈ (RuleIndex.ofRules remote).graphIds :=
    mem_graphIds.mpr ⟨List.mem_map_of_mem hr, hrid⟩
  have htarget : resolveGraphId (RuleIndex.ofRules remote) (nameOf f) f.envelope.armName =
      some (graphId r) := by
    rw [harm]
    exact resolveGraphId_of_armName hrid hmem
  obtain ⟨-, rfl, rfl⟩ := hvisit₁.writes hsha hflive (hbatch.wf f hfmem) (hbatch.named f hfmem)
    htarget (get?_inventory hbatch hr) (hbatch.wfRemote r hr)
    (fun h => hnames.1.1 (h.symm.trans hname))
  -- The name of the second file pointed at that rule alone.
  have hnone : resolveGraphId ((RuleIndex.ofRules remote).record (nameOf f) (graphId r)) (nameOf e)
      e.envelope.armName = none := by
    rw [resolveGraphId_of_name]
    · have hget : Dict.get? ((RuleIndex.ofRules remote).record (nameOf f) (graphId r)).nameMap
          (nameOf e) = none := by
        cases hget : Dict.get? ((RuleIndex.ofRules remote).record (nameOf f) (graphId r)).nameMap
          (nameOf e) with
        | none => rfl
        | some id =>
          exfalso
          by_cases hid : id = graphId r
          · subst hid
            exact hnames.1.1 (RuleIndex.name_of_mem_record (Dict.mem_of_get? hget)).symm
          · have hold := RuleIndex.mem_of_mem_record hid (Dict.mem_of_get? hget)
            obtain ⟨r', hr', heq⟩ := List.mem_map.mp hold
            obtain ⟨hname', hid'⟩ := Prod.mk.inj heq
            obtain rfl := List.inj_on_of_nodup_map hbatch.remoteNames hr' hr
              (hname'.trans hname.symm)
            exact hid hid'.symm
      rw [hget]
      rfl
    · intro a' ha'
      rcases hdead a' ha' with hempty | hnot
      · exact .inl hempty
      · refine .inr ?_
        intro hmem'
        rcases List.mem_cons.mp hmem' with rfl | hmem'
        · exact hnot (List.mem_map_of_mem hr)
        · exact hnot (mem_graphIds.mp hmem').1
  obtain ⟨b, index₂, t₂, heq₂, hvisit₂⟩ := apply_visit graph sha hexdigest hc.newId_ne e
    ((RuleIndex.ofRules remote).record (nameOf f) (graphId r))
    { Tenant.ofInventory remote with
      rules := (Tenant.ofInventory remote).rules.set (graphId r) (graph.patched r (bodyOf f)) }
  unfold EndsAs
  rw [(runOf_eq hbatch).1, (runOf_eq hbatch).2, applyRun, heq₁]
  dsimp only
  rw [applyRun, heq₂]
  cases hvisit₂ with
  | skipped h => exact absurd helive h
  | missing _ h | unchanged _ h | patched _ h => exact absurd (hnone.symm.trans h) (by simp)
  | created _ _ hid =>
    obtain ⟨rule, hrule, hrname⟩ := applyRun_held sha hexdigest hc rest _ _ (held_created hc)
      (fun g hg => hnames.2.1 g hg)
      (fun g hg => hbatch.newArmName _ g (List.mem_cons_of_mem _ (List.mem_cons_of_mem _ hg)))
      (fun k hk h => absurd (hc.newId_injective h) (Nat.ne_of_gt hk))
    refine ⟨_, ⟨b, _, rule, List.mem_cons_of_mem _ List.mem_cons_self, hid, hrule, rfl⟩, ?_⟩
    rw [displayName_stripServerFields, hrname]

/-- Its name still on the other's rule, the file is applied to that rule, which the other then
renames. -/
theorem endsAs_taker_first (hc : graph.Conforms) (hsha : Function.Injective sha)
    (hbatch : Batch graph remote (e :: f :: rest)) (htakes : Takes remote e f)
    {content : Dict String (Value X)}
    (h : EndsAs graph sha hexdigest remote (e :: f :: rest) e content) :
    displayName content = nameOf f := by
  obtain ⟨helive, hflive, r, hr, hrid, harm, hname, hdead⟩ := htakes
  have hemem : e ∈ e :: f :: rest := List.mem_cons_self
  have hfmem : f ∈ e :: f :: rest := List.mem_cons_of_mem _ List.mem_cons_self
  have hnames := hbatch.names
  simp only [List.map_cons, List.nodup_cons, List.mem_cons, not_or, List.mem_map, not_exists,
    not_and] at hnames
  obtain ⟨a, index₁, t₁, heq₁, hvisit₁⟩ := apply_visit graph sha hexdigest hc.newId_ne e
    (RuleIndex.ofRules remote) (Tenant.ofInventory remote)
  have hmem : graphId r ∈ (RuleIndex.ofRules remote).graphIds :=
    mem_graphIds.mpr ⟨List.mem_map_of_mem hr, hrid⟩
  have htarget : resolveGraphId (RuleIndex.ofRules remote) (nameOf e) e.envelope.armName =
      some (graphId r) := by
    rw [resolveGraphId_of_name, (get?_nameMap hbatch).mpr ⟨r, hr, hname, rfl⟩]
    · simp [hrid]
    · intro a' ha'
      exact (hdead a' ha').imp_right fun hnot hmem' => hnot (mem_graphIds.mp hmem').1
  have hrule := get?_inventory hbatch hr
  -- Skipped or written, the rule has the name of the first file now.
  have hfirst : a.graphId = some (graphId r) ∧ graphId r ∈ index₁.graphIds ∧
      t₁.made = (Tenant.ofInventory remote).made ∧
      ∃ old, t₁.rules.get? (graphId r) = some old ∧ (Value.dict old).WF ∧
        displayName old = nameOf e := by
    cases hvisit₁ with
    | skipped h => exact absurd helive h
    | missing _ htarget' hnone =>
      obtain rfl := Option.some.inj (htarget.symm.trans htarget')
      exact absurd (hrule.symm.trans hnone) (by simp)
    | unchanged _ htarget' _ _ hid =>
      obtain rfl := Option.some.inj (htarget.symm.trans htarget')
      exact ⟨hid, hmem, rfl, r, hrule, hbatch.wfRemote r hr, hname⟩
    | patched _ htarget' hrule' _ hid =>
      obtain rfl := Option.some.inj (htarget.symm.trans htarget')
      obtain rfl := Option.some.inj (hrule.symm.trans hrule')
      exact ⟨hid, List.mem_cons_self, rfl, _, Dict.get?_set_self ..,
        hc.wf _ _ (hbatch.wfRemote r hr) (wf_bodyOf (hbatch.wf e hemem)),
        hc.renamed _ _ _ (hbatch.named e hemem)⟩
    | created _ hnone => exact absurd (htarget.symm.trans hnone) (by simp)
  obtain ⟨haid, hmem₁, hmade, old, hold, hwf, holdname⟩ := hfirst
  obtain ⟨b, index₂, t₂, heq₂, hvisit₂⟩ := apply_visit graph sha hexdigest hc.newId_ne f index₁ t₁
  have htarget₂ : resolveGraphId index₁ (nameOf f) f.envelope.armName = some (graphId r) := by
    rw [harm]
    exact resolveGraphId_of_armName hrid hmem₁
  obtain ⟨-, rfl, rfl⟩ := hvisit₂.writes hsha hflive (hbatch.wf f hfmem) (hbatch.named f hfmem)
    htarget₂ hold hwf (fun h => hnames.1.1 (holdname.symm.trans h))
  have harms := hbatch.armNames
  obtain ⟨rule, hrule₂, hrname⟩ := applyRun_held sha hexdigest hc rest
    (index₁.record (nameOf f) (graphId r))
    { t₁ with rules := t₁.rules.set (graphId r) (graph.patched old (bodyOf f)) }
    (held_patched hc (hbatch.named f hfmem))
    (fun g hg => fun h => hnames.2.1 g hg h)
    (fun g hg h => by
      have hpair := (List.pairwise_cons.mp (List.pairwise_cons.mp
        (List.pairwise_filterMap.mp harms)).2).1 g hg
      exact hpair _ harm _ h rfl)
    (fun k _ h => hbatch.newRemote k (h ▸ List.mem_map_of_mem hr))
  unfold EndsAs at h
  rw [(runOf_eq hbatch).1, (runOf_eq hbatch).2, applyRun, heq₁] at h
  dsimp only at h
  rw [applyRun, heq₂] at h
  obtain ⟨a', id, rule', hres, hid, hrule', rfl⟩ := h
  have ha' : a' = a := by
    rcases List.mem_cons.mp hres with heq | hres
    · exact Except.ok.inj (Prod.mk.inj heq).2
    · exfalso
      rcases List.mem_cons.mp hres with heq | hres
      · exact hnames.1.1 (congrArg nameOf (Prod.mk.inj heq).1)
      · have hmem := List.mem_map_of_mem (f := Prod.fst) hres
        rw [map_fst_applyRun] at hmem
        exact hnames.1.2 e hmem rfl
  subst ha'
  obtain rfl := Option.some.inj (hid.symm.trans haid)
  have hsame : some rule' = some rule := hrule'.symm.trans hrule₂
  rw [displayName_stripServerFields, Option.some.inj hsame, hrname]

end

/-- No two files write one rule and the order of the files is of no importance exactly when no
file takes by its displayName the rule that another has recorded. -/
theorem targets_apart_iff (hc : graph.Conforms) (hsha : Function.Injective sha)
    (hbatch : Batch graph remote las) :
    (WritesApart graph sha hexdigest remote las ∧ ∀ las', las'.Perm las → ∀ la content,
        EndsAs graph sha hexdigest remote las' la content ↔
          EndsAs graph sha hexdigest remote las la content) ↔
      ∀ e ∈ las, ∀ f ∈ las, ¬ Takes remote e f := by
  constructor
  · rintro ⟨-, hperm⟩ e he f hf htakes
    have hne : e ≠ f := by
      rintro rfl
      obtain ⟨-, -, r, hr, hrid, harm, -, hdead⟩ := htakes
      rcases hdead _ harm with hempty | hnot
      · exact hrid hempty
      · exact hnot (List.mem_map_of_mem hr)
    obtain ⟨rest, hrest⟩ : ∃ rest, las.Perm (e :: f :: rest) := by
      classical
      have hf' : f ∈ las.erase e := (List.mem_erase_of_ne hne.symm).mpr hf
      exact ⟨(las.erase e).erase f, (List.perm_cons_erase he).trans
        ((List.perm_cons_erase hf').cons e)⟩
    have hswap : (f :: e :: rest).Perm las := (List.Perm.swap e f rest).trans hrest.symm
    have hname : nameOf e ≠ nameOf f := by
      have hnodup := (hbatch.perm hrest.symm).names
      rw [List.map_cons, List.map_cons, List.nodup_cons, List.mem_cons, not_or] at hnodup
      exact hnodup.1.1
    obtain ⟨content, hends, hcontent⟩ := endsAs_taker_second hexdigest hc hsha
      (hbatch.perm hswap) htakes
    have hends' := (hperm _ hrest.symm e content).mpr ((hperm _ hswap e content).mp hends)
    have hcontent' := endsAs_taker_first hc hsha (hbatch.perm hrest.symm) htakes hends'
    exact hname (hcontent.symm.trans hcontent')
  · intro htakes
    constructor
    · unfold WritesApart
      rw [(runOf_eq hbatch).1]
      refine List.pairwise_filterMap.mpr ((runOf_spec sha hexdigest hc hbatch htakes).apart.imp ?_)
      rintro ⟨e, answer⟩ ⟨f, answer'⟩ h id hid id' hid' rfl
      obtain ⟨a, rfl, ha⟩ := graphId_of_writtenId hid
      obtain ⟨b, rfl, hb⟩ := graphId_of_writtenId hid'
      exact h a b rfl rfl id ha hb
    · intro las' hperm la content
      have htakes' : ∀ e ∈ las', ∀ f ∈ las', ¬ Takes remote e f :=
        fun e he f hf => htakes e (hperm.mem_iff.mp he) f (hperm.mem_iff.mp hf)
      rw [endsAs_iff hc hbatch htakes, endsAs_iff hc (hbatch.perm hperm) htakes', hperm.mem_iff]

end

/-! ## A rename beside a file with the old name -/

/-- The rule in the tenant is still named A. -/
def inventory : List (Dict String (Value Empty)) :=
  [("id", .str "g1") :: ("status", .str "enabled") :: ruleBody "A" "DeviceEvents" []]

/-- Collected as A and renamed to B in its file. -/
def renamedFile : LoadedAsset Empty := ruleAsset "b" (some "g1") (ruleBody "B" "DeviceEvents" [])

/-- A new rule that is named A. -/
def newFile : LoadedAsset Empty := ruleAsset "a" none (ruleBody "A" "EmailEvents" [])

theorem storing_conforms : (GraphRules.storing : GraphRules Empty).Conforms where
  named id body := by
    unfold displayName Value.textAt GraphRules.storing
    dsimp only
    rw [Dict.get?_set, if_neg (by decide)]
  renamed old body n h := by
    unfold displayName Value.textAt GraphRules.storing
    dsimp only
    rw [Dict.get?_append, h]
    rfl
  content id id' body := by
    have hset : ∀ d : Dict String (Value Empty), ∀ v,
        (d.set "id" v).filter (fun p => p.1 ∉ serverFields) =
          d.filter fun p => p.1 ∉ serverFields := by
      intro d v
      induction d with
      | nil => simp [Dict.set, serverFields]
      | cons p d ih =>
        obtain ⟨k, w⟩ := p
        unfold Dict.set
        split_ifs with hk
        · subst hk
          simp [serverFields]
        · rw [List.filter_cons, List.filter_cons, ih]
    unfold stripServerFields GraphRules.storing
    dsimp only
    rw [hset, hset]
  wf old body hold hbody := by
    have hold' := Value.wf_dict_iff.mp (wf_filter hold fun p => p.1 ∉ Dict.keys body)
    have hbody' := Value.wf_dict_iff.mp hbody
    refine Value.wf_dict_iff.mpr ⟨?_, ?_⟩
    · show (Dict.keys (body ++ _)).Nodup
      rw [Dict.keys_append]
      refine List.Nodup.append hbody'.1 hold'.1 ?_
      intro k hk hk'
      obtain ⟨p, hp, rfl⟩ := List.mem_map.mp hk'
      exact absurd hk (by simpa using (List.mem_filter.mp hp).2)
    · intro p hp
      rcases List.mem_append.mp hp with hp | hp
      · exact hbody'.2 p hp
      · exact hold'.2 p hp
  newId_ne n h := by
    have hlist := congrArg String.toList h
    simp [GraphRules.storing] at hlist
  newId_injective m n h := by
    have hlist := congrArg (fun s => s.toList.length) h
    simpa [GraphRules.storing] using hlist

theorem inventory_batch : Batch GraphRules.storing inventory [newFile, renamedFile] where
  remoteNames := by decide +kernel
  remoteIds := by decide +kernel
  names := by decide +kernel
  armNames := by decide +kernel
  named := by decide +kernel
  wf := by
    simp [newFile, renamedFile, ruleAsset, ruleBody, Value.WF, Value.WFDict, Value.WFList,
      Dict.keys]
  wfRemote := by
    simp [inventory, ruleBody, Value.WF, Value.WFDict, Value.WFList, Dict.keys]
  newRemote n h := by
    have hlist : GraphRules.storing.newId n = "g1" := List.mem_singleton.mp h
    have hhead := congrArg (fun s => s.toList.head?) hlist
    simp [GraphRules.storing] at hhead
  newArmName n la hla h := by
    have hlist : (GraphRules.storing : GraphRules Empty).newId n = "g1" := by
      rcases List.mem_cons.mp hla with rfl | hla
      · exact absurd h (by simp [newFile, ruleAsset])
      · obtain rfl := List.mem_singleton.mp hla
        exact (Option.some.inj h).symm
    have hhead := congrArg (fun s => s.toList.head?) hlist
    simp [GraphRules.storing] at hhead

theorem targets_apart_iff_rename :
    (WritesApart GraphRules.storing id String.ofList inventory [newFile, renamedFile] ∧
        ∀ las', las'.Perm [newFile, renamedFile] → ∀ la content,
          EndsAs GraphRules.storing id String.ofList inventory las' la content ↔
            EndsAs GraphRules.storing id String.ofList inventory [newFile, renamedFile] la content) ↔
      ∀ e ∈ [newFile, renamedFile], ∀ f ∈ [newFile, renamedFile], ¬ Takes inventory e f :=
  targets_apart_iff storing_conforms Function.injective_id inventory_batch

theorem rename_takes_rule :
    ¬ WritesApart GraphRules.storing id String.ofList inventory [newFile, renamedFile] := by
  unfold WritesApart
  decide +kernel

end ContentOps.Defender
