import ContentOps.Library.OptionMap
import ContentOps.Library.PercentEncoding

/-! `utils/url_path.py`, and the URLs that `providers/sentinel_arm.py` and `defender/client.py`
build from the names of resources. -/

namespace ContentOps.UrlPath
open PyData PyData.Url

/-- `_FORBIDDEN_CHARS`, in the order that an error names them. -/
def forbiddenChars : List Char := ['#', '%', '/', '?', '\\']

def isControl (c : Char) : Bool := c.toNat < 0x20 || c.toNat = 0x7f

/-- `safe_path_segment`; the error is the text of `UnsafePathSegment`, and `repr` is Python's. -/
def safePathSegment (repr : Text → Text) (kind text : Text) : Except Text Text :=
  if Text.isBlank text then .error (kind ++ " is empty".toList)
  else if text = ['.'] ∨ text = ['.', '.'] then
    .error (kind ++ ' ' :: repr text ++ " is a relative path segment".toList)
  else
    let bad := forbiddenChars.filter (text.contains ·)
    if bad ≠ [] then
      .error (kind ++ ' ' :: repr text ++
        " contains a character that is not allowed in a resource name: ".toList ++
          bad.intersperse ' ')
    else if text.any isControl then
      .error (kind ++ ' ' :: repr text ++ " contains a control character".toList)
    else .ok (quote text)

/-- The names that can be one path segment. -/
structure Safe (name : Text) : Prop where
  notBlank : Text.isBlank name = false
  dot : name ≠ ['.']
  dots : name ≠ ['.', '.']
  forbidden : ∀ c ∈ forbiddenChars, c ∉ name
  control : ∀ c ∈ name, isControl c = false

theorem safePathSegment_of_safe (repr : Text → Text) (kind : Text) {name : Text} (h : Safe name) :
    safePathSegment repr kind name = .ok (quote name) := by
  have hbad : forbiddenChars.filter (name.contains ·) = [] :=
    List.filter_eq_nil_iff.mpr fun c hc => by simpa using h.forbidden c hc
  have hcontrol : name.any isControl = false :=
    List.any_eq_false.mpr fun c hc => by simp [h.control c hc]
  rw [safePathSegment, if_neg (by simp [h.notBlank]), if_neg (by simp [h.dot, h.dots]), hbad]
  simp [hcontrol]

theorem safe_of_safePathSegment {repr : Text → Text} {kind name segment : Text}
    (h : safePathSegment repr kind name = .ok segment) : Safe name := by
  unfold safePathSegment at h
  split at h
  · cases h
  · next hblank =>
    split at h
    · cases h
    · next hdots =>
      dsimp only at h
      split at h
      · cases h
      · next hbad =>
        split at h
        · cases h
        · next hcontrol =>
          rw [not_or] at hdots
          refine ⟨by simpa using hblank, hdots.1, hdots.2, fun c hc => ?_, fun c hc => ?_⟩
          · have hnone := List.filter_eq_nil_iff.mp (not_not.mp hbad) c hc
            simpa using hnone
          · simpa using (List.any_eq_false.mp (by simpa using hcontrol)) c hc

/-! ## The URLs -/

structure SentinelConfig where
  subscriptionId : Text
  resourceGroup : Text
  workspaceName : Text

namespace SentinelConfig
variable (config : SentinelConfig)

def laWorkspacePath : Text :=
  "/subscriptions/".toList ++ config.subscriptionId ++
    "/resourceGroups/".toList ++ config.resourceGroup ++
    "/providers/Microsoft.OperationalInsights".toList ++
    "/workspaces/".toList ++ config.workspaceName

def workspacePath : Text :=
  config.laWorkspacePath ++ "/providers/Microsoft.SecurityInsights".toList

end SentinelConfig

def withQuery (path apiVersion : Text) : Text := path ++ "?api-version=".toList ++ apiVersion

/-- `if name: path = f"{path}/{safe_path_segment(name)}"`. -/
def withName (repr : Text → Text) (path resourceType : Text) (name : Option Text) :
    Except Text Text :=
  match name with
  | none | some [] => .ok path
  | some name => (safePathSegment repr (resourceType ++ " name".toList) name).map (path ++ '/' :: ·)

/-- `if child: path = f"{path}/{child}"`. -/
def withChild (path : Text) : Option Text → Text
  | none | some [] => path
  | some child => path ++ '/' :: child

/-- What a request is about. -/
inductive Target where
  /-- `la_resource_url`. -/
  | logAnalytics (resourceType : Text) (name : Option Text)
  /-- `resource_url`. -/
  | sentinel (resourceType : Text) (name : Option Text) (child : Option Text)
  /-- `resource_group_resource_url`. -/
  | resourceGroup (group rpNamespace resourceType : Text) (name : Option Text)

def Target.url (repr : Text → Text) (config : SentinelConfig) (apiVersion : Text) :
    Target → Except Text Text
  | logAnalytics resourceType name => do
    let path ← withName repr (config.laWorkspacePath ++ '/' :: resourceType) resourceType name
    return withQuery path apiVersion
  | sentinel resourceType name child => do
    let path ← withName repr (config.workspacePath ++ '/' :: resourceType) resourceType name
    return withQuery (withChild path child) apiVersion
  | .resourceGroup group rpNamespace resourceType name => do
    let group ← safePathSegment repr "resource group".toList group
    let path ← withName repr ("/subscriptions/".toList ++ config.subscriptionId ++
      "/resourceGroups/".toList ++ group ++ "/providers/".toList ++ rpNamespace ++
        '/' :: resourceType) resourceType name
    return withQuery path apiVersion

/-- `subscription_resource_url`. -/
def subscriptionResourceUrl (repr : Text → Text) (config : SentinelConfig)
    (rpNamespace resourceType : Text) (name : Option Text) (apiVersion : Text) : Except Text Text :=
  (Target.resourceGroup config.resourceGroup rpNamespace resourceType name).url repr config apiVersion

/-! ## What a server reads -/

def SentinelConfig.laSegments (config : SentinelConfig) : List Text :=
  [[], "subscriptions".toList, config.subscriptionId, "resourceGroups".toList,
    config.resourceGroup, "providers".toList, "Microsoft.OperationalInsights".toList,
    "workspaces".toList, config.workspaceName]

/-- `None` and an empty name name the collection. -/
def nameSegment : Option Text → List Text
  | none | some [] => []
  | some name => [name]

/-- The resource that a target is, from the root. -/
def Target.segments (config : SentinelConfig) : Target → List Text
  | logAnalytics resourceType name => config.laSegments ++ [resourceType] ++ nameSegment name
  | sentinel resourceType name child => config.laSegments ++
      ["providers".toList, "Microsoft.SecurityInsights".toList, resourceType] ++
        nameSegment name ++ nameSegment child
  | .resourceGroup group rpNamespace resourceType name =>
    [[], "subscriptions".toList, config.subscriptionId, "resourceGroups".toList, group,
      "providers".toList, rpNamespace, resourceType] ++ nameSegment name

/-- The names of a target that come from data. -/
def Target.names : Target → List Text
  | logAnalytics _ name => nameSegment name
  | sentinel _ name _ => nameSegment name
  | .resourceGroup group _ _ name => group :: nameSegment name

/-- What a URL takes as it is. -/
structure Plain (t : Text) : Prop extends Segment t where
  percent : '%' ∉ t

structure SentinelConfig.IsPlain (config : SentinelConfig) : Prop where
  subscriptionId : Plain config.subscriptionId
  resourceGroup : Plain config.resourceGroup
  workspaceName : Plain config.workspaceName

/-- The parts of a target that are constants of the code. -/
def Target.IsPlain : Target → Prop
  | logAnalytics resourceType _ => Plain resourceType
  | sentinel resourceType _ child => Plain resourceType ∧ ∀ c ∈ child, Plain c
  | .resourceGroup _ rpNamespace resourceType _ => Plain rpNamespace ∧ Plain resourceType

/-- A path whose parts stand for these segments. -/
def IsPath (path : Text) (segments : List Text) : Prop :=
  ∃ parts : List (Text × Text), parts ≠ [] ∧
    (∀ part ∈ parts, Segment part.1 ∧ unquote part.1 = some (utf8 part.2)) ∧
      path = ['/'].intercalate (parts.map Prod.fst) ∧ segments = parts.map Prod.snd

theorem IsPath.root : IsPath [] [[]] :=
  ⟨[([], [])], List.cons_ne_nil _ _,
    List.forall_mem_singleton.mpr ⟨⟨by simp, by simp, by simp⟩, rfl⟩, rfl, rfl⟩

theorem IsPath.snoc {path : Text} {segments : List Text} (h : IsPath path segments) {e s : Text}
    (hsegment : Segment e) (hunquote : unquote e = some (utf8 s)) :
    IsPath (path ++ '/' :: e) (segments ++ [s]) := by
  obtain ⟨parts, hne, hparts, rfl, rfl⟩ := h
  refine ⟨parts ++ [(e, s)], by simp, ?_, ?_, by simp⟩
  · intro part hpart
    rcases List.mem_append.mp hpart with hpart | hpart
    · exact hparts part hpart
    · exact List.mem_singleton.mp hpart ▸ ⟨hsegment, hunquote⟩
  · have hne' : parts.map Prod.fst ≠ [] := fun hnil => hne (List.map_eq_nil_iff.mp hnil)
    rw [List.map_append, List.map_singleton, intercalate_concat _ _ hne']
    rfl

theorem IsPath.plain {path : Text} {segments : List Text} (h : IsPath path segments) {s : Text}
    (hs : Plain s) : IsPath (path ++ '/' :: s) (segments ++ [s]) :=
  h.snoc hs.toSegment (unquote_of_not_mem hs.percent)

theorem IsPath.quoted {path : Text} {segments : List Text} (h : IsPath path segments) {s : Text}
    (hs : Safe s) : IsPath (path ++ '/' :: quote s) (segments ++ [s]) :=
  h.snoc (segment_quote hs.dot hs.dots) (unquote_quote s)

theorem IsPath.received {path : Text} {segments : List Text} (h : IsPath path segments)
    (query : Text) (hquery : ∀ c ∈ query.head?, c = '?') :
    serverPath (path ++ query) = some (segments.map utf8) := by
  obtain ⟨parts, hne, hparts, rfl, rfl⟩ := h
  refine serverPath_join hquery (fun hnil => hne (List.map_eq_nil_iff.mp hnil)) ?_ ?_
  · intro s hs
    obtain ⟨part, hpart, rfl⟩ := List.mem_map.mp hs
    exact (hparts part hpart).1
  · rw [mapM_eq_some_iff, List.filterMap_map, List.map_map]
    refine ⟨fun s hs => ?_, ?_⟩
    · obtain ⟨part, hpart, rfl⟩ := List.mem_map.mp hs
      rw [(hparts part hpart).2, Option.isSome_some]
    · rw [← List.filterMap_eq_map]
      exact (List.filterMap_congr fun part hpart => (hparts part hpart).2).symm

theorem plain_of_all {t : Text} (h : t.all (fun c => !"/?#%".toList.contains c) = true)
    (hdot : t ≠ ['.']) (hdots : t ≠ ['.', '.']) : Plain t := by
  have hmem : ∀ c ∈ t, c ∉ "/?#%".toList := fun c hc => by
    have hc' := List.all_eq_true.mp h c hc
    simpa using hc'
  refine ⟨⟨fun c hc => ⟨?_, ?_, ?_⟩, hdot, hdots⟩, fun hc => hmem _ hc (by decide)⟩
  all_goals
    rintro rfl
    exact hmem _ hc (by decide)

theorem IsPath.plains {path : Text} {segments : List Text} (h : IsPath path segments)
    (more : List Text) (hmore : ∀ s ∈ more, Plain s) :
    IsPath (path ++ more.flatMap ('/' :: ·)) (segments ++ more) := by
  induction more generalizing path segments with
  | nil => simpa using h
  | cons s more ih =>
    obtain ⟨hs, hmore⟩ := List.forall_mem_cons.mp hmore
    simpa using ih (h.plain hs) hmore

theorem IsPath.laWorkspace {config : SentinelConfig} (h : config.IsPlain) :
    IsPath config.laWorkspacePath config.laSegments := by
  have hpath := IsPath.root.plains config.laSegments.tail fun s hs => by
    simp only [SentinelConfig.laSegments, List.tail_cons, List.mem_cons, List.not_mem_nil,
      or_false] at hs
    rcases hs with rfl | rfl | rfl | rfl | rfl | rfl | rfl | rfl
    exacts [plain_of_all (by decide) (by decide) (by decide), h.subscriptionId,
      plain_of_all (by decide) (by decide) (by decide), h.resourceGroup,
      plain_of_all (by decide) (by decide) (by decide),
      plain_of_all (by decide) (by decide) (by decide),
      plain_of_all (by decide) (by decide) (by decide), h.workspaceName]
  have hsubscriptions : "/subscriptions/".toList = '/' :: "subscriptions".toList ++ ['/'] := by
    decide +kernel
  have hgroups : "/resourceGroups/".toList = '/' :: "resourceGroups".toList ++ ['/'] := by
    decide +kernel
  have hproviders : "/providers/Microsoft.OperationalInsights".toList =
      '/' :: "providers".toList ++ '/' :: "Microsoft.OperationalInsights".toList := by
    decide +kernel
  have hworkspaces : "/workspaces/".toList = '/' :: "workspaces".toList ++ ['/'] := by decide +kernel
  have hjoin : config.laWorkspacePath = [] ++ config.laSegments.tail.flatMap ('/' :: ·) := by
    unfold SentinelConfig.laWorkspacePath SentinelConfig.laSegments
    simp only [hsubscriptions, hgroups, hproviders, hworkspaces, List.tail_cons, List.flatMap_cons]
    generalize "subscriptions".toList = a, "resourceGroups".toList = b, "providers".toList = c,
      "Microsoft.OperationalInsights".toList = d, "workspaces".toList = e
    simp
  rw [hjoin]
  exact hpath

theorem IsPath.workspace {config : SentinelConfig} (h : config.IsPlain) :
    IsPath config.workspacePath
      (config.laSegments ++ ["providers".toList, "Microsoft.SecurityInsights".toList]) := by
  have hpath := (IsPath.laWorkspace h).plains
    ["providers".toList, "Microsoft.SecurityInsights".toList] fun s hs => by
      rcases List.mem_pair.mp hs with rfl | rfl
      exacts [plain_of_all (by decide) (by decide) (by decide),
        plain_of_all (by decide) (by decide) (by decide)]
  have hproviders : "/providers/Microsoft.SecurityInsights".toList =
      '/' :: "providers".toList ++ '/' :: "Microsoft.SecurityInsights".toList := by decide +kernel
  have hjoin : config.workspacePath = config.laWorkspacePath ++
      ["providers".toList, "Microsoft.SecurityInsights".toList].flatMap ('/' :: ·) := by
    unfold SentinelConfig.workspacePath
    simp only [hproviders, List.flatMap_cons, List.flatMap_nil]
    generalize "providers".toList = c, "Microsoft.SecurityInsights".toList = d
    simp
  rw [hjoin]
  exact hpath

/-! ## One request -/

theorem withName_of_safe (repr : Text → Text) {path : Text} {segments : List Text}
    (h : IsPath path segments) (resourceType : Text) {name : Option Text}
    (hname : ∀ n ∈ nameSegment name, Safe n) :
    ∃ named, withName repr path resourceType name = .ok named ∧
      IsPath named (segments ++ nameSegment name) := by
  match name with
  | none | some [] => exact ⟨path, rfl, (List.append_nil segments).symm ▸ h⟩
  | some (c :: cs) =>
    have hsafe : Safe (c :: cs) := hname _ (List.mem_singleton.mpr rfl)
    refine ⟨path ++ '/' :: quote (c :: cs), ?_, h.quoted hsafe⟩
    rw [withName, safePathSegment_of_safe repr _ hsafe]
    · rfl
    · exact List.cons_ne_nil _ _

theorem safe_of_withName {repr : Text → Text} {path resourceType named : Text} {name : Option Text}
    (h : withName repr path resourceType name = .ok named) : ∀ n ∈ nameSegment name, Safe n := by
  match name with
  | none | some [] => exact fun n hn => absurd hn List.not_mem_nil
  | some (c :: cs) =>
    intro n hn
    obtain rfl : n = c :: cs := List.mem_singleton.mp hn
    rw [withName] at h
    · cases hsegment : safePathSegment repr (resourceType ++ " name".toList) (c :: cs) with
      | error e => cases hsegment ▸ h
      | ok segment => exact safe_of_safePathSegment hsegment
    · exact List.cons_ne_nil _ _

theorem IsPath.withQuery {path : Text} {segments : List Text} (h : IsPath path segments)
    (apiVersion : Text) :
    serverPath (UrlPath.withQuery path apiVersion) = some (segments.map utf8) := by
  unfold UrlPath.withQuery
  rw [List.append_assoc]
  exact h.received _ (by simp)

theorem withChild_plain {path : Text} {segments : List Text} (h : IsPath path segments)
    {child : Option Text} (hchild : ∀ c ∈ child, Plain c) :
    IsPath (withChild path child) (segments ++ nameSegment child) := by
  match child with
  | none | some [] => exact (List.append_nil segments).symm ▸ h
  | some (c :: cs) => exact h.plain (hchild _ rfl)

theorem IsPath.inGroup {config : SentinelConfig} (h : config.IsPlain)
    {group rpNamespace resourceType : Text} (hgroup : Safe group) (hnamespace : Plain rpNamespace)
    (htype : Plain resourceType) :
    IsPath ("/subscriptions/".toList ++ config.subscriptionId ++ "/resourceGroups/".toList ++
        quote group ++ "/providers/".toList ++ rpNamespace ++ '/' :: resourceType)
      [[], "subscriptions".toList, config.subscriptionId, "resourceGroups".toList, group,
        "providers".toList, rpNamespace, resourceType] := by
  have hpath := ((IsPath.root.plains
    ["subscriptions".toList, config.subscriptionId, "resourceGroups".toList]
    (fun s hs => by
      simp only [List.mem_cons, List.not_mem_nil, or_false] at hs
      rcases hs with rfl | rfl | rfl
      exacts [plain_of_all (by decide) (by decide) (by decide), h.subscriptionId,
        plain_of_all (by decide) (by decide) (by decide)])).quoted hgroup).plains
    ["providers".toList, rpNamespace, resourceType] fun s hs => by
      simp only [List.mem_cons, List.not_mem_nil, or_false] at hs
      rcases hs with rfl | rfl | rfl
      exacts [plain_of_all (by decide) (by decide) (by decide), hnamespace, htype]
  have hsubscriptions : "/subscriptions/".toList = '/' :: "subscriptions".toList ++ ['/'] := by
    decide +kernel
  have hgroups : "/resourceGroups/".toList = '/' :: "resourceGroups".toList ++ ['/'] := by
    decide +kernel
  have hproviders : "/providers/".toList = '/' :: "providers".toList ++ ['/'] := by decide +kernel
  simp only [hsubscriptions, hgroups, hproviders]
  generalize "subscriptions".toList = a, "resourceGroups".toList = b, "providers".toList = c
    at hpath ⊢
  simpa using hpath

/-- A target whose names are safe has a URL, and it is the target's own. -/
theorem Target.url_of_safe (repr : Text → Text) {config : SentinelConfig} (hconfig : config.IsPlain)
    (apiVersion : Text) {t : Target} (ht : t.IsPlain) (hsafe : ∀ n ∈ t.names, Safe n) :
    ∃ u, t.url repr config apiVersion = .ok u ∧
      serverPath u = some ((t.segments config).map utf8) := by
  cases t with
  | logAnalytics resourceType name =>
    obtain ⟨path, hpath, h⟩ := withName_of_safe repr ((IsPath.laWorkspace hconfig).plain ht)
      resourceType hsafe
    refine ⟨withQuery path apiVersion, ?_, h.withQuery apiVersion⟩
    rw [Target.url, hpath]
    rfl
  | sentinel resourceType name child =>
    obtain ⟨path, hpath, h⟩ := withName_of_safe repr ((IsPath.workspace hconfig).plain ht.1)
      resourceType hsafe
    refine ⟨withQuery (withChild path child) apiVersion, ?_, ?_⟩
    · rw [Target.url, hpath]
      rfl
    · have hreceived := (withChild_plain h ht.2).withQuery apiVersion
      rw [List.append_assoc config.laSegments] at hreceived
      exact hreceived
  | resourceGroup group rpNamespace resourceType name =>
    obtain ⟨hgroup, hname⟩ := List.forall_mem_cons.mp hsafe
    obtain ⟨path, hpath, h⟩ := withName_of_safe repr (IsPath.inGroup hconfig hgroup ht.1 ht.2)
      resourceType hname
    refine ⟨withQuery path apiVersion, ?_, h.withQuery apiVersion⟩
    rw [Target.url, safePathSegment_of_safe repr _ hgroup]
    simp only [Except.bind, bind]
    rw [hpath]
    rfl

theorem Target.safe_of_url {repr : Text → Text} {config : SentinelConfig} {apiVersion u : Text}
    {t : Target} (h : t.url repr config apiVersion = .ok u) : ∀ n ∈ t.names, Safe n := by
  cases t with
  | logAnalytics resourceType name =>
    rw [Target.url] at h
    cases hname : withName repr (config.laWorkspacePath ++ '/' :: resourceType) resourceType name with
    | error e => cases hname ▸ h
    | ok path => exact safe_of_withName hname
  | sentinel resourceType name child =>
    rw [Target.url] at h
    cases hname : withName repr (config.workspacePath ++ '/' :: resourceType) resourceType name with
    | error e => cases hname ▸ h
    | ok path => exact safe_of_withName hname
  | resourceGroup group rpNamespace resourceType name =>
    rw [Target.url] at h
    cases hgroup : safePathSegment repr "resource group".toList group with
    | error e => cases hgroup ▸ h
    | ok segment =>
      rw [hgroup] at h
      cases hname : withName repr ("/subscriptions/".toList ++ config.subscriptionId ++
        "/resourceGroups/".toList ++ segment ++ "/providers/".toList ++ rpNamespace ++
          '/' :: resourceType) resourceType name with
      | error e =>
        simp only [Except.bind, bind] at h
        rw [hname] at h
        cases h
      | ok path =>
        exact List.forall_mem_cons.mpr ⟨safe_of_safePathSegment hgroup, safe_of_withName hname⟩

/-- Names that come from data never move a request: a URL is built exactly when each of them is
safe, and a server that takes the URL apart reads the segments of the target itself. -/
theorem Target.url_eq_ok_iff (repr : Text → Text) {config : SentinelConfig}
    (hconfig : config.IsPlain) (apiVersion : Text) {t : Target} (ht : t.IsPlain) :
    ((∃ u, t.url repr config apiVersion = .ok u) ↔ ∀ n ∈ t.names, Safe n) ∧
      ∀ u, t.url repr config apiVersion = .ok u →
        serverPath u = some ((t.segments config).map utf8) := by
  refine ⟨⟨fun ⟨u, hu⟩ => safe_of_url hu, fun hsafe => ?_⟩, fun u hu => ?_⟩
  · obtain ⟨u, hu, -⟩ := url_of_safe repr hconfig apiVersion ht hsafe
    exact ⟨u, hu⟩
  · obtain ⟨v, hv, hserver⟩ := url_of_safe repr hconfig apiVersion ht (safe_of_url hu)
    cases hu.symm.trans hv
    exact hserver

theorem Target.url_eq_ok_iff_traversal :
    ¬∃ u, (Target.sentinel "alertRules".toList (some "../../automationRules/x".toList) none).url id
      ⟨['s'], ['g'], ['w']⟩ "2024-09-01".toList = .ok u := by
  have hconfig : SentinelConfig.IsPlain ⟨['s'], ['g'], ['w']⟩ :=
    ⟨plain_of_all (by decide) (by decide) (by decide),
      plain_of_all (by decide) (by decide) (by decide),
      plain_of_all (by decide) (by decide) (by decide)⟩
  have htarget : (Target.sentinel "alertRules".toList (some "../../automationRules/x".toList)
      none).IsPlain := ⟨plain_of_all (by decide) (by decide) (by decide), by simp⟩
  rw [(url_eq_ok_iff id hconfig "2024-09-01".toList htarget).1]
  exact fun h => (h _ (List.mem_singleton.mpr rfl)).forbidden '/' (by decide) (by decide)

/-! ## The Graph client -/

/-- `DefenderClient._rule_path`. -/
def rulePath (repr : Text → Text) (graphId : Text) : Except Text Text :=
  (safePathSegment repr "Defender rule id".toList graphId).map ("/detectionRules/".toList ++ ·)

/-- A rule id only ever names one rule of the collection. -/
theorem serverPath_rulePath {repr : Text → Text} {graphId path : Text}
    (h : rulePath repr graphId = .ok path) :
    Safe graphId ∧ serverPath path = some ([[], "detectionRules".toList, graphId].map utf8) := by
  rw [rulePath] at h
  cases hsegment : safePathSegment repr "Defender rule id".toList graphId with
  | error e => cases hsegment ▸ h
  | ok segment =>
    have hsafe := safe_of_safePathSegment hsegment
    rw [safePathSegment_of_safe repr _ hsafe] at h
    obtain rfl : path = "/detectionRules/".toList ++ quote graphId := (Except.ok.inj h).symm
    have hpath := (IsPath.root.plain (plain_of_all (t := "detectionRules".toList) (by decide)
      (by decide) (by decide))).quoted hsafe
    have hcollection : "/detectionRules/".toList = '/' :: "detectionRules".toList ++ ['/'] := by
      decide +kernel
    have hreceived := hpath.received [] (by simp)
    refine ⟨hsafe, ?_⟩
    rw [hcollection, List.append_assoc]
    rwa [List.append_nil] at hreceived

end ContentOps.UrlPath
