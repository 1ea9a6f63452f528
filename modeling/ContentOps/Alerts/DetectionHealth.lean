import ContentOps.Alerts.Models
import ContentOps.Lifecycle.RuleKeys
import ContentOps.Library.Tally

/-! The detection health of `alerts/detection_health.py`: alerts are matched to the id of a
detection, and each detection with this id counts them. -/

namespace ContentOps.Alerts
open PyData

/-- What the engine reads of a detection: of the payload its names, the title of a Defender alert and
the format of `alertDetailsOverride`, each a text where it is there. -/
structure Detection where
  asset : Asset
  id : String
  version : String := ""
  armName : Option String := none
  displayName : Option String := none
  displayNameUpper : Option String := none
  alertTitle : Option String := none
  alertDisplayNameFormat : Option String := none
deriving DecidableEq

section
variable {X T : Type} (py : Numbers X)

def normalText (s : String) : String := py.lower (String.ofList (Text.strip s.toList))

namespace Detection

/-- `rule_keys_for`. -/
def ruleKeys (d : Detection) : RuleKeys :=
  let texts := [d.displayName, d.displayNameUpper] ++
    if d.asset = .defenderCustomDetection then [d.alertTitle] else []
  { ids := dedupeTexts [normaliseRuleId py (.str (orText (d.armName.getD "") d.id) : Value X)]
    names := dedupeTexts (texts.map fun t => normaliseRuleName py (Value.ofOption t : Value X)) }

def display (d : Detection) : String :=
  orText (d.displayName.getD "") (orText (d.displayNameUpper.getD "") d.id)

end Detection

/-! ## The indexes -/

def minSubstringLen : Nat := 8

/-- The text before the first placeholder. -/
def beforeBraces : Text → Option Text
  | '{' :: '{' :: _ => some []
  | c :: t => (beforeBraces t).map (c :: ·)
  | [] => none

def titleIndex (ds : List Detection) : Dict String String :=
  Dict.firsts (ds.flatMap fun d =>
    (dedupeTitles (normalText py d.display :: (d.ruleKeys py).names)).map fun k => (k, d.id))
where
  /-- `dict.fromkeys(...)`. -/
  dedupeTitles (titles : List String) : List String := (Dict.ofPairs (titles.map (·, ()))).keys

def idIndex (ds : List Detection) : Dict String String :=
  Dict.firsts (ds.flatMap fun d => (d.ruleKeys py).ids.map fun k => (k, d.id))

def armGuidIndex (ds : List Detection) : Dict String String :=
  Dict.ofPairs (ds.filterMap fun d =>
    (d.armName.filter (· ≠ "")).map fun arm => (normalText py arm, d.id))

def prefixIndex (ds : List Detection) : List (String × String) :=
  ds.filterMap fun d => do
    let start ← beforeBraces (d.alertDisplayNameFormat.getD "").toList
    let start := Text.strip start
    if minSubstringLen ≤ start.length then some (py.lower (String.ofList start), d.id) else none

/-! ## The tiers -/

/-- The id under an id of the telemetry, or under one that Graph has cut short. -/
def matchRuleId (ds : List Detection) (ruleId : String) : Option String :=
  ((normaliseRuleId py (.str ruleId : Value X)).bind (idIndex py ds).get?).or <|
    let rawId := (normalText py ruleId).toList
    if '_' ∈ rawId then
      let suffix := ((rawId.splitOn '_').getLast?).getD []
      if minSubstringLen ≤ suffix.length then
        ((armGuidIndex py ds).find? fun p =>
          suffix.isPrefixOf p.1.toList || p.1.toList.isPrefixOf suffix).map (·.2)
      else none
    else none

def matchTitle (ds : List Detection) (title : String) : Option String :=
  ((titleIndex py ds).get? title).or <|
    (((prefixIndex py ds).find? fun p => p.1.toList.isPrefixOf title.toList).map (·.2)).or <|
      ((titleIndex py ds).find? fun p => decide (minSubstringLen ≤ p.1.toList.length) &&
        (decide (p.1.toList <:+: title.toList) || decide (title.toList <:+: p.1.toList))).map (·.2)

/-- The id of the detection that `_build_detection_alert_map` gives an alert. -/
def matchAlert (ds : List Detection) (a : NormalizedAlert T) : Option String :=
  ((a.ruleId.filter (· ≠ "")).bind (matchRuleId py ds)).or <|
    let title := normalText py a.title
    if title = "" then none else matchTitle py ds title

/-- `_build_detection_alert_map`. -/
def buildDetectionAlertMap (ds : List Detection) (alerts : List (NormalizedAlert T)) :
    Dict String (List (NormalizedAlert T)) × Nat :=
  (Dict.group (matchAlert py ds) alerts, alerts.countP fun a => (matchAlert py ds a).isNone)

/-! ## The rows -/

structure DetectionHealthRow where
  detectionId : String
  assetKind : String
  displayName : String
  version : String
  alertCount : Nat
  tpCount : Nat
  fpCount : Nat
  benignCount : Nat
  undeterminedCount : Nat

structure DetectionHealthReport where
  rows : List DetectionHealthRow
  totalDetections : Nat
  matchedDetections : Nat
  unmatchedAlerts : Nat
  totalAlerts : Nat

def alertsOf (ds : List Detection) (alerts : List (NormalizedAlert T)) (d : Detection) :
    List (NormalizedAlert T) :=
  ((buildDetectionAlertMap py ds alerts).1.get? d.id).getD []

def healthRow (d : Detection) (detAlerts : List (NormalizedAlert T)) : DetectionHealthRow :=
  let countOf := fun c => detAlerts.countP fun a => a.classification = c
  { detectionId := d.id
    assetKind := d.asset.value
    displayName := d.display
    version := d.version
    alertCount := detAlerts.length
    tpCount := countOf .truePositive
    fpCount := countOf .falsePositive
    benignCount := countOf .benignPositive
    undeterminedCount := countOf .undetermined }

/-- `compute_detection_health`, before its rows are sorted. -/
def computeDetectionHealth (ds : List Detection) (alerts : List (NormalizedAlert T)) :
    DetectionHealthReport :=
  { rows := ds.map fun d => healthRow d (alertsOf py ds alerts d)
    totalDetections := ds.length
    matchedDetections := ds.countP fun d => !(alertsOf py ds alerts d).isEmpty
    unmatchedAlerts := (buildDetectionAlertMap py ds alerts).2
    totalAlerts := alerts.length }

/-! ## A match is the id of a detection -/

theorem mem_of_map_find? {κ α : Type*} {ps : List (κ × α)} {p : κ × α → Bool} {v : α}
    (h : (ps.find? p).map (·.2) = some v) : ∃ k, (k, v) ∈ ps := by
  obtain ⟨⟨k, v'⟩, hfind, rfl⟩ := Option.map_eq_some_iff.mp h
  exact ⟨k, List.mem_of_find?_eq_some hfind⟩

variable {py} {ds : List Detection} {k id : String}

theorem mem_idIndex (h : (k, id) ∈ idIndex py ds) : id ∈ ds.map (·.id) := by
  obtain ⟨d, hd, hk⟩ := List.mem_flatMap.mp (Dict.mem_firsts h)
  obtain ⟨key, hkey, hpair⟩ := List.mem_map.mp hk
  exact List.mem_map.mpr ⟨d, hd, (Prod.mk.inj hpair).2⟩

theorem mem_titleIndex (h : (k, id) ∈ titleIndex py ds) : id ∈ ds.map (·.id) := by
  obtain ⟨d, hd, hk⟩ := List.mem_flatMap.mp (Dict.mem_firsts h)
  obtain ⟨key, hkey, hpair⟩ := List.mem_map.mp hk
  exact List.mem_map.mpr ⟨d, hd, (Prod.mk.inj hpair).2⟩

theorem mem_armGuidIndex (h : (k, id) ∈ armGuidIndex py ds) : id ∈ ds.map (·.id) := by
  obtain ⟨d, hd, hk⟩ := List.mem_filterMap.mp (Dict.mem_ofPairs h)
  obtain ⟨arm, harm, hpair⟩ := Option.map_eq_some_iff.mp hk
  exact List.mem_map.mpr ⟨d, hd, (Prod.mk.inj hpair).2⟩

theorem mem_prefixIndex (h : (k, id) ∈ prefixIndex py ds) : id ∈ ds.map (·.id) := by
  obtain ⟨d, hd, hk⟩ := List.mem_filterMap.mp h
  obtain ⟨start, -, hk⟩ := Option.bind_eq_some_iff.mp hk
  dsimp only at hk
  split_ifs at hk
  exact List.mem_map.mpr ⟨d, hd, (Prod.mk.inj (Option.some.inj hk)).2⟩

theorem matchRuleId_mem {ruleId : String} (h : matchRuleId py ds ruleId = some id) :
    id ∈ ds.map (·.id) := by
  rcases Option.or_eq_some_iff.mp h with hid | ⟨-, harm⟩
  · obtain ⟨key, -, hget⟩ := Option.bind_eq_some_iff.mp hid
    exact mem_idIndex (Dict.mem_of_get? hget)
  · dsimp only at harm
    split_ifs at harm
    obtain ⟨key, hkey⟩ := mem_of_map_find? harm
    exact mem_armGuidIndex hkey

theorem matchTitle_mem {title : String} (h : matchTitle py ds title = some id) :
    id ∈ ds.map (·.id) := by
  rcases Option.or_eq_some_iff.mp h with hexact | ⟨-, h⟩
  · exact mem_titleIndex (Dict.mem_of_get? hexact)
  · rcases Option.or_eq_some_iff.mp h with hprefix | ⟨-, hinside⟩
    · obtain ⟨key, hkey⟩ := mem_of_map_find? hprefix
      exact mem_prefixIndex hkey
    · obtain ⟨key, hkey⟩ := mem_of_map_find? hinside
      exact mem_titleIndex hkey

theorem matchAlert_mem {a : NormalizedAlert T} (h : matchAlert py ds a = some id) :
    id ∈ ds.map (·.id) := by
  rcases Option.or_eq_some_iff.mp h with hrule | ⟨-, htitle⟩
  · obtain ⟨ruleId, -, hmatch⟩ := Option.bind_eq_some_iff.mp hrule
    exact matchRuleId_mem hmatch
  · dsimp only at htitle
    split_ifs at htitle
    exact matchTitle_mem htitle

/-- An id that one detection alone deploys under leads to this detection. -/
theorem get?_idIndex {earlier later : List Detection} {d : Detection} {ruleId : String}
    (hmine : ruleId ∈ (d.ruleKeys py).ids)
    (hothers : ∀ e ∈ earlier ++ later, ruleId ∉ (e.ruleKeys py).ids) :
    (idIndex py (earlier ++ d :: later)).get? ruleId = some d.id := by
  have hfound : (ruleId, d.id) ∈ (earlier ++ d :: later).flatMap fun e =>
      (e.ruleKeys py).ids.map fun k => (k, e.id) :=
    List.mem_flatMap.mpr ⟨d, by simp, List.mem_map.mpr ⟨ruleId, hmine, rfl⟩⟩
  unfold idIndex
  rw [Dict.get?_firsts]
  cases hfind : ((earlier ++ d :: later).flatMap fun e =>
      (e.ruleKeys py).ids.map fun k => (k, e.id)).find? fun p => p.1 = ruleId with
  | none => exact absurd (decide_eq_true rfl) (List.find?_eq_none.mp hfind _ hfound)
  | some p =>
    obtain ⟨e, he, hp⟩ := List.mem_flatMap.mp (List.mem_of_find?_eq_some hfind)
    obtain ⟨key, hkey, rfl⟩ := List.mem_map.mp hp
    obtain rfl : key = ruleId := by simpa using List.find?_some hfind
    rcases List.mem_append.mp he with he | he
    · exact absurd hkey (hothers e (List.mem_append_left later he))
    · rcases List.mem_cons.mp he with rfl | he
      · rfl
      · exact absurd hkey (hothers e (List.mem_append_right earlier he))

theorem matchAlert_of_ruleId {a : NormalizedAlert T} {ruleId : String}
    (hid : (a.ruleId.bind fun s => normaliseRuleId py (.str s : Value X)) = some ruleId)
    (hget : (idIndex py ds).get? ruleId = some id) : matchAlert py ds a = some id := by
  obtain ⟨s, hs, hnormal⟩ := Option.bind_eq_some_iff.mp hid
  have hne : s ≠ "" := by
    rintro rfl
    have hnone : normaliseRuleId py (.str "" : Value X) = none := rfl
    rw [hnone] at hnormal
    exact absurd hnormal.symm (Option.some_ne_none ruleId)
  have hrule : matchRuleId py ds s = some id := by
    unfold matchRuleId
    rw [hnormal, Option.bind_some, hget]
    rfl
  unfold matchAlert
  rw [hs, Option.filter_some, if_pos (decide_eq_true hne), Option.bind_some, hrule]
  rfl

/-! ## Every alert once -/

theorem alertsOf_eq (alerts : List (NormalizedAlert T)) (d : Detection) :
    alertsOf py ds alerts d = alerts.filter fun a => matchAlert py ds a = some d.id :=
  Dict.get?_group _ _ _

/-- The detections that count an alert. -/
def countedBy (py : Numbers X) (ds : List Detection) (a : NormalizedAlert T) : Nat :=
  ds.countP fun d => matchAlert py ds a = some d.id

theorem sum_alertCount (alerts : List (NormalizedAlert T)) :
    ((computeDetectionHealth py ds alerts).rows.map (·.alertCount)).sum =
      (alerts.map (countedBy py ds)).sum := by
  have hrows : (computeDetectionHealth py ds alerts).rows.map (·.alertCount) =
      ds.map fun d => alerts.countP fun a => matchAlert py ds a = some d.id := by
    unfold computeDetectionHealth
    rw [List.map_map]
    refine List.map_congr_left fun d _ => ?_
    change (alertsOf py ds alerts d).length = _
    rw [alertsOf_eq, List.countP_eq_length_filter]
  rw [hrows, sum_countP_comm]
  rfl

/-- A matched alert counts at least once, and one that is not matched counts as unmatched. -/
theorem sum_counted (alerts : List (NormalizedAlert T)) :
    ((computeDetectionHealth py ds alerts).rows.map (·.alertCount)).sum +
        (computeDetectionHealth py ds alerts).unmatchedAlerts =
      (alerts.map fun a => countedBy py ds a + if (matchAlert py ds a).isNone then 1 else 0).sum := by
  rw [sum_alertCount]
  change _ + alerts.countP _ = _
  induction alerts with
  | nil => rfl
  | cons a alerts ih =>
    rw [List.map_cons, List.sum_cons, List.map_cons, List.sum_cons, ← ih, List.countP_cons]
    omega

/-- The report loses and doubles no alert, and each alert whose id one detection alone deploys under
is counted there. -/
structure ConservesAlerts (py : Numbers X) (ds : List Detection)
    (alerts : List (NormalizedAlert T)) : Prop where
  total : ((computeDetectionHealth py ds alerts).rows.map (·.alertCount)).sum +
      (computeDetectionHealth py ds alerts).unmatchedAlerts =
    (computeDetectionHealth py ds alerts).totalAlerts
  classifications : ∀ row ∈ (computeDetectionHealth py ds alerts).rows,
    row.tpCount + row.fpCount + row.benignCount + row.undeterminedCount = row.alertCount
  attributed : ∀ a ∈ alerts, ∀ ruleId,
    (a.ruleId.bind fun s => normaliseRuleId py (.str s : Value X)) = some ruleId →
      ∀ earlier d later, ds = earlier ++ d :: later → ruleId ∈ (d.ruleKeys py).ids →
        (∀ e ∈ earlier ++ later, ruleId ∉ (e.ruleKeys py).ids) →
          a ∈ alertsOf py ds alerts d ∧ ∀ e ∈ earlier ++ later, a ∉ alertsOf py ds alerts e

/-- No alert is matched to an id that several detections have. -/
def MatchedApart (py : Numbers X) (ds : List Detection) (alerts : List (NormalizedAlert T)) :
    Prop :=
  ∀ a ∈ alerts, ∀ id, matchAlert py ds a = some id → ds.countP (fun d => d.id = id) = 1

theorem countedBy_of_match {a : NormalizedAlert T} (h : matchAlert py ds a = some id) :
    countedBy py ds a = ds.countP fun d => d.id = id := by
  unfold countedBy
  rw [h]
  refine List.countP_congr fun d _ => ?_
  simp [eq_comm]

theorem classifications_sum (d : Detection) (detAlerts : List (NormalizedAlert T)) :
    (healthRow d detAlerts).tpCount + (healthRow d detAlerts).fpCount +
      (healthRow d detAlerts).benignCount + (healthRow d detAlerts).undeterminedCount =
        (healthRow d detAlerts).alertCount := by
  unfold healthRow
  dsimp only
  induction detAlerts with
  | nil => rfl
  | cons a detAlerts ih =>
    rw [List.countP_cons, List.countP_cons, List.countP_cons, List.countP_cons, List.length_cons,
      ← ih]
    cases a.classification <;> simp <;> omega

theorem total_iff (alerts : List (NormalizedAlert T)) :
    ((computeDetectionHealth py ds alerts).rows.map (·.alertCount)).sum +
        (computeDetectionHealth py ds alerts).unmatchedAlerts =
      (computeDetectionHealth py ds alerts).totalAlerts ↔ MatchedApart py ds alerts := by
  have hweight : ∀ a : NormalizedAlert T,
      (countedBy py ds a + if (matchAlert py ds a).isNone then 1 else 0) =
        (matchAlert py ds a).elim 1 fun id => ds.countP fun d => d.id = id := by
    intro a
    cases h : matchAlert py ds a with
    | none =>
      have hzero : countedBy py ds a = 0 := by
        unfold countedBy
        rw [h, List.countP_eq_zero]
        intro d _
        simp
      rw [hzero]
      rfl
    | some id =>
      rw [countedBy_of_match h]
      rfl
  have hpos : ∀ a ∈ alerts,
      1 ≤ countedBy py ds a + if (matchAlert py ds a).isNone then 1 else 0 := by
    intro a _
    rw [hweight]
    cases h : matchAlert py ds a with
    | none => exact le_rfl
    | some id =>
      obtain ⟨d, hd, hid⟩ := List.mem_map.mp (matchAlert_mem h)
      exact List.countP_pos_iff.mpr ⟨d, hd, decide_eq_true hid⟩
  -- Every alert counts at least once, so the sums agree only where none counts more often.
  rw [sum_counted]
  change _ = alerts.length ↔ _
  rw [sum_eq_length_iff hpos]
  unfold MatchedApart
  refine forall₂_congr fun a _ => ?_
  rw [hweight]
  cases matchAlert py ds a with
  | none => simp
  | some id => simp

theorem attributed_of_matchedApart {alerts : List (NormalizedAlert T)}
    (h : MatchedApart py ds alerts) {a : NormalizedAlert T} (ha : a ∈ alerts) {ruleId : String}
    (hid : (a.ruleId.bind fun s => normaliseRuleId py (.str s : Value X)) = some ruleId)
    {earlier later : List Detection} {d : Detection} (hds : ds = earlier ++ d :: later)
    (hmine : ruleId ∈ (d.ruleKeys py).ids)
    (hothers : ∀ e ∈ earlier ++ later, ruleId ∉ (e.ruleKeys py).ids) :
    a ∈ alertsOf py ds alerts d ∧ ∀ e ∈ earlier ++ later, a ∉ alertsOf py ds alerts e := by
  have hmatch : matchAlert py ds a = some d.id := by
    apply matchAlert_of_ruleId hid
    rw [hds]
    exact get?_idIndex hmine hothers
  refine ⟨?_, fun e he hmem => ?_⟩
  · rw [alertsOf_eq]
    exact List.mem_filter.mpr ⟨ha, decide_eq_true hmatch⟩
  · rw [alertsOf_eq] at hmem
    have hsame : some d.id = some e.id :=
      hmatch.symm.trans (of_decide_eq_true (List.mem_filter.mp hmem).2)
    have hone := h a ha d.id hmatch
    -- `e` is at another place than `d` and has its id as well.
    have hrest : 0 < (earlier ++ later).countP fun f => f.id = d.id :=
      List.countP_pos_iff.mpr ⟨e, he, decide_eq_true (Option.some.inj hsame).symm⟩
    rw [hds, List.countP_append, List.countP_cons,
      if_pos (decide_eq_true rfl)] at hone
    rw [List.countP_append] at hrest
    omega

end

/-! ## A hunting query with the id of a rule -/

namespace Sample

def sharedId : List Detection :=
  [{ asset := .sentinelAnalytic, id := "beacon", displayName := some "Beacon" },
    { asset := .sentinelHunting, id := "beacon", displayName := some "Beacon hunt" }]

def beaconAlert : NormalizedAlert String where
  id := "a1"
  title := "Beacon"
  severity := .high
  status := .new
  classification := .undetermined
  determination := .unknown
  source := "sentinel"
  serviceSource := ""
  ruleId := some "beacon"

def asciiLower : Numbers Empty where
  ofText _ := none
  truncate x := x.elim
  divide _ _ := none
  le x _ := x.elim
  text x := x.elim
  lower := lowerAscii

end Sample

end ContentOps.Alerts
