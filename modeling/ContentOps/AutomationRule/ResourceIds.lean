import ContentOps.AutomationRule.Conditions
import ContentOps.Core.RoundTrip

/-! Resource ids up to the letter case of their subscription, resource group or workspace, and
which of them come back the same when they are collected and sent again. -/

namespace ContentOps.AutomationRule
open PyData

/-! ## The parts of an id -/

def logicAppSegments (sub rg name : Text) : List Text :=
  [[], "subscriptions".toList, sub, "resourceGroups".toList, rg, "providers".toList,
    "Microsoft.Logic".toList, "workflows".toList, name]

theorem intercalate_logicAppSegments (sub rg name : Text) :
    ['/'].intercalate (logicAppSegments sub rg name) =
      "/subscriptions/".toList ++ sub ++ "/resourceGroups/".toList ++ rg ++
        "/providers/Microsoft.Logic/workflows/".toList ++ name := by
  simp [logicAppSegments, List.intercalate_cons_cons]

theorem toList_logicAppResourceId (sub rg name : String) :
    (logicAppResourceId sub rg name).toList =
      ['/'].intercalate (logicAppSegments sub.toList rg.toList name.toList) := by
  rw [intercalate_logicAppSegments, ← String.toList_append, ← String.toList_append,
    ← String.toList_append, ← String.toList_append, ← String.toList_append]
  rfl

theorem splitOn_logicAppResourceId {sub rg name : String} (hsub : '/' ∉ sub.toList)
    (hrg : '/' ∉ rg.toList) (hname : '/' ∉ name.toList) :
    (logicAppResourceId sub rg name).toList.splitOn '/' =
      logicAppSegments sub.toList rg.toList name.toList := by
  rw [toList_logicAppResourceId]
  refine List.splitOn_intercalate '/' ?_ (by simp [logicAppSegments])
  intro l hl
  simp only [logicAppSegments, List.mem_cons, List.not_mem_nil, or_false] at hl
  rcases hl with rfl | rfl | rfl | rfl | rfl | rfl | rfl | rfl | rfl
  exacts [by decide, by decide, hsub, by decide, hrg, by decide, by decide, by decide, hname]

/-- What `_LOGIC_APP_ID_RE` matches. -/
theorem logicAppParts_eq_some {rid sub rg name : String} :
    logicAppParts rid = some (sub, rg, name) ↔
      ∃ a b p m w, rid.toList.splitOn '/' = [[], a, sub.toList, b, rg.toList, p, m, w, name.toList] ∧
        sameFolded "subscriptions" a ∧ sub.toList ≠ [] ∧ sameFolded "resourceGroups" b ∧
        rg.toList ≠ [] ∧ sameFolded "providers" p ∧ sameFolded "Microsoft.Logic" m ∧
        sameFolded "workflows" w ∧ name.toList ≠ [] := by
  unfold logicAppParts
  constructor
  · intro h
    split at h
    · next a sub' b rg' p m w name' heq =>
      split_ifs at h with hc
      obtain ⟨rfl, rfl, rfl⟩ : String.ofList sub' = sub ∧ String.ofList rg' = rg ∧
          String.ofList name' = name := by simpa using h
      exact ⟨a, b, p, m, w, by simpa using heq, by simpa using hc⟩
    · exact absurd h (by simp)
  · rintro ⟨a, b, p, m, w, heq, hc⟩
    rw [heq]
    simp only [String.ofList_toList]
    rw [if_pos hc]

theorem logicAppParts_logicAppResourceId {sub rg name : String} (hsub : '/' ∉ sub.toList)
    (hrg : '/' ∉ rg.toList) (hname : '/' ∉ name.toList) (hsub' : sub ≠ "") (hrg' : rg ≠ "")
    (hname' : name ≠ "") :
    logicAppParts (logicAppResourceId sub rg name) = some (sub, rg, name) := by
  rw [logicAppParts_eq_some]
  refine ⟨_, _, _, _, _, splitOn_logicAppResourceId hsub hrg hname, ?_⟩
  refine ⟨by decide, ?_, by decide, ?_, by decide, by decide, by decide, ?_⟩
  all_goals simpa

/-- What `_ALERT_RULE_ID_RE` matches: the workspace is in front of the last four segments. -/
theorem alertRuleParts_eq_some {rid workspace name : String} :
    alertRuleParts rid = some (workspace, name) ↔
      ∃ before p m a, rid.toList.splitOn '/' = before ++ [p, m, a, name.toList] ∧
        ['/'].intercalate before = workspace.toList ∧ name.toList ≠ [] ∧
        sameFolded "alertRules" a ∧ sameFolded "Microsoft.SecurityInsights" m ∧
        sameFolded "providers" p ∧ workspace.toList ≠ [] ∧ '\n' ∉ workspace.toList := by
  unfold alertRuleParts
  constructor
  · intro h
    split at h
    · next name' a m p rest heq =>
      dsimp only at h
      split_ifs at h with hc
      obtain ⟨hws, rfl⟩ : String.ofList (['/'].intercalate rest.reverse) = workspace ∧
          String.ofList name' = name := by simpa using h
      have hlist : ['/'].intercalate rest.reverse = workspace.toList := by rw [← hws, String.toList_ofList]
      refine ⟨rest.reverse, p, m, a, ?_, hlist, ?_⟩
      · rw [← List.reverse_reverse (rid.toList.splitOn '/'), heq]
        simp
      · rw [← hlist]
        simpa using hc
    · exact absurd h (by simp)
  · rintro ⟨before, p, m, a, heq, hws, hc⟩
    rw [heq]
    simp only [List.reverse_append, List.reverse_cons, List.reverse_nil, List.nil_append,
      List.cons_append, List.reverse_reverse, hws, String.ofList_toList]
    rw [if_pos hc]

theorem intercalate_concat {before : List Text} (h : before ≠ []) (l : Text) :
    ['/'].intercalate (before ++ [l]) = ['/'].intercalate before ++ '/' :: l := by
  induction before with
  | nil => exact absurd rfl h
  | cons x before ih =>
    cases before with
    | nil => simp [List.intercalate]
    | cons y before =>
      rw [List.cons_append, List.cons_append, List.intercalate_cons_cons,
        List.intercalate_cons_cons, ← List.cons_append, ih (by simp)]
      simp

theorem toList_of_alertRuleParts {rid workspace name : String}
    (h : alertRuleParts rid = some (workspace, name)) :
    ∃ p m a : Text, rid.toList =
      workspace.toList ++ '/' :: (p ++ '/' :: (m ++ '/' :: (a ++ '/' :: name.toList))) := by
  obtain ⟨before, p, m, a, hsplit, hws, -, -, -, -, hne, -⟩ := alertRuleParts_eq_some.mp h
  have hbefore : before ≠ [] := by
    rintro rfl
    exact hne (by rw [← hws]; rfl)
  refine ⟨p, m, a, ?_⟩
  have hjoin := (List.intercalate_splitOn '/' : ['/'].intercalate (rid.toList.splitOn '/') = rid.toList)
  rw [hsplit, show before ++ [p, m, a, name.toList] =
    (((before ++ [p]) ++ [m]) ++ [a]) ++ [name.toList] by simp,
    intercalate_concat (by simp), intercalate_concat (by simp), intercalate_concat (by simp),
    intercalate_concat hbefore, hws] at hjoin
  rw [← hjoin]
  simp

theorem alertRuleParts_analyticRuleResourceId {workspace name : String} (hws : workspace ≠ "")
    (hline : '\n' ∉ workspace.toList) (hname : name ≠ "") (hslash : '/' ∉ name.toList) :
    alertRuleParts (analyticRuleResourceId workspace name) = some (workspace, name) := by
  rw [alertRuleParts_eq_some]
  refine ⟨workspace.toList.splitOn '/', "providers".toList, "Microsoft.SecurityInsights".toList,
    "alertRules".toList, ?_, List.intercalate_splitOn '/', by simpa, by decide, by decide,
    by decide, by simpa, hline⟩
  have hid : (analyticRuleResourceId workspace name).toList =
      workspace.toList ++ '/' :: ['/'].intercalate ["providers".toList,
        "Microsoft.SecurityInsights".toList, "alertRules".toList, name.toList] := by
    simp [analyticRuleResourceId, List.intercalate, List.intersperse]
  rw [hid, List.splitOn_append_cons_self, List.splitOn_intercalate '/' ?_ (by simp)]
  intro l hl
  simp only [List.mem_cons, List.not_mem_nil, or_false] at hl
  rcases hl with rfl | rfl | rfl | rfl
  exacts [by decide, by decide, by decide, hslash]

/-- No id is one of a Logic App and of an alert rule. -/
theorem logicAppParts_of_alertRuleParts {rid workspace name : String}
    (h : alertRuleParts rid = some (workspace, name)) : logicAppParts rid = none := by
  obtain ⟨before, p, m, a, hsplit, -, -, ha, -⟩ := alertRuleParts_eq_some.mp h
  rw [Option.eq_none_iff_forall_ne_some]
  rintro ⟨sub, rg, name'⟩ hlogic
  obtain ⟨a', b, p', m', w, hsplit', -, -, -, -, -, -, hw, -⟩ := logicAppParts_eq_some.mp hlogic
  have hsame : before ++ [p, m, a] = [[], a', sub.toList, b, rg.toList, p', m', w] := by
    have := hsplit.symm.trans hsplit'
    have hleft : before ++ [p, m, a, name.toList] = (before ++ [p, m, a]) ++ [name.toList] := by simp
    exact (List.append_inj' (hleft.symm.trans this :
      (before ++ [p, m, a]) ++ [name.toList] =
        [[], a', sub.toList, b, rg.toList, p', m', w] ++ [name'.toList]) rfl).1
  have hlast : a = w := by
    have := congrArg List.getLast? hsame
    simpa using this
  have hlength := congrArg List.length (of_decide_eq_true ha)
  have hlength' := congrArg List.length (of_decide_eq_true hw)
  rw [← hlast] at hlength'
  simp only [List.length_map] at hlength hlength'
  exact absurd (hlength.trans hlength'.symm) (by decide)

/-! ## Letter case -/

theorem toLower_eq_iff {x c : Char} (hc : c ∈ ['/', '\n']) : x.toLower = c ↔ x = c := by
  have hsmall : c.val.toNat < 65 := by
    simp only [List.mem_cons, List.not_mem_nil, or_false] at hc
    rcases hc with rfl | rfl <;> decide
  unfold Char.toLower
  split_ifs with hupper
  · have hlow : 65 ≤ x.val.toNat := UInt32.le_iff_toNat_le.mp hupper.1
    have hhigh : x.val.toNat ≤ 90 := UInt32.le_iff_toNat_le.mp hupper.2
    constructor
    · intro heq
      have hval : x.val + ('a'.val - 'A'.val) = c.val := congrArg Char.val heq
      have hnat := congrArg UInt32.toNat hval
      rw [UInt32.toNat_add, show ('a'.val - 'A'.val).toNat = 32 by decide] at hnat
      omega
    · rintro rfl
      omega
  · rfl

theorem mem_lowerAscii (s : String) (c : Char) (hc : c ∈ ['/', '\n']) :
    c ∈ (lowerAscii s).toList ↔ c ∈ s.toList := by
  unfold lowerAscii
  rw [String.toList_ofList, List.mem_map]
  constructor
  · rintro ⟨x, hx, heq⟩
    exact (toLower_eq_iff hc).mp heq ▸ hx
  · exact fun hmem => ⟨c, hmem, (toLower_eq_iff hc).mpr rfl⟩

theorem head?_lowerAscii (s : String) :
    (lowerAscii s).toList.head? = some '/' ↔ s.toList.head? = some '/' := by
  unfold lowerAscii
  rw [String.toList_ofList, List.head?_map]
  cases s.toList with
  | nil => simp
  | cons x rest => simp [toLower_eq_iff (x := x) (c := '/') (by simp)]

theorem lowerAscii_eq_empty (s : String) : lowerAscii s = "" ↔ s = "" := by
  unfold lowerAscii
  rw [← String.toList_inj, String.toList_ofList, ← String.toList_inj]
  simp

def asciiCase : LowerCase := ⟨lowerAscii, mem_lowerAscii, head?_lowerAscii, lowerAscii_eq_empty⟩

/-! ## Up to letter case -/

namespace Handler
variable (h : Handler)

/-- The id with its subscription and group, or its workspace, in lower case. -/
def canonId (s : String) : String :=
  match logicAppParts s, alertRuleParts s with
  | some (sub, rg, _), _ =>
    String.ofList (['/'].intercalate
      (((s.toList.splitOn '/').set 2 (h.lower sub).toList).set 4 (h.lower rg).toList))
  | none, some (workspace, _) => h.lower workspace ++ String.ofList (s.toList.drop workspace.length)
  | none, none => s

variable {h}

theorem canonId_logicApp {rid sub rg name : String} (hparts : logicAppParts rid = some (sub, rg, name)) :
    h.canonId rid = String.ofList (['/'].intercalate
      (((rid.toList.splitOn '/').set 2 (h.lower sub).toList).set 4 (h.lower rg).toList)) := by
  unfold canonId
  rw [hparts]

theorem canonId_alertRule {rid workspace name : String}
    (hparts : alertRuleParts rid = some (workspace, name)) :
    h.canonId rid = h.lower workspace ++ String.ofList (rid.toList.drop workspace.length) := by
  unfold canonId
  rw [hparts, logicAppParts_of_alertRuleParts hparts]

theorem slash_iff_of_lower_eq {s t : String} (heq : h.lower s = h.lower t) {c : Char}
    (hc : c ∈ ['/', '\n']) : c ∈ s.toList ↔ c ∈ t.toList := by
  rw [← h.mem_iff s c hc, heq, h.mem_iff t c hc]

theorem eq_empty_iff_of_lower_eq {s t : String} (heq : h.lower s = h.lower t) : s = "" ↔ t = "" := by
  rw [← h.empty_iff s, heq, h.empty_iff t]

/-- The id of a Logic App as the handler writes it. -/
def SelfNamed (rid pid : String) : Prop :=
  ∃ sub rg, logicAppParts rid = some (sub, rg, pid) ∧ rid = logicAppResourceId sub rg pid

/-- The id that a Logic App is given comes out the same when its name is the id it is collected
under. -/
theorem canonId_logicApp_eq_iff {rid sub rg name S R pid : String}
    (hparts : logicAppParts rid = some (sub, rg, name)) (hsub : h.lower sub = h.lower S)
    (hrg : h.lower rg = h.lower R) (hpid : pid ≠ "") (hslash : '/' ∉ pid.toList) :
    h.canonId (logicAppResourceId S R pid) = h.canonId rid ↔ SelfNamed rid pid := by
  obtain ⟨a, b, p, m, w, hsplit, -, hsub0, -, hrg0, -⟩ := logicAppParts_eq_some.mp hparts
  have hseg : ∀ l ∈ [[], a, sub.toList, b, rg.toList, p, m, w, name.toList], '/' ∉ l := fun l hl =>
    notMem_of_mem_splitOn (hsplit ▸ hl)
  have hsubslash : '/' ∉ sub.toList := hseg _ (by simp)
  have hrgslash : '/' ∉ rg.toList := hseg _ (by simp)
  have hS : '/' ∉ S.toList := fun hmem => hsubslash ((slash_iff_of_lower_eq hsub (by simp)).mpr hmem)
  have hR : '/' ∉ R.toList := fun hmem => hrgslash ((slash_iff_of_lower_eq hrg (by simp)).mpr hmem)
  have hS0 : S ≠ "" := fun heq => hsub0 (by rw [(eq_empty_iff_of_lower_eq hsub).mpr heq]; rfl)
  have hR0 : R ≠ "" := fun heq => hrg0 (by rw [(eq_empty_iff_of_lower_eq hrg).mpr heq]; rfl)
  rw [canonId_logicApp (logicAppParts_logicAppResourceId hS hR hslash hS0 hR0 hpid),
    canonId_logicApp hparts, splitOn_logicAppResourceId hS hR hslash, hsplit, ← hsub, ← hrg]
  have hlow : '/' ∉ (h.lower sub).toList := fun hmem => hsubslash ((h.mem_iff _ _ (by simp)).mp hmem)
  have hlow' : '/' ∉ (h.lower rg).toList := fun hmem => hrgslash ((h.mem_iff _ _ (by simp)).mp hmem)
  simp only [logicAppSegments, List.set_cons_succ, List.set_cons_zero]
  constructor
  · intro heq
    have hlists := congrArg (List.splitOn '/') (String.ofList_injective heq)
    rw [List.splitOn_intercalate '/' (by
        intro l hl
        simp only [List.mem_cons, List.not_mem_nil, or_false] at hl
        rcases hl with rfl | rfl | rfl | rfl | rfl | rfl | rfl | rfl | rfl
        exacts [by decide, by decide, hlow, by decide, hlow', by decide, by decide, by decide,
          hslash]) (by simp),
      List.splitOn_intercalate '/' (by
        intro l hl
        simp only [List.mem_cons, List.not_mem_nil, or_false] at hl
        rcases hl with rfl | rfl | rfl | rfl | rfl | rfl | rfl | rfl | rfl
        exacts [by decide, hseg _ (by simp), hlow, hseg _ (by simp), hlow', hseg _ (by simp),
          hseg _ (by simp), hseg _ (by simp), hseg _ (by simp)]) (by simp)] at hlists
    simp only [List.cons.injEq, true_and, and_true] at hlists
    obtain ⟨rfl, rfl, rfl, rfl, rfl, hname⟩ := hlists
    have hname : pid = name := String.toList_injective hname
    refine ⟨sub, rg, hname ▸ hparts, String.toList_injective ?_⟩
    rw [toList_logicAppResourceId, logicAppSegments, hname, ← hsplit, List.intercalate_splitOn]
  · rintro ⟨sub', rg', hparts', heq⟩
    obtain ⟨rfl, rfl, rfl⟩ : sub = sub' ∧ rg = rg' ∧ name = pid := by
      simpa using hparts.symm.trans hparts'
    have hwritten := splitOn_logicAppResourceId hsubslash hrgslash hslash
    rw [← heq, hsplit] at hwritten
    simp only [logicAppSegments, List.cons.injEq, true_and, and_true] at hwritten
    obtain ⟨rfl, rfl, rfl, rfl, rfl⟩ := hwritten
    rfl

/-- The id that an alert rule is given comes out the same when it is written as the handler does. -/
theorem canonId_alertRule_eq_iff {rid workspace name W : String}
    (hparts : alertRuleParts rid = some (workspace, name)) (hws : h.lower workspace = h.lower W) :
    h.canonId (analyticRuleResourceId W name) = h.canonId rid ↔
      rid = analyticRuleResourceId workspace name := by
  obtain ⟨before, p, m, a, hsplit, -, hname, -, -, -, hws0, hline⟩ := alertRuleParts_eq_some.mp hparts
  have hslash : '/' ∉ name.toList := notMem_of_mem_splitOn (by rw [hsplit]; simp)
  have hname0 : name ≠ "" := fun heq => hname (by rw [heq]; rfl)
  have hW0 : W ≠ "" := fun heq => hws0 (by rw [(eq_empty_iff_of_lower_eq hws).mpr heq]; rfl)
  have hWline : '\n' ∉ W.toList := fun hmem => hline ((slash_iff_of_lower_eq hws (by simp)).mpr hmem)
  obtain ⟨p', m', a', hrid⟩ := toList_of_alertRuleParts hparts
  have hdrop : ∀ V : String, (analyticRuleResourceId V name).toList.drop V.length =
      "/providers/Microsoft.SecurityInsights/alertRules/".toList ++ name.toList := by
    intro V
    rw [analyticRuleResourceId, String.toList_append, String.toList_append, List.append_assoc,
      ← String.length_toList, List.drop_left]
  rw [canonId_alertRule (alertRuleParts_analyticRuleResourceId hW0 hWline hname0 hslash),
    canonId_alertRule hparts, ← hws, hdrop]
  constructor
  · intro heq
    have htail := String.ofList_injective (String.append_right_inj _ |>.mp heq)
    refine String.toList_injective ?_
    have hsplitrid : rid.toList = workspace.toList ++ rid.toList.drop workspace.length := by
      rw [hrid, ← String.length_toList, List.drop_left]
    rw [hsplitrid, ← htail, analyticRuleResourceId, String.toList_append, String.toList_append,
      List.append_assoc]
  · intro heq
    rw [heq, hdrop]

/-- Only the letter case changes, so an id begins with a slash when it did. -/
theorem head?_canonId (s : String) :
    (h.canonId s).toList.head? = some '/' ↔ s.toList.head? = some '/' := by
  cases hlogic : logicAppParts s with
  | some parts =>
    obtain ⟨sub, rg, name⟩ := parts
    obtain ⟨a, b, p, m, w, hsplit, -⟩ := logicAppParts_eq_some.mp hlogic
    have hs := (List.intercalate_splitOn '/' : ['/'].intercalate (s.toList.splitOn '/') = s.toList)
    rw [hsplit] at hs
    rw [canonId_logicApp hlogic, hsplit, ← hs]
    simp [List.intercalate, List.intersperse]
  | none =>
    cases halert : alertRuleParts s with
    | none =>
      unfold canonId
      rw [hlogic, halert]
    | some parts =>
      obtain ⟨workspace, name⟩ := parts
      obtain ⟨-, -, -, -, -, -, -, -, -, -, hne, -⟩ := alertRuleParts_eq_some.mp halert
      obtain ⟨p, m, a, hs⟩ := toList_of_alertRuleParts halert
      have hlow : (h.lower workspace).toList ≠ [] := by
        intro heq
        have := (h.empty_iff workspace).mp (String.toList_injective heq)
        exact hne (by rw [this]; rfl)
      rw [canonId_alertRule halert, String.toList_append, List.head?_append_of_ne_nil _ hlow,
        h.head_iff, hs, List.head?_append_of_ne_nil _ hne]

end Handler
end ContentOps.AutomationRule
