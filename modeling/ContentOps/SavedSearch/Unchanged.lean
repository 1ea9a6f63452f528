import ContentOps.Handlers.SentinelSavedSearch

/-! When a saved search that is collected and applied again is sent as it was. -/

namespace ContentOps.SavedSearch
open PyData

/-- The properties up to the order of the tags, where an empty text is as good as none. -/
structure Same (a b : Properties) : Prop where
  category : a.category = b.category
  displayName : a.displayName = b.displayName
  query : a.query = b.query
  version : a.version = b.version
  functionAlias : orNone a.functionAlias = orNone b.functionAlias
  functionParameters : orNone a.functionParameters = orNone b.functionParameters
  tags : (a.tags.getD []).Perm (b.tags.getD [])

/-- The saved search is sent to where it came from, with the properties that it has. -/
def Unchanged (sent : Option Put) (remote : Remote) : Prop :=
  ∃ put, sent = some put ∧ put.resource = remote.name ∧ Same put.properties remote.properties

/-- A description stands once and is not empty; what is split at commas stands once and has no empty
piece. -/
structure TagsComeBack (joined : List String) (tags : List SavedSearchTag) : Prop where
  description : valuesAt tags "description" = [] ∨
    ∃ v, valuesAt tags "description" = [v] ∧ v ≠ ""
  joined : ∀ name ∈ joined, valuesAt tags name = [] ∨
    ∃ v, valuesAt tags name = [v] ∧ ∀ piece ∈ v.toList.splitOn ',', piece ≠ []

/-! ## The tags -/

theorem orNone_orNone (s : Option String) : orNone (orNone s) = orNone s := by
  rw [orNone, orNone, Option.filter_filter]
  simp

theorem orNone_some {v : String} (hv : v ≠ "") : orNone (some v) = some v := by
  simp [orNone, Option.filter, hv]

theorem getD_listOrNone {α : Type} (values : List α) : (listOrNone values).getD [] = values := by
  cases values <;> rfl

theorem bind_listOrNone {α : Type} (values : Option (List α)) :
    (values.bind listOrNone).bind listOrNone = values.bind listOrNone := by
  cases values with
  | none => rfl
  | some values => cases values <;> rfl

/-- What becomes of the value of a tag with a meaning of its own. -/
def again (name value : String) : Option String :=
  if name = "description" then orNone (some value)
  else (listOrNone (splitValue value)).map joinValues

theorem again_description (v : String) : again "description" v = some v ↔ v ≠ "" := by
  rw [again, if_pos rfl, orNone]
  by_cases hv : v = "" <;> simp [hv]

theorem ofList_eq_iff {t : Text} {s : String} : String.ofList t = s ↔ t = s.toList := by
  constructor
  · rintro rfl
    exact String.toList_ofList.symm
  · rintro rfl
    exact String.ofList_toList

theorem again_joined {name : String} (hname : name ≠ "description") (v : String) :
    again name v = some v ↔ ∀ piece ∈ v.toList.splitOn ',', piece ≠ [] := by
  rw [again, if_neg hname, ← intercalate_filter_splitOn_iff]
  have hjoin : joinValues (splitValue v) =
      String.ofList ([','].intercalate ((v.toList.splitOn ',').filter (· ≠ []))) := by
    rw [joinValues, splitValue, List.map_map]
    simp [Function.comp_def]
  by_cases hnil : (v.toList.splitOn ',').filter (· ≠ []) = []
  · have hempty : listOrNone (splitValue v) = none := by
      rw [splitValue, hnil]
      rfl
    rw [hempty]
    exact iff_of_false (Option.some_ne_none _).symm fun h => h.1 hnil
  · have hsome : listOrNone (splitValue v) = some (splitValue v) := by
      rw [listOrNone, if_neg]
      simpa [splitValue] using hnil
    rw [hsome, Option.map_some, Option.some.injEq, hjoin, ofList_eq_iff]
    exact (and_iff_right hnil).symm

theorem bind_again_description (d : Option String) : d.bind (again "description") = orNone d := by
  cases d <;> rfl

theorem bind_again_joined {name : String} (hname : name ≠ "description") (d : Option String) :
    d.bind (again name) = ((d.map splitValue).bind listOrNone).map joinValues := by
  cases d with
  | none => rfl
  | some v => rw [Option.bind_some, again, if_neg hname, Option.map_some, Option.bind_some]

theorem valuesAt_concat (tags : List SavedSearchTag) (tag : SavedSearchTag) (name : String) :
    valuesAt (tags ++ [tag]) name =
      if tag.1 = name then valuesAt tags name ++ [tag.2] else valuesAt tags name := by
  rw [valuesAt_append, valuesAt_cons]
  split_ifs
  · rfl
  · exact List.append_nil _

/-- What a list of tags becomes, with these names taken out of it. -/
theorem perm_again_iff {joined : List String} (hnodup : ("description" :: joined).Nodup)
    (tags : List SavedSearchTag) :
    (putBack again ("description" :: joined) tags).Perm tags ↔ TagsComeBack joined tags := by
  rw [perm_putBack_iff hnodup, List.forall_mem_cons]
  have hdescription : KeptAt again tags "description" ↔ valuesAt tags "description" = [] ∨
      ∃ v, valuesAt tags "description" = [v] ∧ v ≠ "" := by
    simp only [KeptAt, again_description]
  have hjoined : (∀ name ∈ joined, KeptAt again tags name) ↔ ∀ name ∈ joined,
      valuesAt tags name = [] ∨ ∃ v, valuesAt tags name = [v] ∧
        ∀ piece ∈ v.toList.splitOn ',', piece ≠ [] := by
    refine forall₂_congr fun name hname => ?_
    have hne : name ≠ "description" := fun heq =>
      (List.nodup_cons.mp hnodup).1 (heq ▸ hname)
    simp only [KeptAt, again_joined hne]
  rw [hdescription, hjoined]
  exact ⟨fun h => ⟨h.1, h.2⟩, fun h => ⟨h.description, h.joined⟩⟩

theorem some_getD {s : Option String} (h : s.getD "" ≠ "") : some (s.getD "") = s := by
  cases s with
  | none => exact absurd rfl h
  | some v => rfl

theorem texts_of_valid {displayName query : Option String}
    (h : textValid (displayName.getD "") (query.getD "")) :
    some (displayName.getD "") = displayName ∧ some (query.getD "") = query := by
  obtain ⟨hpos, -, hquery⟩ := of_decide_eq_true h
  refine ⟨some_getD fun hempty => ?_, some_getD hquery⟩
  rw [hempty] at hpos
  exact absurd hpos (by decide)

namespace Hunting

def joinedNames : List String := ["tactics", "techniques"]

/-- What the loop over the tags keeps: the last value of each name, and all other tags. -/
theorem foldl_add (tags : List SavedSearchTag) : tags.foldl TagFields.add {} =
    { description := (valuesAt tags "description").getLast?
      tactics := (valuesAt tags "tactics").getLast?.map splitValue
      techniques := (valuesAt tags "techniques").getLast?.map splitValue
      extraTags := tags.filter fun tag => tag.1 ∉ "description" :: joinedNames } := by
  induction tags using List.reverseRecOn with
  | nil => rfl
  | append_singleton tags tag ih =>
    rw [List.foldl_concat, ih, valuesAt_concat, valuesAt_concat, valuesAt_concat, List.filter_append]
    unfold TagFields.add
    by_cases hdescription : tag.1 = "description"
    · simp [hdescription, joinedNames]
    by_cases htactics : tag.1 = "tactics"
    · simp [htactics, joinedNames]
    by_cases htechniques : tag.1 = "techniques"
    · simp [htechniques, joinedNames]
    simp [hdescription, htactics, htechniques, joinedNames]

theorem tagsFor_toEnvelope {remote : Remote} {e : Envelope SentinelHuntingPayload}
    (he : toEnvelope remote = some e) :
    tagsFor e.payload =
      putBack again ("description" :: joinedNames) (remote.properties.tags.getD []) := by
  unfold toEnvelope at he
  dsimp only at he
  split_ifs at he
  obtain rfl := Option.some.inj he
  unfold tagsFor putBack joinedNames
  rw [foldl_add, named_cons, named_cons, named_cons, named_nil, List.append_nil,
    bind_again_description, bind_again_joined (by decide), bind_again_joined (by decide)]
  dsimp only
  rw [orNone_orNone, bind_listOrNone, bind_listOrNone, getD_listOrNone, Option.map_map,
    Option.map_map, List.append_assoc, List.append_assoc, List.append_assoc, List.append_assoc]
  rfl

theorem unchanged_iff {remote : Remote} (hconverted : (converted remote).isSome)
    (hversion : remote.properties.version.isSome) :
    Unchanged ((converted remote).bind apply) remote ↔
      TagsComeBack joinedNames (remote.properties.tags.getD []) := by
  obtain ⟨e, he⟩ := Option.isSome_iff_exists.mp hconverted
  obtain ⟨henv, hvalid⟩ := Option.filter_eq_some_iff.mp he
  have htags := tagsFor_toEnvelope henv
  have hnodup : ("description" :: joinedNames).Nodup := by decide
  rw [← perm_again_iff hnodup, ← htags, he, Option.bind_some]
  unfold toEnvelope at henv
  dsimp only at henv
  split_ifs at henv with hname hcategory
  obtain rfl := Option.some.inj henv
  have hcategory := not_not.mp hcategory
  obtain ⟨-, hvalid⟩ := Bool.and_eq_true_iff.mp hvalid
  simp only [SentinelHuntingPayload.validates, Bool.and_eq_true] at hvalid
  obtain ⟨hdisplay, hquery⟩ := texts_of_valid hvalid.1.1.1
  obtain ⟨version, hversion⟩ := Option.isSome_iff_exists.mp hversion
  constructor
  · rintro ⟨put, hput, -, hsame⟩
    obtain rfl := Option.some.inj hput
    have hperm := hsame.tags
    unfold toSavedsearchArmBody at hperm
    rwa [getD_listOrNone] at hperm
  · intro hperm
    refine ⟨_, rfl, rfl, ?_⟩
    exact
      { category := hcategory.symm
        displayName := hdisplay
        query := hquery
        version := by rw [toSavedsearchArmBody, hversion, Option.getD_some]
        functionAlias := by rw [toSavedsearchArmBody, orNone_orNone, orNone_orNone]
        functionParameters := by rw [toSavedsearchArmBody, orNone_orNone, orNone_orNone]
        tags := by rwa [toSavedsearchArmBody, getD_listOrNone] }

end Hunting

namespace Parser

theorem foldl_add (tags : List SavedSearchTag) : tags.foldl TagFields.add {} =
    { description := (valuesAt tags "description").getLast?
      extraTags := tags.filter fun tag => tag.1 ∉ ["description"] } := by
  induction tags using List.reverseRecOn with
  | nil => rfl
  | append_singleton tags tag ih =>
    rw [List.foldl_concat, ih, valuesAt_concat, List.filter_append]
    unfold TagFields.add
    by_cases hdescription : tag.1 = "description"
    · simp [hdescription]
    · simp [hdescription]

theorem tagsFor_toEnvelope {remote : Remote} {e : Envelope SentinelParserPayload}
    (he : toEnvelope remote = some e) :
    tagsFor e.payload = putBack again ["description"] (remote.properties.tags.getD []) := by
  unfold toEnvelope at he
  dsimp only at he
  split_ifs at he
  obtain rfl := Option.some.inj he
  unfold tagsFor putBack
  rw [foldl_add, named_cons, named_nil, List.append_nil, bind_again_description]
  dsimp only
  rw [orNone_orNone, getD_listOrNone]

-- Without an alias the name of the resource is sent.
theorem alias_sent {functionAlias : Option String} {name : String} (hname : name ≠ "") :
    orNone (some ((orNone functionAlias).getD name)) = orNone functionAlias ↔
      orNone functionAlias ≠ none := by
  by_cases hnone : orNone functionAlias = none
  · rw [hnone, Option.getD_none, orNone_some hname]
    exact iff_of_false (Option.some_ne_none _) (not_not_intro rfl)
  · obtain ⟨v, hv⟩ := Option.ne_none_iff_exists'.mp hnone
    have hne : v ≠ "" := of_decide_eq_true (Option.filter_eq_some_iff.mp hv).2
    rw [hv, Option.getD_some, orNone_some hne]
    exact iff_of_true rfl (Option.some_ne_none _)

theorem unchanged_iff {remote : Remote} (hconverted : (converted remote).isSome)
    (hversion : remote.properties.version.isSome) :
    Unchanged ((converted remote).bind apply) remote ↔
      orNone remote.properties.functionAlias ≠ none ∧
        TagsComeBack [] (remote.properties.tags.getD []) := by
  obtain ⟨e, he⟩ := Option.isSome_iff_exists.mp hconverted
  obtain ⟨henv, hvalid⟩ := Option.filter_eq_some_iff.mp he
  have htags := tagsFor_toEnvelope henv
  have hnodup : ["description"].Nodup := by decide
  rw [← perm_again_iff hnodup, ← htags, he, Option.bind_some]
  unfold toEnvelope at henv
  dsimp only at henv
  split_ifs at henv with hname hcategory
  obtain rfl := Option.some.inj henv
  have hcategory := not_not.mp hcategory
  obtain ⟨-, hvalid⟩ := Bool.and_eq_true_iff.mp hvalid
  simp only [SentinelParserPayload.validates, Bool.and_eq_true] at hvalid
  obtain ⟨hdisplay, hquery⟩ := texts_of_valid hvalid.1.1.1.1
  obtain ⟨version, hversion⟩ := Option.isSome_iff_exists.mp hversion
  rw [← alias_sent hname]
  constructor
  · rintro ⟨put, hput, -, hsame⟩
    obtain rfl := Option.some.inj hput
    have hperm := hsame.tags
    unfold toParserArmBody at hperm
    rw [getD_listOrNone] at hperm
    exact ⟨hsame.functionAlias, hperm⟩
  · rintro ⟨hsent, hperm⟩
    refine ⟨_, rfl, rfl, ?_⟩
    exact
      { category := hcategory.symm
        displayName := hdisplay
        query := hquery
        version := by rw [toParserArmBody, hversion, Option.getD_some]
        functionAlias := hsent
        functionParameters := by rw [toParserArmBody, orNone_orNone, orNone_orNone]
        tags := by rwa [toParserArmBody, getD_listOrNone] }

end Parser

/-- A saved search that is collected and applied again is sent as it was exactly when each tag with
a meaning of its own stands once in it and is written as it is read. -/
theorem savedSearch_unchanged_iff (remote : Remote) (hversion : remote.properties.version.isSome) :
    ((Hunting.converted remote).isSome →
      (Unchanged ((Hunting.converted remote).bind Hunting.apply) remote ↔
        TagsComeBack ["tactics", "techniques"] (remote.properties.tags.getD []))) ∧
    ((Parser.converted remote).isSome →
      (Unchanged ((Parser.converted remote).bind Parser.apply) remote ↔
        orNone remote.properties.functionAlias ≠ none ∧
          TagsComeBack [] (remote.properties.tags.getD []))) :=
  ⟨fun hconverted => Hunting.unchanged_iff hconverted hversion,
    fun hconverted => Parser.unchanged_iff hconverted hversion⟩

/-! ## A query without techniques -/

def oddLogons : Remote where
  name := "odd-logons"
  properties :=
    { category := some "Hunting Queries"
      displayName := some "Odd logons"
      query := some "SigninLogs | take 10"
      version := some 2
      tags := some [("tactics", "InitialAccess"), ("techniques", "")] }

def signinParser : Remote where
  name := "signin-parser"
  properties :=
    { category := some "Function"
      displayName := some "Sign-ins"
      query := some "SigninLogs"
      version := some 2
      functionAlias := some "SignIns"
      tags := some [("description", "All sign-ins"), ("team", "soc"), ("team", "iam")] }

theorem converted_oddLogons : (Hunting.converted oddLogons).isSome := by decide +kernel

theorem converted_signinParser : (Parser.converted signinParser).isSome := by decide +kernel

/-- The empty tag for the techniques is gone after `collect` and `apply`. -/
theorem oddLogons_changed : (Hunting.converted oddLogons).isSome ∧
    oddLogons.properties.version.isSome ∧
    ¬ Unchanged ((Hunting.converted oddLogons).bind Hunting.apply) oddLogons := by
  refine ⟨converted_oddLogons, rfl, fun hunchanged => ?_⟩
  have hback := (Hunting.unchanged_iff converted_oddLogons rfl).mp hunchanged
  rcases hback.joined "techniques" (by decide) with hnone | ⟨v, hv, hpieces⟩
  · exact absurd hnone (by decide)
  · obtain rfl : "" = v := (List.cons.inj hv).1
    exact hpieces [] (by decide) rfl

theorem savedSearch_unchanged_iff_examples :
    (Unchanged ((Hunting.converted oddLogons).bind Hunting.apply) oddLogons ↔
      TagsComeBack ["tactics", "techniques"] (oddLogons.properties.tags.getD [])) ∧
    (Unchanged ((Parser.converted signinParser).bind Parser.apply) signinParser ↔
      orNone signinParser.properties.functionAlias ≠ none ∧
        TagsComeBack [] (signinParser.properties.tags.getD [])) :=
  ⟨(savedSearch_unchanged_iff oddLogons rfl).1 converted_oddLogons,
    (savedSearch_unchanged_iff signinParser rfl).2 converted_signinParser⟩

end ContentOps.SavedSearch
