import ContentOps.Core.VersionBump
import ContentOps.Utils.GitDiff

/-! The version gate of a pull request, `scripts/check_version_bump.py`: which files it gets to see
and when it refuses one. -/

namespace ContentOps.CheckVersionBump
open PyData

def detectionsRoot : Text := "detections/".toList
def ymlSuffix : Text := ".yml".toList
def yamlSuffix : Text := ".yaml".toList
def sidecarSuffix : Text := ".workflow.json".toList

def pathOf (t : Text) : Path := (t.splitOn '/').map String.ofList

/-- `Path.read_text` and `_file_at_ref`. -/
def fileAt (tree : FileTree) (path : Text) : Option Text := tree.read (pathOf path)

/-! ## What git tells -/

/-- A file below `detections/` is another one in the two trees; one that is gone may count as the
old name of a new one, and then it is not listed. -/
def listed (renamedAway : Path → Bool) (base head : FileTree) (p : Path) : Bool :=
  detectionsRoot <+: slashed p && base.read p ≠ head.read p &&
    !((head.read p).isNone && renamedAway p)

/-- `git diff --name-only base...HEAD -- detections/`, where the base is an ancestor of the head. -/
def diffNameOnly (renamedAway : Path → Bool) (base head : FileTree) : Text :=
  Text.unlines (((head.entries.keys ++ base.entries.keys).dedup.filter
    (listed renamedAway base head)).map fun p => quotePath (slashed p))

/-! ## The script -/

/-- One line in `_changed_files`. -/
def changedFile (line : Text) : Option Text :=
  if ymlSuffix <:+ line ∨ yamlSuffix <:+ line then some line
  else if sidecarSuffix <:+ line then
    some (line.take (line.length - sidecarSuffix.length) ++ ymlSuffix)
  else none

/-- `_changed_files`. -/
def changedFiles (out : Text) : List Text :=
  ((Text.splitlines out).filterMap changedFile).dedup.insertionSort (· ≤ ·)

/-- `_sidecar_text`. -/
def sidecarText (tree : FileTree) (ymlPath : Text) : Option Text :=
  if ymlSuffix <:+ ymlPath then
    fileAt tree (ymlPath.take (ymlPath.length - ymlSuffix.length) ++ sidecarSuffix)
  else none

section
variable {X : Type}

def isNone : Value X → Bool
  | .null => true
  | _ => false

variable [Value.ScalarEq X] (libs : Libs X) (str : Value X → String)

/-- `_parse_doc`. -/
def parseDoc (text : Text) : Option (Document X) := (libs.safeLoad text).bind Value.dict?

def sameBody (headDoc baseDoc : Document X) : Bool :=
  Value.pyEq (.dict (Dict.erase headDoc "version")) (.dict (Dict.erase baseDoc "version"))

def sameVersion (headDoc baseDoc : Document X) : Bool :=
  str (Value.get headDoc "version") = str (Value.get baseDoc "version")

/-- `_requires_bump`. -/
def requiresBump (headText baseText : Text) : Option String :=
  match parseDoc libs headText, parseDoc libs baseText with
  | some headDoc, some baseDoc =>
    if sameBody headDoc baseDoc then none
    else if isNone (Value.get headDoc "version") || isNone (Value.get baseDoc "version") then none
    else if sameVersion str headDoc baseDoc then
      some ("version unchanged (" ++ str (Value.get headDoc "version") ++ ") but content changed")
    else none
  | _, _ => none

/-- What `main` says of a changed sidecar. -/
def sidecarMessage (base head : FileTree) (path headText baseText : Text) : Option String :=
  match sidecarText head path, sidecarText base path with
  | some headSidecar, some baseSidecar =>
    if headSidecar ≠ baseSidecar then
      match parseDoc libs headText, parseDoc libs baseText with
      | some headDoc, some baseDoc =>
        if sameVersion str headDoc baseDoc then
          some ("version unchanged (" ++ str (Value.get headDoc "version") ++ ") but the " ++
            String.ofList sidecarSuffix ++ " sidecar changed")
        else none
      | _, _ => none
    else none
  | _, _ => none

/-- One round of the loop of `main`. -/
def failure (base head : FileTree) (path : Text) : Option String :=
  match fileAt head path, fileAt base path with
  | some headText, some baseText =>
    ((requiresBump libs str headText baseText).or
      (sidecarMessage libs str base head path headText baseText)).map
        (String.ofList path ++ ": " ++ ·)
  | _, _ => none

/-- The exit code of `main`; no output is a failed call. -/
def main (stdout : Option Text) (base head : FileTree) : Nat :=
  match stdout with
  | none => 2
  | some out => if ((changedFiles out).filterMap (failure libs str base head)).isEmpty then 0 else 1

/-! ## What the gate refuses -/

/-- The document of an envelope in a tree. -/
def docAt (tree : FileTree) (path : Text) : Option (Document X) :=
  (fileAt tree path).bind (parseDoc libs)

def SidecarsDiffer (base head : FileTree) (path : Text) : Prop :=
  ∃ headSidecar baseSidecar, sidecarText head path = some headSidecar ∧
    sidecarText base path = some baseSidecar ∧ headSidecar ≠ baseSidecar

/-- The file has its version still, and its body or the sidecar of its name is another one. -/
def Refused (base head : FileTree) (path : Text) : Prop :=
  ∃ headDoc baseDoc, docAt libs head path = some headDoc ∧ docAt libs base path = some baseDoc ∧
    sameVersion str headDoc baseDoc = true ∧
    ((sameBody headDoc baseDoc = false ∧ isNone (Value.get headDoc "version") = false ∧
      isNone (Value.get baseDoc "version") = false) ∨ SidecarsDiffer base head path)

/-- git lists the file, or the sidecar of its name, and prints the path without quotes. -/
def Told (renamedAway : Path → Bool) (base head : FileTree) (path : Text) : Prop :=
  ∃ p : Path, listed renamedAway base head p = true ∧ (slashed p).any isUnusual = false ∧
    changedFile (slashed p) = some path

def Noticed (renamedAway : Path → Bool) (base head : FileTree) (path : Text) : Prop :=
  Told renamedAway base head path ∧ Refused libs str base head path

variable {libs str} {renamedAway : Path → Bool} {base head : FileTree}

theorem slashed_pathOf (t : Text) : slashed (pathOf t) = t := by
  unfold slashed pathOf
  rw [List.map_map]
  have hid : String.toList ∘ String.ofList = id := funext fun _ => String.toList_ofList
  rw [hid, List.map_id]
  exact List.intercalate_splitOn '/'

theorem pathOf_injective : Function.Injective pathOf := by
  intro t u h
  rw [← slashed_pathOf t, h, slashed_pathOf]

/-- A text that ends with a quote ends with none of the suffixes. -/
theorem not_suffix_of_quote {s t : Text} {c : Char} (hs : s.getLast? = some c) (hc : c ≠ '"') :
    ¬ s <:+ t ++ ['"'] := by
  rintro ⟨before, h⟩
  have hlast := congrArg List.getLast? h
  rw [List.getLast?_append, hs, List.getLast?_concat, Option.some_or] at hlast
  exact hc (Option.some.inj hlast)

/-- The script passes over a path in quotes. -/
theorem plain_of_changedFile {t path : Text} (h : changedFile (quotePath t) = some path) :
    t.any isUnusual = false := by
  by_contra hquoted
  rw [quotePath_of (Bool.eq_true_of_not_eq_false hquoted)] at h
  unfold changedFile at h
  have hyml : ¬ ymlSuffix <:+ '"' :: t.flatMap quoteChar ++ ['"'] :=
    not_suffix_of_quote (c := 'l') rfl (by decide)
  have hyaml : ¬ yamlSuffix <:+ '"' :: t.flatMap quoteChar ++ ['"'] :=
    not_suffix_of_quote (c := 'l') rfl (by decide)
  have hsidecar : ¬ sidecarSuffix <:+ '"' :: t.flatMap quoteChar ++ ['"'] :=
    not_suffix_of_quote (c := 'n') rfl (by decide)
  rw [if_neg (not_or.mpr ⟨hyml, hyaml⟩), if_neg hsidecar] at h
  exact absurd h nofun

theorem mem_keys_of_listed {p : Path} (h : listed renamedAway base head p = true) :
    p ∈ (head.entries.keys ++ base.entries.keys).dedup := by
  unfold listed at h
  rw [Bool.and_eq_true, Bool.and_eq_true, decide_eq_true_eq, decide_eq_true_eq] at h
  obtain ⟨⟨-, hdiffer⟩, -⟩ := h
  rw [List.mem_dedup, List.mem_append]
  cases hhead : head.read p with
  | some content => exact .inl (GitRepo.mem_keys_of_isSome (by rw [hhead]; rfl))
  | none =>
    rw [hhead] at hdiffer
    exact .inr (GitRepo.mem_keys_of_isSome (Option.isSome_iff_ne_none.mpr hdiffer))

theorem mem_changedFiles {path : Text} :
    path ∈ changedFiles (diffNameOnly renamedAway base head) ↔ Told renamedAway base head path := by
  have hline : ∀ line ∈ ((head.entries.keys ++ base.entries.keys).dedup.filter
      (listed renamedAway base head)).map fun p => quotePath (slashed p), Text.IsLine line := by
    intro line hmem
    obtain ⟨p, -, rfl⟩ := List.mem_map.mp hmem
    exact isLine_quotePath _
  unfold changedFiles diffNameOnly
  rw [(List.perm_insertionSort _ _).mem_iff, List.mem_dedup, Text.splitlines_unlines hline,
    List.mem_filterMap]
  constructor
  · rintro ⟨line, hmem, hchanged⟩
    obtain ⟨p, hp, rfl⟩ := List.mem_map.mp hmem
    have hplain := plain_of_changedFile hchanged
    rw [quotePath_of_not hplain] at hchanged
    exact ⟨p, (List.mem_filter.mp hp).2, hplain, hchanged⟩
  · rintro ⟨p, hlisted, hplain, hchanged⟩
    refine ⟨quotePath (slashed p), List.mem_map.mpr ⟨p, ?_, rfl⟩, ?_⟩
    · exact List.mem_filter.mpr ⟨mem_keys_of_listed hlisted, hlisted⟩
    · rwa [quotePath_of_not hplain]

theorem requiresBump_isSome_iff {headText baseText : Text} :
    (requiresBump libs str headText baseText).isSome = true ↔
      ∃ headDoc baseDoc, parseDoc libs headText = some headDoc ∧
        parseDoc libs baseText = some baseDoc ∧ sameVersion str headDoc baseDoc = true ∧
        sameBody headDoc baseDoc = false ∧ isNone (Value.get headDoc "version") = false ∧
        isNone (Value.get baseDoc "version") = false := by
  unfold requiresBump
  cases hhead : parseDoc libs headText with
  | none => simp
  | some headDoc =>
    cases hbase : parseDoc libs baseText with
    | none => simp
    | some baseDoc =>
      dsimp only
      split_ifs with hbody hnone hversion
      · simp [hbody]
      · rcases Bool.or_eq_true_iff.mp hnone with hnone | hnone <;> simp [hnone]
      · simp_all
      · simp [hversion]

omit [Value.ScalarEq X] in
theorem sidecarMessage_isSome_iff {path headText baseText : Text} :
    (sidecarMessage libs str base head path headText baseText).isSome = true ↔
      ∃ headDoc baseDoc, parseDoc libs headText = some headDoc ∧
        parseDoc libs baseText = some baseDoc ∧ sameVersion str headDoc baseDoc = true ∧
        SidecarsDiffer base head path := by
  unfold sidecarMessage SidecarsDiffer
  cases hhead : sidecarText head path with
  | none => simp
  | some headSidecar =>
    cases hbase : sidecarText base path with
    | none => simp
    | some baseSidecar =>
      dsimp only
      cases hheadDoc : parseDoc libs headText with
      | none => simp
      | some headDoc =>
        cases hbaseDoc : parseDoc libs baseText with
        | none => simp
        | some baseDoc =>
          dsimp only
          split_ifs with hdiffer hversion <;> simp_all

theorem failure_isSome_iff {path : Text} :
    (failure libs str base head path).isSome = true ↔ Refused libs str base head path := by
  unfold failure Refused docAt
  cases hhead : fileAt head path with
  | none => simp
  | some headText =>
    cases hbase : fileAt base path with
    | none => simp
    | some baseText =>
      dsimp only
      rw [Option.isSome_map, Option.isSome_or, Bool.or_eq_true, requiresBump_isSome_iff,
        sidecarMessage_isSome_iff, Option.bind_some, Option.bind_some]
      constructor
      · rintro (⟨headDoc, baseDoc, hhead, hbase, hversion, hbody⟩ |
          ⟨headDoc, baseDoc, hhead, hbase, hversion, hsidecars⟩)
        · exact ⟨headDoc, baseDoc, hhead, hbase, hversion, .inl hbody⟩
        · exact ⟨headDoc, baseDoc, hhead, hbase, hversion, .inr hsidecars⟩
      · rintro ⟨headDoc, baseDoc, hhead, hbase, hversion, hbody | hsidecars⟩
        · exact .inl ⟨headDoc, baseDoc, hhead, hbase, hversion, hbody⟩
        · exact .inr ⟨headDoc, baseDoc, hhead, hbase, hversion, hsidecars⟩

theorem main_eq_one_iff :
    main libs str (some (diffNameOnly renamedAway base head)) base head = 1 ↔
      ∃ path, Noticed libs str renamedAway base head path := by
  have hsome : (∃ path, Noticed libs str renamedAway base head path) ↔
      ∃ path ∈ changedFiles (diffNameOnly renamedAway base head),
        (failure libs str base head path).isSome = true := by
    refine exists_congr fun path => ?_
    rw [mem_changedFiles, failure_isSome_iff]
    rfl
  rw [hsome]
  unfold main
  dsimp only
  split_ifs with hempty
  · refine iff_of_false (by decide) ?_
    rintro ⟨path, hmem, hfailure⟩
    obtain ⟨message, hmessage⟩ := Option.isSome_iff_exists.mp hfailure
    have hin := List.mem_filterMap.mpr ⟨path, hmem, hmessage⟩
    rw [List.isEmpty_iff.mp hempty] at hin
    exact absurd hin List.not_mem_nil
  · refine iff_of_true rfl ?_
    have hne : (changedFiles (diffNameOnly renamedAway base head)).filterMap
        (failure libs str base head) ≠ [] := fun hnil => hempty (List.isEmpty_iff.mpr hnil)
    obtain ⟨message, hmessage⟩ := List.exists_mem_of_ne_nil _ hne
    obtain ⟨path, hmem, hfailure⟩ := List.mem_filterMap.mp hmessage
    exact ⟨path, hmem, by rw [hfailure]; rfl⟩

/-! ## Envelopes and the sidecars of their names -/

theorem changedFile_yml (stem : Text) : changedFile (stem ++ ymlSuffix) = some (stem ++ ymlSuffix) :=
  if_pos (.inl (List.suffix_append stem ymlSuffix))

theorem changedFile_sidecar (stem : Text) :
    changedFile (stem ++ sidecarSuffix) = some (stem ++ ymlSuffix) := by
  have hlast : (stem ++ sidecarSuffix).getLast? = some 'n' := by
    rw [List.getLast?_append]
    rfl
  have hnot : ∀ suffix : Text, suffix.getLast? = some 'l' → ¬ suffix <:+ stem ++ sidecarSuffix := by
    rintro suffix hsuffix ⟨before, h⟩
    have hends := congrArg List.getLast? h
    rw [hlast, List.getLast?_append, hsuffix, Option.some_or] at hends
    exact absurd (Option.some.inj hends) (by decide)
  unfold changedFile
  rw [if_neg (not_or.mpr ⟨hnot _ rfl, hnot _ rfl⟩), if_pos (List.suffix_append stem sidecarSuffix)]
  simp

theorem sidecarText_yml (tree : FileTree) (stem : Text) :
    sidecarText tree (stem ++ ymlSuffix) = fileAt tree (stem ++ sidecarSuffix) := by
  unfold sidecarText
  rw [if_pos (List.suffix_append stem ymlSuffix)]
  simp

/-- A suffix without a slash does not reach into the directory. -/
theorem detectionsRoot_prefix_append {stem suffix : Text} (hsuffix : '/' ∉ suffix) :
    detectionsRoot <+: stem ++ suffix ↔ detectionsRoot <+: stem := by
  constructor
  · intro h
    rcases List.prefix_or_prefix_of_prefix h (List.prefix_append stem suffix) with hstem | hstem
    · exact hstem
    · obtain ⟨rest, hrest⟩ := hstem
      obtain ⟨tail, htail⟩ := h
      rw [← hrest, List.append_assoc, List.append_cancel_left_eq] at htail
      cases hlast : rest.getLast? with
      | none =>
        obtain rfl := List.getLast?_eq_none_iff.mp hlast
        rw [List.append_nil] at hrest
        exact ⟨[], by rw [List.append_nil, hrest]⟩
      | some c =>
        have hslash := congrArg List.getLast? hrest
        rw [List.getLast?_append, hlast, Option.some_or] at hslash
        obtain rfl : c = '/' := Option.some.inj hslash
        have hmem : '/' ∈ rest := List.mem_of_getLast? hlast
        exact absurd (htail ▸ List.mem_append_left tail hmem) hsuffix
  · exact fun h => h.trans (List.prefix_append stem suffix)

theorem plain_append {stem suffix : Text} (hsuffix : suffix.any isUnusual = false) :
    (stem ++ suffix).any isUnusual = stem.any isUnusual := by
  rw [List.any_append, hsuffix, Bool.or_false]

end
end ContentOps.CheckVersionBump
