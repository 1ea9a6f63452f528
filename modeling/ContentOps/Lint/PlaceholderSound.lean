import ContentOps.Lint.Placeholders

/-! The placeholder rules beside the substitution: the paths that a clean query can make the engine
look up, and the lines that it can lose. -/

namespace ContentOps.Lint
open PyData Kql Snippets

/-! ## Placeholders and the tokens around them -/

structure IsSnippetPath (path : Text) : Prop where
  chars : ∀ c ∈ path, isPathChar c = true
  suffix : ".yml".toList <:+ path

theorem placeholderAt_eq_some {t path : Text} (h : placeholderAt t = some path) :
    IsSnippetPath path ∧ ∃ rest, t = placeholderText path ++ rest := by
  unfold placeholderAt at h
  split at h
  · next rest =>
    dsimp only at h
    split_ifs at h with hpath
    obtain rfl := Option.some.inj h
    simp only [Bool.and_eq_true, decide_eq_true_iff] at hpath
    obtain ⟨⟨-, hsuffix⟩, close, hclose⟩ := hpath
    refine ⟨⟨fun c hc => List.mem_takeWhile_imp hc, hsuffix⟩, close, ?_⟩
    have hrest : rest = rest.takeWhile isPathChar ++ (['}', '}'] ++ close) := by
      rw [hclose, List.takeWhile_append_dropWhile]
    rw [placeholderText, List.append_assoc, List.append_assoc, ← hrest]
    rfl
  · exact absurd h nofun

theorem mem_placeholders {t path : Text} :
    path ∈ placeholders t ↔ ∃ v u, t = v ++ u ∧ placeholderAt u = some path := by
  induction t with
  | nil =>
    constructor
    · exact fun h => absurd h List.not_mem_nil
    · rintro ⟨v, u, heq, hu⟩
      obtain ⟨rfl, rfl⟩ := List.append_eq_nil_iff.mp heq.symm
      exact absurd hu nofun
  | cons c cs ih =>
    rw [placeholders, List.mem_append, ih, Option.mem_toList]
    constructor
    · rintro (h | ⟨v, u, rfl, hu⟩)
      · exact ⟨[], _, rfl, h⟩
      · exact ⟨c :: v, u, rfl, hu⟩
    · rintro ⟨v, u, heq, hu⟩
      cases v with
      | nil =>
        rw [List.nil_append] at heq
        exact Or.inl (heq ▸ hu)
      | cons d v =>
        obtain ⟨-, rfl⟩ := List.cons.inj heq
        exact Or.inr ⟨v, u, rfl, hu⟩

theorem ne_brace_of_isPathChar {c : Char} (h : isPathChar c = true) : c ≠ '}' := by
  rintro rfl
  exact absurd h (by decide)

/-- A text up to its first two closing braces. -/
theorem untilClose_split {t inner : Text} (h : untilClose t = some inner) :
    ∃ rest, t = inner ++ ['}', '}'] ++ rest := by
  induction t generalizing inner with
  | nil => exact absurd h nofun
  | cons c cs ih =>
    rw [untilClose] at h
    split_ifs at h with hclose
    · obtain rfl := Option.some.inj h
      obtain ⟨rest, hrest⟩ := hclose
      exact ⟨rest, hrest.symm⟩
    · obtain ⟨inner', hinner, rfl⟩ := Option.map_eq_some_iff.mp h
      obtain ⟨rest, rfl⟩ := ih hinner
      exact ⟨rest, rfl⟩

/-- What lies before the end of a token belongs to it. -/
theorem untilClose_append {v u inner : Text} (h : untilClose (v ++ u) = some inner)
    (hlength : v.length ≤ inner.length) :
    ∃ inner', untilClose u = some inner' ∧ inner = v ++ inner' := by
  induction v generalizing inner with
  | nil => exact ⟨inner, h, rfl⟩
  | cons c v ih =>
    rw [List.cons_append, untilClose] at h
    split_ifs at h
    · obtain rfl := Option.some.inj h
      exact absurd hlength (by simp)
    · obtain ⟨inner', hinner, rfl⟩ := Option.map_eq_some_iff.mp h
      obtain ⟨inner'', hu, rfl⟩ := ih hinner (by simpa using hlength)
      exact ⟨inner'', hu, rfl⟩

theorem untilClose_path {path : Text} (h : ∀ c ∈ path, c ≠ '}') (rest : Text) :
    untilClose (path ++ ['}', '}'] ++ rest) = some path := by
  induction path with
  | nil => rw [List.nil_append, List.cons_append, untilClose, if_pos ⟨rest, rfl⟩]
  | cons c path ih =>
    obtain ⟨hc, hpath⟩ := List.forall_mem_cons.mp h
    have hopen : ¬['}', '}'] <+: c :: (path ++ ['}', '}'] ++ rest) := by
      rintro ⟨_, heq⟩
      exact hc (List.cons.inj heq).1.symm
    rw [List.cons_append, List.cons_append, untilClose, if_neg hopen, ih hpath, Option.map_some]

theorem untilClose_placeholder {u path : Text} (h : placeholderAt u = some path) :
    untilClose u = some (['{', '{'] ++ path) := by
  obtain ⟨hpath, rest, rfl⟩ := placeholderAt_eq_some h
  refine @untilClose_path (['{', '{'] ++ path) ?_ rest
  intro c hc
  rcases List.mem_append.mp hc with hc | hc
  · rintro rfl
    exact absurd hc (by decide)
  · exact ne_brace_of_isPathChar (hpath.chars c hc)

theorem looseTokens_drop (skip : ℕ) (t : Text) :
    looseTokens skip t = looseTokens 0 (t.drop skip) := by
  induction skip generalizing t with
  | zero => rw [List.drop_zero]
  | succ skip ih =>
    cases t with
    | nil => rfl
    | cons c cs => rw [looseTokens, ih, List.drop_succ_cons]

/-- A token that ends before a placeholder has its closing braces before it too. -/
theorem prefix_of_short {u v path inner : Text} (hu : placeholderAt u = some path)
    (hinner : untilClose (v ++ u) = some inner) (hshort : inner.length < v.length) :
    inner ++ ['}', '}'] <+: v := by
  obtain ⟨-, after, rfl⟩ := placeholderAt_eq_some hu
  obtain ⟨rest, hrest⟩ := untilClose_split hinner
  refine List.prefix_of_prefix_length_le ⟨rest, hrest.symm⟩ (List.prefix_append v _) ?_
  by_contra hlong
  have hlength : v.length = inner.length + 1 := by
    simp only [List.length_append, List.length_cons, List.length_nil] at hlong
    omega
  -- the brace at the end of the token would be the one that opens the placeholder
  have hchar := congrArg (fun t : Text => t[inner.length + 1]?) hrest
  simp [placeholderText, hlength] at hchar

/-- Every placeholder ends a token, which may have begun before it. -/
theorem exists_token (n : ℕ) {t v u path : Text} (hn : t.length ≤ n) (ht : t = v ++ u)
    (hu : placeholderAt u = some path) : ∃ inner ∈ looseTokens 0 t, path <:+ inner := by
  induction n generalizing t v with
  | zero =>
    obtain rfl := List.length_eq_zero_iff.mp (Nat.le_zero.mp hn)
    obtain ⟨rfl, rfl⟩ := List.append_eq_nil_iff.mp ht.symm
    exact absurd hu nofun
  | succ n ih =>
    obtain ⟨hpath, after, hafter⟩ := placeholderAt_eq_some hu
    cases t with
    | nil =>
      obtain ⟨rfl, rfl⟩ := List.append_eq_nil_iff.mp ht.symm
      exact absurd hu nofun
    | cons c cs =>
      rw [looseTokens]
      cases hloose : looseAt (c :: cs) with
      | none =>
        dsimp only
        cases v with
        | nil =>
          -- the placeholder would be a token of its own
          have htoken :=
            untilClose_path (fun d hd => ne_brace_of_isPathChar (hpath.chars d hd)) after
          rw [ht, List.nil_append, hafter, looseAt, placeholderText, List.append_assoc,
            List.append_assoc, if_pos (List.prefix_append _ _)] at hloose
          rw [List.append_assoc] at htoken
          exact absurd (hloose.symm.trans htoken) nofun
        | cons d v =>
          obtain ⟨-, rfl⟩ := List.cons.inj ht
          have hlength : (v ++ u).length ≤ n := by simpa using hn
          exact ih hlength rfl
      | some inner =>
        dsimp only
        have hinner : untilClose (cs.drop 1) = some inner := by
          rw [looseAt] at hloose
          split_ifs at hloose
          exact hloose
        rcases v with _ | ⟨d, _ | ⟨e, v⟩⟩
        · -- the token is the placeholder
          refine ⟨inner, List.mem_cons_self, ?_⟩
          rw [List.nil_append, hafter] at ht
          obtain ⟨-, rfl⟩ := List.cons.inj ht
          have htoken :=
            untilClose_path (fun d hd => ne_brace_of_isPathChar (hpath.chars d hd)) after
          exact (Option.some.inj (hinner.symm.trans htoken)) ▸ List.suffix_rfl
        · -- the token begins at the brace before the placeholder
          refine ⟨inner, List.mem_cons_self, ?_⟩
          rw [List.cons_append, List.nil_append, hafter] at ht
          obtain ⟨-, rfl⟩ := List.cons.inj ht
          have htoken := @untilClose_path ('{' :: path) ?_ after
          · exact (Option.some.inj (hinner.symm.trans htoken)) ▸ List.suffix_cons _ _
          · exact List.forall_mem_cons.mpr
              ⟨by decide, fun d hd => ne_brace_of_isPathChar (hpath.chars d hd)⟩
        · obtain ⟨-, rfl⟩ := List.cons.inj ht
          change untilClose (v ++ u) = some inner at hinner
          rcases Nat.lt_or_ge inner.length v.length with hshort | hlong
          · -- the token ends before the placeholder, which ends a later one
            obtain ⟨v', rfl⟩ := prefix_of_short hu hinner hshort
            have hdrop : ((e :: (inner ++ ['}', '}'] ++ v')).append u).drop (inner.length + 3) =
                v' ++ u := by
              change (e :: (inner ++ ['}', '}'] ++ v') ++ u).drop (inner.length + 3) = v' ++ u
              have hshape : e :: (inner ++ ['}', '}'] ++ v') ++ u =
                  (e :: inner ++ ['}', '}']) ++ (v' ++ u) := by simp
              rw [hshape, List.drop_left']
              simp
            have hlength : (v' ++ u).length ≤ n := by
              have hall := hn
              change (c :: (e :: (inner ++ ['}', '}'] ++ v') ++ u)).length ≤ n + 1 at hall
              simp only [List.length_cons, List.length_append, List.length_nil] at hall ⊢
              omega
            obtain ⟨inner', hmem, hsuffix⟩ := ih hlength rfl
            refine ⟨inner', List.mem_cons_of_mem _ ?_, hsuffix⟩
            rw [looseTokens_drop, hdrop]
            exact hmem
          · refine ⟨inner, List.mem_cons_self, ?_⟩
            obtain ⟨inner', hu', rfl⟩ := untilClose_append hinner hlong
            obtain rfl := Option.some.inj (hu'.symm.trans (untilClose_placeholder hu))
            exact (List.suffix_append ['{', '{'] path).trans (List.suffix_append v _)

/-! ## The parts of a path -/

theorem mem_tail_splitOn_append {sep : Char} {part : Text} (a b : Text)
    (h : part ∈ (b.splitOn sep).tail) : part ∈ ((a ++ b).splitOn sep).tail := by
  induction a with
  | nil => exact h
  | cons c a ih =>
    rw [List.cons_append, List.splitOn_cons_eq_if_modifyHead]
    split_ifs
    · exact List.mem_of_mem_tail ih
    · cases hsplit : (a ++ b).splitOn sep with
      | nil => rwa [hsplit] at ih
      | cons first rest => rwa [hsplit] at ih

theorem normalised_append (a b : Text) : normalised (a ++ b) = normalised a ++ normalised b :=
  List.map_append

/-- A query's line without errors. -/
def CleanLine (repr : Text → String) (line : Text) : Prop :=
  ∃ number, ∀ finding ∈ lineFindings repr number line, finding.severity ≠ "error"

theorem IsSnippetPath.ne_nil {path : Text} (h : IsSnippetPath path) : path ≠ [] := by
  rintro rfl
  exact absurd h.suffix (by decide)

theorem isSnippetPath_of_mem {line path : Text} (h : path ∈ placeholders line) :
    IsSnippetPath path := by
  obtain ⟨v, u, -, hu⟩ := mem_placeholders.mp h
  exact (placeholderAt_eq_some hu).1

section
variable {repr : Text → String} {line path : Text}

/-- The linter sees every step up of a placeholder but one at its beginning, which may be hidden by
a brace. -/
theorem CleanLine.dots_notMem_tail (hclean : CleanLine repr line)
    (hmem : path ∈ placeholders line) :
    ['.', '.'] ∉ ((normalised path).splitOn '/').tail := by
  intro hdots
  obtain ⟨number, hnumber⟩ := hclean
  obtain ⟨v, u, hline, hu⟩ := mem_placeholders.mp hmem
  obtain ⟨inner, hinner, before, rfl⟩ := exists_token line.length le_rfl hline hu
  have hne : before ++ path ≠ [] :=
    List.append_ne_nil_of_right_ne_nil _ (isSnippetPath_of_mem hmem).ne_nil
  have hunsafe : isTraversal (before ++ path) = true := by
    rw [isTraversal, normalised_append, Bool.or_eq_true, decide_eq_true_iff, decide_eq_true_iff]
    exact Or.inr (List.mem_of_mem_tail (mem_tail_splitOn_append _ _ hdots))
  have hfinding : unsafePath repr (before ++ path) number ∈
      tokenFindings repr number (before ++ path) := by
    rw [tokenFindings, if_neg fun h => hne h.2, if_pos hunsafe]
    exact List.mem_append_right _ (List.mem_singleton_self _)
  exact hnumber _ (List.mem_append_left _ (List.mem_flatMap.mpr ⟨_, hinner, hfinding⟩)) rfl

/-- Text that is nothing but placeholders and white space. -/
inductive PlaceholdersOnly : Text → Prop
  | nil : PlaceholdersOnly []
  | space {c : Char} {t : Text} : Text.isSpace c = true → PlaceholdersOnly t →
      PlaceholdersOnly (c :: t)
  | placeholder {path t : Text} : IsSnippetPath path → PlaceholdersOnly t →
      PlaceholdersOnly (placeholderText path ++ t)

theorem placeholdersOnly_of_drop {t : Text} (skip : ℕ)
    (h : ∀ c ∈ dropPlaceholders skip t, Text.isSpace c = true) :
    PlaceholdersOnly (t.drop skip) := by
  induction t generalizing skip with
  | nil =>
    rw [List.drop_nil]
    exact .nil
  | cons c cs ih =>
    cases skip with
    | succ skip => exact ih skip h
    | zero =>
      rw [dropPlaceholders] at h
      cases hplace : placeholderAt (c :: cs) with
      | none =>
        rw [hplace] at h
        obtain ⟨hc, hcs⟩ := List.forall_mem_cons.mp h
        exact .space hc (ih 0 hcs)
      | some path =>
        rw [hplace] at h
        obtain ⟨hpath, after, hafter⟩ := placeholderAt_eq_some hplace
        have hdrop : cs.drop (path.length + 3) = after := by
          have htail : cs = ('{' :: path ++ ['}', '}']) ++ after := (List.cons.inj hafter).2
          rw [htail, List.drop_left']
          simp
        rw [List.drop_zero, hafter]
        exact .placeholder hpath (hdrop ▸ ih _ h)

theorem exists_comment (t : Text) :
    ∃ comment, t = beforeComment t ++ comment ∧ (comment = [] ∨ ['/', '/'] <+: comment) := by
  induction t with
  | nil => exact ⟨[], rfl, Or.inl rfl⟩
  | cons c cs ih =>
    rw [beforeComment]
    split_ifs with hcomment
    · exact ⟨c :: cs, rfl, Or.inr hcomment⟩
    · obtain ⟨comment, heq, hcomment⟩ := ih
      exact ⟨comment, congrArg (c :: ·) heq, hcomment⟩

theorem CleanLine.placeholdersOnly (hclean : CleanLine repr line) (hne : placeholders line ≠ []) :
    PlaceholdersOnly (beforeComment line) := by
  obtain ⟨number, hnumber⟩ := hclean
  have hblank : Text.strip (dropPlaceholders 0 (beforeComment line)) = [] := by
    by_contra hrest
    refine hnumber (notAlone number) (List.mem_append_right _ ?_) rfl
    rw [if_pos ⟨hne, hrest⟩]
    exact List.mem_singleton_self _
  rw [Text.strip_eq_nil_iff, Text.isBlank, List.all_eq_true] at hblank
  exact placeholdersOnly_of_drop 0 hblank

end

/-! ## The files that are looked up -/

section
variable {tree : FileTree} {root : Path} {rel : Text}

/-- The path's text begins where the linter may not see it: at the root of the file system, or with
a step up. -/
def StartsOutside (rel : Text) : Prop :=
  rel.head? = some '/' ∨ (rel.splitOn '/').head? = some ['.', '.']

theorem resolveFrom_inside (dir : Path) (hhead : rel.head? ≠ some '/')
    (hdots : ['.', '.'] ∉ rel.splitOn '/') : dir <+: resolveFrom dir rel := by
  rw [resolveFrom, if_neg hhead]
  generalize rel.splitOn '/' = parts at hdots
  induction parts generalizing dir with
  | nil => exact List.prefix_rfl
  | cons part parts ih =>
    rw [List.mem_cons, not_or] at hdots
    have hpart : dir <+: enter dir part := by
      unfold enter
      split_ifs with hstay hup
      · exact List.prefix_rfl
      · exact absurd hup.symm hdots.1
      · exact List.prefix_append _ _
    exact hpart.trans (ih _ hdots.2)

/-- The directories that are looked in are under the root. -/
def IsPlain (workspace : Option String) : Prop :=
  ∀ name, workspace = some name → '/' ∉ name.toList ∧ name ≠ ".."

theorem IsPlain.prefix_resolveFrom {workspace : Option String} (h : IsPlain workspace)
    {name : String} (hname : workspace = some name) (root : Path) :
    root <+: resolveFrom root name.toList := by
  obtain ⟨hslash, hdots⟩ := h name hname
  apply resolveFrom_inside
  · intro hhead
    exact hslash (List.mem_of_mem_head? hhead)
  · rw [List.splitOn_eq_singleton hslash, List.mem_singleton]
    exact fun heq => hdots (String.toList_inj.mp heq.symm)

/-- The files that are looked at for the path are under the root: the workspace's own, and the
common one unless the workspace has its own. -/
def StaysUnder (tree : FileTree) (root : Path) (workspace : Option String) (rel : Text) : Prop :=
  isDir tree root = true →
    (∀ name, workspace.filter (· ≠ "") = some name →
      root <+: resolveFrom (resolveFrom root name.toList) rel) ∧
    (root <+: resolveFrom root rel ∨ ∃ name, workspace.filter (· ≠ "") = some name ∧
      (isWalkable tree root name.toList = true ∨ rel.head? = some '/') ∧
      isWalkable tree (resolveFrom root name.toList) rel = true ∧
      (tree.read (resolveFrom (resolveFrom root name.toList) rel)).isSome)

theorem staysUnder_of_not_startsOutside {workspace : Option String} (hplain : IsPlain workspace)
    (hstart : ¬StartsOutside rel) (htail : ['.', '.'] ∉ (rel.splitOn '/').tail) :
    StaysUnder tree root workspace rel := by
  obtain ⟨hhead, hfirst⟩ := not_or.mp hstart
  have hdots : ['.', '.'] ∉ rel.splitOn '/' := by
    cases hsplit : rel.splitOn '/' with
    | nil => exact List.not_mem_nil
    | cons first rest =>
      rw [hsplit] at hfirst htail
      exact List.not_mem_cons_of_ne_of_not_mem (fun heq => hfirst (heq ▸ rfl)) htail
  refine fun _ => ⟨fun name hname => ?_, Or.inl (resolveFrom_inside root hhead hdots)⟩
  have hworkspace := (Option.filter_eq_some_iff.mp hname).1
  exact (hplain.prefix_resolveFrom hworkspace root).trans (resolveFrom_inside _ hhead hdots)

section
variable {X : Type} {libs : Libs X} {yamlError : Text → String} {typeName : Value X → String}

theorem readSnippet_isSome {content : Text}
    (h : snippetFinding libs yamlError typeName content = none) :
    (readSnippet libs content).isSome := by
  unfold snippetFinding at h
  split at h
  · cases h
  · next parsed hload =>
    split at h
    · cases h
    · next text hget => simp [readSnippet, hload, hget, Value.text?]
    · cases h
  · cases h

theorem suffix_splitOn_getLast {sep : Char} {suffix : Text} (hsuffix : sep ∉ suffix)
    (before : Text) :
    ∃ parts last, (before ++ suffix).splitOn sep = parts ++ [last ++ suffix] := by
  induction before with
  | nil => exact ⟨[], [], List.splitOn_eq_singleton hsuffix⟩
  | cons c before ih =>
    obtain ⟨parts, last, heq⟩ := ih
    rw [List.cons_append, List.splitOn_cons_eq_if_modifyHead, heq]
    split_ifs
    · exact ⟨[] :: parts, last, rfl⟩
    · cases parts with
      | nil => exact ⟨[], c :: last, rfl⟩
      | cons part parts => exact ⟨(c :: part) :: parts, last, rfl⟩

/-- A snippet's path leads to a file that the linter looks for. -/
theorem hasSuffix_resolveFrom {path : Text} (h : IsSnippetPath path) (dir : Path) :
    ∃ up last, resolveFrom dir (normalised path) = up ++ [last] ∧ hasSuffix ".yml" last = true := by
  obtain ⟨before, hbefore⟩ := h.suffix
  have hnormal : normalised path = normalised before ++ ".yml".toList := by
    rw [← hbefore, normalised_append]
    rfl
  obtain ⟨parts, last, hsplit⟩ := @suffix_splitOn_getLast '/' ".yml".toList
    (by decide) (normalised before)
  refine ⟨parts.foldl enter (if (normalised path).head? = some '/' then [] else dir),
    String.ofList (last ++ ".yml".toList), ?_, ?_⟩
  · have hlong : 4 ≤ (last ++ ".yml".toList).length := by
      rw [List.length_append]
      exact Nat.le_add_left 4 _
    have hname : ¬(last ++ ".yml".toList = [] ∨ last ++ ".yml".toList = ['.']) := by
      rintro (heq | heq) <;> rw [heq] at hlong <;> exact absurd hlong (by decide)
    have hup : last ++ ".yml".toList ≠ ['.', '.'] := by
      intro heq
      rw [heq] at hlong
      exact absurd hlong (by decide)
    rw [resolveFrom, hnormal, hsplit, List.foldl_append, List.foldl_cons, List.foldl_nil, enter,
      if_neg hname, if_neg hup]
  · simp only [hasSuffix, String.toList_ofList, decide_eq_true_iff]
    exact List.suffix_append last _

/-- Every snippet file that is read has a text. -/
theorem read_isSome_of_clean
    (hoverrides : lintOverridesDirectory libs yamlError typeName tree root = [])
    (hroot : tree.read root = none) {path content : Text} (hpath : IsSnippetPath path) {dir : Path}
    (hunder : root <+: resolveFrom dir (normalised path))
    (hread : tree.read (resolveFrom dir (normalised path)) = some content) :
    (readSnippet libs content).isSome := by
  obtain ⟨up, last, hresolve, hsuffix⟩ := hasSuffix_resolveFrom hpath dir
  have hlength : root.length < (resolveFrom dir (normalised path)).length := by
    refine lt_of_le_of_ne hunder.length_le fun heq => ?_
    rw [← hunder.eq_of_length heq, hroot] at hread
    exact absurd hread nofun
  have hglob : isUnder root ".yml" (resolveFrom dir (normalised path)) = true := by
    rw [isUnder, Bool.and_eq_true, Bool.and_eq_true, decide_eq_true_iff, decide_eq_true_iff]
    refine ⟨⟨hunder, hlength⟩, ?_⟩
    rw [hresolve, List.getLast?_concat]
    exact hsuffix
  have hmem : (_, content) ∈ tree.glob (isUnder root ".yml") :=
    Directory.mem_glob.mpr ⟨hread, hglob⟩
  have hnone := List.filterMap_eq_nil_iff.mp hoverrides _ hmem
  exact readSnippet_isSome (Option.map_eq_none_iff.mp hnone)

/-- Looking in a directory fails when the file is outside, or when it is not there and going on
fails. -/
theorem lookIn_eq_none_iff {dir : Path} {way : Bool} {next : Option (Option Text)}
    (hread : ∀ content, root <+: resolveFrom dir rel →
      tree.read (resolveFrom dir rel) = some content → (readSnippet libs content).isSome) :
    lookIn libs tree root rel dir way next = none ↔ ¬(root <+: resolveFrom dir rel ∧ (next ≠ none ∨
      way = true ∧ isWalkable tree dir rel = true ∧ (tree.read (resolveFrom dir rel)).isSome)) := by
  unfold lookIn resolveUnder
  by_cases hunder : root <+: resolveFrom dir rel
  · rw [if_pos hunder]
    dsimp only
    by_cases hway : (way && isWalkable tree dir rel) = true
    · rw [if_pos hway]
      obtain ⟨hway, hwalk⟩ := (Bool.and_eq_true _ _).mp hway
      cases hfile : tree.read (resolveFrom dir rel) with
      | none => simp [hunder]
      | some content =>
        obtain ⟨text, htext⟩ := Option.isSome_iff_exists.mp (hread content hunder hfile)
        simp [hunder, hway, hwalk, htext]
    · rw [if_neg hway]
      have hno : ¬(way = true ∧ isWalkable tree dir rel = true ∧
          (tree.read (resolveFrom dir rel)).isSome) :=
        fun h => hway ((Bool.and_eq_true _ _).mpr ⟨h.1, h.2.1⟩)
      simp only [hunder, hno, true_and, or_false, not_not]
  · rw [if_neg hunder]
    simp [hunder]

theorem resolveSnippet_eq_none_iff
    (hoverrides : lintOverridesDirectory libs yamlError typeName tree root = [])
    (hroot : tree.read root = none) {path : Text} (hpath : IsSnippetPath path)
    (workspace : Option String) :
    resolveSnippet libs tree root workspace (normalised path) = none ↔
      ¬StaysUnder tree root workspace (normalised path) := by
  have hread : ∀ dir content, root <+: resolveFrom dir (normalised path) →
      tree.read (resolveFrom dir (normalised path)) = some content →
      (readSnippet libs content).isSome :=
    fun dir content hunder hfile => read_isSome_of_clean hoverrides hroot hpath hunder hfile
  have hgeneric : lookIn libs tree root (normalised path) root true (some none) = none ↔
      ¬root <+: resolveFrom root (normalised path) := by
    rw [lookIn_eq_none_iff (hread root)]
    simp
  unfold resolveSnippet StaysUnder
  by_cases hdir : isDir tree root = true
  · rw [if_neg (by simpa using hdir)]
    dsimp only
    cases hname : workspace.filter (· ≠ "") with
    | none =>
      simpa [hdir] using hgeneric
    | some name =>
      dsimp only
      rw [lookIn_eq_none_iff (hread _), Ne, hgeneric]
      simp [hdir, or_and_right]
  · rw [if_pos (by simpa using hdir)]
    simp [hdir]

end
end

/-! ## Lines -/

section
variable (resolve : Text → Option (Option Text))

/-- The path's file is there. -/
def IsFound (path : Text) : Prop := ∃ content, resolve (normalised path) = some (some content)

/-- A path that a line looks up: those before it have their files. -/
def IsReached (line path : Text) : Prop :=
  ∃ before after, placeholders line = before ++ path :: after ∧ ∀ p ∈ before, IsFound resolve p

theorem exists_split_cons {α : Type} {P Q : α → Prop} (a : α) (l : List α) :
    (∃ before x after, a :: l = before ++ x :: after ∧ (∀ p ∈ before, P p) ∧ Q x) ↔
      Q a ∨ P a ∧ ∃ before x after, l = before ++ x :: after ∧ (∀ p ∈ before, P p) ∧ Q x := by
  constructor
  · rintro ⟨before, x, after, heq, hbefore, hx⟩
    cases before with
    | nil =>
      obtain ⟨rfl, -⟩ := List.cons.inj heq
      exact Or.inl hx
    | cons b before =>
      obtain ⟨rfl, rfl⟩ := List.cons.inj heq
      obtain ⟨ha, hbefore⟩ := List.forall_mem_cons.mp hbefore
      exact Or.inr ⟨ha, before, x, after, rfl, hbefore, hx⟩
  · rintro (ha | ⟨ha, before, x, after, rfl, hbefore, hx⟩)
    · exact ⟨[], a, l, rfl, by simp, ha⟩
    · exact ⟨a :: before, x, after, rfl, List.forall_mem_cons.mpr ⟨ha, hbefore⟩, hx⟩

theorem go_eq_none_iff (paths : List Text) (rewritten : Text) :
    substituteLine.go resolve paths rewritten = none ↔ ∃ before path after,
      paths = before ++ path :: after ∧ (∀ p ∈ before, IsFound resolve p) ∧
        resolve (normalised path) = none := by
  induction paths generalizing rewritten with
  | nil => simp [substituteLine.go]
  | cons first paths ih =>
    rw [exists_split_cons, substituteLine.go, ← normalised]
    cases hfirst : resolve (normalised first) with
    | none => simp
    | some found =>
      cases found with
      | none => simp [IsFound, hfirst]
      | some content =>
        dsimp only
        rw [ih]
        simp [IsFound, hfirst]

theorem substituteLine_eq_none_iff (line : Text) :
    substituteLine resolve line = none ↔
      ∃ path, IsReached resolve line path ∧ resolve (normalised path) = none := by
  rw [substituteLine, go_eq_none_iff]
  constructor
  · rintro ⟨before, path, after, heq, hbefore, hpath⟩
    exact ⟨path, ⟨before, after, heq, hbefore⟩, hpath⟩
  · rintro ⟨path, ⟨before, after, heq, hbefore⟩, hpath⟩
    exact ⟨before, path, after, heq, hbefore, hpath⟩

theorem placeholders_ne_nil_of_dropped {line : Text} (h : substituteLine resolve line = some none) :
    placeholders line ≠ [] := by
  intro hnil
  rw [substituteLine, hnil] at h
  exact absurd h nofun

theorem substituteText_isSome_iff (query : Text) :
    (substituteText resolve query).isSome ↔
      ∀ line ∈ query.splitOn '\n', substituteLine resolve line ≠ none := by
  rw [substituteText, Option.isSome_map, isSome_mapM_iff]
  simp only [Option.isSome_iff_ne_none]

/-- The engine takes the query, and the lines that it removes are placeholders, white space and a
comment. -/
structure SubstitutesSafely (query : Text) : Prop where
  applies : (substituteText resolve query).isSome
  removes : ∀ line ∈ query.splitOn '\n', substituteLine resolve line = some none →
    ∃ body comment, line = body ++ comment ∧ PlaceholdersOnly body ∧
      (comment = [] ∨ ['/', '/'] <+: comment)

end

theorem cleanLine_of_mem {repr : Text → String} {query line : Text}
    (hquery : ∀ finding ∈ lintKqlPlaceholders repr query, finding.severity ≠ "error")
    (hline : line ∈ query.splitOn '\n') : CleanLine repr line := by
  obtain ⟨number, hnumber⟩ : ∃ number, (line, number) ∈ (query.splitOn '\n').zipIdx 1 := by
    obtain ⟨i, hi, rfl⟩ := List.getElem_of_mem hline
    exact ⟨1 + i, List.mk_add_mem_zipIdx_iff_getElem?.mpr (List.getElem?_eq_getElem hi)⟩
  refine ⟨number, fun finding hfinding => hquery finding ?_⟩
  exact List.mem_flatMap.mpr ⟨_, hnumber, hfinding⟩

section
variable {X : Type}

/-- A clean query over clean snippets is safe exactly when the placeholders that begin outside,
behind a brace, lead back to a place under the root. -/
theorem substitutesSafely_iff (libs : Libs X) (yamlError : Text → String)
    (typeName : Value X → String) (repr : Text → String) {tree : FileTree} {root : Path}
    {workspace : Option String} {query : Text}
    (hquery : ∀ finding ∈ lintKqlPlaceholders repr query, finding.severity ≠ "error")
    (hoverrides : lintOverridesDirectory libs yamlError typeName tree root = [])
    (hroot : tree.read root = none) (hplain : IsPlain workspace) :
    SubstitutesSafely (resolveSnippet libs tree root workspace) query ↔
      ∀ line ∈ query.splitOn '\n', ∀ path,
        IsReached (resolveSnippet libs tree root workspace) line path →
          StartsOutside (normalised path) → StaysUnder tree root workspace (normalised path) := by
  have hmem : ∀ {line path}, IsReached (resolveSnippet libs tree root workspace) line path →
      path ∈ placeholders line := by
    rintro line path ⟨before, after, heq, -⟩
    rw [heq]
    exact List.mem_append_right _ List.mem_cons_self
  constructor
  · rintro ⟨happlies, -⟩ line hline path hreached -
    by_contra hstays
    have hnone := (resolveSnippet_eq_none_iff hoverrides hroot
      (isSnippetPath_of_mem (hmem hreached)) workspace).mpr hstays
    exact (substituteText_isSome_iff _ query).mp happlies line hline
      ((substituteLine_eq_none_iff _ line).mpr ⟨path, hreached, hnone⟩)
  · intro hstays
    refine ⟨(substituteText_isSome_iff _ query).mpr fun line hline hnone => ?_,
      fun line hline hdropped => ?_⟩
    · obtain ⟨path, hreached, hpath⟩ := (substituteLine_eq_none_iff _ line).mp hnone
      refine (resolveSnippet_eq_none_iff hoverrides hroot
        (isSnippetPath_of_mem (hmem hreached)) workspace).mp hpath ?_
      by_cases hstart : StartsOutside (normalised path)
      · exact hstays line hline path hreached hstart
      · exact staysUnder_of_not_startsOutside hplain hstart
          ((cleanLine_of_mem hquery hline).dots_notMem_tail (hmem hreached))
    · obtain ⟨comment, heq, hcomment⟩ := exists_comment line
      have hclean := cleanLine_of_mem hquery hline
      exact ⟨_, comment, heq, hclean.placeholdersOnly (placeholders_ne_nil_of_dropped _ hdropped),
        hcomment⟩

end

/-! ## A placeholder behind a brace -/

namespace Sample

def libs : Libs Unit where
  safeLoad := fun _ => some (.dict [("content", .str "| take 1")])
  dump := fun _ => []
  laxInt := fun _ => none

def root : Path := ["repo", "overrides"]

def tree : FileTree :=
  Directory.empty.write ["repo", "overrides", "x.yml"] "content: '| take 1'".toList

-- The token of the linter begins a brace before the placeholder.
def hiddenQuery : Text := "// \x7b\x7b\x7b../x.yml\x7d\x7d".toList

def plainQuery : Text := "\x7b\x7bx.yml\x7d\x7d // common".toList

theorem hiddenQuery_clean :
    ∀ finding ∈ lintKqlPlaceholders (fun _ => "") hiddenQuery, finding.severity ≠ "error" := by
  decide

theorem tree_clean :
    lintOverridesDirectory libs (fun _ => "") (fun _ => "") tree root = [] := by
  decide

end Sample

theorem substitutesSafely_plainQuery :
    SubstitutesSafely (resolveSnippet Sample.libs Sample.tree Sample.root none)
      Sample.plainQuery := by
  refine (substitutesSafely_iff Sample.libs (fun _ => "") (fun _ => "") (fun _ => "")
    (by decide) Sample.tree_clean (by decide)
    fun _ hname => absurd hname.symm (Option.some_ne_none _)).mpr ?_
  rintro line hline path ⟨before, after, heq, -⟩ hstart
  have hpath : path ∈ placeholders line := heq ▸ List.mem_append_right _ List.mem_cons_self
  obtain rfl : line = Sample.plainQuery := List.mem_singleton.mp hline
  obtain rfl : path = "x.yml".toList := List.mem_singleton.mp hpath
  exact absurd hstart (by unfold StartsOutside; decide)

theorem not_substitutesSafely_hiddenQuery :
    (∀ finding ∈ lintKqlPlaceholders (fun _ => "") Sample.hiddenQuery, finding.severity ≠ "error") ∧
      lintOverridesDirectory Sample.libs (fun _ => "") (fun _ => "") Sample.tree Sample.root = [] ∧
      ¬SubstitutesSafely (resolveSnippet Sample.libs Sample.tree Sample.root none)
        Sample.hiddenQuery := by
  refine ⟨Sample.hiddenQuery_clean, Sample.tree_clean, fun h => ?_⟩
  exact absurd h.applies (by decide)

end ContentOps.Lint
