import ContentOps.Library.Replacement
import ContentOps.Lint.PlaceholderSound

/-! The placeholders of a line are replaced one after another, in a line that is already rewritten.
This is one simultaneous pass as long as no round meets its literal outside the placeholders of the
line. -/

namespace ContentOps.Snippets
open PyData Lint

/-! ## One pass -/

/-- A line with each placeholder replaced by what `fill` says; `skip` characters belong to the last
one. -/
def fillPlaceholders (fill : Text → Text) : ℕ → Text → Text
  | _, [] => []
  | skip + 1, _ :: cs => fillPlaceholders fill skip cs
  | 0, c :: cs =>
    match placeholderAt (c :: cs) with
    | some path => fill path ++ fillPlaceholders fill (path.length + 3) cs
    | none => c :: fillPlaceholders fill 0 cs

section
variable (resolve : Text → Option (Option Text))

/-- What a placeholder stands for: `some none` without a file, `none` for a malformed one. -/
def contentOf (path : Text) : Option (Option Text) := resolve (normalised path)

def contentAt (path : Text) : Text := (contentOf resolve path).join.getD []

/-- The first placeholder without a content decides about the line, as far as there is one. -/
def lineOutcome (line rewritten : Text) : Option (Option Text) :=
  (((placeholders line).map (contentOf resolve)).find? (·.join.isNone)).getD (some (some rewritten))

/-- A line as one pass leaves it. -/
def simultaneousLine (line : Text) : Option (Option Text) :=
  lineOutcome resolve line (fillPlaceholders (contentAt resolve) 0 line)

/-- The text as one pass over each line leaves it: the lines in their order, without those that
have a placeholder without a file. -/
def simultaneousText (text : Text) : Option Text :=
  ((text.splitOn '\n').mapM (simultaneousLine resolve)).map fun lines =>
    ['\n'].intercalate (lines.filterMap id)

/-! ## Rounds -/

/-- The line after a round for each of some placeholders. -/
def rewriteRounds (paths : List Text) (line : Text) : Text :=
  paths.foldl (fun t path => replaceAll (placeholderText path) (contentAt resolve path) 0 t) line

/-- The placeholders that have had their round are replaced, the others stand as they are. -/
def fillFor (done : List Text) (path : Text) : Text :=
  if done.contains path then contentAt resolve path else placeholderText path

/-- No round touches the content of a snippet: after each of them the line is the one in which the
placeholders so far are replaced. -/
def OnlyOwn (line : Text) : Prop :=
  ∀ done, done <+: placeholders line →
    rewriteRounds resolve done line = fillPlaceholders (fillFor resolve done) 0 line

/-- Every placeholder of the line has a content. -/
def IsKept (line : Text) : Prop := ∀ path ∈ placeholders line, IsFound resolve path

/-- The text is what one pass leaves, and no content of a snippet is substituted on the way. -/
def SubstitutesAtOnce (text : Text) : Prop :=
  substituteText resolve text = simultaneousText resolve text ∧
    ∀ line ∈ text.splitOn '\n', IsKept resolve line → OnlyOwn resolve line

/-- In the line with some placeholders replaced, the literal of the next one is found where the line
has it and nowhere else, or stands for itself. -/
def Undisturbed (line : Text) : Prop :=
  ∀ done path, done ++ [path] <+: placeholders line →
    contentAt resolve path = placeholderText path ∨
      occurrences (placeholderText path) (fillPlaceholders (fillFor resolve done) 0 line) =
        if done.contains path then 0 else (placeholders line).count path

end

/-! ## Literals -/

/-- A path that makes a placeholder, whatever follows. -/
structure IsPlaceholder (path : Text) : Prop extends IsSnippetPath path where
  found : ∀ rest, placeholderAt (placeholderText path ++ rest) = some path

theorem isPlaceholder_of_placeholderAt {t path : Text} (h : placeholderAt t = some path) :
    IsPlaceholder path := by
  have hpath := (placeholderAt_eq_some h).1
  have hcond : (4 < path.length && ".yml".toList <:+ path) = true := by
    unfold placeholderAt at h
    split at h
    · dsimp only at h
      split_ifs at h with hcond
      obtain rfl := Option.some.inj h
      exact (Bool.and_eq_true_iff.mp hcond).1
    · exact absurd h nofun
  refine ⟨hpath, fun rest => ?_⟩
  have htake : (path ++ ['}', '}'] ++ rest).takeWhile isPathChar = path := by
    rw [List.append_assoc, List.takeWhile_append_of_pos hpath.chars]
    exact List.append_nil path
  have hdrop : (path ++ ['}', '}'] ++ rest).dropWhile isPathChar = ['}', '}'] ++ rest := by
    rw [List.append_assoc, List.dropWhile_append_of_pos hpath.chars]
    rfl
  have htext : placeholderText path ++ rest = '{' :: '{' :: (path ++ ['}', '}'] ++ rest) := rfl
  rw [htext, placeholderAt, htake, hdrop, hcond, Bool.true_and]
  exact if_pos (decide_eq_true (List.prefix_append _ rest))

theorem brace_notMem {path : Text} (h : IsPlaceholder path) : '{' ∉ path ++ ['}', '}'] := by
  intro hmem
  rcases List.mem_append.mp hmem with hmem | hmem
  · exact absurd (h.chars _ hmem) (by decide)
  · exact absurd hmem (by decide)

theorem unbordered_placeholderText {path : Text} (h : IsPlaceholder path) :
    Unbordered (placeholderText path) := by
  have htext : placeholderText path = '{' :: '{' :: (path ++ ['}', '}']) := rfl
  refine ⟨by rw [htext]; exact List.cons_ne_nil _ _, ?_⟩
  intro s hsuffix hstart
  rw [htext] at hsuffix hstart ⊢
  rcases List.suffix_cons_iff.mp hsuffix with rfl | hsuffix
  · exact .inr rfl
  rcases List.suffix_cons_iff.mp hsuffix with rfl | hsuffix
  · -- One brace, the path and the end: the path would start with a brace.
    obtain ⟨c, rest, rfl⟩ := List.exists_cons_of_ne_nil h.toIsSnippetPath.ne_nil
    obtain ⟨-, hrest⟩ := List.cons_prefix_cons.mp hstart
    obtain ⟨rfl, -⟩ := List.cons_prefix_cons.mp hrest
    exact absurd (List.mem_cons_self (a := '{')) (brace_notMem h)
  · cases s with
    | nil => exact .inl rfl
    | cons c s =>
      obtain ⟨rfl, -⟩ := List.cons_prefix_cons.mp hstart
      exact absurd (hsuffix.subset List.mem_cons_self) (brace_notMem h)

theorem replaceAll_skip (old new : Text) (skip : ℕ) (t : Text) :
    replaceAll old new skip t = replaceAll old new 0 (t.drop skip) := by
  induction skip generalizing t with
  | zero => rw [List.drop_zero]
  | succ skip ih =>
    cases t with
    | nil => rfl
    | cons c t => rw [replaceAll, ih, List.drop_succ_cons]

theorem replaces_replaceAll {old : Text} (hold : old ≠ []) (new : Text) :
    Replaces old new (replaceAll old new 0) where
  nil := rfl
  hit t := by
    obtain ⟨c, old, rfl⟩ := List.exists_cons_of_ne_nil hold
    rw [List.cons_append, replaceAll, if_pos ⟨t, rfl⟩, replaceAll_skip, List.length_cons,
      Nat.add_sub_cancel, List.drop_left]
  miss c t h := by rw [replaceAll, if_neg h]

/-! ## A line piece by piece -/

theorem placeholderAt_of_ne_brace {c : Char} (h : c ≠ '{') (t : Text) :
    placeholderAt (c :: t) = none := by
  unfold placeholderAt
  split
  · next heq => exact absurd (List.cons.inj heq).1 h
  · rfl

theorem placeholders_append_of_noBrace {w : Text} (h : '{' ∉ w) (t : Text) :
    placeholders (w ++ t) = placeholders t := by
  induction w with
  | nil => rfl
  | cons c w ih =>
    obtain ⟨hc, hw⟩ := not_or.mp (List.mem_cons.not.mp h)
    rw [List.cons_append, placeholders, placeholderAt_of_ne_brace (Ne.symm hc), ih hw]
    rfl

/-- A placeholder and what comes after it. -/
theorem placeholders_literal {path : Text} (h : IsPlaceholder path) (t : Text) :
    placeholders (placeholderText path ++ t) = path :: placeholders t := by
  have hinner : placeholderAt ('{' :: (path ++ ['}', '}'] ++ t)) = none := by
    obtain ⟨c, rest, rfl⟩ := List.exists_cons_of_ne_nil h.toIsSnippetPath.ne_nil
    have hc : c ≠ '{' := by
      rintro rfl
      exact brace_notMem h List.mem_cons_self
    unfold placeholderAt
    split
    · next heq => exact absurd (List.cons.inj (List.cons.inj heq).2).1 hc
    · rfl
  have hfound := h.found t
  have htext : placeholderText path ++ t = '{' :: '{' :: (path ++ ['}', '}'] ++ t) := rfl
  rw [htext] at hfound ⊢
  rw [placeholders, hfound, placeholders, hinner, placeholders_append_of_noBrace (brace_notMem h)]
  rfl

/-- From the left a line is used up in placeholders and single characters. -/
theorem line_induction {P : Text → Prop} (nil : P [])
    (char : ∀ c cs, placeholderAt (c :: cs) = none → P cs → P (c :: cs))
    (placeholder : ∀ path t, IsPlaceholder path → P t → P (placeholderText path ++ t)) :
    ∀ line, P line := by
  have main : ∀ n, ∀ line : Text, line.length ≤ n → P line := by
    intro n
    induction n with
    | zero =>
      intro line hline
      obtain rfl := List.length_eq_zero_iff.mp (Nat.le_zero.mp hline)
      exact nil
    | succ n ih =>
      intro line hline
      cases line with
      | nil => exact nil
      | cons c cs =>
        cases hplace : placeholderAt (c :: cs) with
        | none => exact char c cs hplace (ih cs (Nat.le_of_succ_le_succ hline))
        | some path =>
          obtain ⟨-, rest, hrest⟩ := placeholderAt_eq_some hplace
          have hlength := congrArg List.length hrest
          rw [hrest]
          refine placeholder path rest (isPlaceholder_of_placeholderAt hplace) (ih rest ?_)
          simp only [placeholderText, List.length_append, List.length_cons] at hlength hline
          omega
  exact fun line => main line.length line le_rfl

theorem fillPlaceholders_skip (fill : Text → Text) (skip : ℕ) (t : Text) :
    fillPlaceholders fill skip t = fillPlaceholders fill 0 (t.drop skip) := by
  induction skip generalizing t with
  | zero => rw [List.drop_zero]
  | succ skip ih =>
    cases t with
    | nil => rfl
    | cons c t => rw [fillPlaceholders, ih, List.drop_succ_cons]

theorem fillPlaceholders_literal (fill : Text → Text) {path : Text} (h : IsPlaceholder path)
    (t : Text) : fillPlaceholders fill 0 (placeholderText path ++ t) =
      fill path ++ fillPlaceholders fill 0 t := by
  have hfound := h.found t
  have htext : placeholderText path ++ t = '{' :: ('{' :: (path ++ ['}', '}']) ++ t) := rfl
  have hdrop : ('{' :: (path ++ ['}', '}']) ++ t).drop (path.length + 3) = t := by
    rw [List.drop_left']
    simp
  rw [htext] at hfound ⊢
  rw [fillPlaceholders, hfound]
  dsimp only
  rw [fillPlaceholders_skip, hdrop]

theorem fillPlaceholders_char (fill : Text → Text) {c : Char} {cs : Text}
    (h : placeholderAt (c :: cs) = none) :
    fillPlaceholders fill 0 (c :: cs) = c :: fillPlaceholders fill 0 cs := by
  rw [fillPlaceholders, h]

theorem placeholders_char {c : Char} {cs : Text} (h : placeholderAt (c :: cs) = none) :
    placeholders (c :: cs) = placeholders cs := by
  rw [placeholders, h]
  rfl

/-- Only what is said of the line's own placeholders counts. -/
theorem fillPlaceholders_congr {fill fill' : Text → Text} {line : Text}
    (h : ∀ path ∈ placeholders line, fill path = fill' path) :
    fillPlaceholders fill 0 line = fillPlaceholders fill' 0 line := by
  induction line using line_induction with
  | nil => rfl
  | char c cs hplace ih =>
    rw [placeholders_char hplace] at h
    rw [fillPlaceholders_char fill hplace, fillPlaceholders_char fill' hplace, ih h]
  | placeholder path t hpath ih =>
    rw [placeholders_literal hpath] at h
    rw [fillPlaceholders_literal fill hpath, fillPlaceholders_literal fill' hpath,
      h path List.mem_cons_self, ih fun p hp => h p (List.mem_cons_of_mem _ hp)]

/-- A line with its placeholders left as they are. -/
theorem fillPlaceholders_placeholderText (line : Text) :
    fillPlaceholders placeholderText 0 line = line := by
  induction line using line_induction with
  | nil => rfl
  | char c cs hplace ih => rw [fillPlaceholders_char _ hplace, ih]
  | placeholder path t hpath ih => rw [fillPlaceholders_literal _ hpath, ih]

/-- The line with some of its placeholders marked. -/
theorem exists_segments (own : Text → Bool) (fill : Text → Text) (line : Text) :
    ∃ segments : List (Option Char),
      (∀ token, render token segments =
        fillPlaceholders (fun path => if own path then token else fill path) 0 line) ∧
      segments.count none = (placeholders line).countP own := by
  induction line using line_induction with
  | nil => exact ⟨[], fun _ => rfl, rfl⟩
  | char c cs hplace ih =>
    obtain ⟨segments, hrender, hcount⟩ := ih
    refine ⟨some c :: segments, fun token => ?_, ?_⟩
    · rw [render_char, hrender, fillPlaceholders_char _ hplace]
    · rw [List.count_cons_of_ne (by simp), hcount, placeholders_char hplace]
  | placeholder path t hpath ih =>
    obtain ⟨segments, hrender, hcount⟩ := ih
    rw [placeholders_literal hpath]
    by_cases hown : own path = true
    · refine ⟨none :: segments, fun token => ?_, ?_⟩
      · rw [render_mark, hrender, fillPlaceholders_literal _ hpath, if_pos hown]
      · rw [List.count_cons_self, hcount, List.countP_cons_of_pos hown]
    · refine ⟨(fill path).map some ++ segments, fun token => ?_, ?_⟩
      · rw [render_append, render_map_some, hrender, fillPlaceholders_literal _ hpath, if_neg hown]
      · have hnone : ((fill path).map some).count none = 0 := List.count_eq_zero.mpr (by simp)
        rw [List.count_append, hnone, hcount, List.countP_cons_of_neg hown, Nat.zero_add]

/-! ## One round -/

section
variable {resolve : Text → Option (Option Text)} {line : Text}

theorem countP_own (done : List Text) (path : Text) (paths : List Text) :
    paths.countP (fun p => p == path && !done.contains path) =
      if done.contains path then 0 else paths.count path := by
  cases done.contains path with
  | true => simp
  | false => simp [List.count]

/-- A round replaces the placeholders it is for, exactly when its literal is nowhere else or stands
for itself. -/
theorem round_iff (done : List Text) {path : Text} (hpath : IsPlaceholder path) :
    replaceAll (placeholderText path) (contentAt resolve path) 0
        (fillPlaceholders (fillFor resolve done) 0 line) =
      fillPlaceholders (fillFor resolve (done ++ [path])) 0 line ↔
    contentAt resolve path = placeholderText path ∨
      occurrences (placeholderText path) (fillPlaceholders (fillFor resolve done) 0 line) =
        if done.contains path then 0 else (placeholders line).count path := by
  have hborder := unbordered_placeholderText hpath
  obtain ⟨segments, hrender, hcount⟩ :=
    exists_segments (fun p => p == path && !done.contains path) (fillFor resolve done) line
  have hbefore : fillPlaceholders (fillFor resolve done) 0 line =
      render (placeholderText path) segments := by
    rw [hrender]
    refine fillPlaceholders_congr fun p _ => ?_
    split_ifs with hown
    · obtain ⟨hp, hdone⟩ := Bool.and_eq_true_iff.mp hown
      obtain rfl := eq_of_beq hp
      exact if_neg (by simpa using hdone)
    · rfl
  have hafter : fillPlaceholders (fillFor resolve (done ++ [path])) 0 line =
      render (contentAt resolve path) segments := by
    rw [hrender]
    refine fillPlaceholders_congr fun p _ => ?_
    unfold fillFor
    by_cases hp : p = path
    · subst hp
      by_cases hdone : p ∈ done <;> simp [hdone]
    · simp [hp]
  have hreplaces := replaces_replaceAll hborder.ne_nil (contentAt resolve path)
  rw [hbefore, hafter, hreplaces.render_iff hborder, hcount, countP_own]

theorem isPlaceholder_of_mem {path : Text} (h : path ∈ placeholders line) : IsPlaceholder path := by
  obtain ⟨v, u, -, hu⟩ := mem_placeholders.mp h
  exact isPlaceholder_of_placeholderAt hu

theorem rewriteRounds_concat (done : List Text) (path : Text) :
    rewriteRounds resolve (done ++ [path]) line =
      replaceAll (placeholderText path) (contentAt resolve path) 0
        (rewriteRounds resolve done line) := by
  unfold rewriteRounds
  rw [List.foldl_append]
  rfl

theorem onlyOwn_iff : OnlyOwn resolve line ↔ Undisturbed resolve line := by
  constructor
  · intro h done path hstart
    have hmem := hstart.subset (List.mem_append_right _ List.mem_cons_self)
    have hpath := isPlaceholder_of_mem hmem
    have hdone := h done ((List.prefix_append done [path]).trans hstart)
    have hnext := h _ hstart
    rw [rewriteRounds_concat, hdone] at hnext
    exact (round_iff done hpath).mp hnext
  · intro h done
    induction done using List.reverseRecOn with
    | nil =>
      intro _
      have hfill : fillFor resolve [] = placeholderText := funext fun _ => if_neg (by simp)
      rw [hfill, fillPlaceholders_placeholderText]
      rfl
    | append_singleton done path ih =>
      intro hstart
      have hmem := hstart.subset (List.mem_append_right _ List.mem_cons_self)
      have hpath := isPlaceholder_of_mem hmem
      rw [rewriteRounds_concat, ih ((List.prefix_append done [path]).trans hstart)]
      exact (round_iff done hpath).mpr (h done path hstart)

/-! ## Lines and texts -/

theorem go_eq (paths : List Text) (rewritten : Text) :
    substituteLine.go resolve paths rewritten =
      ((paths.map (contentOf resolve)).find? (·.join.isNone)).getD
        (some (some (rewriteRounds resolve paths rewritten))) := by
  induction paths generalizing rewritten with
  | nil => rfl
  | cons path paths ih =>
    rw [substituteLine.go, ← normalised, List.map_cons]
    cases hcontent : resolve (normalised path) with
    | none =>
      rw [List.find?_cons_of_pos (by simp [contentOf, hcontent]), contentOf, hcontent]
      rfl
    | some found =>
      cases found with
      | none =>
        rw [List.find?_cons_of_pos (by simp [contentOf, hcontent]), contentOf, hcontent]
        rfl
      | some content =>
        have hat : contentAt resolve path = content := by
          unfold contentAt contentOf
          rw [hcontent]
          rfl
        rw [List.find?_cons_of_neg (by simp [contentOf, hcontent]), rewriteRounds, List.foldl_cons,
          hat]
        exact ih _

theorem substituteLine_eq (line : Text) : substituteLine resolve line =
    lineOutcome resolve line (rewriteRounds resolve (placeholders line) line) := go_eq _ _

theorem find?_eq_none_iff :
    ((placeholders line).map (contentOf resolve)).find? (·.join.isNone) = none ↔
      IsKept resolve line := by
  rw [List.find?_eq_none, List.forall_mem_map]
  refine forall₂_congr fun path _ => ?_
  unfold contentOf IsFound
  rcases resolve (normalised path) with _ | _ | content <;> simp

/-- One pass fills a line whose placeholders all have a content. -/
theorem simultaneousLine_of_kept (h : IsKept resolve line) :
    simultaneousLine resolve line =
      some (some (fillPlaceholders (contentAt resolve) 0 line)) := by
  unfold simultaneousLine lineOutcome
  rw [find?_eq_none_iff.mpr h]
  rfl

/-- One pass leaves a line without placeholders alone. -/
theorem simultaneousLine_of_noPlaceholder (h : placeholders line = []) :
    simultaneousLine resolve line = some (some line) := by
  have hnone : ∀ path, path ∉ placeholders line := fun path => by simp [h]
  have hkept : IsKept resolve line := fun path hpath => absurd hpath (hnone path)
  have hfill : fillPlaceholders (contentAt resolve) 0 line =
      fillPlaceholders placeholderText 0 line :=
    fillPlaceholders_congr fun path hpath => absurd hpath (hnone path)
  rw [simultaneousLine_of_kept hkept, hfill, fillPlaceholders_placeholderText]

/-- One pass removes a line with a placeholder that has no file. -/
theorem simultaneousLine_of_missing {path : Text} (h : IsReached resolve line path)
    (hmissing : resolve (normalised path) = some none) :
    simultaneousLine resolve line = some none := by
  obtain ⟨before, after, hline, hbefore⟩ := h
  have hnone : (before.map (contentOf resolve)).find? (·.join.isNone) = none := by
    rw [List.find?_eq_none, List.forall_mem_map]
    intro p hp
    obtain ⟨content, hcontent⟩ := hbefore p hp
    simp [contentOf, hcontent]
  unfold simultaneousLine lineOutcome
  rw [hline, List.map_append, List.find?_append, hnone, List.map_cons,
    List.find?_cons_of_pos (by simp [contentOf, hmissing]), contentOf, hmissing]
  rfl

/-- A line that is kept is what its rounds make of it; the others do not show their rounds. -/
theorem substituteLine_eq_simultaneousLine (h : IsKept resolve line → Undisturbed resolve line) :
    substituteLine resolve line = simultaneousLine resolve line := by
  rw [substituteLine_eq, simultaneousLine]
  by_cases hkept : IsKept resolve line
  · have hrounds := onlyOwn_iff.mpr (h hkept) (placeholders line) (List.prefix_refl _)
    have hfill : fillPlaceholders (fillFor resolve (placeholders line)) 0 line =
        fillPlaceholders (contentAt resolve) 0 line :=
      fillPlaceholders_congr fun path hpath => if_pos (List.contains_iff_mem.mpr hpath)
    rw [hrounds, hfill]
  · unfold lineOutcome
    obtain ⟨outcome, houtcome⟩ := Option.ne_none_iff_exists'.mp (mt find?_eq_none_iff.mp hkept)
    rw [houtcome]
    rfl

theorem substitutesAtOnce_of_resolve_iff (resolve : Text → Option (Option Text)) (text : Text) :
    SubstitutesAtOnce resolve text ↔
      ∀ line ∈ text.splitOn '\n', IsKept resolve line → Undisturbed resolve line := by
  constructor
  · rintro ⟨-, hrounds⟩ line hline hkept
    exact onlyOwn_iff.mp (hrounds line hline hkept)
  · intro h
    refine ⟨?_, fun line hline hkept => onlyOwn_iff.mpr (h line hline hkept)⟩
    unfold substituteText simultaneousText
    rw [mapM_congr fun line hline => substituteLine_eq_simultaneousLine (h line hline)]

end

/-- Whatever the files under `overrides/` and the workspace. -/
theorem substitutesAtOnce_iff {X : Type} (libs : Libs X) (tree : FileTree) (root : Path)
    (workspaceName : Option String) (text : Text) :
    SubstitutesAtOnce (resolveSnippet libs tree root workspaceName) text ↔
      ∀ line ∈ text.splitOn '\n', IsKept (resolveSnippet libs tree root workspaceName) line →
        Undisturbed (resolveSnippet libs tree root workspaceName) line :=
  substitutesAtOnce_of_resolve_iff _ text

/-! ## A snippet that mentions another -/

namespace Nested

-- Reads a file that holds a literal block of one line.
def libs : Libs Unit where
  safeLoad := fun t => some (.dict [("content", .str (String.ofList (t.drop 14)))])
  dump := fun _ => []
  laxInt := fun _ => none

def root : Path := ["repo", "overrides"]

def snippet (content : String) : Text := "content: |-\n  ".toList ++ content.toList

def tree : FileTree :=
  (Directory.empty.write ["repo", "overrides", "a.yml"] (snippet "\x7b\x7bb.yml\x7d\x7d")).write
    ["repo", "overrides", "b.yml"] (snippet "x")

def query : Text := "\x7b\x7ba.yml\x7d\x7d \x7b\x7bb.yml\x7d\x7d".toList

end Nested

theorem not_substitutesAtOnce_nested :
    substituteText (resolveSnippet Nested.libs Nested.tree Nested.root none) Nested.query =
        some "x x".toList ∧
      simultaneousText (resolveSnippet Nested.libs Nested.tree Nested.root none) Nested.query =
        some "\x7b\x7bb.yml\x7d\x7d x".toList ∧
      ¬SubstitutesAtOnce (resolveSnippet Nested.libs Nested.tree Nested.root none)
        Nested.query := by
  refine ⟨by decide, by decide, ?_⟩
  intro h
  exact absurd h.1 (by decide)

end ContentOps.Snippets
