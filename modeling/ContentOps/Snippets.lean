import ContentOps.Core.Discovery
import ContentOps.Core.Drift
import ContentOps.Library.OptionMap
import ContentOps.Library.PathText

/-! Snippet substitution, `snippets/apply.py` and `snippets/loader.py`: a placeholder in a query, a
path in double braces, is replaced by a file under `overrides/`, and a line with one that has no
file is dropped. -/

namespace ContentOps.Snippets
open PyData

/-! ## Placeholders -/

def isPathChar (c : Char) : Bool := c.isAlphanum || c ∈ ['_', '-', '.', '/', '\\']

/-- The path in a placeholder that the text starts with. The path runs up to the first character
that cannot belong to it. -/
def placeholderAt : Text → Option Text
  | '{' :: '{' :: rest =>
    let path := rest.takeWhile isPathChar
    if 4 < path.length && ".yml".toList <:+ path && ['}', '}'] <+: rest.dropWhile isPathChar then
      some path
    else none
  | _ => none

/-- The matches of `PLACEHOLDER_RE`, which cannot overlap. -/
def placeholders : Text → List Text
  | [] => []
  | c :: cs => (placeholderAt (c :: cs)).toList ++ placeholders cs

def placeholderText (path : Text) : Text := ['{', '{'] ++ path ++ ['}', '}']

/-- `text.replace(old, new)`; `skip` characters belong to a match already replaced. -/
def replaceAll (old new : Text) : Nat → Text → Text
  | _, [] => []
  | skip + 1, _ :: cs => replaceAll old new skip cs
  | 0, c :: cs =>
    if old <+: c :: cs then new ++ replaceAll old new (old.length - 1) cs
    else c :: replaceAll old new 0 cs

/-! ## Snippet files -/

/-- `(dir / rel).resolve()`; `none` when it leaves the root. The paths are absolute. -/
def resolveUnder (root dir : Path) (rel : Text) : Option Path :=
  let path := resolveFrom dir rel
  if root <+: path then some path else none

/-- The path is a directory. -/
def isDir (tree : FileTree) (p : Path) : Bool :=
  tree.entries.any fun e => p <+: e.1 && p.length < e.1.length

/-- The way from a directory to a file is there: each step up is one from a directory. -/
def isWalkable (tree : FileTree) (dir : Path) (rel : Text) : Bool :=
  let step := fun (r : Path × Bool) (part : Text) =>
    (enter r.1 part, r.2 && (part ≠ ['.', '.'] || isDir tree r.1))
  ((rel.splitOn '/').foldl step (if rel.head? = some '/' then [] else dir, true)).2

section
variable {X : Type} (libs : Libs X) (tree : FileTree)

/-- `_read_snippet`; `none` is `SnippetFormatError`. -/
def readSnippet (content : Text) : Option Text := do
  let parsed ← (← libs.safeLoad content).dict?
  let text ← (← parsed.get? "content").text?
  some (unifyNewlines text.toList)

/-- One candidate of `resolve_snippet`: its content when it is a file, else what comes next; the
outer `none` is `SnippetFormatError`. -/
def lookIn (root : Path) (rel : Text) (dir : Path) (way : Bool) (next : Option (Option Text)) :
    Option (Option Text) :=
  match resolveUnder root dir rel with
  | none => none
  | some path =>
    match if way && isWalkable tree dir rel then tree.read path else none with
    | some content => (readSnippet libs content).map some
    | none => next

/-- `resolve_snippet`: the content of the first file that exists. -/
def resolveSnippet (root : Path) (workspaceName : Option String) (rel : Text) :
    Option (Option Text) :=
  if !isDir tree root then some none
  else
    let generic := lookIn libs tree root rel root true (some none)
    match workspaceName.filter (· ≠ "") with
    | some name =>
      lookIn libs tree root rel (resolveFrom root name.toList)
        (isWalkable tree root name.toList || rel.head? = some '/') generic
    | none => generic

/-! ## Substitution -/

/-- A line with its placeholders replaced, or `none` inside when it is dropped. -/
def substituteLine (resolve : Text → Option (Option Text)) (line : Text) : Option (Option Text) :=
  let rec go : List Text → Text → Option (Option Text)
    | [], rewritten => some (some rewritten)
    | path :: paths, rewritten =>
      match resolve (path.map fun c => if c = '\\' then '/' else c) with
      | none => none
      | some none => some none
      | some (some content) =>
        go paths (replaceAll (placeholderText path) content 0 rewritten)
  go (placeholders line) line

/-- `_substitute_text`; `none` is `SnippetError`. -/
def substituteText (resolve : Text → Option (Option Text)) (text : Text) : Option Text :=
  ((text.splitOn '\n').mapM (substituteLine resolve)).map fun lines =>
    ['\n'].intercalate (lines.filterMap id)

def getDotted : Value X → List String → Option (Value X)
  | v, [] => some v
  | v, key :: keys => (v.dict?.bind (Dict.get? · key)).bind (getDotted · keys)

def setDotted : Value X → List String → Value X → Value X
  | _, [], w => w
  | v, key :: keys, w =>
    match v.dict? with
    | some d => match d.get? key with
      | some u => .dict (d.set key (setDotted u keys w))
      | none => v
    | none => v

/-- One round of the loop over the KQL fields. -/
def substituteField (resolve : Text → Option (Option Text)) (payload : Value X)
    (field : List String) : Option (Value X) :=
  match getDotted payload field with
  | some (.str current) => do
    let rewritten ← substituteText resolve current.toList
    if rewritten = current.toList then some payload
    else some (setDotted payload field (.str (String.ofList rewritten)))
  | _ => some payload

/-- `apply_snippets`; `none` is `SnippetError`. -/
def applySnippets (root : Path) (workspaceName : Option String) (la : LoadedAsset X) :
    Option (LoadedAsset X) :=
  let asset := la.envelope.asset
  -- Defender is tenant-scoped: only the generic files count.
  let workspace := if "defender_".toList <+: asset.value.toList then none else workspaceName
  (asset.kqlFields.foldlM (substituteField (resolveSnippet libs tree root workspace)) la.payload).map
    fun payload => { la with payload }

/-! ## Queries without placeholders -/

/-- No query of the asset has a placeholder. -/
def NoPlaceholder (la : LoadedAsset X) : Prop :=
  ∀ field ∈ la.envelope.asset.kqlFields, ∀ text, getDotted la.payload field = some (.str text) →
    placeholders text.toList = []

end

theorem takeWhile_newline (s r : Text) :
    (s ++ '\n' :: r).takeWhile isPathChar = s.takeWhile isPathChar := by
  induction s with
  | nil => rfl
  | cons c s ih => simp only [List.cons_append, List.takeWhile_cons, ih]

theorem dropWhile_newline (s r : Text) :
    (s ++ '\n' :: r).dropWhile isPathChar = s.dropWhile isPathChar ++ '\n' :: r := by
  induction s with
  | nil => rfl
  | cons c s ih =>
    simp only [List.cons_append, List.dropWhile_cons, ih]
    split_ifs <;> rfl

/-- A placeholder does not reach over the end of its line. -/
theorem placeholderAt_newline (s r : Text) : placeholderAt (s ++ '\n' :: r) = placeholderAt s := by
  have hclose : ∀ t : Text, ['}', '}'] <+: t ++ '\n' :: r ↔ ['}', '}'] <+: t := by
    rintro (_ | ⟨a, _ | ⟨b, t⟩⟩) <;> simp [List.cons_prefix_cons]
  match s with
  | [] => rfl
  | [a] => rcases eq_or_ne a '{' with rfl | ha <;> simp [placeholderAt]
  | a :: b :: rest =>
    simp only [List.cons_append]
    unfold placeholderAt
    split
    · next h =>
      obtain ⟨rfl, rfl, rfl⟩ : a = '{' ∧ b = '{' ∧ rest ++ '\n' :: r = _ := by simpa using h
      simp only [takeWhile_newline, dropWhile_newline, hclose]
    · next h =>
      split
      · next h' =>
        obtain ⟨rfl, rfl, rfl⟩ : a = '{' ∧ b = '{' ∧ rest = _ := by simpa using h'
        exact absurd rfl (h _)
      · rfl

theorem placeholders_newline (s r : Text) :
    placeholders (s ++ '\n' :: r) = placeholders s ++ placeholders r := by
  induction s with
  | nil => rfl
  | cons c s ih =>
    rw [List.cons_append, placeholders, placeholders, ← List.cons_append, placeholderAt_newline, ih,
      List.append_assoc]

/-- The placeholders of a text are those of its lines. -/
theorem placeholders_intercalate {lines : List Text} (hne : lines ≠ []) :
    placeholders (['\n'].intercalate lines) = lines.flatMap placeholders := by
  induction lines with
  | nil => exact absurd rfl hne
  | cons l ls ih =>
    cases ls with
    | nil => simp [List.intercalate]
    | cons m ls =>
      have hsplit : ['\n'].intercalate (l :: m :: ls) =
          l ++ '\n' :: ['\n'].intercalate (m :: ls) := by
        simp [List.intercalate]
      rw [hsplit, placeholders_newline, ih (by simp)]
      rfl

theorem substituteText_of_noPlaceholder (resolve : Text → Option (Option Text)) {text : Text}
    (h : placeholders text = []) : substituteText resolve text = some text := by
  have hne : text.splitOn '\n' ≠ [] := List.splitOnP_ne_nil _ _
  have hlines : ∀ line ∈ text.splitOn '\n', substituteLine resolve line = some (some line) := by
    have htext : ['\n'].intercalate (text.splitOn '\n') = text := List.intercalate_splitOn '\n'
    rw [← htext, placeholders_intercalate hne,
      List.flatMap_eq_nil_iff] at h
    intro line hline
    unfold substituteLine
    rw [h line hline]
    rfl
  unfold substituteText
  rw [mapM_eq_map hlines, Option.map_some, List.filterMap_map]
  have hid : (id ∘ some : Text → Option Text) = some := rfl
  rw [hid, List.filterMap_some, List.intercalate_splitOn]

theorem applySnippets_eq_some {X : Type} {libs : Libs X} {tree : FileTree} {root : Path}
    {workspaceName : Option String} {la lb : LoadedAsset X}
    (h : applySnippets libs tree root workspaceName la = some lb) :
    lb.path = la.path ∧ lb.envelope = la.envelope := by
  obtain ⟨payload, -, rfl⟩ := Option.map_eq_some_iff.mp h
  exact ⟨rfl, rfl⟩

/-- Without placeholders there is nothing to substitute. -/
theorem applySnippets_of_noPlaceholder {X : Type} (libs : Libs X) (tree : FileTree) (root : Path)
    (workspaceName : Option String) {la : LoadedAsset X} (h : NoPlaceholder la) :
    applySnippets libs tree root workspaceName la = some la := by
  unfold applySnippets
  dsimp only
  generalize resolveSnippet libs tree root _ = resolve
  have hfields : ∀ fields ⊆ la.envelope.asset.kqlFields,
      fields.foldlM (substituteField resolve) la.payload = some la.payload := by
    intro fields
    induction fields with
    | nil => exact fun _ => rfl
    | cons field fields ih =>
      intro hsub
      have hfield : substituteField resolve la.payload field = some la.payload := by
        unfold substituteField
        split
        · next current hget =>
          have hnone := h field (hsub List.mem_cons_self) current hget
          rw [substituteText_of_noPlaceholder resolve hnone]
          exact if_pos rfl
        · rfl
      rw [List.foldlM_cons, hfield]
      exact ih fun f hf => hsub (List.mem_cons_of_mem _ hf)
  rw [hfields _ (List.Subset.refl _)]
  rfl

end ContentOps.Snippets
