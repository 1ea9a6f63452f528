import ContentOps.Lint.Kql
import ContentOps.Snippets

/-! The placeholder rules of `lint/snippets.py`: what a query may have between double braces, and
what a snippet file has to be. -/

namespace ContentOps.Lint
open PyData Kql Snippets

/-! ## Tokens -/

/-- The text up to the first two closing braces. -/
def untilClose : Text → Option Text
  | [] => none
  | c :: cs => if ['}', '}'] <+: c :: cs then some [] else (untilClose cs).map (c :: ·)

/-- What is between the braces of a token that the text starts with. -/
def looseAt (t : Text) : Option Text :=
  if ['{', '{'] <+: t then untilClose (t.drop 2) else none

/-- The matches of `_LOOSE_PLACEHOLDER_RE`; `skip` characters belong to the last one. -/
def looseTokens : ℕ → Text → List Text
  | _, [] => []
  | skip + 1, _ :: cs => looseTokens skip cs
  | 0, c :: cs =>
    match looseAt (c :: cs) with
    | some inner => inner :: looseTokens (inner.length + 3) cs
    | none => looseTokens 0 cs

/-- `_STRICT_PLACEHOLDER_RE.sub("", text)`. -/
def dropPlaceholders : ℕ → Text → Text
  | _, [] => []
  | skip + 1, _ :: cs => dropPlaceholders skip cs
  | 0, c :: cs =>
    match placeholderAt (c :: cs) with
    | some path => dropPlaceholders (path.length + 3) cs
    | none => c :: dropPlaceholders 0 cs

/-- The text before the first `//`. -/
def beforeComment : Text → Text
  | [] => []
  | c :: cs => if ['/', '/'] <+: c :: cs then [] else c :: beforeComment cs

/-- The path with forward slashes. -/
def normalised (path : Text) : Text := path.map fun c => if c = '\\' then '/' else c

def isTraversal (inner : Text) : Bool :=
  (normalised inner).head? = some '/' || ['.', '.'] ∈ (normalised inner).splitOn '/'

/-! ## The rules for a query -/

-- `repr` is Python's `repr` of a text.
variable (repr : Text → String)

def notSnippetPath (inner : Text) (line : ℕ) : LintFinding where
  rule_id := "KQLOVERRIDE001"
  severity := "warning"
  message := "placeholder " ++ repr (['{', '{'] ++ inner ++ ['}', '}']) ++
    " is not a snippet path; a snippet must be written exactly as " ++
    "'\x7b\x7bfolder/file.yml\x7d\x7d' (no spaces, trailing '.yml' required). " ++
    "Other '\x7b\x7b...\x7d\x7d' tokens, for example " ++
    "Sentinel template tokens such as '\x7b\x7bStartTimeISO\x7d\x7d', are not substituted and " ++
    "reach the service unchanged"
  line := some line

def unsafePath (inner : Text) (line : ℕ) : LintFinding where
  rule_id := "KQLOVERRIDE002"
  severity := "error"
  message := "snippet placeholder " ++ repr (['{', '{'] ++ inner ++ ['}', '}']) ++
    " resolves to an unsafe path (absolute or contains '..'); use a relative path under overrides/"
  line := some line

def notAlone (line : ℕ) : LintFinding where
  rule_id := "KQLOVERRIDE003"
  severity := "error"
  message := "snippet placeholder must be the only non-whitespace token on its line " ++
    "(trailing '//' comment allowed); place '\x7b\x7b...\x7d\x7d' on its own line so " ++
    "the both-missing fallback can drop the line cleanly"
  line := some line

/-- The findings of one token. -/
def tokenFindings (line : ℕ) (inner : Text) : List LintFinding :=
  let strictOk := placeholderAt (['{', '{'] ++ inner ++ ['}', '}']) = some inner
  if ¬strictOk ∧ inner = [] then [notSnippetPath repr inner line]
  else (if strictOk then [] else [notSnippetPath repr inner line]) ++
    if isTraversal inner then [unsafePath repr inner line] else []

/-- The findings of one line. -/
def lineFindings (line : ℕ) (text : Text) : List LintFinding :=
  (looseTokens 0 text).flatMap (tokenFindings repr line) ++
    if placeholders text ≠ [] ∧ Text.strip (dropPlaceholders 0 (beforeComment text)) ≠ [] then
      [notAlone line]
    else []

/-- `lint_kql_placeholders`. A text without braces has no tokens and no findings. -/
def lintKqlPlaceholders (query : Text) : List LintFinding :=
  ((query.splitOn '\n').zipIdx 1).flatMap fun p => lineFindings repr p.2 p.1

/-! ## The snippet files -/

section
variable {X : Type} (libs : Libs X)
-- What a parser's exception says, and `type(value).__name__`.
variable (yamlError : Text → String) (typeName : Value X → String)

def brokenSnippet (message : String) : LintFinding where
  rule_id := "KQLOVERRIDE004"
  severity := "error"
  message := message
  line := none

/-- The finding of one snippet file. -/
def snippetFinding (content : Text) : Option LintFinding :=
  match libs.safeLoad content with
  | none => some (brokenSnippet ("snippet file unreadable / not valid YAML: " ++ yamlError content))
  | some (.dict parsed) =>
    match Dict.get? parsed "content" with
    | none => some (brokenSnippet "snippet file missing required 'content:' key")
    | some (.str _) => none
    | some v => some (brokenSnippet ("snippet file 'content' must be a string; got " ++ typeName v))
  | some v => some (brokenSnippet
      ("snippet file top-level must be a mapping with a 'content:' key; got " ++ typeName v))

/-- `lint_overrides_directory`. -/
def lintOverridesDirectory (tree : FileTree) (root : Path) : List (Path × LintFinding) :=
  (tree.glob (isUnder root ".yml")).filterMap fun p =>
    (snippetFinding libs yamlError typeName p.2).map fun finding => (p.1, finding)

end

end ContentOps.Lint
