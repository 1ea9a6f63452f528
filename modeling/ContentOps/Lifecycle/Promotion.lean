import ContentOps.Library.Text

/-! The line edits that promotion makes in the text of a rule, `lifecycle.py`. -/

namespace ContentOps.Lifecycle
open PyData

def isBlankChar (c : Char) : Bool := c = ' ' || c = '\t'

/-- `[ \t]*\S+[ \t]*$`, on the rest of a line. -/
def isWordTail (t : Text) : Bool :=
  let word := t.dropWhile isBlankChar
  word.head?.any (!Text.isSpace ·) && (word.dropWhile (!Text.isSpace ·)).all isBlankChar

def afterText? (start line : Text) : Option Text :=
  if start <+: line then some (line.drop start.length) else none

/-- `_STATUS_LINE_RE`, on a line. -/
def isStatusLine (line : Text) : Bool := (afterText? "status:".toList line).any isWordTail

/-- The patterns of the stamps, on a line: its indent when the key stands there. -/
def stampIndent (key line : Text) : Option Text :=
  let indent := line.takeWhile isBlankChar
  let rest := line.dropWhile isBlankChar
  if indent ≠ [] ∧ (afterText? (key ++ [':']) rest).any isWordTail then some indent else none

def replaceFirst (edit : Text → Option Text) : List Text → Option (List Text)
  | [] => none
  | line :: lines =>
    match edit line with
    | some line' => some (line' :: lines)
    | none => (replaceFirst edit lines).map (line :: ·)

def joinLines (lines : List Text) : Text := ['\n'].intercalate lines

/-- `sub(..., count=1)` of a pattern that matches whole lines. -/
def editLine (edit : Text → Option Text) (text : Text) : Option Text :=
  (replaceFirst edit (text.splitOn '\n')).map joinLines

/-- `_rewrite_status_to_production`; `none` is `LifecycleError`. -/
def rewriteStatusToProduction (text : Text) : Option Text :=
  editLine (fun line => if isStatusLine line then some "status: production".toList else none) text

/-! ## The lifecycle block -/

def isLifecycleHeader (line : Text) : Bool :=
  (afterText? "lifecycle:".toList line).any (·.all isBlankChar)

/-- `_LIFECYCLE_BLOCK_RE` at a line, with the lines after it. -/
def opensBlock (line : Text) (rest : List Text) : Bool :=
  isLifecycleHeader line && match rest with
    | [] => false
    | first :: more =>
      first.head?.any isBlankChar && (2 ≤ more.length || (more.length = 1 && 2 ≤ first.length))

def hasBlock : List Text → Bool
  | [] => false
  | line :: rest => opensBlock line rest || hasBlock rest

/-- The stamp at the end of the block. The dot of the pattern matches newlines too, so the block
ends with the last newline of the text. -/
def appendToBlock (stamp : Text) : List Text → List Text
  | [] => []
  | line :: rest =>
    if opensBlock line rest then
      line :: (rest.dropLast.rdropWhile (· = []) ++ stamp :: rest.getLast?.toList)
    else line :: appendToBlock stamp rest

def stampText (key value : Text) : Text := key ++ ':' :: ' ' :: value

/-- A stamp where its key stands, or else at the end of the block. -/
def stampKey (key value text : Text) : Text :=
  (editLine (fun line => (stampIndent key line).map (· ++ stampText key value)) text).getD
    (joinLines (appendToBlock ("  ".toList ++ stampText key value) (text.splitOn '\n')))

def promotedAt : Text := "promotedAt".toList
def promotedBy : Text := "promotedBy".toList
def forcedPromotion : Text := "forcedPromotion".toList

/-- `_stamp_promotion`. -/
def stampPromotion (text promotedAtValue promotedByValue : Text) (forced : Bool) : Text :=
  if hasBlock (text.splitOn '\n') then
    let text := stampKey promotedBy promotedByValue (stampKey promotedAt promotedAtValue text)
    if forced then stampKey forcedPromotion "true".toList text
    else (editLine (fun line => (stampIndent forcedPromotion line).map fun _ => []) text).getD text
  else
    let forcedLine := if forced then "\n  ".toList ++ stampText forcedPromotion "true".toList else []
    text ++ (if text.getLast? = some '\n' then [] else ['\n']) ++ "lifecycle:\n  ".toList ++
      stampText promotedAt promotedAtValue ++ "\n  ".toList ++
      stampText promotedBy promotedByValue ++ forcedLine ++ ['\n']

end ContentOps.Lifecycle
