import ContentOps.Library.Brackets
import ContentOps.Library.Dict
import ContentOps.Library.Text

/-! The text checks of a KQL query, `lint/kql.py`: strings and comments blanked, and the brackets
outside them. -/

namespace ContentOps.Kql
open PyData

structure LintFinding where
  rule_id : String
  severity : String
  message : String
  line : Option Nat
  deriving DecidableEq

/-! ## Strings and comments -/

/-- Where the scanner is: `in_str` and `in_verbatim` hold the closing quote, and a comment runs to
the end of its line. -/
inductive Mode where
  | code
  | inStr (quote : Char)
  | inVerbatim (quote : Char)
  | comment
  deriving DecidableEq

def Mode.inString : Mode → Bool
  | .inStr _ | .inVerbatim _ => true
  | _ => false

def blank (c : Char) : Char := if c = '\n' then '\n' else ' '

def isQuote (c : Char) : Bool := c = '"' || c = '\''

/-- One round of the scanner on a character and the one after it: what it puts out, and where it
goes on. It takes the second character as well where it puts out two. -/
def scanStep : Mode → Char → Option Char → Text × Mode
  | .inVerbatim quote, c, next =>
    if c = quote ∧ next = some quote then ([' ', ' '], .inVerbatim quote)
    else if c = quote then ([' '], .code)
    else ([blank c], .inVerbatim quote)
  | .inStr quote, c, next =>
    match if c = '\\' then next else none with
    | some nxt => ([' ', blank nxt], .inStr quote)
    | none => if c = quote then ([' '], .code) else ([blank c], .inStr quote)
  | .comment, c, _ => if c = '\n' then ([c], .code) else ([' '], .comment)
  | .code, c, next =>
    if c = '/' ∧ next = some '/' then ([' ', ' '], .comment)
    else if c = '@' ∧ next = some '"' then ([' ', ' '], .inVerbatim '"')
    else if c = '@' ∧ next = some '\'' then ([' ', ' '], .inVerbatim '\'')
    else if isQuote c then ([' '], .inStr c)
    else ([c], .code)

def emit (out : Text) (r : Text × Bool) : Text × Bool := (out ++ r.1, r.2)

def scan : Mode → Text → Text × Bool
  | mode, [] => ([], mode.inString)
  | mode, c :: rest =>
    match scanStep mode c rest.head?, rest with
    | ([a, b], mode'), _ :: rest' => emit [a, b] (scan mode' rest')
    | (out, mode'), rest => emit out (scan mode' rest)

/-- `_strip_strings_and_comments`. -/
def stripStringsAndComments (query : Text) : Text × Bool := scan .code query

/-! ## Brackets -/

/-- `_line_of`. -/
def lineOf (text : Text) (offset : Nat) : Nat := (text.take offset).count '\n' + 1

def pairs : Dict Char Char := [(')', '('), (']', '['), ('}', '{')]

def openers : List Char := pairs.map (·.2)

structure BracketCheck where
  stack : List (Char × Nat)
  findings : List LintFinding

def unbalanced (message : String) (line : Nat) : LintFinding :=
  ⟨"KQL001", "error", "unbalanced bracket: " ++ message, some line⟩

def unexpected (c : Char) : String := "unexpected '" ++ String.singleton c ++ "'"

def neverClosed (opener : Char) : String := "'" ++ String.singleton opener ++ "' never closed"

/-- A round of the bracket loop. The stack has its last bracket first. -/
def bracketStep (query : Text) (s : BracketCheck) : Char × Nat → BracketCheck
  | (c, idx) =>
    if c ∈ openers then { s with stack := (c, idx) :: s.stack }
    else match pairs.get? c with
      | none => s
      | some opener =>
        if s.stack.head?.map (·.1) = some opener then { s with stack := s.stack.tail }
        else
          { stack := s.stack.tail
            findings := s.findings ++ [unbalanced (unexpected c) (lineOf query idx)] }

/-- `_check_balanced_brackets`. -/
def checkBalancedBrackets (query stripped : Text) : List LintFinding :=
  let s := stripped.zipIdx.foldl (bracketStep query) ⟨[], []⟩
  match s.stack.getLast? with
  | none => s.findings
  | some (opener, off) =>
    s.findings ++ [unbalanced (neverClosed opener) (lineOf query off)]

end ContentOps.Kql
