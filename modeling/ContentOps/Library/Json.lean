import ContentOps.Library.Text
import ContentOps.Library.Value

/-! Writing and reading JSON the way Python's `json` module does, on characters. -/

namespace Json
open PyData

/-! ## Numbers -/

def digitsOf (n : Nat) : Text := Nat.toDigits 10 n

/-- `str(int)`. -/
def writeInt : Int → Text
  | .ofNat n => digitsOf n
  | .negSucc n => '-' :: digitsOf (n + 1)

def scanNat : Text → Option (Text × Text)
  | [] => none
  | c :: cs =>
    if c = '0' then some (['0'], cs)
    else if c.isDigit then some (c :: cs.takeWhile Char.isDigit, cs.dropWhile Char.isDigit)
    else none

/-- `-?(?:0|[1-9][0-9]*)`. -/
def scanInt : Text → Option (Text × Text)
  | '-' :: cs => (scanNat cs).map fun (l, r) => ('-' :: l, r)
  | cs => scanNat cs

/-- `(\.[0-9]+)?`. -/
def scanFrac : Text → Text × Text
  | '.' :: cs =>
    if cs.head?.any Char.isDigit then
      ('.' :: cs.takeWhile Char.isDigit, cs.dropWhile Char.isDigit)
    else ([], '.' :: cs)
  | cs => ([], cs)

def scanSign : Text → Text × Text
  | [] => ([], [])
  | c :: cs => if c = '+' ∨ c = '-' then ([c], cs) else ([], c :: cs)

/-- `([eE][-+]?[0-9]+)?`. -/
def scanExp : Text → Text × Text
  | [] => ([], [])
  | c :: cs =>
    if (c = 'e' ∨ c = 'E') ∧ (scanSign cs).2.head?.any Char.isDigit then
      (c :: ((scanSign cs).1 ++ (scanSign cs).2.takeWhile Char.isDigit),
        (scanSign cs).2.dropWhile Char.isDigit)
    else ([], c :: cs)

/-- A number token: its text, whether it reads as a float, and what follows. -/
def scanNumber (cs : Text) : Option (Text × Bool × Text) :=
  if "NaN".toList <+: cs then some ("NaN".toList, true, cs.drop 3)
  else if "Infinity".toList <+: cs then some ("Infinity".toList, true, cs.drop 8)
  else if "-Infinity".toList <+: cs then some ("-Infinity".toList, true, cs.drop 9)
  else (scanInt cs).map fun (i, r) =>
    let (f, r) := scanFrac r
    let (e, r) := scanExp r
    (i ++ f ++ e, !(f.isEmpty && e.isEmpty), r)

def readInt : Text → Int
  | '-' :: cs => -(Nat.ofDigitChars 10 cs 0 : Int)
  | cs => (Nat.ofDigitChars 10 cs 0 : Int)

/-- The characters that may follow a number in a document `dumps` writes. -/
def isDelimiter (c : Char) : Bool := c ∈ [',', ']', '}', ' ', '\t', '\n', '\r']

def Delimited (rest : Text) : Prop := ∀ c ∈ rest.head?, isDelimiter c = true

/-- A float type with its text in JSON: what is written is one number token and reads back as
the value it was written from. -/
class FloatText (X : Type) where
  write : X → Text
  read : Text → Option X
  scan_write : ∀ (x : X) (rest : Text), Delimited rest →
    scanNumber (write x ++ rest) = some (write x, true, rest)
  head_write : ∀ (x : X), ∀ c ∈ (write x).head?, c ∈ ['-', 'N', 'I'] ∨ c.isDigit
  read_write : ∀ x : X, read (write x) = some x

/-- No floats. -/
instance : FloatText Empty where
  write := Empty.elim
  read := fun _ => none
  scan_write := fun x => x.elim
  head_write := fun x => x.elim
  read_write := fun x => x.elim

/-! ## Strings -/

def hexDigits (n : Nat) : Text :=
  [(n / 4096 % 16).digitChar, (n / 256 % 16).digitChar, (n / 16 % 16).digitChar,
    (n % 16).digitChar]

def escapeU (n : Nat) : Text := '\\' :: 'u' :: hexDigits n

/-- The text of one character inside quotes. -/
def escapeChar (asciiOnly : Bool) (c : Char) : Text :=
  if c = '"' then ['\\', '"']
  else if c = '\\' then ['\\', '\\']
  else if c = '\n' then ['\\', 'n']
  else if c = '\r' then ['\\', 'r']
  else if c = '\t' then ['\\', 't']
  else if c = '\x0c' then ['\\', 'f']
  else if c = '\x08' then ['\\', 'b']
  else if c.toNat < 0x20 then escapeU c.toNat
  else if !asciiOnly ∨ c.toNat < 0x7f then [c]
  else if c.toNat < 0x10000 then escapeU c.toNat
  else escapeU (0xd800 + (c.toNat - 0x10000) / 0x400) ++
    escapeU (0xdc00 + (c.toNat - 0x10000) % 0x400)

def writeString (asciiOnly : Bool) (s : String) : Text :=
  '"' :: s.toList.flatMap (escapeChar asciiOnly) ++ ['"']

def hexValue (c : Char) : Option Nat :=
  if c.isDigit then some (c.toNat - '0'.toNat)
  else if 'a' ≤ c ∧ c ≤ 'f' then some (c.toNat - 'a'.toNat + 10)
  else if 'A' ≤ c ∧ c ≤ 'F' then some (c.toNat - 'A'.toNat + 10)
  else none

def readHex : Text → Option (Nat × Text)
  | a :: b :: c :: d :: cs => do
    let a ← hexValue a
    let b ← hexValue b
    let c ← hexValue c
    let d ← hexValue d
    some (a * 4096 + b * 256 + c * 16 + d, cs)
  | _ => none

def charOfNat? (n : Nat) : Option Char := if n.isValidChar then some (Char.ofNat n) else none

/-- The character of a `\u` escape whose four digits are read from `cs`; a high surrogate takes
the low surrogate that follows with it. A lone surrogate is no character here. -/
def readUnicode (cs : Text) : Option (Char × Text) := do
  let (n, cs) ← readHex cs
  if 0xd800 ≤ n ∧ n < 0xdc00 then
    match cs with
    | '\\' :: 'u' :: cs =>
      let (m, cs) ← readHex cs
      if 0xdc00 ≤ m ∧ m < 0xe000 then
        let c ← charOfNat? (0x10000 + (n - 0xd800) * 0x400 + (m - 0xdc00))
        some (c, cs)
      else none
    | _ => none
  else
    let c ← charOfNat? n
    some (c, cs)

def readEscape : Text → Option (Char × Text)
  | '"' :: cs => some ('"', cs)
  | '\\' :: cs => some ('\\', cs)
  | '/' :: cs => some ('/', cs)
  | 'b' :: cs => some ('\x08', cs)
  | 'f' :: cs => some ('\x0c', cs)
  | 'n' :: cs => some ('\n', cs)
  | 'r' :: cs => some ('\r', cs)
  | 't' :: cs => some ('\t', cs)
  | 'u' :: cs => readUnicode cs
  | _ => none

/-- The characters up to the closing quote; control characters must be escaped. -/
def readChars : Nat → Text → Option (Text × Text)
  | 0, _ => none
  | _ + 1, [] => none
  | fuel + 1, c :: cs =>
    if c = '"' then some ([], cs)
    else if c = '\\' then do
      let (c, cs) ← readEscape cs
      let (s, cs) ← readChars fuel cs
      some (c :: s, cs)
    else if c.toNat < 0x20 then none
    else do
      let (s, cs) ← readChars fuel cs
      some (c :: s, cs)

/-! ## Documents -/

/-- How `dumps` lays a document out: `pad d` stands around the entries of a container whose
entries are at depth `d`, `gap` after the colon of a key. -/
structure Style where
  asciiOnly : Bool
  pad : Nat → Text
  gap : Text

/-- `separators=(",", ":")`. -/
def compact : Style where
  asciiOnly := true
  pad := fun _ => []
  gap := []

/-- `indent=2`. -/
def indent2 (asciiOnly : Bool) : Style where
  asciiOnly := asciiOnly
  pad := fun d => '\n' :: List.replicate (2 * d) ' '
  gap := [' ']

section Write
variable {X : Type} [FloatText X]

mutual

def write (st : Style) (depth : Nat) : Value X → Text
  | .null => "null".toList
  | .bool true => "true".toList
  | .bool false => "false".toList
  | .int n => writeInt n
  | .scalar x => FloatText.write x
  | .str s => writeString st.asciiOnly s
  | .list [] => "[]".toList
  | .list (v :: vs) => '[' :: writeItems st (depth + 1) (v :: vs) ++ st.pad depth ++ [']']
  | .dict [] => "{}".toList
  | .dict (p :: d) => '{' :: writeEntries st (depth + 1) (p :: d) ++ st.pad depth ++ ['}']

def writeItems (st : Style) (depth : Nat) : List (Value X) → Text
  | [] => []
  | v :: vs => st.pad depth ++ write st depth v ++
      (if vs.isEmpty then [] else ',' :: writeItems st depth vs)

def writeEntries (st : Style) (depth : Nat) : List (String × Value X) → Text
  | [] => []
  | (k, v) :: d => st.pad depth ++ writeString st.asciiOnly k ++ ':' :: st.gap ++
      write st depth v ++ (if d.isEmpty then [] else ',' :: writeEntries st depth d)

end

def dumps (st : Style) (v : Value X) : Text := write st 0 v

end Write

def isSpace (c : Char) : Bool := c ∈ [' ', '\t', '\n', '\r']

def skipSpace (cs : Text) : Text := cs.dropWhile isSpace

def dropPrefix (p cs : Text) : Option Text := if p <+: cs then some (cs.drop p.length) else none

section Read
variable {X : Type} [FloatText X]

def readNumber (cs : Text) : Option (Value X × Text) :=
  match scanNumber cs with
  | none => none
  | some (l, true, r) => (FloatText.read l).map fun x => (.scalar x, r)
  | some (l, false, r) => some (.int (readInt l), r)

mutual

def readValue : Nat → Text → Option (Value X × Text)
  | 0, _ => none
  | _ + 1, [] => none
  | fuel + 1, c :: cs =>
    if c = '"' then (readChars fuel cs).map fun (s, r) => (.str (String.ofList s), r)
    else if c = '[' then
      match skipSpace cs with
      | ']' :: r => some (.list [], r)
      | cs => (readItems fuel cs).map fun (vs, r) => (.list vs, r)
    else if c = '{' then
      match skipSpace cs with
      | '}' :: r => some (.dict [], r)
      | cs => (readEntries fuel cs).map fun (d, r) => (.dict (Dict.ofPairs d), r)
    else if c = 'n' then (dropPrefix "ull".toList cs).map fun r => (.null, r)
    else if c = 't' then (dropPrefix "rue".toList cs).map fun r => (.bool true, r)
    else if c = 'f' then (dropPrefix "alse".toList cs).map fun r => (.bool false, r)
    else readNumber (c :: cs)

def readItems : Nat → Text → Option (List (Value X) × Text)
  | 0, _ => none
  | fuel + 1, cs => do
    let (v, r) ← readValue fuel cs
    match skipSpace r with
    | ',' :: r => do
      let (vs, r) ← readItems fuel (skipSpace r)
      some (v :: vs, r)
    | ']' :: r => some ([v], r)
    | _ => none

def readEntries : Nat → Text → Option (List (String × Value X) × Text)
  | 0, _ => none
  | fuel + 1, cs => do
    let r ← dropPrefix ['"'] cs
    let (k, r) ← readChars fuel r
    let r ← dropPrefix [':'] (skipSpace r)
    let (v, r) ← readValue fuel (skipSpace r)
    match skipSpace r with
    | ',' :: r => do
      let (d, r) ← readEntries fuel (skipSpace r)
      some ((String.ofList k, v) :: d, r)
    | '}' :: r => some ([(String.ofList k, v)], r)
    | _ => none

end

/-- `json.loads`; `none` is `JSONDecodeError`. -/
def loads (cs : Text) : Option (Value X) := do
  let (v, r) ← readValue (2 * cs.length + 2) (skipSpace cs)
  if skipSpace r = [] then some v else none

end Read
end Json
