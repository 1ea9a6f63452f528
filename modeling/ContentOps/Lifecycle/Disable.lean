import ContentOps.Library.DateTime
import ContentOps.Library.LineEdit
import ContentOps.Lifecycle.Promotion

/-! `disable` and `enable`, `lifecycle_support.py`: the status line and the marker at the end of the
file. -/

namespace ContentOps.Lifecycle
open PyData

/-- What a mutation of a rule's file comes to: an error, nothing, or a new text. -/
inductive Mutation where
  | refused
  | unchanged
  | written (text : Text)
  deriving DecidableEq

/-! ## The patterns -/

/-- `[ \t]*".*"[ \t]*`, on the rest of a line. -/
def isQuotedTail (t : Text) : Bool :=
  match t.dropWhile isBlankChar with
  | '"' :: body => (body.rdropWhile isBlankChar).getLast? = some '"'
  | _ => false

/-- `_DISABLE_REASON_LINE_RE`, on a line. -/
def isDisableReasonLine (line : Text) : Bool :=
  (afterText? "disableReason:".toList line).any isQuotedTail

/-- The zeros of the decimal digits that `\d` matches; nine more follow each. -/
def decimalZeros : List Nat :=
  [0x30, 0x660, 0x6F0, 0x7C0, 0x966, 0x9E6, 0xA66, 0xAE6, 0xB66, 0xBE6, 0xC66, 0xCE6, 0xD66, 0xDE6,
    0xE50, 0xED0, 0xF20, 0x1040, 0x1090, 0x17E0, 0x1810, 0x1946, 0x19D0, 0x1A80, 0x1A90, 0x1B50,
    0x1BB0, 0x1C40, 0x1C50, 0xA620, 0xA8D0, 0xA900, 0xA9D0, 0xA9F0, 0xAA50, 0xABF0, 0xFF10, 0x104A0,
    0x10D30, 0x11066, 0x110F0, 0x11136, 0x111D0, 0x112F0, 0x11450, 0x114D0, 0x11650, 0x116C0,
    0x11730, 0x118E0, 0x11950, 0x11C50, 0x11D50, 0x11DA0, 0x11F50, 0x16A60, 0x16AC0, 0x16B50,
    0x1D7CE, 0x1D7D8, 0x1D7E2, 0x1D7EC, 0x1D7F6, 0x1E140, 0x1E2F0, 0x1E4D0, 0x1E950, 0x1FBF0]

def isDecimal (c : Char) : Bool := decimalZeros.any fun z => z ≤ c.toNat && c.toNat < z + 10

/-- `\d{4}-\d{2}-\d{2}[ \t]*`, on the rest of a line. -/
def isDateTail : Text → Bool
  | a :: b :: c :: d :: '-' :: e :: f :: '-' :: g :: h :: rest =>
    [a, b, c, d, e, f, g, h].all isDecimal && rest.all isBlankChar
  | _ => false

def disabledBy : Text := "# disabled by contentops disable on ".toList

/-- `_DISABLE_COMMENT_LINE_RE`, on a line. -/
def isDisableComment (line : Text) : Bool := (afterText? disabledBy line).any isDateTail

/-! ## The commands -/

/-- What PyYAML writes for a text in double quotes: its escaped characters on one line, or, where it
folds it, on several, with a backslash at the end of each but the last. -/
structure Emitter where
  quoted : Text → Text × List Text
  oneLine : ∀ r, ∀ t ∈ (quoted r).1 :: (quoted r).2, '\n' ∉ t

/-- The last line of a folded text has the closing quote. -/
def closeQuote : List Text → List Text
  | [] => []
  | [t] => [t ++ ['"']]
  | t :: more => (t ++ ['\\']) :: closeQuote more

/-- The lines of `yaml.safe_dump(reason, default_style='"').strip()`. -/
def Emitter.lines (yaml : Emitter) (r : Text) : List Text :=
  closeQuote (('"' :: (yaml.quoted r).1) :: (yaml.quoted r).2)

/-- The emitter leaves the text on one line. -/
def Emitter.KeepsLine (yaml : Emitter) (r : Text) : Prop := (yaml.quoted r).2 = []

def prependFirst (start : Text) : List Text → List Text
  | [] => []
  | line :: more => (start ++ line) :: more

def disableMarker (yaml : Emitter) (today : Date) (reason : Option Text) : List Text :=
  match reason.filter (· ≠ []) with
  | some r => prependFirst "disableReason: ".toList (yaml.lines r)
  | none => [disabledBy ++ today.isoText]

/-- The first match of `_STATUS_LINE_RE`. -/
def statusLine? (text : Text) : Option Text := (text.splitOn '\n').find? isStatusLine

def setStatus (status : String) (text : Text) : Text :=
  (editLine (fun line => if isStatusLine line then some ("status: " ++ status).toList else none)
    text).getD text

/-- `_disable_one`, on the text of the file. -/
def disableOne (yaml : Emitter) (today : Date) (reason : Option Text) (text : Text) : Mutation :=
  match statusLine? text with
  | none => .refused
  | some line =>
    if Text.strip line = "status: deprecated".toList then .unchanged
    else .written (Text.ensureNewline (setStatus "deprecated" text) ++
      Text.ofLines (disableMarker yaml today reason) true)

/-- `_ENABLE_TARGETS`. -/
inductive EnableTarget where
  | experimental
  | production
  | test
  deriving DecidableEq

def EnableTarget.name : EnableTarget → String
  | .experimental => "experimental"
  | .production => "production"
  | .test => "test"

def enableMarker (today : Date) (reason : Option Text) : Text :=
  match reason.filter (· ≠ []) with
  | some r =>
    "enableReason: \"".toList ++ r.flatMap (fun c => if c = '"' then ['\\', '"'] else [c]) ++
      "\"\n".toList
  | none => "# re-enabled by contentops enable on ".toList ++ today.isoText ++ ['\n']

/-- The text without the markers of `disable`. -/
def stripMarkers (text : Text) : Text :=
  let text := (Text.subLine isDisableReasonLine [] text).getD text
  (Text.subLine isDisableComment [] text).getD text

/-- `_enable_one`, on the text of the file. -/
def enableOne (today : Date) (promoter : Text) (toStatus : EnableTarget) (reason : Option Text)
    (text : Text) : Mutation :=
  match statusLine? text with
  | none => .refused
  | some line =>
    if Text.strip line ≠ "status: deprecated".toList then .unchanged
    else
      let newText := Text.ensureNewline (stripMarkers (setStatus toStatus.name text)) ++
        enableMarker today reason
      .written (if toStatus = .production then stampPromotion newText today.isoText promoter true
        else newText)

end ContentOps.Lifecycle
