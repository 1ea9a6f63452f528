import ContentOps.Library.Substitution
import Mathlib.Data.List.Forall2

/-! Tenant identifiers taken out of the status page, `status/redact.py`: three substitutions one
after the other. -/

namespace ContentOps.Redact
open PyData

/-! ## Patterns -/

def hexDigits : Text := "0123456789abcdefABCDEF".toList

def isHex (c : Char) : Bool := c ∈ hexDigits

/-- The characters that `\w` matches: a hexadecimal digit is one of them, and the characters that an
identifier may stand beside are not. -/
structure WordChars where
  isWord : Char → Bool
  hex : ∀ c, isHex c = true → isWord c = true
  mark : ∀ c ∈ ['.', '…', '>'], isWord c = false

/-- The text begins with characters of these classes. -/
def fits : List (Char → Bool) → Text → Bool
  | [], _ => true
  | _ :: _, [] => false
  | f :: fs, c :: cs => f c && fits fs cs

def hexRun (n : ℕ) : List (Char → Bool) := List.replicate n isHex

def dash (c : Char) : Bool := c = '-'

/-- `[0-9a-f]{8}-[0-9a-f]{4}-[0-9a-f]{4}-[0-9a-f]{4}-[0-9a-f]{12}`. -/
def guidShape : List (Char → Bool) :=
  hexRun 8 ++ [dash] ++ hexRun 4 ++ [dash] ++ hexRun 4 ++ [dash] ++ hexRun 4 ++ [dash] ++ hexRun 12

section
variable (w : WordChars)

/-- `_GUID_RE`; both ends of the shape are word characters. -/
def guidMatch : Matcher := fun prev t =>
  if prev.any w.isWord = false ∧ fits guidShape t = true ∧
    (t.drop 36).head?.any w.isWord = false then some 36 else none

/-- `(?:\.{3,}|…)`. -/
def cutLength (t : Text) : Option ℕ :=
  if t.head? = some '…' then some 1
  else
    let dots := (t.takeWhile (· = '.')).length
    if 3 ≤ dots then some dots else none

/-- `_GUID_TRUNCATED_RE`. -/
def truncatedMatch : Matcher := fun prev t =>
  if prev.any w.isWord = false ∧ fits (hexRun 8) t = true then
    (cutLength (t.drop 8)).map (8 + ·)
  else none

/-- Whether a character matches a small letter or a sign of a pattern, with `re.IGNORECASE`. -/
def foldsTo (l c : Char) : Bool :=
  if l.isLower then
    c.toLower = l || (l = 's' && c = 'ſ') || (l = 'i' && (c = 'ı' || c = 'İ'))
  else c = l

def subscriptions : Text := "/subscriptions/".toList
def resourceGroups : Text := "/resourcegroups/".toList
def providers : Text := "/providers/".toList

/-- `[^/\s]`. -/
def isNameChar (c : Char) : Bool := c ≠ '/' && !Text.isSpace c

/-- `[^\s\)\]]`. -/
def isTailChar (c : Char) : Bool := !Text.isSpace c && c ≠ ')' && c ≠ ']'

def afterLiteral (literal t : Text) : Option Text :=
  if fits (literal.map foldsTo) t then some (t.drop literal.length) else none

def afterName (t : Text) : Option Text :=
  if t.takeWhile isNameChar = [] then none else some (t.dropWhile isNameChar)

/-- What follows `/subscriptions/<id>/resourceGroups/<name>/providers/`. -/
def afterPath (t : Text) : Option Text := do
  let t ← afterLiteral subscriptions t
  let t ← afterName t
  let t ← afterLiteral resourceGroups t
  let t ← afterName t
  afterLiteral providers t

/-- `_RESOURCE_PATH_RE`. -/
def resourcePathMatch : Matcher := fun _ t =>
  (afterPath t).map fun rest => t.length - (rest.dropWhile isTailChar).length

def guidToken : Text := "<redacted-guid>".toList
def truncatedToken : Text := "<redacted>".toList
def resourcePathToken : Text := "<redacted-resource-path>".toList

/-- The text with its resource paths taken out. -/
def withoutPaths (t : Text) : Text := substitute resourcePathMatch resourcePathToken none 0 t

/-- `redact`. -/
def redact (t : Text) : Text :=
  let out := withoutPaths t
  let out := substitute (guidMatch w) guidToken none 0 out
  substitute (truncatedMatch w) truncatedToken none 0 out

/-! ## Identifiers in a text -/

/-- The text has these characters in this order. -/
def IsShape (shape : List (Char → Bool)) (x : Text) : Prop :=
  List.Forall₂ (fun f c => f c = true) shape x

def NoHexEnd (before : Text) : Prop := ∀ c ∈ before.getLast?, isHex c = false

def NoHexStart (after : Text) : Prop := ∀ c ∈ after.head?, isHex c = false

/-- Three dots or an ellipsis. -/
def IsCut (after : Text) : Prop := ['.', '.', '.'] <+: after ∨ ['…'] <+: after

/-- The text shows a whole identifier between these two parts. -/
def ShowsGuid (t before after : Text) : Prop :=
  ∃ g, t = before ++ (g ++ after) ∧ IsShape guidShape g ∧ NoHexEnd before ∧ NoHexStart after

/-- The text shows the beginning of an identifier between these two parts. -/
def ShowsTruncated (t before after : Text) : Prop :=
  ∃ h, t = before ++ (h ++ after) ∧ IsShape (hexRun 8) h ∧ NoHexEnd before ∧ IsCut after

def ShowsPath (t : Text) : Prop := ∃ before after, t = before ++ after ∧ (afterPath after).isSome

/-! ## Shapes -/

theorem fits_of_isShape {shape : List (Char → Bool)} {x : Text} (h : IsShape shape x)
    (rest : Text) :
    fits shape (x ++ rest) = true := by
  induction h with
  | nil => rfl
  | cons hc _ ih => exact (Bool.and_eq_true _ _).mpr ⟨hc, ih⟩

theorem isShape_of_fits {shape : List (Char → Bool)} {t : Text} (h : fits shape t = true) :
    IsShape shape (t.take shape.length) := by
  induction shape generalizing t with
  | nil => exact .nil
  | cons f shape ih =>
    cases t with
    | nil => exact absurd h nofun
    | cons c cs =>
      obtain ⟨hc, hcs⟩ := (Bool.and_eq_true _ _).mp h
      exact .cons hc (ih hcs)

theorem IsShape.length {shape : List (Char → Bool)} {x : Text} (h : IsShape shape x) :
    x.length = shape.length := (List.Forall₂.length_eq h).symm

theorem length_of_fits {shape : List (Char → Bool)} {t : Text} (h : fits shape t = true) :
    shape.length ≤ t.length := by
  have hlength := (isShape_of_fits h).length
  rw [List.length_take] at hlength
  omega

theorem IsShape.forall {shape : List (Char → Bool)} {x : Text} {P : Char → Prop}
    (h : IsShape shape x) (hP : ∀ f ∈ shape, ∀ c, f c = true → P c) : ∀ c ∈ x, P c := by
  induction h with
  | nil => exact fun c hc => absurd hc List.not_mem_nil
  | cons hc _ ih =>
    refine List.forall_mem_cons.mpr ⟨hP _ List.mem_cons_self _ hc, ih fun f hf => ?_⟩
    exact hP f (List.mem_cons_of_mem _ hf)

theorem IsShape.append_left {s s' : List (Char → Bool)} {x : Text} (h : IsShape (s ++ s') x) :
    IsShape s (x.take s.length) := by
  have htake := List.forall₂_take s.length h
  rwa [List.take_left] at htake

theorem guidShape_chars {g : Text} (h : IsShape guidShape g) :
    ∀ c ∈ g, isHex c = true ∨ c = '-' := by
  refine h.forall fun f hf c hc => ?_
  have hmem : f = isHex ∨ f = dash := by
    simp only [guidShape, hexRun, List.mem_append, List.mem_replicate, List.mem_singleton] at hf
    tauto
  rcases hmem with rfl | rfl
  · exact Or.inl hc
  · exact Or.inr (of_decide_eq_true hc)

theorem hexRun_chars {n : ℕ} {h : Text} (hshape : IsShape (hexRun n) h) :
    ∀ c ∈ h, isHex c = true :=
  hshape.forall fun f hf c hc => by
    rw [hexRun, List.mem_replicate] at hf
    exact hf.2 ▸ hc

end

end ContentOps.Redact
