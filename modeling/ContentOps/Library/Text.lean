import Mathlib.Data.List.DropRight
import Mathlib.Data.String.Basic
import Mathlib.Tactic.Common

/-! Text as a list of characters: the line, whitespace and digit operations of Python's `str`. -/

namespace PyData

abbrev Text := List Char

/-- `a or b`. -/
def orText (a b : String) : String := if a = "" then b else a

namespace Text

/-- The line boundaries of `str.splitlines`. -/
def isLineBreak (c : Char) : Bool :=
  c ∈ ['\n', '\r', '\x0b', '\x0c', '\x1c', '\x1d', '\x1e', '\x85', '\u2028', '\u2029']

/-- `str.isspace` for one character. -/
def isSpace (c : Char) : Bool :=
  c ∈ [' ', '\t', '\n', '\x0b', '\x0c', '\r', '\x1c', '\x1d', '\x1e', '\x1f', '\x85', '\xa0',
    '\u1680', '\u2000', '\u2001', '\u2002', '\u2003', '\u2004', '\u2005', '\u2006', '\u2007',
    '\u2008', '\u2009', '\u200a', '\u2028', '\u2029', '\u202f', '\u205f', '\u3000']

def consLine (c : Char) : List Text → List Text
  | [] => [[c]]
  | l :: ls => (c :: l) :: ls

/-- `str.splitlines`: no line follows a final line break. -/
def splitlines : Text → List Text
  | [] => []
  | '\r' :: '\n' :: cs => [] :: splitlines cs
  | c :: cs => if isLineBreak c then [] :: splitlines cs else consLine c (splitlines cs)

def lstrip (t : Text) : Text := t.dropWhile isSpace
def rstrip (t : Text) : Text := t.rdropWhile isSpace
def strip (t : Text) : Text := rstrip (lstrip t)

/-- `not line.strip()`. -/
def isBlank (t : Text) : Bool := t.all isSpace

theorem strip_eq_nil_iff (t : Text) : strip t = [] ↔ isBlank t = true := by
  simp only [strip, rstrip, lstrip, List.rdropWhile_eq_nil_iff, isBlank, List.all_eq_true]
  constructor
  · intro h c hc
    by_contra hs
    have hne : t.dropWhile isSpace ≠ [] := fun e => hs (List.dropWhile_eq_nil_iff.mp e c hc)
    have hhead := List.head_dropWhile_not isSpace hne
    have hall := h _ (List.head_mem hne)
    rw [hhead] at hall
    exact Bool.noConfusion hall
  · intro h c hc
    exact h c (List.dropWhile_sublist isSpace |>.subset hc)

theorem strip_eq_self {a b : Char} (ha : isSpace a = false) (hb : isSpace b = false) (mid : Text) :
    strip (a :: mid ++ [b]) = a :: mid ++ [b] := by
  unfold strip lstrip rstrip
  rw [List.cons_append, List.dropWhile_cons_of_neg (by simp [ha]), ← List.cons_append]
  exact List.rdropWhile_concat_neg _ _ _ (by simp [hb])

theorem strip_eq_self_of_forall {t : Text} (h : ∀ c ∈ t, isSpace c = false) : strip t = t := by
  have hleft : t.dropWhile isSpace = t := List.dropWhile_eq_self_iff.mpr fun hl => by
    simp [h _ (List.getElem_mem hl)]
  unfold strip lstrip rstrip
  rw [hleft, List.rdropWhile_eq_self_iff]
  intro hne
  simp [h _ (List.getLast_mem hne)]

theorem isSpace_eq_false_of_isDigit {c : Char} (h : c.isDigit = true) : isSpace c = false := by
  by_contra hspace
  have hmem := of_decide_eq_true (Bool.eq_true_of_not_eq_false hspace)
  have hnot := List.all_eq_true.mp (by decide : List.all _ (fun d => !d.isDigit) = true) c hmem
  rw [h] at hnot
  exact absurd hnot (by decide)

/-- One line of text: nothing `splitlines` would cut at. -/
def IsLine (t : Text) : Prop := ∀ c ∈ t, isLineBreak c = false

instance (t : Text) : Decidable (IsLine t) :=
  List.decidableBAll (fun c => isLineBreak c = false) t

theorem splitlines_cons_of_not_break {c : Char} (h : isLineBreak c = false) (cs : Text) :
    splitlines (c :: cs) = consLine c (splitlines cs) := by
  rw [splitlines]
  · simp [h]
  · rintro cs' rfl
    exact absurd h (by decide)

theorem splitlines_newline (cs : Text) : splitlines ('\n' :: cs) = [] :: splitlines cs := by
  rw [splitlines]
  · rfl
  · rintro cs' h
    exact absurd h (by decide)

theorem splitlines_line_append {l : Text} (h : IsLine l) (cs : Text) :
    splitlines (l ++ '\n' :: cs) = l :: splitlines cs := by
  induction l with
  | nil => exact splitlines_newline cs
  | cons c l ih =>
    rw [List.cons_append, splitlines_cons_of_not_break (h c (List.mem_cons_self ..)),
      ih fun c hc => h c (List.mem_cons_of_mem _ hc)]
    rfl

/-- The text whose lines are `ls`, each ended by a newline. -/
def unlines (ls : List Text) : Text := ls.flatMap (· ++ ['\n'])

@[simp] theorem unlines_nil : unlines [] = [] := rfl

@[simp] theorem unlines_append (ls ms : List Text) : unlines (ls ++ ms) = unlines ls ++ unlines ms :=
  List.flatMap_append

theorem splitlines_unlines {ls : List Text} (h : ∀ l ∈ ls, IsLine l) :
    splitlines (unlines ls) = ls := by
  induction ls with
  | nil => rfl
  | cons l ls ih =>
    have hl := h l (List.mem_cons_self ..)
    have hls := ih fun m hm => h m (List.mem_cons_of_mem _ hm)
    rw [show unlines (l :: ls) = l ++ '\n' :: unlines ls by simp [unlines],
      splitlines_line_append hl, hls]

theorem splitOn_unlines {ls : List Text} (h : ∀ l ∈ ls, '\n' ∉ l) :
    (unlines ls).splitOn '\n' = ls ++ [[]] := by
  induction ls with
  | nil => rfl
  | cons l ls ih =>
    have hcons : unlines (l :: ls) = l ++ '\n' :: unlines ls := by simp [unlines]
    rw [hcons, List.splitOn_append_cons_self_of_not_mem (h l List.mem_cons_self),
      ih fun m hm => h m (List.mem_cons_of_mem _ hm)]
    rfl

end Text
end PyData
