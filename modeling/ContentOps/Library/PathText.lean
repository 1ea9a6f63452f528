import ContentOps.Library.Text

/-! Paths in their text form: their parts with a slash between them, read back from a directory, and
in the quotes that a tool puts around the ones with unusual characters. -/

namespace PyData

/-- A part that is a name of its own, neither empty nor a step to the same or the parent directory. -/
def IsName (name : String) : Prop := name ≠ "" ∧ name ≠ "." ∧ name ≠ ".." ∧ '/' ∉ name.toList

instance : DecidablePred IsName := fun name =>
  inferInstanceAs (Decidable (name ≠ "" ∧ name ≠ "." ∧ name ≠ ".." ∧ '/' ∉ name.toList))

def slashed (p : List String) : Text := ['/'].intercalate (p.map String.toList)

/-- One part of a path's text, seen from a directory. -/
def enter (p : List String) (part : Text) : List String :=
  if part = [] ∨ part = ['.'] then p
  else if part = ['.', '.'] then p.dropLast
  else p ++ [String.ofList part]

/-- `(cwd / text).resolve()`, without symbolic links. -/
def resolveFrom (cwd : List String) (t : Text) : List String :=
  (t.splitOn '/').foldl enter (if t.head? = some '/' then [] else cwd)

theorem enter_name {name : String} (h : IsName name) (p : List String) :
    enter p name.toList = p ++ [name] := by
  obtain ⟨hempty, hdot, hdots, -⟩ := h
  have hne : ∀ other : String, name ≠ other → name.toList ≠ other.toList := fun other hother heq =>
    hother (String.toList_inj.mp heq)
  have hstay : ¬ (name.toList = [] ∨ name.toList = ['.']) :=
    not_or.mpr ⟨hne "" hempty, hne "." hdot⟩
  have hup : name.toList ≠ ['.', '.'] := hne ".." hdots
  rw [enter, if_neg hstay, if_neg hup, String.ofList_toList]

theorem foldl_enter_names {names : List String} (h : ∀ name ∈ names, IsName name)
    (p : List String) : (names.map String.toList).foldl enter p = p ++ names := by
  induction names generalizing p with
  | nil => simp
  | cons name names ih =>
    rw [List.map_cons, List.foldl_cons, enter_name (h name List.mem_cons_self),
      ih fun n hn => h n (List.mem_cons_of_mem _ hn), List.append_assoc]
    rfl

theorem splitOn_slashed {names : List String} (h : ∀ name ∈ names, IsName name) (hne : names ≠ []) :
    (slashed names).splitOn '/' = names.map String.toList := by
  refine List.splitOn_intercalate '/' ?_ (by simpa using hne)
  intro part hpart
  obtain ⟨name, hname, rfl⟩ := List.mem_map.mp hpart
  exact (h name hname).2.2.2

/-- A path read from a directory below which it is. -/
theorem resolveFrom_slashed {names : List String} (h : ∀ name ∈ names, IsName name)
    (cwd : List String) : resolveFrom cwd (slashed names) = cwd ++ names := by
  cases names with
  | nil => simp [resolveFrom, slashed, enter]
  | cons name names =>
    obtain ⟨hempty, -, -, hslash⟩ := h name List.mem_cons_self
    have hhead : (slashed (name :: names)).head? ≠ some '/' := by
      obtain ⟨c, cs, hcs⟩ := List.exists_cons_of_ne_nil fun hnil =>
        hempty (String.toList_inj.mp (hnil.trans String.toList_empty.symm))
      have hc : c ≠ '/' := fun heq => hslash (by rw [hcs, heq]; exact List.mem_cons_self)
      cases names <;> simpa [slashed, List.intercalate, hcs] using hc
    rw [resolveFrom, if_neg hhead, splitOn_slashed h (by simp), foldl_enter_names h]

/-- A text that ends with a character that does not separate parts has it at the end of its last. -/
theorem splitOn_concat {sep c : Char} (hc : c ≠ sep) (t : Text) :
    ∃ before last, (t ++ [c]).splitOn sep = before ++ [last ++ [c]] := by
  induction t with
  | nil => exact ⟨[], [], List.splitOn_eq_singleton (by simpa using hc.symm)⟩
  | cons x t ih =>
    obtain ⟨before, last, heq⟩ := ih
    rw [List.cons_append, List.splitOn_cons_eq_if_modifyHead, heq]
    split_ifs with hx
    · exact ⟨[] :: before, last, rfl⟩
    · cases before with
      | nil => exact ⟨[], x :: last, rfl⟩
      | cons part before => exact ⟨(x :: part) :: before, last, rfl⟩

/-- Such a path has a last part that ends with the character. -/
theorem getLast?_resolveFrom_concat {c : Char} (hslash : c ≠ '/') (hdot : c ≠ '.') (cwd : List String)
    (t : Text) : ∃ last : Text,
      (resolveFrom cwd (t ++ [c])).getLast? = some (String.ofList (last ++ [c])) := by
  obtain ⟨before, last, hsplit⟩ := splitOn_concat hslash t
  refine ⟨last, ?_⟩
  have hlast : ∀ p, enter p (last ++ [c]) = p ++ [String.ofList (last ++ [c])] := by
    intro p
    have hdots : ∀ before, last ++ [c] ≠ before ++ ['.'] := fun before heq =>
      hdot (List.cons.inj (List.append_inj_right' heq rfl)).1
    have hstay : ¬ (last ++ [c] = [] ∨ last ++ [c] = ['.']) := not_or.mpr ⟨by simp, hdots []⟩
    have hup : last ++ [c] ≠ ['.', '.'] := hdots ['.']
    rw [enter, if_neg hstay, if_neg hup]
  rw [resolveFrom, hsplit, List.foldl_append, List.foldl_cons, List.foldl_nil, hlast]
  simp

/-! ## Quotes -/

def isUnusual (c : Char) : Bool := c.toNat < 0x20 || 0x7f ≤ c.toNat || c = '"' || c = '\\'

def octal (n : Nat) : Text := '\\' :: [n / 64 % 8, n / 8 % 8, n % 8].map Nat.digitChar

def quoteChar (c : Char) : Text :=
  match c with
  | '\x07' => ['\\', 'a']
  | '\x08' => ['\\', 'b']
  | '\t' => ['\\', 't']
  | '\n' => ['\\', 'n']
  | '\x0b' => ['\\', 'v']
  | '\x0c' => ['\\', 'f']
  | '\r' => ['\\', 'r']
  | '"' => ['\\', '"']
  | '\\' => ['\\', '\\']
  | c => if isUnusual c then (String.utf8EncodeChar c).flatMap fun b => octal b.toNat else [c]

/-- A path as git prints it. -/
def quotePath (t : Text) : Text := if t.any isUnusual then '"' :: t.flatMap quoteChar ++ ['"'] else t

def isPrintable (c : Char) : Bool := 0x20 ≤ c.toNat && c.toNat < 0x7f

theorem isPrintable_of_not_isUnusual {c : Char} (h : isUnusual c = false) : isPrintable c = true := by
  simp only [isUnusual, Bool.or_eq_false_iff, decide_eq_false_iff_not] at h
  simp only [isPrintable, Bool.and_eq_true, decide_eq_true_eq]
  omega

theorem isPrintable_digitChar {n : Nat} (h : n < 10) : isPrintable n.digitChar = true :=
  (by decide : ∀ n < 10, isPrintable n.digitChar = true) n h

theorem isPrintable_octal {n : Nat} {c : Char} (h : c ∈ octal n) : isPrintable c = true := by
  have hdigit : ∀ k, isPrintable (Nat.digitChar (k % 8)) = true := fun k =>
    isPrintable_digitChar ((Nat.mod_lt k (by decide)).trans (by decide))
  simp only [octal, List.map_cons, List.map_nil, List.mem_cons, List.not_mem_nil, or_false] at h
  rcases h with rfl | rfl | rfl | rfl
  · decide
  · exact hdigit _
  · exact hdigit _
  · exact hdigit _

theorem isPrintable_quoteChar {d c : Char} (h : c ∈ quoteChar d) : isPrintable c = true := by
  unfold quoteChar at h
  split at h
  iterate 9 exact List.all_eq_true.mp (by decide : List.all _ isPrintable = true) c h
  next d _ _ _ _ _ _ _ _ _ =>
    split_ifs at h with hd
    · obtain ⟨b, -, hb⟩ := List.mem_flatMap.mp h
      exact isPrintable_octal hb
    · obtain rfl := List.mem_singleton.mp h
      exact isPrintable_of_not_isUnusual (Bool.eq_false_iff.mpr hd)

/-- Git prints no control characters. -/
theorem isPrintable_quotePath {t : Text} {c : Char} (h : c ∈ quotePath t) : isPrintable c = true := by
  unfold quotePath at h
  split_ifs at h with ht
  · simp only [List.cons_append, List.mem_cons, List.mem_append, List.mem_flatMap, List.not_mem_nil,
      or_false] at h
    rcases h with rfl | ⟨d, -, hd⟩ | rfl
    · decide
    · exact isPrintable_quoteChar hd
    · decide
  · refine isPrintable_of_not_isUnusual (Bool.eq_false_iff.mpr fun hc => ht ?_)
    exact List.any_eq_true.mpr ⟨c, h, hc⟩

theorem isLine_of_isPrintable {t : Text} (h : ∀ c ∈ t, isPrintable c = true) : Text.IsLine t := by
  intro c hc
  refine Bool.eq_false_iff.mpr fun hbreak => ?_
  have hnot := List.all_eq_true.mp (by decide : List.all _ (fun d => !isPrintable d) = true) c
    (of_decide_eq_true hbreak)
  rw [h c hc] at hnot
  exact absurd hnot (by decide)

/-- A path takes one line. -/
theorem isLine_quotePath (t : Text) : Text.IsLine (quotePath t) :=
  isLine_of_isPrintable fun _ => isPrintable_quotePath

theorem tab_notMem_quotePath (t : Text) : '\t' ∉ quotePath t := fun h =>
  absurd (isPrintable_quotePath h) (by decide)

theorem quotePath_of_not {t : Text} (h : t.any isUnusual = false) : quotePath t = t := by
  rw [quotePath, h]
  rfl

theorem quotePath_of {t : Text} (h : t.any isUnusual = true) :
    quotePath t = '"' :: t.flatMap quoteChar ++ ['"'] := by
  rw [quotePath, if_pos h]

/-- What is read from a path in quotes has a last part that ends with the quote. -/
theorem getLast?_resolveFrom_quotePath {t : Text} (h : t.any isUnusual = true) (cwd : List String) :
    ∃ last : Text, (resolveFrom cwd (Text.strip (quotePath t))).getLast? =
      some (String.ofList (last ++ ['"'])) := by
  rw [quotePath_of h, Text.strip_eq_self (by decide) (by decide)]
  exact getLast?_resolveFrom_concat (by decide) (by decide) cwd _

end PyData
