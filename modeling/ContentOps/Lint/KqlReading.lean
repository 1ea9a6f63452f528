import ContentOps.Lint.Kql

/-! What the scanner of a KQL query blanks is exactly its strings and comments, and the bracket
check decides whether the rest is balanced. -/

namespace ContentOps.Kql
open PyData

/-! ## Reading a query -/

/-- The text between the quotes of a regular string: a backslash goes with the character after it.
-/
inductive Regular (quote : Char) : Text → Prop
  | nil : Regular quote []
  | plain {c : Char} {t : Text} : c ≠ quote → c ≠ '\\' → Regular quote t → Regular quote (c :: t)
  | escape (c : Char) {t : Text} : Regular quote t → Regular quote ('\\' :: c :: t)

/-- The text between the quotes of a verbatim string: a quote stands there twice. -/
inductive Verbatim (quote : Char) : Text → Prop
  | nil : Verbatim quote []
  | plain {c : Char} {t : Text} : c ≠ quote → Verbatim quote t → Verbatim quote (c :: t)
  | doubled {t : Text} : Verbatim quote t → Verbatim quote (quote :: quote :: t)

inductive Piece where
  | code (c : Char)
  | hidden (t : Text)

def Piece.text : Piece → Text
  | .code c => [c]
  | .hidden t => t

def Piece.blanked : Piece → Text
  | .code c => [c]
  | .hidden t => t.map blank

def Piece.outside : Piece → Text
  | .code c => [c]
  | .hidden _ => []

/-- No string and no comment starts here. -/
structure IsCode (c : Char) (rest : Text) : Prop where
  quote : isQuote c = false
  comment : ¬ (c = '/' ∧ rest.head? = some '/')
  verbatim : ¬ (c = '@' ∧ rest.head?.any isQuote)

/-- How a query is read from its start: code, comments up to the end of their line, and strings up
to their closing quote, where they have one. -/
inductive Reads : Text → List Piece → Prop
  | nil : Reads [] []
  | code {c : Char} {rest : Text} {ps : List Piece} : IsCode c rest → Reads rest ps →
      Reads (c :: rest) (.code c :: ps)
  | comment {body rest : Text} {ps : List Piece} : '\n' ∉ body → rest.head?.all (· = '\n') →
      Reads rest ps → Reads ('/' :: '/' :: body ++ rest) (.hidden ('/' :: '/' :: body) :: ps)
  | regular {q : Char} {body rest : Text} {ps : List Piece} : isQuote q → Regular q body →
      Reads rest ps → Reads (q :: body ++ q :: rest) (.hidden (q :: body ++ [q]) :: ps)
  | regularOpen {q : Char} {body : Text} : isQuote q → Regular q body →
      Reads (q :: body) [.hidden (q :: body)]
  | regularCut {q : Char} {body : Text} : isQuote q → Regular q body →
      Reads (q :: body ++ ['\\']) [.hidden (q :: body ++ ['\\'])]
  | verbatim {q : Char} {body rest : Text} {ps : List Piece} : isQuote q → Verbatim q body →
      rest.head? ≠ some q → Reads rest ps →
      Reads ('@' :: q :: body ++ q :: rest) (.hidden ('@' :: q :: body ++ [q]) :: ps)
  | verbatimOpen {q : Char} {body : Text} : isQuote q → Verbatim q body →
      Reads ('@' :: q :: body) [.hidden ('@' :: q :: body)]

theorem Reads.text_eq {query : Text} {ps : List Piece} (h : Reads query ps) :
    ps.flatMap Piece.text = query := by
  induction h <;> simp_all [Piece.text]

/-! ## Rounds of the scanner -/

theorem scan_one {mode mode' : Mode} {c a : Char} {rest : Text}
    (h : scanStep mode c rest.head? = ([a], mode')) :
    scan mode (c :: rest) = emit [a] (scan mode' rest) := by
  conv_lhs => unfold scan
  rw [h]

theorem scan_two {mode mode' : Mode} {c d a b : Char} {rest : Text}
    (h : scanStep mode c (some d) = ([a, b], mode')) :
    scan mode (c :: d :: rest) = emit [a, b] (scan mode' rest) := by
  conv_lhs => unfold scan
  rw [List.head?_cons, h]

theorem emit_emit (a b : Text) (r : Text × Bool) : emit a (emit b r) = emit (a ++ b) r := by
  unfold emit
  rw [List.append_assoc]

theorem blank_of_ne {c : Char} (h : c ≠ '\n') : blank c = ' ' := if_neg h

theorem blank_quote {q : Char} (h : isQuote q = true) : blank q = ' ' := by
  apply blank_of_ne
  rintro rfl
  exact absurd h (by decide)

theorem blank_backslash : blank '\\' = ' ' := rfl

theorem blank_at : blank '@' = ' ' := rfl

theorem quote_ne_backslash {q : Char} (h : isQuote q = true) : q ≠ '\\' := by
  rintro rfl
  exact absurd h (by decide)

theorem scan_comment {body : Text} (h : '\n' ∉ body) (rest : Text) :
    scan .comment (body ++ rest) = emit (body.map blank) (scan .comment rest) := by
  induction body with
  | nil => rfl
  | cons c body ih =>
    obtain ⟨hc, hbody⟩ := not_or.mp (mt List.mem_cons.mpr h)
    have hstep : scanStep .comment c (body ++ rest).head? = ([blank c], .comment) := by
      unfold scanStep
      dsimp only
      rw [if_neg (Ne.symm hc), blank_of_ne (Ne.symm hc)]
    rw [List.cons_append, scan_one hstep, ih hbody, emit_emit]
    rfl

/-- A comment ends with its line. -/
theorem scan_comment_end {rest : Text} (h : rest.head?.all (· = '\n') = true) :
    scan .comment rest = scan .code rest := by
  cases rest with
  | nil => rfl
  | cons c rest =>
    obtain rfl : c = '\n' := by simpa using h
    have hcomment : scanStep .comment '\n' rest.head? = (['\n'], .code) := rfl
    have hcode : scanStep .code '\n' rest.head? = (['\n'], .code) := rfl
    rw [scan_one hcomment, scan_one hcode]

theorem scan_regular {q : Char} {body : Text} (h : Regular q body) (rest : Text) :
    scan (.inStr q) (body ++ rest) = emit (body.map blank) (scan (.inStr q) rest) := by
  induction h with
  | nil => rfl
  | @plain c t hc hslash _ ih =>
    have hstep : scanStep (.inStr q) c (t ++ rest).head? = ([blank c], .inStr q) := by
      unfold scanStep
      dsimp only
      rw [if_neg hslash]
      exact if_neg hc
    rw [List.cons_append, scan_one hstep, ih, emit_emit]
    rfl
  | @escape c t _ ih =>
    have hstep : scanStep (.inStr q) '\\' (some c) = ([' ', blank c], .inStr q) := rfl
    rw [List.cons_append, List.cons_append, scan_two hstep, ih, emit_emit]
    rfl

theorem scan_verbatim {q : Char} (hq : isQuote q = true) {body : Text} (h : Verbatim q body)
    (rest : Text) :
    scan (.inVerbatim q) (body ++ rest) = emit (body.map blank) (scan (.inVerbatim q) rest) := by
  induction h with
  | nil => rfl
  | @plain c t hc _ ih =>
    have hstep : scanStep (.inVerbatim q) c (t ++ rest).head? = ([blank c], .inVerbatim q) := by
      unfold scanStep
      dsimp only
      rw [if_neg fun h => hc h.1, if_neg hc]
    rw [List.cons_append, scan_one hstep, ih, emit_emit]
    rfl
  | @doubled t _ ih =>
    have hstep : scanStep (.inVerbatim q) q (some q) = ([' ', ' '], .inVerbatim q) :=
      if_pos ⟨rfl, rfl⟩
    rw [List.cons_append, List.cons_append, scan_two hstep, ih, emit_emit, List.map_cons,
      List.map_cons, blank_quote hq]
    rfl

theorem scan_open_regular {q : Char} (hq : isQuote q = true) (rest : Text) :
    scan .code (q :: rest) = emit [' '] (scan (.inStr q) rest) := by
  apply scan_one
  obtain rfl | rfl : q = '"' ∨ q = '\'' := by simpa [isQuote] using hq
  all_goals rfl

theorem scan_open_verbatim {q : Char} (hq : isQuote q = true) (rest : Text) :
    scan .code ('@' :: q :: rest) = emit [' ', ' '] (scan (.inVerbatim q) rest) := by
  apply scan_two
  obtain rfl | rfl : q = '"' ∨ q = '\'' := by simpa [isQuote] using hq
  all_goals rfl

/-- A quote after the text of a regular string closes it. -/
theorem scan_close_regular {q : Char} (hq : isQuote q = true) (rest : Text) :
    scan (.inStr q) (q :: rest) = emit [' '] (scan .code rest) := by
  apply scan_one
  unfold scanStep
  dsimp only
  rw [if_neg (quote_ne_backslash hq)]
  exact if_pos rfl

theorem scan_close_verbatim {q : Char} {rest : Text} (hrest : rest.head? ≠ some q) :
    scan (.inVerbatim q) (q :: rest) = emit [' '] (scan .code rest) := by
  apply scan_one
  unfold scanStep
  dsimp only
  rw [if_neg fun h => hrest h.2, if_pos rfl]

/-! ## Reading and scanning -/

/-- The scanner leaves what is read as code and blanks the rest. -/
theorem Reads.scan_eq {query : Text} {ps : List Piece} (h : Reads query ps) :
    (stripStringsAndComments query).1 = ps.flatMap Piece.blanked := by
  unfold stripStringsAndComments
  induction h with
  | nil => rfl
  | @code c rest ps hcode _ ih =>
    have hstep : scanStep .code c rest.head? = ([c], .code) := by
      have hverbatim : ∀ q, isQuote q = true → ¬ (c = '@' ∧ rest.head? = some q) := by
        intro q hq hc
        apply hcode.verbatim
        rw [hc.2]
        exact ⟨hc.1, hq⟩
      unfold scanStep
      dsimp only
      rw [if_neg hcode.comment, if_neg (hverbatim '"' rfl), if_neg (hverbatim '\'' rfl), hcode.quote]
      exact if_neg Bool.false_ne_true
    rw [scan_one hstep]
    exact congrArg (c :: ·) ih
  | @comment body rest ps hbody hrest _ ih =>
    have hstep : scanStep .code '/' (some '/') = ([' ', ' '], .comment) := rfl
    rw [List.cons_append, List.cons_append, scan_two hstep, scan_comment hbody,
      scan_comment_end hrest, emit_emit]
    exact congrArg ((' ' :: ' ' :: body.map blank) ++ ·) ih
  | @regular q body rest ps hq hbody _ ih =>
    rw [List.cons_append, scan_open_regular hq, scan_regular hbody, scan_close_regular hq]
    simp [emit, ih, Piece.blanked, blank_quote hq]
  | @regularOpen q body hq hbody =>
    have hend := scan_regular hbody []
    rw [List.append_nil] at hend
    rw [scan_open_regular hq, hend]
    simp [emit, scan, Piece.blanked, blank_quote hq]
  | @regularCut q body hq hbody =>
    have hstep : scanStep (.inStr q) '\\' none = ([' '], .inStr q) :=
      if_neg (quote_ne_backslash hq).symm
    have hcut : scan (.inStr q) ['\\'] = emit [' '] (scan (.inStr q) []) := scan_one hstep
    rw [List.cons_append, scan_open_regular hq, scan_regular hbody, hcut]
    simp [emit, scan, Piece.blanked, blank_quote hq, blank_backslash]
  | @verbatim q body rest ps hq hbody hrest _ ih =>
    rw [List.cons_append, List.cons_append, scan_open_verbatim hq, scan_verbatim hq hbody,
      scan_close_verbatim hrest]
    simp [emit, ih, Piece.blanked, blank_quote hq, blank_at]
  | @verbatimOpen q body hq hbody =>
    have hend := scan_verbatim hq hbody []
    rw [List.append_nil] at hend
    rw [scan_open_verbatim hq, hend]
    simp [emit, scan, Piece.blanked, blank_quote hq, blank_at]

/-- A text runs up to the quote that closes a regular string, or it has none. -/
theorem regular_or_open (q : Char) (t : Text) :
    (∃ body rest, t = body ++ q :: rest ∧ Regular q body) ∨
      Regular q t ∨ ∃ body, t = body ++ ['\\'] ∧ Regular q body := by
  induction t using List.twoStepInduction with
  | nil => exact .inr (.inl .nil)
  | singleton c =>
    by_cases hc : c = q
    · exact .inl ⟨[], [], by rw [hc]; rfl, .nil⟩
    by_cases hslash : c = '\\'
    · exact .inr (.inr ⟨[], by rw [hslash]; rfl, .nil⟩)
    · exact .inr (.inl (.plain hc hslash .nil))
  | cons_cons c d t ih ih' =>
    by_cases hc : c = q
    · exact .inl ⟨[], d :: t, by rw [hc]; rfl, .nil⟩
    by_cases hslash : c = '\\'
    · subst hslash
      obtain ⟨body, rest, rfl, hbody⟩ | hopen | ⟨body, rfl, hbody⟩ := ih
      · exact .inl ⟨_, rest, rfl, .escape d hbody⟩
      · exact .inr (.inl (.escape d hopen))
      · exact .inr (.inr ⟨_, rfl, .escape d hbody⟩)
    · obtain ⟨body, rest, hrest, hbody⟩ | hopen | ⟨body, hrest, hbody⟩ := ih' d
      · exact .inl ⟨c :: body, rest, by rw [hrest]; rfl, .plain hc hslash hbody⟩
      · exact .inr (.inl (.plain hc hslash hopen))
      · exact .inr (.inr ⟨c :: body, by rw [hrest]; rfl, .plain hc hslash hbody⟩)

/-- A text runs up to the quote that closes a verbatim string, or it has none. -/
theorem verbatim_or_open (q : Char) (t : Text) :
    (∃ body rest, t = body ++ q :: rest ∧ Verbatim q body ∧ rest.head? ≠ some q) ∨
      Verbatim q t := by
  induction t using List.twoStepInduction with
  | nil => exact .inr .nil
  | singleton c =>
    by_cases hc : c = q
    · exact .inl ⟨[], [], by rw [hc]; rfl, .nil, by simp⟩
    · exact .inr (.plain hc .nil)
  | cons_cons c d t ih ih' =>
    by_cases hc : c = q
    · subst hc
      by_cases hd : d = c
      · subst hd
        obtain ⟨body, rest, rfl, hbody, hrest⟩ | hopen := ih
        · exact .inl ⟨_, rest, rfl, .doubled hbody, hrest⟩
        · exact .inr (.doubled hopen)
      · exact .inl ⟨[], d :: t, rfl, .nil, by simpa using hd⟩
    · obtain ⟨body, rest, heq, hbody, hrest⟩ | hopen := ih' d
      · exact .inl ⟨c :: body, rest, by rw [heq]; rfl, .plain hc hbody, hrest⟩
      · exact .inr (.plain hc hopen)

theorem line_split (t : Text) :
    ∃ body rest, t = body ++ rest ∧ '\n' ∉ body ∧ rest.head?.all (· = '\n') = true := by
  induction t with
  | nil => exact ⟨[], [], rfl, List.not_mem_nil, rfl⟩
  | cons c t ih =>
    by_cases hc : c = '\n'
    · exact ⟨[], c :: t, rfl, List.not_mem_nil, by simpa using hc⟩
    · obtain ⟨body, rest, rfl, hbody, hrest⟩ := ih
      exact ⟨c :: body, rest, rfl, by simp [Ne.symm hc, hbody], hrest⟩

/-- Every query can be read. -/
theorem exists_reads (query : Text) : ∃ ps, Reads query ps := by
  induction hn : query.length using Nat.strong_induction_on generalizing query with
  | _ n ih =>
    subst hn
    have hshorter : ∀ rest : Text, rest.length < query.length → ∃ ps, Reads rest ps :=
      fun rest hrest => ih rest.length hrest rest rfl
    clear ih
    cases query with
    | nil => exact ⟨[], .nil⟩
    | cons c t =>
      by_cases hquote : isQuote c = true
      · obtain ⟨body, rest, rfl, hbody⟩ | hopen | ⟨body, rfl, hbody⟩ := regular_or_open c t
        · obtain ⟨ps, hps⟩ := hshorter rest (by simp; omega)
          exact ⟨_, .regular hquote hbody hps⟩
        · exact ⟨_, .regularOpen hquote hopen⟩
        · exact ⟨_, .regularCut hquote hbody⟩
      by_cases hcomment : c = '/' ∧ t.head? = some '/'
      · obtain ⟨rfl, hhead⟩ := hcomment
        obtain ⟨t, rfl⟩ := List.head?_eq_some_iff.mp hhead
        -- The comment takes what stands before the next line break.
        obtain ⟨body, rest, rfl, hbody, hrest⟩ := line_split t
        obtain ⟨ps, hps⟩ := hshorter rest (by simp; omega)
        exact ⟨_, .comment hbody hrest hps⟩
      by_cases hverbatim : c = '@' ∧ t.head?.any isQuote = true
      · obtain ⟨rfl, hhead⟩ := hverbatim
        obtain ⟨q, t, rfl⟩ : ∃ q t', t = q :: t' := by
          cases t with
          | nil => cases hhead
          | cons q t => exact ⟨q, t, rfl⟩
        obtain ⟨body, rest, rfl, hbody, hrest⟩ | hopen := verbatim_or_open q t
        · obtain ⟨ps, hps⟩ := hshorter rest (by simp; omega)
          exact ⟨_, .verbatim hhead hbody hrest hps⟩
        · exact ⟨_, .verbatimOpen hhead hopen⟩
      · obtain ⟨ps, hps⟩ := hshorter t (by simp)
        exact ⟨_, .code ⟨by simpa using hquote, hcomment, hverbatim⟩ hps⟩

theorem length_blanked (p : Piece) : p.blanked.length = p.text.length := by
  cases p <;> simp [Piece.blanked, Piece.text]

theorem newlines_blanked (p : Piece) :
    p.blanked.map (· = '\n') = p.text.map (· = '\n') := by
  cases p with
  | code c => rfl
  | hidden t =>
    unfold Piece.blanked Piece.text
    rw [List.map_map]
    apply List.map_congr_left
    intro c _
    unfold blank
    dsimp only [Function.comp]
    split_ifs with hc <;> simp [hc]

/-- Line breaks stay where they are. -/
theorem newlines_strip (query : Text) :
    (stripStringsAndComments query).1.map (· = '\n') = query.map (· = '\n') := by
  obtain ⟨ps, hps⟩ := exists_reads query
  rw [hps.scan_eq]
  conv_rhs => rw [← hps.text_eq]
  rw [List.map_flatMap, List.map_flatMap]
  exact List.flatMap_congr fun p _ => newlines_blanked p

/-! ## Brackets outside strings and comments -/

def isBracket (c : Char) : Bool := c ∈ openers || pairs.contains c

theorem get?_opener {c o : Char} (h : pairs.get? c = some o) : pairs.get? o = none := by
  have hall : ∀ p ∈ pairs, pairs.get? p.2 = none := by decide
  exact hall (c, o) (Dict.mem_of_get? h)

theorem get?_of_mem_openers {c : Char} (h : c ∈ openers) : pairs.get? c = none := by
  have hall : openers.all (fun o => pairs.get? o = none) = true := by decide
  exact of_decide_eq_true (List.all_eq_true.mp hall c h)

theorem outside_brackets (ps : List Piece) :
    (ps.flatMap Piece.blanked).filter isBracket = (ps.flatMap Piece.outside).filter isBracket := by
  rw [List.filter_flatMap, List.filter_flatMap]
  apply List.flatMap_congr
  intro p _
  cases p with
  | code c => rfl
  | hidden t =>
    apply List.filter_eq_nil_iff.mpr
    intro c hc
    obtain ⟨d, _, rfl⟩ := List.mem_map.mp hc
    unfold blank
    split_ifs <;> decide

theorem bracketStep_other {query : Text} {s : BracketCheck} {c : Char} {idx : Nat}
    (ho : c ∉ openers) (hc : pairs.get? c = none) : bracketStep query s (c, idx) = s := by
  unfold bracketStep
  dsimp only
  rw [if_neg ho, hc]

theorem bracketStep_match {query : Text} {stack : List (Char × Nat)} {findings : List LintFinding}
    {c opener : Char} {idx off : Nat} (hc : pairs.get? c = some opener) :
    bracketStep query ⟨(opener, off) :: stack, findings⟩ (c, idx) = ⟨stack, findings⟩ := by
  have ho : c ∉ openers := fun h => by simp [get?_of_mem_openers h] at hc
  unfold bracketStep
  dsimp only
  rw [if_neg ho, hc]
  exact if_pos rfl

theorem bracketStep_mismatch {query : Text} {s : BracketCheck} {c opener : Char} {idx : Nat}
    (hc : pairs.get? c = some opener) (h : s.stack.head?.map (·.1) ≠ some opener) :
    (bracketStep query s (c, idx)).findings ≠ [] := by
  have ho : c ∉ openers := fun h => by simp [get?_of_mem_openers h] at hc
  unfold bracketStep
  dsimp only
  rw [if_neg ho, hc]
  dsimp only
  rw [if_neg h]
  simp

theorem findings_ne_nil {query : Text} {l : List (Char × Nat)} {s : BracketCheck}
    (h : s.findings ≠ []) : (l.foldl (bracketStep query) s).findings ≠ [] := by
  induction l generalizing s with
  | nil => exact h
  | cons p l ih =>
    apply ih
    obtain ⟨c, idx⟩ := p
    unfold bracketStep
    dsimp only
    split_ifs
    · exact h
    · cases pairs.get? c with
      | none => exact h
      | some opener =>
        dsimp only
        split_ifs
        · exact h
        · simp

/-- Nothing is found from a stack on, and nothing left on it, where what follows closes it. -/
theorem bracketSteps_iff (query : Text) (l : List (Char × Nat)) {s : BracketCheck}
    (h : s.findings = []) :
    ((l.foldl (bracketStep query) s).findings = [] ∧ (l.foldl (bracketStep query) s).stack = []) ↔
      BalancedUnder pairs.get? (s.stack.map (·.1)) ((l.map (·.1)).filter isBracket) := by
  induction l generalizing s with
  | nil =>
    obtain ⟨stack, findings⟩ := s
    cases stack with
    | nil => exact iff_of_true ⟨h, rfl⟩ .nil
    | cons p stack => exact iff_of_false (fun hclean => nomatch hclean.2) not_balancedUnder_nil
  | cons p l ih =>
    obtain ⟨c, idx⟩ := p
    rw [List.foldl_cons, List.map_cons, List.filter_cons]
    by_cases ho : c ∈ openers
    · have hstep : bracketStep query s (c, idx) = { s with stack := (c, idx) :: s.stack } :=
        if_pos ho
      have hbracket : isBracket c = true := by simp [isBracket, ho]
      rw [hstep, if_pos hbracket, balancedUnder_open (get?_of_mem_openers ho)]
      exact ih h
    cases hc : pairs.get? c with
    | none =>
      have hbracket : ¬ isBracket c = true := by simp [isBracket, ho, Dict.contains, hc]
      rw [bracketStep_other ho hc, if_neg hbracket]
      exact ih h
    | some opener =>
      have hbracket : isBracket c = true := by simp [isBracket, Dict.contains, hc]
      rw [if_pos hbracket]
      obtain ⟨stack, findings⟩ := s
      cases stack with
      | nil =>
        have hbad : (bracketStep query ⟨[], findings⟩ (c, idx)).findings ≠ [] :=
          bracketStep_mismatch hc nofun
        refine iff_of_false ?_ (Balanced.not_cons (fun _ _ => get?_opener) hc _)
        exact fun hclean => findings_ne_nil hbad hclean.1
      | cons q stack =>
        obtain ⟨o, off⟩ := q
        rw [List.map_cons, balancedUnder_close (fun _ _ => get?_opener) hc]
        by_cases hsame : opener = o
        · subst hsame
          rw [bracketStep_match hc]
          exact (ih (s := ⟨stack, findings⟩) h).trans (and_iff_right rfl).symm
        · have hbad : (bracketStep query ⟨(o, off) :: stack, findings⟩ (c, idx)).findings ≠ [] :=
            bracketStep_mismatch hc fun heq => hsame (Option.some.inj heq).symm
          refine iff_of_false ?_ fun hclose => hsame hclose.1
          exact fun hclean => findings_ne_nil hbad hclean.1

theorem checkBalancedBrackets_iff (query stripped : Text) :
    checkBalancedBrackets query stripped = [] ↔
      Balanced pairs.get? (stripped.filter isBracket) := by
  have hrun := bracketSteps_iff query stripped.zipIdx (s := ⟨[], []⟩) rfl
  rw [List.zipIdx_map_fst] at hrun
  refine Iff.trans ?_ hrun
  unfold checkBalancedBrackets
  dsimp only
  generalize stripped.zipIdx.foldl (bracketStep query) ⟨[], []⟩ = s
  cases hlast : s.stack.getLast? with
  | none => exact (and_iff_left (List.getLast?_eq_none_iff.mp hlast)).symm
  | some bottom =>
    refine iff_of_false (by simp) ?_
    intro hclean
    rw [hclean.2] at hlast
    cases hlast

/-- The scanner blanks the strings and comments of every query and nothing else, and there is no
finding exactly where the brackets outside them are balanced. -/
theorem brackets_decided (query : Text) :
    (∃ ps, Reads query ps) ∧
    (stripStringsAndComments query).1.length = query.length ∧
    (∀ i : Nat, (stripStringsAndComments query).1[i]? = some '\n' ↔ query[i]? = some '\n') ∧
    ∀ ps, Reads query ps → ps.flatMap Piece.text = query ∧
      (stripStringsAndComments query).1 = ps.flatMap Piece.blanked ∧
      (checkBalancedBrackets query (stripStringsAndComments query).1 = [] ↔
        Balanced pairs.get? ((ps.flatMap Piece.outside).filter isBracket)) := by
  refine ⟨exists_reads query, ?_, ?_, ?_⟩
  · simpa using congrArg List.length (newlines_strip query)
  · intro i
    have hmask := congrArg (·[i]?) (newlines_strip query)
    simp only [List.getElem?_map] at hmask
    cases hs : (stripStringsAndComments query).1[i]? <;> cases hq : query[i]? <;> simp_all
  · intro ps hps
    refine ⟨hps.text_eq, hps.scan_eq, ?_⟩
    rw [checkBalancedBrackets_iff, hps.scan_eq, outside_brackets]

end ContentOps.Kql
