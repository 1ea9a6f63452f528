import ContentOps.Library.Text

/-! Replacing the matches of a pattern from left to right, `re.sub`: where a text of the result
comes from. -/

namespace PyData

/-- A pattern at one place: the length of its match, given the character before and the text from
there. -/
abbrev Matcher := Option Char → Text → Option ℕ

/-- The result from a place on; `skip` characters belong to the last match. -/
def substitute (m : Matcher) (token : Text) : Option Char → ℕ → Text → Text
  | _, _, [] => []
  | _, skip + 1, c :: cs => substitute m token (some c) skip cs
  | prev, 0, c :: cs =>
    match m prev (c :: cs) with
    | some (n + 1) => token ++ substitute m token (some c) n cs
    | _ => c :: substitute m token (some c) 0 cs

/-- The character before a place, with `p` before the text. -/
def charBefore (p : Option Char) (t : Text) : Option Char := t.getLast?.or p

@[simp] theorem charBefore_nil (p : Option Char) : charBefore p [] = p := rfl

theorem charBefore_append (p : Option Char) (s t : Text) :
    charBefore p (s ++ t) = charBefore (charBefore p s) t := by
  rw [charBefore, charBefore, charBefore, List.getLast?_append, Option.or_assoc]

theorem charBefore_cons (p : Option Char) (c : Char) (t : Text) :
    charBefore p (c :: t) = charBefore (some c) t := charBefore_append p [c] t

theorem charBefore_of_ne_nil {s : Text} (h : s ≠ []) (p : Option Char) :
    charBefore p s = s.getLast? := by
  rw [charBefore, List.getLast?_eq_some_getLast h, Option.some_or]

/-- A run of the substitution: the characters before in the text and in the result, the rest of the
text, and what comes of it. -/
inductive Sub (m : Matcher) (token : Text) : Option Char → Option Char → Text → Text → Prop
  | nil {p p' : Option Char} : Sub m token p p' [] []
  | keep {p p' : Option Char} {c : Char} {cs out : Text} : m p (c :: cs) = none →
      Sub m token (some c) (some c) cs out → Sub m token p p' (c :: cs) (c :: out)
  | hit {p p' : Option Char} {x rest out : Text} : x ≠ [] → m p (x ++ rest) = some x.length →
      Sub m token x.getLast? token.getLast? rest out → Sub m token p p' (x ++ rest) (token ++ out)

section
variable {m : Matcher} {token : Text}

theorem substitute_skip (p : Option Char) (skip : ℕ) (t : Text) :
    substitute m token p skip t =
      substitute m token (charBefore p (t.take skip)) 0 (t.drop skip) := by
  induction skip generalizing p t with
  | zero => rw [List.take_zero, List.drop_zero, charBefore_nil]
  | succ skip ih =>
    cases t with
    | nil => rfl
    | cons c cs => rw [substitute, ih, List.take_succ_cons, List.drop_succ_cons, charBefore_cons]

theorem sub_substitute (hm : ∀ p t n, m p t = some n → 0 < n ∧ n ≤ t.length) (n : ℕ) {t : Text}
    (hn : t.length ≤ n) (p p' : Option Char) : Sub m token p p' t (substitute m token p 0 t) := by
  induction n generalizing t p p' with
  | zero =>
    obtain rfl := List.length_eq_zero_iff.mp (Nat.le_zero.mp hn)
    exact .nil
  | succ n ih =>
    cases t with
    | nil => exact .nil
    | cons c cs =>
      have hcs : cs.length ≤ n := Nat.le_of_succ_le_succ hn
      rw [substitute]
      cases hmatch : m p (c :: cs) with
      | none => exact .keep hmatch (ih hcs _ _)
      | some k =>
        obtain ⟨hpos, hk⟩ := hm _ _ _ hmatch
        cases k with
        | zero => exact absurd hpos (Nat.lt_irrefl 0)
        | succ k =>
          dsimp only
          have hlength : (cs.take k).length = k :=
            List.length_take_of_le (Nat.le_of_succ_le_succ hk)
          have hsplit : c :: cs = (c :: cs.take k) ++ cs.drop k := by
            rw [List.cons_append, List.take_append_drop]
          have hdrop : (cs.drop k).length ≤ n := by
            rw [List.length_drop]
            exact (Nat.sub_le _ _).trans hcs
          rw [substitute_skip, hsplit]
          refine .hit (List.cons_ne_nil _ _) ?_ ?_
          · rw [← hsplit, hmatch, List.length_cons, hlength]
          · have hlast : charBefore (some c) (cs.take k) = (c :: cs.take k).getLast? := by
              rw [← charBefore_cons none, charBefore_of_ne_nil (List.cons_ne_nil _ _)]
            rw [hlast]
            exact ih hdrop _ _

/-- Without a match nothing changes. -/
theorem substitute_eq_self {p : Option Char} {t : Text}
    (h : ∀ before after, t = before ++ after → after ≠ [] → m (charBefore p before) after = none) :
    substitute m token p 0 t = t := by
  induction t generalizing p with
  | nil => rfl
  | cons c cs ih =>
    have hnone : m p (c :: cs) = none := h [] _ rfl (List.cons_ne_nil _ _)
    rw [substitute, hnone]
    refine congrArg (c :: ·) (ih fun before after heq hne => ?_)
    have hafter := h (c :: before) after (congrArg (c :: ·) heq) hne
    rwa [charBefore_cons] at hafter

/-- Text of the result without the token's first character is text that was kept. -/
theorem Sub.kept {p p' : Option Char} {u x out : Text} {mark : Char}
    (hmark : token.head? = some mark) (hx : mark ∉ x) (h : Sub m token p p' u (x ++ out)) :
    ∃ u', u = x ++ u' ∧ Sub m token (charBefore p x) (charBefore p' x) u' out := by
  induction x generalizing p p' u with
  | nil => exact ⟨u, rfl, h⟩
  | cons c x ih =>
    obtain ⟨hc, hx⟩ := not_or.mp (List.mem_cons.not.mp hx)
    generalize hout : c :: x ++ out = whole at h
    cases h with
    | nil => exact absurd hout (by simp)
    | keep hnone h =>
      obtain ⟨rfl, rfl⟩ := List.cons.inj hout
      obtain ⟨u', rfl, hu'⟩ := ih hx h
      rw [charBefore_cons, charBefore_cons]
      exact ⟨u', rfl, hu'⟩
    | hit hne hmatch h =>
      obtain ⟨d, ds, rfl⟩ := List.exists_cons_of_ne_nil (l := token) (by rintro rfl; simp at hmark)
      obtain rfl := Option.some.inj hmark
      exact absurd (List.cons.inj hout).1.symm hc

/-- A character that was kept begins no match. -/
theorem Sub.match_eq_none {p p' : Option Char} {u out : Text} {c mark : Char}
    (h : Sub m token p p' u (c :: out)) (hmark : token.head? = some mark) (hc : mark ≠ c) :
    m p u = none := by
  generalize hout : c :: out = whole at h
  cases h with
  | nil => exact absurd hout nofun
  | keep hnone _ => exact hnone
  | hit _ _ _ =>
    obtain ⟨d, ds, rfl⟩ := List.exists_cons_of_ne_nil (l := token) (by rintro rfl; simp at hmark)
    obtain rfl := Option.some.inj hmark
    exact absurd (List.cons.inj hout).1.symm hc

/-- A place of the result that is not inside a token comes from a place of the text, and what links
the characters before them is kept. -/
theorem Sub.place {starts : Text → Prop} {linked : Option Char → Option Char → Text → Prop}
    (hnonempty : token ≠ []) (htoken : ∀ s out, s ≠ [] → s <:+ token → ¬starts (s ++ out))
    (hsame : ∀ c u, linked (some c) (some c) u)
    (hhit : ∀ p x rest, x ≠ [] → m p (x ++ rest) = some x.length →
      linked x.getLast? token.getLast? rest)
    {p p' : Option Char} {u before after : Text} (h : Sub m token p p' u (before ++ after))
    (hlinked : linked p p' u) (hafter : starts after) :
    ∃ u₁ u₂, u = u₁ ++ u₂ ∧ Sub m token (charBefore p u₁) (charBefore p' before) u₂ after ∧
      linked (charBefore p u₁) (charBefore p' before) u₂ := by
  generalize hout : before ++ after = out at h
  induction h generalizing before with
  | nil =>
    obtain ⟨rfl, rfl⟩ := List.append_eq_nil_iff.mp hout
    exact ⟨[], [], rfl, .nil, hlinked⟩
  | @keep p p' c cs out hnone h ih =>
    cases before with
    | nil =>
      obtain rfl : after = c :: out := hout
      exact ⟨[], c :: cs, rfl, .keep hnone h, hlinked⟩
    | cons b before =>
      obtain ⟨rfl, htail⟩ := List.cons.inj hout
      obtain ⟨u₁, u₂, rfl, hsub, hlink⟩ := ih (hsame _ _) htail
      refine ⟨b :: u₁, u₂, rfl, ?_, ?_⟩
      · rwa [charBefore_cons, charBefore_cons]
      · rwa [charBefore_cons, charBefore_cons]
  | @hit p p' x rest out hne hmatch h ih =>
    rcases List.append_eq_append_iff.mp hout with ⟨s, hs, hs'⟩ | ⟨before', rfl, hs'⟩
    · cases before with
      | nil =>
        obtain rfl : after = token ++ out := hout
        exact ⟨[], x ++ rest, rfl, .hit hne hmatch h, hlinked⟩
      | cons b before =>
        cases s with
        | nil =>
          rw [List.append_nil] at hs
          obtain rfl : after = out := hs'
          have hlast : charBefore p' (b :: before) = token.getLast? := by
            rw [hs, charBefore_of_ne_nil (hs ▸ List.cons_ne_nil b before)]
          rw [hlast]
          refine ⟨x, rest, rfl, ?_, ?_⟩
          · rw [charBefore_of_ne_nil hne]
            exact h
          · rw [charBefore_of_ne_nil hne]
            exact hhit p x rest hne hmatch
        | cons s ss =>
          exact absurd (hs' ▸ hafter)
            (htoken (s :: ss) out (List.cons_ne_nil _ _) (hs ▸ List.suffix_append _ _))
    · obtain ⟨u₁, u₂, rfl, hsub, hlink⟩ := ih (hhit p x rest hne hmatch) hs'.symm
      refine ⟨x ++ u₁, u₂, (List.append_assoc _ _ _).symm, ?_, ?_⟩
      · rw [charBefore_append, charBefore_append, charBefore_of_ne_nil hne,
          charBefore_of_ne_nil hnonempty]
        exact hsub
      · rw [charBefore_append, charBefore_append, charBefore_of_ne_nil hne,
          charBefore_of_ne_nil hnonempty]
        exact hlink

end

end PyData
