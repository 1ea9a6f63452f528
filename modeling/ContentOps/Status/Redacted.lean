import ContentOps.Status.Redact
import Mathlib.Data.List.Infix

/-! What the redacted text still shows: the identifiers that the patterns do not take because a
letter or an underscore stands beside them, and the paths that come up where another one was taken
out. -/

namespace ContentOps.Redact
open PyData

theorem forall_mem_of_all {P : Char → Prop} [DecidablePred P] {t : Text}
    (h : t.all (fun c => decide (P c)) = true) : ∀ c ∈ t, P c :=
  fun c hc => of_decide_eq_true (List.all_eq_true.mp h c hc)

/-! ## The two patterns for identifiers -/

/-- What a pattern for identifiers is: it begins behind no word character, and it ends where no
hexadecimal digit goes on. -/
structure IsIdPattern (w : WordChars) (m : Matcher) : Prop where
  bounds : ∀ p t n, m p t = some n → 0 < n ∧ n ≤ t.length
  word : ∀ l t, w.isWord l = true → m (some l) t = none
  link : ∀ p x rest, m p (x ++ rest) = some x.length →
    (∀ l ∈ x.getLast?, w.isWord l = false) ∨ ∀ c ∈ rest.head?, w.isWord c = false
  chars : ∀ p x rest, m p (x ++ rest) = some x.length → ∀ c ∈ x, isNameChar c = true

section
variable {w : WordChars}

theorem WordChars.not_hex {c : Char} (h : w.isWord c = false) : isHex c = false := by
  by_contra hhex
  exact absurd (h.symm.trans (w.hex c (by simpa using hhex))) nofun

theorem isNameChar_of_isHex {c : Char} (h : isHex c = true) : isNameChar c = true := by
  have hspace : Text.isSpace c = false := by
    by_contra hspace
    have hmem := of_decide_eq_true (eq_true_of_ne_false hspace)
    have hnot : isHex c = false := by
      refine forall_mem_of_all (P := (isHex · = false)) ?_ c hmem
      decide
    exact absurd (h.symm.trans hnot) nofun
  have hslash : c ≠ '/' := by
    rintro rfl
    exact absurd h (by decide)
  rw [isNameChar, hspace, decide_eq_true hslash]
  rfl

theorem guidMatch_eq_some {p : Option Char} {t : Text} {n : ℕ} :
    guidMatch w p t = some n ↔ n = 36 ∧ p.any w.isWord = false ∧ fits guidShape t = true ∧
      (t.drop 36).head?.any w.isWord = false := by
  unfold guidMatch
  split_ifs with h
  · rw [Option.some.injEq]
    exact ⟨fun heq => ⟨heq.symm, h⟩, fun heq => heq.1.symm⟩
  · exact ⟨nofun, fun heq => absurd heq.2 h⟩

theorem isIdPattern_guidMatch : IsIdPattern w (guidMatch w) where
  bounds p t n h := by
    obtain ⟨rfl, -, hfits, -⟩ := guidMatch_eq_some.mp h
    exact ⟨by decide, length_of_fits hfits⟩
  word l t hl := by
    rw [Option.eq_none_iff_forall_ne_some]
    intro n h
    exact absurd (hl.symm.trans (guidMatch_eq_some.mp h).2.1) nofun
  link p x rest h := by
    obtain ⟨hlength, -, -, hafter⟩ := guidMatch_eq_some.mp h
    rw [List.drop_left' hlength] at hafter
    refine Or.inr fun c hc => ?_
    rw [Option.mem_def] at hc
    rwa [hc] at hafter
  chars p x rest h := by
    obtain ⟨hlength, -, hfits, -⟩ := guidMatch_eq_some.mp h
    have hshape := isShape_of_fits hfits
    have hx : (x ++ rest).take guidShape.length = x := List.take_left' hlength
    rw [hx] at hshape
    intro c hc
    rcases guidShape_chars hshape c hc with hhex | rfl
    · exact isNameChar_of_isHex hhex
    · decide

theorem cutLength_eq_some {t : Text} {k : ℕ} (h : cutLength t = some k) :
    0 < k ∧ k ≤ t.length ∧ ∀ c ∈ t.take k, c = '.' ∨ c = '…' := by
  unfold cutLength at h
  dsimp only at h
  split_ifs at h with hellipsis hdots
  · obtain rfl := Option.some.inj h
    cases t with
    | nil => exact absurd hellipsis nofun
    | cons c cs =>
      obtain rfl : c = '…' := Option.some.inj hellipsis
      exact ⟨Nat.one_pos, Nat.succ_le_succ (Nat.zero_le _), by simp⟩
  · obtain rfl := Option.some.inj h
    refine ⟨by omega, (List.takeWhile_prefix _).length_le, fun c hc => ?_⟩
    have hbegin : t.take (t.takeWhile (· = '.')).length = t.takeWhile (· = '.') :=
      (List.prefix_iff_eq_take.mp (List.takeWhile_prefix _)).symm
    rw [hbegin] at hc
    have hdot := List.mem_takeWhile_imp hc
    exact Or.inl (by simpa using hdot)

theorem truncatedMatch_eq_some {p : Option Char} {t : Text} {n : ℕ} :
    truncatedMatch w p t = some n ↔ p.any w.isWord = false ∧ fits (hexRun 8) t = true ∧
      ∃ k, cutLength (t.drop 8) = some k ∧ n = 8 + k := by
  unfold truncatedMatch
  split_ifs with h
  · rw [Option.map_eq_some_iff]
    constructor
    · rintro ⟨k, hk, rfl⟩
      exact ⟨h.1, h.2, k, hk, rfl⟩
    · rintro ⟨-, -, k, hk, rfl⟩
      exact ⟨k, hk, rfl⟩
  · exact ⟨nofun, fun heq => absurd ⟨heq.1, heq.2.1⟩ h⟩

/-- A match of the second pattern: eight digits and their dots. -/
theorem truncatedMatch_split {p : Option Char} {x rest : Text}
    (h : truncatedMatch w p (x ++ rest) = some x.length) :
    ∃ digits dots, x = digits ++ dots ∧ IsShape (hexRun 8) digits ∧ dots ≠ [] ∧
      ∀ c ∈ dots, c = '.' ∨ c = '…' := by
  obtain ⟨-, hfits, k, hk, hlength⟩ := truncatedMatch_eq_some.mp h
  obtain ⟨hpos, -, hdots⟩ := cutLength_eq_some hk
  have hdigits : (x ++ rest).take 8 = x.take 8 := List.take_append_of_le_length (by omega)
  have htail : ((x ++ rest).drop 8).take k = x.drop 8 := by
    rw [List.drop_append_of_le_length (by omega), List.take_left']
    rw [List.length_drop]
    omega
  refine ⟨x.take 8, x.drop 8, (List.take_append_drop 8 x).symm, hdigits ▸ isShape_of_fits hfits, ?_,
    htail ▸ hdots⟩
  intro hnil
  have hzero := congrArg List.length hnil
  rw [List.length_drop, List.length_nil] at hzero
  omega

theorem isIdPattern_truncatedMatch : IsIdPattern w (truncatedMatch w) where
  bounds p t n h := by
    obtain ⟨-, hfits, k, hk, rfl⟩ := truncatedMatch_eq_some.mp h
    obtain ⟨-, hle, -⟩ := cutLength_eq_some hk
    have hlength : 8 ≤ t.length := length_of_fits hfits
    rw [List.length_drop] at hle
    omega
  word l t hl := by
    rw [Option.eq_none_iff_forall_ne_some]
    intro n h
    exact absurd (hl.symm.trans (truncatedMatch_eq_some.mp h).1) nofun
  link p x rest h := by
    obtain ⟨digits, dots, rfl, -, hne, hdots⟩ := truncatedMatch_split h
    refine Or.inl fun l hl => ?_
    rw [List.getLast?_append_of_ne_nil _ hne] at hl
    rcases hdots l (List.mem_of_getLast? hl) with rfl | rfl
    · exact w.mark '.' (by decide)
    · exact w.mark '…' (by decide)
  chars p x rest h := by
    obtain ⟨digits, dots, rfl, hdigits, -, hdots⟩ := truncatedMatch_split h
    intro c hc
    rcases List.mem_append.mp hc with hc | hc
    · exact isNameChar_of_isHex (hexRun_chars hdigits c hc)
    · rcases hdots c hc with rfl | rfl <;> decide

/-- A token of the program: it begins and ends with its signs, and no part of it looks like the
beginning of an identifier or of a path. -/
structure IsToken (token : Text) : Prop where
  head : token.head? = some '<'
  last : token.getLast? = some '>'
  name : ∀ c ∈ token, isNameChar c = true
  notHex : ∀ s ∈ token.tails, s ≠ [] → (s.take 8).any (fun c => !isHex c) = true

theorem isToken_guidToken : IsToken guidToken :=
  ⟨by decide, by decide, forall_mem_of_all (by decide), by decide⟩

theorem isToken_truncatedToken : IsToken truncatedToken :=
  ⟨by decide, by decide, forall_mem_of_all (by decide), by decide⟩

theorem IsToken.ne_nil {token : Text} (h : IsToken token) : token ≠ [] := by
  rintro rfl
  exact absurd h.head nofun

/-! ## Identifiers come from identifiers -/

/-- The text begins with eight hexadecimal digits. -/
def StartsHex (t : Text) : Prop := IsShape (hexRun 8) (t.take 8)

/-- Before a digit, the text and the result have alike characters. -/
def Linked (w : WordChars) (p p' : Option Char) (u : Text) : Prop :=
  ∀ c ∈ u.head?, isHex c = true →
    p.any w.isWord = p'.any w.isWord ∧ p.any isHex = p'.any isHex

theorem startsHex_append {x : Text} (hx : IsShape (hexRun 8) (x.take 8)) (rest : Text) :
    StartsHex (x ++ rest) := by
  have hlength : 8 ≤ x.length := by
    have hshape := hx.length
    rw [List.length_take, hexRun, List.length_replicate] at hshape
    omega
  rw [StartsHex, List.take_append_of_le_length hlength]
  exact hx

theorem StartsHex.head {t : Text} (h : StartsHex t) : ∃ c cs, t = c :: cs ∧ isHex c = true := by
  cases t with
  | nil => exact absurd h.length (by decide)
  | cons c cs => exact ⟨c, cs, rfl, hexRun_chars h c List.mem_cons_self⟩

theorem IsToken.not_startsHex {token : Text} (h : IsToken token) (s out : Text) (hne : s ≠ [])
    (hs : s <:+ token) : ¬StartsHex (s ++ out) := by
  intro hhex
  obtain ⟨c, hc, hnot⟩ := List.any_eq_true.mp (h.notHex s ((List.mem_tails s token).mpr hs) hne)
  have hmem : c ∈ (s ++ out).take 8 := by
    rw [List.take_append]
    exact List.mem_append_left _ hc
  rw [hexRun_chars hhex c hmem] at hnot
  exact absurd hnot nofun

theorem linked_same (c : Char) (u : Text) : Linked w (some c) (some c) u :=
  fun _ _ _ => ⟨rfl, rfl⟩

variable {m : Matcher} {token : Text}

theorem IsIdPattern.linked_hit (hm : IsIdPattern w m) (htoken : IsToken token) (p : Option Char)
    (x rest : Text) (hne : x ≠ []) (hmatch : m p (x ++ rest) = some x.length) :
    Linked w x.getLast? token.getLast? rest := by
  intro c hc hhex
  rcases hm.link p x rest hmatch with hlast | hnext
  · rw [htoken.last, List.getLast?_eq_some_getLast hne]
    have hword := hlast _ (List.getLast?_eq_some_getLast hne)
    have hmark := w.mark '>' (by decide)
    rw [Option.any_some, Option.any_some, Option.any_some, Option.any_some, hword, hmark,
      w.not_hex hword, w.not_hex hmark]
    exact ⟨rfl, rfl⟩
  · exact absurd ((w.hex c hhex).symm.trans (hnext c hc)) nofun

/-- A pattern does not begin behind a word character. -/
theorem IsIdPattern.head_eq (hm : IsIdPattern w m) {l : Char} {p' : Option Char} {u out : Text}
    (hl : w.isWord l = true) (h : Sub m token (some l) p' u out) : u.head? = out.head? := by
  cases h with
  | nil => rfl
  | keep => rfl
  | hit hne hmatch _ => exact absurd ((hm.word l _ hl).symm.trans hmatch) nofun

/-- Where the result has eight digits, and what goes on from them without a token, the text has the
same. -/
theorem IsIdPattern.comes_from (hm : IsIdPattern w m) (htoken : IsToken token)
    {u v before x after : Text} (h : Sub m token none none u v) (hv : v = before ++ (x ++ after))
    (hx : IsShape (hexRun 8) (x.take 8)) (hmark : '<' ∉ x) :
    ∃ before' after', u = before' ++ (x ++ after') ∧
      before'.getLast?.any w.isWord = before.getLast?.any w.isWord ∧
      before'.getLast?.any isHex = before.getLast?.any isHex ∧
      m before'.getLast? (x ++ after') = none ∧ Sub m token x.getLast? x.getLast? after' after := by
  subst hv
  obtain ⟨before', u₂, rfl, hsub, hlinked⟩ := h.place htoken.ne_nil htoken.not_startsHex
    (linked_same (w := w)) (hm.linked_hit htoken) (fun _ _ _ => ⟨rfl, rfl⟩)
    (startsHex_append hx after)
  obtain ⟨after', rfl, hafter⟩ := hsub.kept htoken.head hmark
  have hne : x ≠ [] := by
    rintro rfl
    exact absurd hx.length (by decide)
  obtain ⟨c, cs, hcs, hhex⟩ := (startsHex_append hx after').head
  rw [charBefore_of_ne_nil hne, charBefore_of_ne_nil hne] at hafter
  rw [charBefore, charBefore, Option.or_none, Option.or_none] at hsub hlinked
  obtain ⟨hword, hhexes⟩ := hlinked c (by rw [hcs]; rfl) hhex
  refine ⟨before', after', rfl, hword, hhexes, ?_, hafter⟩
  -- the digits were kept, so no match begins at them
  obtain ⟨d, ds, rfl⟩ := List.exists_cons_of_ne_nil hne
  refine hsub.match_eq_none htoken.head fun heq => hmark ?_
  rw [heq]
  exact List.mem_cons_self

theorem getLast?_isHex {s : List (Char → Bool)} {n : ℕ} {x : Text}
    (h : IsShape (s ++ hexRun (n + 1)) x) :
    ∃ l, x.getLast? = some l ∧ isHex l = true := by
  have hdrop := List.forall₂_drop s.length h
  rw [List.drop_left] at hdrop
  have hrun : IsShape (hexRun (n + 1)) (x.drop s.length) := hdrop
  have hne : x.drop s.length ≠ [] := by
    intro hnil
    have hlength := hrun.length
    rw [hnil, hexRun, List.length_replicate] at hlength
    exact absurd hlength.symm (Nat.succ_ne_zero n)
  refine ⟨_, ?_, hexRun_chars hrun _ (List.getLast_mem hne)⟩
  rw [← List.getLast?_eq_some_getLast hne, List.getLast?_drop, if_neg]
  intro hle
  exact hne (List.drop_eq_nil_of_le hle)

theorem noHexEnd_iff {before : Text} : NoHexEnd before ↔ before.getLast?.any isHex = false := by
  unfold NoHexEnd
  cases before.getLast? <;> simp

theorem noHexStart_of_eq {after after' : Text} (h : after'.head? = after.head?)
    (hafter : NoHexStart after) : NoHexStart after' := by
  rwa [NoHexStart, h]

theorem startsHex_guid {g : Text} (h : IsShape guidShape g) : IsShape (hexRun 8) (g.take 8) := by
  have hshape : IsShape (hexRun 8 ++ guidShape.drop 8) g := h
  exact hshape.append_left

theorem mark_notMem_of_chars {x : Text} (h : ∀ c ∈ x, isHex c = true ∨ c = '-') : '<' ∉ x := by
  intro hmem
  rcases h '<' hmem with hhex | heq
  · exact absurd hhex (by decide)
  · exact absurd heq (by decide)

/-- A whole identifier of the result is one of the text. -/
theorem IsIdPattern.guid_comes_from (hm : IsIdPattern w m) (htoken : IsToken token)
    {u v before g after : Text} (h : Sub m token none none u v) (hv : v = before ++ (g ++ after))
    (hg : IsShape guidShape g) (hbefore : NoHexEnd before) (hafter : NoHexStart after) :
    ∃ before' after', u = before' ++ (g ++ after') ∧ NoHexEnd before' ∧ NoHexStart after' ∧
      m before'.getLast? (g ++ after') = none := by
  obtain ⟨before', after', rfl, -, hhex, hnone, hsub⟩ := hm.comes_from htoken h hv
    (startsHex_guid hg) (mark_notMem_of_chars (guidShape_chars hg))
  obtain ⟨l, hl, hlhex⟩ := @getLast?_isHex (guidShape.take 24) 11 g hg
  rw [hl] at hsub
  refine ⟨before', after', rfl, ?_, ?_, hnone⟩
  · rw [noHexEnd_iff, hhex]
    exact noHexEnd_iff.mp hbefore
  · exact noHexStart_of_eq (hm.head_eq (w.hex l hlhex) hsub) hafter

theorem isCut_of_sub {q q' : Option Char} {u out : Text} (htoken : IsToken token)
    (h : Sub m token q q' u out) (hcut : IsCut out) : IsCut u := by
  rcases hcut with ⟨rest, rfl⟩ | ⟨rest, rfl⟩
  · obtain ⟨u', rfl, -⟩ := h.kept htoken.head (by decide)
    exact Or.inl ⟨u', rfl⟩
  · obtain ⟨u', rfl, -⟩ := h.kept htoken.head (by decide)
    exact Or.inr ⟨u', rfl⟩

/-- The beginning of an identifier in the result is one in the text. -/
theorem IsIdPattern.truncated_comes_from (hm : IsIdPattern w m) (htoken : IsToken token)
    {u v before x after : Text} (h : Sub m token none none u v) (hv : v = before ++ (x ++ after))
    (hx : IsShape (hexRun 8) x) (hbefore : NoHexEnd before) (hafter : IsCut after) :
    ∃ before' after', u = before' ++ (x ++ after') ∧ NoHexEnd before' ∧ IsCut after' ∧
      before'.getLast?.any w.isWord = before.getLast?.any w.isWord ∧
      m before'.getLast? (x ++ after') = none := by
  have htake : x.take 8 = x := List.take_of_length_le hx.length.le
  obtain ⟨before', after', rfl, hword, hhex, hnone, hsub⟩ := hm.comes_from htoken h hv
    (htake.symm ▸ hx) (mark_notMem_of_chars fun c hc => Or.inl (hexRun_chars hx c hc))
  refine ⟨before', after', rfl, ?_, isCut_of_sub htoken hsub hafter, hword, hnone⟩
  rw [noHexEnd_iff, hhex]
  exact noHexEnd_iff.mp hbefore

theorem cutLength_isSome {t : Text} (h : IsCut t) : (cutLength t).isSome := by
  unfold cutLength
  rcases h with ⟨rest, rfl⟩ | ⟨rest, rfl⟩
  · have hdots : 3 ≤ ((['.', '.', '.'] ++ rest).takeWhile (· = '.')).length := by simp
    rw [if_neg (by simp), if_pos hdots]
    rfl
  · simp

theorem isCut_of_cutLength {t : Text} {k : ℕ} (h : cutLength t = some k) : IsCut t := by
  unfold cutLength at h
  dsimp only at h
  split_ifs at h with hellipsis hdots
  · cases t with
    | nil => exact absurd hellipsis nofun
    | cons c cs =>
      obtain rfl : c = '…' := Option.some.inj hellipsis
      exact Or.inr ⟨cs, rfl⟩
  · have hall : ∀ c ∈ t.takeWhile (· = '.'), c = '.' := fun c hc => by
      simpa using List.mem_takeWhile_imp hc
    have hreplicate := List.eq_replicate_of_mem hall
    have hbegin : List.replicate 3 '.' <+: t.takeWhile (· = '.') := by
      rw [hreplicate]
      exact ⟨List.replicate (_ - 3) '.', by rw [← List.replicate_add, Nat.add_sub_cancel' hdots]⟩
    exact Or.inl (hbegin.trans (List.takeWhile_prefix _))

/-! ## Paths come from paths -/

theorem afterLiteral_eq_some {literal t rest : Text} : afterLiteral literal t = some rest ↔
    ∃ a, t = a ++ rest ∧ IsShape (literal.map foldsTo) a := by
  unfold afterLiteral
  constructor
  · intro h
    split_ifs at h with hfits
    obtain rfl := Option.some.inj h
    have hshape := isShape_of_fits hfits
    rw [List.length_map] at hshape
    exact ⟨_, (List.take_append_drop _ t).symm, hshape⟩
  · rintro ⟨a, rfl, ha⟩
    have hlength : a.length = literal.length := by rw [ha.length, List.length_map]
    rw [if_pos (fits_of_isShape ha rest), List.drop_left' hlength]

theorem afterName_eq_some {t rest : Text} (h : afterName t = some rest) :
    ∃ n, t = n ++ rest ∧ n ≠ [] ∧ ∀ c ∈ n, isNameChar c = true := by
  unfold afterName at h
  split_ifs at h with hne
  obtain rfl := Option.some.inj h
  exact ⟨_, List.takeWhile_append_dropWhile.symm, hne, fun c hc => List.mem_takeWhile_imp hc⟩

theorem afterName_append {n rest : Text} (hne : n ≠ []) (hn : ∀ c ∈ n, isNameChar c = true)
    (hrest : rest.head? = some '/') : afterName (n ++ rest) = some rest := by
  obtain ⟨c, cs, rfl⟩ := List.exists_cons_of_ne_nil (l := rest) (by rintro rfl; simp at hrest)
  obtain rfl := Option.some.inj hrest
  have htake : (n ++ '/' :: cs).takeWhile isNameChar = n := by
    rw [List.takeWhile_append_of_pos hn, List.takeWhile_cons_of_neg (by decide), List.append_nil]
  have hdrop : (n ++ '/' :: cs).dropWhile isNameChar = '/' :: cs := by
    rw [List.dropWhile_append_of_pos hn, List.dropWhile_cons_of_neg (by decide)]
  rw [afterName, htake, hdrop, if_neg hne]

/-- The fixed parts begin with a slash, and a token has none of their characters. -/
theorem literal_head {literal a : Text} (h : IsShape (('/' :: literal).map foldsTo) a)
    (rest : Text) :
    ∃ a', a ++ rest = '/' :: a' := by
  cases h with
  | cons hc _ =>
    have hslash := hc
    simp only [foldsTo] at hslash
    obtain rfl : _ = '/' := by simpa using hslash
    exact ⟨_, rfl⟩

/-- A path up to `providers`: the three fixed parts with a name between each two. -/
theorem afterPath_isSome_iff {t : Text} : (afterPath t).isSome ↔
    ∃ a n b n' d rest, t = a ++ (n ++ (b ++ (n' ++ (d ++ rest)))) ∧
      IsShape (subscriptions.map foldsTo) a ∧ IsShape (resourceGroups.map foldsTo) b ∧
      IsShape (providers.map foldsTo) d ∧ n ≠ [] ∧ (∀ c ∈ n, isNameChar c = true) ∧ n' ≠ [] ∧
      ∀ c ∈ n', isNameChar c = true := by
  unfold afterPath
  rw [Option.isSome_iff_exists]
  constructor
  · rintro ⟨rest, h⟩
    obtain ⟨t₁, h₁, h⟩ := Option.bind_eq_some_iff.mp h
    obtain ⟨t₂, h₂, h⟩ := Option.bind_eq_some_iff.mp h
    obtain ⟨t₃, h₃, h⟩ := Option.bind_eq_some_iff.mp h
    obtain ⟨t₄, h₄, h₅⟩ := Option.bind_eq_some_iff.mp h
    obtain ⟨a, rfl, ha⟩ := afterLiteral_eq_some.mp h₁
    obtain ⟨n, rfl, hne, hn⟩ := afterName_eq_some h₂
    obtain ⟨b, rfl, hb⟩ := afterLiteral_eq_some.mp h₃
    obtain ⟨n', rfl, hne', hn'⟩ := afterName_eq_some h₄
    obtain ⟨d, rfl, hd⟩ := afterLiteral_eq_some.mp h₅
    exact ⟨a, n, b, n', d, rest, rfl, ha, hb, hd, hne, hn, hne', hn'⟩
  · rintro ⟨a, n, b, n', d, rest, rfl, ha, hb, hd, hne, hn, hne', hn'⟩
    have hheadB : (b ++ (n' ++ (d ++ rest))).head? = some '/' := by
      obtain ⟨b', hb'⟩ := literal_head hb (n' ++ (d ++ rest))
      rw [hb']
      rfl
    have hheadD : (d ++ rest).head? = some '/' := by
      obtain ⟨d', hd'⟩ := literal_head hd rest
      rw [hd']
      rfl
    refine ⟨rest, ?_⟩
    rw [afterLiteral_eq_some.mpr ⟨a, rfl, ha⟩, Option.bind_eq_bind, Option.bind_some,
      afterName_append hne hn hheadB, Option.bind_some,
      afterLiteral_eq_some.mpr ⟨b, rfl, hb⟩, Option.bind_some,
      afterName_append hne' hn' hheadD, Option.bind_some]
    exact afterLiteral_eq_some.mpr ⟨d, rfl, hd⟩

/-- A name that ends with a slash comes from such a name. -/
theorem Sub.name_comes_from (hm : ∀ p x rest, m p (x ++ rest) = some x.length →
      ∀ c ∈ x, isNameChar c = true) (htoken : IsToken token) {p p' : Option Char} {u n after : Text}
    (h : Sub m token p p' u (n ++ '/' :: after)) (hn : ∀ c ∈ n, isNameChar c = true) :
    ∃ n' u' q q', u = n' ++ u' ∧ (∀ c ∈ n', isNameChar c = true) ∧ (n ≠ [] → n' ≠ []) ∧
      Sub m token q q' u' ('/' :: after) := by
  generalize hout : n ++ '/' :: after = out at h
  induction h generalizing n with
  | nil => exact absurd hout (by simp)
  | @keep p p' c cs out hnone h ih =>
    cases n with
    | nil =>
      have hslash : '/' :: after = c :: out := hout
      exact ⟨[], c :: cs, p, p', rfl, fun _ hc => absurd hc List.not_mem_nil,
        fun hne => absurd rfl hne, hslash ▸ .keep hnone h⟩
    | cons b n =>
      obtain ⟨rfl, htail⟩ := List.cons.inj hout
      obtain ⟨hb, hn⟩ := List.forall_mem_cons.mp hn
      obtain ⟨n', u', q, q', rfl, hn', -, hsub⟩ := ih hn htail
      exact ⟨b :: n', u', q, q', rfl, List.forall_mem_cons.mpr ⟨hb, hn'⟩,
        fun _ => List.cons_ne_nil _ _, hsub⟩
  | @hit p p' x rest out hne hmatch h ih =>
    have hx := hm p x rest hmatch
    rcases List.append_eq_append_iff.mp hout with ⟨s, hs, hs'⟩ | ⟨n₂, rfl, hs'⟩
    · cases s with
      | nil =>
        have hslash : '/' :: after = out := hs'
        exact ⟨x, rest, _, _, rfl, hx, fun _ => hne, hslash ▸ h⟩
      | cons c s =>
        obtain ⟨rfl, -⟩ := List.cons.inj hs'
        have hmem : '/' ∈ token := hs ▸ List.mem_append_right _ List.mem_cons_self
        exact absurd (htoken.name '/' hmem) (by decide)
    · obtain ⟨n', u', q, q', rfl, hn', -, hsub⟩ :=
        ih (fun c hc => hn c (List.mem_append_right _ hc)) hs'.symm
      refine ⟨x ++ n', u', q, q', (List.append_assoc _ _ _).symm, ?_, fun _ => ?_, hsub⟩
      · intro c hc
        rcases List.mem_append.mp hc with hc | hc
        · exact hx c hc
        · exact hn' c hc
      · exact List.append_ne_nil_of_left_ne_nil hne _

theorem mark_notMem_literal {literal a : Text} (h : IsShape (literal.map foldsTo) a)
    (hliteral : ∀ l ∈ literal, foldsTo l '<' = false) : '<' ∉ a := by
  have hchars : ∀ c ∈ a, c ≠ '<' := by
    refine h.forall fun f hf c hc heq => ?_
    obtain ⟨l, hl, rfl⟩ := List.mem_map.mp hf
    rw [heq, hliteral l hl] at hc
    exact absurd hc nofun
  exact fun hmem => hchars '<' hmem rfl

/-- A path of the result is one of the text. -/
theorem IsIdPattern.path_comes_from (hm : IsIdPattern w m) (htoken : IsToken token) {u v : Text}
    (h : Sub m token none none u v) (hv : ShowsPath v) : ShowsPath u := by
  obtain ⟨before, after, rfl, hpath⟩ := hv
  obtain ⟨a, n, b, n', d, rest, rfl, ha, hb, hd, hne, hn, hne', hn'⟩ :=
    afterPath_isSome_iff.mp hpath
  have hstarts : ∀ s out, s ≠ [] → s <:+ token → ¬(s ++ out).head? = some '/' := by
    intro s out hs hsuffix hhead
    obtain ⟨c, cs, rfl⟩ := List.exists_cons_of_ne_nil hs
    obtain rfl := Option.some.inj hhead
    exact absurd (htoken.name '/' (hsuffix.subset List.mem_cons_self)) (by decide)
  obtain ⟨a', ha'⟩ := literal_head ha (n ++ (b ++ (n' ++ (d ++ rest))))
  have hslash : (a ++ (n ++ (b ++ (n' ++ (d ++ rest))))).head? = some '/' := by
    rw [ha']
    rfl
  obtain ⟨before', u₁, rfl, h₁, -⟩ := @Sub.place m token (fun t => t.head? = some '/')
    (fun _ _ _ => True) htoken.ne_nil hstarts (fun _ _ => trivial) (fun _ _ _ _ _ => trivial)
    none none u before _ h trivial hslash
  obtain ⟨u₂, rfl, h₂⟩ := h₁.kept htoken.head (mark_notMem_literal ha (forall_mem_of_all (by decide)))
  obtain ⟨b', hb'⟩ := literal_head hb (n' ++ (d ++ rest))
  rw [hb'] at h₂
  obtain ⟨m₁, u₃, q, q', rfl, hm₁, hm₁ne, h₃⟩ := Sub.name_comes_from hm.chars htoken h₂ hn
  rw [← hb'] at h₃
  obtain ⟨u₄, rfl, h₄⟩ := h₃.kept htoken.head (mark_notMem_literal hb (forall_mem_of_all (by decide)))
  obtain ⟨d', hd'⟩ := literal_head hd rest
  rw [hd'] at h₄
  obtain ⟨m₂, u₅, r, r', rfl, hm₂, hm₂ne, h₅⟩ := Sub.name_comes_from hm.chars htoken h₄ hn'
  rw [← hd'] at h₅
  obtain ⟨u₆, rfl, -⟩ := h₅.kept htoken.head (mark_notMem_literal hd (forall_mem_of_all (by decide)))
  exact ⟨before', _, rfl, afterPath_isSome_iff.mpr ⟨a, m₁, b, m₂, d, u₆, rfl, ha, hb, hd,
    hm₁ne hne, hm₁, hm₂ne hne', hm₂⟩⟩

end

/-! ## The whole substitution -/

section
variable (w : WordChars)

/-- A text with nothing that names the tenant, which a second run leaves as it is. -/
structure IsRedacted (t : Text) : Prop where
  idempotent : redact w (redact w t) = redact w t
  noGuid : ∀ before after, ¬ShowsGuid (redact w t) before after
  noTruncated : ∀ before after, ¬ShowsTruncated (redact w t) before after
  noPath : ¬ShowsPath (redact w t)

/-- No word character stands beside an identifier of the text, and it shows no path. -/
structure StandsAlone (t : Text) : Prop where
  guid : ∀ before after, ShowsGuid t before after →
    (∀ c ∈ before.getLast?, w.isWord c = false) ∧ ∀ c ∈ after.head?, w.isWord c = false
  truncated : ∀ before after, ShowsTruncated t before after →
    ∀ c ∈ before.getLast?, w.isWord c = false
  path : ¬ShowsPath t

variable {w}

theorem any_eq_false_iff {f : Char → Bool} {o : Option Char} :
    o.any f = false ↔ ∀ c ∈ o, f c = false := by
  cases o <;> simp

/-- A text without identifiers and paths is left as it is. -/
theorem redact_eq_self {t : Text} (hguid : ∀ before after, ¬ShowsGuid t before after)
    (htruncated : ∀ before after, ¬ShowsTruncated t before after) (hpath : ¬ShowsPath t) :
    redact w t = t := by
  have hpaths : withoutPaths t = t := by
    refine substitute_eq_self fun before after heq _ => ?_
    rw [resourcePathMatch, Option.map_eq_none_iff, ← Option.not_isSome_iff_eq_none]
    exact fun hsome => hpath ⟨before, after, heq, hsome⟩
  have hguids : substitute (guidMatch w) guidToken none 0 t = t := by
    refine substitute_eq_self fun before after heq _ => ?_
    rw [Option.eq_none_iff_forall_ne_some]
    intro n hmatch
    obtain ⟨-, hbefore, hfits, hafter⟩ := guidMatch_eq_some.mp hmatch
    rw [charBefore, Option.or_none, any_eq_false_iff] at hbefore
    rw [any_eq_false_iff] at hafter
    refine hguid before (after.drop 36) ⟨after.take 36, ?_, isShape_of_fits hfits, ?_, ?_⟩
    · rw [List.take_append_drop]
      exact heq
    · exact fun c hc => w.not_hex (hbefore c hc)
    · exact fun c hc => w.not_hex (hafter c hc)
  have htruncateds : substitute (truncatedMatch w) truncatedToken none 0 t = t := by
    refine substitute_eq_self fun before after heq _ => ?_
    rw [Option.eq_none_iff_forall_ne_some]
    intro n hmatch
    obtain ⟨hbefore, hfits, k, hk, -⟩ := truncatedMatch_eq_some.mp hmatch
    rw [charBefore, Option.or_none, any_eq_false_iff] at hbefore
    refine htruncated before (after.drop 8) ⟨after.take 8, ?_, isShape_of_fits hfits, ?_, ?_⟩
    · rw [List.take_append_drop]
      exact heq
    · exact fun c hc => w.not_hex (hbefore c hc)
    · exact isCut_of_cutLength hk
  unfold redact
  dsimp only
  rw [hpaths, hguids, htruncateds]

section
variable {t : Text} (h : StandsAlone w (withoutPaths t))

theorem sub_guids (t : Text) : Sub (guidMatch w) guidToken none none t
    (substitute (guidMatch w) guidToken none 0 t) :=
  sub_substitute isIdPattern_guidMatch.bounds _ le_rfl none none

theorem sub_truncateds (t : Text) : Sub (truncatedMatch w) truncatedToken none none t
    (substitute (truncatedMatch w) truncatedToken none 0 t) :=
  sub_substitute isIdPattern_truncatedMatch.bounds _ le_rfl none none

include h

theorem StandsAlone.not_showsGuid (before after : Text) : ¬ShowsGuid (redact w t) before after := by
  rintro ⟨g, heq, hg, hbefore, hafter⟩
  obtain ⟨before₁, after₁, heq₁, hbefore₁, hafter₁, -⟩ :=
    isIdPattern_truncatedMatch.guid_comes_from isToken_truncatedToken (sub_truncateds _) heq hg
      hbefore hafter
  obtain ⟨before₂, after₂, heq₂, hbefore₂, hafter₂, hnone⟩ :=
    isIdPattern_guidMatch.guid_comes_from isToken_guidToken (sub_guids _) heq₁ hg hbefore₁ hafter₁
  obtain ⟨hleft, hright⟩ := h.guid before₂ after₂ ⟨g, heq₂, hg, hbefore₂, hafter₂⟩
  have hmatch : guidMatch w before₂.getLast? (g ++ after₂) = some 36 := by
    refine guidMatch_eq_some.mpr ⟨rfl, any_eq_false_iff.mpr hleft, fits_of_isShape hg _, ?_⟩
    have hlength : g.length = 36 := hg.length
    rw [List.drop_left' hlength]
    exact any_eq_false_iff.mpr hright
  exact absurd (hnone.symm.trans hmatch) nofun

theorem StandsAlone.not_showsTruncated (before after : Text) :
    ¬ShowsTruncated (redact w t) before after := by
  rintro ⟨x, heq, hx, hbefore, hafter⟩
  obtain ⟨before₁, after₁, heq₁, hbefore₁, hafter₁, -, hnone⟩ :=
    isIdPattern_truncatedMatch.truncated_comes_from isToken_truncatedToken (sub_truncateds _) heq
      hx hbefore hafter
  obtain ⟨before₂, after₂, heq₂, hbefore₂, hafter₂, hword, -⟩ :=
    isIdPattern_guidMatch.truncated_comes_from isToken_guidToken (sub_guids _) heq₁ hx hbefore₁
      hafter₁
  -- the first substitution leaves alike characters before the digits
  have hleft := h.truncated before₂ after₂ ⟨x, heq₂, hx, hbefore₂, hafter₂⟩
  rw [← any_eq_false_iff, hword] at hleft
  obtain ⟨k, hk⟩ := Option.isSome_iff_exists.mp (cutLength_isSome hafter₁)
  have hmatch : truncatedMatch w before₁.getLast? (x ++ after₁) = some (8 + k) := by
    refine truncatedMatch_eq_some.mpr ⟨hleft, fits_of_isShape hx _, k, ?_, rfl⟩
    have hlength : x.length = 8 := hx.length
    rw [List.drop_left' hlength]
    exact hk
  exact absurd (hnone.symm.trans hmatch) nofun

theorem StandsAlone.not_showsPath : ¬ShowsPath (redact w t) := fun hpath =>
  h.path (isIdPattern_guidMatch.path_comes_from isToken_guidToken (sub_guids _)
    (isIdPattern_truncatedMatch.path_comes_from isToken_truncatedToken (sub_truncateds _) hpath))

end

end

/-! ## An underscore before an identifier -/

namespace Sample

def word : WordChars where
  isWord c := isHex c || c.isAlphanum || c = '_'
  hex c h := by rw [h]; rfl
  mark := forall_mem_of_all (by decide)

def guid : Text := "0a1b2c3d-0a1b-0a1b-0a1b-0a1b2c3d4e5f".toList

def hidden : Text := '_' :: guid

def path : Text := "on /subscriptions/a/resourceGroups/b/providers/c".toList

theorem isShape_guid : IsShape guidShape guid :=
  isShape_of_fits (show fits guidShape guid = true by decide)

theorem withoutPaths_path : withoutPaths path = "on <redacted-resource-path>".toList := by decide

theorem notMem_path : ∀ c ∈ withoutPaths path, c ≠ '.' ∧ c ≠ '…' ∧ c ≠ '/' := by
  rw [withoutPaths_path]
  exact forall_mem_of_all (by decide)

theorem standsAlone_path : StandsAlone word (withoutPaths path) where
  guid before after h := by
    obtain ⟨g, heq, hg, -⟩ := h
    have hlength := congrArg List.length heq
    rw [withoutPaths_path, List.length_append, List.length_append, hg.length] at hlength
    have hshort : "on <redacted-resource-path>".toList.length = 27 := by decide
    have hlong : guidShape.length = 36 := by decide
    omega
  truncated before after h := by
    obtain ⟨x, heq, -, -, hcut⟩ := h
    have hmem : ∀ c ∈ after, c ∈ withoutPaths path := fun c hc => by
      rw [heq]
      exact List.mem_append_right _ (List.mem_append_right _ hc)
    rcases hcut with hdots | hellipsis
    · exact absurd rfl (notMem_path '.' (hmem _ (hdots.subset List.mem_cons_self))).1
    · exact absurd rfl (notMem_path '…' (hmem _ (hellipsis.subset List.mem_cons_self))).2.1
  path h := by
    obtain ⟨before, after, heq, hpath⟩ := h
    obtain ⟨a, n, b, n', d, rest, rfl, ha, -⟩ := afterPath_isSome_iff.mp hpath
    obtain ⟨a', ha'⟩ := literal_head ha (n ++ (b ++ (n' ++ (d ++ rest))))
    have hslash : '/' ∈ withoutPaths path := by
      rw [heq, ha']
      exact List.mem_append_right _ List.mem_cons_self
    exact absurd rfl (notMem_path '/' hslash).2.2

end Sample

end ContentOps.Redact
