import ContentOps.Library.Json
import Mathlib.Tactic.IntervalCases

/-! `loads` inverts `dumps`, for every layout whose padding is white space. -/

namespace Json
open PyData

/-! ## Numbers -/

theorem digitsOf_isDigit {n : Nat} {c : Char} (h : c ∈ digitsOf n) : c.isDigit = true :=
  Nat.isDigit_of_mem_toDigits (by decide) (by decide) h

theorem digitsOf_ne_nil (n : Nat) : digitsOf n ≠ [] := Nat.toDigits_ne_nil

theorem digitChar_ne_zero {n : Nat} (h : 0 < n) (hn : n < 10) : n.digitChar ≠ '0' := by
  interval_cases n <;> decide

/-- Only zero is written with a leading zero. -/
theorem head_digitsOf (n : Nat) : digitsOf n = ['0'] ∨ ∀ c ∈ (digitsOf n).head?, c ≠ '0' := by
  induction n using Nat.strong_induction_on with
  | _ n ih =>
    by_cases hn : n < 10
    · rw [digitsOf, Nat.toDigits_of_lt_base hn]
      rcases Nat.eq_zero_or_pos n with rfl | hpos
      · exact .inl rfl
      · refine .inr fun c hc => ?_
        simp only [List.head?_cons, Option.mem_some_iff] at hc
        exact hc ▸ digitChar_ne_zero hpos hn
    · have hbase : 10 ≤ n := Nat.le_of_not_lt hn
      right
      rw [digitsOf, Nat.toDigits_of_base_le (by decide) hbase]
      rw [List.head?_append_of_ne_nil _ Nat.toDigits_ne_nil]
      rcases ih (n / 10) (Nat.div_lt_self (by omega) (by decide)) with h | h
      · have hq : Nat.ofDigitChars 10 (digitsOf (n / 10)) 0 = n / 10 :=
          Nat.ofDigitChars_ten_toDigits
        rw [h] at hq
        have h0 : n / 10 = 0 := by simpa [Nat.ofDigitChars] using hq.symm
        omega
      · exact h

theorem takeWhile_digits {l rest : Text} (hl : ∀ c ∈ l, c.isDigit = true)
    (hr : ∀ c ∈ rest.head?, c.isDigit = false) : (l ++ rest).takeWhile Char.isDigit = l := by
  rw [List.takeWhile_append_of_pos hl]
  cases rest with
  | nil => simp
  | cons c cs => simp [hr c rfl]

theorem dropWhile_digits {l rest : Text} (hl : ∀ c ∈ l, c.isDigit = true)
    (hr : ∀ c ∈ rest.head?, c.isDigit = false) : (l ++ rest).dropWhile Char.isDigit = rest := by
  rw [List.dropWhile_append_of_pos hl]
  cases rest with
  | nil => rfl
  | cons c cs => simp [hr c rfl]

theorem Delimited.not_digit {rest : Text} (h : Delimited rest) :
    ∀ c ∈ rest.head?, c.isDigit = false := by
  intro c hc
  have hd := h c hc
  simp only [isDelimiter, List.mem_cons, List.not_mem_nil, or_false, decide_eq_true_eq] at hd
  rcases hd with rfl | rfl | rfl | rfl | rfl | rfl | rfl <;> decide

theorem Delimited.head_ne {rest : Text} (h : Delimited rest) {c : Char}
    (hc : isDelimiter c = false) : ∀ cs, rest ≠ c :: cs := by
  rintro cs rfl
  rw [h c rfl] at hc
  exact Bool.noConfusion hc

theorem scanNat_digitsOf (n : Nat) {rest : Text} (h : Delimited rest) :
    scanNat (digitsOf n ++ rest) = some (digitsOf n, rest) := by
  obtain ⟨c, cs, hcs⟩ := List.exists_cons_of_ne_nil (digitsOf_ne_nil n)
  have hall : ∀ a ∈ c :: cs, a.isDigit = true := fun a ha => digitsOf_isDigit (n := n) (hcs ▸ ha)
  have hhead := head_digitsOf n
  rw [hcs] at hhead ⊢
  rcases hhead with h0 | h0
  · obtain ⟨rfl, rfl⟩ : c = '0' ∧ cs = [] := by simpa using h0
    rfl
  · have hc : c ≠ '0' := h0 c rfl
    have hcs' : ∀ a ∈ cs, a.isDigit = true := fun a ha => hall a (List.mem_cons_of_mem _ ha)
    rw [List.cons_append, scanNat, if_neg hc, if_pos (hall c (List.mem_cons_self ..)),
      takeWhile_digits hcs' h.not_digit, dropWhile_digits hcs' h.not_digit]

theorem writeInt_head (n : Int) : ∃ c cs, writeInt n = c :: cs ∧ (c = '-' ∨ c.isDigit = true) := by
  cases n with
  | ofNat n =>
    obtain ⟨c, cs, hcs⟩ := List.exists_cons_of_ne_nil (digitsOf_ne_nil n)
    exact ⟨c, cs, hcs, .inr (digitsOf_isDigit (n := n) (hcs ▸ List.mem_cons_self ..))⟩
  | negSucc n => exact ⟨'-', digitsOf (n + 1), rfl, .inl rfl⟩

theorem scanInt_of_not_minus {cs : Text} (h : ∀ r, cs ≠ '-' :: r) : scanInt cs = scanNat cs := by
  unfold scanInt
  split
  · exact absurd rfl (h _)
  · rfl

theorem digitsOf_append_ne (n : Nat) {c : Char} (hc : c.isDigit = false) (rest : Text) :
    ∀ r, digitsOf n ++ rest ≠ c :: r := by
  intro r h
  obtain ⟨d, ds, hds⟩ := List.exists_cons_of_ne_nil (digitsOf_ne_nil n)
  rw [hds, List.cons_append, List.cons.injEq] at h
  have hd : d.isDigit = true := digitsOf_isDigit (n := n) (hds ▸ List.mem_cons_self ..)
  rw [h.1, hc] at hd
  exact Bool.noConfusion hd

theorem scanInt_writeInt (n : Int) {rest : Text} (h : Delimited rest) :
    scanInt (writeInt n ++ rest) = some (writeInt n, rest) := by
  cases n with
  | ofNat n =>
    rw [writeInt, scanInt_of_not_minus (digitsOf_append_ne n (by decide) rest),
      scanNat_digitsOf n h]
  | negSucc n =>
    rw [writeInt, List.cons_append, scanInt, scanNat_digitsOf (n + 1) h]
    rfl

theorem scanFrac_delimited {rest : Text} (h : Delimited rest) : scanFrac rest = ([], rest) := by
  unfold scanFrac
  split
  · exact absurd rfl (h.head_ne (by decide) _)
  · rfl

theorem scanExp_delimited {rest : Text} (h : Delimited rest) : scanExp rest = ([], rest) := by
  cases rest with
  | nil => rfl
  | cons c cs =>
    have hne : ¬ (c = 'e' ∨ c = 'E') := by
      rintro (rfl | rfl) <;> exact h.head_ne (by decide) _ rfl
    simp only [scanExp, hne, false_and, if_false]

theorem not_prefix_of_head {p cs : Text} {a c : Char} (hp : p.head? = some a)
    (hc : cs.head? = some c) (hne : a ≠ c) : ¬ p <+: cs := by
  rintro ⟨t, rfl⟩
  cases p with
  | nil => simp at hp
  | cons b p =>
    simp only [List.cons_append, List.head?_cons, Option.some.injEq] at hp hc
    exact hne (hp.symm.trans hc)

theorem minus_infinity_not_prefix (n : Nat) (rest : Text) :
    ¬ "-Infinity".toList <+: '-' :: (digitsOf n ++ rest) := by
  rintro ⟨t, ht⟩
  exact digitsOf_append_ne n (c := 'I') (by decide) rest _ (List.cons.inj ht).2.symm

theorem scanNumber_writeInt (n : Int) {rest : Text} (h : Delimited rest) :
    scanNumber (writeInt n ++ rest) = some (writeInt n, false, rest) := by
  obtain ⟨c, cs, hcs, hc⟩ := writeInt_head n
  have hhead : (writeInt n ++ rest).head? = some c := by rw [hcs]; rfl
  have hN : ¬ "NaN".toList <+: writeInt n ++ rest :=
    not_prefix_of_head (a := 'N') rfl hhead (by rintro rfl; revert hc; decide)
  have hI : ¬ "Infinity".toList <+: writeInt n ++ rest :=
    not_prefix_of_head (a := 'I') rfl hhead (by rintro rfl; revert hc; decide)
  have hM : ¬ "-Infinity".toList <+: writeInt n ++ rest := by
    cases n with
    | ofNat n =>
      rintro ⟨t, ht⟩
      exact digitsOf_append_ne n (by decide) rest _ ht.symm
    | negSucc n => exact minus_infinity_not_prefix (n + 1) rest
  rw [scanNumber, if_neg hN, if_neg hI, if_neg hM, scanInt_writeInt n h]
  simp only [Option.map_some, scanFrac_delimited h, scanExp_delimited h, List.append_nil,
    List.isEmpty_nil, Bool.and_self, Bool.not_true]

theorem readInt_writeInt (n : Int) : readInt (writeInt n) = n := by
  cases n with
  | ofNat n =>
    have hread : readInt (digitsOf n) = (Nat.ofDigitChars 10 (digitsOf n) 0 : Int) := by
      unfold readInt
      split
      · next cs h => exact absurd h (by simpa using digitsOf_append_ne n (by decide) [] cs)
      · rfl
    rw [writeInt, hread, digitsOf, Nat.ofDigitChars_ten_toDigits]
    rfl
  | negSucc n =>
    rw [writeInt, readInt, digitsOf, Nat.ofDigitChars_ten_toDigits]
    rfl

/-! ## Strings -/

theorem hexValue_digitChar {d : Nat} (h : d < 16) : hexValue d.digitChar = some d := by
  interval_cases d <;> decide

theorem readHex_hexDigits {n : Nat} (h : n < 0x10000) (cs : Text) :
    readHex (hexDigits n ++ cs) = some (n, cs) := by
  simp only [hexDigits, List.cons_append, List.nil_append, readHex,
    hexValue_digitChar (Nat.mod_lt _ (by decide : 0 < 16)), Option.bind_eq_bind,
    Option.bind_some, Option.some.injEq, Prod.mk.injEq, and_true]
  omega

theorem charOfNat?_toNat (c : Char) : charOfNat? c.toNat = some c := by
  have hv : c.toNat.isValidChar := c.valid
  rw [charOfNat?, if_pos hv, Char.ofNat_toNat]

theorem toNat_not_surrogate (c : Char) : ¬ (0xd800 ≤ c.toNat ∧ c.toNat < 0xe000) := by
  have hv : c.toNat.isValidChar := c.valid
  rcases hv with hv | hv <;> omega

theorem toNat_lt (c : Char) : c.toNat < 0x110000 := by
  have hv : c.toNat.isValidChar := c.valid
  rcases hv with hv | hv <;> omega

theorem readUnicode_bmp {c : Char} (h : c.toNat < 0x10000) (cs : Text) :
    readUnicode (hexDigits c.toNat ++ cs) = some (c, cs) := by
  have hs : ¬ (0xd800 ≤ c.toNat ∧ c.toNat < 0xdc00) := fun hs =>
    toNat_not_surrogate c ⟨hs.1, by omega⟩
  simp only [readUnicode, readHex_hexDigits h, Option.bind_eq_bind, Option.bind_some]
  rw [if_neg hs, charOfNat?_toNat]
  rfl

theorem readUnicode_pair {c : Char} {n m : Nat} (hn : 0xd800 ≤ n ∧ n < 0xdc00)
    (hm : 0xdc00 ≤ m ∧ m < 0xe000)
    (hc : 0x10000 + (n - 0xd800) * 0x400 + (m - 0xdc00) = c.toNat) (cs : Text) :
    readUnicode (hexDigits n ++ (escapeU m ++ cs)) = some (c, cs) := by
  simp only [readUnicode, readHex_hexDigits (show n < 0x10000 by omega), Option.bind_eq_bind,
    Option.bind_some]
  rw [if_pos hn]
  simp only [escapeU, List.cons_append, readHex_hexDigits (show m < 0x10000 by omega),
    Option.bind_some]
  rw [if_pos hm, hc, charOfNat?_toNat]
  rfl

/-- The two halves of a character beyond the basic plane are a surrogate pair that adds up to it. -/
theorem surrogates_of_toNat {c : Char} (h : 0x10000 ≤ c.toNat) :
    ∃ n m, n = 0xd800 + (c.toNat - 0x10000) / 0x400 ∧ m = 0xdc00 + (c.toNat - 0x10000) % 0x400 ∧
      (0xd800 ≤ n ∧ n < 0xdc00) ∧ (0xdc00 ≤ m ∧ m < 0xe000) ∧
      0x10000 + (n - 0xd800) * 0x400 + (m - 0xdc00) = c.toNat := by
  have hlt := toNat_lt c
  exact ⟨_, _, rfl, rfl, by omega, by omega, by omega⟩

theorem readChars_plain {c : Char} (hq : c ≠ '"') (hb : c ≠ '\\') (h : ¬ c.toNat < 0x20)
    (fuel : Nat) (cs : Text) :
    readChars (fuel + 1) (c :: cs) = (readChars fuel cs).map fun (s, r) => (c :: s, r) := by
  simp only [readChars, if_neg hq, if_neg hb, if_neg h]
  cases readChars fuel cs <;> rfl

theorem readChars_escape {c : Char} {e cs : Text} (he : readEscape (e ++ cs) = some (c, cs))
    (fuel : Nat) :
    readChars (fuel + 1) ('\\' :: e ++ cs) =
      (readChars fuel cs).map fun (s, r) => (c :: s, r) := by
  rw [List.cons_append, readChars, if_neg (by decide), if_pos rfl, he]
  simp only [Option.bind_eq_bind, Option.bind_some]
  cases readChars fuel cs <;> rfl

/-- One written character is read back as itself. -/
theorem readChars_escapeChar (asciiOnly : Bool) (c : Char) (fuel : Nat) (cs : Text) :
    readChars (fuel + 1) (escapeChar asciiOnly c ++ cs) =
      (readChars fuel cs).map fun (s, r) => (c :: s, r) := by
  unfold escapeChar
  split_ifs with h1 h2 h3 h4 h5 h6 h7 h8 h9 h10
  · exact readChars_escape (e := ['"']) (by subst h1; rfl) fuel
  · exact readChars_escape (e := ['\\']) (by subst h2; rfl) fuel
  · exact readChars_escape (e := ['n']) (by subst h3; rfl) fuel
  · exact readChars_escape (e := ['r']) (by subst h4; rfl) fuel
  · exact readChars_escape (e := ['t']) (by subst h5; rfl) fuel
  · exact readChars_escape (e := ['f']) (by subst h6; rfl) fuel
  · exact readChars_escape (e := ['b']) (by subst h7; rfl) fuel
  · exact readChars_escape (e := 'u' :: hexDigits c.toNat)
      (readUnicode_bmp (by omega) cs) fuel
  · exact readChars_plain h1 h2 h8 fuel cs
  · exact readChars_escape (e := 'u' :: hexDigits c.toNat) (readUnicode_bmp h10 cs) fuel
  · obtain ⟨n, m, hn, hm, hn', hm', hc⟩ := surrogates_of_toNat (Nat.le_of_not_lt h10)
    have he : readEscape ('u' :: (hexDigits n ++ escapeU m) ++ cs) = some (c, cs) := by
      rw [List.cons_append, List.append_assoc]
      exact readUnicode_pair hn' hm' hc cs
    rw [← hn, ← hm]
    simpa only [escapeU, List.cons_append, List.append_assoc] using readChars_escape he fuel

theorem readChars_flatMap (asciiOnly : Bool) (s rest : Text) {fuel : Nat} (h : s.length < fuel) :
    readChars fuel (s.flatMap (escapeChar asciiOnly) ++ '"' :: rest) = some (s, rest) := by
  induction s generalizing fuel with
  | nil =>
    obtain ⟨fuel, rfl⟩ := Nat.exists_eq_add_of_lt h
    simp [readChars]
  | cons c s ih =>
    obtain ⟨fuel, rfl⟩ : ∃ f, fuel = f + 1 := ⟨fuel - 1, by simp at h; omega⟩
    rw [List.flatMap_cons, List.append_assoc, readChars_escapeChar,
      ih (by simpa using h)]
    rfl

theorem length_le_writeString (asciiOnly : Bool) (s : String) :
    s.toList.length + 2 ≤ (writeString asciiOnly s).length := by
  have hone : ∀ c, 1 ≤ (escapeChar asciiOnly c).length := by
    intro c
    unfold escapeChar
    split_ifs <;> simp [escapeU, hexDigits]
  have hall : ∀ l : Text, l.length ≤ (l.flatMap (escapeChar asciiOnly)).length := by
    intro l
    induction l with
    | nil => simp
    | cons c l ih =>
      have := hone c
      simp only [List.flatMap_cons, List.length_append, List.length_cons]
      omega
  have := hall s.toList
  simp only [writeString, List.length_cons, List.length_append, List.length_nil]
  omega

/-! ## Documents -/

/-- A layout whose padding is white space. -/
structure Style.Blank (st : Style) : Prop where
  pad : ∀ d, ∀ c ∈ st.pad d, isSpace c = true
  gap : ∀ c ∈ st.gap, isSpace c = true

theorem compact_blank : compact.Blank := ⟨by simp [compact], by simp [compact]⟩

theorem indent2_blank (asciiOnly : Bool) : (indent2 asciiOnly).Blank := by
  refine ⟨fun d c hc => ?_, fun c hc => ?_⟩
  · simp only [indent2, List.mem_cons, List.mem_replicate] at hc
    rcases hc with rfl | ⟨-, rfl⟩ <;> decide
  · simp only [indent2, List.mem_singleton] at hc
    exact hc ▸ by decide

theorem skipSpace_append {p : Text} (hp : ∀ c ∈ p, isSpace c = true) (cs : Text) :
    skipSpace (p ++ cs) = skipSpace cs := List.dropWhile_append_of_pos hp

theorem skipSpace_of_head {c : Char} (h : isSpace c = false) (cs : Text) :
    skipSpace (c :: cs) = c :: cs := List.dropWhile_cons_of_neg (by simp [h])

theorem delimited_pad {p : Text} (hp : ∀ c ∈ p, isSpace c = true) {c : Char}
    (hc : isDelimiter c = true) (cs : Text) : Delimited (p ++ c :: cs) := by
  intro a ha
  cases p with
  | nil =>
    simp only [List.nil_append, List.head?_cons, Option.mem_some_iff] at ha
    exact ha ▸ hc
  | cons b p =>
    simp only [List.cons_append, List.head?_cons, Option.mem_some_iff] at ha
    have hb := hp b (List.mem_cons_self ..)
    simp only [isSpace, List.mem_cons, List.not_mem_nil, or_false, decide_eq_true_eq] at hb
    subst ha
    rcases hb with rfl | rfl | rfl | rfl <;> decide

section
variable {X : Type} [FloatText X]

/-- The characters a written value can begin with. -/
def startsValue (c : Char) : Bool :=
  c ∈ ['n', 't', 'f', '"', '[', '{', '-', 'N', 'I'] || c.isDigit

theorem write_head (st : Style) (depth : Nat) (v : Value X) (rest : Text) :
    ∃ c cs, write st depth v ++ rest = c :: cs ∧ startsValue c = true := by
  cases v with
  | null => exact ⟨_, _, rfl, by decide⟩
  | bool b => cases b <;> exact ⟨_, _, rfl, by decide⟩
  | int n =>
    obtain ⟨c, cs, hcs, hc⟩ := writeInt_head n
    refine ⟨c, cs ++ rest, by rw [write, hcs]; rfl, ?_⟩
    rcases hc with rfl | hc
    · rfl
    · simp [startsValue, hc]
  | scalar x =>
    have hscan := FloatText.scan_write x [] (by simp [Delimited])
    have hne : FloatText.write x ≠ [] := by
      intro h
      rw [h] at hscan
      exact absurd hscan (by decide)
    obtain ⟨c, cs, hcs⟩ := List.exists_cons_of_ne_nil hne
    refine ⟨c, cs ++ rest, by rw [write, hcs]; rfl, ?_⟩
    have hc := FloatText.head_write x c (by rw [hcs]; rfl)
    simp only [List.mem_cons, List.not_mem_nil, or_false] at hc
    rcases hc with (rfl | rfl | rfl) | hc
    · rfl
    · rfl
    · rfl
    · simp [startsValue, hc]
  | str s => exact ⟨_, _, rfl, by decide⟩
  | list vs => cases vs <;> exact ⟨_, _, by rw [write]; rfl, by decide⟩
  | dict d => cases d <;> exact ⟨_, _, by rw [write]; rfl, by decide⟩

theorem startsValue_not_space {c : Char} (h : startsValue c = true) : isSpace c = false := by
  by_contra hs
  rw [Bool.not_eq_false, isSpace, decide_eq_true_eq] at hs
  simp only [List.mem_cons, List.not_mem_nil, or_false] at hs
  rcases hs with rfl | rfl | rfl | rfl <;> exact absurd h (by decide)

theorem skipSpace_write (st : Style) (depth : Nat) (v : Value X) (rest : Text) :
    skipSpace (write st depth v ++ rest) = write st depth v ++ rest := by
  obtain ⟨c, cs, hcs, hc⟩ := write_head st depth v rest
  rw [hcs, skipSpace_of_head (startsValue_not_space hc)]

theorem readNumber_writeInt (n : Int) {rest : Text} (h : Delimited rest) :
    readNumber (X := X) (writeInt n ++ rest) = some (.int n, rest) := by
  rw [readNumber, scanNumber_writeInt n h]
  simp only [readInt_writeInt]

theorem readNumber_float (x : X) {rest : Text} (h : Delimited rest) :
    readNumber (FloatText.write x ++ rest) = some (.scalar x, rest) := by
  rw [readNumber, FloatText.scan_write x rest h]
  simp only [FloatText.read_write, Option.map_some]

/-- A token that begins like a number is read as one. -/
theorem readValue_number {c : Char} (h : c ∈ ['-', 'N', 'I'] ∨ c.isDigit = true) (fuel : Nat)
    (cs : Text) : readValue (X := X) (fuel + 1) (c :: cs) = readNumber (c :: cs) := by
  have hne : ∀ a ∈ ['"', '[', '{', 'n', 't', 'f'], c ≠ a := by
    rintro a ha rfl
    simp only [List.mem_cons, List.not_mem_nil, or_false] at ha
    rcases ha with rfl | rfl | rfl | rfl | rfl | rfl <;> revert h <;> decide
  simp only [List.mem_cons, List.not_mem_nil, or_false, forall_eq_or_imp, forall_eq] at hne
  obtain ⟨h1, h2, h3, h4, h5, h6⟩ := hne
  simp only [readValue, if_neg h1, if_neg h2, if_neg h3, if_neg h4, if_neg h5, if_neg h6]

theorem readValue_list {vs : List (Value X)} {fuel : Nat} {cs body r : Text}
    (hskip : skipSpace cs = body) (hbody : ∀ r, body ≠ ']' :: r)
    (h : readItems fuel body = some (vs, r)) :
    readValue (fuel + 1) ('[' :: cs) = some (.list vs, r) := by
  rw [readValue, if_neg (by decide), if_pos rfl, hskip]
  split
  · next r' => exact absurd rfl (hbody r')
  · rw [h]
    rfl

theorem readValue_dict {d : Dict String (Value X)} (hd : d.keys.Nodup) {fuel : Nat} {cs body r : Text}
    (hskip : skipSpace cs = body) (hbody : ∀ r, body ≠ '}' :: r)
    (h : readEntries fuel body = some (d, r)) :
    readValue (fuel + 1) ('{' :: cs) = some (.dict d, r) := by
  rw [readValue, if_neg (by decide), if_neg (by decide), if_pos rfl, hskip]
  split
  · next r' => exact absurd rfl (hbody r')
  · simp only [h, Option.map_some, Dict.ofPairs_of_nodup hd]

theorem readItems_last {v : Value X} {fuel : Nat} {cs r rest : Text}
    (hv : readValue fuel cs = some (v, r)) (hr : skipSpace r = ']' :: rest) :
    readItems (fuel + 1) cs = some ([v], rest) := by
  rw [readItems, hv]
  simp only [Option.bind_eq_bind, Option.bind_some, hr]

theorem readItems_cons {v : Value X} {vs : List (Value X)} {fuel : Nat} {cs r tail rest : Text}
    (hv : readValue fuel cs = some (v, r)) (hr : skipSpace r = ',' :: tail)
    (h : readItems fuel (skipSpace tail) = some (vs, rest)) :
    readItems (fuel + 1) cs = some (v :: vs, rest) := by
  rw [readItems, hv]
  simp only [Option.bind_eq_bind, Option.bind_some, hr, h]

theorem readEntries_key (asciiOnly : Bool) (k : String) {v : Value X} {fuel : Nat}
    (hfuel : k.toList.length < fuel) {gap cs r : Text} (hgap : ∀ c ∈ gap, isSpace c = true)
    (hskip : skipSpace cs = cs) (hv : readValue fuel cs = some (v, r)) :
    readEntries (fuel + 1) (writeString asciiOnly k ++ ':' :: gap ++ cs) =
      match skipSpace r with
      | ',' :: r => do
        let (d, r) ← readEntries fuel (skipSpace r)
        some ((k, v) :: d, r)
      | '}' :: r => some ([(k, v)], r)
      | _ => none := by
  have hkey : dropPrefix ['"'] (writeString asciiOnly k ++ ':' :: gap ++ cs) =
      some (k.toList.flatMap (escapeChar asciiOnly) ++ '"' :: (':' :: (gap ++ cs))) := by
    simp [dropPrefix, writeString]
  have hcolon : dropPrefix [':'] (skipSpace (':' :: (gap ++ cs))) = some (gap ++ cs) := by
    rw [skipSpace_of_head (by decide)]
    simp [dropPrefix]
  rw [readEntries, hkey]
  simp only [Option.bind_eq_bind, Option.bind_some, readChars_flatMap asciiOnly _ _ hfuel, hcolon,
    skipSpace_append hgap, hskip, hv, String.ofList_toList]
  all_goals rfl

/-- The entries of a list after the padding that opens it. -/
def itemsBody (st : Style) (depth : Nat) : List (Value X) → Text
  | [] => []
  | v :: vs => write st depth v ++ (if vs.isEmpty then [] else ',' :: writeItems st depth vs)

/-- The entries of a dictionary after the padding that opens it. -/
def entriesBody (st : Style) (depth : Nat) : List (String × Value X) → Text
  | [] => []
  | (k, v) :: d => writeString st.asciiOnly k ++ ':' :: st.gap ++ (write st depth v ++
      (if d.isEmpty then [] else ',' :: writeEntries st depth d))

theorem writeItems_eq (st : Style) (depth : Nat) {vs : List (Value X)} (h : vs ≠ []) :
    writeItems st depth vs = st.pad depth ++ itemsBody st depth vs := by
  cases vs with
  | nil => exact absurd rfl h
  | cons v vs => rw [writeItems, itemsBody, List.append_assoc]

theorem writeEntries_eq (st : Style) (depth : Nat) {d : List (String × Value X)} (h : d ≠ []) :
    writeEntries st depth d = st.pad depth ++ entriesBody st depth d := by
  cases d with
  | nil => exact absurd rfl h
  | cons p d =>
    obtain ⟨k, v⟩ := p
    simp only [writeEntries, entriesBody, List.append_assoc, List.cons_append]

theorem itemsBody_head (st : Style) (depth : Nat) {vs : List (Value X)} (h : vs ≠ [])
    (rest : Text) :
    ∃ c cs, itemsBody st depth vs ++ rest = c :: cs ∧ startsValue c = true := by
  cases vs with
  | nil => exact absurd rfl h
  | cons v vs =>
    rw [itemsBody, List.append_assoc]
    exact write_head st depth v _

theorem skipSpace_itemsBody (st : Style) (depth : Nat) {vs : List (Value X)} (h : vs ≠ [])
    (rest : Text) :
    skipSpace (itemsBody st depth vs ++ rest) = itemsBody st depth vs ++ rest := by
  obtain ⟨c, cs, hcs, hc⟩ := itemsBody_head st depth h rest
  rw [hcs, skipSpace_of_head (startsValue_not_space hc)]

theorem entriesBody_head (st : Style) (depth : Nat) {d : List (String × Value X)} (h : d ≠ [])
    (rest : Text) : ∃ cs, entriesBody st depth d ++ rest = '"' :: cs := by
  cases d with
  | nil => exact absurd rfl h
  | cons p d => exact ⟨_, rfl⟩

theorem skipSpace_entriesBody (st : Style) (depth : Nat) {d : List (String × Value X)} (h : d ≠ [])
    (rest : Text) :
    skipSpace (entriesBody st depth d ++ rest) = entriesBody st depth d ++ rest := by
  obtain ⟨cs, hcs⟩ := entriesBody_head st depth h rest
  rw [hcs, skipSpace_of_head (by decide)]

theorem length_write_pos (st : Style) (depth : Nat) (v : Value X) :
    0 < (write st depth v).length := by
  obtain ⟨c, cs, hcs, -⟩ := write_head st depth v []
  rw [List.append_nil] at hcs
  rw [hcs]
  exact Nat.succ_pos _

mutual

/-- What `write` puts down, `readValue` takes up, and it stops where the value ends. -/
theorem readValue_write {st : Style} (hst : st.Blank) (depth fuel : Nat) (v : Value X)
    (hwf : v.WF) (rest : Text) (hrest : Delimited rest)
    (hfuel : 2 * (write st depth v).length ≤ fuel) :
    readValue fuel (write st depth v ++ rest) = some (v, rest) := by
  have hpos := length_write_pos st depth v
  obtain ⟨fuel, rfl⟩ : ∃ f, fuel = f + 1 := ⟨fuel - 1, by omega⟩
  match v, hwf with
  | .null, _ => simp [write, readValue, dropPrefix]
  | .bool true, _ => simp [write, readValue, dropPrefix]
  | .bool false, _ => simp [write, readValue, dropPrefix]
  | .int n, _ =>
    obtain ⟨c, cs, hcs, hc⟩ := writeInt_head n
    have hnum := readNumber_writeInt (X := X) n hrest
    rw [hcs, List.cons_append] at hnum
    rw [write, hcs, List.cons_append,
      readValue_number (hc.imp_left (fun h => by simp [h])), hnum]
  | .scalar x, _ =>
    obtain ⟨c, cs, hcs⟩ := List.exists_cons_of_ne_nil (List.ne_nil_of_length_pos hpos)
    rw [write] at hcs
    have hhead := FloatText.head_write x c (by rw [hcs]; rfl)
    have hnum := readNumber_float x hrest
    rw [hcs, List.cons_append] at hnum
    rw [write, hcs, List.cons_append, readValue_number hhead, hnum]
  | .str s, _ =>
    rw [write] at hfuel ⊢
    have hlen := length_le_writeString st.asciiOnly s
    rw [writeString, List.append_assoc, List.cons_append, List.singleton_append, readValue,
      if_pos rfl, readChars_flatMap _ _ _ (by omega)]
    simp only [Option.map_some, String.ofList_toList]
  | .list [], _ => simp [write, readValue, skipSpace, isSpace]
  | .dict [], _ => rfl
  | .list (v :: vs), hwf =>
    have hne : v :: vs ≠ [] := List.cons_ne_nil v vs
    rw [write, writeItems_eq st _ hne] at hfuel ⊢
    simp only [List.cons_append, List.append_assoc, List.nil_append, List.length_cons,
      List.length_append] at hfuel ⊢
    refine readValue_list ((skipSpace_append (hst.pad _) _).trans
      (skipSpace_itemsBody st _ hne _)) (fun r hr => ?_) ?_
    · obtain ⟨c, cs, hcs, hc⟩ := itemsBody_head st (depth + 1) hne
        (st.pad depth ++ ']' :: rest)
      rw [hcs, List.cons.injEq] at hr
      rw [hr.1] at hc
      exact absurd hc (by decide)
    · exact readItems_write hst (depth + 1) fuel (v :: vs) hne hwf (st.pad depth) rest
        (hst.pad depth) (by omega)
  | .dict (p :: d), hwf =>
    have hne : p :: d ≠ [] := List.cons_ne_nil p d
    rw [write, writeEntries_eq st _ hne] at hfuel ⊢
    simp only [List.cons_append, List.append_assoc, List.nil_append, List.length_cons,
      List.length_append] at hfuel ⊢
    refine readValue_dict hwf.1 ((skipSpace_append (hst.pad (depth + 1)) _).trans
      (skipSpace_entriesBody st _ hne _)) (fun r hr => ?_) ?_
    · obtain ⟨cs, hcs⟩ := entriesBody_head st (depth + 1) hne (st.pad depth ++ '}' :: rest)
      rw [hcs, List.cons.injEq] at hr
      exact absurd hr.1 (by decide)
    · exact readEntries_write hst (depth + 1) fuel (p :: d) hne hwf.2 (st.pad depth) rest
        (hst.pad depth) (by omega)

theorem readItems_write {st : Style} (hst : st.Blank) (depth fuel : Nat) (vs : List (Value X))
    (hne : vs ≠ []) (hwf : Value.WFList vs) (pad rest : Text)
    (hpad : ∀ c ∈ pad, isSpace c = true)
    (hfuel : 2 * (itemsBody st depth vs).length + 1 ≤ fuel) :
    readItems fuel (itemsBody st depth vs ++ (pad ++ ']' :: rest)) = some (vs, rest) := by
  obtain ⟨fuel, rfl⟩ : ∃ f, fuel = f + 1 := ⟨fuel - 1, by omega⟩
  match vs, hne, hwf with
  | [v], _, hwf =>
    simp only [itemsBody, List.isEmpty_nil, if_true, List.append_nil] at hfuel ⊢
    exact readItems_last
      (readValue_write hst depth fuel v hwf.1 _ (delimited_pad hpad (by decide) rest) (by omega))
      ((skipSpace_append hpad _).trans (skipSpace_of_head (by decide) rest))
  | v :: w :: vs, _, hwf =>
    have hne : w :: vs ≠ [] := List.cons_ne_nil w vs
    rw [itemsBody, List.isEmpty_cons, if_neg (by decide), writeItems_eq st _ hne] at hfuel ⊢
    simp only [List.append_assoc, List.cons_append, List.length_append, List.length_cons]
      at hfuel ⊢
    refine readItems_cons (readValue_write hst depth fuel v hwf.1 _
      (delimited_pad (p := []) (by simp) (by decide) _) (by omega))
      (skipSpace_of_head (by decide) _) ?_
    rw [skipSpace_append (hst.pad depth), skipSpace_itemsBody st depth hne]
    exact readItems_write hst depth fuel (w :: vs) hne hwf.2 pad rest hpad (by omega)

theorem readEntries_write {st : Style} (hst : st.Blank) (depth fuel : Nat)
    (d : List (String × Value X)) (hne : d ≠ []) (hwf : Value.WFDict d) (pad rest : Text)
    (hpad : ∀ c ∈ pad, isSpace c = true)
    (hfuel : 2 * (entriesBody st depth d).length + 1 ≤ fuel) :
    readEntries fuel (entriesBody st depth d ++ (pad ++ '}' :: rest)) = some (d, rest) := by
  obtain ⟨fuel, rfl⟩ : ∃ f, fuel = f + 1 := ⟨fuel - 1, by omega⟩
  match d, hne, hwf with
  | [(k, v)], _, hwf =>
    have hlen := length_le_writeString st.asciiOnly k
    simp only [entriesBody, List.isEmpty_nil, if_true, List.append_nil, List.length_append,
      List.length_cons] at hfuel
    have hv := readValue_write hst depth fuel v hwf.1 (pad ++ '}' :: rest)
      (delimited_pad hpad (by decide) rest) (by omega)
    have hkey := readEntries_key st.asciiOnly k (by omega) hst.gap
      (skipSpace_write st depth v _) hv
    simp only [skipSpace_append hpad, skipSpace_of_head (show isSpace '}' = false by decide)]
      at hkey
    simpa only [entriesBody, List.isEmpty_nil, if_true, List.append_nil, List.append_assoc]
      using hkey
  | (k, v) :: p :: d, _, hwf =>
    have hne : p :: d ≠ [] := List.cons_ne_nil p d
    have hlen := length_le_writeString st.asciiOnly k
    rw [entriesBody, List.isEmpty_cons, if_neg (by decide), writeEntries_eq st _ hne] at hfuel ⊢
    simp only [List.length_append, List.length_cons] at hfuel
    have hv := readValue_write hst depth fuel v hwf.1
      (',' :: (st.pad depth ++ entriesBody st depth (p :: d)) ++ (pad ++ '}' :: rest))
      (delimited_pad (p := []) (by simp) (by decide) _) (by omega)
    have hkey := readEntries_key st.asciiOnly k (by omega) hst.gap
      (skipSpace_write st depth v _) hv
    have htail := readEntries_write hst depth fuel (p :: d) hne hwf.2 pad rest hpad (by omega)
    simp only [List.cons_append, skipSpace_of_head (show isSpace ',' = false by decide),
      List.append_assoc, skipSpace_append (hst.pad depth), skipSpace_entriesBody st depth hne,
      htail, Option.bind_eq_bind, Option.bind_some] at hkey
    simpa only [List.cons_append, List.append_assoc] using hkey

end

/-- A document is read back, with or without a newline at its end. -/
theorem loads_dumps_append {st : Style} (hst : st.Blank) {v : Value X} (hwf : v.WF) {ws : Text}
    (hws : ws ∈ [[], ['\n']]) : loads (dumps st v ++ ws) = some v := by
  have hrest : Delimited ws ∧ skipSpace ws = [] := by
    rcases List.mem_pair.mp hws with rfl | rfl
    · exact ⟨by simp [Delimited], rfl⟩
    · exact ⟨by simp [Delimited, isDelimiter], rfl⟩
  have hread := readValue_write hst 0 (2 * (dumps st v ++ ws).length + 2) v hwf ws hrest.1
    (by rw [dumps, List.length_append]; omega)
  have hskip := skipSpace_write st 0 v ws
  rw [← dumps] at hread hskip
  rw [loads, hskip, hread]
  exact if_pos hrest.2

theorem loads_dumps {st : Style} (hst : st.Blank) {v : Value X} (hwf : v.WF) :
    loads (dumps st v) = some v := by
  have h : loads (dumps st v ++ []) = some v := loads_dumps_append hst hwf (by simp)
  rwa [List.append_nil] at h

theorem dumps_injective {st : Style} (hst : st.Blank) {v w : Value X} (hv : v.WF) (hw : w.WF)
    (h : dumps st v = dumps st w) : v = w := by
  have hloads := loads_dumps hst hv
  rw [h, loads_dumps hst hw] at hloads
  exact (Option.some.inj hloads).symm

end
end Json
