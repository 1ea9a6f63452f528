import ContentOps.Library.Text

/-! Percent-encoding: `urllib.parse.quote` with no safe characters, and how a server reads the path
of a URL. -/

namespace PyData.Url

/-- `str.encode("utf-8")`. -/
def utf8 (t : Text) : List UInt8 := t.flatMap String.utf8EncodeChar

theorem utf8_injective : Function.Injective utf8 := by
  intro s t h
  have hencoded : List.utf8Encode s = List.utf8Encode t := congrArg List.toByteArray h
  have hdecoded := congrArg ByteArray.utf8Decode? hencoded
  rw [List.utf8Decode?_utf8Encode, List.utf8Decode?_utf8Encode, Option.some.injEq] at hdecoded
  exact congrArg Array.toList hdecoded

/-! ## Bytes -/

/-- The characters that `quote` always leaves alone. -/
def isUnreserved (c : Char) : Bool := c.isAlphanum || c ∈ ['_', '.', '-', '~']

def hexDigit (n : Nat) : Char := "0123456789ABCDEF".toList.getD n '0'

def hexValue (c : Char) : Option Nat := "0123456789ABCDEF".toList.idxOf? c.toUpper

def quoteByte (b : UInt8) : Text :=
  let c := Char.ofNat b.toNat
  if isUnreserved c then [c] else ['%', hexDigit (b.toNat / 16), hexDigit (b.toNat % 16)]

theorem hexValue_hexDigit : ∀ n : Fin 16, hexValue (hexDigit n) = some n.1 := by decide +kernel

theorem isUnreserved_hexDigit : ∀ n : Fin 16, isUnreserved (hexDigit n) = true := by decide +kernel

theorem unreserved_byte : ∀ n : Fin 256, isUnreserved (Char.ofNat n) = true →
    Char.ofNat n ≠ '%' ∧ String.utf8EncodeChar (Char.ofNat n) = [UInt8.ofNat n] := by
  decide +kernel

/-! ## Texts -/

/-- `quote(text, safe="")`. -/
def quote (t : Text) : Text := (utf8 t).flatMap quoteByte

/-- The bytes that a percent-encoded text stands for. -/
def unquote : Text → Option (List UInt8)
  | [] => some []
  | c :: cs =>
    if c = '%' then
      match cs with
      | a :: b :: rest => do
        let hi ← hexValue a
        let lo ← hexValue b
        (unquote rest).map (UInt8.ofNat (hi * 16 + lo) :: ·)
      | _ => none
    else (unquote cs).map (String.utf8EncodeChar c ++ ·)

theorem unquote_cons_of_ne {c : Char} (h : c ≠ '%') (cs : Text) :
    unquote (c :: cs) = (unquote cs).map (String.utf8EncodeChar c ++ ·) := by
  rw [unquote.eq_def]
  exact if_neg h

theorem unquote_quoteByte_append (b : UInt8) (cs : Text) :
    unquote (quoteByte b ++ cs) = (unquote cs).map (b :: ·) := by
  have hb : b.toNat < 256 := b.toNat_lt
  rw [quoteByte]
  split_ifs with hunreserved
  · obtain ⟨hpercent, hbyte⟩ := unreserved_byte ⟨b.toNat, hb⟩ hunreserved
    rw [List.singleton_append, unquote_cons_of_ne hpercent, hbyte, UInt8.ofNat_toNat]
    rfl
  · have hhi := hexValue_hexDigit ⟨b.toNat / 16, by omega⟩
    have hlo := hexValue_hexDigit ⟨b.toNat % 16, by omega⟩
    have hjoin : b.toNat / 16 * 16 + b.toNat % 16 = b.toNat := by omega
    dsimp only at hhi hlo
    simp only [List.cons_append, List.nil_append, unquote, if_true, hhi, hlo, hjoin,
      UInt8.ofNat_toNat, Option.bind_eq_bind, Option.bind_some]

/-- What was quoted is read back. -/
theorem unquote_quote (t : Text) : unquote (quote t) = some (utf8 t) := by
  unfold quote
  induction utf8 t with
  | nil => rfl
  | cons b bytes ih => rw [List.flatMap_cons, unquote_quoteByte_append, ih, Option.map_some]

theorem quote_injective : Function.Injective quote := fun s t h =>
  utf8_injective (Option.some.inj (by rw [← unquote_quote, h, unquote_quote]))

theorem unquote_of_not_mem {t : Text} (h : '%' ∉ t) : unquote t = some (utf8 t) := by
  induction t with
  | nil => rfl
  | cons c cs ih =>
    rw [List.mem_cons, not_or] at h
    rw [unquote_cons_of_ne (Ne.symm h.1), ih h.2]
    rfl

theorem mem_quote {c : Char} {t : Text} (h : c ∈ quote t) : isUnreserved c = true ∨ c = '%' := by
  obtain ⟨b, -, hb⟩ := List.mem_flatMap.mp h
  have hlt : b.toNat < 256 := b.toNat_lt
  unfold quoteByte at hb
  dsimp only at hb
  split_ifs at hb with hunreserved
  · exact .inl (List.mem_singleton.mp hb ▸ hunreserved)
  · have hhi := isUnreserved_hexDigit ⟨b.toNat / 16, by omega⟩
    have hlo := isUnreserved_hexDigit ⟨b.toNat % 16, by omega⟩
    rcases List.mem_cons.mp hb with rfl | hb
    · exact .inr rfl
    · rcases List.mem_pair.mp hb with rfl | rfl
      · exact .inl hhi
      · exact .inl hlo

/-! ## Paths -/

/-- Neither a dot segment nor the end of one. -/
structure Segment (t : Text) : Prop where
  chars : ∀ c ∈ t, c ≠ '/' ∧ c ≠ '?' ∧ c ≠ '#'
  dot : t ≠ ['.']
  dots : t ≠ ['.', '.']

/-- The segments after the dot segments are taken out, as a client does before it sends. -/
def removeDotSegments (segments : List Text) : List Text :=
  segments.foldl (fun out s =>
    if s = ['.'] then out else if s = ['.', '.'] then out.dropLast else out ++ [s]) []

/-- The segments of the path of a URL as a server decodes them. -/
def serverPath (url : Text) : Option (List (List UInt8)) :=
  (removeDotSegments ((url.takeWhile fun c => c ≠ '?' && c ≠ '#').splitOn '/')).mapM unquote

theorem removeDotSegments_of_segments {segments : List Text} (h : ∀ s ∈ segments, Segment s) :
    removeDotSegments segments = segments := by
  have hfold : ∀ out : List Text, segments.foldl (fun out s =>
      if s = ['.'] then out else if s = ['.', '.'] then out.dropLast else out ++ [s]) out =
        out ++ segments := by
    induction segments with
    | nil => exact fun out => (List.append_nil out).symm
    | cons s segments ih =>
      intro out
      obtain ⟨hs, hsegments⟩ := List.forall_mem_cons.mp h
      rw [List.foldl_cons, if_neg hs.dot, if_neg hs.dots, ih hsegments, List.append_assoc]
      rfl
  exact hfold []

theorem forall_mem_intercalate {P : Char → Prop} {sep : Char} (hsep : P sep) {segments : List Text}
    (h : ∀ s ∈ segments, ∀ c ∈ s, P c) : ∀ c ∈ [sep].intercalate segments, P c := by
  induction segments with
  | nil => exact fun c hc => absurd hc List.not_mem_nil
  | cons s segments ih =>
    obtain ⟨hs, hsegments⟩ := List.forall_mem_cons.mp h
    cases segments with
    | nil => simpa [List.intercalate] using hs
    | cons t segments =>
      rw [List.intercalate_cons_cons, List.append_assoc]
      intro c hc
      rcases List.mem_append.mp hc with hc | hc
      · exact hs c hc
      · exact (List.mem_cons.mp hc).elim (fun heq => heq ▸ hsep) (ih hsegments c)

theorem intercalate_concat {α : Type} (sep last : List α) {parts : List (List α)} (hne : parts ≠ []) :
    sep.intercalate (parts ++ [last]) = sep.intercalate parts ++ (sep ++ last) := by
  induction parts with
  | nil => exact absurd rfl hne
  | cons part parts ih =>
    by_cases hparts : parts = []
    · subst hparts
      simp [List.intercalate_cons_cons]
    · rw [List.cons_append, List.intercalate_cons_of_ne_nil (by simp), ih hparts,
        List.intercalate_cons_of_ne_nil hparts]
      simp

/-- Segments that are joined, and perhaps followed by a query, reach the server as they are. -/
theorem serverPath_join {segments : List Text} {query : Text} {decoded : List (List UInt8)}
    (hquery : ∀ c ∈ query.head?, c = '?') (hne : segments ≠ []) (h : ∀ s ∈ segments, Segment s)
    (hdecoded : segments.mapM unquote = some decoded) :
    serverPath (['/'].intercalate segments ++ query) = some decoded := by
  have hchars : ∀ c ∈ ['/'].intercalate segments, (c ≠ '?' && c ≠ '#') = true := by
    refine forall_mem_intercalate (by decide) fun s hs c hc => ?_
    obtain ⟨-, hmark, hfragment⟩ := (h s hs).chars c hc
    simp [hmark, hfragment]
  have hpath : (['/'].intercalate segments ++ query).takeWhile (fun c => c ≠ '?' && c ≠ '#') =
      ['/'].intercalate segments := by
    rw [List.takeWhile_append_of_pos hchars]
    cases query with
    | nil => simp
    | cons c query =>
      obtain rfl : c = '?' := hquery c rfl
      simp
  have hsplit := List.splitOn_intercalate '/'
    (fun s hs hslash => ((h s hs).chars _ hslash).1 rfl) hne
  rw [serverPath, hpath, hsplit, removeDotSegments_of_segments h, hdecoded]

theorem segment_quote {t : Text} (hdot : t ≠ ['.']) (hdots : t ≠ ['.', '.']) :
    Segment (quote t) := by
  have hne : ∀ {s : Text}, '%' ∉ s → t ≠ s → quote t ≠ s := by
    intro s hs hts hquote
    refine hts (utf8_injective (Option.some.inj ?_))
    rw [← unquote_quote, hquote, unquote_of_not_mem hs]
  refine ⟨fun c hc => ?_, hne (by decide) hdot, hne (by decide) hdots⟩
  rcases mem_quote hc with hunreserved | rfl
  · refine ⟨?_, ?_, ?_⟩ <;> rintro rfl <;> exact absurd hunreserved (by decide)
  · decide

end PyData.Url
