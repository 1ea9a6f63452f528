import ContentOps.Library.FixedWidth

/-! Dates and times of Python's `datetime`: one microsecond later, and their text. -/

namespace PyData

def isLeap (year : Nat) : Bool := year % 4 = 0 ∧ (year % 100 ≠ 0 ∨ year % 400 = 0)

def daysInMonth (year month : Nat) : Nat :=
  if month = 2 then (if isLeap year then 29 else 28)
  else if month = 4 ∨ month = 6 ∨ month = 9 ∨ month = 11 then 30
  else 31

/-- A calendar day. -/
structure Date where
  year : Nat
  month : Nat
  day : Nat
  year_range : 1 ≤ year ∧ year ≤ 9999
  month_range : 1 ≤ month ∧ month ≤ 12
  day_range : 1 ≤ day ∧ day ≤ daysInMonth year month

/-- The fields of a `datetime`. -/
structure Clock where
  year : Nat
  month : Nat
  day : Nat
  hour : Nat
  minute : Nat
  second : Nat
  microsecond : Nat
deriving DecidableEq, Repr

/-- What `datetime(...)` accepts. -/
structure Clock.Valid (c : Clock) : Prop where
  year : 1 ≤ c.year ∧ c.year ≤ 9999
  month : 1 ≤ c.month ∧ c.month ≤ 12
  day : 1 ≤ c.day ∧ c.day ≤ daysInMonth c.year c.month
  hour : c.hour < 24
  minute : c.minute < 60
  second : c.second < 60
  microsecond : c.microsecond < 1000000

theorem Clock.valid_iff (c : Clock) : c.Valid ↔ (1 ≤ c.year ∧ c.year ≤ 9999) ∧
    (1 ≤ c.month ∧ c.month ≤ 12) ∧ (1 ≤ c.day ∧ c.day ≤ daysInMonth c.year c.month) ∧
    c.hour < 24 ∧ c.minute < 60 ∧ c.second < 60 ∧ c.microsecond < 1000000 :=
  ⟨fun ⟨h1, h2, h3, h4, h5, h6, h7⟩ => ⟨h1, h2, h3, h4, h5, h6, h7⟩,
    fun ⟨h1, h2, h3, h4, h5, h6, h7⟩ => ⟨h1, h2, h3, h4, h5, h6, h7⟩⟩

instance (c : Clock) : Decidable c.Valid := decidable_of_iff _ c.valid_iff.symm

abbrev DateTime := { c : Clock // c.Valid }

/-- One microsecond later, with the carries; the year may leave the calendar. -/
def Clock.next (c : Clock) : Clock :=
  if c.microsecond + 1 < 1000000 then { c with microsecond := c.microsecond + 1 }
  else if c.second + 1 < 60 then { c with second := c.second + 1, microsecond := 0 }
  else if c.minute + 1 < 60 then { c with minute := c.minute + 1, second := 0, microsecond := 0 }
  else if c.hour + 1 < 24 then
    { c with hour := c.hour + 1, minute := 0, second := 0, microsecond := 0 }
  else if c.day + 1 ≤ daysInMonth c.year c.month then
    ⟨c.year, c.month, c.day + 1, 0, 0, 0, 0⟩
  else if c.month + 1 ≤ 12 then ⟨c.year, c.month + 1, 1, 0, 0, 0, 0⟩
  else ⟨c.year + 1, 1, 1, 0, 0, 0, 0⟩

theorem daysInMonth_pos (year month : Nat) : 1 ≤ daysInMonth year month := by
  unfold daysInMonth
  split_ifs <;> decide

theorem daysInMonth_le (year month : Nat) : daysInMonth year month ≤ 31 := by
  unfold daysInMonth
  split_ifs <;> decide

theorem Clock.Valid.next {c : Clock} (h : c.Valid) (hy : c.next.year ≤ 9999) : c.next.Valid := by
  obtain ⟨h1, h2, h3, h4, h5, h6, h7⟩ := h
  have h24 : 0 < 24 := by decide
  have h60 : 0 < 60 := by decide
  have hmicro : 0 < 1000000 := by decide
  unfold Clock.next at hy ⊢
  split_ifs at hy ⊢ with hus hs hmi hh hd hmo
  · exact ⟨h1, h2, h3, h4, h5, h6, hus⟩
  · exact ⟨h1, h2, h3, h4, h5, hs, hmicro⟩
  · exact ⟨h1, h2, h3, h4, hmi, h60, hmicro⟩
  · exact ⟨h1, h2, h3, hh, h60, h60, hmicro⟩
  · exact ⟨h1, h2, ⟨Nat.le_add_left 1 c.day, hd⟩, h24, h60, h60, hmicro⟩
  · exact ⟨h1, ⟨Nat.le_add_left 1 c.month, hmo⟩, ⟨le_refl 1, daysInMonth_pos ..⟩, h24, h60, h60,
      hmicro⟩
  · exact ⟨⟨Nat.le_add_left 1 c.year, hy⟩, by simp, ⟨le_refl 1, daysInMonth_pos ..⟩, h24, h60, h60,
      hmicro⟩

/-- `dt + timedelta(microseconds=1)`; `none` is `OverflowError`. -/
def DateTime.addMicrosecond (d : DateTime) : Option DateTime :=
  if h : d.1.next.year ≤ 9999 then some ⟨d.1.next, d.2.next h⟩ else none

/-! ## Text -/

open FixedWidth

/-- `strftime("%Y-%m-%dT%H:%M:%S.%fZ")`. -/
def Clock.isoText (c : Clock) : Text :=
  pad 10 4 c.year ++ '-' :: (pad 10 2 c.month ++ '-' :: (pad 10 2 c.day ++ 'T' ::
    (pad 10 2 c.hour ++ ':' :: (pad 10 2 c.minute ++ ':' :: (pad 10 2 c.second ++ '.' ::
      (pad 10 6 c.microsecond ++ ['Z']))))))

/-- The next character, in either case. -/
def dropLiteral (c : Char) : Text → Option Text
  | [] => none
  | d :: cs => if d.toLower = c.toLower then some cs else none

/-- Numerals of given widths, each one followed by its literal. -/
def scanFields : List (Nat × Nat × Char) → Text → Option (List Text × Text)
  | [], cs => some ([], cs)
  | (lo, hi, c) :: fields, cs => do
    let (ds, cs) ← scanDigits lo hi cs
    let cs ← dropLiteral c cs
    let (rest, cs) ← scanFields fields cs
    some (ds :: rest, cs)

/-- The directives of `%Y-%m-%dT%H:%M:%S.%fZ`. -/
def isoFields : List (Nat × Nat × Char) :=
  [(4, 4, '-'), (1, 2, '-'), (1, 2, 'T'), (1, 2, ':'), (1, 2, ':'), (1, 2, '.'), (1, 6, 'Z')]

def numeral (ds : Text) : Nat := Nat.ofDigitChars 10 ds 0

/-- `strptime(text, "%Y-%m-%dT%H:%M:%S.%fZ")`; `none` is `ValueError`. -/
def Clock.ofIsoText (cs : Text) : Option DateTime :=
  match scanFields isoFields cs with
  | some ([year, month, day, hour, minute, second, fraction], []) =>
    let c : Clock := ⟨numeral year, numeral month, numeral day, numeral hour, numeral minute,
      numeral second, numeral fraction * 10 ^ (6 - fraction.length)⟩
    if h : c.Valid then some ⟨c, h⟩ else none
  | _ => none

def DateTime.strftime (d : DateTime) : String := String.ofList d.1.isoText

def DateTime.strptime (s : String) : Option DateTime := Clock.ofIsoText s.toList

theorem scanFields_pad {lo hi : Nat} (h : lo ≤ hi) (c : Char) (n : Nat)
    {fields : List (Nat × Nat × Char)} {cs r : Text} {rest : List Text}
    (hrest : scanFields fields cs = some (rest, r)) :
    scanFields ((lo, hi, c) :: fields) (pad 10 hi n ++ c :: cs) =
      some (pad 10 hi n :: rest, r) := by
  simp only [scanFields, scanDigits_pad h, Option.bind_eq_bind, Option.bind_some, dropLiteral,
    if_true, hrest]

theorem scanFields_isoText (c : Clock) : scanFields isoFields c.isoText =
    some ([pad 10 4 c.year, pad 10 2 c.month, pad 10 2 c.day, pad 10 2 c.hour, pad 10 2 c.minute,
      pad 10 2 c.second, pad 10 6 c.microsecond], []) := by
  have h12 : 1 ≤ 2 := by decide
  exact scanFields_pad (le_refl 4) _ _ <| scanFields_pad h12 _ _ <| scanFields_pad h12 _ _ <|
    scanFields_pad h12 _ _ <| scanFields_pad h12 _ _ <| scanFields_pad h12 _ _ <|
      scanFields_pad (by decide) _ _ rfl

theorem Clock.Valid.day_lt {c : Clock} (h : c.Valid) : c.day < 100 := by
  have := daysInMonth_le c.year c.month
  have := h.day
  omega

theorem DateTime.strptime_strftime (d : DateTime) : strptime d.strftime = some d := by
  obtain ⟨c, hc⟩ := d
  have hday := hc.day_lt
  have ⟨h1, h2, h3, h4, h5, h6, h7⟩ := hc
  simp only [strptime, strftime, String.toList_ofList, Clock.ofIsoText, scanFields_isoText, numeral,
    length_pad, ofDigitChars_pad (show c.year < 10 ^ 4 by omega),
    ofDigitChars_pad (show c.month < 10 ^ 2 by omega),
    ofDigitChars_pad (show c.day < 10 ^ 2 by omega),
    ofDigitChars_pad (show c.hour < 10 ^ 2 by omega),
    ofDigitChars_pad (show c.minute < 10 ^ 2 by omega),
    ofDigitChars_pad (show c.second < 10 ^ 2 by omega),
    ofDigitChars_pad (show c.microsecond < 10 ^ 6 by omega), Nat.sub_self, Nat.pow_zero,
    Nat.mul_one]
  exact dif_pos hc

theorem cons_lt (c : Char) {s t : Text} (h : s < t) : c :: s < c :: t :=
  List.cons_lt_cons_iff.mpr (.inr ⟨rfl, h⟩)

theorem field_lt {k n m : Nat} (h : n < m) (hm : m < 10 ^ k) (u v : Text) :
    pad 10 k n ++ u < pad 10 k m ++ v :=
  lt_append (pad_lt (by decide) (by decide) h hm) (by simp) u v

theorem Clock.isoText_lt_next {c : Clock} (h : c.Valid) (hy : c.next.year ≤ 9999) :
    c.isoText < c.next.isoText := by
  have hday := h.day_lt
  have hmax := daysInMonth_le c.year c.month
  obtain ⟨h1, h2, h3, h4, h5, h6, h7⟩ := h
  unfold Clock.next at hy ⊢
  split_ifs at hy ⊢ with hus hs hmi hh hd hmo
  · refine append_lt _ (cons_lt _ (append_lt _ (cons_lt _ (append_lt _ (cons_lt _ (append_lt _
      (cons_lt _ (append_lt _ (cons_lt _ (append_lt _ (cons_lt _ ?_)))))))))))
    exact field_lt (Nat.lt_succ_self _) (by omega) _ _
  · refine append_lt _ (cons_lt _ (append_lt _ (cons_lt _ (append_lt _ (cons_lt _ (append_lt _
      (cons_lt _ (append_lt _ (cons_lt _ ?_)))))))))
    exact field_lt (Nat.lt_succ_self _) (by omega) _ _
  · refine append_lt _ (cons_lt _ (append_lt _ (cons_lt _ (append_lt _ (cons_lt _ (append_lt _
      (cons_lt _ ?_)))))))
    exact field_lt (Nat.lt_succ_self _) (by omega) _ _
  · refine append_lt _ (cons_lt _ (append_lt _ (cons_lt _ (append_lt _ (cons_lt _ ?_)))))
    exact field_lt (Nat.lt_succ_self _) (by omega) _ _
  · refine append_lt _ (cons_lt _ (append_lt _ (cons_lt _ ?_)))
    exact field_lt (Nat.lt_succ_self _) (by omega) _ _
  · refine append_lt _ (cons_lt _ ?_)
    exact field_lt (Nat.lt_succ_self _) (by omega) _ _
  · exact field_lt (Nat.lt_succ_self _) (by simp only at hy; omega) _ _

/-- `f"{date:%Y-%m-%d}"`. -/
def Date.isoText (d : Date) : Text :=
  pad 10 4 d.year ++ '-' :: (pad 10 2 d.month ++ '-' :: pad 10 2 d.day)

/-- Calendar order. -/
def Date.le (d e : Date) : Prop :=
  d.year < e.year ∨ d.year = e.year ∧ (d.month < e.month ∨ d.month = e.month ∧ d.day ≤ e.day)

instance : LE Date := ⟨Date.le⟩

theorem Date.le_refl (d : Date) : d ≤ d := .inr ⟨rfl, .inr ⟨rfl, Nat.le_refl _⟩⟩

theorem Date.isoText_append_le {d e : Date} (h : d ≤ e) (suffix : Text) :
    d.isoText ++ suffix ≤ e.isoText ++ suffix := by
  have hday := (daysInMonth_le e.year e.month)
  have ⟨_, _⟩ := e.day_range
  have ⟨_, _⟩ := e.month_range
  have ⟨_, _⟩ := e.year_range
  simp only [isoText, List.append_assoc, List.cons_append]
  rcases h with h | ⟨hy, h | ⟨hm, h⟩⟩
  · exact (field_lt h (by omega) _ _).le
  · rw [hy]
    exact (append_lt _ (cons_lt _ (field_lt h (by omega) _ _))).le
  · rw [hy, hm]
    rcases Nat.lt_or_eq_of_le h with h | h
    · exact (append_lt _ (cons_lt _ (append_lt _ (cons_lt _ (field_lt h (by omega) _ _))))).le
    · rw [h]

theorem DateTime.strftime_lt_addMicrosecond {d e : DateTime} (h : d.addMicrosecond = some e) :
    d.strftime < e.strftime := by
  unfold addMicrosecond at h
  split_ifs at h with hy
  rw [Option.some.injEq] at h
  rw [← h, String.lt_iff_toList_lt, strftime, strftime, String.toList_ofList, String.toList_ofList]
  exact Clock.isoText_lt_next d.2 hy

/-! ## Room before the end of the calendar -/

/-- Days before the first of the month in a common year. -/
def daysBefore (month : Nat) : Nat :=
  [0, 31, 59, 90, 120, 151, 181, 212, 243, 273, 304, 334].getD (month - 1) 0

/-- Microseconds since midnight. -/
def Clock.timeOfDay (c : Clock) : Nat :=
  ((c.hour * 60 + c.minute) * 60 + c.second) * 1000000 + c.microsecond

/-- The microseconds of the year 9999 that have begun. -/
def Clock.lastYear (c : Clock) : Nat :=
  if c.year < 9999 then 0
  else (daysBefore c.month + (c.day - 1)) * 86400000000 + c.timeOfDay + 1

theorem Clock.lastYear_of_lt {c : Clock} (h : c.year < 9999) : c.lastYear = 0 := if_pos h

theorem Clock.lastYear_of_eq {c : Clock} (h : c.year = 9999) :
    c.lastYear = (daysBefore c.month + (c.day - 1)) * 86400000000 + c.timeOfDay + 1 :=
  if_neg (by omega)

theorem daysBefore_succ {m : Nat} (h1 : 1 ≤ m) (h2 : m + 1 ≤ 12) :
    daysBefore (m + 1) = daysBefore m + daysInMonth 9999 m := by
  have hm : m ≤ 11 := by omega
  interval_cases m <;> rfl

/-- The microseconds of the year 9999. -/
def lastYearMicroseconds : Nat := 365 * 86400 * 1000000

theorem Clock.lastYear_newYear {year : Nat} (h : year < 9999) :
    Clock.lastYear ⟨year + 1, 1, 1, 0, 0, 0, 0⟩ ≤ 1 := by
  have hb : daysBefore 1 = 0 := rfl
  rcases (show year + 1 < 9999 ∨ year + 1 = 9999 by omega) with h | h
  · rw [lastYear_of_lt h]
    exact Nat.zero_le 1
  · rw [lastYear_of_eq h]
    simp only [timeOfDay, hb]
    omega

theorem Clock.next_year (c : Clock) :
    c.next.year = c.year ∨ c.next = ⟨c.year + 1, 1, 1, 0, 0, 0, 0⟩ := by
  unfold Clock.next
  split_ifs <;> first | exact .inl rfl | exact .inr rfl

/-- A microsecond takes one microsecond of the last year, and the calendar ends with its last. -/
theorem Clock.lastYear_next {c : Clock} (h : c.Valid) :
    c.next.year ≤ 9999 ∧ c.next.lastYear ≤ c.lastYear + 1 ∨
      c.lastYear = lastYearMicroseconds := by
  rcases Nat.lt_or_eq_of_le h.year.2 with hy | hy
  · left
    rcases c.next_year with hn | hn
    · rw [← hn] at hy
      exact ⟨hy.le, by rw [lastYear_of_lt hy]; exact Nat.zero_le _⟩
    · rw [hn]
      exact ⟨hy, (lastYear_newYear hy).trans (Nat.le_add_left 1 _)⟩
  · obtain ⟨h1, h2, h3, h4, h5, h6, h7⟩ := h
    rw [lastYear_of_eq hy]
    unfold Clock.next
    split_ifs with hus hs hmi hh hd hmo
    · refine .inl ⟨hy.le, ?_⟩
      rw [lastYear_of_eq (by exact hy)]
      simp only [timeOfDay]
      omega
    · refine .inl ⟨hy.le, ?_⟩
      rw [lastYear_of_eq (by exact hy)]
      simp only [timeOfDay]
      omega
    · refine .inl ⟨hy.le, ?_⟩
      rw [lastYear_of_eq (by exact hy)]
      simp only [timeOfDay]
      omega
    · refine .inl ⟨hy.le, ?_⟩
      rw [lastYear_of_eq (by exact hy)]
      simp only [timeOfDay]
      omega
    · refine .inl ⟨hy.le, ?_⟩
      rw [lastYear_of_eq (by exact hy)]
      simp only [timeOfDay]
      omega
    · refine .inl ⟨hy.le, ?_⟩
      have hdays := daysBefore_succ h2.1 hmo
      rw [hy] at h3 hd
      rw [lastYear_of_eq (by exact hy)]
      simp only [timeOfDay, hdays]
      omega
    · right
      have hm : c.month = 12 := by omega
      have h31 : daysInMonth 9999 12 = 31 := rfl
      have hb : daysBefore 12 = 334 := rfl
      rw [hy, hm, h31] at hd h3
      simp only [timeOfDay, hm, hb, lastYearMicroseconds]
      omega

/-- A text that ends in `Z`, with every `Z` written as an offset, for `fromisoformat`. -/
def normaliseZ (text : String) : String :=
  if text.toList.getLast? = some 'Z' then
    String.ofList (text.toList.flatMap fun c => if c = 'Z' then "+00:00".toList else [c])
  else text

/-! ## Comparing points in time -/

/-- A `datetime` as a comparison sees it: its instant, and whether it names a zone. -/
structure Stamp where
  instant : Int
  aware : Bool
deriving DecidableEq, Repr

/-- `a < b`; `none` is the `TypeError` for a time with a zone and one without. -/
def Stamp.before? (a b : Stamp) : Option Bool :=
  if a.aware = b.aware then some (decide (a.instant < b.instant)) else none

theorem Stamp.before?_isSome {a b : Stamp} : (a.before? b).isSome ↔ a.aware = b.aware := by
  unfold before?
  split_ifs with h <;> simp [h]

end PyData
