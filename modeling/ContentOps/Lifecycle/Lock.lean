import ContentOps.Library.LineEdit
import ContentOps.Library.Value
import ContentOps.Lifecycle.Promotion

/-! `lock` and `unlock`, `lifecycle.py`: the line that they edit, and the flag that apply, prune and
rollback read. -/

namespace ContentOps.Lifecycle
open PyData

def lockedLine : Text := "localCustomization: true".toList

/-- `_LOCK_TOPLEVEL_RE`, on a line. -/
def isLockLine (line : Text) : Bool :=
  (afterText? "localCustomization:".toList line).any isWordTail

/-- `lock_cmd`, on the text of the rule. -/
def lock (text : Text) : Text :=
  (Text.subLine isLockLine [lockedLine] text).getD
    (Text.ensureNewline text ++ Text.ofLines [lockedLine] true)

/-- `unlock_cmd`, on the text of the rule. -/
def unlock (text : Text) : Text := (Text.subLine isLockLine [] text).getD text

section
variable {X : Type}

/-- `_is_locked_path`, with `safe_load` as `load`; `none` is an exception. -/
def isLocked (load : Text → Option (Value X)) (text : Text) : Bool :=
  match load text with
  | some (.dict raw) =>
    match Value.get raw "localCustomization" with
    | .bool b => b
    | _ => false
  | _ => false

/-! ## The lines of an envelope -/

/-- The words that YAML reads as booleans. -/
def yamlBools : List (Text × Bool) :=
  ["yes", "Yes", "YES", "true", "True", "TRUE", "on", "On", "ON"].map (·.toList, true) ++
    ["no", "No", "NO", "false", "False", "FALSE", "off", "Off", "OFF"].map (·.toList, false)

/-- A line of the key: a boolean, then spaces and a comment where it has one. -/
structure KeyLine where
  value : Bool
  word : Text
  gap : Nat
  spaces : Nat
  comment : Option Text
  isBool : (word, value) ∈ yamlBools
  apart : comment.isSome → 0 < spaces
  oneLine : ∀ t ∈ comment, '\n' ∉ t

def KeyLine.line (k : KeyLine) : Text :=
  "localCustomization:".toList ++ (List.replicate (k.gap + 1) ' ' ++
    (k.word ++ (List.replicate k.spaces ' ' ++ k.comment.elim [] ('#' :: ·))))

/-- The lines of an envelope around the one of its key. -/
structure Envelope where
  before : List Text
  key : Option KeyLine
  after : List Text
  final : Bool

def Envelope.others (e : Envelope) : List Text := e.before ++ e.after

def Envelope.withKeys (e : Envelope) (keys behind : List KeyLine) : List Text :=
  e.before ++ (keys.map KeyLine.line ++ (e.after ++ behind.map KeyLine.line))

def Envelope.lines (e : Envelope) : List Text := e.withKeys e.key.toList []

def Envelope.text (e : Envelope) : Text := Text.ofLines e.lines e.final

/-- An envelope has a line, and an empty one at its end only with a newline. -/
structure Envelope.IsText (e : Envelope) : Prop where
  nonempty : e.lines ≠ []
  ended : e.final = true ∨ e.lines.getLast? ≠ some []

/-- What is read from a text whose last line of the key has this value. -/
def ReadsKey (value : Option Bool) (loaded : Option (Value X)) : Prop :=
  (∃ raw : Dict String (Value X), loaded = some (.dict raw) ∧
    raw.get? "localCustomization" = value.map Value.bool) ∨ (value = none ∧ loaded = some .null)

/-- The other lines are those of a block mapping, parted between two of its entries: lines of the
key there or at the end are entries of their own, and the last one counts. -/
structure IsBlockMapping (load : Text → Option (Value X)) (e : Envelope) : Prop where
  others : ∀ l ∈ e.others, '\n' ∉ l ∧ ¬ "localCustomization:".toList <+: l
  loads : ∀ keys behind final, ReadsKey ((keys ++ behind).getLast?.map (·.value))
    (load (Text.ofLines (e.withKeys keys behind) final))

/-- What operators expect of the two commands. -/
structure LockAgrees (load : Text → Option (Value X)) (e : Envelope) : Prop where
  locked : isLocked load (lock e.text) = true
  unlocked : isLocked load (unlock e.text) = false
  keptByLock : e.others.Sublist ((lock e.text).splitOn '\n')
  keptByUnlock : e.others.Sublist ((unlock e.text).splitOn '\n')
  undone : e.key = none → e.final = true → unlock (lock e.text) = e.text

/-! ## The pattern on the lines -/

theorem yamlBools_words : ∀ p ∈ yamlBools,
    p.1 ≠ [] ∧ p.1.all (fun c => !Text.isSpace c) = true := by
  decide

theorem isSpace_of_isBlankChar {c : Char} (h : isBlankChar c = true) : Text.isSpace c = true := by
  obtain rfl | rfl : c = ' ' ∨ c = '\t' := by simpa [isBlankChar] using h
  all_goals decide

theorem dropWhile_blanks {word : Text} (hne : word ≠ [])
    (hword : word.all (fun c => !Text.isSpace c) = true) (gap : Nat) (tail : Text) :
    (List.replicate gap ' ' ++ (word ++ tail)).dropWhile isBlankChar = word ++ tail := by
  rw [List.dropWhile_append_of_pos fun c hc => by rw [List.eq_of_mem_replicate hc]; rfl]
  obtain ⟨c, word, rfl⟩ := List.exists_cons_of_ne_nil hne
  obtain ⟨hc, -⟩ := List.forall_mem_cons.mp (List.all_eq_true.mp hword)
  have hblank : ¬ isBlankChar c = true := fun h => by simp [isSpace_of_isBlankChar h] at hc
  rw [List.cons_append, List.dropWhile_cons_of_neg hblank]

/-- A word and what follows it, which starts with a space. -/
theorem isWordTail_word {word tail : Text} (hne : word ≠ [])
    (hword : word.all (fun c => !Text.isSpace c) = true)
    (htail : ∀ c ∈ tail.head?, Text.isSpace c = true) (gap : Nat) :
    isWordTail (List.replicate gap ' ' ++ (word ++ tail)) = tail.all isBlankChar := by
  have hrest : (word ++ tail).dropWhile (!Text.isSpace ·) = tail := by
    rw [List.dropWhile_append_of_pos (List.all_eq_true.mp hword)]
    cases tail with
    | nil => rfl
    | cons c tail => exact List.dropWhile_cons_of_neg (by simpa using htail c rfl)
  have hhead : (word ++ tail).head?.any (!Text.isSpace ·) = true := by
    obtain ⟨c, word, rfl⟩ := List.exists_cons_of_ne_nil hne
    exact (List.forall_mem_cons.mp (List.all_eq_true.mp hword)).1
  unfold isWordTail
  dsimp only
  rw [dropWhile_blanks hne hword, hrest, hhead, Bool.true_and]

theorem isLockLine_of_not_prefix {l : Text} (h : ¬ "localCustomization:".toList <+: l) :
    isLockLine l = false := by
  unfold isLockLine afterText?
  rw [if_neg h]
  rfl

def KeyLine.tail (k : KeyLine) : Text :=
  List.replicate k.spaces ' ' ++ k.comment.elim [] ('#' :: ·)

theorem KeyLine.tail_space (k : KeyLine) : ∀ c ∈ k.tail.head?, Text.isSpace c = true := by
  have hapart := k.apart
  unfold KeyLine.tail
  intro c hc
  cases hn : k.spaces with
  | zero =>
    rw [hn] at hapart hc
    cases hcomment : k.comment with
    | none =>
      rw [hcomment] at hc
      cases hc
    | some t =>
      rw [hcomment] at hapart
      exact absurd (hapart rfl) (lt_irrefl 0)
  | succ n =>
    rw [hn] at hc
    obtain rfl := Option.some.inj hc
    decide

theorem afterText?_line (k : KeyLine) : afterText? "localCustomization:".toList k.line =
    some (List.replicate (k.gap + 1) ' ' ++ (k.word ++ k.tail)) := by
  unfold afterText? KeyLine.line
  rw [if_pos (List.prefix_append _ _), List.drop_left]
  rfl

/-- The pattern takes the lines of the key that have no comment. -/
theorem isLockLine_line (k : KeyLine) : isLockLine k.line = true ↔ k.comment = none := by
  obtain ⟨hne, hword⟩ := yamlBools_words _ k.isBool
  unfold isLockLine
  rw [afterText?_line, Option.any_some, isWordTail_word hne hword k.tail_space]
  unfold KeyLine.tail
  cases k.comment with
  | none => simp [isBlankChar]
  | some t => simp [isBlankChar]

theorem newline_notMem_line (k : KeyLine) : '\n' ∉ k.line := by
  have hword : '\n' ∉ k.word := by
    have hall : ∀ p ∈ yamlBools, '\n' ∉ p.1 := by decide
    exact hall _ k.isBool
  have hcomment : '\n' ∉ k.comment.elim [] ('#' :: ·) := by
    cases hk : k.comment with
    | none => exact List.not_mem_nil
    | some t => simpa using k.oneLine t hk
  unfold KeyLine.line
  simp only [List.mem_append, List.mem_replicate, not_or]
  exact ⟨by decide, by simp, hword, by simp, hcomment⟩

def plainLine : KeyLine where
  value := true
  word := "true".toList
  gap := 0
  spaces := 0
  comment := none
  isBool := by decide
  apart := nofun
  oneLine := nofun

theorem line_plainLine : plainLine.line = lockedLine := rfl

/-! ## What the commands write -/

variable {load : Text → Option (Value X)} {e : Envelope}

/-- The pattern finds the line: it has no comment and a newline. -/
def Envelope.Finds (e : Envelope) (k : KeyLine) : Prop :=
  k.comment = none ∧ (e.after ≠ [] ∨ e.final = true)

theorem oneLine_withKeys (h : ∀ l ∈ e.others, '\n' ∉ l) (keys behind : List KeyLine) :
    ∀ l ∈ e.withKeys keys behind, '\n' ∉ l := by
  intro l hl
  unfold Envelope.withKeys at hl
  simp only [List.mem_append, List.mem_map] at hl
  obtain hl | ⟨k, -, rfl⟩ | hl | ⟨k, -, rfl⟩ := hl
  · exact h l (List.mem_append_left _ hl)
  · exact newline_notMem_line k
  · exact h l (List.mem_append_right _ hl)
  · exact newline_notMem_line k

theorem IsBlockMapping.oneLine (h : IsBlockMapping load e) (keys behind : List KeyLine) :
    ∀ l ∈ e.withKeys keys behind, '\n' ∉ l :=
  oneLine_withKeys (fun l hl => (h.others l hl).1) keys behind

theorem subLine_finds (h : IsBlockMapping load e) {k : KeyLine} (hkey : e.key = some k)
    (hfinds : e.Finds k) (new : List Text) :
    Text.subLine isLockLine new e.text =
      some (Text.ofLines (e.before ++ (new ++ e.after)) e.final) := by
  have hlines : e.lines = e.before ++ k.line :: e.after := by
    unfold Envelope.lines Envelope.withKeys
    simp [hkey]
  have hone := h.oneLine e.key.toList []
  unfold Envelope.text
  rw [show e.withKeys e.key.toList [] = e.lines from rfl, hlines] at hone
  rw [hlines]
  refine Text.subLine_match new hone ?_ ((isLockLine_line k).mpr hfinds.1) hfinds.2
  exact fun l hl => isLockLine_of_not_prefix (h.others l (List.mem_append_left _ hl)).2

theorem subLine_hidden (htext : e.IsText) (h : IsBlockMapping load e)
    (hhidden : ∀ k, e.key = some k → ¬ e.Finds k) (new : List Text) :
    Text.subLine isLockLine new e.text = none := by
  refine Text.subLine_eq_none new (h.oneLine e.key.toList []) (.inl htext.nonempty) ?_
  have hother : ∀ l ∈ e.others, isLockLine l = false :=
    fun l hl => isLockLine_of_not_prefix (h.others l hl).2
  unfold Envelope.others at hother
  cases hkey : e.key with
  | none =>
    intro l hl
    have hl : l ∈ e.lines := by
      split_ifs at hl
      · exact hl
      · exact List.dropLast_subset _ hl
    exact hother l (by simpa [Envelope.lines, Envelope.withKeys, hkey] using hl)
  | some k =>
    have hlines : e.lines = e.before ++ k.line :: e.after := by
      unfold Envelope.lines Envelope.withKeys
      simp [hkey]
    have hnot := hhidden k hkey
    rw [hlines]
    by_cases hcomment : k.comment = none
    · -- The line is the last one and has no newline.
      obtain ⟨hafter, hfinal⟩ := not_or.mp fun hend => hnot ⟨hcomment, hend⟩
      rw [if_neg hfinal, not_not.mp hafter, List.dropLast_concat]
      exact fun l hl => hother l (List.mem_append_left _ hl)
    · have hline : isLockLine k.line = false := by
        rw [← Bool.not_eq_true, isLockLine_line]
        exact hcomment
      intro l hl
      have hl : l ∈ e.before ++ k.line :: e.after := by
        split_ifs at hl
        · exact hl
        · exact List.dropLast_subset _ hl
      rcases List.mem_append.mp hl with hl | hl
      · exact hother l (List.mem_append_left _ hl)
      · rcases List.mem_cons.mp hl with rfl | hl
        · exact hline
        · exact hother l (List.mem_append_right _ hl)

theorem lock_finds (h : IsBlockMapping load e) {k : KeyLine} (hkey : e.key = some k)
    (hfinds : e.Finds k) : lock e.text = Text.ofLines (e.withKeys [plainLine] []) e.final := by
  unfold lock
  rw [subLine_finds h hkey hfinds]
  simp [Envelope.withKeys, line_plainLine]

theorem lock_hidden (htext : e.IsText) (h : IsBlockMapping load e)
    (hhidden : ∀ k, e.key = some k → ¬ e.Finds k) :
    lock e.text = Text.ofLines (e.withKeys e.key.toList [plainLine]) true := by
  have hend := Text.ensureNewline_ofLines (h.oneLine e.key.toList []) htext.nonempty htext.ended
  unfold lock
  rw [subLine_hidden htext h hhidden, Option.getD_none]
  refine (congrArg (· ++ _) hend).trans ?_
  rw [← Text.ofLines_append]
  simp [Envelope.withKeys, line_plainLine]

theorem unlock_finds (h : IsBlockMapping load e) {k : KeyLine} (hkey : e.key = some k)
    (hfinds : e.Finds k) : unlock e.text = Text.ofLines (e.withKeys [] []) e.final := by
  unfold unlock
  rw [subLine_finds h hkey hfinds]
  simp [Envelope.withKeys]

theorem unlock_hidden (htext : e.IsText) (h : IsBlockMapping load e)
    (hhidden : ∀ k, e.key = some k → ¬ e.Finds k) : unlock e.text = e.text := by
  unfold unlock
  rw [subLine_hidden htext h hhidden, Option.getD_none]

/-! ## What is locked afterwards -/

theorem isLocked_iff (h : IsBlockMapping load e) (keys behind : List KeyLine) (final : Bool) :
    isLocked load (Text.ofLines (e.withKeys keys behind) final) = true ↔
      (keys ++ behind).getLast?.map (·.value) = some true := by
  unfold isLocked
  obtain ⟨raw, hraw, hget⟩ | ⟨hnone, hnull⟩ := h.loads keys behind final
  · have hvalue : Value.get raw "localCustomization" =
        (((keys ++ behind).getLast?.map (·.value)).map Value.bool).getD .null :=
      congrArg (·.getD .null) hget
    rw [hraw]
    dsimp only
    rw [hvalue]
    cases (keys ++ behind).getLast? with
    | none => exact iff_of_false nofun nofun
    | some k => cases hk : k.value <;> simp [hk]
  · rw [hnull, hnone]
    exact iff_of_false nofun nofun

theorem others_kept (h : IsBlockMapping load e) (keys behind : List KeyLine) {final : Bool}
    (hne : e.withKeys keys behind ≠ [] ∨ final = true) :
    e.others.Sublist ((Text.ofLines (e.withKeys keys behind) final).splitOn '\n') := by
  have hsub : e.others.Sublist (e.withKeys keys behind) :=
    (List.Sublist.refl _).append ((List.sublist_append_left _ _).trans (List.sublist_append_right _ _))
  rw [Text.splitOn_ofLines (h.oneLine keys behind) hne]
  split_ifs
  · exact hsub.trans (List.sublist_append_left _ _)
  · exact hsub

theorem unlock_lock (htext : e.IsText) (h : IsBlockMapping load e) (hkey : e.key = none)
    (hfinal : e.final = true) : unlock (lock e.text) = e.text := by
  have hlines : e.lines = e.others := by
    simp [Envelope.lines, Envelope.withKeys, Envelope.others, hkey]
  have hlock : lock e.text = Text.ofLines (e.others ++ [lockedLine]) true := by
    rw [lock_hidden htext h (by simp [hkey])]
    simp [Envelope.withKeys, Envelope.others, hkey, line_plainLine]
  have hone : ∀ l ∈ e.others ++ [lockedLine], '\n' ∉ l := by
    intro l hl
    rcases List.mem_append.mp hl with hl | hl
    · exact (h.others l hl).1
    · rw [List.mem_singleton.mp hl, ← line_plainLine]
      exact newline_notMem_line plainLine
  have hother : ∀ l ∈ e.others, isLockLine l = false :=
    fun l hl => isLockLine_of_not_prefix (h.others l hl).2
  have hplain : isLockLine lockedLine = true := (isLockLine_line plainLine).mpr rfl
  unfold unlock
  rw [hlock, Text.subLine_match [] hone hother hplain (.inr rfl), Option.getD_some]
  unfold Envelope.text
  rw [hlines, hfinal, List.nil_append, List.append_nil]

/-- Lock and unlock agree with the flag that is read, except where a line sets it that the pattern
does not find: one with a comment, or one at the end without a newline. -/
theorem lockAgrees_iff (htext : e.IsText) (h : IsBlockMapping load e) :
    LockAgrees load e ↔ ∀ k, e.key = some k → k.value = true → e.Finds k := by
  by_cases hfinds : ∃ k, e.key = some k ∧ e.Finds k
  · obtain ⟨k, hkey, hfinds⟩ := hfinds
    have hne : ∀ keys behind, e.withKeys keys behind ≠ [] ∨ e.final = true := by
      intro keys behind
      refine hfinds.2.imp_left ?_
      intro hafter hnil
      simp [Envelope.withKeys, hafter] at hnil
    refine iff_of_true ?_ ?_
    · constructor
      · rw [lock_finds h hkey hfinds, isLocked_iff h]
        rfl
      · rw [← Bool.not_eq_true, unlock_finds h hkey hfinds, isLocked_iff h]
        exact nofun
      · rw [lock_finds h hkey hfinds]
        exact others_kept h _ _ (hne _ _)
      · rw [unlock_finds h hkey hfinds]
        exact others_kept h _ _ (hne _ _)
      · intro hnone
        rw [hkey] at hnone
        cases hnone
    · intro k' hkey' _
      obtain rfl := Option.some.inj (hkey.symm.trans hkey')
      exact hfinds
  · have hhidden : ∀ k, e.key = some k → ¬ e.Finds k := fun k hkey hk => hfinds ⟨k, hkey, hk⟩
    have hunlocked : isLocked load (unlock e.text) = true ↔ e.key.map (·.value) = some true := by
      rw [unlock_hidden htext h hhidden]
      refine (isLocked_iff h e.key.toList [] e.final).trans ?_
      cases e.key <;> rfl
    constructor
    · intro hagrees k hkey hvalue
      have hlocked := hunlocked.mpr (by rw [hkey, Option.map_some, hvalue])
      rw [hagrees.unlocked] at hlocked
      cases hlocked
    · intro hfound
      constructor
      · rw [lock_hidden htext h hhidden, isLocked_iff h, List.getLast?_concat]
        rfl
      · rw [← Bool.not_eq_true, hunlocked]
        intro hvalue
        obtain ⟨k, hkey, hvalue⟩ := Option.map_eq_some_iff.mp hvalue
        exact hhidden k hkey (hfound k hkey hvalue)
      · rw [lock_hidden htext h hhidden]
        exact others_kept h _ _ (.inr rfl)
      · rw [unlock_hidden htext h hhidden]
        exact others_kept h _ _ (.inl htext.nonempty)
      · intro hnone hfinal
        exact unlock_lock htext h hnone hfinal

end

/-! ## A lock with a comment -/

/-- The value in a line of the key. -/
def keyValue (line : Text) : Option Bool :=
  (afterText? "localCustomization:".toList line).bind fun rest =>
    yamlBools.lookup ((rest.dropWhile isBlankChar).takeWhile (!Text.isSpace ·))

/-- YAML as far as one key goes, on texts of one-line entries. -/
def loadLines (text : Text) : Option (Value Empty) :=
  some (.dict (((text.splitOn '\n').filterMap keyValue).getLast?.map
    fun b => ("localCustomization", Value.bool b)).toList)

theorem keyValue_line (k : KeyLine) : keyValue k.line = some k.value := by
  have hlookup : yamlBools.lookup k.word = some k.value := by
    have hall : ∀ p ∈ yamlBools, yamlBools.lookup p.1 = some p.2 := by decide
    exact hall _ k.isBool
  obtain ⟨hne, hword⟩ := yamlBools_words _ k.isBool
  have htake : (k.word ++ k.tail).takeWhile (!Text.isSpace ·) = k.word := by
    rw [List.takeWhile_append_of_pos (List.all_eq_true.mp hword)]
    have htail := k.tail_space
    cases ht : k.tail with
    | nil => simp
    | cons c tail =>
      rw [ht] at htail
      rw [List.takeWhile_cons_of_neg (by simpa using htail c rfl), List.append_nil]
  unfold keyValue
  rw [afterText?_line, Option.bind_some, dropWhile_blanks hne hword, htake, hlookup]

theorem keyValue_other {l : Text} (h : ¬ "localCustomization:".toList <+: l) : keyValue l = none := by
  unfold keyValue afterText?
  rw [if_neg h]
  rfl

theorem isBlockMapping_loadLines {e : Envelope}
    (hothers : ∀ l ∈ e.others, '\n' ∉ l ∧ ¬ "localCustomization:".toList <+: l) :
    IsBlockMapping loadLines e := by
  have hbefore : e.before.filterMap keyValue = [] := List.filterMap_eq_nil_iff.mpr
    fun l hl => keyValue_other (hothers l (List.mem_append_left _ hl)).2
  have hafter : e.after.filterMap keyValue = [] := List.filterMap_eq_nil_iff.mpr
    fun l hl => keyValue_other (hothers l (List.mem_append_right _ hl)).2
  have hkeys : ∀ keys : List KeyLine,
      (keys.map KeyLine.line).filterMap keyValue = keys.map (·.value) := by
    intro keys
    rw [List.filterMap_map, ← List.filterMap_eq_map]
    exact List.filterMap_congr fun k _ => keyValue_line k
  have hvalues : ∀ keys behind, (e.withKeys keys behind).filterMap keyValue =
      (keys ++ behind).map (·.value) := by
    intro keys behind
    unfold Envelope.withKeys
    rw [List.filterMap_append, List.filterMap_append, List.filterMap_append, hbefore, hafter, hkeys,
      hkeys, List.map_append]
    rfl
  refine ⟨hothers, ?_⟩
  intro keys behind final
  have hlines : ((Text.ofLines (e.withKeys keys behind) final).splitOn '\n').filterMap keyValue =
      (keys ++ behind).map (·.value) := by
    have hone := oneLine_withKeys (fun l hl => (hothers l hl).1) keys behind
    by_cases hne : e.withKeys keys behind ≠ [] ∨ final = true
    · rw [Text.splitOn_ofLines hone hne, ← hvalues]
      split_ifs
      · rw [List.filterMap_append]
        exact List.append_nil _
      · rfl
    · obtain ⟨hnil, hfinal⟩ := not_or.mp hne
      rw [← hvalues, not_not.mp hnil]
      unfold Text.ofLines
      rw [if_neg hfinal]
      rfl
  refine .inl ⟨_, rfl, ?_⟩
  rw [hlines, List.getLast?_map]
  cases (keys ++ behind).getLast? with
  | none => rfl
  | some k => exact Dict.get?_cons_self _ _ _

/-- A lock that says why it is there. -/
def noted : Envelope where
  before := ["id: beacon".toList]
  key := some { plainLine with
    spaces := 1
    comment := some " tuned".toList
    apart := by decide
    oneLine := by decide }
  after := []
  final := true

/-- A lock with a comment stays when the rule is unlocked. -/
theorem noted_not_agrees : ¬ LockAgrees loadLines noted := by
  intro h
  have hlocked : isLocked loadLines (unlock noted.text) = true := by decide
  rw [h.unlocked] at hlocked
  cases hlocked

/-- The same lock without the comment. -/
def bare : Envelope := { noted with key := some plainLine }

theorem lockAgrees_iff_bare : LockAgrees loadLines bare := by
  have hothers : ∀ l ∈ bare.others, '\n' ∉ l ∧ ¬ "localCustomization:".toList <+: l := by decide
  have htext : bare.IsText := ⟨by decide, .inl rfl⟩
  refine (lockAgrees_iff htext (isBlockMapping_loadLines hothers)).mpr ?_
  intro k hk _
  obtain rfl := Option.some.inj hk
  exact ⟨rfl, .inr rfl⟩

end ContentOps.Lifecycle
