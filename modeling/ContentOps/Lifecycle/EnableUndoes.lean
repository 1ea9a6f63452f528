import ContentOps.Lifecycle.Disable

/-! Where `enable` takes back what `disable` wrote. -/

namespace ContentOps.Lifecycle
open PyData

/-- The lines of a rule around the one of its status. -/
structure RuleText where
  before : List Text
  line : Text
  after : List Text
  final : Bool

def RuleText.text (r : RuleText) : Text := Text.ofLines (r.before ++ r.line :: r.after) r.final

/-- One status line, of a rule in use, and no marker of `disable`. -/
structure RuleText.InUse (r : RuleText) : Prop where
  oneLine : ∀ l ∈ r.before ++ r.line :: r.after, '\n' ∉ l
  status : isStatusLine r.line = true
  active : Text.strip r.line ≠ "status: deprecated".toList
  single : ∀ l ∈ r.before ++ r.after, isStatusLine l = false
  unmarked : ∀ l ∈ r.before ++ r.after,
    ¬ "disableReason:".toList <+: l ∧ isDisableComment l = false
  ended : r.final = true ∨ ∀ l ∈ r.after.getLast?, l ≠ []

/-- The lines with another status. -/
def RuleText.withStatus (r : RuleText) (status : String) : List Text :=
  r.before ++ ("status: " ++ status).toList :: r.after

/-- Lines of a text without a marker. -/
def Unmarked (lines : List Text) : Prop :=
  ∀ l ∈ lines, '\n' ∉ l ∧ ¬ "disableReason:".toList <+: l ∧ isDisableComment l = false

/-! ## The status line -/

theorem editLine_ofLines {edit : Text → Option Text} {before after : List Text} {line line' : Text}
    {final : Bool} (hlines : ∀ l ∈ before ++ line :: after, '\n' ∉ l)
    (hbefore : ∀ l ∈ before, edit l = none) (hline : edit line = some line') :
    editLine edit (Text.ofLines (before ++ line :: after) final) =
      some (Text.ofLines (before ++ line' :: after) final) := by
  have hreplace : ∀ rest, replaceFirst edit (before ++ line :: rest) =
      some (before ++ line' :: rest) := by
    intro rest
    induction before with
    | nil => simp only [List.nil_append, replaceFirst, hline]
    | cons l before ih =>
      obtain ⟨hl, hbefore⟩ := List.forall_mem_cons.mp hbefore
      obtain ⟨-, hlines⟩ := List.forall_mem_cons.mp hlines
      rw [List.cons_append, replaceFirst, hl]
      dsimp only
      rw [ih hlines hbefore]
      rfl
  unfold editLine
  rw [Text.splitOn_ofLines hlines (.inl (by simp))]
  unfold Text.ofLines joinLines
  cases final with
  | true =>
    rw [if_pos rfl, if_pos rfl, List.append_assoc, List.cons_append, hreplace]
    simp
  | false =>
    rw [if_neg Bool.false_ne_true, if_neg Bool.false_ne_true, hreplace]
    rfl

theorem setStatus_ofLines {before after : List Text} {line : Text} {final : Bool}
    (hlines : ∀ l ∈ before ++ line :: after, '\n' ∉ l)
    (hbefore : ∀ l ∈ before, isStatusLine l = false) (hline : isStatusLine line = true)
    (status : String) :
    setStatus status (Text.ofLines (before ++ line :: after) final) =
      Text.ofLines (before ++ ("status: " ++ status).toList :: after) final := by
  let edit := fun line : Text =>
    if isStatusLine line then some ("status: " ++ status).toList else none
  have hstay : ∀ l ∈ before, edit l = none := by
    intro l hl
    exact if_neg (by simp [hbefore l hl])
  have hedit : edit line = some ("status: " ++ status).toList := if_pos hline
  unfold setStatus
  rw [editLine_ofLines hlines hstay hedit, Option.getD_some]

theorem statusLine?_ofLines {before after : List Text} {line : Text} {final : Bool}
    (hlines : ∀ l ∈ before ++ line :: after, '\n' ∉ l)
    (hbefore : ∀ l ∈ before, isStatusLine l = false) (hline : isStatusLine line = true) :
    statusLine? (Text.ofLines (before ++ line :: after) final) = some line := by
  have hfind : ∀ rest, (before ++ line :: rest).find? isStatusLine = some line := by
    intro rest
    have hnone : before.find? isStatusLine = none := by simpa using hbefore
    rw [List.find?_append, hnone, Option.none_or, List.find?_cons_of_pos hline]
  unfold statusLine?
  rw [Text.splitOn_ofLines hlines (.inl (by simp))]
  split_ifs
  · rw [List.append_assoc, List.cons_append, hfind]
  · exact hfind after

/-! ## The markers -/

theorem isDisableReasonLine_of_not_prefix {l : Text} (h : ¬ "disableReason:".toList <+: l) :
    isDisableReasonLine l = false := by
  unfold isDisableReasonLine afterText?
  rw [if_neg h]
  rfl

theorem isDisableComment_of_not_prefix {l : Text} (h : ¬ disabledBy <+: l) :
    isDisableComment l = false := by
  unfold isDisableComment afterText?
  rw [if_neg h]
  rfl

theorem isDecimal_of_isDigit {c : Char} (h : c.isDigit = true) : isDecimal c = true := by
  have hrange : 48 ≤ c.toNat ∧ c.toNat ≤ 57 := by
    obtain ⟨hlo, hhi⟩ := Bool.and_eq_true_iff.mp h
    exact ⟨UInt32.le_iff_toNat_le.mp (of_decide_eq_true hlo),
      UInt32.le_iff_toNat_le.mp (of_decide_eq_true hhi)⟩
  apply List.any_eq_true.mpr
  refine ⟨0x30, by decide, ?_⟩
  simp only [Bool.and_eq_true, decide_eq_true_eq]
  omega

/-- The date of a comment is one that the pattern takes. -/
theorem isDisableComment_isoText (today : Date) :
    isDisableComment (disabledBy ++ today.isoText) = true := by
  have hdigit : ∀ n : Nat, isDecimal (n % 10).digitChar = true := fun n =>
    isDecimal_of_isDigit (FixedWidth.digitChar_isDigit (Nat.mod_lt _ (by decide)))
  unfold isDisableComment afterText?
  rw [if_pos (List.prefix_append _ _), List.drop_left, Option.any_some]
  simp [Date.isoText, FixedWidth.pad, isDateTail, hdigit]

/-- The line of a reason that is not folded. -/
theorem isDisableReasonLine_quoted (t : Text) :
    isDisableReasonLine ("disableReason: ".toList ++ ('"' :: t ++ ['"'])) = true := by
  have hafter : afterText? "disableReason:".toList ("disableReason: ".toList ++ ('"' :: t ++ ['"'])) =
      some (' ' :: ('"' :: t ++ ['"'])) := rfl
  unfold isDisableReasonLine
  rw [hafter, Option.any_some]
  unfold isQuotedTail
  rw [List.dropWhile_cons_of_pos (by decide), List.cons_append,
    List.dropWhile_cons_of_neg (by decide)]
  simp [List.rdropWhile_concat_neg, isBlankChar]

/-- A line that ends with a backslash is not that of a reason. -/
theorem isDisableReasonLine_folded (t : Text) : isDisableReasonLine (t ++ ['\\']) = false := by
  rw [← Bool.not_eq_true]
  intro hline
  unfold isDisableReasonLine afterText? at hline
  split_ifs at hline
  · rw [Option.any_some] at hline
    unfold isQuotedTail at hline
    split at hline
    · next body hbody =>
      have hsuffix : '"' :: body <:+ t ++ ['\\'] := by
        rw [← hbody]
        exact (List.dropWhile_suffix _).trans (List.drop_suffix _ _)
      obtain ⟨front, hfront⟩ := hsuffix
      obtain rfl | ⟨init, c, rfl⟩ := List.eq_nil_or_concat body
      · have hlast := congrArg List.getLast? hfront
        simp at hlast
      · obtain rfl : c = '\\' := by
          have hlast := congrArg List.getLast? hfront
          simpa [List.getLast?_append, List.getLast?_cons] using hlast
        rw [List.concat_eq_append, List.rdropWhile_concat_neg _ _ _ (by decide)] at hline
        simp at hline
    · cases hline
  · cases hline

/-! ## Disable and enable -/

variable {r : RuleText}

theorem RuleText.InUse.before (h : r.InUse) : ∀ l ∈ r.before, isStatusLine l = false :=
  fun l hl => h.single l (List.mem_append_left _ hl)

/-- The lines with another status have no newline, and no marker. -/
theorem RuleText.InUse.withStatus (h : r.InUse) {status : String} (hstatus : '\n' ∉ status.toList) :
    Unmarked (r.withStatus status) := by
  have hother : ∀ l ∈ r.before ++ r.after, l ∈ r.before ++ r.line :: r.after := by
    intro l hl
    rcases List.mem_append.mp hl with hl | hl
    · exact List.mem_append_left _ hl
    · exact List.mem_append_right _ (List.mem_cons_of_mem _ hl)
  intro l hl
  obtain hl | hl : l = ("status: " ++ status).toList ∨ l ∈ r.before ++ r.after := by
    unfold RuleText.withStatus at hl
    simp only [List.mem_append, List.mem_cons] at hl ⊢
    tauto
  · subst hl
    rw [String.toList_append]
    refine ⟨?_, ?_, ?_⟩
    · intro hmem
      rcases List.mem_append.mp hmem with hmem | hmem
      · revert hmem
        decide
      · exact hstatus hmem
    · rintro ⟨t, ht⟩
      have hfirst : some 'd' = some 's' := congrArg List.head? ht
      exact absurd hfirst (by decide)
    · apply isDisableComment_of_not_prefix
      rintro ⟨t, ht⟩
      have hfirst : some '#' = some 's' := congrArg List.head? ht
      exact absurd hfirst (by decide)
  · exact ⟨h.oneLine l (hother l hl), h.unmarked l hl⟩

theorem disableOne_eq (h : r.InUse) (yaml : Emitter) (today : Date) (reason : Option Text) :
    disableOne yaml today reason r.text =
      .written (Text.ofLines (r.withStatus "deprecated" ++ disableMarker yaml today reason) true) := by
  unfold disableOne RuleText.text
  rw [statusLine?_ofLines h.oneLine h.before h.status]
  dsimp only
  rw [if_neg h.active, setStatus_ofLines h.oneLine h.before h.status, Text.ofLines_append]
  have hend : r.final = true ∨ (r.withStatus "deprecated").getLast? ≠ some [] := by
    refine h.ended.imp_right ?_
    intro hlast heq
    unfold RuleText.withStatus at heq
    rw [List.getLast?_append, List.getLast?_cons] at heq
    cases hafter : r.after.getLast? with
    | none =>
      rw [hafter] at heq
      have hne : ("status: " ++ "deprecated").toList ≠ [] := by decide
      exact hne (Option.some.inj heq)
    | some l =>
      rw [hafter] at heq
      exact hlast l hafter (Option.some.inj heq)
  have hnewline := Text.ensureNewline_ofLines
    (fun l hl => (h.withStatus (by decide) l hl).1) (by simp [RuleText.withStatus]) hend
  exact congrArg (fun t => Mutation.written (t ++ _)) hnewline

theorem Unmarked.concat {lines : List Text} (h : Unmarked lines) {line : Text}
    (hline : '\n' ∉ line) : ∀ l ∈ lines ++ [line], '\n' ∉ l := by
  intro l hl
  rcases List.mem_append.mp hl with hl | hl
  · exact (h l hl).1
  · rwa [List.mem_singleton.mp hl]

theorem Unmarked.subLine_comment {lines : List Text} (h : Unmarked lines) :
    Text.subLine isDisableComment [] (Text.ofLines lines true) = none :=
  Text.subLine_eq_none [] (fun l hl => (h l hl).1) (.inr rfl) fun l hl => (h l hl).2.2

theorem stripMarkers_reason {lines : List Text} (h : Unmarked lines) {line : Text}
    (hnewline : '\n' ∉ line) (hline : isDisableReasonLine line = true) :
    stripMarkers (Text.ofLines (lines ++ [line]) true) = Text.ofLines lines true := by
  have hother : ∀ l ∈ lines, isDisableReasonLine l = false :=
    fun l hl => isDisableReasonLine_of_not_prefix (h l hl).2.1
  unfold stripMarkers
  rw [Text.subLine_match [] (h.concat hnewline) hother hline (.inr rfl), Option.getD_some,
    List.append_nil, List.append_nil]
  dsimp only
  rw [h.subLine_comment, Option.getD_none]

theorem stripMarkers_comment {lines : List Text} (h : Unmarked lines) {line : Text}
    (hnewline : '\n' ∉ line) (hreason : isDisableReasonLine line = false)
    (hline : isDisableComment line = true) :
    stripMarkers (Text.ofLines (lines ++ [line]) true) = Text.ofLines lines true := by
  have hnone : ∀ l ∈ lines ++ [line], isDisableReasonLine l = false := by
    intro l hl
    rcases List.mem_append.mp hl with hl | hl
    · exact isDisableReasonLine_of_not_prefix (h l hl).2.1
    · rwa [List.mem_singleton.mp hl]
  have hother : ∀ l ∈ lines, isDisableComment l = false := fun l hl => (h l hl).2.2
  unfold stripMarkers
  rw [Text.subLine_eq_none [] (h.concat hnewline) (.inr rfl) hnone, Option.getD_none]
  dsimp only
  rw [Text.subLine_match [] (h.concat hnewline) hother hline (.inr rfl), Option.getD_some,
    List.append_nil, List.append_nil]

/-- A line that neither pattern takes stays. -/
theorem stripMarkers_keeps {lines : List Text} (hlines : ∀ l ∈ lines, '\n' ∉ l) {line : Text}
    (hmem : line ∈ lines) (hreason : isDisableReasonLine line = false)
    (hcomment : isDisableComment line = false) :
    ∃ kept, stripMarkers (Text.ofLines lines true) = Text.ofLines kept true ∧
      (∀ l ∈ kept, '\n' ∉ l) ∧ line ∈ kept := by
  obtain ⟨mid, hmid, hsub, hstay⟩ := Text.subLine_keeps isDisableReasonLine hlines
  have hone : ∀ l ∈ mid, '\n' ∉ l := fun l hl => hlines l (hsub hl)
  obtain ⟨kept, hkept, hsub', hstay'⟩ := Text.subLine_keeps isDisableComment hone
  refine ⟨kept, ?_, fun l hl => hone l (hsub' hl), hstay' line (hstay line hmem hreason) hcomment⟩
  unfold stripMarkers
  rw [hmid]
  exact hkept

theorem enableOne_eq (h : r.InUse) {toStatus : EnableTarget} (hto : toStatus ≠ .production)
    {marker : List Text} (hmarker : ∀ l ∈ marker, '\n' ∉ l) (today : Date) (promoter : Text)
    (why : Option Text) :
    enableOne today promoter toStatus why
        (Text.ofLines (r.withStatus "deprecated" ++ marker) true) =
      .written (Text.ensureNewline
        (stripMarkers (Text.ofLines (r.withStatus toStatus.name ++ marker) true)) ++
          enableMarker today why) := by
  have hlines : ∀ l ∈ r.before ++ ("status: " ++ "deprecated").toList :: (r.after ++ marker),
      '\n' ∉ l := by
    intro l hl
    have hstatus := h.withStatus (show '\n' ∉ "deprecated".toList by decide)
    rcases List.mem_append.mp (show l ∈ r.withStatus "deprecated" ++ marker by
      simpa [RuleText.withStatus] using hl) with hl | hl
    · exact (hstatus l hl).1
    · exact hmarker l hl
  have hline : isStatusLine ("status: " ++ "deprecated").toList = true := by decide
  unfold enableOne RuleText.withStatus
  simp only [List.append_assoc, List.cons_append]
  rw [statusLine?_ofLines hlines h.before hline]
  dsimp only
  rw [if_neg (not_not.mpr (by decide)), setStatus_ofLines hlines h.before hline, if_neg hto]

/-! ## The lines of a reason -/

theorem newline_notMem_closeQuote {ts : List Text} (h : ∀ t ∈ ts, '\n' ∉ t) :
    ∀ t ∈ closeQuote ts, '\n' ∉ t := by
  induction ts with
  | nil => exact h
  | cons t more ih =>
    obtain ⟨ht, hmore⟩ := List.forall_mem_cons.mp h
    cases more with
    | nil => simpa [closeQuote] using ht
    | cons next more =>
      intro l hl
      rcases List.mem_cons.mp hl with rfl | hl
      · simpa using ht
      · exact ih hmore l hl

theorem disableMarker_none (yaml : Emitter) (today : Date) {reason : Option Text}
    (h : reason.filter (· ≠ []) = none) :
    disableMarker yaml today reason = [disabledBy ++ today.isoText] := by
  unfold disableMarker
  rw [h]

theorem disableMarker_line {yaml : Emitter} (today : Date) {reason : Option Text} {t : Text}
    (h : reason.filter (· ≠ []) = some t) (hline : yaml.KeepsLine t) :
    disableMarker yaml today reason =
      ["disableReason: ".toList ++ ('"' :: (yaml.quoted t).1 ++ ['"'])] := by
  unfold Emitter.KeepsLine at hline
  unfold disableMarker Emitter.lines
  rw [h]
  dsimp only
  rw [hline]
  rfl

theorem disableMarker_folded {yaml : Emitter} (today : Date) {reason : Option Text} {t : Text}
    (h : reason.filter (· ≠ []) = some t) (hfold : ¬ yaml.KeepsLine t) :
    ∃ more, disableMarker yaml today reason =
      ("disableReason: ".toList ++ ('"' :: (yaml.quoted t).1 ++ ['\\'])) :: more := by
  obtain ⟨next, rest, hrest⟩ := List.exists_cons_of_ne_nil hfold
  unfold disableMarker Emitter.lines
  rw [h]
  dsimp only
  rw [hrest]
  exact ⟨_, rfl⟩

theorem newline_notMem_isoText (today : Date) : '\n' ∉ today.isoText := by
  have hpad : ∀ k n, '\n' ∉ FixedWidth.pad 10 k n :=
    fun k n h => absurd (FixedWidth.isDigit_pad h) (by decide)
  simp [Date.isoText, hpad]

theorem newline_notMem_disableMarker (yaml : Emitter) (today : Date) (reason : Option Text) :
    ∀ l ∈ disableMarker yaml today reason, '\n' ∉ l := by
  cases hreason : reason.filter (· ≠ []) with
  | none =>
    rw [disableMarker_none yaml today hreason]
    intro l hl
    rw [List.mem_singleton.mp hl, List.mem_append, not_or]
    exact ⟨by decide, newline_notMem_isoText today⟩
  | some t =>
    have hlines : ∀ l ∈ yaml.lines t, '\n' ∉ l := by
      apply newline_notMem_closeQuote
      obtain ⟨hfirst, hrest⟩ := List.forall_mem_cons.mp (yaml.oneLine t)
      exact List.forall_mem_cons.mpr ⟨by simpa using hfirst, hrest⟩
    unfold disableMarker
    rw [hreason]
    dsimp only
    cases hshape : yaml.lines t with
    | nil => exact fun l hl => absurd hl List.not_mem_nil
    | cons line more =>
      rw [hshape] at hlines
      obtain ⟨hline, hmore⟩ := List.forall_mem_cons.mp hlines
      refine List.forall_mem_cons.mpr ⟨?_, hmore⟩
      rw [List.mem_append, not_or]
      exact ⟨by decide, hline⟩

theorem ensureNewline_withStatus {status : String} (h : Unmarked (r.withStatus status)) :
    Text.ensureNewline (Text.ofLines (r.withStatus status) true) =
      Text.ofLines (r.withStatus status) true :=
  Text.ensureNewline_ofLines (fun l hl => (h l hl).1) (by simp [RuleText.withStatus]) (.inl rfl)

/-- What comes back from enable is the text that the two patterns leave. -/
theorem undoes_iff_strip (h : r.InUse) (yaml : Emitter) (day day' : Date) (promoter : Text)
    (reason why : Option Text) {toStatus : EnableTarget} (hto : toStatus ≠ .production) :
    (∃ disabled, disableOne yaml day reason r.text = .written disabled ∧
      enableOne day' promoter toStatus why disabled =
        .written (Text.ofLines (r.withStatus toStatus.name) true ++ enableMarker day' why)) ↔
      Text.ensureNewline (stripMarkers
        (Text.ofLines (r.withStatus toStatus.name ++ disableMarker yaml day reason) true)) =
          Text.ofLines (r.withStatus toStatus.name) true := by
  have hmarker := newline_notMem_disableMarker yaml day reason
  rw [disableOne_eq h]
  constructor
  · rintro ⟨disabled, hdisabled, henabled⟩
    obtain rfl := Mutation.written.inj hdisabled
    rw [enableOne_eq h hto hmarker] at henabled
    exact List.append_cancel_right (Mutation.written.inj henabled)
  · intro heq
    refine ⟨_, rfl, ?_⟩
    rw [enableOne_eq h hto hmarker, heq]

/-- Enable takes back what disable wrote, but for the status and a marker of its own, exactly where
the reason stays on one line. -/
theorem enable_undoes_iff (h : r.InUse) (yaml : Emitter) (day day' : Date) (promoter : Text)
    (reason why : Option Text) {toStatus : EnableTarget} (hto : toStatus ≠ .production) :
    (∃ disabled, disableOne yaml day reason r.text = .written disabled ∧
      enableOne day' promoter toStatus why disabled =
        .written (Text.ofLines (r.withStatus toStatus.name) true ++ enableMarker day' why)) ↔
      ∀ t, reason = some t → t ≠ [] → yaml.KeepsLine t := by
  have hname : '\n' ∉ toStatus.name.toList := by cases toStatus <;> decide
  have hlines : Unmarked (r.withStatus toStatus.name) := h.withStatus hname
  have hmarker := newline_notMem_disableMarker yaml day reason
  rw [undoes_iff_strip h yaml day day' promoter reason why hto]
  cases hreason : reason.filter (· ≠ []) with
  | none =>
    have hcomment := isDisableComment_isoText day
    have hnot : isDisableReasonLine (disabledBy ++ day.isoText) = false := by
      apply isDisableReasonLine_of_not_prefix
      rintro ⟨t, ht⟩
      have hfirst : some 'd' = some '#' := congrArg List.head? ht
      exact absurd hfirst (by decide)
    rw [disableMarker_none yaml day hreason] at hmarker ⊢
    rw [stripMarkers_comment hlines (hmarker _ List.mem_cons_self) hnot hcomment,
      ensureNewline_withStatus hlines]
    refine iff_of_true rfl ?_
    rintro t rfl hne
    simp [Option.filter, hne] at hreason
  | some t =>
    obtain ⟨rfl, hne⟩ : reason = some t ∧ t ≠ [] := by simpa using hreason
    by_cases hline : yaml.KeepsLine t
    · rw [disableMarker_line day hreason hline] at hmarker ⊢
      rw [stripMarkers_reason hlines (hmarker _ List.mem_cons_self) (isDisableReasonLine_quoted _),
        ensureNewline_withStatus hlines]
      refine iff_of_true rfl ?_
      rintro t' ht -
      obtain rfl := Option.some.inj ht
      exact hline
    · refine iff_of_false ?_ fun hkeep => hline (hkeep t rfl hne)
      obtain ⟨more, hmore⟩ := disableMarker_folded day hreason hline
      rw [hmore] at hmarker ⊢
      have hall : ∀ l ∈ r.withStatus toStatus.name ++ ("disableReason: ".toList ++
          ('"' :: (yaml.quoted t).1 ++ ['\\'])) :: more, '\n' ∉ l := by
        intro l hl
        rcases List.mem_append.mp hl with hl | hl
        · exact (hlines l hl).1
        · exact hmarker l hl
      have hreasonLine : isDisableReasonLine ("disableReason: ".toList ++
          ('"' :: (yaml.quoted t).1 ++ ['\\'])) = false := by
        rw [← List.append_assoc]
        exact isDisableReasonLine_folded _
      have hcomment : isDisableComment ("disableReason: ".toList ++
          ('"' :: (yaml.quoted t).1 ++ ['\\'])) = false := by
        apply isDisableComment_of_not_prefix
        rintro ⟨t, ht⟩
        have hfirst : some '#' = some 'd' := congrArg List.head? ht
        exact absurd hfirst (by decide)
      obtain ⟨kept, hkept, hone, hmem⟩ := stripMarkers_keeps hall
        (List.mem_append_right _ List.mem_cons_self) hreasonLine hcomment
      -- The first line of the folded reason is left over.
      rw [hkept, Text.ensureNewline_ofLines hone (List.ne_nil_of_mem hmem) (.inl rfl)]
      intro heq
      have hsame := Text.ofLines_injective hone (fun l hl => (hlines l hl).1) heq
      rw [hsame] at hmem
      exact (hlines _ hmem).2.1 ⟨_, rfl⟩

/-! ## A long reason -/

/-- PyYAML on a plain text: a line of eighty characters breaks at its next space. -/
def foldOnce (t : Text) : Text × List Text :=
  let cut := 80 + ((t.drop 80).takeWhile (· ≠ ' ')).length
  if cut + 1 < t.length then (t.take cut, ['\\' :: t.drop cut]) else (t, [])

def plainEmitter : Emitter where
  quoted t := foldOnce (t.filter (· ≠ '\n'))
  oneLine t := by
    have ht : '\n' ∉ t.filter (· ≠ '\n') := by simp
    intro l hl hmem
    unfold foldOnce at hl
    dsimp only at hl
    split_ifs at hl
    · simp only [List.mem_cons, List.not_mem_nil, or_false] at hl
      rcases hl with rfl | rfl
      · exact ht (List.mem_of_mem_take hmem)
      · rcases List.mem_cons.mp hmem with hslash | hmem
        · cases hslash
        · exact ht (List.mem_of_mem_drop hmem)
    · obtain rfl : l = t.filter (· ≠ '\n') := by simpa using hl
      exact ht hmem

def beacon : RuleText := ⟨["id: beacon".toList], "status: experimental".toList, [], true⟩

theorem inUse_beacon : beacon.InUse := by
  constructor <;> decide

def august : Date := ⟨2025, 8, 12, by decide, by decide, by decide⟩

def longReason : Text :=
  "false positives on backup hosts until the vendor ships the fix that the board wants it".toList

/-- A long reason stays behind in part. -/
theorem longReason_not_undone : ¬ ∃ disabled,
    disableOne plainEmitter august (some longReason) beacon.text = .written disabled ∧
      enableOne august [] .experimental none disabled =
        .written (Text.ofLines (beacon.withStatus "experimental") true ++
          enableMarker august none) := by
  rintro ⟨disabled, hdisabled, henabled⟩
  have hdisable : disableOne plainEmitter august (some longReason) beacon.text =
      .written (Text.ofLines (beacon.withStatus "deprecated" ++
        disableMarker plainEmitter august (some longReason)) true) := by decide
  obtain rfl := Mutation.written.inj (hdisable.symm.trans hdisabled)
  revert henabled
  decide

theorem enable_undoes_iff_beacon : ∃ disabled,
    disableOne plainEmitter august (some "noisy".toList) beacon.text = .written disabled ∧
      enableOne august [] .test none disabled =
        .written (Text.ofLines (beacon.withStatus "test") true ++ enableMarker august none) := by
  have hto : EnableTarget.test ≠ .production := by decide
  refine (enable_undoes_iff inUse_beacon plainEmitter august august [] (some "noisy".toList) none
    hto).mpr ?_
  intro t ht _
  obtain rfl := Option.some.inj ht
  rfl

end ContentOps.Lifecycle
