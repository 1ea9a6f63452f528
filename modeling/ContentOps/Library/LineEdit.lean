import ContentOps.Library.Text

/-! Texts as lines, and the edit of the first line with its newline that a pattern matches. -/

namespace PyData.Text

/-- Lines joined, with a newline after the last one or without. -/
def ofLines (lines : List Text) (final : Bool) : Text :=
  ['\n'].intercalate (if final then lines ++ [[]] else lines)

theorem splitOn_ofLines {lines : List Text} {final : Bool} (hlines : ∀ l ∈ lines, '\n' ∉ l)
    (hne : lines ≠ [] ∨ final = true) :
    (ofLines lines final).splitOn '\n' = if final then lines ++ [[]] else lines := by
  unfold ofLines
  apply List.splitOn_intercalate
  · intro l hl
    split_ifs at hl
    · rcases List.mem_append.mp hl with hl | hl
      · exact hlines l hl
      · rw [List.mem_singleton.mp hl]
        exact List.not_mem_nil
    · exact hlines l hl
  · split_ifs with hfinal
    · simp
    · exact hne.resolve_right hfinal

theorem intercalate_concat_nil (lines : List Text) :
    ['\n'].intercalate (lines ++ [[]]) = lines.flatMap (· ++ ['\n']) := by
  induction lines with
  | nil => rfl
  | cons line lines ih =>
    rw [List.cons_append, List.intercalate_cons_of_ne_nil (by simp), ih, List.flatMap_cons]

theorem ofLines_true (lines : List Text) : ofLines lines true = lines.flatMap (· ++ ['\n']) :=
  intercalate_concat_nil lines

theorem ofLines_append (lines more : List Text) :
    ofLines (lines ++ more) true = ofLines lines true ++ ofLines more true := by
  rw [ofLines_true, ofLines_true, ofLines_true, List.flatMap_append]

theorem ofLines_concat (lines : List Text) (last : Text) (final : Bool) :
    ofLines (lines ++ [last]) final =
      ofLines lines true ++ (last ++ if final then ['\n'] else []) := by
  cases final with
  | true =>
    rw [ofLines_append, ofLines_true [last]]
    simp
  | false =>
    rw [if_neg Bool.false_ne_true, List.append_nil, ofLines_true]
    unfold ofLines
    rw [if_neg Bool.false_ne_true]
    induction lines with
    | nil => simp
    | cons line lines ih =>
      rw [List.cons_append, List.intercalate_cons_of_ne_nil (by simp), ih, List.flatMap_cons]
      simp only [List.append_assoc]

/-- `t` with a final newline. -/
def ensureNewline (t : Text) : Text := if t.getLast? = some '\n' then t else t ++ ['\n']

/-- The last line without a newline is not an empty one. -/
theorem ensureNewline_ofLines {lines : List Text} {final : Bool} (hlines : ∀ l ∈ lines, '\n' ∉ l)
    (hne : lines ≠ []) (hend : final = true ∨ lines.getLast? ≠ some []) :
    ensureNewline (ofLines lines final) = ofLines lines true := by
  obtain ⟨last, hlast⟩ := Option.isSome_iff_exists.mp (List.getLast?_isSome.mpr hne)
  obtain ⟨init, rfl⟩ := List.getLast?_eq_some_iff.mp hlast
  rw [hlast] at hend
  rw [ofLines_concat, ofLines_concat, if_pos rfl]
  cases final with
  | true =>
    unfold ensureNewline
    rw [if_pos rfl, if_pos (by simp)]
  | false =>
    have hnil : last ≠ [] := fun h => hend.resolve_left Bool.false_ne_true (congrArg some h)
    have hopen : (ofLines init true ++ last).getLast? ≠ some '\n' := by
      rw [List.getLast?_append_of_ne_nil _ hnil]
      exact fun h => hlines last (by simp) (List.mem_of_getLast? h)
    unfold ensureNewline
    rw [if_neg Bool.false_ne_true, List.append_nil, if_neg hopen, List.append_assoc]

/-- The first line that has a newline and matches gives way to the new lines. -/
def replaceLine (p : Text → Bool) (new : List Text) : List Text → Option (List Text)
  | [] => none
  | line :: rest =>
    if rest ≠ [] ∧ p line then some (new ++ rest)
    else (replaceLine p new rest).map (line :: ·)

/-- `sub` of a pattern for a line with its newline, once; `none` where nothing matches. -/
def subLine (p : Text → Bool) (new : List Text) (t : Text) : Option Text :=
  (replaceLine p new (t.splitOn '\n')).map ['\n'].intercalate

variable {p : Text → Bool}

theorem replaceLine_match {before rest : List Text} {line : Text} (new : List Text)
    (hbefore : ∀ l ∈ before, p l = false) (hline : p line = true) (hrest : rest ≠ []) :
    replaceLine p new (before ++ line :: rest) = some (before ++ (new ++ rest)) := by
  induction before with
  | nil => exact if_pos ⟨hrest, hline⟩
  | cons l before ih =>
    obtain ⟨hl, hbefore⟩ := List.forall_mem_cons.mp hbefore
    rw [List.cons_append, replaceLine, ih hbefore, if_neg]
    · rfl
    · rintro ⟨-, hp⟩
      rw [hl] at hp
      cases hp

theorem replaceLine_eq_none {lines : List Text} (new : List Text)
    (h : ∀ l ∈ lines.dropLast, p l = false) : replaceLine p new lines = none := by
  induction lines with
  | nil => rfl
  | cons line rest ih =>
    cases rest with
    | nil => rfl
    | cons next rest =>
      obtain ⟨hline, hrest⟩ := List.forall_mem_cons.mp h
      rw [replaceLine, ih hrest, if_neg]
      · rfl
      · rintro ⟨-, hp⟩
        rw [hline] at hp
        cases hp

theorem subLine_match {before after : List Text} {line : Text} {final : Bool} (new : List Text)
    (hlines : ∀ l ∈ before ++ line :: after, '\n' ∉ l) (hbefore : ∀ l ∈ before, p l = false)
    (hline : p line = true) (hend : after ≠ [] ∨ final = true) :
    subLine p new (ofLines (before ++ line :: after) final) =
      some (ofLines (before ++ (new ++ after)) final) := by
  unfold subLine
  rw [splitOn_ofLines hlines (.inl (by simp))]
  unfold ofLines
  cases final with
  | true =>
    rw [if_pos rfl, if_pos rfl, List.append_assoc, List.cons_append,
      replaceLine_match new hbefore hline (by simp)]
    simp
  | false =>
    rw [if_neg Bool.false_ne_true, if_neg Bool.false_ne_true,
      replaceLine_match new hbefore hline (hend.resolve_right Bool.false_ne_true)]
    rfl

theorem subLine_eq_none {lines : List Text} {final : Bool} (new : List Text)
    (hlines : ∀ l ∈ lines, '\n' ∉ l) (hne : lines ≠ [] ∨ final = true)
    (h : ∀ l ∈ if final then lines else lines.dropLast, p l = false) :
    subLine p new (ofLines lines final) = none := by
  unfold subLine
  rw [splitOn_ofLines hlines hne, replaceLine_eq_none]
  · rfl
  · intro l hl
    apply h l
    cases final with
    | true =>
      rw [if_pos rfl, List.dropLast_concat] at hl
      exact hl
    | false => exact hl

theorem ofLines_injective {lines more : List Text} (hlines : ∀ l ∈ lines, '\n' ∉ l)
    (hmore : ∀ l ∈ more, '\n' ∉ l) (h : ofLines lines true = ofLines more true) : lines = more := by
  have hsplit := congrArg (List.splitOn '\n') h
  rw [splitOn_ofLines hlines (.inr rfl), splitOn_ofLines hmore (.inr rfl)] at hsplit
  exact List.append_cancel_right hsplit

/-- Where a line is taken out, or none is, the lines that do not match stay. -/
theorem subLine_keeps (p : Text → Bool) {lines : List Text} (hlines : ∀ l ∈ lines, '\n' ∉ l) :
    ∃ kept, (subLine p [] (ofLines lines true)).getD (ofLines lines true) = ofLines kept true ∧
      kept ⊆ lines ∧ ∀ l ∈ lines, p l = false → l ∈ kept := by
  cases hfind : lines.find? p with
  | none =>
    have hnone : ∀ l ∈ lines, p l = false := by simpa using hfind
    refine ⟨lines, ?_, List.Subset.refl _, fun l hl _ => hl⟩
    rw [subLine_eq_none [] hlines (.inr rfl) hnone, Option.getD_none]
  | some line =>
    obtain ⟨hline, before, after, rfl, hbefore⟩ := List.find?_eq_some_iff_append.mp hfind
    have hpre : ∀ l ∈ before, p l = false := by simpa using hbefore
    refine ⟨before ++ after, ?_, ?_, ?_⟩
    · rw [subLine_match [] hlines hpre hline (.inr rfl)]
      rfl
    · exact List.append_subset.mpr ⟨List.subset_append_left _ _,
        List.subset_append_of_subset_right _ (List.subset_cons_self _ _)⟩
    · intro l hl hp
      have hne : l ≠ line := by
        rintro rfl
        rw [hline] at hp
        cases hp
      simpa [hne] using hl

end PyData.Text
