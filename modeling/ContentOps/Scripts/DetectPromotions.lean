import ContentOps.Lifecycle.Gates
import ContentOps.Library.PathText

/-! The promotion gate of a pull request, `scripts/detect_production_promotions.py`. -/

namespace ContentOps.DetectPromotions
open PyData Lifecycle

/-! ## What git tells -/

/-- The path of a file below the top of a repository. -/
abbrev GitPath := { p : Path // p ≠ [] ∧ ∀ name ∈ p, IsName name }

def GitPath.text (p : GitPath) : Text := slashed p.1

/-- How git prints it. -/
def GitPath.printed (p : GitPath) : Text := quotePath p.text

/-- A file of `git diff -M --name-status`. -/
inductive DiffEntry where
  | added (p : GitPath)
  | modified (p : GitPath)
  | deleted (p : GitPath)
  | typeChanged (p : GitPath)
  | renamed (score : Nat) (old new : GitPath)
  | copied (score : Nat) (old new : GitPath)

namespace DiffEntry

def scoreText (score : Nat) : Text :=
  [score / 100 % 10, score / 10 % 10, score % 10].map Nat.digitChar

def line : DiffEntry → Text
  | .added p => 'A' :: '\t' :: p.printed
  | .modified p => 'M' :: '\t' :: p.printed
  | .deleted p => 'D' :: '\t' :: p.printed
  | .typeChanged p => 'T' :: '\t' :: p.printed
  | .renamed score old new => 'R' :: (scoreText score ++ '\t' :: (old.printed ++ '\t' :: new.printed))
  | .copied score old new => 'C' :: (scoreText score ++ '\t' :: (old.printed ++ '\t' :: new.printed))

/-- The path at the head, with the one at the base that git pairs with it. -/
def pair? : DiffEntry → Option (GitPath × GitPath)
  | .added p | .modified p | .typeChanged p => some (p, p)
  | .deleted _ => none
  | .renamed _ old new | .copied _ old new => some (new, old)

/-- The entry says truly what became of the file. -/
def Holds (base head : FileTree) : DiffEntry → Prop
  | .added p => base.read p.1 = none ∧ (head.read p.1).isSome
  | .modified p | .typeChanged p => (base.read p.1).isSome ∧ (head.read p.1).isSome
  | .deleted p => (base.read p.1).isSome ∧ head.read p.1 = none
  | .renamed _ old new => (base.read old.1).isSome ∧ head.read old.1 = none ∧
      base.read new.1 = none ∧ (head.read new.1).isSome
  | .copied _ old new => (base.read old.1).isSome ∧ base.read new.1 = none ∧
      (head.read new.1).isSome

def Touches (p : Path) : DiffEntry → Prop
  | .added q | .modified q | .deleted q | .typeChanged q | .copied _ _ q => q.1 = p
  | .renamed _ old new => old.1 = p ∨ new.1 = p

end DiffEntry

def detectionPrefix : Text := "detections/".toList
def yamlSuffixes : List Text := [".yml".toList, ".yaml".toList]

/-- The entries are those of a diff of the two trees. -/
structure Consistent (base head : FileTree) (entries : List DiffEntry) : Prop where
  holds : ∀ e ∈ entries, e.Holds base head
  complete : ∀ p, detectionPrefix <+: slashed p → base.read p ≠ head.read p →
    ∃ e ∈ entries, e.Touches p

/-! ## The script -/

def isYamlName (path : Text) : Bool := yamlSuffixes.any fun suffix => suffix <:+ path.map Char.toLower

/-- One line in `_changed_files`. -/
def changedFile (line : Text) : Option (Text × Text) :=
  match line.splitOn '\t' with
  | status :: first :: rest =>
    let path := (first :: rest).getLast (by simp)
    if status.head? = some 'D' then none
    else
      let basePath := if status.head?.any (· ∈ ['R', 'C']) && !rest.isEmpty then first else path
      if !(detectionPrefix <+: path) then none
      else if !isYamlName path then none
      else some (path, basePath)
  | _ => none

/-- `_changed_files`: the pairs of paths; no output is a failed call. -/
def changedFiles (stdout : Option Text) : List (Text × Text) :=
  match stdout with
  | none => []
  | some out => (Text.splitlines out).filterMap changedFile

/-- `_read_at_rev`. -/
def readAtRev (tree : FileTree) (path : Text) : Option Text :=
  tree.read ((path.splitOn '/').map String.ofList)

structure Promotion where
  path : Text
  /-- `none` is the text of a list or of a mapping. -/
  ruleId : Option String
  stampAgeDays : Option Int
  stampOk : Bool

section
variable {X : Type} [Value.ScalarEq X] (libs : LifecycleLibs X)

/-- `_parse_envelope`. -/
def parseEnvelope (text : Option Text) : Option (Document X) := (text.bind libs.safeLoad).bind (·.dict?)

/-- `str(doc.get("status", "")).strip().lower()` is `production`. -/
def isProduction (doc : Document X) : Bool :=
  (scalarText libs ((Dict.get? doc "status").getD (.str ""))).any fun s =>
    (Text.strip s.toList).map Char.toLower = "production".toList

/-- `promoted_by` is there and not blank. -/
def namesPromoter (promotedBy : Value X) : Bool :=
  match promotedBy with
  | .null => false
  | v => (scalarText libs v).all fun s => !Text.isBlank s.toList

/-- `_stamp_from_envelope`: the age in days and whether the stamp is good. -/
def stampFromEnvelope (headDoc : Document X) (today maxStampAgeDays : Int) : Option Int × Bool :=
  match (Value.get headDoc "lifecycle").dict? with
  | none => (none, false)
  | some lifecycle =>
    match parseIsoDate libs (Value.get lifecycle "promotedAt") with
    | none => (none, false)
    | some day =>
      let ageDays := today - day
      (some ageDays, namesPromoter libs (Value.get lifecycle "promotedBy") && 0 ≤ ageDays &&
        ageDays ≤ maxStampAgeDays)

/-- One round of `detect_promotions`. -/
def promotionOf (base head : FileTree) (today maxStampAgeDays : Int) (paths : Text × Text) :
    Option Promotion :=
  match parseEnvelope libs (readAtRev head paths.1) with
  | none => none
  | some headDoc =>
    if !isProduction libs headDoc then none
    else if (parseEnvelope libs (readAtRev base paths.2)).any (isProduction libs) then none
    else
      let stamp := stampFromEnvelope libs headDoc today maxStampAgeDays
      some
        { path := paths.1
          ruleId := scalarText libs ((Dict.get? headDoc "id").getD (.str "(unknown)"))
          stampAgeDays := stamp.1
          stampOk := stamp.2 }

def detectPromotions (base head : FileTree) (stdout : Option Text) (today maxStampAgeDays : Int) :
    List Promotion :=
  (changedFiles stdout).filterMap (promotionOf libs base head today maxStampAgeDays)

/-- The exit code of `main`. -/
def main (base head : FileTree) (stdout : Option Text) (today maxStampAgeDays : Int)
    (noGate : Bool) : Nat :=
  let promotions := detectPromotions libs base head stdout today maxStampAgeDays
  if noGate then 0
  else if promotions.any fun p => !p.stampOk then 1 else 0

/-! ## What the gate lets through -/

/-- An envelope in a YAML file under `detections/`. -/
structure EnvelopeAt (tree : FileTree) (p : GitPath) (doc : Document X) (envelope : EnvelopeV2) :
    Prop where
  detection : detectionPrefix <+: p.text
  yaml : isYamlName p.text = true
  doc_eq : parseEnvelope libs (tree.read p.1) = some doc
  envelope_eq : ∃ payload, ContentOps.parseEnvelope libs.laxInt (.dict doc) = some (envelope, payload)

/-- Nothing is written under the key, or nothing is in it. -/
def IsEmpty (v : Value X) : Prop := v = .null ∨ v = .str "" ∨ v = .list [] ∨ v = .dict []

/-- The lifecycle block names who promoted the rule, and a day that is not too long ago. -/
def Stamped (doc : Document X) (today maxStampAgeDays : Int) : Prop :=
  ∃ lifecycle, Value.get doc "lifecycle" = .dict lifecycle ∧
    ¬ IsEmpty (Value.get lifecycle "promotedBy") ∧
    ∃ day, parseIsoDate libs (Value.get lifecycle "promotedAt") = some day ∧
      0 ≤ today - day ∧ today - day ≤ maxStampAgeDays

/-- A rule that is in production at the head and was not at the base, without the stamp. -/
structure Unstamped (base head : FileTree) (today maxStampAgeDays : Int) (p : GitPath)
    (doc : Document X) (envelope : EnvelopeV2) : Prop where
  at_head : EnvelopeAt libs head p doc envelope
  production : envelope.status = "production"
  new : ∀ q old oldEnvelope, EnvelopeAt libs base q old oldEnvelope →
    oldEnvelope.asset = envelope.asset → oldEnvelope.id = envelope.id →
      oldEnvelope.status ≠ "production"
  unstamped : ¬ Stamped libs doc today maxStampAgeDays

/-- The gate lets nothing through without a stamp. -/
def FailClosed (base head : FileTree) (answer : Option (List DiffEntry))
    (today maxStampAgeDays : Int) : Prop :=
  main libs base head (answer.map fun entries => Text.unlines (entries.map DiffEntry.line)) today
      maxStampAgeDays false = 0 →
    ∀ p doc envelope, ¬ Unstamped libs base head today maxStampAgeDays p doc envelope

/-- The script does not get to see the rule, or sees it wrongly: the call failed, git prints the
path in quotes, git pairs it with a path that holds a rule in production at the base, or the
promoter is an empty list or mapping. -/
def Escapes (base : FileTree) (answer : Option (List DiffEntry)) (p : GitPath) (doc : Document X) :
    Prop :=
  match answer with
  | none => True
  | some entries => p.text.any isUnusual = true ∨
    (∃ e ∈ entries, ∃ old, e.pair? = some (p, old) ∧
      (parseEnvelope libs (readAtRev base old.printed)).any (isProduction libs) = true) ∨
    ∃ lifecycle, Value.get doc "lifecycle" = .dict lifecycle ∧
      (Value.get lifecycle "promotedBy" = .list [] ∨ Value.get lifecycle "promotedBy" = .dict [])

/-- A changed file that git prints without quotes is in production at the head, without a good
stamp, and what stands at the base under the path that git printed for it is not in production. -/
structure Caught (base head : FileTree) (today maxStampAgeDays : Int) (e : DiffEntry)
    (new old : GitPath) (doc : Document X) : Prop where
  paired : e.pair? = some (new, old)
  plain : new.text.any isUnusual = false
  detection : detectionPrefix <+: new.text
  yaml : isYamlName new.text = true
  doc_eq : parseEnvelope libs (head.read new.1) = some doc
  production : isProduction libs doc = true
  unstamped : (stampFromEnvelope libs doc today maxStampAgeDays).2 = false
  fresh : (parseEnvelope libs (readAtRev base old.printed)).any (isProduction libs) = false

/-! ## The lines of git and the pairs of the script -/

theorem splitOn_tab {a b : Text} (h : '\t' ∉ a) : (a ++ '\t' :: b).splitOn '\t' = a :: b.splitOn '\t' :=
  List.splitOn_append_cons_self_of_not_mem h b

theorem tab_notMem_printed (p : GitPath) : '\t' ∉ p.printed := tab_notMem_quotePath _

theorem splitOn_printed (p : GitPath) : p.printed.splitOn '\t' = [p.printed] :=
  List.splitOn_eq_singleton (tab_notMem_printed p)

theorem isPrintable_scoreText {score : Nat} {c : Char} (h : c ∈ DiffEntry.scoreText score) :
    isPrintable c = true := by
  have hdigit : ∀ k, isPrintable (Nat.digitChar (k % 10)) = true := fun k =>
    isPrintable_digitChar (Nat.mod_lt k (by decide))
  simp only [DiffEntry.scoreText, List.map_cons, List.map_nil, List.mem_cons, List.not_mem_nil,
    or_false] at h
  rcases h with rfl | rfl | rfl
  · exact hdigit _
  · exact hdigit _
  · exact hdigit _

/-- A line for one path. -/
theorem splitOn_line_one {c : Char} (hc : c ≠ '\t') (p : GitPath) :
    (c :: '\t' :: p.printed).splitOn '\t' = [[c], p.printed] := by
  have hnot : '\t' ∉ [c] := by simpa using hc.symm
  have hsplit := splitOn_tab (b := p.printed) hnot
  rw [splitOn_printed] at hsplit
  exact hsplit

/-- A line for two paths. -/
theorem splitOn_line_two {c : Char} (hc : c ≠ '\t') (score : Nat) (old new : GitPath) :
    (c :: (DiffEntry.scoreText score ++ '\t' :: (old.printed ++ '\t' :: new.printed))).splitOn '\t' =
      [c :: DiffEntry.scoreText score, old.printed, new.printed] := by
  have hnot : '\t' ∉ c :: DiffEntry.scoreText score := by
    rw [List.mem_cons, not_or]
    exact ⟨hc.symm, fun h => absurd (isPrintable_scoreText h) (by decide)⟩
  have hpaths : (old.printed ++ '\t' :: new.printed).splitOn '\t' = [old.printed, new.printed] := by
    rw [splitOn_tab (tab_notMem_printed old), splitOn_printed]
  have hsplit := splitOn_tab (b := old.printed ++ '\t' :: new.printed) hnot
  rw [hpaths] at hsplit
  exact hsplit

/-- The script follows a path that git prints without quotes. -/
def IsFollowed (p : GitPath) : Prop :=
  p.text.any isUnusual = false ∧ detectionPrefix <+: p.text ∧ isYamlName p.text = true

instance (p : GitPath) : Decidable (IsFollowed p) :=
  inferInstanceAs (Decidable (_ ∧ _ ∧ _))

theorem printed_of_plain {p : GitPath} (h : p.text.any isUnusual = false) : p.printed = p.text :=
  quotePath_of_not h

/-- The checks of `_changed_files` on the path that git printed. -/
theorem followed_printed (p : GitPath) (basePath : Text) :
    (if !(detectionPrefix <+: p.printed) then none
      else if !isYamlName p.printed then none else some (p.printed, basePath)) =
      if IsFollowed p then some (p.text, basePath) else none := by
  by_cases hplain : p.text.any isUnusual = true
  · have hquoted : p.printed = '"' :: p.text.flatMap quoteChar ++ ['"'] := quotePath_of hplain
    have hstart : ¬ detectionPrefix <+: p.printed := by
      rw [hquoted]
      rintro ⟨rest, hrest⟩
      exact absurd (List.cons.inj hrest).1 (by decide)
    have hnot : ¬ IsFollowed p := fun h => absurd (h.1.symm.trans hplain) (by decide)
    rw [if_pos (by simp [hstart]), if_neg hnot]
  · have hplain := Bool.eq_false_iff.mpr hplain
    have hfollowed : IsFollowed p ↔ detectionPrefix <+: p.text ∧ isYamlName p.text = true :=
      and_iff_right hplain
    rw [printed_of_plain hplain]
    by_cases hstart : detectionPrefix <+: p.text <;> by_cases hyaml : isYamlName p.text = true <;>
      simp [hfollowed, hstart, hyaml]

theorem changedFile_line (e : DiffEntry) : changedFile e.line =
    e.pair?.bind fun paths =>
      if IsFollowed paths.1 then some (paths.1.text, paths.2.printed) else none := by
  cases e with
  | added p =>
    unfold changedFile DiffEntry.line
    rw [splitOn_line_one (by decide)]
    exact followed_printed p p.printed
  | modified p =>
    unfold changedFile DiffEntry.line
    rw [splitOn_line_one (by decide)]
    exact followed_printed p p.printed
  | deleted p =>
    unfold changedFile DiffEntry.line
    rw [splitOn_line_one (by decide)]
    rfl
  | typeChanged p =>
    unfold changedFile DiffEntry.line
    rw [splitOn_line_one (by decide)]
    exact followed_printed p p.printed
  | renamed score old new =>
    unfold changedFile DiffEntry.line
    rw [splitOn_line_two (by decide)]
    exact followed_printed new old.printed
  | copied score old new =>
    unfold changedFile DiffEntry.line
    rw [splitOn_line_two (by decide)]
    exact followed_printed new old.printed

theorem isLine_line (e : DiffEntry) : ∀ c ∈ e.line, Text.isLineBreak c = false := by
  have htab : Text.isLineBreak '\t' = false := by decide
  have hscore : ∀ score, Text.IsLine (DiffEntry.scoreText score) := fun score =>
    isLine_of_isPrintable fun _ => isPrintable_scoreText
  have hone : ∀ (d : Char) (p : GitPath), Text.isLineBreak d = false →
      ∀ c ∈ d :: '\t' :: p.printed, Text.isLineBreak c = false := by
    intro d p hd c hc
    rcases List.mem_cons.mp hc with rfl | hc
    · exact hd
    rcases List.mem_cons.mp hc with rfl | hc
    · exact htab
    · exact isLine_quotePath _ c hc
  have htwo : ∀ (d : Char) (score : Nat) (old new : GitPath), Text.isLineBreak d = false →
      ∀ c ∈ d :: (DiffEntry.scoreText score ++ '\t' :: (old.printed ++ '\t' :: new.printed)),
        Text.isLineBreak c = false := by
    intro d score old new hd c hc
    rcases List.mem_cons.mp hc with rfl | hc
    · exact hd
    rcases List.mem_append.mp hc with hc | hc
    · exact hscore score c hc
    rcases List.mem_cons.mp hc with rfl | hc
    · exact htab
    rcases List.mem_append.mp hc with hc | hc
    · exact isLine_quotePath _ c hc
    rcases List.mem_cons.mp hc with rfl | hc
    · exact htab
    · exact isLine_quotePath _ c hc
  cases e with
  | added p => exact hone 'A' p (by decide)
  | modified p => exact hone 'M' p (by decide)
  | deleted p => exact hone 'D' p (by decide)
  | typeChanged p => exact hone 'T' p (by decide)
  | renamed score old new => exact htwo 'R' score old new (by decide)
  | copied score old new => exact htwo 'C' score old new (by decide)

/-- The script reads from git's output the entries whose path it follows. -/
theorem changedFiles_lines (entries : List DiffEntry) :
    changedFiles (some (Text.unlines (entries.map DiffEntry.line))) =
      entries.filterMap fun e => e.pair?.bind fun paths =>
        if IsFollowed paths.1 then some (paths.1.text, paths.2.printed) else none := by
  have hlines : ∀ line ∈ entries.map DiffEntry.line, Text.IsLine line := by
    intro line hline
    obtain ⟨e, -, rfl⟩ := List.mem_map.mp hline
    exact isLine_line e
  unfold changedFiles
  dsimp only
  rw [Text.splitlines_unlines hlines, List.filterMap_map]
  exact congrArg (List.filterMap · entries) (funext changedFile_line)

theorem readAtRev_text (tree : FileTree) (p : GitPath) : readAtRev tree p.text = tree.read p.1 := by
  unfold readAtRev GitPath.text
  rw [splitOn_slashed p.2.2 p.2.1, List.map_map]
  have hid : String.ofList ∘ String.toList = id := funext fun _ => String.ofList_toList
  rw [hid, List.map_id]

/-! ## When the gate is closed -/

variable {libs} {base head : FileTree} {answer : Option (List DiffEntry)}
  {today maxStampAgeDays : Int}

/-- What a promotion in the list says. -/
theorem promotionOf_eq_some {paths : Text × Text} {promotion : Promotion}
    (h : promotionOf libs base head today maxStampAgeDays paths = some promotion) :
    ∃ doc, parseEnvelope libs (readAtRev head paths.1) = some doc ∧ isProduction libs doc = true ∧
      (parseEnvelope libs (readAtRev base paths.2)).any (isProduction libs) = false ∧
      promotion.stampOk = (stampFromEnvelope libs doc today maxStampAgeDays).2 := by
  unfold promotionOf at h
  split at h
  · exact absurd h (by simp)
  · next doc hdoc =>
    split_ifs at h with hproduction hfresh
    obtain rfl := Option.some.inj h
    exact ⟨doc, hdoc, by simpa using hproduction, Bool.eq_false_iff.mpr hfresh, rfl⟩

theorem promotionOf_of_caught {e : DiffEntry} {new old : GitPath} {doc : Document X}
    (h : Caught libs base head today maxStampAgeDays e new old doc) :
    promotionOf libs base head today maxStampAgeDays (new.text, old.printed) = some
      { path := new.text
        ruleId := scalarText libs ((Dict.get? doc "id").getD (.str "(unknown)"))
        stampAgeDays := (stampFromEnvelope libs doc today maxStampAgeDays).1
        stampOk := (stampFromEnvelope libs doc today maxStampAgeDays).2 } := by
  unfold promotionOf
  dsimp only
  rw [readAtRev_text, h.doc_eq]
  dsimp only
  rw [h.production, if_neg (by decide), h.fresh, if_neg (by decide)]

/-- The pull request is stopped when one of its entries is caught. -/
theorem main_eq_zero_iff :
    main libs base head (answer.map fun entries => Text.unlines (entries.map DiffEntry.line)) today
        maxStampAgeDays false = 0 ↔
      ∀ entries, answer = some entries → ∀ e ∈ entries, ∀ new old doc,
        ¬ Caught libs base head today maxStampAgeDays e new old doc := by
  have hmain : ∀ stdout, main libs base head stdout today maxStampAgeDays false = 0 ↔
      ∀ paths ∈ changedFiles stdout, ∀ promotion,
        promotionOf libs base head today maxStampAgeDays paths = some promotion →
          promotion.stampOk = true := by
    intro stdout
    unfold main detectPromotions
    dsimp only
    rw [if_neg (by decide)]
    split_ifs with hany
    · refine iff_of_false (by decide) fun hall => ?_
      obtain ⟨promotion, hmem, hbad⟩ := List.any_eq_true.mp hany
      obtain ⟨paths, hpaths, heq⟩ := List.mem_filterMap.mp hmem
      rw [hall paths hpaths promotion heq] at hbad
      exact absurd hbad (by decide)
    · refine iff_of_true rfl fun paths hpaths promotion heq => ?_
      by_contra hbad
      refine hany (List.any_eq_true.mpr ⟨promotion, List.mem_filterMap.mpr ⟨paths, hpaths, heq⟩, ?_⟩)
      rw [Bool.eq_false_iff.mpr hbad]
      rfl
  rw [hmain]
  cases answer with
  | none => exact iff_of_true (fun _ h => absurd h (by simp [changedFiles])) fun _ h => by cases h
  | some entries =>
    rw [Option.map_some, changedFiles_lines]
    constructor
    · intro hall entries' heq e he new old doc hcaught
      obtain rfl := Option.some.inj heq
      have hpaths : (new.text, old.printed) ∈ entries.filterMap fun e => e.pair?.bind fun paths =>
          if IsFollowed paths.1 then some (paths.1.text, paths.2.printed) else none := by
        refine List.mem_filterMap.mpr ⟨e, he, ?_⟩
        rw [hcaught.paired]
        exact if_pos ⟨hcaught.plain, hcaught.detection, hcaught.yaml⟩
      have hok := hall _ hpaths _ (promotionOf_of_caught hcaught)
      exact absurd (hcaught.unstamped.symm.trans hok) (by decide)
    · intro hnone paths hpaths promotion hpromotion
      obtain ⟨e, he, hpair⟩ := List.mem_filterMap.mp hpaths
      obtain ⟨⟨new, old⟩, hpaired, hfollowed⟩ := Option.bind_eq_some_iff.mp hpair
      split_ifs at hfollowed with hfollows
      obtain rfl := Option.some.inj hfollowed
      obtain ⟨doc, hdoc, hproduction, hfresh, hok⟩ := promotionOf_eq_some hpromotion
      by_contra hbad
      rw [readAtRev_text] at hdoc
      exact hnone entries rfl e he new old doc
        { paired := hpaired
          plain := hfollows.1
          detection := hfollows.2.1
          yaml := hfollows.2.2
          doc_eq := hdoc
          production := hproduction
          unstamped := hok ▸ Bool.eq_false_iff.mpr hbad
          fresh := hfresh }

omit [Value.ScalarEq X] in
theorem get?_status {doc : Document X} {envelope : EnvelopeV2} {payload : Value X}
    (h : ContentOps.parseEnvelope libs.laxInt (.dict doc) = some (envelope, payload)) :
    Dict.get? doc "status" = some (.str envelope.status) := by
  unfold ContentOps.parseEnvelope at h
  obtain ⟨d, hd, h⟩ := Option.bind_eq_some_iff.mp h
  obtain ⟨sa, -, h⟩ := Option.bind_eq_some_iff.mp h
  obtain ⟨asset, -, h⟩ := Option.bind_eq_some_iff.mp h
  obtain ⟨arm, -, h⟩ := Option.bind_eq_some_iff.mp h
  obtain ⟨id, -, h⟩ := Option.bind_eq_some_iff.mp h
  obtain ⟨version, -, h⟩ := Option.bind_eq_some_iff.mp h
  obtain ⟨status, hstatus, h⟩ := Option.bind_eq_some_iff.mp h
  obtain ⟨armName, -, h⟩ := Option.bind_eq_some_iff.mp h
  obtain ⟨stage, -, hcond⟩ := Option.bind_eq_some_iff.mp h
  split_ifs at hcond
  obtain ⟨rfl, -⟩ := Prod.mk.inj (Option.some.inj hcond)
  obtain rfl := Option.some.inj hd
  exact get?_of_requiredText hstatus

omit [Value.ScalarEq X] in
theorem isProduction_of_envelope {doc : Document X} {envelope : EnvelopeV2} {payload : Value X}
    (h : ContentOps.parseEnvelope libs.laxInt (.dict doc) = some (envelope, payload))
    (hproduction : envelope.status = "production") : isProduction libs doc = true := by
  have htext : decide ((Text.strip "production".toList).map Char.toLower = "production".toList) =
      true := by
    decide
  rw [isProduction, get?_status h, hproduction]
  exact htext

/-- A good stamp is one that the lifecycle block really has, unless its promoter is empty. -/
theorem stamped_of_stampOk {doc : Document X}
    (h : (stampFromEnvelope libs doc today maxStampAgeDays).2 = true)
    (hpromoter : ¬ ∃ lifecycle, Value.get doc "lifecycle" = .dict lifecycle ∧
      (Value.get lifecycle "promotedBy" = .list [] ∨ Value.get lifecycle "promotedBy" = .dict [])) :
    Stamped libs doc today maxStampAgeDays := by
  unfold stampFromEnvelope at h
  split at h
  · exact absurd h (by decide)
  next lifecycle hlifecycle =>
  split at h
  · exact absurd h (by decide)
  next day hday =>
  have hdict := Value.dict?_eq_some hlifecycle
  dsimp only at h
  simp only [Bool.and_eq_true, decide_eq_true_eq] at h
  obtain ⟨⟨hnames, hage⟩, hmax⟩ := h
  refine ⟨lifecycle, hdict, ?_, day, hday, hage, hmax⟩
  rintro (hnull | hempty | hlist)
  · rw [hnull] at hnames
    exact absurd hnames (by simp [namesPromoter])
  · rw [hempty] at hnames
    exact absurd hnames (by simp [namesPromoter, scalarText, Text.isBlank])
  · exact hpromoter ⟨lifecycle, hdict, hlist⟩

/-- A file that is there at the head and not the same at the base has an entry with its path. -/
theorem exists_entry {entries : List DiffEntry} (hcons : Consistent base head entries) {p : GitPath}
    (hdetection : detectionPrefix <+: p.text) (hhead : (head.read p.1).isSome)
    (hchanged : base.read p.1 ≠ head.read p.1) :
    ∃ e ∈ entries, ∃ old, e.pair? = some (p, old) := by
  obtain ⟨e, he, htouches⟩ := hcons.complete p.1 hdetection hchanged
  have hholds := hcons.holds e he
  have hgone : ∀ q : GitPath, q.1 = p.1 → head.read q.1 ≠ none := by
    intro q hq hnone
    rw [hq] at hnone
    rw [hnone] at hhead
    exact absurd hhead (by decide)
  refine ⟨e, he, ?_⟩
  cases e with
  | added q | modified q | typeChanged q =>
    obtain rfl : q = p := Subtype.ext htouches
    exact ⟨q, rfl⟩
  | deleted q => exact absurd hholds.2 (hgone q htouches)
  | renamed score old new =>
    rcases htouches with hold | hnew
    · exact absurd hholds.2.1 (hgone old hold)
    · obtain rfl : new = p := Subtype.ext hnew
      exact ⟨old, rfl⟩
  | copied score old new =>
    obtain rfl : new = p := Subtype.ext htouches
    exact ⟨old, rfl⟩

/-- A rule without a stamp that does not escape is caught. -/
theorem caught_of_not_escapes {p : GitPath} {doc : Document X} {envelope : EnvelopeV2}
    (hcons : ∀ entries, answer = some entries → Consistent base head entries)
    (hrule : Unstamped libs base head today maxStampAgeDays p doc envelope)
    (hescapes : ¬ Escapes libs base answer p doc) :
    ∃ entries, answer = some entries ∧ ∃ e ∈ entries, ∃ new old doc,
      Caught libs base head today maxStampAgeDays e new old doc := by
  cases answer with
  | none => exact absurd trivial hescapes
  | some entries =>
    obtain ⟨hquoted, hpaired, hpromoter⟩ : ¬ p.text.any isUnusual = true ∧ _ ∧ _ := by
      simpa only [Escapes, not_or] using hescapes
    obtain ⟨payload, hparse⟩ := hrule.at_head.envelope_eq
    have hdoc := hrule.at_head.doc_eq
    have hhead : (head.read p.1).isSome := by
      obtain ⟨raw, hraw, -⟩ := Option.bind_eq_some_iff.mp hdoc
      obtain ⟨text, htext, -⟩ := Option.bind_eq_some_iff.mp hraw
      rw [htext, Option.isSome_some]
    have hchanged : base.read p.1 ≠ head.read p.1 := by
      intro hsame
      have hbase : EnvelopeAt libs base p doc envelope :=
        { hrule.at_head with doc_eq := by rw [hsame, hdoc] }
      exact hrule.new p doc envelope hbase rfl rfl hrule.production
    obtain ⟨e, he, old, hpair⟩ :=
      exists_entry (hcons entries rfl) hrule.at_head.detection hhead hchanged
    exact ⟨entries, rfl, e, he, p, old, doc,
      { paired := hpair
        plain := Bool.eq_false_iff.mpr hquoted
        detection := hrule.at_head.detection
        yaml := hrule.at_head.yaml
        doc_eq := hdoc
        production := isProduction_of_envelope hparse hrule.production
        unstamped := Bool.eq_false_iff.mpr fun hok =>
          hrule.unstamped (stamped_of_stampOk hok hpromoter)
        fresh := Bool.eq_false_iff.mpr fun hfresh => hpaired ⟨e, he, old, hpair, hfresh⟩ }⟩

/-- The gate lets nothing through exactly when no rule without a stamp escapes it, or another one is
caught. -/
theorem failClosed_iff
    (hcons : ∀ entries, answer = some entries → Consistent base head entries) :
    FailClosed libs base head answer today maxStampAgeDays ↔
      (∀ p doc envelope, Unstamped libs base head today maxStampAgeDays p doc envelope →
        ¬ Escapes libs base answer p doc) ∨
      ∃ entries, answer = some entries ∧ ∃ e ∈ entries, ∃ new old doc,
        Caught libs base head today maxStampAgeDays e new old doc := by
  unfold FailClosed
  rw [main_eq_zero_iff]
  constructor
  · intro h
    by_contra hnot
    obtain ⟨hescapes, hcaught⟩ := not_or.mp hnot
    refine hescapes fun p doc envelope hrule => absurd hrule (h ?_ p doc envelope)
    intro entries hentries e he new old doc hdoc
    exact hcaught ⟨entries, hentries, e, he, new, old, doc, hdoc⟩
  · intro h hmain p doc envelope hrule
    have hcaught := h.elim
      (fun hescapes => caught_of_not_escapes hcons hrule (hescapes p doc envelope hrule)) id
    obtain ⟨entries, hentries, e, he, new, old, doc, hdoc⟩ := hcaught
    exact hmain entries hentries e he new old doc hdoc

end

/-! ## A new rule in a file with an accent -/

namespace Sample

def cafe : GitPath := ⟨["detections", "sentinel_analytic", "café.yml"], by decide⟩

def cafeDocument : Document Empty :=
  [("id", .str "cafe"), ("version", .str "1.0.0"), ("asset", .str "sentinel_analytic"),
    ("status", .str "production")]

def libs : LifecycleLibs Empty where
  safeLoad _ := some (.dict cafeDocument)
  dump _ := []
  laxInt _ := none
  ofText _ := none
  truncate _ := none
  divide _ _ := none
  le _ _ := true
  text _ := ""
  lower := id
  isoDay _ := none

/-- The pull request adds the rule in production, without a stamp. -/
def head : FileTree := Directory.empty.write cafe.1 []

end Sample

theorem consistent_cafe : Consistent Directory.empty Sample.head [.added Sample.cafe] := by
  have hread : ∀ p, Sample.cafe.1 ≠ p → Sample.head.read p = none := by
    intro p hp
    rw [Sample.head, Directory.read_write, if_neg hp, Directory.read_empty]
  constructor
  · intro e he
    obtain rfl := List.mem_singleton.mp he
    exact ⟨rfl, by rw [Sample.head, Directory.read_write_self]; rfl⟩
  · intro p _ hp
    refine ⟨_, List.mem_singleton_self _, ?_⟩
    by_contra hnot
    exact hp (hread p hnot).symm

theorem cafe_not_failClosed : Consistent Directory.empty Sample.head [.added Sample.cafe] ∧
    ¬ FailClosed Sample.libs Directory.empty Sample.head (some [.added Sample.cafe]) 739770 30 := by
  refine ⟨consistent_cafe, fun hclosed => ?_⟩
  have hmain : main Sample.libs Directory.empty Sample.head
      ((some [DiffEntry.added Sample.cafe]).map fun entries =>
        Text.unlines (entries.map DiffEntry.line)) 739770 30 false = 0 := by
    decide +kernel
  have hat : EnvelopeAt Sample.libs Sample.head Sample.cafe Sample.cafeDocument
      { id := "cafe", version := "1.0.0", asset := .sentinelAnalytic, status := "production",
        armName := none } :=
    { detection := by decide +kernel
      yaml := by decide +kernel
      doc_eq := by rw [Sample.head, Directory.read_write_self]; rfl
      envelope_eq := ⟨.dict [], rfl⟩ }
  refine hclosed hmain _ _ _ ⟨hat, rfl, fun q old _ hold => ?_, ?_⟩
  · have hnone := hold.doc_eq
    rw [Directory.read_empty] at hnone
    exact absurd hnone (by simp [parseEnvelope])
  · rintro ⟨lifecycle, hlifecycle, -⟩
    exact absurd hlifecycle (by simp [Sample.cafeDocument, Value.get, Dict.get?])

theorem failClosed_iff_cafe :
    FailClosed Sample.libs Directory.empty Sample.head (some [.added Sample.cafe]) 739770 30 ↔
      (∀ p doc envelope, Unstamped Sample.libs Directory.empty Sample.head 739770 30 p doc envelope →
        ¬ Escapes Sample.libs Directory.empty (some [.added Sample.cafe]) p doc) ∨
      ∃ entries, some [DiffEntry.added Sample.cafe] = some entries ∧ ∃ e ∈ entries, ∃ new old doc,
        Caught Sample.libs Directory.empty Sample.head 739770 30 e new old doc :=
  failClosed_iff fun _ h => Option.some.inj h ▸ consistent_cafe

end ContentOps.DetectPromotions
