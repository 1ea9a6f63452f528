import ContentOps.Scripts.CheckVersionBump

/-! What the version gate is there for: a change of content under the same version does not pass,
and a pull request that carries drift does. -/

namespace ContentOps.CheckVersionBump
open PyData

section
variable {X : Type} [Value.ScalarEq X] [Json.FloatText X] (libs : Libs X) (str : Value X → String)

/-! ## Content under the same version -/

/-- The JSON file that the `definitionFile` of a playbook names. -/
def definitionOf (tree : FileTree) (path : Text) (doc : Document X) : Option (Value X) :=
  if Value.textAt doc "asset" = Asset.sentinelPlaybook.value then do
    let payload ← (Value.get doc "payload").dict?
    let name ← (Value.get payload "definitionFile").text?
    Json.loads (← tree.read ((pathOf path).sibling name))
  else none

def sameDefinition : Option (Value X) → Option (Value X) → Bool
  | some d, some e => Value.pyEq d e
  | none, none => true
  | _, _ => false

/-- An envelope under `detections/` with other content at the head, under the same version. -/
structure Unbumped (base head : FileTree) (path : Text) : Prop where
  detection : detectionsRoot <+: path
  yaml : ymlSuffix <:+ path ∨ yamlSuffix <:+ path
  changed : ∃ headDoc baseDoc, docAt libs head path = some headDoc ∧
    docAt libs base path = some baseDoc ∧
    Value.get headDoc "version" = Value.get baseDoc "version" ∧
    isNone (Value.get baseDoc "version") = false ∧ Value.get baseDoc "version" ≠ .str "" ∧
    (sameBody headDoc baseDoc = false ∨
      sameDefinition (definitionOf head path headDoc) (definitionOf base path baseDoc) = false)

/-- The change is one that the gate looks at: git prints the path without quotes, and the body has
changed, or in both trees there is a sidecar of the envelope's name and it has. -/
structure Seen (base head : FileTree) (path : Text) : Prop where
  plain : path.any isUnusual = false
  change : (fileAt head path ≠ fileAt base path ∧ ∃ headDoc baseDoc,
    docAt libs head path = some headDoc ∧ docAt libs base path = some baseDoc ∧
      sameBody headDoc baseDoc = false) ∨ SidecarsDiffer base head path

/-- The gate refuses whenever an envelope has other content under the same version. -/
def Sound (renamedAway : Path → Bool) (base head : FileTree) : Prop :=
  (∃ path, Unbumped libs base head path) →
    main libs str (some (diffNameOnly renamedAway base head)) base head = 1

section
variable {libs str} {renamedAway : Path → Bool} {base head : FileTree}

theorem listed_of_read {p : Path} (hroot : detectionsRoot <+: slashed p)
    (hhead : (head.read p).isSome = true) (hdiffer : head.read p ≠ base.read p) :
    listed renamedAway base head p = true := by
  obtain ⟨content, hcontent⟩ := Option.isSome_iff_exists.mp hhead
  unfold listed
  rw [hcontent] at hdiffer ⊢
  simp [hroot, hdiffer.symm]

theorem told_of_file {path : Text} (hroot : detectionsRoot <+: path)
    (hyaml : ymlSuffix <:+ path ∨ yamlSuffix <:+ path) (hplain : path.any isUnusual = false)
    (hhead : (fileAt head path).isSome = true) (hdiffer : fileAt head path ≠ fileAt base path) :
    Told renamedAway base head path := by
  refine ⟨pathOf path, listed_of_read ?_ hhead hdiffer, ?_, ?_⟩
  · rwa [slashed_pathOf]
  · rwa [slashed_pathOf]
  · rw [slashed_pathOf]
    exact if_pos hyaml

theorem told_of_sidecar {path : Text} (hroot : detectionsRoot <+: path)
    (hplain : path.any isUnusual = false) (hsidecars : SidecarsDiffer base head path) :
    Told renamedAway base head path := by
  obtain ⟨headSidecar, baseSidecar, hhead, hbase, hdiffer⟩ := hsidecars
  obtain ⟨stem, rfl⟩ : ymlSuffix <:+ path := by
    by_contra hnot
    unfold sidecarText at hhead
    rw [if_neg hnot] at hhead
    exact absurd hhead nofun
  rw [sidecarText_yml] at hhead hbase
  rw [plain_append (by decide)] at hplain
  rw [detectionsRoot_prefix_append (by decide)] at hroot
  refine ⟨pathOf (stem ++ sidecarSuffix), listed_of_read ?_ ?_ ?_, ?_, ?_⟩
  · rw [slashed_pathOf]
    exact (detectionsRoot_prefix_append (by decide)).mpr hroot
  · exact Option.isSome_iff_exists.mpr ⟨headSidecar, hhead⟩
  · rw [show head.read _ = _ from hhead, show base.read _ = _ from hbase]
    exact fun h => hdiffer (Option.some.inj h)
  · rw [slashed_pathOf, plain_append (by decide)]
    exact hplain
  · rw [slashed_pathOf, changedFile_sidecar]

/-- What the gate looks at it also refuses. -/
theorem Unbumped.noticed {path : Text} (h : Unbumped libs base head path)
    (hseen : Seen libs base head path) : Noticed libs str renamedAway base head path := by
  obtain ⟨headDoc, baseDoc, hhead, hbase, hversion, hsome, -, -⟩ := h.changed
  have hsame : sameVersion str headDoc baseDoc = true := by
    unfold sameVersion
    rw [hversion]
    exact decide_eq_true rfl
  rcases hseen.change with ⟨hdiffer, headDoc', baseDoc', hhead', hbase', hbody⟩ | hsidecars
  · obtain rfl := Option.some.inj (hhead.symm.trans hhead')
    obtain rfl := Option.some.inj (hbase.symm.trans hbase')
    have hfile : (fileAt head path).isSome = true := by
      obtain ⟨text, htext, -⟩ := Option.bind_eq_some_iff.mp hhead
      exact Option.isSome_iff_exists.mpr ⟨text, htext⟩
    refine ⟨told_of_file h.detection h.yaml hseen.plain hfile hdiffer, ?_⟩
    exact ⟨headDoc, baseDoc, hhead, hbase, hsame, .inl ⟨hbody, hversion ▸ hsome, hsome⟩⟩
  · refine ⟨told_of_sidecar h.detection hseen.plain hsidecars, ?_⟩
    exact ⟨headDoc, baseDoc, hhead, hbase, hsame, .inr hsidecars⟩

theorem sound_iff : Sound libs str renamedAway base head ↔
    ((∃ path, Unbumped libs base head path) →
      (∃ path, Unbumped libs base head path ∧ Seen libs base head path) ∨
        ∃ path, Noticed libs str renamedAway base head path) := by
  unfold Sound
  rw [main_eq_one_iff]
  refine imp_congr_right fun _ => ⟨.inr, fun h => ?_⟩
  rcases h with ⟨path, hunbumped, hseen⟩ | hnoticed
  · exact ⟨path, hunbumped.noticed hseen⟩
  · exact hnoticed

end

/-! ## A pull request that carries drift -/

section
variable (digits : Digits) (report : List (DriftEntry X)) (base : FileTree) (root : Path)

/-- Changed entries, each about a local file with a plain version, which YAML reads back from what
is written for the entry. -/
structure DriftReport : Prop where
  changed : ∀ e ∈ report, e.kind = .changed
  about : ∀ e ∈ report, ∃ envelope path doc, Reimports libs base e envelope path doc
  plain : ∀ e ∈ report, ∀ envelope path doc, Reimports libs base e envelope path doc →
    ∃ major minor patch, PlainParts major minor patch ∧
      Value.get doc "version" = .str (versionText major minor patch) ∧
      (digits.int (String.ofList patch)).isSome = true
  readsBack : ∀ e ∈ report, ∀ envelope kept, e.envelope = some envelope →
    keptEnvelope libs digits base e envelope = some kept →
      ∃ loaded, libs.safeLoad (dumpEnvelopeYaml libs kept) = some (.dict loaded) ∧
        Value.get loaded "version" = Value.get kept "version"

/-- No file is written twice, and the sidecar of an envelope has the name that the gate looks for.
-/
structure OwnFiles : Prop where
  apart : (report.flatMap (writeSet root)).Nodup
  names : ∀ e ∈ report, ∀ envelope path, e.envelope = some envelope → e.localPath = some path →
    ∃ stem, path = pathOf (stem ++ ymlSuffix) ∧ ∀ sidecar ∈ (splitSidecarFiles envelope).2,
      path.sibling sidecar.1 = pathOf (stem ++ sidecarSuffix)

/-- The envelope that is written where the version is not raised. -/
def keptVersion (doc envelope : Document X) : Document X :=
  Dict.set (keptIdentity doc envelope) "version" (Value.get doc "version")

/-- What is written for the entry raises the version, or reads back as what the file holds, or is
the text of the file. -/
def Settled (envelope : Document X) (path : Path) (doc : Document X) : Prop :=
  ChangeShows libs base envelope path doc ∨
    Value.pyEq (.dict (bodyWithoutVersion libs (keptVersion doc (splitSidecarFiles envelope).1)))
      (.dict (Dict.erase doc "version")) = true ∨
    base.read path = some (dumpEnvelopeYaml libs (keptVersion doc (splitSidecarFiles envelope).1))

/-- The gate accepts what `write_drift` makes of the base. -/
def AcceptsDrift (renamedAway : Path → Bool) : Prop :=
  ∀ head paths, writeDrift libs digits report base root = some (head, paths) →
    main libs str (some (diffNameOnly renamedAway base head)) base head = 0

/-- Every entry is settled whose file git lists without quotes. -/
def AllSettled : Prop :=
  ∀ e ∈ report, ∀ envelope path doc, Reimports libs base e envelope path doc →
    ∀ stem, path = pathOf (stem ++ ymlSuffix) → detectionsRoot <+: stem →
      stem.any isUnusual = false → Settled libs base envelope path doc

/-- What the head holds of an entry's files. -/
structure Written (head : FileTree) (e : DriftEntry X) (envelope : Document X) (path : Path)
    (kept : Document X) : Prop where
  kept_eq : keptEnvelope libs digits base e envelope = some kept
  file : head.read path = some (dumpEnvelopeYaml libs kept)
  sidecars : ∀ sidecar ∈ (splitSidecarFiles envelope).2,
    head.read (path.sibling sidecar.1) = some sidecar.2

/-- How the head's document of an entry's file compares with the base's. -/
structure Outcome (head : FileTree) (envelope : Document X) (path : Text) (doc loaded : Document X) :
    Prop where
  head_eq : docAt libs head path = some loaded
  base_eq : docAt libs base path = some doc
  versions : isNone (Value.get loaded "version") = false ∧ isNone (Value.get doc "version") = false
  raised : ChangeShows libs base envelope (pathOf path) doc → sameVersion str loaded doc = false
  kept : ¬ ChangeShows libs base envelope (pathOf path) doc → sameVersion str loaded doc = true ∧
    fileAt head path =
      some (dumpEnvelopeYaml libs (keptVersion doc (splitSidecarFiles envelope).1)) ∧
    bodyWithoutVersion libs (keptVersion doc (splitSidecarFiles envelope).1) =
      Dict.erase loaded "version"

variable {libs str digits report base root} {renamedAway : Path → Bool} {head : FileTree}
  {paths : List Path}

theorem entriesToWrite_eq (h : DriftReport libs digits report base) :
    entriesToWrite report = report := by
  have hnew : report.filter (·.kind = .new) = [] := by
    rw [List.filter_eq_nil_iff]
    intro e he
    simp [h.changed e he]
  have hchanged : report.filter (·.kind = .changed) = report := by
    rw [List.filter_eq_self]
    intro e he
    exact decide_eq_true (h.changed e he)
  unfold entriesToWrite
  rw [hnew, hchanged, List.nil_append]

theorem DriftReport.patch (h : DriftReport libs digits report base) (hdigits : AsciiDigits digits) :
    ∀ e ∈ entriesToWrite report, ∀ path doc, e.localPath = some path →
      localDocument libs base path = some doc →
        (bumpPatch digits (Value.get doc "version")).isSome = true := by
  intro e he path doc hpath hdoc
  rw [entriesToWrite_eq h] at he
  obtain ⟨envelope, path', doc', hre⟩ := h.about e he
  obtain rfl := Option.some.inj (hre.localPath.symm.trans hpath)
  obtain rfl := Option.some.inj (hre.document.symm.trans hdoc)
  obtain ⟨major, minor, patch, hplain, hversion, hint⟩ := h.plain e he _ _ _ hre
  rw [hversion]
  exact bumpPatch_isSome hdigits hplain hint

theorem written_of_run (h : DriftReport libs digits report base) (hdigits : AsciiDigits digits)
    (hown : OwnFiles report root)
    (hrun : writeDrift libs digits report base root = some (head, paths)) :
    (∀ p ∉ report.flatMap (writeSet root), head.read p = base.read p) ∧
    ∀ e ∈ report, ∀ envelope path doc, Reimports libs base e envelope path doc →
      ∃ kept, Written libs digits base head e envelope path kept := by
  have hapart : ((entriesToWrite report).flatMap (writeSet root)).Nodup := by
    rw [entriesToWrite_eq h]
    exact hown.apart
  obtain ⟨files, paths', hfiles, hwritten, hkeys⟩ := writeDrift_eq_writeAll (h.patch hdigits) hapart
  rw [entriesToWrite_eq h] at hfiles hwritten hkeys hapart
  obtain ⟨rfl, -⟩ := Prod.mk.inj (Option.some.inj (hrun.symm.trans hwritten))
  refine ⟨fun p hp => Directory.read_writeAll_of_notMem (hkeys ▸ hapart) base (hkeys ▸ hp), ?_⟩
  intro e he envelope path doc hre
  have hread : ∀ file ∈ files e, (base.writeAll (report.flatMap files)).read file.1 = some file.2 :=
    fun file hfile => Directory.read_writeAll_of_mem (hkeys ▸ hapart) base
      (List.mem_flatMap.mpr ⟨e, he, hfile⟩)
  have htarget : entryTarget root e = path := by
    unfold entryTarget
    rw [hre.localPath]
    rfl
  have hfile := hfiles e he
  unfold entryFiles at hfile
  rw [hre.envelope, htarget] at hfile
  obtain ⟨kept, hkept, heq⟩ := Option.map_eq_some_iff.mp hfile
  rw [← heq] at hread
  obtain ⟨hself, hsidecars⟩ := List.forall_mem_cons.mp hread
  exact ⟨kept, hkept, hself, fun sidecar hmem => hsidecars _ (List.mem_map_of_mem hmem)⟩

omit [Value.ScalarEq X] [Json.FloatText X] in
theorem docAt_eq_localDocument (path : Text) :
    docAt libs base path = localDocument libs base (pathOf path) := by
  unfold docAt localDocument fileAt parseDoc
  rw [Option.bind_assoc]

theorem outcome (hstr : ∀ s, str (.str s) = s) (h : DriftReport libs digits report base)
    (hdigits : AsciiDigits digits) {e : DriftEntry X} (he : e ∈ report)
    {envelope doc kept : Document X} {path : Text}
    (hre : Reimports libs base e envelope (pathOf path) doc)
    (hwritten : Written libs digits base head e envelope (pathOf path) kept) :
    ∃ loaded, Outcome libs str base head envelope path doc loaded := by
  obtain ⟨major, minor, patch, hplain, hversion, -⟩ := h.plain e he _ _ _ hre
  obtain ⟨loaded, hload, hloaded⟩ := h.readsBack e he envelope kept hre.envelope hwritten.kept_eq
  have hpreserve := hwritten.kept_eq
  rw [hre.keptEnvelope_eq] at hpreserve
  have hkept : ¬ ChangeShows libs base envelope (pathOf path) doc →
      kept = keptVersion doc (splitSidecarFiles envelope).1 := by
    intro hhidden
    obtain ⟨hbody, hsidecars⟩ := not_or.mp hhidden
    rw [preserveLocal_unchanged hre.document (hversion ▸ truthy_versionText hplain) hbody
      (by simpa using hsidecars)] at hpreserve
    exact (Option.some.inj hpreserve).symm
  have hnext : ChangeShows libs base envelope (pathOf path) doc →
      Value.get loaded "version" = .str (versionText major minor (nextPatch patch)) := by
    intro hshows
    rw [hloaded]
    exact preserveLocal_bumped hdigits hre.document hversion hplain hshows hpreserve
  have hsame : ¬ ChangeShows libs base envelope (pathOf path) doc →
      Value.get loaded "version" = Value.get doc "version" := by
    intro hhidden
    rw [hloaded, hkept hhidden]
    exact get_set_self _ _ _
  refine ⟨loaded, ?_, ?_, ?_, ?_, ?_⟩
  · unfold docAt fileAt parseDoc
    rw [hwritten.file, Option.bind_some, hload]
    rfl
  · rw [docAt_eq_localDocument]
    exact hre.document
  · refine ⟨?_, by rw [hversion]; rfl⟩
    by_cases hshows : ChangeShows libs base envelope (pathOf path) doc
    · rw [hnext hshows]
      rfl
    · rw [hsame hshows, hversion]
      rfl
  · intro hshows
    unfold sameVersion
    rw [hnext hshows, hversion, hstr, hstr]
    exact decide_eq_false (versionText_nextPatch_ne hplain)
  · intro hhidden
    refine ⟨?_, ?_, ?_⟩
    · unfold sameVersion
      rw [hsame hhidden]
      exact decide_eq_true rfl
    · rw [← hkept hhidden]
      exact hwritten.file
    · rw [← hkept hhidden]
      unfold bodyWithoutVersion
      rw [hload]

/-- What differs from the base is the file of an entry, or its sidecar, which then shows. -/
theorem exists_entry_of_differ (h : DriftReport libs digits report base) (hdigits : AsciiDigits digits)
    (hown : OwnFiles report root)
    (hrun : writeDrift libs digits report base root = some (head, paths)) {p : Path}
    (hdiffer : head.read p ≠ base.read p) :
    ∃ e ∈ report, ∃ envelope doc stem, Reimports libs base e envelope (pathOf (stem ++ ymlSuffix)) doc ∧
      (p = pathOf (stem ++ ymlSuffix) ∨ (p = pathOf (stem ++ sidecarSuffix) ∧
        ChangeShows libs base envelope (pathOf (stem ++ ymlSuffix)) doc)) := by
  obtain ⟨hframe, hentries⟩ := written_of_run h hdigits hown hrun
  have hmem : p ∈ report.flatMap (writeSet root) := by
    by_contra hnot
    exact hdiffer (hframe p hnot)
  obtain ⟨e, he, hp⟩ := List.mem_flatMap.mp hmem
  obtain ⟨envelope, path, doc, hre⟩ := h.about e he
  obtain ⟨stem, rfl, hsidecars⟩ := hown.names e he envelope path hre.envelope hre.localPath
  obtain ⟨kept, hwritten⟩ := hentries e he envelope _ doc hre
  refine ⟨e, he, envelope, doc, stem, hre, ?_⟩
  have htarget : entryTarget root e = pathOf (stem ++ ymlSuffix) := by
    unfold entryTarget
    rw [hre.localPath]
    rfl
  unfold writeSet at hp
  rw [hre.envelope, htarget] at hp
  rcases List.mem_cons.mp hp with rfl | hp
  · exact .inl rfl
  · obtain ⟨sidecar, hsidecar, rfl⟩ := List.mem_map.mp hp
    refine .inr ⟨hsidecars sidecar hsidecar, .inr ?_⟩
    rw [List.any_eq_true]
    refine ⟨sidecar, hsidecar, ?_⟩
    unfold sidecarChanged
    rw [hwritten.sidecars sidecar hsidecar] at hdiffer
    exact decide_eq_true hdiffer.symm

theorem yml_ne_sidecar (stem stem' : Text) : stem ++ ymlSuffix ≠ stem' ++ sidecarSuffix := by
  intro h
  have hlast := congrArg List.getLast? h
  rw [List.getLast?_append, List.getLast?_append] at hlast
  have hends : some 'l' = some 'n' := hlast
  exact absurd hends (by decide)

omit [Json.FloatText X] in
theorem main_eq_zero_iff : main libs str (some (diffNameOnly renamedAway base head)) base head = 0 ↔
    ¬ ∃ path, Noticed libs str renamedAway base head path := by
  rw [← main_eq_one_iff]
  unfold main
  dsimp only
  split_ifs <;> simp

theorem allSettled_of_acceptsDrift (hstr : ∀ s, str (.str s) = s)
    (hdigits : AsciiDigits digits) (h : DriftReport libs digits report base)
    (hown : OwnFiles report root)
    (haccepts : AcceptsDrift libs str digits report base root renamedAway) :
    AllSettled libs report base := by
  intro e he envelope path doc hre stem hpath hroot hplain
  subst hpath
  by_contra hnot
  unfold Settled at hnot
  obtain ⟨hhidden, hbody, htext⟩ : _ ∧ _ ∧ _ := by simpa only [not_or] using hnot
  have hapart : ((entriesToWrite report).flatMap (writeSet root)).Nodup := by
    rw [entriesToWrite_eq h]
    exact hown.apart
  obtain ⟨files, paths, -, hrun, -⟩ := writeDrift_eq_writeAll (h.patch hdigits) hapart
  have hzero := haccepts _ _ hrun
  obtain ⟨-, hentries⟩ := written_of_run h hdigits hown hrun
  obtain ⟨kept, hwritten⟩ := hentries e he envelope _ doc hre
  obtain ⟨loaded, ho⟩ := outcome hstr h hdigits he hre hwritten
  obtain ⟨hversion, hfile, hloaded⟩ := ho.kept hhidden
  rw [main_eq_zero_iff] at hzero
  refine hzero ⟨stem ++ ymlSuffix, ?_, loaded, doc, ho.head_eq, ho.base_eq, hversion, .inl ?_⟩
  · refine told_of_file ?_ (.inl (List.suffix_append _ _)) ?_ (by rw [hfile]; rfl) ?_
    · exact (detectionsRoot_prefix_append (by decide)).mpr hroot
    · rwa [plain_append (by decide)]
    · rw [hfile]
      exact fun heq => htext heq.symm
  · refine ⟨?_, ho.versions⟩
    unfold sameBody
    rw [← hloaded]
    exact Bool.eq_false_iff.mpr hbody

theorem acceptsDrift_of_allSettled (hstr : ∀ s, str (.str s) = s)
    (hdigits : AsciiDigits digits) (h : DriftReport libs digits report base)
    (hown : OwnFiles report root) (hsettled : AllSettled libs report base) :
    AcceptsDrift libs str digits report base root renamedAway := by
  intro head paths hrun
  obtain ⟨-, hentries⟩ := written_of_run h hdigits hown hrun
  have houtcome : ∀ e ∈ report, ∀ envelope doc path,
      Reimports libs base e envelope (pathOf path) doc → ∃ loaded,
        Outcome libs str base head envelope path doc loaded := by
    intro e he envelope doc path hre
    obtain ⟨kept, hwritten⟩ := hentries e he envelope _ doc hre
    exact outcome hstr h hdigits he hre hwritten
  rw [main_eq_zero_iff]
  rintro ⟨path, ⟨p, hlisted, hplain, hchanged⟩, headDoc, baseDoc, hhead, hbase, hversion, hrefused⟩
  unfold listed at hlisted
  rw [Bool.and_eq_true, Bool.and_eq_true, decide_eq_true_eq, decide_eq_true_eq] at hlisted
  obtain ⟨⟨hroot, hdiffer⟩, -⟩ := hlisted
  obtain ⟨e, he, envelope, doc, stem, hre, hp⟩ :=
    exists_entry_of_differ h hdigits hown hrun (Ne.symm hdiffer)
  -- The gate looks at the file of this entry, whichever of the two files git lists.
  obtain rfl : path = stem ++ ymlSuffix := by
    rcases hp with rfl | ⟨rfl, -⟩
    · rw [slashed_pathOf, changedFile_yml] at hchanged
      exact (Option.some.inj hchanged).symm
    · rw [slashed_pathOf, changedFile_sidecar] at hchanged
      exact (Option.some.inj hchanged).symm
  obtain ⟨loaded, ho⟩ := houtcome e he envelope doc _ hre
  obtain rfl := Option.some.inj (hhead.symm.trans ho.head_eq)
  obtain rfl := Option.some.inj (hbase.symm.trans ho.base_eq)
  by_cases hshows : ChangeShows libs base envelope (pathOf (stem ++ ymlSuffix)) baseDoc
  · rw [ho.raised hshows] at hversion
    exact absurd hversion Bool.false_ne_true
  obtain rfl := hp.resolve_right fun hside => hshows hside.2
  rw [slashed_pathOf] at hroot hplain
  rw [detectionsRoot_prefix_append (by decide)] at hroot
  rw [plain_append (by decide)] at hplain
  obtain ⟨-, hfile, hloaded⟩ := ho.kept hshows
  rcases (hsettled e he envelope _ _ hre stem rfl hroot hplain).resolve_left hshows with
    hbody | htext
  · rcases hrefused with ⟨hother, -⟩ | ⟨headSidecar, baseSidecar, hhs, hbs, hne⟩
    · unfold sameBody at hother
      rw [← hloaded, hbody] at hother
      exact absurd hother (by decide)
    · -- A sidecar of this name is the one of an entry about this file, and that entry shows.
      rw [sidecarText_yml] at hhs hbs
      have hsidecar : head.read (pathOf (stem ++ sidecarSuffix)) ≠
          base.read (pathOf (stem ++ sidecarSuffix)) := by
        rw [show head.read _ = _ from hhs, show base.read _ = _ from hbs]
        exact fun heq => hne (Option.some.inj heq)
      obtain ⟨e', he', envelope', doc', stem', hre', hp'⟩ :=
        exists_entry_of_differ h hdigits hown hrun hsidecar
      rcases hp' with hp' | ⟨hp', hshows'⟩
      · exact yml_ne_sidecar _ _ (pathOf_injective hp').symm
      · obtain rfl := List.append_cancel_right (pathOf_injective hp')
        obtain ⟨loaded', ho'⟩ := houtcome e' he' envelope' doc' _ hre'
        obtain rfl := Option.some.inj (hhead.symm.trans ho'.head_eq)
        obtain rfl := Option.some.inj (hbase.symm.trans ho'.base_eq)
        rw [ho'.raised hshows'] at hversion
        exact absurd hversion Bool.false_ne_true
  · exact hdiffer (htext.trans hfile.symm)

end

end

/-! ## A definition under another name -/

namespace Sample
open ContentOps.Sample

def playbookText : Text :=
  ("id: isolate\nversion: 1.0.0\nasset: sentinel_playbook\nstatus: production\npayload:\n" ++
    "  displayName: Isolate\n  definitionFile: flow.workflow.json\n").toList

def playbookDocument : Document Empty :=
  [("id", .str "isolate"), ("version", .str "1.0.0"), ("asset", .str "sentinel_playbook"),
    ("status", .str "production"), ("payload", .dict [("displayName", .str "Isolate"),
      ("definitionFile", .str "flow.workflow.json")])]

def playbookLibs : Libs Empty where
  safeLoad t := if t = playbookText then some (.dict playbookDocument) else none
  dump _ := []
  laxInt _ := none

def playbookTree (definition : String) : FileTree :=
  (Directory.empty.write ["detections", "sentinel_playbook", "isolate.yml"] playbookText).write
    ["detections", "sentinel_playbook", "flow.workflow.json"] definition.toList

def emptyFlow : FileTree := playbookTree "\x7b\x7d\n"
def filledFlow : FileTree := playbookTree "\x7b\"actions\": \x7b\x7d\x7d\n"

def strOf (v : Value Empty) : String := v.text?.getD ""

end Sample
open CheckVersionBump.Sample ContentOps.Sample

end ContentOps.CheckVersionBump
