import ContentOps.Core.LocalPart
import ContentOps.Core.WrittenFiles
import ContentOps.Handlers.SentinelAnalytic
import ContentOps.Library.JsonRoundTrip

/-! The version that a re-import leaves in a local file: two functions of `core/drift.py` may raise
it, `_preserve_local_version` for the envelope and `_bump_for_changed_sidecars` for its sidecar. -/

namespace ContentOps
open PyData

/-! ## Plain versions -/

/-- What is known of `str.isdigit` and `int` on ASCII digits; a text that is too long for `int` is
not read. -/
structure AsciiDigits (digits : Digits) : Prop where
  isdigit : ∀ t : Text, t ≠ [] → (∀ c ∈ t, c.isDigit = true) → digits.isdigit (String.ofList t) = true
  int : ∀ t : Text, t ≠ [] → (∀ c ∈ t, c.isDigit = true) →
    ∀ n, digits.int (String.ofList t) = some n → n = Nat.ofDigitChars 10 t 0

def versionText (major minor patch : Text) : String :=
  String.ofList (major ++ '.' :: minor ++ '.' :: patch)

/-- The parts of `X.Y.Z`. -/
def PlainParts (major minor patch : Text) : Prop :=
  ∀ part ∈ [major, minor, patch], part ≠ [] ∧ ∀ c ∈ part, c.isDigit = true

/-- `Z+1` of a patch number `Z`. -/
def nextPatch (patch : Text) : Text := Json.digitsOf (Nat.ofDigitChars 10 patch 0 + 1)

theorem splitOn_versionText {major minor patch : Text} (h : PlainParts major minor patch) :
    (versionText major minor patch).toList.splitOn '.' = [major, minor, patch] := by
  have hdots : ∀ part ∈ [major, minor, patch], '.' ∉ part := fun part hpart hdot =>
    absurd ((h part hpart).2 _ hdot) (by decide)
  have htext : (versionText major minor patch).toList = ['.'].intercalate [major, minor, patch] := by
    simp [versionText, List.intercalate, List.intersperse]
  rw [htext]
  exact List.splitOn_intercalate '.' hdots (by simp)

/-- The next version is another one. -/
theorem versionText_nextPatch_ne {major minor patch : Text} (h : PlainParts major minor patch) :
    versionText major minor (nextPatch patch) ≠ versionText major minor patch := by
  intro heq
  have hparts : PlainParts major minor (nextPatch patch) := by
    intro part hpart
    simp only [List.mem_cons, List.not_mem_nil, or_false] at hpart
    rcases hpart with rfl | rfl | rfl
    · exact h _ (by simp)
    · exact h _ (by simp)
    · exact ⟨Json.digitsOf_ne_nil _, fun _ => Json.digitsOf_isDigit⟩
  have hsplit := splitOn_versionText hparts
  rw [heq, splitOn_versionText h] at hsplit
  have hpatch : patch = nextPatch patch := by simpa using hsplit
  have hvalue : Nat.ofDigitChars 10 (nextPatch patch) 0 = Nat.ofDigitChars 10 patch 0 + 1 :=
    Nat.ofDigitChars_ten_toDigits
  rw [← hpatch] at hvalue
  omega

section
variable {X : Type}

theorem bumpPatch_versionText {digits : Digits} (hdigits : AsciiDigits digits)
    {major minor patch : Text} (h : PlainParts major minor patch) {bumped : Value X}
    (hbump : bumpPatch digits (.str (versionText major minor patch)) = some bumped) :
    bumped = .str (versionText major minor (nextPatch patch)) := by
  have hall : ([major, minor, patch].all fun t => digits.isdigit (String.ofList t)) = true :=
    List.all_eq_true.mpr fun part hpart => hdigits.isdigit part (h part hpart).1 (h part hpart).2
  unfold bumpPatch at hbump
  dsimp only at hbump
  rw [splitOn_versionText h] at hbump
  dsimp only at hbump
  rw [if_pos hall] at hbump
  obtain ⟨n, hn, rfl⟩ := Option.map_eq_some_iff.mp hbump
  obtain ⟨hne, hpatch⟩ := h patch (by simp)
  rw [hdigits.int patch hne hpatch n hn]
  rfl

theorem bumpPatch_isSome {digits : Digits} (hdigits : AsciiDigits digits) {major minor patch : Text}
    (h : PlainParts major minor patch)
    (hint : (digits.int (String.ofList patch)).isSome = true) :
    (bumpPatch digits (.str (versionText major minor patch) : Value X)).isSome = true := by
  have hall : ([major, minor, patch].all fun t => digits.isdigit (String.ofList t)) = true :=
    List.all_eq_true.mpr fun part hpart => hdigits.isdigit part (h part hpart).1 (h part hpart).2
  unfold bumpPatch
  dsimp only
  rw [splitOn_versionText h]
  dsimp only
  rw [if_pos hall, Option.isSome_map]
  exact hint

variable [Value.ScalarEq X]

theorem truthy_versionText {major minor patch : Text} (h : PlainParts major minor patch) :
    (Value.str (versionText major minor patch) : Value X).truthy = true := by
  have hne : versionText major minor patch ≠ "" := by
    intro hempty
    have hsplit := splitOn_versionText h
    rw [hempty] at hsplit
    exact absurd hsplit (by simp)
  simpa [Value.truthy] using hne

/-! ## One entry -/

/-- An envelope with the metadata and the id that are kept of the local file. -/
def keptIdentity (doc envelope : Document X) : Document X :=
  preserveLocalId doc (preserveLocalMetadata doc envelope)

/-- Read back from the YAML writer, the envelope that is to be written is another one than the local
file, the version aside. -/
def BodyDiffers (libs : Libs X) (doc envelope : Document X) : Prop :=
  Value.pyEq
    (.dict (bodyWithoutVersion libs (Dict.set (keptIdentity doc envelope) "version"
      (Value.get doc "version"))))
    (.dict (bodyWithoutVersion libs doc)) = false

omit [Value.ScalarEq X] in
theorem get_set_self (d : Document X) (key : String) (v : Value X) :
    Value.get (Dict.set d key v) key = v := by
  unfold Value.get
  rw [Dict.get?_set_self]
  rfl

section
variable {libs : Libs X} {digits : Digits} {tree : FileTree} {path : Path}
  {doc envelope kept : Document X} {sidecars : Sidecars}

/-- Neither of the two functions raises a version when nothing has changed. -/
theorem preserveLocal_unchanged (hdoc : localDocument libs tree path = some doc)
    (htruthy : (Value.get doc "version").truthy = true) (hbody : ¬ BodyDiffers libs doc envelope)
    (hsidecars : sidecars.any (sidecarChanged tree path) = false) :
    preserveLocal libs digits tree path sidecars envelope =
      some (Dict.set (keptIdentity doc envelope) "version" (Value.get doc "version")) := by
  rw [preserveLocal_eq hdoc]
  unfold withLocal preserveLocalVersion
  dsimp only
  have hsame : Value.pyEq (.dict (bodyWithoutVersion libs (Dict.set (keptIdentity doc envelope)
      "version" (Value.get doc "version")))) (.dict (bodyWithoutVersion libs doc)) = true := by
    simpa [BodyDiffers] using hbody
  unfold keptIdentity at hsame
  rw [if_pos htruthy, if_pos hsame, Option.bind_some]
  unfold bumpForChangedSidecars
  dsimp only
  rw [hsidecars]
  split_ifs <;> first | rfl | contradiction

/-- One of the two raises the version, and then the other one does not. -/
theorem preserveLocal_bumped (hdigits : AsciiDigits digits)
    (hdoc : localDocument libs tree path = some doc) {major minor patch : Text}
    (hversion : Value.get doc "version" = .str (versionText major minor patch))
    (hplain : PlainParts major minor patch)
    (hshows : BodyDiffers libs doc envelope ∨ sidecars.any (sidecarChanged tree path) = true)
    (hkept : preserveLocal libs digits tree path sidecars envelope = some kept) :
    Value.get kept "version" = .str (versionText major minor (nextPatch patch)) := by
  have htruthy : (Value.get doc "version").truthy = true := by
    rw [hversion]
    exact truthy_versionText hplain
  rw [preserveLocal_eq hdoc] at hkept
  obtain ⟨envelope', henvelope, hbump⟩ := Option.bind_eq_some_iff.mp hkept
  unfold withLocal preserveLocalVersion at henvelope
  dsimp only at henvelope
  rw [if_pos htruthy] at henvelope
  unfold bumpForChangedSidecars at hbump
  dsimp only at hbump
  have hself : Value.pyEq (Value.get doc "version") (Value.get doc "version") = true := by
    rw [hversion]
    simp [Value.pyEq]
  by_cases hbody : BodyDiffers libs doc envelope
  · unfold BodyDiffers keptIdentity at hbody
    rw [hbody, if_neg Bool.false_ne_true] at henvelope
    obtain ⟨bumped, hbumped, rfl⟩ := Option.map_eq_some_iff.mp henvelope
    rw [hversion] at hbumped
    obtain rfl := bumpPatch_versionText hdigits hplain hbumped
    -- The version is no longer that of the file, so the sidecar does not count.
    have hother : Value.pyEq (Value.str (versionText major minor (nextPatch patch)) : Value X)
        (Value.get doc "version") = false := by
      rw [hversion]
      simpa [Value.pyEq] using versionText_nextPatch_ne hplain
    rw [get_set_self, hother, if_pos (by simp)] at hbump
    obtain rfl := Option.some.inj hbump
    exact get_set_self _ _ _
  · have hsame : Value.pyEq (.dict (bodyWithoutVersion libs (Dict.set (keptIdentity doc envelope)
        "version" (Value.get doc "version")))) (.dict (bodyWithoutVersion libs doc)) = true := by
      simpa [BodyDiffers] using hbody
    unfold keptIdentity at hsame
    rw [if_pos hsame] at henvelope
    obtain rfl := Option.some.inj henvelope
    have hchanged := hshows.resolve_left hbody
    have hsome : sidecars ≠ [] := by
      rintro rfl
      exact absurd hchanged (by simp)
    rw [get_set_self, hself, htruthy, if_neg (by simp [hsome]), if_pos hchanged] at hbump
    obtain ⟨bumped, hbumped, rfl⟩ := Option.map_eq_some_iff.mp hbump
    rw [hversion] at hbumped
    rw [get_set_self]
    exact bumpPatch_versionText hdigits hplain hbumped

/-- The two functions fail only where the patch number is not read. -/
theorem preserveLocal_isSome (h : ∀ doc, localDocument libs tree path = some doc →
    (bumpPatch digits (Value.get doc "version")).isSome = true) :
    (preserveLocal libs digits tree path sidecars envelope).isSome = true := by
  cases hdoc : localDocument libs tree path with
  | none =>
    unfold preserveLocal
    rw [hdoc]
    rfl
  | some doc =>
    obtain ⟨bumped, hbumped⟩ := Option.isSome_iff_exists.mp (h doc hdoc)
    rw [preserveLocal_eq hdoc]
    have hwith : (withLocal libs digits doc envelope).isSome = true := by
      unfold withLocal preserveLocalVersion
      dsimp only
      rw [hbumped]
      split_ifs <;> rfl
    obtain ⟨envelope', henvelope⟩ := Option.isSome_iff_exists.mp hwith
    rw [henvelope, Option.bind_some]
    unfold bumpForChangedSidecars
    dsimp only
    rw [hbumped]
    split_ifs <;> rfl

end

/-! ## What is kept of the local file -/

omit [Value.ScalarEq X] in
theorem get?_merge_of_none {a b : Document X} {key : String} (h : Dict.get? b key = none) :
    Dict.get? (Dict.merge a b) key = Dict.get? a key := by
  have hnot := Dict.get?_eq_none_iff.mp h
  unfold Dict.merge
  clear h
  induction b generalizing a with
  | nil => rfl
  | cons p b ih =>
    have hkeys : key ∉ p.1 :: Dict.keys b := hnot
    rw [List.mem_cons, not_or] at hkeys
    rw [List.foldl_cons, ih hkeys.2, Dict.get?_set, if_neg (Ne.symm hkeys.1)]

/-- The id of the file and what its metadata says where the tenant says nothing. -/
structure KeepsLocal (doc envelope kept : Document X) : Prop where
  id : (Value.get doc "id").truthy = true → Value.get kept "id" = Value.get doc "id"
  metadata : ∀ localMeta key v, (Value.get doc "metadata").dict? = some localMeta →
    Dict.get? localMeta key = some v →
    (∀ remoteMeta, (Value.get envelope "metadata").dict? = some remoteMeta →
      Dict.get? remoteMeta key = none) →
    ∃ merged, Value.get kept "metadata" = .dict merged ∧ Dict.get? merged key = some v

theorem keepsLocal_keptIdentity (doc envelope : Document X) :
    KeepsLocal doc envelope (keptIdentity doc envelope) where
  id htruthy := by
    unfold keptIdentity preserveLocalId
    dsimp only
    rw [if_pos htruthy, get_set_self]
  metadata localMeta key v hlocal hkey hremote := by
    have hid : Value.get (keptIdentity doc envelope) "metadata" =
        Value.get (preserveLocalMetadata doc envelope) "metadata" := by
      unfold Value.get
      rw [keptIdentity, (setsOnly_preserveLocalId _ _).others "metadata" (by simp)]
    have hne : localMeta ≠ [] := by
      rintro rfl
      exact absurd hkey nofun
    rw [hid]
    unfold preserveLocalMetadata
    rw [hlocal]
    cases localMeta with
    | nil => exact absurd rfl hne
    | cons p localMeta =>
      dsimp only
      cases hmeta : (Value.get envelope "metadata").dict? with
      | none => exact ⟨_, get_set_self _ _ _, hkey⟩
      | some remoteMeta =>
        refine ⟨_, get_set_self _ _ _, ?_⟩
        rw [get?_merge_of_none (hremote remoteMeta hmeta)]
        exact hkey

theorem KeepsLocal.set_version {doc envelope kept : Document X} (h : KeepsLocal doc envelope kept)
    (e : Document X) (hset : SetsOnly ["version"] kept e) : KeepsLocal doc envelope e := by
  have hsame : ∀ key, key ≠ "version" → Value.get e key = Value.get kept key := by
    intro key hkey
    unfold Value.get
    rw [hset.others key (by simpa using hkey)]
  refine ⟨fun htruthy => ?_, fun localMeta key v hlocal hkey hremote => ?_⟩
  · rw [hsame "id" (by decide)]
    exact h.id htruthy
  · rw [hsame "metadata" (by decide)]
    exact h.metadata localMeta key v hlocal hkey hremote

theorem keepsLocal_preserveLocal {libs : Libs X} {digits : Digits} {tree : FileTree} {path : Path}
    {doc envelope kept : Document X} {sidecars : Sidecars}
    (hdoc : localDocument libs tree path = some doc)
    (hkept : preserveLocal libs digits tree path sidecars envelope = some kept) :
    KeepsLocal doc envelope kept := by
  rw [preserveLocal_eq hdoc] at hkept
  obtain ⟨envelope', henvelope, hbump⟩ := Option.bind_eq_some_iff.mp hkept
  have hversion : SetsOnly ["version"] (keptIdentity doc envelope) envelope' :=
    setsOnly_preserveLocalVersion henvelope
  exact (keepsLocal_keptIdentity doc envelope).set_version kept
    (hversion.trans (setsOnly_bumpForChangedSidecars hbump))

/-! ## The whole report -/

variable [Json.FloatText X] (libs : Libs X) (digits : Digits)

/-- The entry has an envelope and is about this local file. -/
structure Reimports (tree : FileTree) (entry : DriftEntry X) (envelope : Document X) (path : Path)
    (doc : Document X) : Prop where
  envelope : entry.envelope = some envelope
  localPath : entry.localPath = some path
  document : localDocument libs tree path = some doc

/-- What is written for the entry is not what is on disk, the version aside. -/
def ChangeShows (tree : FileTree) (envelope : Document X) (path : Path) (doc : Document X) : Prop :=
  BodyDiffers libs doc (splitSidecarFiles envelope).1 ∨
    (splitSidecarFiles envelope).2.any (sidecarChanged tree path) = true

/-- What a re-import leaves of a local file. -/
structure Reimported (tree tree' : FileTree) (entry : DriftEntry X) (envelope : Document X)
    (path : Path) (doc kept : Document X) : Prop where
  computed : keptEnvelope libs digits tree entry envelope = some kept
  written : tree'.read path = some (dumpEnvelopeYaml libs kept)
  keepsLocal : KeepsLocal doc (splitSidecarFiles envelope).1 kept
  bumped : entry.kind = .changed → ∀ major minor patch, PlainParts major minor patch →
    Value.get doc "version" = .str (versionText major minor patch) →
      Value.get kept "version" = .str (versionText major minor (nextPatch patch))
  unchanged : (Value.get doc "version").truthy = true → ¬ ChangeShows libs tree envelope path doc →
    Value.get kept "version" = Value.get doc "version"

/-- Writing the report raises the version of each changed file once, and of no file that is written
as it is. -/
def BumpsOnce (report : List (DriftEntry X)) (tree : FileTree) (base : Path) : Prop :=
  ∃ tree' paths, writeDrift libs digits report tree base = some (tree', paths) ∧
    ∀ entry ∈ entriesToWrite report, ∀ envelope path doc,
      Reimports libs tree entry envelope path doc →
        ∃ kept, Reimported libs digits tree tree' entry envelope path doc kept

variable {libs digits} {report : List (DriftEntry X)} {tree : FileTree} {base : Path}

theorem Reimports.keptEnvelope_eq {entry : DriftEntry X} {envelope doc : Document X} {path : Path}
    (h : Reimports libs tree entry envelope path doc) :
    keptEnvelope libs digits tree entry envelope =
      preserveLocal libs digits tree path (splitSidecarFiles envelope).2
        (splitSidecarFiles envelope).1 := by
  unfold keptEnvelope
  rw [h.localPath]

theorem entryFiles_isSome {entry : DriftEntry X} (h : ∀ path doc, entry.localPath = some path →
    localDocument libs tree path = some doc →
      (bumpPatch digits (Value.get doc "version")).isSome = true) :
    (entryFiles libs digits tree base entry).isSome = true := by
  unfold entryFiles
  cases entry.envelope with
  | none => rfl
  | some envelope =>
    dsimp only
    rw [Option.isSome_map]
    unfold keptEnvelope
    dsimp only
    cases hpath : entry.localPath with
    | none => rfl
    | some path => exact preserveLocal_isSome fun doc hdoc => h path doc hpath hdoc

/-- Where no path is written to twice, writing the report is one write of all files. -/
theorem writeDrift_eq_writeAll
    (hpatch : ∀ entry ∈ entriesToWrite report, ∀ path doc, entry.localPath = some path →
      localDocument libs tree path = some doc →
        (bumpPatch digits (Value.get doc "version")).isSome = true)
    (hapart : ((entriesToWrite report).flatMap (writeSet base)).Nodup) :
    ∃ files paths, (∀ entry ∈ entriesToWrite report,
        entryFiles libs digits tree base entry = some (files entry)) ∧
      writeDrift libs digits report tree base =
        some (tree.writeAll ((entriesToWrite report).flatMap files), paths) ∧
      Dict.keys ((entriesToWrite report).flatMap files) =
        (entriesToWrite report).flatMap (writeSet base) := by
  let files := fun entry => (entryFiles libs digits tree base entry).getD []
  have hfiles : ∀ entry ∈ entriesToWrite report,
      entryFiles libs digits tree base entry = some (files entry) := by
    intro entry hentry
    have hsome : (entryFiles libs digits tree base entry).isSome = true :=
      entryFiles_isSome (hpatch entry hentry)
    obtain ⟨written, hwritten⟩ := Option.isSome_iff_exists.mp hsome
    simp [files, hwritten]
  obtain ⟨hself, hdisjoint⟩ := List.nodup_flatMap.mp hapart
  obtain ⟨paths, hrun⟩ := foldlM_writeEntry hfiles hdisjoint hself (tree, []) fun _ _ _ _ => rfl
  refine ⟨files, paths, hfiles, hrun, ?_⟩
  unfold Dict.keys
  rw [List.map_flatMap]
  exact List.flatMap_congr fun e he => keys_entryFiles (hfiles e he)

/-- The file of an entry afterwards, where no path is written to twice. -/
theorem read_written
    (hpatch : ∀ entry ∈ entriesToWrite report, ∀ path doc, entry.localPath = some path →
      localDocument libs tree path = some doc →
        (bumpPatch digits (Value.get doc "version")).isSome = true)
    (hapart : ((entriesToWrite report).flatMap (writeSet base)).Nodup) :
    ∃ tree' paths, writeDrift libs digits report tree base = some (tree', paths) ∧
      ∀ entry ∈ entriesToWrite report, ∀ envelope path doc,
        Reimports libs tree entry envelope path doc →
          ∃ kept, keptEnvelope libs digits tree entry envelope = some kept ∧
            tree'.read path = some (dumpEnvelopeYaml libs kept) := by
  obtain ⟨files, paths, hfiles, hrun, hkeys⟩ := writeDrift_eq_writeAll hpatch hapart
  refine ⟨_, paths, hrun, fun entry hentry envelope path doc h => ?_⟩
  have htarget : entryTarget base entry = path := by
    unfold entryTarget
    rw [h.localPath]
    rfl
  have hfile := hfiles entry hentry
  unfold entryFiles at hfile
  rw [h.envelope] at hfile
  obtain ⟨kept, hkept, hwritten⟩ := Option.map_eq_some_iff.mp hfile
  refine ⟨kept, hkept, ?_⟩
  have hmem : (path, dumpEnvelopeYaml libs kept) ∈ (entriesToWrite report).flatMap files := by
    refine List.mem_flatMap.mpr ⟨entry, hentry, ?_⟩
    rw [← hwritten, htarget]
    exact List.mem_cons_self
  exact Directory.read_writeAll_of_mem (hkeys ▸ hapart) tree hmem

end

/-! ## A key that the YAML writer trims -/

namespace Sample

def trimmedText : Text :=
  ("id: foo\nversion: 1.0.6\nasset: sentinel_analytic\nstatus: production\nmetadata:\n" ++
    "  arm_name: AAA\npayload:\n  displayName: Foo\n  customDetails:\n" ++
    "    \"Account\\nName\": Name\n  kind: Scheduled\n").toList

def detailsEnvelope (version key : String) : Document Empty :=
  [("id", .str "foo"), ("version", .str version), ("asset", .str "sentinel_analytic"),
    ("status", .str "production"), ("metadata", .dict [("arm_name", .str "AAA")]),
    ("payload", .dict [("displayName", .str "Foo"),
      ("customDetails", .dict [(key, .str "Name")]), ("kind", .str "Scheduled")])]

def trimmedDocument : Document Empty := detailsEnvelope "1.0.6" "Account\nName"

def trimmedLibs : Libs Empty where
  safeLoad t := if t = trimmedText then some (.dict trimmedDocument) else none
  dump v := if v = .dict trimmedDocument then trimmedText else []
  laxInt _ := none

def trimmedDigits : Digits where
  isdigit s := s ≠ "" && s.toList.all Char.isDigit
  int s := if s.toList.all Char.isDigit then some (Nat.ofDigitChars 10 s.toList 0) else none

def trimmedPath : Path := ["detections", "sentinel_analytic", "foo.yml"]

def trimmedTree : FileTree := Directory.empty.write trimmedPath trimmedText

/-- The rule in the tenant, whose custom detail has a blank at the end of a line. -/
def detailedRule : Document Empty :=
  [("name", .str "AAA"), ("kind", .str "Scheduled"),
    ("properties", .dict [("displayName", .str "Foo"),
      ("customDetails", .dict [("Account \nName", .str "Name")])])]

def detailsReport : List (DriftEntry Empty) :=
  detectDrift trimmedLibs [SentinelAnalytic.handler [detailedRule]] trimmedTree ["detections"]

theorem trimmedDigits_ok : AsciiDigits trimmedDigits where
  isdigit t hne ht := by
    have hall : t.all Char.isDigit = true := List.all_eq_true.mpr ht
    have hempty : String.ofList t ≠ "" := fun h => hne (by simpa using congrArg String.toList h)
    simp [trimmedDigits, hempty, hall]
  int t _ _ n hn := by
    have hvalue : (∀ c ∈ t, c.isDigit = true) ∧ Nat.ofDigitChars 10 t 0 = n := by
      simpa [trimmedDigits] using hn
    exact hvalue.2.symm

theorem detailsReport_eq : ∃ entry, entriesToWrite detailsReport = [entry] ∧
    entry.kind = .changed ∧ entry.localPath = some trimmedPath ∧
    entry.envelope = some (detailsEnvelope "1.0.0" "Account \nName") := by
  have hentries : (entriesToWrite detailsReport).map (fun e => decide (e.kind = .changed ∧
      e.localPath = some trimmedPath ∧
        e.envelope = some (detailsEnvelope "1.0.0" "Account \nName"))) = [true] := by
    decide +kernel
  obtain ⟨entry, hentry, heq⟩ := List.map_eq_singleton_iff.mp hentries
  exact ⟨entry, hentry, of_decide_eq_true heq⟩

theorem localDocument_trimmedTree :
    localDocument trimmedLibs trimmedTree trimmedPath = some trimmedDocument := by
  decide +kernel

theorem plainParts_trimmed : PlainParts ['1'] ['0'] ['6'] := by
  intro part hpart
  simp only [List.mem_cons, List.not_mem_nil, or_false] at hpart
  rcases hpart with rfl | rfl | rfl
  all_goals exact ⟨List.cons_ne_nil _ _, List.forall_mem_singleton.mpr rfl⟩

end Sample
open Sample

end ContentOps
