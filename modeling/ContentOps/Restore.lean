import ContentOps.Core.Discovery
import ContentOps.Library.Json
import ContentOps.Library.PathText

/-! `contentops restore`, `restore.py`: the files of an archive are written below a directory, one
after the other, until one of them would land elsewhere. -/

namespace ContentOps.Restore
open PyData

structure TarMember where
  name : String
  isFile : Bool
  content : Text

inductive RestoreError where
  | notFound
  | badExtension
  | notEmpty
  | outside (name : String)
deriving DecidableEq, Repr

structure RestoreReport where
  written : List String := []
  skipped : List String := []
  manifestPresent : Bool := false
  manifestAssets : Int := 0

def isYamlOrManifest (name : String) : Bool :=
  hasSuffix ".yml" name || hasSuffix ".yaml" name || hasSuffix "MANIFEST.json" name

section
variable {X : Type} [Value.ScalarEq X] [Json.FloatText X] (toInt : Value X → Option Int)

/-- `len(value or [])`; `none` is `TypeError`. -/
def lengthOf : Value X → Option Nat
  | .list vs => some vs.length
  | .dict d => some d.length
  | .str s => some s.length
  | v => if v.truthy then none else some 0

/-- The count in the text of a manifest, where it can be read. -/
def manifestCount (content : Text) : Option Int := do
  let manifest ← (← Json.loads (X := X) content).dict?
  if (Value.get manifest "asset_count").truthy then toInt (Value.get manifest "asset_count")
  else (lengthOf (Value.get manifest "assets")).map Int.ofNat

/-- The report after one more file. -/
def reportFile (target path : Path) (m : TarMember) (report : RestoreReport) : RestoreReport :=
  let report :=
    { report with written := report.written ++ [String.ofList (slashed (path.drop target.length))] }
  if hasSuffix "MANIFEST.json" m.name then
    { report with
      manifestPresent := true
      manifestAssets := (manifestCount toInt m.content).getD report.manifestAssets }
  else report

/-- The loop over the members of the archive. -/
def extractMembers (target : Path) (usefulNames : List String) :
    List TarMember → FileTree → RestoreReport → FileTree × Except RestoreError RestoreReport
  | [], tree, report => (tree, .ok report)
  | m :: members, tree, report =>
    if m.name ∉ usefulNames then extractMembers target usefulNames members tree report
    else if !m.isFile then extractMembers target usefulNames members tree report
    else
      let resolved := resolveFrom target m.name.toList
      if target <+: resolved then
        extractMembers target usefulNames members (tree.write resolved m.content)
          (reportFile toInt target resolved m report)
      else (tree, .error (.outside m.name))

/-- `restore_from_archive`: the files afterwards, and what is returned or raised. -/
def restoreFromArchive (archive : String) (contents : Option (List TarMember)) (target : Path)
    (force : Bool) (tree : FileTree) : FileTree × Except RestoreError RestoreReport :=
  match contents with
  | none => (tree, .error .notFound)
  | some members =>
    if !(hasSuffix ".tar.gz" archive || hasSuffix ".tgz" archive) then (tree, .error .badExtension)
    else if tree.entries.any (fun p => target <+: p.1 && p.1 ≠ target) && !force then
      (tree, .error .notEmpty)
    else
      let useful := members.filter fun m => isYamlOrManifest m.name
      let skipped := members.filter fun m => !isYamlOrManifest m.name && m.isFile
      extractMembers toInt target (useful.map (·.name)) members tree
        { skipped := skipped.map (·.name) }

/-! ## What is written -/

/-- The members that are to be written. -/
def usefulFiles (members : List TarMember) : List TarMember :=
  members.filter fun m => isYamlOrManifest m.name && m.isFile

def landsInside (target : Path) (m : TarMember) : Bool :=
  target <+: resolveFrom target m.name.toList

def writeMember (target : Path) (tree : FileTree) (m : TarMember) : FileTree :=
  tree.write (resolveFrom target m.name.toList) m.content

variable {toInt} {target : Path}

variable (toInt target) in
/-- The loop writes up to the first member that lands elsewhere. -/
theorem extractMembers_eq {usefulNames : List String} (members : List TarMember) (tree : FileTree)
    (report : RestoreReport)
    (huseful : ∀ m ∈ members, m.name ∈ usefulNames ↔ isYamlOrManifest m.name = true) :
    (extractMembers toInt target usefulNames members tree report).1 =
        ((usefulFiles members).takeWhile (landsInside target)).foldl (writeMember target) tree ∧
      (∀ e, (extractMembers toInt target usefulNames members tree report).2 = .error e ↔
        ∃ m after, usefulFiles members =
          (usefulFiles members).takeWhile (landsInside target) ++ m :: after ∧
            landsInside target m = false ∧ e = .outside m.name) ∧
      ∀ out, (extractMembers toInt target usefulNames members tree report).2 = .ok out →
        out.written = report.written ++ (usefulFiles members).map fun m =>
          String.ofList (slashed ((resolveFrom target m.name.toList).drop target.length)) := by
  induction members generalizing tree report with
  | nil => exact ⟨rfl, by simp [extractMembers, usefulFiles], by
      intro out hout
      obtain rfl := Except.ok.inj hout
      simp [usefulFiles]⟩
  | cons m members ih =>
    have hrest := fun m hm => huseful m (List.mem_cons_of_mem _ hm)
    have hm := huseful m List.mem_cons_self
    by_cases hskip : isYamlOrManifest m.name = true ∧ m.isFile = true
    · have hcons : usefulFiles (m :: members) = m :: usefulFiles members :=
        List.filter_cons_of_pos (by simp [hskip.1, hskip.2])
      have hname : ¬ m.name ∉ usefulNames := not_not.mpr (hm.mpr hskip.1)
      rw [extractMembers, if_neg hname, if_neg (by simp [hskip.2]), hcons]
      by_cases hin : target <+: resolveFrom target m.name.toList
      · have hland : landsInside target m = true := decide_eq_true hin
        obtain ⟨hwritten, hraised, hreport⟩ := ih (writeMember target tree m)
          (reportFile toInt target (resolveFrom target m.name.toList) m report) hrest
        rw [if_pos hin, List.takeWhile_cons_of_pos hland]
        refine ⟨hwritten, fun e => ?_, fun out hout => ?_⟩
        · refine (hraised e).trans ?_
          simp only [List.cons_append, List.cons.injEq, true_and]
        · rw [hreport out hout]
          unfold reportFile
          split_ifs <;> simp
      · have hland : landsInside target m = false := decide_eq_false hin
        rw [if_neg hin, List.takeWhile_cons_of_neg (by simp [hland])]
        refine ⟨rfl, fun e => ?_, fun out hout => by simp at hout⟩
        constructor
        · intro heq
          exact ⟨m, usefulFiles members, rfl, hland, (Except.error.inj heq).symm⟩
        · rintro ⟨m', after, heq, -, rfl⟩
          obtain ⟨rfl, -⟩ := List.cons.inj heq
          rfl
    · have hcons : usefulFiles (m :: members) = usefulFiles members :=
        List.filter_cons_of_neg (by simpa using hskip)
      have hstep : extractMembers toInt target usefulNames (m :: members) tree report =
          extractMembers toInt target usefulNames members tree report := by
        rw [extractMembers]
        by_cases hname : m.name ∉ usefulNames
        · rw [if_pos hname]
        · rw [if_neg hname, if_pos]
          have := hm.mp (not_not.mp hname)
          simpa [this] using hskip
      rw [hstep, hcons]
      exact ih tree report hrest

theorem read_foldl_writeMember {written : List TarMember}
    (hinside : ∀ m ∈ written, landsInside target m = true) {path : Path} (hpath : ¬ target <+: path)
    (tree : FileTree) : (written.foldl (writeMember target) tree).read path = tree.read path := by
  induction written generalizing tree with
  | nil => rfl
  | cons m written ih =>
    have hne : resolveFrom target m.name.toList ≠ path := fun heq =>
      hpath (heq ▸ of_decide_eq_true (hinside m List.mem_cons_self))
    rw [List.foldl_cons, ih fun m' hm' => hinside m' (List.mem_cons_of_mem _ hm')]
    exact (Directory.read_write ..).trans (if_neg hne)

/-- The files that are there afterwards are those of the members in front of the first one that
lands elsewhere, or none when a check fails before; nothing outside the target is touched. -/
structure StopsAtFirst (target : Path) (contents : Option (List TarMember)) (tree : FileTree)
    (out : FileTree × Except RestoreError RestoreReport) (written : List TarMember) : Prop where
  inside : ∀ m ∈ written, landsInside target m = true
  files : out.1 = written.foldl (writeMember target) tree
  outside : ∀ path, ¬ target <+: path → out.1.read path = tree.read path
  raised : ∀ e, out.2 = .error e → written = [] ∧ e ∈ [.notFound, .badExtension, .notEmpty] ∨
    ∃ members m after, contents = some members ∧ usefulFiles members = written ++ m :: after ∧
      landsInside target m = false ∧ e = .outside m.name
  returned : ∀ report, out.2 = .ok report → ∃ members, contents = some members ∧
    written = usefulFiles members ∧ report.written = written.map fun m =>
      String.ofList (slashed ((resolveFrom target m.name.toList).drop target.length))

theorem stopsAtFirst_refused {contents : Option (List TarMember)} {tree : FileTree}
    {e : RestoreError} (he : e ∈ [.notFound, .badExtension, .notEmpty]) :
    StopsAtFirst target contents tree (tree, .error e) [] where
  inside := by simp
  files := rfl
  outside _ _ := rfl
  raised e' he' := by
    obtain rfl := Except.error.inj he'
    exact .inl ⟨rfl, he⟩
  returned report hreport := by simp at hreport

variable (toInt) in
theorem restoreFromArchive_stopsAtFirst (archive : String) (contents : Option (List TarMember))
    (target : Path) (force : Bool) (tree : FileTree) :
    ∃ written, StopsAtFirst target contents tree
      (restoreFromArchive toInt archive contents target force tree) written := by
  unfold restoreFromArchive
  cases contents with
  | none => exact ⟨[], stopsAtFirst_refused (by simp)⟩
  | some members =>
    dsimp only
    split_ifs with hext hempty
    · exact ⟨[], stopsAtFirst_refused (by simp)⟩
    · exact ⟨[], stopsAtFirst_refused (by simp)⟩
    · have huseful : ∀ m ∈ members, m.name ∈ (members.filter fun m => isYamlOrManifest m.name).map
          (·.name) ↔ isYamlOrManifest m.name = true := by
        intro m hm
        constructor
        · intro hmem
          obtain ⟨m', hm', heq⟩ := List.mem_map.mp hmem
          exact heq ▸ (List.mem_filter.mp hm').2
        · exact fun hname => List.mem_map_of_mem (List.mem_filter.mpr ⟨hm, hname⟩)
      obtain ⟨hfiles, hraised, hreport⟩ := extractMembers_eq toInt target members tree
        { skipped := (members.filter fun m => !isYamlOrManifest m.name && m.isFile).map (·.name) }
        huseful
      have hinside : ∀ m ∈ (usefulFiles members).takeWhile (landsInside target),
          landsInside target m = true := fun m hm => List.mem_takeWhile_imp hm
      refine ⟨(usefulFiles members).takeWhile (landsInside target), hinside, hfiles, ?_, ?_, ?_⟩
      · intro path hpath
        rw [hfiles]
        exact read_foldl_writeMember hinside hpath tree
      · intro e he
        obtain ⟨m, after, hsplit, hout, rfl⟩ := (hraised e).mp he
        exact .inr ⟨members, m, after, rfl, hsplit, hout, rfl⟩
      · intro report hok
        -- had one landed elsewhere, it would have been raised
        have hall : (usefulFiles members).takeWhile (landsInside target) = usefulFiles members := by
          rw [List.takeWhile_eq_self_iff]
          by_contra hnot
          obtain ⟨m, after, hdrop⟩ := List.exists_cons_of_ne_nil fun hnil =>
            hnot (List.dropWhile_eq_nil_iff.mp hnil)
          have hm : landsInside target m = false := by
            have := List.head?_dropWhile_not (landsInside target) (usefulFiles members)
            rw [hdrop] at this
            simpa using this
          have herror := (hraised (.outside m.name)).mpr ⟨m, after, by
            rw [← hdrop, List.takeWhile_append_dropWhile], hm, rfl⟩
          rw [hok] at herror
          cases herror
        refine ⟨members, rfl, hall, ?_⟩
        rw [hall, hreport report hok]
        rfl

/-- A rejected archive leaves every file as it was, and an accepted one writes below the target. -/
structure AllOrNothing (target : Path) (tree : FileTree)
    (out : FileTree × Except RestoreError RestoreReport) : Prop where
  rejected : ∀ e, out.2 = .error e → ∀ path, out.1.read path = tree.read path
  accepted : ∀ report, out.2 = .ok report → ∀ path, out.1.read path ≠ tree.read path → target <+: path

end

/-- A good file in front of one that leaves the target. -/
def mixedArchive : List TarMember :=
  [⟨"detections/foo.yml", true, "id: foo".toList⟩, ⟨"../escaped.yml", true, "x".toList⟩]

theorem mixedArchive_not_allOrNothing : ¬ AllOrNothing ["out"] Directory.empty
    (restoreFromArchive (X := Empty) (fun _ => none) "snapshot.tar.gz" (some mixedArchive) ["out"]
      false Directory.empty) := by
  intro h
  have hraised : (restoreFromArchive (X := Empty) (fun _ => none) "snapshot.tar.gz"
      (some mixedArchive) ["out"] false Directory.empty).2 = .error (.outside "../escaped.yml") := by
    rfl
  have hread := h.rejected _ hraised ["out", "detections", "foo.yml"]
  exact absurd hread (by decide +kernel)

end ContentOps.Restore
