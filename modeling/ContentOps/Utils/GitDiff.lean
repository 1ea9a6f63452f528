import ContentOps.Core.Discovery
import ContentOps.Library.PathText
import Mathlib.Data.List.Dedup

/-! Which files have changed since a git ref, `utils/git_diff.py`. -/

namespace ContentOps
open PyData

/-- What git knows of a working tree: the tree of each ref, with the paths that its files have below
the repository's top, the index, the ignored files, and for a tree which of the files that are gone
count as the old names of new ones. -/
structure GitRepo where
  top : Path
  work : FileTree
  refs : String → Option FileTree
  tracked : Path → Bool
  ignored : Path → Bool
  renamedAway : FileTree → Path → Bool
  refs_empty : refs "" = none
  work_names : ∀ p ∈ work.entries.keys, ∀ name ∈ p, IsName name
  refs_names : ∀ ref tree, refs ref = some tree → ∀ p ∈ tree.entries.keys, ∀ name ∈ p, IsName name

namespace GitRepo
variable (repo : GitRepo)

/-- `git diff` against the tree tells of the file. -/
def differs (old : FileTree) (p : Path) : Bool :=
  if repo.tracked p && (repo.work.read p).isSome then repo.work.read p ≠ old.read p
  else (old.read p).isSome && !repo.renamedAway old p

def untracked (p : Path) : Bool :=
  !repo.tracked p && !repo.ignored p && (repo.work.read p).isSome

/-- The paths below a directory, seen from it. -/
def below (dir : Path) (paths : List Path) : List Path :=
  (paths.filter (dir <+: ·)).map (·.drop dir.length)

/-- `git diff --name-only ref`, from the top; `none` is a ref that git does not know. -/
def diffNameOnly (ref : String) : Option Text :=
  (repo.refs ref).map fun old =>
    let paths := (repo.work.entries.keys ++ old.entries.keys).dedup.filter (repo.differs old)
    Text.unlines ((below repo.top paths).map fun p => quotePath (slashed p))

/-- `git ls-files --others --exclude-standard`, from the current directory. -/
def lsFilesOthers (cwd : Path) : Text :=
  Text.unlines ((below cwd (repo.work.entries.keys.filter repo.untracked)).map fun p =>
    quotePath (slashed p))

end GitRepo

/-- A line of git's output, joined to the current directory. -/
def readLine (cwd : Path) (line : Text) : Option Path :=
  let line := Text.strip line
  if line = [] then none else some (resolveFrom cwd line)

/-- `changed_paths`; `none` is `GitDiffError`. -/
def changedPaths (repo : GitRepo) (cwd : Path) (ref : String) : Option (List Path) :=
  (repo.diffNameOnly ref).map fun out =>
    (Text.splitlines (out ++ repo.lsFilesOthers cwd)).filterMap (readLine cwd)

namespace GitRepo
variable {repo : GitRepo} {old : FileTree} {cwd rel : Path}

/-- Git prints the path: what differs from the top, what is untracked from the current directory. -/
def Prints (repo : GitRepo) (old : FileTree) (cwd rel : Path) : Prop :=
  repo.differs old (repo.top ++ rel) = true ∨ repo.untracked (cwd ++ rel) = true

theorem mem_keys_of_isSome {tree : FileTree} {p : Path} (h : (tree.read p).isSome) :
    p ∈ tree.entries.keys := by
  obtain ⟨content, hread⟩ := Option.isSome_iff_exists.mp h
  exact List.mem_map_of_mem (f := Prod.fst) (Directory.mem_of_read hread)

theorem mem_keys_of_differs {p : Path} (h : repo.differs old p = true) :
    p ∈ (repo.work.entries.keys ++ old.entries.keys).dedup := by
  rw [List.mem_dedup, List.mem_append]
  unfold differs at h
  split_ifs at h with hwork
  · exact .inl (mem_keys_of_isSome (Bool.and_eq_true_iff.mp hwork).2)
  · exact .inr (mem_keys_of_isSome (Bool.and_eq_true_iff.mp h).1)

theorem mem_below {dir : Path} {paths : List Path} : rel ∈ below dir paths ↔ dir ++ rel ∈ paths := by
  constructor
  · intro h
    obtain ⟨p, hp, rfl⟩ := List.mem_map.mp h
    obtain ⟨hmem, hstart⟩ := List.mem_filter.mp hp
    obtain ⟨tail, rfl⟩ := of_decide_eq_true hstart
    simpa using hmem
  · intro h
    exact List.mem_map.mpr ⟨dir ++ rel, List.mem_filter.mpr ⟨h, by simp⟩, by simp⟩

/-- The names of a printed path. -/
theorem Prints.names {ref : String} (href : repo.refs ref = some old)
    (h : repo.Prints old cwd rel) : ∀ name ∈ rel, IsName name := by
  intro name hname
  rcases h with h | h
  · have hkeys := mem_keys_of_differs h
    rw [List.mem_dedup, List.mem_append] at hkeys
    rcases hkeys with hkeys | hkeys
    · exact repo.work_names _ hkeys name (List.mem_append_right _ hname)
    · exact repo.refs_names ref old href _ hkeys name (List.mem_append_right _ hname)
  · have hkeys := mem_keys_of_isSome (Bool.and_eq_true_iff.mp h).2
    exact repo.work_names _ hkeys name (List.mem_append_right _ hname)

/-- The paths are those of the printed lines. -/
theorem mem_changedPaths {ref : String} {p : Path} (href : repo.refs ref = some old) :
    (∃ paths, changedPaths repo cwd ref = some paths ∧ p ∈ paths) ↔
      ∃ rel, repo.Prints old cwd rel ∧ readLine cwd (quotePath (slashed rel)) = some p := by
  have hlines : ∀ paths : List Path,
      ∀ line ∈ paths.map fun p => quotePath (slashed p), Text.IsLine line := by
    intro paths line hline
    obtain ⟨rel, -, rfl⟩ := List.mem_map.mp hline
    exact isLine_quotePath _
  have hdiff : ∀ rel, rel ∈ below repo.top ((repo.work.entries.keys ++ old.entries.keys).dedup.filter
      (repo.differs old)) ↔ repo.differs old (repo.top ++ rel) = true := by
    intro rel
    rw [mem_below, List.mem_filter]
    exact and_iff_right_of_imp mem_keys_of_differs
  have hothers : ∀ rel, rel ∈ below cwd (repo.work.entries.keys.filter repo.untracked) ↔
      repo.untracked (cwd ++ rel) = true := by
    intro rel
    rw [mem_below, List.mem_filter]
    exact and_iff_right_of_imp fun h => mem_keys_of_isSome (Bool.and_eq_true_iff.mp h).2
  unfold changedPaths diffNameOnly lsFilesOthers
  rw [href]
  simp only [Option.map_some, Option.some.injEq, exists_eq_left']
  rw [← Text.unlines_append, Text.splitlines_unlines fun line hline =>
    (List.mem_append.mp hline).elim (hlines _ line) (hlines _ line), ← List.map_append]
  simp only [List.mem_filterMap, List.mem_map, List.mem_append, hdiff, hothers]
  constructor
  · rintro ⟨line, ⟨rel, hrel, rfl⟩, hread⟩
    exact ⟨rel, hrel, hread⟩
  · rintro ⟨rel, hrel, hread⟩
    exact ⟨_, ⟨rel, hrel, rfl⟩, hread⟩

end GitRepo

/-- No character of the path makes git quote it. -/
def Plain (p : Path) : Prop := (slashed p).any isUnusual = false

/-- A line in quotes is read as a path that is not the path of a YAML file. -/
theorem plain_of_readLine {cwd rel p : Path} (hyml : p.getLast?.any (hasSuffix ".yml") = true)
    (h : readLine cwd (quotePath (slashed rel)) = some p) : Plain rel := by
  by_contra hquoted
  have hquoted := Bool.eq_true_of_not_eq_false hquoted
  unfold readLine at h
  dsimp only at h
  split_ifs at h with hempty
  obtain ⟨last, hlast⟩ := getLast?_resolveFrom_quotePath hquoted cwd
  rw [Option.some.inj h] at hlast
  rw [hlast, Option.any_some] at hyml
  have hsuffix : ".yml".toList <:+ last ++ ['"'] := by
    simpa [hasSuffix] using hyml
  obtain ⟨before, heq⟩ := hsuffix
  have hend : before ++ ['.', 'y', 'm'] ++ ['l'] = last ++ ['"'] := by simpa using heq
  exact absurd (List.append_inj_right' hend rfl) (by decide)

/-- A path without blanks around it is read as it stands. -/
theorem readLine_slashed {rel : Path} (hnames : ∀ name ∈ rel, IsName name)
    (hblank : Text.strip (slashed rel) = slashed rel) (hne : slashed rel ≠ []) (cwd : Path) :
    readLine cwd (slashed rel) = some (cwd ++ rel) := by
  unfold readLine
  dsimp only
  rw [hblank, if_neg hne, resolveFrom_slashed hnames]

/-- From the top, git tells of every file whose text has changed, unless it is an ignored one that
is new. -/
theorem GitRepo.prints_of_changed {repo : GitRepo} {old : FileTree} {rel : Path}
    (hwork : (repo.work.read (repo.top ++ rel)).isSome)
    (hchanged : repo.work.read (repo.top ++ rel) ≠ old.read (repo.top ++ rel))
    (hseen : repo.tracked (repo.top ++ rel) = true ∨ repo.ignored (repo.top ++ rel) = false) :
    repo.Prints old repo.top rel := by
  cases htracked : repo.tracked (repo.top ++ rel) with
  | true =>
    left
    rw [differs, htracked, hwork]
    exact decide_eq_true hchanged
  | false =>
    right
    have hignored := hseen.resolve_left (by simp [htracked])
    rw [untracked, htracked, hignored, hwork]
    rfl

end ContentOps
