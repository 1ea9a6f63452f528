import ContentOps.Library.Dict
import Mathlib.Order.Defs.LinearOrder

/-! A directory of named files. Its entries are kept in the order of their names, so a listing is
what `sorted(directory.glob(...))` returns. -/

namespace PyData

structure Directory (κ α : Type*) [LinearOrder κ] where
  entries : Dict κ α
  sorted : entries.Pairwise fun a b => a.1 < b.1

namespace Directory
variable {κ α : Type*} [LinearOrder κ]

def empty : Directory κ α := ⟨[], List.Pairwise.nil⟩

def read (d : Directory κ α) (name : κ) : Option α := d.entries.get? name

def below (d : Directory κ α) (name : κ) : Dict κ α := d.entries.filter fun p => p.1 < name
def above (d : Directory κ α) (name : κ) : Dict κ α := d.entries.filter fun p => name < p.1

def write (d : Directory κ α) (name : κ) (content : α) : Directory κ α where
  entries := d.below name ++ (name, content) :: d.above name
  sorted := by
    have habove : ∀ p ∈ d.above name, name < p.1 := fun p hp => by
      simpa only [decide_eq_true_eq] using (List.mem_filter.mp hp).2
    have hbelow : ∀ p ∈ d.below name, p.1 < name := fun p hp => by
      simpa only [decide_eq_true_eq] using (List.mem_filter.mp hp).2
    rw [List.pairwise_append, List.pairwise_cons]
    refine ⟨d.sorted.filter _, ⟨habove, d.sorted.filter _⟩, fun p hp q hq => ?_⟩
    rcases List.mem_cons.mp hq with rfl | hq
    · exact hbelow p hp
    · exact (hbelow p hp).trans (habove q hq)

def remove (d : Directory κ α) (name : κ) : Directory κ α where
  entries := d.entries.erase name
  sorted := d.sorted.filter _

/-- Every file with new content. -/
def mapContents (d : Directory κ α) (f : κ → α → α) : Directory κ α where
  entries := d.entries.map fun p => (p.1, f p.1 p.2)
  sorted := by
    rw [List.pairwise_map]
    exact d.sorted

/-- `sorted(d.glob(pattern))`, with the contents. -/
def glob (d : Directory κ α) (pattern : κ → Bool) : Dict κ α :=
  d.entries.filter fun p => pattern p.1

theorem nodup_keys (d : Directory κ α) : d.entries.keys.Nodup := by
  rw [Dict.keys, List.Nodup, List.pairwise_map]
  exact d.sorted.imp fun h => ne_of_lt h

@[simp] theorem read_empty (name : κ) : (empty : Directory κ α).read name = none := rfl

@[simp] theorem glob_empty (pattern : κ → Bool) : (empty : Directory κ α).glob pattern = [] := rfl

theorem mem_of_read {d : Directory κ α} {name : κ} {content : α}
    (h : d.read name = some content) : (name, content) ∈ d.entries := Dict.mem_of_get? h

theorem read_of_mem {d : Directory κ α} {name : κ} {content : α}
    (h : (name, content) ∈ d.entries) : d.read name = some content :=
  Dict.get?_of_mem d.nodup_keys h

theorem read_write (d : Directory κ α) (name : κ) (content : α) (name' : κ) :
    (d.write name content).read name' = if name = name' then some content else d.read name' := by
  split_ifs with h
  · subst h
    exact read_of_mem (by simp [write])
  · cases hd : d.read name' with
    | some c =>
      have hmem := mem_of_read hd
      refine read_of_mem ?_
      rcases lt_or_gt_of_ne (Ne.symm h) with hlt | hlt
      · exact List.mem_append_left _ (List.mem_filter.mpr ⟨hmem, decide_eq_true hlt⟩)
      · exact List.mem_append_right _
          (List.mem_cons_of_mem _ (List.mem_filter.mpr ⟨hmem, decide_eq_true hlt⟩))
    | none =>
      rw [read, Dict.get?_eq_none_iff] at hd ⊢
      intro hmem
      obtain ⟨p, hp, rfl⟩ := List.mem_map.mp hmem
      simp only [write, List.mem_append, List.mem_cons, below, above, List.mem_filter] at hp
      rcases hp with hp | rfl | hp
      · exact hd (List.mem_map_of_mem hp.1)
      · exact h rfl
      · exact hd (List.mem_map_of_mem hp.1)

@[simp] theorem read_write_self (d : Directory κ α) (name : κ) (content : α) :
    (d.write name content).read name = some content := by
  rw [read_write, if_pos rfl]

/-- Several files, one after the other. -/
def writeAll (d : Directory κ α) (files : Dict κ α) : Directory κ α :=
  files.foldl (fun d file => d.write file.1 file.2) d

@[simp] theorem writeAll_nil (d : Directory κ α) : d.writeAll [] = d := rfl

theorem writeAll_append (d : Directory κ α) (files files' : Dict κ α) :
    d.writeAll (files ++ files') = (d.writeAll files).writeAll files' := List.foldl_append

theorem read_writeAll {files : Dict κ α} (h : files.keys.Nodup) (d : Directory κ α) (name : κ) :
    (d.writeAll files).read name = (files.get? name).or (d.read name) := by
  induction files generalizing d with
  | nil => rfl
  | cons file files ih =>
    obtain ⟨name', content⟩ := file
    obtain ⟨hnot, h⟩ := List.nodup_cons.mp h
    have hcons : d.writeAll ((name', content) :: files) = (d.write name' content).writeAll files := rfl
    rw [hcons, ih h, read_write, Dict.get?_cons]
    split_ifs with hname
    · rw [← hname, Dict.get?_eq_none_iff.mpr hnot]
      rfl
    · rfl

theorem read_writeAll_of_mem {files : Dict κ α} (h : files.keys.Nodup) (d : Directory κ α)
    {file : κ × α} (hmem : file ∈ files) : (d.writeAll files).read file.1 = some file.2 := by
  rw [read_writeAll h, Dict.get?_of_mem h hmem]
  rfl

theorem read_writeAll_of_notMem {files : Dict κ α} (h : files.keys.Nodup) (d : Directory κ α)
    {name : κ} (hnot : name ∉ files.keys) : (d.writeAll files).read name = d.read name := by
  rw [read_writeAll h, Dict.get?_eq_none_iff.mpr hnot]
  rfl

theorem read_remove (d : Directory κ α) (name name' : κ) :
    (d.remove name).read name' = if name = name' then none else d.read name' :=
  Dict.get?_erase d.entries name name'

@[simp] theorem read_remove_self (d : Directory κ α) (name : κ) :
    (d.remove name).read name = none := by
  rw [read_remove, if_pos rfl]

/-- A file the pattern does not match is invisible to a listing, written or removed. -/
theorem glob_remove_of_not {pattern : κ → Bool} {name : κ} (h : pattern name = false)
    (d : Directory κ α) : (d.remove name).glob pattern = d.glob pattern := by
  simp only [glob, remove, Dict.erase, List.filter_filter]
  refine List.filter_congr fun p _ => ?_
  by_cases hp : p.1 = name
  · simp [hp, h]
  · simp [hp]

theorem below_append_above (d : Directory κ α) (name : κ) :
    d.below name ++ d.above name = d.entries.erase name := by
  obtain ⟨l, hl⟩ := d
  simp only [below, above, Dict.erase]
  induction l with
  | nil => rfl
  | cons p l ih =>
    rw [List.pairwise_cons] at hl
    have hrest := ih hl.2
    rcases lt_trichotomy p.1 name with h | h | h
    · simp only [List.filter_cons, decide_eq_true h, decide_eq_false h.not_gt, h.ne, ne_eq,
        not_false_eq_true, decide_true, if_true, Bool.false_eq_true, if_false, List.cons_append,
        hrest]
    · simpa only [List.filter_cons, h, lt_irrefl, ne_eq, not_true_eq_false, decide_false,
        Bool.false_eq_true, if_false] using hrest
    · have hnone : l.filter (fun q => decide (q.1 < name)) = [] := by
        rw [List.filter_eq_nil_iff]
        intro q hq
        simpa only [decide_eq_true_eq, not_lt] using (h.trans (hl.1 q hq)).le
      rw [hnone, List.nil_append] at hrest
      simp only [List.filter_cons, decide_eq_true h, decide_eq_false h.not_gt, h.ne', ne_eq,
        not_false_eq_true, decide_true, if_true, Bool.false_eq_true, if_false, hnone,
        List.nil_append, hrest]

theorem glob_write_of_not {pattern : κ → Bool} {name : κ} (h : pattern name = false)
    (d : Directory κ α) (content : α) : (d.write name content).glob pattern = d.glob pattern := by
  rw [← glob_remove_of_not h d]
  simp [glob, write, remove, ← below_append_above, h]

/-- A file whose name comes after every listed one is listed last. -/
theorem glob_write_last {pattern : κ → Bool} {name : κ} (h : pattern name = true)
    {d : Directory κ α} (hle : ∀ p ∈ d.glob pattern, p.1 ≤ name) (content : α) :
    (d.write name content).glob pattern =
      (d.glob pattern).filter (fun p => p.1 < name) ++ [(name, content)] := by
  have hbelow : (d.below name).filter (fun p => pattern p.1) =
      (d.glob pattern).filter (fun p => p.1 < name) := by
    rw [glob, below, List.filter_filter, List.filter_filter]
    exact List.filter_congr fun p _ => Bool.and_comm _ _
  have habove : (d.above name).filter (fun p => pattern p.1) = [] := by
    rw [List.filter_eq_nil_iff]
    intro p hp hmatch
    have hp := List.mem_filter.mp hp
    exact absurd (hle p (List.mem_filter.mpr ⟨hp.1, hmatch⟩)) (not_le.mpr (of_decide_eq_true hp.2))
  simp [glob, write, h, hbelow, habove]

theorem read_mapContents (d : Directory κ α) (f : κ → α → α) (name : κ) :
    (d.mapContents f).read name = (d.read name).map (f name) := by
  cases hd : d.read name with
  | some content => exact read_of_mem (List.mem_map_of_mem (mem_of_read hd))
  | none =>
    rw [read, Dict.get?_eq_none_iff] at hd
    rw [Option.map_none, read, Dict.get?_eq_none_iff]
    intro hmem
    apply hd
    simpa [mapContents, Dict.keys] using hmem

theorem mem_glob {d : Directory κ α} {pattern : κ → Bool} {p : κ × α} :
    p ∈ d.glob pattern ↔ d.read p.1 = some p.2 ∧ pattern p.1 = true := by
  rw [glob, List.mem_filter]
  exact and_congr_left fun _ => ⟨read_of_mem, mem_of_read⟩

theorem mem_entries_iff {d : Directory κ α} {p : κ × α} :
    p ∈ d.entries ↔ d.read p.1 = some p.2 := ⟨read_of_mem, mem_of_read⟩

/-- A directory is what its files hold. -/
theorem ext_read {d e : Directory κ α} (h : ∀ name, d.read name = e.read name) : d = e := by
  have hperm : d.entries.Perm e.entries := by
    refine (List.perm_ext_iff_of_nodup ?_ ?_).mpr fun p => ?_
    · exact List.Nodup.of_map _ d.nodup_keys
    · exact List.Nodup.of_map _ e.nodup_keys
    · rw [mem_entries_iff, mem_entries_iff, h]
  have heq : d.entries = e.entries :=
    hperm.eq_of_pairwise (fun a b _ _ hab hba => absurd hab hba.not_gt) d.sorted e.sorted
  cases d
  cases e
  congr

/-- What a pattern finds depends on the files it matches only. -/
theorem glob_congr {d e : Directory κ α} {pattern : κ → Bool}
    (h : ∀ name, pattern name = true → d.read name = e.read name) :
    d.glob pattern = e.glob pattern := by
  have hmem : ∀ p, p ∈ d.glob pattern ↔ p ∈ e.glob pattern := by
    intro p
    rw [mem_glob, mem_glob]
    exact and_congr_left fun hp => by rw [h p.1 hp]
  have hnodup : ∀ d : Directory κ α, (d.glob pattern).Nodup := fun d =>
    List.Nodup.of_map _ (d.nodup_keys.sublist (List.filter_sublist.map _))
  refine ((List.perm_ext_iff_of_nodup (hnodup d) (hnodup e)).mpr hmem).eq_of_pairwise
    (fun a b _ _ hab hba => absurd hab hba.not_gt) (d.sorted.filter _) (e.sorted.filter _)

theorem write_of_read {d : Directory κ α} {name : κ} {content : α}
    (h : d.read name = some content) : d.write name content = d := by
  refine ext_read fun name' => ?_
  rw [read_write]
  split_ifs with hn
  · rw [← hn, h]
  · rfl

/-- What stands at or before `name`: the files before it, and the file itself if there is one. -/
theorem glob_eq_append {pattern : κ → Bool} {name : κ} (h : pattern name = true)
    {d : Directory κ α} (hle : ∀ p ∈ d.glob pattern, p.1 ≤ name) :
    d.glob pattern = (d.glob pattern).filter (fun p => p.1 < name) ++
      (d.read name).toList.map (name, ·) := by
  cases hr : d.read name with
  | some content =>
    have hlast := glob_write_last h hle content
    rwa [write_of_read hr] at hlast
  | none =>
    rw [Option.toList_none, List.map_nil, List.append_nil, eq_comm, List.filter_eq_self]
    intro p hp
    refine decide_eq_true (lt_of_le_of_ne (hle p hp) ?_)
    rintro rfl
    exact absurd ((mem_glob.mp hp).1.symm.trans hr) (by simp)

end Directory
end PyData
