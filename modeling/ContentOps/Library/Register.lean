import Mathlib.Data.List.Nodup

/-! A value that many parties read and replace in any order. Its versions carry tags, none of which
is given twice, so that a replacement can be made to depend on the version it is meant for. -/

namespace PyData

/-- How tags are given: never one that was given before. -/
structure Tagging (T : Type*) where
  next : List T → T
  fresh : ∀ used, next used ∉ used

/-- The versions that there were, the latest first, and whether the latest is still there. -/
structure Register (T B : Type*) where
  versions : List (T × B)
  present : Bool
  distinct : (versions.map Prod.fst).Nodup

namespace Register
variable {T B : Type*}

def current (r : Register T B) : Option (T × B) := if r.present then r.versions.head? else none

/-- The versions that were replaced or removed. -/
def past (r : Register T B) : List (T × B) := if r.present then r.versions.tail else r.versions

def write (tags : Tagging T) (r : Register T B) (b : B) : Register T B where
  versions := (tags.next (r.versions.map Prod.fst), b) :: r.versions
  present := true
  distinct := List.nodup_cons.mpr ⟨tags.fresh _, r.distinct⟩

def remove (r : Register T B) : Register T B := { r with present := false }

/-- To replace the version with a tag, or whatever is there; `none` is a refusal. -/
def replaceIf [DecidableEq T] (tags : Tagging T) (guard : Option T) (r : Register T B) (b : B) :
    Option (Register T B) :=
  if guard.all fun t => r.current.any fun v => v.1 = t then some (r.write tags b) else none

section
variable {r : Register T B} {v w : T × B}

theorem mem_versions_of_current (h : r.current = some v) : v ∈ r.versions := by
  unfold current at h
  split_ifs at h
  exact List.mem_of_mem_head? h

theorem mem_versions_of_past (h : v ∈ r.past) : v ∈ r.versions := by
  unfold past at h
  split_ifs at h
  · exact List.mem_of_mem_tail h
  · exact h

/-- What is there was not replaced before. -/
theorem notMem_past_of_current (h : r.current = some v) : v ∉ r.past := by
  unfold current at h
  unfold past
  split_ifs at h ⊢
  have hdistinct := r.distinct
  cases hv : r.versions with
  | nil => simp [hv] at h
  | cons a rest =>
    rw [hv] at h hdistinct
    obtain rfl : a = v := by simpa using h
    rw [List.map_cons, List.nodup_cons] at hdistinct
    exact fun hmem => hdistinct.1 (List.mem_map_of_mem hmem)

/-- A tag tells its version. -/
theorem eq_of_tag (hv : v ∈ r.versions) (hw : w ∈ r.versions) (h : v.1 = w.1) : v = w :=
  List.inj_on_of_nodup_map r.distinct hv hw h

@[simp] theorem versions_remove (r : Register T B) : r.remove.versions = r.versions := rfl

@[simp] theorem past_remove (r : Register T B) : r.remove.past = r.versions := by simp [past, remove]

@[simp] theorem past_write (tags : Tagging T) (r : Register T B) (b : B) :
    (r.write tags b).past = r.versions := by
  simp [past, write]

theorem mem_versions_write (tags : Tagging T) (b : B) (h : v ∈ r.versions) :
    v ∈ (r.write tags b).versions :=
  List.mem_cons_of_mem _ h

variable [DecidableEq T] {tags : Tagging T} {guard : Option T} {b : B} {r' : Register T B}

theorem eq_write_of_replaceIf (h : r.replaceIf tags guard b = some r') : r' = r.write tags b := by
  unfold replaceIf at h
  split_ifs at h
  exact (Option.some.inj h).symm

/-- A guarded replacement replaces the version that was meant. -/
theorem current_of_replaceIf (h : r.replaceIf tags (some v.1) b = some r')
    (hv : v ∈ r.versions) : r.current = some v := by
  unfold replaceIf at h
  split_ifs at h with hguard
  rw [Option.all_some] at hguard
  cases hcurrent : r.current with
  | none => simp [hcurrent] at hguard
  | some w =>
    have htag : w.1 = v.1 := by simpa [hcurrent] using hguard
    rw [eq_of_tag (mem_versions_of_current hcurrent) hv htag]

end
end Register
end PyData
