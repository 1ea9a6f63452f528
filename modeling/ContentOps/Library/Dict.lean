import Mathlib.Data.List.Nodup
import Mathlib.Data.List.Sort
import Mathlib.Tactic.Common

/-! Insertion-ordered dictionaries, as association lists.
`get?` reads the first binding, `set` keeps the position of a key it already has. -/

namespace PyData

abbrev Dict (κ α : Type*) := List (κ × α)

namespace Dict
variable {κ α : Type*} [DecidableEq κ]

def get? : Dict κ α → κ → Option α
  | [], _ => none
  | (k', v) :: d, k => if k' = k then some v else get? d k

def keys (d : Dict κ α) : List κ := d.map Prod.fst

def contains (d : Dict κ α) (k : κ) : Bool := (d.get? k).isSome

def set : Dict κ α → κ → α → Dict κ α
  | [], k, v => [(k, v)]
  | (k', v') :: d, k, v => if k' = k then (k, v) :: d else (k', v') :: set d k v

/-- `{k: v for k, v in d.items() if k != key}`, which is also `d.pop(key, None)`. -/
def erase (d : Dict κ α) (k : κ) : Dict κ α := d.filter fun p => p.1 ≠ k

/-- `dict(pairs)`: a repeated key keeps its first place and its last value. -/
def ofPairs (ps : List (κ × α)) : Dict κ α := ps.foldl (fun d p => d.set p.1 p.2) []

/-- `{**a, **b}`. -/
def merge (a b : Dict κ α) : Dict κ α := b.foldl (fun d p => d.set p.1 p.2) a

/-- `{k: f(v) for k, v in d.items()}`. -/
def mapVals {β : Type*} (f : α → β) (d : Dict κ α) : Dict κ β := d.map fun p => (p.1, f p.2)

/-- `dict(sorted(d.items()))`. -/
def sortByKey [LinearOrder κ] (d : Dict κ α) : Dict κ α := d.insertionSort fun p q => p.1 ≤ q.1

/-- Equality of dictionaries as mappings, whatever the order of the keys. -/
def SameMap (a b : Dict κ α) : Prop := ∀ k, a.get? k = b.get? k

@[simp] theorem get?_nil (k : κ) : get? ([] : Dict κ α) k = none := rfl

theorem get?_cons (k' : κ) (v : α) (d : Dict κ α) (k : κ) :
    get? ((k', v) :: d) k = if k' = k then some v else get? d k := rfl

@[simp] theorem get?_cons_self (k : κ) (v : α) (d : Dict κ α) :
    get? ((k, v) :: d) k = some v := by
  simp [get?]

@[simp] theorem get?_cons_ne {k' k : κ} (h : k' ≠ k) (v : α) (d : Dict κ α) :
    get? ((k', v) :: d) k = get? d k := by
  simp [get?, h]

theorem get?_append (a b : Dict κ α) (k : κ) :
    get? (a ++ b) k = (get? a k).or (get? b k) := by
  induction a with
  | nil => rfl
  | cons p a ih =>
    obtain ⟨k', v⟩ := p
    simp only [List.cons_append, get?_cons]
    split_ifs
    · rfl
    · exact ih

theorem get?_eq_none_iff {d : Dict κ α} {k : κ} : d.get? k = none ↔ k ∉ d.keys := by
  induction d with
  | nil => simp [keys]
  | cons p d ih =>
    obtain ⟨k', v⟩ := p
    simp only [get?_cons, keys, List.map_cons, List.mem_cons, not_or]
    split_ifs with h
    · simp [h]
    · simp only [keys] at ih
      simp [ih, Ne.symm h]

theorem get?_filter_of_pos {d : Dict κ α} {f : κ × α → Bool} {k : κ} {v : α}
    (h : d.get? k = some v) (hf : f (k, v) = true) : get? (d.filter f) k = some v := by
  induction d with
  | nil => exact absurd h (by simp)
  | cons p d ih =>
    obtain ⟨k', v'⟩ := p
    rw [get?_cons] at h
    split_ifs at h with hk
    · obtain rfl := Option.some.inj h
      subst hk
      rw [List.filter_cons_of_pos hf, get?_cons_self]
    · rw [List.filter_cons]
      split_ifs
      · rw [get?_cons_ne hk]
        exact ih h
      · exact ih h

theorem mem_of_get? {d : Dict κ α} {k : κ} {v : α} (h : d.get? k = some v) : (k, v) ∈ d := by
  induction d with
  | nil => simp at h
  | cons p d ih =>
    obtain ⟨k', v'⟩ := p
    rw [get?_cons] at h
    split_ifs at h with hk
    · subst hk
      simp_all
    · exact List.mem_cons_of_mem _ (ih h)

theorem get?_of_mem {d : Dict κ α} (hd : d.keys.Nodup) {k : κ} {v : α} (h : (k, v) ∈ d) :
    d.get? k = some v := by
  induction d with
  | nil => simp at h
  | cons p d ih =>
    obtain ⟨k', v'⟩ := p
    rw [keys, List.map_cons, List.nodup_cons] at hd
    rcases List.mem_cons.mp h with h | h
    · simp only [Prod.mk.injEq] at h
      simp [h]
    · have hne : k' ≠ k := by
        rintro rfl
        exact hd.1 (List.mem_map.mpr ⟨(k', v), h, rfl⟩)
      rw [get?_cons_ne hne]
      exact ih hd.2 h

theorem get?_set (d : Dict κ α) (k : κ) (v : α) (k₁ : κ) :
    (d.set k v).get? k₁ = if k = k₁ then some v else d.get? k₁ := by
  induction d with
  | nil => simp [set, get?_cons]
  | cons p d ih =>
    obtain ⟨k', v'⟩ := p
    rw [set]
    split_ifs with h h₁ h₁
    · simp [h₁]
    · simp [h, h₁]
    · subst h₁
      simp [h, ih]
    · simp [get?_cons, ih, h₁]

@[simp] theorem get?_set_self (d : Dict κ α) (k : κ) (v : α) :
    (d.set k v).get? k = some v := by
  simp [get?_set]

/-- Setting a key to the value it has changes nothing. -/
theorem set_eq_self {d : Dict κ α} {k : κ} {v : α} (h : d.get? k = some v) : d.set k v = d := by
  induction d with
  | nil => simp at h
  | cons p d ih =>
    obtain ⟨k', v'⟩ := p
    rw [get?_cons] at h
    rw [set]
    split_ifs at h ⊢ with hk
    · rw [hk, Option.some.inj h]
    · rw [ih h]

/-- Of two values set for one key the second one stays. -/
theorem set_set (d : Dict κ α) (k : κ) (v w : α) : (d.set k v).set k w = d.set k w := by
  induction d with
  | nil => simp [set]
  | cons p d ih =>
    obtain ⟨k', u⟩ := p
    by_cases hk : k' = k
    · simp [set, hk]
    · simp only [set, if_neg hk, ih]

theorem set_of_notMem {d : Dict κ α} {k : κ} (h : k ∉ d.keys) (v : α) :
    d.set k v = d ++ [(k, v)] := by
  induction d with
  | nil => rfl
  | cons p d ih =>
    obtain ⟨k', v'⟩ := p
    simp only [keys, List.map_cons, List.mem_cons, not_or] at h
    rw [set, if_neg (Ne.symm h.1), ih h.2, List.cons_append]

theorem get?_erase (d : Dict κ α) (k k₁ : κ) :
    (d.erase k).get? k₁ = if k = k₁ then none else d.get? k₁ := by
  induction d with
  | nil => simp [erase]
  | cons p d ih =>
    obtain ⟨k', v'⟩ := p
    simp only [erase] at ih
    by_cases h : k' = k
    · subst h
      simp only [erase, List.filter_cons, ne_eq, not_true_eq_false, decide_false,
        Bool.false_eq_true, if_false, ih]
      split_ifs with h₁
      · rfl
      · rw [get?_cons_ne h₁]
    · simp only [erase, List.filter_cons, ne_eq, h, not_false_eq_true, decide_true, if_true,
        get?_cons, ih]
      split_ifs with h₁ h₂ h₂
      · exact absurd (h₁.trans h₂.symm) h
      all_goals rfl

theorem erase_of_notMem {d : Dict κ α} {k : κ} (h : k ∉ d.keys) : d.erase k = d := by
  apply List.filter_eq_self.mpr
  intro p hp
  have hne : p.1 ≠ k := fun e => h (e ▸ List.mem_map_of_mem (f := Prod.fst) hp)
  simp [hne]

omit [DecidableEq κ] in
@[simp] theorem keys_append (a b : Dict κ α) : (a ++ b).keys = a.keys ++ b.keys := List.map_append

/-- An entry that is taken out and put at the end. -/
theorem erase_append_perm {d : Dict κ α} (hd : d.keys.Nodup) {k : κ} {v : α} (h : d.get? k = some v) :
    (d.erase k ++ [(k, v)]).Perm d := by
  induction d with
  | nil => exact absurd h (by simp)
  | cons p d ih =>
    obtain ⟨k', w⟩ := p
    obtain ⟨hk', hd⟩ := List.nodup_cons.mp hd
    rw [get?_cons] at h
    split_ifs at h with hkey
    · obtain rfl := Option.some.inj h
      subst hkey
      have herase : erase ((k', w) :: d) k' = d := by
        rw [erase, List.filter_cons_of_neg (by simp)]
        exact erase_of_notMem hk'
      rw [herase]
      exact List.perm_append_singleton _ _
    · have herase : erase ((k', w) :: d) k = (k', w) :: erase d k := by
        rw [erase, List.filter_cons_of_pos (by simpa using hkey)]
        rfl
      rw [herase, List.cons_append]
      exact (ih hd h).cons _

theorem foldl_set_of_nodup (ps : List (κ × α)) (d : Dict κ α) (h : keys (d ++ ps) |>.Nodup) :
    ps.foldl (fun d p => d.set p.1 p.2) d = d ++ ps := by
  induction ps generalizing d with
  | nil => simp
  | cons p ps ih =>
    have hp : p.1 ∉ d.keys := by
      rw [keys_append, List.nodup_append] at h
      intro hmem
      exact h.2.2 p.1 hmem p.1 (by simp [keys]) rfl
    have hstep : d.set p.1 p.2 = d ++ [p] := set_of_notMem hp p.2
    rw [List.foldl_cons, hstep, ih _ (by simpa using h), List.append_assoc, List.singleton_append]

/-- Pairs with distinct keys are already the dictionary they build. -/
theorem ofPairs_of_nodup {ps : Dict κ α} (h : ps.keys.Nodup) : ofPairs ps = ps :=
  (foldl_set_of_nodup ps [] h).trans (List.nil_append ps)

theorem keys_set (d : Dict κ α) (k : κ) (v : α) :
    (d.set k v).keys = if k ∈ d.keys then d.keys else d.keys ++ [k] := by
  induction d with
  | nil => simp [set, keys]
  | cons p d ih =>
    obtain ⟨k', v'⟩ := p
    rw [set]
    by_cases h : k' = k
    · simp [h, keys]
    · have hk : ¬ k = k' := Ne.symm h
      simp only [keys] at ih
      simp only [h, if_false, keys, List.map_cons, List.mem_cons, hk, false_or, ih]
      split_ifs with hm <;> simp [hm]

theorem nodup_keys_set {d : Dict κ α} (h : d.keys.Nodup) (k : κ) (v : α) :
    (d.set k v).keys.Nodup := by
  rw [keys_set]
  split_ifs with hk
  · exact h
  · exact List.nodup_append.mpr ⟨h, by simp, by
      intro a ha b hb
      simp only [List.mem_singleton] at hb
      rintro rfl
      exact hk (hb ▸ ha)⟩

theorem nodup_keys_ofPairs (ps : List (κ × α)) : (ofPairs ps).keys.Nodup := by
  have key : ∀ d : Dict κ α, d.keys.Nodup →
      (ps.foldl (fun d p => d.set p.1 p.2) d).keys.Nodup := by
    induction ps with
    | nil => exact fun d hd => hd
    | cons p ps ih => exact fun d hd => ih _ (nodup_keys_set hd p.1 p.2)
  exact key [] (by simp [keys])

theorem mem_set {d : Dict κ α} {k : κ} {v : α} {p : κ × α} (h : p ∈ d.set k v) :
    p = (k, v) ∨ p ∈ d := by
  induction d with
  | nil => exact .inl (List.mem_singleton.mp h)
  | cons q d ih =>
    obtain ⟨k', v'⟩ := q
    rw [set] at h
    split_ifs at h with hk
    · exact (List.mem_cons.mp h).imp_right (List.mem_cons_of_mem _)
    · rcases List.mem_cons.mp h with rfl | h
      · exact .inr (List.mem_cons_self ..)
      · exact (ih h).imp_right (List.mem_cons_of_mem _)

theorem mem_ofPairs {ps : List (κ × α)} {p : κ × α} (h : p ∈ ofPairs ps) : p ∈ ps := by
  have key : ∀ d : Dict κ α, p ∈ ps.foldl (fun d p => d.set p.1 p.2) d → p ∈ d ∨ p ∈ ps := by
    clear h
    induction ps with
    | nil => exact fun d hd => .inl hd
    | cons q ps ih =>
      intro d hd
      rcases ih _ hd with h | h
      · rcases mem_set h with rfl | h
        · exact .inr (List.mem_cons_self ..)
        · exact .inl h
      · exact .inr (List.mem_cons_of_mem _ h)
  exact (key [] h).resolve_left (by simp)

theorem mem_keys_ofPairs {ps : List (κ × α)} {k : κ} : k ∈ (ofPairs ps).keys ↔ k ∈ keys ps := by
  have key : ∀ d : Dict κ α,
      k ∈ (ps.foldl (fun d p => d.set p.1 p.2) d).keys ↔ k ∈ d.keys ∨ k ∈ keys ps := by
    induction ps with
    | nil => simp [keys]
    | cons p ps ih =>
      intro d
      have hset : k ∈ (d.set p.1 p.2).keys ↔ k ∈ d.keys ∨ k = p.1 := by
        rw [keys_set]
        split
        · next hmem => exact ⟨.inl, fun h => h.elim id fun he => he ▸ hmem⟩
        · rw [List.mem_append, List.mem_singleton]
      rw [List.foldl_cons, ih, hset, or_assoc]
      simp [keys]
  exact (key []).trans (by simp [keys])

theorem nodup_keys_erase {d : Dict κ α} (h : d.keys.Nodup) (k : κ) : (d.erase k).keys.Nodup :=
  List.Sublist.nodup (List.Sublist.map _ List.filter_sublist) h

theorem get?_filter_eq_none {d : Dict κ α} {f : κ × α → Bool} {k : κ} (h : d.get? k = none) :
    get? (d.filter f) k = none := by
  rw [get?_eq_none_iff] at h ⊢
  exact fun hk => h (List.Sublist.subset (List.Sublist.map _ List.filter_sublist) hk)

theorem mem_keys_of_get? {d : Dict κ α} {k : κ} {v : α} (h : d.get? k = some v) :
    k ∈ d.keys :=
  List.mem_map_of_mem (f := Prod.fst) (mem_of_get? h)

theorem get?_of_perm {a b : Dict κ α} (h : a.Perm b) (ha : a.keys.Nodup) (k : κ) :
    a.get? k = b.get? k := by
  have hb : b.keys.Nodup := (h.map Prod.fst).nodup_iff.mp ha
  cases hget : a.get? k with
  | some v => exact (get?_of_mem hb (h.mem_iff.mp (mem_of_get? hget))).symm
  | none =>
    rw [get?_eq_none_iff] at hget
    exact (get?_eq_none_iff.mpr fun hk => hget ((h.map Prod.fst).mem_iff.mpr hk)).symm

theorem perm_of_sameMap {a b : Dict κ α} (ha : a.keys.Nodup) (hb : b.keys.Nodup)
    (h : SameMap a b) : a.Perm b := by
  have hnodup : ∀ {d : Dict κ α}, d.keys.Nodup → d.Nodup := fun hd => List.Nodup.of_map _ hd
  refine (List.perm_ext_iff_of_nodup (hnodup ha) (hnodup hb)).mpr ?_
  rintro ⟨k, v⟩
  constructor
  · intro hv
    have hget := get?_of_mem ha hv
    exact mem_of_get? ((h k).symm.trans hget)
  · intro hv
    have hget := get?_of_mem hb hv
    exact mem_of_get? ((h k).trans hget)

/-! ## The values of a dictionary -/

section
variable {β : Type*}

omit [DecidableEq κ] in
@[simp] theorem keys_mapVals (f : α → β) (d : Dict κ α) : (d.mapVals f).keys = d.keys := by
  simp [keys, mapVals, Function.comp_def]

theorem get?_mapVals (f : α → β) (d : Dict κ α) (k : κ) :
    (d.mapVals f).get? k = (d.get? k).map f := by
  induction d with
  | nil => rfl
  | cons p d ih =>
    obtain ⟨k', v⟩ := p
    simp only [mapVals, List.map_cons, get?_cons] at ih ⊢
    split_ifs
    · rfl
    · exact ih

omit [DecidableEq κ] in
theorem mapVals_mapVals {γ : Type*} (f : α → β) (g : β → γ) (d : Dict κ α) :
    (d.mapVals f).mapVals g = d.mapVals (g ∘ f) := by
  simp [mapVals, Function.comp_def]

omit [DecidableEq κ] in
@[simp] theorem mapVals_id (d : Dict κ α) : d.mapVals id = d := by
  simp [mapVals]

omit [DecidableEq κ] in
/-- Every value is read back, and so is the dictionary. -/
theorem mapM_mapVals {γ : Type*} {f : α → β} {g : β → Option γ} {h : α → γ} {d : Dict κ α}
    (hd : ∀ p ∈ d, g (f p.2) = some (h p.2)) :
    (d.mapVals f).mapM (fun p => (g p.2).map (p.1, ·)) = some (d.mapVals h) := by
  induction d with
  | nil => rfl
  | cons p d ih =>
    have hp := hd p List.mem_cons_self
    have htail := ih fun q hq => hd q (List.mem_cons_of_mem _ hq)
    simp only [mapVals, List.map_cons, List.mapM_cons] at htail ⊢
    rw [hp, htail]
    rfl

end

/-! ## Sorted keys -/

section
variable [LinearOrder κ]

omit [DecidableEq κ] in
theorem sortByKey_perm (d : Dict κ α) : d.sortByKey.Perm d := List.perm_insertionSort _ d

omit [DecidableEq κ] in
theorem nodup_keys_sortByKey {d : Dict κ α} (h : d.keys.Nodup) : d.sortByKey.keys.Nodup :=
  (d.sortByKey_perm.map Prod.fst).nodup_iff.mpr h

omit [DecidableEq κ] in
/-- In the order of their keys, dictionaries with the same entries are the same. -/
theorem sortByKey_eq_of_perm {a b : Dict κ α} (h : a.Perm b) (ha : a.keys.Nodup) :
    a.sortByKey = b.sortByKey := by
  have hperm : a.sortByKey.Perm b.sortByKey := (sortByKey_perm a).trans (h.trans (sortByKey_perm b).symm)
  have hsorted : ∀ d : Dict κ α, d.sortByKey.Pairwise fun p q => p.1 ≤ q.1 :=
    fun d => List.pairwise_insertionSort _ d
  refine hperm.eq_of_pairwise ?_ (hsorted a) (hsorted b)
  intro p q hp hq hpq hqp
  have hq' := hperm.mem_iff.mpr hq
  have hkey : p.1 = q.1 := le_antisymm hpq hqp
  exact List.inj_on_of_nodup_map (nodup_keys_sortByKey ha) hp hq' hkey

theorem get?_sortByKey {d : Dict κ α} (h : d.keys.Nodup) (k : κ) :
    d.sortByKey.get? k = d.get? k :=
  get?_of_perm d.sortByKey_perm (nodup_keys_sortByKey h) k

omit [DecidableEq κ] in
theorem sortByKey_mapVals {β : Type*} (f : α → β) (d : Dict κ α) :
    (d.mapVals f).sortByKey = d.sortByKey.mapVals f :=
  (List.map_insertionSort (r := fun p q : κ × α => p.1 ≤ q.1) (s := fun p q : κ × β => p.1 ≤ q.1)
    _ d fun _ _ _ _ => Iff.rfl).symm

end

/-- A mapping is known from one of its entries and the rest. -/
theorem sameMap_of_erase {a b : Dict κ α} {k : κ} (hk : a.get? k = b.get? k)
    (h : a.erase k = b.erase k) : SameMap a b := by
  intro k₁
  by_cases hk₁ : k = k₁
  · exact hk₁ ▸ hk
  · have h' := congrArg (fun d => get? d k₁) h
    simpa only [get?_erase, if_neg hk₁] using h'

end Dict
end PyData
