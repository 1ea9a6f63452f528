import ContentOps.Library.Dict
import Mathlib.Data.List.Induction

/-! A dictionary in which each item is registered under several keys. Under a key that several
items have, the last of them stands. -/

namespace PyData.KeyIndex
variable {κ α β : Type*} [DecidableEq κ]

def register (keys : β → List κ) (val : β → α) (d : Dict κ α) (b : β) : Dict κ α :=
  (keys b).foldl (fun d k => d.set k (val b)) d

def build (keys : β → List κ) (val : β → α) (items : List β) : Dict κ α :=
  items.foldl (register keys val) []

/-- The last item that has the key. -/
def last (keys : β → List κ) (items : List β) (k : κ) : Option β :=
  items.reverse.find? fun b => k ∈ keys b

theorem get?_foldl_set (ks : List κ) (d : Dict κ α) (v : α) (k : κ) :
    (ks.foldl (fun d k => d.set k v) d).get? k = if k ∈ ks then some v else d.get? k := by
  induction ks generalizing d with
  | nil => simp
  | cons k' ks ih =>
    rw [List.foldl_cons, ih, Dict.get?_set]
    by_cases hk : k ∈ ks
    · simp [hk]
    · by_cases hk' : k' = k
      · simp [hk']
      · simp [hk, hk', Ne.symm hk']

theorem get?_build (keys : β → List κ) (val : β → α) (items : List β) (k : κ) :
    (build keys val items).get? k = (last keys items k).map val := by
  unfold build last
  induction items using List.reverseRecOn with
  | nil => rfl
  | append_singleton items b ih =>
    rw [List.foldl_append, List.foldl_cons, List.foldl_nil, register, get?_foldl_set, ih,
      List.reverse_append, List.reverse_singleton, List.singleton_append, List.find?_cons]
    by_cases hk : k ∈ keys b <;> simp [hk]

variable {keys : β → List κ} {items : List β} {k : κ} {b : β}

theorem mem_of_last (h : last keys items k = some b) : b ∈ items :=
  List.mem_reverse.mp (List.mem_of_find?_eq_some h)

theorem key_mem_of_last (h : last keys items k = some b) : k ∈ keys b := by
  simpa using List.find?_some h

theorem last_isSome_of_mem (hb : b ∈ items) (hk : k ∈ keys b) :
    (last keys items k).isSome = true := by
  apply List.find?_isSome.mpr
  exact ⟨b, List.mem_reverse.mpr hb, decide_eq_true hk⟩

theorem last_eq_none_iff : last keys items k = none ↔ ∀ b ∈ items, k ∉ keys b := by
  simp [last, List.find?_eq_none]

theorem last_append (earlier later : List β) :
    last keys (earlier ++ later) k = (last keys later k).or (last keys earlier k) := by
  unfold last
  rw [List.reverse_append, List.find?_append]

theorem last_cons (b : β) (later : List β) :
    last keys (b :: later) k =
      (last keys later k).or (if k ∈ keys b then some b else none) := by
  have hsingle : last keys [b] k = if k ∈ keys b then some b else none := by
    unfold last
    rw [List.reverse_singleton, List.find?_singleton]
    simp only [decide_eq_true_eq]
  rw [← List.singleton_append, last_append, hsingle]

/-- No item after the last one has the key. -/
theorem exists_split_of_last (h : last keys items k = some b) :
    ∃ earlier later, items = earlier ++ b :: later ∧ ∀ c ∈ later, k ∉ keys c := by
  unfold last at h
  obtain ⟨-, later, earlier, hsplit, hlater⟩ := List.find?_eq_some_iff_append.mp h
  refine ⟨earlier.reverse, later.reverse, ?_, fun c hc => ?_⟩
  · have hreverse := congrArg List.reverse hsplit
    simpa using hreverse
  · simpa using hlater c (List.mem_reverse.mp hc)

/-- Among items in order, the last one is the greatest that has the key. -/
theorem last_eq_some_iff {γ : Type*} [LinearOrder γ] {rank : β → γ}
    (hsorted : items.Pairwise fun a b => rank a < rank b) :
    last keys items k = some b ↔
      b ∈ items ∧ k ∈ keys b ∧ ∀ c ∈ items, k ∈ keys c → rank c ≤ rank b := by
  have hgreatest : ∀ b, last keys items k = some b →
      ∀ c ∈ items, k ∈ keys c → rank c ≤ rank b := by
    intro b hlast c hc hkey
    obtain ⟨earlier, later, rfl, hlater⟩ := exists_split_of_last hlast
    rw [List.pairwise_append] at hsorted
    rw [List.mem_append, List.mem_cons] at hc
    rcases hc with hc | rfl | hc
    · exact (hsorted.2.2 c hc b List.mem_cons_self).le
    · exact le_rfl
    · exact absurd hkey (hlater c hc)
  constructor
  · intro hlast
    exact ⟨mem_of_last hlast, key_mem_of_last hlast, hgreatest b hlast⟩
  · rintro ⟨hb, hkey, hge⟩
    obtain ⟨b', hlast⟩ := Option.isSome_iff_exists.mp (last_isSome_of_mem hb hkey)
    have hrank : rank b = rank b' :=
      le_antisymm (hgreatest b' hlast b hb hkey)
        (hge b' (mem_of_last hlast) (key_mem_of_last hlast))
    have hranks : (items.map rank).Nodup := by
      rw [List.Nodup, List.pairwise_map]
      exact hsorted.imp fun h => ne_of_lt h
    rw [hlast, List.inj_on_of_nodup_map hranks hb (mem_of_last hlast) hrank]

end PyData.KeyIndex
