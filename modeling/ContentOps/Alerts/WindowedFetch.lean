import Mathlib.Data.List.Basic
import Mathlib.Data.List.Perm.Subperm
import Mathlib.Data.List.Nodup
import Mathlib.Data.List.Pairwise
import Mathlib.Order.Basic
import Mathlib.Tactic.Common

/-! The windowed fetch of Graph alerts, `alerts/provider.py`. Points in time are microseconds; a
window is queried through filter texts that have whole seconds only. -/

namespace ContentOps.Alerts

structure GraphAlert where
  id : Option String
  /-- `createdDateTime`, in seconds. -/
  created : Int
deriving DecidableEq, Repr

structure Slice where
  since : Int
  until_ : Int
deriving DecidableEq, Repr

namespace Slice

def second : Int := 1000000

def width (w : Slice) : Int := w.until_ - w.since

/-- What the `$filter` of a slice selects: `strftime('%Y-%m-%dT%H:%M:%SZ')` drops the microseconds. -/
def selects (w : Slice) (a : GraphAlert) : Bool :=
  w.since / second ≤ a.created && a.created < w.until_ / second

/-- The alert was created in the slice. -/
def Contains (w : Slice) (a : GraphAlert) : Prop :=
  w.since ≤ a.created * second ∧ a.created * second < w.until_

instance (w : Slice) (a : GraphAlert) : Decidable (w.Contains a) :=
  inferInstanceAs (Decidable (_ ∧ _))

/-- `timedelta / 2`, rounded half to even. -/
def half (d : Int) : Int :=
  if d % 2 = 0 then d / 2 else if d / 2 % 2 = 0 then d / 2 else d / 2 + 1

def mid (w : Slice) : Int := w.since + half w.width

def left (w : Slice) : Slice := ⟨w.since, w.mid⟩
def right (w : Slice) : Slice := ⟨w.mid, w.until_⟩

end Slice

structure Fetched where
  collected : List GraphAlert := []
  seen : List String := []
  /-- The slices that the log warns of. -/
  truncated : List Slice := []
deriving DecidableEq, Repr

/-- One round of the loop over a page. -/
def collect (st : Fetched) (a : GraphAlert) : Fetched :=
  match a.id with
  | none => { st with collected := st.collected ++ [a] }
  | some id =>
    if id ∈ st.seen then st
    else { st with collected := st.collected ++ [a], seen := st.seen ++ [id] }

/-- What is done with the page of a slice that is not halved. -/
def record (pageSize : Nat) (st : Fetched) (w : Slice) (page : List GraphAlert) : Fetched :=
  page.foldl collect
    (if pageSize ≤ page.length then { st with truncated := st.truncated ++ [w] } else st)

/-- The loop of `list_graph_alerts_windowed`; `none` is out of fuel. -/
def drain (fetch : Slice → List GraphAlert) (pageSize : Nat) (floor : Int) :
    Nat → List Slice → Fetched → Option Fetched
  | _, [], st => some st
  | 0, _ :: _, _ => none
  | fuel + 1, w :: stack, st =>
    if pageSize ≤ (fetch w).length ∧ floor < w.width then
      drain fetch pageSize floor fuel (w.right :: w.left :: stack) st
    else drain fetch pageSize floor fuel stack (record pageSize st w (fetch w))

/-- `list_graph_alerts_windowed`. -/
def listGraphAlertsWindowed (fetch : Slice → List GraphAlert) (since until_ : Int) (pageSize : Nat)
    (floor : Int) (fuel : Nat) : Option Fetched :=
  drain fetch pageSize floor fuel [⟨since, until_⟩] {}

/-- More fuel changes nothing. -/
theorem drain_mono {fetch : Slice → List GraphAlert} {pageSize : Nat} {floor : Int} {fuel : Nat}
    {stack : List Slice} {st result : Fetched} (h : drain fetch pageSize floor fuel stack st = some result)
    (k : Nat) : drain fetch pageSize floor (fuel + k) stack st = some result := by
  induction fuel generalizing stack st with
  | zero =>
    cases stack with
    | nil =>
      rw [drain] at h
      rw [drain, h]
    | cons w stack =>
      rw [drain] at h
      exact absurd h (by simp)
  | succ fuel ih =>
    have hfuel : fuel + 1 + k = (fuel + k) + 1 := by omega
    cases stack with
    | nil =>
      rw [drain] at h
      rw [drain, h]
    | cons w stack =>
      rw [drain] at h
      rw [hfuel, drain]
      split_ifs at h ⊢
      · exact ih h
      · exact ih h

/-! ## Halving -/

section
variable {w : Slice} {a : GraphAlert}

theorem half_pos {d : Int} (h : 2 ≤ d) : 1 ≤ Slice.half d ∧ Slice.half d < d := by
  unfold Slice.half
  split_ifs <;> omega

theorem width_left (h : 2 ≤ w.width) : 1 ≤ w.left.width ∧ w.left.width < w.width := by
  have hhalf := half_pos h
  unfold Slice.left Slice.mid
  simp only [Slice.width] at *
  omega

theorem width_right (h : 2 ≤ w.width) : 1 ≤ w.right.width ∧ w.right.width < w.width := by
  have hhalf := half_pos h
  unfold Slice.right Slice.mid
  simp only [Slice.width] at *
  omega

theorem mid_mem (h : 2 ≤ w.width) : w.since < w.mid ∧ w.mid < w.until_ := by
  have hhalf := half_pos h
  unfold Slice.mid
  simp only [Slice.width] at *
  omega

/-- The filters of the halves share out what the filter of the slice selects. -/
theorem selects_halves (h : 2 ≤ w.width) :
    (w.selects a = true ↔ w.right.selects a = true ∨ w.left.selects a = true) ∧
      ¬ (w.right.selects a = true ∧ w.left.selects a = true) := by
  obtain ⟨hlow, hhigh⟩ := mid_mem h
  have hlow : w.since / Slice.second ≤ w.mid / Slice.second :=
    Int.ediv_le_ediv (by decide) (Int.le_of_lt hlow)
  have hhigh : w.mid / Slice.second ≤ w.until_ / Slice.second :=
    Int.ediv_le_ediv (by decide) (Int.le_of_lt hhigh)
  unfold Slice.right Slice.left Slice.selects
  simp only [Bool.and_eq_true, decide_eq_true_eq]
  omega

end

/-! ## The slices that are not halved -/

section
variable (alerts : List GraphAlert) (pageSize : Nat) (floor : Int)

def selected (w : Slice) : List GraphAlert := alerts.filter w.selects

/-- A page of such a slice is full. -/
def Full (w : Slice) : Prop := pageSize ≤ (selected alerts w).length

instance (w : Slice) : Decidable (Full alerts pageSize w) := inferInstanceAs (Decidable (_ ≤ _))

/-- The slices, in the order in which they are taken from the stack. `n` bounds the width. -/
def leaves : Nat → Slice → List Slice
  | 0, w => [w]
  | n + 1, w =>
    if Full alerts pageSize w ∧ floor < w.width then leaves n w.right ++ leaves n w.left else [w]

/-- The server: a page has all alerts of the window, or as many of them as fit. -/
def Answers (fetch : Slice → List GraphAlert) : Prop :=
  ∀ w, (¬ Full alerts pageSize w → (fetch w).Perm (selected alerts w)) ∧
    (Full alerts pageSize w → (fetch w).Subperm (selected alerts w) ∧ (fetch w).length = pageSize)

variable {alerts pageSize floor} {fetch : Slice → List GraphAlert}

theorem Answers.full_iff (h : Answers alerts pageSize fetch) (w : Slice) :
    pageSize ≤ (fetch w).length ↔ Full alerts pageSize w := by
  by_cases hfull : Full alerts pageSize w
  · exact iff_of_true (Nat.le_of_eq ((h w).2 hfull).2.symm) hfull
  · refine iff_of_false ?_ hfull
    rw [((h w).1 hfull).length_eq]
    exact hfull

theorem Answers.subperm (h : Answers alerts pageSize fetch) (w : Slice) :
    (fetch w).Subperm (selected alerts w) := by
  by_cases hfull : Full alerts pageSize w
  · exact ((h w).2 hfull).1
  · exact ((h w).1 hfull).subperm

/-- The loop takes the slices one after the other. -/
theorem drain_leaves (h : Answers alerts pageSize fetch) (hfloor : 1 ≤ floor) {n : Nat} {w : Slice}
    (hn : w.width ≤ n) : ∃ k, ∀ fuel stack st,
      drain fetch pageSize floor (fuel + k) (w :: stack) st =
        drain fetch pageSize floor fuel stack
          ((leaves alerts pageSize floor n w).foldl (fun st w => record pageSize st w (fetch w)) st) := by
  induction n generalizing w with
  | zero =>
    refine ⟨1, fun fuel stack st => ?_⟩
    have hnarrow : ¬ (pageSize ≤ (fetch w).length ∧ floor < w.width) := by
      rintro ⟨-, hwide⟩
      omega
    rw [drain, if_neg hnarrow]
    rfl
  | succ n ih =>
    by_cases hsplit : Full alerts pageSize w ∧ floor < w.width
    · have hwidth : 2 ≤ w.width := by omega
      have hright := (width_right hwidth).2
      have hleft := (width_left hwidth).2
      obtain ⟨kr, hkr⟩ := ih (w := w.right) (by omega)
      obtain ⟨kl, hkl⟩ := ih (w := w.left) (by omega)
      refine ⟨kl + kr + 1, fun fuel stack st => ?_⟩
      have hpage : pageSize ≤ (fetch w).length ∧ floor < w.width :=
        ⟨(h.full_iff w).mpr hsplit.1, hsplit.2⟩
      have hfuel : fuel + (kl + kr + 1) = (fuel + kl + kr) + 1 := by omega
      rw [hfuel, drain, if_pos hpage, hkr, hkl, leaves, if_pos hsplit, List.foldl_append]
    · refine ⟨1, fun fuel stack st => ?_⟩
      have hpage : ¬ (pageSize ≤ (fetch w).length ∧ floor < w.width) := by
        rw [h.full_iff w]
        exact hsplit
      rw [drain, if_neg hpage, leaves, if_neg hsplit]
      rfl

/-- Every alert that a slice selects is selected by one of the leaves. -/
theorem selects_leaves (hfloor : 1 ≤ floor) (n : Nat) (w : Slice) (a : GraphAlert) :
    w.selects a = true ↔ ∃ l ∈ leaves alerts pageSize floor n w, l.selects a = true := by
  induction n generalizing w with
  | zero => simp [leaves]
  | succ n ih =>
    unfold leaves
    split_ifs with hsplit
    · rw [(selects_halves (a := a) (by omega : 2 ≤ w.width)).1, ih w.right, ih w.left]
      simp [or_and_right, exists_or]
    · simp

variable (alerts pageSize) in
/-- No two of the leaves select one alert. -/
theorem leaves_disjoint (hfloor : 1 ≤ floor) (n : Nat) (w : Slice) :
    (leaves alerts pageSize floor n w).Pairwise fun l m =>
      ∀ a, ¬ (l.selects a = true ∧ m.selects a = true) := by
  induction n generalizing w with
  | zero => simp [leaves]
  | succ n ih =>
    unfold leaves
    split_ifs with hsplit
    · refine List.pairwise_append.mpr ⟨ih w.right, ih w.left, ?_⟩
      intro l hl m hm a hboth
      have hr := (selects_leaves hfloor n w.right a).mpr ⟨l, hl, hboth.1⟩
      have hl := (selects_leaves hfloor n w.left a).mpr ⟨m, hm, hboth.2⟩
      exact (selects_halves (a := a) (by omega : 2 ≤ w.width)).2 ⟨hr, hl⟩
    · simp

end

/-! ## What is collected -/

section
variable {alerts : List GraphAlert} {pageSize : Nat} {floor : Int} {fetch : Slice → List GraphAlert}

/-- Every alert has an id, and no two have one. -/
structure DistinctIds (alerts : List GraphAlert) : Prop where
  known : ∀ a ∈ alerts, a.id ≠ none
  nodup : (alerts.map (·.id)).Nodup

/-- The state after the alerts `taken`. -/
structure Collects (alerts taken : List GraphAlert) (st : Fetched) : Prop where
  mem : ∀ a, a ∈ st.collected ↔ a ∈ taken
  subset : taken ⊆ alerts
  nodup : st.collected.Nodup
  seen : ∀ i, i ∈ st.seen ↔ ∃ a ∈ st.collected, a.id = some i

theorem Collects.collect (hids : DistinctIds alerts) {taken : List GraphAlert} {st : Fetched}
    (h : Collects alerts taken st) {a : GraphAlert} (ha : a ∈ alerts) :
    Collects alerts (taken ++ [a]) (collect st a) := by
  have hsubset : taken ++ [a] ⊆ alerts :=
    List.append_subset.mpr ⟨h.subset, fun b hb => List.mem_singleton.mp hb ▸ ha⟩
  unfold Alerts.collect
  cases hid : a.id with
  | none => exact absurd hid (hids.known a ha)
  | some i =>
    dsimp only
    split_ifs with hseen
    · -- The id is that of an alert already collected, which is this one.
      obtain ⟨b, hb, hbid⟩ := (h.seen i).mp hseen
      have hb' := h.subset ((h.mem b).mp hb)
      obtain rfl := List.inj_on_of_nodup_map hids.nodup hb' ha (hbid.trans hid.symm)
      refine ⟨fun c => ?_, hsubset, h.nodup, h.seen⟩
      rw [h.mem c, List.mem_append, List.mem_singleton]
      constructor
      · exact .inl
      · rintro (hc | rfl)
        · exact hc
        · exact (h.mem c).mp hb
    · have hfresh : a ∉ st.collected := fun hmem => hseen ((h.seen i).mpr ⟨a, hmem, hid⟩)
      refine ⟨fun c => ?_, hsubset, ?_, fun j => ?_⟩
      · simp only [List.mem_append, h.mem c]
      · exact h.nodup.append (List.nodup_singleton a) (List.disjoint_singleton.mpr hfresh)
      · simp only [List.mem_append, List.mem_singleton, h.seen j]
        constructor
        · rintro (⟨c, hc, hcid⟩ | rfl)
          · exact ⟨c, .inl hc, hcid⟩
          · exact ⟨a, .inr rfl, hid⟩
        · rintro ⟨c, hc | rfl, hcid⟩
          · exact .inl ⟨c, hc, hcid⟩
          · exact .inr (Option.some.inj (hcid.symm.trans hid))

theorem Collects.foldl_collect (hids : DistinctIds alerts) {taken page : List GraphAlert} {st : Fetched}
    (h : Collects alerts taken st) (hpage : page ⊆ alerts) :
    Collects alerts (taken ++ page) (page.foldl Alerts.collect st) := by
  induction page generalizing taken st with
  | nil => simpa using h
  | cons a page ih =>
    obtain ⟨ha, hpage⟩ := List.cons_subset.mp hpage
    have hnext := ih (h.collect hids ha) hpage
    rwa [List.append_assoc, List.singleton_append] at hnext

theorem truncated_collect (st : Fetched) (a : GraphAlert) :
    (Alerts.collect st a).truncated = st.truncated := by
  unfold Alerts.collect
  split
  · rfl
  · split_ifs <;> rfl

theorem truncated_foldl_collect (page : List GraphAlert) (st : Fetched) :
    (page.foldl Alerts.collect st).truncated = st.truncated := by
  induction page generalizing st with
  | nil => rfl
  | cons a page ih => rw [List.foldl_cons, ih, truncated_collect]

/-- The state after some slices: the alerts of their pages, and the full ones among them. -/
theorem foldl_record (hids : DistinctIds alerts) (hanswers : Answers alerts pageSize fetch)
    (slices : List Slice) {taken : List GraphAlert} {st : Fetched} (h : Collects alerts taken st) :
    Collects alerts (taken ++ slices.flatMap fetch)
        (slices.foldl (fun st w => record pageSize st w (fetch w)) st) ∧
      (slices.foldl (fun st w => record pageSize st w (fetch w)) st).truncated =
        st.truncated ++ slices.filter (Full alerts pageSize) := by
  induction slices generalizing taken st with
  | nil => simpa using h
  | cons w slices ih =>
    have hpage : fetch w ⊆ alerts := by
      intro a ha
      exact (List.mem_filter.mp ((hanswers.subperm w).subset ha)).1
    let start := if pageSize ≤ (fetch w).length then { st with truncated := st.truncated ++ [w] } else st
    have hstart : Collects alerts taken start := by
      simp only [start]
      split_ifs
      · exact ⟨h.mem, h.subset, h.nodup, h.seen⟩
      · exact h
    have hstep : record pageSize st w (fetch w) = (fetch w).foldl Alerts.collect start := rfl
    have hnext := ih (hstart.foldl_collect hids hpage)
    rw [List.foldl_cons, List.flatMap_cons, ← List.append_assoc, hstep]
    refine ⟨hnext.1, ?_⟩
    rw [hnext.2, truncated_foldl_collect]
    simp only [start, hanswers.full_iff w]
    by_cases hfull : Full alerts pageSize w
    · rw [if_pos hfull, List.filter_cons_of_pos (by simpa using hfull), List.append_assoc]
      rfl
    · rw [if_neg hfull, List.filter_cons_of_neg (by simpa using hfull)]

/-- The loop ends; it has collected the pages of the leaves, and it warns of the full ones. -/
theorem listGraphAlertsWindowed_eq (hids : DistinctIds alerts) (hanswers : Answers alerts pageSize fetch)
    (hfloor : 1 ≤ floor) (since until_ : Int) :
    ∃ k st, (∀ fuel, listGraphAlertsWindowed fetch since until_ pageSize floor (fuel + k) = some st) ∧
      st.collected.Nodup ∧
      (∀ a, a ∈ st.collected ↔ ∃ w ∈ leaves alerts pageSize floor (until_ - since).toNat ⟨since, until_⟩,
        a ∈ fetch w) ∧
      st.truncated = (leaves alerts pageSize floor (until_ - since).toNat ⟨since, until_⟩).filter
        (Full alerts pageSize) := by
  obtain ⟨k, hrun⟩ := drain_leaves hanswers hfloor (n := (until_ - since).toNat) (w := ⟨since, until_⟩)
    (Int.self_le_toNat _)
  have hstart : Collects alerts [] {} := ⟨by simp, by simp, by simp, by simp⟩
  have hend := foldl_record hids hanswers
    (leaves alerts pageSize floor (until_ - since).toNat ⟨since, until_⟩) hstart
  refine ⟨k, _, ?_, hend.1.nodup, ?_, by simpa using hend.2⟩
  · intro fuel
    unfold listGraphAlertsWindowed
    rw [hrun, drain]
  · intro a
    rw [hend.1.mem, List.nil_append, List.mem_flatMap]

end

/-! ## Completeness -/

/-- What the fetch is for. -/
structure FetchesWindow (alerts : List GraphAlert) (since until_ : Int) (st : Fetched) : Prop where
  nodup : (st.collected.map (·.id)).Nodup
  inside : ∀ a ∈ st.collected, a ∈ alerts ∧ (Slice.mk since until_).Contains a
  complete : ∀ a ∈ alerts, (Slice.mk since until_).Contains a →
    (∀ w ∈ st.truncated, ¬ w.Contains a) → a ∈ st.collected

/-- A slice that starts within a second asks for the whole second. Where the server has more than a
page for it, an alert of the part before the slice lies in another slice with a full page. -/
def WarnsOfAll (alerts : List GraphAlert) (since until_ : Int) (pageSize : Nat) (floor : Int) : Prop :=
  let slices := leaves alerts pageSize floor (until_ - since).toNat ⟨since, until_⟩
  ∀ w ∈ slices, pageSize < (selected alerts w).length → ∀ a ∈ selected alerts w, ¬ w.Contains a →
    ∃ v ∈ slices, Full alerts pageSize v ∧ v.Contains a

section
variable {alerts : List GraphAlert} {pageSize : Nat} {floor since until_ : Int}

theorem selects_iff_contains (hsince : Slice.second ∣ since) (huntil : Slice.second ∣ until_)
    (a : GraphAlert) : (Slice.mk since until_).selects a = true ↔ (Slice.mk since until_).Contains a := by
  obtain ⟨s, rfl⟩ := hsince
  obtain ⟨u, rfl⟩ := huntil
  unfold Slice.selects Slice.Contains Slice.second
  simp only [Bool.and_eq_true, decide_eq_true_eq]
  omega

/-- The server that leaves one alert out of one page. -/
def withholding (alerts : List GraphAlert) (pageSize : Nat) (w : Slice) (a : GraphAlert) (v : Slice) :
    List GraphAlert :=
  if v = w then ((selected alerts v).filter (· ≠ a)).take pageSize
  else (selected alerts v).take pageSize

theorem answers_withholding (hids : DistinctIds alerts) {w : Slice} {a : GraphAlert}
    (hover : pageSize < (selected alerts w).length) :
    Answers alerts pageSize (withholding alerts pageSize w a) := by
  have hnodup : alerts.Nodup := List.Nodup.of_map _ hids.nodup
  intro v
  unfold withholding Full
  split_ifs with hv
  · subst hv
    refine ⟨fun hnot => absurd (Nat.le_of_lt hover) hnot, fun _ => ⟨?_, ?_⟩⟩
    · exact ((List.take_sublist _ _).trans List.filter_sublist).subperm
    · have herase : (selected alerts v).erase a = (selected alerts v).filter (· ≠ a) := by
        have hselected : (selected alerts v).Nodup := hnodup.filter _
        rw [hselected.erase_eq_filter]
        exact List.filter_congr fun b _ => by simp [bne, beq_eq_decide]
      have hone := List.le_length_erase (l := selected alerts v) (a := a)
      rw [List.length_take, ← herase]
      omega
  · constructor
    · intro hnot
      rw [List.take_of_length_le (by omega)]
    · intro hfull
      refine ⟨(List.take_sublist _ _).subperm, ?_⟩
      rw [List.length_take]
      exact Nat.min_eq_left hfull

/-- Whatever the server returns of its full pages, the fetch is complete up to the slices it warns of,
exactly when the slices that start within a second hide no alert. -/
theorem fetchesWindow_iff (alerts : List GraphAlert) (since until_ : Int) (pageSize : Nat) (floor : Int)
    (hids : DistinctIds alerts) (hsince : Slice.second ∣ since) (huntil : Slice.second ∣ until_)
    (hfloor : 1 ≤ floor) :
    (∀ fetch, Answers alerts pageSize fetch →
        ∃ fuel st, listGraphAlertsWindowed fetch since until_ pageSize floor fuel = some st ∧
          FetchesWindow alerts since until_ st) ↔
      WarnsOfAll alerts since until_ pageSize floor := by
  let root : Slice := ⟨since, until_⟩
  let slices := leaves alerts pageSize floor (until_ - since).toNat root
  have hmem : ∀ {fetch}, Answers alerts pageSize fetch → ∀ {w a}, a ∈ fetch w →
      a ∈ alerts ∧ w.selects a = true :=
    fun hanswers _ _ ha => List.mem_filter.mp ((hanswers.subperm _).subset ha)
  have hroot : ∀ a, root.Contains a ↔ ∃ w ∈ slices, w.selects a = true := by
    intro a
    rw [← selects_iff_contains hsince huntil a]
    exact selects_leaves hfloor _ root a
  constructor
  · intro hall w hw hover a ha houtside
    by_contra hnone
    push Not at hnone
    have hanswers := answers_withholding (a := a) hids hover
    obtain ⟨k, st, hrun, -, hcollected, htruncated⟩ :=
      listGraphAlertsWindowed_eq hids hanswers hfloor since until_
    obtain ⟨fuel, st', hrun', hfetches⟩ := hall _ hanswers
    have hsame : st' = st := by
      have hmore := drain_mono hrun' k
      exact Option.some.inj (hmore.symm.trans (hrun fuel))
    subst hsame
    obtain ⟨haAlerts, hselects⟩ := List.mem_filter.mp ha
    have hcontains : root.Contains a := (hroot a).mpr ⟨w, hw, hselects⟩
    have hmissing : ∀ v ∈ st'.truncated, ¬ v.Contains a := by
      intro v hv
      rw [htruncated, List.mem_filter] at hv
      exact hnone v hv.1 (of_decide_eq_true hv.2)
    -- Only this slice asks for the alert, and its page does not have it.
    obtain ⟨v, hv, hav⟩ := (hcollected a).mp (hfetches.complete a haAlerts hcontains hmissing)
    have hvw : v = w := by
      by_contra hne
      have hdisjoint := leaves_disjoint alerts pageSize hfloor
        (until_ - since).toNat root
      have : Std.Symm fun l m : Slice => ∀ a, ¬ (l.selects a = true ∧ m.selects a = true) :=
        ⟨fun l m h a hboth => h a hboth.symm⟩
      exact hdisjoint.forall hv hw hne a ⟨(hmem hanswers hav).2, hselects⟩
    rw [hvw, withholding, if_pos rfl] at hav
    have hfilter := (List.mem_filter.mp (List.mem_of_mem_take hav)).2
    exact absurd rfl (of_decide_eq_true hfilter)
  · intro hwarns fetch hanswers
    obtain ⟨k, st, hrun, hnodup, hcollected, htruncated⟩ :=
      listGraphAlertsWindowed_eq hids hanswers hfloor since until_
    refine ⟨0 + k, st, hrun 0, ?_, ?_, ?_⟩
    · refine List.Nodup.map_on ?_ hnodup
      intro a ha b hb hid
      obtain ⟨w, -, ha⟩ := (hcollected a).mp ha
      obtain ⟨v, -, hb⟩ := (hcollected b).mp hb
      exact List.inj_on_of_nodup_map hids.nodup (hmem hanswers ha).1 (hmem hanswers hb).1 hid
    · intro a ha
      obtain ⟨w, hw, ha⟩ := (hcollected a).mp ha
      obtain ⟨haAlerts, hselects⟩ := hmem hanswers ha
      exact ⟨haAlerts, (hroot a).mpr ⟨w, hw, hselects⟩⟩
    · intro a ha hcontains hmissing
      obtain ⟨w, hw, hselects⟩ := (hroot a).mp hcontains
      have hselected : a ∈ selected alerts w := List.mem_filter.mpr ⟨ha, hselects⟩
      have hunwarned : ∀ v ∈ slices, Full alerts pageSize v → ¬ v.Contains a := by
        intro v hv hfull
        apply hmissing
        rw [htruncated]
        exact List.mem_filter.mpr ⟨hv, decide_eq_true hfull⟩
      -- The page of the slice has all that the slice selects.
      have hpage : (fetch w).Perm (selected alerts w) := by
        by_cases hfull : Full alerts pageSize w
        · obtain ⟨hsub, hlength⟩ := (hanswers w).2 hfull
          by_cases hover : pageSize < (selected alerts w).length
          · obtain ⟨v, hv, hvFull, hvContains⟩ :=
              hwarns w hw hover a hselected (hunwarned w hw hfull)
            exact absurd hvContains (hunwarned v hv hvFull)
          · exact hsub.perm_of_length_le (by omega)
        · exact (hanswers w).1 hfull
      exact (hcollected a).mpr ⟨w, hw, hpage.mem_iff.mpr hselected⟩

end

/-! ## A slice that starts within a second -/

namespace Sample

def earlyAlert : GraphAlert := ⟨some "early", 1⟩
def lateAlert : GraphAlert := ⟨some "late", 2⟩

/-- One alert to a page; of the two, the server returns the later one. -/
def oneOfTwo (w : Slice) : List GraphAlert :=
  if w.selects lateAlert then [lateAlert] else if w.selects earlyAlert then [earlyAlert] else []

end Sample
open Sample

/-- Three seconds are halved at one and a half, and the second half is at the floor. It asks for the
alert of second one as well, which is not in it, and does not get it. -/
theorem earlyAlert_not_fetched :
    Answers [earlyAlert, lateAlert] 1 oneOfTwo ∧
      listGraphAlertsWindowed oneOfTwo 0 3000000 1 1500000 3 =
        some ⟨[lateAlert], ["late"], [⟨1500000, 3000000⟩]⟩ ∧
      ¬ (∀ fetch, Answers [earlyAlert, lateAlert] 1 fetch →
        ∃ fuel st, listGraphAlertsWindowed fetch 0 3000000 1 1500000 fuel = some st ∧
          FetchesWindow [earlyAlert, lateAlert] 0 3000000 st) := by
  have hanswers : Answers [earlyAlert, lateAlert] 1 oneOfTwo := by
    intro w
    unfold Full selected oneOfTwo
    cases hlate : w.selects lateAlert <;> cases hearly : w.selects earlyAlert <;>
      simp [hlate, hearly, List.Sublist.subperm]
  have hrun : listGraphAlertsWindowed oneOfTwo 0 3000000 1 1500000 3 =
      some ⟨[lateAlert], ["late"], [⟨1500000, 3000000⟩]⟩ := by
    decide +kernel
  refine ⟨hanswers, hrun, fun hall => ?_⟩
  obtain ⟨fuel, st, hst, hfetches⟩ := hall oneOfTwo hanswers
  have hsame := (drain_mono hst 3).symm.trans (Nat.add_comm 3 fuel ▸ drain_mono hrun fuel)
  obtain rfl := Option.some.inj hsame
  have hmem := hfetches.complete earlyAlert (by simp) (by decide) (by decide)
  exact absurd hmem (by decide)

theorem fetchesWindow_earlyAlert :
    DistinctIds [earlyAlert, lateAlert] ∧ Slice.second ∣ (0 : Int) ∧ Slice.second ∣ (3000000 : Int) ∧
      ((∀ fetch, Answers [earlyAlert, lateAlert] 1 fetch →
          ∃ fuel st, listGraphAlertsWindowed fetch 0 3000000 1 1500000 fuel = some st ∧
            FetchesWindow [earlyAlert, lateAlert] 0 3000000 st) ↔
        WarnsOfAll [earlyAlert, lateAlert] 0 3000000 1 1500000) := by
  have hids : DistinctIds [earlyAlert, lateAlert] := ⟨by decide, by decide⟩
  exact ⟨hids, by decide, by decide, fetchesWindow_iff _ 0 3000000 1 1500000 hids (by decide) (by decide)
    (by decide)⟩

end ContentOps.Alerts
