import ContentOps.Core.WriteDrift
import Mathlib.Data.List.DropRight
import Mathlib.Data.List.Pairwise

/-! Telling the envelopes of a listing apart, `disambiguate_envelope_ids`: when the ids it returns
are distinct, and when a second pass changes nothing. -/

namespace ContentOps
open PyData

/-! ## Repeated keys -/

section
variable {α β : Type} [BEq β] [LawfulBEq β] (g : α → β) (l : List α)

theorem pairwise_one_lt_count : l.Pairwise fun a b => g a = g b → 1 < (l.map g).count (g a) := by
  rw [List.pairwise_iff_forall_sublist]
  intro a b hsub heq
  have hcount := (hsub.map g).count_le (g a)
  rw [List.map_cons, List.map_cons, List.map_nil, ← heq, List.count_cons_self,
    List.count_cons_self] at hcount
  omega

/-- An element whose key is repeated shares it with another one. -/
theorem exists_sublist_of_one_lt_count {b : β} (h : 1 < (l.map g).count b) :
    ∃ a a', [a, a'].Sublist l ∧ g a = b ∧ g a' = b := by
  have hsub : (List.replicate 2 b).Sublist (l.map g) := List.replicate_sublist_iff.mpr h
  obtain ⟨l', hl', heq⟩ := List.sublist_map_iff.mp hsub
  obtain ⟨a, t, rfl, ha, ht⟩ := List.map_eq_cons_iff.mp heq.symm
  obtain ⟨a', t', rfl, ha', ht'⟩ := List.map_eq_cons_iff.mp ht
  obtain rfl := List.map_eq_nil_iff.mp ht'
  exact ⟨a, a', hl', ha, ha'⟩

/-- What holds of every element with a repeated key holds of every two elements with one key. -/
theorem forall_of_one_lt_count_iff {P : α → Prop} :
    (∀ a ∈ l, 1 < (l.map g).count (g a) → P a) ↔
      l.Pairwise fun a b => g a = g b → P a ∧ P b := by
  constructor
  · intro h
    refine (pairwise_one_lt_count g l).imp_of_mem ?_
    intro a b ha hb hcount heq
    exact ⟨h a ha (hcount heq), h b hb (heq ▸ hcount heq)⟩
  · intro h a ha hcount
    obtain ⟨b, c, hsub, hb, hc⟩ := exists_sublist_of_one_lt_count g l hcount
    by_cases hab : a = b
    · exact hab ▸ (List.pairwise_iff_forall_sublist.mp h hsub (hb.trans hc.symm)).1
    · have hsymm : Std.Symm fun a b => g a = g b → P a ∧ P b :=
        ⟨fun _ _ hP heq => (hP heq.symm).symm⟩
      exact (h.forall ha (hsub.subset List.mem_cons_self) hab hb.symm).1

end

/-! ## An id with a suffix -/

namespace Slug

/-- What is left of an id in front of the suffix. -/
def stem (slug armName : String) : Text :=
  (slug.toList.take (maxLen - (armNameSuffix armName).length - 1)).rdropWhile (· = '-')

def join (base suffix : Text) : Text := if base = [] then suffix else base ++ '-' :: suffix

theorem toList_disambiguate (slug : String) {armName : String} (h : armNameSuffix armName ≠ []) :
    (disambiguate slug armName).toList = join (stem slug armName) (armNameSuffix armName) := by
  unfold disambiguate join stem
  dsimp only
  rw [if_neg h, String.toList_ofList]

theorem disambiguate_of_noSuffix (slug : String) {armName : String}
    (h : armNameSuffix armName = []) : disambiguate slug armName = slug := if_pos h

theorem disambiguate_congr (slug : String) {armName armName' : String}
    (h : armNameSuffix armName = armNameSuffix armName') :
    disambiguate slug armName = disambiguate slug armName' := by
  unfold disambiguate
  rw [h]

theorem ne_hyphen_of_mem {armName : String} {c : Char} (h : c ∈ armNameSuffix armName) :
    c ≠ '-' := by
  rintro rfl
  exact absurd (mem_armNameSuffix armName h) (by decide)

theorem length_armNameSuffix_le (armName : String) : (armNameSuffix armName).length ≤ 8 :=
  List.length_take_le _ _

theorem join_ne_nil (base : Text) {suffix : Text} (h : suffix ≠ []) : join base suffix ≠ [] := by
  unfold join
  split_ifs
  · exact h
  · simp

/-- The suffix is what follows the last hyphen. -/
theorem rtakeWhile_join (base : Text) {suffix : Text} (h : ∀ c ∈ suffix, c ≠ '-') :
    (join base suffix).rtakeWhile (· ≠ '-') = suffix := by
  have hall : ∀ c ∈ suffix.reverse, decide (c ≠ '-') = true := by
    intro c hc
    exact decide_eq_true (h c (List.mem_reverse.mp hc))
  unfold join List.rtakeWhile
  split_ifs
  · rw [← List.append_nil suffix.reverse, List.takeWhile_append_of_pos hall]
    simp
  · rw [List.reverse_append, List.reverse_cons, List.append_assoc,
      List.takeWhile_append_of_pos hall]
    simp

theorem join_inj {base base' suffix suffix' : Text} (h : ∀ c ∈ suffix, c ≠ '-')
    (h' : ∀ c ∈ suffix', c ≠ '-') :
    join base suffix = join base' suffix' ↔ suffix = suffix' ∧ base = base' := by
  constructor
  · intro heq
    have hsuffix : suffix = suffix' := by
      rw [← rtakeWhile_join base h, heq, rtakeWhile_join base' h']
    subst hsuffix
    refine ⟨rfl, ?_⟩
    have hlength := congrArg List.length heq
    unfold join at heq hlength
    split_ifs at heq hlength with hbase hbase'
    · rw [hbase, hbase']
    · simp only [List.length_append, List.length_cons] at hlength
      omega
    · simp only [List.length_append, List.length_cons] at hlength
      omega
    · exact List.append_cancel_right heq
  · rintro ⟨rfl, rfl⟩
    rfl

theorem stem_length_le (slug armName : String) :
    (stem slug armName).length ≤ maxLen - (armNameSuffix armName).length - 1 :=
  (List.rdropWhile_prefix _ _).length_le.trans (List.length_take_le _ _)

theorem rdropWhile_stem (slug armName : String) :
    (stem slug armName).rdropWhile (· = '-') = stem slug armName := List.rdropWhile_idempotent _ _

theorem rdropWhile_of_getLast? {t : Text} {c : Char} (h : t.getLast? = some c) (hc : c ≠ '-') :
    t.rdropWhile (· = '-') = t := by
  rw [List.rdropWhile_eq_self_iff]
  intro hne
  rw [List.getLast?_eq_some_getLast hne] at h
  rw [Option.some.inj h]
  simpa using hc

/-- What a text keeps of a base, a hyphen and a suffix: the base alone only where the text ends
before the suffix starts. -/
theorem stem_join_eq_iff {base suffix : Text} {n : ℕ} (hbase : base.rdropWhile (· = '-') = base)
    (hsuffix : ∀ c ∈ suffix, c ≠ '-') (hne : suffix ≠ []) (hn : base.length ≤ n) :
    ((base ++ '-' :: suffix).take n).rdropWhile (· = '-') = base ↔ n ≤ base.length + 1 := by
  obtain ⟨k, rfl⟩ := Nat.exists_eq_add_of_le hn
  rw [List.take_length_add_append]
  match k with
  | 0 => simpa using hbase
  | 1 =>
    rw [List.take_succ_cons, List.take_zero, List.rdropWhile_concat_pos _ _ _ (by simp), hbase]
    simp
  | k + 2 =>
    have hlong : ¬ base.length + (k + 2) ≤ base.length + 1 := by omega
    obtain ⟨c, rest, rfl⟩ := List.exists_cons_of_ne_nil hne
    rw [List.take_succ_cons, List.take_succ_cons, iff_false_right hlong]
    -- The last character kept is one of the suffix, so all of it stays.
    have hlast : ∃ l, (base ++ '-' :: c :: rest.take k).getLast? = some l ∧ l ≠ '-' := by
      refine ⟨(c :: rest.take k).getLast (by simp), ?_, ?_⟩
      · simp [List.getLast?_eq_some_getLast]
      · exact hsuffix _ ((List.take_subset (k + 1) (c :: rest)) (by simp))
    obtain ⟨l, hl, hhyphen⟩ := hlast
    rw [rdropWhile_of_getLast? hl hhyphen]
    simp

/-- A second suffix changes nothing where the first one already filled the id. -/
theorem disambiguate_disambiguate_iff (slug : String) {armName : String}
    (h : armNameSuffix armName ≠ []) :
    disambiguate (disambiguate slug armName) armName = disambiguate slug armName ↔
      maxLen ≤ (join (stem slug armName) (armNameSuffix armName)).length + 1 := by
  have hchars : ∀ c ∈ armNameSuffix armName, c ≠ '-' := fun c => ne_hyphen_of_mem
  have hshort := length_armNameSuffix_le armName
  have hbase := stem_length_le slug armName
  have hstable := rdropWhile_stem slug armName
  rw [← String.toList_inj, toList_disambiguate _ h, toList_disambiguate _ h, join_inj hchars hchars,
    and_iff_right rfl]
  conv_lhs => lhs; rw [stem, toList_disambiguate _ h]
  generalize stem slug armName = base at hbase hstable ⊢
  generalize armNameSuffix armName = suffix at h hchars hshort hbase ⊢
  unfold join
  unfold maxLen at hbase ⊢
  split_ifs with hnil
  · obtain ⟨start, last, rfl⟩ := (List.eq_nil_or_concat' suffix).resolve_left h
    have htake : (start ++ [last]).take (80 - (start ++ [last]).length - 1) = start ++ [last] :=
      List.take_of_length_le (by omega)
    rw [htake, rdropWhile_of_getLast? (by simp) (hchars last (by simp)), hnil]
    refine ⟨fun hfalse => absurd hfalse h, fun hlong => ?_⟩
    omega
  · rw [stem_join_eq_iff hstable hchars h hbase, List.length_append, List.length_cons]
    omega

end Slug

/-! ## Ids in a listing -/

section
variable {X : Type}

def envelopeSuffix (e : Document X) : Text := Slug.armNameSuffix (envelopeArmName e)

def envelopeStem (e : Document X) : Text := Slug.stem (Value.textAt e "id") (envelopeArmName e)

/-- The id of the envelope with its suffix. -/
def suffixedId (e : Document X) : Text := Slug.join (envelopeStem e) (envelopeSuffix e)

/-- Another envelope of the kind has the id as well, and the ARM name has a letter or digit. -/
def IsSuffixed (envelopes : List (Document X)) (e : Document X) : Prop :=
  1 < (envelopes.map envelopeKey).count (envelopeKey e) ∧ envelopeSuffix e ≠ []

instance (envelopes : List (Document X)) (e : Document X) : Decidable (IsSuffixed envelopes e) :=
  inferInstanceAs (Decidable (_ ∧ _))

theorem ne_hyphen_of_mem_suffix {e : Document X} : ∀ c ∈ envelopeSuffix e, c ≠ '-' :=
  fun _ => Slug.ne_hyphen_of_mem

theorem suffixedId_eq_iff (e f : Document X) :
    suffixedId e = suffixedId f ↔
      envelopeSuffix e = envelopeSuffix f ∧ envelopeStem e = envelopeStem f :=
  Slug.join_inj ne_hyphen_of_mem_suffix ne_hyphen_of_mem_suffix

variable {envelopes : List (Document X)} {e f : Document X}

theorem textAt_of_suffixed (h : IsSuffixed envelopes e) :
    (Value.textAt (disambiguateId envelopes e) "id").toList = suffixedId e := by
  unfold disambiguateId
  rw [if_pos h.1, Value.textAt, Dict.get?_set_self]
  exact Slug.toList_disambiguate _ h.2

theorem textAt_of_not_suffixed (h : ¬IsSuffixed envelopes e) :
    Value.textAt (disambiguateId envelopes e) "id" = Value.textAt e "id" := by
  unfold disambiguateId
  split_ifs with hshared
  · have hsuffix : envelopeSuffix e = [] := not_not.mp fun hne => h ⟨hshared, hne⟩
    rw [Value.textAt, Dict.get?_set_self]
    exact Slug.disambiguate_of_noSuffix _ hsuffix
  · rfl

/-- Only the id is set. -/
theorem textAt_disambiguateId {key : String} (h : key ≠ "id") :
    Value.textAt (disambiguateId envelopes e) key = Value.textAt e key := by
  unfold disambiguateId
  split_ifs
  · unfold Value.textAt
    rw [Dict.get?_set, if_neg h.symm]
  · rfl

theorem envelopeArmName_disambiguateId :
    envelopeArmName (disambiguateId envelopes e) = envelopeArmName e := by
  unfold disambiguateId
  split_ifs
  · unfold envelopeArmName
    rw [Dict.get?_set, if_neg (by decide)]
  · rfl

/-! ## Distinct ids -/

/-- What keeps the ids of one kind distinct, as read off the listing. -/
structure ToldApart (envelopes : List (Document X)) : Prop where
  suffixes : envelopes.Pairwise fun e f => IsSuffixed envelopes e → IsSuffixed envelopes f →
    envelopeSuffix e = envelopeSuffix f → envelopeStem e ≠ envelopeStem f
  others : ∀ e ∈ envelopes, ∀ f ∈ envelopes, IsSuffixed envelopes e → ¬IsSuffixed envelopes f →
    (Value.textAt f "id").toList ≠ suffixedId e
  usable : envelopes.Pairwise fun e f => envelopeSuffix e = [] → envelopeSuffix f = [] →
    Value.textAt e "id" ≠ Value.textAt f "id"

/-- Two envelopes that are given one id, case by case. -/
theorem textAt_id_eq_iff : Value.textAt (disambiguateId envelopes e) "id" =
      Value.textAt (disambiguateId envelopes f) "id" ↔
    (IsSuffixed envelopes e → IsSuffixed envelopes f →
      envelopeSuffix e = envelopeSuffix f ∧ envelopeStem e = envelopeStem f) ∧
    (IsSuffixed envelopes e → ¬IsSuffixed envelopes f →
      (Value.textAt f "id").toList = suffixedId e) ∧
    (¬IsSuffixed envelopes e → IsSuffixed envelopes f →
      (Value.textAt e "id").toList = suffixedId f) ∧
    (¬IsSuffixed envelopes e → ¬IsSuffixed envelopes f →
      Value.textAt e "id" = Value.textAt f "id") := by
  rw [← String.toList_inj]
  by_cases he : IsSuffixed envelopes e <;> by_cases hf : IsSuffixed envelopes f
  · simp [he, hf, textAt_of_suffixed, suffixedId_eq_iff]
  · simp [he, hf, textAt_of_suffixed, textAt_of_not_suffixed, eq_comm]
  · simp [he, hf, textAt_of_suffixed, textAt_of_not_suffixed]
  · simp [he, hf, textAt_of_not_suffixed, String.toList_inj]

/-- Ids that are kept and are the same were shared, so neither ARM name gives a suffix. -/
theorem suffix_eq_nil_of_kept
    (hshared : envelopeKey e = envelopeKey f →
      1 < (envelopes.map envelopeKey).count (envelopeKey e))
    (hasset : Value.textAt e "asset" = Value.textAt f "asset")
    (hid : Value.textAt e "id" = Value.textAt f "id")
    (he : ¬IsSuffixed envelopes e) (hf : ¬IsSuffixed envelopes f) :
    envelopeSuffix e = [] ∧ envelopeSuffix f = [] := by
  have hkey : envelopeKey e = envelopeKey f := by
    unfold envelopeKey
    rw [hasset, hid]
  have hcount := hshared hkey
  exact ⟨not_not.mp fun hne => he ⟨hcount, hne⟩, not_not.mp fun hne => hf ⟨hkey ▸ hcount, hne⟩⟩

theorem nodup_ids_iff {asset : String} (hkind : ∀ e ∈ envelopes, Value.textAt e "asset" = asset) :
    ((disambiguateEnvelopeIds envelopes).map (Value.textAt · "id")).Nodup ↔
      ToldApart envelopes := by
  unfold disambiguateEnvelopeIds
  rw [List.Nodup, List.pairwise_map, List.pairwise_map]
  constructor
  · intro h
    refine ⟨h.imp ?_, ?_, h.imp ?_⟩
    · intro e f hne he hf hsuffix hstem
      refine hne (textAt_id_eq_iff.mpr ⟨fun _ _ => ⟨hsuffix, hstem⟩, ?_, ?_, ?_⟩)
      · exact fun _ hnot => absurd hf hnot
      · exact fun hnot => absurd he hnot
      · exact fun hnot => absurd he hnot
    · intro e he f hf hes hfs hid
      have hef : e ≠ f := by
        rintro rfl
        exact hfs hes
      have hsymm : Std.Symm fun a b : Document X =>
          Value.textAt (disambiguateId envelopes a) "id" ≠
            Value.textAt (disambiguateId envelopes b) "id" :=
        ⟨fun _ _ => Ne.symm⟩
      refine h.forall he hf hef (textAt_id_eq_iff.mpr ⟨?_, fun _ _ => hid, ?_, ?_⟩)
      · exact fun _ hfs' => absurd hfs' hfs
      · exact fun hnot => absurd hes hnot
      · exact fun hnot => absurd hes hnot
    · intro e f hne he hf hid
      have hes : ¬IsSuffixed envelopes e := fun h => h.2 he
      have hfs : ¬IsSuffixed envelopes f := fun h => h.2 hf
      rw [textAt_of_not_suffixed hes, textAt_of_not_suffixed hfs] at hne
      exact hne hid
  · intro h
    have hcount := pairwise_one_lt_count envelopeKey envelopes
    refine ((h.suffixes.and h.usable).and hcount).imp_of_mem ?_
    rintro e f he hf ⟨⟨hsuffixes, husable⟩, hshared⟩ hid
    obtain ⟨hboth, hleft, hright, hneither⟩ := textAt_id_eq_iff.mp hid
    by_cases hes : IsSuffixed envelopes e <;> by_cases hfs : IsSuffixed envelopes f
    · exact hsuffixes hes hfs (hboth hes hfs).1 (hboth hes hfs).2
    · exact h.others e he f hf hes hfs (hleft hes hfs)
    · exact h.others f hf e he hfs hes (hright hes hfs)
    · have hasset := (hkind e he).trans (hkind f hf).symm
      obtain ⟨he', hf'⟩ := suffix_eq_nil_of_kept hshared hasset (hneither hes hfs) hes hfs
      exact husable he' hf' (hneither hes hfs)

theorem newTarget_injective (base : Path) (asset : Asset) :
    Function.Injective (newTarget base asset) := by
  intro id id' h
  unfold newTarget at h
  have hfile : id ++ ".yml" = id' ++ ".yml" := by simpa using List.append_cancel_left h
  have hchars := congrArg String.toList hfile
  rw [String.toList_append, String.toList_append] at hchars
  exact String.toList_inj.mp (List.append_cancel_right hchars)

/-- The envelopes of one kind are given distinct ids, and their new entries distinct files. -/
def IdsDistinct (base : Path) (asset : Asset) (envelopes : List (Document X)) : Prop :=
  let ids := (disambiguateEnvelopeIds envelopes).map (Value.textAt · "id")
  ids.Nodup ∧ (ids.map (newTarget base asset)).Nodup

theorem idsDistinct_iff (base : Path) (asset : Asset) (envelopes : List (Document X))
    (hkind : ∀ e ∈ envelopes, Value.textAt e "asset" = asset.value) :
    IdsDistinct base asset envelopes ↔ ToldApart envelopes := by
  unfold IdsDistinct
  dsimp only
  rw [List.nodup_map_iff (newTarget_injective base asset), and_self]
  exact nodup_ids_iff hkind

/-! ## A second pass -/

/-- An id with a suffix that takes all the room there is. -/
def IsFull (id : Text) : Prop := Slug.maxLen ≤ id.length + 1

/-- What a second pass needs to find nothing to do, as read off the listing. -/
structure Settled (envelopes : List (Document X)) : Prop where
  suffixes : envelopes.Pairwise fun e f => Value.textAt e "asset" = Value.textAt f "asset" →
    IsSuffixed envelopes e → IsSuffixed envelopes f → suffixedId e = suffixedId f →
    IsFull (suffixedId e)
  others : ∀ e ∈ envelopes, ∀ f ∈ envelopes, Value.textAt e "asset" = Value.textAt f "asset" →
    IsSuffixed envelopes e → ¬IsSuffixed envelopes f →
    (Value.textAt f "id").toList = suffixedId e →
    IsFull (suffixedId e) ∧ (envelopeSuffix f = [] ∨ envelopeSuffix f = envelopeSuffix e)

/-- An id that another suffix leaves as it is. -/
def IsFinal (envelopes : List (Document X)) (e : Document X) : Prop :=
  let id := Value.textAt (disambiguateId envelopes e) "id"
  Slug.disambiguate id (envelopeArmName e) = id

theorem textAt_of_suffixed_eq (h : IsSuffixed envelopes e) :
    Value.textAt (disambiguateId envelopes e) "id" =
      Slug.disambiguate (Value.textAt e "id") (envelopeArmName e) := by
  rw [← String.toList_inj, textAt_of_suffixed h]
  exact (Slug.toList_disambiguate _ h.2).symm

theorem isFinal_of_suffixed (h : IsSuffixed envelopes e) :
    IsFinal envelopes e ↔ IsFull (suffixedId e) := by
  unfold IsFinal
  dsimp only
  rw [textAt_of_suffixed_eq h]
  exact Slug.disambiguate_disambiguate_iff _ h.2

/-- An id that is kept, where it is the one that another envelope is given. -/
theorem isFinal_of_not_suffixed (hf : ¬IsSuffixed envelopes f) (he : IsSuffixed envelopes e)
    (hid : (Value.textAt f "id").toList = suffixedId e) (hfull : IsFull (suffixedId e)) :
    IsFinal envelopes f ↔ envelopeSuffix f = [] ∨ envelopeSuffix f = envelopeSuffix e := by
  unfold IsFinal
  dsimp only
  rw [textAt_of_not_suffixed hf]
  by_cases hsuffix : envelopeSuffix f = []
  · exact iff_of_true (Slug.disambiguate_of_noSuffix _ hsuffix) (.inl hsuffix)
  · rw [or_iff_right hsuffix]
    constructor
    · intro hfinal
      rw [← String.toList_inj, Slug.toList_disambiguate _ hsuffix, hid] at hfinal
      exact ((Slug.join_inj ne_hyphen_of_mem_suffix ne_hyphen_of_mem_suffix).mp hfinal).1
    · intro hsame
      have hgiven : Value.textAt f "id" = Value.textAt (disambiguateId envelopes e) "id" := by
        rw [← String.toList_inj, textAt_of_suffixed he, hid]
      rw [Slug.disambiguate_congr _ hsame, hgiven]
      exact (isFinal_of_suffixed he).mpr hfull

theorem textAt_id_of_shared (h : 1 < (envelopes.map envelopeKey).count (envelopeKey e)) :
    (disambiguateId envelopes e).get? "id" =
      some (.str (Value.textAt (disambiguateId envelopes e) "id")) := by
  unfold disambiguateId
  rw [if_pos h]
  generalize Slug.disambiguate _ _ = id
  rw [Value.textAt, Dict.get?_set_self]

theorem envelopeKey_disambiguateId :
    envelopeKey (disambiguateId envelopes e) =
      (Value.textAt e "asset", Value.textAt (disambiguateId envelopes e) "id") := by
  unfold envelopeKey
  rw [textAt_disambiguateId (by decide)]

/-- The second pass rewrites the ids that are still shared, and an id is then given what it has. -/
theorem disambiguateId_eq_self_iff {again : List (Document X)}
    (hid : 1 < (again.map envelopeKey).count (envelopeKey (disambiguateId envelopes e)) →
      (disambiguateId envelopes e).get? "id" =
        some (.str (Value.textAt (disambiguateId envelopes e) "id"))) :
    disambiguateId again (disambiguateId envelopes e) = disambiguateId envelopes e ↔
      (1 < (again.map envelopeKey).count (envelopeKey (disambiguateId envelopes e)) →
        IsFinal envelopes e) := by
  unfold IsFinal
  dsimp only
  generalize hd : disambiguateId envelopes e = d at hid ⊢
  have harm : envelopeArmName d = envelopeArmName e := by
    rw [← hd]
    exact envelopeArmName_disambiguateId
  unfold disambiguateId
  split_ifs with hshared
  · rw [harm]
    constructor
    · intro hset _
      have hget : (d.set "id" (.str (Slug.disambiguate (Value.textAt d "id")
          (envelopeArmName e)))).get? "id" = d.get? "id" := by rw [hset]
      rw [Dict.get?_set_self, hid hshared] at hget
      simpa using hget
    · intro hfinal
      rw [hfinal hshared]
      exact Dict.set_eq_self (hid hshared)
  · exact iff_of_true rfl fun hcount => absurd hcount hshared

theorem textAt_id_congr (h : envelopeKey (disambiguateId envelopes e) =
      envelopeKey (disambiguateId envelopes f)) :
    Value.textAt e "asset" = Value.textAt f "asset" ∧
      Value.textAt (disambiguateId envelopes e) "id" =
        Value.textAt (disambiguateId envelopes f) "id" := by
  rw [envelopeKey_disambiguateId, envelopeKey_disambiguateId] at h
  exact Prod.mk.inj h

/-- An id that is still shared after the first pass is a text. -/
theorem pairwise_get?_id : envelopes.Pairwise fun e f =>
    envelopeKey (disambiguateId envelopes e) = envelopeKey (disambiguateId envelopes f) →
      (disambiguateId envelopes e).get? "id" =
          some (.str (Value.textAt (disambiguateId envelopes e) "id")) ∧
        (disambiguateId envelopes f).get? "id" =
          some (.str (Value.textAt (disambiguateId envelopes f) "id")) := by
  have htext : ∀ e f : Document X,
      (envelopeKey e = envelopeKey f → 1 < (envelopes.map envelopeKey).count (envelopeKey e)) →
      envelopeKey (disambiguateId envelopes e) = envelopeKey (disambiguateId envelopes f) →
      (disambiguateId envelopes e).get? "id" =
        some (.str (Value.textAt (disambiguateId envelopes e) "id")) := by
    intro e f hshared hkey
    by_cases hcount : 1 < (envelopes.map envelopeKey).count (envelopeKey e)
    · exact textAt_id_of_shared hcount
    · obtain ⟨hasset, hid⟩ := textAt_id_congr hkey
      apply Value.get?_of_textAt
      have hes : ¬IsSuffixed envelopes e := fun h => hcount h.1
      by_cases hfs : IsSuffixed envelopes f
      · intro hempty
        have hjoin := textAt_of_suffixed hfs
        rw [← hid, hempty] at hjoin
        exact Slug.join_ne_nil _ hfs.2 hjoin.symm
      · rw [textAt_of_not_suffixed hes, textAt_of_not_suffixed hfs] at hid
        refine absurd (hshared ?_) hcount
        unfold envelopeKey
        rw [hasset, hid]
  refine (pairwise_one_lt_count envelopeKey envelopes).imp ?_
  intro e f hshared hkey
  refine ⟨htext e f hshared hkey, htext f e ?_ hkey.symm⟩
  intro hfe
  rw [hfe]
  exact hshared hfe.symm

/-- No two envelopes come to one id that another suffix would still change. -/
theorem pairwise_isFinal_iff : (envelopes.Pairwise fun e f =>
    envelopeKey (disambiguateId envelopes e) = envelopeKey (disambiguateId envelopes f) →
      IsFinal envelopes e ∧ IsFinal envelopes f) ↔ Settled envelopes := by
  have hkey : ∀ {e f : Document X}, Value.textAt e "asset" = Value.textAt f "asset" →
      Value.textAt (disambiguateId envelopes e) "id" =
        Value.textAt (disambiguateId envelopes f) "id" →
      envelopeKey (disambiguateId envelopes e) = envelopeKey (disambiguateId envelopes f) := by
    intro e f hasset hid
    rw [envelopeKey_disambiguateId, envelopeKey_disambiguateId, hasset, hid]
  constructor
  · intro h
    refine ⟨h.imp ?_, ?_⟩
    · intro e f hfinal hasset he hf hsame
      have hid : Value.textAt (disambiguateId envelopes e) "id" =
          Value.textAt (disambiguateId envelopes f) "id" := by
        rw [← String.toList_inj, textAt_of_suffixed he, textAt_of_suffixed hf, hsame]
      exact (isFinal_of_suffixed he).mp (hfinal (hkey hasset hid)).1
    · intro e he f hf hasset hes hfs hid
      have hef : e ≠ f := by
        rintro rfl
        exact hfs hes
      have hsymm : Std.Symm fun a b : Document X =>
          envelopeKey (disambiguateId envelopes a) = envelopeKey (disambiguateId envelopes b) →
            IsFinal envelopes a ∧ IsFinal envelopes b :=
        ⟨fun _ _ hab heq => (hab heq.symm).symm⟩
      have hgiven : Value.textAt (disambiguateId envelopes e) "id" =
          Value.textAt (disambiguateId envelopes f) "id" := by
        rw [← String.toList_inj, textAt_of_suffixed hes, textAt_of_not_suffixed hfs, hid]
      obtain ⟨hefinal, hffinal⟩ := h.forall he hf hef (hkey hasset hgiven)
      have hfull := (isFinal_of_suffixed hes).mp hefinal
      exact ⟨hfull, (isFinal_of_not_suffixed hfs hes hid hfull).mp hffinal⟩
  · intro h
    refine (h.suffixes.and (pairwise_one_lt_count envelopeKey envelopes)).imp_of_mem ?_
    rintro e f he hf ⟨hsuffixes, hshared⟩ hsame
    obtain ⟨hasset, hid⟩ := textAt_id_congr hsame
    obtain ⟨hboth, hleft, hright, hneither⟩ := textAt_id_eq_iff.mp hid
    by_cases hes : IsSuffixed envelopes e <;> by_cases hfs : IsSuffixed envelopes f
    · have heq := (suffixedId_eq_iff e f).mpr (hboth hes hfs)
      have hfull := hsuffixes hasset hes hfs heq
      exact ⟨(isFinal_of_suffixed hes).mpr hfull, (isFinal_of_suffixed hfs).mpr (heq ▸ hfull)⟩
    · obtain ⟨hfull, hrest⟩ := h.others e he f hf hasset hes hfs (hleft hes hfs)
      exact ⟨(isFinal_of_suffixed hes).mpr hfull,
        (isFinal_of_not_suffixed hfs hes (hleft hes hfs) hfull).mpr hrest⟩
    · obtain ⟨hfull, hrest⟩ := h.others f hf e he hasset.symm hfs hes (hright hes hfs)
      exact ⟨(isFinal_of_not_suffixed hes hfs (hright hes hfs) hfull).mpr hrest,
        (isFinal_of_suffixed hfs).mpr hfull⟩
    · obtain ⟨he', hf'⟩ := suffix_eq_nil_of_kept hshared hasset (hneither hes hfs) hes hfs
      exact ⟨Slug.disambiguate_of_noSuffix _ he', Slug.disambiguate_of_noSuffix _ hf'⟩

/-- Applying it twice gives the same list as applying it once. -/
theorem disambiguateEnvelopeIds_idempotent_iff (envelopes : List (Document X)) :
    disambiguateEnvelopeIds (disambiguateEnvelopeIds envelopes) =
      disambiguateEnvelopeIds envelopes ↔ Settled envelopes := by
  have hkeys : (disambiguateEnvelopeIds envelopes).map envelopeKey =
      envelopes.map fun e => envelopeKey (disambiguateId envelopes e) := List.map_map
  have htexts := (forall_of_one_lt_count_iff (fun e => envelopeKey (disambiguateId envelopes e))
    envelopes).mpr pairwise_get?_id
  have hpass : disambiguateEnvelopeIds (disambiguateEnvelopeIds envelopes) =
        disambiguateEnvelopeIds envelopes ↔
      ∀ e ∈ envelopes, disambiguateId (disambiguateEnvelopeIds envelopes)
        (disambiguateId envelopes e) = disambiguateId envelopes e := by
    conv_lhs => lhs; rw [disambiguateEnvelopeIds, disambiguateEnvelopeIds, List.map_map]
    exact List.map_inj_left
  rw [hpass, ← pairwise_isFinal_iff, ← forall_of_one_lt_count_iff, ← hkeys]
  rw [← hkeys] at htexts
  exact forall₂_congr fun e he => disambiguateId_eq_self_iff (htexts e he)

end

/-! ## Rules with one display name -/

def namedRule (id armName : String) : Document Empty :=
  [("id", .str id), ("asset", .str "sentinel_analytic"),
    ("metadata", .dict [("arm_name", .str armName)])]

def guidRules : List (Document Empty) :=
  [namedRule "test" "1840b991-a12b", namedRule "test" "20fffe11-cccc"]

/-- ARM names that only differ behind their first eight letters and digits. -/
def countedRules : List (Document Empty) :=
  [namedRule "test" "rule-0001-east", namedRule "test" "rule-0001-west"]

theorem not_idsDistinct_counted :
    (∀ e ∈ countedRules, Value.textAt e "asset" = Asset.sentinelAnalytic.value) ∧
      (countedRules.map envelopeArmName).Nodup ∧
      (∀ e ∈ countedRules, (envelopeArmName e).toList.any Char.isAlphanum = true) ∧
      ¬IdsDistinct ["detections"] .sentinelAnalytic countedRules := by
  refine ⟨by decide, by decide, by decide, ?_⟩
  intro h
  exact absurd h.1 (by decide)

theorem not_idempotent_counted :
    disambiguateEnvelopeIds (disambiguateEnvelopeIds countedRules) ≠
      disambiguateEnvelopeIds countedRules := by
  decide

theorem idsDistinct_guid : IdsDistinct ["detections"] .sentinelAnalytic guidRules := by
  refine (idsDistinct_iff ["detections"] .sentinelAnalytic guidRules (by decide)).mpr ⟨?_, ?_, ?_⟩
  · decide
  · decide
  · decide

end ContentOps
