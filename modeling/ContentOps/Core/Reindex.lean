import ContentOps.Core.DriftEntries

/-! Matching an inventory a second time, after the files of some items were written. A written file is
registered under the name of its item, so the item finds it again unless another new file took that
name for its id. -/

namespace ContentOps
open PyData

section
variable {X : Type}

/-- What a written report does to the files of a kind. `own` is the file of an item, and `written` says
that it was rewritten. -/
structure Reindex (files files' : List (LoadedAsset X)) (pairs : List (RemotePair X))
    (id : RemotePair X → String) (own : RemotePair X → Path) (isNew written : RemotePair X → Prop) :
    Prop where
  sorted : files.Pairwise fun la lb => la.path < lb.path
  sorted' : files'.Pairwise fun la lb => la.path < lb.path
  named : ∀ p ∈ pairs, remoteKey p.remote ≠ ""
  nameInj : ∀ p ∈ pairs, ∀ q ∈ pairs, remoteKey p.remote = remoteKey q.remote → p = q
  idInj : ∀ p ∈ pairs, ∀ q ∈ pairs, id p = id q → p = q
  ownInj : ∀ p ∈ pairs, ∀ q ∈ pairs, own p = own q → p = q
  untouched : ∀ la, (∀ p ∈ pairs, written p → la.path ≠ own p) → (la ∈ files' ↔ la ∈ files)
  new : ∀ p ∈ pairs, isNew p → written p ∧
    lastNamed files (lookupKey files (remoteKey p.remote) (id p)) = none
  matched : ∀ p ∈ pairs, ¬ isNew p → ∃ la,
    lastNamed files (lookupKey files (remoteKey p.remote) (id p)) = some la ∧ la.path = own p
  file : ∀ p ∈ pairs, written p → ∃ la ∈ files', la.path = own p ∧
    la.armKey? = some (remoteKey p.remote) ∧ (isNew p → la.envelope.id = id p) ∧
    (¬ isNew p → ∃ lb ∈ files, lb.path = own p ∧ lb.envelope.id = la.envelope.id)

/-- A new file whose id is the name of another item is found under that name: always where the item
is known by its id only and stays unwritten, and otherwise where the new file is the later one. -/
structure Takes (files : List (LoadedAsset X)) (id : RemotePair X → String)
    (own : RemotePair X → Path) (isNew written : RemotePair X → Prop) (p q : RemotePair X) : Prop where
  new : isNew q
  name : id q = remoteKey p.remote
  other : q ≠ p
  shadows : (¬ written p ∧ lastNamed files (remoteKey p.remote) = none) ∨ own p < own q

variable {files files' : List (LoadedAsset X)} {pairs : List (RemotePair X)}
  {id : RemotePair X → String} {own : RemotePair X → Path} {isNew written : RemotePair X → Prop}

theorem indexKeys_of_armKey {la : LoadedAsset X} {a : String} (h : la.armKey? = some a) :
    la.indexKeys = [la.envelope.id, a] := by
  unfold LoadedAsset.indexKeys
  rw [h]
  rfl

theorem Reindex.last_iff (h : Reindex files files' pairs id own isNew written) {k : String}
    {la : LoadedAsset X} : lastNamed files k = some la ↔
      la ∈ files ∧ k ∈ la.indexKeys ∧ ∀ lb ∈ files, k ∈ lb.indexKeys → lb.path ≤ la.path :=
  KeyIndex.last_eq_some_iff h.sorted

theorem Reindex.last_iff' (h : Reindex files files' pairs id own isNew written) {k : String}
    {la : LoadedAsset X} : lastNamed files' k = some la ↔
      la ∈ files' ∧ k ∈ la.indexKeys ∧ ∀ lb ∈ files', k ∈ lb.indexKeys → lb.path ≤ la.path :=
  KeyIndex.last_eq_some_iff h.sorted'

/-- An item some file is registered for is matched by its name. -/
theorem Reindex.lastNamed_of_key (h : Reindex files files' pairs id own isNew written)
    {p : RemotePair X} (hp : p ∈ pairs) {lb : LoadedAsset X} (hlb : lb ∈ files)
    (hkey : remoteKey p.remote ∈ lb.indexKeys) :
    ¬ isNew p ∧ lb.path ≤ own p ∧ ∃ la, lastNamed files (remoteKey p.remote) = some la ∧ la.path = own p := by
  have hsome : (lastNamed files (remoteKey p.remote)).isSome = true :=
    KeyIndex.last_isSome_of_mem hlb hkey
  have hlookup : lookupKey files (remoteKey p.remote) (id p) = remoteKey p.remote := by
    unfold lookupKey
    rw [if_pos hsome]
  have hold : ¬ isNew p := by
    intro hnew
    have hnone := (h.new p hp hnew).2
    rw [hlookup] at hnone
    rw [hnone] at hsome
    exact absurd hsome (by simp)
  obtain ⟨la, hlast, hpath⟩ := h.matched p hp hold
  rw [hlookup] at hlast
  refine ⟨hold, ?_, la, hlast, hpath⟩
  rw [← hpath]
  exact (h.last_iff.mp hlast).2.2 lb hlb hkey

/-- Who is registered under a key after the writing: a file that was registered under it before, the
file of the item of that name, or a new file with that id. -/
theorem Reindex.key_cases (h : Reindex files files' pairs id own isNew written) {k : String}
    {c : LoadedAsset X} (hc : c ∈ files') (hkey : k ∈ c.indexKeys) :
    (∃ lb ∈ files, lb.path = c.path ∧ k ∈ lb.indexKeys) ∨
      (∃ q ∈ pairs, written q ∧ remoteKey q.remote = k ∧ c.path = own q) ∨
      (∃ q ∈ pairs, isNew q ∧ id q = k ∧ c.path = own q) := by
  by_cases htouched : ∃ q ∈ pairs, written q ∧ c.path = own q
  · obtain ⟨q, hq, hwritten, hpath⟩ := htouched
    obtain ⟨la, hla, hlaPath, harm, hnew, hold⟩ := h.file q hq hwritten
    have hsame : c = la := by
      have hranks : (files'.map (·.path)).Nodup := by
        rw [List.Nodup, List.pairwise_map]
        exact h.sorted'.imp fun hlt => ne_of_lt hlt
      exact List.inj_on_of_nodup_map hranks hc hla (hpath.trans hlaPath.symm)
    rw [hsame, indexKeys_of_armKey harm] at hkey
    rcases List.mem_pair.mp hkey with hid | hname
    · by_cases hisNew : isNew q
      · exact .inr (.inr ⟨q, hq, hisNew, by rw [hid, hnew hisNew], hpath⟩)
      · obtain ⟨lb, hlb, hlbPath, hlbId⟩ := hold hisNew
        refine .inl ⟨lb, hlb, hlbPath.trans hpath.symm, ?_⟩
        rw [hid, ← hlbId]
        exact List.mem_cons_self
    · exact .inr (.inl ⟨q, hq, hwritten, hname.symm, hpath⟩)
  · push Not at htouched
    exact .inl ⟨c, (h.untouched c htouched).mp hc, rfl, hkey⟩

/-- The item's own file is registered under its name, unless it was matched by the id alone and
stayed as it was. -/
theorem Reindex.own_registered (h : Reindex files files' pairs id own isNew written)
    {p : RemotePair X} (hp : p ∈ pairs)
    (hreg : written p ∨ lastNamed files (remoteKey p.remote) ≠ none) :
    ∃ la ∈ files', la.path = own p ∧ remoteKey p.remote ∈ la.indexKeys := by
  by_cases hwritten : written p
  · obtain ⟨la, hla, hpath, harm, -, -⟩ := h.file p hp hwritten
    refine ⟨la, hla, hpath, ?_⟩
    rw [indexKeys_of_armKey harm]
    simp
  · obtain ⟨lb, hlast⟩ := Option.ne_none_iff_exists'.mp (hreg.resolve_left hwritten)
    obtain ⟨hlb, hkey, -⟩ := h.last_iff.mp hlast
    obtain ⟨-, -, la, hlast', hpath⟩ := h.lastNamed_of_key hp hlb hkey
    obtain ⟨hla, hlaKey, -⟩ := h.last_iff.mp hlast'
    refine ⟨la, (h.untouched la ?_).mpr hla, hpath, hlaKey⟩
    intro q hq hq' heq
    obtain rfl := h.ownInj p hp q hq (hpath.symm.trans heq)
    exact hwritten hq'

/-- Without a taker an item finds its own file again. -/
theorem Reindex.reaches_own (h : Reindex files files' pairs id own isNew written)
    {p : RemotePair X} (hp : p ∈ pairs) (hfree : ∀ q ∈ pairs, ¬ Takes files id own isNew written p q) :
    ∃ la, lastNamed files' (lookupKey files' (remoteKey p.remote) (id p)) = some la ∧
      la.path = own p := by
  by_cases hreg : written p ∨ lastNamed files (remoteKey p.remote) ≠ none
  · obtain ⟨la, hla, hpath, hkey⟩ := h.own_registered hp hreg
    have hlast : lastNamed files' (remoteKey p.remote) = some la := by
      refine h.last_iff'.mpr ⟨hla, hkey, ?_⟩
      intro c hc hcKey
      rw [hpath]
      rcases h.key_cases hc hcKey with ⟨lb, hlb, hlbPath, hlbKey⟩ | ⟨q, hq, -, hname, hcPath⟩ |
        ⟨q, hq, hnew, hid, hcPath⟩
      · rw [← hlbPath]
        exact (h.lastNamed_of_key hp hlb hlbKey).2.1
      · rw [hcPath, h.nameInj q hq p hp hname]
      · by_cases hother : q = p
        · rw [hcPath, hother]
        · rw [hcPath]
          by_contra hlt
          exact hfree q hq ⟨hnew, hid, hother, .inr (not_le.mp hlt)⟩
    refine ⟨la, ?_, hpath⟩
    unfold lookupKey
    rw [hlast, Option.isSome_some, if_pos rfl, hlast]
  · push Not at hreg
    obtain ⟨hwritten, hnone⟩ := hreg
    have hold : ¬ isNew p := fun hnew => hwritten (h.new p hp hnew).1
    have hnobody : ∀ lb ∈ files, remoteKey p.remote ∉ lb.indexKeys := KeyIndex.last_eq_none_iff.mp hnone
    have hnone' : lastNamed files' (remoteKey p.remote) = none := by
      apply KeyIndex.last_eq_none_iff.mpr
      intro c hc hcKey
      rcases h.key_cases hc hcKey with ⟨lb, hlb, -, hlbKey⟩ | ⟨q, hq, hwrittenq, hname, -⟩ |
        ⟨q, hq, hnew, hid, -⟩
      · exact hnobody lb hlb hlbKey
      · exact hwritten (h.nameInj q hq p hp hname ▸ hwrittenq)
      · have hother : q ≠ p := fun heq => hold (heq ▸ hnew)
        exact hfree q hq ⟨hnew, hid, hother, .inl ⟨hwritten, hnone⟩⟩
    obtain ⟨la, hlast, hpath⟩ := h.matched p hp hold
    have hlookup : lookupKey files (remoteKey p.remote) (id p) = id p := by
      unfold lookupKey
      rw [hnone]
      rfl
    rw [hlookup] at hlast
    obtain ⟨hla, hlaKey, hlaMax⟩ := h.last_iff.mp hlast
    have hlast' : lastNamed files' (id p) = some la := by
      refine h.last_iff'.mpr ⟨?_, hlaKey, ?_⟩
      · refine (h.untouched la ?_).mpr hla
        intro q hq hq' heq
        obtain rfl := h.ownInj p hp q hq (hpath.symm.trans heq)
        exact hwritten hq'
      · intro c hc hcKey
        rcases h.key_cases hc hcKey with ⟨lb, hlb, hlbPath, hlbKey⟩ | ⟨q, hq, hwrittenq, hname, hcPath⟩ |
          ⟨q, hq, hnew, hid, hcPath⟩
        · rw [← hlbPath]
          exact hlaMax lb hlb hlbKey
        · -- An item with that name was matched with the same file, so it is the item itself.
          exfalso
          obtain ⟨-, -, lb, hlastq, hlbPath⟩ := h.lastNamed_of_key hq hla (hname ▸ hlaKey)
          rw [hname, hlast] at hlastq
          have hown : own p = own q := by rw [← hpath, ← hlbPath, Option.some.inj hlastq]
          exact hwritten (h.ownInj p hp q hq hown ▸ hwrittenq)
        · exact absurd (h.idInj q hq p hp hid ▸ hnew) hold
    refine ⟨la, ?_, hpath⟩
    unfold lookupKey
    rw [hnone']
    exact hlast'

/-- With a taker it finds the file of that item. -/
theorem Reindex.reaches_taker (h : Reindex files files' pairs id own isNew written)
    {p q : RemotePair X} (hp : p ∈ pairs) (hq : q ∈ pairs) (ht : Takes files id own isNew written p q) :
    ∃ la, lastNamed files' (lookupKey files' (remoteKey p.remote) (id p)) = some la ∧
      la.path = own q := by
  obtain ⟨la, hla, hpath, harm, hnewId, -⟩ := h.file q hq (h.new q hq ht.new).1
  have hlast : lastNamed files' (remoteKey p.remote) = some la := by
    refine h.last_iff'.mpr ⟨hla, ?_, ?_⟩
    · rw [indexKeys_of_armKey harm, ← ht.name, hnewId ht.new]
      exact List.mem_cons_self
    · intro c hc hcKey
      rw [hpath]
      rcases h.key_cases hc hcKey with ⟨lb, hlb, hlbPath, hlbKey⟩ | ⟨r, hr, hwrittenr, hname, hcPath⟩ |
        ⟨r, hr, hnew, hid, hcPath⟩
      · obtain ⟨-, hle, lb', hlast, -⟩ := h.lastNamed_of_key hp hlb hlbKey
        have hlt : own p < own q := by
          rcases ht.shadows with ⟨-, hnone⟩ | hlt
          · rw [hlast] at hnone
            exact absurd hnone (by simp)
          · exact hlt
        rw [← hlbPath]
        exact hle.trans hlt.le
      · obtain rfl := h.nameInj r hr p hp hname
        rcases ht.shadows with ⟨hnot, -⟩ | hlt
        · exact absurd hwrittenr hnot
        · exact hcPath ▸ hlt.le
      · rw [hcPath, h.idInj r hr q hq (hid.trans ht.name.symm)]
  refine ⟨la, ?_, hpath⟩
  unfold lookupKey
  rw [hlast, Option.isSome_some, if_pos rfl, hlast]

end
end ContentOps
