import ContentOps.Core.DriftMatch

/-! The entries of a drift report, taken apart: the envelope of an item among the others, the file
it is matched with and the kind of its entry. -/

namespace ContentOps
open PyData

section
variable {X : Type}

theorem disambiguate_eq_empty {slug armName : String} (h : Slug.disambiguate slug armName = "") :
    slug = "" := by
  unfold Slug.disambiguate at h
  dsimp only at h
  split_ifs at h with hsuffix hbase
  · exact h
  all_goals
    have hnil := congrArg String.toList h
    rw [String.toList_ofList] at hnil
    simp_all

/-- The id of an item among `envelopes` is empty only where the envelope came without one. -/
theorem textAt_disambiguateId_eq_empty {envelopes : List (Document X)} {e : Document X}
    (h : Value.textAt (disambiguateId envelopes e) "id" = "") : Value.textAt e "id" = "" := by
  unfold disambiguateId at h
  split_ifs at h
  · refine disambiguate_eq_empty (?_ : Slug.disambiguate _ (envelopeArmName e) = "")
    simpa [Value.textAt] using h
  · exact h

theorem orText_disambiguateId (envelopes : List (Document X)) (e : Document X) :
    orText (Value.textAt (disambiguateId envelopes e) "id") (Value.textAt e "id") =
      Value.textAt (disambiguateId envelopes e) "id" := by
  unfold orText
  split_ifs with h
  · rw [h, textAt_disambiguateId_eq_empty h]
  · rfl

theorem disambiguateId_perm {envelopes envelopes' : List (Document X)}
    (h : envelopes.Perm envelopes') : disambiguateId envelopes = disambiguateId envelopes' := by
  funext e
  unfold disambiguateId
  rw [(h.map envelopeKey).count_eq]

/-- The id is all that telling an envelope apart changes. -/
theorem disambiguateId_eq_set {envelopes : List (Document X)} {e : Document X} {assetId : String}
    (h : Value.textAt (disambiguateId envelopes e) "id" = assetId) (hne : assetId ≠ "") :
    disambiguateId envelopes e = e.set "id" (.str assetId) := by
  unfold disambiguateId at h ⊢
  split_ifs at h ⊢
  · rw [← h]
    simp [Value.textAt]
  · have hid : e.get? "id" = some (.str assetId) := by
      unfold Value.textAt at h
      split at h
      · next s hs => rw [hs, h]
      · exact absurd h.symm hne
    exact (Dict.set_eq_self hid).symm

/-- The envelopes of some items, each with its item. -/
def envelopePairs (h : DriftHandler X) (items : List (Document X)) : List (RemotePair X) :=
  items.filterMap fun r => (h.toEnvelope r).map (⟨·, r⟩)

theorem remotePairs_perm (h : DriftHandler X) {items items' : List (Document X)}
    (hitems : items'.Perm items) : (remotePairs h items').Perm (envelopePairs h items) := by
  have hsort : (remotePairs h items').Perm (envelopePairs h items') := List.perm_insertionSort _ _
  exact hsort.trans (hitems.filterMap _)

variable [Value.ScalarEq X]

/-- An entry has the id of its item. -/
theorem driftEntry_assetId {asset : Asset} {index : LocalIndex X} {p : RemotePair X} {id : String} :
    (driftEntry asset index p id).elim "" (·.assetId) = orText id (Value.textAt p.envelope "id") := by
  unfold driftEntry
  dsimp only
  generalize orText id (Value.textAt p.envelope "id") = assetId
  split_ifs with hid
  · exact hid.symm
  · cases matchLocal index p.remote assetId with
    | none => rfl
    | some m =>
      dsimp only
      split_ifs <;> rfl

/-- What an entry reports of an item with this envelope and id. -/
inductive Reports (asset : Asset) (index : LocalIndex X) (remote envelope : Document X)
    (assetId : String) : DriftEntry X → Prop where
  | new (hmatch : matchLocal index remote assetId = none) :
    Reports asset index remote envelope assetId
      { asset, assetId, kind := .new, envelope := some envelope }
  | inSync (path : Path) (payload : Value X)
    (hmatch : matchLocal index remote assetId = some (path, payload))
    (hsame : payloadsMatch payload ((Dict.get? envelope "payload").getD (.dict [])) = true) :
    Reports asset index remote envelope assetId
      { asset, assetId, kind := .inSync, localPath := some path }
  | changed (path : Path) (payload : Value X)
    (hmatch : matchLocal index remote assetId = some (path, payload))
    (hdiff : payloadsMatch payload ((Dict.get? envelope "payload").getD (.dict [])) = false) :
    Reports asset index remote envelope assetId
      { asset, assetId, kind := .changed, envelope := some envelope, localPath := some path }

theorem reports_driftEntry {asset : Asset} {index : LocalIndex X} {envelopes : List (Document X)}
    {p : RemotePair X} {e : DriftEntry X}
    (h : driftEntry asset index p (Value.textAt (disambiguateId envelopes p.envelope) "id") = some e) :
    Value.textAt (disambiguateId envelopes p.envelope) "id" ≠ "" ∧
      Reports asset index p.remote (disambiguateId envelopes p.envelope)
        (Value.textAt (disambiguateId envelopes p.envelope) "id") e := by
  unfold driftEntry at h
  dsimp only at h
  rw [orText_disambiguateId] at h
  generalize hid : Value.textAt (disambiguateId envelopes p.envelope) "id" = assetId at h ⊢
  split_ifs at h with hempty
  rw [disambiguateId_eq_set hid hempty]
  refine ⟨hempty, ?_⟩
  cases hmatch : matchLocal index p.remote assetId with
  | none =>
    rw [hmatch] at h
    obtain rfl := Option.some.inj h
    exact .new hmatch
  | some found =>
    obtain ⟨path, payload⟩ := found
    rw [hmatch] at h
    dsimp only at h
    split_ifs at h with hsame
    · obtain rfl := Option.some.inj h
      exact .inSync path payload hmatch hsame
    · obtain rfl := Option.some.inj h
      exact .changed path payload hmatch (Bool.eq_false_of_not_eq_true hsame)

variable [Json.FloatText X] {libs : Libs X} {tree : FileTree} {base : Path} {h : DriftHandler X}

theorem mem_handlerEntries {items : List (Document X)} (hlist : h.listRemote = .ok items)
    {e : DriftEntry X} : e ∈ handlerEntries libs tree base h ↔
      ∃ p ∈ envelopePairs h items, entryOf libs tree base h items p = some e := by
  rw [handlerEntries_eq libs tree base h hlist, List.mem_filterMap]
  simp only [(remotePairs_perm h (List.Perm.refl items)).mem_iff]

/-- The id of an item in the report is its id among all envelopes of the listing. -/
theorem entryOf_eq (items : List (Document X)) (p : RemotePair X) :
    entryOf libs tree base h items p =
      driftEntry h.asset (localIndex libs tree base h.asset) p
        (Value.textAt (disambiguateId ((envelopePairs h items).map (·.envelope)) p.envelope) "id") := by
  unfold entryOf
  rw [disambiguateId_perm ((remotePairs_perm h (List.Perm.refl items)).map (·.envelope))]

/-- The envelope of an item, with its id told apart from the others of the listing. -/
def itemEnvelope (h : DriftHandler X) (items : List (Document X)) (p : RemotePair X) : Document X :=
  disambiguateId ((envelopePairs h items).map (·.envelope)) p.envelope

theorem reports_of_mem {items : List (Document X)} (hlist : h.listRemote = .ok items)
    {e : DriftEntry X} (he : e ∈ handlerEntries libs tree base h) :
    ∃ p ∈ envelopePairs h items, Value.textAt (itemEnvelope h items p) "id" ≠ "" ∧
      Reports h.asset (localIndex libs tree base h.asset) p.remote (itemEnvelope h items p)
        (Value.textAt (itemEnvelope h items p) "id") e := by
  obtain ⟨p, hp, hentry⟩ := (mem_handlerEntries hlist).mp he
  rw [entryOf_eq] at hentry
  exact ⟨p, hp, reports_driftEntry hentry⟩

end
end ContentOps
