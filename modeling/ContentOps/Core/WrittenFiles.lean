import ContentOps.Core.WriteDrift

/-! The files that writing a report leaves behind. Each entry writes its own file and its own
sidecar, so the loop of `write_drift` is one write of all of them. -/

namespace ContentOps
open PyData

section
variable {X : Type} [Value.ScalarEq X] [Json.FloatText X]

def entryTarget (base : Path) (entry : DriftEntry X) : Path :=
  entry.localPath.getD (newTarget base entry.asset entry.assetId)

/-- The paths an entry writes to. -/
def writeSet (base : Path) (entry : DriftEntry X) : List Path :=
  match entry.envelope with
  | none => []
  | some envelope =>
    entryTarget base entry ::
      (splitSidecarFiles envelope).2.map fun sidecar => (entryTarget base entry).sibling sidecar.1

/-- The envelope that goes to the file of an entry; `none` is an exception. -/
def keptEnvelope (libs : Libs X) (digits : Digits) (tree : FileTree) (entry : DriftEntry X)
    (envelope : Document X) : Option (Document X) :=
  let (envelope, sidecars) := splitSidecarFiles envelope
  match entry.localPath with
  | some path => preserveLocal libs digits tree path sidecars envelope
  | none => some envelope

/-- What an entry writes. -/
def entryFiles (libs : Libs X) (digits : Digits) (tree : FileTree) (base : Path)
    (entry : DriftEntry X) : Option (Dict Path Text) :=
  match entry.envelope with
  | none => some []
  | some envelope => (keptEnvelope libs digits tree entry envelope).map fun kept =>
      (entryTarget base entry, dumpEnvelopeYaml libs kept) ::
        (splitSidecarFiles envelope).2.map fun sidecar =>
          ((entryTarget base entry).sibling sidecar.1, sidecar.2)

variable {libs : Libs X} {digits : Digits} {tree tree' : FileTree} {base : Path}

theorem keys_entryFiles {entry : DriftEntry X} {files : Dict Path Text}
    (h : entryFiles libs digits tree base entry = some files) :
    Dict.keys files = writeSet base entry := by
  unfold entryFiles at h
  unfold writeSet
  split at h
  · obtain rfl := Option.some.inj h
    rfl
  · obtain ⟨kept, -, rfl⟩ := Option.map_eq_some_iff.mp h
    simp [Dict.keys, Function.comp_def]

/-! ## One entry -/

/-- A sidecar that has its text already need not be written. -/
theorem foldl_writeSidecar (target : Path) (sidecars : Sidecars) (state : FileTree × List Path) :
    (sidecars.foldl (writeSidecar target) state).1 =
      state.1.writeAll (sidecars.map fun sidecar => (target.sibling sidecar.1, sidecar.2)) := by
  induction sidecars generalizing state with
  | nil => rfl
  | cons sidecar sidecars ih =>
    have hstep : (writeSidecar target state sidecar).1 =
        state.1.write (target.sibling sidecar.1) sidecar.2 := by
      unfold writeSidecar
      split_ifs with hchanged
      · rfl
      · have hread : state.1.read (target.sibling sidecar.1) = some sidecar.2 := by
          unfold sidecarChanged at hchanged
          simpa using hchanged
        exact (Directory.write_of_read hread).symm
    rw [List.foldl_cons, ih, hstep]
    rfl

theorem writeEntry_eq (state : FileTree × List Path) (entry : DriftEntry X) :
    (writeEntry libs digits base state entry).map (·.1) =
      (entryFiles libs digits state.1 base entry).map state.1.writeAll := by
  unfold writeEntry entryFiles keptEnvelope entryTarget
  cases entry.envelope with
  | none => rfl
  | some envelope =>
    cases hsplit : splitSidecarFiles envelope with
    | mk rest sidecars =>
      cases entry.localPath with
      | none =>
        simp [foldl_writeSidecar]
        rfl
      | some path =>
        cases hkept : preserveLocal libs digits state.1 path sidecars rest with
        | none => simp [hsplit, hkept]
        | some kept =>
          simp [hsplit, hkept, foldl_writeSidecar]
          rfl

/-! ## What an entry reads -/

omit [Value.ScalarEq X] [Json.FloatText X] in
theorem localDocument_congr {path : Path} (h : tree.read path = tree'.read path) :
    localDocument libs tree path = localDocument libs tree' path := by
  unfold localDocument
  rw [h]

omit [Json.FloatText X] in
theorem bumpForChangedSidecars_congr {path : Path} {doc envelope : Document X} {sidecars : Sidecars}
    (h : ∀ sidecar ∈ sidecars, tree.read (path.sibling sidecar.1) = tree'.read (path.sibling sidecar.1)) :
    bumpForChangedSidecars digits tree path doc sidecars envelope =
      bumpForChangedSidecars digits tree' path doc sidecars envelope := by
  have hany : sidecars.any (sidecarChanged tree path) = sidecars.any (sidecarChanged tree' path) := by
    rw [Bool.eq_iff_iff, List.any_eq_true, List.any_eq_true]
    unfold sidecarChanged
    constructor
    · rintro ⟨sidecar, hmem, hchanged⟩
      exact ⟨sidecar, hmem, by rwa [← h sidecar hmem]⟩
    · rintro ⟨sidecar, hmem, hchanged⟩
      exact ⟨sidecar, hmem, by rwa [h sidecar hmem]⟩
  unfold bumpForChangedSidecars
  rw [hany]

/-- An entry reads only what it writes. -/
theorem entryFiles_congr {entry : DriftEntry X}
    (h : ∀ path ∈ writeSet base entry, tree.read path = tree'.read path) :
    entryFiles libs digits tree base entry = entryFiles libs digits tree' base entry := by
  unfold entryFiles keptEnvelope
  unfold writeSet at h
  cases henvelope : entry.envelope with
  | none => rfl
  | some envelope =>
    rw [henvelope] at h
    dsimp only at h ⊢
    cases hlocal : entry.localPath with
    | none => rfl
    | some path =>
      have htarget : entryTarget base entry = path := by
        unfold entryTarget
        rw [hlocal]
        rfl
      rw [htarget] at h
      have hdoc : localDocument libs tree path = localDocument libs tree' path :=
        localDocument_congr (h path List.mem_cons_self)
      have hsidecars : ∀ sidecar ∈ (splitSidecarFiles envelope).2,
          tree.read (path.sibling sidecar.1) = tree'.read (path.sibling sidecar.1) :=
        fun sidecar hmem => h _ (List.mem_cons_of_mem _ (List.mem_map_of_mem hmem))
      dsimp only
      unfold preserveLocal
      rw [hdoc]
      cases localDocument libs tree' path with
      | none => rfl
      | some doc =>
        have hbump : bumpForChangedSidecars digits tree path doc (splitSidecarFiles envelope).2 =
            bumpForChangedSidecars digits tree' path doc (splitSidecarFiles envelope).2 := by
          funext kept
          exact bumpForChangedSidecars_congr hsidecars
        dsimp only
        rw [hbump]

/-! ## The whole report -/

/-- Where no two entries write to one path, the loop writes what each of them writes to the files as
they are at the start. -/
theorem foldlM_writeEntry {files : DriftEntry X → Dict Path Text} {entries : List (DriftEntry X)}
    (hfiles : ∀ e ∈ entries, entryFiles libs digits tree base e = some (files e))
    (hdisjoint : entries.Pairwise fun e e' => List.Disjoint (writeSet base e) (writeSet base e'))
    (hnodup : ∀ e ∈ entries, (writeSet base e).Nodup) (state : FileTree × List Path)
    (hstate : ∀ e ∈ entries, ∀ path ∈ writeSet base e, state.1.read path = tree.read path) :
    ∃ paths, entries.foldlM (writeEntry libs digits base) state =
      some (state.1.writeAll (entries.flatMap files), paths) := by
  induction entries generalizing state with
  | nil => exact ⟨state.2, rfl⟩
  | cons e entries ih =>
    obtain ⟨hfile, hfiles⟩ := List.forall_mem_cons.mp hfiles
    obtain ⟨hapart, hdisjoint⟩ := List.pairwise_cons.mp hdisjoint
    obtain ⟨hself, hnodup⟩ := List.forall_mem_cons.mp hnodup
    obtain ⟨hread, hstate⟩ := List.forall_mem_cons.mp hstate
    have hwritten : (writeEntry libs digits base state e).map (·.1) =
        some (state.1.writeAll (files e)) := by
      rw [writeEntry_eq, entryFiles_congr hread, hfile]
      rfl
    obtain ⟨next, hnext, htree⟩ := Option.map_eq_some_iff.mp hwritten
    -- The entries that follow find their own files as they were.
    have hothers : ∀ e' ∈ entries, ∀ path ∈ writeSet base e', next.1.read path = tree.read path := by
      intro e' he' path hpath
      have hkeys := keys_entryFiles hfile
      have hnot : path ∉ Dict.keys (files e) := by
        rw [hkeys]
        exact fun hmem => hapart e' he' hmem hpath
      rw [htree, Directory.read_writeAll_of_notMem (hkeys ▸ hself) _ hnot]
      exact hstate e' he' path hpath
    obtain ⟨paths, hrun⟩ := ih hfiles hdisjoint hnodup next hothers
    refine ⟨paths, ?_⟩
    rw [List.foldlM_cons, hnext, Option.bind_eq_bind, Option.bind_some, hrun, htree,
      List.flatMap_cons, Directory.writeAll_append]

end
end ContentOps
