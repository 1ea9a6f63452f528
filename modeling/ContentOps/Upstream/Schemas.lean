import ContentOps.Core.RoundTrip
import ContentOps.Library.Interleaving
import ContentOps.Upstream.DefenderSchema

/-! The table schemas that the strict lint reads, `tools/kql_strict/schemas.json` and
`schemas_defender.json`, and the commands of `cli/commands/upstream.py` that refresh them. -/

namespace ContentOps.Upstream
open PyData

/-- What `config/lint_strict.yml` says of the refreshes. -/
structure LintStrictConfig where
  off : Bool
  sentinelEnabled : Bool
  defenderEnabled : Bool
  refreshOnPr : Bool
  schemaExcludeTables : List String

/-- A table of the metadata: its entry, and the entries of its columns. -/
structure RawTable (X : Type) where
  entry : Document X
  columns : List (Document X)

section
variable {X : Type} [Value.ScalarEq X] (str : Value X → String)

/-- A column without a name or a type is dropped. -/
def readColumn (column : Document X) : Option (String × String) :=
  let name := strippedText str column "name"
  let type := strippedText str column "type"
  if name = "" ∨ type = "" then none else some (name, type)

/-- `fetch_schemas`, once the service answered. -/
def fetchSchemas (raw : List (RawTable X)) : List Table :=
  let tables := raw.filterMap fun t =>
    let name := strippedText str t.entry "name"
    if name = "" then none else some ⟨name, t.columns.filterMap (readColumn str)⟩
  tables.insertionSort fun a b => a.name ≤ b.name

/-- A name that one of the patterns matches; `globs` is `fnmatch.fnmatch`. -/
def excluded (globs : String → String → Bool) (lower : String → String) (patterns : List String)
    (name : String) : Bool :=
  name ≠ "" && ((patterns.filter (· ≠ "")).map lower).any fun p => globs (lower name) p

/-- The tables that `filter_excluded_tables` keeps. -/
def keptTables (globs : String → String → Bool) (lower : String → String) (patterns : List String)
    (tables : List Table) : List Table :=
  if patterns = [] then tables else tables.filter fun t => !excluded globs lower patterns t.name

variable [Json.FloatText X]

/-- `_load_schemas_tables`; `none` is an exception. -/
def loadSchemasTables (file : Option Text) : Option (List (Value X)) :=
  match file with
  | none => some []
  | some text =>
    if Text.isBlank text then some []
    else
      match (Json.loads text : Option (Value X)) with
      | some (.dict data) =>
        match (Value.get data "tables").orElse (.list []) with
        | .list tables => some tables
        | _ => none
      | _ => none

/-- What `_write_schemas_manifest` writes. -/
def schemasText (database : String) (tables : List (Document X)) : Text :=
  fileText [("schema_version", .int 1), ("database", .str database),
    ("tables", .list ((sortedByName str tables).map .dict))]

/-- The tables of a file, where it can be read and every one is a mapping. -/
def tablesOf (file : Option Text) : Option (List (Document X)) :=
  (loadSchemasTables file).bind (List.mapM Value.dict?)

/-! ## The commands -/

structure SchemaFiles where
  sentinel : Option Text
  defender : Option Text

/-- A call of a command, with what the services answer; `none` is a fetch that failed. -/
inductive Command (X : Type) where
  | checkSchemas (write : Bool) (database : String) (raw : Option (List (RawTable X)))
  | checkDefenderSchema (write : Bool) (database : String) (post : String → Option (Response X))
  | prePrRefresh (raw : Option (List (RawTable X))) (post : String → Option (Response X))

def schemasDatabaseName : String := "SentinelDefender"

/-- A file after a call that compares before it writes. -/
def writeChanged (write : Bool) (database : String) (new : Option (List (Document X)))
    (file : Option Text) : Option Text :=
  match tablesOf file, new with
  | some old, some new =>
    if write && !(computeDiff str old new).isEmpty then some (schemasText str database new) else file
  | _, _ => file

variable (repr : String → Text) (lower : String → String) (globs : String → String → Bool)
  (config : LintStrictConfig)

def step : Command X → SchemaFiles → SchemaFiles
  | .checkSchemas write database raw, files =>
    if config.off || !config.sentinelEnabled then files
    else
      { files with
        sentinel := writeChanged str write database
          (raw.map fun raw => (keptTables globs lower config.schemaExcludeTables
            (fetchSchemas str raw)).map Table.entry) files.sentinel }
  | .checkDefenderSchema write database post, files =>
    if config.off || !config.defenderEnabled || ((tablesOf (X := X) files.defender).getD []).isEmpty
    then files
    else
      { files with
        defender := writeChanged str write database
          ((tablesOf files.defender).bind
            (mergeDefender str (fetchTableSchema str repr lower post))) files.defender }
  | .prePrRefresh raw post, files =>
    if config.off || !config.refreshOnPr then files
    else
      { sentinel :=
          match config.sentinelEnabled, raw with
          | true, some raw =>
            some (schemasText str schemasDatabaseName ((fetchSchemas str raw).map Table.entry))
          | _, _ => files.sentinel
        defender :=
          match config.defenderEnabled && files.defender.isSome,
            (tablesOf files.defender).bind
              (mergeDefender str (fetchTableSchema str repr lower post)) with
          | true, some merged => some (schemasText str schemasDatabaseName merged)
          | _, _ => files.defender }

abbrev SchemaFiles.after (files : SchemaFiles) (commands : List (Command X)) : SchemaFiles :=
  Interleaving.run (step str repr lower globs config) files commands

/-! ## What a file gives back -/

omit [Json.FloatText X] in
theorem tables_eq_of_orElse {v : Value X} {tables : List (Value X)}
    (h : v = .list tables) : v.orElse (.list []) = .list tables := by
  subst h
  cases tables <;> simp [Value.orElse, Value.truthy]

theorem tablesOf_schemasText (database : String) {tables : List (Document X)}
    (h : ∀ t ∈ tables, (Value.dict t).WF) :
    (tablesOf (some (schemasText str database tables)) : Option (List (Document X))) =
      some ((sortedByName str tables).map reloaded) := by
  have hwf : (Value.dict [("schema_version", .int 1), ("database", .str database),
      ("tables", .list ((sortedByName str tables).map .dict))] : Value X).WF :=
    ⟨by simp [Dict.keys], trivial, trivial, wfList_sortedByName str h, trivial⟩
  have htables : (Value.get (reloaded [("schema_version", .int 1), ("database", .str database),
      ("tables", .list ((sortedByName str tables).map .dict))] : Document X) "tables").orElse
        (.list []) = .list (((sortedByName str tables).map reloaded).map .dict) := by
    refine tables_eq_of_orElse ?_
    rw [Value.get, get?_reloaded hwf]
    exact sortKeys_list_dict _
  simp only [tablesOf, loadSchemasTables, schemasText, isBlank_fileText, loads_fileText hwf,
    htables, Bool.false_eq_true, if_false, Option.bind_some, mapM_dict?_map]

/-! ## The tables that are kept out of `schemas.json` -/

/-- A file holds a table that the configuration excludes. -/
def holdsExcluded (file : Option Text) : Bool :=
  (((tablesOf file).getD [] : List (Document X)).any fun t =>
    excluded globs lower config.schemaExcludeTables (entryName str t))

/-- Whether `schemas.json` holds such a table after a command. -/
def excludedAfter (held : Bool) : Command X → Bool
  | .checkSchemas write _ raw =>
    if config.off || !config.sentinelEnabled || !write || raw.isNone then held else false
  | .prePrRefresh raw _ =>
    if config.off || !config.refreshOnPr || !config.sentinelEnabled then held
    else
      match raw with
      | none => held
      | some raw => (fetchSchemas str raw).any fun t =>
        excluded globs lower config.schemaExcludeTables t.name
  | .checkDefenderSchema _ _ _ => held

theorem not_excluded_of_mem_keptTables {patterns : List String} {tables : List Table} {t : Table}
    (h : t ∈ keptTables globs lower patterns tables) :
    excluded globs lower patterns t.name = false := by
  unfold keptTables at h
  split_ifs at h with hnil
  · simp [excluded, hnil]
  · simpa using (List.mem_filter.mp h).2

theorem holdsExcluded_schemasText (database : String) (tables : List Table) :
    holdsExcluded (X := X) str lower globs config
        (some (schemasText str database (tables.map Table.entry))) =
      tables.any fun t => excluded globs lower config.schemaExcludeTables t.name := by
  have hwf : ∀ t ∈ tables.map (Table.entry (X := X)), (Value.dict t).WF :=
    List.forall_mem_map.mpr fun t _ => t.wf_entry
  rw [holdsExcluded, tablesOf_schemasText str database hwf, Option.getD_some, Bool.eq_iff_iff,
    List.any_eq_true, List.any_eq_true]
  simp only [List.mem_map, sortedByName, List.mem_insertionSort]
  constructor
  · rintro ⟨-, ⟨-, ⟨t, ht, rfl⟩, rfl⟩, hexcluded⟩
    rw [t.named_entry.entryName_reloaded, Table.entryName_entry] at hexcluded
    exact ⟨t, ht, hexcluded⟩
  · rintro ⟨t, ht, hexcluded⟩
    refine ⟨_, ⟨_, ⟨t, ht, rfl⟩, rfl⟩, ?_⟩
    rwa [t.named_entry.entryName_reloaded, Table.entryName_entry]

theorem holdsExcluded_writeChanged (database : String) (tables : List Table)
    (file : Option Text) :
    holdsExcluded (X := X) str lower globs config (writeChanged str true database
      (some ((keptTables globs lower config.schemaExcludeTables tables).map Table.entry)) file) =
        false := by
  have hkept : ∀ t ∈ keptTables globs lower config.schemaExcludeTables tables,
      excluded globs lower config.schemaExcludeTables t.name = false :=
    fun t ht => not_excluded_of_mem_keptTables lower globs ht
  unfold writeChanged
  cases hold : (tablesOf file : Option (List (Document X))) with
  | none => simp [holdsExcluded, hold]
  | some old =>
    cases hempty : (computeDiff str old ((keptTables globs lower config.schemaExcludeTables
        tables).map Table.entry)).isEmpty with
    | false =>
      simp only [hempty, Bool.not_false, Bool.and_self, if_true]
      rw [holdsExcluded_schemasText, List.any_eq_false]
      exact fun t ht => Bool.not_eq_true _ ▸ hkept t ht
    | true =>
      -- Nothing is written, for the names of the file are the names that were kept.
      simp only [hempty, Bool.not_true, Bool.and_false, Bool.false_eq_true, if_false]
      rw [holdsExcluded, hold, Option.getD_some, List.any_eq_false]
      intro t ht
      have hname := (isEmpty_computeDiff_iff str _ _).mp hempty (entryName str t)
      cases hget : (byName str old).get? (entryName str t) with
      | none => exact absurd rfl ((get?_byName_eq_none_iff str).mp hget t ht)
      | some prior =>
        rw [hget] at hname
        cases hgetNew : (byName str ((keptTables globs lower config.schemaExcludeTables
            tables).map Table.entry)).get? (entryName str t) with
        | none => rw [hgetNew] at hname; cases hname
        | some entry =>
          obtain ⟨new, hnew, rfl⟩ := List.mem_map.mp (mem_of_get?_byName str hgetNew)
          rw [← entryName_of_get?_byName str hgetNew, Table.entryName_entry, hkept new hnew]
          exact Bool.false_ne_true

theorem holdsExcluded_step (command : Command X) (files : SchemaFiles) :
    holdsExcluded (X := X) str lower globs config
        (step str repr lower globs config command files).sentinel =
      excludedAfter str lower globs config
        (holdsExcluded (X := X) str lower globs config files.sentinel) command := by
  cases command with
  | checkSchemas write database raw =>
    unfold step excludedAfter
    cases config.off <;> cases config.sentinelEnabled <;> try rfl
    cases raw with
    | none => cases htables : (tablesOf files.sentinel : Option (List (Document X))) <;>
        simp [writeChanged, htables]
    | some raw =>
      cases write with
      | false => cases htables : (tablesOf files.sentinel : Option (List (Document X))) <;>
          simp [writeChanged, htables]
      | true => exact holdsExcluded_writeChanged ..
  | checkDefenderSchema write database post =>
    unfold step excludedAfter
    dsimp only
    split <;> rfl
  | prePrRefresh raw post =>
    unfold step excludedAfter
    cases config.off <;> cases config.refreshOnPr <;> try rfl
    cases hsentinel : config.sentinelEnabled <;> try rfl
    cases raw with
    | none => rfl
    | some raw => exact holdsExcluded_schemasText ..

/-- After any commands, `schemas.json` holds an excluded table exactly where the last refresh that
went through was that of a pull request and fetched one. -/
theorem holdsExcluded_after (files : SchemaFiles) (commands : List (Command X)) :
    holdsExcluded (X := X) str lower globs config
        (files.after str repr lower globs config commands).sentinel =
      commands.foldl (excludedAfter str lower globs config)
        (holdsExcluded (X := X) str lower globs config files.sentinel) := by
  induction commands generalizing files with
  | nil => rfl
  | cons command commands ih =>
    exact (ih _).trans (congrArg (commands.foldl _) (holdsExcluded_step ..))

/-! ## The tables of `schemas_defender.json` -/

/-- The refresh of the Defender tables that a command makes, with what Graph answers. -/
def defenderRefresh : Command X → Option (String → Option (Response X))
  | .checkSchemas _ _ _ => none
  | .checkDefenderSchema write _ post =>
    if config.off || !config.defenderEnabled || !write then none else some post
  | .prePrRefresh _ post =>
    if config.off || !config.refreshOnPr || !config.defenderEnabled then none else some post

/-- The tables after a command: all or none of the answers count. -/
def refreshedTables (tables : Dict String (Document X)) (command : Command X) :
    Dict String (Document X) :=
  match defenderRefresh config command with
  | none => tables
  | some post =>
    let fetcher := fetchTableSchema str repr lower post
    if tables.any fun p => aborts fetcher p.1 then tables
    else tables.map fun p => (p.1, refreshedAs fetcher p.1 p.2)

/-- The file holds these tables, as Python compares them. -/
def DefenderHolds (file : Option Text) (tables : Dict String (Document X)) : Prop :=
  ∃ stored, tablesOf file = some stored ∧ (∀ t ∈ stored, TableEntry t) ∧
    ∀ name, Option.Rel (fun t u => Value.pyEq (.dict t) (.dict u) = true)
      ((byName str stored).get? name) (tables.get? name)

omit [Value.ScalarEq X] [Json.FloatText X] in
theorem get?_map_refreshedAs (fetcher : String → Except SchemaFailure (List (String × String)))
    (tables : Dict String (Document X)) (name : String) :
    Dict.get? (tables.map fun p => (p.1, refreshedAs fetcher p.1 p.2)) name =
      (tables.get? name).map (refreshedAs fetcher name) := by
  induction tables with
  | nil => rfl
  | cons p tables ih =>
    rw [List.map_cons, Dict.get?_cons, Dict.get?_cons]
    split_ifs with hname
    · rw [hname]
      rfl
    · exact ih

omit [Json.FloatText X] in
theorem pyEqItems_columns (columns : List (String × String)) :
    Value.pyEqItems (columns.map columnValue : List (Value X)) (columns.map columnValue) = true := by
  induction columns with
  | nil => simp [Value.pyEqItems]
  | cons column columns ih => simp [Value.pyEqItems, columnValue, Value.pyEq, Value.pyEqEntries, ih]

omit [Json.FloatText X] in
theorem pyEq_refreshedAs (fetcher : String → Except SchemaFailure (List (String × String)))
    (name : String) {t u : Document X} (h : Value.pyEq (.dict t) (.dict u) = true) :
    Value.pyEq (.dict (refreshedAs fetcher name t)) (.dict (refreshedAs fetcher name u)) = true := by
  unfold refreshedAs
  cases fetcher name with
  | ok columns => simp [Table.entry, Value.pyEq, Value.pyEqEntries, pyEqItems_columns]
  | error e => exact h

omit [Json.FloatText X] in
/-- The names of the tables decide whether a refresh raises. -/
theorem any_aborts_eq {stored : List (Document X)} {tables : Dict String (Document X)}
    (h : ∀ name, Option.Rel (fun t u => Value.pyEq (.dict t) (.dict u) = true)
      ((byName str stored).get? name) (tables.get? name))
    (fetcher : String → Except SchemaFailure (List (String × String))) :
    (stored.any fun t => aborts fetcher (entryName str t)) =
      tables.any fun p => aborts fetcher p.1 := by
  have hnames : ∀ name, (∃ t ∈ stored, entryName str t = name) ↔ name ∈ tables.keys := by
    intro name
    have hnone : (byName str stored).get? name = none ↔ tables.get? name = none := by
      have hname := h name
      revert hname
      generalize (byName str stored).get? name = a
      generalize tables.get? name = b
      rintro (_ | _) <;> simp
    rw [get?_byName_eq_none_iff, Dict.get?_eq_none_iff] at hnone
    rw [← not_iff_not, ← hnone]
    simp
  rw [Bool.eq_iff_iff, List.any_eq_true, List.any_eq_true]
  constructor
  · rintro ⟨t, ht, haborts⟩
    obtain ⟨p, hp, hname⟩ := List.mem_map.mp ((hnames _).mp ⟨t, ht, rfl⟩)
    exact ⟨p, hp, hname ▸ haborts⟩
  · rintro ⟨p, hp, haborts⟩
    obtain ⟨t, ht, hname⟩ := (hnames p.1).mpr (List.mem_map_of_mem hp)
    exact ⟨t, ht, hname ▸ haborts⟩

/-- A refresh as either command makes it: it raises, or what it would write holds the tables after
it, and so does what is there already where the two compare equal. -/
theorem DefenderHolds.merge {file : Option Text} {tables : Dict String (Document X)}
    (h : DefenderHolds str file tables)
    (fetcher : String → Except SchemaFailure (List (String × String))) (database : String) :
    ∃ stored, tablesOf file = some stored ∧
      match mergeDefender str fetcher stored with
      | none => tables.any (fun p => aborts fetcher p.1) = true
      | some merged => tables.any (fun p => aborts fetcher p.1) = false ∧
        DefenderHolds str (some (schemasText str database merged))
          (tables.map fun p => (p.1, refreshedAs fetcher p.1 p.2)) ∧
        ((computeDiff str stored merged).isEmpty = true →
          DefenderHolds str file (tables.map fun p => (p.1, refreshedAs fetcher p.1 p.2))) := by
  obtain ⟨stored, hstored, htables, hrel⟩ := h
  refine ⟨stored, hstored, ?_⟩
  have haborts := any_aborts_eq str hrel fetcher
  cases hmerged : mergeDefender str fetcher stored with
  | none =>
    rw [mergeDefender_eq str htables] at hmerged
    split_ifs at hmerged with hany
    exact haborts ▸ hany
  | some merged =>
    obtain ⟨hentries, hbyName⟩ := byName_mergeDefender str htables hmerged
    rw [mergeDefender_eq str htables] at hmerged
    split_ifs at hmerged with hany
    refine ⟨haborts ▸ Bool.eq_false_iff.mpr hany, ⟨_, tablesOf_schemasText str database
      fun t ht => (hentries t ht).wf, fun t ht => ?_, fun name => ?_⟩, fun hempty => ?_⟩
    · obtain ⟨u, hu, rfl⟩ := List.mem_map.mp ht
      exact (hentries u ((List.mem_insertionSort _).mp hu)).reloaded
    · rw [byName_reloaded str fun t ht => (hentries t ht).named, hbyName, get?_map_refreshedAs,
        Option.map_map]
      refine rel_map (hrel name) fun t u hget heq => ?_
      have hmem : refreshedAs fetcher name t ∈ merged :=
        mem_of_get?_byName str (by rw [hbyName, hget]; rfl)
      have hsorted := Value.pyEq_sortKeys (.dict (refreshedAs fetcher name t)) (hentries _ hmem).wf
      rw [Value.sortKeys_dict] at hsorted
      exact (hsorted _).trans (pyEq_refreshedAs fetcher name heq)
    · refine ⟨stored, hstored, htables, fun name => ?_⟩
      have hsame := (isEmpty_computeDiff_iff str stored merged).mp hempty name
      rw [hbyName] at hsame
      rw [get?_map_refreshedAs, ← Option.map_id_apply (x := (byName str stored).get? name)]
      refine rel_map (hrel name) fun t u hget heq => ?_
      rw [hget, Option.map_some, Option.rel_some_some] at hsame
      unfold refreshedAs at hsame ⊢
      cases hfetch : fetcher name with
      | ok columns => rwa [hfetch] at hsame
      | error e => exact heq

theorem DefenderHolds.eq_nil {file : Option Text} {tables : Dict String (Document X)}
    (h : DefenderHolds str file tables) (hfile : tablesOf file = some ([] : List (Document X))) :
    tables = [] := by
  obtain ⟨stored, hstored, -, hrel⟩ := h
  obtain rfl := Option.some.inj (hfile.symm.trans hstored)
  cases tables with
  | nil => rfl
  | cons p tables =>
    have hname := hrel p.1
    rw [Dict.get?_cons, if_pos rfl] at hname
    cases hname

theorem DefenderHolds.step {files : SchemaFiles} {tables : Dict String (Document X)}
    (h : DefenderHolds str files.defender tables) (command : Command X) :
    DefenderHolds str (step str repr lower globs config command files).defender
      (refreshedTables str repr lower config tables command) := by
  cases command with
  | checkSchemas write database raw =>
    unfold Upstream.step refreshedTables
    dsimp only
    split <;> exact h
  | checkDefenderSchema write database post =>
    obtain ⟨stored, hstored, hmerge⟩ :=
      h.merge str (fetchTableSchema str repr lower post) database
    unfold Upstream.step refreshedTables defenderRefresh
    cases config.off <;> cases config.defenderEnabled <;> try exact h
    cases hempty : stored.isEmpty with
    | true =>
      rw [List.isEmpty_iff] at hempty
      subst hempty
      have hnil := h.eq_nil str hstored
      cases write <;> simpa [hstored, hnil] using h
    | false =>
      cases hmerged : mergeDefender str (fetchTableSchema str repr lower post) stored with
      | none =>
        rw [hmerged] at hmerge
        cases write <;> simpa [hstored, hempty, hmerged, hmerge, writeChanged] using h
      | some merged =>
        rw [hmerged] at hmerge
        obtain ⟨hany, hwritten, hsame⟩ := hmerge
        cases write with
        | false => simpa [hstored, hempty, hmerged, writeChanged] using h
        | true =>
          cases hdiff : (computeDiff str stored merged).isEmpty with
          | true => simpa [hstored, hempty, hmerged, hany, hdiff, writeChanged] using hsame hdiff
          | false => simpa [hstored, hempty, hmerged, hany, hdiff, writeChanged] using hwritten
  | prePrRefresh raw post =>
    obtain ⟨stored, hstored, hmerge⟩ :=
      h.merge str (fetchTableSchema str repr lower post) schemasDatabaseName
    unfold Upstream.step refreshedTables defenderRefresh
    cases config.off <;> cases config.refreshOnPr <;> try exact h
    cases config.defenderEnabled <;> try exact h
    cases hfile : files.defender with
    | none =>
      rw [hfile] at h hstored
      obtain rfl := Option.some.inj hstored
      have hnil := h.eq_nil str rfl
      simpa [hfile, hnil] using h
    | some text =>
      rw [hfile] at h hstored
      cases hmerged : mergeDefender str (fetchTableSchema str repr lower post) stored with
      | none =>
        rw [hmerged] at hmerge
        simpa [hfile, hstored, hmerged, hmerge] using h
      | some merged =>
        rw [hmerged] at hmerge
        simpa [hfile, hstored, hmerged, hmerge.1] using hmerge.2.1

theorem DefenderHolds.after {files : SchemaFiles} {tables : Dict String (Document X)}
    (h : DefenderHolds str files.defender tables) (commands : List (Command X)) :
    DefenderHolds str (files.after str repr lower globs config commands).defender
      (commands.foldl (refreshedTables str repr lower config) tables) := by
  induction commands generalizing files tables with
  | nil => exact h
  | cons command commands ih => exact ih (h.step str repr lower globs config command)

/-- A file of tables under names of their own holds, after any commands, the same names, each with
the columns of the last refresh in which Graph answered for it and raised for none of them. -/
theorem defender_tables_after {files : SchemaFiles} {stored : List (Document X)}
    (hscalar : ∀ x : X, Value.ScalarEq.eq x x = true) (hload : tablesOf files.defender = some stored)
    (htables : ∀ t ∈ stored, TableEntry t) (commands : List (Command X)) :
    DefenderHolds str (files.after str repr lower globs config commands).defender
      (commands.foldl (refreshedTables str repr lower config) (byName str stored)) := by
  refine DefenderHolds.after str repr lower globs config ⟨stored, hload, htables, fun name => ?_⟩
    commands
  cases hget : (byName str stored).get? name with
  | none => exact .none
  | some t => exact .some (pyEq_self hscalar _ (htables t (mem_of_get?_byName str hget)).wf)

/-- A refresh that Graph answers, then one that it has no table for. -/
theorem defender_tables_after_gap :
    let str : Value Empty → String := fun _ => ""
    let vendored : Table := ⟨"DeviceEvents", [("DeviceId", "string")]⟩
    let answer (status : Nat) : String → Option (Response Empty) := fun _ =>
      some ⟨status, [], .ok (.dict [("results",
        .list [.dict [("ColumnName", .str "ActionType"), ("ColumnType", .str "string")]])])⟩
    DefenderHolds str
      ((⟨none, some (schemasText str schemasDatabaseName [vendored.entry])⟩ : SchemaFiles).after str
        String.toList id (fun _ _ => false) ⟨false, true, true, true, []⟩
        [.checkDefenderSchema true schemasDatabaseName (answer 200),
          .prePrRefresh none (answer 404)]).defender
      [("DeviceEvents", Table.entry ⟨"DeviceEvents", [("ActionType", "string")]⟩)] := by
  intro str vendored answer
  have hentry : TableEntry (vendored.entry : Document Empty) :=
    ⟨vendored.wf_entry, "DeviceEvents", by decide, rfl⟩
  have hfold : [Command.checkDefenderSchema true schemasDatabaseName (answer 200),
      .prePrRefresh none (answer 404)].foldl
        (refreshedTables str String.toList id ⟨false, true, true, true, []⟩)
        (byName str ((sortedByName str [vendored.entry]).map reloaded)) =
      [("DeviceEvents", Table.entry ⟨"DeviceEvents", [("ActionType", "string")]⟩)] := by
    decide +kernel
  rw [← hfold]
  exact defender_tables_after str String.toList id (fun _ _ => false) ⟨false, true, true, true, []⟩
    (fun x => x.elim)
    (tablesOf_schemasText str schemasDatabaseName fun t ht => List.mem_singleton.mp ht ▸ hentry.wf)
    (by simpa [sortedByName] using hentry.reloaded) _

end
end ContentOps.Upstream
