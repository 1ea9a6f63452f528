import ContentOps.Upstream.Manifest
import Mathlib.Data.List.Infix

/-! `upstream/defender_schema.py`: the columns of the Defender XDR tables, as Graph tells them, and
what a refresh makes of the tables of `schemas_defender.json`. -/

namespace ContentOps.Upstream
open PyData

/-- A table: its name, and its columns with their types. -/
structure Table where
  name : String
  columns : List (String × String)
deriving DecidableEq, Repr

/-- What `client.post` returns; `payload` is `response.json()`, or the text of its exception. -/
structure Response (X : Type) where
  status : Nat
  text : Text
  payload : Except Text (Value X)

inductive SchemaFailure where
  | defenderSchemaError (message : Text)
  /-- Any other exception. -/
  | other
deriving DecidableEq

section
variable {X : Type}

def columnValue (column : String × String) : Value X :=
  .dict [("name", .str column.1), ("type", .str column.2)]

def Table.entry (t : Table) : Document X :=
  [("name", .str t.name), ("columns", .list (t.columns.map columnValue))]

theorem Table.wf_entry (t : Table) : (Value.dict t.entry : Value X).WF := by
  refine ⟨by simp [entry, Dict.keys], Value.wf_str _, ?_, trivial⟩
  refine Value.wfList_iff.mpr (List.forall_mem_map.mpr fun column _ => ?_)
  exact ⟨by simp [Dict.keys], Value.wf_str _, Value.wf_str _, trivial⟩

theorem Table.named_entry (t : Table) : Named (t.entry : Document X) := ⟨t.wf_entry, t.name, rfl⟩

/-- A table under a name that is not empty. -/
structure TableEntry (t : Document X) : Prop where
  wf : (Value.dict t).WF
  name : ∃ s, s ≠ "" ∧ Dict.get? t "name" = some (.str s)

theorem TableEntry.named {t : Document X} (h : TableEntry t) : Named t :=
  ⟨h.wf, h.name.imp fun _ hs => hs.2⟩

theorem TableEntry.reloaded {t : Document X} (h : TableEntry t) : TableEntry (reloaded t) := by
  obtain ⟨s, hs, hget⟩ := h.name
  refine ⟨h.named.reloaded.wf, s, hs, ?_⟩
  rw [get?_reloaded h.wf, hget]
  rfl

variable [Value.ScalarEq X] (str : Value X → String) (repr : String → Text)
  (lower : String → String)

/-- `str(entry.get(key) or "").strip()`. -/
def strippedText (entry : Document X) (key : String) : String :=
  String.ofList (Text.strip (Value.textOf str entry key).toList)

/-- A row without a name or a type is dropped. -/
def readRow : Value X → Option (String × String)
  | .dict row =>
    let name := strippedText str row "ColumnName"
    let type := lower (strippedText str row "ColumnType")
    if name = "" ∨ type = "" then none else some (name, type)
  | _ => none

/-- `payload.get("results") or []`, where what can be iterated holds no mapping unless it is a
list; `none` is an exception. -/
def resultRows : Value X → Option (List (Value X))
  | .dict payload =>
    match Value.get payload "results" with
    | .list rows => some rows
    | .str _ | .dict _ => some []
    | v => if v.truthy then none else some []
  | _ => none

def getschemaQuery (tableName : String) : String :=
  tableName ++ " | getschema | project ColumnName, ColumnType"

/-- `fetch_table_schema`; `post` is the request with its retries, `none` where it raises. -/
def fetchTableSchema (post : String → Option (Response X)) (tableName : String) :
    Except SchemaFailure (List (String × String)) :=
  let failure (message : Text) := Except.error (SchemaFailure.defenderSchemaError message)
  let name := repr tableName
  if Text.isBlank tableName.toList then failure "table_name is required".toList
  else
    match post (getschemaQuery tableName) with
    | none => .error .other
    | some response =>
      let status := (toString response.status).toList
      let returned := "Graph runHuntingQuery returned ".toList ++ status ++ " for ".toList ++ name
      if response.status = 401 ∨ response.status = 403 then
        failure (returned ++ ("; grant ThreatHunting.Read.All on the App Registration " ++
          "(see docs/operations/authentication-setup.md).").toList)
      else if response.status = 404 then
        failure (returned ++
          "; table not reachable in this tenant's Defender entitlement.".toList)
      else if response.status = 400 then
        if "Failed to resolve table".toList <:+: response.text ∨
            "resolve table or column".toList <:+: response.text then
          failure (returned ++
            "; table not reachable in this tenant's Defender entitlement.".toList)
        else failure (returned ++ ": ".toList ++ response.text.take 200)
      else if 400 ≤ response.status then
        failure (returned ++ ": ".toList ++ response.text.take 200)
      else
        match response.payload with
        | .error e =>
          failure ("Graph response for ".toList ++ name ++ " not JSON: ".toList ++ e)
        | .ok payload =>
          match resultRows payload with
          | none => .error .other
          | some rows => .ok (rows.filterMap (readRow str lower))

/-- An entitlement gap, as `fetch_defender_schemas` tells it from the message. -/
def SchemaFailure.isSkipped : SchemaFailure → Bool
  | defenderSchemaError message =>
    decide ("entitlement".toList <:+: message) || decide ("404".toList <:+: message)
  | other => false

/-- `fetch_defender_schemas`: the tables that were refreshed, and the names of those that were
skipped; `none` is an exception. -/
def fetchDefenderSchemas (fetcher : String → Except SchemaFailure (List (String × String))) :
    List String → Option (List Table × List String)
  | [] => some ([], [])
  | name :: names =>
    match fetcher name with
    | .ok columns => (fetchDefenderSchemas fetcher names).map fun (refreshed, skipped) =>
      (⟨name, columns⟩ :: refreshed, skipped)
    | .error e =>
      if e.isSkipped then (fetchDefenderSchemas fetcher names).map fun (refreshed, skipped) =>
        (refreshed, name :: skipped)
      else none

/-- The names that are asked for. -/
def seedNames (old : List (Document X)) : List String :=
  (old.filter fun t => (Value.get t "name").truthy).map (entryName str)

/-- The keys that a dictionary takes. -/
def isHashable : Value X → Bool
  | .list _ | .dict _ => false
  | _ => true

/-- `{t["name"]: t}`, of which only the texts are looked up; `none` is an exception. -/
def tablesByName (old : List (Document X)) : Option (Dict String (Document X)) :=
  if old.all fun t => ((t.get? "name").map isHashable).getD false then
    some (Dict.ofPairs (old.filterMap fun t =>
      ((t.get? "name").bind Value.text?).map fun name => (name, t)))
  else none

/-- What a refresh makes of the tables of the file: those that were skipped keep the columns that
they have. -/
def mergeDefender (fetcher : String → Except SchemaFailure (List (String × String)))
    (old : List (Document X)) : Option (List (Document X)) := do
  let (refreshed, skipped) ← fetchDefenderSchemas fetcher (seedNames str old)
  let byName ← tablesByName old
  some (refreshed.map Table.entry ++ skipped.filterMap byName.get?)

/-! ## What a refresh makes of each table -/

/-- The refresh of a table raises. -/
def aborts (fetcher : String → Except SchemaFailure (List (String × String))) (name : String) :
    Bool :=
  match fetcher name with
  | .ok _ => false
  | .error e => !e.isSkipped

/-- A table after a refresh that does not raise. -/
def refreshedAs (fetcher : String → Except SchemaFailure (List (String × String)))
    (name : String) (t : Document X) : Document X :=
  match fetcher name with
  | .ok columns => Table.entry ⟨name, columns⟩
  | .error _ => t

variable {fetcher : String → Except SchemaFailure (List (String × String))}

theorem fetchDefenderSchemas_eq (names : List String) :
    fetchDefenderSchemas fetcher names =
      if names.any (aborts fetcher) then none
      else some (names.filterMap fun name => (fetcher name).toOption.map (Table.mk name),
        names.filter fun name => (fetcher name).toOption.isNone) := by
  induction names with
  | nil => rfl
  | cons name names ih =>
    have haborts : aborts fetcher name =
        match fetcher name with | .ok _ => false | .error e => !e.isSkipped := rfl
    rw [fetchDefenderSchemas, List.any_cons, haborts, ih]
    cases hfetch : fetcher name with
    | ok columns => cases names.any (aborts fetcher) <;> simp [hfetch, Except.toOption]
    | error e =>
      cases hskip : e.isSkipped <;> cases names.any (aborts fetcher) <;>
        simp [hfetch, hskip, Except.toOption]

theorem TableEntry.get?_name {t : Document X} (h : TableEntry t) :
    Dict.get? t "name" = some (.str (entryName str t)) := by
  obtain ⟨s, -, hget⟩ := h.name
  rw [entryName_eq str hget, hget]

theorem TableEntry.entryName_ne {t : Document X} (h : TableEntry t) : entryName str t ≠ "" := by
  obtain ⟨s, hs, hget⟩ := h.name
  rwa [entryName_eq str hget]

theorem Table.entryName_entry (t : Table) : entryName str (t.entry : Document X) = t.name :=
  entryName_eq str rfl

theorem seedNames_eq {old : List (Document X)} (h : ∀ t ∈ old, TableEntry t) :
    seedNames str old = old.map (entryName str) := by
  rw [seedNames, List.filter_eq_self.mpr]
  intro t ht
  have hget := (h t ht).get?_name str
  simp [Value.get, hget, Value.truthy, (h t ht).entryName_ne str]

theorem tablesByName_eq {old : List (Document X)} (h : ∀ t ∈ old, TableEntry t) :
    tablesByName old = some (byName str old) := by
  have hhashable : old.all (fun t => ((Dict.get? t "name").map isHashable).getD false) = true := by
    refine List.all_eq_true.mpr fun t ht => ?_
    rw [(h t ht).get?_name str]
    rfl
  have htexts : (old.filterMap fun t =>
      ((Dict.get? t "name").bind Value.text?).map fun name => (name, t)) =
        old.map fun t => (entryName str t, t) := by
    rw [← List.filterMap_eq_map]
    refine List.filterMap_congr fun t ht => ?_
    rw [(h t ht).get?_name str]
    rfl
  rw [tablesByName, if_pos hhashable, htexts]
  rfl

theorem mergeDefender_eq {old : List (Document X)} (h : ∀ t ∈ old, TableEntry t) :
    mergeDefender str fetcher old =
      if old.any (fun t => aborts fetcher (entryName str t)) then none
      else
        let names := old.map (entryName str)
        some ((names.filterMap fun name =>
            (fetcher name).toOption.map fun columns => Table.entry ⟨name, columns⟩) ++
          (names.filter fun name => (fetcher name).toOption.isNone).filterMap
            (byName str old).get?) := by
  have hany : (old.map (entryName str)).any (aborts fetcher) =
      old.any fun t => aborts fetcher (entryName str t) := List.any_map
  rw [mergeDefender, seedNames_eq str h, tablesByName_eq str h, fetchDefenderSchemas_eq, hany]
  cases old.any fun t => aborts fetcher (entryName str t) with
  | true => rfl
  | false => simp [List.map_filterMap, Option.map_map, Function.comp_def]

omit [Value.ScalarEq X] in
theorem TableEntry.refreshedAs (fetcher : String → Except SchemaFailure (List (String × String)))
    {t : Document X} (h : TableEntry t) {name : String}
    (hget : Dict.get? t "name" = some (.str name)) :
    TableEntry (refreshedAs fetcher name t) ∧
      Dict.get? (Upstream.refreshedAs fetcher name t) "name" = some (.str name) := by
  obtain ⟨s, hs, hname⟩ := h.name
  obtain rfl : s = name := by simpa [hget] using hname.symm
  unfold Upstream.refreshedAs
  cases fetcher s with
  | ok columns => exact ⟨⟨Table.wf_entry ⟨s, columns⟩, s, hs, rfl⟩, rfl⟩
  | error e => exact ⟨h, hget⟩

theorem get?_name_of_byName {old : List (Document X)} (h : ∀ t ∈ old, TableEntry t)
    {name : String} {t : Document X} (hget : (byName str old).get? name = some t) :
    Dict.get? t "name" = some (.str name) := by
  rw [(h t (mem_of_get?_byName str hget)).get?_name str, entryName_of_get?_byName str hget]

theorem mem_mergeDefender {old merged : List (Document X)} (h : ∀ t ∈ old, TableEntry t)
    (hmerged : mergeDefender str fetcher old = some merged) {t : Document X} :
    t ∈ merged ↔ ∃ name prior, (byName str old).get? name = some prior ∧
      t = refreshedAs fetcher name prior := by
  rw [mergeDefender_eq str h] at hmerged
  split_ifs at hmerged
  obtain rfl := Option.some.inj hmerged
  have hmem : ∀ name, name ∈ old.map (entryName str) ↔
      ∃ prior, (byName str old).get? name = some prior := by
    intro name
    rw [← Option.ne_none_iff_exists', ne_eq, get?_byName_eq_none_iff]
    simp
  simp only [List.mem_append, List.mem_filterMap, List.mem_filter, hmem]
  constructor
  · rintro (⟨name, ⟨prior, hprior⟩, hcolumns⟩ | ⟨name, ⟨-, hnone⟩, hprior⟩)
    · refine ⟨name, prior, hprior, ?_⟩
      unfold refreshedAs
      cases hfetch : fetcher name with
      | ok columns => simpa [hfetch, Except.toOption, eq_comm] using hcolumns
      | error e => simp [hfetch, Except.toOption] at hcolumns
    · refine ⟨name, t, hprior, ?_⟩
      unfold refreshedAs
      cases hfetch : fetcher name with
      | ok columns => simp [hfetch, Except.toOption] at hnone
      | error e => rfl
  · rintro ⟨name, prior, hprior, rfl⟩
    unfold refreshedAs
    cases hfetch : fetcher name with
    | ok columns => exact .inl ⟨name, ⟨prior, hprior⟩, by simp [hfetch, Except.toOption]⟩
    | error e => exact .inr ⟨name, ⟨⟨prior, hprior⟩, by simp [hfetch, Except.toOption]⟩, hprior⟩

/-- A refresh that does not raise keeps every name, and gives each table the columns that were
fetched for it, or leaves it as it was. -/
theorem byName_mergeDefender {old merged : List (Document X)} (h : ∀ t ∈ old, TableEntry t)
    (hmerged : mergeDefender str fetcher old = some merged) :
    (∀ t ∈ merged, TableEntry t) ∧ ∀ name, (byName str merged).get? name =
      ((byName str old).get? name).map (refreshedAs fetcher name) := by
  have hentry : ∀ {name prior}, (byName str old).get? name = some prior →
      TableEntry (refreshedAs fetcher name prior) ∧
        entryName str (refreshedAs fetcher name prior) = name := by
    intro name prior hprior
    obtain ⟨htable, hname⟩ := (h prior (mem_of_get?_byName str hprior)).refreshedAs fetcher
      (get?_name_of_byName str h hprior)
    exact ⟨htable, entryName_eq str hname⟩
  refine ⟨fun t ht => ?_, fun name => ?_⟩
  · obtain ⟨name, prior, hprior, rfl⟩ := (mem_mergeDefender str h hmerged).mp ht
    exact (hentry hprior).1
  · cases hget : (byName str old).get? name with
    | none =>
      refine (get?_byName_eq_none_iff str).mpr fun t ht hname => ?_
      obtain ⟨name', prior, hprior, rfl⟩ := (mem_mergeDefender str h hmerged).mp ht
      rw [(hentry hprior).2] at hname
      rw [hname, hget] at hprior
      cases hprior
    | some prior =>
      refine get?_byName_of_unique str
        ((mem_mergeDefender str h hmerged).mpr ⟨name, prior, hget, rfl⟩) (hentry hget).2 ?_
      intro t ht hname
      obtain ⟨name', prior', hprior, rfl⟩ := (mem_mergeDefender str h hmerged).mp ht
      obtain rfl : name' = name := (hentry hprior).2.symm.trans hname
      rw [Option.some.inj (hget.symm.trans hprior)]

end
end ContentOps.Upstream
