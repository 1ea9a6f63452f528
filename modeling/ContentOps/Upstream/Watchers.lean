import ContentOps.Library.Interleaving
import ContentOps.Library.OptionMap
import ContentOps.Upstream.Manifest

/-! `check-marketplace` and `check-templates` of `cli/commands/upstream.py`: two catalogs, each with
its manifest, and one page a day on what is new. -/

namespace ContentOps.Upstream
open PyData

/-- The two watchers. -/
inductive Source where
  | marketplace
  | templates
deriving DecidableEq, Repr

section
variable {X : Type} [Value.ScalarEq X] (str : Value X → String)

/-- `str(entry.get(key) or "")[:limit]`. -/
def clipped (limit : Nat) (entry : Document X) (key : String) : String :=
  String.ofList ((Value.textOf str entry key).toList.take limit)

/-- `entry.get(key) or {}`, where `none` has no `get`. -/
def blockAt (entry : Document X) (key : String) : Option (Document X) :=
  match Value.get entry key with
  | .dict block => some block
  | v => if v.truthy then none else some []

/-- `_normalise` of `upstream/marketplace.py` and of `upstream/templates.py`; `none` is an
exception. -/
def Source.normalise : Source → Document X → Option (Dict String String)
  | marketplace, entry => do
    let properties ← blockAt entry "properties"
    let source ← blockAt properties "source"
    some [("name", clipped str 512 entry "name"),
      ("displayName", clipped str 512 properties "displayName"),
      ("version", clipped str 64 properties "version"),
      ("contentKind", clipped str 64 properties "contentKind"),
      ("source", clipped str 64 source "kind"),
      ("lastPublishDate", Value.textOf str properties "lastPublishDate")]
  | templates, entry => do
    let properties ← blockAt entry "properties"
    let source ← blockAt properties "source"
    some [("name", clipped str 512 entry "name"),
      ("displayName", clipped str 512 properties "displayName"),
      ("kind", clipped str 64 entry "kind"),
      ("version", clipped str 64 properties "version"),
      ("lastUpdatedDateTime", Value.textOf str properties "lastUpdatedDateTime"),
      ("source", clipped str 64 source "kind")]

/-- `fetch_packages` and `fetch_templates`, once the workspace answered. -/
def Source.fetch (source : Source) (raw : List (Document X)) : Option (List (Document X)) := do
  let normalised ← raw.mapM (source.normalise str)
  some ((normalised.filter fun e => (e.get? "name").getD "" ≠ "").map (Dict.mapVals .str))

/-- A page of `docs/whats-new`: what it is rendered from. -/
structure Page (X : Type) where
  source : Source
  diff : ManifestDiff X

/-- The manifests, and the pages under their dates. -/
structure Repo (X : Type) where
  manifest : Source → Option Text
  pages : Dict String (Page X)

/-- One call of a watcher, with what the workspace lists. -/
structure Run (X : Type) where
  source : Source
  date : String
  raw : List (Document X)
  write : Bool

variable [Json.FloatText X]

def Repo.entries (repo : Repo X) (source : Source) : Option (List (Document X)) :=
  (loadManifest (repo.manifest source)).bind (List.mapM Value.dict?)

/-- The diff that a call prints; `none` is an exception. -/
def Repo.diff (repo : Repo X) (run : Run X) : Option (ManifestDiff X) := do
  let new ← run.source.fetch str run.raw
  let old ← repo.entries run.source
  some (computeDiff str old new)

/-- `_run_watcher`. -/
def Repo.runWatcher (repo : Repo X) (run : Run X) : Repo X :=
  match repo.diff str run, run.source.fetch str run.raw with
  | some diff, some new =>
    if run.write && !diff.isEmpty then
      { manifest := Function.update repo.manifest run.source (some (manifestText str new))
        pages := repo.pages.set run.date { source := run.source, diff } }
    else repo
  | _, _ => repo

abbrev Repo.after (repo : Repo X) (runs : List (Run X)) : Repo X :=
  Interleaving.run (fun run repo => repo.runWatcher str run) repo runs

end

/-! ## The catalog that a manifest stands for -/

section
variable {X : Type}

/-- An entry as a fetch makes it. -/
def TextEntry (e : Document X) : Prop :=
  ∃ t : Dict String String, t.keys.Nodup ∧ "name" ∈ t.keys ∧ e = t.mapVals .str

theorem wf_texts {t : Dict String String} (ht : t.keys.Nodup) :
    (Value.dict (t.mapVals .str) : Value X).WF := by
  rw [Value.wf_dict_iff, Dict.keys_mapVals]
  refine ⟨ht, fun p hp => ?_⟩
  obtain ⟨q, -, rfl⟩ := List.mem_map.mp hp
  exact Value.wf_str q.2

theorem TextEntry.named {e : Document X} (h : TextEntry e) : Named e := by
  obtain ⟨t, ht, hname, rfl⟩ := h
  obtain ⟨⟨key, s⟩, hmem, rfl⟩ := List.mem_map.mp hname
  exact ⟨wf_texts ht, s, by rw [Dict.get?_mapVals, Dict.get?_of_mem ht hmem]; rfl⟩

theorem TextEntry.perm_reloaded {e : Document X} (h : TextEntry e) : List.Perm (reloaded e) e := by
  obtain ⟨t, -, -, rfl⟩ := h
  rw [reloaded, Dict.sortByKey_mapVals]
  have hsame : ((Dict.sortByKey t).mapVals (.str : String → Value X)).mapVals Value.sortKeys =
      (Dict.sortByKey t).mapVals .str := by
    unfold Dict.mapVals
    rw [List.map_map]
    rfl
  rw [hsame]
  exact (Dict.sortByKey_perm t).map _

variable [Value.ScalarEq X] (str : Value X → String)

theorem Source.keys_normalise {source : Source} {entry : Document X} {t : Dict String String}
    (h : source.normalise str entry = some t) : t.keys.Nodup ∧ "name" ∈ t.keys := by
  cases source <;>
  · simp only [normalise, Option.bind_eq_bind, Option.bind_eq_some_iff, Option.some.injEq] at h
    obtain ⟨properties, -, source, -, rfl⟩ := h
    simp [Dict.keys]

theorem Source.textEntry_of_fetch {source : Source} {raw entries : List (Document X)}
    (h : source.fetch str raw = some entries) : ∀ e ∈ entries, TextEntry e := by
  simp only [fetch, Option.bind_eq_bind, Option.bind_eq_some_iff, Option.some.injEq] at h
  obtain ⟨normalised, hmap, rfl⟩ := h
  intro e he
  obtain ⟨t, ht, rfl⟩ := List.mem_map.mp he
  obtain ⟨entry, -, hentry⟩ := (mem_iff_of_mapM hmap).mp (List.mem_filter.mp ht).1
  obtain ⟨hnodup, hname⟩ := Source.keys_normalise str hentry
  exact ⟨t, hnodup, hname, rfl⟩

/-- A manifest holds the entries of a catalog, whatever the order that it holds them in. -/
def Holds (manifest catalog : List (Document X)) : Prop :=
  (∀ e ∈ manifest, (Value.dict e).WF) ∧
    ∀ name, Option.Rel List.Perm ((byName str manifest).get? name) ((byName str catalog).get? name)

theorem Holds.sameEntries_iff {manifest catalog : List (Document X)}
    (h : Holds str manifest catalog) (new : List (Document X)) :
    SameEntries str manifest new ↔ SameEntries str catalog new := by
  refine forall_congr' fun name => ?_
  have hname := h.2 name
  revert hname
  generalize (byName str manifest).get? name = prior
  generalize (byName str catalog).get? name = prior'
  rintro (hperm | _)
  · cases (byName str new).get? name with
    | none => simp
    | some entry => rw [Option.rel_some_some, Option.rel_some_some, Value.pyEq_of_perm hperm]
  · rfl

theorem holds_reloaded {entries : List (Document X)} (h : ∀ e ∈ entries, TextEntry e) :
    Holds str ((sortedByName str entries).map reloaded) entries := by
  refine ⟨fun e he => ?_, fun name => ?_⟩
  · obtain ⟨f, hf, rfl⟩ := List.mem_map.mp he
    exact (h f ((List.mem_insertionSort _).mp hf)).named.reloaded.wf
  · rw [byName_reloaded str fun e he => (h e he).named]
    cases hget : (byName str entries).get? name with
    | none => exact .none
    | some entry => exact .some (h entry (mem_of_get?_byName str hget)).perm_reloaded

theorem holds_of_sameEntries {manifest entries : List (Document X)}
    (hwf : ∀ e ∈ manifest, (Value.dict e).WF) (h : ∀ e ∈ entries, TextEntry e)
    (hsame : SameEntries str manifest entries) : Holds str manifest entries := by
  refine ⟨hwf, fun name => ?_⟩
  have hname := hsame name
  cases hprior : (byName str manifest).get? name with
  | none =>
    rw [hprior] at hname
    cases hentry : (byName str entries).get? name with
    | none => exact .none
    | some entry =>
      rw [hentry] at hname
      cases hname
  | some prior =>
    rw [hprior] at hname
    cases hentry : (byName str entries).get? name with
    | none =>
      rw [hentry] at hname
      cases hname
    | some entry =>
      rw [hentry, Option.rel_some_some] at hname
      obtain ⟨t, ht, -, rfl⟩ := h entry (mem_of_get?_byName str hentry)
      exact .some (Value.perm_of_pyEq_texts (hwf prior (mem_of_get?_byName str hprior)).1 hname)

/-! ## One call, and a series of them -/

variable [Json.FloatText X]

/-- The catalog of a source that was last written, after one more call. -/
def catalogAfter (source : Source) (catalog : List (Document X)) (run : Run X) :
    List (Document X) :=
  if run.source = source ∧ run.write = true then (source.fetch str run.raw).getD catalog
  else catalog

def Repo.HoldsAt (repo : Repo X) (source : Source) (catalog : List (Document X)) : Prop :=
  ∃ manifest, repo.entries source = some manifest ∧ Holds str manifest catalog

theorem Repo.holdsAt_of_entries {repo : Repo X} {source : Source} {old : List (Document X)}
    (h : repo.entries source = some old) : repo.HoldsAt str source old := by
  obtain ⟨values, hvalues, hmap⟩ := Option.bind_eq_some_iff.mp h
  refine ⟨old, h, fun e he => ?_, fun name => ?_⟩
  · obtain ⟨v, hv, hdict⟩ := (mem_iff_of_mapM hmap).mp he
    cases v with
    | dict d =>
      obtain rfl := Option.some.inj hdict
      exact Value.wfList_iff.mp (wf_of_loadManifest hvalues) _ hv
    | _ => cases hdict
  · cases (byName str old).get? name with
    | none => exact .none
    | some e => exact .some (List.Perm.refl e)

/-- What a call does, as the catalog that its fetch returns. -/
theorem Repo.runWatcher_cases (repo : Repo X) (run : Run X) :
    (repo.runWatcher str run = repo ∧ (run.write = false ∨ run.source.fetch str run.raw = none ∨
      repo.entries run.source = none ∨ ∃ old new, run.source.fetch str run.raw = some new ∧
        repo.entries run.source = some old ∧ SameEntries str old new)) ∨
    (run.write = true ∧ ∃ old new, run.source.fetch str run.raw = some new ∧
      repo.entries run.source = some old ∧ ¬SameEntries str old new ∧
      repo.runWatcher str run =
        { manifest := Function.update repo.manifest run.source (some (manifestText str new))
          pages := repo.pages.set run.date
            { source := run.source, diff := computeDiff str old new } }) := by
  unfold Repo.runWatcher Repo.diff
  cases hfetch : run.source.fetch str run.raw with
  | none => exact .inl ⟨rfl, .inr (.inl rfl)⟩
  | some new =>
    cases hentries : repo.entries run.source with
    | none => exact .inl ⟨rfl, .inr (.inr (.inl rfl))⟩
    | some old =>
      cases hwrite : run.write with
      | false => exact .inl ⟨by simp, .inl rfl⟩
      | true =>
        by_cases hsame : SameEntries str old new
        · refine .inl ⟨?_, .inr (.inr (.inr ⟨old, new, rfl, rfl, hsame⟩))⟩
          simp [(isEmpty_computeDiff_iff str old new).mpr hsame]
        · have hreport : (computeDiff str old new).isEmpty = false := by
            rwa [← Bool.not_eq_true, isEmpty_computeDiff_iff]
          exact .inr ⟨rfl, old, new, rfl, rfl, hsame, by simp [hreport]⟩

theorem Repo.HoldsAt.runWatcher {repo : Repo X} {source : Source} {catalog : List (Document X)}
    (h : repo.HoldsAt str source catalog) (run : Run X) :
    (repo.runWatcher str run).HoldsAt str source (catalogAfter str source catalog run) := by
  obtain ⟨manifest, hentries, hholds⟩ := h
  obtain ⟨hkept, hquiet⟩ | ⟨hwrite, old, new, hfetch, hold, -, hrun⟩ := repo.runWatcher_cases str run
  · rw [hkept]
    refine ⟨manifest, hentries, ?_⟩
    unfold catalogAfter
    split_ifs with hcalled
    · obtain ⟨rfl, hwrite⟩ := hcalled
      obtain hdry | hnone | hmalformed | ⟨old, new, hfetch, hold, hsame⟩ := hquiet
      · rw [hwrite] at hdry; cases hdry
      · rwa [hnone]
      · rw [hentries] at hmalformed; cases hmalformed
      · rw [hentries] at hold
        obtain rfl := Option.some.inj hold
        rw [hfetch, Option.getD_some]
        exact holds_of_sameEntries str hholds.1 (Source.textEntry_of_fetch str hfetch) hsame
    · exact hholds
  · rw [hrun]
    by_cases hsource : run.source = source
    · subst hsource
      have htexts := Source.textEntry_of_fetch str hfetch
      refine ⟨(sortedByName str new).map reloaded, ?_, ?_⟩
      · dsimp only [Repo.entries]
        rw [Function.update_self,
          loadManifest_manifestText str fun e he => (htexts e he).named.wf]
        exact mapM_dict?_map _
      · rw [catalogAfter, if_pos ⟨rfl, hwrite⟩, hfetch, Option.getD_some]
        exact holds_reloaded str htexts
    · refine ⟨manifest, ?_, ?_⟩
      · dsimp only [Repo.entries]
        rw [Function.update_of_ne (Ne.symm hsource)]
        exact hentries
      · rw [catalogAfter, if_neg fun hcalled => hsource hcalled.1]
        exact hholds

theorem Repo.HoldsAt.after {repo : Repo X} {source : Source} {catalog : List (Document X)}
    (h : repo.HoldsAt str source catalog) (runs : List (Run X)) :
    (repo.after str runs).HoldsAt str source (runs.foldl (catalogAfter str source) catalog) := by
  induction runs generalizing repo catalog with
  | nil => exact h
  | cons run runs ih => exact ih (h.runWatcher str run)

theorem Repo.HoldsAt.diff {repo : Repo X} {catalog new : List (Document X)} (run : Run X)
    (h : repo.HoldsAt str run.source catalog) (hfetch : run.source.fetch str run.raw = some new) :
    ∃ diff, repo.diff str run = some diff ∧ (diff.isEmpty = true ↔ SameEntries str catalog new) := by
  obtain ⟨manifest, hentries, hholds⟩ := h
  refine ⟨computeDiff str manifest new, by simp [Repo.diff, hfetch, hentries], ?_⟩
  rw [isEmpty_computeDiff_iff, hholds.sameEntries_iff]

/-- A call reports nothing exactly when the workspace lists what it listed at the last call that
wrote, whatever was called in between. -/
theorem Repo.diff_after {repo : Repo X} {run : Run X} {old new : List (Document X)}
    (hload : repo.entries run.source = some old) (hfetch : run.source.fetch str run.raw = some new)
    (runs : List (Run X)) :
    ∃ diff, (repo.after str runs).diff str run = some diff ∧
      (diff.isEmpty = true ↔
        SameEntries str (runs.foldl (catalogAfter str run.source) old) new) :=
  ((Repo.holdsAt_of_entries str hload).after str runs).diff str run hfetch

theorem Repo.diff_after_settled :
    let str : Value Empty → String := fun _ => ""
    let package : Document Empty :=
      [("name", .str "solution"), ("properties", .dict [("version", .str "1.0")])]
    let run (write : Bool) : Run Empty := ⟨.marketplace, "2026-06-01", [package, package], write⟩
    ∃ diff, ((⟨fun _ => none, []⟩ : Repo Empty).after str [run true]).diff str (run false) =
      some diff ∧ diff.isEmpty = true := by
  intro str package run
  obtain ⟨diff, hdiff, hempty⟩ := Repo.diff_after str
    (show (⟨fun _ => none, []⟩ : Repo Empty).entries (run false).source = some [] from rfl)
    (show (run false).source.fetch str (run false).raw = some _ from rfl) [run true]
  exact ⟨diff, hdiff, hempty.mpr ((isEmpty_computeDiff_iff str _ _).mp (by decide))⟩

/-! ## The scheduled workflow -/

/-- A week: its date, and what the workspace lists. -/
structure Week (X : Type) where
  date : String
  listed : Source → List (Document X)

def Week.run (week : Week X) (source : Source) : Run X :=
  { source, date := week.date, raw := week.listed source, write := true }

def Week.fetched (week : Week X) : Option (Source → List (Document X)) := do
  let packages ← Source.marketplace.fetch str (week.listed .marketplace)
  let templates ← Source.templates.fetch str (week.listed .templates)
  some fun
    | .marketplace => packages
    | .templates => templates

/-- `upstream-watchers.yml`, with its pull request merged: an exception in either step leaves the
repository as it was. -/
def Repo.watch (repo : Repo X) (week : Week X) : Repo X :=
  let checked := repo.runWatcher str (week.run .marketplace)
  match repo.diff str (week.run .marketplace), checked.diff str (week.run .templates) with
  | some _, some _ => checked.runWatcher str (week.run .templates)
  | _, _ => repo

abbrev Repo.afterWeeks (repo : Repo X) (weeks : List (Week X)) : Repo X :=
  Interleaving.run (fun week repo => repo.watch str week) repo weeks

/-- The catalogs after the weeks. -/
def catalogsAfter (catalogs : Source → List (Document X)) (weeks : List (Week X)) :
    Source → List (Document X) :=
  weeks.foldl (fun catalogs week => (week.fetched str).getD catalogs) catalogs

theorem Repo.pages_runWatcher_of_ne (repo : Repo X) {run : Run X} {date : String}
    (h : date ≠ run.date) : (repo.runWatcher str run).pages.get? date = repo.pages.get? date := by
  obtain ⟨hkept, -⟩ | ⟨-, old, new, -, -, -, hrun⟩ := repo.runWatcher_cases str run
  · rw [hkept]
  · rw [hrun, Dict.get?_set, if_neg (Ne.symm h)]

theorem Repo.pages_watch_of_ne (repo : Repo X) {week : Week X} {date : String}
    (h : date ≠ week.date) : (repo.watch str week).pages.get? date = repo.pages.get? date := by
  dsimp only [Repo.watch]
  split
  · rw [Repo.pages_runWatcher_of_ne str _ h, Repo.pages_runWatcher_of_ne str _ h]
  · rfl

theorem Repo.pages_afterWeeks_of_notMem (repo : Repo X) {weeks : List (Week X)} {date : String}
    (h : ∀ week ∈ weeks, date ≠ week.date) :
    (repo.afterWeeks str weeks).pages.get? date = repo.pages.get? date := by
  induction weeks generalizing repo with
  | nil => rfl
  | cons week weeks ih =>
    obtain ⟨hweek, hweeks⟩ := List.forall_mem_cons.mp h
    exact (ih _ hweeks).trans (Repo.pages_watch_of_ne str repo hweek)

theorem Repo.HoldsAt.pages_runWatcher {repo : Repo X} {catalog new : List (Document X)}
    (run : Run X) (h : repo.HoldsAt str run.source catalog) (hwrite : run.write = true)
    (hfetch : run.source.fetch str run.raw = some new) :
    (SameEntries str catalog new → (repo.runWatcher str run).pages = repo.pages) ∧
    (¬SameEntries str catalog new →
      ((repo.runWatcher str run).pages.get? run.date).map Page.source = some run.source) := by
  obtain ⟨diff, hdiff, hempty⟩ := h.diff str run hfetch
  unfold Repo.runWatcher
  rw [hdiff, hfetch, hwrite, ← hempty]
  cases hreport : diff.isEmpty <;> simp [hreport]

/-- A week in which both fetches go through. -/
theorem Repo.HoldsAt.watch {repo : Repo X} {catalogs new : Source → List (Document X)}
    (h : ∀ source, repo.HoldsAt str source (catalogs source)) {week : Week X}
    (hfetch : week.fetched str = some new) :
    (∀ source, (repo.watch str week).HoldsAt str source (new source)) ∧
    (repo.pages.get? week.date = none →
    (((repo.watch str week).pages.get? week.date).map Page.source = some .templates ↔
      ¬SameEntries str (catalogs .templates) (new .templates)) ∧
    (((repo.watch str week).pages.get? week.date).map Page.source = some .marketplace ↔
      ¬SameEntries str (catalogs .marketplace) (new .marketplace) ∧
        SameEntries str (catalogs .templates) (new .templates))) := by
  simp only [Week.fetched, Option.bind_eq_bind, Option.bind_eq_some_iff, Option.some.injEq] at hfetch
  obtain ⟨packages, hpackages, templates, htemplates, rfl⟩ := hfetch
  have hfirst : ∀ source, (repo.runWatcher str (week.run .marketplace)).HoldsAt str source
      (catalogAfter str source (catalogs source) (week.run .marketplace)) :=
    fun source => (h source).runWatcher str _
  have hcatalog : catalogAfter str .templates (catalogs .templates) (week.run .marketplace) =
      catalogs .templates := if_neg fun hcalled => by cases hcalled.1
  have hheld := hfirst .templates
  rw [hcatalog] at hheld
  obtain ⟨_, hdiffPackages, -⟩ := (h .marketplace).diff str (week.run .marketplace) hpackages
  obtain ⟨_, hdiffTemplates, -⟩ := hheld.diff str (week.run .templates) htemplates
  have hwatch : repo.watch str week =
      (repo.runWatcher str (week.run .marketplace)).runWatcher str (week.run .templates) := by
    simp only [Repo.watch, hdiffPackages, hdiffTemplates]
  rw [hwatch]
  refine ⟨fun source => ?_, fun hpage => ?_⟩
  · have hsecond := (hfirst source).runWatcher str (week.run .templates)
    cases source with
    | marketplace => simpa [catalogAfter, Week.run, hpackages] using hsecond
    | templates => simpa [catalogAfter, Week.run, htemplates] using hsecond
  · obtain ⟨hsame, hnew⟩ :=
      (h .marketplace).pages_runWatcher str (week.run .marketplace) rfl hpackages
    obtain ⟨hsame', hnew'⟩ :=
      hheld.pages_runWatcher str (week.run .templates) rfl htemplates
    by_cases ht : SameEntries str (catalogs .templates) templates
    · rw [hsame' ht]
      by_cases hm : SameEntries str (catalogs .marketplace) packages
      · rw [hsame hm, hpage]
        simp [ht, hm]
      · rw [show week.date = (week.run .marketplace).date from rfl, hnew hm]
        simp [ht, hm, Week.run]
    · rw [show week.date = (week.run .templates).date from rfl, hnew' ht]
      simp [ht, Week.run]

theorem Repo.watch_of_fetched_none {repo : Repo X} {week : Week X}
    (hfetch : week.fetched str = none) : repo.watch str week = repo := by
  have hdiff : ∀ (r : Repo X) (run : Run X), run.source.fetch str run.raw = none →
      r.diff str run = none := by
    intro r run hnone
    simp [Repo.diff, hnone]
  dsimp only [Repo.watch]
  cases hpackages : Source.marketplace.fetch str (week.listed .marketplace) with
  | none => rw [hdiff repo (week.run .marketplace) hpackages]
  | some packages =>
    cases htemplates : Source.templates.fetch str (week.listed .templates) with
    | none =>
      rw [hdiff _ (week.run .templates) htemplates]
      cases repo.diff str (week.run .marketplace) <;> rfl
    | some templates => simp [Week.fetched, hpackages, htemplates] at hfetch

theorem Repo.HoldsAt.afterWeeks {repo : Repo X} {catalogs : Source → List (Document X)}
    (h : ∀ source, repo.HoldsAt str source (catalogs source)) (weeks : List (Week X)) :
    ∀ source, (repo.afterWeeks str weeks).HoldsAt str source
      (catalogsAfter str catalogs weeks source) := by
  induction weeks generalizing repo catalogs with
  | nil => exact h
  | cons week weeks ih =>
    have hnext : ∀ source, (repo.watch str week).HoldsAt str source
        ((week.fetched str).getD catalogs source) := by
      cases hfetch : week.fetched str with
      | none =>
        rw [Repo.watch_of_fetched_none str hfetch]
        exact h
      | some new => exact (Repo.HoldsAt.watch str h hfetch).1
    exact ih hnext

end
end ContentOps.Upstream
