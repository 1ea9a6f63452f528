import ContentOps.Core.Discovery
import ContentOps.Handlers.ArmUpsert

/-! `handlers/sentinel_watchlist_models.py` and the part of `handlers/sentinel_watchlist.py` that
decides what `apply` sends and how many items it expects to find. -/

namespace ContentOps.SentinelWatchlist
open PyData

/-- The fields of the model that a validator or the handler reads. -/
structure SentinelWatchlistPayload where
  displayName : String
  provider : String := "Custom"
  source : String := "Local file"
  itemsSearchKey : String
  numberOfLinesToSkip : Int := 0
  rawContent : Option String := none
  sasUri : Option String := none
  watchlistAlias : Option String := none
deriving DecidableEq, Repr

namespace SentinelWatchlistPayload
variable (reprList : List Text → String) (p : SentinelWatchlistPayload)

/-- `bool(self.rawContent)`, with the content. -/
def raw? : Option String := p.rawContent.filter (· ≠ "")
def sas? : Option String := p.sasUri.filter (· ≠ "")

/-- The bounds of the fields. -/
def fieldsValid : Bool :=
  1 ≤ p.displayName.length && p.displayName.length ≤ 255 && p.provider ≠ "" &&
    p.itemsSearchKey ≠ "" && 0 ≤ p.numberOfLinesToSkip

def validateOneIngestionPath : Except String SentinelWatchlistPayload :=
  if p.raw?.isSome && p.sas?.isSome then
    .error "watchlist payload must specify exactly one of rawContent / sasUri, not both"
  else if p.sas?.isSome && p.source = "Local file" then .ok { p with source := "Remote storage" }
  else if p.raw?.isSome && p.source = "Remote storage" then .ok { p with source := "Local file" }
  else .ok p

/-- The columns of a header row. -/
def columns (header : Text) : List Text := (header.splitOn ',').map Text.strip

def validateSearchKeyInHeader : Except String Unit :=
  match p.raw? with
  | none => .ok ()
  | some raw =>
    match (Text.splitlines raw.toList)[p.numberOfLinesToSkip.toNat]? with
    | none => .error "rawContent has fewer lines than numberOfLinesToSkip + 1 (need a header row)"
    | some header =>
      if (columns header).contains p.itemsSearchKey.toList then .ok ()
      else .error ("itemsSearchKey '" ++ p.itemsSearchKey ++
        "' not found in CSV header (found columns: " ++ reprList (columns header) ++ ")")

def validateContentSize : Except String Unit :=
  if p.raw?.any fun raw => 3500000 < raw.utf8ByteSize then
    .error ("rawContent exceeds 3.5 MB inline limit — split the watchlist or " ++
      "switch to sasUri for the >3.8 MB ingestion path.")
  else .ok ()

def validateSasUrlShape : Except String Unit :=
  match p.sas? with
  | none => .ok ()
  | some sas =>
    if !"https://".toList.isPrefixOf sas.toList then .error "sasUri must be an https:// URL"
    else if !decide ("sig=".toList <:+: sas.toList) then
      .error ("sasUri does not look like a SAS URL (no sig= parameter) — " ++
        "this is almost certainly a misconfiguration.")
    else .ok ()

/-- The model once its fields have their types: the bounds, and the validators in their order. -/
def validate : Except String SentinelWatchlistPayload := do
  if !p.fieldsValid then .error "a field is out of its bounds"
  let q ← p.validateOneIngestionPath
  q.validateSearchKeyInHeader reprList
  q.validateContentSize
  q.validateSasUrlShape
  .ok q

end SentinelWatchlistPayload

/-- The variables of the loop in `_expected_item_count`. -/
structure RowCount where
  headerDropped : Bool := false
  dataRows : Nat := 0

/-- One round of that loop. -/
def RowCount.add (s : RowCount) (line : Text) : RowCount :=
  if Text.isBlank line then s
  else if !s.headerDropped then { s with headerDropped := true }
  else { s with dataRows := s.dataRows + 1 }

/-- `_expected_item_count`. -/
def expectedItemCount (rawContent : String) (numberOfLinesToSkip : Int) : Nat :=
  if rawContent = "" then 0
  else
    let lines := Text.splitlines rawContent.toList
    let lines := if 0 < numberOfLinesToSkip then lines.drop numberOfLinesToSkip.toNat else lines
    (lines.foldl RowCount.add {}).dataRows

/-- Why a watchlist without content is not sent. -/
def noContentMessage : String :=
  "watchlist has neither rawContent nor sasUri set. " ++
    "This envelope was almost certainly produced by `contentops collect` " ++
    "(the API doesn't return CSV bodies on GET, so collected watchlists " ++
    "are intentionally not deployable). To deploy, populate rawContent " ++
    "with the CSV body or sasUri with a SAS-protected blob URL."

section
variable {X : Type}

/-- `int(payload.get("numberOfLinesToSkip") or 0)`, of a number that is an integer. -/
def linesToSkip (payload : Document X) : Int :=
  match Value.get payload "numberOfLinesToSkip" with
  | .int n => n
  | _ => 0

/-- `SentinelWatchlistHandler.apply` up to its first request. -/
def prepare (dryRun : Bool) (envelope : EnvelopeV2) (payload : Document X) :
    ArmUpsert.Prepared X :=
  let raw := Value.textAt payload "rawContent"
  if envelope.status = "experimental" then
    .finished (ArmUpsert.unsent envelope .skip "skipped" "experimental status — skipped")
  else if envelope.status = "deprecated" then
    .finished (ArmUpsert.unsent envelope .skip "skipped"
      "deprecated watchlists are not deleted by deploy; use `prune`")
  else if raw = "" && Value.textAt payload "sasUri" = "" then
    .finished (ArmUpsert.unsent envelope .skip "skipped" noContentMessage)
  else if dryRun then .finished (ArmUpsert.unsent envelope .update "dry-run" "")
  else .ready
    { assetId := envelope.id
      assetKind := envelope.asset.value
      resource := "watchlists/" ++ orText (Value.textAt payload "watchlistAlias") envelope.id
      lenient := false
      body := [("properties", .dict payload)]
      hashedFields := hashedFields
      disables := false
      expectedItems :=
        if raw = "" then none else some (expectedItemCount raw (linesToSkip payload)) }

end

theorem dataRows_foldl (lines : List Text) (n : Nat) :
    (lines.foldl RowCount.add { headerDropped := true, dataRows := n }).dataRows =
      n + (lines.filter fun line => !Text.isBlank line).length := by
  induction lines generalizing n with
  | nil => rfl
  | cons line lines ih =>
    rw [List.foldl_cons, RowCount.add]
    cases hblank : Text.isBlank line with
    | true =>
      rw [if_pos rfl, ih, List.filter_cons_of_neg (by simp [hblank])]
    | false =>
      rw [if_neg (by decide), if_neg (by simp), ih, List.filter_cons_of_pos (by simp [hblank]),
        List.length_cons]
      dsimp only
      omega

theorem mem_of_mem_splitOn {sep c : Char} {header column : Text} (hcolumn : column ∈ header.splitOn sep)
    (hc : c ∈ column) : c ∈ header := by
  have hall : ∀ parts : List Text, column ∈ parts → c ∈ [sep].intercalate parts := by
    intro parts
    induction parts with
    | nil => exact fun h => absurd h List.not_mem_nil
    | cons part rest ih =>
      intro h
      rcases eq_or_ne rest [] with rfl | hrest
      · rw [List.intercalate_singleton]
        rwa [List.mem_singleton.mp h] at hc
      · rw [List.intercalate_cons_of_ne_nil hrest]
        rcases List.mem_cons.mp h with rfl | h
        · exact List.mem_append_left _ (List.mem_append_left _ hc)
        · exact List.mem_append_right _ (ih h)
  have hjoined := hall _ hcolumn
  rwa [List.intercalate_splitOn] at hjoined

/-- A row that has a column which is not empty is not blank. -/
theorem not_isBlank_of_column {header key : Text} (hkey : key ≠ [])
    (h : key ∈ SentinelWatchlistPayload.columns header) : Text.isBlank header = false := by
  by_contra hblank
  have hall : ∀ c ∈ header, Text.isSpace c = true := by
    simpa [Text.isBlank] using hblank
  obtain ⟨column, hcolumn, rfl⟩ := List.mem_map.mp h
  refine hkey ((Text.strip_eq_nil_iff column).mpr ?_)
  refine List.all_eq_true.mpr fun c hc => hall c ?_
  exact mem_of_mem_splitOn hcolumn hc

theorem of_validate {reprList : List Text → String} {p q : SentinelWatchlistPayload}
    (h : p.validate reprList = .ok q) :
    p.fieldsValid = true ∧ p.validateOneIngestionPath = .ok q ∧
      q.validateSearchKeyInHeader reprList = .ok () := by
  unfold SentinelWatchlistPayload.validate at h
  cases hfields : p.fieldsValid with
  | false => simp [hfields, bind, Except.bind] at h
  | true =>
    cases hpath : p.validateOneIngestionPath with
    | error e => simp [hfields, hpath, bind, Except.bind] at h
    | ok q' =>
      cases hkey : q'.validateSearchKeyInHeader reprList with
      | error e => simp [hfields, hpath, hkey, bind, Except.bind] at h
      | ok u =>
        have hq : q' = q := by
          cases hsize : q'.validateContentSize with
          | error e => simp [hfields, hpath, hkey, hsize, bind, Except.bind] at h
          | ok u' =>
            cases hsas : q'.validateSasUrlShape with
            | error e => simp [hfields, hpath, hkey, hsize, hsas, bind, Except.bind] at h
            | ok u'' => simpa [hfields, hpath, hkey, hsize, hsas, bind, Except.bind] using h
        subst hq
        exact ⟨rfl, rfl, hkey⟩

/-- The choice of the ingestion path touches the source only. -/
theorem of_validateOneIngestionPath {p q : SentinelWatchlistPayload}
    (h : p.validateOneIngestionPath = .ok q) : ∃ source, q = { p with source := source } := by
  unfold SentinelWatchlistPayload.validateOneIngestionPath at h
  split_ifs at h
  · exact ⟨_, (Except.ok.inj h).symm⟩
  · exact ⟨_, (Except.ok.inj h).symm⟩
  · exact ⟨p.source, (Except.ok.inj h).symm⟩

theorem header_of_validate {reprList : List Text → String} {p q : SentinelWatchlistPayload}
    (h : p.validate reprList = .ok q) {raw : String} (hraw : p.rawContent = some raw)
    (hne : raw ≠ "") :
    ∃ header, (Text.splitlines raw.toList)[p.numberOfLinesToSkip.toNat]? = some header ∧
      p.itemsSearchKey.toList ∈ SentinelWatchlistPayload.columns header := by
  obtain ⟨-, hpath, hkey⟩ := of_validate h
  obtain ⟨source, rfl⟩ := of_validateOneIngestionPath hpath
  have hraw' : SentinelWatchlistPayload.raw? { p with source := source } = some raw := by
    simp [SentinelWatchlistPayload.raw?, hraw, hne]
  unfold SentinelWatchlistPayload.validateSearchKeyInHeader at hkey
  rw [hraw'] at hkey
  dsimp only at hkey
  cases hline : (Text.splitlines raw.toList)[p.numberOfLinesToSkip.toNat]? with
  | none => simp [hline] at hkey
  | some header =>
    rw [hline] at hkey
    dsimp only at hkey
    split_ifs at hkey with hcolumn
    exact ⟨header, rfl, List.contains_iff_mem.mp hcolumn⟩

/-- The header that the validators read is the row that the count leaves out. -/
theorem expectedItemCount_of_validate {reprList : List Text → String}
    {p q : SentinelWatchlistPayload} (h : p.validate reprList = .ok q) {raw : String}
    (hraw : p.rawContent = some raw) (hne : raw ≠ "") :
    ∃ header rows, (Text.splitlines raw.toList).drop p.numberOfLinesToSkip.toNat = header :: rows ∧
      p.itemsSearchKey.toList ∈ SentinelWatchlistPayload.columns header ∧
      expectedItemCount raw p.numberOfLinesToSkip =
        (rows.filter fun row => !Text.isBlank row).length := by
  obtain ⟨header, hline, hcolumn⟩ := header_of_validate h hraw hne
  have hkey : p.itemsSearchKey.toList ≠ [] := by
    have hfields := (of_validate h).1
    simp only [SentinelWatchlistPayload.fieldsValid, Bool.and_eq_true, decide_eq_true_eq] at hfields
    intro hnil
    exact hfields.1.2 (String.toList_injective (by simpa using hnil))
  have hdrop : (Text.splitlines raw.toList).drop p.numberOfLinesToSkip.toNat =
      header :: (Text.splitlines raw.toList).drop (p.numberOfLinesToSkip.toNat + 1) := by
    obtain ⟨hlt, hget⟩ := List.getElem?_eq_some_iff.mp hline
    rw [List.drop_eq_getElem_cons hlt, hget]
  refine ⟨header, _, hdrop, hcolumn, ?_⟩
  have hlines : (if 0 < p.numberOfLinesToSkip then
      (Text.splitlines raw.toList).drop p.numberOfLinesToSkip.toNat
      else Text.splitlines raw.toList) =
      (Text.splitlines raw.toList).drop p.numberOfLinesToSkip.toNat := by
    split_ifs with hskip
    · rfl
    · rw [Int.toNat_of_nonpos (not_lt.mp hskip), List.drop_zero]
  unfold expectedItemCount
  rw [if_neg hne]
  dsimp only
  rw [hlines, hdrop, List.foldl_cons, RowCount.add, not_isBlank_of_column hkey hcolumn,
    if_neg (by decide), if_pos (by decide), dataRows_foldl, Nat.zero_add]

/-! A watchlist whose first line is a comment. -/

def vipPayload : SentinelWatchlistPayload where
  displayName := "VIP"
  itemsSearchKey := "User"
  numberOfLinesToSkip := 1
  rawContent := some "# people\nUser, Role\n\nann,ceo\n"

theorem expectedItemCount_of_validate_vip :
    ∃ header rows,
      (Text.splitlines "# people\nUser, Role\n\nann,ceo\n".toList).drop (Int.toNat 1) =
        header :: rows ∧
      "User".toList ∈ SentinelWatchlistPayload.columns header ∧
      expectedItemCount "# people\nUser, Role\n\nann,ceo\n" 1 =
        (rows.filter fun row => !Text.isBlank row).length :=
  expectedItemCount_of_validate
    (show vipPayload.validate (fun _ => "") = .ok vipPayload by decide +kernel) rfl (by decide)

end ContentOps.SentinelWatchlist
