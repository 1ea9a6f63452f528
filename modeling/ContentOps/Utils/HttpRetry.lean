import ContentOps.Library.JsonRoundTrip
import Mathlib.Data.List.Basic

/-! Following the pages of a listing, `utils/http_retry.py`. The next URL is the server's choice, and
it is fetched with the client's credentials. -/

namespace ContentOps.HttpRetry
open PyData

/-! ## Origins -/

/-- What is read of a `ParseResult`. -/
structure ParsedUrl where
  scheme : String
  netloc : String
  hostname : Option String
  /-- `port`; `none` is `ValueError`. -/
  port : Option (Option Nat)

/-- `urlparse`, where `none` is `ValueError`, and `str.lower`; no scheme has a colon. -/
structure UrlLib where
  urlparse : String → Option ParsedUrl
  lower : String → String
  scheme_colon : ∀ url parsed, urlparse url = some parsed → ':' ∉ (lower parsed.scheme).toList

def defaultPort (scheme : String) : Option Nat :=
  if scheme = "https" then some 443 else if scheme = "http" then some 80 else none

/-- The port in the text of an origin. -/
def portSuffix (scheme : String) : Option Nat → String
  | none => ""
  | some n => if defaultPort scheme = some n then "" else ":" ++ String.ofList (Json.digitsOf n)

namespace UrlLib
variable (lib : UrlLib)

/-- `url_origin`; the outer `none` is an exception. -/
def urlOrigin (url : Option String) : Option (Option String) :=
  match url.filter (· ≠ "") with
  | none => some none
  | some url =>
    (lib.urlparse url).map fun parsed =>
      match parsed.hostname.filter (· ≠ "") with
      | none => none
      | some hostname =>
        if parsed.scheme = "" then none
        else
          let scheme := lib.lower parsed.scheme
          some (scheme ++ "://" ++ lib.lower hostname ++ portSuffix scheme (parsed.port.getD none))

/-- `is_same_origin`; `none` is an exception. -/
def isSameOrigin (url : String) (allowedOrigin : Option String) : Option Bool := do
  let parsed ← lib.urlparse url
  if parsed.scheme = "" ∧ parsed.netloc = "" then some true
  else
    let origin ← lib.urlOrigin (some url)
    some (origin.isSome && origin = allowedOrigin)

end UrlLib

/-! ## Pages -/

/-- What `paginate` reads of a page: `value` and the next link. -/
structure Page (α : Type) where
  value : Option (List α) := none
  nextLink : Option String := none

/-- Why `paginate` raises. -/
inductive Failure where
  | badUrl
  | hostMismatch (expected : Option String) (got : String)
  | cycle (url : String)
  | tooManyPages (maxPages : Nat)
  | fetchFailed
deriving DecidableEq, Repr

structure Run (α : Type) where
  calls : List String
  result : Except Failure (List α)

section
variable {α : Type} (lib : UrlLib) (fetchPage : String → Option (Page α)) (maxPages : Nat)
  (allowedOrigin : Option String)

def hostMismatch (url : String) : Failure :=
  .hostMismatch allowedOrigin ((((lib.urlOrigin (some url)).getD none).filter (· ≠ "")).getD url)

/-- The loop of `paginate`, with so many pages left; `fetchPage` is `none` where it raises. -/
def paginateFrom : Nat → List String → List α → Option String → Run α
  | left, visited, items, url =>
    match url.filter (· ≠ "") with
    | none => ⟨[], .ok items⟩
    | some url =>
      match lib.isSameOrigin url allowedOrigin with
      | none => ⟨[], .error .badUrl⟩
      | some false => ⟨[], .error (hostMismatch lib allowedOrigin url)⟩
      | some true =>
        if url ∈ visited then ⟨[], .error (.cycle url)⟩
        else
          match left with
          | 0 => ⟨[], .error (.tooManyPages maxPages)⟩
          | left + 1 =>
            match fetchPage url with
            | none => ⟨[url], .error .fetchFailed⟩
            | some page =>
              let rest := paginateFrom left (visited ++ [url]) (items ++ page.value.getD [])
                page.nextLink
              { rest with calls := url :: rest.calls }

/-- `url_origin(first_url) or url_origin(base_url)`. -/
def allowedOriginOf (firstUrl : String) (baseUrl : Option String) : Option (Option String) := do
  match (← lib.urlOrigin (some firstUrl)).filter (· ≠ "") with
  | some origin => some (some origin)
  | none => lib.urlOrigin baseUrl

def paginate (firstUrl : String) (baseUrl : Option String) : Run α :=
  match allowedOriginOf lib firstUrl baseUrl with
  | none => ⟨[], .error .badUrl⟩
  | some allowedOrigin =>
    paginateFrom lib fetchPage maxPages allowedOrigin maxPages [] [] (some firstUrl)

/-! ## The loop -/

variable {lib fetchPage maxPages allowedOrigin}

/-- The values of a page, when it can be fetched. -/
def pageItems (fetchPage : String → Option (Page α)) (url : String) : List α :=
  ((fetchPage url).bind (·.value)).getD []

/-- What holds of the rest of a run. -/
structure Walked (lib : UrlLib) (fetchPage : String → Option (Page α)) (allowedOrigin : Option String)
    (left : Nat) (visited : List String) (items : List α) (run : Run α) : Prop where
  bounded : run.calls.length ≤ left
  nodup : run.calls.Nodup
  fresh : ∀ url ∈ run.calls, url ∉ visited
  allowed : ∀ url ∈ run.calls, lib.isSameOrigin url allowedOrigin = some true
  items : ∀ out, run.result = .ok out → out = items ++ run.calls.flatMap (pageItems fetchPage)

theorem walked_raised (left : Nat) (visited : List String) (items : List α) (failure : Failure) :
    Walked lib fetchPage allowedOrigin left visited items ⟨[], .error failure⟩ :=
  ⟨Nat.zero_le _, List.nodup_nil, by simp, by simp, by simp⟩

theorem walked_fetched {left : Nat} {visited : List String} {items : List α} {url : String}
    {page : Page α} {rest : Run α} (hallowed : lib.isSameOrigin url allowedOrigin = some true)
    (hfresh : url ∉ visited) (hpage : fetchPage url = some page)
    (hrest : Walked lib fetchPage allowedOrigin left (visited ++ [url])
      (items ++ page.value.getD []) rest) :
    Walked lib fetchPage allowedOrigin (left + 1) visited items
      { rest with calls := url :: rest.calls } where
  bounded := Nat.succ_le_succ hrest.bounded
  nodup := List.nodup_cons.mpr
    ⟨fun hmem => hrest.fresh url hmem (List.mem_append_right _ List.mem_cons_self), hrest.nodup⟩
  fresh := by
    intro u hu
    rcases List.mem_cons.mp hu with rfl | hu
    · exact hfresh
    · exact fun hmem => hrest.fresh u hu (List.mem_append_left _ hmem)
  allowed := by
    intro u hu
    rcases List.mem_cons.mp hu with rfl | hu
    · exact hallowed
    · exact hrest.allowed u hu
  items := by
    intro out hout
    have hitems : pageItems fetchPage url = page.value.getD [] := by rw [pageItems, hpage]; rfl
    rw [hrest.items out hout, List.flatMap_cons, hitems, List.append_assoc]

theorem paginateFrom_walked (left : Nat) (visited : List String) (items : List α)
    (url : Option String) :
    Walked lib fetchPage allowedOrigin left visited items
      (paginateFrom lib fetchPage maxPages allowedOrigin left visited items url) := by
  induction left generalizing visited items url with
  | zero =>
    unfold paginateFrom
    cases url.filter (· ≠ "") with
    | none => exact ⟨Nat.zero_le _, List.nodup_nil, by simp, by simp, by simp⟩
    | some url =>
      dsimp only
      split
      · exact walked_raised ..
      · exact walked_raised ..
      · split_ifs
        · exact walked_raised ..
        · exact walked_raised ..
  | succ left ih =>
    unfold paginateFrom
    cases url.filter (· ≠ "") with
    | none => exact ⟨Nat.zero_le _, List.nodup_nil, by simp, by simp, by simp⟩
    | some url =>
      dsimp only
      cases hallowed : lib.isSameOrigin url allowedOrigin with
      | none => exact walked_raised ..
      | some allowed =>
        cases allowed with
        | false => exact walked_raised ..
        | true =>
          by_cases hfresh : url ∈ visited
          · rw [if_pos hfresh]
            exact walked_raised ..
          · rw [if_neg hfresh]
            cases hpage : fetchPage url with
            | none =>
              exact ⟨by simp, by simp, by simpa using hfresh, by simpa using hallowed, by simp⟩
            | some page => exact walked_fetched hallowed hfresh hpage (ih _ _ _)

/-! ## Origins and their texts -/

structure Origin where
  scheme : String
  host : String
  /-- The port that is connected to. -/
  port : Option Nat
  connects : port = none → defaultPort scheme = none

def Origin.suffix (o : Origin) : String := portSuffix o.scheme o.port

def Origin.text (o : Origin) : String := o.scheme ++ "://" ++ o.host ++ o.suffix

def UrlLib.originOf (lib : UrlLib) (url : String) : Option Origin :=
  if url = "" then none
  else
    (lib.urlparse url).bind fun parsed =>
      match parsed.hostname.filter (· ≠ "") with
      | none => none
      | some hostname =>
        if parsed.scheme = "" then none
        else some
          { scheme := lib.lower parsed.scheme
            host := lib.lower hostname
            port := (parsed.port.getD none).or (defaultPort (lib.lower parsed.scheme))
            connects := fun h => (Option.or_eq_none_iff.mp h).2 }

/-- A URL without scheme and host. -/
def UrlLib.Relative (lib : UrlLib) (url : String) : Prop :=
  ∃ parsed, lib.urlparse url = some parsed ∧ parsed.scheme = "" ∧ parsed.netloc = ""

theorem portSuffix_or (scheme : String) (port : Option Nat) :
    portSuffix scheme (port.or (defaultPort scheme)) = portSuffix scheme port := by
  cases port with
  | none =>
    rw [Option.none_or]
    cases hdefault : defaultPort scheme with
    | none => rfl
    | some n => exact if_pos hdefault
  | some n => rfl

theorem urlOrigin_eq {url origin : Option String} (h : lib.urlOrigin url = some origin) :
    origin = (url.bind lib.originOf).map Origin.text := by
  unfold UrlLib.urlOrigin at h
  cases url with
  | none => exact (Option.some.inj h).symm
  | some url =>
    rw [Option.bind_some]
    unfold UrlLib.originOf
    by_cases hurl : url = ""
    · have hfilter : (some url).filter (· ≠ "") = none := by simp [hurl]
      rw [hfilter] at h
      rw [if_pos hurl]
      exact (Option.some.inj h).symm
    rw [if_neg hurl]
    have hfilter : (some url).filter (· ≠ "") = some url := by simp [hurl]
    rw [hfilter] at h
    obtain ⟨parsed, hparsed, rfl⟩ := Option.map_eq_some_iff.mp h
    rw [hparsed, Option.bind_some]
    cases hhost : parsed.hostname.filter (· ≠ "") with
    | none => rfl
    | some hostname =>
      by_cases hscheme : parsed.scheme = ""
      · simp [hscheme]
      · simp only [hscheme, if_false, Option.map_some, Origin.text, Origin.suffix, portSuffix_or]

theorem scheme_of_originOf {url : String} {o : Origin} (h : lib.originOf url = some o) :
    ':' ∉ o.scheme.toList := by
  unfold UrlLib.originOf at h
  split_ifs at h
  obtain ⟨parsed, hparsed, h⟩ := Option.bind_eq_some_iff.mp h
  split at h
  · exact absurd h (by simp)
  · split_ifs at h
    obtain rfl := Option.some.inj h
    exact lib.scheme_colon url parsed hparsed

/-- The text of the default port is left out, and only that one. -/
theorem suffix_eq_empty_iff (o : Origin) : o.suffix = "" ↔ o.port = defaultPort o.scheme := by
  unfold Origin.suffix
  cases hport : o.port with
  | none => exact iff_of_true rfl (o.connects hport).symm
  | some n =>
    rw [portSuffix]
    by_cases hdefault : defaultPort o.scheme = some n
    · simp [hdefault]
    · rw [if_neg hdefault]
      exact iff_of_false (by simp [String.append_eq_empty_iff]) fun heq => hdefault heq.symm

theorem suffix_of_ne {o : Origin} (h : o.suffix ≠ "") :
    ∃ n, o.port = some n ∧ o.suffix.toList = ':' :: Json.digitsOf n := by
  unfold Origin.suffix at h ⊢
  cases hport : o.port with
  | none => exact absurd (by rw [hport, portSuffix]) h
  | some n =>
    rw [hport, portSuffix] at h
    rw [portSuffix]
    by_cases hdefault : defaultPort o.scheme = some n
    · exact absurd (by simp [hdefault]) h
    · exact ⟨n, rfl, by simp [hdefault]⟩

theorem digitsOf_injective {m n : Nat} (h : Json.digitsOf m = Json.digitsOf n) : m = n := by
  have hread : ∀ k, Nat.ofDigitChars 10 (Json.digitsOf k) 0 = k := fun k =>
    Nat.ofDigitChars_ten_toDigits
  rw [← hread m, h, hread n]

theorem colon_notMem_digitsOf (n : Nat) : ':' ∉ Json.digitsOf n := fun hmem =>
  absurd (Json.digitsOf_isDigit hmem) (by decide)

theorem append_cons_inj {c : Char} {a b x y : Text} (ha : c ∉ a) (hb : c ∉ b)
    (h : a ++ c :: x = b ++ c :: y) : a = b ∧ x = y := by
  have hsplit := congrArg (List.splitOn c) h
  rw [List.splitOn_append_cons_self_of_not_mem ha, List.splitOn_append_cons_self_of_not_mem hb]
    at hsplit
  obtain rfl := (List.cons.inj hsplit).1
  exact ⟨rfl, (List.cons.inj (List.append_cancel_left h)).2⟩

/-- The host of one takes the port of the other in: `::1:8080` and `::1` on port 8080. -/
def Origin.Absorbs (o o' : Origin) : Prop :=
  o.scheme = o'.scheme ∧ o.port = defaultPort o.scheme ∧
    ∃ n, o'.port = some n ∧ o.host.toList = o'.host.toList ++ ':' :: Json.digitsOf n

theorem absorbs_of_text {o o' : Origin} (hscheme : o.scheme = o'.scheme) (hempty : o.suffix = "")
    (hport : o'.suffix ≠ "") (hrest : o.host.toList = o'.host.toList ++ o'.suffix.toList) :
    o.Absorbs o' := by
  obtain ⟨n, hn, hsuffix⟩ := suffix_of_ne hport
  exact ⟨hscheme, (suffix_eq_empty_iff o).mp hempty, n, hn, by rw [hrest, hsuffix]⟩

/-- Two origins with one text are one origin, but for a host that takes in a port. -/
theorem eq_or_absorbs_of_text {o o' : Origin} (ho : ':' ∉ o.scheme.toList)
    (ho' : ':' ∉ o'.scheme.toList) (h : o.text = o'.text) :
    o = o' ∨ o.Absorbs o' ∨ o'.Absorbs o := by
  have hlists := congrArg String.toList h
  have htext : ∀ o : Origin, o.text.toList =
      o.scheme.toList ++ ':' :: ('/' :: '/' :: (o.host.toList ++ o.suffix.toList)) := by
    intro o
    simp [Origin.text]
  rw [htext, htext] at hlists
  obtain ⟨hscheme, hrest⟩ := append_cons_inj ho ho' hlists
  have hscheme : o.scheme = o'.scheme := String.toList_injective hscheme
  have hrest : o.host.toList ++ o.suffix.toList = o'.host.toList ++ o'.suffix.toList := by
    simpa using hrest
  by_cases hempty : o.suffix = ""
  · by_cases hempty' : o'.suffix = ""
    · left
      have hhost : o.host = o'.host := String.toList_injective (by simpa [hempty, hempty'] using hrest)
      have hport : o.port = o'.port := by
        rw [(suffix_eq_empty_iff o).mp hempty, (suffix_eq_empty_iff o').mp hempty', hscheme]
      obtain ⟨scheme, host, port, hconnects⟩ := o
      obtain ⟨scheme', host', port', hconnects'⟩ := o'
      obtain rfl : scheme = scheme' := hscheme
      obtain rfl : host = host' := hhost
      obtain rfl : port = port' := hport
      rfl
    · exact .inr (.inl (absorbs_of_text hscheme hempty hempty' (by simpa [hempty] using hrest)))
  · by_cases hempty' : o'.suffix = ""
    · exact .inr (.inr (absorbs_of_text hscheme.symm hempty' hempty
        (by simpa [hempty'] using hrest.symm)))
    · left
      obtain ⟨n, hn, hsuffix⟩ := suffix_of_ne hempty
      obtain ⟨n', hn', hsuffix'⟩ := suffix_of_ne hempty'
      rw [hsuffix, hsuffix'] at hrest
      -- the port stands behind the last colon
      have hreverse := congrArg List.reverse hrest
      simp only [List.reverse_append, List.reverse_cons, List.append_assoc, List.singleton_append]
        at hreverse
      obtain ⟨hdigits, hhost⟩ := append_cons_inj
        (by simpa using colon_notMem_digitsOf n) (by simpa using colon_notMem_digitsOf n') hreverse
      have hhost : o.host = o'.host := String.toList_injective (List.reverse_injective hhost)
      have hport : o.port = o'.port := by
        rw [hn, hn', digitsOf_injective (List.reverse_injective hdigits)]
      obtain ⟨scheme, host, port, hconnects⟩ := o
      obtain ⟨scheme', host', port', hconnects'⟩ := o'
      obtain rfl : scheme = scheme' := hscheme
      obtain rfl : host = host' := hhost
      obtain rfl : port = port' := hport
      rfl

theorem not_absorbs_self (o : Origin) : ¬ o.Absorbs o := by
  rintro ⟨-, -, n, -, hhost⟩
  have := congrArg List.length hhost
  simp at this

/-! ## Where a run goes -/

/-- The origin that the links have to stay on. -/
def allowedOf (lib : UrlLib) (firstUrl : String) (baseUrl : Option String) : Option Origin :=
  (lib.originOf firstUrl).or (baseUrl.bind lib.originOf)

/-- The run is bounded, fetches no page twice, stays on the origin and returns every page. -/
structure Guarded (lib : UrlLib) (fetchPage : String → Option (Page α)) (maxPages : Nat)
    (allowed : Option Origin) (run : Run α) : Prop where
  bounded : run.calls.length ≤ maxPages
  nodup : run.calls.Nodup
  stays : ∀ url ∈ run.calls, lib.Relative url ∨ ∃ o, lib.originOf url = some o ∧ allowed = some o
  items : ∀ out, run.result = .ok out → out = run.calls.flatMap (pageItems fetchPage)

theorem allowedOriginOf_eq {firstUrl : String} {baseUrl origin : Option String}
    (h : allowedOriginOf lib firstUrl baseUrl = some origin) :
    origin = (allowedOf lib firstUrl baseUrl).map Origin.text := by
  obtain ⟨first, hfirst, h⟩ := Option.bind_eq_some_iff.mp h
  have heq := urlOrigin_eq hfirst
  rw [Option.bind_some] at heq
  unfold allowedOf
  cases horigin : lib.originOf firstUrl with
  | none =>
    rw [heq, horigin] at h
    rw [Option.none_or]
    exact urlOrigin_eq h
  | some o =>
    have hne : o.text ≠ "" := by simp [Origin.text, String.append_eq_empty_iff]
    rw [heq, horigin, Option.map_some, Option.filter_some_pos (by simpa using hne)] at h
    exact (Option.some.inj h).symm

theorem originOf_of_relative {url : String} (h : lib.Relative url) : lib.originOf url = none := by
  obtain ⟨parsed, hparsed, hscheme, -⟩ := h
  unfold UrlLib.originOf
  rw [hparsed]
  split_ifs
  · rfl
  · rw [Option.bind_some]
    split
    · rfl
    · rw [if_pos hscheme]

theorem isSameOrigin_eq_true {url : String} {allowedOrigin : Option String}
    (h : lib.isSameOrigin url allowedOrigin = some true) :
    lib.Relative url ∨ ∃ o, lib.originOf url = some o ∧ allowedOrigin = some o.text := by
  obtain ⟨parsed, hparsed, h⟩ := Option.bind_eq_some_iff.mp h
  by_cases hrelative : parsed.scheme = "" ∧ parsed.netloc = ""
  · exact .inl ⟨parsed, hparsed, hrelative.1, hrelative.2⟩
  · rw [if_neg hrelative] at h
    obtain ⟨origin, horigin, h⟩ := Option.bind_eq_some_iff.mp h
    have heq := urlOrigin_eq horigin
    rw [Option.bind_some] at heq
    obtain ⟨hsome, hallowed⟩ := (Bool.and_eq_true _ _).mp (Option.some.inj h)
    have hallowed := of_decide_eq_true hallowed
    rw [heq, Option.isSome_map] at hsome
    obtain ⟨o, ho⟩ := Option.isSome_iff_exists.mp hsome
    exact .inr ⟨o, ho, by rw [← hallowed, heq, ho, Option.map_some]⟩

/-- A run is guarded exactly when it fetches nothing from a host that differs from the allowed one
by a port taken in. -/
theorem paginate_guarded_iff (lib : UrlLib) (fetchPage : String → Option (Page α)) (maxPages : Nat)
    (firstUrl : String) (baseUrl : Option String) :
    Guarded lib fetchPage maxPages (allowedOf lib firstUrl baseUrl)
        (paginate lib fetchPage maxPages firstUrl baseUrl) ↔
      ∀ url ∈ (paginate lib fetchPage maxPages firstUrl baseUrl).calls, ∀ o o',
        allowedOf lib firstUrl baseUrl = some o → lib.originOf url = some o' →
          ¬ o.Absorbs o' ∧ ¬ o'.Absorbs o := by
  unfold paginate
  cases hallowed : allowedOriginOf lib firstUrl baseUrl with
  | none => exact iff_of_true ⟨Nat.zero_le _, List.nodup_nil, by simp, by simp⟩ (by simp)
  | some allowedOrigin =>
    have hwalked : Walked lib fetchPage allowedOrigin maxPages [] []
        (paginateFrom lib fetchPage maxPages allowedOrigin maxPages [] [] (some firstUrl)) :=
      paginateFrom_walked maxPages [] [] (some firstUrl)
    have hallowed := allowedOriginOf_eq hallowed
    constructor
    · intro hguarded url hurl o o' ho ho'
      rcases hguarded.stays url hurl with hrelative | ⟨o'', ho'', heq⟩
      · rw [originOf_of_relative hrelative] at ho'
        exact absurd ho' (by simp)
      · obtain rfl : o'' = o' := Option.some.inj (ho''.symm.trans ho')
        obtain rfl : o'' = o := Option.some.inj (heq.symm.trans ho)
        exact ⟨not_absorbs_self _, not_absorbs_self _⟩
    · intro hapart
      refine ⟨hwalked.bounded, hwalked.nodup, fun url hurl => ?_, fun out hout => ?_⟩
      · rcases isSameOrigin_eq_true (hwalked.allowed url hurl) with hrelative | ⟨o', ho', htext⟩
        · exact .inl hrelative
        · right
          rw [hallowed] at htext
          obtain ⟨o, ho, hsame⟩ := Option.map_eq_some_iff.mp htext
          have hscheme : ':' ∉ o.scheme.toList := by
            rcases Option.or_eq_some_iff.mp ho with hfirst | ⟨-, hbase⟩
            · exact scheme_of_originOf hfirst
            · obtain ⟨base, -, hbase⟩ := Option.bind_eq_some_iff.mp hbase
              exact scheme_of_originOf hbase
          obtain ⟨hnot, hnot'⟩ := hapart url hurl o o' ho ho'
          rcases eq_or_absorbs_of_text hscheme (scheme_of_originOf ho') hsame with rfl | h | h
          · exact ⟨o, ho', ho⟩
          · exact absurd h hnot
          · exact absurd h hnot'
      · simpa using hwalked.items out hout

end

/-- `urlparse` on two URLs with an IPv6 address, and on relative ones. -/
def loopbackLib : UrlLib where
  urlparse url :=
    if url = "http://[::1]:8080/a" then
      some ⟨"http", "[::1]:8080", some "::1", some (some 8080)⟩
    else if url = "http://[::1:8080]/b" then
      some ⟨"http", "[::1:8080]", some "::1:8080", some none⟩
    else some ⟨"", "", none, some none⟩
  lower := id
  scheme_colon := by
    intro url parsed h
    split_ifs at h <;> obtain rfl := Option.some.inj h <;> decide

/-- A server on `::1` that sends the client on to the address `::1:8080`. -/
def loopbackPages (url : String) : Option (Page Unit) :=
  if url = "http://[::1]:8080/a" then some ⟨some [], some "http://[::1:8080]/b"⟩ else some {}

theorem loopback_not_guarded : ¬ Guarded loopbackLib loopbackPages 1000
    (allowedOf loopbackLib "http://[::1]:8080/a" none)
    (paginate loopbackLib loopbackPages 1000 "http://[::1]:8080/a" none) := by
  intro hguarded
  have hcalls : "http://[::1:8080]/b" ∈
      (paginate loopbackLib loopbackPages 1000 "http://[::1]:8080/a" none).calls := by
    decide +kernel
  rcases hguarded.stays _ hcalls with ⟨parsed, hparsed, hscheme, -⟩ | ⟨o, ho, hallowed⟩
  · obtain rfl := Option.some.inj hparsed
    exact absurd hscheme (by decide)
  · have hhost := congrArg (Option.map Origin.host) (ho.trans hallowed.symm)
    exact absurd hhost (by decide)

end ContentOps.HttpRetry
