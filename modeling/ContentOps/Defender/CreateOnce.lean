import ContentOps.Utils.RequestRetry

/-! Creating a detection rule, `DefenderClient.create_rule`: the retry loop around the auth flow of
`utils/token_auth.py`, which sends a request again after a 401. -/

namespace ContentOps.Defender
open HttpRetry

/-- What `BearerTokenAuth` keeps. -/
structure Token where
  text : String
  expiresOn : Option Int

/-- What the calls of a process meet: the clock whenever it is read, the token factory whenever it
is called (`none` is an exception), and the server, or the way to it, at each exchange. -/
structure World where
  now : ℕ → Int
  factory : ℕ → Except Fault Token
  exchange : ℕ → Outcome

/-- How far the process is; the exchanges are those that were made, in their order. -/
structure Progress where
  clockReads : ℕ := 0
  factoryCalls : ℕ := 0
  cached : Option Token := none
  exchanges : List Outcome := []

namespace World
variable (world : World)

def skewSeconds : Int := 300

/-- `_is_expired`. -/
def isExpired (s : Progress) (t : Token) : Bool :=
  t.expiresOn.any fun expires => expires - skewSeconds ≤ world.now s.clockReads

/-- `_token_unlocked`: no exchange takes place. -/
def token (forceRefresh : Bool) (s : Progress) : Except Fault Token × Progress :=
  let s' := { s with clockReads := s.clockReads + 1 }
  match s.cached.filter fun t => !forceRefresh && !world.isExpired s t with
  | some t => (.ok t, s')
  | none =>
    let called := { s' with factoryCalls := s.factoryCalls + 1 }
    match world.factory s.factoryCalls with
    | .error f => (.error f, called)
    | .ok t => (.ok t, { called with cached := some t })

/-- One exchange with the server. -/
def send (s : Progress) : Outcome × Progress :=
  (world.exchange s.exchanges.length,
    { s with exchanges := s.exchanges ++ [world.exchange s.exchanges.length] })

def isUnauthorized : Outcome → Bool
  | .response r => r.statusCode = 401
  | .fault _ => false

/-- A request of the client with `auth_flow`; `none` is a client with a fixed token. -/
def request (bearer : Bool) (s : Progress) : Outcome × Progress :=
  if bearer then
    match world.token false s with
    | (.error f, s) => (.fault f, s)
    | (.ok _, s) =>
      let first := world.send s
      if isUnauthorized first.1 then
        match world.token true first.2 with
        | (.error f, s) => (.fault f, s)
        | (.ok _, s) => world.send s
      else first
  else world.send s

end World

/-- `create_rule`, with the retries of `request_with_retry`'s default. -/
def createRule (lib : WaitLib) (world : World) (bearer : Bool) (s : Progress) :
    Retry.Ran Progress Outcome :=
  requestWithRetry lib nonIdempotentRetryable 3 (world.request bearer) s

/-- The server may have created a rule. -/
def mayHaveCommitted : Outcome → Bool
  | .response r => r.statusCode ≠ 401 && r.statusCode ≠ 429
  | .fault f => f ≠ .connectError && f ≠ .connectTimeout && f ≠ .poolTimeout

def commits (s : Progress) : ℕ := s.exchanges.countP mayHaveCommitted

/-! ## One request commits once -/

section
variable {world : World} {s : Progress}

theorem exchanges_token (world : World) (force : Bool) (s : Progress) :
    (world.token force s).2.exchanges = s.exchanges := by
  unfold World.token
  dsimp only
  cases s.cached.filter fun t => !force && !world.isExpired s t with
  | some t => rfl
  | none => cases world.factory s.factoryCalls <;> simp only

theorem commits_token (world : World) (force : Bool) (s : Progress) :
    commits (world.token force s).2 = commits s := by
  rw [commits, exchanges_token, commits]

theorem commits_send (world : World) (s : Progress) :
    commits (world.send s).2 =
      commits s + if mayHaveCommitted (world.send s).1 then 1 else 0 := by
  unfold commits World.send
  dsimp only
  rw [List.countP_append, List.countP_singleton]

theorem not_committed_of_unauthorized {o : Outcome} (h : World.isUnauthorized o = true) :
    mayHaveCommitted o = false := by
  cases o with
  | response r =>
    have h401 : r.statusCode = 401 := by simpa [World.isUnauthorized] using h
    simp [mayHaveCommitted, h401]
  | fault f => exact absurd h (by simp [World.isUnauthorized])

theorem not_committed_of_again {o : Outcome} (h : nonIdempotentRetryable.again o = true) :
    mayHaveCommitted o = false := by
  cases o with
  | response r =>
    have h429 : r.statusCode = 429 := by simpa [nonIdempotentRetryable, Policy.again] using h
    simp [mayHaveCommitted, h429]
  | fault f =>
    cases f <;> first | rfl | exact absurd h (by decide)

/-- Every way through a request ends with an exchange that is the only one that may have committed,
or raises before one. -/
theorem commits_request (world : World) (bearer : Bool) (s : Progress) :
    commits (world.request bearer s).2 = commits s ∨
      commits (world.request bearer s).2 =
        commits s + if mayHaveCommitted (world.request bearer s).1 then 1 else 0 := by
  cases bearer with
  | false => exact Or.inr (commits_send world s)
  | true =>
    have hfirst := commits_token world false s
    simp only [World.request, if_true]
    cases htoken : world.token false s with
    | mk token s₁ =>
      rw [htoken] at hfirst
      cases token with
      | error f => exact Or.inl hfirst
      | ok _ =>
        have hsend := commits_send world s₁
        by_cases hunauthorized : World.isUnauthorized (world.send s₁).1 = true
        · rw [not_committed_of_unauthorized hunauthorized, if_neg (by decide), add_zero] at hsend
          have hsecond := commits_token world true (world.send s₁).2
          simp only [hunauthorized, if_true]
          cases htoken' : world.token true (world.send s₁).2 with
          | mk token' s₂ =>
            rw [htoken', hsend, hfirst] at hsecond
            cases token' with
            | error f => exact Or.inl hsecond
            | ok _ =>
              refine Or.inr ?_
              rw [commits_send, hsecond]
        · refine Or.inr ?_
          simp only [hunauthorized]
          rw [if_neg (by simp), hsend, hfirst]

theorem commits_request_le (world : World) (bearer : Bool) (s : Progress) :
    commits (world.request bearer s).2 ≤ commits s + 1 := by
  rcases commits_request world bearer s with h | h
  · omega
  · rw [h]
    split_ifs <;> omega

theorem commits_request_again {bearer : Bool}
    (h : nonIdempotentRetryable.again (world.request bearer s).1 = true) :
    commits (world.request bearer s).2 = commits s := by
  rcases commits_request world bearer s with heq | heq
  · exact heq
  · rw [heq, not_committed_of_again h, if_neg (by decide), add_zero]

end

/-- A rule is created once at most, whatever the exchanges come to. -/
theorem commits_createRule_le (lib : WaitLib) (world : World) (bearer : Bool) (s : Progress) :
    commits (createRule lib world bearer s).state ≤ commits s + 1 :=
  Retry.run_count_le (commits_request_le world bearer) (fun _ h => commits_request_again h) _ _ _

/-! ## The loop and its last outcome -/

/-- What is promised of a creation and of every call of the loop. -/
structure CreatesOnce {S : Type*} (lib : WaitLib) (world : World) (bearer : Bool) (start : Progress)
    (policy : Policy) (maxRetries : Int) (doRequest : S → Outcome × S) (s : S) : Prop where
  once : commits (createRule lib world bearer start).state ≤ commits start + 1
  bounded : ((requestWithRetry lib policy maxRetries doRequest s).outcomes.length : Int) ≤
    maxRetries + 1
  last : (requestWithRetry lib policy maxRetries doRequest s).outcomes.getLast?.map .outcome =
    some (requestWithRetry lib policy maxRetries doRequest s).ended

theorem createsOnce_iff {S : Type*} (lib : WaitLib) (world : World) (bearer : Bool)
    (start : Progress) (policy : Policy) (maxRetries : Int) (doRequest : S → Outcome × S) (s : S) :
    CreatesOnce lib world bearer start policy maxRetries doRequest s ↔
      0 ≤ maxRetries ∧ WaitsGo lib policy maxRetries doRequest s := by
  obtain ⟨hle, hpos⟩ :=
    @Retry.length_run _ _ policy.again lib.pauses doRequest maxRetries.toNat 0 s
  have hlast := @Retry.ended_run_iff _ _ policy.again lib.pauses doRequest maxRetries.toNat 0 s
  constructor
  · rintro ⟨-, hbounded, hended⟩
    unfold requestWithRetry at hbounded
    exact ⟨by omega, hlast.mp hended⟩
  · rintro ⟨hnonneg, hwaits⟩
    refine ⟨commits_createRule_le lib world bearer start, ?_, hlast.mpr hwaits⟩
    unfold requestWithRetry
    omega

/-! ## A header that is no number -/

/-- Floats as integers and NaN, which is beside every other one. -/
def nanLib : WaitLib where
  F := Option Int
  lt a b := match a, b with
    | some x, some y => x < y
    | _, _ => false
  zero := some 0
  isZero x := x = some 0
  maxRetryAfter := some 120
  float t := if t = "nan" then some none else none
  date _ := .invalid
  ofNat n := some (some n)
  sleeps x := x.isSome

/-- A server that throttles with a wait of NaN. -/
def throttled : Outcome := .response ⟨429, some "nan"⟩

def throttling : World where
  now _ := 0
  factory _ := .ok ⟨"t", none⟩
  exchange _ := throttled

theorem not_createsOnce_throttled :
    ¬CreatesOnce nanLib throttling true {} nonIdempotentRetryable 3 (throttling.request true)
      {} := by
  intro h
  have hlast := h.last
  have hended : (requestWithRetry nanLib nonIdempotentRetryable 3 (throttling.request true)
      {}).ended = .pauseFailed := by rfl
  rw [hended] at hlast
  obtain ⟨o, -, ho⟩ := Option.map_eq_some_iff.mp hlast
  exact absurd ho nofun

end ContentOps.Defender
