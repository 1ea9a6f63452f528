import ContentOps.Library.Retry
import ContentOps.Library.Text

/-! The retry loop of `utils/http_retry.py`: which outcomes it repeats, how long it waits, and what
its caller gets. -/

namespace ContentOps.HttpRetry
open PyData

/-- What a call raises: the leaves of httpx's transport errors, and anything else. -/
inductive Fault where
  | connectTimeout
  | readTimeout
  | writeTimeout
  | poolTimeout
  | connectError
  | readError
  | writeError
  | closeError
  | proxyError
  | unsupportedProtocol
  | localProtocolError
  | remoteProtocolError
  | other
deriving DecidableEq, Repr

def Fault.isTimeoutException (f : Fault) : Bool :=
  f ∈ [.connectTimeout, .readTimeout, .writeTimeout, .poolTimeout]

def Fault.isNetworkError (f : Fault) : Bool :=
  f ∈ [.connectError, .readError, .writeError, .closeError]

structure Response where
  statusCode : Int
  /-- The header `Retry-After`. -/
  retryAfter : Option String := none
deriving DecidableEq, Repr

inductive Outcome where
  | response (r : Response)
  | fault (f : Fault)
deriving DecidableEq, Repr

/-- `retry_status` and `retry_exceptions`. -/
structure Policy where
  status : List Int
  exceptions : Fault → Bool

/-- `RETRYABLE_STATUS`, `RETRYABLE_EXCEPTIONS`. -/
def retryable : Policy where
  status := [429, 500, 502, 503, 504]
  exceptions f := f.isTimeoutException || f.isNetworkError || f = .remoteProtocolError

/-- `NON_IDEMPOTENT_RETRYABLE_STATUS`, `NON_IDEMPOTENT_RETRYABLE_EXCEPTIONS`. -/
def nonIdempotentRetryable : Policy where
  status := [429]
  exceptions f := f ∈ [.connectError, .connectTimeout, .poolTimeout]

/-- The outcomes that are tried again. -/
def Policy.again (p : Policy) : Outcome → Bool
  | .response r => r.statusCode ∈ p.status
  | .fault f => p.exceptions f

/-! ## Waiting -/

/-- What the date of a header comes to. -/
inductive HeaderDate (F : Type) where
  | invalid
  | raises
  | seconds (delta : F)

/-- Python's floats and clock, as far as the loop uses them. -/
structure WaitLib where
  F : Type
  lt : F → F → Bool
  zero : F
  isZero : F → Bool
  /-- `MAX_RETRY_AFTER_SECONDS`. -/
  maxRetryAfter : F
  /-- `float` of a text; `none` is `ValueError`. -/
  float : String → Option F
  /-- The date of a header, less the time now. -/
  date : String → HeaderDate F
  /-- `float` of an integer; `none` is `OverflowError`. -/
  ofNat : ℕ → Option F
  /-- `sleep` comes back. -/
  sleeps : F → Bool

namespace WaitLib
variable (lib : WaitLib)

/-- Python's `min` and `max` of two numbers keep the first one where the second is not beyond it. -/
def min (a b : lib.F) : lib.F := if lib.lt b a then b else a

def max (a b : lib.F) : lib.F := if lib.lt a b then b else a

/-- `parse_retry_after`; the outer `none` is an exception. -/
def parseRetryAfter (r : Response) : Option (Option lib.F) :=
  match r.retryAfter.filter (· ≠ "") with
  | none => some none
  | some raw =>
    let raw := String.ofList (Text.strip raw.toList)
    match lib.float raw with
    | some seconds => some (some (lib.min seconds lib.maxRetryAfter))
    | none =>
      match lib.date raw with
      | .invalid => some none
      | .raises => none
      | .seconds delta => some (some (lib.min (lib.max delta lib.zero) lib.maxRetryAfter))

/-- The wait before an attempt; `none` is an exception. -/
def wait (attempts : ℕ) : Outcome → Option lib.F
  | .fault _ => lib.ofNat (2 ^ attempts)
  | .response r => do
    let headerWait ← lib.parseRetryAfter r
    let backoff ← lib.ofNat (2 ^ attempts)
    -- `header_wait or 0.0`
    some (lib.max ((headerWait.filter fun x => !lib.isZero x).getD lib.zero) backoff)

/-- The wait can be computed, and `sleep` takes it. -/
def pauses (attempts : ℕ) (o : Outcome) : Bool := (lib.wait attempts o).any lib.sleeps

end WaitLib

/-! ## The loop -/

section
variable {S : Type*} (lib : WaitLib) (policy : Policy) (maxRetries : Int)
  (doRequest : S → Outcome × S)

/-- `request_with_retry`. -/
def requestWithRetry (s : S) : Retry.Ran S Outcome :=
  Retry.run policy.again lib.pauses doRequest maxRetries.toNat 0 s

/-- No retry of the call has a wait that cannot be computed or slept. -/
def WaitsGo (s : S) : Prop :=
  Retry.PausesGo policy.again lib.pauses doRequest maxRetries.toNat 0 s

end

end ContentOps.HttpRetry
