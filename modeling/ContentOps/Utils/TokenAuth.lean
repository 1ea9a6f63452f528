import ContentOps.Defender.CreateOnce
import ContentOps.Library.Interleaving
import Mathlib.Algebra.Order.Ring.Rat
import Mathlib.Tactic.Linarith

/-! `utils/token_auth.py`: many requests share one `BearerTokenAuth`, whose lock makes each call of
`_token` one step. -/

namespace ContentOps.TokenAuth
open Defender (Token)

deriving instance DecidableEq for Token

/-- What the token factory does when it is called. -/
inductive Handed where
  | accessToken (token : String) (expiresOn : Int)
  | text (token : String)
  | unsupported
  | raised
deriving DecidableEq, Repr

/-- The token that is kept of it; `none` is an exception, the `TypeError` among them. -/
def Handed.token? : Handed → Option Token
  | .accessToken token expiresOn => some { text := token, expiresOn := some expiresOn }
  | .text token => some { text := token, expiresOn := none }
  | .unsupported | .raised => none

/-- A token and when the factory handed it out. -/
structure Bearer where
  token : Token
  madeAt : ℚ
deriving DecidableEq

def skewSeconds : ℚ := 300

/-- `_is_expired` of a token that is cached. -/
def isExpired (now : ℚ) (b : Bearer) : Bool :=
  b.token.expiresOn.any fun expires => expires - skewSeconds ≤ now

/-- The cached token, where `_token_unlocked` does not call the factory. -/
def usable? (forceRefresh : Bool) (now : ℚ) (cached : Option Bearer) : Option Bearer :=
  cached.filter fun b => !forceRefresh && !isExpired now b

/-- A request that was sent, with the token in its header. -/
structure Sent where
  bearer : Bearer
  sentAt : ℚ
deriving DecidableEq

/-- A first request that was answered with a 401. -/
structure Rejection where
  sent : Sent
  answeredAt : ℚ
deriving DecidableEq

/-- How far an `auth_flow` is: at most two requests, and the second after a 401 only. -/
inductive Flow where
  | idle
  | waiting (rejection : Option Rejection) (sent : Sent)
  | rejected (rejection : Rejection)
  | finished (rejection : Option Rejection) (sent : Sent) (status : Int)
  | failed
deriving DecidableEq

/-- What can happen next: time passes, a flow gets its token and sends, the server answers it, or
the exchange fails. -/
inductive Move (ι : Type) where
  | wait (seconds : ℚ≥0)
  | send (flow : ι) (handed : Handed)
  | answer (flow : ι) (status : Int)
  | drop (flow : ι)

/-- The clock, what the auth object caches, the flows, and the tokens that the factory handed out,
the latest first. -/
structure World (ι : Type) where
  clock : ℚ
  cached : Option Bearer := none
  flow : ι → Flow := fun _ => .idle
  handedOut : List Bearer := []

namespace World
variable {ι : Type} [DecidableEq ι]

def setFlow (w : World ι) (i : ι) (f : Flow) : World ι :=
  { w with flow := Function.update w.flow i f }

/-- `_token`, and the request that carries the token. -/
def attach (w : World ι) (i : ι) (rejection : Option Rejection) (handed : Handed) : World ι :=
  match usable? rejection.isSome w.clock w.cached with
  | some b => w.setFlow i (.waiting rejection { bearer := b, sentAt := w.clock })
  | none =>
    match handed.token? with
    | none => w.setFlow i .failed
    | some token =>
      let b : Bearer := { token := token, madeAt := w.clock }
      { w.setFlow i (.waiting rejection { bearer := b, sentAt := w.clock }) with
        cached := some b
        handedOut := b :: w.handedOut }

def step : Move ι → World ι → World ι
  | .wait seconds, w => { w with clock := w.clock + seconds }
  | .send i handed, w =>
    match w.flow i with
    | .idle | .finished _ _ _ | .failed => w.attach i none handed
    | .rejected rejection => w.attach i (some rejection) handed
    | .waiting _ _ => w
  | .answer i status, w =>
    match w.flow i with
    | .waiting none sent =>
      if status = 401 then w.setFlow i (.rejected { sent := sent, answeredAt := w.clock })
      else w.setFlow i (.finished none sent status)
    | .waiting (some rejection) sent => w.setFlow i (.finished (some rejection) sent status)
    | .idle | .rejected _ | .finished _ _ _ | .failed => w
  | .drop i, w =>
    match w.flow i with
    | .waiting _ _ => w.setFlow i .failed
    | .idle | .rejected _ | .finished _ _ _ | .failed => w

def start (clock : ℚ) : World ι where
  clock := clock

end World

/-! ## What a token is when it is sent -/

/-- The token is not close to its expiry, or the factory has just handed it out. -/
def Sent.Fresh (s : Sent) : Prop :=
  isExpired s.sentAt s.bearer = false ∨ s.bearer.madeAt = s.sentAt

/-- A token is fresh when it is sent, and after a 401 it is one that was not there before. -/
structure Sent.Sound (rejection : Option Rejection) (s : Sent) : Prop where
  fresh : s.Fresh
  renewed : ∀ r ∈ rejection, r.sent.Fresh ∧ r.answeredAt ≤ s.bearer.madeAt

def Flow.Sound (clock : ℚ) : Flow → Prop
  | .waiting rejection sent | .finished rejection sent _ => sent.Sound rejection
  | .rejected r => r.sent.Fresh ∧ r.answeredAt ≤ clock
  | .idle | .failed => True

theorem Flow.Sound.mono {clock clock' : ℚ} (hle : clock ≤ clock') {f : Flow}
    (h : f.Sound clock) : f.Sound clock' := by
  cases f with
  | rejected r => exact ⟨h.1, h.2.trans hle⟩
  | waiting | finished => exact h
  | idle | failed => trivial

/-- A cached token that may be used is not close to its expiry. -/
theorem of_usable? {forceRefresh : Bool} {now : ℚ} {cached : Option Bearer} {b : Bearer}
    (h : usable? forceRefresh now cached = some b) :
    cached = some b ∧ forceRefresh = false ∧ isExpired now b = false := by
  obtain ⟨hcached, husable⟩ := Option.filter_eq_some_iff.mp h
  obtain ⟨hforce, hexpired⟩ := Bool.and_eq_true_iff.mp husable
  exact ⟨hcached, by simpa using hforce, by simpa using hexpired⟩

namespace World
variable {ι : Type} [DecidableEq ι] {w : World ι}

omit [DecidableEq ι] in
theorem forall_setFlow [DecidableEq ι] {P : Flow → Prop} {i : ι} {f : Flow}
    (h : ∀ j, P (w.flow j)) (hf : P f) : ∀ j, P ((w.setFlow i f).flow j) := by
  intro j
  by_cases hij : j = i
  · subst hij
    simpa [setFlow] using hf
  · simpa [setFlow, hij] using h j

theorem sound_attach {i : ι} {rejection : Option Rejection} {handed : Handed}
    (h : ∀ j, (w.flow j).Sound w.clock)
    (hrejection : ∀ r ∈ rejection, r.sent.Fresh ∧ r.answeredAt ≤ w.clock) :
    ∀ j, ((w.attach i rejection handed).flow j).Sound (w.attach i rejection handed).clock := by
  unfold attach
  cases husable : usable? rejection.isSome w.clock w.cached with
  | some b =>
    obtain ⟨-, hforce, hexpired⟩ := of_usable? husable
    refine forall_setFlow h ⟨Or.inl hexpired, fun r hr => ?_⟩
    rw [Option.mem_def.mp hr] at hforce
    cases hforce
  | none =>
    cases htoken : handed.token? with
    | none => exact forall_setFlow h trivial
    | some token =>
      dsimp only
      exact forall_setFlow (P := Flow.Sound w.clock) h ⟨Or.inr rfl, hrejection⟩

theorem sound_step (m : Move ι) (h : ∀ j, (w.flow j).Sound w.clock) :
    ∀ j, ((w.step m).flow j).Sound (w.step m).clock := by
  cases m with
  | wait seconds =>
    exact fun j => (h j).mono (le_add_of_nonneg_right seconds.2)
  | send i handed =>
    have hi := h i
    unfold step
    dsimp only
    cases hflow : w.flow i with
    | waiting rejection sent => exact h
    | rejected r =>
      rw [hflow] at hi
      refine sound_attach h fun r' hr' => ?_
      obtain rfl := Option.some.inj hr'
      exact hi
    | idle | finished | failed => exact sound_attach h fun r hr => by cases hr
  | answer i status =>
    have hi := h i
    unfold step
    dsimp only
    cases hflow : w.flow i with
    | waiting rejection sent =>
      rw [hflow] at hi
      cases rejection with
      | some r => exact forall_setFlow h hi
      | none =>
        dsimp only
        split_ifs
        · exact forall_setFlow (P := Flow.Sound w.clock) h ⟨hi.fresh, le_rfl⟩
        · exact forall_setFlow h hi
    | idle | rejected | finished | failed => exact h
  | drop i =>
    unfold step
    dsimp only
    cases hflow : w.flow i with
    | waiting rejection sent => exact forall_setFlow h trivial
    | idle | rejected | finished | failed => exact h

end World

variable {ι : Type} [DecidableEq ι]

/-- The factory's tokens last for more than the skew, the server rejects a token only once it has
expired, and answers a request within the skew. -/
def Move.Prompt (m : Move ι) (w : World ι) : Prop :=
  match m with
  | .send _ handed =>
    ∃ token expires, handed = .accessToken token expires ∧ w.clock + skewSeconds < expires
  | .answer i status =>
    ∀ rejection sent, w.flow i = .waiting rejection sent → w.clock ≤ sent.sentAt + skewSeconds ∧
      (status = 401 → ∃ expires ∈ sent.bearer.token.expiresOn, (expires : ℚ) ≤ w.clock)
  | .wait _ | .drop _ => True

/-- The flow has met no 401, and will not meet one if it is answered in time. -/
def Flow.Calm : Flow → Prop
  | .waiting none sent =>
    ∃ expires ∈ sent.bearer.token.expiresOn, sent.sentAt + skewSeconds < (expires : ℚ)
  | .finished none _ status => status ≠ 401
  | .idle | .failed => True
  | .waiting (some _) _ | .rejected _ | .finished (some _) _ _ => False

/-- The factory is called again only when its last token is close to its expiry. -/
def Spaced (handedOut : List Bearer) : Prop :=
  handedOut.IsChain fun later earlier => isExpired later.madeAt earlier = true

structure World.Calm (w : World ι) : Prop where
  flows : ∀ i, (w.flow i).Calm
  spaced : Spaced w.handedOut
  cached : w.cached = w.handedOut.head?
  expires : ∀ b ∈ w.handedOut, b.token.expiresOn.isSome

omit [DecidableEq ι] in
theorem calm_of_usable {w : World ι} (h : w.Calm) {b : Bearer}
    (husable : usable? false w.clock w.cached = some b) :
    (Flow.waiting none { bearer := b, sentAt := w.clock }).Calm := by
  obtain ⟨hcached, -, hexpired⟩ := of_usable? husable
  have hmem : b ∈ w.handedOut := List.mem_of_mem_head? (h.cached ▸ hcached)
  obtain ⟨expires, hexpires⟩ := Option.isSome_iff_exists.mp (h.expires b hmem)
  refine ⟨expires, hexpires, ?_⟩
  have hlater : ¬(expires : ℚ) - skewSeconds ≤ w.clock := by
    simpa [isExpired, hexpires] using hexpired
  change w.clock + skewSeconds < expires
  linarith

omit [DecidableEq ι] in
/-- Where the cached token is not usable, a new one is due. -/
theorem spaced_of_not_usable {w : World ι} (h : w.Calm)
    (husable : usable? false w.clock w.cached = none) (token : Token) :
    Spaced ({ token := token, madeAt := w.clock } :: w.handedOut) := by
  rw [h.cached] at husable
  cases hout : w.handedOut with
  | nil => exact List.IsChain.singleton _
  | cons b rest =>
    have hexpired : isExpired w.clock b = true := by
      rw [hout] at husable
      simpa [usable?] using husable
    exact List.isChain_cons_cons.mpr ⟨hexpired, hout ▸ h.spaced⟩

theorem calm_attach {w : World ι} (h : w.Calm) (i : ι) {token : String} {expires : Int}
    (hexpires : w.clock + skewSeconds < expires) :
    (w.attach i none (.accessToken token expires)).Calm := by
  unfold World.attach
  cases husable : usable? (none : Option Rejection).isSome w.clock w.cached with
  | some b =>
    exact ⟨World.forall_setFlow h.flows (calm_of_usable h husable), h.spaced, h.cached, h.expires⟩
  | none =>
    exact ⟨World.forall_setFlow h.flows ⟨expires, rfl, hexpires⟩, spaced_of_not_usable h husable _,
      rfl, List.forall_mem_cons.mpr ⟨rfl, h.expires⟩⟩

theorem calm_step (m : Move ι) (w : World ι) (h : w.Calm) (hm : m.Prompt w) :
    (w.step m).Calm := by
  have hset : ∀ {i : ι} {f : Flow}, f.Calm → (w.setFlow i f).Calm := fun hf =>
    ⟨World.forall_setFlow h.flows hf, h.spaced, h.cached, h.expires⟩
  cases m with
  | wait seconds => exact ⟨h.flows, h.spaced, h.cached, h.expires⟩
  | send i handed =>
    obtain ⟨token, expires, rfl, hexpires⟩ := hm
    have hi := h.flows i
    unfold World.step
    dsimp only
    cases hflow : w.flow i with
    | waiting rejection sent => exact h
    | rejected r => exact (hflow ▸ hi : (Flow.rejected r).Calm).elim
    | idle | finished | failed => exact calm_attach h i hexpires
  | answer i status =>
    have hi := h.flows i
    unfold World.step
    dsimp only
    cases hflow : w.flow i with
    | waiting rejection sent =>
      rw [hflow] at hi
      cases rejection with
      | some r => exact hi.elim
      | none =>
        obtain ⟨hprompt, hhonest⟩ := hm none sent hflow
        have hstatus : status ≠ 401 := by
          intro h401
          obtain ⟨expires, hexpires, hlater⟩ := hi
          obtain ⟨expires', hexpires', hpast⟩ := hhonest h401
          obtain rfl : expires = expires' :=
            Option.some.inj (hexpires.symm.trans hexpires')
          linarith
        dsimp only
        rw [if_neg hstatus]
        exact hset hstatus
    | idle | rejected | finished | failed => exact h
  | drop i =>
    unfold World.step
    dsimp only
    cases hflow : w.flow i with
    | waiting rejection sent => exact hset trivial
    | idle | rejected | finished | failed => exact h

/-- No flow meets a 401, however many share the tokens and however long they run. -/
theorem run_calm {clock : ℚ} {schedule : List (Move ι)}
    (h : Interleaving.Along World.step Move.Prompt (World.start clock) schedule) :
    (Interleaving.run World.step (World.start clock) schedule).Calm :=
  Interleaving.run_invariant World.Calm (fun m w => calm_step m w)
    ⟨fun _ => trivial, List.IsChain.nil, rfl, fun _ hb => absurd hb List.not_mem_nil⟩ h

/-! Two requests that share a token, and a third after it has come close to its expiry. -/

def renewal : List (Move Bool) :=
  [.send false (.accessToken "a" 3600), .wait 60, .send true (.accessToken "b" 3660),
    .answer false 200, .wait 3300, .send false (.accessToken "c" 7000)]

theorem prompt_renewal :
    Interleaving.Along World.step Move.Prompt (World.start 0) renewal := by
  refine ⟨⟨"a", 3600, rfl, ?_⟩, trivial, ⟨"b", 3660, rfl, ?_⟩, ?_, trivial, ⟨"c", 7000, rfl, ?_⟩,
    trivial⟩
  · decide +kernel
  · decide +kernel
  · rintro rejection sent hflow
    have hsent : Flow.waiting rejection sent = .waiting none
        { bearer := { token := { text := "a", expiresOn := some 3600 }, madeAt := 0 },
          sentAt := 0 } :=
      hflow.symm.trans (by decide +kernel)
    obtain ⟨rfl, rfl⟩ := Flow.waiting.inj hsent
    exact ⟨by decide +kernel, fun h => absurd h (by decide)⟩
  · decide +kernel

theorem run_calm_renewal :
    (Interleaving.run World.step (World.start 0) renewal).Calm :=
  run_calm prompt_renewal

end ContentOps.TokenAuth
