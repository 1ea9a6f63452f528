import ContentOps.Handlers.ArmUpsert
import Mathlib.Algebra.Order.BigOperators.Group.List

/-! No edit of a resource is lost to an `apply` that saw an etag, whatever else happens in between. -/

namespace ContentOps.ArmUpsert
open PyData HttpRetry

section
variable {ι X : Type} [Value.ScalarEq X]

/-- The etag that a write was made under. -/
def Write.etag (arm : Arm X) (e : Write ι X) : Option String := e.seen.etag arm

/-- What holds of the accepted writes: one under an etag replaces the version that was read, no
version is replaced so twice, and only a lenient handler writes over an etag that it did not see. -/
structure NoLostUpdate (arm : Arm X) (ups : ι → Upsert X) (writes : List (Write ι X)) : Prop where
  meant : ∀ e ∈ writes, (e.etag arm).isSome → ∃ v, e.seen = .found v ∧ e.replaced = some v
  once : writes.Pairwise fun e e' => (e.etag arm).isSome → (e'.etag arm).isSome →
    (ups e.agent).resource = (ups e'.agent).resource → e.replaced ≠ e'.replaced
  blind : ∀ e ∈ writes, (ups e.agent).lenient = false → e.etag arm = none →
    e.seen = .absent ∨ ∃ v, e.seen = .found v ∧ Playbook.extractEtag (arm.shown v) = none

variable [Json.FloatText X] {H : Type} [DecidableEq H] (sha : Text → H) (hexdigest : H → String)
  (arm : Arm X)

/-- A version with the hashed fields of the body was there. -/
def Stood (u : Upsert X) (r : Register String (Document X)) : Prop :=
  ∃ v ∈ r.versions, computeContentHash sha (arm.shown v) u.hashedFields =
    computeContentHash sha u.body u.hashedFields

/-- What an `apply` knows of its resource. -/
def Phase.Fits (u : Upsert X) (r : Register String (Document X)) : Phase X → Prop
  | .write (.found v) _ => v ∈ r.versions
  | .write .unknown _ => u.lenient = true
  | .count _ _ => Stood sha arm u r
  | .done result => result.verified = some true → Stood sha arm u r
  | .write .absent _ | .read _ | .verify _ _ | .raised _ => True

section
variable {sha arm} {u : Upsert X} {r r' : Register String (Document X)}

omit [Json.FloatText X] [DecidableEq H] in
theorem Stood.mono [Json.FloatText X] (h : Stood sha arm u r) (hsub : r.versions ⊆ r'.versions) :
    Stood sha arm u r' := by
  obtain ⟨v, hv, hhash⟩ := h
  exact ⟨v, hsub hv, hhash⟩

omit [DecidableEq H] in
theorem Phase.Fits.mono {p : Phase X} (h : p.Fits sha arm u r) (hsub : r.versions ⊆ r'.versions) :
    p.Fits sha arm u r' := by
  cases p with
  | write seen n =>
    cases seen with
    | found v => exact hsub h
    | unknown | absent => exact h
  | count action n => exact Stood.mono h hsub
  | done result => exact fun hverified => (h hverified).mono hsub
  | read | verify | raised => trivial

omit [DecidableEq H] in
theorem fits_readPhase (u : Upsert X) (r : Register String (Document X)) (n : Nat) (x : Exchange) :
    (readPhase u r.current n x).Fits sha arm u r := by
  have hfailed : ∀ failure : Failure, (readFailed u failure).Fits sha arm u r := by
    intro failure
    cases failure with
    | fault f => trivial
    | status code text other =>
      unfold readFailed
      split_ifs with hlenient
      · exact hlenient
      · trivial
  cases x with
  | answered =>
    unfold readPhase
    cases hcurrent : r.current with
    | none => trivial
    | some v => exact Register.mem_versions_of_current hcurrent
  | cutOff failure | refused failure =>
    unfold readPhase
    dsimp only
    split_ifs
    · trivial
    · exact hfailed failure

omit [DecidableEq H] in
theorem fits_writeFailed {seen : Reading X} {n : Nat}
    (h : (Phase.write seen n).Fits sha arm u r) (failure : Failure) :
    (writeFailed u seen n failure).Fits sha arm u r := by
  unfold writeFailed
  split_ifs with hagain
  · cases seen <;> exact h
  · cases failure with
    | fault f => trivial
    | status code text other =>
      exact fun hverified => absurd hverified (by simp [Upsert.failed, Upsert.result])

theorem fits_verifyPhase (u : Upsert X) (r : Register String (Document X)) (action : PlanAction)
    (n : Nat) (x : Exchange) :
    (verifyPhase sha hexdigest arm u r.current action n x).Fits sha arm u r := by
  have hunverified : ∀ status detail,
      (Phase.done (u.result action status (some false) detail)).Fits sha arm u r :=
    fun _ _ hverified => absurd hverified (by simp [Upsert.result])
  have hfailed : ∀ failure : Failure, (verifyFailed u action failure).Fits sha arm u r := by
    intro failure
    cases failure with
    | fault f => trivial
    | status code text other =>
      unfold verifyFailed
      split_ifs
      · exact hunverified _ _
      · trivial
  cases x with
  | answered =>
    unfold verifyPhase
    cases hcurrent : r.current with
    | none => exact hunverified _ _
    | some v =>
      dsimp only
      split_ifs with hhash
      · exact hunverified _ _
      · exact ⟨v, Register.mem_versions_of_current hcurrent, not_not.mp hhash⟩
      · exact fun _ => ⟨v, Register.mem_versions_of_current hcurrent, not_not.mp hhash⟩
  | cutOff failure | refused failure =>
    unfold verifyPhase
    dsimp only
    split_ifs
    · trivial
    · exact hfailed failure

omit [DecidableEq H] in
theorem fits_countPhase (faultText : Fault → String) {action : PlanAction} {n : Nat}
    (h : (Phase.count action n).Fits sha arm u r) (items : Nat) (x : Exchange) :
    (countPhase faultText u action n items x).Fits sha arm u r := by
  have hany : ∀ result : ActionResult, (Phase.done result).Fits sha arm u r := fun _ _ => h
  cases x with
  | answered =>
    unfold countPhase
    dsimp only
    split_ifs <;> exact hany _
  | cutOff failure | refused failure =>
    unfold countPhase
    dsimp only
    split_ifs
    · exact h
    · cases failure <;> exact hany _

end

variable (ups : ι → Upsert X)

/-- The state of every `apply`, and what the writes so far replaced. -/
structure World.Inv (w : World ι X) : Prop where
  fits : ∀ i, (w.phase i).Fits sha arm (ups i) (w.registers (ups i).resource)
  writes : NoLostUpdate arm ups w.writes
  past : ∀ e ∈ w.writes, (e.etag arm).isSome → ∃ v, e.replaced = some v ∧
    v ∈ (w.registers (ups e.agent).resource).past

section
variable {sha arm ups} {w : World ι X}

omit [DecidableEq H] in
theorem inv_start (registers : String → Register String (Document X)) :
    (World.start registers : World ι X).Inv sha arm ups where
  fits _ := trivial
  writes := ⟨by simp [World.start], by simp [World.start], by simp [World.start]⟩
  past := by simp [World.start]

omit [DecidableEq H] in
theorem World.Inv.setPhase [DecidableEq ι] (h : w.Inv sha arm ups) {i : ι} {p : Phase X}
    (hp : p.Fits sha arm (ups i) (w.registers (ups i).resource)) :
    (w.setPhase i p).Inv sha arm ups where
  fits j := by
    change (Function.update w.phase i p j).Fits sha arm (ups j) (w.registers (ups j).resource)
    by_cases hj : j = i
    · subst hj
      rwa [Function.update_self]
    · rw [Function.update_of_ne hj]
      exact h.fits j
  writes := h.writes
  past := h.past

/-- A register that keeps its versions, and the ones that are past. -/
structure Grows (r r' : Register String (Document X)) : Prop where
  versions : r.versions ⊆ r'.versions
  past : r.past ⊆ r'.past

omit [Value.ScalarEq X] [Json.FloatText X] in
theorem grows_write (tags : Tagging String) (r : Register String (Document X)) (b : Document X) :
    Grows r (r.write tags b) where
  versions := fun _ hv => Register.mem_versions_write tags b hv
  past := fun _ hv => by
    rw [Register.past_write]
    exact Register.mem_versions_of_past hv

omit [Value.ScalarEq X] [Json.FloatText X] in
theorem grows_remove (r : Register String (Document X)) : Grows r r.remove where
  versions := fun _ hv => hv
  past := fun _ hv => by
    rw [Register.past_remove]
    exact Register.mem_versions_of_past hv

omit [Value.ScalarEq X] [Json.FloatText X] in
theorem grows_setRegister {resource : String} {r' : Register String (Document X)}
    (hr : Grows (w.registers resource) r') (name : String) :
    Grows (w.registers name) ((w.setRegister resource r').registers name) := by
  change Grows (w.registers name) (Function.update w.registers resource r' name)
  by_cases hname : name = resource
  · subst hname
    rwa [Function.update_self]
  · rw [Function.update_of_ne hname]
    exact ⟨fun _ hv => hv, fun _ hv => hv⟩

omit [DecidableEq H] in
theorem World.Inv.setRegister (h : w.Inv sha arm ups) {resource : String}
    {r' : Register String (Document X)} (hr : Grows (w.registers resource) r') :
    (w.setRegister resource r').Inv sha arm ups where
  fits j := (h.fits j).mono (grows_setRegister hr (ups j).resource).versions
  writes := h.writes
  past e he hetag := by
    obtain ⟨v, hreplaced, hv⟩ := h.past e he hetag
    exact ⟨v, hreplaced, (grows_setRegister hr _).past hv⟩

omit [DecidableEq H] in
/-- The write that a put adds is one that was meant, of a version that no write replaced before. -/
theorem World.Inv.put (h : w.Inv sha arm ups) {i : ι} {seen : Reading X} {n : Nat}
    (hphase : w.phase i = .write seen n) {w' : World ι X} (hput : w.put arm ups i seen = some w') :
    w'.Inv sha arm ups := by
  unfold World.put at hput
  obtain ⟨r', hr', rfl⟩ := Option.map_eq_some_iff.mp hput
  have hwrite := Register.eq_write_of_replaceIf hr'
  have hset := h.setRegister (hwrite ▸ grows_write arm.tags (w.registers (ups i).resource) _)
  have hfits : (Phase.write seen n).Fits sha arm (ups i) (w.registers (ups i).resource) :=
    hphase ▸ h.fits i
  have hnew : (seen.etag arm).isSome → ∃ v, seen = .found v ∧
      (w.registers (ups i).resource).current = some v := by
    intro hetag
    cases seen with
    | unknown | absent => exact absurd hetag (by simp [Reading.etag])
    | found v =>
      obtain ⟨e, he⟩ := Option.isSome_iff_exists.mp hetag
      rw [he, arm.shown_etag v e he] at hr'
      exact ⟨v, rfl, Register.current_of_replaceIf hr' hfits⟩
  refine ⟨hset.fits, ⟨?_, ?_, ?_⟩, ?_⟩
  · -- meant
    intro e he hetag
    rcases List.mem_cons.mp he with rfl | he
    · exact hnew hetag
    · exact h.writes.meant e he hetag
  · -- once: what is there now is not among what was replaced
    refine List.pairwise_cons.mpr ⟨?_, h.writes.once⟩
    intro e he hetag hetag' hsame heq
    obtain ⟨v, -, hcurrent⟩ := hnew hetag
    obtain ⟨v', hreplaced, hpast⟩ := h.past e he hetag'
    have hv : v = v' := Option.some.inj (hcurrent.symm.trans (heq.trans hreplaced))
    rw [← hsame, ← hv] at hpast
    exact Register.notMem_past_of_current hcurrent hpast
  · -- blind
    intro e he hlenient hetag
    rcases List.mem_cons.mp he with rfl | he
    · cases seen with
      | unknown => exact absurd (hlenient.symm.trans hfits) Bool.false_ne_true
      | absent => exact Or.inl rfl
      | found v => exact Or.inr ⟨v, rfl, hetag⟩
    · exact h.writes.blind e he hlenient hetag
  · intro e he hetag
    rcases List.mem_cons.mp he with rfl | he
    · obtain ⟨v, -, hcurrent⟩ := hnew hetag
      refine ⟨v, hcurrent, ?_⟩
      change v ∈ (Function.update w.registers (ups i).resource r' (ups i).resource).past
      rw [Function.update_self, hwrite, Register.past_write]
      exact Register.mem_versions_of_current hcurrent
    · exact hset.past e he hetag

omit [Json.FloatText X] in
theorem phase_put {i : ι} {seen : Reading X} {w' : World ι X}
    (hput : w.put arm ups i seen = some w') : w'.phase = w.phase := by
  unfold World.put at hput
  obtain ⟨r', -, rfl⟩ := Option.map_eq_some_iff.mp hput
  rfl

omit [DecidableEq H] in
theorem World.Inv.writeTurn [DecidableEq ι] (h : w.Inv sha arm ups) {i : ι} {seen : Reading X}
    {n : Nat} (hphase : w.phase i = .write seen n) (exchange : Exchange) :
    (w.writeTurn arm ups i seen n exchange).Inv sha arm ups := by
  have hfits : ∀ {w' : World ι X}, w'.Inv sha arm ups → w'.phase = w.phase →
      (Phase.write seen n).Fits sha arm (ups i) (w'.registers (ups i).resource) := by
    intro w' hw' hsame
    have hi := hw'.fits i
    rwa [hsame, hphase] at hi
  unfold World.writeTurn
  cases exchange with
  | refused failure => exact h.setPhase (fits_writeFailed (hfits h rfl) failure)
  | cutOff failure =>
    dsimp only
    cases hput : w.put arm ups i seen with
    | none => exact h.setPhase (fits_writeFailed (hfits h rfl) failure)
    | some w' =>
      have hw' := h.put hphase hput
      exact hw'.setPhase (fits_writeFailed (hfits hw' (phase_put hput)) failure)
  | answered =>
    dsimp only
    cases hput : w.put arm ups i seen with
    | none =>
      exact h.setPhase fun hverified => absurd hverified (by simp [Upsert.conflict, Upsert.result])
    | some w' => exact (h.put hphase hput).setPhase trivial

end

variable [DecidableEq ι] (faultText : Fault → String)

theorem World.Inv.step {w : World ι X} (m : Move ι X) (h : w.Inv sha arm ups) :
    (w.step sha hexdigest arm faultText ups m).Inv sha arm ups := by
  cases m with
  | edit resource content => exact h.setRegister (grows_write _ _ _)
  | remove resource => exact h.setRegister (grows_remove _)
  | turn i exchange items =>
    have hfits := h.fits i
    unfold World.step
    dsimp only
    cases hphase : w.phase i with
    | read n => exact h.setPhase (fits_readPhase _ _ n exchange)
    | verify action n => exact h.setPhase (fits_verifyPhase hexdigest _ _ action n exchange)
    | count action n =>
      rw [hphase] at hfits
      exact h.setPhase (fits_countPhase faultText hfits items exchange)
    | done result => exact h
    | raised f => exact h
    | write seen n => exact h.writeTurn hphase exchange

/-- What the safety of all the `apply` together comes to. -/
structure World.Safe (w : World ι X) : Prop where
  writes : NoLostUpdate arm ups w.writes
  verified : ∀ i result, w.phase i = .done result → result.verified = some true →
    Stood sha arm (ups i) (w.registers (ups i).resource)

/-- From any content of the workspace and in any order of the requests, whatever fails and whatever
is edited in between. -/
theorem applies_safe (registers : String → Register String (Document X))
    (schedule : List (Move ι X)) :
    (Interleaving.run (World.step sha hexdigest arm faultText ups) (World.start registers)
      schedule).Safe sha arm ups := by
  have hinv := Interleaving.run_invariant_of_step (World.Inv sha arm ups)
    (fun m _ h => h.step sha hexdigest arm ups faultText m)
    (inv_start registers) schedule
  refine ⟨hinv.writes, ?_⟩
  intro i result hphase
  have hfits := hinv.fits i
  rw [hphase] at hfits
  exact hfits

end
/-! Two runs that read the same version: the second write is refused. -/

/-- A tag that is longer than those that were given. -/
def longerTag (used : List String) : String :=
  String.ofList (List.replicate ((used.map String.length).sum + 1) 'x')

/-- A server that takes what it is sent and shows it with its etag. -/
def plainArm : Arm Empty where
  tags :=
    { next := longerTag
      fresh := by
        intro used hmem
        have hle := List.single_le_sum (fun n _ => Nat.zero_le n) _
          (List.mem_map_of_mem (f := String.length) hmem)
        simp [longerTag] at hle }
  shown v := if v.1 = "" then [] else v.2.set "etag" (.str v.1)
  stored _ body := body
  shown_etag := by
    intro v e h
    split_ifs at h with hempty
    · rw [show Playbook.extractEtag ([] : Document Empty) = none by decide +kernel] at h
      cases h
    · simpa [Playbook.extractEtag, Value.textAt, hempty] using h.symm

/-- The upsert of a saved watchlist. -/
def vipUpsert : Upsert Empty where
  assetId := "vip"
  assetKind := "sentinel_watchlist"
  resource := "watchlists/vip"
  lenient := false
  body := [("properties", .dict [("displayName", .str "VIP")])]
  hashedFields := [["properties", "displayName"]]
  disables := false
  expectedItems := none

def Phase.status : Phase Empty → Option String
  | .done r => some r.status
  | _ => none

example :
    let turns : List Bool := [false, true, false, true, false]
    let present : Register String (Document Empty) :=
      { versions := [("x", [])], present := true, distinct := by decide }
    let w := Interleaving.run (World.step id String.ofList plainArm (fun _ => "") fun _ => vipUpsert)
      (World.start fun _ => present) (turns.map fun i => Move.turn i .answered 0)
    ((w.phase false).status, (w.phase true).status) = (some "success", some "error-412") := by
  decide +kernel

end ContentOps.ArmUpsert
