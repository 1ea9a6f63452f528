import ContentOps.Core.Drift
import ContentOps.Library.ObjectStore
import ContentOps.State

/-! `contentops state sync`, `state_sync.py`: the state file is carried between clones on a branch
of its own, and `status` compares ids of blobs. A file that is pulled ends in a newline that the
file that was pushed has not. -/

namespace ContentOps
open PyData ObjectStore

/-- `_ref_name`; `none` is `StateSyncError`. -/
def refName (env : String) : Option String :=
  let stripped := Slug.lower (Text.strip env.toList)
  let safe := if stripped = [] then "default".toList else stripped
  if safe.head?.any isIdChar && safe.all (fun c => isIdChar c || c = '-' || c = '_') &&
      safe.length ≤ 63 then
    some ("refs/heads/state/" ++ String.ofList safe)
  else none

/-- What `_run` makes of the output of a command. -/
def runOutput (stdout : Text) : Text := Text.strip (unifyNewlines stdout)

/-- The working files and the repository of a clone. -/
structure Clone {Oid : Type} (A : Addressing Oid) where
  files : FileTree
  repo : Repo A

structure StatusResult (Oid : Type) where
  localSha : Option Oid
  remoteSha : Option Oid
  inSync : Bool

section
variable {Oid : Type} [DecidableEq Oid] {A : Addressing Oid}

/-- `push`, with what `remote` becomes; `info` is the rest of the commit, `reachable` whether the
remote takes it. `none` is `StateSyncError`. -/
def push (env : String) (stateFile : Path) (info : Text) (reachable : Bool) (c : Clone A)
    (remote : Repo A) : Option (Clone A × Repo A) := do
  let content ← c.files.read stateFile
  let ref ← refName env
  let blob := Object.blob content
  let tree := Object.tree [("state.json", A.hash blob)]
  let commit := Object.commit (A.hash tree) [] info
  let repo := (((c.repo.put blob).put tree).put commit).setRef ref (A.hash commit)
  let remote := if reachable then (remote.absorb repo).setRef ref (A.hash commit) else remote
  some ({ c with repo }, remote)

/-- `pull`; the file is not written when there is no branch or no file on it. -/
def pull (env : String) (stateFile : Path) (reachable : Bool) (c : Clone A) (remote : Repo A) :
    Option (Clone A) := do
  let ref ← refName env
  let repo := match remote.refs ref with
    | some commit => if reachable then (c.repo.absorb remote).setRef ref commit else c.repo
    | none => c.repo
  match (repo.entryAt? ref "state.json").bind repo.blob? with
  | none => some { c with repo }
  | some stdout =>
    let body := runOutput stdout
    let content := if body.getLast? = some '\n' then body else body ++ ['\n']
    some { files := c.files.write stateFile content, repo }

/-- The id `_file_blob_sha` computes: the one git has for a blob of this content. -/
def fileBlobSha (A : Addressing Oid) (content : Text) : Oid := A.hash (.blob content)

def status (env : String) (stateFile : Path) (c : Clone A) : Option (StatusResult Oid) := do
  let ref ← refName env
  let localSha := (c.files.read stateFile).map (fileBlobSha A)
  let remoteSha := c.repo.entryAt? ref "state.json"
  some { localSha, remoteSha, inSync := localSha.isSome && localSha = remoteSha }

/-! ## The text of a state in transit -/

/-- A saved state comes out of a command as it went in. -/
theorem runOutput_stateText {X : Type} [Json.FloatText X] [Json.FloatLine X] (s : EnvState) :
    runOutput (stateText X s) = stateText X s ∧ (stateText X s).getLast? = some '}' := by
  have hkeeps : (Json.indent2 true).Keeps (· ≠ '\r') :=
    { asciiOnly := rfl
      char := by
        rintro c hc rfl
        exact absurd hc (by decide)
      pad := by simp [Json.indent2]
      gap := by simp [Json.indent2] }
  have hline := unifyNewlines_eq_self (hkeeps.write 0 (Value.dict (s.payload X)).sortKeys)
  rw [← Json.dumps, ← stateText] at hline
  obtain ⟨mid, hmid⟩ : ∃ mid, stateText X s = '{' :: mid ++ ['}'] := by
    unfold stateText
    rw [Value.sortKeys_dict]
    exact Json.dumps_dict_braces _ _
  unfold runOutput
  rw [hline, hmid]
  exact ⟨Text.strip_eq_self (by decide) (by decide) mid, List.getLast?_concat⟩

/-! ## What a push and a pull come to -/

theorem saved_read {X : Type} [Json.FloatText X] (s : EnvState) (files : FileTree) :
    (saveState X s files).read (statePath s.env) = some (stateText X s) :=
  Directory.read_write_self _ _ _

/-- The pushed file is on the branch of both repositories. -/
theorem push_eq_some {env : String} {stateFile : Path} {info content : Text} {c c' : Clone A}
    {remote remote' : Repo A} (hread : c.files.read stateFile = some content)
    (h : push env stateFile info true c remote = some (c', remote')) :
    ∃ ref commit, refName env = some ref ∧ c'.files = c.files ∧
      c'.repo.HoldsFile ref "state.json" content commit ∧
      remote'.HoldsFile ref "state.json" content commit := by
  unfold push at h
  rw [hread] at h
  obtain ⟨_, hcontent, h⟩ := Option.bind_eq_some_iff.mp h
  obtain rfl := Option.some.inj hcontent
  obtain ⟨ref, href, h⟩ := Option.bind_eq_some_iff.mp h
  obtain ⟨rfl, rfl⟩ := Prod.mk.inj (Option.some.inj h)
  have hholds := Repo.holdsFile_put c.repo ref "state.json" content info
  exact ⟨ref, _, href, rfl, hholds, hholds.transfer⟩

omit [DecidableEq Oid] in
/-- A pulled file is what a command prints of it, ended by a newline. -/
theorem pull_eq_some {env ref : String} {stateFile : Path} {content : Text} {commit : Oid}
    {c c' : Clone A} {remote : Repo A} (href : refName env = some ref)
    (hremote : remote.HoldsFile ref "state.json" content commit)
    (hlast : (runOutput content).getLast? ≠ some '\n')
    (h : pull env stateFile true c remote = some c') :
    c'.files.read stateFile = some (runOutput content ++ ['\n']) ∧
      c'.repo.HoldsFile ref "state.json" content commit := by
  have hholds := hremote.transfer (r := c.repo)
  unfold pull at h
  obtain ⟨ref', href', h⟩ := Option.bind_eq_some_iff.mp h
  obtain rfl := Option.some.inj (href.symm.trans href')
  simp only [hremote.ref, if_true, hholds.read, if_neg hlast] at h
  obtain rfl := Option.some.inj h
  exact ⟨Directory.read_write_self _ _ _, hholds⟩

theorem status_eq {env ref : String} {stateFile : Path} {content content' : Text} {commit : Oid}
    {c : Clone A} (href : refName env = some ref) (hread : c.files.read stateFile = some content)
    (hholds : c.repo.HoldsFile ref "state.json" content' commit) :
    ∃ r, status env stateFile c = some r ∧ (r.inSync = true ↔ content = content') := by
  unfold status
  rw [href, hread]
  refine ⟨_, rfl, ?_⟩
  simp only [hholds.entry, Option.map_some, Option.isSome_some, Bool.true_and, decide_eq_true_eq,
    Option.some.injEq, fileBlobSha]
  exact ⟨fun h => Object.blob.inj (A.injective h), fun h => by rw [h]⟩

/-! ## The round trip -/

section
variable (X : Type) [Json.FloatText X]

/-- The state is there again in the clone that pulled, and both clones are in sync. -/
structure RoundTrip [Value.ScalarEq X] (s : EnvState) (pushed pulled : Clone A) : Prop where
  loaded : ∃ t, loadState X s.env pulled.files = some t ∧ s.Same t
  afterPush : ∃ r, status s.env (statePath s.env) pushed = some r ∧ r.inSync = true
  afterPull : ∃ r, status s.env (statePath s.env) pulled = some r ∧ r.inSync = true

variable {X} [Json.FloatLine X] {s : EnvState} {pusher pushed puller pulled : Clone A}
  {remote remote' : Repo A} {info : Text}

/-- The clone that pulls has the saved text with a newline more. -/
theorem transfer_saved (hsaved : pusher.files.read (statePath s.env) = some (stateText X s))
    (hpush : push s.env (statePath s.env) info true pusher remote = some (pushed, remote'))
    (hpull : pull s.env (statePath s.env) true puller remote' = some pulled) :
    ∃ ref commit, refName s.env = some ref ∧ pushed.files = pusher.files ∧
      pushed.repo.HoldsFile ref "state.json" (stateText X s) commit ∧
      pulled.files.read (statePath s.env) = some (stateText X s ++ ['\n']) ∧
      pulled.repo.HoldsFile ref "state.json" (stateText X s) commit := by
  obtain ⟨ref, commit, href, hfiles, hpushed, hremote⟩ := push_eq_some hsaved hpush
  obtain ⟨hout, hlast⟩ := runOutput_stateText (X := X) s
  obtain ⟨hread, hpulled⟩ := pull_eq_some href hremote (by rw [hout, hlast]; decide) hpull
  rw [hout] at hread
  exact ⟨ref, commit, href, hfiles, hpushed, hread, hpulled⟩

theorem load_pulled [Value.ScalarEq X]
    (hsaved : pusher.files.read (statePath s.env) = some (stateText X s))
    (hpush : push s.env (statePath s.env) info true pusher remote = some (pushed, remote'))
    (hpull : pull s.env (statePath s.env) true puller remote' = some pulled) :
    ∃ t, loadState X s.env pulled.files = some t ∧ s.Same t := by
  obtain ⟨-, -, -, -, -, hread, -⟩ := transfer_saved hsaved hpush hpull
  unfold loadState
  rw [hread]
  exact stateOfText_stateText s s.env (by simp)

theorem inSync_pushed (hsaved : pusher.files.read (statePath s.env) = some (stateText X s))
    (hpush : push s.env (statePath s.env) info true pusher remote = some (pushed, remote'))
    (hpull : pull s.env (statePath s.env) true puller remote' = some pulled) :
    ∃ r, status s.env (statePath s.env) pushed = some r ∧ r.inSync = true := by
  obtain ⟨ref, commit, href, hfiles, hpushed, -, -⟩ := transfer_saved hsaved hpush hpull
  obtain ⟨r, hr, hsync⟩ := status_eq href (hfiles ▸ hsaved) hpushed
  exact ⟨r, hr, hsync.mpr rfl⟩

/-- The newline gives the pulled file another id than the blob on the branch. -/
theorem not_inSync_pulled (hsaved : pusher.files.read (statePath s.env) = some (stateText X s))
    (hpush : push s.env (statePath s.env) info true pusher remote = some (pushed, remote'))
    (hpull : pull s.env (statePath s.env) true puller remote' = some pulled) :
    ∃ r, status s.env (statePath s.env) pulled = some r ∧ r.inSync = false := by
  obtain ⟨ref, commit, href, -, -, hread, hpulled⟩ := transfer_saved hsaved hpush hpull
  obtain ⟨r, hr, hsync⟩ := status_eq href hread hpulled
  refine ⟨r, hr, ?_⟩
  by_contra hcon
  have hlen := congrArg List.length (hsync.mp (by simpa using hcon))
  simp at hlen

/-- No saved state makes the round trip: the clone that pulled it is never in sync, though the
state is loaded there and the clone that pushed it is in sync. -/
theorem never_roundTrip [Value.ScalarEq X]
    (hpush : push s.env (statePath s.env) info true
      { pusher with files := saveState X s pusher.files } remote = some (pushed, remote'))
    (hpull : pull s.env (statePath s.env) true puller remote' = some pulled) :
    ¬ RoundTrip X s pushed pulled ∧ (∃ t, loadState X s.env pulled.files = some t ∧ s.Same t) ∧
      ∃ r, status s.env (statePath s.env) pushed = some r ∧ r.inSync = true := by
  have hsaved := saved_read (X := X) s pusher.files
  refine ⟨fun h => ?_, load_pulled hsaved hpush hpull, inSync_pushed hsaved hpush hpull⟩
  obtain ⟨r, hr, hsync⟩ := h.afterPull
  obtain ⟨r', hr', hsync'⟩ := not_inSync_pulled hsaved hpush hpull
  rw [hr, Option.some.injEq] at hr'
  rw [← hr', hsync] at hsync'
  exact Bool.noConfusion hsync'

end
end

/-! ## A first state -/

namespace Sample

def prodState : EnvState := { env := "prod" }

def emptyClone : Clone valueAddressing := { files := Directory.empty, repo := Repo.empty }

def savedClone : Clone valueAddressing :=
  { emptyClone with files := saveState Empty prodState emptyClone.files }

end Sample
open Sample

theorem prodState_transfer : ∃ pushed remote pulled,
    push "prod" (statePath "prod") [] true savedClone Repo.empty = some (pushed, remote) ∧
      pull "prod" (statePath "prod") true emptyClone remote = some pulled := by
  have href : refName "prod" = some "refs/heads/state/prod" := by decide +kernel
  have hsaved : savedClone.files.read (statePath "prod") = some (stateText Empty prodState) :=
    saved_read prodState _
  obtain ⟨⟨pushed, remote⟩, hpush⟩ : ∃ r,
      push "prod" (statePath "prod") [] true savedClone Repo.empty = some r := by
    unfold push
    rw [hsaved, href]
    exact ⟨_, rfl⟩
  obtain ⟨pulled, hpull⟩ : ∃ c, pull "prod" (statePath "prod") true emptyClone remote = some c := by
    unfold pull
    rw [href]
    simp only [Option.bind_eq_bind, Option.bind_some]
    split <;> exact ⟨_, rfl⟩
  exact ⟨pushed, remote, pulled, hpush, hpull⟩

theorem prodState_not_roundTrip : ∃ pushed remote pulled,
    push "prod" (statePath "prod") [] true savedClone Repo.empty = some (pushed, remote) ∧
      pull "prod" (statePath "prod") true emptyClone remote = some pulled ∧
      ¬ RoundTrip Empty prodState pushed pulled := by
  obtain ⟨pushed, remote, pulled, hpush, hpull⟩ := prodState_transfer
  refine ⟨pushed, remote, pulled, hpush, hpull, fun h => ?_⟩
  obtain ⟨r, hr, hsync⟩ := h.afterPull
  obtain ⟨r', hr', hsync'⟩ := not_inSync_pulled (X := Empty) (s := prodState)
    (saved_read prodState _) hpush hpull
  rw [hr, Option.some.injEq] at hr'
  rw [← hr', hsync] at hsync'
  exact Bool.noConfusion hsync'

theorem never_roundTrip_prod : ∃ pushed remote pulled,
    push "prod" (statePath "prod") [] true savedClone Repo.empty = some (pushed, remote) ∧
      pull "prod" (statePath "prod") true emptyClone remote = some pulled ∧
      (¬ RoundTrip Empty prodState pushed pulled ∧
        (∃ t, loadState Empty "prod" pulled.files = some t ∧ prodState.Same t) ∧
        ∃ r, status "prod" (statePath "prod") pushed = some r ∧ r.inSync = true) := by
  obtain ⟨pushed, remote, pulled, hpush, hpull⟩ := prodState_transfer
  have hpush' : push prodState.env (statePath prodState.env) [] true
      { emptyClone with files := saveState Empty prodState emptyClone.files } Repo.empty =
        some (pushed, remote) := hpush
  exact ⟨pushed, remote, pulled, hpush, hpull, never_roundTrip hpush' hpull⟩

end ContentOps
