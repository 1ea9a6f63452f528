import ContentOps.Library.Text
import ContentOps.Library.Value
import Mathlib.Logic.Function.Basic

/-! A content-addressed store with references: blobs, trees of named objects and commits, each kept
under an id that its content determines. -/

namespace ObjectStore
open PyData

inductive Object (Oid : Type) where
  | blob (content : Text)
  | tree (entries : List (String × Oid))
  | commit (tree : Oid) (parents : List Oid) (info : Text)

/-- How objects are addressed: different objects have different ids. -/
structure Addressing (Oid : Type) where
  hash : Object Oid → Oid
  injective : Function.Injective hash

/-- Objects under their ids, and references to some of them. -/
structure Repo {Oid : Type} (A : Addressing Oid) where
  objects : Oid → Option (Object Oid)
  refs : String → Option Oid
  addressed : ∀ id o, objects id = some o → A.hash o = id

namespace Repo
variable {Oid : Type} {A : Addressing Oid}

def empty : Repo A where
  objects _ := none
  refs _ := none
  addressed _ _ h := by simp at h

/-- The object a reference to a commit has at a name: `ref:name`. -/
def entryAt? (r : Repo A) (ref name : String) : Option Oid := do
  match r.objects (← r.refs ref) with
  | some (.commit tree _ _) =>
    match r.objects tree with
    | some (.tree entries) => Dict.get? entries name
    | _ => none
  | _ => none

def blob? (r : Repo A) (id : Oid) : Option Text :=
  match r.objects id with
  | some (.blob content) => some content
  | _ => none

def setRef (r : Repo A) (ref : String) (id : Oid) : Repo A :=
  { r with refs := Function.update r.refs ref (some id) }

/-- The objects of another repository beside one's own. -/
def absorb (r s : Repo A) : Repo A where
  objects id := (r.objects id).or (s.objects id)
  refs := r.refs
  addressed id o h := by
    cases hr : r.objects id with
    | none => exact s.addressed id o (by simpa [hr] using h)
    | some o' => exact r.addressed id o (by simpa [hr] using h)

section
variable [DecidableEq Oid]

/-- Stores an object that may already be there. -/
def put (r : Repo A) (o : Object Oid) : Repo A where
  objects := Function.update r.objects (A.hash o) (some o)
  refs := r.refs
  addressed id o' h := by
    rcases eq_or_ne id (A.hash o) with rfl | hne
    · rw [Function.update_self, Option.some.injEq] at h
      rw [h]
    · rw [Function.update_of_ne hne] at h
      exact r.addressed id o' h

@[simp] theorem objects_put (r : Repo A) (o : Object Oid) :
    (r.put o).objects (A.hash o) = some o := Function.update_self _ _ _

theorem objects_put_of_some {r : Repo A} {id : Oid} {o : Object Oid} (h : r.objects id = some o)
    (o' : Object Oid) : (r.put o').objects id = some o := by
  rcases eq_or_ne id (A.hash o') with rfl | hne
  · rw [objects_put, A.injective (r.addressed _ _ h)]
  · exact (Function.update_of_ne hne _ _).trans h

end

@[simp] theorem refs_setRef (r : Repo A) (ref : String) (id : Oid) :
    (r.setRef ref id).refs ref = some id := Function.update_self _ _ _

@[simp] theorem objects_setRef (r : Repo A) (ref : String) (id : Oid) :
    (r.setRef ref id).objects = r.objects := rfl

/-- An object of the absorbed repository is there, under its id. -/
theorem objects_absorb {r s : Repo A} {id : Oid} {o : Object Oid} (h : s.objects id = some o) :
    (r.absorb s).objects id = some o := by
  unfold absorb
  cases hr : r.objects id with
  | none => simpa [hr] using h
  | some o' =>
    have hsame : o' = o := A.injective ((r.addressed id o' hr).trans (s.addressed id o h).symm)
    simp [hr, hsame]

/-- The reference is to a commit of one file with this content. -/
structure HoldsFile (r : Repo A) (ref name : String) (content : Text) (commit : Oid) : Prop where
  ref : r.refs ref = some commit
  commit : ∃ tree parents info, r.objects commit = some (.commit tree parents info) ∧
    r.objects tree = some (.tree [(name, A.hash (.blob content))])
  blob : r.objects (A.hash (.blob content)) = some (.blob content)

theorem HoldsFile.entry {r : Repo A} {ref name : String} {content : Text} {commit : Oid}
    (h : r.HoldsFile ref name content commit) :
    r.entryAt? ref name = some (A.hash (.blob content)) := by
  obtain ⟨tree, parents, info, hcommit, htree⟩ := h.commit
  simp [entryAt?, h.ref, hcommit, htree]

theorem HoldsFile.read {r : Repo A} {ref name : String} {content : Text} {commit : Oid}
    (h : r.HoldsFile ref name content commit) :
    (r.entryAt? ref name).bind r.blob? = some content := by
  simp [h.entry, blob?, h.blob]

/-- A repository that takes over the objects and the reference holds the file too. -/
theorem HoldsFile.transfer {r s : Repo A} {ref name : String} {content : Text} {commit : Oid}
    (h : s.HoldsFile ref name content commit) :
    ((r.absorb s).setRef ref commit).HoldsFile ref name content commit where
  ref := refs_setRef _ _ _
  commit := by
    obtain ⟨tree, parents, info, hcommit, htree⟩ := h.commit
    exact ⟨tree, parents, info, objects_absorb hcommit, objects_absorb htree⟩
  blob := objects_absorb h.blob

/-- One file, committed without a parent. -/
theorem holdsFile_put [DecidableEq Oid] (r : Repo A) (ref name : String) (content info : Text) :
    ((((r.put (.blob content)).put (.tree [(name, A.hash (.blob content))])).put
      (.commit (A.hash (.tree [(name, A.hash (.blob content))])) [] info)).setRef ref
        (A.hash (.commit (A.hash (.tree [(name, A.hash (.blob content))])) [] info))).HoldsFile
          ref name content
          (A.hash (.commit (A.hash (.tree [(name, A.hash (.blob content))])) [] info)) where
  ref := refs_setRef _ _ _
  commit := ⟨_, [], info, objects_put _ _, objects_put_of_some (objects_put _ _) _⟩
  blob := objects_put_of_some (objects_put_of_some (objects_put _ _) _) _

end Repo
/-! ## Objects that are their own address -/

def Object.value : Object (Value Empty) → Value Empty
  | .blob content => .list [.str "blob", .str (String.ofList content)]
  | .tree entries => .list (.str "tree" :: entries.map fun e => .dict [e])
  | .commit root parents info =>
    .list (.str "commit" :: .str (String.ofList info) :: root :: parents)

/-- An object named by a value that holds all of it. -/
def valueAddressing : Addressing (Value Empty) where
  hash := Object.value
  injective o o' h := by
    have hentry : Function.Injective fun e : String × Value Empty => (Value.dict [e] : Value Empty) :=
      fun e f he => by simpa using he
    cases o <;> cases o' <;>
      simp [Object.value, hentry.list_map.eq_iff, String.ofList_inj] at h ⊢
    all_goals simp [h]

end ObjectStore
