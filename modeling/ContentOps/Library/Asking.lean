import Mathlib.Algebra.Order.Group.Multiset
import Mathlib.Data.Multiset.Bind

/-! Computations that may fail and that note down what they ask of the outside. -/

namespace PyData

variable {ρ α β : Type}

/-- A computation that fails with `none`, over the questions that were asked so far. -/
abbrev Asking (ρ : Type) := StateT (List ρ) Option

/-- To ask a question that may stay without an answer. -/
def Asking.ask (question : ρ) (answer : Option α) : Asking ρ α := fun asked =>
  answer.map fun a => (a, asked ++ [question])

namespace Asking

/-- What returns is `a`, after the questions `m`; when `answered` holds, it does return. -/
structure Asks (answered : Prop) (x : Asking ρ α) (a : α) (m : Multiset ρ) : Prop where
  returned : ∀ {asked out asked'}, x asked = some (out, asked') →
    out = a ∧ (asked' : Multiset ρ) = asked + m
  returns : answered → ∀ asked, (x asked).isSome

variable {answered : Prop}

theorem asks_pure (a : α) : Asks answered (pure a : Asking ρ α) a 0 where
  returned := by
    intro asked out asked' h
    obtain ⟨rfl, rfl⟩ := Prod.mk.inj (Option.some.inj h)
    exact ⟨rfl, (add_zero _).symm⟩
  returns := fun _ _ => rfl

theorem asks_lift {x : Option α} {a : α} (hx : x = some a) :
    Asks answered (StateT.lift x : Asking ρ α) a 0 := by
  subst hx
  exact asks_pure a

theorem Asks.mono {answered' : Prop} {x : Asking ρ α} {a : α} {m : Multiset ρ}
    (hx : Asks answered x a m) (h : answered' → answered) : Asks answered' x a m where
  returned := hx.returned
  returns := fun ha => hx.returns (h ha)

theorem asks_ask {question : ρ} {answer : Option α} {a : α} (ha : ∀ b, answer = some b → b = a)
    (hanswer : answered → answer.isSome) : Asks answered (ask question answer) a {question} where
  returned := by
    intro asked out asked' h
    obtain ⟨b, hb, hout⟩ := Option.map_eq_some_iff.mp h
    obtain ⟨rfl, rfl⟩ := Prod.mk.inj hout
    exact ⟨ha b hb, (Multiset.coe_add _ _).symm⟩
  returns := by
    intro h asked
    rw [ask, Option.isSome_map]
    exact hanswer h

theorem asks_bind {x : Asking ρ α} {f : α → Asking ρ β} {a : α} {b : β} {m n : Multiset ρ}
    (hx : Asks answered x a m) (hf : Asks answered (f a) b n) :
    Asks answered (x >>= f) b (m + n) where
  returned := by
    intro asked out asked' h
    obtain ⟨⟨a', mid⟩, hmid, hlast⟩ := Option.bind_eq_some_iff.mp h
    obtain ⟨rfl, hm⟩ := hx.returned hmid
    obtain ⟨rfl, hn⟩ := hf.returned hlast
    exact ⟨rfl, by rw [hn, hm, add_assoc]⟩
  returns := by
    intro h asked
    obtain ⟨⟨a', mid⟩, hmid⟩ := Option.isSome_iff_exists.mp (hx.returns h asked)
    obtain ⟨rfl, -⟩ := hx.returned hmid
    change (Option.bind (x asked) fun p => f p.1 p.2).isSome
    rw [hmid]
    exact hf.returns h mid

theorem asks_map {x : Asking ρ α} {a : α} {m : Multiset ρ} (hx : Asks answered x a m) (f : α → β) :
    Asks answered (x >>= fun b => pure (f b)) (f a) m := by
  have h := asks_bind (f := fun b => pure (f b)) hx (asks_pure (f a))
  rwa [add_zero] at h

theorem asks_map₂ {γ : Type} {x : Asking ρ α} {y : Asking ρ β} {a : α} {b : β} {m n : Multiset ρ}
    (hx : Asks answered x a m) (hy : Asks answered y b n) (f : α → β → γ) :
    Asks answered (x >>= fun a => y >>= fun b => pure (f a b)) (f a b) (m + n) :=
  asks_bind hx (asks_map hy (f a))

theorem asks_mapM {f : α → Asking ρ β} {g : α → β} {q : α → Multiset ρ}
    {as : List α} (hf : ∀ a ∈ as, Asks answered (f a) (g a) (q a)) :
    Asks answered (as.mapM f) (as.map g) (as.map q).sum := by
  induction as with
  | nil => exact asks_pure []
  | cons a as ih =>
    obtain ⟨ha, has⟩ := List.forall_mem_cons.mp hf
    rw [List.mapM_cons]
    exact asks_map₂ ha (ih has) List.cons

/-- What a loop got through got past each of its rounds. -/
theorem returned_of_mapM {f : α → Asking ρ β} {as : List α} {asked asked' : List ρ} {out : List β}
    (h : as.mapM f asked = some (out, asked')) {a : α} (ha : a ∈ as) :
    ∃ asked, (f a asked).isSome := by
  induction as generalizing asked asked' out with
  | nil => exact absurd ha List.not_mem_nil
  | cons b as ih =>
    rw [List.mapM_cons] at h
    obtain ⟨⟨c, mid⟩, hc, h⟩ := Option.bind_eq_some_iff.mp h
    obtain ⟨⟨cs, last⟩, hcs, -⟩ := Option.bind_eq_some_iff.mp h
    rcases List.mem_cons.mp ha with rfl | ha
    · exact ⟨asked, Option.isSome_of_eq_some hc⟩
    · exact ih hcs ha

end Asking
end PyData
