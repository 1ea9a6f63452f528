import ContentOps.Library.Text
import Mathlib.Data.List.Lex
import Mathlib.Tactic.IntervalCases

/-! Numbers written with a fixed count of digits: their text orders them as numbers. -/

namespace PyData.FixedWidth

/-- The last `k` digits of `n` in base `b`. -/
def pad (b : Nat) : Nat → Nat → Text
  | 0, _ => []
  | k + 1, n => pad b k (n / b) ++ [(n % b).digitChar]

@[simp] theorem length_pad (b k n : Nat) : (pad b k n).length = k := by
  induction k generalizing n with
  | zero => rfl
  | succ k ih => simp [pad, ih]

theorem digitChar_lt {i j : Nat} (hij : i < j) (hj : j < 16) : i.digitChar < j.digitChar := by
  have h : ∀ j < 16, ∀ i < j, i.digitChar < j.digitChar := by decide
  exact h j hj i hij

theorem digitChar_isDigit {n : Nat} (h : n < 10) : n.digitChar.isDigit = true := by
  interval_cases n <;> rfl

/-! ## Order -/

theorem lt_append {s t : Text} (h : s < t) (hl : s.length = t.length) (u v : Text) :
    s ++ u < t ++ v := by
  induction s generalizing t with
  | nil =>
    cases t with
    | nil => exact absurd h (lt_irrefl _)
    | cons c t => simp at hl
  | cons a s ih =>
    cases t with
    | nil => simp at hl
    | cons c t =>
      rw [List.cons_append, List.cons_append, List.cons_lt_cons_iff]
      rcases List.cons_lt_cons_iff.mp h with h | ⟨h, hlt⟩
      · exact .inl h
      · exact .inr ⟨h, ih hlt (by simpa using hl)⟩

theorem append_lt (s : Text) {u v : Text} (h : u < v) : s ++ u < s ++ v :=
  List.append_left_lt h

theorem pad_lt {b k n m : Nat} (hb : 1 < b) (hb' : b ≤ 16) (h : n < m) (hm : m < b ^ k) :
    pad b k n < pad b k m := by
  induction k generalizing n m with
  | zero =>
    rw [Nat.pow_zero] at hm
    omega
  | succ k ih =>
    have hpos : 0 < b := by omega
    have hdiv : m / b < b ^ k := Nat.div_lt_of_lt_mul (by rwa [Nat.pow_succ, Nat.mul_comm] at hm)
    rcases Nat.lt_or_ge (n / b) (m / b) with hlt | hge
    · exact lt_append (ih hlt hdiv) (by simp) _ _
    · have heq : n / b = m / b := Nat.le_antisymm (Nat.div_le_div_right h.le) hge
      have hmod : n % b < m % b := by
        have hn := Nat.div_add_mod n b
        have hm := Nat.div_add_mod m b
        rw [heq] at hn
        omega
      rw [pad, pad, heq]
      refine append_lt _ (List.cons_lt_cons_iff.mpr (.inl ?_))
      exact digitChar_lt hmod ((Nat.mod_lt _ hpos).trans_le hb')

theorem pad_injective {b k n m : Nat} (hb : 1 < b) (hb' : b ≤ 16) (hn : n < b ^ k)
    (hm : m < b ^ k) (h : pad b k n = pad b k m) : n = m := by
  rcases Nat.lt_trichotomy n m with hlt | heq | hlt
  · exact absurd h (pad_lt hb hb' hlt hm).ne
  · exact heq
  · exact absurd h (pad_lt hb hb' hlt hn).ne'

/-! ## Reading -/

theorem isDigit_pad {k n : Nat} {c : Char} (h : c ∈ pad 10 k n) : c.isDigit = true := by
  induction k generalizing n with
  | zero => simp [pad] at h
  | succ k ih =>
    rcases List.mem_append.mp h with h | h
    · exact ih h
    · rw [List.mem_singleton.mp h]
      exact digitChar_isDigit (Nat.mod_lt _ (by decide))

theorem ofDigitChars_pad {k n : Nat} (h : n < 10 ^ k) : Nat.ofDigitChars 10 (pad 10 k n) 0 = n := by
  induction k generalizing n with
  | zero => simp only [pad, Nat.ofDigitChars_nil]; omega
  | succ k ih =>
    rw [pad, Nat.ofDigitChars_append, ih (by omega),
      Nat.ofDigitChars_cons_digitChar_of_lt_ten (Nat.mod_lt _ (by decide)), Nat.ofDigitChars_nil]
    omega

/-- `\d{lo,hi}`: as many digits as there are, up to `hi`. -/
def scanDigits (lo hi : Nat) (cs : Text) : Option (Text × Text) :=
  let ds := (cs.take hi).takeWhile Char.isDigit
  if lo ≤ ds.length then some (ds, cs.drop ds.length) else none

theorem scanDigits_pad {lo hi : Nat} (h : lo ≤ hi) (n : Nat) (rest : Text) :
    scanDigits lo hi (pad 10 hi n ++ rest) = some (pad 10 hi n, rest) := by
  have htake : (pad 10 hi n ++ rest).take hi = pad 10 hi n := by
    rw [List.take_append_of_le_length (by simp), List.take_of_length_le (by simp)]
  have hall : (pad 10 hi n).takeWhile Char.isDigit = pad 10 hi n :=
    List.takeWhile_eq_self_iff.mpr fun c hc => isDigit_pad hc
  simp [scanDigits, htake, hall, h]

end PyData.FixedWidth
