import ContentOps.Library.JsonRoundTrip

/-! Documents written compactly are single lines of text, and what is read is well formed. -/

namespace Json
open PyData

/-- No character of the text ends a line. -/
class FloatLine (X : Type) [FloatText X] : Prop where
  isLine : ∀ x : X, Text.IsLine (FloatText.write x)

instance : FloatLine Empty := ⟨fun x => x.elim⟩

theorem isLine_nil : Text.IsLine [] := by simp [Text.IsLine]

theorem isLine_append {s t : Text} (hs : Text.IsLine s) (ht : Text.IsLine t) :
    Text.IsLine (s ++ t) := fun c hc => (List.mem_append.mp hc).elim (hs c) (ht c)

theorem isLine_cons {c : Char} {t : Text} (hc : Text.isLineBreak c = false)
    (ht : Text.IsLine t) : Text.IsLine (c :: t) :=
  List.forall_mem_cons.mpr ⟨hc, ht⟩

theorem isLineBreak_of_graphic {c : Char} (h : 0x20 ≤ c.toNat ∧ c.toNat < 0x7f) :
    Text.isLineBreak c = false := by
  by_contra hb
  rw [Bool.not_eq_false, Text.isLineBreak, decide_eq_true_eq] at hb
  simp only [List.mem_cons, List.not_mem_nil, or_false] at hb
  rcases hb with rfl | rfl | rfl | rfl | rfl | rfl | rfl | rfl | rfl | rfl <;>
    revert h <;> decide

theorem isLine_hexDigits (n : Nat) : Text.IsLine (hexDigits n) := by
  have hone : ∀ d, d < 16 → Text.isLineBreak d.digitChar = false := by
    intro d hd
    interval_cases d <;> decide
  intro c hc
  simp only [hexDigits, List.mem_cons, List.not_mem_nil, or_false] at hc
  rcases hc with rfl | rfl | rfl | rfl <;> exact hone _ (Nat.mod_lt _ (by decide))

theorem isLine_escapeU (n : Nat) : Text.IsLine (escapeU n) :=
  isLine_cons (by decide) (isLine_cons (by decide) (isLine_hexDigits n))

theorem isLine_escapeChar (c : Char) : Text.IsLine (escapeChar true c) := by
  have hpair : ∀ d, Text.isLineBreak d = false → Text.IsLine ['\\', d] := fun d hd =>
    isLine_cons (by decide) (isLine_cons hd (by simp [Text.IsLine]))
  unfold escapeChar
  split_ifs with h1 h2 h3 h4 h5 h6 h7 h8 h9 h10
  · exact hpair _ (by decide)
  · exact hpair _ (by decide)
  · exact hpair _ (by decide)
  · exact hpair _ (by decide)
  · exact hpair _ (by decide)
  · exact hpair _ (by decide)
  · exact hpair _ (by decide)
  · exact isLine_escapeU _
  · have hc : c.toNat < 0x7f := by simpa using h9
    exact isLine_cons (isLineBreak_of_graphic ⟨Nat.le_of_not_lt h8, hc⟩) (by simp [Text.IsLine])
  · exact isLine_escapeU _
  · exact isLine_append (isLine_escapeU _) (isLine_escapeU _)

theorem isLine_writeString (s : String) : Text.IsLine (writeString true s) := by
  refine isLine_append (isLine_cons (by decide) fun c hc => ?_) (by decide)
  obtain ⟨a, -, ha⟩ := List.mem_flatMap.mp hc
  exact isLine_escapeChar a c ha

theorem isLine_writeInt (n : Int) : Text.IsLine (writeInt n) := by
  have hdigits : ∀ n, Text.IsLine (digitsOf n) := by
    intro n c hc
    have hd := digitsOf_isDigit hc
    simp only [Char.isDigit, Bool.and_eq_true, decide_eq_true_eq] at hd
    have hle : 48 ≤ c.toNat := hd.1
    have hge : c.toNat ≤ 57 := hd.2
    exact isLineBreak_of_graphic ⟨by omega, by omega⟩
  cases n with
  | ofNat n => exact hdigits n
  | negSucc n => exact isLine_cons (by decide) (hdigits (n + 1))

/-- A property of the padding of a style and of every character that ends no line. -/
structure Style.Keeps (st : Style) (P : Char → Prop) : Prop where
  asciiOnly : st.asciiOnly = true
  char : ∀ c, Text.isLineBreak c = false → P c
  pad : ∀ depth, ∀ c ∈ st.pad depth, P c
  gap : ∀ c ∈ st.gap, P c

section
variable {X : Type} [FloatText X] {st : Style} {P : Char → Prop}

theorem Style.Keeps.line (h : st.Keeps P) {t : Text} (ht : Text.IsLine t) : ∀ c ∈ t, P c :=
  fun c hc => h.char c (ht c hc)

theorem Style.Keeps.string (h : st.Keeps P) (s : String) :
    ∀ c ∈ writeString st.asciiOnly s, P c := by
  rw [h.asciiOnly]
  exact h.line (isLine_writeString s)

mutual

/-- A line break of a document comes from its style: every one inside a string is escaped. -/
theorem Style.Keeps.write [FloatLine X] (h : st.Keeps P) (depth : Nat) (v : Value X) :
    ∀ c ∈ Json.write st depth v, P c := by
  match v with
  | .null => exact h.line (by decide : Text.IsLine "null".toList)
  | .bool true => exact h.line (by decide : Text.IsLine "true".toList)
  | .bool false => exact h.line (by decide : Text.IsLine "false".toList)
  | .int n => exact h.line (isLine_writeInt n)
  | .scalar x => exact h.line (FloatLine.isLine x)
  | .str s => exact h.string s
  | .list [] => exact h.line (by decide : Text.IsLine "[]".toList)
  | .dict [] => exact h.line (by decide : Text.IsLine "{}".toList)
  | .list (v :: vs) =>
    rw [Json.write]
    have hitems := h.writeItems (depth + 1) (v :: vs)
    have hclose := h.line (by decide : Text.IsLine [']'])
    exact List.forall_mem_append.mpr ⟨List.forall_mem_append.mpr
      ⟨List.forall_mem_cons.mpr ⟨h.char _ (by decide), hitems⟩, h.pad depth⟩, hclose⟩
  | .dict (p :: d) =>
    rw [Json.write]
    have hentries := h.writeEntries (depth + 1) (p :: d)
    have hclose := h.line (by decide : Text.IsLine ['}'])
    exact List.forall_mem_append.mpr ⟨List.forall_mem_append.mpr
      ⟨List.forall_mem_cons.mpr ⟨h.char _ (by decide), hentries⟩, h.pad depth⟩, hclose⟩

theorem Style.Keeps.writeItems [FloatLine X] (h : st.Keeps P) (depth : Nat) (vs : List (Value X)) :
    ∀ c ∈ Json.writeItems st depth vs, P c := by
  match vs with
  | [] => exact h.line isLine_nil
  | v :: vs =>
    rw [Json.writeItems]
    refine List.forall_mem_append.mpr
      ⟨List.forall_mem_append.mpr ⟨h.pad depth, h.write depth v⟩, ?_⟩
    split_ifs
    · exact h.line isLine_nil
    · exact List.forall_mem_cons.mpr ⟨h.char _ (by decide), h.writeItems depth vs⟩

theorem Style.Keeps.writeEntries [FloatLine X] (h : st.Keeps P) (depth : Nat) (d : List (String × Value X)) :
    ∀ c ∈ Json.writeEntries st depth d, P c := by
  match d with
  | [] => exact h.line isLine_nil
  | (k, v) :: d =>
    rw [Json.writeEntries]
    have hkey := List.forall_mem_append.mpr ⟨h.pad depth, h.string k⟩
    have hgap := List.forall_mem_cons.mpr ⟨h.char ':' (by decide), h.gap⟩
    refine List.forall_mem_append.mpr ⟨List.forall_mem_append.mpr
      ⟨List.forall_mem_append.mpr ⟨hkey, hgap⟩, h.write depth v⟩, ?_⟩
    split_ifs
    · exact h.line isLine_nil
    · exact List.forall_mem_cons.mpr ⟨h.char _ (by decide), h.writeEntries depth d⟩

end

/-- A compact document is one line. -/
theorem isLine_dumps [FloatLine X] (v : Value X) : Text.IsLine (dumps compact v) :=
  Style.Keeps.write (P := fun c => Text.isLineBreak c = false)
    ⟨rfl, fun _ h => h, by simp [compact], by simp [compact]⟩ 0 v

end

section
variable {X : Type} [FloatText X]

theorem dumps_dict_braces (st : Style) (d : Dict String (Value X)) :
    ∃ mid, dumps st (.dict d) = '{' :: mid ++ ['}'] := by
  cases d with
  | nil => exact ⟨[], rfl⟩
  | cons p d => exact ⟨writeEntries st 1 (p :: d) ++ st.pad 0, by simp [dumps, write]⟩

theorem isBlank_dumps_dict (st : Style) (d : Dict String (Value X)) :
    Text.isBlank (dumps st (.dict d)) = false := by
  cases d <;> rfl

/-! ## What is read -/

omit [FloatText X] in
theorem wf_ofPairs {d : List (String × Value X)} (h : Value.WFDict d) :
    (Value.dict (Dict.ofPairs d)).WF := by
  rw [Value.wf_dict_iff]
  exact ⟨Dict.nodup_keys_ofPairs d, fun p hp => Value.wfDict_iff.mp h p (Dict.mem_ofPairs hp)⟩

theorem readNumber_wf {cs : Text} {v : Value X} {r : Text} (h : readNumber cs = some (v, r)) :
    v.WF := by
  unfold readNumber at h
  split at h
  · exact absurd h (by simp)
  · simp only [Option.map_eq_some_iff, Prod.mk.injEq] at h
    obtain ⟨x, -, rfl, -⟩ := h
    trivial
  · simp only [Option.some.injEq, Prod.mk.injEq] at h
    exact h.1 ▸ trivial

/-- Reading one value, given what the readers of its parts return. -/
theorem readValue_wf_step {fuel : Nat}
    (hitems : ∀ cs (vs : List (Value X)) r, readItems fuel cs = some (vs, r) → Value.WFList vs)
    (hentries : ∀ cs (d : List (String × Value X)) r, readEntries fuel cs = some (d, r) →
      Value.WFDict d) {cs : Text} {v : Value X} {r : Text}
    (h : readValue (fuel + 1) cs = some (v, r)) : v.WF := by
  cases cs with
  | nil => simp [readValue] at h
  | cons c cs =>
    rw [readValue] at h
    split_ifs at h
    · simp only [Option.map_eq_some_iff, Prod.mk.injEq] at h
      obtain ⟨_, -, rfl, -⟩ := h
      trivial
    · split at h
      · simp only [Option.some.injEq, Prod.mk.injEq] at h
        exact h.1 ▸ trivial
      · simp only [Option.map_eq_some_iff, Prod.mk.injEq] at h
        obtain ⟨p, hp, rfl, -⟩ := h
        exact hitems _ p.1 p.2 hp
    · split at h
      · simp only [Option.some.injEq, Prod.mk.injEq] at h
        exact h.1 ▸ ⟨List.nodup_nil, trivial⟩
      · simp only [Option.map_eq_some_iff, Prod.mk.injEq] at h
        obtain ⟨p, hp, rfl, -⟩ := h
        exact wf_ofPairs (hentries _ p.1 p.2 hp)
    · simp only [Option.map_eq_some_iff, Prod.mk.injEq] at h
      obtain ⟨_, -, rfl, -⟩ := h
      trivial
    · simp only [Option.map_eq_some_iff, Prod.mk.injEq] at h
      obtain ⟨_, -, rfl, -⟩ := h
      trivial
    · simp only [Option.map_eq_some_iff, Prod.mk.injEq] at h
      obtain ⟨_, -, rfl, -⟩ := h
      trivial
    · exact readNumber_wf h

theorem read_wf (fuel : Nat) :
    (∀ cs (v : Value X) r, readValue fuel cs = some (v, r) → v.WF) ∧
    (∀ cs (vs : List (Value X)) r, readItems fuel cs = some (vs, r) → Value.WFList vs) ∧
    (∀ cs (d : List (String × Value X)) r, readEntries fuel cs = some (d, r) →
      Value.WFDict d) := by
  induction fuel with
  | zero => simp [readValue, readItems, readEntries]
  | succ fuel ih =>
    obtain ⟨ihv, ihs, ihd⟩ := ih
    refine ⟨fun cs v r h => readValue_wf_step ihs ihd h, fun cs vs r h => ?_, fun cs d r h => ?_⟩
    · simp only [readItems, Option.bind_eq_bind, Option.bind_eq_some_iff] at h
      obtain ⟨⟨v, r₁⟩, hv, h⟩ := h
      have hwf := ihv _ v r₁ hv
      dsimp only at h
      split at h
      · obtain ⟨⟨ws, r₂⟩, hws, h⟩ := Option.bind_eq_some_iff.mp h
        simp only [Option.some.injEq, Prod.mk.injEq] at h
        exact h.1 ▸ ⟨hwf, ihs _ ws r₂ hws⟩
      · simp only [Option.some.injEq, Prod.mk.injEq] at h
        exact h.1 ▸ ⟨hwf, trivial⟩
      · exact absurd h (by simp)
    · simp only [readEntries, Option.bind_eq_bind, Option.bind_eq_some_iff] at h
      obtain ⟨r₁, -, ⟨k, r₂⟩, -, r₃, -, ⟨v, r₄⟩, hv, h⟩ := h
      have hwf := ihv _ v r₄ hv
      dsimp only at h
      split at h
      · obtain ⟨⟨e, r₅⟩, he, h⟩ := Option.bind_eq_some_iff.mp h
        simp only [Option.some.injEq, Prod.mk.injEq] at h
        exact h.1 ▸ ⟨hwf, ihd _ e r₅ he⟩
      · simp only [Option.some.injEq, Prod.mk.injEq] at h
        exact h.1 ▸ ⟨hwf, trivial⟩
      · exact absurd h (by simp)

theorem loads_wf {cs : Text} {v : Value X} (h : loads cs = some v) : v.WF := by
  simp only [loads, Option.bind_eq_bind, Option.bind_eq_some_iff] at h
  obtain ⟨⟨w, r⟩, hw, h⟩ := h
  dsimp only at h
  split_ifs at h
  rw [Option.some.injEq] at h
  exact h ▸ (read_wf _).1 _ w r hw

end
end Json
