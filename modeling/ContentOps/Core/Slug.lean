import ContentOps.Library.Text
import ContentOps.Core.Envelope
import Mathlib.Data.List.Basic

/-! Envelope ids made from display names, as in `utils/slug.py`. -/

namespace ContentOps.Slug
open PyData

-- `str.lower` up to characters that a slug replaces anyway: outside ASCII, only the Kelvin sign
-- and the dotted capital I have a letter of a slug in their lower case.
def lowerChar (c : Char) : Text :=
  if c = '\u212a' then ['k'] else if c = '\u0130' then ['i', '\u0307'] else [c.toLower]

def lower (t : Text) : Text := t.flatMap lowerChar

/-- `[^a-z0-9]+` replaced by one hyphen each. -/
def hyphenate : Text → Text
  | [] => []
  | c :: cs =>
    if isIdChar c then c :: hyphenate cs
    else match hyphenate cs with
      | '-' :: rest => '-' :: rest
      | rest => '-' :: rest

def stripHyphens (t : Text) : Text := (t.dropWhile (· = '-')).rdropWhile (· = '-')

def maxLen : Nat := 80

def clip (t : Text) : Text :=
  if maxLen < t.length then (t.take maxLen).rdropWhile (· = '-') else t

def slugOf (s : String) : Option String :=
  let slug := String.ofList (clip (stripHyphens (hyphenate (lower (Text.strip s.toList)))))
  if isEnvelopeId slug then some slug else none

def displaynameSlug (name : String) (fallbackId : Option String) : String :=
  ((slugOf name).orElse fun _ => fallbackId.bind slugOf).getD ""

/-- The first eight letters and digits of the ARM name. -/
def armNameSuffix (armName : String) : Text := ((lower armName.toList).filter isIdChar).take 8

def disambiguate (slug armName : String) : String :=
  let suffix := armNameSuffix armName
  if suffix = [] then slug
  else
    let base := (slug.toList.take (maxLen - suffix.length - 1)).rdropWhile (· = '-')
    String.ofList (if base = [] then suffix else base ++ '-' :: suffix)

theorem mem_armNameSuffix (armName : String) {c : Char} (h : c ∈ armNameSuffix armName) :
    isIdChar c = true := (List.mem_filter.mp (List.mem_of_mem_take h)).2

/-- What is left of an id in front of the suffix still begins as the id does. -/
theorem head?_base {slug : String} (armName : String) (h : isEnvelopeId slug = true) :
    ∃ c rest, (slug.toList.take (maxLen - (armNameSuffix armName).length - 1)).rdropWhile (· = '-') =
      c :: rest ∧ isIdChar c = true := by
  unfold isEnvelopeId at h
  simp only [Bool.and_eq_true, decide_eq_true_eq] at h
  obtain ⟨⟨⟨hlength, hhead⟩, -⟩, -⟩ := h
  cases hslug : slug.toList with
  | nil =>
    rw [hslug] at hlength
    exact absurd hlength (by decide)
  | cons c rest =>
    have hc : isIdChar c = true := by simpa [hslug] using hhead
    have hshort : (armNameSuffix armName).length ≤ 8 := List.length_take_le _ _
    obtain ⟨n, hn⟩ : ∃ n, maxLen - (armNameSuffix armName).length - 1 = n + 1 :=
      ⟨maxLen - (armNameSuffix armName).length - 2, by unfold maxLen; omega⟩
    rw [hn, List.take_succ_cons]
    have hstart := List.rdropWhile_prefix (fun x : Char => decide (x = '-')) (c :: rest.take n)
    cases hbase : (c :: rest.take n).rdropWhile (fun x => decide (x = '-')) with
    | nil =>
      have hall := List.rdropWhile_eq_nil_iff.mp hbase c List.mem_cons_self
      rw [of_decide_eq_true hall] at hc
      exact absurd hc (by decide)
    | cons c' rest' =>
      rw [hbase, List.cons_prefix_cons] at hstart
      exact ⟨c', rest', rfl, hstart.1 ▸ hc⟩

/-- An id with the suffix of an ARM name is an id. -/
theorem isEnvelopeId_disambiguate {slug : String} (h : isEnvelopeId slug = true) (armName : String) :
    isEnvelopeId (disambiguate slug armName) = true := by
  obtain ⟨c, rest, hbase, hc⟩ := head?_base armName h
  have hrest : ∀ x ∈ c :: rest, isIdChar x = true ∨ x = '-' := by
    intro x hx
    rw [← hbase] at hx
    have hmem := List.mem_of_mem_take ((List.rdropWhile_prefix _ _).subset hx)
    unfold isEnvelopeId at h
    simp only [Bool.and_eq_true, List.all_eq_true, Bool.or_eq_true, decide_eq_true_eq] at h
    exact h.2 x hmem
  unfold disambiguate
  dsimp only
  split_ifs with hsuffix hnil
  · exact h
  · rw [hbase] at hnil
    exact absurd hnil (by simp)
  · rw [hbase]
    obtain ⟨start, last, hlast⟩ := (List.eq_nil_or_concat' (armNameSuffix armName)).resolve_left hsuffix
    have hmem : ∀ x ∈ start ++ [last], isIdChar x = true :=
      fun x hx => mem_armNameSuffix armName (hlast ▸ hx)
    unfold isEnvelopeId
    rw [hlast, String.toList_ofList]
    simp only [Bool.and_eq_true, decide_eq_true_eq, List.all_eq_true, Bool.or_eq_true]
    refine ⟨⟨⟨?_, ?_⟩, ?_⟩, ?_⟩
    · simp only [List.length_append, List.length_cons, List.length_nil]
      omega
    · simpa using hc
    · have hgetLast : (c :: rest ++ '-' :: (start ++ [last])).getLast? = some last := by
        rw [← List.cons_append, ← List.append_assoc, List.getLast?_concat]
      rw [hgetLast]
      exact hmem last (by simp)
    · intro x hx
      rcases List.mem_append.mp hx with hx | hx
      · exact hrest x hx
      · rcases List.mem_cons.mp hx with rfl | hx
        · exact .inr rfl
        · exact .inl (hmem x hx)

end ContentOps.Slug
