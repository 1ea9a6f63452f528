import ContentOps.Core.Drift
import ContentOps.Library.JsonLine

/-! Files of one JSON object a line, as the stores of `alerts` write and load them. -/

namespace ContentOps.Alerts
open PyData

section
variable {X β : Type} [Json.FloatText X]

def jsonLinesText (asDict : β → Dict String (Value X)) (es : List β) : Text :=
  Text.unlines (es.map fun e => Json.dumps Json.compact (.dict (asDict e)))

/-- The records of the lines; a line that makes none is skipped. -/
def loadJsonLines (ofDict : Dict String (Value X) → Option β) (content : Text) : List β :=
  ((((unifyNewlines content).splitOn '\n').map Text.strip).filter (· ≠ [])).filterMap fun line =>
    ((Json.loads line).bind Value.dict?).bind ofDict

variable [Json.FloatLine X] {asDict : β → Dict String (Value X)}
  {ofDict : Dict String (Value X) → Option β}

/-- What is written is loaded. -/
theorem loadJsonLines_text (hwf : ∀ e, (Value.dict (asDict e)).WF)
    (hread : ∀ e, ofDict (asDict e) = some e) (es : List β) :
    loadJsonLines ofDict (jsonLinesText asDict es) = es := by
  unfold loadJsonLines jsonLinesText
  generalize hline : (fun e => Json.dumps Json.compact (.dict (asDict e))) = line
  have hisLine : ∀ l ∈ es.map line, Text.IsLine l := by
    intro l hl
    obtain ⟨e, -, rfl⟩ := List.mem_map.mp hl
    rw [← hline]
    exact Json.isLine_dumps _
  have hbreak : ∀ l ∈ es.map line, '\n' ∉ l ∧ '\r' ∉ l := by
    intro l hl
    exact ⟨fun hc => absurd (hisLine l hl _ hc) (by decide),
      fun hc => absurd (hisLine l hl _ hc) (by decide)⟩
  have hunify : unifyNewlines (Text.unlines (es.map line)) = Text.unlines (es.map line) := by
    refine unifyNewlines_eq_self fun c hc => ?_
    obtain ⟨l, hl, hcl⟩ := List.mem_flatMap.mp hc
    rintro rfl
    rcases List.mem_append.mp hcl with hmem | hmem
    · exact (hbreak l hl).2 hmem
    · exact absurd hmem (by decide)
  -- A line stands between braces, so it is not empty and has no blank at its ends.
  have hbraces : ∀ e, Text.strip (line e) = line e ∧ line e ≠ [] := by
    intro e
    obtain ⟨mid, hmid⟩ := Json.dumps_dict_braces Json.compact (asDict e)
    rw [← hline]
    dsimp only
    rw [hmid]
    exact ⟨Text.strip_eq_self (by decide) (by decide) mid, by simp⟩
  have hstrip : (es.map line).map Text.strip = es.map line := by
    rw [List.map_map]
    exact List.map_congr_left fun e _ => (hbraces e).1
  have hfull : (es.map line).filter (· ≠ []) = es.map line := by
    refine List.filter_eq_self.mpr fun l hl => ?_
    obtain ⟨e, -, rfl⟩ := List.mem_map.mp hl
    exact decide_eq_true (hbraces e).2
  have hload : ((fun l => ((Json.loads l).bind Value.dict?).bind ofDict) ∘ line) = some := by
    funext e
    rw [Function.comp_apply, ← hline]
    dsimp only
    rw [Json.loads_dumps Json.compact_blank (hwf e)]
    exact hread e
  rw [hunify, Text.splitOn_unlines fun l hl => (hbreak l hl).1, List.map_append, hstrip,
    List.filter_append, hfull, List.filterMap_append, List.filterMap_map, hload,
    List.filterMap_some]
  exact List.append_nil es

end
end ContentOps.Alerts
