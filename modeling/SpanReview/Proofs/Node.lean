import SpanReview.Source.Command
import SpanReview.Source.Memory

namespace SpanReview

/-! Whatever a source writes as locations, the nodes that are read from it lie at lines and
columns of at least one. -/

theorem Span.isResolved_iff {span : Span} :
    span.isResolved ↔
      1 ≤ span.start.line ∧ 1 ≤ span.start.column ∧
        1 ≤ span.finish.line ∧ 1 ≤ span.finish.column := by
  simp [isResolved, and_assoc]

theorem Span.sentinel_unresolved : sentinel.isResolved = false := rfl

namespace LocationDefaults

variable {defaults : LocationDefaults} {stage : Stage} {value : Json} {file : String}
  {nodes : List Node}

/-- What a location falls back on is itself the place of some character. -/
structure Positive (defaults : LocationDefaults) : Prop where
  line : 1 ≤ defaults.line
  column : 1 ≤ defaults.column

theorem first_positive : first.Positive := ⟨Int.le_refl 1, Int.le_refl 1⟩

theorem number?_positive {loc : Option Json} {endpoint field : String} {n : Int}
    (h : number? loc endpoint field = some n) : 1 ≤ n := by
  obtain ⟨_, _, hint⟩ := Option.bind_eq_some_iff.mp h
  obtain ⟨m, _, hpositive⟩ := Option.bind_eq_some_iff.mp hint
  split at hpositive
  · rename_i hle
    cases hpositive
    exact hle
  · cases hpositive

theorem number?_getD_positive (loc : Option Json) (endpoint field : String) {default : Int}
    (hdefault : 1 ≤ default) : 1 ≤ (number? loc endpoint field).getD default := by
  cases hnumber : number? loc endpoint field with
  | none => exact hdefault
  | some n => exact number?_positive hnumber

theorem Positive.spanOf_resolved (h : defaults.Positive) (value : Json) (file : String) :
    (defaults.spanOf value file).isResolved :=
  Span.isResolved_iff.mpr
    ⟨number?_getD_positive _ _ _ h.line, number?_getD_positive _ _ _ h.column,
      number?_getD_positive _ _ _ h.line, number?_getD_positive _ _ _ h.column⟩

/-- Every node of a document is `nodeOf` of some value in it. -/
theorem eq_nodeOf_of_mem (h : defaults.nodesOf stage value file = .ok nodes) {node : Node}
    (hnode : node ∈ nodes) : ∃ part, node = defaults.nodeOf file part := by
  cases stage with
  | lexer =>
      simp only [nodesOf, nodesOfTokens] at h
      split at h
      · cases h
        obtain ⟨part, _, rfl⟩ := List.mem_map.mp hnode
        exact ⟨part, rfl⟩
      · cases h
  | parser =>
      simp only [nodesOf, nodesOfTree] at h
      split at h
      · cases h
      · cases h
        obtain ⟨visit, _, rfl⟩ := List.mem_map.mp hnode
        exact ⟨visit.2, rfl⟩

theorem Positive.nodesOf_resolved (h : defaults.Positive)
    (hnodes : defaults.nodesOf stage value file = .ok nodes) :
    ∀ node ∈ nodes, node.span.isResolved := by
  intro node hnode
  obtain ⟨part, rfl⟩ := eq_nodeOf_of_mem hnodes hnode
  exact h.spanOf_resolved part file

end LocationDefaults

/-- The nodes of the source are those of JSON documents. -/
def TokenSource.ReadsJson (source : TokenSource σ) : Prop :=
  ∀ stage text file world nodes, (source.nodes stage text file world).1 = .ok nodes →
    ∃ (defaults : LocationDefaults) (form : Stage) (value : Json) (name : String),
      defaults.Positive ∧ defaults.nodesOf form value name = .ok nodes

theorem ok_of_mapError {result : Except ε α} {f : ε → ε'} {value : α}
    (h : result.mapError f = .ok value) : result = .ok value := by
  cases result with
  | error e => cases h
  | ok found =>
      cases h
      rfl

theorem TokenSource.ofEntries_readsJson (entries : List CaseEntry) (unlisted : List String) :
    (TokenSource.ofEntries entries unlisted : TokenSource σ).ReadsJson := by
  intro stage text file world nodes hnodes
  simp only [ofEntries] at hnodes
  split at hnodes
  · exact ⟨.first, stage, _, file, LocationDefaults.first_positive,
      ok_of_mapError hnodes⟩
  · cases hnodes

theorem CommandSource.readsJson (source : CommandSource) (programs : Programs σ) :
    (source.toTokenSource programs).ReadsJson := by
  intro stage text file world nodes hnodes
  simp only [toTokenSource, nodesWith] at hnodes
  split at hnodes
  · cases hnodes
  · split at hnodes
    · cases hnodes
    · split at hnodes
      · cases hnodes
      · rename_i value _
        exact ⟨.first, stage, value, file, LocationDefaults.first_positive,
          ok_of_mapError hnodes⟩

end SpanReview
