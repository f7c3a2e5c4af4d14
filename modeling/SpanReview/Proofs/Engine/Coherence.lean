import SpanReview.Proofs.Engine.Change

namespace SpanReview

/-! What is shown is what is loaded: outside of a run, the comparison at hand is of the
node at the position of the engine and the record loaded for it. -/

/-- The two spans of a comparison that the operator cannot edit. -/
def Comparison.compared (comparison : Comparison) : Span × Span :=
  (comparison.actual, comparison.expected)

theorem Comparison.isMatch_iff (comparison : Comparison) :
    comparison.isMatch ↔
      comparison.actual.filename = comparison.expected.filename ∧
      comparison.actual.start.line = comparison.expected.start.line ∧
      comparison.actual.start.column = comparison.expected.start.column ∧
      comparison.actual.finish.line = comparison.expected.finish.line ∧
      comparison.actual.finish.column = comparison.expected.finish.column := by
  obtain ⟨⟨filename, ⟨startLine, startColumn⟩, ⟨endLine, endColumn⟩⟩, expected, proposed⟩ :=
    comparison
  obtain ⟨filename', ⟨startLine', startColumn'⟩, ⟨endLine', endColumn'⟩⟩ := expected
  simp [isMatch, and_assoc]

namespace LoadedFile

theorem compareAt_eq_some_iff {file : LoadedFile} {position : Nat} {comparison : Comparison} :
    file.compareAt position = some comparison ↔
      ∃ node, file.nodes[position]? = some node ∧ comparison =
        ⟨node.span, file.expectedAt position,
          file.propose node.span (file.expectedAt position)⟩ := by
  simp only [compareAt, Option.map_eq_some_iff, @eq_comm _ comparison]

theorem mem_mismatches {file : LoadedFile} {position : Nat} :
    position ∈ file.mismatches ↔
      ∃ node, file.nodes[position]? = some node ∧ node.span ≠ file.expectedAt position := by
  simp [mismatches, List.mem_zipIdx_iff_getElem?]

/-- The record of the fixture, or the sentinel if there is no fixture or no record. -/
theorem expectedAt_eq (file : LoadedFile) (position : Nat) :
    file.expectedAt position =
      (file.fixture.bind (·.record? position)).getD Span.sentinel := by
  unfold expectedAt Fixture.expectedAt
  cases file.fixture <;> rfl

end LoadedFile

namespace Engine

variable {setup : Setup σ} {engine : Engine}

theorem comparison?_eq_some_iff {comparison : Comparison} :
    engine.comparison? = some comparison ↔
      engine.isExhausted = false ∧
        ∃ file, engine.loaded = some file ∧ file.compareAt engine.position = some comparison := by
  unfold comparison?
  cases engine.isExhausted <;> simp [Option.bind_eq_some_iff]

theorem comparison?_isSome_iff :
    engine.comparison?.isSome ↔
      engine.loaded.isSome ∧ engine.isExhausted = false ∧
        engine.position < engine.nodeCount := by
  unfold comparison? nodeCount
  cases engine.isExhausted <;> cases engine.loaded <;> simp [LoadedFile.compareAt]

theorem nodeCount_of_loaded {file : LoadedFile} (h : engine.loaded = some file) :
    engine.nodeCount = file.nodes.length := by
  rw [nodeCount, h]

structure Coherent (engine : Engine) : Prop where
  runMode_off : engine.runMode = false
  compared : engine.current.map Comparison.compared =
    engine.comparison?.map Comparison.compared
  position_le : engine.position ≤ engine.nodeCount - 1
  pause_lt : ∀ position, engine.runPause = some position → position < engine.nodeCount

theorem start_coherent (display : DisplayOptions) : (start display).Coherent where
  runMode_off := rfl
  compared := rfl
  position_le := Nat.le_refl 0
  pause_lt := by
    intro position hpause
    contradiction

theorem AtRest.coherent (hrest : engine.AtRest)
    (hposition : engine.position ≤ engine.nodeCount - 1)
    (hpause : ∀ position, engine.runPause = some position → position < engine.nodeCount) :
    engine.Coherent where
  runMode_off := hrest.runMode_off
  compared := congrArg (Option.map Comparison.compared) (congrArg Engine.current hrest).symm
  position_le := hposition
  pause_lt := hpause

theorem Change.keeps_coherent {first last : Engine} (hchange : Change setup first last)
    (h : first.Coherent) : last.Coherent := by
  cases hchange with
  | stage stage files => exact ⟨rfl, rfl, Nat.le_refl 0, by intro _ hpause; contradiction⟩
  | compare => exact (AtRest.of_rest first).coherent h.position_le h.pause_lt
  | land index hload =>
      refine (AtRest.of_rest _).coherent (Nat.zero_le _) ?_
      intro _ hpause
      contradiction
  | move position hlt =>
      exact (AtRest.of_rest _).coherent (Nat.le_sub_one_of_lt hlt) h.pause_lt
  | back =>
      exact (AtRest.of_rest _).coherent
        (Nat.le_trans (Nat.sub_le first.position 1) h.position_le) h.pause_lt
  | exhaust hlast => exact ⟨rfl, rfl, h.position_le, h.pause_lt⟩
  | resume =>
      refine ⟨h.runMode_off, h.compared, h.position_le, ?_⟩
      intro _ hpause
      contradiction
  | pause hlt =>
      refine ⟨h.runMode_off, h.compared, h.position_le, ?_⟩
      intro position hpause
      cases hpause
      exact hlt
  | propose endpoint amount hloaded hcurrent =>
      have hcompared := h.compared
      rw [hcurrent] at hcompared
      exact ⟨h.runMode_off, hcompared, h.position_le, h.pause_lt⟩
  | display display => exact ⟨h.runMode_off, h.compared, h.position_le, h.pause_lt⟩
  | record hloaded hcurrent =>
      have hcount := nodeCount_of_loaded hloaded
      have hposition := h.position_le
      have hpause := h.pause_lt
      rw [hcount] at hposition hpause
      exact (AtRest.of_rest _).coherent hposition hpause

theorem perform_coherent (operation : Operation) (world : World σ) (h : engine.Coherent) :
    (operation.perform setup engine world).Coherent := by
  by_cases hmiss : ∃ index, operation.Misses setup engine world index
  · obtain ⟨index, hmiss⟩ := hmiss
    rw [Operation.perform_of_misses hmiss]
    exact ⟨h.runMode_off, h.compared, h.position_le, h.pause_lt⟩
  · exact (Operation.perform_changes h.runMode_off (not_exists.mp hmiss)).keeps
      Change.keeps_coherent h

theorem after_coherent (setup : Setup σ) (display : DisplayOptions) (calls : List (Call σ)) :
    ((start display).after setup calls).Coherent :=
  after_keeps (fun _ call => perform_coherent call.operation call.world) calls
    (start_coherent display)

theorem Reachable.coherent (h : engine.Reachable setup) : engine.Coherent := by
  obtain ⟨display, calls, rfl⟩ := h
  exact after_coherent setup display calls

namespace Coherent

theorem isSome_iff (h : engine.Coherent) :
    engine.current.isSome ↔
      engine.loaded.isSome ∧ engine.isExhausted = false ∧
        engine.position < engine.nodeCount := by
  have hsome := congrArg Option.isSome h.compared
  rw [Option.isSome_map, Option.isSome_map] at hsome
  rw [hsome]
  exact comparison?_isSome_iff

theorem node_of_current (h : engine.Coherent) {comparison : Comparison}
    (hcurrent : engine.current = some comparison) :
    ∃ file node, engine.loaded = some file ∧ file.nodes[engine.position]? = some node ∧
      comparison.actual = node.span ∧ comparison.expected = file.expectedAt engine.position := by
  have hcompared := h.compared
  rw [hcurrent, Option.map_some] at hcompared
  obtain ⟨fresh, hfresh, hsame⟩ := Option.map_eq_some_iff.mp hcompared.symm
  obtain ⟨_, file, hloaded, hcompare⟩ := comparison?_eq_some_iff.mp hfresh
  obtain ⟨node, hnode, rfl⟩ := LoadedFile.compareAt_eq_some_iff.mp hcompare
  have hspans : node.span = comparison.actual ∧
      file.expectedAt engine.position = comparison.expected := by
    simpa [Comparison.compared] using hsame
  exact ⟨file, node, hloaded, hnode, hspans.1.symm, hspans.2.symm⟩

theorem mem_mismatches_iff (h : engine.Coherent) {comparison : Comparison}
    (hcurrent : engine.current = some comparison) :
    engine.position ∈ engine.mismatches ↔ comparison.isMatch = false := by
  obtain ⟨file, node, hloaded, hnode, hactual, hexpected⟩ := h.node_of_current hcurrent
  simp [Engine.mismatches, hloaded, LoadedFile.mem_mismatches, hnode, Comparison.isMatch,
    hactual, hexpected]

theorem position_of_nodes (h : engine.Coherent) :
    if engine.nodeCount = 0 then engine.position = 0
    else engine.position < engine.nodeCount := by
  have hposition := h.position_le
  split <;> omega

theorem loaded_of_pause (h : engine.Coherent) {position : Nat}
    (hpause : engine.runPause = some position) :
    engine.loaded.isSome ∧ position < engine.nodeCount := by
  have hlt := h.pause_lt position hpause
  refine ⟨?_, hlt⟩
  cases hloaded : engine.loaded with
  | none => simp [nodeCount, hloaded] at hlt
  | some file => rfl

end Coherent

/-- Whatever is done, and whatever has become of the disk in between: no run is left under
way, there is a comparison exactly where there is a node to stand at, it is of that node
and of what is recorded for it, and position and pause stay within the loaded file. -/
theorem after_shows_loaded (setup : Setup σ) (display : DisplayOptions)
    (calls : List (Call σ)) :
    let engine := (start display).after setup calls
    engine.runMode = false ∧
    (engine.current.isSome ↔
      engine.loaded.isSome ∧ engine.isExhausted = false ∧
        engine.position < engine.nodeCount) ∧
    (∀ comparison, engine.current = some comparison →
      (∃ file node, engine.loaded = some file ∧
        file.nodes[engine.position]? = some node ∧
        comparison.actual = node.span ∧
        comparison.expected =
          (file.fixture.bind (·.record? engine.position)).getD Span.sentinel) ∧
      (comparison.isMatch ↔
        comparison.actual.filename = comparison.expected.filename ∧
        comparison.actual.start.line = comparison.expected.start.line ∧
        comparison.actual.start.column = comparison.expected.start.column ∧
        comparison.actual.finish.line = comparison.expected.finish.line ∧
        comparison.actual.finish.column = comparison.expected.finish.column) ∧
      (engine.position ∈ engine.mismatches ↔ comparison.isMatch = false)) ∧
    (if engine.nodeCount = 0 then engine.position = 0
      else engine.position < engine.nodeCount) ∧
    (∀ pause, engine.runPause = some pause →
      engine.loaded.isSome ∧ pause < engine.nodeCount) := by
  intro engine
  have h : engine.Coherent := after_coherent setup display calls
  refine ⟨h.runMode_off, h.isSome_iff, ?_, h.position_of_nodes, fun _ => h.loaded_of_pause⟩
  intro comparison hcurrent
  obtain ⟨file, node, hloaded, hnode, hactual, hexpected⟩ := h.node_of_current hcurrent
  rw [file.expectedAt_eq] at hexpected
  exact ⟨⟨file, node, hloaded, hnode, hactual, hexpected⟩, comparison.isMatch_iff,
    h.mem_mismatches_iff hcurrent⟩

end Engine

end SpanReview
