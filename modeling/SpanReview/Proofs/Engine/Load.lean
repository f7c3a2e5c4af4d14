import SpanReview.Engine.Load

namespace SpanReview.Setup

/-! What loading reads, and what a file that loaded was made of. -/

variable {setup : Setup σ} {engine : Engine} {index : Nat} {stage : Stage} {name : String}
  {world : World σ} {file : LoadedFile}

theorem loadIndex_of_name (hstage : engine.stage = some stage)
    (hname : engine.files[index]? = some name) :
    setup.loadIndex engine index world = setup.loadFile stage name world := by
  simp only [loadIndex, hstage, hname]

theorem loadIndex_ok (hload : (setup.loadIndex engine index world).1 = .ok file) :
    ∃ stage name, engine.stage = some stage ∧ engine.files[index]? = some name ∧
      (setup.loadFile stage name world).1 = .ok file := by
  unfold loadIndex at hload
  split at hload
  · cases hload
  · rename_i stage hstage
    split at hload
    · cases hload
    · rename_i name hname
      exact ⟨stage, name, hstage, hname, hload⟩

theorem loadFile_ok (hload : (setup.loadFile stage name world).1 = .ok file) :
    ∃ text read parsed, setup.source.readCase stage name world = (.ok text, read) ∧
      setup.source.nodes stage text name read = (.ok file.nodes, parsed) ∧
      setup.store.load file.key parsed.disk = .ok file.fixture ∧
      file.key = setup.keyFor stage name ∧ file.lines = LineTable.ofText text := by
  unfold loadFile at hload
  split at hload
  · cases hload
  · rename_i text read hread
    split at hload
    · cases hload
    · rename_i nodes parsed hnodes
      split at hload
      · cases hload
      · rename_i fixture hfixture
        cases hload
        exact ⟨text, read, parsed, hread, hnodes, hfixture, rfl, rfl⟩

theorem loadFile_name (hload : (setup.loadFile stage name world).1 = .ok file) :
    file.name = name := by
  obtain ⟨_, _, _, _, _, _, hkey, _⟩ := loadFile_ok hload
  exact congrArg FixtureKey.file hkey

end SpanReview.Setup
