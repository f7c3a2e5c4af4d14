import SpanReview.Proofs.Engine.Frame
import SpanReview.Proofs.Engine.Unmoved
import SpanReview.Proofs.Suggest

namespace SpanReview

/-! Apart from the steps between nodes and the run, what fails has changed nothing of the
engine: a file is loaded and a fixture saved before anything is assigned. A selection by name
that finds no file changes nothing either. -/

namespace Operation

variable {setup : Setup σ} {engine : Engine} {world : World σ}

/-- The operation fails, or asks for a file that is not listed. A selection moves the index
before it loads the file, so of its failures only that of a missing stage is here. -/
inductive Fruitless (setup : Setup σ) (engine : Engine) (world : World σ) : Operation → Prop
  | selectStage {name : String} {e : EngineError}
      (h : (engine.selectStage setup name world).result = .error e) :
      Fruitless setup engine world (.selectStage name)
  | enterStage {stage : Stage} {e : EngineError}
      (h : (engine.enterStage setup stage world).result = .error e) :
      Fruitless setup engine world (.enterStage stage)
  | unstaged {name : String} (h : (engine.selectFile setup name world).result = .error .noStage) :
      Fruitless setup engine world (.selectFile name)
  | notFound {name query : String} {suggestions : List String}
      (h : (engine.selectFile setup name world).result = .ok (.notFound query suggestions)) :
      Fruitless setup engine world (.selectFile name)
  | loadCurrent {e : EngineError} (h : (engine.loadCurrent setup world).result = .error e) :
      Fruitless setup engine world .loadCurrent
  | nextFile {e : EngineError} (h : (engine.nextFile setup world).result = .error e) :
      Fruitless setup engine world .nextFile
  | previousFile {e : EngineError} (h : (engine.previousFile setup world).result = .error e) :
      Fruitless setup engine world .previousFile
  | moveEndpoint {endpoint : Endpoint} {amount : Int} {e : EngineError}
      (h : (engine.moveEndpoint endpoint amount world).result = .error e) :
      Fruitless setup engine world (.moveEndpoint endpoint amount)
  | toggle {name : String} {e : EngineError}
      (h : (engine.toggle name world).result = .error e) :
      Fruitless setup engine world (.toggle name)
  | save {e : EngineError} (h : (engine.save setup world).result = .error e) :
      Fruitless setup engine world .save

end Operation

namespace Engine

variable {setup : Setup σ} {engine : Engine} {world : World σ} {name : String} {e : EngineError}

/-! Stages. -/

theorem enterStage_fails {stage : Stage}
    (h : (engine.enterStage setup stage world).result = .error e) :
    (engine.enterStage setup stage world).engine = engine := by
  unfold enterStage at h ⊢
  split at h
  · rfl
  · cases h

theorem selectStage_fails (h : (engine.selectStage setup name world).result = .error e) :
    (engine.selectStage setup name world).engine = engine := by
  unfold selectStage at h ⊢
  split at h
  · exact enterStage_fails h
  · rfl

/-! Case files. -/

theorem enterFile_fails {index : Nat}
    (h : (engine.enterFile setup index world).result = .error e) :
    (engine.enterFile setup index world).engine = engine := by
  unfold enterFile at h ⊢
  split at h
  · rfl
  · cases h

theorem recompute_ne_error (hrun : engine.runMode = false) :
    (engine.recompute setup world).result ≠ .error e := by
  rw [recompute_of_off hrun]
  simp

/-- Nothing fails after a file is loaded. -/
theorem enterFile_then_fails {index : Nat} {next : Unit → Engine → World σ → Outcome σ α}
    (hrun : engine.runMode = false)
    (hnext : ∀ last later, last.runMode = false → (next () last later).result ≠ .error e)
    (h : ((engine.enterFile setup index world).andThen next).result = .error e) :
    ((engine.enterFile setup index world).andThen next).engine = engine := by
  have hoff := enterFile_runMode setup index engine world hrun
  obtain ⟨hfails, hkept⟩ := Outcome.andThen_of_error (fun _ _ => hnext _ _ hoff) h
  exact hkept.trans (enterFile_fails hfails)

theorem loadCurrent_fails (hrun : engine.runMode = false)
    (h : (engine.loadCurrent setup world).result = .error e) :
    (engine.loadCurrent setup world).engine = engine :=
  enterFile_then_fails hrun (fun _ _ => recompute_ne_error) h

theorem nextFile_fails (hrun : engine.runMode = false)
    (h : (engine.nextFile setup world).result = .error e) :
    (engine.nextFile setup world).engine = engine := by
  unfold nextFile at h ⊢
  split
  · rfl
  · rename_i hstage
    rw [if_neg hstage] at h
    split
    · rfl
    · rename_i hexhausted
      rw [if_neg hexhausted] at h
      split at h
      · rename_i hlisted
        rw [if_pos hlisted]
        exact enterFile_then_fails hrun (fun _ _ => settle_ne_error) h
      · cases h

theorem previousFile_fails (hrun : engine.runMode = false)
    (h : (engine.previousFile setup world).result = .error e) :
    (engine.previousFile setup world).engine = engine := by
  unfold previousFile at h ⊢
  split
  · rfl
  · rename_i hstage
    rw [if_neg hstage] at h
    split
    · rename_i hexhausted
      rw [if_pos hexhausted] at h
      exact enterFile_then_fails hrun (fun _ _ => settle_ne_error) h
    · rename_i hexhausted
      rw [if_neg hexhausted] at h
      split
      · rfl
      · rename_i hfirst
        rw [if_neg hfirst] at h
        exact enterFile_then_fails hrun (fun _ _ => settle_ne_error) h

/-! Selections. -/

theorem selectFile_unstaged (h : (engine.selectFile setup name world).result = .error .noStage) :
    (engine.selectFile setup name world).engine = engine := by
  -- With a stage the load that follows a found name fails in other ways.
  have hframes : Frames (fun _ => True) engine (engine.selectFile setup name world) :=
    selectFile_frames setup.staysWithin_trivial.loads name engine trivial
  cases hframes.hinders .noStage h with
  | fatal hfatal => cases hfatal
  | noStage hstage => rw [selectFile, if_pos (Option.isNone_iff_eq_none.mpr hstage)]

theorem selectFile_notFound {query : String} {suggestions : List String}
    (h : (engine.selectFile setup name world).result = .ok (.notFound query suggestions)) :
    (engine.selectFile setup name world).engine = engine ∧ query = Text.trim name ∧
      suggestions = setup.ranking.suggest query engine.files 5 := by
  unfold selectFile at h ⊢
  split at h
  · cases h
  · rename_i hstage
    rw [if_neg hstage]
    dsimp only at h ⊢
    split at h
    · cases h
      exact ⟨rfl, rfl, rfl⟩
    · obtain ⟨_, _, hselected⟩ := Outcome.andThen_of_ok h
      rw [hselected] at h
      cases h

/-! Edits. -/

theorem moveEndpoint_fails {endpoint : Endpoint} {amount : Int}
    (h : (engine.moveEndpoint endpoint amount world).result = .error e) :
    (engine.moveEndpoint endpoint amount world).engine = engine := by
  unfold moveEndpoint at h ⊢
  split at h
  · rfl
  · rfl
  · cases h

theorem toggle_fails (h : (engine.toggle name world).result = .error e) :
    (engine.toggle name world).engine = engine := by
  unfold toggle at h ⊢
  split at h
  · cases h
  · rfl

theorem save_fails (hrun : engine.runMode = false)
    (h : (engine.save setup world).result = .error e) :
    (engine.save setup world).engine = engine := by
  unfold save at h ⊢
  split at h
  · rfl
  · rfl
  · dsimp only at h ⊢
    split at h
    · rfl
    · exact absurd h (recompute_ne_error hrun)

theorem perform_of_fruitless {operation : Operation} (hrun : engine.runMode = false)
    (h : operation.Fruitless setup engine world) :
    operation.perform setup engine world = engine := by
  cases h with
  | selectStage h => exact selectStage_fails h
  | enterStage h => exact enterStage_fails h
  | unstaged h => exact selectFile_unstaged h
  | notFound h => exact (selectFile_notFound h).1
  | loadCurrent h => exact loadCurrent_fails hrun h
  | nextFile h => exact nextFile_fails hrun h
  | previousFile h => exact previousFile_fails hrun h
  | moveEndpoint h => exact moveEndpoint_fails h
  | toggle h => exact toggle_fails h
  | save h => exact save_fails hrun h

/-- An operation that fails or finds no file leaves the whole engine as it was. What is then
offered are at most five of the listed files. -/
theorem fruitless_keeps (hreach : engine.Reachable setup) :
    (∀ operation : Operation, operation.Fruitless setup engine world →
      operation.perform setup engine world = engine) ∧
    ∀ name query suggestions,
      (engine.selectFile setup name world).result = .ok (.notFound query suggestions) →
      suggestions.length ≤ 5 ∧ suggestions ⊆ engine.files := by
  refine ⟨fun operation => perform_of_fruitless hreach.coherent.runMode_off, ?_⟩
  intro name query suggestions h
  obtain ⟨_, _, rfl⟩ := selectFile_notFound h
  exact ⟨Suggest.length_suggestWith_le _ _ _ _, (Suggest.suggestWith_subperm _ _ _ _).subset⟩

/-- A file stands where the fixtures should go, so the widened span cannot be saved. -/
theorem blocked_save_keeps_edit :
    let engine := showing widened none
    let blocked : World Unit := ⟨{ entries := [(["save"], .file .empty)] }, ()⟩
    let outcome := engine.save emptyThenShown blocked
    engine.Reachable emptyThenShown ∧
      outcome.result = .error (.fixture (.inaccessible
        "save/pugjs-pug/master/lexer/b.expected.txt")) ∧
      outcome.engine = engine ∧
      ∃ suggestions, (engine.selectFile emptyThenShown "pug" blocked).result =
          .ok (.notFound "pug" suggestions) ∧
        suggestions.length ≤ 5 ∧ suggestions ⊆ ["a.pug", "b.pug"] := by
  intro engine blocked outcome
  have hreach : engine.Reachable emptyThenShown := widened_reachable showing_reachable
  have hblocked : outcome.result = .error (.fixture (.inaccessible
      "save/pugjs-pug/master/lexer/b.expected.txt")) := by
    decide +kernel
  obtain ⟨hkeeps, hoffers⟩ := @fruitless_keeps _ _ _ blocked hreach
  refine ⟨hreach, hblocked, hkeeps .save (.save hblocked), ?_⟩
  have hnone : (engine.selectFile emptyThenShown "pug" blocked).result =
      .ok (.notFound "pug" (emptyThenShown.ranking.suggest "pug" engine.files 5)) := rfl
  exact ⟨_, hnone, hoffers _ _ _ hnone⟩

end Engine

end SpanReview
