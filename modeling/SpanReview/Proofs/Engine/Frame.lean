import SpanReview.Proofs.Engine.Change
import SpanReview.Source.Memory

namespace SpanReview

/-! What loading, stepping and comparing leave as it was: the stage, the list of case files,
the display options, and whatever about the world a load leaves. -/

theorem ok_of_isOk {ε α : Type} {result : Except ε α} (h : result.isOk = true) :
    ∃ value, result = .ok value := by
  cases result with
  | error e => cases h
  | ok value => exact ⟨value, rfl⟩

theorem Outcome.eq_of_result {outcome : Outcome σ α} {result : Except EngineError α}
    (h : outcome.result = result) : outcome = ⟨result, outcome.engine, outcome.world⟩ := by
  rw [← h]

/-- The operator cannot mend it by another command. -/
def EngineError.isFatal : EngineError → Bool
  | .source _ => true
  | .fixture _ => true
  | _ => false

/-- How a call that selects nothing can fail. -/
inductive Engine.Hinders (engine : Engine) : EngineError → Prop
  | fatal {e : EngineError} (h : e.isFatal) : Hinders engine e
  | noStage (h : engine.stage = none) : Hinders engine .noStage
  | noFile : Hinders engine .noFile
  | noNode : Hinders engine .noNode

theorem Setup.loadFile_fatal {setup : Setup σ} {stage : Stage} {name : String} {world : World σ}
    {e : EngineError} (h : (setup.loadFile stage name world).1 = .error e) : e.isFatal := by
  unfold loadFile at h
  split at h
  · cases h
    rfl
  · split at h
    · cases h
      rfl
    · split at h <;> cases h
      rfl

theorem Setup.loadIndex_hinders {setup : Setup σ} {engine : Engine} {index : Nat}
    {world : World σ} {e : EngineError} (h : (setup.loadIndex engine index world).1 = .error e) :
    engine.Hinders e := by
  unfold loadIndex at h
  split at h
  · rename_i hstage
    cases h
    exact .noStage hstage
  · split at h
    · cases h
      exact .noFile
    · exact .fatal (loadFile_fatal h)

/-- Loading a case file keeps to worlds of one kind. -/
def Setup.LoadsWithin (setup : Setup σ) (holds : World σ → Prop) : Prop :=
  ∀ engine index world, holds world → holds (setup.loadIndex engine index world).2

theorem Setup.loadsWithin_of_source {setup : Setup σ} {holds : World σ → Prop}
    (hread : ∀ stage name world, holds world → holds (setup.source.readCase stage name world).2)
    (hnodes : ∀ stage text name world,
      holds world → holds (setup.source.nodes stage text name world).2) :
    setup.LoadsWithin holds := by
  intro engine index world hworld
  unfold loadIndex
  split
  · exact hworld
  rename_i stage _
  split
  · exact hworld
  rename_i name _
  have hthere := hread stage name world hworld
  unfold loadFile
  generalize setup.source.readCase stage name world = answer at hthere ⊢
  obtain ⟨_ | text, there⟩ := answer
  · exact hthere
  have hlater := hnodes stage text name there hthere
  dsimp only
  generalize setup.source.nodes stage text name there = made at hlater ⊢
  obtain ⟨_ | nodes, later⟩ := made
  · exact hlater
  · dsimp only
    split <;> exact hlater

/-- No call of the source or of the store leads out of worlds of one kind. -/
structure Setup.StaysWithin (setup : Setup σ) (holds : World σ → Prop) : Prop where
  lists : ∀ stage world, holds world → holds (setup.source.caseFiles stage world).2
  loads : setup.LoadsWithin holds
  saves : ∀ key records world, holds world →
    holds { world with disk := (setup.store.save key records world.disk).2 }

theorem Setup.staysWithin_trivial (setup : Setup σ) : setup.StaysWithin fun _ => True :=
  ⟨fun _ _ _ => trivial, fun _ _ _ _ => trivial, fun _ _ _ _ => trivial⟩

namespace Engine

variable {setup : Setup σ} {holds : World σ → Prop} {engine first : Engine} {world : World σ}

structure Frames (holds : World σ → Prop) (engine : Engine) (outcome : Outcome σ α) : Prop where
  stage : outcome.engine.stage = engine.stage
  files : outcome.engine.files = engine.files
  display : outcome.engine.display = engine.display
  world : holds outcome.world
  hinders : ∀ e, outcome.result = .error e → engine.Hinders e

theorem Hinders.of_stage {e : EngineError} (h : first.Hinders e)
    (hstage : first.stage = engine.stage) : engine.Hinders e := by
  cases h with
  | fatal h => exact .fatal h
  | noStage h => exact .noStage (hstage ▸ h)
  | noFile => exact .noFile
  | noNode => exact .noNode

namespace Frames

variable {outcome : Outcome σ α}

theorem of_ok {value : α} {last : Engine} (hstage : last.stage = engine.stage)
    (hfiles : last.files = engine.files) (hdisplay : last.display = engine.display)
    (hworld : holds world) : Frames holds engine ⟨.ok value, last, world⟩ where
  stage := hstage
  files := hfiles
  display := hdisplay
  world := hworld
  hinders := by
    intro e herror
    cases herror

theorem of_error {e : EngineError} {last : Engine} (hstage : last.stage = engine.stage)
    (hfiles : last.files = engine.files) (hdisplay : last.display = engine.display)
    (hworld : holds world) (he : engine.Hinders e) :
    Frames holds engine (⟨.error e, last, world⟩ : Outcome σ α) where
  stage := hstage
  files := hfiles
  display := hdisplay
  world := hworld
  hinders := by
    intro e herror
    cases herror
    exact he

theorem of_same (h : Frames holds first outcome) (hstage : first.stage = engine.stage)
    (hfiles : first.files = engine.files) (hdisplay : first.display = engine.display) :
    Frames holds engine outcome where
  stage := h.stage.trans hstage
  files := h.files.trans hfiles
  display := h.display.trans hdisplay
  world := h.world
  hinders := fun e herror => (h.hinders e herror).of_stage hstage

theorem andThen {next : α → Engine → World σ → Outcome σ β} (h : Frames holds engine outcome)
    (hnext : ∀ value last later, holds later →
      Frames holds last (next value last later)) :
    Frames holds engine (outcome.andThen next) := by
  obtain ⟨result, last, later⟩ := outcome
  cases result with
  | error e =>
      exact .of_error h.stage h.files h.display h.world (h.hinders e rfl)
  | ok value => exact (hnext value last later h.world).of_same h.stage h.files h.display

end Frames

variable (hkeeps : setup.LoadsWithin holds)

include hkeeps

theorem enterFile_frames (index : Nat) (engine : Engine) (hworld : holds world) :
    Frames holds engine (engine.enterFile setup index world) := by
  have hlater := hkeeps engine index world hworld
  unfold enterFile
  split
  · rename_i hload
    rw [hload] at hlater
    exact .of_error rfl rfl rfl hlater (Setup.loadIndex_hinders (congrArg Prod.fst hload))
  · rename_i hload
    rw [hload] at hlater
    exact .of_ok rfl rfl rfl hlater

theorem enterNextFile_frames (engine : Engine) (hworld : holds world) :
    Frames holds engine (engine.enterNextFile setup world) := by
  fun_induction enterNextFile setup engine world with
  | case1 engine world hlt error world' hload =>
      have hlater := hkeeps engine (engine.fileIndex + 1) world hworld
      rw [hload] at hlater
      exact .of_error rfl rfl rfl hlater (Setup.loadIndex_hinders (congrArg Prod.fst hload))
  | case2 engine world hlt file world' hload hempty ih =>
      have hlater := hkeeps engine (engine.fileIndex + 1) world hworld
      rw [hload] at hlater
      exact (ih hlater).of_same rfl rfl rfl
  | case3 engine world hlt file world' hload hfull =>
      have hlater := hkeeps engine (engine.fileIndex + 1) world hworld
      rw [hload] at hlater
      exact .of_ok rfl rfl rfl hlater
  | case4 engine world hlast => exact .of_ok rfl rfl rfl hworld

theorem advance_frames (engine : Engine) (hworld : holds world) :
    Frames holds engine (engine.advance setup world) := by
  unfold advance
  split
  · exact .of_ok rfl rfl rfl hworld
  · exact enterNextFile_frames hkeeps engine hworld

theorem runAdvance_frames (engine : Engine) (hworld : holds world) :
    Frames holds engine (engine.runAdvance setup world) := by
  have hframes := advance_frames hkeeps engine hworld
  cases hresult : (engine.advance setup world).result with
  | ok moved =>
      rw [runAdvance_of_ok hresult]
      exact hframes
  | error e =>
      rw [runAdvance_of_error hresult]
      exact .of_error hframes.stage hframes.files hframes.display hframes.world
        (hframes.hinders e hresult)

theorem recompute_frames (engine : Engine) (hworld : holds world) :
    Frames holds engine (engine.recompute setup world) := by
  fun_induction recompute setup engine world with
  | case1 engine world hnone => exact .of_ok rfl rfl rfl hworld
  | case2 engine world comparison hsome hskip outcome e herror =>
      have hframes : Frames holds { engine with runPause := none } outcome :=
        runAdvance_frames hkeeps { engine with runPause := none } hworld
      exact .of_error hframes.stage hframes.files hframes.display hframes.world
        ((hframes.hinders e herror).of_stage rfl)
  | case3 engine world comparison hsome hskip outcome hmoved _ ih =>
      have hframes : Frames holds { engine with runPause := none } outcome :=
        runAdvance_frames hkeeps { engine with runPause := none } hworld
      exact (ih hframes.world).of_same hframes.stage hframes.files hframes.display
  | case4 engine world comparison hsome hskip outcome hnone =>
      have hframes : Frames holds { engine with runPause := none } outcome :=
        runAdvance_frames hkeeps { engine with runPause := none } hworld
      exact .of_ok hframes.stage hframes.files hframes.display hframes.world
  | case5 engine world comparison hsome hskip hrun => exact .of_ok rfl rfl rfl hworld
  | case6 engine world comparison hsome hskip hrun => exact .of_ok rfl rfl rfl hworld

theorem settle_frames (engine : Engine) (hworld : holds world) :
    Frames holds engine (engine.settle setup world) :=
  (recompute_frames hkeeps engine hworld).andThen fun _ _ _ hlater => .of_ok rfl rfl rfl hlater

theorem loadCurrent_frames (engine : Engine) (hworld : holds world) :
    Frames holds engine (engine.loadCurrent setup world) :=
  (enterFile_frames hkeeps _ engine hworld).andThen fun _ last _ hlater =>
    recompute_frames hkeeps last hlater

theorem selectFile_frames (name : String) (engine : Engine) (hworld : holds world) :
    Frames holds engine (engine.selectFile setup name world) := by
  unfold selectFile
  split
  · rename_i hstage
    exact .of_error rfl rfl rfl hworld (.noStage (Option.isNone_iff_eq_none.mp hstage))
  · dsimp only
    split
    · exact .of_ok rfl rfl rfl hworld
    · rename_i index _
      have hloaded : Frames holds { engine with fileIndex := index }
          (({ engine with fileIndex := index }.loadCurrent setup world).andThen
            fun _ last later =>
              ⟨.ok (FileSelection.selected index (last.files.getD index "")), last, later⟩) :=
        (loadCurrent_frames hkeeps _ hworld).andThen fun _ _ _ hlater => .of_ok rfl rfl rfl hlater
      exact hloaded.of_same rfl rfl rfl

theorem nextFile_frames (engine : Engine) (hworld : holds world) :
    Frames holds engine (engine.nextFile setup world) := by
  unfold nextFile
  split
  · rename_i hstage
    exact .of_error rfl rfl rfl hworld (.noStage (Option.isNone_iff_eq_none.mp hstage))
  · split
    · exact .of_ok rfl rfl rfl hworld
    · split
      · exact (enterFile_frames hkeeps _ engine hworld).andThen fun _ last _ hlater =>
          settle_frames hkeeps last hlater
      · exact .of_ok rfl rfl rfl hworld

theorem previousFile_frames (engine : Engine) (hworld : holds world) :
    Frames holds engine (engine.previousFile setup world) := by
  unfold previousFile
  split
  · rename_i hstage
    exact .of_error rfl rfl rfl hworld (.noStage (Option.isNone_iff_eq_none.mp hstage))
  · split
    · exact (enterFile_frames hkeeps _ engine hworld).andThen fun _ last _ hlater =>
        settle_frames hkeeps last hlater
    · split
      · exact .of_ok rfl rfl rfl hworld
      · exact (enterFile_frames hkeeps _ engine hworld).andThen fun _ last _ hlater =>
          settle_frames hkeeps last hlater

theorem next_frames (engine : Engine) (hworld : holds world) :
    Frames holds engine (engine.next setup world) := by
  unfold next
  split
  · exact .of_ok rfl rfl rfl hworld
  · split
    · exact .of_error rfl rfl rfl hworld .noFile
    · refine (advance_frames hkeeps engine hworld).andThen fun moved last later hlater => ?_
      split
      · exact settle_frames hkeeps last hlater
      · exact .of_ok rfl rfl rfl hlater

theorem enterPreviousFile_frames (engine : Engine) (hworld : holds world) :
    Frames holds engine (engine.enterPreviousFile setup world) := by
  fun_induction enterPreviousFile setup engine world with
  | case1 engine world hfirst => exact .of_ok rfl rfl rfl hworld
  | case2 engine world hfirst error world' hload =>
      have hlater := hkeeps engine (engine.fileIndex - 1) world hworld
      rw [hload] at hlater
      exact .of_error rfl rfl rfl hlater (Setup.loadIndex_hinders (congrArg Prod.fst hload))
  | case3 engine world hfirst file world' hload hempty ih =>
      have hlater := hkeeps engine (engine.fileIndex - 1) world hworld
      rw [hload] at hlater
      exact (ih hlater).of_same rfl rfl rfl
  | case4 engine world hfirst file world' hload hfull =>
      have hlater := hkeeps engine (engine.fileIndex - 1) world hworld
      rw [hload] at hlater
      exact .of_ok rfl rfl rfl hlater

theorem retreatFile_frames (engine : Engine) (hworld : holds world) :
    Frames holds engine (engine.retreatFile setup world) := by
  unfold retreatFile
  refine (enterPreviousFile_frames hkeeps engine hworld).andThen fun found last later hlater => ?_
  split
  · exact .of_ok rfl rfl rfl hlater
  · split
    · exact .of_ok rfl rfl rfl hlater
    · refine (enterFile_frames hkeeps _ last hlater).andThen fun _ again _ hagain => ?_
      exact (recompute_frames hkeeps again hagain).andThen fun _ _ _ hlast =>
        .of_ok rfl rfl rfl hlast

theorem retreat_frames (engine : Engine) (hworld : holds world) :
    Frames holds engine (engine.retreat setup world) := by
  unfold retreat
  split
  · refine (enterFile_frames hkeeps _ engine hworld).andThen fun _ last _ hlater => ?_
    split
    · exact .of_ok rfl rfl rfl hlater
    · exact retreatFile_frames hkeeps last hlater
  · split
    · exact .of_ok rfl rfl rfl hworld
    · exact retreatFile_frames hkeeps engine hworld

theorem previous_frames (engine : Engine) (hworld : holds world) :
    Frames holds engine (engine.previous setup world) := by
  unfold previous
  split
  · exact .of_error rfl rfl rfl hworld .noFile
  · refine (retreat_frames hkeeps engine hworld).andThen fun moved last later hlater => ?_
    split
    · exact settle_frames hkeeps last hlater
    · exact .of_ok rfl rfl rfl hlater

theorem run_frames (engine : Engine) (hworld : holds world) :
    Frames holds engine (engine.run setup world) := by
  have hreport : ∀ (last : Engine) (later : World σ) (before : Nat × Nat), holds later →
      Frames holds last (reportRun before (last.recompute setup later)) := by
    intro last later before hlater
    refine (recompute_frames hkeeps last hlater).andThen fun _ _ _ hlast => ?_
    split
    · exact .of_ok rfl rfl rfl hlast
    · split <;> exact .of_ok rfl rfl rfl hlast
  cases hexhausted : engine.isExhausted with
  | true =>
      rw [run, if_pos hexhausted]
      exact .of_ok rfl rfl rfl hworld
  | false =>
      cases hloaded : engine.loaded with
      | none =>
          rw [run, if_neg (by simp [hexhausted]), if_pos (by simp [hloaded])]
          exact .of_error rfl rfl rfl hworld .noFile
      | some file =>
          cases hparked : engine.isParked with
          | true =>
              rw [run_parked hexhausted hloaded hparked]
              have hadvance := runAdvance_frames hkeeps { engine with runMode := true } hworld
              refine (hadvance.andThen fun moved last later hlater => ?_).of_same rfl rfl rfl
              split
              · exact hreport last later _ hlater
              · exact .of_ok rfl rfl rfl hlater
          | false =>
              rw [run_unparked hexhausted hloaded hparked]
              exact (hreport _ world _ hworld).of_same rfl rfl rfl

omit hkeeps

theorem moveEndpoint_frames (endpoint : Endpoint) (amount : Int) (engine : Engine)
    (hworld : holds world) : Frames holds engine (engine.moveEndpoint endpoint amount world) := by
  unfold moveEndpoint
  split
  · exact .of_error rfl rfl rfl hworld .noFile
  · exact .of_error rfl rfl rfl hworld .noNode
  · exact .of_ok rfl rfl rfl hworld

theorem save_frames (hwithin : setup.StaysWithin holds) (engine : Engine) (hworld : holds world) :
    Frames holds engine (engine.save setup world) := by
  unfold save
  split
  · exact .of_error rfl rfl rfl hworld .noFile
  · exact .of_error rfl rfl rfl hworld .noNode
  · rename_i file current _ _
    have hsaved := hwithin.saves file.key
      (recordsWith file engine.position current.proposed) world hworld
    dsimp only
    split
    · rename_i hsave
      rw [hsave] at hsaved
      exact .of_error rfl rfl rfl hsaved (.fatal rfl)
    · rename_i hsave
      rw [hsave] at hsaved
      exact (recompute_frames hwithin.loads _ hsaved).of_same rfl rfl rfl

theorem enterStage_within (hwithin : setup.StaysWithin holds) (stage : Stage) (engine : Engine)
    (hworld : holds world) : holds (engine.enterStage setup stage world).world := by
  have hlisted := hwithin.lists stage world hworld
  unfold enterStage
  split
  · rename_i hlist
    rwa [hlist] at hlisted
  · rename_i hlist
    rwa [hlist] at hlisted

theorem selectStage_within (hwithin : setup.StaysWithin holds) (name : String) (engine : Engine)
    (hworld : holds world) : holds (engine.selectStage setup name world).world := by
  unfold selectStage
  split
  · exact enterStage_within hwithin _ engine hworld
  · exact hworld

theorem toggle_world (name : String) (engine : Engine) (world : World σ) :
    (engine.toggle name world).world = world := by
  unfold toggle
  split <;> rfl

end Engine

end SpanReview
