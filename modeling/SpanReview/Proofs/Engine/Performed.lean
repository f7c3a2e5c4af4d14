import SpanReview.Proofs.Engine.Coherence
import SpanReview.Proofs.Engine.Frame
import SpanReview.Proofs.Engine.Load

namespace SpanReview

/-! Operations one after another, on the world that each leaves to the next. Nothing but an
error of the source or of a fixture stops them. -/

namespace Outcome

variable {outcome : Outcome σ α} {e : EngineError}

def done (outcome : Outcome σ α) : Outcome σ Unit :=
  ⟨outcome.result.map fun _ => (), outcome.engine, outcome.world⟩

/-- The error of a call that the operator cannot mend by another command. -/
def fatal? (outcome : Outcome σ α) : Option EngineError :=
  match outcome.result with
  | .error e => if e.isFatal then some e else none
  | .ok _ => none

@[simp] theorem done_engine (outcome : Outcome σ α) : outcome.done.engine = outcome.engine := rfl

@[simp] theorem done_world (outcome : Outcome σ α) : outcome.done.world = outcome.world := rfl

theorem done_error : outcome.done.result = .error e ↔ outcome.result = .error e := by
  unfold done
  cases outcome.result <;> simp [Except.map]

theorem fatal?_eq_some : outcome.fatal? = some e ↔ outcome.result = .error e ∧ e.isFatal := by
  unfold fatal?
  cases outcome.result with
  | ok value => simp
  | error other => grind

theorem fatal?_of_ok {value : α} (h : outcome.result = .ok value) : outcome.fatal? = none := by
  rw [fatal?, h]

@[simp] theorem done_fatal? (outcome : Outcome σ α) : outcome.done.fatal? = outcome.fatal? := by
  unfold done fatal?
  cases outcome.result <;> rfl

end Outcome

theorem EngineError.isFatal_iff {e : EngineError} :
    e.isFatal ↔ (∃ cause, e = .source cause) ∨ ∃ cause, e = .fixture cause := by
  cases e <;> simp [isFatal]

/-- What an operation gives and leaves; the value that it gives is dropped. -/
def Operation.outcome (setup : Setup σ) (engine : Engine) (world : World σ) :
    Operation → Outcome σ Unit
  | .selectStage name => (engine.selectStage setup name world).done
  | .enterStage stage => (engine.enterStage setup stage world).done
  | .selectFile name => (engine.selectFile setup name world).done
  | .loadCurrent => (engine.loadCurrent setup world).done
  | .nextFile => (engine.nextFile setup world).done
  | .previousFile => (engine.previousFile setup world).done
  | .next => (engine.next setup world).done
  | .previous => (engine.previous setup world).done
  | .recompute => (engine.recompute setup world).done
  | .run => (engine.run setup world).done
  | .moveEndpoint endpoint amount => (engine.moveEndpoint endpoint amount world).done
  | .toggle name => (engine.toggle name world).done
  | .save => (engine.save setup world).done

theorem Operation.outcome_engine (setup : Setup σ) (engine : Engine) (world : World σ)
    (operation : Operation) :
    (operation.outcome setup engine world).engine = operation.perform setup engine world := by
  cases operation <;> simp only [outcome, perform, Outcome.done_engine]

theorem Operation.outcome_within {setup : Setup σ} {holds : World σ → Prop} {world : World σ}
    (hwithin : setup.StaysWithin holds) (operation : Operation) (engine : Engine)
    (hworld : holds world) : holds (operation.outcome setup engine world).world := by
  have hloads := hwithin.loads
  cases operation <;> simp only [Operation.outcome, Outcome.done_world]
  case selectStage name => exact Engine.selectStage_within hwithin name engine hworld
  case enterStage stage => exact Engine.enterStage_within hwithin stage engine hworld
  case selectFile name => exact (Engine.selectFile_frames hloads name engine hworld).world
  case loadCurrent => exact (Engine.loadCurrent_frames hloads engine hworld).world
  case nextFile => exact (Engine.nextFile_frames hloads engine hworld).world
  case previousFile => exact (Engine.previousFile_frames hloads engine hworld).world
  case next => exact (Engine.next_frames hloads engine hworld).world
  case previous => exact (Engine.previous_frames hloads engine hworld).world
  case recompute => exact (Engine.recompute_frames hloads engine hworld).world
  case run => exact (Engine.run_frames hloads engine hworld).world
  case moveEndpoint endpoint amount =>
    exact (Engine.moveEndpoint_frames endpoint amount engine hworld).world
  case toggle name => rwa [Engine.toggle_world]
  case save => exact (Engine.save_frames hwithin engine hworld).world

namespace Engine

variable {setup : Setup σ} {engine : Engine} {world : World σ} {operation : Operation}
  {operations : List Operation} {e : EngineError}

/-- Does operations in order, up to one that fails with what cannot be mended. -/
def performAll (setup : Setup σ) (engine : Engine) (world : World σ) :
    List Operation → Outcome σ Unit
  | [] => ⟨.ok (), engine, world⟩
  | operation :: rest =>
      let outcome := operation.outcome setup engine world
      match outcome.fatal? with
      | some e => ⟨.error e, outcome.engine, outcome.world⟩
      | none => outcome.engine.performAll setup outcome.world rest

theorem performAll_of_fatal (h : (operation.outcome setup engine world).fatal? = some e) :
    engine.performAll setup world (operation :: operations) =
      ⟨.error e, (operation.outcome setup engine world).engine,
        (operation.outcome setup engine world).world⟩ := by
  simp only [performAll, h]

theorem performAll_of_mendable (h : (operation.outcome setup engine world).fatal? = none) :
    engine.performAll setup world (operation :: operations) =
      (operation.outcome setup engine world).engine.performAll setup
        (operation.outcome setup engine world).world operations := by
  simp only [performAll, h]

theorem performAll_of_ok {last : Engine} {later : World σ}
    (h : operation.outcome setup engine world = ⟨.ok (), last, later⟩) :
    engine.performAll setup world (operation :: operations) =
      last.performAll setup later operations := by
  have hmendable : (operation.outcome setup engine world).fatal? = none := by
    rw [h]
    rfl
  rw [performAll_of_mendable hmendable, h]

/-- Operations one after another lead out of worlds of one kind no more than the calls that
they make. -/
theorem performAll_within {holds : World σ → Prop} (hwithin : setup.StaysWithin holds)
    (hworld : holds world) : holds (engine.performAll setup world operations).world := by
  fun_induction performAll setup engine world operations with
  | case1 => exact hworld
  | case2 engine world operation rest outcome fatal hfatal =>
      exact operation.outcome_within hwithin engine hworld
  | case3 engine world operation rest outcome hfatal ih =>
      exact ih (operation.outcome_within hwithin engine hworld)

theorem performAll_fatal (h : (engine.performAll setup world operations).result = .error e) :
    e.isFatal := by
  fun_induction performAll setup engine world operations with
  | case1 => cases h
  | case2 engine world operation rest outcome fatal hfatal =>
      cases h
      exact (Outcome.fatal?_eq_some.mp hfatal).2
  | case3 engine world operation rest outcome hfatal ih => exact ih h

theorem performAll_result (setup : Setup σ) (engine : Engine) (world : World σ)
    (operations : List Operation) :
    (engine.performAll setup world operations).result =
      (engine.performAll setup world operations).fatal?.elim (.ok ()) .error := by
  cases hresult : (engine.performAll setup world operations).result with
  | ok => rw [Outcome.fatal?_of_ok hresult]; rfl
  | error e => rw [Outcome.fatal?_eq_some.mpr ⟨hresult, performAll_fatal hresult⟩]; rfl

theorem selectStage_entered {name : String} {stage : Stage} (setup : Setup σ)
    (hname : Stage.ofName? name = some stage) (engine : Engine) (world : World σ) :
    (∃ cause later,
      engine.selectStage setup name world = ⟨.error (.source cause), engine, later⟩) ∨
    ∃ files later, engine.selectStage setup name world =
      ⟨.ok files.length, { start engine.display with stage := some stage, files := files },
        later⟩ := by
  simp only [selectStage, hname, enterStage]
  split
  · exact .inl ⟨_, _, rfl⟩
  · exact .inr ⟨_, _, rfl⟩

theorem performAll_of_entered {name : String} {count : Nat} {last : Engine} {later : World σ}
    (h : engine.selectStage setup name world = ⟨.ok count, last, later⟩) :
    engine.performAll setup world (.selectStage name :: operations) =
      last.performAll setup later operations :=
  performAll_of_ok (by simp only [Operation.outcome, h, Outcome.done, Except.map])

theorem performAll_of_unentered {name : String} {last : Engine} {later : World σ}
    (h : engine.selectStage setup name world = ⟨.error e, last, later⟩) (hfatal : e.isFatal) :
    engine.performAll setup world (.selectStage name :: operations) = ⟨.error e, last, later⟩ := by
  have houtcome : (Operation.selectStage name).outcome setup engine world =
      ⟨.error e, last, later⟩ := by
    simp only [Operation.outcome, h, Outcome.done, Except.map]
  have hsome : ((Operation.selectStage name).outcome setup engine world).fatal? = some e := by
    rw [houtcome]
    exact Outcome.fatal?_eq_some.mpr ⟨rfl, hfatal⟩
  rw [performAll_of_fatal hsome, houtcome]

theorem performAll_of_selected {name : String} {index : Nat} {file : LoadedFile}
    {later : World σ} (hoff : engine.runMode = false) (hstage : engine.stage.isNone = false)
    (hname : engine.fileNamed? setup (Text.trim name) = some index)
    (hload : setup.loadIndex engine index world = (.ok file, later)) :
    engine.performAll setup world (.selectFile name :: operations) =
      (engine.place index file).rest.performAll setup later operations :=
  performAll_of_ok (by
    simp only [Operation.outcome, selectFile_of_off hoff hstage hname hload, Outcome.done,
      Except.map])

/-! A case file that is chosen by name in a listed stage fails by its contents only. -/

theorem fileNamed?_lt {name : String} {index : Nat}
    (h : engine.fileNamed? setup name = some index) : index < engine.files.length := by
  unfold fileNamed? at h
  split at h
  · split at h
    · cases h
    · cases h
      rename_i hnonempty
      exact List.length_pos_iff.mpr (by simpa using hnonempty)
  · rcases Option.or_eq_some_iff.mp h with hindex | ⟨_, hindex⟩
    · exact (List.idxOf?_eq_some_iff.mp hindex).1
    · exact (List.idxOf?_eq_some_iff.mp hindex).1

theorem loadIndex_fatal {index : Nat} (hstage : engine.stage.isSome)
    (hlt : index < engine.files.length)
    (h : (setup.loadIndex engine index world).1 = .error e) : e.isFatal := by
  obtain ⟨stage, hstage⟩ := Option.isSome_iff_exists.mp hstage
  rw [Setup.loadIndex_of_name hstage (List.getElem?_eq_getElem hlt)] at h
  exact Setup.loadFile_fatal h

theorem selectFile_fatal {name : String} (hstage : engine.stage.isSome)
    (hoff : engine.runMode = false)
    (h : (engine.selectFile setup name world).result = .error e) : e.isFatal := by
  have hsome : engine.stage.isNone = false := by simpa using hstage
  cases hname : engine.fileNamed? setup (Text.trim name) with
  | none =>
      rw [selectFile_of_unnamed hsome hname] at h
      cases h
  | some index =>
      obtain ⟨result, next, hload⟩ : ∃ result next,
          setup.loadIndex engine index world = (result, next) := ⟨_, _, rfl⟩
      cases result with
      | ok file =>
          rw [selectFile_of_off hoff hsome hname hload] at h
          cases h
      | error cause =>
          rw [selectFile_of_unloaded hsome hname hload] at h
          cases h
          exact loadIndex_fatal hstage (fileNamed?_lt hname) (congrArg Prod.fst hload)

end Engine

end SpanReview
