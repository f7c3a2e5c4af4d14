import SpanReview.Proofs.Engine.Performed
import SpanReview.Session.Basic

namespace SpanReview

/-! What the lines of a session are for, and that the session does with the engine what the
commands among them say. -/

def Command.operation? : Command → Option Operation
  | .nextToken => some .next
  | .previousToken => some .previous
  | .nextFile => some .nextFile
  | .previousFile => some .previousFile
  | .move endpoint amount => some (.moveEndpoint endpoint amount)
  | .save => some .save
  | .run => some .run
  | .toggle option => some (.toggle option.name)
  | .file name => some (.selectFile name)
  | .help => none
  | .quit => none

def Command.shown (display : DisplayOptions) : Command → DisplayOptions
  | .toggle option => display.toggle option
  | _ => display

theorem Engine.toggle_option (option : DisplayOption) (engine : Engine) (world : World σ) :
    engine.toggle option.name world =
      ⟨.ok ((engine.display.toggle option).get option),
        { engine with display := engine.display.toggle option }, world⟩ := by
  have hname : DisplayOption.ofName? option.name = some option := by
    cases option <;> decide
  rw [toggle, hname]

structure Command.Keeps (command : Command) (engine : Engine) (outcome : Outcome σ Unit) :
    Prop where
  stage : outcome.engine.stage = engine.stage
  display : outcome.engine.display = command.shown engine.display
  hinders : ∀ e, outcome.result = .error e → engine.Hinders e

theorem Command.Keeps.of_frames {command : Command} {engine : Engine} {outcome : Outcome σ α}
    {holds : World σ → Prop} (hframes : Engine.Frames holds engine outcome)
    (hshown : command.shown engine.display = engine.display) :
    command.Keeps engine outcome.done where
  stage := hframes.stage
  display := hframes.display.trans hshown.symm
  hinders := fun e herror => hframes.hinders e (Outcome.done_error.mp herror)

theorem Command.keeps {command : Command} {operation : Operation}
    (h : command.operation? = some operation) (setup : Setup σ) (engine : Engine)
    (world : World σ) : command.Keeps engine (operation.outcome setup engine world) := by
  have hanywhere := setup.staysWithin_trivial
  have hloads := hanywhere.loads
  cases command with
  | nextToken => cases h; exact .of_frames (Engine.next_frames hloads engine trivial) rfl
  | previousToken => cases h; exact .of_frames (Engine.previous_frames hloads engine trivial) rfl
  | nextFile => cases h; exact .of_frames (Engine.nextFile_frames hloads engine trivial) rfl
  | previousFile =>
      cases h; exact .of_frames (Engine.previousFile_frames hloads engine trivial) rfl
  | run => cases h; exact .of_frames (Engine.run_frames hloads engine trivial) rfl
  | move endpoint amount =>
      cases h
      have hframes : Engine.Frames (fun _ => True) engine
          (engine.moveEndpoint endpoint amount world) :=
        Engine.moveEndpoint_frames endpoint amount engine trivial
      exact .of_frames hframes rfl
  | save => cases h; exact .of_frames (Engine.save_frames hanywhere engine trivial) rfl
  | toggle option =>
      cases h
      simp only [Operation.outcome, Engine.toggle_option]
      refine ⟨rfl, rfl, ?_⟩
      intro e herror
      cases herror
  | file name => cases h; exact .of_frames (Engine.selectFile_frames hloads name engine trivial) rfl
  | help => cases h
  | quit => cases h

/-- The command that a line gives, unless it is blank or rejected. -/
def Command.ofLine? (line : String) : Option Command :=
  if Text.isBlankText line then none else (Command.parse line).toOption

namespace Session

/-- The commands up to the one that ends the session. -/
def executed (commands : List Command) : List Command :=
  commands.takeWhile (· ≠ .quit)

/-- What a session waits for after commands that did not fail. -/
def awaitsAfter (commands : List Command) : Awaiting :=
  if .quit ∈ commands then .nothing else .command

/-- The answer to the question for a case file, with the commands after it; the answer to the
one for a stage comes before both. -/
inductive Opening where
  | unopened
  | opened (file : String) (commands : List Command)

namespace Opening

def commands : Opening → List Command
  | unopened => []
  | opened _ commands => commands

def operations : Opening → List Operation
  | unopened => []
  | opened file commands =>
      .selectFile file :: (executed commands).filterMap Command.operation?

def awaits : Opening → Awaiting
  | unopened => .file
  | opened _ commands => awaitsAfter commands

theorem operations_opened (file : String) (commands : List Command) :
    (opened file commands).operations =
      (.file file :: executed commands).filterMap Command.operation? := rfl

/-- The lines up to the first that names a listed case file answer the question. -/
def ofLines (setup : Setup σ) (listed : Engine) (lines : List String) : Opening :=
  match lines.dropWhile fun line => (listed.fileNamed? setup (Text.trim line)).isNone with
  | [] => unopened
  | file :: rest => opened file (rest.filterMap Command.ofLine?)

theorem ofLines_of_unnamed {setup : Setup σ} {listed : Engine} {name : String}
    (hname : listed.fileNamed? setup (Text.trim name) = none) (lines : List String) :
    ofLines setup listed (name :: lines) = ofLines setup listed lines := by
  rw [ofLines, List.dropWhile_cons_of_pos (by simp [hname]), ofLines]

theorem ofLines_of_named {setup : Setup σ} {listed : Engine} {name : String} {index : Nat}
    (hname : listed.fileNamed? setup (Text.trim name) = some index) (lines : List String) :
    ofLines setup listed (name :: lines) = opened name (lines.filterMap Command.ofLine?) := by
  rw [ofLines, List.dropWhile_cons_of_neg (by simp [hname])]

end Opening

inductive Script where
  | unstaged
  | staged (stage : String) (opening : Opening)

namespace Script

def commands : Script → List Command
  | unstaged => []
  | staged _ opening => opening.commands

def operations : Script → List Operation
  | unstaged => []
  | staged stage opening => .selectStage stage :: opening.operations

/-- What a session that does not fail waits for at the end of the input. -/
def awaits (file : Option String) : Script → Awaiting
  | unstaged => .stage file
  | staged _ opening => opening.awaits

/-- The lines up to the first that names a stage answer the question. A file that is known
beforehand answers the next question like a line. -/
def ofLines (setup : Setup σ) (file : Option String) (engine : Engine) (world : World σ)
    (lines : List String) : Script :=
  match lines.dropWhile fun line => (Stage.ofName? line).isNone with
  | [] => unstaged
  | stage :: rest =>
      staged stage
        (.ofLines setup (engine.selectStage setup stage world).engine (file.toList ++ rest))

variable {setup : Setup σ} {file : Option String} {engine : Engine} {world : World σ}
  {name : String}

theorem ofLines_of_unnamed (hname : Stage.ofName? name = none) (lines : List String) :
    ofLines setup file engine world (name :: lines) = ofLines setup file engine world lines := by
  rw [ofLines, List.dropWhile_cons_of_pos (by simp [hname]), ofLines]

theorem ofLines_of_named {stage : Stage} (hname : Stage.ofName? name = some stage)
    (lines : List String) :
    ofLines setup file engine world (name :: lines) =
      staged name
        (.ofLines setup (engine.selectStage setup name world).engine (file.toList ++ lines)) := by
  rw [ofLines, List.dropWhile_cons_of_neg (by simp [hname])]

end Script

variable {setup : Setup σ} {color : Bool} {engine : Engine} {world : World σ}
  {session next : Session σ} {line : String} {lines : List String} {command : Command}

/-- A session that has come to where a call on the engine has. -/
structure Follows (outcome : Outcome σ α) (awaiting : Awaiting) (session : Session σ) : Prop where
  engine : session.engine = outcome.engine
  world : session.world = outcome.world
  error : session.error = outcome.fatal?
  awaiting : session.awaiting = if outcome.fatal?.isSome then .nothing else awaiting

/-- A session in a stage, which no error has ended. -/
structure Reviewing (session : Session σ) : Prop where
  coherent : session.engine.Coherent
  staged : session.engine.stage.isSome
  error : session.error = none

namespace Follows

variable {outcome : Outcome σ α} {awaiting : Awaiting} {e : EngineError}

theorem of_fatal (h : outcome.fatal? = some e) :
    Follows outcome awaiting ((session.after outcome).fail e) where
  engine := rfl
  world := rfl
  error := h.symm
  awaiting := by
    rw [h]
    rfl

theorem of_mendable (h : outcome.fatal? = none) (hengine : session.engine = outcome.engine)
    (hworld : session.world = outcome.world) (herror : session.error = none)
    (hawaiting : session.awaiting = awaiting) : Follows outcome awaiting session where
  engine := hengine
  world := hworld
  error := herror.trans h.symm
  awaiting := by
    rw [h]
    exact hawaiting

theorem done (h : Follows outcome awaiting session) : Follows outcome.done awaiting session where
  engine := h.engine
  world := h.world
  error := by rw [h.error, Outcome.done_fatal?]
  awaiting := by rw [h.awaiting, Outcome.done_fatal?]

end Follows

theorem feed_over (h : session.awaiting = .nothing) (line : String) :
    session.feed setup color line = session := by
  simp only [feed, h]

theorem foldl_feed_over (h : session.awaiting = .nothing) (lines : List String) :
    lines.foldl (feed setup color) session = session := by
  induction lines with
  | nil => rfl
  | cons line lines ih => rw [List.foldl_cons, feed_over h, ih]

/-! One command. -/

def OnlyTells (tell : α → Session σ → Session σ) : Prop :=
  ∀ value session, ∃ output, tell value session = { session with output := output }

theorem tellStep_onlyTells : OnlyTells (tellStep (σ := σ)) := by
  intro step session
  unfold tellStep
  split
  · exact ⟨_, rfl⟩
  · exact ⟨session.output, rfl⟩

theorem tellNothing_onlyTells : OnlyTells (tellNothing (σ := σ) (α := α)) :=
  fun _ session => ⟨session.output, rfl⟩

theorem report_output (session : Session σ) (selection : FileSelection) :
    ∃ output, session.report selection = { session with output := output } := by
  cases selection with
  | selected => exact ⟨session.output, rfl⟩
  | notFound query suggestions =>
      simp only [report]
      split <;> exact ⟨_, rfl⟩

theorem resume_follows {outcome : Outcome σ α} {tell : α → Session σ → Session σ}
    (herror : session.error = none) (htell : OnlyTells tell)
    (hfails : ∀ e, outcome.result = .error e → e.isFatal ∨ e = .noFile ∨ e = .noNode) :
    (session.resume color outcome tell).Follows outcome .command := by
  cases hresult : outcome.result with
  | ok value =>
      obtain ⟨output, htold⟩ := htell value (session.after outcome)
      simp only [resume, hresult, htold]
      exact .of_mendable (Outcome.fatal?_of_ok hresult) rfl rfl herror rfl
  | error e =>
      have hmendable : e.isFatal = false → outcome.fatal? = none := by
        intro hmend
        simp [Outcome.fatal?, hresult, hmend]
      simp only [resume, hresult]
      rcases hfails e hresult with hfatal | rfl | rfl
      · have hsome := Outcome.fatal?_eq_some.mpr ⟨hresult, hfatal⟩
        cases e with
        | source | fixture => exact .of_fatal hsome
        | _ => cases hfatal
      · exact .of_mendable (hmendable rfl) rfl rfl herror rfl
      · exact .of_mendable (hmendable rfl) rfl rfl herror rfl

theorem Reviewing.selectFile_fatal? {name : String} {e : EngineError} (h : session.Reviewing)
    (herror : (session.engine.selectFile setup name session.world).result = .error e) :
    (session.engine.selectFile setup name session.world).fatal? = some e :=
  Outcome.fatal?_eq_some.mpr
    ⟨herror, Engine.selectFile_fatal h.staged h.coherent.runMode_off herror⟩

/-- Apart from opening a file, a command makes one call and goes on after it. -/
theorem execute_resumes {operation : Operation} (session : Session σ)
    (hoperation : command.operation? = some operation) (hfile : ∀ name, command ≠ .file name) :
    ∃ (α : Type) (outcome : Outcome σ α) (tell : α → Session σ → Session σ),
      session.execute setup color command = session.resume color outcome tell ∧
      OnlyTells tell ∧
      operation.outcome setup session.engine session.world = outcome.done := by
  cases command with
  | nextToken | previousToken | nextFile | previousFile | run =>
      cases hoperation
      exact ⟨_, _, _, rfl, tellStep_onlyTells, rfl⟩
  | move | save | toggle =>
      cases hoperation
      exact ⟨_, _, _, rfl, tellNothing_onlyTells, rfl⟩
  | file name => exact absurd rfl (hfile name)
  | help | quit => cases hoperation

theorem execute_follows (h : session.Reviewing) {operation : Operation}
    (hoperation : command.operation? = some operation) :
    (session.execute setup color command).Follows
      (operation.outcome setup session.engine session.world) .command := by
  by_cases hfile : ∃ name, command = .file name
  · obtain ⟨name, rfl⟩ := hfile
    cases hoperation
    refine Follows.done ?_
    simp only [execute]
    cases hresult : (session.engine.selectFile setup name session.world).result with
    | ok selection =>
        obtain ⟨output, htold⟩ := report_output
          (session.after (session.engine.selectFile setup name session.world)) selection
        simp only [htold]
        exact .of_mendable (Outcome.fatal?_of_ok hresult) rfl rfl h.error rfl
    | error e => exact .of_fatal (h.selectFile_fatal? hresult)
  · have hkeeps := Command.keeps hoperation setup session.engine session.world
    obtain ⟨α, outcome, tell, hexecute, htell, houtcome⟩ :=
      execute_resumes session hoperation (not_exists.mp hfile)
    rw [hexecute, houtcome]
    refine (resume_follows h.error htell fun e herror => ?_).done
    have hhinders := hkeeps.hinders e (by rw [houtcome]; exact Outcome.done_error.mpr herror)
    cases hhinders with
    | fatal hfatal => exact .inl hfatal
    | noStage hstage =>
        have hstaged := h.staged
        rw [hstage] at hstaged
        contradiction
    | noFile => exact .inr (.inl rfl)
    | noNode => exact .inr (.inr rfl)

theorem Follows.over {outcome : Outcome σ α} {awaiting : Awaiting} {e : EngineError}
    (h : session.Follows outcome awaiting) (hfatal : outcome.fatal? = some e) :
    session.awaiting = .nothing := by
  rw [h.awaiting, hfatal]
  rfl

theorem Follows.of_failed {outcome : Outcome σ α} {awaiting other : Awaiting} {e : EngineError}
    (h : session.Follows outcome awaiting) (hfatal : outcome.fatal? = some e) :
    session.Follows (⟨.error e, outcome.engine, outcome.world⟩ : Outcome σ Unit) other := by
  have hsame : (⟨.error e, outcome.engine, outcome.world⟩ : Outcome σ Unit).fatal? = some e :=
    Outcome.fatal?_eq_some.mpr ⟨rfl, (Outcome.fatal?_eq_some.mp hfatal).2⟩
  exact ⟨h.engine, h.world, by rw [h.error, hfatal, hsame], by rw [h.over hfatal, hsame]; rfl⟩

theorem Follows.rest {operation : Operation} {operations : List Operation}
    {awaiting last : Awaiting} (h : next.Follows (operation.outcome setup engine world) awaiting)
    (hrest : (operation.outcome setup engine world).fatal? = none →
      next.Follows (operation.outcome setup engine world) awaiting →
      (lines.foldl (feed setup color) next).Follows
        (next.engine.performAll setup next.world operations) last) :
    (lines.foldl (feed setup color) next).Follows
      (engine.performAll setup world (operation :: operations)) last := by
  cases hfatal : (operation.outcome setup engine world).fatal? with
  | some e =>
      rw [foldl_feed_over (h.over hfatal), Engine.performAll_of_fatal hfatal]
      exact h.of_failed hfatal
  | none =>
      rw [Engine.performAll_of_mendable hfatal, ← h.engine, ← h.world]
      exact hrest hfatal h

theorem Follows.reviewing {outcome : Outcome σ α} {awaiting : Awaiting}
    (h : session.Follows outcome awaiting) (hmendable : outcome.fatal? = none)
    (hcoherent : outcome.engine.Coherent) (hstaged : outcome.engine.stage.isSome) :
    session.Reviewing ∧ session.awaiting = awaiting := by
  refine ⟨⟨?_, ?_, h.error.trans hmendable⟩, ?_⟩
  · rw [h.engine]
    exact hcoherent
  · rw [h.engine]
    exact hstaged
  · rw [h.awaiting, hmendable]
    rfl

theorem Reviewing.after {operation : Operation} {awaiting : Awaiting} (h : session.Reviewing)
    (hoperation : command.operation? = some operation)
    (hnext : next.Follows (operation.outcome setup session.engine session.world) awaiting)
    (hmendable : (operation.outcome setup session.engine session.world).fatal? = none) :
    next.Reviewing ∧ next.awaiting = awaiting := by
  have hkeeps := Command.keeps hoperation setup session.engine session.world
  have hcoherent : (operation.outcome setup session.engine session.world).engine.Coherent := by
    rw [operation.outcome_engine]
    exact Engine.perform_coherent operation session.world h.coherent
  exact hnext.reviewing hmendable hcoherent (hkeeps.stage ▸ h.staged)

theorem Reviewing.follows {awaiting : Awaiting} (h : session.Reviewing)
    (hawaiting : session.awaiting = awaiting) :
    session.Follows ⟨.ok (), session.engine, session.world⟩ awaiting :=
  .of_mendable rfl rfl rfl h.error hawaiting

theorem executed_cons_of_ne (hquit : command ≠ .quit) (commands : List Command) :
    executed (command :: commands) = command :: executed commands := by
  simp [executed, hquit]

theorem awaitsAfter_cons_of_ne (hquit : command ≠ .quit) (commands : List Command) :
    awaitsAfter (command :: commands) = awaitsAfter commands := by
  simp [awaitsAfter, hquit.symm]

theorem executed_quit (commands : List Command) : executed (.quit :: commands) = [] := by
  simp [executed]

theorem awaitsAfter_quit (commands : List Command) :
    awaitsAfter (.quit :: commands) = .nothing := by
  simp [awaitsAfter]

theorem commandLine_of_none (session : Session σ) (h : Command.ofLine? line = none) :
    ∃ output, session.commandLine setup color line =
      { session with output := output, awaiting := .command } := by
  unfold Command.ofLine? at h
  unfold commandLine
  split at h
  · rename_i hblank
    rw [if_pos hblank]
    exact ⟨_, rfl⟩
  · rename_i hblank
    rw [if_neg hblank]
    cases hparse : Command.parse line with
    | ok command => simp [hparse, Except.toOption] at h
    | error e => exact ⟨_, rfl⟩

theorem commandLine_of_some (session : Session σ) (h : Command.ofLine? line = some command) :
    session.commandLine setup color line = session.execute setup color command := by
  unfold Command.ofLine? at h
  unfold commandLine
  split at h
  · cases h
  · rename_i hblank
    rw [if_neg hblank]
    cases hparse : Command.parse line with
    | ok parsed =>
        rw [hparse] at h
        cases h
        rfl
    | error e => simp [hparse, Except.toOption] at h

theorem commands_follow (h : session.Reviewing) (hawaiting : session.awaiting = .command)
    (lines : List String) :
    (lines.foldl (feed setup color) session).Follows
      (session.engine.performAll setup session.world
        ((executed (lines.filterMap Command.ofLine?)).filterMap Command.operation?))
      (awaitsAfter (lines.filterMap Command.ofLine?)) := by
  -- On the lines. Each leaves a session that is reviewing, unless an error or a command ends it.
  induction lines generalizing session with
  | nil => exact h.follows hawaiting
  | cons line lines ih =>
      have hpassed (output : String) :=
        @ih { session with output := output, awaiting := .command }
          ⟨h.coherent, h.staged, h.error⟩ rfl
      have hfeed : session.feed setup color line = session.commandLine setup color line := by
        simp only [feed, hawaiting]
      rw [List.foldl_cons, hfeed]
      cases hline : Command.ofLine? line with
      | none =>
          obtain ⟨output, hcommand⟩ := @commandLine_of_none _ setup color _ session hline
          rw [List.filterMap_cons_none hline, hcommand]
          exact hpassed output
      | some command =>
          rw [List.filterMap_cons_some hline, commandLine_of_some session hline]
          cases hoperation : command.operation? with
          | none =>
              cases command with
              | help =>
                  have hquit : Command.help ≠ .quit := by decide
                  rw [executed_cons_of_ne hquit, awaitsAfter_cons_of_ne hquit,
                    List.filterMap_cons_none rfl]
                  exact hpassed _
              | quit =>
                  rw [executed_quit, awaitsAfter_quit, foldl_feed_over rfl]
                  exact .of_mendable rfl rfl rfl h.error rfl
              | _ => cases hoperation
          | some operation =>
              have hquit : command ≠ .quit := by
                rintro rfl
                cases hoperation
              rw [executed_cons_of_ne hquit, awaitsAfter_cons_of_ne hquit,
                List.filterMap_cons_some hoperation]
              refine (execute_follows h hoperation).rest fun hmendable hnext => ?_
              obtain ⟨hreviewing, hcommand⟩ := h.after hoperation hnext hmendable
              exact ih hreviewing hcommand

/-! The two questions. -/

theorem chooseFile_of_unnamed {name : String} (h : session.Reviewing)
    (hname : session.engine.fileNamed? setup (Text.trim name) = none) :
    ∃ output, session.chooseFile setup color name =
      { session with output := output, awaiting := .file } := by
  have hstage : session.engine.stage.isNone = false := by simpa using h.staged
  simp only [chooseFile, Engine.selectFile_of_unnamed hstage hname]
  obtain ⟨output, htold⟩ := report_output session (.notFound (Text.trim name)
    (setup.ranking.suggest (Text.trim name) session.engine.files 5))
  have hasked := congrArg askFile htold
  exact ⟨_, hasked⟩

theorem chooseFile_follows {name : String} {index : Nat} (h : session.Reviewing)
    (hname : session.engine.fileNamed? setup (Text.trim name) = some index) :
    (session.chooseFile setup color name).Follows
      ((Operation.selectFile name).outcome setup session.engine session.world) .command := by
  have hstage : session.engine.stage.isNone = false := by simpa using h.staged
  have hoff := h.coherent.runMode_off
  refine Follows.done ?_
  obtain ⟨result, later, hload⟩ : ∃ result later,
      setup.loadIndex session.engine index session.world = (result, later) := ⟨_, _, rfl⟩
  cases result with
  | ok file =>
      have hselected := Engine.selectFile_of_off hoff hstage hname hload
      simp only [chooseFile, hselected]
      exact .of_mendable rfl rfl rfl h.error rfl
  | error e =>
      have hresult := congrArg Outcome.result (Engine.selectFile_of_unloaded hstage hname hload)
      simp only [chooseFile, hresult]
      exact .of_fatal (h.selectFile_fatal? hresult)

theorem opened_follow {name : String} {index : Nat} (h : session.Reviewing)
    (hname : session.engine.fileNamed? setup (Text.trim name) = some index)
    (lines : List String) :
    (lines.foldl (feed setup color) (session.chooseFile setup color name)).Follows
      (session.engine.performAll setup session.world
        (Opening.ofLines setup session.engine (name :: lines)).operations)
      (Opening.ofLines setup session.engine (name :: lines)).awaits := by
  rw [Opening.ofLines_of_named hname]
  refine (chooseFile_follows h hname).rest fun hmendable hnext => ?_
  have hoperation : (Command.file name).operation? = some (.selectFile name) := rfl
  obtain ⟨hreviewing, hcommand⟩ := h.after hoperation hnext hmendable
  exact commands_follow hreviewing hcommand lines

theorem answered_follow (h : session.Reviewing) (name : String) (lines : List String) :
    (lines.foldl (feed setup color) (session.chooseFile setup color name)).Follows
      (session.engine.performAll setup session.world
        (Opening.ofLines setup session.engine (name :: lines)).operations)
      (Opening.ofLines setup session.engine (name :: lines)).awaits := by
  -- A line that names no file is answered with the question again, so the next one takes its
  -- place as the answer.
  induction lines generalizing session name with
  | nil =>
      cases hname : session.engine.fileNamed? setup (Text.trim name) with
      | none =>
          obtain ⟨output, hasked⟩ := chooseFile_of_unnamed h hname
          rw [Opening.ofLines_of_unnamed hname, hasked]
          exact .of_mendable rfl rfl rfl h.error rfl
      | some index => exact opened_follow h hname []
  | cons line lines ih =>
      cases hname : session.engine.fileNamed? setup (Text.trim name) with
      | none =>
          obtain ⟨output, hasked⟩ := chooseFile_of_unnamed h hname
          rw [Opening.ofLines_of_unnamed hname, hasked]
          have hagain :
              ({ session with output := output, awaiting := .file } : Session σ).Reviewing :=
            ⟨h.coherent, h.staged, h.error⟩
          exact ih hagain line
      | some index => exact opened_follow h hname (line :: lines)

def enter (setup : Setup σ) (color : Bool) (file : Option String) (session : Session σ) :
    Session σ :=
  match file with
  | some file => session.chooseFile setup color file
  | none => session.askFile

theorem enter_follow (h : session.Reviewing) (file : Option String) (lines : List String) :
    (lines.foldl (feed setup color) (session.enter setup color file)).Follows
      (session.engine.performAll setup session.world
        (Opening.ofLines setup session.engine (file.toList ++ lines)).operations)
      (Opening.ofLines setup session.engine (file.toList ++ lines)).awaits := by
  cases file with
  | some file => exact answered_follow h file lines
  | none =>
      have hasked : session.askFile.Reviewing := ⟨h.coherent, h.staged, h.error⟩
      cases lines with
      | nil => exact hasked.follows rfl
      | cons line lines => exact answered_follow hasked line lines

theorem chooseStage_of_unnamed {name : String} {file : Option String}
    (hname : Stage.ofName? name = none) :
    ∃ output, session.chooseStage setup color name file =
      { session with output := output, awaiting := .stage file } := by
  simp only [chooseStage, Engine.selectStage, hname]
  exact ⟨_, rfl⟩

theorem chosen_follow {name : String} {stage : Stage} (herror : session.error = none)
    (hname : Stage.ofName? name = some stage) (file : Option String) (lines : List String) :
    let listed := (session.engine.selectStage setup name session.world).engine
    let opening := Opening.ofLines setup listed (file.toList ++ lines)
    (lines.foldl (feed setup color) (session.chooseStage setup color name file)).Follows
      (session.engine.performAll setup session.world (.selectStage name :: opening.operations))
      opening.awaits := by
  intro listed opening
  rcases Engine.selectStage_entered setup hname session.engine session.world with
    ⟨cause, later, hselect⟩ | ⟨files, later, hselect⟩
  · have hfails : session.chooseStage setup color name file =
        { session with world := later }.fail (.source cause) := by
      simp only [chooseStage, hselect]
      rfl
    rw [Engine.performAll_of_unentered hselect rfl, hfails, foldl_feed_over rfl]
    exact ⟨rfl, rfl, rfl, rfl⟩
  · let entered : Session σ := { session with
      engine := { Engine.start session.engine.display with stage := some stage, files := files }
      world := later }
    have hentered : entered.Reviewing := by
      have hlisted : Engine.Change setup (.start session.engine.display) entered.engine :=
        .stage stage files
      exact ⟨hlisted.keeps_coherent (Engine.start_coherent _), rfl, herror⟩
    have henter : session.chooseStage setup color name file =
        entered.enter setup color file := by
      simp only [chooseStage, hselect]
      rfl
    have hopening : opening = Opening.ofLines setup entered.engine (file.toList ++ lines) := by
      simp only [opening, listed, hselect, entered]
    rw [Engine.performAll_of_entered hselect, henter, hopening]
    exact enter_follow hentered file lines

theorem stage_follow {file : Option String} (herror : session.error = none)
    (hawaiting : session.awaiting = .stage file) (lines : List String) :
    (lines.foldl (feed setup color) session).Follows
      (session.engine.performAll setup session.world
        (Script.ofLines setup file session.engine session.world lines).operations)
      ((Script.ofLines setup file session.engine session.world lines).awaits file) := by
  induction lines generalizing session with
  | nil => exact .of_mendable rfl rfl rfl herror hawaiting
  | cons line lines ih =>
      have hfeed : session.feed setup color line = session.chooseStage setup color line file := by
        simp only [feed, hawaiting]
      rw [List.foldl_cons, hfeed]
      cases hname : Stage.ofName? line with
      | none =>
          obtain ⟨output, hasked⟩ := chooseStage_of_unnamed hname
          rw [Script.ofLines_of_unnamed hname, hasked]
          exact @ih { session with output := output, awaiting := .stage file } herror rfl
      | some stage =>
          rw [Script.ofLines_of_named hname]
          exact chosen_follow herror hname file lines

/-- A stage that is known beforehand answers the first question like a line. -/
theorem run_follows (setup : Setup σ) (color : Bool) (stage file : Option String)
    (engine : Engine) (world : World σ) (lines : List String) :
    let script := Script.ofLines setup file engine world (stage.toList ++ lines)
    (Session.run setup color stage file engine world lines).Follows
      (engine.performAll setup world script.operations) (script.awaits file) := by
  let session : Session σ := ⟨engine, world, .stage file, "", none⟩
  cases stage with
  | none =>
      have hstart : start setup color none file engine world = session.askStage file := rfl
      rw [Session.run, hstart]
      exact @stage_follow _ setup color (session.askStage file) file rfl rfl lines
  | some stage =>
      have hstart : start setup color (some stage) file engine world =
          session.feed setup color stage := rfl
      rw [Session.run, hstart]
      exact @stage_follow _ setup color session file rfl rfl (stage :: lines)

/-! A terminal that may fail. -/

/-- A conversation whose lines, if nothing cut it short, make the session come to `ended`. -/
structure ComesTo (ended : Session σ) (breaks : Prop) (conversation : Conversation σ) : Prop where
  session : conversation.session = { ended with output := conversation.session.output }
  output : conversation.session.output.toList <+: ended.output.toList
  isBroken : conversation.isBroken ↔ breaks
  whole : conversation.isBroken = false → conversation.session = ended

theorem ComesTo.of_whole {breaks : Prop} (session : Session σ) (h : ¬ breaks) :
    ComesTo session breaks ⟨session, false⟩ :=
  ⟨rfl, List.prefix_rfl, by simpa using h, fun _ => rfl⟩

theorem ComesTo.of_cut {breaks : Prop} (session : Session σ) (count : Nat) (h : breaks) :
    ComesTo session breaks ⟨session.cutAfter count, true⟩ where
  session := rfl
  output := by
    rw [cutAfter, String.toList_ofList]
    exact List.take_prefix count _
  isBroken := by simpa using h
  whole := by
    intro hwhole
    cases hwhole

theorem cutAfter_length (session : Session σ) :
    session.cutAfter session.output.length = session := by
  rw [cutAfter, ← String.length_toList, List.take_length, String.ofList_toList]

theorem converse_comesTo (setup : Setup σ) (color : Bool) (session : Session σ) (shown : Nat)
    (replies : List Reply) :
    let ended := (Reply.heard replies).foldl (feed setup color) session
    ComesTo ended (ended.awaiting ≠ .nothing ∧ replies.any Reply.fails)
      (session.converse setup color shown replies) := by
  induction replies generalizing session shown with
  | nil => exact .of_whole session (by simp)
  | cons reply replies ih =>
      by_cases hover : session.awaiting = .nothing
      · unfold converse
        rw [if_pos hover, foldl_feed_over hover]
        exact .of_whole session fun hbreaks => hbreaks.1 hover
      · unfold converse
        rw [if_neg hover]
        cases reply with
        | line text => exact ih (session.feed setup color text) session.output.length
        | inputFails =>
            have hbreaks : session.awaiting ≠ .nothing ∧
                (Reply.inputFails :: replies).any Reply.fails := ⟨hover, rfl⟩
            have hcut := ComesTo.of_cut session session.output.length hbreaks
            rwa [cutAfter_length] at hcut
        | outputFails more => exact .of_cut session _ ⟨hover, rfl⟩

/-- Whatever the input is: a session leaves what the operations of its script leave, which
its lines give with what was known beforehand. It ends by itself at the first line that tells
it to or when an operation fails, fails with nothing but an error of the source or of a
fixture, and takes no more lines after its end. Where the terminal fails before that, the session
stops as the lines that were read left it, with some of its output shown. -/
theorem run_performs_script (setup : Setup σ) (color : Bool) (stage file : Option String)
    (engine : Engine) (world : World σ) (lines : List String) :
    let script := Script.ofLines setup file engine world (stage.toList ++ lines)
    let performed := engine.performAll setup world script.operations
    let ended := Session.run setup color stage file engine world lines
    ended.engine = performed.engine ∧ ended.world = performed.world ∧
    performed.result = ended.error.elim (.ok ()) .error ∧
    (∀ e, ended.error = some e →
      ended.awaiting = .nothing ∧ ((∃ cause, e = .source cause) ∨ ∃ cause, e = .fixture cause)) ∧
    (ended.error = none → ended.awaiting = script.awaits file) ∧
    (ended.awaiting = .nothing → ∀ more,
      Session.run setup color stage file engine world (lines ++ more) = ended) ∧
    (∀ replies, Reply.heard replies = lines →
      ComesTo ended (ended.awaiting ≠ .nothing ∧ replies.any Reply.fails)
        (Session.talk setup color stage file engine world replies)) := by
  intro script performed ended
  have hfollows : ended.Follows performed (script.awaits file) :=
    run_follows setup color stage file engine world lines
  have hawaiting := hfollows.awaiting
  rw [← hfollows.error] at hawaiting
  refine ⟨hfollows.engine, hfollows.world, ?_, fun e herror => ⟨?_, ?_⟩, fun hnone => ?_,
    fun hover more => ?_, ?_⟩
  · rw [hfollows.error]
    exact Engine.performAll_result setup engine world script.operations
  · rw [hawaiting, herror]
    rfl
  · rw [hfollows.error] at herror
    exact EngineError.isFatal_iff.mp (Outcome.fatal?_eq_some.mp herror).2
  · rw [hawaiting, hnone]
    rfl
  · rw [Session.run, List.foldl_append]
    exact foldl_feed_over hover more
  · rintro replies rfl
    exact converse_comesTo setup color _ 0 replies

end Session

end SpanReview
