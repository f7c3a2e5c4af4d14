import Mathlib.Algebra.Ring.Parity
import Mathlib.Logic.Relation
import Mathlib.Order.BooleanAlgebra.Basic
import SpanReview.CommandLine.Review
import SpanReview.Proofs.Session.Script
import SpanReview.Proofs.Settings.Stored

namespace SpanReview

/-! What a session toggles is stored in the settings file, and nothing else in it changes. -/

def DisplayOptions.flipped (display : DisplayOptions) (times : DisplayOption → Nat) :
    DisplayOptions :=
  ⟨not^[times .json] display.json, not^[times .showToken] display.showToken⟩

theorem iterate_not_eq_self {times : Nat} {value : Bool} :
    not^[times] value = value ↔ Even times := by
  rcases Nat.even_or_odd times with heven | hodd
  · simp [Function.Involutive.iterate_even Bool.not_not heven, heven]
  · have hnot : ¬ Even times := Nat.not_even_iff_odd.mpr hodd
    simp [Function.Involutive.iterate_odd Bool.not_not hodd, hnot]

theorem DisplayOptions.flipped_eq_self {display : DisplayOptions} {times : DisplayOption → Nat} :
    display.flipped times = display ↔ Even (times .json) ∧ Even (times .showToken) := by
  obtain ⟨json, showToken⟩ := display
  simp only [flipped, mk.injEq, iterate_not_eq_self]

def Command.toggles (commands : List Command) (option : DisplayOption) : Nat :=
  commands.count (.toggle option)

theorem Command.shown_flipped (command : Command) (commands : List Command)
    (display : DisplayOptions) :
    (command.shown display).flipped (toggles commands) =
      display.flipped (toggles (command :: commands)) := by
  cases command with
  | toggle option =>
      cases option <;>
        simp [DisplayOptions.flipped, toggles, shown, DisplayOptions.toggle]
  | _ => simp [DisplayOptions.flipped, toggles, shown]

namespace Engine

variable {setup : Setup σ} {engine : Engine} {world : World σ}

theorem performAll_toggles (options : List DisplayOption) :
    engine.performAll setup world (options.map fun option => .toggle option.name) =
      ⟨.ok (), { engine with display := options.foldl DisplayOptions.toggle engine.display },
        world⟩ := by
  induction options generalizing engine with
  | nil => rfl
  | cons option options ih =>
      have houtcome : (Operation.toggle option.name).outcome setup engine world =
          ⟨.ok (), { engine with display := engine.display.toggle option }, world⟩ := by
        simp only [Operation.outcome, toggle_option, Outcome.done, Except.map]
      exact (performAll_of_ok houtcome).trans ih

theorem performAll_display {commands : List Command}
    (hok :
      (engine.performAll setup world (commands.filterMap Command.operation?)).result = .ok ()) :
    (engine.performAll setup world (commands.filterMap Command.operation?)).engine.display =
      engine.display.flipped (Command.toggles commands) := by
  induction commands generalizing engine world with
  | nil => rfl
  | cons command commands ih =>
      rw [← Command.shown_flipped]
      cases hoperation : command.operation? with
      | none =>
          rw [List.filterMap_cons_none hoperation] at hok ⊢
          have hsame : command.shown engine.display = engine.display := by
            cases command with
            | help => rfl
            | quit => rfl
            | _ => cases hoperation
          rw [hsame]
          exact ih hok
      | some operation =>
          have hkeeps := Command.keeps hoperation setup engine world
          rw [List.filterMap_cons_some hoperation] at hok ⊢
          cases hfatal : (operation.outcome setup engine world).fatal? with
          | some e =>
              rw [performAll_of_fatal hfatal] at hok
              cases hok
          | none =>
              rw [performAll_of_mendable hfatal] at hok ⊢
              rw [← hkeeps.display]
              exact ih hok

theorem selectStage_display (setup : Setup σ) (name : String) (engine : Engine)
    (world : World σ) : (engine.selectStage setup name world).engine.display = engine.display := by
  unfold selectStage
  split
  · unfold enterStage
    split <;> rfl
  · rfl

theorem script_display (script : Session.Script)
    (hok : (engine.performAll setup world script.operations).result = .ok ()) :
    (engine.performAll setup world script.operations).engine.display =
      engine.display.flipped (Command.toggles (Session.executed script.commands)) := by
  cases script with
  | unstaged => rfl
  | staged stage opening =>
      rw [Session.Script.operations] at hok ⊢
      cases hfatal : ((Operation.selectStage stage).outcome setup engine world).fatal? with
      | some e =>
          rw [performAll_of_fatal hfatal] at hok
          cases hok
      | none =>
          rw [performAll_of_mendable hfatal] at hok ⊢
          have hsame : ((Operation.selectStage stage).outcome setup engine world).engine.display =
              engine.display := by
            rw [Operation.outcome, Outcome.done_engine, selectStage_display]
          cases opening with
          | unopened =>
              rw [Session.Opening.operations, performAll, hsame]
              rfl
          | opened file commands =>
              rw [Session.Opening.operations_opened] at hok ⊢
              -- Opening the file is what a command could do as well.
              have hshown := @performAll_display _ setup _ _
                (.file file :: Session.executed commands) hok
              rw [← Command.shown_flipped, hsame] at hshown
              exact hshown

end Engine

namespace CommandLine

variable {programs : Programs σ} {invocation : Invocation} {stored settings : Settings}
  {repository : Repository} {color : Bool} {world begun : World σ} {replies : List Reply}
  {lines : List String}

/-- The session of a run that steps through tokens, over the lines that are read. -/
def sessionOf (programs : Programs σ) (invocation : Invocation) (settings : Settings)
    (repository : Repository) (color : Bool) (world : World σ) (lines : List String) : Session σ :=
  Session.run (settings.setup programs repository) color (invocation.value? .stage)
    (invocation.value? .file) (Engine.start settings.display) world lines

def scriptOf (programs : Programs σ) (invocation : Invocation) (settings : Settings)
    (repository : Repository) (world : World σ) (lines : List String) : Session.Script :=
  .ofLines (settings.setup programs repository) (invocation.value? .file)
    (Engine.start settings.display) world ((invocation.value? .stage).toList ++ lines)

/-! What a run that ends well has come to. -/

theorem begin_step (hstep : invocation.subcommand = .step)
    (hsettings : invocation.settings world.disk = .ok settings) :
    begin programs invocation color world =
      beginSession programs invocation settings color world := by
  simp only [begin, hsettings, hstep]

theorem beginSession_of_ok
    (hrepository : invocation.repository programs world = (.ok repository, begun)) :
    beginSession programs invocation settings color world =
      .stepping ⟨invocation.config, settings, settings.setup programs repository, color,
        Session.start (settings.setup programs repository) color (invocation.value? .stage)
          (invocation.value? .file) (Engine.start settings.display) begun⟩ := by
  simp only [beginSession, hrepository]

theorem review_step (hstep : invocation.subcommand = .step)
    (hsettings : invocation.settings world.disk = .ok settings)
    (hrepository : invocation.repository programs world = (.ok repository, begun)) :
    let setup := settings.setup programs repository
    let conversation := Session.talk setup color (invocation.value? .stage)
      (invocation.value? .file) (Engine.start settings.display) begun replies
    review programs invocation color world replies =
      if conversation.isBroken then
        ⟨conversation.session.output, none, conversation.session.world, true⟩
      else
        Stepping.finish ⟨invocation.config, settings, setup, color, conversation.session⟩ := by
  rw [review, begin_step hstep hsettings, beginSession_of_ok hrepository]
  rfl

theorem settings_of_review (hstep : invocation.subcommand = .step)
    (hok : (review programs invocation color world replies).error = none) :
    ∃ settings repository begun, invocation.settings world.disk = .ok settings ∧
      invocation.repository programs world = (.ok repository, begun) := by
  cases hsettings : invocation.settings world.disk with
  | error e =>
      simp only [review, begin, hsettings] at hok
      cases hok
  | ok settings =>
      obtain ⟨result, begun, hrepository⟩ : ∃ result begun,
          invocation.repository programs world = (result, begun) := ⟨_, _, rfl⟩
      cases result with
      | error e =>
          rw [review, begin_step hstep hsettings, beginSession, hrepository] at hok
          cases hok
      | ok repository => exact ⟨settings, repository, begun, rfl, hrepository⟩

theorem load_of_settings (hsettings : invocation.settings world.disk = .ok settings) :
    ∃ stored, Settings.load invocation.config world.disk = .ok stored ∧
      settings.display = stored.display := by
  unfold Invocation.settings at hsettings
  split at hsettings
  · cases hsettings
  · rename_i stored hload
    refine ⟨stored, hload, ?_⟩
    dsimp only at hsettings
    split at hsettings
    · cases hsettings
      rfl
    · split at hsettings
      · cases hsettings
        rfl
      · cases hsettings

theorem settings_of_load {disk : Disk} {line : String} {words : List String}
    (hload : Settings.load invocation.config disk = .ok stored)
    (hcommand : invocation.value? .command = some line) (hwords : Words.split line = .ok words) :
    invocation.settings disk = .ok { stored with
      casesDir := (invocation.value? .casesDir).getD stored.casesDir
      fixtureRoot := (invocation.value? .fixtureRoot).getD stored.fixtureRoot
      command := words } := by
  simp only [Invocation.settings, hload, hcommand, hwords]

/-- A session that ends well has stored its display options if they are new. -/
theorem Stepping.finish_ok {stepping : Stepping σ} (hok : stepping.finish.error = none) :
    stepping.session.error = none ∧
      if stepping.session.engine.display = stepping.settings.display then
        stepping.finish.disk = stepping.session.world.disk
      else
        Settings.storeDisplay stepping.config stepping.session.engine.display
          stepping.session.world.disk = (.ok (), stepping.finish.disk) := by
  unfold finish at hok ⊢
  dsimp only at hok ⊢
  split at hok
  · cases hok
  · rename_i herror
    refine ⟨herror, ?_⟩
    by_cases hsame : stepping.session.engine.display = stepping.settings.display
    · simp only [if_pos hsame, Finished.disk]
    · simp only [if_neg hsame] at hok ⊢
      split at hok
      · rename_i hstore
        rw [hstore]
        rfl
      · cases hok

theorem Stepping.finish_of_stored {stepping : Stepping σ} {saved : Disk}
    (herror : stepping.session.error = none)
    (hnew : stepping.session.engine.display ≠ stepping.settings.display)
    (hstore : Settings.storeDisplay stepping.config stepping.session.engine.display
      stepping.session.world.disk = (.ok (), saved)) :
    stepping.finish.error = none ∧ stepping.finish.terminalFailed = false := by
  simp only [finish, herror, if_neg hnew, hstore, and_self]

theorem sessionOf_follows (programs : Programs σ) (invocation : Invocation) (settings : Settings)
    (repository : Repository) (color : Bool) (world : World σ) (lines : List String) :
    let script := scriptOf programs invocation settings repository world lines
    (sessionOf programs invocation settings repository color world lines).Follows
      ((Engine.start settings.display).performAll (settings.setup programs repository) world
        script.operations) (script.awaits (invocation.value? .file)) :=
  Session.run_follows (settings.setup programs repository) color (invocation.value? .stage)
    (invocation.value? .file) (Engine.start settings.display) world lines

/-- The run ends as its session does, unless the terminal failed before that. -/
theorem review_of_session (hstep : invocation.subcommand = .step)
    (hsettings : invocation.settings world.disk = .ok settings)
    (hrepository : invocation.repository programs world = (.ok repository, begun)) :
    let session := sessionOf programs invocation settings repository color begun
      (Reply.heard replies)
    let breaks := session.awaiting ≠ .nothing ∧ replies.any Reply.fails
    (breaks → (review programs invocation color world replies).terminalFailed) ∧
      (¬ breaks → review programs invocation color world replies = Stepping.finish
        ⟨invocation.config, settings, settings.setup programs repository, color, session⟩) := by
  have hreview := @review_step _ programs _ _ _ color _ _ replies hstep hsettings hrepository
  have hcomes := Session.converse_comesTo (settings.setup programs repository) color
    (Session.start (settings.setup programs repository) color (invocation.value? .stage)
      (invocation.value? .file) (Engine.start settings.display) begun) 0 replies
  intro session breaks
  refine ⟨fun hbreaks => ?_, fun hwhole => ?_⟩
  · exact congrArg Finished.terminalFailed
      (hreview.trans (if_pos (hcomes.isBroken.mpr hbreaks)))
  · have hunbroken := mt hcomes.isBroken.mp hwhole
    have hended := hcomes.whole (Bool.eq_false_iff.mpr hunbroken)
    exact (hreview.trans (if_neg hunbroken)).trans
      (congrArg (fun session => Stepping.finish ⟨_, _, _, _, session⟩) hended)

/-- How a session changes the world: the repository is detected, the token program runs, a
fixture is saved. -/
inductive Touches (programs : Programs σ) (settings : Settings) : World σ → World σ → Prop
  | detect (world : World σ) :
      Touches programs settings world (Repository.detect programs world).2
  | tokens {program : String} {arguments : List String} (stage : Stage) (text file : String)
      (world : World σ) (hcommand : settings.command = program :: arguments) :
      Touches programs settings world
        (programs program (arguments ++ [stage.verb, file]) text world).2
  | save (key : FixtureKey) (records : List (Option Span)) (world : World σ) :
      Touches programs settings world { world with
        disk := ((FixtureStore.mk settings.fixtureRoot).save key records world.disk).2 }

theorem Touches.nodes {stage : Stage} {text file : String} {first : World σ}
    (h : Relation.ReflTransGen (Touches programs settings) first world) :
    Relation.ReflTransGen (Touches programs settings) first
      (settings.source.nodesWith programs stage text file world).2 := by
  unfold CommandSource.nodesWith
  cases hcommand : settings.source.command with
  | nil => exact h
  | cons program arguments =>
      have hrun := h.tail (.tokens stage text file world hcommand)
      dsimp only
      generalize programs program (arguments ++ [stage.verb, file]) text world = answer at hrun ⊢
      obtain ⟨_ | completed, later⟩ := answer
      · exact hrun
      · dsimp only
        split <;> exact hrun

theorem Touches.staysWithin (programs : Programs σ) (settings : Settings)
    (repository : Repository) (first : World σ) :
    (settings.setup programs repository).StaysWithin
      (Relation.ReflTransGen (Touches programs settings) first) where
  lists := fun _ _ h => h
  loads := Setup.loadsWithin_of_source (fun _ _ _ h => h) fun _ _ _ _ => Touches.nodes
  saves := fun key records world h => h.tail (.save key records world)

theorem sessionOf_touches (programs : Programs σ) (invocation : Invocation) (settings : Settings)
    (repository : Repository) (color : Bool) (world : World σ) (lines : List String) :
    Relation.ReflTransGen (Touches programs settings) world
      (sessionOf programs invocation settings repository color world lines).world := by
  rw [(sessionOf_follows programs invocation settings repository color world lines).world]
  exact Engine.performAll_within (Touches.staysWithin programs settings repository world) .refl

theorem repository_touches (settings : Settings)
    (hrepository : invocation.repository programs world = (.ok repository, begun)) :
    Relation.ReflTransGen (Touches programs settings) world begun := by
  unfold Invocation.repository at hrepository
  split at hrepository
  · cases hrepository
    exact .refl
  · have hdetect : Touches programs settings world (Repository.detect programs world).2 :=
      .detect world
    split at hrepository
    · cases hrepository
    · rename_i hdetected
      cases hrepository
      rw [hdetected] at hdetect
      exact .single hdetect

theorem sessionOf_display
    (herror : (sessionOf programs invocation settings repository color world lines).error =
      none) :
    (sessionOf programs invocation settings repository color world lines).engine.display =
      settings.display.flipped (Command.toggles (Session.executed
        (scriptOf programs invocation settings repository world lines).commands)) := by
  have hfollows := sessionOf_follows programs invocation settings repository color world lines
  have hresult := Engine.performAll_result (settings.setup programs repository)
    (Engine.start settings.display) world
    (scriptOf programs invocation settings repository world lines).operations
  have hmendable := hfollows.error.symm.trans herror
  rw [hmendable] at hresult
  exact (congrArg Engine.display hfollows.engine).trans (Engine.script_display _ hresult)

/-- A run that steps through tokens and ends well, on any host. Nothing but the detection of the
repository, the token program and the saves of fixtures changes the disk before it stores what
was toggled. If they leave the settings file alone, it then holds what it held (the defaults, if
it was not there), with each display option flipped as often as it was toggled, whatever the
command line set in place of the rest; and it is not written at all if both were flipped back. -/
theorem step_stores_toggles (hstep : invocation.subcommand = .step)
    (hok : (review programs invocation color world replies).error = none)
    (hterminal : (review programs invocation color world replies).terminalFailed = false) :
    let finished := review programs invocation color world replies
    ∃ stored settings repository begun,
      Settings.load invocation.config world.disk = .ok stored ∧
      invocation.settings world.disk = .ok settings ∧
      invocation.repository programs world = (.ok repository, begun) ∧
      let lines := Reply.heard replies
      let session := sessionOf programs invocation settings repository color begun lines
      let toggled := Command.toggles (Session.executed
        (scriptOf programs invocation settings repository begun lines).commands)
      Relation.ReflTransGen (Touches programs settings) world session.world ∧
      (session.world.disk.readBytes invocation.config =
          world.disk.readBytes invocation.config →
        Settings.load invocation.config finished.disk =
          .ok { stored with display :=
            ⟨not^[toggled .json] stored.display.json,
              not^[toggled .showToken] stored.display.showToken⟩ } ∧
        (Even (toggled .json) → Even (toggled .showToken) →
          finished.disk.readBytes invocation.config =
            world.disk.readBytes invocation.config)) := by
  intro finished
  obtain ⟨settings, repository, begun, hsettings, hrepository⟩ := settings_of_review hstep hok
  obtain ⟨stored, hstored, hdisplay⟩ := load_of_settings hsettings
  refine ⟨stored, settings, repository, begun, hstored, hsettings, hrepository, ?_⟩
  intro lines session toggled
  have htouches := sessionOf_touches programs invocation settings repository color begun lines
  refine ⟨(repository_touches settings hrepository).trans htouches, fun hkept => ?_⟩
  have hrun : finished = Stepping.finish ⟨invocation.config, settings,
      settings.setup programs repository, color, session⟩ := by
    obtain ⟨hbroken, hwhole⟩ :=
      @review_of_session _ programs _ _ _ color _ _ replies hstep hsettings hrepository
    exact hwhole fun hbreaks => Bool.eq_false_iff.mp hterminal (hbroken hbreaks)
  have hload : Settings.load invocation.config session.world.disk = .ok stored :=
    (Settings.load_of_readBytes hkept).trans hstored
  change finished.error = none at hok
  rw [hrun] at hok ⊢
  obtain ⟨herror, hdisk⟩ := Stepping.finish_ok hok
  have hshown : session.engine.display = stored.display.flipped toggled := by
    rw [← hdisplay]
    exact sessionOf_display herror
  dsimp only at hdisk
  rw [hshown, hdisplay] at hdisk
  split at hdisk
  · rename_i hsame
    rw [hdisk]
    have hstays := congrArg (fun display => { stored with display := display }) hsame.symm
    exact ⟨hload.trans (congrArg Except.ok hstays), fun _ _ => hkept⟩
  · rename_i hdiffers
    refine ⟨Settings.load_of_storeDisplay hload hdisk, fun hjson htoken => ?_⟩
    exact absurd (DisplayOptions.flipped_eq_self.mpr ⟨hjson, htoken⟩) hdiffers

/-- A host with git and a program that finds no tokens; neither changes anything. -/
def hosting : Programs Unit := fun program arguments _ world =>
  let answer :=
    if program != "git" then "[]" else if arguments.head? == some "config" then "u" else "main\n"
  (some ⟨true, "exit status: 0", answer.toUTF8, .empty⟩, world)

/-- Everything but the branch and the way tokens are shown is given on the command line. -/
def overlaid : Invocation :=
  ⟨.step, [(.config, "/etc/locfix.json"), (.casesDir, "cases"), (.fixtureRoot, "../saved"),
    (.command, "dump --json"), (.stage, "lexer"), (.file, ""), (.repoUrl, "u")]⟩

def configured : Settings := { Settings.default with fixtureRoot := "kept" }

def overlay : Settings := ⟨"cases", "pug", "../saved", ["dump", "--json"], .off⟩

def configuredHome : World Unit :=
  ⟨{ entries := [(["etc"], .directory), (["etc", "locfix.json"], .file configured.text.toUTF8),
      (["home"], .directory), (["home", "work"], .directory),
      (["home", "work", "cases"], .directory),
      (["home", "work", "cases", "a.pug"], .file "p".toUTF8)]
     workingDirectory := ["home", "work"] }, ()⟩

/-- The terminal fails after the end, when nothing is asked any more. -/
def togglingReplies : List Reply :=
  [.line "j", .line "", .line "t", .line "x", .line "t", .line "q", .line "j", .inputFails]

theorem config_overlaid : overlaid.config = "/etc/locfix.json" := by decide

theorem load_configuredHome :
    Settings.load overlaid.config configuredHome.disk = .ok configured := by
  have hplace : configuredHome.disk.locate "/etc/locfix.json" = .ok ["etc", "locfix.json"] := by
    decide +kernel
  rw [config_overlaid]
  exact Settings.load_of_text (Disk.readBytes_of_file hplace rfl (by decide +kernel))

theorem settings_overlaid : overlaid.settings configuredHome.disk = .ok overlay := by
  have hcases : overlaid.value? .casesDir = some "cases" := by decide
  have hroot : overlaid.value? .fixtureRoot = some "../saved" := by decide
  have hcommand : overlaid.value? .command = some "dump --json" := by decide
  have hwords : Words.split "dump --json" = .ok ["dump", "--json"] := by decide +kernel
  rw [settings_of_load load_configuredHome hcommand hwords, hcases, hroot]
  rfl

theorem repository_overlaid :
    overlaid.repository hosting configuredHome = (.ok ⟨"u", "main"⟩, configuredHome) := by
  have hurl : overlaid.value? .repoUrl = some "u" := by decide
  have hbranch : overlaid.value? .branch = none := by decide
  have hquiet : ∀ command, (Repository.ask hosting command configuredHome).2 = configuredHome := by
    intro command
    simp only [Repository.ask, hosting]
    split <;> rfl
  have hremote : Repository.ask hosting ["config", "--get", "remote.origin.url"] configuredHome =
      (.ok "u", configuredHome) := Prod.ext (by decide +kernel) (hquiet _)
  have hhead : Repository.ask hosting ["rev-parse", "--abbrev-ref", "HEAD"] configuredHome =
      (.ok "main", configuredHome) := Prod.ext (by decide +kernel) (hquiet _)
  have hknown : "u".isEmpty = false := by decide
  have hdetect : Repository.detect hosting configuredHome =
      (.ok ⟨"u", "main"⟩, configuredHome) := by
    simp only [Repository.detect, hremote, hknown, hhead, Bool.false_eq_true, if_false]
  simp only [Invocation.repository, hurl, hbranch, hdetect, Option.getD_some, Option.getD_none]

def listing : Engine :=
  { Engine.start .off with stage := some .lexer, files := ["a.pug"] }

theorem loads_configuredHome : ∃ file,
    (overlay.setup hosting ⟨"u", "main"⟩).loadFile .lexer "a.pug" configuredHome =
      (.ok file, configuredHome) := by
  have hloads : ((overlay.setup hosting ⟨"u", "main"⟩).loadFile .lexer "a.pug"
      configuredHome).1.isOk = true := by decide +kernel
  obtain ⟨file, hfile⟩ := ok_of_isOk hloads
  have hquiet : (overlay.setup hosting ⟨"u", "main"⟩).LoadsWithin (· = configuredHome) := by
    refine Setup.loadsWithin_of_source (fun _ _ _ hsame => hsame) ?_
    rintro stage text name world rfl
    change (overlay.source.nodesWith hosting stage text name configuredHome).2 = configuredHome
    simp only [CommandSource.nodesWith, Settings.source, overlay, hosting]
    split <;> rfl
  exact ⟨file, Prod.ext hfile (hquiet listing 0 configuredHome rfl)⟩

theorem saves_configuredHome : ∃ saved,
    Settings.storeDisplay overlaid.config ⟨true, false⟩ configuredHome.disk = (.ok (), saved) := by
  have hsaves : (Settings.save { configured with display := ⟨true, false⟩ } "/etc/locfix.json"
      configuredHome.disk).1 = .ok () := by decide +kernel
  rw [Settings.storeDisplay_of_ne load_configuredHome (by decide), config_overlaid]
  exact ⟨_, Prod.ext hsaves rfl⟩

theorem fileNamed_listing :
    listing.fileNamed? (overlay.setup hosting ⟨"u", "main"⟩) (Text.trim "") = some 0 := by decide

theorem selectStage_overlaid :
    (Engine.start .off).selectStage (overlay.setup hosting ⟨"u", "main"⟩) "lexer" configuredHome =
      ⟨.ok 1, listing, configuredHome⟩ := by
  have hkind : Stage.ofName? "lexer" = some .lexer := rfl
  have hlist : configuredHome.disk.list overlay.source.casesDir =
      .ok [("a.pug", .file "p".toUTF8)] := rfl
  have hcase : overlay.source.isCase "a.pug" = true := by decide
  have hcases : overlay.source.caseFiles configuredHome.disk = .ok ["a.pug"] := by
    simp only [CommandSource.caseFiles, hlist, List.filterMap_cons, hcase, if_true,
      List.filterMap_nil, List.mergeSort_singleton]
  have hworld : (overlay.setup hosting ⟨"u", "main"⟩).source.caseFiles .lexer configuredHome =
      (.ok ["a.pug"], configuredHome) := by
    rw [← hcases]
    rfl
  exact Engine.selectStage_of_listed hkind hworld

theorem scriptOf_overlaid :
    scriptOf hosting overlaid overlay ⟨"u", "main"⟩ configuredHome (Reply.heard togglingReplies) =
      .staged "lexer" (.opened "" [.toggle .json, .toggle .showToken, .toggle .showToken, .quit,
        .toggle .json]) := by
  have hstage : overlaid.value? .stage = some "lexer" := by decide
  have hfile : overlaid.value? .file = some "" := by decide
  have hkind : Stage.ofName? "lexer" = some .lexer := rfl
  have hcommands : (Reply.heard togglingReplies).filterMap Command.ofLine? = [.toggle .json,
      .toggle .showToken, .toggle .showToken, .quit, .toggle .json] := by decide +kernel
  have hdisplay : overlay.display = .off := rfl
  rw [scriptOf, hstage, hfile, hdisplay, Option.toList_some, List.singleton_append,
    Session.Script.ofLines_of_named hkind, selectStage_overlaid, Option.toList_some,
    List.singleton_append, Session.Opening.ofLines_of_named fileNamed_listing, hcommands]

theorem sessionOf_overlaid :
    let session := sessionOf hosting overlaid overlay ⟨"u", "main"⟩ false configuredHome
      (Reply.heard togglingReplies)
    session.error = none ∧ session.awaiting = .nothing ∧
      session.engine.display = ⟨true, false⟩ ∧ session.world = configuredHome := by
  obtain ⟨file, hload⟩ := loads_configuredHome
  let opened : Engine := (listing.place 0 file).rest
  have hindex : (overlay.setup hosting ⟨"u", "main"⟩).loadIndex listing 0 configuredHome =
      (.ok file, configuredHome) := (Setup.loadIndex_of_name rfl rfl).trans hload
  have hperformed : (Engine.start overlay.display).performAll (overlay.setup hosting ⟨"u", "main"⟩)
      configuredHome (scriptOf hosting overlaid overlay ⟨"u", "main"⟩ configuredHome
        (Reply.heard togglingReplies)).operations =
      ⟨.ok (), { opened with display := ⟨true, false⟩ }, configuredHome⟩ := by
    rw [scriptOf_overlaid]
    refine (Engine.performAll_of_entered selectStage_overlaid).trans ?_
    refine (Engine.performAll_of_selected rfl rfl fileNamed_listing hindex).trans ?_
    exact Engine.performAll_toggles [.json, .showToken, .showToken]
  have hfollows := sessionOf_follows hosting overlaid overlay ⟨"u", "main"⟩ false configuredHome
    (Reply.heard togglingReplies)
  dsimp only at hfollows
  rw [hperformed, scriptOf_overlaid] at hfollows
  exact ⟨hfollows.error, hfollows.awaiting, congrArg Engine.display hfollows.engine, hfollows.world⟩

/-- The settings of the command line serve the run and are not stored; the token display,
toggled twice, is as before. The settings file lies outside the working directory. -/
theorem toggles_stored_without_overlay :
    let finished := review hosting overlaid false configuredHome togglingReplies
    finished.error = none ∧ finished.terminalFailed = false ∧
      Settings.load "/etc/locfix.json" finished.disk =
        .ok { configured with display := ⟨true, false⟩ } := by
  intro finished
  obtain ⟨herror, hawaiting, hdisplay, hworld⟩ := sessionOf_overlaid
  obtain ⟨saved, hsaves⟩ := saves_configuredHome
  have hends : finished.error = none ∧ finished.terminalFailed = false := by
    have hrun := (@review_of_session _ hosting overlaid overlay ⟨"u", "main"⟩ false configuredHome
      configuredHome togglingReplies rfl settings_overlaid repository_overlaid).2
      fun hbreaks => hbreaks.1 hawaiting
    have hnew : (⟨true, false⟩ : DisplayOptions) ≠ overlay.display := by decide
    change finished = _ at hrun
    rw [hrun]
    refine @Stepping.finish_of_stored _ _ saved herror (by rwa [hdisplay]) ?_
    rw [hdisplay, hworld]
    exact hsaves
  obtain ⟨stored, settings, repository, begun, hstored, hsettings, hrepository, _, hkept⟩ :=
    step_stores_toggles rfl hends.1 hends.2
  obtain rfl : configured = stored := Except.ok.inj (load_configuredHome.symm.trans hstored)
  obtain rfl : overlay = settings := Except.ok.inj (settings_overlaid.symm.trans hsettings)
  cases repository_overlaid.symm.trans hrepository
  rw [hworld, scriptOf_overlaid, config_overlaid] at hkept
  exact ⟨hends.1, hends.2, (hkept rfl).1⟩

end CommandLine

end SpanReview
