import SpanReview.Proofs.Engine.Ahead
import SpanReview.Proofs.Fixture.Store
import SpanReview.Source.Memory

namespace SpanReview

theorem Setup.loadFile_of_parts {setup : Setup σ} {stage : Stage} {name text : String}
    {nodes : List Node} {fixture : Option Fixture} {world read parsed : World σ}
    (hread : setup.source.readCase stage name world = (.ok text, read))
    (hnodes : setup.source.nodes stage text name read = (.ok nodes, parsed))
    (hfixture : setup.store.load (setup.keyFor stage name) parsed.disk = .ok fixture) :
    setup.loadFile stage name world =
      (.ok ⟨setup.keyFor stage name, LineTable.ofText text, nodes, fixture⟩, parsed) := by
  simp only [loadFile, hread, hnodes, hfixture]

namespace Engine

/-! A run stops at the first node ahead of it that is not as recorded. -/

variable {setup : Setup σ} {engine : Engine} {world : World σ} {site : Site}

theorem StandsAt.comparison (h : engine.StandsAt site) :
    ∃ comparison, engine.comparison? = some comparison ∧
      (comparison.isMatch = false ↔ site.Differs) := by
  obtain ⟨node, hnode⟩ : ∃ node, site.file.nodes[site.position]? = some node :=
    ⟨_, List.getElem?_eq_getElem h.inFile⟩
  have hcompare := LoadedFile.compareAt_eq_some_iff.mpr ⟨node, hnode, rfl⟩
  rw [← h.position] at hcompare
  refine ⟨_, comparison?_eq_some_iff.mpr ⟨h.notExhausted, site.file, h.loaded, hcompare⟩, ?_⟩
  simp [Comparison.isMatch, Site.Differs, hnode, h.position]

/-! One round of the loop. -/

theorem recompute_stop {comparison : Comparison} (hrun : engine.runMode = true)
    (hsome : engine.comparison? = some comparison) (hdiffers : comparison.isMatch = false) :
    engine.recompute setup world =
      ⟨.ok (), { engine with
        current := some comparison, runPause := some engine.position, runMode := false },
        world⟩ := by
  rw [recompute]
  split
  · rename_i hnone
    rw [hsome] at hnone
    contradiction
  · rename_i other hother
    cases hsome.symm.trans hother
    simp [hdiffers, hrun]

theorem recompute_skip {comparison : Comparison} (hrun : engine.runMode = true)
    (hsome : engine.comparison? = some comparison) (hmatch : comparison.isMatch)
    (hunpaused : engine.runPause ≠ some engine.position) :
    engine.recompute setup world =
      ({ engine with runPause := none }.runAdvance setup world).andThen fun moved last world =>
        if moved then last.recompute setup world
        else ⟨.ok (), { last with runMode := false }, world⟩ := by
  rw [recompute]
  split
  · rename_i hnone
    rw [hsome] at hnone
    contradiction
  · rename_i other hother
    cases hsome.symm.trans hother
    rw [if_pos (by simp [hmatch, hrun, hunpaused])]
    dsimp only [Outcome.andThen]
    split <;> rename_i hresult <;> simp [hresult]

/-! The whole loop. -/

theorem runAdvance_exhausts (h : engine.Ahead setup world []) :
    (engine.runAdvance setup world).result = .ok false ∧
      (engine.runAdvance setup world).engine.isExhausted := by
  rw [runAdvance_of_ok (advance_exhausts h).1]
  exact advance_exhausts h

theorem runAdvance_arrives {rest : List Site} (h : engine.Ahead setup world (site :: rest))
    (hexhausted : engine.isExhausted = false) :
    Arrives setup engine (engine.runAdvance setup world) site rest := by
  have harrives := advance_arrives h hexhausted
  rw [runAdvance_of_ok harrives.result]
  exact harrives

structure StoppedAt (setup : Setup σ) (engine : Engine) (world : World σ) (stop : Site)
    (rest : List Site) : Prop where
  stands : engine.StandsAt stop
  ahead : engine.Ahead setup world rest
  differs : engine.current.map Comparison.isMatch = some false
  pause : engine.runPause = some engine.position

/-- How a search through sites ends: at the first of them to differ, or past all of them. -/
def Searched (setup : Setup σ) (engine : Engine) (world : World σ) (sites : List Site) : Prop :=
  (∃ stop rest, Site.FirstDiffers sites stop rest ∧ engine.StoppedAt setup world stop rest) ∨
    ((∀ site ∈ sites, ¬ site.Differs) ∧ engine.isExhausted)

theorem Searched.cons {sites : List Site} (hsite : ¬ site.Differs)
    (h : engine.Searched setup world sites) : engine.Searched setup world (site :: sites) := by
  rcases h with ⟨stop, rest, hfirst, hstopped⟩ | ⟨hnone, hexhausted⟩
  · exact .inl ⟨stop, rest, hfirst.cons hsite, hstopped⟩
  · exact .inr ⟨List.forall_mem_cons.mpr ⟨hsite, hnone⟩, hexhausted⟩

theorem recompute_stopped {rest : List Site} (hstands : engine.StandsAt site)
    (hahead : engine.Ahead setup world rest) (hrun : engine.runMode = true)
    (hsite : site.Differs) :
    (engine.recompute setup world).result = .ok () ∧
      (engine.recompute setup world).engine.Searched setup
        (engine.recompute setup world).world (site :: rest) := by
  obtain ⟨comparison, hsome, hdiffers⟩ := hstands.comparison
  have hfalse : comparison.isMatch = false := hdiffers.mpr hsite
  rw [recompute_stop hrun hsome hfalse]
  have hstands' : StandsAt { engine with
      current := some comparison, runPause := some engine.position, runMode := false } site :=
    ⟨hstands.loaded, hstands.fileIndex, hstands.position, hstands.inFile, hstands.notExhausted⟩
  exact ⟨rfl, .inl ⟨site, rest, .head hsite, hstands', hahead, congrArg some hfalse, rfl⟩⟩

theorem recompute_searches {rest : List Site} (hstands : engine.StandsAt site)
    (hahead : engine.Ahead setup world rest) (hrun : engine.runMode = true)
    (hunpaused : engine.runPause ≠ some engine.position) :
    (engine.recompute setup world).result = .ok () ∧
      (engine.recompute setup world).engine.Searched setup
        (engine.recompute setup world).world (site :: rest) := by
  -- A round of the loop either ends the search or passes over one site and comes to the
  -- next with its pause cleared, so the induction is on the sites ahead.
  induction rest generalizing engine world site with
  | nil =>
      by_cases hsite : site.Differs
      · exact recompute_stopped hstands hahead hrun hsite
      · obtain ⟨comparison, hsome, hdiffers⟩ := hstands.comparison
        have hmatch : comparison.isMatch := by
          rwa [← hdiffers, Bool.not_eq_false] at hsite
        have hresumed : Ahead setup { engine with runPause := none } world [] := hahead
        obtain ⟨hresult, hexhausted⟩ := runAdvance_exhausts hresumed
        rw [recompute_skip hrun hsome hmatch hunpaused, Outcome.andThen, hresult]
        exact ⟨rfl, .inr ⟨by simpa using hsite, hexhausted⟩⟩
  | cons next rest ih =>
      by_cases hsite : site.Differs
      · exact recompute_stopped hstands hahead hrun hsite
      · obtain ⟨comparison, hsome, hdiffers⟩ := hstands.comparison
        have hmatch : comparison.isMatch := by
          rwa [← hdiffers, Bool.not_eq_false] at hsite
        have hresumed : Ahead setup { engine with runPause := none } world (next :: rest) := hahead
        have harrives := runAdvance_arrives hresumed hstands.notExhausted
        have hrun' := harrives.runMode.trans hrun
        obtain ⟨hok, hsearched⟩ :=
          ih harrives.stands harrives.ahead hrun' (harrives.unpaused (.inl rfl))
        rw [recompute_skip hrun hsome hmatch hunpaused, Outcome.andThen, harrives.result]
        exact ⟨hok, hsearched.cons hsite⟩

theorem reportRun_of_ok {before : Nat × Nat} {outcome : Outcome σ Unit}
    (h : outcome.result = .ok ()) :
    reportRun before outcome =
      ⟨.ok (if outcome.engine.isExhausted then .exhausted
        else if (outcome.engine.fileIndex, outcome.engine.position) = before then .stayed
        else .moved), outcome.engine, outcome.world⟩ := by
  simp only [reportRun, Outcome.andThen, h]
  split
  · rfl
  · split <;> rfl

/-! A run, from where it starts to where it ends. -/

/-- The nodes that a run is to search: from the current one, or after it if the engine is
parked there. -/
def runSites (engine : Engine) (file : LoadedFile) (later : List LoadedFile) : List Site :=
  Site.ofFile engine.fileIndex file
      (if engine.isParked then engine.position + 1 else engine.position) ++
    Site.ofFiles (engine.fileIndex + 1) later

theorem Coherent.pause_of_parked (h : engine.Coherent) (hexhausted : engine.isExhausted = false)
    {file : LoadedFile} (hloaded : engine.loaded = some file) (hparked : engine.isParked) :
    engine.runPause = none ∨ engine.runPause = some engine.position := by
  rcases Bool.or_eq_true_iff.mp hparked with hnone | hpause
  · left
    have hsome : ¬ engine.current.isSome := by
      simpa using hnone
    rw [h.isSome_iff, hloaded, hexhausted] at hsome
    have hposition := h.position_le
    cases hpause : engine.runPause with
    | none => rfl
    | some position =>
        have hlt := h.pause_lt position hpause
        simp only [Option.isSome_some, true_and] at hsome
        omega
  · exact .inr (eq_of_beq hpause)

theorem Coherent.stands_of_unparked (h : engine.Coherent)
    (hexhausted : engine.isExhausted = false) {file : LoadedFile}
    (hloaded : engine.loaded = some file) (hunparked : engine.isParked = false) :
    engine.StandsAt ⟨engine.fileIndex, file, engine.position⟩ ∧
      engine.runPause ≠ some engine.position := by
  obtain ⟨hnone, hpause⟩ := Bool.or_eq_false_iff.mp hunparked
  have hsome : engine.current.isSome := by
    simpa using hnone
  have hlt := (h.isSome_iff.mp hsome).2.2
  rw [nodeCount_of_loaded hloaded] at hlt
  exact ⟨⟨hloaded, rfl, rfl, hlt, hexhausted⟩, by simpa using hpause⟩

theorem run_searches {file : LoadedFile} {later : List LoadedFile} (h : engine.Coherent)
    (hexhausted : engine.isExhausted = false) (hloaded : engine.loaded = some file)
    (hlater : engine.LoadsLater setup world later) :
    (engine.run setup world).engine.Searched setup (engine.run setup world).world
        (engine.runSites file later) ∧
      (engine.run setup world).result =
        .ok (if (engine.run setup world).engine.isExhausted then .exhausted
          else if ((engine.run setup world).engine.fileIndex,
              (engine.run setup world).engine.position) =
            (engine.fileIndex, engine.position) then .stayed
          else .moved) := by
  cases hparked : engine.isParked with
  | true =>
      -- The current node is not looked at: the first advance is made before comparing.
      have hahead : Ahead setup { engine with runMode := true } world
          (engine.runSites file later) := by
        refine ⟨file, later, hloaded, hlater, ?_⟩
        rw [runSites, if_pos hparked]
      rw [run_parked hexhausted hloaded hparked]
      cases hsites : engine.runSites file later with
      | nil =>
          rw [hsites] at hahead
          obtain ⟨hresult, hlast⟩ := runAdvance_exhausts hahead
          simp only [Outcome.andThen, hresult, Bool.false_eq_true, if_false]
          exact ⟨.inr ⟨by simp, hlast⟩, by rw [if_pos hlast]⟩
      | cons site rest =>
          rw [hsites] at hahead
          have hpause := h.pause_of_parked hexhausted hloaded hparked
          have harrives := runAdvance_arrives hahead hexhausted
          obtain ⟨hok, hsearched⟩ := recompute_searches harrives.stands harrives.ahead
            harrives.runMode (harrives.unpaused hpause)
          simp only [Outcome.andThen, harrives.result, if_true]
          rw [reportRun_of_ok hok]
          exact ⟨hsearched, rfl⟩
  | false =>
      obtain ⟨hstands, hunpaused⟩ := h.stands_of_unparked hexhausted hloaded hparked
      have hrunning : StandsAt { engine with runMode := true }
          ⟨engine.fileIndex, file, engine.position⟩ :=
        ⟨hloaded, rfl, rfl, hstands.inFile, hexhausted⟩
      have hsites : engine.runSites file later =
          ⟨engine.fileIndex, file, engine.position⟩ ::
            (Site.ofFile engine.fileIndex file (engine.position + 1) ++
              Site.ofFiles (engine.fileIndex + 1) later) := by
        rw [runSites, if_neg (Bool.eq_false_iff.mp hparked), Site.ofFile_of_lt hstands.inFile,
          List.cons_append]
      obtain ⟨hok, hsearched⟩ :=
        recompute_searches hrunning ⟨file, later, hloaded, hlater, rfl⟩ rfl hunpaused
      rw [run_unparked hexhausted hloaded hparked, reportRun_of_ok hok, hsites]
      exact ⟨hsearched, rfl⟩

/-- In the order of the list of case files, a run ends on the first node it is to search
that differs from what is recorded for it, and past all of them if none does. -/
theorem run_finds_first_mismatch {file : LoadedFile} {later : List LoadedFile}
    (hreach : engine.Reachable setup) (hexhausted : engine.isExhausted = false)
    (hloaded : engine.loaded = some file) (hlater : engine.LoadsLater setup world later) :
    (∃ stop rest, Site.FirstDiffers (engine.runSites file later) stop rest ∧
        (engine.run setup world).result =
          .ok (if (stop.index, stop.position) = (engine.fileIndex, engine.position) then .stayed
            else .moved) ∧
        (engine.run setup world).engine.StandsAt stop ∧
        (engine.run setup world).engine.current.map Comparison.isMatch = some false ∧
        (engine.run setup world).engine.runPause = some stop.position) ∨
      ((∀ site ∈ engine.runSites file later, ¬ site.Differs) ∧
        (engine.run setup world).result = .ok .exhausted ∧
        (engine.run setup world).engine.isExhausted) := by
  obtain ⟨hsearched, hresult⟩ := run_searches hreach.coherent hexhausted hloaded hlater
  rcases hsearched with ⟨stop, rest, hfirst, hstopped⟩ | ⟨hnone, hlast⟩
  · left
    have hstands := hstopped.stands
    rw [hstands.notExhausted, if_neg Bool.false_ne_true, hstands.fileIndex, hstands.position]
      at hresult
    exact ⟨stop, rest, hfirst, hresult, hstands, hstopped.differs,
      hstopped.pause.trans (congrArg some hstands.position)⟩
  · right
    rw [if_pos hlast] at hresult
    exact ⟨hnone, hresult, hlast⟩

/-- The node of the first case file is as recorded, the second file has no nodes, and
nothing is recorded for the third. -/
def firstRecorded : Setup Unit where
  source := .ofEntries
    [⟨"a.pug", some "p", .array [.object [("type", .string "text")]], .null, none⟩,
      ⟨"b.pug", some "", .array [], .null, none⟩,
      ⟨"c.pug", some "i", .array [.object [("type", .string "text")]], .null, none⟩] []
  store := ⟨"save"⟩
  repository := ⟨"u", "b"⟩
  caseExtension := "pug"

def recordedText : String :=
  "[\"u\",\"b\",\"lexer\",\"a.pug\"]\na.pug,1,1,1,1\n"

def recordedWorld : World Unit where
  disk := {
    entries :=
      [(["save"], .directory), (["save", "u"], .directory), (["save", "u", "b"], .directory),
        (["save", "u", "b", "lexer"], .directory),
        (["save", "u", "b", "lexer", "a.expected.txt"], .file recordedText.toUTF8)] }
  memory := ()

/-- A case file with one node that stands at the start of its text. -/
def oneNode (name text : String) (fixture : Option Fixture) : LoadedFile where
  key := ⟨firstRecorded.repository, .lexer, name⟩
  lines := LineTable.ofText text
  nodes := [⟨some "text", ⟨name, ⟨1, 1⟩, ⟨1, 1⟩⟩, .object [("type", .string "text")]⟩]
  fixture := fixture

def recordedFixture : Fixture :=
  ⟨⟨firstRecorded.repository, .lexer, "a.pug"⟩, [some ⟨"a.pug", ⟨1, 1⟩, ⟨1, 1⟩⟩]⟩

def recordedFile : LoadedFile :=
  oneNode "a.pug" "p" (some recordedFixture)

def emptyFile : LoadedFile :=
  ⟨⟨firstRecorded.repository, .lexer, "b.pug"⟩, LineTable.ofText "", [], none⟩

theorem loadFile_recorded :
    firstRecorded.loadFile .lexer "a.pug" recordedWorld = (.ok recordedFile, recordedWorld) := by
  have hbytes : recordedWorld.disk.readBytes "save/u/b/lexer/a.expected.txt" =
      .ok recordedText.toUTF8 := rfl
  have hpath : firstRecorded.store.pathFor recordedFile.key =
      "save/u/b/lexer/a.expected.txt" := by decide
  have hparse : Fixture.parse recordedFile.key recordedText "save/u/b/lexer/a.expected.txt" =
      .ok recordedFixture := by
    have hsome : (Fixture.parse recordedFile.key recordedText
        "save/u/b/lexer/a.expected.txt").toOption = some recordedFixture := by decide +kernel
    generalize Fixture.parse recordedFile.key recordedText "save/u/b/lexer/a.expected.txt" =
      result at hsome
    cases result with
    | ok fixture => exact congrArg Except.ok (Option.some.inj hsome)
    | error e => cases hsome
  exact Setup.loadFile_of_parts rfl rfl
    (FixtureStore.load_of_text hpath (Disk.readText_of_bytes hbytes) hparse)

def unrecordedFile : LoadedFile :=
  oneNode "c.pug" "i" none

theorem loads_after_recorded :
    firstRecorded.Loads .lexer ["b.pug", "c.pug"] recordedWorld [emptyFile, unrecordedFile]
      recordedWorld :=
  .cons rfl (.cons rfl .nil)

theorem run_crosses_empty_file :
    let engine := (start .off).after firstRecorded
      [⟨.selectStage "lexer", recordedWorld⟩, ⟨.selectFile "a", recordedWorld⟩]
    let outcome := engine.run firstRecorded recordedWorld
    outcome.result = .ok .moved ∧ outcome.engine.currentFile? = some "c.pug" ∧
      outcome.engine.fileIndex = 2 ∧ outcome.engine.runPause = some 0 := by
  intro engine
  let listed : Engine :=
    { start .off with stage := some .lexer, files := ["a.pug", "b.pug", "c.pug"] }
  let shown : Engine := (listed.place 0 recordedFile).rest
  let later : List LoadedFile := [emptyFile, unrecordedFile]
  have hstage : Operation.perform firstRecorded (start .off) recordedWorld
      (.selectStage "lexer") = listed := rfl
  have hname : listed.fileNamed? firstRecorded (Text.trim "a") = some 0 := by decide
  have hselect : Operation.perform firstRecorded listed recordedWorld (.selectFile "a") =
      shown :=
    congrArg Outcome.engine (selectFile_of_off rfl rfl hname loadFile_recorded)
  have hengine : engine = shown := by
    simp only [engine, after_cons, after_nil, Call.apply]
    rw [hstage, hselect]
  have hlater : shown.LoadsLater firstRecorded recordedWorld later :=
    ⟨.lexer, recordedWorld, rfl, loads_after_recorded⟩
  have hsites : (shown.runSites recordedFile later).filter (fun site => site.Differs) =
      [⟨2, unrecordedFile, 0⟩] := rfl
  rw [hengine]
  rcases run_finds_first_mismatch ⟨.off, _, hengine⟩ rfl rfl hlater with
    ⟨stop, rest, hfirst, hresult, hstands, _, hpause⟩ | ⟨hnone, _⟩
  · rw [hfirst.filter, List.cons.injEq] at hsites
    obtain ⟨rfl, _⟩ := hsites
    exact ⟨hresult, congrArg (Option.map LoadedFile.name) hstands.loaded, hstands.fileIndex,
      hpause⟩
  · have hstop : ⟨2, unrecordedFile, 0⟩ ∈
        (shown.runSites recordedFile later).filter (fun site => site.Differs) := by
      rw [hsites]
      exact List.mem_singleton_self _
    obtain ⟨hmem, hdiffers⟩ := List.mem_filter.mp hstop
    exact absurd (of_decide_eq_true hdiffers) (hnone _ hmem)

end Engine

end SpanReview
