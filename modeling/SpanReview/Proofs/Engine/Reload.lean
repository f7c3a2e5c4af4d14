import SpanReview.Proofs.Engine.Faithful
import SpanReview.Proofs.Engine.Search

namespace SpanReview

/-! What is saved is there again when the file is loaded anew, unless a filename that is
recorded breaks its line. -/

namespace LoadedFile

variable {setup : Setup σ} {stage : Stage} {file : LoadedFile} {position : Nat} {span : Span}

/-- Loading a file again gives it again, with the fixture that there is by then. -/
theorem Faithful.loadFile (h : file.Faithful setup stage) (hsteady : setup.Steady)
    (world : World σ) :
    (setup.loadFile stage file.name world).1 =
      match setup.store.load file.key world.disk with
      | .ok fixture => .ok { file with fixture := fixture }
      | .error e => .error (.fixture e) := by
  obtain ⟨text, earlier, earlier', htext, hnodes, hlines⟩ := h.source
  generalize hread : setup.source.readCase stage file.name world = read
  generalize hparsed : setup.source.nodes stage text file.name read.2 = parsed
  have hsame : read.1 = .ok text := by
    rw [← hread, hsteady.readCase stage file.name world earlier, htext]
  have hsame' : parsed.1 = .ok file.nodes := by
    rw [← hparsed, hsteady.nodes stage text file.name read.2 earlier', hnodes]
  have hkept : setup.store.load file.key parsed.2.disk = setup.store.load file.key world.disk := by
    rw [← hparsed, hsteady.load_nodes, ← hread, hsteady.load_readCase]
  obtain ⟨_, read⟩ := read
  obtain ⟨_, parsed⟩ := parsed
  subst hsame hsame'
  simp only [Setup.loadFile, hread, hparsed, ← h.key, hkept, ← hlines]
  cases setup.store.load file.key world.disk <;> rfl

theorem length_recordsWith (file : LoadedFile) (position : Nat) (span : Span) :
    (Engine.recordsWith file position span).length = file.nodes.length := by
  simp [Engine.recordsWith]

theorem expectedAt_recordedAt {other : Nat} (h : other < file.nodes.length) :
    (file.recordedAt position span).expectedAt other =
      if other = position then span else file.expectedAt other := by
  rw [expectedAt_eq, expectedAt_eq]
  by_cases hsame : other = position
  · subst hsame
    simp [recordedAt, Fixture.record?, Engine.recordsWith, h]
  · have hne : position ≠ other := Ne.symm hsame
    simp [recordedAt, Fixture.record?, Engine.recordsWith, h, hsame, hne]

theorem oneLine_expectedAt (h : ∀ fixture, file.fixture = some fixture →
    ∀ span, some span ∈ fixture.records → span.Recordable) (position : Nat) :
    '\n' ∉ (file.expectedAt position).filename.toList := by
  rw [expectedAt_eq]
  cases hrecord : file.fixture.bind (·.record? position) with
  | none => decide
  | some span =>
      obtain ⟨fixture, hfixture, hrecord⟩ := Option.bind_eq_some_iff.mp hrecord
      have hmem := List.mem_of_getElem? (Option.join_eq_some_iff.mp hrecord)
      exact (h fixture hfixture span hmem).oneLine

theorem Faithful.recordable_recordsWith
    (h : (file.recordedAt position span).Faithful setup stage)
    (hfeed : ∀ other < file.nodes.length,
      '\n' ∉ ((file.recordedAt position span).expectedAt other).filename.toList) :
    ∀ recorded, some recorded ∈ Engine.recordsWith file position span → recorded.Recordable := by
  intro recorded hrecorded
  obtain ⟨other, hlt, hget⟩ := List.mem_iff_getElem.mp hrecorded
  obtain ⟨hstart, hfinish⟩ := h.records _ rfl recorded hrecorded
  have hexpected : (file.recordedAt position span).expectedAt other = recorded := by
    simp [expectedAt_eq, LoadedFile.recordedAt, Fixture.record?, hlt, hget]
  rw [length_recordsWith] at hlt
  exact ⟨hexpected ▸ hfeed other hlt, hstart, hfinish⟩

end LoadedFile

namespace Engine

variable {setup : Setup σ} {engine : Engine} {world : World σ} {stage : Stage}
  {file : LoadedFile} {comparison : Comparison} {path : Path}

def stored (setup : Setup σ) (engine : Engine) (world : World σ) (file : LoadedFile)
    (comparison : Comparison) : Except FixtureError Path × Disk :=
  setup.store.save file.key (recordsWith file engine.position comparison.proposed) world.disk

theorem stored_of_ok
    (h : (engine.stored setup world file comparison).1 = .ok path) :
    engine.stored setup world file comparison =
      (.ok path, (engine.stored setup world file comparison).2) := by
  rw [← h]

theorem save_of_ok (hrun : engine.runMode = false) (hloaded : engine.loaded = some file)
    (hcurrent : engine.current = some comparison)
    (hstored : (engine.stored setup world file comparison).1 = .ok path) :
    engine.save setup world =
      ⟨.ok (), { engine with
        loaded := some (file.recordedAt engine.position comparison.proposed) }.rest,
        { world with disk := (engine.stored setup world file comparison).2 }⟩ := by
  have hoff : ({ engine with
      loaded := some (file.recordedAt engine.position comparison.proposed) } : Engine).runMode =
        false := hrun
  unfold stored at hstored ⊢
  rw [save, hloaded, hcurrent]
  dsimp only
  generalize setup.store.save file.key _ world.disk = outcome at hstored ⊢
  obtain ⟨_, disk⟩ := outcome
  subst hstored
  exact recompute_of_off hoff

theorem save_disk (hrun : engine.runMode = false) (hloaded : engine.loaded = some file)
    (hcurrent : engine.current = some comparison)
    (hstored : (engine.stored setup world file comparison).1 = .ok path) :
    (engine.save setup world).world.disk = (engine.stored setup world file comparison).2 := by
  rw [save_of_ok hrun hloaded hcurrent hstored]

theorem save_ok (h : (engine.save setup world).result = .ok ()) :
    ∃ file comparison path, engine.loaded = some file ∧ engine.current = some comparison ∧
      (engine.stored setup world file comparison).1 = .ok path := by
  unfold save at h
  split at h
  · cases h
  · cases h
  · rename_i file comparison hloaded hcurrent
    dsimp only at h
    split at h
    · cases h
    · rename_i path disk hstored
      exact ⟨file, comparison, path, hloaded, hcurrent, congrArg Prod.fst hstored⟩

/-! Loading again the file that the index names. -/

/-- A faithful file is loaded, and it is the one that the index names. -/
structure Holds (setup : Setup σ) (stage : Stage) (file : LoadedFile) (engine : Engine) :
    Prop where
  faithful : file.Faithful setup stage
  stage : engine.stage = some stage
  loaded : engine.loaded = some file
  name : engine.files[engine.fileIndex]? = some file.name
  runMode_off : engine.runMode = false

/-- A file whose fixture is still on the disk is loaded as it is. -/
theorem Holds.loadCurrent_same (h : engine.Holds setup stage file) (hsteady : setup.Steady)
    (hstored : setup.store.load file.key world.disk = .ok file.fixture) :
    (engine.loadCurrent setup world).result = .ok () ∧
      (engine.loadCurrent setup world).engine.loaded = some file := by
  have hload : (setup.loadFile stage file.name world).1 = .ok file := by
    rw [h.faithful.loadFile hsteady, hstored]
  have hindex : setup.loadIndex engine engine.fileIndex world =
      (.ok file, (setup.loadFile stage file.name world).2) :=
    (Setup.loadIndex_of_name h.stage h.name).trans (Prod.ext hload rfl)
  rw [loadCurrent_of_off h.runMode_off hindex]
  exact ⟨rfl, rfl⟩

theorem Holds.loadCurrent_unread {e : FixtureError} (h : engine.Holds setup stage file)
    (hsteady : setup.Steady) (hstored : setup.store.load file.key world.disk = .error e) :
    (engine.loadCurrent setup world).result = .error (.fixture e) := by
  have hload : (setup.loadFile stage file.name world).1 = .error (.fixture e) := by
    rw [h.faithful.loadFile hsteady, hstored]
  have hindex : setup.loadIndex engine engine.fileIndex world =
      (.error (.fixture e), (setup.loadFile stage file.name world).2) :=
    (Setup.loadIndex_of_name h.stage h.name).trans (Prod.ext hload rfl)
  simp only [loadCurrent, enterFile, hindex, Outcome.andThen]

theorem Holds.oneLine_of_loadCurrent (h : engine.Holds setup stage file) {again : LoadedFile}
    (hresult : (engine.loadCurrent setup world).result = .ok ())
    (hagain : (engine.loadCurrent setup world).engine.loaded = some again) (position : Nat) :
    '\n' ∉ (again.expectedAt position).filename.toList := by
  generalize hload : setup.loadFile stage file.name world = loaded
  have hindex := (Setup.loadIndex_of_name h.stage h.name).trans hload
  obtain ⟨result, later⟩ := loaded
  cases result with
  | error e =>
      simp only [loadCurrent, enterFile, hindex, Outcome.andThen] at hresult
      cases hresult
  | ok fresh =>
      rw [loadCurrent_of_off h.runMode_off hindex] at hagain
      obtain rfl : fresh = again := Option.some.inj hagain
      exact LoadedFile.oneLine_expectedAt
        (fun _ => Setup.loadFile_recordable (congrArg Prod.fst hload)) position

theorem save_holds (hsteady : setup.Steady) (hreach : engine.Reachable setup)
    (hloaded : engine.loaded = some file)
    (hname : engine.files[engine.fileIndex]? = some file.name)
    (hcurrent : engine.current = some comparison)
    (hstored : (engine.stored setup world file comparison).1 = .ok path) :
    ∃ stage, (engine.save setup world).engine.Holds setup stage
      (file.recordedAt engine.position comparison.proposed) := by
  have hfaithful : (engine.save setup world).engine.Faithful setup :=
    (hreach.apply ⟨.save, world⟩).faithful hsteady
  rw [save_of_ok hreach.coherent.runMode_off hloaded hcurrent hstored] at hfaithful ⊢
  obtain ⟨stage, hstage, hgiven⟩ := hfaithful.loaded _ rfl
  exact ⟨stage, hgiven, hstage, rfl, hname, rfl⟩

/-- Records whose text cannot be parsed are written all the same, and fail the next load. -/
theorem reload_unread {e : FixtureError} (hsteady : setup.Steady)
    (hreach : engine.Reachable setup) (hloaded : engine.loaded = some file)
    (hname : engine.files[engine.fileIndex]? = some file.name)
    (hcurrent : engine.current = some comparison)
    (hstored : (engine.stored setup world file comparison).1 = .ok path)
    (hparse : Fixture.parse file.key (Fixture.textOf file.key
      (recordsWith file engine.position comparison.proposed)) (setup.store.pathFor file.key) =
        .error e) :
    (engine.save setup world).result = .ok () ∧
      ((engine.save setup world).engine.loadCurrent setup (engine.save setup world).world).result =
        .error (.fixture e) := by
  have hrun := hreach.coherent.runMode_off
  obtain ⟨_, hholds⟩ := save_holds hsteady hreach hloaded hname hcurrent hstored
  have hread := FixtureStore.readText_of_save (stored_of_ok hstored)
  rw [← save_disk hrun hloaded hcurrent hstored] at hread
  exact ⟨congrArg Outcome.result (save_of_ok hrun hloaded hcurrent hstored),
    hholds.loadCurrent_unread hsteady (FixtureStore.load_of_flaw hread hparse)⟩

/-- A save records the proposed span at the position of the engine and keeps all other
records. Loading the file again then succeeds with the same expected spans at all
positions, as long as none of their filenames holds a line feed, and not otherwise. -/
theorem reload_after_save (hsteady : setup.Steady) (hreach : engine.Reachable setup)
    (hloaded : engine.loaded = some file)
    (hname : engine.files[engine.fileIndex]? = some file.name)
    (hsave : (engine.save setup world).result = .ok ()) :
    let saved := engine.save setup world
    let reloaded := saved.engine.loadCurrent setup saved.world
    ∃ held comparison, saved.engine.loaded = some held ∧ engine.current = some comparison ∧
      held.nodes = file.nodes ∧
      (∀ position < file.nodes.length, held.expectedAt position =
        if position = engine.position then comparison.proposed else file.expectedAt position) ∧
      ((reloaded.result = .ok () ∧ ∃ again, reloaded.engine.loaded = some again ∧
          again.nodes = file.nodes ∧
          ∀ position < file.nodes.length,
            again.expectedAt position = held.expectedAt position) ↔
        ∀ position < file.nodes.length,
          '\n' ∉ (held.expectedAt position).filename.toList) := by
  intro saved reloaded
  obtain ⟨_, comparison, path, hfile, hcurrent, hstored⟩ := save_ok hsave
  obtain rfl := Option.some.inj (hloaded.symm.trans hfile)
  obtain ⟨stage, hholds⟩ := save_holds hsteady hreach hloaded hname hcurrent hstored
  refine ⟨_, comparison, hholds.loaded, hcurrent, rfl,
    fun position => LoadedFile.expectedAt_recordedAt, ?_⟩
  constructor
  · rintro ⟨hresult, again, hagain, _, hsame⟩ position hlt
    rw [← hsame position hlt]
    exact hholds.oneLine_of_loadCurrent hresult hagain position
  · intro hfeed
    have hrecordable := hholds.faithful.recordable_recordsWith hfeed
    have hkept := FixtureStore.load_of_save (stored_of_ok hstored) hrecordable
    rw [← save_disk hreach.coherent.runMode_off hloaded hcurrent hstored] at hkept
    obtain ⟨hresult, hagain⟩ := hholds.loadCurrent_same hsteady hkept
    exact ⟨hresult, _, hagain, rfl, fun _ _ => rfl⟩

theorem widened_span_reloads :
    let listed : Engine :=
      { start .off with stage := some .lexer, files := ["a.pug", "b.pug", "c.pug"] }
    let shown := (listed.place 2 unrecordedFile).rest
    let widened := (shown.moveEndpoint .finish 1 recordedWorld).engine
    let saved := widened.save firstRecorded recordedWorld
    let reloaded := saved.engine.loadCurrent firstRecorded saved.world
    saved.result = .ok () ∧ reloaded.result = .ok () ∧
      reloaded.engine.loaded.map (·.expectedAt 0) = some ⟨"c.pug", ⟨1, 1⟩, ⟨1, 2⟩⟩ := by
  intro listed shown widened saved reloaded
  have hname : listed.fileNamed? firstRecorded (Text.trim "c") = some 2 := by decide
  have hload : firstRecorded.loadIndex listed 2 recordedWorld =
      (.ok unrecordedFile, recordedWorld) := rfl
  have hselect : Operation.perform firstRecorded listed recordedWorld (.selectFile "c") = shown :=
    congrArg Outcome.engine (selectFile_of_off rfl rfl hname hload)
  have hshown : shown.Reachable firstRecorded :=
    ⟨.off, [⟨.selectStage "lexer", recordedWorld⟩, ⟨.selectFile "c", recordedWorld⟩], hselect⟩
  have hreach : widened.Reachable firstRecorded :=
    hshown.apply ⟨.moveEndpoint .finish 1, recordedWorld⟩
  have hsteady : firstRecorded.Steady := Setup.steady_of_entries rfl (by decide)
  let comparison : Comparison :=
    ⟨⟨"c.pug", ⟨1, 1⟩, ⟨1, 1⟩⟩, Span.sentinel, ⟨"c.pug", ⟨1, 1⟩, ⟨1, 2⟩⟩⟩
  have hcurrent : widened.current = some comparison := by decide +kernel
  have hstored : (widened.stored firstRecorded recordedWorld unrecordedFile comparison).1 =
      .ok "save/u/b/lexer/c.expected.txt" := by decide +kernel
  have hsave : saved.result = .ok () :=
    congrArg Outcome.result (save_of_ok rfl rfl hcurrent hstored)
  obtain ⟨held, _, _, hcomparison, _, hheld, hiff⟩ :=
    reload_after_save hsteady hreach rfl rfl hsave
  obtain rfl := Option.some.inj (hcurrent.symm.trans hcomparison)
  have hexpected : held.expectedAt 0 = comparison.proposed := hheld 0 Nat.one_pos
  obtain ⟨hresult, again, hagain, _, hsame⟩ := hiff.mpr fun position hlt => by
    obtain rfl := Nat.lt_one_iff.mp hlt
    rw [hexpected]
    decide
  refine ⟨hsave, hresult, ?_⟩
  rw [hagain, Option.map_some, hsame 0 Nat.one_pos, hexpected]

/-- The lexer reports a filename of two lines. -/
def splitName : Setup Unit where
  source := .ofEntries
    [⟨"a.pug", some "p",
      .array [.object [("type", .string "text"),
        ("loc", .object [("filename", .string "a\nb")])]], .null, none⟩] []
  store := ⟨"save"⟩
  repository := ⟨"https://github.com/pugjs/pug.git", "master"⟩
  caseExtension := "pug"

def splitNameSpan : Span :=
  ⟨"a\nb", ⟨1, 1⟩, ⟨1, 1⟩⟩

def splitNameFile : LoadedFile where
  key := ⟨splitName.repository, .lexer, "a.pug"⟩
  lines := LineTable.ofText "p"
  nodes := [⟨some "text", splitNameSpan, .object [("type", .string "text"),
    ("loc", .object [("filename", .string "a\nb")])]⟩]
  fixture := none

/-- The save succeeds, but what it wrote is not read again. -/
theorem split_name_fails_reload :
    let world : World Unit := ⟨.empty, ()⟩
    let engine := (start .off).after splitName
      [⟨.selectStage "lexer", world⟩, ⟨.selectFile "a", world⟩]
    let saved := engine.save splitName world
    splitName.Steady ∧ engine.currentFile? = some "a.pug" ∧
      engine.files[engine.fileIndex]? = some "a.pug" ∧ saved.result = .ok () ∧
      (saved.engine.loadCurrent splitName saved.world).result =
        .error (.fixture (.malformed "save/pugjs-pug/master/lexer/a.expected.txt" 2
          (.invalid .endColumn "a"))) := by
  intro world engine saved
  let listed : Engine := { start .off with stage := some .lexer, files := ["a.pug"] }
  let shown : Engine := (listed.place 0 splitNameFile).rest
  have hstage : Operation.perform splitName (start .off) world (.selectStage "lexer") =
      listed := rfl
  have hload : splitName.loadIndex listed 0 world = (.ok splitNameFile, world) := rfl
  have hname : listed.fileNamed? splitName (Text.trim "a") = some 0 := by decide
  have hselect : Operation.perform splitName listed world (.selectFile "a") = shown :=
    congrArg Outcome.engine (selectFile_of_off rfl rfl hname hload)
  have hengine : engine = shown := by
    simp only [engine, after_cons, after_nil, Call.apply]
    rw [hstage, hselect]
  have hcurrent : shown.current = some ⟨splitNameSpan, Span.sentinel, splitNameSpan⟩ := by
    decide +kernel
  let comparison : Comparison := ⟨splitNameSpan, Span.sentinel, splitNameSpan⟩
  have hstored : (shown.stored splitName world splitNameFile comparison).1 =
      .ok "save/pugjs-pug/master/lexer/a.expected.txt" := by decide +kernel
  have hparse : Fixture.parse splitNameFile.key (Fixture.textOf splitNameFile.key
      (recordsWith splitNameFile 0 splitNameSpan)) (splitName.store.pathFor splitNameFile.key) =
        .error (.malformed "save/pugjs-pug/master/lexer/a.expected.txt" 2
          (.invalid .endColumn "a")) := by decide +kernel
  have hsteady : splitName.Steady := Setup.steady_of_entries rfl (by decide)
  have hreach : shown.Reachable splitName := ⟨.off, _, hengine⟩
  simp only [saved, hengine]
  exact ⟨hsteady, rfl, rfl, reload_unread hsteady hreach rfl rfl hcurrent hstored hparse⟩

end Engine

end SpanReview
