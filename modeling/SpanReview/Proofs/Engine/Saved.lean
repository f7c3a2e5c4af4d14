import SpanReview.Proofs.Engine.Proposal

namespace SpanReview

/-! A save puts the proposed span among the records and leaves everything else as it was. The
comparison is then with what was proposed, and proposes it again. -/

namespace LoadedFile

variable {file : LoadedFile} {position other : Nat} {span : Span} {comparison : Comparison}

theorem getElem?_recordsWith (h : other < file.nodes.length) :
    (Engine.recordsWith file position span)[other]? =
      some (if other = position then some span else file.fixture.bind (·.record? other)) := by
  by_cases hsame : other = position
  · subst hsame
    simp [Engine.recordsWith, h]
  · have hne : position ≠ other := Ne.symm hsame
    simp [Engine.recordsWith, h, hsame, hne]

theorem record?_recordedAt (h : other < file.nodes.length) :
    (Fixture.mk file.key (Engine.recordsWith file position span)).record? other =
      if other = position then some span else file.fixture.bind (·.record? other) := by
  rw [Fixture.record?, getElem?_recordsWith h, Option.join_some]

theorem recordsWith_recordedAt (file : LoadedFile) (position : Nat) (span : Span) :
    Engine.recordsWith (file.recordedAt position span) position span =
      Engine.recordsWith file position span := by
  have hlength : (Engine.recordsWith (file.recordedAt position span) position span).length =
      file.nodes.length := length_recordsWith _ position span
  have hlength' := length_recordsWith file position span
  refine List.ext_getElem? fun other => ?_
  by_cases hlt : other < file.nodes.length
  · have hagain : (Engine.recordsWith (file.recordedAt position span) position span)[other]? =
        some (if other = position then some span
          else (Fixture.mk file.key (Engine.recordsWith file position span)).record? other) :=
      getElem?_recordsWith hlt
    rw [hagain, getElem?_recordsWith hlt, record?_recordedAt hlt]
    by_cases hsame : other = position
    · rw [if_pos hsame, if_pos hsame]
    · rw [if_neg hsame, if_neg hsame]
  · rw [List.getElem?_eq_none (by omega), List.getElem?_eq_none (by omega)]

theorem recordedAt_recordedAt (file : LoadedFile) (position : Nat) (span : Span) :
    (file.recordedAt position span).recordedAt position span = file.recordedAt position span :=
  congrArg (fun records => { file with fixture := some ⟨file.key, records⟩ })
    (recordsWith_recordedAt file position span)

/-- What was proposed is proposed again once it is what is expected. -/
theorem propose_proposed (h : comparison.ProposesIn file.lines) :
    file.propose comparison.actual comparison.proposed = comparison.proposed := by
  rw [propose, if_pos (LineTable.resolved_of_inside h.inside), ← h.filename]
  exact LineTable.fixEndpoints_of_inside h.inside h.ordered

theorem compareAt_recordedAt {node : Node} (hnode : file.nodes[position]? = some node)
    (hactual : comparison.actual = node.span) (h : comparison.ProposesIn file.lines) :
    (file.recordedAt position comparison.proposed).compareAt position =
      some { comparison with expected := comparison.proposed } := by
  obtain ⟨hlt, _⟩ := List.getElem?_eq_some_iff.mp hnode
  have hexpected : (file.recordedAt position comparison.proposed).expectedAt position =
      comparison.proposed := (expectedAt_recordedAt hlt).trans (if_pos rfl)
  refine compareAt_eq_some_iff.mpr ⟨node, hnode, ?_⟩
  rw [hexpected, ← hactual]
  exact congrArg (Comparison.mk _ _) (propose_proposed h).symm

theorem mem_mismatches_recordedAt (hne : other ≠ position) :
    other ∈ (file.recordedAt position span).mismatches ↔ other ∈ file.mismatches := by
  rw [mem_mismatches, mem_mismatches]
  refine exists_congr fun node => and_congr_right fun hnode => ?_
  have hlt : other < file.nodes.length := (List.getElem?_eq_some_iff.mp hnode).1
  rw [expectedAt_recordedAt hlt, if_neg hne]

end LoadedFile

namespace FixtureStore

variable {store : FixtureStore} {key : FixtureKey} {disk : Disk} {records : List (Option Span)}

/-- The text of some records is loaded as these records exactly if each of them can be recorded
on a line. -/
theorem load_textOf_iff
    (hread : disk.readText (store.pathFor key) = .ok (Fixture.textOf key records)) :
    store.load key disk = .ok (some ⟨key, records⟩) ↔
      ∀ span, some span ∈ records → span.Recordable := by
  constructor
  · intro hload
    exact (recordable_of_load hload).2
  · intro h
    exact load_of_text rfl hread (Fixture.parse_textOf _ h)

end FixtureStore

namespace Engine

variable {setup : Setup σ} {engine : Engine} {world : World σ} {file : LoadedFile}
  {comparison : Comparison} {path : Path}

/-- The engine with the proposed span recorded for its node. -/
def recorded (engine : Engine) (file : LoadedFile) (comparison : Comparison) : Engine :=
  { engine with
    loaded := some (file.recordedAt engine.position comparison.proposed)
    current := some { comparison with expected := comparison.proposed } }

theorem Reachable.save_eq (hreach : engine.Reachable setup) (hloaded : engine.loaded = some file)
    (hcurrent : engine.current = some comparison)
    (hstored : (engine.stored setup world file comparison).1 = .ok path) :
    engine.save setup world = ⟨.ok (), engine.recorded file comparison,
      { world with disk := (engine.stored setup world file comparison).2 }⟩ := by
  have hrun := hreach.coherent.runMode_off
  obtain ⟨shown, node, hshown, hnode, hactual, _⟩ := hreach.coherent.node_of_current hcurrent
  obtain rfl := Option.some.inj (hloaded.symm.trans hshown)
  obtain ⟨same, hsame, hproposes⟩ := hreach.proposesInText comparison hcurrent
  obtain rfl := Option.some.inj (hloaded.symm.trans hsame)
  have hexhausted : engine.isExhausted = false :=
    (hreach.coherent.isSome_iff.mp (by rw [hcurrent]; rfl)).2.1
  have hcomparison : Engine.comparison? { engine with
      loaded := some (file.recordedAt engine.position comparison.proposed) } =
        some { comparison with expected := comparison.proposed } :=
    comparison?_eq_some_iff.mpr
      ⟨hexhausted, _, rfl, LoadedFile.compareAt_recordedAt hnode hactual hproposes⟩
  rw [save_of_ok hrun hloaded hcurrent hstored, rest_of_some hcomparison, recorded, ← hrun]

/-! The same save once more. -/

theorem stored_recorded (setup : Setup σ) (engine : Engine) (world : World σ) (file : LoadedFile)
    (comparison : Comparison) :
    (engine.recorded file comparison).stored setup world
        (file.recordedAt engine.position comparison.proposed)
        { comparison with expected := comparison.proposed } =
      engine.stored setup world file comparison :=
  congrArg (setup.store.save file.key · world.disk) (LoadedFile.recordsWith_recordedAt _ _ _)

/-- On the disk that a save left, the same records can be saved. -/
theorem stored_again (h : (engine.stored setup world file comparison).1 = .ok path) :
    (engine.stored setup { world with disk := (engine.stored setup world file comparison).2 } file
      comparison).1 = .ok (setup.store.pathFor file.key) := by
  have hsave := stored_of_ok h
  unfold stored at hsave ⊢
  dsimp only at hsave ⊢
  exact FixtureStore.save_again hsave _

theorem Reachable.save_recorded (hreach : (engine.recorded file comparison).Reachable setup)
    (hstored : (engine.stored setup world file comparison).1 = .ok path) :
    (engine.recorded file comparison).save setup world =
      ⟨.ok (), engine.recorded file comparison,
        { world with disk := (engine.stored setup world file comparison).2 }⟩ := by
  have hsame := stored_recorded setup engine world file comparison
  rw [hreach.save_eq rfl rfl ((congrArg Prod.fst hsame).trans hstored), hsame]
  simp only [recorded, LoadedFile.recordedAt_recordedAt]

theorem Reachable.save_recorded_ok (hreach : (engine.recorded file comparison).Reachable setup)
    (hsave : ((engine.recorded file comparison).save setup world).result = .ok ()) :
    ((engine.recorded file comparison).save setup world).engine =
        engine.recorded file comparison ∧
      ((engine.recorded file comparison).save setup world).world.disk.readText
          (setup.store.pathFor file.key) =
        .ok (Fixture.textOf file.key (recordsWith file engine.position comparison.proposed)) := by
  obtain ⟨_, _, _, hloaded, hcurrent, hstored⟩ := save_ok hsave
  obtain rfl := Option.some.inj hloaded
  obtain rfl := Option.some.inj hcurrent
  rw [stored_recorded] at hstored
  have hread := FixtureStore.readText_of_save (stored_of_ok hstored)
  rw [hreach.save_recorded hstored]
  dsimp only
  exact ⟨rfl, hread⟩

/-- After any calls, a save that succeeds: the fixture that is held and written has one record
for each node, the proposed span at the position of the engine and what was held before
elsewhere. The engine differs in it and in the comparison alone, where what was proposed is
expected too. A second save changes nothing more: it succeeds, as long as the disk is not
changed in between, and writes the same text. -/
theorem save_records_proposal (setup : Setup σ) (display : DisplayOptions)
    (calls : List (Call σ)) (world : World σ) :
    let engine := (start display).after setup calls
    let saved := engine.save setup world
    saved.result = .ok () →
    ∃ file comparison held, engine.loaded = some file ∧ engine.current = some comparison ∧
      (held.key = file.key ∧ held.records.length = file.nodes.length ∧
        held.record? engine.position = some comparison.proposed ∧
        ∀ other < file.nodes.length, other ≠ engine.position →
          held.record? other = file.fixture.bind (·.record? other)) ∧
      (saved.world.disk.readText (setup.store.pathFor file.key) = .ok held.text ∧
        (setup.store.load file.key saved.world.disk = .ok (some held) ↔
          ∀ span, some span ∈ held.records → span.Recordable)) ∧
      saved.engine = { engine with
        loaded := some { file with fixture := some held }
        current := some { comparison with expected := comparison.proposed } } ∧
      (∀ shown, saved.engine.current = some shown →
        (shown.isMatch ↔ comparison.actual = comparison.proposed)) ∧
      (∀ other, other ≠ engine.position →
        (other ∈ saved.engine.mismatches ↔ other ∈ engine.mismatches)) ∧
      (saved.engine.save setup saved.world).result = .ok () ∧
      ∀ later, (saved.engine.save setup later).result = .ok () →
        (saved.engine.save setup later).engine = saved.engine ∧
        (saved.engine.save setup later).world.disk.readText (setup.store.pathFor file.key) =
          .ok held.text := by
  intro engine saved hsave
  have hreach : engine.Reachable setup := ⟨display, calls, rfl⟩
  clear_value engine
  obtain ⟨file, comparison, path, hloaded, hcurrent, hstored⟩ := save_ok hsave
  have hsaved : saved = _ := hreach.save_eq hloaded hcurrent hstored
  have hagain : (engine.recorded file comparison).Reachable setup := by
    have happlied : saved.engine.Reachable setup := hreach.apply ⟨.save, world⟩
    rwa [hsaved] at happlied
  have hread := FixtureStore.readText_of_save (stored_of_ok hstored)
  obtain ⟨_, node, hshown, hnode, _⟩ := hreach.coherent.node_of_current hcurrent
  obtain rfl := Option.some.inj (hloaded.symm.trans hshown)
  obtain ⟨hlt, _⟩ := List.getElem?_eq_some_iff.mp hnode
  clear_value saved
  subst hsaved
  dsimp only
  refine ⟨file, comparison, ⟨file.key, recordsWith file engine.position comparison.proposed⟩,
    hloaded, hcurrent, ⟨rfl, LoadedFile.length_recordsWith _ _ _, ?_, ?_⟩, ⟨hread,
    FixtureStore.load_textOf_iff hread⟩, rfl, ?_, ?_, ?_, ?_⟩
  · rw [LoadedFile.record?_recordedAt hlt, if_pos rfl]
  · intro other hother hne
    rw [LoadedFile.record?_recordedAt hother, if_neg hne]
  · rintro shown hshown
    cases hshown
    exact beq_iff_eq
  · intro other hne
    have hmismatches : engine.mismatches = file.mismatches := by rw [mismatches, hloaded]
    rw [hmismatches]
    exact LoadedFile.mem_mismatches_recordedAt hne
  · rw [hagain.save_recorded (stored_again hstored)]
  · intro later hlater
    exact hagain.save_recorded_ok hlater

/-- Two nodes, with a fixture that has nothing for the first, an unresolved record for the
second, and a third record. -/
def handRecorded : Setup Unit where
  source := .ofEntries
    [⟨"a.pug", some "p", .array [.object [("type", .string "text")],
      .object [("type", .string "newline")]], .null, none⟩] []
  store := ⟨"/srv/save"⟩
  repository := ⟨"u", "b"⟩
  caseExtension := "pug"

def handRecordedText : String :=
  "[\"u\",\"b\",\"lexer\",\"a.pug\"]\n\nby hand,0,7,-1,2\na.pug,1,1,1,1\n"

def handRecordedWorld : World Unit where
  disk :=
    { entries := [(["home"], .directory), (["srv"], .directory), (["srv", "save"], .directory),
        (["srv", "save", "u"], .directory), (["srv", "save", "u", "b"], .directory),
        (["srv", "save", "u", "b", "lexer"], .directory),
        (["srv", "save", "u", "b", "lexer", "a.expected.txt"], .file handRecordedText.toUTF8)]
      workingDirectory := ["home"] }
  memory := ()

def handRecordedFile : LoadedFile where
  key := ⟨handRecorded.repository, .lexer, "a.pug"⟩
  lines := LineTable.ofText "p"
  nodes := [⟨some "text", ⟨"a.pug", ⟨1, 1⟩, ⟨1, 1⟩⟩, .object [("type", .string "text")]⟩,
    ⟨some "newline", ⟨"a.pug", ⟨1, 1⟩, ⟨1, 1⟩⟩, .object [("type", .string "newline")]⟩]
  fixture := some ⟨⟨handRecorded.repository, .lexer, "a.pug"⟩,
    [none, some ⟨"by hand", ⟨0, 7⟩, ⟨-1, 2⟩⟩, some ⟨"a.pug", ⟨1, 1⟩, ⟨1, 1⟩⟩]⟩

theorem loadFile_handRecorded :
    handRecorded.loadFile .lexer "a.pug" handRecordedWorld =
      (.ok handRecordedFile, handRecordedWorld) := by
  have hbytes : handRecordedWorld.disk.readBytes "/srv/save/u/b/lexer/a.expected.txt" =
      .ok handRecordedText.toUTF8 := rfl
  have hpath : handRecorded.store.pathFor handRecordedFile.key =
      "/srv/save/u/b/lexer/a.expected.txt" := by decide
  have hparse : Fixture.parse handRecordedFile.key handRecordedText
      "/srv/save/u/b/lexer/a.expected.txt" = .ok ⟨handRecordedFile.key,
        [none, some ⟨"by hand", ⟨0, 7⟩, ⟨-1, 2⟩⟩, some ⟨"a.pug", ⟨1, 1⟩, ⟨1, 1⟩⟩]⟩ := by
    decide +kernel
  exact Setup.loadFile_of_parts rfl rfl
    (FixtureStore.load_of_text hpath (Disk.readText_of_bytes hbytes) hparse)

theorem save_keeps_unresolved_record :
    let engine := (start .off).after handRecorded
      [⟨.selectStage "lexer", handRecordedWorld⟩, ⟨.selectFile "a", handRecordedWorld⟩]
    let saved := engine.save handRecorded handRecordedWorld
    saved.result = .ok () ∧ ∃ held,
      saved.engine.loaded.bind LoadedFile.fixture = some held ∧
      held.records = [some ⟨"a.pug", ⟨1, 1⟩, ⟨1, 1⟩⟩, some ⟨"by hand", ⟨0, 7⟩, ⟨-1, 2⟩⟩] ∧
      saved.world.disk.readText "/srv/save/u/b/lexer/a.expected.txt" = .ok held.text := by
  intro engine saved
  let listed : Engine := { start .off with stage := some .lexer, files := ["a.pug"] }
  let shown : Engine := (listed.place 0 handRecordedFile).rest
  let comparison : Comparison :=
    ⟨⟨"a.pug", ⟨1, 1⟩, ⟨1, 1⟩⟩, Span.sentinel, ⟨"a.pug", ⟨1, 1⟩, ⟨1, 1⟩⟩⟩
  have hstage : Operation.perform handRecorded (start .off) handRecordedWorld
      (.selectStage "lexer") = listed := rfl
  have hname : listed.fileNamed? handRecorded (Text.trim "a") = some 0 := by decide
  have hselect : Operation.perform handRecorded listed handRecordedWorld (.selectFile "a") =
      shown :=
    congrArg Outcome.engine (selectFile_of_off rfl rfl hname loadFile_handRecorded)
  have hengine : engine = shown := by
    simp only [engine, after_cons, after_nil, Call.apply]
    rw [hstage, hselect]
  have hcurrent : shown.current = some comparison := by decide +kernel
  have hstored : (shown.stored handRecorded handRecordedWorld handRecordedFile comparison).1 =
      .ok "/srv/save/u/b/lexer/a.expected.txt" := by decide +kernel
  have hsave : saved.result = .ok () := by
    simp only [saved, hengine]
    exact congrArg Outcome.result (save_of_ok rfl rfl hcurrent hstored)
  obtain ⟨file, proposed, held, hloaded, hproposed, ⟨_, hlength, hrecord, hothers⟩, ⟨hread, _⟩,
    hheld, _⟩ := save_records_proposal handRecorded .off
      [⟨.selectStage "lexer", handRecordedWorld⟩, ⟨.selectFile "a", handRecordedWorld⟩]
      handRecordedWorld hsave
  change engine.loaded = some file at hloaded
  change engine.current = some proposed at hproposed
  change held.record? engine.position = _ at hrecord
  change ∀ other < _, other ≠ engine.position → _ at hothers
  rw [hengine] at hloaded hproposed hrecord hothers
  obtain rfl : handRecordedFile = file := Option.some.inj hloaded
  obtain rfl := Option.some.inj (hcurrent.symm.trans hproposed)
  refine ⟨hsave, held, ?_, ?_, hread⟩
  · exact congrArg (fun engine : Engine => engine.loaded.bind LoadedFile.fixture) hheld
  · obtain ⟨first, second, hrecords⟩ := List.length_eq_two.mp hlength
    have hfirst : held.record? 0 = first := by rw [Fixture.record?, hrecords]; rfl
    have hsecond : held.record? 1 = second := by rw [Fixture.record?, hrecords]; rfl
    have hkept : held.record? 1 = some ⟨"by hand", ⟨0, 7⟩, ⟨-1, 2⟩⟩ :=
      hothers 1 (by decide) (by decide)
    rw [hrecords, ← hfirst, ← hsecond, hkept]
    exact congrArg (fun first => [first, _]) hrecord

end Engine

end SpanReview
