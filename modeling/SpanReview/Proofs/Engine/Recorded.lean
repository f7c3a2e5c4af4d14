import SpanReview.Proofs.Engine.Search
import SpanReview.Proofs.Node

namespace SpanReview

/-! A location counts as right only where it was recorded as it is. The span that stands for
a missing record has no line and no column, and no node lies there. -/

namespace LoadedFile

variable {file : LoadedFile} {position : Nat} {node : Node}

def record? (file : LoadedFile) (position : Nat) : Option Span :=
  file.fixture.bind (·.record? position)

/-- Nothing that a node could match is recorded for the position. -/
inductive Lacks (file : LoadedFile) (position : Nat) : Prop
  | noFixture (h : file.fixture = none)
  | pastEnd {fixture : Fixture} (h : file.fixture = some fixture)
      (hend : fixture.records.length ≤ position)
  | empty {fixture : Fixture} (h : file.fixture = some fixture)
      (hempty : fixture.records[position]? = some none)
  | belowOne {fixture : Fixture} {span : Span} (h : file.fixture = some fixture)
      (hrecord : fixture.records[position]? = some (some span))
      (hbelow : span.start.line < 1 ∨ span.start.column < 1 ∨
        span.finish.line < 1 ∨ span.finish.column < 1)

theorem Lacks.sentinel {fixture : Fixture} (h : file.fixture = some fixture)
    (hrecord : fixture.records[position]? = some (some Span.sentinel)) : file.Lacks position :=
  .belowOne h hrecord (.inl (by decide))

def Resolved (file : LoadedFile) : Prop :=
  ∀ node ∈ file.nodes, node.span.isResolved

theorem Resolved.at (h : file.Resolved) (hnode : file.nodes[position]? = some node) :
    node.span.isResolved :=
  h node (List.mem_of_getElem? hnode)

theorem expectedAt_eq_iff {span : Span} (hspan : span.isResolved) :
    span = file.expectedAt position ↔ file.record? position = some span := by
  rw [expectedAt_eq, record?]
  cases file.fixture.bind (·.record? position) with
  | none =>
      simp only [Option.getD_none, reduceCtorEq, iff_false]
      rintro rfl
      contradiction
  | some recorded => simp [eq_comm]

theorem Lacks.record_unresolved (h : file.Lacks position) {span : Span}
    (hrecord : file.record? position = some span) : span.isResolved = false := by
  obtain ⟨fixture, hfixture, hjoined⟩ := Option.bind_eq_some_iff.mp hrecord
  have hsome : fixture.records[position]? = some (some span) := Option.join_eq_some_iff.mp hjoined
  cases h with
  | noFixture hnone =>
      rw [hnone] at hfixture
      contradiction
  | pastEnd hother hend =>
      obtain rfl := Option.some.inj (hother.symm.trans hfixture)
      rw [List.getElem?_eq_none hend] at hsome
      contradiction
  | empty hother hempty =>
      obtain rfl := Option.some.inj (hother.symm.trans hfixture)
      cases hempty.symm.trans hsome
  | belowOne hother hrecorded hbelow =>
      obtain rfl := Option.some.inj (hother.symm.trans hfixture)
      obtain rfl := Option.some.inj (Option.some.inj (hrecorded.symm.trans hsome))
      rw [← Bool.not_eq_true, Span.isResolved_iff]
      omega

theorem Lacks.ne_expectedAt (h : file.Lacks position) {span : Span} (hspan : span.isResolved) :
    span ≠ file.expectedAt position := by
  intro hequal
  have hrecord := (expectedAt_eq_iff hspan).mp hequal
  exact Bool.false_ne_true ((h.record_unresolved hrecord).symm.trans hspan)

theorem Resolved.expectedAt_iff (h : file.Resolved) (hnode : file.nodes[position]? = some node) :
    node.span = file.expectedAt position ↔ file.record? position = some node.span :=
  expectedAt_eq_iff (h.at hnode)

theorem Resolved.mem_mismatches_iff (h : file.Resolved)
    (hnode : file.nodes[position]? = some node) :
    position ∈ file.mismatches ↔ file.record? position ≠ some node.span := by
  rw [mem_mismatches, ne_eq, ← h.expectedAt_iff hnode]
  simp [hnode]

end LoadedFile

namespace Engine

variable {setup : Setup σ} {engine : Engine} {world : World σ}

/-- No node of the loaded file lies at the place of a missing record. -/
def Resolved (engine : Engine) : Prop :=
  ∀ file, engine.loaded = some file → file.Resolved

theorem loadIndex_resolved (hsource : setup.source.ReadsJson) {index : Nat} {file : LoadedFile}
    (hload : (setup.loadIndex engine index world).1 = .ok file) : file.Resolved := by
  obtain ⟨stage, name, _, _, hfile⟩ := Setup.loadIndex_ok hload
  obtain ⟨text, read, parsed, _, hnodes, _⟩ := Setup.loadFile_ok hfile
  obtain ⟨defaults, form, value, part, hpositive, hread⟩ :=
    hsource stage text name read file.nodes (congrArg Prod.fst hnodes)
  exact hpositive.nodesOf_resolved hread

theorem Change.keeps_resolved (hsource : setup.source.ReadsJson) {first last : Engine}
    (hchange : Change setup first last) (h : first.Resolved) : last.Resolved := by
  cases hchange with
  | stage stage files =>
      intro file hloaded
      contradiction
  | land index hload =>
      intro file hloaded
      cases hloaded
      exact loadIndex_resolved hsource hload
  | record hloaded hcurrent =>
      intro file hfile
      cases hfile
      have hresolved := h _ hloaded
      exact hresolved
  | _ => exact h

theorem perform_resolved (hsource : setup.source.ReadsJson) (hrun : engine.runMode = false)
    (operation : Operation) (world : World σ) (h : engine.Resolved) :
    (operation.perform setup engine world).Resolved := by
  by_cases hmiss : ∃ index, operation.Misses setup engine world index
  · obtain ⟨index, hmiss⟩ := hmiss
    rw [Operation.perform_of_misses hmiss]
    exact h
  · exact (Operation.perform_changes hrun (not_exists.mp hmiss)).keeps
      (Change.keeps_resolved hsource) h

theorem Reachable.resolved (hsource : setup.source.ReadsJson) (h : engine.Reachable setup) :
    engine.Resolved := by
  obtain ⟨display, calls, rfl⟩ := h
  have hcall : ∀ engine (call : Call σ), engine.Coherent ∧ engine.Resolved →
      (call.apply setup engine).Coherent ∧ (call.apply setup engine).Resolved := by
    rintro engine call ⟨hcoherent, hresolved⟩
    exact ⟨perform_coherent call.operation call.world hcoherent,
      perform_resolved hsource hcoherent.runMode_off call.operation call.world hresolved⟩
  have hstart : (start display).Resolved := by
    intro _ hloaded
    contradiction
  exact (after_keeps hcall calls ⟨start_coherent display, hstart⟩).2

/-! The nodes that a run comes to, of which it passes over all but the last. -/

/-- A run does not stop at the node that it stands at. -/
structure PassesOver (engine : Engine) : Prop where
  running : engine.runMode = true
  matched : ∃ comparison, engine.comparison? = some comparison ∧ comparison.isMatch
  unpaused : engine.runPause ≠ some engine.position

/-- The engines that a run compares with, each in the world it has by then. -/
inductive RunComesTo (setup : Setup σ) (engine : Engine) (world : World σ) :
    Engine → World σ → Prop
  | first {file : LoadedFile} (hexhausted : engine.isExhausted = false)
      (hloaded : engine.loaded = some file) (hunparked : engine.isParked = false) :
      RunComesTo setup engine world { engine with runMode := true } world
  | afterPark {file : LoadedFile} (hexhausted : engine.isExhausted = false)
      (hloaded : engine.loaded = some file) (hparked : engine.isParked)
      {here : Engine} {there : World σ}
      (hadvance :
        { engine with runMode := true }.runAdvance setup world = ⟨.ok true, here, there⟩) :
      RunComesTo setup engine world here there
  | round {before here : Engine} {earlier there : World σ}
      (hbefore : RunComesTo setup engine world before earlier) (hpasses : before.PassesOver)
      (hadvance : { before with runPause := none }.runAdvance setup earlier =
        ⟨.ok true, here, there⟩) :
      RunComesTo setup engine world here there

variable {here : Engine} {there : World σ}

/-- A run ends as it does from any of the engines that it comes to. -/
theorem RunComesTo.run_eq (h : RunComesTo setup engine world here there) :
    engine.run setup world =
      reportRun (engine.fileIndex, engine.position) (here.recompute setup there) := by
  induction h with
  | first hexhausted hloaded hunparked => exact run_unparked hexhausted hloaded hunparked
  | afterPark hexhausted hloaded hparked hadvance =>
      rw [run_parked hexhausted hloaded hparked, hadvance]
      rfl
  | round hbefore hpasses hadvance ih =>
      obtain ⟨comparison, hsome, hmatch⟩ := hpasses.matched
      rw [ih, recompute_skip hpasses.running hsome hmatch hpasses.unpaused, hadvance]
      rfl

/-! A run compares only where a node is. -/

structure ComesToNode (engine last : Engine) : Prop where
  stands : ∃ site, last.StandsAt site
  runMode : last.runMode = engine.runMode

theorem enterNextFile_comesToNode (hok : (engine.enterNextFile setup world).result = .ok true) :
    engine.ComesToNode (engine.enterNextFile setup world).engine := by
  fun_induction enterNextFile setup engine world with
  | case1 => cases hok
  | case2 engine world hlt file world' hload hempty ih =>
      obtain ⟨hstands, hrun⟩ := ih hok
      exact ⟨hstands, hrun⟩
  | case3 engine world hlt file world' hload hfull =>
      have hpos : 0 < file.nodes.length := List.length_pos_iff.mpr (by simpa using hfull)
      exact ⟨⟨⟨engine.fileIndex + 1, file, 0⟩, rfl, rfl, rfl, hpos, rfl⟩, rfl⟩
  | case4 => cases hok

theorem advance_comesToNode (hexhausted : engine.isExhausted = false)
    (hok : (engine.advance setup world).result = .ok true) :
    engine.ComesToNode (engine.advance setup world).engine := by
  unfold advance at hok ⊢
  split
  · rename_i hlt
    obtain ⟨file, hloaded⟩ : ∃ file, engine.loaded = some file := by
      apply Option.ne_none_iff_exists'.mp
      intro hnone
      simp [nodeCount, hnone] at hlt
    rw [nodeCount_of_loaded hloaded] at hlt
    exact ⟨⟨⟨engine.fileIndex, file, engine.position + 1⟩, hloaded, rfl, rfl, hlt, hexhausted⟩, rfl⟩
  · rename_i hge
    rw [if_neg hge] at hok
    exact enterNextFile_comesToNode hok

theorem runAdvance_comesToNode (hexhausted : engine.isExhausted = false)
    (hadvance : engine.runAdvance setup world = ⟨.ok true, here, there⟩) :
    engine.ComesToNode here := by
  cases hresult : (engine.advance setup world).result with
  | error e =>
      rw [runAdvance_of_error hresult] at hadvance
      cases congrArg Outcome.result hadvance
  | ok moved =>
      rw [runAdvance_of_ok hresult] at hadvance
      have hmoved : (engine.advance setup world).result = .ok true := by rw [hadvance]
      have hcomes := advance_comesToNode hexhausted hmoved
      rwa [hadvance] at hcomes

theorem RunComesTo.stands (hcoherent : engine.Coherent)
    (h : RunComesTo setup engine world here there) :
    (∃ site, here.StandsAt site) ∧ here.runMode = true := by
  induction h with
  | first hexhausted hloaded hunparked =>
      have hstands := (hcoherent.stands_of_unparked hexhausted hloaded hunparked).1
      exact ⟨⟨_, hstands.loaded, rfl, rfl, hstands.inFile, hexhausted⟩, rfl⟩
  | afterPark hexhausted _ _ hadvance =>
      have hrunning : ({ engine with runMode := true } : Engine).isExhausted = false := hexhausted
      obtain ⟨hstands, hrun⟩ := runAdvance_comesToNode hrunning hadvance
      exact ⟨hstands, hrun⟩
  | @round before _ _ _ _ _ hadvance ih =>
      obtain ⟨⟨site, hstands⟩, hrun⟩ := ih
      have hresumed : ({ before with runPause := none } : Engine).isExhausted = false :=
        hstands.notExhausted
      obtain ⟨hlast, hkept⟩ := runAdvance_comesToNode hresumed hadvance
      exact ⟨hlast, hkept.trans hrun⟩

theorem runAdvance_resolved (hsource : setup.source.ReadsJson) (h : engine.Resolved) :
    (engine.runAdvance setup world).engine.Resolved :=
  (runAdvance_changes setup engine world).keeps (Change.keeps_resolved hsource) h

theorem RunComesTo.resolved (hsource : setup.source.ReadsJson) (hengine : engine.Resolved)
    (h : RunComesTo setup engine world here there) : here.Resolved := by
  induction h with
  | first => exact hengine
  | afterPark _ _ _ hadvance =>
      have hresolved : (runAdvance setup { engine with runMode := true } world).engine.Resolved :=
        runAdvance_resolved hsource hengine
      rwa [hadvance] at hresolved
  | @round before _ earlier _ _ _ hadvance ih =>
      have hresolved :
          (runAdvance setup { before with runPause := none } earlier).engine.Resolved :=
        runAdvance_resolved hsource ih
      rwa [hadvance] at hresolved

/-! What counts as right, shown, listed and in a run. -/

theorem PassesOver.recorded (h : here.PassesOver) (hresolved : here.Resolved) {file : LoadedFile}
    {node : Node} (hloaded : here.loaded = some file)
    (hnode : file.nodes[here.position]? = some node) :
    file.record? here.position = some node.span := by
  obtain ⟨comparison, hsome, hmatch⟩ := h.matched
  obtain ⟨_, shown, hshown, hcompare⟩ := comparison?_eq_some_iff.mp hsome
  obtain rfl : file = shown := Option.some.inj (hloaded.symm.trans hshown)
  obtain ⟨compared, hcompared, rfl⟩ := LoadedFile.compareAt_eq_some_iff.mp hcompare
  obtain rfl : node = compared := Option.some.inj (hnode.symm.trans hcompared)
  exact ((hresolved file hloaded).expectedAt_iff hnode).mp (eq_of_beq hmatch)

theorem RunComesTo.run_stops {site : Site} (h : RunComesTo setup engine world here there)
    (hstands : here.StandsAt site) (hrun : here.runMode = true) (hdiffers : site.Differs) :
    (engine.run setup world).engine.StandsAt site ∧
      (engine.run setup world).engine.current.map Comparison.isMatch = some false := by
  obtain ⟨comparison, hsome, hmatch⟩ := hstands.comparison
  have hfalse : comparison.isMatch = false := hmatch.mpr hdiffers
  rw [h.run_eq, reportRun_engine, recompute_stop hrun hsome hfalse]
  exact ⟨⟨hstands.loaded, hstands.fileIndex, hstands.position, hstands.inFile,
    hstands.notExhausted⟩, congrArg some hfalse⟩

/-- Nodes are read at lines and columns of at least one. So, with any fixtures and after any
calls, the listed mismatches, the comparison shown and every run agree that a node is right
only if its own span is recorded for it, and never where a record is lacking. -/
theorem matches_only_recorded (hsource : setup.source.ReadsJson)
    (hreach : engine.Reachable setup) :
    (∀ (defaults : LocationDefaults) (form : Stage) (value : Json) (name : String)
        (nodes : List Node), defaults.Positive → defaults.nodesOf form value name = .ok nodes →
      ∀ node ∈ nodes, 1 ≤ node.span.start.line ∧ 1 ≤ node.span.start.column ∧
        1 ≤ node.span.finish.line ∧ 1 ≤ node.span.finish.column) ∧
    (∀ file position node, engine.loaded = some file → file.nodes[position]? = some node →
      (position ∉ engine.mismatches ↔ file.record? position = some node.span) ∧
      (file.Lacks position → position ∈ engine.mismatches)) ∧
    (∀ comparison, engine.current = some comparison →
      ∃ file node, engine.loaded = some file ∧ file.nodes[engine.position]? = some node ∧
        comparison.actual = node.span ∧
        (comparison.isMatch ↔ file.record? engine.position = some node.span) ∧
        (file.Lacks engine.position → comparison.isMatch = false)) ∧
    (∀ (world : World σ) (here : Engine) (there : World σ),
      RunComesTo setup engine world here there →
      engine.run setup world =
          reportRun (engine.fileIndex, engine.position) (here.recompute setup there) ∧
      ∃ file node, here.loaded = some file ∧ file.nodes[here.position]? = some node ∧
        (here.PassesOver → file.record? here.position = some node.span) ∧
        (file.Lacks here.position →
          (engine.run setup world).engine.StandsAt ⟨here.fileIndex, file, here.position⟩ ∧
          (engine.run setup world).engine.current.map Comparison.isMatch = some false)) := by
  have hresolved := hreach.resolved hsource
  refine ⟨?_, ?_, ?_, ?_⟩
  · intro defaults form value name nodes hpositive hnodes node hnode
    exact Span.isResolved_iff.mp (hpositive.nodesOf_resolved hnodes node hnode)
  · intro file position node hloaded hnode
    have hfile := hresolved file hloaded
    have hlisted : engine.mismatches = file.mismatches := by
      rw [mismatches, hloaded]
    rw [hlisted]
    refine ⟨by rw [hfile.mem_mismatches_iff hnode, not_not], fun hlacks => ?_⟩
    exact LoadedFile.mem_mismatches.mpr ⟨node, hnode, hlacks.ne_expectedAt (hfile.at hnode)⟩
  · intro comparison hcurrent
    obtain ⟨file, node, hloaded, hnode, hactual, hexpected⟩ :=
      hreach.coherent.node_of_current hcurrent
    have hfile := hresolved file hloaded
    refine ⟨file, node, hloaded, hnode, hactual, ?_, fun hlacks => ?_⟩
    · rw [Comparison.isMatch, hactual, hexpected, beq_iff_eq, hfile.expectedAt_iff hnode]
    · rw [Comparison.isMatch, hactual, hexpected]
      exact beq_false_of_ne (hlacks.ne_expectedAt (hfile.at hnode))
  · intro world here there hcomes
    obtain ⟨⟨⟨index, file, position⟩, hstands⟩, hrun⟩ := hcomes.stands hreach.coherent
    obtain rfl : here.fileIndex = index := hstands.fileIndex
    obtain rfl : here.position = position := hstands.position
    obtain ⟨node, hnode⟩ : ∃ node, file.nodes[here.position]? = some node :=
      ⟨_, List.getElem?_eq_getElem hstands.inFile⟩
    have hhere := hcomes.resolved hsource hresolved
    refine ⟨hcomes.run_eq, file, node, hstands.loaded, hnode, fun hpasses => ?_, fun hlacks => ?_⟩
    · exact hpasses.recorded hhere hstands.loaded hnode
    · have hresolvedNode := (hhere file hstands.loaded).at hnode
      exact hcomes.run_stops hstands hrun ⟨node, hnode, hlacks.ne_expectedAt hresolvedNode⟩

theorem run_stops_without_fixture :
    let listed : Engine :=
      { start .off with stage := some .lexer, files := ["a.pug", "b.pug", "c.pug"] }
    let shown := (listed.place 0 recordedFile).rest
    shown.Reachable firstRecorded ∧ 0 ∉ shown.mismatches ∧
    ∃ here there, RunComesTo firstRecorded shown recordedWorld here there ∧
      here.loaded = some unrecordedFile ∧ unrecordedFile.Lacks here.position ∧
      (shown.run firstRecorded recordedWorld).engine.current.map Comparison.isMatch =
        some false := by
  intro listed shown
  have hname : listed.fileNamed? firstRecorded (Text.trim "a") = some 0 := by decide
  have hselect : Operation.perform firstRecorded listed recordedWorld (.selectFile "a") = shown :=
    congrArg Outcome.engine (selectFile_of_off rfl rfl hname loadFile_recorded)
  have hreach : shown.Reachable firstRecorded :=
    ⟨.off, [⟨.selectStage "lexer", recordedWorld⟩, ⟨.selectFile "a", recordedWorld⟩], hselect⟩
  obtain ⟨_, hlisted, _, hrun⟩ :=
    matches_only_recorded (TokenSource.ofEntries_readsJson _ _) hreach
  have hunmatched := (hlisted recordedFile 0 _ rfl rfl).1.mpr rfl
  have hpasses : PassesOver { shown with runMode := true } := ⟨rfl, ⟨_, rfl, rfl⟩, by decide⟩
  have hahead : Ahead firstRecorded { shown with runMode := true, runPause := none }
      recordedWorld [⟨2, unrecordedFile, 0⟩] :=
    ⟨recordedFile, [emptyFile, unrecordedFile], rfl,
      ⟨.lexer, recordedWorld, rfl, loads_after_recorded⟩, rfl⟩
  have harrives := runAdvance_arrives hahead rfl
  generalize hadvance : runAdvance firstRecorded _ recordedWorld = outcome at harrives
  obtain ⟨result, here, there⟩ := outcome
  obtain rfl : result = .ok true := harrives.result
  have hcomes : RunComesTo firstRecorded shown recordedWorld here there :=
    .round (.first rfl rfl rfl) hpasses hadvance
  have hloaded : here.loaded = some unrecordedFile := harrives.stands.loaded
  have hlacks : unrecordedFile.Lacks here.position := .noFixture rfl
  obtain ⟨_, file, _, hsame, _, _, hstops⟩ := hrun recordedWorld here there hcomes
  obtain rfl : unrecordedFile = file := Option.some.inj (hloaded.symm.trans hsame)
  exact ⟨hreach, hunmatched, here, there, hcomes, hloaded, hlacks, (hstops hlacks).2⟩

end Engine

end SpanReview
