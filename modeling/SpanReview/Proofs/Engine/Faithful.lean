import SpanReview.Proofs.Engine.Coherence
import SpanReview.Proofs.Engine.Load
import SpanReview.Proofs.Fixture.Store
import SpanReview.Proofs.Span.Inside
import SpanReview.Source.Memory

namespace SpanReview

/-! Whatever was done, the loaded file is what the source gives for its name, and every
number that is recorded for it, or proposed to be, is one that a fixture can hold. -/

/-- The source answers the same at each call and leaves the fixtures as they are. Its texts
are no longer than a word can count. -/
structure Setup.Steady (setup : Setup σ) : Prop where
  readCase : ∀ stage name world later,
    (setup.source.readCase stage name world).1 = (setup.source.readCase stage name later).1
  nodes : ∀ stage text name world later,
    (setup.source.nodes stage text name world).1 = (setup.source.nodes stage text name later).1
  load_readCase : ∀ key stage name world,
    setup.store.load key (setup.source.readCase stage name world).2.disk =
      setup.store.load key world.disk
  load_nodes : ∀ key stage text name world,
    setup.store.load key (setup.source.nodes stage text name world).2.disk =
      setup.store.load key world.disk
  short : ∀ stage name world text, (setup.source.readCase stage name world).1 = .ok text →
    (text.length : Int) < Text.maxWord

theorem CaseEntry.of_find? {entries : List CaseEntry} {name text : String} {entry : CaseEntry}
    (h : CaseEntry.find? entries name = some (entry, text)) :
    entry ∈ entries ∧ entry.text = some text := by
  obtain ⟨found, hmem, hfound⟩ := List.exists_of_findSome?_eq_some h
  split at hfound
  · obtain ⟨_, htext, hpair⟩ := Option.map_eq_some_iff.mp hfound
    cases hpair
    exact ⟨hmem, htext⟩
  · cases hfound

theorem Setup.steady_of_entries {setup : Setup σ} {entries : List CaseEntry}
    {unlisted : List String} (hsource : setup.source = .ofEntries entries unlisted)
    (hshort : ∀ entry ∈ entries, ∀ text ∈ entry.text, (text.length : Int) < Text.maxWord) :
    setup.Steady := by
  have hread (stage : Stage) (name : String) :
      ∃ result, ∀ world, setup.source.readCase stage name world = (result, world) := by
    simp only [hsource, TokenSource.ofEntries]
    cases CaseEntry.find? entries name <;> exact ⟨_, fun _ => rfl⟩
  have hnodes (stage : Stage) (text name : String) :
      ∃ result, ∀ world, setup.source.nodes stage text name world = (result, world) := by
    simp only [hsource, TokenSource.ofEntries]
    cases CaseEntry.find? entries name <;> exact ⟨_, fun _ => rfl⟩
  refine ⟨?_, ?_, ?_, ?_, ?_⟩
  · intro stage name world later
    obtain ⟨_, hresult⟩ := hread stage name
    rw [hresult, hresult]
  · intro stage text name world later
    obtain ⟨_, hresult⟩ := hnodes stage text name
    rw [hresult, hresult]
  · intro key stage name world
    obtain ⟨_, hresult⟩ := hread stage name
    rw [hresult]
  · intro key stage text name world
    obtain ⟨_, hresult⟩ := hnodes stage text name
    rw [hresult]
  · intro stage name world text htext
    simp only [hsource, TokenSource.ofEntries] at htext
    split at htext
    · rename_i entry found hfound
      cases htext
      obtain ⟨hentry, hgiven⟩ := CaseEntry.of_find? hfound
      exact hshort entry hentry text hgiven
    · cases htext

/-- As the source gives it for its name, with records of numbers that fit words. -/
structure LoadedFile.Faithful (setup : Setup σ) (stage : Stage) (file : LoadedFile) : Prop where
  key : file.key = setup.keyFor stage file.name
  source : ∃ text world later, (setup.source.readCase stage file.name world).1 = .ok text ∧
    (setup.source.nodes stage text file.name later).1 = .ok file.nodes ∧
    file.lines = LineTable.ofText text
  records : ∀ fixture, file.fixture = some fixture → ∀ span, some span ∈ fixture.records →
    span.start.FitsWords ∧ span.finish.FitsWords

namespace Setup

variable {setup : Setup σ} {stage : Stage} {name : String} {world : World σ} {file : LoadedFile}

theorem loadFile_recordable (hload : (setup.loadFile stage name world).1 = .ok file)
    {fixture : Fixture} (hfixture : file.fixture = some fixture) :
    ∀ span, some span ∈ fixture.records → span.Recordable := by
  obtain ⟨_, _, _, _, _, hstored, _⟩ := loadFile_ok hload
  rw [hfixture] at hstored
  exact (FixtureStore.recordable_of_load hstored).2

theorem loadFile_faithful (hload : (setup.loadFile stage name world).1 = .ok file) :
    file.Faithful setup stage := by
  obtain ⟨text, read, parsed, hread, hnodes, _, hkey, hlines⟩ := loadFile_ok hload
  rw [← loadFile_name hload] at hread hnodes hkey
  refine ⟨hkey, ⟨text, world, read, congrArg Prod.fst hread, congrArg Prod.fst hnodes, hlines⟩, ?_⟩
  intro fixture hfixture span hspan
  have hrecordable := loadFile_recordable hload hfixture span hspan
  exact ⟨hrecordable.start, hrecordable.finish⟩

theorem loadIndex_faithful {engine : Engine} {index : Nat}
    (hload : (setup.loadIndex engine index world).1 = .ok file) :
    ∃ stage, engine.stage = some stage ∧ file.Faithful setup stage := by
  obtain ⟨stage, _, hstage, _, hfile⟩ := loadIndex_ok hload
  exact ⟨stage, hstage, loadFile_faithful hfile⟩

end Setup

namespace LoadedFile

variable {setup : Setup σ} {stage : Stage} {file : LoadedFile} {position : Nat} {span : Span}

/-- The file with a span recorded at a position. -/
def recordedAt (file : LoadedFile) (position : Nat) (span : Span) : LoadedFile :=
  { file with fixture := some ⟨file.key, Engine.recordsWith file position span⟩ }

theorem mem_recordsWith {recorded : Span}
    (h : some recorded ∈ Engine.recordsWith file position span) :
    recorded = span ∨ ∃ fixture, file.fixture = some fixture ∧ some recorded ∈ fixture.records := by
  rcases List.mem_or_eq_of_mem_set h with hkept | hnew
  · obtain ⟨i, _, hrecord⟩ := List.mem_map.mp hkept
    obtain ⟨fixture, hfixture, hrecord⟩ := Option.bind_eq_some_iff.mp hrecord
    exact .inr ⟨fixture, hfixture, List.mem_of_getElem? (Option.join_eq_some_iff.mp hrecord)⟩
  · exact .inl (Option.some.inj hnew)

theorem Faithful.recordedAt (h : file.Faithful setup stage) (hsteady : setup.Steady)
    (hinside : span.Inside file.lines) (position : Nat) :
    (file.recordedAt position span).Faithful setup stage := by
  refine ⟨h.key, h.source, ?_⟩
  intro fixture hfixture recorded hrecorded
  cases hfixture
  rcases mem_recordsWith hrecorded with rfl | ⟨fixture, hfixture, hkept⟩
  · obtain ⟨text, world, _, htext, _, hlines⟩ := h.source
    have hshort := hsteady.short stage file.name world text htext
    rw [hlines] at hinside
    exact ⟨LineTable.fitsWords_of_contains hshort hinside.1,
      LineTable.fitsWords_of_contains hshort hinside.2⟩
  · exact h.records fixture hfixture recorded hkept

end LoadedFile

namespace Engine

variable {setup : Setup σ} {engine : Engine}

/-- The loaded file is faithful, and what is proposed is inside its text. -/
structure Faithful (setup : Setup σ) (engine : Engine) : Prop where
  loaded : ∀ file, engine.loaded = some file →
    ∃ stage, engine.stage = some stage ∧ file.Faithful setup stage
  proposed : ∀ file comparison, engine.loaded = some file → engine.current = some comparison →
    comparison.proposed.Inside file.lines

theorem start_faithful (setup : Setup σ) (display : DisplayOptions) :
    (start display).Faithful setup where
  loaded := by
    intro _ hloaded
    contradiction
  proposed := by
    intro _ _ hloaded
    contradiction

/-- A fresh comparison proposes a span that was fitted into the text. -/
theorem faithful_rest (h : ∀ file, engine.loaded = some file →
    ∃ stage, engine.stage = some stage ∧ file.Faithful setup stage) :
    engine.rest.Faithful setup where
  loaded := h
  proposed := by
    intro file comparison hloaded hcurrent
    obtain ⟨_, shown, hshown, hcompare⟩ := comparison?_eq_some_iff.mp hcurrent
    obtain rfl : shown = file := Option.some.inj (hshown.symm.trans hloaded)
    obtain ⟨node, _, rfl⟩ := LoadedFile.compareAt_eq_some_iff.mp hcompare
    exact LineTable.inside_fixEndpoints _ _ _ _

theorem Change.keeps_faithful (hsteady : setup.Steady) {first last : Engine}
    (hchange : Change setup first last) (h : first.Faithful setup) : last.Faithful setup := by
  cases hchange with
  | stage stage files =>
      exact ⟨by intro _ hloaded; contradiction, by intro _ _ hloaded; contradiction⟩
  | compare => exact faithful_rest h.loaded
  | land index hload =>
      refine faithful_rest fun file hloaded => ?_
      cases hloaded
      exact Setup.loadIndex_faithful hload
  | move position hlt => exact faithful_rest h.loaded
  | back => exact faithful_rest h.loaded
  | exhaust hlast => exact ⟨h.loaded, by intro _ _ _ hcurrent; contradiction⟩
  | propose endpoint amount hloaded hcurrent =>
      refine ⟨h.loaded, ?_⟩
      intro file comparison hfile hcomparison
      obtain rfl := Option.some.inj (hfile.symm.trans hloaded)
      cases hcomparison
      exact LineTable.inside_moveEndpoint endpoint amount (h.proposed _ _ hloaded hcurrent)
  | record hloaded hcurrent =>
      refine faithful_rest fun file hfile => ?_
      cases hfile
      obtain ⟨stage, hstage, hfaithful⟩ := h.loaded _ hloaded
      exact ⟨stage, hstage,
        hfaithful.recordedAt hsteady (h.proposed _ _ hloaded hcurrent) first.position⟩
  | _ => exact ⟨h.loaded, h.proposed⟩

theorem perform_faithful (hsteady : setup.Steady) (hrun : engine.runMode = false)
    (operation : Operation) (world : World σ) (h : engine.Faithful setup) :
    (operation.perform setup engine world).Faithful setup := by
  by_cases hmiss : ∃ index, operation.Misses setup engine world index
  · obtain ⟨index, hmiss⟩ := hmiss
    rw [Operation.perform_of_misses hmiss]
    exact ⟨h.loaded, h.proposed⟩
  · exact (Operation.perform_changes hrun (not_exists.mp hmiss)).keeps
      (Change.keeps_faithful hsteady) h

theorem Reachable.faithful (hsteady : setup.Steady) (h : engine.Reachable setup) :
    engine.Faithful setup := by
  obtain ⟨display, calls, rfl⟩ := h
  have hcall : ∀ engine (call : Call σ), engine.Coherent ∧ engine.Faithful setup →
      (call.apply setup engine).Coherent ∧ (call.apply setup engine).Faithful setup := by
    rintro engine call ⟨hcoherent, hfaithful⟩
    exact ⟨perform_coherent call.operation call.world hcoherent,
      perform_faithful hsteady hcoherent.runMode_off call.operation call.world hfaithful⟩
  exact (after_keeps hcall calls ⟨start_coherent display, start_faithful setup display⟩).2

end Engine

end SpanReview
