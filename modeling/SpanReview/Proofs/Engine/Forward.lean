import Mathlib.Data.List.Forall2
import SpanReview.Proofs.Engine.Stops

namespace SpanReview

/-! Steps forward come to each node of the loaded file and of the files after it once, in
the order of the list, and end when there is none left. -/

theorem Site.mem_addresses {first index position : Nat} {files : List LoadedFile} :
    (index, position) ∈ (ofFiles first files).map address ↔
      first ≤ index ∧ ∃ file, files[index - first]? = some file ∧ position < file.nodes.length := by
  constructor
  · intro h
    obtain ⟨site, hsite, haddress⟩ := List.mem_map.mp h
    obtain ⟨hle, hfile, hlt⟩ := mem_ofFiles.mp hsite
    cases haddress
    exact ⟨hle, site.file, hfile, hlt⟩
  · rintro ⟨hle, file, hfile, hlt⟩
    have hmem : ⟨index, file, position⟩ ∈ ofFiles first files := mem_ofFiles.mpr ⟨hle, hfile, hlt⟩
    exact List.mem_map.mpr ⟨_, hmem, rfl⟩

namespace Engine

/-- Steps forward one after another, until the first that reports that the engine is
exhausted: the engines that the others leave, and the one that it leaves. -/
inductive WalksTo (setup : Setup σ) : Engine → World σ → List Engine → Engine → Prop
  | exhausted : engine.next setup world = ⟨.ok .exhausted, last, later⟩ →
      WalksTo setup engine world [] last
  | step : engine.next setup world = ⟨.ok .moved, there, later⟩ →
      WalksTo setup there later visited last →
      WalksTo setup engine world (there :: visited) last

variable {setup : Setup σ} {engine : Engine} {world : World σ} {site : Site}

def address (engine : Engine) : Nat × Nat :=
  (engine.fileIndex, engine.position)

/-- The engine stands at a site, with the span of its node and what is recorded for it. -/
structure Shows (engine : Engine) (site : Site) : Prop where
  stands : engine.StandsAt site
  compared : ∃ comparison node, engine.current = some comparison ∧
    site.file.nodes[site.position]? = some node ∧ comparison.actual = node.span ∧
    comparison.expected = site.file.expectedAt site.position

theorem AtRest.shows (hrest : engine.AtRest) (hstands : engine.StandsAt site) :
    engine.Shows site := by
  obtain ⟨node, hnode⟩ : ∃ node, site.file.nodes[site.position]? = some node :=
    ⟨_, List.getElem?_eq_getElem hstands.inFile⟩
  have hcompare := LoadedFile.compareAt_eq_some_iff.mpr ⟨node, hnode, rfl⟩
  rw [← hstands.position] at hcompare
  have hsome := comparison?_eq_some_iff.mpr
    ⟨hstands.notExhausted, site.file, hstands.loaded, hcompare⟩
  have hcurrent : engine.current = engine.comparison? := (congrArg Engine.current hrest).symm
  exact ⟨hstands, _, node, hcurrent.trans hsome, hnode, rfl, by rw [hstands.position]⟩

theorem Shows.isSome (h : engine.Shows site) : engine.current.isSome := by
  obtain ⟨comparison, _, hcurrent, _⟩ := h.compared
  rw [hcurrent]
  rfl

theorem Shows.address_eq (h : engine.Shows site) : engine.address = site.address := by
  rw [address, h.stands.fileIndex, h.stands.position, Site.address]

/-! One step. -/

theorem settle_of_off (hrun : engine.runMode = false) :
    engine.settle setup world = ⟨.ok engine.settled, engine.rest, world⟩ := by
  rw [settle, recompute_of_off hrun]
  rfl

theorem next_of_loaded {file : LoadedFile} (hexhausted : engine.isExhausted = false)
    (hloaded : engine.loaded = some file) :
    engine.next setup world =
      (engine.advance setup world).andThen fun moved last world =>
        if moved then last.settle setup world else ⟨.ok .exhausted, last, world⟩ := by
  rw [next, if_neg (by simp [hexhausted]), if_neg (by simp [hloaded])]

theorem enterNextFile_stage (setup : Setup σ) (engine : Engine) (world : World σ) :
    (engine.enterNextFile setup world).engine.stage = engine.stage := by
  fun_induction enterNextFile setup engine world with
  | case1 engine world hlt error world' hload => rfl
  | case2 engine world hlt file world' hload hempty ih => exact ih
  | case3 engine world hlt file world' hload hfull => rfl
  | case4 engine world hlast => rfl

theorem advance_stage (setup : Setup σ) (engine : Engine) (world : World σ) :
    (engine.advance setup world).engine.stage = engine.stage := by
  rw [advance]
  split
  · rfl
  · exact enterNextFile_stage setup engine world

theorem next_arrives {rest : List Site} (h : engine.Ahead setup world (site :: rest))
    (hexhausted : engine.isExhausted = false) (hrun : engine.runMode = false) :
    ∃ there later, engine.next setup world = ⟨.ok .moved, there, later⟩ ∧ there.AtRest ∧
      there.StandsAt site ∧ there.Ahead setup later rest ∧ there.stage = engine.stage := by
  obtain ⟨file, _, hloaded, _⟩ := id h
  have harrives := advance_arrives h hexhausted
  have hthere := harrives.stands
  have hstage := advance_stage setup engine world
  rw [next_of_loaded hexhausted hloaded, Outcome.andThen, harrives.result]
  simp only [if_true]
  rw [settle_of_off (harrives.runMode.trans hrun), settled, if_neg (by simp [hthere.notExhausted])]
  exact ⟨_, _, rfl, .of_rest _,
    ⟨hthere.loaded, hthere.fileIndex, hthere.position, hthere.inFile, hthere.notExhausted⟩,
    harrives.ahead, hstage⟩

theorem next_exhausts (h : engine.Ahead setup world []) (hexhausted : engine.isExhausted = false) :
    ∃ last later, engine.next setup world = ⟨.ok .exhausted, last, later⟩ ∧
      last.isExhausted ∧ last.stage = engine.stage := by
  obtain ⟨file, _, hloaded, _⟩ := id h
  obtain ⟨hresult, hlast⟩ := advance_exhausts h
  have hstage := advance_stage setup engine world
  rw [next_of_loaded hexhausted hloaded, Outcome.andThen, hresult]
  exact ⟨_, _, rfl, hlast, hstage⟩

/-- Nothing is ahead of an exhausted engine, whatever is asked for. -/
theorem forward_of_exhausted {stage : Stage} (hexhausted : engine.isExhausted)
    (hstage : engine.stage = some stage) (setup : Setup σ) (world : World σ) :
    engine.next setup world = ⟨.ok .exhausted, engine, world⟩ ∧
      engine.nextFile setup world = ⟨.ok .exhausted, engine, world⟩ ∧
      engine.run setup world = ⟨.ok .exhausted, engine, world⟩ := by
  simp [next, nextFile, run, hexhausted, hstage]

/-! All steps. -/

theorem WalksTo.unique {visited other : List Engine} {last last' : Engine}
    (h : WalksTo setup engine world visited last)
    (hother : WalksTo setup engine world other last') : other = visited ∧ last' = last := by
  induction h generalizing other with
  | exhausted hnext =>
      cases hother with
      | exhausted hnext' =>
          cases hnext.symm.trans hnext'
          exact ⟨rfl, rfl⟩
      | step hnext' _ => cases hnext.symm.trans hnext'
  | step hnext _ ih =>
      cases hother with
      | exhausted hnext' => cases hnext.symm.trans hnext'
      | step hnext' hrest =>
          cases hnext.symm.trans hnext'
          obtain ⟨rfl, rfl⟩ := ih hrest
          exact ⟨rfl, rfl⟩

theorem walksTo_of_ahead {sites : List Site} (hrest : engine.AtRest)
    (hexhausted : engine.isExhausted = false) (h : engine.Ahead setup world sites) :
    ∃ visited last, WalksTo setup engine world visited last ∧
      List.Forall₂ Shows visited sites ∧ last.isExhausted ∧ last.stage = engine.stage := by
  induction sites generalizing engine world with
  | nil =>
      obtain ⟨last, later, hnext, hlast, hstage⟩ := next_exhausts h hexhausted
      exact ⟨[], last, .exhausted hnext, .nil, hlast, hstage⟩
  | cons site rest ih =>
      obtain ⟨there, later, hnext, hthere, hstands, hahead, hstage⟩ :=
        next_arrives h hexhausted hrest.runMode_off
      obtain ⟨visited, last, hwalk, hshown, hlast, hstage'⟩ :=
        ih hthere hstands.notExhausted hahead
      exact ⟨there :: visited, last, .step hnext hwalk, .cons (hthere.shows hstands) hshown,
        hlast, hstage'.trans hstage⟩

theorem filter_shown {states : List Engine} {sites : List Site}
    (h : List.Forall₂ Shows states sites) :
    states.filter (fun state => state.current.isSome) = states := by
  induction h with
  | nil => rfl
  | cons hshows _ ih => rw [List.filter_cons, if_pos hshows.isSome, ih]

theorem address_shown {states : List Engine} {sites : List Site}
    (h : List.Forall₂ Shows states sites) : states.map address = sites.map Site.address := by
  induction h with
  | nil => rfl
  | cons hshows _ ih => rw [List.map_cons, List.map_cons, hshows.address_eq, ih]

theorem site_of_shown {states : List Engine} {sites : List Site} {state : Engine}
    (h : List.Forall₂ Shows states sites) (hstate : state ∈ states) :
    ∃ site ∈ sites, state.Shows site := by
  induction h with
  | nil => cases hstate
  | @cons first site _ sites hshows _ ih =>
      rcases List.mem_cons.mp hstate with rfl | hrest
      · exact ⟨site, List.mem_cons_self, hshows⟩
      · obtain ⟨other, hother, hshows'⟩ := ih hrest
        exact ⟨other, List.mem_cons_of_mem _ hother, hshows'⟩

/-- From where a file is loaded, the engines that stand at a node are those of its nodes and
of the nodes of the files after it. -/
theorem walksTo_of_place {index : Nat} {file : LoadedFile} {files : List LoadedFile}
    (hlater : (engine.place index file).LoadsLater setup world files) :
    ∃ visited last, WalksTo setup (engine.place index file).rest world visited last ∧
      List.Forall₂ Shows
        (((engine.place index file).rest :: visited).filter fun state => state.current.isSome)
        (Site.ofFiles index (file :: files)) ∧
      last.isExhausted ∧ last.stage = engine.stage := by
  have hahead : (engine.place index file).rest.Ahead setup world
      (Site.ofFile index file 1 ++ Site.ofFiles (index + 1) files) :=
    ⟨file, files, rfl, hlater, rfl⟩
  obtain ⟨visited, last, hwalk, hshown, hlast, hstage⟩ :=
    walksTo_of_ahead (.of_rest _) rfl hahead
  refine ⟨visited, last, hwalk, ?_, hlast, hstage⟩
  rcases Nat.eq_zero_or_pos file.nodes.length with hempty | hpos
  · have hnone : (engine.place index file).rest.current = none := by
      simp [rest, place, comparison?, LoadedFile.compareAt, List.length_eq_zero_iff.mp hempty]
    have hle : file.nodes.length ≤ 1 := by omega
    rw [Site.ofFile_of_le hle, List.nil_append] at hshown
    rw [List.filter_cons, if_neg (by simp [hnone]), filter_shown hshown, Site.ofFiles,
      Site.ofFile_of_le (Nat.le_of_eq hempty), List.nil_append]
    exact hshown
  · have hstands : (engine.place index file).rest.StandsAt ⟨index, file, 0⟩ :=
      ⟨rfl, rfl, rfl, hpos, rfl⟩
    have hfirst := (AtRest.of_rest _).shows hstands
    rw [List.filter_cons, if_pos hfirst.isSome, filter_shown hshown, Site.ofFiles,
      Site.ofFile_of_lt hpos, List.cons_append]
    exact .cons hfirst hshown

/-- After any case file is loaded, steps forward show every node from it on: each node of
each file once, in the order of the files and, within a file, of its nodes, with its own
span and the record of the fixture of its file. They end exhausted, and then nothing moves. -/
theorem next_visits_every_node {index : Nat} {stage : Stage} {files : List LoadedFile}
    {world' : World σ} (hreach : engine.Reachable setup) (hstage : engine.stage = some stage)
    (hindex : index < engine.files.length)
    (hloads : setup.Loads stage (engine.files.drop index) world files world') :
    let loaded := loadCurrent setup { engine with fileIndex := index } world
    loaded.result = .ok () ∧
    ∃ visited last, WalksTo setup loaded.engine loaded.world visited last ∧
      (∀ other last', WalksTo setup loaded.engine loaded.world other last' →
        other = visited ∧ last' = last) ∧
      let shown := (loaded.engine :: visited).filter fun state => state.current.isSome
      (shown.map address).Pairwise (Prod.Lex (· < ·) (· < ·)) ∧
      (∀ fileIndex position, (fileIndex, position) ∈ shown.map address ↔
        index ≤ fileIndex ∧
          ∃ file, files[fileIndex - index]? = some file ∧ position < file.nodes.length) ∧
      (∀ state ∈ shown, ∃ file node comparison,
        files[state.fileIndex - index]? = some file ∧ state.loaded = some file ∧
        file.nodes[state.position]? = some node ∧ state.current = some comparison ∧
        comparison.actual = node.span ∧
        comparison.expected =
          (file.fixture.bind (·.record? state.position)).getD Span.sentinel) ∧
      last.isExhausted ∧ ∀ later : World σ,
        last.next setup later = ⟨.ok .exhausted, last, later⟩ ∧
        last.nextFile setup later = ⟨.ok .exhausted, last, later⟩ ∧
        last.run setup later = ⟨.ok .exhausted, last, later⟩ := by
  intro loaded
  rw [List.drop_eq_getElem_cons hindex] at hloads
  cases hloads with
  | @cons _ _ next file _ files _ hload hlater =>
      have hname : engine.files[index]? = some engine.files[index] :=
        List.getElem?_eq_getElem hindex
      have hloadIndex : setup.loadIndex { engine with fileIndex := index } index world =
          (.ok file, next) := (Setup.loadIndex_of_name hstage hname).trans hload
      have hloaded : loaded = ⟨.ok (), (engine.place index file).rest, next⟩ :=
        loadCurrent_of_off hreach.coherent.runMode_off hloadIndex
      have hlater' : (engine.place index file).LoadsLater setup next files :=
        ⟨stage, world', hstage, hlater⟩
      obtain ⟨visited, last, hwalk, hshown, hlast, hkept⟩ :=
        walksTo_of_place hlater'
      rw [hloaded]
      refine ⟨rfl, visited, last, hwalk, fun _ _ hother => hwalk.unique hother, ?_, ?_, ?_, hlast,
        forward_of_exhausted hlast (hkept.trans hstage) setup⟩
      · rw [address_shown hshown]
        exact Site.ofFiles_ordered index (file :: files)
      · intro fileIndex position
        rw [address_shown hshown, Site.mem_addresses]
      · intro state hstate
        obtain ⟨site, hsite, hshows⟩ := site_of_shown hshown hstate
        obtain ⟨comparison, node, hcurrent, hnode, hactual, hexpected⟩ := hshows.compared
        obtain ⟨_, hfile, _⟩ := Site.mem_ofFiles.mp hsite
        rw [site.file.expectedAt_eq] at hexpected
        rw [hshows.stands.fileIndex, hshows.stands.position]
        exact ⟨site.file, node, comparison, hfile, hshows.stands.loaded, hnode, hcurrent,
          hactual, hexpected⟩

theorem walk_skips_empty_file :
    let listed : Engine :=
      { start .off with stage := some .lexer, files := ["a.pug", "b.pug", "c.pug"] }
    let loaded := loadCurrent firstRecorded listed recordedWorld
    loaded.result = .ok () ∧
    ∃ visited last, WalksTo firstRecorded loaded.engine loaded.world visited last ∧
      let shown := (loaded.engine :: visited).filter fun state => state.current.isSome
      (0, 0) ∈ shown.map address ∧ (∀ position, (1, position) ∉ shown.map address) ∧
        (2, 0) ∈ shown.map address ∧ last.isExhausted := by
  intro listed loaded
  have hreach : listed.Reachable firstRecorded :=
    ⟨.off, [⟨.selectStage "lexer", recordedWorld⟩], rfl⟩
  have hindex : 0 < listed.files.length := Nat.zero_lt_succ 2
  have hloads : firstRecorded.Loads .lexer (listed.files.drop 0) recordedWorld
      [recordedFile, emptyFile, unrecordedFile] recordedWorld :=
    .cons loadFile_recorded loads_after_recorded
  obtain ⟨hloaded, visited, last, hwalk, _, _, hshown, _, hlast, _⟩ :=
    next_visits_every_node hreach rfl hindex hloads
  refine ⟨hloaded, visited, last, hwalk, ?_, fun position hmem => ?_, ?_, hlast⟩
  · exact (hshown 0 0).mpr ⟨Nat.le_refl 0, recordedFile, rfl, Nat.one_pos⟩
  · obtain ⟨_, file, hfile, hlt⟩ := (hshown 1 position).mp hmem
    obtain rfl : emptyFile = file := Option.some.inj hfile
    exact Nat.not_lt_zero position hlt
  · exact (hshown 2 0).mpr ⟨Nat.zero_le 2, unrecordedFile, rfl, Nat.one_pos⟩

end Engine

end SpanReview
