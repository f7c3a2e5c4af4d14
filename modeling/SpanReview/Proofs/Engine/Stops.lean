import SpanReview.Proofs.Engine.Search

namespace SpanReview

/-! Run after run, the engine stops once at every node that a check of the files one by
one reports. -/

/-- The world that loads of case files in a row leave. -/
def Setup.worldAfter (setup : Setup σ) (stage : Stage) (names : List String)
    (world : World σ) : World σ :=
  names.foldl (fun world name => (setup.loadFile stage name world).2) world

theorem Setup.Loads.file_in_turn {setup : Setup σ} {stage : Stage} {names : List String}
    {world last : World σ} {files : List LoadedFile}
    (h : setup.Loads stage names world files last) {index : Nat} {name : String}
    (hname : names[index]? = some name) :
    ∃ file, files[index]? = some file ∧
      (setup.loadFile stage name (setup.worldAfter stage (names.take index) world)).1 =
        .ok file := by
  induction h generalizing index with
  | nil => cases hname
  | @cons first world next file names files last hload _ ih =>
      cases index with
      | zero =>
          cases hname
          exact ⟨file, rfl, congrArg Prod.fst hload⟩
      | succ index =>
          have hnext : setup.worldAfter stage ((first :: names).take (index + 1)) world =
              setup.worldAfter stage (names.take index) next := by
            simp only [worldAfter, List.take_succ_cons, List.foldl_cons, hload]
          rw [hnext]
          exact ih hname

theorem Setup.Loads.length_eq {setup : Setup σ} {stage : Stage} {names : List String}
    {world last : World σ} {files : List LoadedFile}
    (h : setup.Loads stage names world files last) : files.length = names.length := by
  induction h with
  | nil => rfl
  | cons _ _ ih => exact congrArg Nat.succ ih

namespace Site

def address (site : Site) : Nat × Nat :=
  (site.index, site.position)

theorem mem_ofFile {index start : Nat} {file : LoadedFile} {site : Site} :
    site ∈ ofFile index file start ↔
      site.index = index ∧ site.file = file ∧ start ≤ site.position ∧
        site.position < file.nodes.length := by
  obtain ⟨index', file', position⟩ := site
  simp only [ofFile, List.mem_map, List.mem_range'_1, mk.injEq]
  constructor
  · rintro ⟨_, ⟨hstart, hlt⟩, rfl, rfl, rfl⟩
    exact ⟨rfl, rfl, hstart, by omega⟩
  · rintro ⟨rfl, rfl, hstart, hlt⟩
    exact ⟨position, ⟨hstart, by omega⟩, rfl, rfl, rfl⟩

theorem mem_ofFiles {first : Nat} {files : List LoadedFile} {site : Site} :
    site ∈ ofFiles first files ↔
      first ≤ site.index ∧ files[site.index - first]? = some site.file ∧
        site.position < site.file.nodes.length := by
  induction files generalizing first with
  | nil => simp [ofFiles]
  | cons file files ih =>
      rw [ofFiles, List.mem_append, mem_ofFile, ih]
      constructor
      · rintro (⟨rfl, rfl, _, hlt⟩ | ⟨hle, hfile, hlt⟩)
        · exact ⟨Nat.le_refl _, by simp, hlt⟩
        · have hoffset : site.index - first = site.index - (first + 1) + 1 := by omega
          rw [hoffset, List.getElem?_cons_succ]
          exact ⟨by omega, hfile, hlt⟩
      · rintro ⟨hle, hfile, hlt⟩
        rcases Nat.eq_or_lt_of_le hle with heq | hlater
        · left
          rw [← heq, Nat.sub_self, List.getElem?_cons_zero, Option.some.injEq] at hfile
          exact ⟨heq.symm, hfile.symm, Nat.zero_le _, hfile ▸ hlt⟩
        · right
          have hoffset : site.index - first = site.index - (first + 1) + 1 := by omega
          rw [hoffset, List.getElem?_cons_succ] at hfile
          exact ⟨hlater, hfile, hlt⟩

/-- Sites are listed from the first file to the last, and in a file from its first node. -/
theorem ofFiles_ordered (first : Nat) (files : List LoadedFile) :
    ((ofFiles first files).map address).Pairwise (Prod.Lex (· < ·) (· < ·)) := by
  rw [List.pairwise_map]
  induction files generalizing first with
  | nil => exact .nil
  | cons file files ih =>
      rw [ofFiles, List.pairwise_append]
      refine ⟨?_, ih (first + 1), ?_⟩
      · rw [ofFile, List.pairwise_map]
        exact (List.pairwise_lt_range' 1).imp fun hlt => .right first hlt
      · intro site hsite later hlater
        have hindex : site.index = first := (mem_ofFile.mp hsite).1
        have hlater' : first + 1 ≤ later.index := (mem_ofFiles.mp hlater).1
        exact .left _ _ (by omega)

theorem differs_iff {site : Site} :
    site.Differs ↔ site.position ∈ site.file.mismatches :=
  LoadedFile.mem_mismatches.symm

theorem mem_differing {files : List LoadedFile} {index position : Nat} :
    (index, position) ∈ ((ofFiles 0 files).filter fun site => site.Differs).map address ↔
      ∃ file, files[index]? = some file ∧ position ∈ file.mismatches := by
  constructor
  · intro h
    obtain ⟨site, hsite, haddress⟩ := List.mem_map.mp h
    obtain ⟨hmem, hdiffers⟩ := List.mem_filter.mp hsite
    obtain ⟨_, hfile, _⟩ := mem_ofFiles.mp hmem
    cases haddress
    exact ⟨site.file, hfile, differs_iff.mp (of_decide_eq_true hdiffers)⟩
  · rintro ⟨file, hfile, hposition⟩
    have hdiffers : Differs ⟨index, file, position⟩ := differs_iff.mpr hposition
    obtain ⟨node, hnode, _⟩ := LoadedFile.mem_mismatches.mp hposition
    have hlt : position < file.nodes.length := (List.getElem?_eq_some_iff.mp hnode).1
    have hmem : ⟨index, file, position⟩ ∈ ofFiles 0 files :=
      mem_ofFiles.mpr ⟨Nat.zero_le _, hfile, hlt⟩
    exact List.mem_map.mpr
      ⟨_, List.mem_filter.mpr ⟨hmem, decide_eq_true hdiffers⟩, rfl⟩

end Site

namespace Engine

/-- Runs one after another, with nothing in between, until one reports that the engine is
exhausted; and where the others stop. -/
inductive RunsTo (setup : Setup σ) : Engine → World σ → List (Nat × Nat) → Prop
  | exhausted : (engine.run setup world).result = .ok .exhausted → RunsTo setup engine world []
  | stop {step : Step} : (engine.run setup world).result = .ok step → step ≠ .exhausted →
      RunsTo setup (engine.run setup world).engine (engine.run setup world).world stops →
      RunsTo setup engine world
        (((engine.run setup world).engine.fileIndex,
          (engine.run setup world).engine.position) :: stops)

variable {setup : Setup σ} {engine : Engine} {world : World σ}

theorem RunsTo.unique {stops other : List (Nat × Nat)} (h : RunsTo setup engine world stops)
    (hother : RunsTo setup engine world other) : stops = other := by
  induction h generalizing other with
  | exhausted hresult =>
      cases hother with
      | exhausted => rfl
      | stop hstep hne =>
          cases hresult.symm.trans hstep
          exact absurd rfl hne
  | stop hstep hne _ ih =>
      cases hother with
      | exhausted hresult =>
          cases hresult.symm.trans hstep
          exact absurd rfl hne
      | stop _ _ hrest => rw [ih hrest]

theorem Coherent.runsTo (h : engine.Coherent) (hexhausted : engine.isExhausted = false)
    {file : LoadedFile} {later : List LoadedFile} (hloaded : engine.loaded = some file)
    (hlater : engine.LoadsLater setup world later) :
    RunsTo setup engine world
      (((engine.runSites file later).filter fun site => site.Differs).map Site.address) := by
  -- A run that stops leaves the engine parked at the stop, so the next one has exactly the
  -- sites after it to search, and they are fewer.
  induction hcount : (engine.runSites file later).length using Nat.strongRecOn
    generalizing engine world file later with
  | ind count ih =>
      obtain ⟨hsearched, hresult⟩ := run_searches h hexhausted hloaded hlater
      rcases hsearched with ⟨stop, rest, hfirst, hstopped⟩ | ⟨hnone, hlast⟩
      · have hstands := hstopped.stands
        obtain ⟨file', later', hloaded', hlater', hrest⟩ := hstopped.ahead
        have hcoherent : (engine.run setup world).engine.Coherent :=
          perform_coherent .run world h
        have hparked : (engine.run setup world).engine.isParked := by
          simp [isParked, hstopped.pause]
        have hsites : (engine.run setup world).engine.runSites file' later' = rest := by
          rw [runSites, if_pos hparked, hrest]
        have hshorter : rest.length < count := by
          obtain ⟨passed, hpassed, _⟩ := hfirst
          rw [← hcount, hpassed, List.length_append, List.length_cons]
          omega
        have hruns := ih rest.length hshorter hcoherent hstands.notExhausted hloaded' hlater'
          (congrArg List.length hsites)
        rw [hsites] at hruns
        rw [hstands.notExhausted, if_neg Bool.false_ne_true] at hresult
        have haddress : stop.address = ((engine.run setup world).engine.fileIndex,
            (engine.run setup world).engine.position) := by
          rw [Site.address, hstands.fileIndex, hstands.position]
        rw [hfirst.filter, List.map_cons, haddress]
        refine .stop hresult ?_ hruns
        split <;> exact Step.noConfusion
      · have hempty : (engine.runSites file later).filter (fun site => site.Differs) = [] := by
          simpa [List.filter_eq_nil_iff] using hnone
        rw [if_pos hlast] at hresult
        rw [hempty]
        exact .exhausted hresult

theorem runSites_of_place (engine : Engine) (index : Nat) (file : LoadedFile)
    (later : List LoadedFile) :
    (engine.place index file).rest.runSites file later = Site.ofFiles index (file :: later) := by
  cases hnodes : file.nodes with
  | nil =>
      have hnone (start : Nat) : Site.ofFile index file start = [] :=
        Site.ofFile_of_le (by simp [hnodes])
      rw [runSites, Site.ofFiles]
      simp only [rest, place, hnone]
  | cons node nodes =>
      have hunparked : (engine.place index file).rest.isParked = false := by
        simp [isParked, rest, place, comparison?, LoadedFile.compareAt, hnodes]
      rw [runSites, if_neg (Bool.eq_false_iff.mp hunparked)]
      rfl

theorem loadIndex_in_turn {stage : Stage} {files : List LoadedFile} {last : World σ}
    (hstage : engine.stage = some stage)
    (hloads : setup.Loads stage engine.files world files last) (index : Nat) :
    (setup.loadIndex engine index
        (setup.worldAfter stage (engine.files.take index) world)).1 =
      match files[index]? with
      | some file => .ok file
      | none => .error .noFile := by
  cases hname : engine.files[index]? with
  | some name =>
      obtain ⟨file, hfile, hload⟩ := hloads.file_in_turn hname
      rw [Setup.loadIndex_of_name hstage hname, hload, hfile]
  | none =>
      have hnone : files[index]? = none := by
        rw [List.getElem?_eq_none_iff] at hname ⊢
        rwa [hloads.length_eq]
      simp only [Setup.loadIndex, hstage, hname, hnone]

theorem selectStage_of_ok {name : String} {count : Nat} {listed : Engine} {next : World σ}
    (h : engine.selectStage setup name world = ⟨.ok count, listed, next⟩) :
    ∃ stage files, listed =
      { Engine.start engine.display with stage := some stage, files := files } := by
  unfold selectStage at h
  split at h
  · rename_i stage _
    unfold enterStage at h
    split at h
    · cases h
    · rename_i files _ _
      cases h
      exact ⟨stage, files, rfl⟩
  · cases h

/-- The positions reported for a file that is loaded where nothing else is. -/
theorem loadCurrent_mismatches (hrun : engine.runMode = false) (hloaded : engine.loaded = none) :
    (engine.loadCurrent setup world).engine.mismatches =
      match (setup.loadIndex engine engine.fileIndex world).1 with
      | .ok file => file.mismatches
      | .error _ => [] := by
  cases hload : setup.loadIndex engine engine.fileIndex world with
  | mk loaded next =>
      cases loaded with
      | ok file =>
          rw [loadCurrent_of_off hrun hload]
          rfl
      | error e =>
          simp only [loadCurrent, enterFile, hload, Outcome.andThen, mismatches, hloaded]

/-- After a stage and its first file are selected, repeated runs end. They stop at the
positions reported for each file loaded by itself, in the order of the list of files and,
within a file, of its nodes. A file is loaded by itself in any world where it loads as it
does in its turn. -/
theorem runs_stop_at_mismatches {name : String} {count : Nat} {listed : Engine}
    {next last : World σ} {stage : Stage} {files : List LoadedFile}
    (hlisted : engine.selectStage setup name world = ⟨.ok count, listed, next⟩)
    (hnonempty : listed.files ≠ []) (hstage : listed.stage = some stage)
    (hloads : setup.Loads stage listed.files next files last) :
    let selected := listed.selectFile setup "" next
    selected.result = .ok (.selected 0 (listed.files.getD 0 "")) ∧
    ∃ stops, RunsTo setup selected.engine selected.world stops ∧
      (∀ other, RunsTo setup selected.engine selected.world other → other = stops) ∧
      stops.Pairwise (Prod.Lex (· < ·) (· < ·)) ∧
      ∀ index here, (setup.loadIndex listed index here).1 = (setup.loadIndex listed index
          (setup.worldAfter stage (listed.files.take index) next)).1 →
        ∀ position, (index, position) ∈ stops ↔
          position ∈
            (loadCurrent setup { listed with fileIndex := index } here).engine.mismatches := by
  intro selected
  have hturn := loadIndex_in_turn hstage hloads
  obtain ⟨stage', names, rfl⟩ := selectStage_of_ok hlisted
  cases hstage
  let listed : Engine :=
    { Engine.start engine.display with stage := some stage, files := names }
  change setup.Loads stage names next files last at hloads
  cases hloads with
  | nil => exact absurd rfl hnonempty
  | @cons first _ world' file names later _ hload hlater =>
      have hname : listed.fileNamed? setup (Text.trim "") = some 0 := by
        have htrim : Text.trim "" = "" := by decide
        rw [htrim]
        rfl
      have hselect : selected =
          ⟨.ok (.selected 0 first), (listed.place 0 file).rest, world'⟩ :=
        selectFile_of_off rfl rfl hname hload
      have hstaged : Change setup (start engine.display) listed := .stage stage _
      have hplaced : Change setup listed (listed.place 0 file).rest :=
        .land 0 (congrArg Prod.fst hload)
      have hcoherent : (listed.place 0 file).rest.Coherent :=
        hplaced.keeps_coherent (hstaged.keeps_coherent (start_coherent engine.display))
      have hruns := hcoherent.runsTo rfl rfl ⟨stage, last, rfl, hlater⟩
      rw [runSites_of_place] at hruns
      rw [hselect]
      refine ⟨rfl, _, hruns, fun other hother => hother.unique hruns, ?_, ?_⟩
      · exact (Site.ofFiles_ordered 0 (file :: later)).sublist (List.filter_sublist.map _)
      · intro index here hsame position
        have hloaded : (setup.loadIndex { listed with fileIndex := index } index here).1 =
            match (file :: later)[index]? with
            | some file => .ok file
            | none => .error .noFile := hsame.trans (hturn index)
        rw [Site.mem_differing, loadCurrent_mismatches rfl rfl, hloaded]
        cases (file :: later)[index]? <;> simp

theorem runs_stop_at_unrecorded :
    let listed : Engine :=
      { start .off with stage := some .lexer, files := ["a.pug", "b.pug", "c.pug"] }
    let selected := listed.selectFile firstRecorded "" recordedWorld
    (start .off).selectStage firstRecorded "lexer" recordedWorld =
        ⟨.ok 3, listed, recordedWorld⟩ ∧
      ∃ stops, RunsTo firstRecorded selected.engine selected.world stops ∧
        (0, 0) ∉ stops ∧ (2, 0) ∈ stops := by
  intro listed selected
  have hlisted : (start .off).selectStage firstRecorded "lexer" recordedWorld =
      ⟨.ok 3, listed, recordedWorld⟩ := rfl
  have hloads : firstRecorded.Loads .lexer listed.files recordedWorld
      [recordedFile, emptyFile, unrecordedFile] recordedWorld :=
    .cons loadFile_recorded loads_after_recorded
  have hworld : firstRecorded.worldAfter .lexer ["a.pug", "b.pug"] recordedWorld =
      recordedWorld := by
    simp only [Setup.worldAfter, List.foldl_cons, List.foldl_nil, loadFile_recorded]
    rfl
  have hnonempty : listed.files ≠ [] := List.cons_ne_nil _ _
  obtain ⟨_, stops, hruns, _, _, hstops⟩ :=
    runs_stop_at_mismatches hlisted hnonempty rfl hloads
  refine ⟨hlisted, stops, hruns, ?_, ?_⟩
  · have hfirst : (firstRecorded.loadIndex { listed with fileIndex := 0 } 0 recordedWorld).1 =
        .ok recordedFile := congrArg Prod.fst loadFile_recorded
    rw [hstops 0 recordedWorld rfl, loadCurrent_mismatches rfl rfl, hfirst]
    decide
  · have hthird : (firstRecorded.loadIndex { listed with fileIndex := 2 } 2 recordedWorld).1 =
        .ok unrecordedFile := rfl
    have hsame := congrArg (fun world => (firstRecorded.loadIndex listed 2 world).1) hworld.symm
    rw [hstops 2 recordedWorld hsame, loadCurrent_mismatches rfl rfl, hthird]
    decide

end Engine

end SpanReview
