import Mathlib.Algebra.GroupWithZero.Nat
import SpanReview.CommandLine.Review
import SpanReview.Proofs.Engine.Coherence
import SpanReview.Proofs.Engine.Load
import SpanReview.Proofs.Text.Trim

namespace SpanReview

/-! A check asks for each listed case file by its name, as an operator would. A name with
blank characters at its ends is never found as it stands. -/

theorem Text.trim_ne_empty_of_dot {name : String} (h : '.' ∈ name.toList) :
    Text.trim name ≠ "" := by
  have hmem : '.' ∈ (Text.trim name).toList := by
    rw [trim, String.toList_ofList]
    exact mem_trimChars h rfl
  intro hempty
  simp [hempty] at hmem

theorem Text.trim_append_dot_ne {name : String} (h : Text.trim name ≠ "") (extension : String) :
    Text.trim name ++ "." ++ extension ≠ name := by
  have hcore : trimChars name.toList ≠ [] := by
    intro hnil
    exact h (by rw [trim, hnil, String.ofList_nil])
  intro heq
  have hchars := congrArg String.toList heq
  rw [String.toList_append, String.toList_append, trim, String.toList_ofList,
    List.append_assoc] at hchars
  exact trimChars_append_ne hcore rfl hchars

theorem Path.dot_mem_of_cutAtDot {name : String} {parts : String × String}
    (h : cutAtDot name = some parts) : '.' ∈ name.toList := by
  by_contra hdot
  have hnone : name.toList.reverse.dropWhile (· != '.') = [] := by
    rw [List.dropWhile_eq_nil_iff]
    intro c hc
    have hne : c ≠ '.' := by
      rintro rfl
      exact hdot (List.mem_reverse.mp hc)
    simpa using hne
  simp [cutAtDot, hnone] at h

theorem CommandSource.dot_mem_of_listed {source : CommandSource} {disk : Disk}
    {names : List String} {name : String} (h : source.caseFiles disk = .ok names)
    (hname : name ∈ names) : '.' ∈ name.toList := by
  unfold caseFiles at h
  split at h
  · cases h
  · cases h
    obtain ⟨⟨other, entry⟩, _, hlisted⟩ := List.mem_filterMap.mp (List.mem_mergeSort.mp hname)
    cases entry with
    | directory => cases hlisted
    | file bytes =>
        have hcase : source.isCase other ∧ other = name := by simpa using hlisted
        obtain ⟨hcase, rfl⟩ := hcase
        unfold isCase at hcase
        split at hcase
        · rename_i hcut
          exact Path.dot_mem_of_cutAtDot hcut
        · cases hcase

/-- An entry tells of a case file as it is loaded. -/
structure FileReport.IsOf (report : FileReport) (file : LoadedFile) : Prop where
  count : report.count = file.nodes.length
  mismatches : report.mismatches = file.mismatches

namespace Engine

variable {setup : Setup σ} {engine : Engine} {world : World σ}

theorem name_of_idxOf? {names : List String} {name : String} {index : Nat}
    (h : names.idxOf? name = some index) : names[index]? = some name := by
  obtain ⟨hlt, hname, _⟩ := List.idxOf?_eq_some_iff.mp h
  rw [List.getElem?_eq_getElem hlt, hname]

theorem fileNamed?_of_mem (setup : Setup σ) {name : String} (hne : name ≠ "")
    (hmem : name ∈ engine.files) :
    ∃ index, engine.fileNamed? setup name = some index ∧ engine.files[index]? = some name := by
  obtain ⟨index, hindex⟩ := Option.isSome_iff_exists.mp (List.isSome_idxOf?.mpr hmem)
  refine ⟨index, ?_, name_of_idxOf? hindex⟩
  rw [fileNamed?, if_neg (by simpa using hne), hindex, Option.some_or]

theorem name_of_fileNamed? {name : String} {index : Nat} (hne : name ≠ "")
    (h : engine.fileNamed? setup name = some index) :
    engine.files[index]? = some name ∨
      engine.files[index]? = some (name ++ "." ++ setup.caseExtension) := by
  rw [fileNamed?, if_neg (by simpa using hne)] at h
  rcases Option.or_eq_some_iff.mp h with hname | ⟨_, hname⟩
  · exact .inl (name_of_idxOf? hname)
  · exact .inr (name_of_idxOf? hname)

/-- What asking for a case file leaves: the engine as it was if no file has the name, else
the file, loaded. -/
inductive Selects (setup : Setup σ) (engine : Engine) (world : World σ) (name : String) :
    Engine → World σ → Prop
  | unnamed : engine.fileNamed? setup (Text.trim name) = none →
      Selects setup engine world name engine world
  | loaded : engine.fileNamed? setup (Text.trim name) = some index →
      setup.loadIndex engine index world = (.ok file, later) →
      Selects setup engine world name (engine.place index file).rest later

theorem selectFile_selects {name : String} {selection : FileSelection}
    (hrun : engine.runMode = false)
    (h : (engine.selectFile setup name world).result = .ok selection) :
    Selects setup engine world name (engine.selectFile setup name world).engine
      (engine.selectFile setup name world).world := by
  have hstage : engine.stage.isNone = false := by
    rw [Bool.eq_false_iff]
    intro hnone
    rw [selectFile, if_pos hnone] at h
    cases h
  cases hname : engine.fileNamed? setup (Text.trim name) with
  | none =>
      rw [selectFile_of_unnamed hstage hname]
      exact .unnamed hname
  | some index =>
      cases hload : setup.loadIndex engine index world with
      | mk result later =>
          cases result with
          | ok file =>
              rw [selectFile_of_off hrun hstage hname hload]
              exact .loaded hname hload
          | error e =>
              rw [selectFile_of_unloaded hstage hname hload] at h
              cases h

theorem Selects.keeps {name : String} {last : Engine} {later : World σ}
    (h : Selects setup engine world name last later) (hrun : engine.runMode = false) :
    last.stage = engine.stage ∧ last.files = engine.files ∧ last.runMode = false := by
  cases h with
  | unnamed => exact ⟨rfl, rfl, hrun⟩
  | loaded => exact ⟨rfl, rfl, rfl⟩

/-- A name that stands as it is listed selects its own file. -/
theorem Selects.own {name : String} {last : Engine} {later : World σ} {stage : Stage}
    (h : Selects setup engine world name last later) (hstage : engine.stage = some stage)
    (hne : name ≠ "") (hmem : name ∈ engine.files) (htrim : Text.trim name = name) :
    ∃ file, (setup.loadFile stage name world).1 = .ok file ∧ last.loaded = some file := by
  obtain ⟨index, hindex, hname⟩ := fileNamed?_of_mem setup hne hmem
  rw [← htrim] at hindex
  cases h with
  | unnamed hnone => cases hindex.symm.trans hnone
  | @loaded index' _ file hindex' hload =>
      obtain rfl : index = index' := Option.some.inj (hindex.symm.trans hindex')
      rw [Setup.loadIndex_of_name hstage hname] at hload
      exact ⟨file, congrArg Prod.fst hload, rfl⟩

/-- Any other name selects another file, or none. -/
theorem Selects.other {name : String} {last : Engine} {later : World σ} {stage : Stage}
    (h : Selects setup engine world name last later) (hstage : engine.stage = some stage)
    (hdot : '.' ∈ name.toList) (htrim : Text.trim name ≠ name) :
    (∃ other ∈ engine.files, other ≠ name ∧ ∃ file,
        (setup.loadFile stage other world).1 = .ok file ∧ last.loaded = some file) ∨
      last = engine := by
  cases h with
  | unnamed => exact .inr rfl
  | @loaded index _ file hindex hload =>
      left
      have hne := Text.trim_ne_empty_of_dot hdot
      obtain ⟨other, hother, hdiffers⟩ :
          ∃ other, engine.files[index]? = some other ∧ other ≠ name := by
        rcases name_of_fileNamed? hne hindex with hname | hname
        · exact ⟨_, hname, htrim⟩
        · exact ⟨_, hname, Text.trim_append_dot_ne hne setup.caseExtension⟩
      rw [Setup.loadIndex_of_name hstage hother] at hload
      exact ⟨other, List.mem_of_getElem? hother, hdiffers, file, congrArg Prod.fst hload, rfl⟩

/-! The whole pass. -/

/-- A report tells of what an engine holds. -/
structure Reported (engine : Engine) (report : FileReport) : Prop where
  count : report.count = engine.nodeCount
  mismatches : report.mismatches = engine.mismatches

theorem ok_of_map {ε α β : Type} {result : Except ε α} {f : α → β} {value : β}
    (h : result.map f = .ok value) : ∃ a, result = .ok a ∧ f a = value := by
  cases result with
  | error e => cases h
  | ok a =>
      cases h
      exact ⟨a, rfl, rfl⟩

theorem checkFiles_cons {name : String} {names : List String} {selection : FileSelection}
    (h : (engine.selectFile setup name world).result = .ok selection) :
    let selected := engine.selectFile setup name world
    let checked := selected.engine.checkFiles setup selected.world names
    engine.checkFiles setup world (name :: names) =
      ⟨checked.result.map
          (⟨name, selected.engine.nodeCount, selected.engine.mismatches⟩ :: ·),
        checked.engine, checked.world⟩ := by
  intro selected checked
  rw [checkFiles, Outcome.andThen, h]
  change checked.andThen _ = _
  unfold Outcome.andThen
  cases checked.result <;> rfl

theorem checkFiles_reports {names : List String} {reports : List FileReport}
    (hrun : engine.runMode = false)
    (h : (engine.checkFiles setup world names).result = .ok reports) :
    reports.map FileReport.file = names ∧ ∀ index report, reports[index]? = some report →
      let before := engine.checkFiles setup world (names.take index)
      before.engine.stage = engine.stage ∧ before.engine.files = engine.files ∧
        ∃ last later, Selects setup before.engine before.world report.file last later ∧
          last.Reported report := by
  induction names generalizing engine world reports with
  | nil =>
      cases h
      exact ⟨rfl, by simp⟩
  | cons name names ih =>
      obtain ⟨selection, hselection, _⟩ := Outcome.andThen_of_ok h
      have hselects := selectFile_selects hrun hselection
      obtain ⟨hstage, hfiles, hrun'⟩ := hselects.keeps hrun
      rw [checkFiles_cons hselection] at h
      obtain ⟨rest, hrest, rfl⟩ := ok_of_map h
      obtain ⟨hnames, hreports⟩ := ih hrun' hrest
      refine ⟨congrArg (name :: ·) hnames, fun index report hreport => ?_⟩
      cases index with
      | zero =>
          cases hreport
          exact ⟨rfl, rfl, _, _, hselects, rfl, rfl⟩
      | succ index =>
          rw [List.take_succ_cons, checkFiles_cons hselection]
          obtain ⟨hstage', hfiles', hreported⟩ := hreports index report hreport
          exact ⟨hstage'.trans hstage, hfiles'.trans hfiles, hreported⟩

theorem Reported.isOf {report : FileReport} {file : LoadedFile} (h : engine.Reported report)
    (hloaded : engine.loaded = some file) : report.IsOf file := by
  refine ⟨?_, ?_⟩
  · rw [h.count, nodeCount_of_loaded hloaded]
  · rw [h.mismatches, Engine.mismatches, hloaded]

end Engine

theorem CheckReport.total_eq (report : CheckReport) :
    report.total = (report.files.map fun file => file.mismatches.length).sum := by
  rw [total, List.sum, List.foldr_map]

namespace CommandLine

variable {programs : Programs σ} {settings : Settings} {repository : Repository} {stage : String}
  {world : World σ} {reports : List FileReport}

theorem check_lists (h : (Engine.check (settings.setup programs repository) stage
      (.start settings.display) world).result = .ok reports) :
    ∃ kind names, Stage.ofName? stage = some kind ∧
      settings.source.caseFiles world.disk = .ok names ∧
      (Engine.checkFiles (settings.setup programs repository)
        { Engine.start settings.display with stage := some kind, files := names }
        world names).result = .ok reports := by
  unfold Engine.check at h
  obtain ⟨count, hstage, hrest⟩ := Outcome.andThen_of_ok h
  rw [hrest] at h
  unfold Engine.selectStage at hstage h
  cases hkind : Stage.ofName? stage with
  | none =>
      rw [hkind] at hstage
      cases hstage
  | some kind =>
      rw [hkind] at hstage h
      have hlisting : (settings.setup programs repository).source.caseFiles kind world =
          (settings.source.caseFiles world.disk, world) := rfl
      simp only [Engine.enterStage, hlisting] at hstage h
      cases hnames : settings.source.caseFiles world.disk with
      | error e =>
          rw [hnames] at hstage
          cases hstage
      | ok names =>
          rw [hnames] at h
          exact ⟨kind, names, rfl, rfl, h⟩

theorem check_of_reports (format : ReportFormat)
    (h : (Engine.check (settings.setup programs repository) stage (.start settings.display)
      world).result = .ok reports) :
    let report : CheckReport := ⟨stage, reports⟩
    let finished := check programs settings repository stage format world
    finished.output = print format report.text report.toJson ∧
      finished.error = if report.total = 0 then none else some (.mismatch report.total) := by
  simp only [check, h, and_self]

/-- Whatever the programs of the host do: a check that comes to its report has an entry for each
listed case file, in their order, and fails by the sum of their mismatches. The entry of a file
tells of that file, loaded in its turn, if its name has no blank characters at its ends; any
other entry tells of another file, or of whatever file was loaded before. -/
theorem check_reports_trimmed_names (programs : Programs σ) (settings : Settings)
    (repository : Repository) (stage : String) (format : ReportFormat) (world : World σ) :
    let setup := settings.setup programs repository
    let finished := check programs settings repository stage format world
    match (Engine.check setup stage (.start settings.display) world).result with
    | .error e => finished.error = some (.engine e)
    | .ok reports =>
        ∃ kind names, Stage.ofName? stage = some kind ∧
          settings.source.caseFiles world.disk = .ok names ∧
          reports.map FileReport.file = names ∧
          finished.output = print format (CheckReport.text ⟨stage, reports⟩)
            (CheckReport.toJson ⟨stage, reports⟩) ∧
          (let total := (reports.map fun report => report.mismatches.length).sum
          finished.error = if total = 0 then none else some (.mismatch total)) ∧
          ∀ index report, reports[index]? = some report →
            let before := Engine.checkFiles setup
              { Engine.start settings.display with stage := some kind, files := names }
              world (names.take index)
            if Text.trim report.file = report.file then
              ∃ file, (setup.loadFile kind report.file before.world).1 = .ok file ∧
                report.IsOf file
            else
              (∃ other ∈ names, other ≠ report.file ∧ ∃ file,
                (setup.loadFile kind other before.world).1 = .ok file ∧ report.IsOf file) ∨
              before.engine.Reported report := by
  intro setup finished
  cases hresult : (Engine.check setup stage (.start settings.display) world).result with
  | error e => simp only [finished, check, setup, hresult]
  | ok reports =>
      obtain ⟨kind, names, hkind, hnames, hchecked⟩ := check_lists hresult
      obtain ⟨hfiles, hreports⟩ := Engine.checkFiles_reports rfl hchecked
      obtain ⟨houtput, herror⟩ := check_of_reports format hresult
      rw [CheckReport.total_eq] at herror
      refine ⟨kind, names, hkind, hnames, hfiles, houtput, herror, fun index report hreport => ?_⟩
      intro before
      obtain ⟨hstage, hlisted, last, later, hselects, hreported⟩ := hreports index report hreport
      have hmem : report.file ∈ names := by
        rw [← hfiles]
        exact List.mem_map_of_mem (List.mem_of_getElem? hreport)
      have hdot := CommandSource.dot_mem_of_listed hnames hmem
      have hmem' : report.file ∈ before.engine.files := by
        rw [hlisted]
        exact hmem
      split
      · rename_i htrim
        have hne : report.file ≠ "" := by
          rw [← htrim]
          exact Text.trim_ne_empty_of_dot hdot
        obtain ⟨file, hload, hloaded⟩ := hselects.own hstage hne hmem' htrim
        exact ⟨file, hload, hreported.isOf hloaded⟩
      · rename_i htrim
        rcases hselects.other hstage hdot htrim with
          ⟨other, hother, hne, file, hload, hloaded⟩ | hsame
        · rw [hlisted] at hother
          exact .inl ⟨other, hother, hne, file, hload, hreported.isOf hloaded⟩
        · rw [hsame] at hreported
          exact .inr hreported

/-- Every program answers with what it reads. -/
def echoing : Programs Unit := fun _ _ input world =>
  (some ⟨true, "exit status: 0", input.toUTF8, .empty⟩, world)

def tokensInCases : Settings :=
  { Settings.default with casesDir := "cases", command := ["cat"] }

/-- The one case file holds its own token. -/
def blankNamed : World Unit where
  disk :=
    { entries :=
        [(["work"], .directory), (["work", "cases"], .directory),
          (["work", "cases", " a.pug"], .file "[\x7b\"type\":\"text\"\x7d]".toUTF8)]
      workingDirectory := ["work"] }
  memory := ()

theorem caseFiles_blankNamed :
    tokensInCases.source.caseFiles blankNamed.disk = .ok [" a.pug"] := by
  have hlist : blankNamed.disk.list tokensInCases.source.casesDir =
      .ok [(" a.pug", .file "[\x7b\"type\":\"text\"\x7d]".toUTF8)] := rfl
  have hcase : tokensInCases.source.isCase " a.pug" = true := by decide
  simp only [CommandSource.caseFiles, hlist, List.filterMap_cons, hcase, if_true,
    List.filterMap_nil, List.mergeSort_singleton]

theorem check_passes_over_blank_name :
    let setup := tokensInCases.setup echoing ⟨"u", "b"⟩
    let finished := check echoing tokensInCases ⟨"u", "b"⟩ "lexer" .text blankNamed
    ((setup.loadFile .lexer " a.pug" blankNamed).1.map LoadedFile.mismatches).toOption =
        some [0] ∧
      finished.output =
        "  ok  a.pug: 0 of 0 tokens differ\n\nTotal: 0 mismatches in 1 files\n" ∧
      finished.error = none := by
  intro setup finished
  let listed : Engine := { Engine.start .off with stage := some .lexer, files := [" a.pug"] }
  have hstage : (Engine.start .off).selectStage setup "lexer" blankNamed =
      ⟨.ok 1, listed, blankNamed⟩ := by
    have hkind : Stage.ofName? "lexer" = some .lexer := rfl
    have hcases : setup.source.caseFiles .lexer blankNamed = (.ok [" a.pug"], blankNamed) := by
      rw [← caseFiles_blankNamed]
      rfl
    simp only [Engine.selectStage, hkind, Engine.enterStage, hcases]
    rfl
  have hselect : listed.selectFile setup " a.pug" blankNamed =
      ⟨.ok (.notFound "a.pug" (setup.ranking.suggest "a.pug" [" a.pug"] 5)), listed,
        blankNamed⟩ := Engine.selectFile_of_unnamed rfl (by decide)
  have hchecked : (Engine.start .off).check setup "lexer" blankNamed =
      ⟨.ok [⟨" a.pug", 0, []⟩], listed, blankNamed⟩ := by
    simp only [Engine.check, hstage, Outcome.andThen]
    rw [Engine.checkFiles_cons (congrArg Outcome.result hselect), hselect]
    rfl
  obtain ⟨houtput, herror⟩ := check_of_reports .text (congrArg Outcome.result hchecked)
  exact ⟨by decide +kernel, houtput, herror⟩

end CommandLine

end SpanReview
