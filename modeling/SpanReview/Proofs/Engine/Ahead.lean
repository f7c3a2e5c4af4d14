import SpanReview.Proofs.Engine.Coherence
import SpanReview.Proofs.Engine.Load

namespace SpanReview

/-! The nodes that lie ahead of an engine, file after file in the order of the list, and
how a step forward takes the first of them. -/

/-- Case files that load one after another, each in the world that the one before leaves. -/
inductive Setup.Loads (setup : Setup σ) (stage : Stage) :
    List String → World σ → List LoadedFile → World σ → Prop
  | nil : Loads setup stage [] world [] world
  | cons : setup.loadFile stage name world = (.ok file, next) →
      Loads setup stage names next files last →
      Loads setup stage (name :: names) world (file :: files) last

/-- A node to come to: the index of its case file, the file as it loads, the position. -/
structure Site where
  index : Nat
  file : LoadedFile
  position : Nat

namespace Site

def Differs (site : Site) : Prop :=
  ∃ node, site.file.nodes[site.position]? = some node ∧
    node.span ≠ site.file.expectedAt site.position

instance (site : Site) : Decidable site.Differs :=
  decidable_of_iff ((site.file.nodes[site.position]?).any fun node =>
      node.span != site.file.expectedAt site.position)
    (by simp [Differs, Option.any_eq_true])

/-- The nodes of one case file, from a position on. -/
def ofFile (index : Nat) (file : LoadedFile) (start : Nat) : List Site :=
  (List.range' start (file.nodes.length - start)).map (Site.mk index file)

/-- The nodes of case files in a row, the first of which has the given index. -/
def ofFiles (index : Nat) : List LoadedFile → List Site
  | [] => []
  | file :: files => ofFile index file 0 ++ ofFiles (index + 1) files

theorem ofFile_of_lt {index start : Nat} {file : LoadedFile} (h : start < file.nodes.length) :
    ofFile index file start = ⟨index, file, start⟩ :: ofFile index file (start + 1) := by
  have hlength : file.nodes.length - start = file.nodes.length - (start + 1) + 1 := by omega
  simp only [ofFile]
  rw [hlength, List.range'_succ, List.map_cons]

theorem ofFile_of_le {index start : Nat} {file : LoadedFile} (h : file.nodes.length ≤ start) :
    ofFile index file start = [] := by
  simp [ofFile, Nat.sub_eq_zero_of_le h]

/-- `stop` is the first of the sites to differ, and `rest` follows it. -/
def FirstDiffers (sites : List Site) (stop : Site) (rest : List Site) : Prop :=
  ∃ passed, sites = passed ++ stop :: rest ∧
    (∀ site ∈ passed, ¬ site.Differs) ∧ stop.Differs

theorem FirstDiffers.head {site : Site} {rest : List Site} (h : site.Differs) :
    FirstDiffers (site :: rest) site rest :=
  ⟨[], rfl, by simp, h⟩

theorem FirstDiffers.cons {site stop : Site} {sites rest : List Site} (hsite : ¬ site.Differs)
    (h : FirstDiffers sites stop rest) : FirstDiffers (site :: sites) stop rest := by
  obtain ⟨passed, rfl, hpassed, hstop⟩ := h
  exact ⟨site :: passed, rfl, List.forall_mem_cons.mpr ⟨hsite, hpassed⟩, hstop⟩

theorem FirstDiffers.filter {sites rest : List Site} {stop : Site}
    (h : FirstDiffers sites stop rest) :
    sites.filter (fun site => site.Differs) = stop :: rest.filter (fun site => site.Differs) := by
  obtain ⟨passed, rfl, hpassed, hstop⟩ := h
  have hnone : passed.filter (fun site => site.Differs) = [] := by
    simpa [List.filter_eq_nil_iff] using hpassed
  rw [List.filter_append, hnone, List.nil_append, List.filter_cons, if_pos (decide_eq_true hstop)]

end Site

namespace Engine

variable {setup : Setup σ} {engine : Engine} {world : World σ}

structure StandsAt (engine : Engine) (site : Site) : Prop where
  loaded : engine.loaded = some site.file
  fileIndex : engine.fileIndex = site.index
  position : engine.position = site.position
  inFile : site.position < site.file.nodes.length
  notExhausted : engine.isExhausted = false

def LoadsLater (setup : Setup σ) (engine : Engine) (world : World σ)
    (later : List LoadedFile) : Prop :=
  ∃ stage last, engine.stage = some stage ∧
    setup.Loads stage (engine.files.drop (engine.fileIndex + 1)) world later last

/-- The sites after the position of the engine, all of which can be come to. -/
def Ahead (setup : Setup σ) (engine : Engine) (world : World σ) (sites : List Site) : Prop :=
  ∃ file later, engine.loaded = some file ∧ engine.LoadsLater setup world later ∧
    sites = Site.ofFile engine.fileIndex file (engine.position + 1) ++
      Site.ofFiles (engine.fileIndex + 1) later

structure Arrives (setup : Setup σ) (engine : Engine) (outcome : Outcome σ Bool) (site : Site)
    (rest : List Site) : Prop where
  result : outcome.result = .ok true
  stands : outcome.engine.StandsAt site
  ahead : outcome.engine.Ahead setup outcome.world rest
  runMode : outcome.engine.runMode = engine.runMode
  unpaused : engine.runPause = none ∨ engine.runPause = some engine.position →
    outcome.engine.runPause ≠ some outcome.engine.position

theorem LoadsLater.nil (h : engine.LoadsLater setup world []) :
    engine.files.length ≤ engine.fileIndex + 1 := by
  obtain ⟨stage, last, hstage, hloads⟩ := h
  generalize hnames : engine.files.drop (engine.fileIndex + 1) = names at hloads
  cases hloads
  exact List.drop_eq_nil_iff.mp hnames

theorem LoadsLater.cons {file : LoadedFile} {later : List LoadedFile}
    (h : engine.LoadsLater setup world (file :: later)) :
    engine.fileIndex + 1 < engine.files.length ∧
      ∃ next, setup.loadIndex engine (engine.fileIndex + 1) world = (.ok file, next) ∧
        (engine.place (engine.fileIndex + 1) file).LoadsLater setup next later := by
  obtain ⟨stage, last, hstage, hloads⟩ := h
  generalize hnames : engine.files.drop (engine.fileIndex + 1) = names at hloads
  cases hloads with
  | @cons name _ next names _ _ _ hload hrest =>
      have hlt : engine.fileIndex + 1 < engine.files.length := by
        apply Nat.lt_of_not_le
        intro hle
        rw [List.drop_eq_nil_of_le hle] at hnames
        contradiction
      rw [List.drop_eq_getElem_cons hlt, List.cons.injEq] at hnames
      have hname : engine.files[engine.fileIndex + 1]? = some name := by
        rw [List.getElem?_eq_getElem hlt, hnames.1]
      refine ⟨hlt, next, ?_, stage, last, hstage, ?_⟩
      · rw [Setup.loadIndex_of_name hstage hname, hload]
      · simpa only [place, hnames.2] using hrest

theorem enterNextFile_exhausts {later : List LoadedFile}
    (hlater : engine.LoadsLater setup world later)
    (hnone : Site.ofFiles (engine.fileIndex + 1) later = []) :
    (engine.enterNextFile setup world).result = .ok false ∧
      (engine.enterNextFile setup world).engine.isExhausted := by
  induction later generalizing engine world with
  | nil =>
      rw [enterNextFile, if_neg (Nat.not_lt_of_le hlater.nil)]
      exact ⟨rfl, rfl⟩
  | cons file later ih =>
      obtain ⟨hlt, next, hload, hrest⟩ := hlater.cons
      obtain ⟨hfile, hfiles⟩ := List.append_eq_nil_iff.mp hnone
      have hempty : file.nodes.isEmpty := by
        apply List.isEmpty_iff_length_eq_zero.mpr
        apply Nat.eq_zero_of_not_pos
        intro hpos
        rw [Site.ofFile_of_lt hpos] at hfile
        contradiction
      rw [enterNextFile, if_pos hlt]
      simp only [hload, hempty, if_true]
      exact ih hrest hfiles

theorem enterNextFile_arrives {later : List LoadedFile} {site : Site} {rest : List Site}
    (hlater : engine.LoadsLater setup world later)
    (hsites : Site.ofFiles (engine.fileIndex + 1) later = site :: rest) :
    Arrives setup engine (engine.enterNextFile setup world) site rest := by
  induction later generalizing engine world with
  | nil => cases hsites
  | cons file later ih =>
      obtain ⟨hlt, next, hload, hnext⟩ := hlater.cons
      rw [Site.ofFiles] at hsites
      rw [enterNextFile, if_pos hlt]
      cases hempty : file.nodes.isEmpty with
      | true =>
          have hlength : file.nodes.length ≤ 0 :=
            Nat.le_of_eq (List.isEmpty_iff_length_eq_zero.mp hempty)
          rw [Site.ofFile_of_le hlength, List.nil_append] at hsites
          simp only [hload, hempty, if_true]
          obtain ⟨hresult, hstands, hahead, hrun, hpause⟩ := ih hnext hsites
          exact ⟨hresult, hstands, hahead, hrun, fun _ => hpause (.inl rfl)⟩
      | false =>
          have hpos : 0 < file.nodes.length :=
            List.length_pos_iff.mpr (List.isEmpty_eq_false_iff.mp hempty)
          rw [Site.ofFile_of_lt hpos, List.cons_append, List.cons.injEq] at hsites
          obtain ⟨rfl, rfl⟩ := hsites
          simp only [hload, hempty, Bool.false_eq_true, if_false]
          exact ⟨rfl, ⟨rfl, rfl, rfl, hpos, rfl⟩, ⟨file, later, rfl, hnext, rfl⟩, rfl,
            by simp [place]⟩

theorem advance_exhausts (h : engine.Ahead setup world []) :
    (engine.advance setup world).result = .ok false ∧
      (engine.advance setup world).engine.isExhausted := by
  obtain ⟨file, later, hloaded, hlater, hsites⟩ := h
  obtain ⟨hfile, hfiles⟩ := List.append_eq_nil_iff.mp hsites.symm
  have hlast : ¬ engine.position + 1 < engine.nodeCount := by
    rw [nodeCount_of_loaded hloaded]
    intro hlt
    rw [Site.ofFile_of_lt hlt] at hfile
    contradiction
  rw [advance, if_neg hlast]
  exact enterNextFile_exhausts hlater hfiles

theorem advance_arrives {site : Site} {rest : List Site}
    (h : engine.Ahead setup world (site :: rest)) (hexhausted : engine.isExhausted = false) :
    Arrives setup engine (engine.advance setup world) site rest := by
  obtain ⟨file, later, hloaded, hlater, hsites⟩ := h
  have hcount := nodeCount_of_loaded hloaded
  by_cases hlt : engine.position + 1 < engine.nodeCount
  · rw [advance, if_pos hlt]
    rw [hcount] at hlt
    rw [Site.ofFile_of_lt hlt, List.cons_append, List.cons.injEq] at hsites
    obtain ⟨rfl, rfl⟩ := hsites
    refine ⟨rfl, ⟨hloaded, rfl, rfl, hlt, hexhausted⟩, ⟨file, later, hloaded, hlater, rfl⟩, rfl, ?_⟩
    rintro (hnone | hsome)
    · simp [hnone]
    · simp [hsome]
  · rw [advance, if_neg hlt]
    rw [hcount] at hlt
    rw [Site.ofFile_of_le (Nat.le_of_not_lt hlt), List.nil_append] at hsites
    exact enterNextFile_arrives hlater hsites.symm

end Engine

end SpanReview
