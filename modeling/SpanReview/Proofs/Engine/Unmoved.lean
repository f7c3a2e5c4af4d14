import Mathlib.Data.Prod.Lex
import SpanReview.Proofs.Engine.Failure
import SpanReview.Proofs.Engine.Search

namespace SpanReview.Engine

/-! A step back may report that nothing is before the engine, and a run that it stayed where it
was. The node is the same then, but what is shown of it may have been made anew. -/

variable {setup : Setup σ} {engine last : Engine} {world : World σ}

/-! A run that stays. Nodes are in the order of their addresses, and a run only goes forward in
it, so one that has advanced does not come back to where it was. -/

theorem advance_address_lt (h : (engine.advance setup world).result = .ok true) :
    toLex engine.address < toLex (engine.advance setup world).engine.address := by
  rw [Prod.Lex.toLex_lt_toLex]
  unfold advance at h ⊢
  split
  · exact .inr ⟨rfl, Nat.lt_succ_self _⟩
  · rename_i hlast
    rw [if_neg hlast] at h
    exact .inl (enterNextFile_true h).2.1

theorem runAdvance_address_lt (h : (engine.runAdvance setup world).result = .ok true) :
    toLex engine.address < toLex (engine.runAdvance setup world).engine.address := by
  cases hresult : (engine.advance setup world).result with
  | ok moved =>
      rw [runAdvance_of_ok hresult] at h ⊢
      exact advance_address_lt h
  | error e =>
      rw [runAdvance_of_error hresult] at h
      cases h

theorem isExhausted_of_runAdvance (h : (engine.runAdvance setup world).result = .ok false) :
    (engine.runAdvance setup world).engine.isExhausted := by
  rw [← runAdvance_false h]
  rfl

theorem recompute_address_le (hok : (engine.recompute setup world).result = .ok ())
    (hlast : (engine.recompute setup world).engine.isExhausted = false) :
    toLex engine.address ≤ toLex (engine.recompute setup world).engine.address := by
  fun_induction recompute setup engine world with
  | case1 engine world hnone => exact le_refl _
  | case2 engine world comparison hsome hskip outcome e herror => cases hok
  | case3 engine world comparison hsome hskip outcome hmoved _ ih =>
      have hpassed : toLex engine.address < toLex outcome.engine.address :=
        runAdvance_address_lt hmoved
      exact hpassed.le.trans (ih hok hlast)
  | case4 engine world comparison hsome hskip outcome hnone =>
      exact absurd (isExhausted_of_runAdvance hnone) (Bool.eq_false_iff.mp hlast)
  | case5 engine world comparison hsome hskip hrun => exact le_refl _
  | case6 engine world comparison hsome hskip hrun => exact le_refl _

theorem recompute_address_lt {comparison : Comparison} (hrun : engine.runMode = true)
    (hsome : engine.comparison? = some comparison) (hmatch : comparison.isMatch)
    (hunpaused : engine.runPause ≠ some engine.position)
    (hok : (engine.recompute setup world).result = .ok ())
    (hlast : (engine.recompute setup world).engine.isExhausted = false) :
    toLex engine.address < toLex (engine.recompute setup world).engine.address := by
  rw [recompute_skip hrun hsome hmatch hunpaused] at hok hlast ⊢
  obtain ⟨moved, hmoved, heq⟩ := Outcome.andThen_of_ok hok
  rw [heq] at hok hlast ⊢
  cases moved with
  | true =>
      have hpassed := runAdvance_address_lt hmoved
      exact hpassed.trans_le (recompute_address_le hok hlast)
  | false => exact absurd (isExhausted_of_runAdvance hmoved) (Bool.eq_false_iff.mp hlast)

theorem reportRun_stayed {before : Nat × Nat} {outcome : Outcome σ Unit}
    (h : (reportRun before outcome).result = .ok .stayed) :
    outcome.result = .ok () ∧ outcome.engine.isExhausted = false ∧
      outcome.engine.address = before := by
  obtain ⟨_, hok, _⟩ := Outcome.andThen_of_ok h
  rw [reportRun_of_ok hok] at h
  refine ⟨hok, ?_⟩
  split at h
  · cases h
  · rename_i hexhausted
    split at h
    · rename_i hsame
      exact ⟨Bool.eq_false_iff.mpr hexhausted, hsame⟩
    · cases h

section Run

variable {file : LoadedFile} {comparison : Comparison}

theorem run_ne_stayed_of_parked (hexhausted : engine.isExhausted = false)
    (hloaded : engine.loaded = some file) (hparked : engine.isParked) :
    (engine.run setup world).result ≠ .ok .stayed := by
  rw [run_parked hexhausted hloaded hparked]
  refine Outcome.andThen_ne_ok fun moved hmoved => ?_
  cases moved with
  | false => simp
  | true =>
      intro hstayed
      obtain ⟨hok, hlast, hsame⟩ := reportRun_stayed hstayed
      have hpassed := (runAdvance_address_lt hmoved).trans_le (recompute_address_le hok hlast)
      exact hpassed.ne (congrArg toLex hsame.symm)

theorem run_ne_stayed_of_match (hexhausted : engine.isExhausted = false)
    (hloaded : engine.loaded = some file) (hunparked : engine.isParked = false)
    (hsome : engine.comparison? = some comparison) (hmatch : comparison.isMatch) :
    (engine.run setup world).result ≠ .ok .stayed := by
  have hunpaused : engine.runPause ≠ some engine.position := by
    simpa using (Bool.or_eq_false_iff.mp hunparked).2
  intro hstayed
  rw [run_unparked hexhausted hloaded hunparked] at hstayed
  obtain ⟨hok, hlast, hsame⟩ := reportRun_stayed hstayed
  have hsome' : comparison? { engine with runMode := true } = some comparison := hsome
  have hpassed := recompute_address_lt rfl hsome' hmatch hunpaused hok hlast
  exact hpassed.ne (congrArg toLex hsame.symm)

theorem isParked_of_current (hcurrent : engine.current = some comparison) :
    engine.isParked = false ↔ engine.runPause ≠ some engine.position := by
  simp [isParked, hcurrent]

/-- What comparing at the node shows again: the same spans, with the proposal fitted afresh. -/
theorem Coherent.comparison?_eq (h : engine.Coherent) (hcurrent : engine.current = some comparison)
    (hloaded : engine.loaded = some file) :
    engine.comparison? = some { comparison with
      proposed := file.propose comparison.actual comparison.expected } := by
  obtain ⟨_, hexhausted, _⟩ := h.isSome_iff.mp (by simp [hcurrent])
  obtain ⟨other, node, hother, hnode, hactual, hexpected⟩ := h.node_of_current hcurrent
  obtain rfl : file = other := Option.some.inj (hloaded.symm.trans hother)
  have hcompare := LoadedFile.compareAt_eq_some_iff.mpr ⟨node, hnode, rfl⟩
  rw [hactual, hexpected]
  exact comparison?_eq_some_iff.mpr ⟨hexhausted, file, hloaded, hcompare⟩

/-- At a node that differs a run stops before it has moved. -/
theorem Coherent.run_of_differs (h : engine.Coherent) (hcurrent : engine.current = some comparison)
    (hloaded : engine.loaded = some file) (hunpaused : engine.runPause ≠ some engine.position)
    (hdiffers : comparison.isMatch = false) :
    engine.run setup world =
      ⟨.ok .stayed, { engine with
        current := some { comparison with
          proposed := file.propose comparison.actual comparison.expected },
        runPause := some engine.position }, world⟩ := by
  obtain ⟨_, hexhausted, _⟩ := h.isSome_iff.mp (by simp [hcurrent])
  have hsome : comparison? { engine with runMode := true } = some { comparison with
      proposed := file.propose comparison.actual comparison.expected } :=
    h.comparison?_eq hcurrent hloaded
  rw [run_unparked hexhausted hloaded ((isParked_of_current hcurrent).mpr hunpaused),
    recompute_stop rfl hsome hdiffers, reportRun_of_ok rfl]
  simp [hexhausted, h.runMode_off]

theorem Coherent.run_stayed_iff (h : engine.Coherent)
    (hcurrent : engine.current = some comparison) :
    (engine.run setup world).result = .ok .stayed ↔
      engine.runPause ≠ some engine.position ∧ comparison.isMatch = false := by
  obtain ⟨_, hexhausted, _⟩ := h.isSome_iff.mp (by simp [hcurrent])
  obtain ⟨file, _, hloaded, _⟩ := h.node_of_current hcurrent
  constructor
  · intro hstayed
    have hunparked : engine.isParked = false :=
      Bool.eq_false_iff.mpr fun hparked =>
        run_ne_stayed_of_parked hexhausted hloaded hparked hstayed
    refine ⟨(isParked_of_current hcurrent).mp hunparked, Bool.eq_false_iff.mpr fun hmatch => ?_⟩
    have hsome := h.comparison?_eq hcurrent hloaded
    exact run_ne_stayed_of_match hexhausted hloaded hunparked hsome hmatch hstayed
  · rintro ⟨hunpaused, hdiffers⟩
    rw [h.run_of_differs hcurrent hloaded hunpaused hdiffers]

/-- A run stays exactly if it starts at a node that differs and is not the stop of the last
run. Nothing that is compared has changed then, but the proposal is fitted again: what the
operator made of it is kept only if that is what it would be without any edit. -/
theorem stayed_run_keeps_iff (hreach : engine.Reachable setup)
    (hcurrent : engine.current = some comparison) :
    ((engine.run setup world).result = .ok .stayed ↔
      engine.runPause ≠ some engine.position ∧ comparison.isMatch = false) ∧
    ((engine.run setup world).result = .ok .stayed → ∃ file, engine.loaded = some file ∧
      let fitted := file.propose comparison.actual comparison.expected
      engine.run setup world =
        ⟨.ok .stayed, { engine with
          current := some { comparison with proposed := fitted },
          runPause := some engine.position }, world⟩ ∧
      ((engine.run setup world).engine.current = engine.current ↔
        comparison.proposed = fitted)) := by
  have h := hreach.coherent
  refine ⟨h.run_stayed_iff hcurrent, fun hstayed => ?_⟩
  obtain ⟨hunpaused, hdiffers⟩ := (h.run_stayed_iff hcurrent).mp hstayed
  obtain ⟨file, _, hloaded, _⟩ := h.node_of_current hcurrent
  have hrun : engine.run setup world = _ := h.run_of_differs hcurrent hloaded hunpaused hdiffers
  refine ⟨file, hloaded, hrun, ?_⟩
  rw [hrun, hcurrent]
  constructor
  · intro hsame
    exact (congrArg Comparison.proposed (Option.some.inj hsame)).symm
  · intro hfitted
    rw [← hfitted]

end Run

/-- The first of two case files has no nodes, and nothing is recorded for the second. -/
def emptyThenShown : Setup Unit where
  source := .ofEntries
    [⟨"a.pug", some "", .array [], .null, none⟩,
      ⟨"b.pug", some "p", .array [.object [("type", .string "text")]], .null, none⟩] []
  store := ⟨"save"⟩
  repository := ⟨"https://github.com/pugjs/pug.git", "master"⟩
  caseExtension := "pug"

def emptyWorld : World Unit :=
  ⟨.empty, ()⟩

def shownSpan : Span :=
  ⟨"b.pug", ⟨1, 1⟩, ⟨1, 1⟩⟩

def shownFile : LoadedFile where
  key := ⟨emptyThenShown.repository, .lexer, "b.pug"⟩
  lines := LineTable.ofText "p"
  nodes := [⟨some "text", shownSpan, .object [("type", .string "text")]⟩]
  fixture := none

/-- The second case file is shown, with a proposal and perhaps the stop of a run. -/
def showing (proposed : Span) (pause : Option Nat) : Engine :=
  { place { start .off with stage := some .lexer, files := ["a.pug", "b.pug"] } 1 shownFile with
    current := some ⟨shownSpan, Span.sentinel, proposed⟩
    runPause := pause }

def widened : Span :=
  ⟨"b.pug", ⟨1, 1⟩, ⟨1, 2⟩⟩

theorem propose_shown : shownFile.propose shownSpan Span.sentinel = shownSpan := by
  decide +kernel

theorem compareAt_shown :
    shownFile.compareAt 0 = some ⟨shownSpan, Span.sentinel, shownSpan⟩ :=
  LoadedFile.compareAt_eq_some_iff.mpr
    ⟨_, rfl, congrArg (Comparison.mk shownSpan Span.sentinel) propose_shown.symm⟩

theorem showing_reachable : (showing shownSpan none).Reachable emptyThenShown := by
  let listed : Engine := { start .off with stage := some .lexer, files := ["a.pug", "b.pug"] }
  have hname : listed.fileNamed? emptyThenShown (Text.trim "b") = some 1 := by decide
  have hload : emptyThenShown.loadIndex listed 1 emptyWorld = (.ok shownFile, emptyWorld) := rfl
  have hcompare : (listed.place 1 shownFile).comparison? = _ := compareAt_shown
  refine ⟨.off, [⟨.selectStage "lexer", emptyWorld⟩, ⟨.selectFile "b", emptyWorld⟩], ?_⟩
  refine (congrArg Outcome.engine (selectFile_of_off rfl rfl hname hload)).trans ?_
  rw [rest_of_some hcompare]
  rfl

theorem widened_reachable {pause : Option Nat}
    (h : (showing shownSpan pause).Reachable emptyThenShown) :
    (showing widened pause).Reachable emptyThenShown := by
  have hmoved : shownFile.lines.moveEndpoint shownSpan .finish 1 = widened := by
    decide +kernel
  have hedited := h.apply ⟨.moveEndpoint .finish 1, emptyWorld⟩
  rw [← hmoved]
  exact hedited

theorem run_showing {proposed : Span}
    (h : (showing proposed none).Reachable emptyThenShown) :
    (showing proposed none).run emptyThenShown emptyWorld =
      ⟨.ok .stayed, showing shownSpan (some 0), emptyWorld⟩ := by
  have hdiffers : (shownSpan == Span.sentinel) = false := by
    decide
  have hunpaused : (showing proposed none).runPause ≠ some (showing proposed none).position := by
    simp [showing]
  have hrun : (showing proposed none).run emptyThenShown emptyWorld = _ :=
    h.coherent.run_of_differs rfl rfl hunpaused hdiffers
  rw [hrun, propose_shown]
  rfl

theorem stayed_run_keeps_unedited :
    let engine := showing shownSpan none
    let outcome := engine.run emptyThenShown emptyWorld
    engine.Reachable emptyThenShown ∧ outcome.result = .ok .stayed ∧
      outcome.engine.current = engine.current := by
  intro engine outcome
  have hrun : outcome = ⟨.ok .stayed, showing shownSpan (some 0), emptyWorld⟩ :=
    run_showing showing_reachable
  have hstayed : outcome.result = .ok .stayed := by rw [hrun]
  obtain ⟨_, hkeeps⟩ := stayed_run_keeps_iff showing_reachable rfl
  obtain ⟨file, hloaded, _, hkept⟩ := hkeeps hstayed
  cases hloaded
  exact ⟨showing_reachable, hstayed, hkept.mpr propose_shown.symm⟩

/-- The operator has widened the proposed span, and the run proposes the reported one. -/
theorem stayed_run_loses_edit :
    let engine := showing widened none
    let outcome := engine.run emptyThenShown emptyWorld
    engine.Reachable emptyThenShown ∧ outcome.result = .ok .stayed ∧
      engine.current.map Comparison.proposed = some widened ∧
      outcome.engine.current.map Comparison.proposed = some shownSpan ∧
      outcome.engine.current ≠ engine.current := by
  intro engine outcome
  have hreach : engine.Reachable emptyThenShown := widened_reachable showing_reachable
  have hrun : outcome = ⟨.ok .stayed, showing shownSpan (some 0), emptyWorld⟩ :=
    run_showing hreach
  rw [hrun]
  exact ⟨hreach, rfl, rfl, rfl, by simp [engine, showing, shownSpan, widened]⟩

/-! Back at the start. -/

/-- The case file of the engine was loaded again, and is shown from its first node. -/
def Reloads (setup : Setup σ) (engine last : Engine) : Prop :=
  ∃ file later, (setup.loadIndex engine engine.fileIndex later).1 = .ok file ∧
    last = (engine.place engine.fileIndex file).rest

theorem enterPreviousFile_false
    (h : (engine.enterPreviousFile setup world).result = .ok false) :
    (engine.enterPreviousFile setup world).engine.fileIndex = 0 := by
  fun_induction enterPreviousFile setup engine world with
  | case1 engine world hfirst => exact hfirst
  | case2 engine world hfirst error world' hload => cases h
  | case3 engine world hfirst file world' hload hempty ih => exact ih h
  | case4 engine world hfirst file world' hload hfull => cases h

theorem enterPreviousFile_of_first (hfirst : engine.fileIndex = 0) :
    engine.enterPreviousFile setup world = ⟨.ok false, engine, world⟩ := by
  rw [enterPreviousFile, if_pos hfirst]

theorem retreatFile_of_first (hfirst : engine.fileIndex = 0) :
    engine.retreatFile setup world = ⟨.ok false, engine, world⟩ := by
  simp [retreatFile, enterPreviousFile_of_first hfirst, Outcome.andThen]

theorem enterFile_of_ok {index : Nat} {entered : Unit}
    (h : (engine.enterFile setup index world).result = .ok entered) :
    ∃ file later, (setup.loadIndex engine index world).1 = .ok file ∧
      engine.enterFile setup index world = ⟨.ok (), engine.place index file, later⟩ := by
  unfold enterFile at h ⊢
  split at h
  · cases h
  · rename_i file later hload
    exact ⟨file, later, congrArg Prod.fst hload, rfl⟩

theorem retreatFile_false (hrun : engine.runMode = false) (hlater : engine.fileIndex ≠ 0)
    (h : (engine.retreatFile setup world).result = .ok false) :
    Reloads setup engine (engine.retreatFile setup world).engine := by
  obtain ⟨found, hfound, hbefore⟩ := Outcome.andThen_of_ok h
  rw [retreatFile, hbefore] at h ⊢
  cases found with
  | true => cases h
  | false =>
      have hfirst := enterPreviousFile_false hfound
      have hstays := enterPreviousFile_stays setup engine world (by simp [hfound])
      have hoff := enterPreviousFile_runMode setup engine world hrun
      generalize (engine.enterPreviousFile setup world).engine = there at hfirst hstays hoff h ⊢
      have hmoved : there.fileIndex ≠ engine.fileIndex := by
        rw [hfirst]
        exact hlater.symm
      simp only [Bool.false_eq_true, if_false, if_neg hmoved] at h ⊢
      obtain ⟨_, hentered, hagain⟩ := Outcome.andThen_of_ok h
      obtain ⟨file, later, hload, hplaced⟩ := enterFile_of_ok hentered
      rcases hstays with ⟨hsame, _⟩ | hcrosses
      · exact absurd (congrArg Engine.fileIndex hsame) hmoved
      · -- The file of the start is loaded from the last of the files before it.
        obtain ⟨index, empty, _, _, _, rfl, _⟩ := hcrosses.stands
        have hplacedOff : ((engine.place index empty).place engine.fileIndex file).runMode =
            false := hoff
        rw [hagain, hplaced, recompute_of_off hplacedOff]
        exact ⟨file, _, hload, rfl⟩

/-- What a retreat that finds no node before the engine leaves. -/
inductive Unmoved (setup : Setup σ) (engine : Engine) : Engine → Prop
  | first (hexhausted : engine.isExhausted = false) (hposition : engine.position = 0)
      (hfirst : engine.fileIndex = 0) : Unmoved setup engine engine
  | restored {last : Engine} (hposition : engine.isExhausted = false → engine.position = 0)
      (hlater : engine.isExhausted ∨ engine.fileIndex ≠ 0) (hlast : Reloads setup engine last) :
      Unmoved setup engine last

theorem retreat_false (hrun : engine.runMode = false)
    (h : (engine.retreat setup world).result = .ok false) :
    Unmoved setup engine (engine.retreat setup world).engine := by
  unfold retreat at h ⊢
  split at h
  · rename_i hexhausted
    rw [if_pos hexhausted]
    refine .restored (by simp [hexhausted]) (.inl hexhausted) ?_
    obtain ⟨_, hentered, hagain⟩ := Outcome.andThen_of_ok h
    obtain ⟨file, later, hload, hplaced⟩ := enterFile_of_ok hentered
    rw [hagain, hplaced] at h ⊢
    split at h
    · cases h
    · rename_i hcount
      rw [if_neg hcount]
      by_cases hfirst : engine.fileIndex = 0
      · have hempty : file.nodes.isEmpty := by
          simpa [nodeCount, place] using hcount
        have hstill : (engine.place engine.fileIndex file).fileIndex = 0 := hfirst
        rw [retreatFile_of_first hstill]
        exact ⟨file, world, hload, (place_empty_atRest hrun hempty _).symm⟩
      · have hoff : (engine.place engine.fileIndex file).runMode = false := hrun
        exact retreatFile_false hoff hfirst h
  · rename_i hexhausted
    rw [if_neg hexhausted]
    split at h
    · cases h
    · rename_i hposition
      rw [if_neg hposition]
      have hzero : engine.position = 0 := Nat.eq_zero_of_not_pos hposition
      by_cases hfirst : engine.fileIndex = 0
      · rw [retreatFile_of_first hfirst]
        exact .first (Bool.eq_false_iff.mpr hexhausted) hzero hfirst
      · exact .restored (fun _ => hzero) (.inr hfirst) (retreatFile_false hrun hfirst h)

theorem settle_ne_atStart (hrun : engine.runMode = false) :
    (engine.settle setup world).result ≠ .ok .atStart := by
  rw [settle_of_off hrun, settled]
  split <;> simp

theorem previous_atStart (hrun : engine.runMode = false)
    (h : (engine.previous setup world).result = .ok .atStart) :
    (engine.loaded.isSome ∨ engine.isExhausted) ∧
      Unmoved setup engine (engine.previous setup world).engine := by
  have hready : engine.loaded.isSome ∨ engine.isExhausted := by
    cases hexhausted : engine.isExhausted with
    | true => exact .inr rfl
    | false =>
        left
        rw [Option.isSome_iff_ne_none]
        intro hnone
        simp [previous, hnone, hexhausted] at h
  refine ⟨hready, ?_⟩
  rw [previous_of_ready hready] at h ⊢
  obtain ⟨moved, hretreat, heq⟩ := Outcome.andThen_of_ok h
  rw [heq] at h ⊢
  cases moved with
  | true => exact absurd h (settle_ne_atStart (retreat_runMode setup engine world hrun))
  | false => exact retreat_false hrun hretreat

theorem previousFile_atStart (hrun : engine.runMode = false)
    (h : (engine.previousFile setup world).result = .ok .atStart) :
    (engine.previousFile setup world).engine = engine := by
  have hload (index : Nat) : ((engine.enterFile setup index world).andThen fun _ engine world =>
      engine.settle setup world).result ≠ .ok .atStart :=
    Outcome.andThen_ne_ok fun _ _ =>
      settle_ne_atStart (enterFile_runMode setup index engine world hrun)
  unfold previousFile at h ⊢
  split at h
  · cases h
  · rename_i hstage
    rw [if_neg hstage]
    split at h
    · exact absurd h (hload _)
    · rename_i hexhausted
      rw [if_neg hexhausted]
      split at h
      · rename_i hfirst
        rw [if_pos hfirst]
      · exact absurd h (hload _)

theorem Reloads.fileIndex_eq (h : Reloads setup engine last) :
    last.fileIndex = engine.fileIndex := by
  obtain ⟨file, _, _, rfl⟩ := h
  rfl

theorem Reloads.position_eq (h : Reloads setup engine last) : last.position = 0 := by
  obtain ⟨file, _, _, rfl⟩ := h
  rfl

theorem Reloads.phase_eq (h : Reloads setup engine last) (hexhausted : engine.isExhausted = false)
    (hloaded : engine.loaded.isSome) : last.phase = engine.phase := by
  obtain ⟨file, _, _, rfl⟩ := h
  simp [phase, rest, place, hexhausted, hloaded]

theorem Reloads.ne_of_exhausted (h : Reloads setup engine last) (hexhausted : engine.isExhausted) :
    last ≠ engine := by
  obtain ⟨file, _, _, rfl⟩ := h
  intro hsame
  rw [← hsame] at hexhausted
  contradiction

theorem Reloads.eq_iff (h : Reloads setup engine last) (hrun : engine.runMode = false)
    (hexhausted : engine.isExhausted = false) (hposition : engine.position = 0) :
    last = engine ↔ last.loaded = engine.loaded ∧ engine.current = engine.comparison? ∧
      engine.runPause = none := by
  obtain ⟨file, _, _, rfl⟩ := h
  constructor
  · intro hsame
    have hrest : engine.AtRest := hsame ▸ AtRest.of_rest _
    exact ⟨congrArg Engine.loaded hsame, (congrArg Engine.current hrest).symm,
      (congrArg Engine.runPause hsame).symm⟩
  · rintro ⟨hloaded, hcurrent, hpause⟩
    have hfile : engine.loaded = some file := hloaded.symm
    have hcompare : (engine.place engine.fileIndex file).comparison? = engine.comparison? := by
      simp only [comparison?, place, hfile, hexhausted, hposition]
      rfl
    rw [rest, hcompare, ← hcurrent]
    clear hcompare hcurrent
    obtain ⟨display, stage, files, fileIndex, loaded, position, current, isExhausted, runMode,
      runPause⟩ := engine
    cases hfile
    cases hexhausted
    cases hposition
    cases hrun
    cases hpause
    rfl

/-- A step that reports that nothing is before the engine keeps the case file and, unless it
comes back from past the last node, the phase and the position. It keeps the whole engine if no
case file is listed before this one. Otherwise the file is loaded again, and the engine is as it
was only if it loads as before, the proposed span was not edited and no run had stopped. -/
theorem start_keeps_iff (hreach : engine.Reachable setup) :
    ((engine.previousFile setup world).result = .ok .atStart →
      (engine.previousFile setup world).engine = engine) ∧
    ((engine.previous setup world).result = .ok .atStart →
      let last := (engine.previous setup world).engine
      last.fileIndex = engine.fileIndex ∧
      (engine.isExhausted = false → last.phase = engine.phase ∧ last.position = engine.position) ∧
      (last = engine ↔ engine.isExhausted = false ∧ (engine.fileIndex = 0 ∨
        (last.loaded = engine.loaded ∧ engine.current = engine.comparison? ∧
          engine.runPause = none))) ∧
      (last ≠ engine → Reloads setup engine last)) := by
  have hrun := hreach.coherent.runMode_off
  refine ⟨previousFile_atStart hrun, fun h => ?_⟩
  obtain ⟨hready, hunmoved⟩ := previous_atStart hrun h
  generalize (engine.previous setup world).engine = last at hunmoved
  intro last'
  cases hunmoved with
  | first hexhausted hposition hfirst =>
      exact ⟨rfl, fun _ => ⟨rfl, rfl⟩, iff_of_true rfl ⟨hexhausted, .inl hfirst⟩,
        fun hne => absurd rfl hne⟩
  | restored hposition hlater hlast =>
      refine ⟨hlast.fileIndex_eq, fun hexhausted => ⟨?_, ?_⟩, ?_, fun _ => hlast⟩
      · exact hlast.phase_eq hexhausted (hready.resolve_right (by simp [hexhausted]))
      · exact hlast.position_eq.trans (hposition hexhausted).symm
      · cases hexhausted : engine.isExhausted with
        | true => simpa using hlast.ne_of_exhausted hexhausted
        | false =>
            have hfirst := hlater.resolve_left (by simp [hexhausted])
            simpa [hfirst] using hlast.eq_iff hrun hexhausted (hposition hexhausted)

/-- From the file that is shown, the step comes over the empty file before it and back. -/
theorem previous_of_showing (proposed : Span) (pause : Option Nat) :
    (showing proposed pause).previous emptyThenShown emptyWorld =
      ⟨.ok .atStart, showing shownSpan none, emptyWorld⟩ := by
  let engine := showing proposed pause
  let emptyFile : LoadedFile :=
    ⟨⟨emptyThenShown.repository, .lexer, "a.pug"⟩, LineTable.ofText "", [], none⟩
  let there := engine.place (engine.fileIndex - 1) emptyFile
  have hlater : ¬ engine.fileIndex = 0 := Nat.one_ne_zero
  have hexhausted : ¬ engine.isExhausted = true := Bool.false_ne_true
  have hposition : ¬ 0 < engine.position := Nat.lt_irrefl 0
  have hbefore : engine.enterPreviousFile emptyThenShown emptyWorld =
      ⟨.ok false, there, emptyWorld⟩ := by
    have hload : emptyThenShown.loadIndex engine (engine.fileIndex - 1) emptyWorld =
        (.ok emptyFile, emptyWorld) := rfl
    have hfirst : there.fileIndex = 0 := rfl
    rw [enterPreviousFile, if_neg hlater, hload]
    exact enterPreviousFile_of_first hfirst
  have hretreat : engine.retreatFile emptyThenShown emptyWorld =
      ⟨.ok false, (there.place engine.fileIndex shownFile).rest, emptyWorld⟩ := by
    have hload : emptyThenShown.loadIndex there engine.fileIndex emptyWorld =
        (.ok shownFile, emptyWorld) := rfl
    have hoff : (there.place engine.fileIndex shownFile).runMode = false := rfl
    simp only [retreatFile, hbefore, Outcome.andThen, enterFile, hload, recompute_of_off hoff]
    rfl
  have hcompare : (there.place engine.fileIndex shownFile).comparison? = _ := compareAt_shown
  change engine.previous emptyThenShown emptyWorld = _
  rw [previous_of_ready (.inl rfl), retreat, if_neg hexhausted, if_neg hposition, hretreat,
    rest_of_some hcompare]
  rfl

theorem start_keeps_unedited :
    let engine := showing shownSpan none
    let outcome := engine.previous emptyThenShown emptyWorld
    engine.Reachable emptyThenShown ∧ outcome.result = .ok .atStart ∧ outcome.engine = engine := by
  intro engine outcome
  have hprevious : outcome = ⟨.ok .atStart, engine, emptyWorld⟩ := previous_of_showing _ _
  have hstart : outcome.result = .ok .atStart := by rw [hprevious]
  obtain ⟨_, hkeeps⟩ := start_keeps_iff showing_reachable
  obtain ⟨_, _, hkept, _⟩ := hkeeps hstart
  have hloaded : outcome.engine.loaded = engine.loaded := by rw [hprevious]
  exact ⟨showing_reachable, hstart,
    hkept.mpr ⟨rfl, .inr ⟨hloaded, compareAt_shown.symm, rfl⟩⟩⟩

/-- A run has stopped at the node and the operator has widened the proposed span. Neither is
left, although the step found nothing before the node. -/
theorem start_loses_edit :
    let engine := showing widened (some 0)
    let outcome := engine.previous emptyThenShown emptyWorld
    engine.Reachable emptyThenShown ∧ outcome.result = .ok .atStart ∧
      engine.current.map Comparison.proposed = some widened ∧
      outcome.engine.current.map Comparison.proposed = some shownSpan ∧
      outcome.engine.current ≠ engine.current ∧
      engine.runPause = some 0 ∧ outcome.engine.runPause = none := by
  intro engine outcome
  have hrun := showing_reachable.apply ⟨.run, emptyWorld⟩
  have hstopped : (showing shownSpan (some 0)).Reachable emptyThenShown := by
    rw [Call.apply, Operation.perform, run_showing showing_reachable] at hrun
    exact hrun
  have hprevious : outcome = ⟨.ok .atStart, showing shownSpan none, emptyWorld⟩ :=
    previous_of_showing _ _
  rw [hprevious]
  exact ⟨widened_reachable hstopped, rfl, rfl, rfl,
    by simp [engine, showing, shownSpan, widened], rfl, rfl⟩

end SpanReview.Engine
