import SpanReview.Proofs.Engine.Inverse

namespace SpanReview

/-! A step from node to node loads case files until one has nodes. If one of them fails to
load, the engine is left at the last file without nodes before it, or where it was if the
step had loaded none. -/

inductive Direction where
  | forward
  | back
  deriving DecidableEq, Repr

def Direction.Beyond : Direction → (index other : Nat) → Prop
  | .forward, index, other => index < other
  | .back, index, other => other < index

theorem Direction.Beyond.trans {direction : Direction} {index other last : Nat}
    (h : direction.Beyond index other) (hlast : direction.Beyond other last) :
    direction.Beyond index last := by
  cases direction with
  | forward => exact Nat.lt_trans h hlast
  | back => exact Nat.lt_trans hlast h

theorem Direction.Beyond.ne {direction : Direction} {index other : Nat}
    (h : direction.Beyond index other) : other ≠ index := by
  cases direction with
  | forward => exact Nat.ne_of_gt h
  | back => exact Nat.ne_of_lt h

theorem Outcome.andThen_of_error {outcome : Outcome σ α}
    {next : α → Engine → World σ → Outcome σ β} {e : EngineError}
    (hnext : ∀ a, outcome.result = .ok a →
      (next a outcome.engine outcome.world).result ≠ .error e)
    (h : (outcome.andThen next).result = .error e) :
    outcome.result = .error e ∧ (outcome.andThen next).engine = outcome.engine := by
  unfold andThen at h ⊢
  cases hresult : outcome.result with
  | error other =>
      rw [hresult] at h
      cases h
      exact ⟨rfl, rfl⟩
  | ok a =>
      rw [hresult] at h
      exact absurd h (hnext a hresult)

namespace Engine

variable {setup : Setup σ} {engine last : Engine} {world later : World σ}
  {direction : Direction} {first : Nat} {e : EngineError}

def step (setup : Setup σ) (engine : Engine) (world : World σ) : Direction → Outcome σ Step
  | .forward => engine.next setup world
  | .back => engine.previous setup world

/-- The case file that a step loads first when it leaves the loaded one. -/
def firstCrossed (engine : Engine) : Direction → Nat
  | .forward => engine.fileIndex + 1
  | .back => if engine.isExhausted then engine.fileIndex else engine.fileIndex - 1

/-- The file at `first` was loaded, and the engine now stands at a file without nodes. -/
structure CrossesTo (setup : Setup σ) (direction : Direction) (engine : Engine)
    (world : World σ) (first : Nat) (last : Engine) : Prop where
  opened : ∃ file, (setup.loadIndex engine first world).1 = .ok file
  stands : ∃ index file later, (setup.loadIndex engine index later).1 = .ok file ∧
    file.nodes = [] ∧ last = engine.place index file ∧
    (engine.isExhausted ∨ direction.Beyond engine.fileIndex index)

theorem CrossesTo.ne (h : CrossesTo setup direction engine world first last) : last ≠ engine := by
  obtain ⟨index, file, _, _, _, rfl, hfrom⟩ := h.stands
  intro hsame
  rcases hfrom with hexhausted | hbeyond
  · rw [← hsame] at hexhausted
    contradiction
  · exact hbeyond.ne (congrArg Engine.fileIndex hsame)

section Crossing

variable {file : LoadedFile}

theorem crossesTo_place (hload : setup.loadIndex engine first world = (.ok file, later))
    (hempty : file.nodes.isEmpty)
    (hfrom : engine.isExhausted ∨ direction.Beyond engine.fileIndex first) :
    CrossesTo setup direction engine world first (engine.place first file) where
  opened := ⟨file, congrArg Prod.fst hload⟩
  stands := ⟨first, file, world, congrArg Prod.fst hload, List.isEmpty_iff.mp hempty, rfl, hfrom⟩

theorem CrossesTo.after_place {second : Nat}
    (hload : setup.loadIndex engine first world = (.ok file, later))
    (hfrom : engine.isExhausted ∨ direction.Beyond engine.fileIndex first)
    (h : CrossesTo setup direction (engine.place first file) later second last) :
    CrossesTo setup direction engine world first last := by
  obtain ⟨index, empty, then_, hindex, hempty, hlast, hplaced⟩ := h.stands
  have hbeyond : direction.Beyond first index := by
    rcases hplaced with hexhausted | hbeyond
    · contradiction
    · exact hbeyond
  exact ⟨⟨file, congrArg Prod.fst hload⟩, index, empty, then_, hindex, hempty, hlast,
    hfrom.imp_right fun hfirst => hfirst.trans hbeyond⟩

end Crossing

/-- What a failure leaves: the engine itself if the first file did not load, else an engine
that has crossed files without nodes. -/
def FailsTo (setup : Setup σ) (direction : Direction) (engine : Engine) (world : World σ)
    (first : Nat) (last : Engine) : Prop :=
  ((∃ e, (setup.loadIndex engine first world).1 = .error e) ∧ last = engine) ∨
    CrossesTo setup direction engine world first last

theorem FailsTo.after_place {file : LoadedFile} {second : Nat}
    (hload : setup.loadIndex engine first world = (.ok file, later)) (hempty : file.nodes.isEmpty)
    (hfrom : engine.isExhausted ∨ direction.Beyond engine.fileIndex first)
    (h : FailsTo setup direction (engine.place first file) later second last) :
    FailsTo setup direction engine world first last := by
  right
  rcases h with ⟨_, rfl⟩ | hcrosses
  · exact crossesTo_place hload hempty hfrom
  · exact hcrosses.after_place hload hfrom

/-! Forward. -/

theorem enterNextFile_fails (h : (engine.enterNextFile setup world).result = .error e) :
    FailsTo setup .forward engine world (engine.fileIndex + 1)
      (engine.enterNextFile setup world).engine := by
  fun_induction enterNextFile setup engine world with
  | case1 engine world hlt error world' hload =>
      exact .inl ⟨⟨error, congrArg Prod.fst hload⟩, rfl⟩
  | case2 engine world hlt file world' hload hempty ih =>
      exact (ih h).after_place hload hempty (.inr (Nat.lt_succ_self _))
  | case3 engine world hlt file world' hload hfull => cases h
  | case4 engine world hlast => cases h

theorem enterNextFile_runMode (setup : Setup σ) (engine : Engine) (world : World σ)
    (hrun : engine.runMode = false) :
    (engine.enterNextFile setup world).engine.runMode = false := by
  fun_induction enterNextFile setup engine world with
  | case1 engine world hlt error world' hload => exact hrun
  | case2 engine world hlt file world' hload hempty ih => exact ih hrun
  | case3 engine world hlt file world' hload hfull => exact hrun
  | case4 engine world hlast => rfl

theorem advance_runMode (setup : Setup σ) (engine : Engine) (world : World σ)
    (hrun : engine.runMode = false) : (engine.advance setup world).engine.runMode = false := by
  unfold advance
  split
  · exact hrun
  · exact enterNextFile_runMode setup engine world hrun

theorem settle_ne_error (hrun : engine.runMode = false) :
    (engine.settle setup world).result ≠ .error e := by
  rw [settle_of_off hrun]
  simp

theorem next_fails (hrun : engine.runMode = false) (hloaded : engine.loaded.isSome)
    (h : (engine.next setup world).result = .error e) :
    FailsTo setup .forward engine world (engine.firstCrossed .forward)
      (engine.next setup world).engine := by
  obtain ⟨file, hfile⟩ := Option.isSome_iff_exists.mp hloaded
  cases hexhausted : engine.isExhausted with
  | true =>
      rw [next, if_pos hexhausted] at h
      cases h
  | false =>
      rw [next_of_loaded hexhausted hfile] at h ⊢
      obtain ⟨hadvance, hengine⟩ := Outcome.andThen_of_error (fun moved _ => by
        cases moved with
        | true => exact settle_ne_error (advance_runMode setup engine world hrun)
        | false => simp) h
      rw [hengine]
      unfold advance at hadvance ⊢
      split at hadvance
      · cases hadvance
      · rename_i hlast
        rw [if_neg hlast]
        exact enterNextFile_fails hadvance

/-! Back. -/

/-- The loop over the files before, when it lands at no node. -/
theorem enterPreviousFile_stays (setup : Setup σ) (engine : Engine) (world : World σ)
    (h : (engine.enterPreviousFile setup world).result ≠ .ok true) :
    ((engine.enterPreviousFile setup world).engine = engine ∧
        ∀ e, (engine.enterPreviousFile setup world).result = .error e →
          ∃ e', (setup.loadIndex engine (engine.fileIndex - 1) world).1 = .error e') ∨
      CrossesTo setup .back engine world (engine.fileIndex - 1)
        (engine.enterPreviousFile setup world).engine := by
  fun_induction enterPreviousFile setup engine world with
  | case1 engine world hfirst =>
      left
      refine ⟨rfl, fun e herror => ?_⟩
      cases herror
  | case2 engine world hfirst error world' hload =>
      exact .inl ⟨rfl, fun _ _ => ⟨error, congrArg Prod.fst hload⟩⟩
  | case3 engine world hfirst file world' hload hempty ih =>
      right
      have hbefore : Direction.Beyond .back engine.fileIndex (engine.fileIndex - 1) :=
        Nat.sub_lt (Nat.pos_of_ne_zero hfirst) Nat.one_pos
      rcases ih h with ⟨hsame, _⟩ | hcrosses
      · rw [hsame]
        exact crossesTo_place hload hempty (.inr hbefore)
      · exact hcrosses.after_place hload (.inr hbefore)
  | case4 engine world hfirst file world' hload hfull => exact absurd rfl h

theorem enterPreviousFile_runMode (setup : Setup σ) (engine : Engine) (world : World σ)
    (hrun : engine.runMode = false) :
    (engine.enterPreviousFile setup world).engine.runMode = false := by
  fun_induction enterPreviousFile setup engine world with
  | case1 engine world hfirst => exact hrun
  | case2 engine world hfirst error world' hload => exact hrun
  | case3 engine world hfirst file world' hload hempty ih => exact ih hrun
  | case4 engine world hfirst file world' hload hfull => exact hrun

theorem enterFile_runMode (setup : Setup σ) (index : Nat) (engine : Engine) (world : World σ)
    (hrun : engine.runMode = false) :
    (engine.enterFile setup index world).engine.runMode = false := by
  unfold enterFile
  split
  · exact hrun
  · exact hrun

theorem andThen_runMode {outcome : Outcome σ α} {next : α → Engine → World σ → Outcome σ β}
    (hrun : outcome.engine.runMode = false)
    (hnext : ∀ value, (next value outcome.engine outcome.world).engine.runMode = false) :
    (outcome.andThen next).engine.runMode = false :=
  @Outcome.andThen_cases _ _ _ _ _ (fun last => last.runMode = false) (fun _ _ => hrun)
    fun value _ => hnext value

theorem retreatFile_runMode (setup : Setup σ) (engine : Engine) (world : World σ)
    (hrun : engine.runMode = false) :
    (engine.retreatFile setup world).engine.runMode = false := by
  have hbefore := enterPreviousFile_runMode setup engine world hrun
  apply andThen_runMode hbefore
  intro found
  split
  · exact hbefore
  · split
    · exact hbefore
    · have horigin := enterFile_runMode setup engine.fileIndex _
        (engine.enterPreviousFile setup world).world hbefore
      apply andThen_runMode horigin
      intro _
      rw [recompute_of_off horigin]
      rfl

theorem retreat_runMode (setup : Setup σ) (engine : Engine) (world : World σ)
    (hrun : engine.runMode = false) : (engine.retreat setup world).engine.runMode = false := by
  unfold retreat
  split
  · have hagain := enterFile_runMode setup engine.fileIndex engine world hrun
    apply andThen_runMode hagain
    intro _
    split
    · exact hagain
    · exact retreatFile_runMode setup _ _ hagain
  · split
    · exact hrun
    · exact retreatFile_runMode setup engine world hrun

theorem retreatFile_fails (hrun : engine.runMode = false)
    (h : (engine.retreatFile setup world).result = .error e) :
    FailsTo setup .back engine world (engine.fileIndex - 1)
      (engine.retreatFile setup world).engine := by
  have hstays := enterPreviousFile_stays setup engine world
  have hoff := enterPreviousFile_runMode setup engine world hrun
  unfold retreatFile Outcome.andThen at h ⊢
  generalize engine.enterPreviousFile setup world = before at hstays hoff h ⊢
  obtain ⟨result, last, later⟩ := before
  cases result with
  | error reason =>
      rcases hstays (by simp) with ⟨hsame, hload⟩ | hcrosses
      · exact .inl ⟨hload reason rfl, hsame⟩
      · exact .inr hcrosses
  | ok found =>
      cases found with
      | true => cases h
      | false =>
          simp only [Bool.false_eq_true, if_false] at h ⊢
          split at h
          · cases h
          · rename_i hmoved
            rw [if_neg hmoved]
            rcases hstays (by simp) with ⟨hsame, _⟩ | hcrosses
            · exact absurd (congrArg Engine.fileIndex hsame) hmoved
            · -- Nothing before has nodes, and the file of the start does not load again.
              right
              unfold enterFile at h ⊢
              cases hload : setup.loadIndex last engine.fileIndex later with
              | mk loaded world' =>
                  cases loaded with
                  | error reason => exact hcrosses
                  | ok file =>
                      have hoff' : (last.place engine.fileIndex file).runMode = false := hoff
                      simp only [hload, recompute_of_off hoff'] at h
                      cases h

theorem retreat_fails (hrun : engine.runMode = false)
    (h : (engine.retreat setup world).result = .error e) :
    FailsTo setup .back engine world (engine.firstCrossed .back)
      (engine.retreat setup world).engine := by
  unfold retreat at h ⊢
  unfold firstCrossed
  dsimp only
  split at h
  · rename_i hexhausted
    rw [if_pos hexhausted, if_pos hexhausted]
    unfold enterFile Outcome.andThen at h ⊢
    cases hload : setup.loadIndex engine engine.fileIndex world with
    | mk loaded later =>
        cases loaded with
        | error reason => exact .inl ⟨⟨reason, congrArg Prod.fst hload⟩, rfl⟩
        | ok file =>
            simp only [hload] at h ⊢
            split at h
            · cases h
            · rename_i hcount
              rw [if_neg hcount]
              have hempty : file.nodes.isEmpty := by
                simpa [nodeCount, place] using hcount
              have hoff : (engine.place engine.fileIndex file).runMode = false := hrun
              exact (retreatFile_fails hoff h).after_place hload hempty (.inl hexhausted)
  · rename_i hexhausted
    rw [if_neg hexhausted, if_neg hexhausted]
    split at h
    · cases h
    · rename_i hfirst
      rw [if_neg hfirst]
      exact retreatFile_fails hrun h

theorem previous_fails (hrun : engine.runMode = false)
    (hready : engine.loaded.isSome ∨ engine.isExhausted)
    (h : (engine.previous setup world).result = .error e) :
    FailsTo setup .back engine world (engine.firstCrossed .back)
      (engine.previous setup world).engine := by
  rw [previous_of_ready hready] at h ⊢
  obtain ⟨hretreat, hengine⟩ := Outcome.andThen_of_error (fun moved _ => by
    cases moved with
    | true => exact settle_ne_error (retreat_runMode setup engine world hrun)
    | false => simp) h
  rw [hengine]
  exact retreat_fails hrun hretreat

/-! Both ways. -/

theorem step_of_unloaded (setup : Setup σ) (world : World σ) (direction : Direction)
    (hloaded : engine.loaded = none) (hexhausted : engine.isExhausted = false) :
    (engine.step setup world direction).engine = engine := by
  cases direction with
  | forward => simp [step, next, hloaded, hexhausted]
  | back => simp [step, previous, hloaded, hexhausted]

theorem step_fails (hrun : engine.runMode = false)
    (hready : engine.loaded.isSome ∨ engine.isExhausted)
    (h : (engine.step setup world direction).result = .error e) :
    FailsTo setup direction engine world (engine.firstCrossed direction)
      (engine.step setup world direction).engine := by
  cases direction with
  | forward =>
      rcases hready with hloaded | hexhausted
      · exact next_fails hrun hloaded h
      · rw [step, next, if_pos hexhausted] at h
        cases h
  | back => exact previous_fails hrun hready h

/-- A step from node to node that fails leaves the engine exactly as it was if and only if it
had loaded no case file by then: nothing was loaded to step from, or the first file that it
crosses into does not load. Otherwise the engine stands at the last file that it loaded, which
is another one, or an exhausted engine is so no more; that file has no nodes, and nothing but
the stage, its files and the display is left of the state before. -/
theorem failed_step_keeps_iff (hreach : engine.Reachable setup) (direction : Direction)
    (herror : (engine.step setup world direction).result = .error e) :
    let last := (engine.step setup world direction).engine
    (last = engine ↔ (engine.loaded = none ∧ engine.isExhausted = false) ∨
      ∃ e', (setup.loadIndex engine (engine.firstCrossed direction) world).1 = .error e') ∧
    (last ≠ engine → ∃ index file later, (setup.loadIndex engine index later).1 = .ok file ∧
      file.nodes = [] ∧ last = engine.place index file ∧
      (engine.isExhausted ∨ direction.Beyond engine.fileIndex index)) := by
  intro last
  by_cases hunloaded : engine.loaded = none ∧ engine.isExhausted = false
  · have hsame : last = engine := step_of_unloaded setup world direction hunloaded.1 hunloaded.2
    exact ⟨iff_of_true hsame (.inl hunloaded), fun hne => absurd hsame hne⟩
  · have hready : engine.loaded.isSome ∨ engine.isExhausted := by
      rw [Option.isSome_iff_ne_none]
      by_contra hneither
      rw [not_or, not_not, Bool.not_eq_true] at hneither
      exact hunloaded hneither
    rcases step_fails hreach.coherent.runMode_off hready herror with ⟨hload, hsame⟩ | hcrosses
    · exact ⟨iff_of_true hsame (.inr hload), fun hne => absurd hsame hne⟩
    · refine ⟨iff_of_false hcrosses.ne ?_, fun _ => hcrosses.stands⟩
      obtain ⟨file, hopened⟩ := hcrosses.opened
      rintro (hnone | ⟨e', hclosed⟩)
      · exact hunloaded hnone
      · rw [hopened] at hclosed
        contradiction

/-- Of three case files the second has no nodes and the third has no text. -/
def emptyThenMissing : Setup Unit where
  source := .ofEntries
    [⟨"a.pug", some "p", .array [.object [("type", .string "text")]], .null, none⟩,
      ⟨"b.pug", some "", .array [], .null, none⟩, ⟨"c.pug", none, .null, .null, none⟩] []
  store := ⟨"save"⟩
  repository := ⟨"https://github.com/pugjs/pug.git", "master"⟩
  caseExtension := "pug"

def emptyCase : LoadedFile :=
  ⟨⟨emptyThenMissing.repository, .lexer, "b.pug"⟩, LineTable.ofText "", [], none⟩

theorem enterNextFile_missing (hstage : engine.stage = some .lexer)
    (hfiles : engine.files = ["a.pug", "b.pug", "c.pug"]) (hindex : engine.fileIndex = 1)
    (world : World Unit) :
    engine.enterNextFile emptyThenMissing world =
      ⟨.error (.source (.missingCase "c.pug")), engine, world⟩ := by
  have hload : emptyThenMissing.loadIndex engine 2 world =
      (.error (.source (.missingCase "c.pug")), world) := by
    rw [Setup.loadIndex_of_name hstage (by rw [hfiles]; rfl)]
    rfl
  rw [enterNextFile, if_pos (by rw [hfiles, hindex]; decide), hindex, hload]

theorem missing_case_next_to_empty_file :
    let world : World Unit := ⟨.empty, ()⟩
    let engine := (start .off).after emptyThenMissing
      [⟨.selectStage "lexer", world⟩, ⟨.selectFile "b", world⟩]
    let outcome := engine.step emptyThenMissing world .forward
    engine.currentFile? = some "b.pug" ∧
      outcome.result = .error (.source (.missingCase "c.pug")) ∧ outcome.engine = engine := by
  intro world engine
  let listed : Engine :=
    { start .off with stage := some .lexer, files := ["a.pug", "b.pug", "c.pug"] }
  let shown : Engine := (listed.place 1 emptyCase).rest
  have hload : emptyThenMissing.loadIndex listed 1 world = (.ok emptyCase, world) := rfl
  have hname : listed.fileNamed? emptyThenMissing (Text.trim "b") = some 1 := by decide
  have hengine : engine = shown :=
    congrArg Outcome.engine (selectFile_of_off rfl rfl hname hload)
  have hclosed : (emptyThenMissing.loadIndex shown 2 world).1 =
      .error (.source (.missingCase "c.pug")) := rfl
  have herror : (shown.step emptyThenMissing world .forward).result =
      .error (.source (.missingCase "c.pug")) := by
    have hmissing : shown.enterNextFile emptyThenMissing world = _ :=
      enterNextFile_missing rfl rfl rfl world
    have hlast : ¬ shown.position + 1 < shown.nodeCount := Nat.not_lt_zero 1
    rw [step, next_of_loaded rfl rfl, advance, if_neg hlast, hmissing]
    rfl
  rw [hengine]
  obtain ⟨hkeeps, _⟩ := failed_step_keeps_iff ⟨.off, _, hengine⟩ .forward herror
  exact ⟨rfl, herror, hkeeps.mpr (.inr ⟨_, hclosed⟩)⟩

/-- The first file was shown and could have been stepped in, but after the failure the second
is loaded, which has no nodes. -/
theorem missing_case_behind_empty_file :
    let world : World Unit := ⟨.empty, ()⟩
    let engine := (start .off).after emptyThenMissing
      [⟨.selectStage "lexer", world⟩, ⟨.selectFile "a", world⟩]
    let outcome := engine.next emptyThenMissing world
    outcome.result = .error (.source (.missingCase "c.pug")) ∧
      engine.currentFile? = some "a.pug" ∧ engine.fileIndex = 0 ∧ engine.current.isSome ∧
      outcome.engine.currentFile? = some "b.pug" ∧ outcome.engine.fileIndex = 1 ∧
      outcome.engine.current = none := by
  intro world engine
  let listed : Engine :=
    { start .off with stage := some .lexer, files := ["a.pug", "b.pug", "c.pug"] }
  let first : LoadedFile :=
    ⟨⟨emptyThenMissing.repository, .lexer, "a.pug"⟩, LineTable.ofText "p",
      [⟨some "text", ⟨"a.pug", ⟨1, 1⟩, ⟨1, 1⟩⟩, .object [("type", .string "text")]⟩], none⟩
  let shown : Engine := (listed.place 0 first).rest
  have hload : emptyThenMissing.loadIndex listed 0 world = (.ok first, world) := rfl
  have hname : listed.fileNamed? emptyThenMissing (Text.trim "a") = some 0 := by decide
  have hengine : engine = shown :=
    congrArg Outcome.engine (selectFile_of_off rfl rfl hname hload)
  have hcross : emptyThenMissing.loadIndex shown 1 world = (.ok emptyCase, world) := rfl
  have hnext : shown.next emptyThenMissing world =
      ⟨.error (.source (.missingCase "c.pug")), shown.place 1 emptyCase, world⟩ := by
    have hmissing : (shown.place 1 emptyCase).enterNextFile emptyThenMissing world = _ :=
      enterNextFile_missing rfl rfl rfl world
    have hlast : ¬ shown.position + 1 < shown.nodeCount := Nat.lt_irrefl 1
    have hlisted : shown.fileIndex + 1 < shown.files.length := by decide
    have hindex : shown.fileIndex + 1 = 1 := rfl
    rw [next_of_loaded rfl rfl, advance, if_neg hlast, enterNextFile, if_pos hlisted, hindex,
      hcross]
    dsimp only [emptyCase, List.isEmpty_nil]
    rw [if_pos rfl]
    exact congrArg (Outcome.andThen · _) hmissing
  rw [hengine]
  simp only [hnext]
  exact ⟨trivial, rfl, rfl, rfl, rfl, rfl, rfl⟩

end Engine

end SpanReview
