import Mathlib.Logic.Relation
import SpanReview.Proofs.Engine.Operation

namespace SpanReview

/-! Every operation is a sequence of a few changes between engines at rest. An invariant
is proved once for each change, not for each operation and each of its exits. -/

theorem Outcome.andThen_cases {outcome : Outcome σ α}
    {next : α → Engine → World σ → Outcome σ β} {holds : Engine → Prop}
    (herror : ∀ e, outcome.result = .error e → holds outcome.engine)
    (hok : ∀ value, outcome.result = .ok value →
      holds (next value outcome.engine outcome.world).engine) :
    holds (outcome.andThen next).engine := by
  unfold Outcome.andThen
  cases hresult : outcome.result with
  | error e => exact herror e hresult
  | ok value => exact hok value hresult

theorem Outcome.andThen_of_ok {outcome : Outcome σ α}
    {next : α → Engine → World σ → Outcome σ β} {value : β}
    (h : (outcome.andThen next).result = .ok value) :
    ∃ a, outcome.result = .ok a ∧
      outcome.andThen next = next a outcome.engine outcome.world := by
  unfold Outcome.andThen at h ⊢
  cases hresult : outcome.result with
  | error e =>
      rw [hresult] at h
      cases h
  | ok a => exact ⟨a, rfl, rfl⟩

theorem Outcome.andThen_engine {outcome : Outcome σ α}
    {next : α → Engine → World σ → Outcome σ β}
    (hnext : ∀ value, (next value outcome.engine outcome.world).engine = outcome.engine) :
    (outcome.andThen next).engine = outcome.engine := by
  unfold Outcome.andThen
  cases hresult : outcome.result with
  | error e => rfl
  | ok value => exact hnext value

namespace Engine

/-- The engine out of run mode, compared where it stands. Loops leave the comparison
stale while they go on; this is what they would leave if they ended now. -/
def rest (engine : Engine) : Engine :=
  { engine with current := engine.comparison?, runMode := false }

def AtRest (engine : Engine) : Prop :=
  engine.rest = engine

inductive Change (setup : Setup σ) : Engine → Engine → Prop
  | stage (stage : Stage) (files : List String) : Change setup engine
      { Engine.start engine.display with stage := some stage, files := files }
  | compare : Change setup engine engine.rest
  | land (index : Nat) {file : LoadedFile} {world : World σ}
      (hload : (setup.loadIndex engine index world).1 = .ok file) :
      Change setup engine (engine.place index file).rest
  | move (position : Nat) (hlt : position < engine.nodeCount) :
      Change setup engine { engine with position := position }.rest
  | back : Change setup engine { engine with position := engine.position - 1 }.rest
  | exhaust (hlast : engine.files.length ≤ engine.fileIndex + 1) :
      Change setup engine engine.exhaust
  | resume : Change setup engine { engine with runPause := none }
  | pause (hlt : engine.position < engine.nodeCount) :
      Change setup engine { engine with runPause := some engine.position }
  | propose (endpoint : Endpoint) (amount : Int) {file : LoadedFile} {current : Comparison}
      (hloaded : engine.loaded = some file) (hcurrent : engine.current = some current) :
      Change setup engine { engine with current := some { current with
        proposed := file.lines.moveEndpoint current.proposed endpoint amount } }
  | display (display : DisplayOptions) : Change setup engine { engine with display := display }
  | record {file : LoadedFile} {current : Comparison}
      (hloaded : engine.loaded = some file) (hcurrent : engine.current = some current) :
      Change setup engine { engine with loaded := some { file with
        fixture := some ⟨file.key, recordsWith file engine.position current.proposed⟩ } }.rest

variable {setup : Setup σ} {engine : Engine} {world : World σ}

abbrev Changes (setup : Setup σ) : Engine → Engine → Prop :=
  Relation.ReflTransGen (Change setup)

theorem Change.changes {first last : Engine} (h : Change setup first last) :
    Changes setup first last :=
  Relation.ReflTransGen.single h

/-- What every change keeps, every operation made of changes keeps. -/
theorem Changes.keeps {holds : Engine → Prop} {first last : Engine}
    (h : Changes setup first last)
    (hchange : ∀ {first last}, Change setup first last → holds first → holds last)
    (hfirst : holds first) : holds last := by
  induction h with
  | refl => exact hfirst
  | tail _ hstep ih => exact hchange hstep ih

theorem AtRest.of_rest (engine : Engine) : engine.rest.AtRest := rfl

theorem AtRest.runMode_off (h : engine.AtRest) : engine.runMode = false := by
  rw [← h]
  rfl

theorem rest_of_none (h : engine.comparison? = none) :
    engine.rest = { engine with current := none, runMode := false } := by
  rw [rest, h]

theorem rest_of_some {comparison : Comparison} (h : engine.comparison? = some comparison) :
    engine.rest = { engine with current := some comparison, runMode := false } := by
  rw [rest, h]

theorem rest_of_exhaust (h : engine.exhaust = engine) :
    engine.rest = { engine with runMode := false } := by
  rw [← h]
  rfl

theorem lt_of_comparison {comparison : Comparison}
    (h : engine.comparison? = some comparison) : engine.position < engine.nodeCount := by
  unfold comparison? at h
  split at h
  · contradiction
  · obtain ⟨file, hloaded, hcompare⟩ := Option.bind_eq_some_iff.mp h
    obtain ⟨node, hnode, _⟩ := Option.map_eq_some_iff.mp hcompare
    obtain ⟨hlt, _⟩ := List.getElem?_eq_some_iff.mp hnode
    simpa [nodeCount, hloaded] using hlt

theorem place_empty_atRest {file : LoadedFile} (hrun : engine.runMode = false)
    (hempty : file.nodes.isEmpty) (index : Nat) : (engine.place index file).AtRest := by
  have hnodes : file.nodes = [] := List.isEmpty_iff.mp hempty
  simp [AtRest, rest, place, comparison?, LoadedFile.compareAt, hnodes, hrun]

/-! The changes of a loop, between the engines that it would leave. -/

theorem land_changes {index : Nat} {file : LoadedFile}
    (hload : (setup.loadIndex engine index world).1 = .ok file) :
    Changes setup engine.rest (engine.place index file).rest :=
  have hland : Change setup engine.rest (engine.rest.place index file).rest := .land index hload
  hland.changes

theorem move_changes {position : Nat} (hlt : position < engine.nodeCount) :
    Changes setup engine.rest { engine with position := position }.rest :=
  have hmove : Change setup engine.rest { engine.rest with position := position }.rest :=
    .move position hlt
  hmove.changes

theorem back_changes :
    Changes setup engine.rest { engine with position := engine.position - 1 }.rest :=
  have hback : Change setup engine.rest
      { engine.rest with position := engine.rest.position - 1 }.rest := .back
  hback.changes

theorem exhaust_changes (hlast : engine.files.length ≤ engine.fileIndex + 1) :
    Changes setup engine.rest engine.exhaust :=
  have hexhaust : Change setup engine.rest engine.rest.exhaust := .exhaust hlast
  hexhaust.changes

theorem pause_changes (hlt : engine.position < engine.nodeCount) :
    Changes setup engine.rest { engine.rest with runPause := some engine.position } :=
  have hpause : Change setup engine.rest
      { engine.rest with runPause := some engine.rest.position } := .pause hlt
  hpause.changes

/-! Going forward, which is also what a run does. -/

theorem enterNextFile_changes (setup : Setup σ) (engine : Engine) (world : World σ) :
    Changes setup engine.rest (engine.enterNextFile setup world).engine.rest := by
  fun_induction enterNextFile setup engine world with
  | case1 engine world hlt error world' hload => exact .refl
  | case2 engine world hlt file world' hload hempty ih =>
      exact (land_changes (congrArg Prod.fst hload)).trans ih
  | case3 engine world hlt file world' hload hfull =>
      exact land_changes (congrArg Prod.fst hload)
  | case4 engine world hlast =>
      exact exhaust_changes (Nat.le_of_not_lt hlast)

/-- A loop over files without nodes that fails, or finds no file, has left no comparison stale. -/
theorem enterNextFile_settled (setup : Setup σ) (engine : Engine) (world : World σ)
    (hrun : engine.runMode = false)
    (hstay : (engine.enterNextFile setup world).result ≠ .ok true) :
    (engine.enterNextFile setup world).engine = engine ∨
      (engine.enterNextFile setup world).engine.AtRest := by
  fun_induction enterNextFile setup engine world with
  | case1 engine world hlt error world' hload => exact .inl rfl
  | case2 engine world hlt file world' hload hempty ih =>
      right
      rcases ih hrun hstay with hsame | hrest
      · rw [hsame]
        exact place_empty_atRest hrun hempty _
      · exact hrest
  | case3 engine world hlt file world' hload hfull => exact absurd rfl hstay
  | case4 engine world hlast => exact .inr rfl

theorem enterNextFile_false (setup : Setup σ) (engine : Engine) (world : World σ)
    (hnone : (engine.enterNextFile setup world).result = .ok false) :
    (engine.enterNextFile setup world).engine.exhaust =
      (engine.enterNextFile setup world).engine := by
  fun_induction enterNextFile setup engine world with
  | case1 engine world hlt error world' hload => simp at hnone
  | case2 engine world hlt file world' hload hempty ih => exact ih hnone
  | case3 engine world hlt file world' hload hfull => simp at hnone
  | case4 engine world hlast => rfl

theorem advance_changes (setup : Setup σ) (engine : Engine) (world : World σ) :
    Changes setup engine.rest (engine.advance setup world).engine.rest := by
  unfold advance
  split
  · rename_i hlt
    exact move_changes hlt
  · exact enterNextFile_changes setup engine world

theorem advance_settled (setup : Setup σ) (engine : Engine) (world : World σ)
    (hrun : engine.runMode = false)
    (hstay : (engine.advance setup world).result ≠ .ok true) :
    (engine.advance setup world).engine = engine ∨
      (engine.advance setup world).engine.AtRest := by
  unfold advance at hstay ⊢
  split
  · rename_i hlt
    rw [if_pos hlt] at hstay
    exact absurd rfl hstay
  · rename_i hge
    rw [if_neg hge] at hstay
    exact enterNextFile_settled setup engine world hrun hstay

theorem advance_false (setup : Setup σ) (engine : Engine) (world : World σ)
    (hnone : (engine.advance setup world).result = .ok false) :
    (engine.advance setup world).engine.exhaust = (engine.advance setup world).engine := by
  unfold advance at hnone ⊢
  split
  · rename_i hlt
    simp [hlt] at hnone
  · rename_i hge
    rw [if_neg hge] at hnone
    exact enterNextFile_false setup engine world hnone

theorem runAdvance_of_ok {moved : Bool} (h : (engine.advance setup world).result = .ok moved) :
    engine.runAdvance setup world = engine.advance setup world := by
  simp only [runAdvance, h]

theorem runAdvance_of_error {e : EngineError}
    (h : (engine.advance setup world).result = .error e) :
    engine.runAdvance setup world =
      ⟨.error e, (engine.advance setup world).engine.rest, (engine.advance setup world).world⟩ := by
  simp only [runAdvance, h, rest]

theorem runAdvance_changes (setup : Setup σ) (engine : Engine) (world : World σ) :
    Changes setup engine.rest (engine.runAdvance setup world).engine.rest := by
  cases hresult : (engine.advance setup world).result with
  | ok moved =>
      rw [runAdvance_of_ok hresult]
      exact advance_changes setup engine world
  | error e =>
      rw [runAdvance_of_error hresult]
      exact advance_changes setup engine world

theorem runAdvance_error {e : EngineError}
    (herror : (engine.runAdvance setup world).result = .error e) :
    (engine.runAdvance setup world).engine.AtRest := by
  cases hresult : (engine.advance setup world).result with
  | ok moved =>
      rw [runAdvance_of_ok hresult, hresult] at herror
      contradiction
  | error e =>
      rw [runAdvance_of_error hresult]
      exact .of_rest _

theorem runAdvance_false (hnone : (engine.runAdvance setup world).result = .ok false) :
    (engine.runAdvance setup world).engine.exhaust =
      (engine.runAdvance setup world).engine := by
  cases hresult : (engine.advance setup world).result with
  | ok moved =>
      rw [runAdvance_of_ok hresult] at hnone ⊢
      exact advance_false setup engine world hnone
  | error e =>
      rw [runAdvance_of_error hresult] at hnone
      contradiction

theorem recompute_changes (setup : Setup σ) (engine : Engine) (world : World σ) :
    Changes setup engine.rest (engine.recompute setup world).engine := by
  -- Inside the loop the comparison is stale, so what is followed is the engine that each
  -- round would leave if the run ended there.
  fun_induction recompute setup engine world with
  | case1 engine world hnone =>
      rw [← rest_of_none hnone]
  | case2 engine world comparison hsome hskip outcome e herror =>
      have hadvance := runAdvance_changes setup { engine with runPause := none } world
      rw [runAdvance_error herror] at hadvance
      exact .head .resume hadvance
  | case3 engine world comparison hsome hskip outcome hmoved _ ih =>
      have hadvance := runAdvance_changes setup { engine with runPause := none } world
      exact .head .resume (hadvance.trans ih)
  | case4 engine world comparison hsome hskip outcome hnone =>
      have hadvance := runAdvance_changes setup { engine with runPause := none } world
      rw [rest_of_exhaust (runAdvance_false hnone)] at hadvance
      exact .head .resume hadvance
  | case5 engine world comparison hsome hskip hrun =>
      have hlt : engine.position < engine.nodeCount := lt_of_comparison hsome
      -- The stop: the run ends here, and its pause is the only change.
      have hpause : Changes setup engine.rest _ := pause_changes hlt
      rw [rest_of_some hsome] at hpause ⊢
      exact hpause
  | case6 engine world comparison hsome hskip hrun =>
      have hoff : engine.runMode = false := Bool.eq_false_iff.mpr hrun
      rw [rest_of_some hsome, ← hoff]

theorem recompute_of_off (hrun : engine.runMode = false) :
    engine.recompute setup world = ⟨.ok (), engine.rest, world⟩ := by
  unfold recompute
  split
  · rename_i hnone
    rw [rest_of_none hnone]
  · rename_i comparison hsome
    rw [rest_of_some hsome]
    simp [hrun]

theorem loadCurrent_of_off {file : LoadedFile} {next : World σ}
    (hrun : engine.runMode = false)
    (hload : setup.loadIndex engine engine.fileIndex world = (.ok file, next)) :
    engine.loadCurrent setup world =
      ⟨.ok (), (engine.place engine.fileIndex file).rest, next⟩ := by
  have hoff : (engine.place engine.fileIndex file).runMode = false := hrun
  simp only [loadCurrent, enterFile, hload, Outcome.andThen, recompute_of_off hoff]

theorem selectStage_of_listed {name : String} {stage : Stage} {files : List String}
    {next : World σ} (hname : Stage.ofName? name = some stage)
    (hlisted : setup.source.caseFiles stage world = (.ok files, next)) :
    engine.selectStage setup name world =
      ⟨.ok files.length, { start engine.display with stage := some stage, files := files },
        next⟩ := by
  simp only [selectStage, hname, enterStage, hlisted]

theorem selectFile_of_off {name : String} {index : Nat} {file : LoadedFile} {next : World σ}
    (hrun : engine.runMode = false) (hstage : engine.stage.isNone = false)
    (hname : engine.fileNamed? setup (Text.trim name) = some index)
    (hload : setup.loadIndex engine index world = (.ok file, next)) :
    engine.selectFile setup name world =
      ⟨.ok (.selected index (engine.files.getD index "")), (engine.place index file).rest,
        next⟩ := by
  have hcurrent : { engine with fileIndex := index }.loadCurrent setup world =
      ⟨.ok (), (engine.place index file).rest, next⟩ := loadCurrent_of_off hrun hload
  rw [selectFile, if_neg (by simp [hstage])]
  simp only [hname, hcurrent]
  rfl

theorem loadCurrent_of_unloaded {e : EngineError} {next : World σ}
    (hload : setup.loadIndex engine engine.fileIndex world = (.error e, next)) :
    engine.loadCurrent setup world = ⟨.error e, engine, next⟩ := by
  simp only [loadCurrent, enterFile, hload, Outcome.andThen]

theorem selectFile_of_unnamed {name : String} (hstage : engine.stage.isNone = false)
    (hname : engine.fileNamed? setup (Text.trim name) = none) :
    engine.selectFile setup name world =
      ⟨.ok (.notFound (Text.trim name) (setup.ranking.suggest (Text.trim name) engine.files 5)),
        engine, world⟩ := by
  rw [selectFile, if_neg (by simp [hstage])]
  simp only [hname]

theorem selectFile_of_unloaded {name : String} {index : Nat} {e : EngineError} {next : World σ}
    (hstage : engine.stage.isNone = false)
    (hname : engine.fileNamed? setup (Text.trim name) = some index)
    (hload : setup.loadIndex engine index world = (.error e, next)) :
    engine.selectFile setup name world =
      ⟨.error e, { engine with fileIndex := index }, next⟩ := by
  have hcurrent : { engine with fileIndex := index }.loadCurrent setup world =
      ⟨.error e, { engine with fileIndex := index }, next⟩ := loadCurrent_of_unloaded hload
  rw [selectFile, if_neg (by simp [hstage])]
  simp only [hname, hcurrent]
  rfl

theorem settle_engine (setup : Setup σ) (engine : Engine) (world : World σ) :
    (engine.settle setup world).engine = (engine.recompute setup world).engine :=
  Outcome.andThen_engine fun _ => rfl

theorem settle_changes (setup : Setup σ) (engine : Engine) (world : World σ) :
    Changes setup engine.rest (engine.settle setup world).engine := by
  rw [settle_engine]
  exact recompute_changes setup engine world

/-- What is left without a stale comparison, or unchanged, comes of changes as it is. -/
theorem Changes.of_settled {last : Engine} (h : Changes setup engine.rest last.rest)
    (hsettled : last = engine ∨ last.AtRest) : Changes setup engine last := by
  rcases hsettled with rfl | hrest
  · exact .refl
  · rw [hrest] at h
    exact .head .compare h

/-! Going back. -/

theorem enterFile_changes {index : Nat} {next : Unit → Engine → World σ → Outcome σ α}
    (hnext : ∀ file world, Changes setup (engine.place index file).rest
      (next () (engine.place index file) world).engine) :
    Changes setup engine ((engine.enterFile setup index world).andThen next).engine := by
  unfold enterFile
  split
  · exact .refl
  · rename_i file world' hload
    exact .head (.land index (congrArg Prod.fst hload)) (hnext file world')

theorem toLastNode_changes (hpos : 0 < engine.nodeCount) :
    Changes setup engine.rest engine.toLastNode.rest :=
  move_changes (Nat.sub_lt hpos Nat.one_pos)

theorem enterPreviousFile_changes (setup : Setup σ) (engine : Engine) (world : World σ) :
    Changes setup engine.rest (engine.enterPreviousFile setup world).engine.rest := by
  fun_induction enterPreviousFile setup engine world with
  | case1 engine world hfirst => exact .refl
  | case2 engine world hfirst error world' hload => exact .refl
  | case3 engine world hfirst file world' hload hempty ih =>
      exact (land_changes (congrArg Prod.fst hload)).trans ih
  | case4 engine world hfirst file world' hload hfull =>
      have hpos : 0 < (engine.place (engine.fileIndex - 1) file).nodeCount :=
        List.length_pos_iff.mpr (by simpa using hfull)
      exact (land_changes (congrArg Prod.fst hload)).trans (toLastNode_changes hpos)

theorem enterPreviousFile_settled (setup : Setup σ) (engine : Engine) (world : World σ)
    (hrun : engine.runMode = false)
    (hstay : (engine.enterPreviousFile setup world).result ≠ .ok true) :
    (engine.enterPreviousFile setup world).engine = engine ∨
      (engine.enterPreviousFile setup world).engine.AtRest := by
  fun_induction enterPreviousFile setup engine world with
  | case1 engine world hfirst => exact .inl rfl
  | case2 engine world hfirst error world' hload => exact .inl rfl
  | case3 engine world hfirst file world' hload hempty ih =>
      right
      rcases ih hrun hstay with hsame | hrest
      · rw [hsame]
        exact place_empty_atRest hrun hempty _
      · exact hrest
  | case4 engine world hfirst file world' hload hfull => exact absurd rfl hstay

/-- Where a step that does not report a landing leaves the engine: as it was, or compared. -/
structure Settles (setup : Setup σ) (engine : Engine) (outcome : Outcome σ Bool) : Prop where
  changes : Changes setup engine.rest outcome.engine.rest
  settled : outcome.result ≠ .ok true → outcome.engine = engine ∨ outcome.engine.AtRest

theorem Settles.of_atRest {first : Engine} {outcome : Outcome σ Bool}
    (hfirst : Settles setup first outcome) (hchanges : Changes setup engine.rest first.rest)
    (hrest : first = engine ∨ first.AtRest) : Settles setup engine outcome where
  changes := hchanges.trans hfirst.changes
  settled := by
    intro hstay
    rcases hfirst.settled hstay with hsame | hlast
    · rw [hsame]
      exact hrest
    · exact .inr hlast

theorem retreatFile_settles (world : World σ) (hrun : engine.runMode = false) :
    Settles setup engine (engine.retreatFile setup world) := by
  have hchanges := enterPreviousFile_changes setup engine world
  have hsettled := enterPreviousFile_settled setup engine world hrun
  unfold retreatFile Outcome.andThen
  generalize engine.enterPreviousFile setup world = before at hchanges hsettled ⊢
  obtain ⟨result, last, world⟩ := before
  cases result with
  | error e => exact ⟨hchanges, fun _ => hsettled (by simp)⟩
  | ok found =>
      cases found with
      | true => exact ⟨hchanges, fun hstay => absurd rfl hstay⟩
      | false =>
          have hlast : last = engine ∨ last.AtRest := hsettled (by simp)
          have hoff : last.runMode = false := by
            rcases hlast with rfl | hrest
            · exact hrun
            · exact hrest.runMode_off
          simp only [Bool.false_eq_true, if_false]
          split
          · exact ⟨hchanges, fun _ => hlast⟩
          · -- No file before has nodes: the file of the start is loaded again.
            unfold enterFile
            cases hload : setup.loadIndex last engine.fileIndex world with
            | mk loaded world =>
                cases loaded with
                | error e => exact ⟨hchanges, fun _ => hlast⟩
                | ok file =>
                    have hoff' : (last.place engine.fileIndex file).runMode = false := hoff
                    simp only [recompute_of_off hoff']
                    exact ⟨hchanges.trans (land_changes (congrArg Prod.fst hload)),
                      fun _ => .inr (.of_rest _)⟩

theorem retreat_settles (world : World σ) (hrun : engine.runMode = false) :
    Settles setup engine (engine.retreat setup world) := by
  unfold retreat
  split
  · unfold enterFile Outcome.andThen
    cases hload : setup.loadIndex engine engine.fileIndex world with
    | mk loaded world =>
        cases loaded with
        | error e => exact ⟨.refl, fun _ => .inl rfl⟩
        | ok file =>
            have hland : Changes setup engine.rest (engine.place engine.fileIndex file).rest :=
              land_changes (congrArg Prod.fst hload)
            simp only
            split
            · rename_i hpos
              exact ⟨hland.trans (toLastNode_changes hpos), fun hstay => absurd rfl hstay⟩
            · rename_i hempty
              have hnodes : file.nodes.isEmpty := by
                simpa [nodeCount, place] using hempty
              have hretreat : Settles setup (engine.place engine.fileIndex file)
                  ((engine.place engine.fileIndex file).retreatFile setup world) :=
                retreatFile_settles world hrun
              exact hretreat.of_atRest hland (.inr (place_empty_atRest hrun hnodes _))
  · split
    · exact ⟨back_changes, fun hstay => absurd rfl hstay⟩
    · exact retreatFile_settles world hrun

/-! One lemma for each operation. -/

theorem enterStage_changes (setup : Setup σ) (stage : Stage) (engine : Engine) (world : World σ) :
    Changes setup engine (engine.enterStage setup stage world).engine := by
  unfold enterStage
  split
  · exact .refl
  · exact (Change.stage _ _).changes

theorem selectStage_changes (setup : Setup σ) (name : String) (engine : Engine) (world : World σ) :
    Changes setup engine (engine.selectStage setup name world).engine := by
  unfold selectStage
  split
  · exact enterStage_changes setup _ engine world
  · exact .refl

theorem loadCurrent_changes (setup : Setup σ) (engine : Engine) (world : World σ) :
    Changes setup engine (engine.loadCurrent setup world).engine :=
  enterFile_changes fun _ _ => recompute_changes setup _ _

theorem nextFile_changes (setup : Setup σ) (engine : Engine) (world : World σ) :
    Changes setup engine (engine.nextFile setup world).engine := by
  unfold nextFile
  split
  · exact .refl
  · split
    · exact .refl
    · split
      · exact enterFile_changes fun _ _ => settle_changes setup _ _
      · rename_i hlast
        exact (Change.exhaust (Nat.le_of_not_lt hlast)).changes

theorem previousFile_changes (setup : Setup σ) (engine : Engine) (world : World σ) :
    Changes setup engine (engine.previousFile setup world).engine := by
  unfold previousFile
  split
  · exact .refl
  · split
    · exact enterFile_changes fun _ _ => settle_changes setup _ _
    · split
      · exact .refl
      · exact enterFile_changes fun _ _ => settle_changes setup _ _

theorem next_changes (world : World σ) (hrun : engine.runMode = false) :
    Changes setup engine (engine.next setup world).engine := by
  have hchanges := advance_changes setup engine world
  have hsettled := advance_settled setup engine world hrun
  unfold next
  split
  · exact .refl
  · split
    · exact .refl
    · refine Outcome.andThen_cases (fun e herror => ?_) (fun moved hok => ?_)
      · exact hchanges.of_settled (hsettled (by simp [herror]))
      · cases moved with
        | true => exact .head .compare (hchanges.trans (settle_changes setup _ _))
        | false => exact hchanges.of_settled (hsettled (by simp [hok]))

theorem previous_changes (world : World σ) (hrun : engine.runMode = false) :
    Changes setup engine (engine.previous setup world).engine := by
  have hretreat : Settles setup engine (engine.retreat setup world) :=
    retreat_settles world hrun
  unfold previous
  split
  · exact .refl
  · refine Outcome.andThen_cases (fun e herror => ?_) (fun moved hok => ?_)
    · exact hretreat.changes.of_settled (hretreat.settled (by simp [herror]))
    · cases moved with
      | true => exact .head .compare (hretreat.changes.trans (settle_changes setup _ _))
      | false => exact hretreat.changes.of_settled (hretreat.settled (by simp [hok]))

/-- What a run reports, read off the engine that it ends with. -/
def reportRun (before : Nat × Nat) (outcome : Outcome σ Unit) : Outcome σ Step :=
  outcome.andThen fun _ engine world =>
    if engine.isExhausted then ⟨.ok .exhausted, engine, world⟩
    else if (engine.fileIndex, engine.position) = before then ⟨.ok .stayed, engine, world⟩
    else ⟨.ok .moved, engine, world⟩

theorem reportRun_engine (before : Nat × Nat) (outcome : Outcome σ Unit) :
    (reportRun before outcome).engine = outcome.engine := by
  refine Outcome.andThen_engine fun _ => ?_
  split
  · rfl
  · split <;> rfl

/-- The engine is parked: a run starts from the node after this one. -/
def isParked (engine : Engine) : Bool :=
  engine.current.isNone || engine.runPause == some engine.position

theorem run_parked {file : LoadedFile} (hexhausted : engine.isExhausted = false)
    (hloaded : engine.loaded = some file) (hparked : engine.isParked) :
    engine.run setup world =
      ({ engine with runMode := true }.runAdvance setup world).andThen fun moved last world =>
        if moved then reportRun (engine.fileIndex, engine.position) (last.recompute setup world)
        else ⟨.ok .exhausted, { last with runMode := false }, world⟩ := by
  rw [run, if_neg (by simp [hexhausted]), if_neg (by simp [hloaded])]
  exact if_pos hparked

theorem run_unparked {file : LoadedFile} (hexhausted : engine.isExhausted = false)
    (hloaded : engine.loaded = some file) (hunparked : engine.isParked = false) :
    engine.run setup world = reportRun (engine.fileIndex, engine.position)
      ({ engine with runMode := true }.recompute setup world) := by
  rw [run, if_neg (by simp [hexhausted]), if_neg (by simp [hloaded])]
  exact if_neg (Bool.eq_false_iff.mp hunparked)

theorem run_changes (setup : Setup σ) (engine : Engine) (world : World σ) :
    Changes setup engine (engine.run setup world).engine := by
  have hcompare : Change setup engine { engine with runMode := true }.rest := .compare
  have hadvance := runAdvance_changes setup { engine with runMode := true } world
  cases hexhausted : engine.isExhausted with
  | true => rw [run, if_pos hexhausted]
  | false =>
      cases hloaded : engine.loaded with
      | none => rw [run, if_neg (by simp [hexhausted]), if_pos (by simp [hloaded])]
      | some file =>
          cases hparked : engine.isParked with
          | true =>
              rw [run_parked hexhausted hloaded hparked]
              refine Outcome.andThen_cases (fun e herror => ?_) (fun moved hok => ?_)
              · rw [runAdvance_error herror] at hadvance
                exact .head hcompare hadvance
              · cases moved with
                | true =>
                    rw [if_pos rfl, reportRun_engine]
                    exact .head hcompare (hadvance.trans (recompute_changes setup _ _))
                | false =>
                    rw [rest_of_exhaust (runAdvance_false hok)] at hadvance
                    exact .head hcompare hadvance
          | false =>
              rw [run_unparked hexhausted hloaded hparked, reportRun_engine]
              exact .head hcompare (recompute_changes setup _ _)

theorem moveEndpoint_changes (endpoint : Endpoint) (amount : Int) (engine : Engine)
    (world : World σ) :
    Changes setup engine (engine.moveEndpoint endpoint amount world).engine := by
  unfold moveEndpoint
  split
  · exact .refl
  · exact .refl
  · rename_i file current hloaded hcurrent
    exact (Change.propose endpoint amount hloaded hcurrent).changes

theorem toggle_changes (name : String) (engine : Engine) (world : World σ) :
    Changes setup engine (engine.toggle name world).engine := by
  unfold toggle
  split
  · exact (Change.display _).changes
  · exact .refl

theorem save_changes (setup : Setup σ) (engine : Engine) (world : World σ) :
    Changes setup engine (engine.save setup world).engine := by
  unfold save
  split
  · exact .refl
  · exact .refl
  · rename_i file current hloaded hcurrent
    dsimp only
    split
    · exact .refl
    · exact .head (.record hloaded hcurrent) (recompute_changes setup _ _)

end Engine

namespace Operation

variable {setup : Setup σ} {engine : Engine} {world : World σ} {operation : Operation}

/-- The operation names the case file at an index, and that file does not load. -/
inductive Misses (setup : Setup σ) (engine : Engine) (world : World σ) :
    Operation → Nat → Prop
  | selectFile {name : String} {index : Nat} {e : EngineError}
      (hstage : engine.stage.isSome)
      (hname : engine.fileNamed? setup (Text.trim name) = some index)
      (hload : (setup.loadIndex engine index world).1 = .error e) :
      Misses setup engine world (.selectFile name) index

theorem perform_of_misses {index : Nat} (h : operation.Misses setup engine world index) :
    operation.perform setup engine world = { engine with fileIndex := index } := by
  obtain @⟨name, index, e, hstage, hname, hload⟩ := h
  have hnone : engine.stage.isNone = false := by
    simpa using hstage
  have hload' : (setup.loadIndex { engine with fileIndex := index } index world).1 = .error e :=
    hload
  simp only [perform, Engine.selectFile, hnone, hname, Engine.loadCurrent, Engine.enterFile]
  generalize setup.loadIndex { engine with fileIndex := index } index world = loaded at hload' ⊢
  obtain ⟨_, world⟩ := loaded
  subst hload'
  rfl

theorem selectFile_changes {name : String}
    (hhit : ∀ index, ¬ Misses setup engine world (.selectFile name) index) :
    Engine.Changes setup engine (engine.selectFile setup name world).engine := by
  unfold Engine.selectFile
  split
  · exact .refl
  · rename_i hstage
    dsimp only
    split
    · exact .refl
    · rename_i index hname
      have hengine : (({ engine with fileIndex := index }.loadCurrent setup world).andThen
          fun _ engine world => (⟨.ok (.selected index (engine.files.getD index "")), engine,
            world⟩ : Outcome σ FileSelection)).engine =
          ({ engine with fileIndex := index }.loadCurrent setup world).engine :=
        Outcome.andThen_engine fun _ => rfl
      rw [hengine]
      unfold Engine.loadCurrent Engine.enterFile
      cases hload : setup.loadIndex { engine with fileIndex := index } index world with
      | mk loaded world' =>
          cases loaded with
          | error e =>
              have hsome : engine.stage.isSome := by
                simpa [Option.isSome_iff_ne_none] using hstage
              exact absurd ⟨hsome, hname, congrArg Prod.fst hload⟩ (hhit index)
          | ok file =>
              have hland : Engine.Change setup engine (engine.place index file).rest :=
                .land index (congrArg Prod.fst hload)
              exact .head hland (Engine.recompute_changes setup _ _)

/-- A selection that misses moves the file index alone; all else comes of changes. -/
theorem perform_changes (hrun : engine.runMode = false)
    (hhit : ∀ index, ¬ operation.Misses setup engine world index) :
    Engine.Changes setup engine (operation.perform setup engine world) := by
  cases operation with
  | selectStage name => exact Engine.selectStage_changes setup name engine world
  | enterStage stage => exact Engine.enterStage_changes setup stage engine world
  | selectFile name => exact selectFile_changes hhit
  | loadCurrent => exact Engine.loadCurrent_changes setup engine world
  | nextFile => exact Engine.nextFile_changes setup engine world
  | previousFile => exact Engine.previousFile_changes setup engine world
  | next => exact Engine.next_changes world hrun
  | previous => exact Engine.previous_changes world hrun
  | recompute =>
      have hcompare : Engine.Change setup engine engine.rest := .compare
      exact .head hcompare (Engine.recompute_changes setup engine world)
  | run => exact Engine.run_changes setup engine world
  | moveEndpoint endpoint amount => exact Engine.moveEndpoint_changes endpoint amount engine world
  | toggle name => exact Engine.toggle_changes name engine world
  | save => exact Engine.save_changes setup engine world

end Operation

end SpanReview
