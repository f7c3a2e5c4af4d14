import SpanReview.Proofs.Engine.Change
import SpanReview.Proofs.Engine.Load

namespace SpanReview

/-! The loops of an engine, turn by turn. Whatever the source and the disk give in each turn, a
loop goes on only to a later node of the file held in memory or to another file of the list,
always in the same direction, so it ends. -/

/-- What a turn of a loop comes to. -/
inductive Turn (σ α : Type) where
  | leave (outcome : Outcome σ α)
  | again (engine : Engine) (world : World σ)

namespace Turn

variable {σ α : Type}

def outcome (turn : Turn σ α) (loop : Engine → World σ → Outcome σ α) : Outcome σ α :=
  match turn with
  | leave outcome => outcome
  | again engine world => loop engine world

/-- A loop with such turns reaches an exit, with an outcome. -/
inductive Reaches (turn : Engine → World σ → Turn σ α) :
    Engine → World σ → Outcome σ α → Prop
  | leave {engine : Engine} {world : World σ} {outcome : Outcome σ α} :
      turn engine world = .leave outcome → Reaches turn engine world outcome
  | again {engine next : Engine} {world changed : World σ} {outcome : Outcome σ α} :
      turn engine world = .again next changed → Reaches turn next changed outcome →
        Reaches turn engine world outcome

/-- Some source, on some disk, leads a turn at `engine` to another turn at `next`. -/
def LeadsOn (turn : Setup σ → Engine → World σ → Turn σ α) (next engine : Engine) : Prop :=
  ∃ setup world changed, turn setup engine world = .again next changed

/-- A loop ends: each turn that goes on makes headway, no sequence of turns goes on for ever, even
if the source and the disk are others in each of them, and left alone the loop reaches an exit. -/
structure Ends (turn : Setup σ → Engine → World σ → Turn σ α) (headway : Engine → Engine → Prop)
    (loop : Setup σ → Engine → World σ → Outcome σ α) : Prop where
  headway : ∀ next engine, LeadsOn turn next engine → headway engine next
  wellFounded : WellFounded (LeadsOn turn)
  reaches : ∀ setup engine world, Reaches (turn setup) engine world (loop setup engine world)

theorem Ends.of_headway {turn : Setup σ → Engine → World σ → Turn σ α}
    {headway : Engine → Engine → Prop} {loop : Setup σ → Engine → World σ → Outcome σ α}
    (hwf : WellFounded fun next engine => headway engine next)
    (hturn : ∀ {setup engine world next changed},
      turn setup engine world = .again next changed → headway engine next)
    (hloop : ∀ setup engine world,
      loop setup engine world = (turn setup engine world).outcome (loop setup)) :
    Ends turn headway loop where
  headway := fun _ _ ⟨_, _, _, h⟩ => hturn h
  wellFounded := Subrelation.wf (fun ⟨_, _, _, h⟩ => hturn h) hwf
  reaches setup engine world := by
    induction engine using hwf.induction generalizing world with
    | _ engine ih =>
        rw [hloop]
        cases h : turn setup engine world with
        | leave outcome => exact .leave h
        | again next changed => exact .again h (ih next (hturn h) changed)

end Turn

namespace Engine

variable {setup : Setup σ} {engine next : Engine} {world changed : World σ}

/-! Headway. -/

structure LaterNode (engine next : Engine) : Prop where
  files : next.files = engine.files
  fileIndex : next.fileIndex = engine.fileIndex
  loaded : next.loaded = engine.loaded
  later : engine.position < next.position
  held : next.position < engine.nodeCount

structure LaterFile (engine next : Engine) : Prop where
  files : next.files = engine.files
  later : engine.fileIndex < next.fileIndex
  listed : next.fileIndex < engine.files.length

structure EarlierFile (engine next : Engine) : Prop where
  files : next.files = engine.files
  earlier : next.fileIndex < engine.fileIndex
  listed : next.fileIndex < engine.files.length

theorem LaterNode.ahead_lt (h : engine.LaterNode next) :
    Prod.Lex (· < ·) (· < ·) next.ahead engine.ahead := by
  have hcount : next.nodeCount = engine.nodeCount := by rw [nodeCount, h.loaded, nodeCount]
  have hlater := h.later
  have hheld := h.held
  rw [ahead, ahead, h.files, h.fileIndex, hcount]
  exact .right _ (by omega)

theorem LaterFile.ahead_lt (h : engine.LaterFile next) :
    Prod.Lex (· < ·) (· < ·) next.ahead engine.ahead := by
  have hlater := h.later
  have hlisted := h.listed
  rw [ahead, ahead, h.files]
  exact .left _ _ (by omega)

theorem wellFounded_onward :
    WellFounded fun next engine => LaterNode engine next ∨ LaterFile engine next := by
  -- A file that is loaded brings any number of nodes, so files count before nodes.
  refine Subrelation.wf ?_ (InvImage.wf ahead (Prod.lex Nat.lt_wfRel Nat.lt_wfRel).wf)
  rintro next engine (hnode | hfile)
  · exact hnode.ahead_lt
  · exact hfile.ahead_lt

/-! The files after the current one. -/

def forwardTurn (setup : Setup σ) (engine : Engine) (world : World σ) : Turn σ Bool :=
  if engine.fileIndex + 1 < engine.files.length then
    match setup.loadIndex engine (engine.fileIndex + 1) world with
    | (.error e, world) => .leave ⟨.error e, engine, world⟩
    | (.ok file, world) =>
        if file.nodes.isEmpty then .again (engine.place (engine.fileIndex + 1) file) world
        else .leave ⟨.ok true, engine.place (engine.fileIndex + 1) file, world⟩
  else .leave ⟨.ok false, engine.exhaust, world⟩

theorem enterNextFile_eq (setup : Setup σ) (engine : Engine) (world : World σ) :
    engine.enterNextFile setup world =
      (engine.forwardTurn setup world).outcome fun next world =>
        next.enterNextFile setup world := by
  rw [enterNextFile, forwardTurn]
  split
  · rcases setup.loadIndex engine (engine.fileIndex + 1) world with ⟨_ | file, world⟩
    · rfl
    · dsimp only
      split <;> rfl
  · rfl

theorem laterFile_of_forwardTurn (h : engine.forwardTurn setup world = .again next changed) :
    engine.LaterFile next := by
  unfold forwardTurn at h
  split at h
  · rename_i hlt
    split at h
    · cases h
    · split at h
      · cases h
        exact ⟨rfl, Nat.lt_succ_self _, hlt⟩
      · cases h
  · cases h

/-! The files before the current one. -/

def backwardTurn (setup : Setup σ) (engine : Engine) (world : World σ) : Turn σ Bool :=
  if engine.fileIndex = 0 then .leave ⟨.ok false, engine, world⟩
  else
    match setup.loadIndex engine (engine.fileIndex - 1) world with
    | (.error e, world) => .leave ⟨.error e, engine, world⟩
    | (.ok file, world) =>
        if file.nodes.isEmpty then .again (engine.place (engine.fileIndex - 1) file) world
        else .leave ⟨.ok true, (engine.place (engine.fileIndex - 1) file).toLastNode, world⟩

theorem enterPreviousFile_eq (setup : Setup σ) (engine : Engine) (world : World σ) :
    engine.enterPreviousFile setup world =
      (engine.backwardTurn setup world).outcome fun next world =>
        next.enterPreviousFile setup world := by
  rw [enterPreviousFile, backwardTurn]
  split
  · rfl
  · rcases setup.loadIndex engine (engine.fileIndex - 1) world with ⟨_ | file, world⟩
    · rfl
    · dsimp only
      split <;> rfl

theorem earlierFile_of_backwardTurn (h : engine.backwardTurn setup world = .again next changed) :
    engine.EarlierFile next := by
  unfold backwardTurn at h
  split at h
  · cases h
  · rename_i hfirst
    split at h
    · cases h
    · rename_i file _ hload
      split at h
      · cases h
        obtain ⟨_, _, _, hname, _⟩ := Setup.loadIndex_ok (congrArg Prod.fst hload)
        exact ⟨rfl, Nat.sub_one_lt hfirst, (List.getElem?_eq_some_iff.mp hname).1⟩
      · cases h

/-! The nodes that a run passes over. -/

def runTurn (setup : Setup σ) (engine : Engine) (world : World σ) : Turn σ Unit :=
  match engine.comparison? with
  | none => .leave ⟨.ok (), { engine with current := none, runMode := false }, world⟩
  | some comparison =>
      if comparison.isMatch && engine.runMode && engine.runPause != some engine.position then
        let outcome := { engine with runPause := none }.runAdvance setup world
        match outcome.result with
        | .error e => .leave ⟨.error e, outcome.engine, outcome.world⟩
        | .ok true => .again outcome.engine outcome.world
        | .ok false => .leave ⟨.ok (), { outcome.engine with runMode := false }, outcome.world⟩
      else if engine.runMode then
        .leave ⟨.ok (), { engine with
          current := some comparison, runPause := some engine.position, runMode := false }, world⟩
      else .leave ⟨.ok (), { engine with current := some comparison }, world⟩

theorem recompute_eq (setup : Setup σ) (engine : Engine) (world : World σ) :
    engine.recompute setup world =
      (engine.runTurn setup world).outcome fun next world => next.recompute setup world := by
  rw [recompute, runTurn]
  cases engine.comparison? with
  | none => rfl
  | some comparison =>
      dsimp only
      split
      · split <;> rename_i hresult <;> rw [hresult] <;> rfl
      · split <;> rfl

theorem advance_headway (h : (engine.advance setup world).result = .ok true) :
    engine.LaterNode (engine.advance setup world).engine ∨
      engine.LaterFile (engine.advance setup world).engine := by
  unfold advance at h ⊢
  split
  · rename_i hheld
    exact .inl ⟨rfl, rfl, rfl, Nat.lt_succ_self _, hheld⟩
  · rename_i hlast
    rw [if_neg hlast] at h
    obtain ⟨hfiles, hlater, hlisted⟩ := enterNextFile_true h
    exact .inr ⟨hfiles, hlater, hfiles ▸ hlisted⟩

theorem runAdvance_headway (h : (engine.runAdvance setup world).result = .ok true) :
    engine.LaterNode (engine.runAdvance setup world).engine ∨
      engine.LaterFile (engine.runAdvance setup world).engine := by
  cases hresult : (engine.advance setup world).result with
  | ok moved =>
      rw [runAdvance_of_ok hresult] at h ⊢
      exact advance_headway h
  | error e =>
      rw [runAdvance_of_error hresult] at h
      cases h

theorem headway_of_runTurn (h : engine.runTurn setup world = .again next changed) :
    engine.LaterNode next ∨ engine.LaterFile next := by
  unfold runTurn at h
  split at h
  · cases h
  · split at h
    · dsimp only at h
      split at h
      · cases h
      · rename_i hresult
        cases h
        rcases runAdvance_headway hresult with hnode | hfile
        · exact .inl ⟨hnode.files, hnode.fileIndex, hnode.loaded, hnode.later, hnode.held⟩
        · exact .inr ⟨hfile.files, hfile.later, hfile.listed⟩
      · cases h
    · split at h <;> cases h

/-- The loops of a step forward, of a step back and of a run end, in every state, reachable or
not. A step back goes on to earlier files of the list, a step forward to later ones, and a run to
later nodes of the file that it holds or to later files. -/
theorem loops_end :
    Turn.Ends (fun (setup : Setup σ) engine => engine.forwardTurn setup) LaterFile
      (fun setup engine => engine.enterNextFile setup) ∧
    Turn.Ends (fun (setup : Setup σ) engine => engine.backwardTurn setup) EarlierFile
      (fun setup engine => engine.enterPreviousFile setup) ∧
    Turn.Ends (fun (setup : Setup σ) engine => engine.runTurn setup)
      (fun engine next => engine.LaterNode next ∨ engine.LaterFile next)
      (fun setup engine => engine.recompute setup) := by
  refine ⟨.of_headway ?_ laterFile_of_forwardTurn enterNextFile_eq,
    .of_headway ?_ earlierFile_of_backwardTurn enterPreviousFile_eq,
    .of_headway wellFounded_onward headway_of_runTurn recompute_eq⟩
  · exact Subrelation.wf .inr wellFounded_onward
  · exact Subrelation.wf EarlierFile.earlier (InvImage.wf fileIndex Nat.lt_wfRel.wf)

end Engine

end SpanReview
