import SpanReview.Engine.Load

namespace SpanReview.Engine

/-!
Moving on node by node and comparing. In run mode nodes that match are passed over until
one does not; where it stops is remembered as the pause of the run.
-/

def enterNextFile (setup : Setup σ) (engine : Engine) (world : World σ) : Outcome σ Bool :=
  if engine.fileIndex + 1 < engine.files.length then
    match setup.loadIndex engine (engine.fileIndex + 1) world with
    | (.error e, world) => ⟨.error e, engine, world⟩
    | (.ok file, world) =>
        if file.nodes.isEmpty then
          enterNextFile setup (engine.place (engine.fileIndex + 1) file) world
        else ⟨.ok true, engine.place (engine.fileIndex + 1) file, world⟩
  else ⟨.ok false, engine.exhaust, world⟩
termination_by engine.files.length - engine.fileIndex
decreasing_by
  simp only [place]
  omega

def advance (setup : Setup σ) (engine : Engine) (world : World σ) : Outcome σ Bool :=
  if engine.position + 1 < engine.nodeCount then
    ⟨.ok true, { engine with position := engine.position + 1 }, world⟩
  else engine.enterNextFile setup world

theorem enterNextFile_true {setup : Setup σ} {engine : Engine} {world : World σ}
    (h : (engine.enterNextFile setup world).result = .ok true) :
    (engine.enterNextFile setup world).engine.files = engine.files ∧
      engine.fileIndex < (engine.enterNextFile setup world).engine.fileIndex ∧
      (engine.enterNextFile setup world).engine.fileIndex < engine.files.length := by
  fun_induction enterNextFile setup engine world with
  | case1 => simp at h
  | case2 engine world hlt file world' hload hempty ih =>
      have := ih h
      simp only [place] at this ⊢
      refine ⟨this.1, ?_, this.2.2⟩
      have := this.2.1
      omega
  | case3 engine world hlt => simp [place, hlt]
  | case4 => simp at h

def ahead (engine : Engine) : Nat × Nat :=
  (engine.files.length - engine.fileIndex, engine.nodeCount - engine.position)

theorem advance_ahead {setup : Setup σ} {engine : Engine} {world : World σ}
    (h : (engine.advance setup world).result = .ok true) :
    Prod.Lex (· < ·) (· < ·) (engine.advance setup world).engine.ahead engine.ahead := by
  unfold advance at h ⊢
  split
  · rename_i hlt
    apply Prod.Lex.right
    have hcount : Engine.nodeCount { engine with position := engine.position + 1 } =
        engine.nodeCount := rfl
    simp only [hcount]
    omega
  · rename_i hge
    rw [if_neg hge] at h
    obtain ⟨hfiles, hlt, hbound⟩ := enterNextFile_true h
    apply Prod.Lex.left
    simp only [hfiles]
    omega

def runAdvance (setup : Setup σ) (engine : Engine) (world : World σ) : Outcome σ Bool :=
  let outcome := engine.advance setup world
  match outcome.result with
  | .ok _ => outcome
  | .error _ =>
      { outcome with
        engine := { outcome.engine with runMode := false, current := outcome.engine.comparison? } }

theorem runAdvance_ahead {setup : Setup σ} {engine : Engine} {world : World σ}
    (h : (engine.runAdvance setup world).result = .ok true) :
    Prod.Lex (· < ·) (· < ·) (engine.runAdvance setup world).engine.ahead engine.ahead := by
  unfold runAdvance at h ⊢
  cases hresult : (engine.advance setup world).result with
  | ok moved =>
      simp only [hresult] at h ⊢
      exact advance_ahead (hresult.trans h)
  | error e => simp [hresult] at h

/-- Compares at the position of the engine. In run mode a match is passed over, unless
the last run stopped at it, and the comparison goes on at the next node. -/
def recompute (setup : Setup σ) (engine : Engine) (world : World σ) : Outcome σ Unit :=
  match engine.comparison? with
  | none => ⟨.ok (), { engine with current := none, runMode := false }, world⟩
  | some comparison =>
      if comparison.isMatch && engine.runMode && engine.runPause != some engine.position then
        let outcome := { engine with runPause := none }.runAdvance setup world
        match h : outcome.result with
        | .error e => ⟨.error e, outcome.engine, outcome.world⟩
        | .ok true =>
            have := runAdvance_ahead h
            recompute setup outcome.engine outcome.world
        | .ok false => ⟨.ok (), { outcome.engine with runMode := false }, outcome.world⟩
      else if engine.runMode then
        ⟨.ok (), { engine with
          current := some comparison, runPause := some engine.position, runMode := false }, world⟩
      else ⟨.ok (), { engine with current := some comparison }, world⟩
termination_by engine.ahead
decreasing_by assumption

/-- Passes over matching nodes to the next mismatch. From the stop of the last run, or
from a file without nodes, the run starts at the following node. -/
def run (setup : Setup σ) (engine : Engine) (world : World σ) : Outcome σ Step :=
  if engine.isExhausted then ⟨.ok .exhausted, engine, world⟩
  else if engine.loaded.isNone then ⟨.error .noFile, engine, world⟩
  else
    let before := (engine.fileIndex, engine.position)
    let running := { engine with runMode := true }
    let finish (outcome : Outcome σ Unit) : Outcome σ Step :=
      outcome.andThen fun _ engine world =>
        if engine.isExhausted then ⟨.ok .exhausted, engine, world⟩
        else if (engine.fileIndex, engine.position) = before then ⟨.ok .stayed, engine, world⟩
        else ⟨.ok .moved, engine, world⟩
    if engine.current.isNone || engine.runPause == some engine.position then
      (running.runAdvance setup world).andThen fun moved engine world =>
        if moved then finish (engine.recompute setup world)
        else ⟨.ok .exhausted, { engine with runMode := false }, world⟩
    else finish (running.recompute setup world)

end SpanReview.Engine
