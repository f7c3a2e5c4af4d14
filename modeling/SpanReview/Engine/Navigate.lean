import SpanReview.Engine.Run

namespace SpanReview.Engine

/-!
Stepping by hand, from node to node and from file to file, in both directions.
-/

def settle (setup : Setup σ) (engine : Engine) (world : World σ) : Outcome σ Step :=
  (engine.recompute setup world).andThen fun _ engine world => ⟨.ok engine.settled, engine, world⟩

def loadCurrent (setup : Setup σ) (engine : Engine) (world : World σ) : Outcome σ Unit :=
  (engine.enterFile setup engine.fileIndex world).andThen fun _ engine world =>
    engine.recompute setup world

/-- Loads a file by name. A name that no file has is answered with names like it. -/
def selectFile (setup : Setup σ) (name : String) (engine : Engine) (world : World σ) :
    Outcome σ FileSelection :=
  if engine.stage.isNone then ⟨.error .noStage, engine, world⟩
  else
    let name := Text.trim name
    match engine.fileNamed? setup name with
    | none => ⟨.ok (.notFound name (setup.ranking.suggest name engine.files 5)), engine, world⟩
    | some index =>
        ({ engine with fileIndex := index }.loadCurrent setup world).andThen fun _ engine world =>
          ⟨.ok (.selected index (engine.files.getD index "")), engine, world⟩

def nextFile (setup : Setup σ) (engine : Engine) (world : World σ) : Outcome σ Step :=
  if engine.stage.isNone then ⟨.error .noStage, engine, world⟩
  else if engine.isExhausted then ⟨.ok .exhausted, engine, world⟩
  else if engine.fileIndex + 1 < engine.files.length then
    (engine.enterFile setup (engine.fileIndex + 1) world).andThen fun _ engine world =>
      engine.settle setup world
  else ⟨.ok .exhausted, engine.exhaust, world⟩

def previousFile (setup : Setup σ) (engine : Engine) (world : World σ) : Outcome σ Step :=
  if engine.stage.isNone then ⟨.error .noStage, engine, world⟩
  else if engine.isExhausted then
    (engine.enterFile setup engine.fileIndex world).andThen fun _ engine world =>
      engine.settle setup world
  else if engine.fileIndex = 0 then ⟨.ok .atStart, engine, world⟩
  else
    (engine.enterFile setup (engine.fileIndex - 1) world).andThen fun _ engine world =>
      engine.settle setup world

def next (setup : Setup σ) (engine : Engine) (world : World σ) : Outcome σ Step :=
  if engine.isExhausted then ⟨.ok .exhausted, engine, world⟩
  else if engine.loaded.isNone then ⟨.error .noFile, engine, world⟩
  else
    (engine.advance setup world).andThen fun moved engine world =>
      if moved then engine.settle setup world else ⟨.ok .exhausted, engine, world⟩

def toLastNode (engine : Engine) : Engine :=
  { engine with position := engine.nodeCount - 1 }

def enterPreviousFile (setup : Setup σ) (engine : Engine) (world : World σ) : Outcome σ Bool :=
  if engine.fileIndex = 0 then ⟨.ok false, engine, world⟩
  else
    match setup.loadIndex engine (engine.fileIndex - 1) world with
    | (.error e, world) => ⟨.error e, engine, world⟩
    | (.ok file, world) =>
        if file.nodes.isEmpty then
          enterPreviousFile setup (engine.place (engine.fileIndex - 1) file) world
        else ⟨.ok true, (engine.place (engine.fileIndex - 1) file).toLastNode, world⟩
termination_by engine.fileIndex
decreasing_by
  simp only [place]
  omega

/-- To the last node before the loaded file; false if no file before it has nodes, the
engine then being put back where it was. -/
def retreatFile (setup : Setup σ) (engine : Engine) (world : World σ) : Outcome σ Bool :=
  let origin := engine.fileIndex
  (engine.enterPreviousFile setup world).andThen fun found engine world =>
    if found then ⟨.ok true, engine, world⟩
    else if engine.fileIndex = origin then ⟨.ok false, engine, world⟩
    else
      (engine.enterFile setup origin world).andThen fun _ engine world =>
        (engine.recompute setup world).andThen fun _ engine world => ⟨.ok false, engine, world⟩

def retreat (setup : Setup σ) (engine : Engine) (world : World σ) : Outcome σ Bool :=
  if engine.isExhausted then
    (engine.enterFile setup engine.fileIndex world).andThen fun _ engine world =>
      if 0 < engine.nodeCount then ⟨.ok true, engine.toLastNode, world⟩
      else engine.retreatFile setup world
  else if 0 < engine.position then
    ⟨.ok true, { engine with position := engine.position - 1 }, world⟩
  else engine.retreatFile setup world

def previous (setup : Setup σ) (engine : Engine) (world : World σ) : Outcome σ Step :=
  if engine.loaded.isNone && !engine.isExhausted then ⟨.error .noFile, engine, world⟩
  else
    (engine.retreat setup world).andThen fun moved engine world =>
      if moved then engine.settle setup world else ⟨.ok .atStart, engine, world⟩

end SpanReview.Engine
