import SpanReview.Engine.Basic

namespace SpanReview

/-!
Choosing a stage and loading case files. A file is read, turned into nodes and given its
fixture before anything of the engine changes.
-/

namespace Setup

def keyFor (setup : Setup σ) (stage : Stage) (name : String) : FixtureKey :=
  ⟨setup.repository, stage, name⟩

def loadFile (setup : Setup σ) (stage : Stage) (name : String) (world : World σ) :
    Except EngineError LoadedFile × World σ :=
  match setup.source.readCase stage name world with
  | (.error e, world) => (.error (.source e), world)
  | (.ok text, world) =>
      match setup.source.nodes stage text name world with
      | (.error e, world) => (.error (.source e), world)
      | (.ok nodes, world) =>
          match setup.store.load (setup.keyFor stage name) world.disk with
          | .error e => (.error (.fixture e), world)
          | .ok fixture =>
              (.ok ⟨setup.keyFor stage name, LineTable.ofText text, nodes, fixture⟩, world)

def loadIndex (setup : Setup σ) (engine : Engine) (index : Nat) (world : World σ) :
    Except EngineError LoadedFile × World σ :=
  match engine.stage with
  | none => (.error .noStage, world)
  | some stage =>
      match engine.files[index]? with
      | none => (.error .noFile, world)
      | some name => setup.loadFile stage name world

end Setup

namespace Engine

def enterFile (setup : Setup σ) (index : Nat) (engine : Engine) (world : World σ) :
    Outcome σ Unit :=
  match setup.loadIndex engine index world with
  | (.error e, world) => ⟨.error e, engine, world⟩
  | (.ok file, world) => ⟨.ok (), engine.place index file, world⟩

def enterStage (setup : Setup σ) (stage : Stage) (engine : Engine) (world : World σ) :
    Outcome σ Nat :=
  match setup.source.caseFiles stage world with
  | (.error e, world) => ⟨.error (.source e), engine, world⟩
  | (.ok files, world) =>
      ⟨.ok files.length, { Engine.start engine.display with stage := some stage, files := files },
        world⟩

def selectStage (setup : Setup σ) (name : String) (engine : Engine) (world : World σ) :
    Outcome σ Nat :=
  match Stage.ofName? name with
  | some stage => engine.enterStage setup stage world
  | none => ⟨.error (.unknownStage (Text.trim name)), engine, world⟩

/-- The index of a file by its name, with or without the case extension; no name stands
for the first file. -/
def fileNamed? (setup : Setup σ) (engine : Engine) (name : String) : Option Nat :=
  if name == "" then
    if engine.files.isEmpty then none else some 0
  else
    (engine.files.idxOf? name).or (engine.files.idxOf? (name ++ "." ++ setup.caseExtension))

end Engine

end SpanReview
