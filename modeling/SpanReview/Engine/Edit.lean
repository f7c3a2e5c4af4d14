import SpanReview.Engine.Run

namespace SpanReview.Engine

/-!
Changing the proposed span, and recording it.
-/

def moveEndpoint (endpoint : Endpoint) (amount : Int) (engine : Engine) (world : World σ) :
    Outcome σ Span :=
  match engine.loaded, engine.current with
  | none, _ => ⟨.error .noFile, engine, world⟩
  | some _, none => ⟨.error .noNode, engine, world⟩
  | some file, some current =>
      let proposed := file.lines.moveEndpoint current.proposed endpoint amount
      ⟨.ok proposed, { engine with current := some { current with proposed := proposed } }, world⟩

def toggle (name : String) (engine : Engine) (world : World σ) : Outcome σ Bool :=
  match DisplayOption.ofName? name with
  | some option =>
      let display := engine.display.toggle option
      ⟨.ok (display.get option), { engine with display := display }, world⟩
  | none => ⟨.error (.settings (.unknownOption (Text.trim name))), engine, world⟩

/-- One record for each node: those that the fixture has, and `span` at `position`. -/
def recordsWith (file : LoadedFile) (position : Nat) (span : Span) : List (Option Span) :=
  ((List.range file.nodes.length).map fun i => file.fixture.bind (·.record? i)).set position
    (some span)

def save (setup : Setup σ) (engine : Engine) (world : World σ) : Outcome σ Unit :=
  match engine.loaded, engine.current with
  | none, _ => ⟨.error .noFile, engine, world⟩
  | some _, none => ⟨.error .noNode, engine, world⟩
  | some file, some current =>
      let records := recordsWith file engine.position current.proposed
      match setup.store.save file.key records world.disk with
      | (.error e, disk) => ⟨.error (.fixture e), engine, { world with disk := disk }⟩
      | (.ok _, disk) =>
          let file := { file with fixture := some ⟨file.key, records⟩ }
          { engine with loaded := some file }.recompute setup { world with disk := disk }

end SpanReview.Engine
