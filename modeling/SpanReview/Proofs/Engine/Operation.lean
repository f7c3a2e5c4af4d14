import SpanReview.Engine.Edit
import SpanReview.Engine.Navigate

namespace SpanReview

/-! What can be done with an engine, and the engines that any history of calls leads to.
The disk and the source may change in any way between two calls, so each call comes with
the world that it finds. -/

inductive Operation where
  | selectStage (name : String)
  | enterStage (stage : Stage)
  | selectFile (name : String)
  | loadCurrent
  | nextFile
  | previousFile
  | next
  | previous
  | recompute
  | run
  | moveEndpoint (endpoint : Endpoint) (amount : Int)
  | toggle (name : String)
  | save
  deriving DecidableEq, Repr

/-- The engine that an operation leaves, whether it succeeds or fails. -/
def Operation.perform (setup : Setup σ) (engine : Engine) (world : World σ) :
    Operation → Engine
  | .selectStage name => (engine.selectStage setup name world).engine
  | .enterStage stage => (engine.enterStage setup stage world).engine
  | .selectFile name => (engine.selectFile setup name world).engine
  | .loadCurrent => (engine.loadCurrent setup world).engine
  | .nextFile => (engine.nextFile setup world).engine
  | .previousFile => (engine.previousFile setup world).engine
  | .next => (engine.next setup world).engine
  | .previous => (engine.previous setup world).engine
  | .recompute => (engine.recompute setup world).engine
  | .run => (engine.run setup world).engine
  | .moveEndpoint endpoint amount => (engine.moveEndpoint endpoint amount world).engine
  | .toggle name => (engine.toggle name world).engine
  | .save => (engine.save setup world).engine

structure Call (σ : Type) where
  operation : Operation
  world : World σ

def Call.apply (setup : Setup σ) (engine : Engine) (call : Call σ) : Engine :=
  call.operation.perform setup engine call.world

namespace Engine

def after (setup : Setup σ) (engine : Engine) (calls : List (Call σ)) : Engine :=
  calls.foldl (Call.apply setup) engine

def Reachable (setup : Setup σ) (engine : Engine) : Prop :=
  ∃ display calls, (Engine.start display).after setup calls = engine

@[simp] theorem after_nil (setup : Setup σ) (engine : Engine) :
    engine.after setup [] = engine := rfl

@[simp] theorem after_cons (setup : Setup σ) (engine : Engine) (call : Call σ)
    (calls : List (Call σ)) :
    engine.after setup (call :: calls) = (call.apply setup engine).after setup calls := rfl

theorem after_concat (setup : Setup σ) (engine : Engine) (calls : List (Call σ)) (call : Call σ) :
    engine.after setup (calls ++ [call]) = call.apply setup (engine.after setup calls) := by
  simp [after]

theorem Reachable.apply {setup : Setup σ} {engine : Engine} (h : engine.Reachable setup)
    (call : Call σ) : (call.apply setup engine).Reachable setup := by
  obtain ⟨display, calls, rfl⟩ := h
  exact ⟨display, calls ++ [call], after_concat setup (start display) calls call⟩

/-- What every call keeps, every history of calls keeps. -/
theorem after_keeps {setup : Setup σ} {holds : Engine → Prop}
    (hcall : ∀ engine (call : Call σ), holds engine → holds (call.apply setup engine))
    (calls : List (Call σ)) {engine : Engine} (hengine : holds engine) :
    holds (engine.after setup calls) := by
  induction calls generalizing engine with
  | nil => exact hengine
  | cons call calls ih => exact ih (hcall engine call hengine)

end Engine

end SpanReview
