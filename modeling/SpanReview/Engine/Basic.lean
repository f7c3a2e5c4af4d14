import SpanReview.Fixture.Store
import SpanReview.Settings.Basic
import SpanReview.Source.Basic
import SpanReview.Span.Edit
import SpanReview.Suggest

namespace SpanReview

/-!
The state of a review: which case file and node the operator is at, how the span of the
node compares with the recorded one, and what is proposed to be recorded.
-/

structure Comparison where
  actual : Span
  expected : Span
  proposed : Span
  deriving DecidableEq, Repr

def Comparison.isMatch (comparison : Comparison) : Bool :=
  comparison.actual == comparison.expected

structure LoadedFile where
  key : FixtureKey
  lines : LineTable
  nodes : List Node
  fixture : Option Fixture

namespace LoadedFile

/-- Lowest line a proposed span may start on. -/
def minLine : Int := 1

def name (file : LoadedFile) : String :=
  file.key.file

def expectedAt (file : LoadedFile) (position : Nat) : Span :=
  match file.fixture with
  | some fixture => fixture.expectedAt position
  | none => Span.sentinel

/-- The recorded span if it is a real one, else the reported span, fitted into the text. -/
def propose (file : LoadedFile) (actual expected : Span) : Span :=
  file.lines.fixEndpoints actual.filename (if expected.isResolved then expected else actual) minLine

def compareAt (file : LoadedFile) (position : Nat) : Option Comparison :=
  (file.nodes[position]?).map fun node =>
    let expected := file.expectedAt position
    ⟨node.span, expected, file.propose node.span expected⟩

def mismatches (file : LoadedFile) : List Nat :=
  (file.nodes.zipIdx.filter fun (node, position) => node.span != file.expectedAt position).map
    Prod.snd

end LoadedFile

inductive EngineError where
  | unknownStage (name : String)
  | noStage
  | noFile
  | noNode
  | source (error : SourceError)
  | fixture (error : FixtureError)
  | settings (error : SettingsError)
  deriving DecidableEq, Repr

def EngineError.message : EngineError → String
  | .unknownStage name => "unknown stage '" ++ name ++ "' (expected 'lexer' or 'parser')"
  | .noStage => "no stage selected"
  | .noFile => "no case file loaded"
  | .noNode => "no node at the current position"
  | .source error => error.message
  | .fixture error => error.message
  | .settings error => error.message

inductive Phase where
  | idle
  | stageSelected
  | fileLoaded
  | exhausted
  deriving DecidableEq, Repr

inductive Step where
  | moved
  | stayed
  | atStart
  | exhausted
  deriving DecidableEq, Repr

inductive FileSelection where
  | selected (index : Nat) (file : String)
  | notFound (query : String) (suggestions : List String)
  deriving DecidableEq, Repr

/-- What stays the same through a review. The ranking is for the names of case files. -/
structure Setup (σ : Type) where
  source : TokenSource σ
  store : FixtureStore
  repository : Repository
  caseExtension : String
  ranking : Suggest.Ranking := ⟨.fuzzy⟩

structure Engine where
  display : DisplayOptions
  stage : Option Stage
  files : List String
  fileIndex : Nat
  loaded : Option LoadedFile
  position : Nat
  current : Option Comparison
  isExhausted : Bool
  runMode : Bool
  runPause : Option Nat

namespace Engine

def start (display : DisplayOptions) : Engine where
  display := display
  stage := none
  files := []
  fileIndex := 0
  loaded := none
  position := 0
  current := none
  isExhausted := false
  runMode := false
  runPause := none

def phase (engine : Engine) : Phase :=
  if engine.isExhausted then .exhausted
  else if engine.loaded.isSome then .fileLoaded
  else if engine.stage.isSome then .stageSelected
  else .idle

def currentFile? (engine : Engine) : Option String :=
  engine.loaded.map LoadedFile.name

def nodeCount (engine : Engine) : Nat :=
  match engine.loaded with
  | some file => file.nodes.length
  | none => 0

def currentNode? (engine : Engine) : Option Node :=
  match engine.current with
  | some _ => engine.loaded.bind fun file => file.nodes[engine.position]?
  | none => none

def label? (engine : Engine) : Option String :=
  engine.currentNode?.map Node.label

def mismatches (engine : Engine) : List Nat :=
  match engine.loaded with
  | some file => file.mismatches
  | none => []

def comparison? (engine : Engine) : Option Comparison :=
  if engine.isExhausted then none
  else engine.loaded.bind fun file => file.compareAt engine.position

def settled (engine : Engine) : Step :=
  if engine.isExhausted then .exhausted else .moved

def place (engine : Engine) (index : Nat) (file : LoadedFile) : Engine :=
  { engine with
    fileIndex := index
    loaded := some file
    position := 0
    current := none
    isExhausted := false
    runPause := none }

/-- Nothing is left to step to. The last file stays loaded. -/
def exhaust (engine : Engine) : Engine :=
  { engine with isExhausted := true, current := none, runMode := false }

end Engine

structure Outcome (σ : Type) (α : Type) where
  result : Except EngineError α
  engine : Engine
  world : World σ

def Outcome.andThen (outcome : Outcome σ α) (next : α → Engine → World σ → Outcome σ β) :
    Outcome σ β :=
  match outcome.result with
  | .ok value => next value outcome.engine outcome.world
  | .error e => ⟨.error e, outcome.engine, outcome.world⟩

end SpanReview
