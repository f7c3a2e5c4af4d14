import SpanReview.Disk.Basic
import SpanReview.Node.Walk

namespace SpanReview

/-!
Where case files and their nodes come from. A call on a source may read and change the
disk and whatever the source remembers, also when it fails.
-/

inductive SourceError where
  | unreadable (path : Path)
  | missingCase (file : String)
  | noCommand
  | notStarted (program : String)
  | failed (verb file status complaint : String)
  | invalidOutput
  | badNode (error : NodeError)
  deriving DecidableEq, Repr

def SourceError.message : SourceError → String
  | .unreadable path => "failed to read " ++ path
  | .missingCase file => "case file not found: " ++ file
  | .noCommand => "no token command configured"
  | .notStarted program => "failed to run token command '" ++ program ++ "'"
  | .failed verb file status complaint =>
      "token command failed to " ++ verb ++ " '" ++ file ++ "' (" ++ status ++ "): " ++ complaint
  | .invalidOutput => "token command produced invalid JSON"
  | .badNode error => error.message

/-- The disk, and what a source remembers between calls. -/
structure World (σ : Type) where
  disk : Disk
  memory : σ

structure TokenSource (σ : Type) where
  caseFiles : Stage → World σ → Except SourceError (List String) × World σ
  readCase : Stage → (file : String) → World σ → Except SourceError String × World σ
  nodes : Stage → (text file : String) → World σ → Except SourceError (List Node) × World σ

end SpanReview
