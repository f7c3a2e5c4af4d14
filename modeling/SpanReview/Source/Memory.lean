import SpanReview.Source.Basic

namespace SpanReview

/-!
A source whose cases are given beforehand.
-/

structure CaseEntry where
  name : String
  text : Option String
  tokens : Json
  tree : Json
  only : Option String

namespace CaseEntry

def isListed (entry : CaseEntry) (stage : Stage) : Bool :=
  match entry.only with
  | some name => name == stage.name
  | none => true

def document (entry : CaseEntry) : Stage → Json
  | .lexer => entry.tokens
  | .parser => entry.tree

def find? (entries : List CaseEntry) (file : String) : Option (CaseEntry × String) :=
  entries.findSome? fun entry =>
    if entry.name == file then entry.text.map fun text => (entry, text) else none

end CaseEntry

/-- `unlisted` names the stages whose case files cannot be listed. -/
def TokenSource.ofEntries (entries : List CaseEntry) (unlisted : List String) : TokenSource σ where
  caseFiles stage world :=
    if unlisted.contains stage.name then (.error .noCommand, world)
    else (.ok ((entries.filter (·.isListed stage)).map CaseEntry.name), world)
  readCase _ file world :=
    match CaseEntry.find? entries file with
    | some (_, text) => (.ok text, world)
    | none => (.error (.missingCase file), world)
  nodes stage _ file world :=
    match CaseEntry.find? entries file with
    | some (entry, _) =>
        let nodes := LocationDefaults.first.nodesOf stage (entry.document stage) file
        (nodes.mapError .badNode, world)
    | none => (.error (.missingCase file), world)

end SpanReview
