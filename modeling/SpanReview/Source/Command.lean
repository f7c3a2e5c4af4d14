import SpanReview.Json.Reading
import SpanReview.Source.Program
import SpanReview.Text.Blank
import SpanReview.Text.Utf8

namespace SpanReview

/-!
A source whose cases are the files of a directory and whose nodes are made by a program.
The program is called with the verb of the stage and the name of the case, reads the text
of the case, and writes the nodes as JSON.
-/

structure CommandSource where
  casesDir : Path
  extension : String
  command : List String
  deriving DecidableEq, Repr

namespace CommandSource

def isCase (source : CommandSource) (name : String) : Bool :=
  match Path.cutAtDot name with
  | some (_, extension) => extension == source.extension
  | none => false

/-- The names of the files with the case extension, in order. -/
def caseFiles (source : CommandSource) (disk : Disk) : Except SourceError (List String) :=
  match disk.list source.casesDir with
  | .error _ => .error (.unreadable source.casesDir)
  | .ok entries =>
      let names := entries.filterMap fun (name, entry) =>
        match entry with
        | .file _ => if source.isCase name then some name else none
        | .directory => none
      .ok (names.mergeSort fun a b => !(b < a))

def readCase (source : CommandSource) (file : String) (disk : Disk) : Except SourceError String :=
  let path := Path.join source.casesDir file
  match disk.readText path with
  | .ok text => .ok text
  | .error .missing => .error (.missingCase file)
  | .error _ => .error (.unreadable path)

def outputOf (stage : Stage) (file : String) (completed : Completed) : Except SourceError Json :=
  if completed.isSuccess then
    match (String.fromUTF8? completed.output).bind Json.parse? with
    | some value => .ok value
    | none => .error .invalidOutput
  else
    .error (.failed stage.verb file completed.status
      (Text.trim (Text.decodeLossy completed.complaint)))

def nodesWith (programs : Programs σ) (source : CommandSource) (stage : Stage)
    (text file : String) (world : World σ) : Except SourceError (List Node) × World σ :=
  match source.command with
  | [] => (.error .noCommand, world)
  | program :: arguments =>
      match programs program (arguments ++ [stage.verb, file]) text world with
      | (none, world) => (.error (.notStarted program), world)
      | (some completed, world) =>
          match outputOf stage file completed with
          | .error e => (.error e, world)
          | .ok value =>
              ((LocationDefaults.first.nodesOf stage value file).mapError .badNode, world)

def toTokenSource (programs : Programs σ) (source : CommandSource) : TokenSource σ where
  caseFiles _ world := (source.caseFiles world.disk, world)
  readCase _ file world := (source.readCase file world.disk, world)
  nodes := source.nodesWith programs

end CommandSource

end SpanReview
