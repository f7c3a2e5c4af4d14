import SpanReview.Shell.Grammar.Command
import SpanReview.Shell.Machine

namespace SpanReview.Shell

/-!
Running a text line by line. Each line is read after the one before it was run, as that may
change how it is read.
-/

/-- How a command is run: `tested` tells that its status is looked at, so that a failure is
none, and `last` that its process has nothing else to do behind it. -/
structure Manner where
  tested : Bool
  last : Bool
  deriving DecidableEq, Repr

namespace Manner

def plain : Manner := ⟨false, false⟩

def test : Manner := ⟨true, false⟩

def inner (manner : Manner) : Manner :=
  { manner with last := false }

def final (manner : Manner) : Manner :=
  { manner with last := true }

end Manner

def Grammar.Mistake.text (mistake : Grammar.Mistake) : String :=
  "Syntax error: " ++ mistake.message

def Command.isNothing : Command → Bool
  | .sequence [] => true
  | _ => false

def linesRead (text : List Char) (left : Nat) : String :=
  let count := text.length - left
  let read := text.take count
  let goesOn := !read.isEmpty && read.getLast? != some '\n'
  let behind := if goesOn then (text.drop count).takeWhile (· != '\n') else []
  let ending := if goesOn && count + behind.length < text.length then ['\n'] else []
  String.ofList (read ++ behind ++ ending)

/-- How many more lines than one were asked for to read a command, or up to a mistake. -/
def furtherLines (before after : Grammar.Reader) (mistake : Option Grammar.Mistake) : Nat :=
  let read := before.rest.take (before.rest.length - after.rest.length)
  let lines := after.line - before.line
  let isComplete := match mistake with
    | none => true
    | some (.unexpected found _) => found != Grammar.Token.ending.name
    | some _ => false
  if isComplete && read.getLast? == some '\n' then lines - 1 else lines

/-- The aliases whose text is not seen to be at its end before the next line is read, as there
is no word at its end. -/
def Grammar.Reader.heldAliases (reader : Grammar.Reader) : List String :=
  let left := reader.rest.length + if reader.pushed.isSome then 0 else 1
  let isHeld (replacement : Grammar.Replacement) : Bool :=
    replacement.left ≤ left && (replacement.endsBlank || replacement.isEmpty)
  (reader.replacements.filter isHeld).map (·.name)

/-- What is done about the lines of a text besides running them: those of a script are shown
if that is asked for, and someone who types them is prompted. -/
structure Feed where
  isScript : Bool
  prompt : String → Run Unit

def Feed.text : Feed := ⟨false, fun _ => pure ()⟩

def Feed.script : Feed := ⟨true, fun _ => pure ()⟩

section

variable (again : Manner → Command → Run Unit)

def runLines (feed : Feed) (tested : Bool) : Nat → (hasRun : Bool) → Grammar.Reader → Run Bool
  | 0, hasRun, _ => return hasRun
  | fuel + 1, hasRun, reader => do
      feed.prompt "PS1"
      let machine ← get
      let reader := { reader with documents := machine.documents, aliases := machine.aliases }
      let (found, after) := Grammar.nextCommand.run.run reader
      let mistake := match found with
        | .error misread => some misread.mistake
        | .ok _ => none
      (List.range (furtherLines reader after mistake)).forM fun _ => feed.prompt "PS2"
      if feed.isScript && machine.has .verbose then
        complain (linesRead reader.rest after.rest.length)
      match found with
      | .error misread =>
          setLine misread.line
          fail misread.mistake.text
      | .ok none =>
          modify fun machine => { machine with isAtEnd := true }
          return hasRun
      | .ok (some command) =>
          modify fun machine =>
            { machine with
              documents := after.documents
              parsedLine := after.line
              isAtEnd := after.pushed.isSome
              heldAliases := after.heldAliases }
          again ⟨tested, false⟩ command
          runLines feed tested fuel (hasRun || !command.isNothing) after

def runFrom (feed : Feed) (tested : Bool) (text : String) : Run Bool := do
  let before ← get
  let reader := { Grammar.Reader.ofText text 1 #[] with
    replacements := before.heldAliases.map fun name => ⟨name, 0, false, true⟩ }
  (runLines again feed tested (text.length + 2) false reader).followedBy
    (modify fun machine =>
      { machine with parsedLine := before.parsedLine, heldAliases := before.heldAliases })

def runText (text : String) : Run Unit := do
  let _ ← runFrom again .text false text

end

end SpanReview.Shell
