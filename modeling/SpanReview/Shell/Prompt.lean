import SpanReview.Shell.Expand
import SpanReview.Shell.Process

namespace SpanReview.Shell

/-!
Texts that go before what is read or shown. They are expanded like a document.
-/

/-- The text of a prompt; if it makes no sense it is left as it is. The end of a script that was
read already ends the first commands in it. -/
def expandPrompt (again : Manner → Command → Run Unit) (text : String) : Run String := do
  let machine ← get
  let reader := Grammar.Reader.ofText text 1 machine.documents
  let pushed := if machine.isAtEnd then some .ending else none
  let (found, reader) := Grammar.promptWord.run.run { reader with pushed := pushed }
  set { machine with documents := reader.documents, isAtEnd := reader.pushed.isSome }
  try
    match found with
    | .ok word => expandDocument (substitute again) word
    | .error misread =>
        setLine misread.line
        fail misread.mistake.text
  catch
    | .failed => return text
    | stop => throw stop

end SpanReview.Shell
