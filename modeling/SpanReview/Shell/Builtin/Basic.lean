import SpanReview.Shell.Escape
import SpanReview.Shell.Machine
import SpanReview.Shell.Printf

namespace SpanReview.Shell.Builtin

/-!
What the commands that a shell runs by itself have in common, and those of them that only
put text out or change the flow of commands.
-/

def put (text : String) : Run Unit := do
  if (← emit 1 text).isSome then
    warn ((← get).command.getD "" ++ ": I/O error")
    finish 1

/-- The letters that are taken as options; one with a colon behind it takes the word behind
it. -/
def takesWord? (known : List Char) (letter : Char) : Option Bool :=
  match known with
  | [] => none
  | c :: ':' :: rest => if c = letter then some true else takesWord? rest letter
  | c :: rest => if c = letter then some false else takesWord? rest letter

/-- Takes the option letters of one word, and the word behind it if it belongs to one. -/
def takeFrom (known : List Char) : List Char → List String → Run (List (Char × String) × List String)
  | [], words => return ([], words)
  | letter :: letters, words => do
      match takesWord? known letter with
      | none => fail ("Illegal option -" ++ String.singleton letter)
      | some false =>
          let (more, words) ← takeFrom known letters words
          return ((letter, "") :: more, words)
      | some true =>
          match letters, words with
          | [], [] => fail ("No arg for -" ++ String.singleton letter ++ " option")
          | [], word :: words => return ([(letter, word)], words)
          | letters, words => return ([(letter, String.ofList letters)], words)

def takeOptions (known : String) : Nat → List String → Run (List (Char × String) × List String)
  | 0, words => return ([], words)
  | _, [] => return ([], [])
  | fuel + 1, word :: rest => do
      match word.toList with
      | ['-', '-'] => return ([], rest)
      | '-' :: first :: others =>
          let (found, rest) ← takeFrom known.toList (first :: others) rest
          let (more, words) ← takeOptions known fuel rest
          return (found ++ more, words)
      | _ => return ([], word :: rest)

def takeLetters (known : String) (words : List String) : Run (List Char × List String) := do
  let (found, rest) ← takeOptions known words.length words
  return (found.map (·.1), rest)

def echo (arguments : List String) : Run Unit := do
  finish 0
  put (Shell.echo arguments)

def flawText : Printf.Flaw → String
  | .noNumber => "expected numeric value"
  | .partly => "not completely converted"
  | .outOfRange => "Numerical result out of range"

def refusalText : Printf.Refusal → String
  | .noFormat => "missing format character"
  | .badDirective written => written ++ ": invalid directive"
  | .tooWide => "xvsnprintf failed"

def printf (arguments : List String) : Run Unit := do
  let (_, arguments) ← takeLetters "" arguments
  match arguments with
  | [] => fail "usage: printf format [arg ...]"
  | template :: rest =>
      let printed := Printf.printf template rest
      printed.flaws.forM fun (argument, flaw) => warn (argument ++ ": " ++ flawText flaw)
      finish (if printed.flaws.isEmpty then 0 else 1)
      match printed.refusal with
      | some refusal =>
          warn (refusalText refusal)
          finish 2
          put printed.output
          throw .failed
      | none => put printed.output

def exit (arguments : List String) : Run Unit := do
  match arguments with
  | [] => throw .exited
  | code :: _ =>
      let status ← numeral code
      modify fun machine => { machine with saved := some status }
      throw .exited

def leave (arguments : List String) : Run Unit := do
  match arguments with
  | [] => throw (.returned false)
  | code :: _ =>
      finish (← numeral code)
      throw (.returned true)

def endLoops (stop : Nat → Stop) (arguments : List String) : Run Unit := do
  let count ←
    match arguments with
    | [] => pure 1
    | count :: _ => do
        let n ← numeral count
        if n = 0 then fail ("Illegal number: " ++ count) else pure n
  finish 0
  let count := min count (← get).loops
  if 0 < count then throw (stop count)

def times : Run Unit := do
  finish 0
  put "0m0.000000s 0m0.000000s\n0m0.000000s 0m0.000000s\n"

end SpanReview.Shell.Builtin
