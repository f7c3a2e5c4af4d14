import SpanReview.Shell.Cat
import SpanReview.Shell.Printf

namespace SpanReview.Shell.Program

/-!
The programs that are not the shell. Two of them have the names of builtins, and differ
from those in what they say and in which escapes they know.
-/

def put (name text : String) : Run Unit := do
  match ← emit 1 text with
  | none => return
  | some fault =>
      complain (name ++ ": write error: " ++ Cat.writeFaultText fault ++ "\n")
      finish 1

def digitsIn (base count : Nat) (cs : List Char) : List Char :=
  (cs.take count).takeWhile (isDigitIn base)

/-- Text with its escapes taken, numbers in them being octal or hexadecimal. It ends at
`\c`, the flag then being true. -/
def unescapeFrom : Nat → List Char → List Char × Bool
  | 0, _ => ([], false)
  | _, [] => ([], false)
  | _, '\\' :: 'c' :: _ => ([], true)
  | fuel + 1, '\\' :: c :: rest =>
      let numbered (base count : Nat) (rest : List Char) : List Char × Bool :=
        let digits := digitsIn base count rest
        let (cs, ended) := unescapeFrom fuel (rest.drop digits.length)
        (Char.ofNat (valueIn base digits % 256) :: cs, ended)
      if c = '0' then numbered 8 3 rest
      else if isOctal c then numbered 8 3 (c :: rest)
      else if c = 'x' ∧ !(digitsIn 16 2 rest).isEmpty then numbered 16 2 rest
      else
        let (cs, ended) := unescapeFrom fuel rest
        match simpleEscape? c with
        | some byte => (byte :: cs, ended)
        | none => ('\\' :: c :: cs, ended)
  | fuel + 1, c :: rest =>
      let (cs, ended) := unescapeFrom fuel rest
      (c :: cs, ended)

def echoFrom (quiet escapes : Bool) : List String → String
  | [] => if quiet then "" else "\n"
  | word :: rest =>
      match word.toList with
      | '-' :: c :: letters =>
          let letters := c :: letters
          if letters.all fun c => c == 'n' || c == 'e' || c == 'E' then
            let last := (letters.filter (· != 'n')).getLast?
            echoFrom (quiet || letters.contains 'n')
              (match last with
                | some letter => letter == 'e'
                | none => escapes) rest
          else shown (word :: rest)
      | _ => shown (word :: rest)
where
  shown (words : List String) : String :=
    let text := " ".intercalate words
    let (text, ended) :=
      if escapes then
        let (cs, ended) := unescapeFrom text.length.succ text.toList
        (String.ofList cs, ended)
      else (text, false)
    if quiet || ended then text else text ++ "\n"

def echo (name : String) (arguments : List String) : Run Unit := do
  finish 0
  put name (echoFrom false false arguments)

def flawText : Printf.Flaw → String
  | .noNumber => "expected a numeric value"
  | .partly => "value not completely converted"
  | .outOfRange => "Numerical result out of range"

def refusalText : Printf.Refusal → String
  | .noFormat => "%: invalid conversion specification"
  | .badDirective written => written ++ ": invalid conversion specification"
  | .tooWide => "write error"

def printf (name : String) (arguments : List String) : Run Unit := do
  let arguments := match arguments with
    | "--" :: rest => rest
    | arguments => arguments
  match arguments with
  | [] =>
      complain (name ++ ": missing operand\nTry '" ++ name ++ " --help' for more information.\n")
      finish 1
  | template :: rest =>
      let printed := Printf.printf template rest
      let say (text : String) : Run Unit := complain (name ++ ": " ++ text ++ "\n")
      printed.flaws.forM fun (argument, flaw) =>
        say ("'" ++ argument ++ "': " ++ flawText flaw)
      finish (if printed.flaws.isEmpty && printed.refusal.isNone then 0 else 1)
      match printed.refusal, printed.unused with
      | some refusal, _ => say (refusalText refusal)
      | none, unused :: _ =>
          say ("warning: ignoring excess arguments, starting with '" ++ unused ++ "'")
      | none, [] => pure ()
      put name printed.output

/-- The program of a name, which is called by one that may have directories before it. -/
def named? (name called : String) : Option (List String → Run Unit) :=
  match name with
  | "cat" => some (Cat.run called)
  | "echo" => some (echo called)
  | "printf" => some (printf called)
  | "true" => some fun _ => finish 0
  | "false" => some fun _ => finish 1
  | _ => none

end SpanReview.Shell.Program
