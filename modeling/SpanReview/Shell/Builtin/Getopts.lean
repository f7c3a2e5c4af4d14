import SpanReview.Shell.Builtin.Basic

namespace SpanReview.Shell.Builtin

/-!
Taking options from arguments one at a time. What is left of a word with several letters is
taken before the next word.
-/

def assignNext (number : Nat) : Run Unit := do
  let machine ← get
  let held := (machine.held? "OPTIND").getD ⟨none, false, false⟩
  if held.isReadOnly then fail "OPTIND: is read only"
  else
    let value := some (Text.natText number)
    set (machine.withVariable "OPTIND" (some { held with value := value }))

def dropValue : Run Unit :=
  modify fun machine => machine.withVariable "OPTARG" none

/-- The letters to be taken from next, and how many words are behind them and before them. -/
def nextLetters (words : List String) (number : Nat) (offset : Option Nat) :
    Option (List Char) × Nat :=
  let current := match offset with
    | some offset =>
        if number ≤ 1 then [] else (words.getD (number - 2) "").toList.drop offset
    | none => []
  if !current.isEmpty then (some current, number - 1)
  else
    match (words.getD (number - 1) "").toList with
    | ['-', '-'] => (none, number)
    | '-' :: letter :: letters => (some (letter :: letters), number)
    | _ => (none, number - 1)

/-- Says what is wrong with an option, or keeps it as a value for the script to tell. -/
def refuseOption (isQuiet : Bool) (letter : Char) (complaint : String) : Run Unit := do
  if isQuiet then assign "OPTARG" (String.singleton letter)
  else
    complain (complaint ++ "\n")
    dropValue

def getopts (arguments : List String) : Run Unit := do
  match arguments with
  | known :: name :: given => do
      let machine ← get
      let words := if given.isEmpty then machine.arguments else given
      let (number, offset) := machine.nextOption
      let (number, offset) :=
        if words.length + 1 < number then (1, none) else (number, offset)
      let isQuiet := known.startsWith ":"
      modify fun machine => { machine with nextOption := (1, none) }
      let settle (found : Char) (past : Nat) (left : Option (List Char)) : Run Unit := do
        assignNext (past + 1)
        assign name (String.singleton found)
        let offset := left.map fun left => (words.getD (past - 1) "").length - left.length
        modify fun machine => { machine with nextOption := (past + 1, offset) }
      finish 0
      match nextLetters words number offset with
      | (some (letter :: rest), past) =>
          match takesWord? known.toList letter with
          | none =>
              refuseOption isQuiet letter ("Illegal option -" ++ String.singleton letter)
              settle '?' past (some rest)
          | some false =>
              assign "OPTARG" ""
              settle letter past (some rest)
          | some true =>
              match rest, words[past]? with
              | [], none =>
                  refuseOption isQuiet letter
                    ("No arg for -" ++ String.singleton letter ++ " option")
                  settle (if isQuiet then ':' else '?') past none
              | [], some value =>
                  assign "OPTARG" value
                  settle letter (past + 1) none
              | rest, _ =>
                  assign "OPTARG" (String.ofList rest)
                  settle letter past none
      | (_, past) =>
          settle '?' past none
          finish 1
  | _ => fail "Usage: getopts optstring var [arg...]"

end SpanReview.Shell.Builtin
