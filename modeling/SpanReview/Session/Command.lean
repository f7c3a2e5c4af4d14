import SpanReview.Settings.Basic
import SpanReview.Span.Basic

namespace SpanReview

/-!
The commands of a session, one to a line.
-/

inductive Command where
  | nextToken
  | previousToken
  | nextFile
  | previousFile
  | move (endpoint : Endpoint) (amount : Int)
  | save
  | run
  | toggle (option : DisplayOption)
  | file (name : String)
  | help
  | quit
  deriving DecidableEq, Repr

inductive CommandError where
  | unknown (input : String)
  | badAmount (input : String)
  deriving DecidableEq, Repr

def CommandError.message : CommandError → String
  | .unknown input => "unknown command '" ++ input ++ "' (h for help)"
  | .badAmount input => "invalid amount in '" ++ input ++ "'"

namespace Command

/-- A number after blanks. One plus sign may stand before the number's own sign. -/
def amount? (cs : List Char) : Option Int :=
  match Text.trimChars cs with
  | '+' :: rest => Text.integer? rest
  | rest => Text.integer? rest

def parseMove (input : List Char) (endpoint : Endpoint) (rest : List Char) :
    Except CommandError Command :=
  match amount? rest with
  | some amount => .ok (.move endpoint amount)
  | none => .error (.badAmount (String.ofList input))

def parseTrimmed : List Char → Except CommandError Command
  | ['n'] => .ok .nextToken
  | ['p'] => .ok .previousToken
  | ['N'] => .ok .nextFile
  | ['P'] => .ok .previousFile
  | ['w'] => .ok .save
  | ['r'] => .ok .run
  | ['j'] => .ok (.toggle .json)
  | ['t'] => .ok (.toggle .showToken)
  | ['h'] => .ok .help
  | ['?'] => .ok .help
  | ['q'] => .ok .quit
  | 'f' :: ' ' :: rest => .ok (.file (String.ofList (Text.trimChars rest)))
  | 's' :: rest => parseMove ('s' :: rest) .start rest
  | 'e' :: rest => parseMove ('e' :: rest) .finish rest
  | input => .error (.unknown (String.ofList input))

def parse (input : String) : Except CommandError Command :=
  parseTrimmed (Text.trimChars input.toList)

end Command

end SpanReview
