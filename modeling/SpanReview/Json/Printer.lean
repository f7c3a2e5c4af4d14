import SpanReview.Json.Basic
import SpanReview.Json.Real

namespace SpanReview.Json

/-!
JSON text. The compact form has no white space; the pretty form indents by two spaces
and keeps empty containers on one line. Only quotes, backslashes and control characters
are escaped.
-/

def hexDigit (n : Nat) : Char :=
  if n < 10 then Char.ofNat ('0'.toNat + n) else Char.ofNat ('a'.toNat + (n - 10))

def escapeChar (c : Char) : List Char :=
  match c with
  | '"' => ['\\', '"']
  | '\\' => ['\\', '\\']
  | '\x08' => ['\\', 'b']
  | '\x0c' => ['\\', 'f']
  | '\n' => ['\\', 'n']
  | '\r' => ['\\', 'r']
  | '\t' => ['\\', 't']
  | c =>
      if c.toNat < 0x20 then ['\\', 'u', '0', '0', hexDigit (c.toNat / 16), hexDigit (c.toNat % 16)]
      else [c]

/-- Text as it stands between the quotes of a string. -/
def escape (cs : List Char) : List Char :=
  cs.flatMap escapeChar

def quoteChars (cs : List Char) : List Char :=
  '"' :: escape cs ++ ['"']

def quote (text : String) : String :=
  String.ofList (quoteChars text.toList)

mutual

def compact : Json → String
  | .null => "null"
  | .bool true => "true"
  | .bool false => "false"
  | .int value => Text.intText value
  | .real value => Real.text value
  | .string value => quote value
  | .array items => "[" ++ compactItems items ++ "]"
  | .object members => "\x7b" ++ compactMembers members ++ "\x7d"

def compactItems : List Json → String
  | [] => ""
  | [item] => compact item
  | item :: rest => compact item ++ "," ++ compactItems rest

def compactMembers : List (String × Json) → String
  | [] => ""
  | [(key, value)] => quote key ++ ":" ++ compact value
  | (key, value) :: rest => quote key ++ ":" ++ compact value ++ "," ++ compactMembers rest

end

def newline (depth : Nat) : String :=
  "\n" ++ String.ofList (List.replicate (2 * depth) ' ')

mutual

def prettyAt (depth : Nat) : Json → String
  | .array [] => "[]"
  | .array (item :: rest) =>
      "[" ++ newline (depth + 1) ++ prettyItems (depth + 1) (item :: rest) ++ newline depth ++ "]"
  | .object [] => "\x7b\x7d"
  | .object (member :: rest) =>
      "\x7b" ++ newline (depth + 1) ++ prettyMembers (depth + 1) (member :: rest) ++
        newline depth ++ "\x7d"
  | .null => "null"
  | .bool true => "true"
  | .bool false => "false"
  | .int value => Text.intText value
  | .real value => Real.text value
  | .string value => quote value

def prettyItems (depth : Nat) : List Json → String
  | [] => ""
  | [item] => prettyAt depth item
  | item :: rest => prettyAt depth item ++ "," ++ newline depth ++ prettyItems depth rest

def prettyMembers (depth : Nat) : List (String × Json) → String
  | [] => ""
  | [(key, value)] => quote key ++ ": " ++ prettyAt depth value
  | (key, value) :: rest =>
      quote key ++ ": " ++ prettyAt depth value ++ "," ++ newline depth ++ prettyMembers depth rest

end

def pretty (value : Json) : String :=
  prettyAt 0 value

end SpanReview.Json
