import SpanReview.Json.Basic
import SpanReview.Span.Basic
import SpanReview.Text.Upper

namespace SpanReview

/-!
Tokens and syntax-tree nodes, with the location that each reports.
-/

structure Node where
  kind : Option String
  span : Span
  raw : Json
  deriving Inhabited

def Node.label (node : Node) : String :=
  match node.kind with
  | some kind => if kind.isEmpty then "UNDEFINED" else Text.upper kind
  | none => "UNDEFINED"

/-- A document that does not have the form of a token list or a syntax tree. -/
inductive NodeError where
  | unknownType (name : String)
  | notTokens (file : String) (found : String)
  | notChildren (file : String) (found : String)
  deriving DecidableEq, Repr

def NodeError.message : NodeError → String
  | .unknownType name => "unknown node type: " ++ name
  | .notTokens file found => "expected an array of tokens in '" ++ file ++ "', found " ++ found
  | .notChildren file found =>
      "expected an array of child nodes in '" ++ file ++ "', found " ++ found

def Json.noun : Json → String
  | .null => "null"
  | .bool _ => "a boolean"
  | .int _ => "a number"
  | .real _ => "a number"
  | .string _ => "a string"
  | .array _ => "an array"
  | .object _ => "an object"

end SpanReview
