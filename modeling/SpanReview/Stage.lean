import SpanReview.Text.Blank

namespace SpanReview

/-!
The two producers whose locations are reviewed.
-/

inductive Stage where
  | lexer
  | parser
  deriving DecidableEq, Repr

namespace Stage

def name : Stage → String
  | .lexer => "lexer"
  | .parser => "parser"

def ofName? (text : String) : Option Stage :=
  let word := Text.trim text
  if word = "lexer" ∨ word = "1" then some .lexer
  else if word = "parser" ∨ word = "2" then some .parser
  else none

/-- The word that a token program is given for the stage. -/
def verb : Stage → String
  | .lexer => "lex"
  | .parser => "parse"

end Stage

end SpanReview
