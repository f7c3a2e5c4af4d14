import SpanReview.Text.Blank

namespace SpanReview

/-!
Splitting a command into words. Quotes of either kind group words; a backslash outside
single quotes takes the next character as it is.
-/

inductive WordsError where
  | trailingBackslash
  | unclosedQuote (quote : Char)
  deriving DecidableEq, Repr

def WordsError.message : WordsError → String
  | .trailingBackslash => "trailing backslash"
  | .unclosedQuote quote => "unclosed " ++ String.singleton quote ++ " quote"

namespace Words

/-- A word under construction, its characters latest first; a quote starts a word even
if nothing is in it. -/
def push (word : Option (List Char)) (c : Char) : Option (List Char) :=
  some (c :: word.getD [])

def close (word : Option (List Char)) : List String :=
  match word with
  | some cs => [String.ofList cs.reverse]
  | none => []

def splitFrom (quote : Option Char) (word : Option (List Char)) :
    List Char → Except WordsError (List String)
  | [] =>
      match quote with
      | some q => .error (.unclosedQuote q)
      | none => .ok (close word)
  | c :: rest =>
      if quote = some c then splitFrom none word rest
      else if quote = some '\'' then splitFrom quote (push word c) rest
      else if c = '\\' then
        match rest with
        | [] => .error .trailingBackslash
        | escaped :: rest => splitFrom quote (push word escaped) rest
      else if quote.isSome then splitFrom quote (push word c) rest
      else if c = '\'' ∨ c = '"' then splitFrom (some c) (some (word.getD [])) rest
      else if Text.isBlank c then (splitFrom none none rest).map (close word ++ ·)
      else splitFrom none (push word c) rest

def split (line : String) : Except WordsError (List String) :=
  splitFrom none none line.toList

end Words

end SpanReview
