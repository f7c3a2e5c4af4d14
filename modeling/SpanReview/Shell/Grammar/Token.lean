import SpanReview.Shell.Script
import SpanReview.Text.Decimal

namespace SpanReview.Shell.Grammar

/-!
Reading the tokens of a script. A backslash before the end of a line joins it with the
next one, except between single quotes. The text of a here-document follows the line that
asks for it.
-/

inductive Arrow where
  | opened (access : Access)
  | copied
  | document (stripsTabs : Bool)
  deriving DecidableEq, Repr

inductive Token where
  | ending
  | newline
  | word (word : Word)
  | redirection (descriptor : Nat) (arrow : Arrow)
  | operator (text : String)
  | keyword (text : String)

def Token.quotedName (text : String) : String :=
  "\"" ++ text ++ "\""

def Token.name : Token → String
  | .ending => "end of file"
  | .newline => "newline"
  | .word _ => "word"
  | .redirection _ _ => "redirection"
  | .operator text => quotedName text
  | .keyword text => quotedName text

inductive Mistake where
  | unexpected (found : String) (expected : Option String)
  | unterminatedString
  | missingBrace
  | missingParentheses
  | openBackquote
  | badLoopVariable
  | badFunctionName
  | tooDeep
  deriving DecidableEq, Repr

def Mistake.message : Mistake → String
  | .unexpected found none => found ++ " unexpected"
  | .unexpected found (some expected) => found ++ " unexpected (expecting " ++ expected ++ ")"
  | .unterminatedString => "Unterminated quoted string"
  | .missingBrace => "Missing '\x7d'"
  | .missingParentheses => "Missing '))'"
  | .openBackquote => "EOF in backquote substitution"
  | .badLoopVariable => "Bad for loop variable"
  | .badFunctionName => "Bad function name"
  | .tooDeep => "Nesting too deep"

structure Misread where
  line : Nat
  mistake : Mistake

structure Awaited where
  index : Nat
  delimiter : List Char
  isLiteral : Bool
  stripsTabs : Bool

/-- The text of an alias that is being read, up to where only so many characters are left. -/
structure Replacement where
  name : String
  left : Nat
  endsBlank : Bool
  isEmpty : Bool

/-- The text that is left, and a token that was taken from it and put back. A document under way
has stopped once its delimiter was found. -/
structure Reader where
  rest : List Char
  line : Nat
  hasStopped : Bool
  documents : Array Word
  awaited : List Awaited
  pushed : Option Token
  aliases : List (String × String)
  replacements : List Replacement

def Reader.underWay (reader : Reader) : List Replacement :=
  let left := reader.rest.length
  reader.replacements.filter fun replacement => replacement.left ≤ left

def Reader.keptReplacements (reader : Reader) : List Replacement :=
  reader.underWay.map fun replacement => { replacement with left := 0 }

def readLimit : Nat := 1000000000

abbrev Parse := ExceptT Misread (StateM Reader)

def mistake (mistake : Mistake) : Parse α := do
  throw ⟨(← get).line, mistake⟩

def unexpected (token : Token) (expected : Option String) : Parse α :=
  mistake (.unexpected token.name expected)

def push (token : Token) : Parse Unit :=
  modify fun reader => { reader with pushed := some token }

def Reader.advance (reader : Reader) : Reader :=
  match reader.rest with
  | [] => reader
  | c :: rest =>
      { reader with rest := rest, line := if c = '\n' then reader.line + 1 else reader.line }

def advance : Parse Unit :=
  modify Reader.advance

def dropContinuations : List Char → Nat → List Char × Nat
  | '\\' :: '\n' :: rest, line => dropContinuations rest (line + 1)
  | rest, line => (rest, line)

def peek : Parse (Option Char) := do
  if (← get).hasStopped then return none
  else
    modify fun reader =>
      let (rest, line) := dropContinuations reader.rest reader.line
      { reader with rest := rest, line := line }
    return (← get).rest.head?

def takes (c : Char) : Parse Bool := do
  if (← peek) == some c then
    advance
    return true
  else return false

def takeRun (fits : Char → Bool) : Nat → Parse (List Char)
  | 0 => return []
  | fuel + 1 => do
      match ← peek with
      | some c =>
          if fits c then
            advance
            return c :: (← takeRun fits fuel)
          else return []
      | none => return []

def takeWhile (fits : Char → Bool) : Parse (List Char) := do
  takeRun fits readLimit

inductive Closing where
  | word
  | doubleQuote
  | brace
  | sum
  | parenthesis
  | text
  deriving DecidableEq, Repr

/-- Where characters stand: what closes the place they are in, and how they are taken. `ending`
tells how the document around them ends. -/
structure Mode where
  quoted : Bool
  closing : Closing
  inBraces : Bool
  inPattern : Bool
  inDocument : Bool
  ending : Option Awaited
  isLiteral : Bool

def Mode.word : Mode := ⟨false, .word, false, false, false, none, false⟩

def Mode.delimiter : Mode := ⟨false, .word, false, false, false, none, true⟩

def Mode.document (ending : Option Awaited) : Mode := ⟨true, .text, false, false, true, ending, false⟩

/-- Whether values are quoted. In the patterns of a document quotes are only about characters. -/
def Mode.quotesValues (mode : Mode) : Bool :=
  mode.quoted && !(mode.inPattern && mode.inDocument)

def Mode.braced (mode : Mode) (quoted : Bool) : Mode :=
  { mode with quoted := quoted, closing := .brace, inBraces := true }

def Mode.atEnd (mode : Mode) : Parse (Option Word) :=
  match mode.closing with
  | .word => return none
  | .text => return none
  | .sum => mistake .missingParentheses
  | .parenthesis => mistake .missingParentheses
  | .doubleQuote => mistake (if mode.inDocument then .missingBrace else .unterminatedString)
  | .brace =>
      mistake (if mode.quoted && !mode.inDocument then .unterminatedString else .missingBrace)

def Mode.plain (mode : Mode) (c : Char) : Part :=
  if mode.quoted then .inside c else .bare c

def Awaited.startLine (document : Awaited) : Parse Unit :=
  modify fun reader =>
    let rest := if document.stripsTabs then reader.rest.dropWhile (· == '\t') else reader.rest
    let stopped (rest : List Char) : Reader :=
      { reader with rest := rest, line := reader.line + 1, hasStopped := true }
    if document.delimiter.isPrefixOf rest then
      match rest.drop document.delimiter.length with
      | [] => stopped []
      | '\n' :: rest => stopped rest
      | _ => { reader with rest := rest }
    else { reader with rest := rest }

def Mode.take (mode : Mode) (c : Char) : Parse Unit := do
  advance
  if c = '\n' then mode.ending.forM Awaited.startLine

def endsWord (c : Char) : Bool :=
  c == ' ' || c == '\t' || c == '\n' || c == ';' || c == '&' || c == '|' || c == '<' || c == '>' ||
    c == '(' || c == ')'

def Mode.keepsBackslash (mode : Mode) (c : Char) : Bool :=
  mode.quoted && c != '\\' && c != '`' && c != '$' &&
    !(c == '"' && (!mode.inDocument || mode.inBraces)) && !(c == '\x7d' && mode.inBraces)

def escaped (mode : Mode) : Parse Word := do
  match (← get).rest with
  | [] => return [.char .escaped '\\']
  | c :: _ =>
      advance
      return if mode.keepsBackslash c then [.char .escaped '\\', .char .escaped c]
        else [.char .escaped c]

/-- Text up to a single quote, `sofar` being what stands before it, the latest first. -/
def singleQuotedFrom (mode : Mode) : Nat → (sofar : Word) → Parse Word
  | 0, _ => mistake .tooDeep
  | fuel + 1, sofar => do
      let reader ← get
      match if reader.hasStopped then [] else reader.rest with
      | [] => mistake (if mode.inDocument then .missingBrace else .unterminatedString)
      | '\'' :: _ =>
          advance
          return sofar.reverse
      | c :: _ =>
          mode.take c
          singleQuotedFrom mode fuel (.inside c :: sofar)

/-- Takes note of quotes around a part of a word. Those around nothing but all arguments do not
make a word if there are none, and documents have no quotes. -/
def Mode.markQuotes (mode : Mode) (word : Word) : Word :=
  match word with
  | [.parameter true .each .value] => [eachArgument true]
  | word => if mode.inDocument then word else .mark :: word ++ [.mark]

/-- The text between backquotes, in which a backslash escapes another one, a backquote and
a dollar sign. -/
def backquoteText (quoted : Bool) : Nat → Parse (List Char)
  | 0 => mistake .openBackquote
  | fuel + 1 => do
      match ← peek with
      | none => mistake .openBackquote
      | some c =>
          advance
          if c = '`' then return []
          else if c = '\\' then
            match (← get).rest with
            | [] => mistake .openBackquote
            | d :: _ =>
                advance
                let more ← backquoteText quoted fuel
                if d = '\\' ∨ d = '`' ∨ d = '$' ∨ (quoted ∧ d = '"') then return d :: more
                else return '\\' :: d :: more
          else return c :: (← backquoteText quoted fuel)

def specialParameter? (c : Char) : Option Parameter :=
  match c with
  | '@' => some .each
  | '*' => some .joined
  | '#' => some .count
  | '?' => some .status
  | '-' => some .options
  | '$' => some .process
  | '!' => some .background
  | _ => none

def numberOf (digits : List Char) : Nat :=
  (Text.natural? digits).getD 0

def bareParameter? : Parse (Option Parameter) := do
  match ← peek with
  | none => return none
  | some c =>
      if isNameStart c then
        return some (.named (String.ofList (← takeWhile isNameChar)))
      else if Text.isDigit c then
        advance
        return some (.argument (numberOf [c]))
      else
        match specialParameter? c with
        | some parameter =>
            advance
            return some parameter
        | none => return none

/-- A parameter in braces, and whether its length is asked for; none if there is none. A
number sign is a parameter itself unless another one follows. -/
def bracedParameter? : Parse (Option (Parameter × Bool)) := do
  let named : Parse (Option Parameter) := do
    match ← peek with
    | some c =>
        if Text.isDigit c then return some (.argument (numberOf (← takeWhile Text.isDigit)))
        else bareParameter?
    | none => return none
  if ← takes '#' then
    match ← peek with
    | some c =>
        if isNameChar c then return (← named).map (·, true)
        else
          let before ← get
          advance
          if c != '\x7d' && (← peek) == some '\x7d' then
            return (specialParameter? c).map (·, true)
          else
            set before
            return some (.count, false)
    | none => return some (.count, false)
  else return (← named).map (·, false)

def fallbackOf? (c : Char) : Option Fallback :=
  match c with
  | '-' => some .use
  | '+' => some .replace
  | '?' => some .complain
  | '=' => some .assign
  | _ => none

def trimSide? (c : Char) : Option Side :=
  match c with
  | '#' => some .front
  | '%' => some .back
  | _ => none

def badSubstitution (inner : Mode → Parse Word) (mode : Mode) : Parse Word := do
  let _ ← inner (mode.braced mode.quoted)
  return [.badSubstitution]

def skipOne : Parse Unit :=
  modify fun reader => { reader with rest := reader.rest.drop 1 }

def nameless (inner : Mode → Parse Word) (mode : Mode) : Parse Word := do
  if (← peek) != some '\x7d' then skipOne
  badSubstitution inner mode

def braces (inner : Mode → Parse Word) (mode : Mode) : Parse Word := do
  match ← bracedParameter? with
  | none => nameless inner mode
  | some (parameter, true) =>
      if ← takes '\x7d' then return [.parameter mode.quotesValues parameter .length]
      else badSubstitution inner mode
  | some (parameter, false) =>
      if ← takes '\x7d' then return [.parameter mode.quotesValues parameter .value]
      else
        let colon ← takes ':'
        match ← peek with
        | none => badSubstitution inner mode
        | some c =>
            match fallbackOf? c, trimSide? c with
            | some kind, _ =>
                advance
                let word ← inner (mode.braced mode.quoted)
                return [.parameter mode.quotesValues parameter (.fallback kind colon word)]
            | none, some side =>
                if colon then badSubstitution inner mode
                else
                  advance
                  let longest ← takes c
                  let pattern ← inner { mode.braced false with inPattern := true }
                  return [.parameter mode.quotesValues parameter (.trimmed side longest pattern)]
            | none, none =>
                skipOne
                if colon && c == '\x7d' then
                  let word ← inner (mode.braced mode.quoted)
                  return .parameter mode.quotesValues parameter .value :: word
                else badSubstitution inner mode

/-- Reads the commands of a substitution, `closed` by a parenthesis or by the end of their
text. Documents that they ask for and do not get are empty. -/
def substituted (script : (closed : Bool) → Parse Command) (closed : Bool) : Parse Command := do
  let awaited := (← get).awaited
  modify fun reader => { reader with awaited := [] }
  let command ← script closed
  modify fun reader => { reader with awaited := awaited }
  return command

def dollar (inner : Mode → Parse Word) (script : Bool → Parse Command) (mode : Mode) :
    Parse Word := do
  if mode.isLiteral then return [mode.plain '$']
  else if ← takes '(' then
    if ← takes '(' then
      let expression ← inner { mode with quoted := true, closing := .sum, inBraces := false }
      return [.sum mode.quotesValues expression]
    else return [.output mode.quotesValues (← substituted script true)]
  else if ← takes '\x7b' then braces inner mode
  else
    match ← bareParameter? with
    | some parameter => return [.parameter mode.quotesValues parameter .value]
    | none => return [mode.plain '$']

def backquoted (script : Bool → Parse Command) (mode : Mode) : Parse Word := do
  let text ← backquoteText mode.quoted readLimit
  let before ← get
  set { before with
    rest := text
    line := 1
    replacements := before.keptReplacements }
  let command ← substituted script false
  modify fun reader =>
    { reader with
      rest := before.rest
      line := before.line
      pushed := none
      replacements := before.replacements }
  return [.output mode.quotesValues command]

def piece? (inner : Mode → Parse Word) (script : Bool → Parse Command) (mode : Mode) :
    Parse (Option Word) := do
  let plain (c : Char) : Parse (Option Word) := do
    mode.take c
    return some [mode.plain c]
  let closes : Parse (Option Word) := do
    advance
    return none
  match ← peek with
  | none => mode.atEnd
  | some c =>
      if mode.closing = .word ∧ endsWord c then return none
      else
        match c with
        | '\\' =>
            advance
            return some (← escaped mode)
        | '\'' =>
            if mode.quoted then plain c
            else
              advance
              return some (mode.markQuotes (← singleQuotedFrom mode readLimit []))
        | '"' =>
            if mode.closing = .doubleQuote then closes
            else if mode.closing = .sum ∨ mode.closing = .parenthesis ∨ mode.closing = .text then
              plain c
            else
              advance
              let inside ← inner { mode with quoted := true, closing := .doubleQuote }
              return some (mode.markQuotes inside)
        | '$' =>
            advance
            return some (← dollar inner script mode)
        | '`' =>
            if mode.isLiteral then
              advance
              return some [.char .inside c]
            else
              advance
              return some (← backquoted script mode)
        | '\x7d' => if mode.closing = .brace then closes else plain c
        | '(' =>
            if mode.closing = .sum ∨ mode.closing = .parenthesis then
              advance
              let inside ← inner { mode with closing := .parenthesis }
              return some (.char .inside '(' :: inside ++ [.char .inside ')'])
            else plain c
        | ')' =>
            if mode.closing = .parenthesis then closes
            else if mode.closing = .sum then
              advance
              if ← takes ')' then return none else return some [.char .inside c]
            else plain c
        | c => plain c

def partsFrom (script : Bool → Parse Command) : Nat → Mode → (sofar : Word) → Parse Word
  | 0, _, _ => mistake .tooDeep
  | fuel + 1, mode, sofar => do
      match ← piece? (fun mode => partsFrom script fuel mode []) script mode with
      | some found => partsFrom script fuel mode (found.reverseAux sofar)
      | none => return sofar.reverse

def word (script : Bool → Parse Command) (mode : Mode) : Parse Word := do
  partsFrom script readLimit mode []

/-- A document in which nothing is expanded, `sofar` being what stands before the rest of it, the
latest first. -/
def Awaited.literalFrom (document : Awaited) : Nat → (sofar : Word) → Parse Word
  | 0, _ => mistake .tooDeep
  | fuel + 1, sofar => do
      let reader ← get
      match if reader.hasStopped then [] else reader.rest with
      | [] => return sofar.reverse
      | c :: _ =>
          (Mode.document document).take c
          document.literalFrom fuel (.inside c :: sofar)

def readDocument (script : Bool → Parse Command) (document : Awaited) : Parse Unit := do
  document.startLine
  let found ←
    if document.isLiteral then document.literalFrom readLimit []
    else word script (.document document)
  modify fun reader =>
    { reader with
      hasStopped := false
      documents := reader.documents.setIfInBounds document.index found }

def readDocuments (script : Bool → Parse Command) : Parse Unit := do
  let awaited := (← get).awaited
  modify fun reader => { reader with awaited := [] }
  awaited.forM (readDocument script)

def skipBlanks : Nat → Parse Unit
  | 0 => return
  | fuel + 1 => do
      match ← peek with
      | some ' ' =>
          advance
          skipBlanks fuel
      | some '\t' =>
          advance
          skipBlanks fuel
      | some '#' => modify fun reader => { reader with rest := reader.rest.dropWhile (· != '\n') }
      | _ => return

def doubled (c : Char) : Parse Token := do
  advance
  let single := String.singleton c
  return .operator (if ← takes c then single ++ single else single)

def arrow : Parse (Nat × Arrow) := do
  if ← takes '>' then
    if ← takes '>' then return (1, .opened .append)
    else if ← takes '|' then return (1, .opened .replace)
    else if ← takes '&' then return (1, .copied)
    else return (1, .opened .write)
  else
    advance
    if ← takes '<' then return (0, .document (← takes '-'))
    else if ← takes '&' then return (0, .copied)
    else if ← takes '>' then return (0, .opened .update)
    else return (0, .opened .read)

def isArrow (c : Option Char) : Bool :=
  c == some '<' || c == some '>'

def wordToken (script : Bool → Parse Command) (mode : Mode) : Parse Token := do
  let found ← word script mode
  match found with
  | [.char .bare c] =>
      if Text.isDigit c && isArrow (← peek) then
        let (_, arrow) ← arrow
        return .redirection (numberOf [c]) arrow
      else return .word found
  | _ => return .word found

def token (script : Bool → Parse Command) (mode : Mode) : Parse Token := do
  match (← get).pushed with
  | some token =>
      modify fun reader => { reader with pushed := none }
      return token
  | none =>
      skipBlanks readLimit
      match ← peek with
      | none => return .ending
      | some '\n' =>
          advance
          readDocuments script
          return .newline
      | some '&' => doubled '&'
      | some '|' => doubled '|'
      | some ';' => doubled ';'
      | some '(' =>
          advance
          return .operator "("
      | some ')' =>
          advance
          return .operator ")"
      | some c =>
          if isArrow (some c) then
            let (descriptor, arrow) ← arrow
            return .redirection descriptor arrow
          else wordToken script mode

end SpanReview.Shell.Grammar
