import SpanReview.Shell.Arithmetic
import SpanReview.Shell.Login
import SpanReview.Shell.Paths
import SpanReview.Shell.Trim

namespace SpanReview.Shell

/-!
From words to text. The parts of a word are expanded from left to right; what comes out is
split into fields, and a field with a pattern in it becomes the paths that it finds.
-/

def Parameter.name : Parameter → String
  | .named name => name
  | .argument index => Text.natText index
  | .each => "@"
  | .joined => "*"
  | .count => "#"
  | .status => "?"
  | .options => "-"
  | .process => "$"
  | .background => "!"

/-- How a word is taken: `splits` where it makes fields; `loose` where its literal text is
split too; `inList` where names stand in a list with colons. -/
structure Sense where
  splits : Bool
  loose : Bool
  inList : Bool

namespace Sense

def fields : Sense := ⟨true, false, false⟩

def text : Sense := ⟨false, false, false⟩

def assignment : Sense := ⟨false, false, true⟩

def within (sense : Sense) (quoted : Bool) : Sense :=
  { sense with loose := !quoted }

end Sense

/-- What stands between arguments: the first separator of fields, or a NUL where they are
kept apart. -/
def Machine.joint (machine : Machine) (splits quoted : Bool) (parameter : Parameter) :
    List Glyph :=
  let own := machine.valueOf? "IFS"
  let isApart := splits && (parameter == .each || !quoted)
  if isApart && (quoted || own.isSome) then [.bare '\x00']
  else
    match own with
    | none => [.bare ' ']
    | some separators => (separators.toList.take 1).map (Glyph.ofChar quoted)

def Machine.parameter? (machine : Machine) (splits quoted : Bool) (parameter : Parameter) :
    Option (List Glyph) :=
  let text := Glyph.ofText quoted
  match parameter with
  | .named name => (machine.valueOf? name).map text
  | .argument 0 => some (text machine.name)
  | .argument (index + 1) => machine.arguments[index]?.map text
  | .each => some ((machine.joint splits quoted .each).intercalate (machine.arguments.map text))
  | .joined =>
      some ((machine.joint splits quoted .joined).intercalate (machine.arguments.map text))
  | .count => some (text (Text.natText machine.arguments.length))
  | .status => some (text (Text.natText machine.status))
  | .options => some (text (Setting.letters machine.options))
  | .process => some (text (processText machine.process))
  | .background => machine.background.map fun process => text (processText process)

/-- The value of a parameter. One that is not set is refused if that is asked for. -/
def demand (sense : Sense) (quoted : Bool) (parameter : Parameter) : Run (Option (List Glyph)) := do
  let machine ← get
  match machine.parameter? sense.splits quoted parameter with
  | some value => return some value
  | none =>
      if machine.has .nounset then fail (parameter.name ++ ": parameter not set") else return none

def record (quoted : Bool) (parameter : Parameter) (glyphs : List Glyph) : Run (List Piece) := do
  if !quoted then return [⟨.value, glyphs⟩]
  else if parameter = .each ∧ !(← get).arguments.isEmpty then return [⟨.arguments, glyphs⟩]
  else return [.kept glyphs]

def gap : List Piece :=
  [.kept []]

section

variable (substitute : Command → Run String)

mutual

def piecesOfPart (sense : Sense) : Part → Run (List Piece)
  | .char .bare c =>
      return [⟨if sense.loose then .literal else .kept, [.bare c]⟩]
  | .char .inside c => return [.kept [.bare c]]
  | .char .escaped c => return [.kept [.escaped c]]
  | .mark => return [.kept [.mark]]
  | .badSubstitution => fail "Bad substitution"
  | .output quoted script => do
      record quoted .status (Glyph.ofText quoted (← substitute script))
  | .sum quoted expression => do
      let text := textOf (glyphsOf (← piecesFrom .text false 0 [] expression))
      let value ← Arithmetic.evaluateText text
      record quoted .status (Glyph.ofText quoted (Text.intText value))
  | .parameter quoted parameter .value => do
      match ← demand sense quoted parameter with
      | some value => record quoted parameter value
      | none => return gap
  | .parameter quoted parameter .length => do
      let length := match ← demand .text quoted parameter with
        | some value => value.length
        | none => 0
      record quoted parameter (Glyph.ofText quoted (Text.natText length))
  | .parameter quoted parameter (.fallback kind alsoEmpty word) => do
      let value := (← get).parameter? sense.splits quoted parameter
      let value := if alsoEmpty then value.filter fun glyphs => !glyphs.isEmpty else value
      match kind, value with
      | .replace, none => return gap
      | .replace, some _ => piecesFrom (sense.within quoted) true 0 [] word
      | _, some value => record quoted parameter value
      | .use, none => piecesFrom (sense.within quoted) true 0 [] word
      | .assign, none =>
          let text := textOf (glyphsOf (← piecesFrom .text true 0 [] word))
          assign parameter.name text
          let value := (← get).parameter? sense.splits quoted parameter
          record quoted parameter (value.getD [])
      | .complain, none =>
          let text := textOf (glyphsOf (← piecesFrom .text true 0 [] word))
          let missing := "parameter not set" ++ if alsoEmpty then " or null" else ""
          fail (parameter.name ++ ": " ++ if word.isEmpty then missing else text)
  | .parameter quoted parameter (.trimmed side longest pattern) => do
      match ← demand sense quoted parameter with
      | none => return gap
      | some value =>
          let pattern := glyphsOf (← piecesFrom .text true 0 [] pattern)
          record quoted parameter (trim pattern side longest value)

/-- The pieces of a word, `sofar` being those before it, the latest first. Where `tilde`
holds a tilde may stand for a home; so many parts at the front are the name behind one. -/
def piecesFrom (sense : Sense) : (tilde : Bool) → (skipped : Nat) → (sofar : List Piece) →
    List Part → Run (List Piece)
  | _, _, sofar, [] => return sofar.reverse
  | _, skipped + 1, sofar, _ :: rest => piecesFrom sense false skipped sofar rest
  | tilde, 0, sofar, part :: rest => do
      let own := (← get).valueOf? "HOME"
      let name := if tilde && part.isBare '~' then loginName? sense.inList rest else none
      match name.bind fun name => (homeOf? own name).map (·, name.length) with
      | some (home, length) =>
          piecesFrom sense false length (.kept (Glyph.ofText true home) :: sofar) rest
      | none =>
          let first ← piecesOfPart sense part
          piecesFrom sense (sense.inList && part.isBare ':') 0 (first.reverseAux sofar) rest

end

def piecesOf (sense : Sense) (word : Word) : Run (List Piece) :=
  piecesFrom substitute sense true 0 [] word

def expandWord (word : Word) : Run (List String) := do
  let pieces ← piecesOf substitute .fields word
  let machine ← get
  let fields := fieldsOf machine.separators none pieces
  if machine.has .noglob then return fields.map textOf
  else
    return fields.flatMap fun field =>
      match machine.pathsOf (patternText field) with
      | [] => [textOf field]
      | paths => paths

def expandWords (sofar : List String) : List Word → Run (List String)
  | [] => return sofar.reverse
  | word :: rest => do
      let first ← expandWord substitute word
      expandWords (first.reverseAux sofar) rest

def expandText (word : Word) : Run String := do
  return textOf (glyphsOf (← piecesOf substitute .text word))

def expandValue (word : Word) : Run String := do
  return textOf (glyphsOf (← piecesOf substitute .assignment word))

def expandDocument (word : Word) : Run String := do
  return textOf (glyphsOf (← piecesFrom substitute .text false 0 [] word))

def expandPattern (word : Word) : Run Pattern := do
  return Pattern.ofChars (patternText (glyphsOf (← piecesOf substitute .text word)))

end

end SpanReview.Shell
