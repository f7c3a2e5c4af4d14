import SpanReview.Engine.Basic
import SpanReview.Json.Printer

namespace SpanReview

/-!
The picture of one node: its spans, and the lines of the source around the proposed one.
A row is a list of painted pieces; without colour only their text is shown.
-/

inductive Paint where
  | plain
  | green
  | red
  | gray
  | white
  | highlight
  | onRed
  deriving DecidableEq, Repr

def Paint.code : Paint → String
  | .plain => ""
  | .green => "32"
  | .red => "31"
  | .gray => "90"
  | .white => "37"
  | .highlight => "37;42"
  | .onRed => "41"

structure Stroke where
  paint : Paint
  text : String
  deriving DecidableEq, Repr

def Stroke.render (color : Bool) (stroke : Stroke) : String :=
  if !color || stroke.paint == .plain || stroke.text.isEmpty then stroke.text
  else "\x1b[" ++ stroke.paint.code ++ "m" ++ stroke.text ++ "\x1b[0m"

abbrev Row := List Stroke

def Row.render (color : Bool) (row : Row) : String :=
  String.join (row.map (Stroke.render color))

structure Screen where
  file : String
  position : Nat
  actual : Span
  expected : Span
  proposed : Span
  isMatch : Bool
  label : String
  token : Option Json
  lines : LineTable
  display : DisplayOptions

namespace Screen

def context : Int := 2

def byteOrderMark : Char := '\ufeff'

def offset (column : Int) (length : Nat) : Nat :=
  min (column - 1).toNat length

def shownText (screen : Screen) (cs : List Char) : String :=
  String.ofList (if screen.display.json then Json.escape cs else cs)

def plainLine (screen : Screen) (cs : List Char) : Row :=
  let shown := if screen.display.json then Json.quoteChars cs else cs
  [⟨.gray, String.ofList shown⟩]

/-- The offsets at which the proposed span enters and leaves a line, `hidden` columns of
which are not shown. -/
def reach (screen : Screen) (line hidden : Int) (length : Nat) : Nat × Nat :=
  let span := screen.proposed
  let enter := if line = span.start.line then offset (span.start.column - hidden) length else 0
  let leave :=
    if line = span.finish.line then max (offset (span.finish.column - hidden) length) enter
    else length
  (enter, leave)

/-- A line that the proposed span reaches. A span without width marks the character it
stands at, or the end of its line. -/
def spanLine (screen : Screen) (line hidden : Int) (cs : List Char) : Row :=
  let (enter, leave) := screen.reach line hidden cs.length
  let empty := screen.proposed.start.line = screen.proposed.finish.line ∧ enter = leave
  let leave := if empty ∧ enter < cs.length then enter + 1 else leave
  let atLineEnd := empty ∧ ¬enter < cs.length
  let json := screen.display.json
  let quote (paint : Paint) : Row := if json then [⟨paint, "\""⟩] else []
  quote .gray ++
    [⟨.gray, screen.shownText (cs.take enter)⟩,
      ⟨.highlight, screen.shownText ((cs.drop enter).take (leave - enter))⟩,
      ⟨.gray, screen.shownText (cs.drop leave)⟩] ++
    if atLineEnd then (if json then quote .highlight else [⟨.highlight, " "⟩]) else quote .gray

/-- The text of a line as it is shown, and the number of columns that are not. -/
def visible (line : Int) (text : List Char) : List Char × Int :=
  match text with
  | c :: rest => if c = byteOrderMark ∧ line = 1 then (rest, 1) else (c :: rest, 0)
  | [] => ([], 0)

def sourceLine (screen : Screen) (line : Int) : Row :=
  match screen.lines.line? line with
  | none => [⟨.onRed, " "⟩]
  | some text =>
      let (cs, hidden) := visible line text.toList
      if line < screen.proposed.start.line ∨ screen.proposed.finish.line < line then
        screen.plainLine cs
      else screen.spanLine line hidden cs

def padLeft (width : Nat) (text : String) : String :=
  String.ofList (List.replicate (width - text.length) ' ') ++ text

def windowRow (screen : Screen) (line : Int) : Row :=
  ⟨.plain, padLeft 4 (Text.intText line) ++ "| "⟩ :: screen.sourceLine line

def windowLines (screen : Screen) : List Int :=
  let first := screen.proposed.start.line - context
  let last := screen.proposed.finish.line + context
  (List.range (last - first + 1).toNat).map fun (i : Nat) => first + i

def title (screen : Screen) : Row :=
  [⟨if screen.isMatch then .green else .red, Path.stemOrSelf screen.file⟩, ⟨.plain, " "⟩,
    ⟨.gray, "@"⟩, ⟨.plain, " " ++ Text.natText (screen.position + 1)⟩]

def spanRow (name : String) (span : Span) : Row :=
  [⟨.gray, name⟩, ⟨.plain, " "⟩, ⟨.white, span.describe⟩]

def labelRow (screen : Screen) : Row :=
  [⟨.plain, if screen.display.json then "     " else "    "⟩, ⟨.white, screen.label⟩]

def tokenRows (screen : Screen) : List Row :=
  match screen.token with
  | some token => if screen.display.showToken then [[⟨.plain, token.pretty⟩]] else []
  | none => []

def rows (screen : Screen) : List Row :=
  [screen.title, spanRow "  actual:" screen.actual, spanRow "expected:" screen.expected,
    spanRow " will be:" screen.proposed, screen.labelRow] ++
    screen.tokenRows ++ screen.windowLines.map screen.windowRow

def render (screen : Screen) (color : Bool) : String :=
  String.join (screen.rows.map fun row => row.render color ++ "\n")

end Screen

end SpanReview
