import SpanReview.Shell.Script

namespace SpanReview.Shell

/-!
Text on its way from a word to what a command is given. It comes in pieces: what an
expansion outside of quotes gave is split into fields, and the rest is kept whole.
-/

/-- A bare character may be a special one of a pattern, an escaped one stands for itself. A
mark stands where quotes are: a field is there even if nothing is in them. -/
inductive Glyph where
  | bare (c : Char)
  | escaped (c : Char)
  | mark
  deriving DecidableEq, Repr

namespace Glyph

def char? : Glyph → Option Char
  | .bare c => some c
  | .escaped c => some c
  | .mark => none

def isBare : Glyph → Bool
  | .bare _ => true
  | _ => false

def ofChar (quoted : Bool) (c : Char) : Glyph :=
  if isControl c || (quoted && isSpecial c) then .escaped c else .bare c

def ofText (quoted : Bool) (text : String) : List Glyph :=
  text.toList.map (ofChar quoted)

end Glyph

def charsOf (glyphs : List Glyph) : List Char :=
  glyphs.filterMap Glyph.char?

def textOf (glyphs : List Glyph) : String :=
  String.ofList (charsOf glyphs)

/-- The text of a pattern. Escaped characters get a backslash, unless a bare one does that
for them. -/
def patternFrom : (free : Bool) → List Glyph → List Char
  | _, [] => []
  | _, .mark :: rest => patternFrom true rest
  | free, .bare '\\' :: rest => '\\' :: patternFrom (!free) rest
  | _, .bare c :: rest => c :: patternFrom true rest
  | true, .escaped c :: rest => '\\' :: c :: patternFrom true rest
  | false, .escaped c :: rest => c :: patternFrom true rest

def patternText (glyphs : List Glyph) : List Char :=
  charsOf (glyphs.takeWhile Glyph.isBare) ++ patternFrom true (glyphs.dropWhile Glyph.isBare)

/-- What is done with a piece of text: nothing, or splitting it. Literal text in the word of
an expansion is split like the value it stands for; all arguments between quotes are split
only where they meet. -/
inductive Division where
  | kept
  | literal
  | value
  | arguments
  deriving DecidableEq, Repr

structure Piece where
  division : Division
  glyphs : List Glyph
  deriving DecidableEq, Repr

def Piece.kept (glyphs : List Glyph) : Piece :=
  ⟨.kept, glyphs⟩

def glyphsOf (pieces : List Piece) : List Glyph :=
  pieces.flatMap Piece.glyphs

/-- Fields that are finished and the text of the one under way, latest first. `tail` is what
the last field loses if the text ends here, `afterBlank` tells that a blank has just ended
one, and `room` is how many fields may still be ended. -/
structure Fields where
  done : List (List Glyph)
  current : List Glyph
  tail : Option (List Glyph)
  afterBlank : Bool
  room : Option Nat

namespace Fields

def start (room : Option Nat) : Fields :=
  ⟨[], [], none, false, room⟩

def push (fields : Fields) (glyph : Glyph) : Fields :=
  match fields.tail with
  | some tail => { fields with tail := some (glyph :: tail) }
  | none => { fields with current := glyph :: fields.current }

def close (fields : Fields) : Fields :=
  { fields with done := fields.current.reverse :: fields.done, current := [] }

/-- The last field takes all that is left but the separator behind it, and blanks. -/
def takeLast (fields : Fields) (glyph : Glyph) (separates blank : Bool) : Fields :=
  if blank then { fields with tail := some (glyph :: fields.tail.getD []) }
  else if separates && fields.afterBlank then { fields.push glyph with afterBlank := false }
  else
    { fields with
      current := glyph :: (fields.tail.getD [] ++ fields.current)
      tail := none
      afterBlank := false }

/-- A separator ends a field. Blanks count once, and not before the first field; any other
separator may have blanks before it, and ends a field even if nothing is in it. Where
arguments meet no blank is special. -/
def separate (fields : Fields) (glyph : Glyph) (blank amongArguments : Bool) : Fields :=
  let afterBlank := blank && !amongArguments
  if fields.current.isEmpty && afterBlank then fields
  else
    match fields.room with
    | some 1 => { fields with room := some 0, tail := some [glyph], afterBlank := afterBlank }
    | room => { fields.close with room := room.map (· - 1), afterBlank := afterBlank }

def take (separators : List Char) (inArguments amongArguments : Bool) (fields : Fields)
    (glyph : Glyph) : Fields :=
  let isEnd := glyph.char? == some '\x00'
  let separates := match glyph.char? with
    | some c => isEnd || (!inArguments && separators.contains c)
    | none => false
  let blank := separates && (isEnd || " \t\n".toList.contains (glyph.char?.getD ' '))
  if fields.room = some 0 then fields.takeLast glyph separates blank
  else
    match separates, fields.afterBlank with
    | true, true => { fields with afterBlank := blank }
    | true, false => fields.separate glyph blank amongArguments
    | false, _ => { fields.push glyph with afterBlank := false }

/-- Splits pieces one by one, `previous` being what was done with the one before. The flags
tell whether the last one to be split was of arguments, and whether it or the one before it
was; literal text that is in one place is one piece. -/
def takeAll (separators : List Char) : (previous : Division) → (inArguments among : Bool) →
    Fields → List Piece → Bool × Fields
  | _, inArguments, _, fields, [] => (inArguments, fields)
  | previous, inArguments, among, fields, ⟨division, glyphs⟩ :: rest =>
      if division = .kept then
        takeAll separators .kept inArguments among (glyphs.foldl push fields) rest
      else
        let goesOn := division == .literal && previous == .literal
        let startsArguments := division == .arguments
        let among := if goesOn then among else startsArguments || inArguments
        let fields := if goesOn then fields else { fields with afterBlank := false }
        takeAll separators division startsArguments among
          (glyphs.foldl (take separators startsArguments among) fields) rest

end Fields

/-- The fields that pieces are split into, at most so many if there is a limit. The last
argument between quotes is a field even if nothing is in it. -/
def fieldsOf (separators : List Char) (limit : Option Nat) (pieces : List Piece) :
    List (List Glyph) :=
  let (afterArguments, fields) :=
    Fields.takeAll separators .kept false false (.start limit) pieces
  let current :=
    if afterArguments then fields.tail.getD [] ++ fields.current else fields.current
  let fields := if current.isEmpty && !afterArguments then fields.done
    else current.reverse :: fields.done
  fields.reverse

end SpanReview.Shell
