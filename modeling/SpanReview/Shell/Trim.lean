import SpanReview.Shell.Glyph
import SpanReview.Shell.Pattern

namespace SpanReview.Shell

/-!
Trimming values. Arguments that are kept apart are one value, with a NUL where they meet. A
pattern is compared with text up to a NUL only, yet how much is trimmed is counted on the whole
value.
-/

def Glyph.isJoint (glyph : Glyph) : Bool :=
  glyph == .bare '\x00'

def Glyph.written : Glyph → List Char
  | .bare c => [c]
  | .escaped c => ['\x81', c]
  | .mark => ['\x88']

def writtenText (glyphs : List Glyph) : List Char :=
  glyphs.flatMap Glyph.written

def patternTrace (pattern : List Glyph) : List Char :=
  let text := patternText pattern
  text ++ '\x00' :: (writtenText pattern ++ ['\x00']).drop (text.length + 1)

/-- The length of the shortest end that fits, in a text in parts that are given from the last
one on and have one character between them. Only the part that the end starts in is looked
at. -/
def Pattern.endLengthIn? (pattern : Pattern) : (behind : Nat) → List (List Char) → Option Nat
  | _, [] => none
  | behind, part :: parts =>
      match pattern.endLength? false part with
      | some length => some (behind + length)
      | none => pattern.endLengthIn? (behind + part.length + 1) parts

/-- How much of the place of a pattern is taken away, from its end on, until what is left of the
pattern fits a text. -/
def lossLength? (pattern : List Glyph) (cs : List Char) : Option Nat :=
  let text := patternText pattern
  let room := (patternTrace pattern).length
  (List.range' (room - text.length) (text.length + 1)).find? fun loss =>
    (Pattern.ofChars (text.take (room - loss))).fits cs

/-- How many glyphs are trimmed from a value at one side. If there is an escaped glyph in the
first argument, its text is read from a copy, which stands behind the value and the pattern; when
the copy is used up, so is the pattern. If there is one further behind, the value is read as it
is written down, and each of those glyphs counts twice there. -/
def trimLength? (pattern : List Glyph) (side : Side) (longest : Bool) (value : List Glyph) :
    Option Nat := do
  let fitting := Pattern.ofChars (patternText pattern)
  let first := value.takeWhile fun glyph => !glyph.isJoint
  let head := charsOf first
  let behind := value.length - first.length
  let isCopied := first.any fun glyph => !glyph.isBare
  match side, longest with
  | .front, false => fitting.startLength? false head
  | .front, true =>
      match fitting.startLength? true head with
      | some length =>
          if isCopied || length = head.length then return length + behind
          else
            let excess := (value.filter fun glyph => !glyph.isBare).length
            if excess ≤ length then return length - excess else none
      | none =>
          if !isCopied then none
          else
            let loss ← lossLength? pattern head
            if loss ≤ behind then return behind - loss else none
  | .back, true => return (← fitting.endLength? true head) + behind
  | .back, false =>
      let text := writtenText value ++
        if isCopied then '\x00' :: patternTrace pattern ++ head else []
      let length ← fitting.endLengthIn? 0 (text.splitOn '\x00').reverse
      if length ≤ value.length then return length else none

/-- A value without the part at one side that a pattern fits, the longest such part or the
shortest; all of it if no part fits. -/
def trim (pattern : List Glyph) (side : Side) (longest : Bool) (value : List Glyph) :
    List Glyph :=
  match trimLength? pattern side longest value, side with
  | none, _ => value
  | some length, .front => value.drop length
  | some length, .back => value.take (value.length - length)

end SpanReview.Shell
