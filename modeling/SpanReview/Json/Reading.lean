import SpanReview.Json.Basic
import SpanReview.Json.Real
import SpanReview.Json.Written

namespace SpanReview.Json

/-!
The value of a written document. What is written may have no value: a number out of
range, half of a surrogate pair, or containers nested too deeply.
-/

def isHighHalf (code : Nat) : Bool :=
  0xD800 ≤ code && code ≤ 0xDBFF

def isLowHalf (code : Nat) : Bool :=
  0xDC00 ≤ code && code ≤ 0xDFFF

/-- The text of a string; two units that form a surrogate pair are one character. -/
def textOfPieces? : List Piece → Option (List Char)
  | [] => some []
  | .char c :: rest => (textOfPieces? rest).map (c :: ·)
  | .unit high :: .unit low :: rest =>
      if isHighHalf high then
        if isLowHalf low then
          (textOfPieces? rest).map
            (Char.ofNat (0x10000 + (high - 0xD800) * 0x400 + (low - 0xDC00)) :: ·)
        else none
      else if isLowHalf high then none
      else (textOfPieces? (.unit low :: rest)).map (Char.ofNat high :: ·)
  | .unit code :: rest =>
      if isHighHalf code || isLowHalf code then none
      else (textOfPieces? rest).map (Char.ofNat code :: ·)

def stringOfPieces? (pieces : List Piece) : Option String :=
  (textOfPieces? pieces).map String.ofList

/-- A whole numeral is an integer if it fits; minus zero is real. -/
def Numeral.integer? (n : Numeral) : Option Int :=
  if n.isWhole then
    match Text.natural? n.whole with
    | some value =>
        if n.negative then
          if value ≠ 0 ∧ value ≤ 9223372036854775808 then some (-(value : Int)) else none
        else if value ≤ 18446744073709551615 then some value else none
    | none => none
  else none

def Numeral.json? (n : Numeral) : Option Json :=
  match n.integer? with
  | some value => some (.int value)
  | none => (Real.ofNumeral? n).map .real

mutual

def Written.json? (depth : Nat) : Written → Option Json
  | .null => some .null
  | .bool value => some (.bool value)
  | .number n => n.json?
  | .string pieces => (stringOfPieces? pieces).map .string
  | .array items =>
      match depth with
      | 0 => none
      | depth + 1 => (Written.items? depth items).map .array
  | .object members =>
      match depth with
      | 0 => none
      | depth + 1 => (Written.members? depth members).map fun ms => .object (sortMembers ms)

def Written.items? (depth : Nat) : List Written → Option (List Json)
  | [] => some []
  | item :: rest =>
      match Written.json? depth item, Written.items? depth rest with
      | some value, some values => some (value :: values)
      | _, _ => none

def Written.members? (depth : Nat) : List (List Piece × Written) → Option (List (String × Json))
  | [] => some []
  | (key, item) :: rest =>
      match stringOfPieces? key, Written.json? depth item, Written.members? depth rest with
      | some key, some value, some values => some ((key, value) :: values)
      | _, _, _ => none

end

def maxDepth : Nat := 127

def parseTo? (depth : Nat) (text : String) : Option Json :=
  (Written.parse? text).bind (Written.json? depth)

def parse? (text : String) : Option Json :=
  parseTo? maxDepth text

def strings? : Json → Option (List String)
  | .array items => items.mapM Json.string?
  | _ => none

end SpanReview.Json
