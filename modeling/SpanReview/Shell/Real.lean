import SpanReview.Shell.Numeral

namespace SpanReview.Shell

/-!
Real numbers as commands read and write them. A number is read as the nearest one with a
mantissa of 53 bits, and written with a given count of digits; both round a tie to the even
neighbour.
-/

inductive Real where
  | finite (negative : Bool) (mantissa : Nat) (exponent : Int)
  | infinite (negative : Bool)
  | notANumber (negative : Bool)
  deriving DecidableEq, Repr

def roundDiv (numerator denominator : Nat) : Nat :=
  let quotient := numerator / denominator
  let double := 2 * (numerator % denominator)
  if denominator < double ∨ (double = denominator ∧ quotient % 2 = 1) then quotient + 1
  else quotient

def leastExponent : Int := -1074

def mantissaLimit : Nat := 9007199254740992

def nearest (negative : Bool) (numerator denominator : Nat) : Real × Bool :=
  if numerator = 0 then (.finite negative 0 0, false)
  else
    let start : Int := (numerator.log2 : Int) - denominator.log2 - 53
    let scaled (e : Int) : Nat × Nat :=
      (numerator <<< (-e).toNat, denominator <<< e.toNat)
    let fits (e : Int) : Bool := (scaled e).1 < mantissaLimit * (scaled e).2
    let e := if fits start then start else if fits (start + 1) then start + 1 else start + 2
    let isSmall := decide (e < leastExponent)
    let e := max e leastExponent
    let mantissa := roundDiv (scaled e).1 (scaled e).2
    let isExact := mantissa * (scaled e).2 == (scaled e).1
    let (mantissa, e) :=
      if mantissa = mantissaLimit then (mantissa / 2, e + 1) else (mantissa, e)
    if 971 < e then (.infinite negative, true)
    else (.finite negative mantissa e, isSmall && !isExact)

def dropWord? (word : String) (cs : List Char) : Option (List Char) :=
  if (String.ofList (cs.take word.length)).toLower == word then some (cs.drop word.length)
  else none

def exponentOf (letters : List Char) (cs : List Char) : Int × List Char :=
  match cs with
  | c :: rest =>
      if letters.contains c then
        let (negative, digits) := signOf rest
        match scanIn? 10 negative digits with
        | some scanned => (max (-100000) (min 100000 scanned.value), scanned.rest)
        | none => (0, cs)
      else (0, cs)
  | [] => (0, cs)

def digitsOf? (base : Nat) (cs : List Char) : Option (List Char × List Char × List Char) :=
  let whole := cs.takeWhile (isDigitIn base)
  let rest := cs.dropWhile (isDigitIn base)
  let (fraction, rest) := match rest with
    | '.' :: more =>
        let fraction := more.takeWhile (isDigitIn base)
        if whole.isEmpty && fraction.isEmpty then ([], rest)
        else (fraction, more.dropWhile (isDigitIn base))
    | rest => ([], rest)
  if whole.isEmpty && fraction.isEmpty then none else some (whole, fraction, rest)

structure ScannedReal where
  value : Real
  isOutOfRange : Bool
  rest : List Char

def scanHex? (negative : Bool) (cs : List Char) : Option ScannedReal :=
  (digitsOf? 16 cs).map fun (whole, fraction, rest) =>
    let (e, rest) := exponentOf ['p', 'P'] rest
    let e := e - 4 * (fraction.length : Int)
    let digits := valueIn 16 (whole ++ fraction)
    let (value, isOut) := nearest negative (digits <<< e.toNat) (1 <<< (-e).toNat)
    ⟨value, isOut, rest⟩

def scanPlain? (negative : Bool) (cs : List Char) : Option ScannedReal :=
  (digitsOf? 10 cs).map fun (whole, fraction, rest) =>
    let (e, rest) := exponentOf ['e', 'E'] rest
    let e := e - (fraction.length : Int)
    let digits := valueIn 10 (whole ++ fraction)
    let (value, isOut) := nearest negative (digits * Nat.pow 10 e.toNat) (Nat.pow 10 (-e).toNat)
    ⟨value, isOut, rest⟩

/-- What is behind letters, digits and underscores in parentheses, if they are there. -/
def dropLabel (cs : List Char) : List Char :=
  match cs with
  | '(' :: rest =>
      match rest.dropWhile fun c => c.isAlphanum || c == '_' with
      | ')' :: rest => rest
      | _ => cs
  | _ => cs

def scanNamed? (negative : Bool) (cs : List Char) : Option ScannedReal :=
  match dropWord? "infinity" cs, dropWord? "inf" cs, dropWord? "nan" cs with
  | some rest, _, _ => some ⟨.infinite negative, false, rest⟩
  | none, some rest, _ => some ⟨.infinite negative, false, rest⟩
  | none, none, some rest => some ⟨.notANumber negative, false, dropLabel rest⟩
  | none, none, none => none

/-- A real number at the start of a text, blanks and a sign being allowed before it. -/
def scanReal? (cs : List Char) : Option ScannedReal :=
  let (negative, cs) := signOf (cs.dropWhile isSpace)
  match scanNamed? negative cs with
  | some scanned => some scanned
  | none =>
      let hex := match cs with
        | '0' :: x :: rest => if x = 'x' ∨ x = 'X' then scanHex? negative rest else none
        | _ => none
      match hex with
      | some scanned => some scanned
      | none => scanPlain? negative cs

def Real.isNegative : Real → Bool
  | .finite negative _ _ => negative
  | .infinite negative => negative
  | .notANumber negative => negative

def Real.isFinite : Real → Bool
  | .finite _ _ _ => true
  | _ => false

/-- How many digits are written, and whether a point is written with none behind it. -/
structure Places where
  count : Nat
  keepsPoint : Bool

def Places.pointed (places : Places) (digits : Nat) : String :=
  let text := Text.natText digits
  let text := String.ofList (List.replicate (places.count + 1 - text.length) '0') ++ text
  if places.count = 0 then if places.keepsPoint then text ++ "." else text
  else
    let whole := text.length - places.count
    String.ofList (text.toList.take whole) ++ "." ++ String.ofList (text.toList.drop whole)

def quotientOf (mantissa : Nat) (exponent : Int) : Nat × Nat :=
  (mantissa <<< exponent.toNat, 1 <<< (-exponent).toNat)

def fixedText (places : Places) (numerator denominator : Nat) : String :=
  places.pointed (roundDiv (numerator * Nat.pow 10 places.count) denominator)

def decimalExponent (numerator denominator : Nat) : Int :=
  if denominator ≤ numerator then ((Text.natText (numerator / denominator)).length : Int) - 1
  else -((Text.natText ((denominator + numerator - 1) / numerator - 1)).length : Int)

def scientific (count : Nat) (numerator denominator : Nat) : Nat × Int :=
  if numerator = 0 then (0, 0)
  else
    let e := decimalExponent numerator denominator
    let shift := (count : Int) - e
    let digits := roundDiv (numerator * Nat.pow 10 shift.toNat)
      (denominator * Nat.pow 10 (-shift).toNat)
    if digits = Nat.pow 10 (count + 1) then (digits / 10, e + 1) else (digits, e)

def exponentText (e : Int) : String :=
  let digits := Text.natText e.natAbs
  (if e < 0 then "-" else "+") ++ (if digits.length < 2 then "0" else "") ++ digits

def scientificText (places : Places) (numerator denominator : Nat) : String :=
  let (digits, e) := scientific places.count numerator denominator
  places.pointed digits ++ "e" ++ exponentText e

def dropLastZeros (text : String) : String :=
  if text.toList.contains '.' then
    let cs := text.toList.reverse.dropWhile (· == '0')
    let cs := match cs with
      | '.' :: rest => rest
      | cs => cs
    String.ofList cs.reverse
  else text

/-- So many digits in all, in the form that suits the size, zeros at the end being dropped
unless the point is kept. -/
def generalText (places : Places) (numerator denominator : Nat) : String :=
  let count := max places.count 1
  let (digits, e) := scientific (count - 1) numerator denominator
  let trim (text : String) : String := if places.keepsPoint then text else dropLastZeros text
  if -4 ≤ e ∧ e < count then
    trim (fixedText ⟨((count : Int) - 1 - e).toNat, places.keepsPoint⟩ numerator denominator)
  else trim (Places.pointed ⟨count - 1, places.keepsPoint⟩ digits) ++ "e" ++ exponentText e

def hexText (n width : Nat) : String :=
  let digits := Nat.toDigits 16 n
  String.ofList (List.replicate (width - digits.length) '0' ++ digits)

def hexRealText (count : Option Nat) (keepsPoint : Bool) (mantissa : Nat) (exponent : Int) :
    String :=
  let e := if mantissa = 0 then 0 else if mantissa < mantissaLimit / 2 then -1022 else exponent + 52
  let kept := min (count.getD 13) 13
  let rounded := roundDiv mantissa (1 <<< (4 * (13 - kept)))
  let lead := rounded >>> (4 * kept)
  let fraction := if kept = 0 then "" else hexText (rounded % (1 <<< (4 * kept))) kept
  let fraction := match count with
    | none => String.ofList (fraction.toList.reverse.dropWhile (· == '0')).reverse
    | some count => fraction ++ String.ofList (List.replicate (count - 13) '0')
  let point := if fraction.isEmpty && !keepsPoint then "" else "."
  "0x" ++ Text.natText lead ++ point ++ fraction ++ "p" ++
    (if e < 0 then "-" else "+") ++ Text.natText e.natAbs

def Real.text (form : Char) (precision : Option Nat) (keepsPoint : Bool) : Real → String
  | .infinite _ => "inf"
  | .notANumber _ => "nan"
  | .finite _ mantissa exponent =>
      let (numerator, denominator) := quotientOf mantissa exponent
      let places : Places := ⟨precision.getD 6, keepsPoint⟩
      match form with
      | 'f' => fixedText places numerator denominator
      | 'e' => scientificText places numerator denominator
      | 'g' => generalText places numerator denominator
      | _ => hexRealText precision keepsPoint mantissa exponent

end SpanReview.Shell
