import SpanReview.Text.Decimal

namespace SpanReview.Shell

/-!
Whole numbers as commands read them: blanks and a sign may come first, and the text behind
the last digit is left.
-/

def isSpace (c : Char) : Bool :=
  c == ' ' || ('\t' ≤ c && c ≤ '\r')

def digitValue? (base : Nat) (c : Char) : Option Nat :=
  let value :=
    if '0' ≤ c ∧ c ≤ '9' then c.toNat - '0'.toNat
    else if 'a' ≤ c ∧ c ≤ 'f' then c.toNat - 'a'.toNat + 10
    else if 'A' ≤ c ∧ c ≤ 'F' then c.toNat - 'A'.toNat + 10
    else base
  if value < base then some value else none

def isDigitIn (base : Nat) (c : Char) : Bool :=
  (digitValue? base c).isSome

def valueIn (base : Nat) (digits : List Char) : Nat :=
  digits.foldl (fun n c => base * n + (digitValue? base c).getD 0) 0

structure Scanned where
  negative : Bool
  magnitude : Nat
  rest : List Char

def Scanned.value (scanned : Scanned) : Int :=
  if scanned.negative then -(scanned.magnitude : Int) else scanned.magnitude

def baseOf : List Char → Nat × List Char
  | '0' :: x :: c :: rest =>
      if (x = 'x' ∨ x = 'X') ∧ isDigitIn 16 c then (16, c :: rest) else (8, '0' :: x :: c :: rest)
  | '0' :: rest => (8, '0' :: rest)
  | cs => (10, cs)

def signOf : List Char → Bool × List Char
  | '-' :: rest => (true, rest)
  | '+' :: rest => (false, rest)
  | cs => (false, cs)

def scanIn? (base : Nat) (negative : Bool) (cs : List Char) : Option Scanned :=
  match cs.takeWhile (isDigitIn base) with
  | [] => none
  | digits => some ⟨negative, valueIn base digits, cs.dropWhile (isDigitIn base)⟩

def scanDecimal? (cs : List Char) : Option Scanned :=
  let (negative, cs) := signOf (cs.dropWhile isSpace)
  scanIn? 10 negative cs

def scanInteger? (cs : List Char) : Option Scanned :=
  let (negative, cs) := signOf (cs.dropWhile isSpace)
  let (base, digits) := baseOf cs
  scanIn? base negative digits

def clampWord (n : Int) : Int :=
  max Text.minWord (min Text.maxWord n)

/-- The whole number that a text is, if it fits a signed 32-bit word and is not negative. -/
def numeral? (text : String) : Option Nat :=
  match scanDecimal? text.toList with
  | some scanned =>
      if scanned.rest.all isSpace && decide (0 ≤ scanned.value ∧ scanned.value ≤ 2147483647) then
        some scanned.magnitude
      else none
  | none => none

end SpanReview.Shell
