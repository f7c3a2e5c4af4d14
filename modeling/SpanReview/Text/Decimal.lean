namespace SpanReview.Text

/-!
Whole numbers as text. A number read from text or from a document has to fit a
signed 64-bit word; arithmetic on it afterwards is exact.
-/

def digit? (c : Char) : Option Nat :=
  if '0' ≤ c ∧ c ≤ '9' then some (c.toNat - '0'.toNat) else none

def isDigit (c : Char) : Bool :=
  '0' ≤ c && c ≤ '9'

/-- The value of a run of decimal digits, continued from `acc`. -/
def digitsFrom? (acc : Nat) : List Char → Option Nat
  | [] => some acc
  | c :: rest =>
      match digit? c with
      | some d => digitsFrom? (10 * acc + d) rest
      | none => none

def natural? : List Char → Option Nat
  | [] => none
  | c :: rest => digitsFrom? 0 (c :: rest)

def minWord : Int := -9223372036854775808

def maxWord : Int := 9223372036854775807

def fitsWord (n : Int) : Bool :=
  minWord ≤ n && n ≤ maxWord

def word? (n : Int) : Option Int :=
  if fitsWord n then some n else none

/-- An optional sign, then digits, with a value that fits a word. -/
def integer? : List Char → Option Int
  | '+' :: rest => (natural? rest).bind fun n => word? n
  | '-' :: rest => (natural? rest).bind fun n => word? (-(n : Int))
  | rest => (natural? rest).bind fun n => word? n

def natText (n : Nat) : String :=
  String.ofList (Nat.toDigits 10 n)

def intText : Int → String
  | .ofNat n => natText n
  | .negSucc n => "-" ++ natText (n + 1)

end SpanReview.Text
