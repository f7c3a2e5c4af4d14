import SpanReview.Json.Token

namespace SpanReview.Json

/-!
Real numbers. A literal keeps as many leading digits as fit an unsigned 64-bit word and
is scaled by a power of ten in steps of at most 308 decades. A value is written with the
fewest digits that read back to it.
-/

namespace Real

def wordLimit : Nat := 18446744073709551616

structure Gathered where
  word : Nat
  scale : Int

/-- Adds whole-part digits; from the first that does not fit, each only shifts the scale. -/
def gatherWhole (word : Nat) : List Char → Gathered
  | [] => ⟨word, 0⟩
  | c :: rest =>
      let next := 10 * word + (c.toNat - '0'.toNat)
      if next < wordLimit then gatherWhole next rest else ⟨word, (rest.length + 1 : Nat)⟩

def gatherFraction (sofar : Gathered) : List Char → Gathered
  | [] => sofar
  | c :: rest =>
      let next := 10 * sofar.word + (c.toNat - '0'.toNat)
      if next < wordLimit then gatherFraction ⟨next, sofar.scale - 1⟩ rest else sofar

def maxExponent : Nat := 2147483647

def clampExponent (e : Int) : Int :=
  max (-2147483648) (min maxExponent e)

def powerOfTen (n : Nat) : Float :=
  Float.ofScientific 1 false n

def scaled? (x : Float) (e : Int) : Option Float :=
  if e.natAbs ≤ 308 then
    if 0 ≤ e then
      let y := x * powerOfTen e.natAbs
      if y.isInf then none else some y
    else some (x / powerOfTen e.natAbs)
  else if x == 0.0 then some x
  else if 0 ≤ e then none
  else scaled? (x / powerOfTen 308) (e + 308)
termination_by e.natAbs
decreasing_by omega

def signed (negative : Bool) (x : Float) : Float :=
  if negative then -x else x

def exponentOf? (digits : List Char) : Option Nat :=
  (Text.natural? digits).bind fun n => if n ≤ maxExponent then some n else none

def ofNumeral? (n : Numeral) : Option Float :=
  let gathered := gatherFraction (gatherWhole 0 n.whole) n.fraction
  let word := (UInt64.ofNat gathered.word).toFloat
  match n.exponent with
  | none => (scaled? word gathered.scale).map (signed n.negative)
  | some (down, digits) =>
      match exponentOf? digits with
      | some e =>
          let e := if down then gathered.scale - (e : Int) else gathered.scale + (e : Int)
          (scaled? word (clampExponent e)).map (signed n.negative)
      | none =>
          if gathered.word ≠ 0 ∧ ¬down then none else some (signed n.negative 0.0)

/-- A finite positive value as `mantissa * 2 ^ exponent`, with the flag that its lower
neighbour is only half as far away as its upper one. -/
structure Binary where
  mantissa : Nat
  exponent : Int
  narrowBelow : Bool

def leadingBit : Nat := 4503599627370496

def signBit : Nat := 9223372036854775808

def binaryOf (bits : Nat) : Binary :=
  let fraction := bits % leadingBit
  let biased : Nat := bits / leadingBit % 2048
  if biased = 0 then ⟨fraction, -1074, false⟩
  else ⟨fraction + leadingBit, (biased : Int) - 1075, fraction == 0 && 1 < biased⟩

structure Scientific where
  digits : Nat
  exponent : Int

structure Interval where
  low : Nat
  value : Nat
  high : Nat
  denominator : Nat
  closed : Bool

def Binary.interval (b : Binary) : Interval :=
  let up := b.exponent.toNat
  let down := (-b.exponent).toNat
  let unit := Nat.pow 2 up
  let below := if b.narrowBelow then 1 else 2
  ⟨(4 * b.mantissa - below) * unit, 4 * b.mantissa * unit, (4 * b.mantissa + 2) * unit,
    4 * Nat.pow 2 down, b.mantissa % 2 == 0⟩

def Interval.contains (i : Interval) (numerator denominator : Nat) : Bool :=
  let low := i.low * denominator
  let high := i.high * denominator
  let x := numerator * i.denominator
  if i.closed then low ≤ x && x ≤ high else low < x && x < high

/-- The point of the grid of multiples of `10 ^ e` nearest the value, if one of the two
beside the value lies in the interval. -/
def Interval.onGrid? (i : Interval) (e : Int) : Option Scientific :=
  let num := Nat.pow 10 e.toNat
  let den := Nat.pow 10 (-e).toNat
  let below := i.value * den / (i.denominator * num)
  let above := below + 1
  let gapBelow := i.value * den - below * num * i.denominator
  let gapAbove := above * num * i.denominator - i.value * den
  let belowFits := 0 < below && i.contains (below * num) den
  let aboveFits := i.contains (above * num) den
  if belowFits && aboveFits then
    let takesBelow := gapBelow < gapAbove || (gapBelow == gapAbove && below % 2 == 0)
    some ⟨if takesBelow then below else above, e⟩
  else if belowFits then some ⟨below, e⟩
  else if aboveFits then some ⟨above, e⟩
  else none

/-- A power of ten above the value: no grid as coarse as that has a point beside it. -/
def Interval.magnitude (i : Interval) : Int :=
  if i.denominator ≤ i.value then (Nat.toDigits 10 (i.value / i.denominator)).length
  else 2 - ((Nat.toDigits 10 (i.denominator / i.value)).length : Int)

def shortest (i : Interval) : Scientific :=
  ((List.range 20).findSome? fun (k : Nat) => i.onGrid? (i.magnitude - k)).getD ⟨0, 0⟩

def Scientific.strip (s : Scientific) : Nat → Scientific
  | 0 => s
  | fuel + 1 =>
      if s.digits ≠ 0 ∧ s.digits % 10 = 0 then
        Scientific.strip ⟨s.digits / 10, s.exponent + 1⟩ fuel
      else s

def zeros (n : Nat) : String :=
  String.ofList (List.replicate n '0')

/-- Positional from `1e-5` up to below `1e16`, with a fraction part always; scientific
outside, its exponent always with a sign. -/
def Scientific.text (s : Scientific) : String :=
  let digits := Text.natText s.digits
  let count : Int := digits.length
  let point := count + s.exponent
  if 0 ≤ s.exponent ∧ point ≤ 16 then digits ++ zeros s.exponent.toNat ++ ".0"
  else if 0 < point ∧ point ≤ 16 then
    String.ofList (digits.toList.take point.toNat) ++ "." ++
      String.ofList (digits.toList.drop point.toNat)
  else if -5 < point ∧ point ≤ 0 then "0." ++ zeros (-point).toNat ++ digits
  else
    let mantissa :=
      if count = 1 then digits
      else String.ofList (digits.toList.take 1) ++ "." ++ String.ofList (digits.toList.drop 1)
    mantissa ++ (if 0 < point then "e+" else "e") ++ Text.intText (point - 1)

def text (x : Float) : String :=
  if x.isNaN || x.isInf then "null"
  else
    let bits := x.toBits.toNat
    let sign := if signBit ≤ bits then "-" else ""
    let magnitude := bits % signBit
    if magnitude = 0 then sign ++ "0.0"
    else sign ++ ((shortest (binaryOf magnitude).interval).strip 20).text

end Real

end SpanReview.Json
