import SpanReview.Shell.Escape
import SpanReview.Shell.Real

namespace SpanReview.Shell.Printf

/-!
Text made from a format and arguments. The format is used again while arguments are left
that it takes.
-/

structure Directive where
  leftAligned : Bool
  plus : Bool
  blank : Bool
  zeroPadded : Bool
  alternative : Bool
  width : Nat
  precision : Option Nat

inductive Flaw where
  | noNumber
  | partly
  | outOfRange
  deriving DecidableEq, Repr

structure Printing where
  output : List Char
  arguments : List String
  taken : Bool
  flaws : List (String × Flaw)

inductive Refusal where
  | noFormat
  | badDirective (written : String)
  | tooWide
  deriving DecidableEq, Repr

inductive Halt where
  | ended
  | refused (refusal : Refusal)

abbrev Print := ExceptT Halt (StateM Printing)

def put (text : String) : Print Unit :=
  modify fun printing => { printing with output := text.toList.reverse ++ printing.output }

def warn (argument : String) (flaw : Flaw) : Print Unit :=
  modify fun printing => { printing with flaws := printing.flaws ++ [(argument, flaw)] }

def argument? : Print (Option String) := do
  let printing ← get
  match printing.arguments with
  | argument :: rest =>
      set { printing with arguments := rest, taken := true }
      return some argument
  | [] => return none

def check (argument : String) (rest : Option (List Char)) (isOutOfRange : Bool) : Print Unit := do
  match rest with
  | none => if !argument.isEmpty then warn argument .noNumber
  | some (_ :: _) => warn argument .partly
  | some [] => if isOutOfRange then warn argument .outOfRange

def quotedNumber? (argument : String) : Option Nat :=
  match argument.toList with
  | c :: rest => if c = '"' ∨ c = '\'' then some ((rest.head?.map Char.toNat).getD 0) else none
  | [] => none

def wordModulus : Int := 18446744073709551616

def signedArgument : Print Int := do
  match ← argument? with
  | none => return 0
  | some argument =>
      match quotedNumber? argument with
      | some n => return n
      | none =>
          match scanInteger? argument.toList with
          | some scanned =>
              check argument (some scanned.rest) (!Text.fitsWord scanned.value)
              return clampWord scanned.value
          | none =>
              check argument none false
              return 0

def unsignedArgument : Print Nat := do
  match ← argument? with
  | none => return 0
  | some argument =>
      match quotedNumber? argument with
      | some n => return n
      | none =>
          match scanInteger? argument.toList with
          | some scanned =>
              let isOutOfRange := decide (wordModulus ≤ (scanned.magnitude : Int))
              check argument (some scanned.rest) isOutOfRange
              return if isOutOfRange then (wordModulus - 1).toNat
                else (scanned.value.emod wordModulus).toNat
          | none =>
              check argument none false
              return 0

def realArgument : Print Real := do
  match ← argument? with
  | none => return .finite false 0 0
  | some argument =>
      match quotedNumber? argument with
      | some n => return (nearest false n 1).1
      | none =>
          match scanReal? argument.toList with
          | some scanned =>
              check argument (some scanned.rest) scanned.isOutOfRange
              return scanned.value
          | none =>
              check argument none false
              return .finite false 0 0

def Directive.pad (directive : Directive) (text : String) : String :=
  let blanks := String.ofList (List.replicate (directive.width - text.length) ' ')
  if directive.leftAligned then text ++ blanks else blanks ++ text

/-- A number behind its sign or base, zeros being put between them if they fill the width. -/
def Directive.padNumber (directive : Directive) (zeros : Bool) (lead digits : String) : String :=
  if zeros && directive.zeroPadded && !directive.leftAligned then
    lead ++ String.ofList (List.replicate (directive.width - lead.length - digits.length) '0') ++
      digits
  else directive.pad (lead ++ digits)

def Directive.sign (directive : Directive) (negative : Bool) : String :=
  if negative then "-" else if directive.plus then "+" else if directive.blank then " " else ""

/-- Digits with zeros up to the precision; a zero with the precision zero has none. -/
def Directive.digits (directive : Directive) (base n : Nat) : String :=
  match directive.precision with
  | some precision =>
      let digits := if n = 0 then [] else Nat.toDigits base n
      String.ofList (List.replicate (precision - digits.length) '0' ++ digits)
  | none => String.ofList (Nat.toDigits base n)

def Directive.integer (directive : Directive) (n : Int) : String :=
  directive.padNumber directive.precision.isNone (directive.sign (n < 0))
    (directive.digits 10 n.natAbs)

def Directive.natural (directive : Directive) (form : Char) (n : Nat) : String :=
  let base := if form = 'o' then 8 else if form = 'u' then 10 else 16
  let digits := directive.digits base n
  let digits :=
    if directive.alternative && form == 'o' && !digits.startsWith "0" then "0" ++ digits
    else digits
  let lead := if directive.alternative && base == 16 && n != 0 then "0x" else ""
  let text := directive.padNumber directive.precision.isNone lead digits
  if form = 'X' then text.toUpper else text

def Directive.real (directive : Directive) (form : Char) (x : Real) : String :=
  let text := x.text form.toLower directive.precision directive.alternative
  let (lead, text) :=
    if form.toLower = 'a' && x.isFinite then
      ("0x", String.ofList (text.toList.drop 2))
    else ("", text)
  let text := directive.padNumber x.isFinite (directive.sign x.isNegative ++ lead) text
  if form.isUpper then text.toUpper else text

def Directive.cut (directive : Directive) (text : String) : String :=
  match directive.precision with
  | some precision => String.ofList (text.toList.take precision)
  | none => text

def Directive.admit (directive : Directive) : Print Unit :=
  if 2147483647 < max directive.width (directive.precision.getD 0) then
    throw (.refused .tooWide)
  else return

/-- Puts out the next argument as a directive says, `written` being the whole of it. -/
def convert (directive : Directive) (form : Char) (written : String) : Print Unit := do
  if form = 's' then
    let text := (← argument?).getD ""
    directive.admit
    put (directive.pad (directive.cut text))
  else if form = 'b' then
    let (text, ended) := unescape ((← argument?).getD "")
    directive.admit
    put (directive.pad (directive.cut text))
    if ended then throw .ended
  else if form = 'c' then
    let text := (← argument?).getD ""
    directive.admit
    put (directive.pad (String.singleton (text.toList.head?.getD '\x00')))
  else if form = 'd' ∨ form = 'i' then
    let n ← signedArgument
    directive.admit
    put (directive.integer n)
  else if ['o', 'u', 'x', 'X'].contains form then
    let n ← unsignedArgument
    directive.admit
    put (directive.natural form n)
  else if ['a', 'A', 'e', 'E', 'f', 'F', 'g', 'G'].contains form then
    let x ← realArgument
    directive.admit
    put (directive.real form x)
  else throw (.refused (.badDirective written))

def isFlag (c : Char) : Bool :=
  c == '#' || c == '-' || c == '+' || c == ' ' || c == '0'

/-- A width or precision, which may be an argument taken as a 32-bit word; none if nothing
is written. -/
def size (cs : List Char) : Print (Option Int × List Char) := do
  match cs with
  | '*' :: rest => return (some (Int.bmod (← signedArgument) 4294967296), rest)
  | cs =>
      let digits := cs.takeWhile Text.isDigit
      return ((Text.natural? digits).map Int.ofNat, cs.dropWhile Text.isDigit)

def directive (cs : List Char) : Print (List Char) := do
  let flags := cs.takeWhile isFlag
  let (width, rest) ← size (cs.dropWhile isFlag)
  let (precision, rest) ←
    match rest with
    | '.' :: rest => do
        let (precision, rest) ← size rest
        pure (some (precision.getD 0), rest)
    | rest => pure (none, rest)
  match rest with
  | [] => throw (.refused .noFormat)
  | form :: rest =>
      let width := width.getD 0
      let precision := precision.bind fun n => if n < 0 then none else some n.toNat
      let found : Directive :=
        { leftAligned := flags.contains '-' || decide (width < 0)
          plus := flags.contains '+'
          blank := flags.contains ' '
          zeroPadded := flags.contains '0'
          alternative := flags.contains '#'
          width := width.natAbs
          precision := precision }
      convert found form (String.ofList ('%' :: cs.take (cs.length - rest.length)))
      return rest

def pass : Nat → List Char → Print Unit
  | 0, _ => return
  | _, [] => return
  | fuel + 1, '\\' :: rest => do
      let (byte, rest) := escape rest
      put (String.singleton byte)
      pass fuel rest
  | fuel + 1, '%' :: '%' :: rest => do
      put "%"
      pass fuel rest
  | fuel + 1, '%' :: rest => do
      pass fuel (← directive rest)
  | fuel + 1, c :: rest => do
      put (String.singleton c)
      pass fuel rest

def passes (template : List Char) : Nat → Print Unit
  | 0 => return
  | fuel + 1 => do
      pass (template.length + 1) template
      let printing ← get
      if printing.taken && !printing.arguments.isEmpty then passes template fuel

/-- What was made, the flaws of the arguments, those that were not taken, and why the rest
was given up. -/
structure Printed where
  output : String
  flaws : List (String × Flaw)
  unused : List String
  refusal : Option Refusal

def printf (template : String) (arguments : List String) : Printed :=
  let (halt, printing) := (passes template.toList (arguments.length + 1)).run
    ⟨[], arguments, false, []⟩
  let refusal := match halt with
    | .error (.refused refusal) => some refusal
    | _ => none
  ⟨String.ofList printing.output.reverse, printing.flaws, printing.arguments, refusal⟩

end SpanReview.Shell.Printf
