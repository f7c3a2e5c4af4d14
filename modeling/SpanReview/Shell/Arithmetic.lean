import SpanReview.Shell.Machine

namespace SpanReview.Shell.Arithmetic

/-!
Arithmetic on signed 64-bit words. A variable stands for the number that its value is,
and for zero if it has none. An expression is evaluated as it is read, so that of two faults
in it the first is told; a part that does not matter is read but not evaluated.
-/

inductive Operation where
  | multiply
  | divide
  | remainder
  | add
  | subtract
  | shiftLeft
  | shiftRight
  | less
  | lessOrEqual
  | greater
  | greaterOrEqual
  | equal
  | unequal
  | bitAnd
  | bitXor
  | bitOr
  deriving DecidableEq, Repr

def Operation.rank : Operation → Nat
  | .multiply => 0
  | .divide => 0
  | .remainder => 0
  | .add => 1
  | .subtract => 1
  | .shiftLeft => 2
  | .shiftRight => 2
  | .less => 3
  | .lessOrEqual => 3
  | .greater => 3
  | .greaterOrEqual => 3
  | .equal => 4
  | .unequal => 4
  | .bitAnd => 5
  | .bitXor => 6
  | .bitOr => 7

inductive Sign where
  | number (value : Int)
  | name (name : String)
  | symbol (text : String)
  deriving DecidableEq, Repr

def symbols : List String :=
  ["<<=", ">>=", "<<", ">>", "<=", ">=", "==", "!=", "&&", "||", "*=", "/=", "%=", "+=", "-=",
    "&=", "^=", "|=", "*", "/", "%", "+", "-", "<", ">", "=", "!", "~", "&", "^", "|", "?", ":",
    "(", ")"]

def signsOf : Nat → List Char → List Sign
  | 0, _ => []
  | _, [] => []
  | fuel + 1, c :: rest =>
      if c = ' ' ∨ c = '\t' ∨ c = '\n' then signsOf fuel rest
      else if Text.isDigit c then
        match scanInteger? (c :: rest) with
        | some scanned => .number (clampWord scanned.value) :: signsOf fuel scanned.rest
        | none => []
      else if isNameStart c then
        .name (String.ofList ((c :: rest).takeWhile isNameChar)) ::
          signsOf fuel (rest.dropWhile isNameChar)
      else
        match symbols.find? fun text => text.toList.isPrefixOf (c :: rest) with
        | some text => .symbol text :: signsOf fuel ((c :: rest).drop text.length)
        | none => [.symbol (String.singleton c)]

def operation? (text : String) : Option Operation :=
  match text with
  | "*" => some .multiply
  | "/" => some .divide
  | "%" => some .remainder
  | "+" => some .add
  | "-" => some .subtract
  | "<<" => some .shiftLeft
  | ">>" => some .shiftRight
  | "<" => some .less
  | "<=" => some .lessOrEqual
  | ">" => some .greater
  | ">=" => some .greaterOrEqual
  | "==" => some .equal
  | "!=" => some .unequal
  | "&" => some .bitAnd
  | "^" => some .bitXor
  | "|" => some .bitOr
  | _ => none

def assignment? (text : String) : Option (Option Operation) :=
  match text with
  | "=" => some none
  | "*=" => some (some .multiply)
  | "/=" => some (some .divide)
  | "%=" => some (some .remainder)
  | "+=" => some (some .add)
  | "-=" => some (some .subtract)
  | "<<=" => some (some .shiftLeft)
  | ">>=" => some (some .shiftRight)
  | "&=" => some (some .bitAnd)
  | "^=" => some (some .bitXor)
  | "|=" => some (some .bitOr)
  | _ => none

def wrapWord (n : Int) : Int :=
  (Int64.ofInt n).toInt

def truth (holds : Bool) : Int :=
  if holds then 1 else 0

def Operation.overflows (operation : Operation) (a b : Int) : Bool :=
  (operation == .divide || operation == .remainder) && a == Text.minWord && b == -1

def Operation.result? (operation : Operation) (a b : Int) : Option Int :=
  match operation with
  | .multiply => some (wrapWord (a * b))
  | .divide => if b = 0 then none else some (wrapWord (a.tdiv b))
  | .remainder => if b = 0 then none else some (a.tmod b)
  | .add => some (wrapWord (a + b))
  | .subtract => some (wrapWord (a - b))
  | .shiftLeft => some (Int64.ofInt a <<< Int64.ofInt b).toInt
  | .shiftRight => some (Int64.ofInt a >>> Int64.ofInt b).toInt
  | .less => some (truth (a < b))
  | .lessOrEqual => some (truth (a ≤ b))
  | .greater => some (truth (b < a))
  | .greaterOrEqual => some (truth (b ≤ a))
  | .equal => some (truth (a == b))
  | .unequal => some (truth (a != b))
  | .bitAnd => some (Int64.ofInt a &&& Int64.ofInt b).toInt
  | .bitXor => some (Int64.ofInt a ^^^ Int64.ofInt b).toInt
  | .bitOr => some (Int64.ofInt a ||| Int64.ofInt b).toInt

/-- An evaluation under way: how the expression is written, and the signs that are left. -/
structure Reading where
  text : String
  signs : List Sign

abbrev Evaluate := StateT Reading Run

def flaw (what : String) : Evaluate α := do
  let text := (← get).text
  fail ("arithmetic expression: " ++ what ++ ": \"" ++ text ++ "\"")

def sign? : Evaluate (Option Sign) := do
  return (← get).signs.head?

def advance : Evaluate Unit :=
  modify fun reading => { reading with signs := reading.signs.drop 1 }

def takes (text : String) : Evaluate Bool := do
  if (← sign?) == some (.symbol text) then
    advance
    return true
  else return false

def numberNamed (name : String) : Run Int := do
  let text := ((← get).valueOf? name).getD ""
  if text.toList.all isSpace then return 0
  else
    match scanInteger? text.toList with
    | some scanned =>
        if scanned.rest.all isSpace && Text.fitsWord scanned.value then return scanned.value
        else fail ("Illegal number: " ++ text)
    | none => fail ("Illegal number: " ++ text)

/-- The result of an operation. One that overflows is taken for a fault of the program. -/
def apply (operation : Operation) (a b : Int) : Evaluate Int := do
  if operation.overflows a b then throw (.killed 8)
  else
    match operation.result? a b with
    | some result => return result
    | none => flaw "division by zero"

/-! Each reader is told whether what it reads is `idle`, and gives zero for it then. -/

mutual

def primary : Nat → (idle : Bool) → Evaluate Int
  | 0, _ => flaw "expecting primary"
  | fuel + 1, idle => do
      let found ← sign?
      advance
      match found with
      | some (.number value) => return value
      | some (.name name) => if idle then return 0 else numberNamed name
      | some (.symbol "+") => primary fuel idle
      | some (.symbol "-") => return wrapWord (-(← primary fuel idle))
      | some (.symbol "!") => return truth ((← primary fuel idle) == 0)
      | some (.symbol "~") => return -(← primary fuel idle) - 1
      | some (.symbol "(") =>
          let value ← assignment fuel idle
          if ← takes ")" then return value else flaw "expecting ')'"
      | _ => flaw "expecting primary"

def operations : Nat → (idle : Bool) → (rank : Nat) → Int → Evaluate Int
  | 0, _, _, _ => flaw "expecting primary"
  | fuel + 1, idle, rank, left => do
      let operation? := match ← sign? with
        | some (.symbol text) => operation? text
        | _ => none
      match operation? with
      | none => return left
      | some operation =>
          if rank ≤ operation.rank then return left
          else
            advance
            let right ← primary fuel idle
            let right ← operations fuel idle operation.rank right
            let result ← if idle then pure 0 else apply operation left right
            operations fuel idle rank result

def conjunction : Nat → (idle : Bool) → Evaluate Int
  | 0, _ => flaw "expecting primary"
  | fuel + 1, idle => do
      let left ← primary fuel idle
      let left ← operations fuel idle 8 left
      if ← takes "&&" then
        let right ← conjunction fuel (idle || left == 0)
        return truth (left != 0 && right != 0)
      else return left

def disjunction : Nat → (idle : Bool) → Evaluate Int
  | 0, _ => flaw "expecting primary"
  | fuel + 1, idle => do
      let left ← conjunction fuel idle
      if ← takes "||" then
        let right ← disjunction fuel (idle || left != 0)
        return truth (left != 0 || right != 0)
      else return left

def choice : Nat → (idle : Bool) → Evaluate Int
  | 0, _ => flaw "expecting primary"
  | fuel + 1, idle => do
      let test ← disjunction fuel idle
      if ← takes "?" then
        let ifTrue ← assignment fuel (idle || test == 0)
        if ← takes ":" then
          let ifFalse ← choice fuel (idle || test != 0)
          return if test != 0 then ifTrue else ifFalse
        else flaw "expecting ':'"
      else return test

def assignment : Nat → (idle : Bool) → Evaluate Int
  | 0, _ => flaw "expecting primary"
  | fuel + 1, idle => do
      match (← get).signs with
      | .name name :: .symbol text :: _ =>
          match assignment? text with
          | some operation =>
              advance
              advance
              let value ← assignment fuel idle
              if idle then return value
              else
                let result ←
                  match operation with
                  | some operation => apply operation (← numberNamed name) value
                  | none => pure value
                Shell.assign name (Text.intText result)
                return result
          | none => choice fuel idle
      | _ => choice fuel idle

end

def evaluateText (text : String) : Run Int := do
  let signs := signsOf text.length text.toList
  let whole : Evaluate Int := do
    let value ← assignment (8 * signs.length + 8) false
    if (← get).signs.isEmpty then return value else flaw "expecting EOF"
  return (← whole.run ⟨text, signs⟩).1

end SpanReview.Shell.Arithmetic
