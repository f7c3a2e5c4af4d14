import SpanReview.Shell.Open

namespace SpanReview.Shell.Test

/-!
Conditions on texts, whole numbers and files.
-/

def binaries : List String :=
  ["=", "!=", "<", ">", "-eq", "-ne", "-gt", "-ge", "-lt", "-le", "-nt", "-ot", "-ef"]

def unaries : List String :=
  ["-n", "-z", "-e", "-f", "-d", "-s", "-r", "-w", "-x", "-t", "-b", "-c", "-p", "-S", "-h", "-L",
    "-u", "-g", "-k", "-O", "-G"]

def integer (text : String) : Run Int := do
  match scanDecimal? text.toList with
  | some scanned =>
      if scanned.rest.all isSpace && Text.fitsWord scanned.value then return scanned.value
      else fail ("Illegal number: " ++ text)
  | none => fail ("Illegal number: " ++ text)

def compare (operator left right : String) : Run Bool := do
  match operator with
  | "=" => return left == right
  | "!=" => return left != right
  | "<" => return decide (left < right)
  | ">" => return decide (right < left)
  | "-eq" => return (← integer left) == (← integer right)
  | "-ne" => return (← integer left) != (← integer right)
  | "-gt" => return decide ((← integer right) < (← integer left))
  | "-ge" => return decide ((← integer right) ≤ (← integer left))
  | "-lt" => return decide ((← integer left) < (← integer right))
  | "-le" => return decide ((← integer left) ≤ (← integer right))
  | "-ef" =>
      let machine ← get
      match machine.entryAt left, machine.entryAt right with
      | .ok (a, _), .ok (b, _) => return a == b
      | _, _ => return false
  | _ => return false

inductive Standing where
  | regular (isEmpty isProgram : Bool)
  | directory
  | device
  | pipe
  deriving DecidableEq, Repr

def standingAt (place : Location) (entry : Entry) : Standing :=
  match entry with
  | .directory => .directory
  | .file content =>
      if (device? place).isSome then .device
      else
        let isProgram := isProgram place
        .regular (content.size == 0 && !isProgram) isProgram

def standing? (name : String) : Run (Option Standing) := do
  let machine ← get
  let world := machine.world
  match descriptorNamed? name with
  | none =>
      return (machine.entryAt name).toOption.map fun (place, entry) =>
        standingAt place entry
  | some descriptor =>
      return (machine.wiring.lookup descriptor).map fun index =>
        match world.file index with
        | .stream _ _ _ => .pipe
        | .device _ _ _ => .device
        | .directory => .directory
        | .file place _ _ _ _ => standingAt place (.file (world.contentAt place))

/-- A file may be read and written by all, and only directories and programs may be entered. -/
def checkFile (operator : String) (standing : Standing) : Bool :=
  match operator, standing with
  | "-e", _ => true
  | "-r", _ => true
  | "-w", _ => true
  | "-O", _ => true
  | "-G", _ => true
  | "-f", .regular _ _ => true
  | "-s", .regular isEmpty _ => !isEmpty
  | "-s", .directory => true
  | "-d", .directory => true
  | "-x", .directory => true
  | "-x", .regular _ isProgram => isProgram
  | "-c", .device => true
  | "-p", .pipe => true
  | _, _ => false

def check (operator operand : String) : Run Bool := do
  match operator with
  | "-n" => return !operand.isEmpty
  | "-z" => return operand.isEmpty
  | "-t" =>
      let _ ← integer operand
      return false
  | operator => return ((← standing? operand).map (checkFile operator)).getD false

def isOperand : List String → Bool
  | [] => true
  | [_] => false
  | operator :: operand :: _ => binaries.contains operator && operand != ")"

mutual

def primary : Nat → List String → Run (Bool × List String)
  | 0, words => return (false, words)
  | _, [] => return (false, [])
  | fuel + 1, word :: rest => do
      if word = "!" ∧ !isOperand rest then
        let (holds, rest) ← primary fuel rest
        return (!holds, rest)
      else if word = "(" ∧ !rest.isEmpty then
        match rest with
        | ")" :: rest => return (false, rest)
        | rest =>
            match ← disjunction fuel rest with
            | (holds, ")" :: rest) => return (holds, rest)
            | _ => fail "closing paren expected"
      else
        match unaries.contains word && !isOperand rest, rest with
        | true, operand :: rest => return (← check word operand, rest)
        | _, operator :: more =>
            if binaries.contains operator then
              match more with
              | [] => fail (operator ++ ": argument expected")
              | operand :: rest => return (← compare operator word operand, rest)
            else return (!word.isEmpty, rest)
        | _, [] => return (!word.isEmpty, [])

def conjunction : Nat → List String → Run (Bool × List String)
  | 0, words => return (false, words)
  | fuel + 1, words => do
      match ← primary fuel words with
      | (left, "-a" :: rest) =>
          let (right, rest) ← conjunction fuel rest
          return (left && right, rest)
      | found => return found

def disjunction : Nat → List String → Run (Bool × List String)
  | 0, words => return (false, words)
  | fuel + 1, words => do
      match ← conjunction fuel words with
      | (left, "-o" :: rest) =>
          let (right, rest) ← disjunction fuel rest
          return (left || right, rest)
      | found => return found

end

def evaluate (words : List String) : Run Bool := do
  match words with
  | [left, operator, right] =>
      if binaries.contains operator then compare operator left right else general words
  | words => general words
where
  general (words : List String) : Run Bool := do
    match ← disjunction (4 * words.length + 4) words with
    | (holds, []) => return holds
    | (_, rest) =>
        let last := words.getD (words.length - rest.length - 1) ""
        fail ((if last.isEmpty then last else last ++ ": ") ++ "unexpected operator")

def run (words : List String) : Run Unit := do
  finish (if ← evaluate words then 0 else 1)

def runBracketed (words : List String) : Run Unit := do
  if words.getLast? == some "]" then run words.dropLast else fail "missing ]"

end SpanReview.Shell.Test
