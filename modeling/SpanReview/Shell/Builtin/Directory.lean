import SpanReview.Shell.Builtin.Basic

namespace SpanReview.Shell.Builtin

/-!
Builtins about the working directory and about what files are made like.
-/

/-- The path of a directory as it reads from the root, names being taken back by two dots. -/
def logicalPath (directory name : String) : String :=
  let whole := if Path.isAbsolute name then name else directory ++ "/" ++ name
  let isDoubled := whole.startsWith "//" && !whole.startsWith "///"
  let names := (Path.names whole).foldl
    (fun names name => if name = ".." then names.dropLast else names ++ [name]) []
  (if isDoubled then "//" else "/") ++ "/".intercalate names

def pathAt (place : Location) : String :=
  "/" ++ "/".intercalate (place.map Text.octets)

def enter (isPhysical : Bool) (name : String) : Run Bool := do
  let machine ← get
  let path := if isPhysical then name else logicalPath machine.directory name
  match machine.entryAt path with
  | .ok (place, .directory) =>
      let exported (value : String) : Option Variable := some ⟨some value, true, false⟩
      let directory := if isPhysical then pathAt place else path
      for (name, value) in [("OLDPWD", machine.directory), ("PWD", directory)] do
        if ((← get).held? name).any (·.isReadOnly) then fail (name ++ ": is read only")
        modify fun machine => machine.withVariable name (exported value)
      modify fun machine =>
        { machine with
          place := place
          directory := directory
          tracked := machine.tracked.map fun tracked => { tracked with isStale := true } }
      return true
  | _ => return false

def isDirect (name : String) : Bool :=
  Path.isAbsolute name || name == "." || name == ".." || name.startsWith "./" ||
    name.startsWith "../"

def changeDirectory (arguments : List String) : Run Unit := do
  let (letters, words) ← takeLetters "LP" arguments
  let isPhysical := letters.getLast? == some 'P'
  let machine ← get
  let (name, shows) := match words with
    | [] => ((machine.valueOf? "HOME").getD "", false)
    | "-" :: _ => ((machine.valueOf? "OLDPWD").getD "", true)
    | name :: _ => (name, false)
  let direct := isDirect name
  let name := if name.isEmpty then "." else name
  let others := if direct then [] else
    match machine.valueOf? "CDPATH" with
    | some path => path.toList.splitOn ':'
    | none => []
  let tried := others.map fun directory =>
    (if directory.isEmpty then name else String.ofList directory ++ "/" ++ name,
      !directory.isEmpty)
  let isThere (entry : String × Bool) : Bool := match machine.entryAt entry.1 with
    | .ok (_, .directory) => true
    | _ => false
  let (path, isElsewhere) := (tried.find? isThere).getD (name, false)
  if ← enter isPhysical path then
    finish 0
    if shows || isElsewhere then put ((← get).directory ++ "\n")
  else fail ("can't cd to " ++ (words.head?.map fun _ => name).getD name)

def workingDirectory (arguments : List String) : Run Unit := do
  let (letters, _) ← takeLetters "LP" arguments
  let machine ← get
  finish 0
  let path := if letters.getLast? == some 'P' then pathAt machine.place else machine.directory
  put (path ++ "\n")

def shiftOf? (who : Char) : Option Nat :=
  match who with
  | 'u' => some 6
  | 'g' => some 3
  | 'o' => some 0
  | _ => none

def permission? (mode : Nat) (letter : Char) : Option Nat :=
  match letter with
  | 'r' => some 4
  | 'w' => some 2
  | 'x' => some 1
  | 'X' => some (if mode &&& 73 = 0 then 0 else 1)
  | 's' => some 0
  | 't' => some 0
  | letter => (shiftOf? letter).map fun shift => (mode >>> shift) &&& 7

def modeFrom : Nat → (mode : Nat) → (shifts : List Nat) → List Char → Option Nat
  | 0, _, _, _ => none
  | _, mode, _, [] => some mode
  | fuel + 1, mode, shifts, c :: rest =>
      match shiftOf? c with
      | some shift => modeFrom fuel mode (shift :: shifts) rest
      | none =>
          if c = 'a' then modeFrom fuel mode [6, 3, 0] rest
          else if c = ',' then modeFrom fuel mode [] rest
          else if c = '+' ∨ c = '-' ∨ c = '=' then
            let letters := rest.takeWhile fun letter => (permission? mode letter).isSome
            let bits := (letters.filterMap (permission? mode)).foldl (· ||| ·) 0
            let spread (bits : Nat) : Nat :=
              (if shifts.isEmpty then [6, 3, 0] else shifts).foldl
                (fun all shift => all ||| (bits <<< shift)) 0
            let without (some : Nat) : Nat := mode &&& (511 ^^^ some)
            let mode :=
              if c = '+' then mode ||| spread bits
              else if c = '-' then without (spread bits)
              else without (spread 7) ||| spread bits
            modeFrom fuel mode shifts (rest.drop letters.length)
          else none

def maskText (mask : Nat) : String :=
  let digits := Nat.toDigits 8 mask
  String.ofList (List.replicate (4 - digits.length) '0' ++ digits)

def maskLetters (mask : Nat) : String :=
  let part (who : String) (shift : Nat) : String :=
    let left := 7 - ((mask >>> shift) &&& 7)
    who ++ "=" ++ (if left &&& 4 = 0 then "" else "r") ++ (if left &&& 2 = 0 then "" else "w") ++
      (if left &&& 1 = 0 then "" else "x")
  part "u" 6 ++ "," ++ part "g" 3 ++ "," ++ part "o" 0 ++ "\n"

def umask (arguments : List String) : Run Unit := do
  let (letters, words) ← takeLetters "S" arguments
  let mask := (← get).mask
  finish 0
  match words with
  | [] => put (if letters.isEmpty then maskText mask ++ "\n" else maskLetters mask)
  | word :: _ =>
      let cs := word.toList
      if cs.head?.any Text.isDigit then
        if cs.all isOctal then
          modify fun machine => { machine with mask := valueIn 8 cs % 512 }
        else fail ("Illegal number: " ++ word)
      else
        match modeFrom cs.length.succ (511 - mask) [] cs with
        | some mode => modify fun machine => { machine with mask := 511 - mode }
        | none => fail ("Illegal mode: " ++ word)

end SpanReview.Shell.Builtin
