import SpanReview.Shell.Open

namespace SpanReview.Shell.Cat

/-!
The program that copies files to its output, one after another.
-/

def isPrintable (c : Char) : Bool :=
  ' ' ≤ c && c ≤ '~'

def octalText (n : Nat) : String :=
  let digits := Nat.toDigits 8 n
  String.ofList (List.replicate (3 - digits.length) '0' ++ digits)

def escapeText (c : Char) : String :=
  match c with
  | '\x07' => "\\a"
  | '\x08' => "\\b"
  | '\t' => "\\t"
  | '\n' => "\\n"
  | '\x0b' => "\\v"
  | '\x0c' => "\\f"
  | '\r' => "\\r"
  | c => "\\" ++ octalText c.toNat

def needsQuotes (c : Char) : Bool :=
  !isPrintable c || " !\"$&'()*:;<=>?[\\^`|".toList.contains c

/-- Characters that may stand beside a single quote between double quotes, the first one
of a name having a wider choice. -/
def fitsDoubleQuotes (isFirst : Bool) (c : Char) : Bool :=
  c.isAlphanum || " '%+,-./:]_".toList.contains c || (isFirst && (c == '#' || c == '~'))

/-- The inside of single quotes, out of which escapes and single quotes are moved. -/
def quotedInside (escaping : Bool) : List Char → String
  | [] => ""
  | c :: rest =>
      if isPrintable c then
        (if escaping then "''" else "") ++ (if c = '\'' then "'\\''" else String.singleton c) ++
          quotedInside false rest
      else (if escaping then "" else "'$'") ++ escapeText c ++ quotedInside true rest

def shownName (name : String) : String :=
  let cs := name.toList
  let isPlain :=
    match cs with
    | [] => false
    | ['\x7b'] => false
    | ['\x7d'] => false
    | c :: rest => c != '#' && c != '~' && !needsQuotes c && !rest.any needsQuotes
  if isPlain then name
  else
    let fits := match cs with
      | [] => false
      | c :: rest => fitsDoubleQuotes true c && rest.all (fitsDoubleQuotes false)
    if cs.contains '\'' && fits then "\"" ++ name ++ "\""
    else "'" ++ quotedInside false cs ++ "'"

def faultText : Fault → String
  | .missing => "No such file or directory"
  | .notDirectory => "Not a directory"
  | .isDirectory => "Is a directory"
  | .nameTooLong => "File name too long"
  | .denied => "Bad file descriptor"
  | .invalidPath => "Invalid argument"
  | .occupied => "File exists"
  | .notText => "Invalid or incomplete multibyte or wide character"

structure Style where
  numbers : Bool
  numbersFilled : Bool
  squeezes : Bool
  marksEnds : Bool
  showsTabs : Bool
  showsOthers : Bool

def Style.plain : Style := ⟨false, false, false, false, false, false⟩

def Style.isPlain (style : Style) : Bool :=
  !(style.numbers || style.numbersFilled || style.squeezes || style.marksEnds ||
    style.showsTabs || style.showsOthers)

def Style.withLetter? (style : Style) (letter : Char) : Option Style :=
  match letter with
  | 'n' => some { style with numbers := true }
  | 'b' => some { style with numbersFilled := true }
  | 's' => some { style with squeezes := true }
  | 'E' => some { style with marksEnds := true }
  | 'T' => some { style with showsTabs := true }
  | 'v' => some { style with showsOthers := true }
  | 'e' => some { style with showsOthers := true, marksEnds := true }
  | 't' => some { style with showsOthers := true, showsTabs := true }
  | 'A' => some { style with showsOthers := true, showsTabs := true, marksEnds := true }
  | 'u' => some style
  | _ => none

def longOptions : List (String × Option Char) :=
  [ ("number-nonblank", some 'b'), ("number", some 'n'), ("squeeze-blank", some 's'),
    ("show-nonprinting", some 'v'), ("show-ends", some 'E'), ("show-tabs", some 'T'),
    ("show-all", some 'A'), ("help", none), ("version", none) ]

inductive Mistake where
  | unknown (written : String)
  | unclear (written : String) (names : List String)
  | withValue (name : String)
  | badLetter (letter : Char)
  deriving DecidableEq, Repr

def Mistake.message : Mistake → String
  | .unknown written => "unrecognized option '" ++ written ++ "'"
  | .unclear written names =>
      "option '" ++ written ++ "' is ambiguous; possibilities:" ++
        "".intercalate (names.map fun name => " '--" ++ name ++ "'")
  | .withValue name => "option '--" ++ name ++ "' doesn't allow an argument"
  | .badLetter letter => "invalid option -- '" ++ String.singleton letter ++ "'"

def longOption? (written : String) : Except Mistake (Option Char) :=
  let given := written.toList.drop 2
  let name := given.takeWhile (· != '=')
  let settle (option : String × Option Char) : Except Mistake (Option Char) :=
    if name.length < given.length then .error (.withValue option.1) else .ok option.2
  match longOptions.find? fun option => option.1.toList == name with
  | some option => settle option
  | none =>
      match longOptions.filter fun option => name.isPrefixOf option.1.toList with
      | [] => .error (.unknown written)
      | [option] => settle option
      | options => .error (.unclear written (options.map (·.1)))

structure Arguments where
  style : Style
  files : List String
  asks : Bool

def Arguments.parse (found : Arguments) : List String → Except Mistake Arguments
  | [] => .ok { found with files := found.files.reverse }
  | "--" :: rest => .ok { found with files := found.files.reverse ++ rest }
  | argument :: rest =>
      match argument.toList with
      | '-' :: '-' :: _ =>
          match longOption? argument with
          | .ok (some letter) =>
              let style := (found.style.withLetter? letter).getD found.style
              Arguments.parse { found with style := style } rest
          | .ok none => .ok { found with asks := true }
          | .error mistake => .error mistake
      | '-' :: c :: letters =>
          let style := (c :: letters).foldlM (fun style letter =>
            match style.withLetter? letter with
            | some style => Except.ok style
            | none => .error (Mistake.badLetter letter)) found.style
          match style with
          | .ok style => Arguments.parse { found with style := style } rest
          | .error mistake => .error mistake
      | _ => Arguments.parse { found with files := argument :: found.files } rest

/-- How far the output is: the lines with a number, how many empty lines come last, whether
a line starts here, and whether a carriage return is held back until it is clear that a line
ends behind it. -/
structure Progress where
  numbered : Nat
  emptyLines : Nat
  atStart : Bool
  holdsReturn : Bool

def shownChar (style : Style) (c : Char) : String :=
  let caret (n : Nat) : String :=
    if n < 32 then "^" ++ String.singleton (Char.ofNat (n + 64))
    else if n = 127 then "^?"
    else String.singleton (Char.ofNat n)
  if c = '\t' then if style.showsTabs then "^I" else "\t"
  else if !style.showsOthers then String.singleton c
  else if c.toNat < 128 then caret c.toNat
  else "M-" ++ caret (c.toNat - 128)

def numberText (n : Nat) : String :=
  let digits := Text.natText n
  String.ofList (List.replicate (6 - digits.length) ' ') ++ digits ++ "\t"

def Progress.show (style : Style) :
    Progress → List Char → (shown : List String) → List String × Progress
  | progress, [], shown => (shown.reverse, progress)
  | progress, c :: rest, shown =>
      let isEmpty := progress.atStart && c == '\n'
      let empty := if isEmpty then progress.emptyLines + 1 else 0
      let emptyLines := if progress.atStart then empty else progress.emptyLines
      if isEmpty && style.squeezes && 1 < empty then
        Progress.show style { progress with emptyLines := emptyLines } rest shown
      else
        let numbers := progress.atStart &&
          if style.numbersFilled then !isEmpty else style.numbers
        let numbered := if numbers then progress.numbered + 1 else progress.numbered
        let lead := if numbers then numberText numbered else ""
        let held := if !progress.holdsReturn then "" else if c = '\n' then "^M" else "\r"
        let holds := c == '\r' && style.marksEnds && !style.showsOthers
        let body :=
          if holds then ""
          else if c = '\n' then if style.marksEnds then "$\n" else "\n"
          else shownChar style c
        Progress.show style ⟨numbered, emptyLines, c == '\n', holds⟩ rest
          ((held ++ lead ++ body) :: shown)

section

variable (program : String)

def complainOf (name text : String) : Run Unit := do
  complain (program ++ ": " ++ name ++ ": " ++ text ++ "\n")
  finish 1

def writeFaultText : WriteFault → String
  | .notOpen => "Bad file descriptor"
  | .noSpace => "No space left on device"
  | .noReader => "Broken pipe"

def put (text : String) : Run Bool := do
  match ← emit 1 text with
  | none => return true
  | some fault =>
      complainOf program "write error" (writeFaultText fault)
      return false

/-- Whether a file with so many bytes is the one being written to, and is not at its end. -/
def readsOutput (input output : OpenFile) (size : Nat) : Bool :=
  match input, output with
  | .file place position _ _ _, .file other _ _ _ _ => place == other && decide (position < size)
  | _, _ => false

def copy (style : Style) (progress : Progress) (name : String) (index : Nat) :
    Run (Bool × Progress) := do
  let machine ← get
  let output := match machine.wiring.lookup 1 with
    | some output => machine.world.file output
    | none => .directory
  let size := match output with
    | .file place _ _ _ _ => (machine.world.contentAt place).size
    | _ => 0
  if readsOutput (machine.world.file index) output size then
    complainOf program name "input file is output file"
    return (true, progress)
  else
    match machine.world.readAll index with
    | (.error fault, _) =>
        complainOf program name (faultText fault)
        return (true, progress)
    | (.ok bytes, world) =>
        set { machine with world := world }
        let text := Text.octetsOfBytes bytes
        if style.isPlain then return (← put program text, progress)
        else
          let (shown, progress) := progress.show style text.toList []
          return (← put program ("".intercalate shown), progress)

def openFaultText : OpenFault → String
  | .fault cause _ => faultText cause
  | .noDevice _ => "No such device or address"

def openInput (name : String) : Run Opened := do
  if name = "-" then
    match ← descriptor? 0 with
    | some index => return .ok index
    | none => return .error (.fault .denied false)
  else openNamed .read name

def copyFiles (style : Style) : Progress → List String → Run Unit
  | progress, [] => do
      if progress.holdsReturn then let _ ← put program "\r"
  | progress, name :: rest => do
      match ← openInput name with
      | .error fault =>
          complainOf program (shownName name) (openFaultText fault)
          copyFiles style progress rest
      | .ok index =>
          let (done, progress) ← copy program style progress (shownName name) index
          if done then copyFiles style progress rest

def run (arguments : List String) : Run Unit := do
  finish 0
  match Arguments.parse ⟨.plain, [], false⟩ arguments with
  | .error mistake =>
      complain (program ++ ": " ++ mistake.message ++ "\n" ++
        "Try '" ++ program ++ " --help' for more information.\n")
      finish 1
  | .ok ⟨style, files, asks⟩ =>
      if asks then return
      else if (← descriptor? 1).isNone then
        complainOf program "standard output" "Bad file descriptor"
      else
        let files := if files.isEmpty then ["-"] else files
        copyFiles program style ⟨0, 0, true, false⟩ files
        if files.contains "-" && (← descriptor? 0).isNone then
          complainOf program "closing standard input" "Bad file descriptor"

end

end SpanReview.Shell.Cat
