import SpanReview.Shell.Builtin.Basic
import SpanReview.Shell.Glyph

namespace SpanReview.Shell.Builtin

/-!
Builtins that set variables, arguments and options, and that show them.
-/

def quoteFrom : Nat → List Char → List Char
  | 0, _ => []
  | fuel + 1, cs =>
      let plain := cs.takeWhile (· != '\'')
      let rest := cs.dropWhile (· != '\'')
      let quotes := rest.takeWhile (· == '\'')
      let start := '\'' :: plain ++ ['\'']
      if quotes.isEmpty then start
      else
        let behind := rest.dropWhile (· == '\'')
        start ++ '"' :: quotes ++ '"' :: if behind.isEmpty then [] else quoteFrom fuel behind

def quoted (text : String) : String :=
  String.ofList (quoteFrom text.length.succ text.toList)

def listing (lead : String) (isShown : Variable → Bool) (machine : Machine) : String :=
  let entries := machine.bindings.filter fun entry => isShown entry.2
  let entries := entries.mergeSort fun a b => !(b.1 < a.1)
  "".intercalate (entries.map fun (name, held) =>
    lead ++ name ++
      (match held.value with
        | some value => "=" ++ quoted value
        | none => "") ++ "\n")

def setArguments (arguments : List String) : Run Unit :=
  modify fun machine => { machine with arguments := arguments, nextOption := (1, none) }

def shift (arguments : List String) : Run Unit := do
  let count ←
    match arguments with
    | [] => pure 1
    | count :: _ => numeral count
  if (← get).arguments.length < count then fail "can't shift that many"
  else
    setArguments ((← get).arguments.drop count)
    finish 0

/-- What a command line asks for besides options. Those of which it has told nothing so far are
listed as if they were on. -/
structure Invocation where
  takesText : Bool
  untold : List Setting
  words : List String

def Invocation.turn (invocation : Invocation) (setting : Setting) (on : Bool) : Run Invocation := do
  modify fun machine => machine.turn setting on
  return { invocation with untold := invocation.untold.filter (· != setting) }

def Invocation.turnLetter (invocation : Invocation) (letter : Char) (on : Bool) :
    Run Invocation := do
  match Setting.ofLetter? letter with
  | none => fail ("Illegal option -" ++ String.singleton letter)
  | some setting =>
      let invocation ← invocation.turn setting on
      match on, setting.rival? with
      | true, some rival => invocation.turn rival false
      | _, _ => return invocation

/-- Turns the options of letters on or off. Each letter `o` takes the name of an option from
the words behind the letters, or lists the options if there are none; those that are left
are given back. Only a command line has the letters `c` and `l`. -/
def setLetters (inCommandLine on : Bool) : List Char → Invocation → Run Invocation
  | [], invocation => return invocation
  | 'o' :: letters, invocation => do
      match invocation.words with
      | name :: words =>
          match Setting.ofName? name with
          | some setting =>
              let invocation ← { invocation with words := words }.turn setting on
              setLetters inCommandLine on letters invocation
          | none => fail ("Illegal option -o " ++ name)
      | [] =>
          let options := (← get).options ++ invocation.untold
          put (if on then Setting.listing options else Setting.commands options)
          setLetters inCommandLine on letters invocation
  | letter :: letters, invocation => do
      if inCommandLine && letter == 'c' then
        setLetters inCommandLine on letters { invocation with takesText := true }
      else if inCommandLine && letter == 'l' then setLetters inCommandLine on letters invocation
      else setLetters inCommandLine on letters (← invocation.turnLetter letter on)

/-- Takes the options at the start of words and gives back the others. A double dash with
nothing behind it removes all arguments; a single one ends tracing. -/
def setOptions (inCommandLine : Bool) : Nat → Invocation → Run Invocation
  | 0, invocation => return invocation
  | fuel + 1, invocation => do
      match invocation.words with
      | [] => return invocation
      | word :: rest =>
          let behind := { invocation with words := rest }
          match word.toList with
          | ['-'] =>
              if !inCommandLine then
                modify fun machine => (machine.turn .xtrace false).turn .verbose false
              return behind
          | ['-', '-'] =>
              if !inCommandLine && rest.isEmpty then setArguments []
              return behind
          | '-' :: letters =>
              setOptions inCommandLine fuel (← setLetters inCommandLine true letters behind)
          | '+' :: letters =>
              setOptions inCommandLine fuel (← setLetters inCommandLine false letters behind)
          | _ => return invocation

def settleMonitor : Run Unit := do
  let machine ← get
  if machine.has .monitor && machine.own == machine.process then
    warn "can't access tty; job control turned off"
    modify fun machine => machine.turn .monitor false

def set (arguments : List String) : Run Unit := do
  finish 0
  if arguments.isEmpty then
    put (listing "" (fun held => held.value.isSome) (← get))
  else
    let invocation ← setOptions false arguments.length ⟨false, [], arguments⟩
    settleMonitor
    if !invocation.words.isEmpty then setArguments invocation.words

def unset (arguments : List String) : Run Unit := do
  let (letters, names) ← takeLetters "vf" arguments
  finish 0
  if letters.getLast? == some 'f' then
    modify fun machine =>
      { machine with functions := machine.functions.filter fun entry => !names.contains entry.1 }
  else names.forM drop
where
  drop (word : String) : Run Unit := do
    let (name, _) := cutAtEquals word
    match (← get).held? name with
    | some held =>
        if held.isReadOnly then fail (name ++ ": is read only")
        else
          modify fun machine => machine.withVariable name none
          noteValue name ""
    | none => if isNameText name then return else fail (name ++ ": bad variable name")

/-- Marks variables, which are given values on the way if the words have some; shows those
with the mark if there are no words. -/
def declare (name : String) (isMarked : Variable → Bool) (mark : Variable → Variable)
    (arguments : List String) : Run Unit := do
  finish 0
  let (shows, words) ←
    match arguments with
    | word :: rest =>
        match word.toList with
        | ['-', '-'] => pure (false, rest)
        | '-' :: letter :: _ =>
            if letter = 'p' then pure (true, [])
            else fail ("Illegal option -" ++ String.singleton letter)
        | _ => pure (false, arguments)
    | [] => pure (true, [])
  if shows || words.isEmpty then put (listing (name ++ " ") isMarked (← get))
  else words.forM fun word => do
    let (name, value) := cutAtEquals word
    match value with
    | some value => assign name value
    | none =>
        if ((← get).held? name).isNone && !isNameText name then
          fail (name ++ ": bad variable name")
    modify fun machine =>
      machine.withVariable name (some (mark ((machine.held? name).getD ⟨none, false, false⟩)))

def declareLocal (arguments : List String) : Run Unit := do
  if (← get).kept.isEmpty then fail "not in a function"
  else
    finish 0
    arguments.forM fun word => do
      if word = "-" then keep (.options (← get).options)
      else
        let (name, value) := cutAtEquals word
        keepVariable name
        match value with
        | some value => assign name value
        | none => if !isNameText name then fail (name ++ ": bad variable name")

/-- Takes the next line, each character with whether it was escaped; a line end that was
escaped goes on with the next line. Gives the pieces of the line, the place behind it, and
whether it was ended. -/
def lineFrom (raw : Bool) (content : ByteArray) :
    Nat → (place : Nat) → (sofar : List Piece) → List Piece × Nat × Bool
  | 0, place, sofar => (sofar.reverse, place, false)
  | fuel + 1, place, sofar =>
      let char? (place : Nat) : Option Char := content[place]?.map fun b => Char.ofNat b.toNat
      match char? place with
      | none => (sofar.reverse, place, false)
      | some '\n' => (sofar.reverse, place + 1, true)
      | some '\x00' => lineFrom raw content fuel (place + 1) sofar
      | some c =>
          if c = '\\' ∧ !raw then
            match char? (place + 1) with
            | none => (sofar.reverse, place + 1, false)
            | some '\n' => lineFrom raw content fuel (place + 2) (.kept [] :: sofar)
            | some d => lineFrom raw content fuel (place + 2) (.kept [.escaped d] :: sofar)
          else lineFrom raw content fuel (place + 1) (⟨.literal, [.bare c]⟩ :: sofar)

def assignFields : List String → List (List Glyph) → Run Unit
  | [], _ => return
  | name :: names, [] => do
      assign name ""
      assignFields names []
  | name :: names, field :: fields => do
      assign name (textOf field)
      assignFields names fields

def read (arguments : List String) : Run Unit := do
  let (options, names) ← takeOptions "p:r" arguments.length arguments
  let raw := options.any fun option => option.1 == 'r'
  if names.isEmpty then fail "arg count"
  else
    let machine ← get
    let input := machine.wiring.lookup 0
    let (content, start) := match input with
      | some index => (machine.world.source index).toOption.getD (ByteArray.empty, 0)
      | none => (ByteArray.empty, 0)
    let (pieces, place, ended) := lineFrom raw content (content.size + 1 - start) start []
    input.forM fun index =>
      modify fun machine =>
        { machine with world := machine.world.readTo index content place (!ended) }
    finish (if ended then 0 else 1)
    assignFields names (fieldsOf machine.separators (some names.length) pieces)

end SpanReview.Shell.Builtin
